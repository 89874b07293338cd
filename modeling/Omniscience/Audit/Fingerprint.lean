import Omniscience.Base.Uuid
import Omniscience.Lib.JsonText
import Mathlib.Algebra.Order.Field.Rat

/-!
# State fingerprints

`compute_state_fingerprint` (`omniscience_core/audit/fingerprint.py`) hashes the canonical JSON text
of a whole response.  So two responses have the same fingerprint exactly when they are the same
value, up to the order of the members of their dictionaries (`computeStateFingerprint_eq_iff`).

Times are in microseconds and floats are rational numbers.  `Runtime` has the library functions that
are not unfolded: the text forms of timestamps and floats, and the hash.
-/

namespace Omniscience.Audit

open JsonText Function List

/-- A UTC timestamp. -/
abbrev Time := ℤ

/-- Library functions. -/
structure Runtime where
  /-- `moment.isoformat()`. -/
  isoformat : Time → String
  /-- A timestamp in the JSON mode of `model_dump`. -/
  dumpDatetime : Time → String
  /-- `repr(value)` of a float. -/
  floatRepr : ℚ → String
  /-- `math.exp`. -/
  exp : ℚ → ℚ
  /-- `hashlib.blake2b(data, digest_size=32).hexdigest()`. -/
  blake2b : Bytes → String

/-- Different values have different text forms, the text of a float is that of a JSON number, and
the hash has no collisions. -/
structure Runtime.Faithful (rt : Runtime) : Prop where
  isoformat_injective : Injective rt.isoformat
  dumpDatetime_injective : Injective rt.dumpDatetime
  floatRepr_injective : Injective rt.floatRepr
  isFloatText_floatRepr : ∀ q, IsFloatText (rt.floatRepr q)
  blake2b_injective : Injective rt.blake2b

variable (rt : Runtime)

/-- `_DOMAIN_PREFIX`. -/
def domainPrefix : Bytes := encodeUtf8 "omniscience-replay-v1:"

/-- `_canonical_json`.  A response holds JSON values only, so that `_json_default` is not called. -/
def canonicalJson (payload : Json) : Bytes := encodeUtf8 (dumps payload)

/-- `compute_state_fingerprint`. -/
def computeStateFingerprint (payload : Json) : String :=
  rt.blake2b (domainPrefix ++ canonicalJson payload)

theorem encodeUtf8_injective : Injective encodeUtf8 := by
  intro s t h
  have hs := decodeUtf8_encodeUtf8 s
  rw [h, decodeUtf8_encodeUtf8] at hs
  exact (Except.ok.inj hs).symm

variable {rt}

theorem computeStateFingerprint_eq_iff (hrt : rt.Faithful) {v w : Json}
    (hv : AllFloats IsFloatText v) (hw : AllFloats IsFloatText w) :
    computeStateFingerprint rt v = computeStateFingerprint rt w ↔ sorted v = sorted w := by
  constructor
  · intro h
    have htext := encodeUtf8_injective (append_cancel_left (hrt.blake2b_injective h))
    exact dumps_injective hv hw htext
  · intro h
    rw [computeStateFingerprint, computeStateFingerprint, canonicalJson, canonicalJson, dumps,
      dumps, h]

/-! ### A runtime -/

theorem renderInt_injective : Injective renderInt := by
  intro m n h
  have hm := readNumber_renderInt id m
  rw [h, readNumber_renderInt] at hm
  exact (Json.int.inj (Option.some.inj hm)).symm

/-- Text forms of timestamps, of which that of the epoch is given. -/
def sampleTime (epoch : String) (t : Time) : String :=
  if t = 0 then epoch else String.ofList (renderInt t)

theorem sampleTime_injective {epoch : String} (h : readNumber id epoch.toList = none) :
    Injective (sampleTime epoch) := by
  have hne (t : Time) : String.ofList (renderInt t) ≠ epoch := by
    rintro rfl
    rw [String.toList_ofList, readNumber_renderInt] at h
    cases h
  intro s t hst
  unfold sampleTime at hst
  split_ifs at hst with hs ht ht
  · rw [hs, ht]
  · exact absurd hst.symm (hne t)
  · exact absurd hst (hne s)
  · exact renderInt_injective (String.ofList_injective hst)

/-- The digits after the point: `0` for a whole number. -/
def sampleFraction (q : ℚ) : List Char := if q.den = 1 then ['0'] else Nat.toDigits 10 q.den

/-- Text forms that agree with the real ones at the epoch and at whole floats, and a hash that keeps
its input. -/
def Runtime.sample : Runtime where
  isoformat := sampleTime "1970-01-01T00:00:00+00:00"
  dumpDatetime := sampleTime "1970-01-01T00:00:00Z"
  floatRepr q := String.ofList (renderInt q.num ++ '.' :: sampleFraction q)
  exp _ := 1
  blake2b data := String.ofList (data.map fun b => Char.ofNat b.toNat)

theorem isDigits_sampleFraction (q : ℚ) : isDigits (sampleFraction q) = true := by
  rw [sampleFraction]
  split_ifs
  · decide
  · rw [isDigits, Bool.and_eq_true, Bool.not_eq_true', isEmpty_eq_false_iff, all_eq_true]
    exact ⟨Nat.toDigits_ne_nil, isDigit_toDigits⟩

theorem isDigit_sampleFraction (q : ℚ) : ∀ c ∈ sampleFraction q, c.isDigit = true := by
  have h := isDigits_sampleFraction q
  rw [isDigits, Bool.and_eq_true, all_eq_true] at h
  exact h.2

theorem sampleFraction_injective {p q : ℚ} (h : sampleFraction p = sampleFraction q) :
    p.den = q.den := by
  have hzero (q : ℚ) : ['0'] ≠ Nat.toDigits 10 q.den := by
    intro h
    exact q.den_ne_zero (head_toDigits _ (by rw [← h]; rfl))
  unfold sampleFraction at h
  split_ifs at h with hp hq hq
  · rw [hp, hq]
  · exact absurd h (hzero q)
  · exact absurd h.symm (hzero p)
  · have hden := congrArg (Nat.ofDigitChars 10 · 0) h
    simpa only [Nat.ofDigitChars_ten_toDigits] using hden

theorem dot_notMem_renderInt (n : ℤ) : '.' ∉ renderInt n := by
  intro h
  cases n with
  | ofNat n => exact absurd (isDigit_toDigits _ h) (by decide)
  | negSucc n =>
    rcases mem_cons.1 h with h | h
    · cases h
    · exact absurd (isDigit_toDigits _ h) (by decide)

theorem isFloatLiteral_sample (n : ℕ) (q : ℚ) :
    isFloatLiteral (Nat.toDigits 10 n ++ '.' :: sampleFraction q) = true := by
  have htake : (sampleFraction q).takeWhile Char.isDigit = sampleFraction q :=
    takeWhile_eq_self_iff.2 (isDigit_sampleFraction q)
  have hdrop : (sampleFraction q).dropWhile Char.isDigit = [] :=
    dropWhile_eq_nil_iff.2 (isDigit_sampleFraction q)
  have hdot : Char.isDigit '.' = false := by decide
  rw [isFloatLiteral, takeWhile_append_of_pos isDigit_toDigits,
    dropWhile_append_of_pos isDigit_toDigits, takeWhile_cons_of_neg (by simp [hdot]),
    dropWhile_cons_of_neg (by simp [hdot]), append_nil, isNatural_toDigits,
    Bool.true_and, isFloatTail, htake, hdrop, isDigits_sampleFraction]
  rfl

theorem isFloatText_sample (q : ℚ) : IsFloatText (Runtime.sample.floatRepr q) := by
  refine .inr (.inr (.inr ⟨?_, ?_⟩))
  · intro c hc
    rw [Runtime.sample, String.toList_ofList] at hc
    rcases mem_append.1 hc with hc | hc
    · exact isNumChar_renderInt _ c hc
    · rcases mem_cons.1 hc with rfl | hc
      · decide
      · exact isNumChar_of_isDigit (isDigit_sampleFraction q c hc)
  · rw [Runtime.sample, String.toList_ofList]
    cases q.num with
    | ofNat n =>
      have hunsigned : unsigned (Nat.toDigits 10 n ++ '.' :: sampleFraction q) =
          (false, Nat.toDigits 10 n ++ '.' :: sampleFraction q) := by
        obtain ⟨d, ds, hds⟩ := exists_cons_of_ne_nil (Nat.toDigits_ne_nil (b := 10) (n := n))
        have hd : d ≠ '-' := by
          rintro rfl
          exact absurd (isDigit_toDigits (n := n) _ (by rw [hds]; exact mem_cons_self))
            (by decide)
        rw [hds, cons_append, unsigned, if_neg hd]
      rw [renderInt, hunsigned]
      exact isFloatLiteral_sample n q
    | negSucc n =>
      rw [renderInt, cons_append, unsigned, if_pos rfl]
      exact isFloatLiteral_sample (n + 1) q

theorem charOfByte_injective : Injective fun b : UInt8 => Char.ofNat b.toNat := by
  have hbyte : ∀ n < 256, (Char.ofNat n).toNat = n := by decide +kernel
  have hval (b : UInt8) : (Char.ofNat b.toNat).toNat = b.toNat := hbyte _ b.toNat_lt
  intro a b h
  have hnat : (Char.ofNat a.toNat).toNat = (Char.ofNat b.toNat).toNat := congrArg Char.toNat h
  rw [hval, hval] at hnat
  exact UInt8.toNat_inj.1 hnat

theorem Runtime.sample_faithful : Runtime.sample.Faithful where
  isoformat_injective := sampleTime_injective (by decide)
  dumpDatetime_injective := sampleTime_injective (by decide)
  floatRepr_injective p q h := by
    have hdot : '.' ∉ sampleFraction p := by
      intro hmem
      exact absurd (isDigit_sampleFraction p _ hmem) (by decide)
    obtain ⟨hnum, -, hfraction⟩ := (append_cons_inj_of_notMem (dot_notMem_renderInt p.num)
      hdot).1 (String.ofList_injective h)
    exact Rat.ext (renderInt_injective hnum) (sampleFraction_injective hfraction)
  isFloatText_floatRepr := isFloatText_sample
  blake2b_injective data data' h :=
    map_injective_iff.2 charOfByte_injective (String.ofList_injective h)

end Omniscience.Audit
