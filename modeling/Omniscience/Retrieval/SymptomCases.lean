import Mathlib
import Omniscience.Retrieval.SymptomText

/-!
# Symptoms in lower case

A symptom is turned to lower case in the end, behind patterns that tell capitals from small letters.
`normaliseSymptom_low` says that the symptom in small letters has the same normal form if no capital
decides what the patterns for timestamps and for suffixes find.
-/

namespace Omniscience.Clustering

open GraphRag (isSpace strip)
open List
open Regex (sat edge chr seqs opt alt plus exactly atLeast wordEdge wholeWord Blind AgreeOn
  MatchAlike sub)

/-! ### Capitals -/

theorem toNat_toLower (c : Char) :
    c.toLower.toNat = if 65 ≤ c.toNat ∧ c.toNat ≤ 90 then c.toNat + 32 else c.toNat := by
  rw [Char.toLower]
  by_cases h : 65 ≤ c.toNat ∧ c.toNat ≤ 90
  · have hval : c.val ≥ 'A'.val ∧ c.val ≤ 'Z'.val := by
      simp only [ge_iff_le, UInt32.le_iff_toNat_le]
      exact h
    have hle : c.val.toNat ≤ 90 := h.2
    rw [dif_pos hval, if_pos h]
    simp only [Char.toNat]
    rw [UInt32.toNat_add]
    simp
    omega
  · have hval : ¬ (c.val ≥ 'A'.val ∧ c.val ≤ 'Z'.val) := by
      simp only [ge_iff_le, UInt32.le_iff_toNat_le]
      exact h
    rw [dif_neg hval, if_neg h]

variable {c : Char}

theorem isDigit_iff : c.isDigit = true ↔ 48 ≤ c.toNat ∧ c.toNat ≤ 57 := by
  simp [Char.isDigit, UInt32.le_iff_toNat_le, ← Char.toNat_val]

theorem isLower_iff : c.isLower = true ↔ 97 ≤ c.toNat ∧ c.toNat ≤ 122 := by
  simp [Char.isLower, UInt32.le_iff_toNat_le, ← Char.toNat_val]

theorem isUpper_iff : c.isUpper = true ↔ 65 ≤ c.toNat ∧ c.toNat ≤ 90 := by
  simp [Char.isUpper, UInt32.le_iff_toNat_le, ← Char.toNat_val]

theorem isAlpha_iff :
    c.isAlpha = true ↔ (65 ≤ c.toNat ∧ c.toNat ≤ 90) ∨ 97 ≤ c.toNat ∧ c.toNat ≤ 122 := by
  rw [Char.isAlpha, Bool.or_eq_true, isUpper_iff, isLower_iff]

theorem isHex_iff :
    isHex c = true ↔ (48 ≤ c.toNat ∧ c.toNat ≤ 57) ∨ (97 ≤ c.toNat ∧ c.toNat ≤ 102) ∨
      65 ≤ c.toNat ∧ c.toNat ≤ 70 := by
  rw [isHex, Bool.or_eq_true, Bool.or_eq_true, isDigit_iff]
  simp only [Bool.and_eq_true, decide_eq_true_eq, Char.le_def, UInt32.le_iff_toNat_le, or_assoc]
  exact Iff.rfl

theorem eq_iff_toNat {c d : Char} : c = d ↔ c.toNat = d.toNat := by
  rw [Char.ext_iff, ← UInt32.toNat_inj]
  rfl

theorem isSpace_iff :
    isSpace c = true ↔ (9 ≤ c.toNat ∧ c.toNat ≤ 13) ∨ (28 ≤ c.toNat ∧ c.toNat ≤ 32) ∨
      c.toNat = 0x85 ∨ c.toNat = 0xA0 ∨ c.toNat = 0x1680 ∨ (0x2000 ≤ c.toNat ∧ c.toNat ≤ 0x200A) ∨
      c.toNat = 0x2028 ∨ c.toNat = 0x2029 ∨ c.toNat = 0x202F ∨ c.toNat = 0x205F ∨
      c.toNat = 0x3000 := by
  simp [isSpace, or_assoc]

theorem isHex_toLower (c : Char) : isHex c.toLower = isHex c := by
  rw [Bool.eq_iff_iff, isHex_iff, isHex_iff, toNat_toLower]
  split_ifs <;> omega

theorem isDigit_toLower (c : Char) : c.toLower.isDigit = c.isDigit := by
  rw [Bool.eq_iff_iff, isDigit_iff, isDigit_iff, toNat_toLower]
  split_ifs <;> omega

theorem isAlpha_toLower (c : Char) : c.toLower.isAlpha = c.isAlpha := by
  rw [Bool.eq_iff_iff, isAlpha_iff, isAlpha_iff, toNat_toLower]
  split_ifs <;> omega

theorem isSpace_toLower (c : Char) : isSpace c.toLower = isSpace c := by
  rw [Bool.eq_iff_iff, isSpace_iff, isSpace_iff, toNat_toLower]
  split_ifs <;> omega

theorem isAlphanum_toLower (c : Char) : c.toLower.isAlphanum = c.isAlphanum := by
  rw [Char.isAlphanum, Char.isAlphanum, isAlpha_toLower, isDigit_toLower]

theorem eq_toLower_iff {d : Char} (hd : d.isAlpha = false) (c : Char) : c.toLower = d ↔ c = d := by
  have hd : ¬ d.isAlpha = true := by simp [hd]
  rw [isAlpha_iff] at hd
  rw [eq_iff_toNat, eq_iff_toNat, toNat_toLower]
  split_ifs with h
  · omega
  · exact Iff.rfl

variable {letters L : Letters}

theorem toLower_of_not_ascii (h : 128 ≤ c.toNat) : c.toLower = c := by
  rw [eq_iff_toNat, toNat_toLower, if_neg fun hc => by omega]

theorem toLower_ascii (h : c.toNat < 128) : c.toLower.toNat < 128 := by
  rw [toNat_toLower]
  split_ifs
  · omega
  · exact h

theorem isWord_toLower (hlaw : L.Lawful) (c : Char) :
    L.isWord c.toLower = L.isWord c := by
  by_cases h : c.toNat < 128
  · rw [hlaw.isWord_ascii c h, hlaw.isWord_ascii _ (toLower_ascii h), isAlphanum_toLower,
      beq_eq_beq.2 (eq_toLower_iff rfl c)]
  · rw [toLower_of_not_ascii (Nat.le_of_not_lt h)]

theorem isDigit_toLower' (hlaw : L.Lawful) (c : Char) :
    L.isDigit c.toLower = L.isDigit c := by
  by_cases h : c.toNat < 128
  · rw [hlaw.isDigit_ascii c h, hlaw.isDigit_ascii _ (toLower_ascii h), isDigit_toLower]
  · rw [toLower_of_not_ascii (Nat.le_of_not_lt h)]

/-! ### The text in small letters -/

/-- The text with its letters of ASCII in lower case. -/
def low (text : String) : String := String.ofList (text.toList.map Char.toLower)

theorem toList_low (text : String) : (low text).toList = text.toList.map Char.toLower :=
  String.toList_ofList

theorem resub_low {pattern : Regex Char} (h : Blind Char.toLower pattern) {repl : String}
    (hrepl : repl.toList.map Char.toLower = repl.toList) (text : String) :
    resub pattern repl (low text) = low (resub pattern repl text) := by
  rw [resub, resub, low, low, String.toList_ofList, String.toList_ofList, Regex.sub_map h hrepl]

theorem strip_low (text : String) : strip (low text) = low (strip text) := by
  have hspace : isSpace ∘ Char.toLower = isSpace := funext isSpace_toLower
  rw [strip, strip, low, low, String.toList_ofList, String.toList_ofList, dropWhile_map, hspace,
    List.rdropWhile, List.rdropWhile, ← map_reverse, dropWhile_map, hspace, map_reverse]

theorem low_eq_empty (text : String) : low text = "" ↔ text = "" := by
  rw [← String.toList_eq_nil_iff, toList_low, map_eq_nil_iff, String.toList_eq_nil_iff]

theorem lowerFrom_toLower (hlaw : L.Lawful) (before after : List Char) :
    L.lowerFrom (before.map Char.toLower) (after.map Char.toLower) =
      L.lowerFrom before after := by
  induction after generalizing before with
  | nil => rfl
  | cons c after ih =>
    have hrest := ih (c :: before)
    rw [map_cons] at hrest
    rw [map_cons, Letters.lowerFrom, Letters.lowerFrom, hlaw.lowerAt_toLower, hrest]

theorem lower_low (hlaw : L.Lawful) (text : String) :
    L.lower (low text) = L.lower text := by
  rw [Letters.lower, Letters.lower, toList_low]
  exact congrArg String.ofList (lowerFrom_toLower hlaw [] text.toList)

/-! ### Patterns that do not see capitals -/

theorem blind_chr {d : Char} (hd : d.isAlpha = false) : Blind Char.toLower (chr d) :=
  fun c => decide_eq_decide.2 (eq_toLower_iff hd c)

theorem blind_timestamp (hlaw : L.Lawful) {between zulu : Char → Bool}
    (hbetween : ∀ c, between c.toLower = between c) (hzulu : ∀ c, zulu c.toLower = zulu c) :
    Blind Char.toLower (timestamp L between zulu) := by
  have hdigit : Blind Char.toLower (digit L) := isDigit_toLower' hlaw
  have hedge := Regex.blind_wordEdge (isWord_toLower hlaw)
  have hsign : Blind Char.toLower (sat fun c => c = '+' || c = '-') := by
    intro c
    have hplus : decide (c.toLower = '+') = decide (c = '+') :=
      decide_eq_decide.2 (eq_toLower_iff rfl c)
    have hminus : decide (c.toLower = '-') = decide (c = '-') :=
      decide_eq_decide.2 (eq_toLower_iff rfl c)
    dsimp only
    rw [hplus, hminus]
  refine Blind.seqs fun r hr => ?_
  simp only [mem_cons, not_mem_nil, or_false] at hr
  obtain rfl | rfl | rfl | rfl | rfl | rfl | rfl | rfl | rfl | rfl | rfl | rfl | rfl | rfl | rfl :=
    hr
  · exact hedge
  · exact hdigit.exactly 4
  · exact blind_chr rfl
  · exact hdigit.exactly 2
  · exact blind_chr rfl
  · exact hdigit.exactly 2
  · exact hbetween
  · exact hdigit.exactly 2
  · exact blind_chr rfl
  · exact hdigit.exactly 2
  · exact blind_chr rfl
  · exact hdigit.exactly 2
  · exact ⟨⟨blind_chr rfl, hdigit, hdigit⟩, trivial⟩
  · exact ⟨⟨hzulu, hsign, hdigit.exactly 2, ⟨blind_chr rfl, trivial⟩, hdigit.exactly 2⟩, trivial⟩
  · exact hedge

theorem blind_suffix (hlaw : L.Lawful) {test : Char → Bool}
    (htest : ∀ c, test c.toLower = test c) : Blind Char.toLower (suffix L test) := by
  have hsat : Blind Char.toLower (sat test) := htest
  refine ⟨fun before _ => ?_, blind_chr rfl, ⟨hsat.exactly 4, hsat⟩,
    Regex.blind_wordEdge (isWord_toLower hlaw)⟩
  cases before with
  | none => rfl
  | some c => exact isAlpha_toLower c

/-- `_ISO_TIMESTAMP_RE` without its two letters. -/
def plainTimestamp (letters : Letters) : Regex Char :=
  timestamp letters (fun c => c = ' ') fun _ => false

/-- `_POD_SUFFIX_RE` with capitals. -/
def anySuffix (letters : Letters) : Regex Char := suffix letters Char.isAlphanum

/-- What the pattern for suffixes is given. -/
def blobsReplaced (letters : Letters) (text : String) : String :=
  resub (hexBlob letters) "<hex>" (resub (isoTimestamp letters) "<ts>" (strip text))

/-- No capital decides what is found: no timestamp has one of the two letters, and no suffix would
be found if it could have capitals. -/
structure CaseBlind (letters : Letters) (text : String) : Prop where
  timestamps : MatchAlike (isoTimestamp letters) (plainTimestamp letters) (strip text).toList
  suffixes : MatchAlike (podSuffix letters) (anySuffix letters) (blobsReplaced letters text).toList

theorem isUpper_of_mem_low {text : String} (h : c ∈ (low text).toList) : c.isUpper = false := by
  rw [toList_low] at h
  obtain ⟨d, -, rfl⟩ := mem_map.1 h
  rw [← Bool.not_eq_true, isUpper_iff, toNat_toLower]
  split_ifs <;> omega

theorem agreeOn_timestamp (L : Letters) :
    AgreeOn (fun c => c.isUpper = false) (isoTimestamp L) (plainTimestamp L) := by
  have hbetween : AgreeOn (fun c => c.isUpper = false)
      (sat fun c => c = 'T' || c = ' ') (sat fun c => c = ' ') := by
    refine .sat fun c hc => ?_
    have hne : c ≠ 'T' := by
      rintro rfl
      cases hc
    rw [decide_eq_false hne, Bool.false_or]
  have hzulu : AgreeOn (fun c => c.isUpper = false)
      (sat fun c => c = 'Z') (sat fun _ : Char => false) := by
    refine .sat fun c hc => ?_
    have hne : c ≠ 'Z' := by
      rintro rfl
      cases hc
    rw [decide_eq_false hne]
  refine AgreeOn.seqs ?_
  refine .cons (.refl _) (.cons (.refl _) (.cons (.refl _) (.cons (.refl _) (.cons (.refl _)
    (.cons (.refl _) (.cons hbetween ?_))))))
  exact .cons (.refl _) (.cons (.refl _) (.cons (.refl _) (.cons (.refl _) (.cons (.refl _)
    (.cons (.refl _) (.cons (.alt (.alt hzulu (.refl _)) (.refl _)) (.cons (.refl _) .nil)))))))

theorem agreeOn_suffix (L : Letters) :
    AgreeOn (fun c => c.isUpper = false) (podSuffix L) (anySuffix L) := by
  have hsat : ∀ c : Char, c.isUpper = false → isPodChar c = c.isAlphanum := by
    intro c hc
    rw [isPodChar, Char.isAlphanum, Char.isAlpha, hc, Bool.false_or, Bool.or_comm]
  have hchars : AgreeOn (fun c => c.isUpper = false) (atLeast 4 (sat isPodChar))
      (atLeast 4 (sat Char.isAlphanum)) := by
    have hone : AgreeOn (fun c => c.isUpper = false) (sat isPodChar) (sat Char.isAlphanum) :=
      .sat hsat
    exact .seq (.seq hone (.seq hone (.seq hone (.seq hone (.refl _))))) (.star hone)
  exact AgreeOn.seqs (.cons (.refl _) (.cons (.refl _) (.cons hchars (.cons (.refl _) .nil))))

theorem resub_timestamp_low (hlaw : L.Lawful) {text : String}
    (h : MatchAlike (isoTimestamp L) (plainTimestamp L) text.toList) :
    resub (isoTimestamp L) "<ts>" (low text) =
      low (resub (isoTimestamp L) "<ts>" text) := by
  have hblind : Blind Char.toLower (plainTimestamp L) :=
    blind_timestamp hlaw (fun c => decide_eq_decide.2 (eq_toLower_iff rfl c)) fun _ => rfl
  have hlow := Regex.matchAlike_of_agreeOn (agreeOn_timestamp L)
    fun _ (hc : _ ∈ (low text).toList) => isUpper_of_mem_low hc
  calc resub (isoTimestamp L) "<ts>" (low text)
      = resub (plainTimestamp L) "<ts>" (low text) :=
        congrArg String.ofList (Regex.sub_congr hlow)
    _ = low (resub (plainTimestamp L) "<ts>" text) := resub_low hblind rfl text
    _ = low (resub (isoTimestamp L) "<ts>" text) :=
        congrArg (fun l => low (String.ofList l)) (Regex.sub_congr h).symm

theorem resub_podSuffix_low (hlaw : L.Lawful) {text : String}
    (h : MatchAlike (podSuffix L) (anySuffix L) text.toList) :
    resub (podSuffix L) "" (low text) = low (resub (podSuffix L) "" text) := by
  have hblind : Blind Char.toLower (anySuffix L) := blind_suffix hlaw isAlphanum_toLower
  have hlow := Regex.matchAlike_of_agreeOn (agreeOn_suffix L)
    fun _ (hc : _ ∈ (low text).toList) => isUpper_of_mem_low hc
  calc resub (podSuffix L) "" (low text)
      = resub (anySuffix L) "" (low text) :=
        congrArg String.ofList (Regex.sub_congr hlow)
    _ = low (resub (anySuffix L) "" text) := resub_low hblind rfl text
    _ = low (resub (podSuffix L) "" text) :=
        congrArg (fun l => low (String.ofList l)) (Regex.sub_congr h).symm

/-- **The symptom in small letters has the same normal form**, if no capital decides what is
found. -/
theorem normaliseSymptom_low (hlaw : L.Lawful) {text : String} (h : CaseBlind L text) :
    normaliseSymptom L (some (low text)) = normaliseSymptom L (some text) := by
  have hhex : Blind Char.toLower (hexBlob L) :=
    Regex.blind_wholeWord (isWord_toLower hlaw) isHex_toLower 8
  have hlong : Blind Char.toLower (longNumber L) :=
    Regex.blind_wholeWord (isWord_toLower hlaw) (isDigit_toLower' hlaw) 4
  have hspace : Blind Char.toLower whitespace := ⟨isSpace_toLower, isSpace_toLower⟩
  have hsuffixes := h.suffixes
  rw [blobsReplaced] at hsuffixes
  rw [normaliseSymptom, normaliseSymptom]
  dsimp only
  rw [strip_low]
  by_cases hempty : strip text = ""
  · rw [if_pos hempty, if_pos ((low_eq_empty _).2 hempty)]
  · rw [if_neg hempty, if_neg fun hlow => hempty ((low_eq_empty _).1 hlow),
      resub_timestamp_low hlaw h.timestamps, resub_low hhex rfl, resub_podSuffix_low hlaw hsuffixes,
      resub_low hlong rfl, resub_low hspace rfl, strip_low, lower_low hlaw]

end Omniscience.Clustering
