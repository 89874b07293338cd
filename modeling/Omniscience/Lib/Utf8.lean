import Mathlib.Data.List.Basic

/-!
# Decoding UTF-8 with replacement

`Utf8.decodeReplace` decodes any byte string.  Where no well-formed sequence stands, the longest
start of one (or a single byte that starts none) becomes one replacement character U+FFFD, as
Unicode recommends.

The result does not always determine the bytes.  `Utf8.determined_iff` says when it does: the
bytes are the encoding of a text without the replacement character.
-/

namespace Omniscience.Utf8

open List

/-- U+FFFD. -/
def replacement : Char := Char.ofNat 0xFFFD

/-- The encoding of a text. -/
def encode (text : List Char) : List UInt8 := text.flatMap String.utf8EncodeChar

@[simp] theorem encode_nil : encode [] = [] := rfl

@[simp] theorem encode_cons (c : Char) (text : List Char) :
    encode (c :: text) = String.utf8EncodeChar c ++ encode text :=
  rfl

@[simp] theorem encode_append (s t : List Char) : encode (s ++ t) = encode s ++ encode t :=
  flatMap_append

/-- The character at the start of a byte string, if a well-formed sequence stands there. -/
def char? (bs : List UInt8) : Option Char := bs.toByteArray.utf8DecodeChar? 0

/-- The byte `b` may stand behind the first byte `a` of a sequence of three or four bytes. -/
def follows (a b : UInt8) : Bool :=
  if a = 0xE0 then 0xA0 ≤ b ∧ b ≤ 0xBF
  else if a = 0xED then 0x80 ≤ b ∧ b ≤ 0x9F
  else if a = 0xF0 then 0x90 ≤ b ∧ b ≤ 0xBF
  else if a = 0xF4 then 0x80 ≤ b ∧ b ≤ 0x8F
  else if 0xE1 ≤ a ∧ a ≤ 0xF3 then 0x80 ≤ b ∧ b ≤ 0xBF
  else false

/-- The number of bytes that one replacement character stands for, where no well-formed sequence
stands. -/
def badLength : List UInt8 → ℕ
  | a :: b :: rest =>
    if follows a b then
      match rest with
      | c :: _ => if 0xF0 ≤ a ∧ 0x80 ≤ c ∧ c ≤ 0xBF then 3 else 2
      | [] => 2
    else 1
  | _ => 1

theorem badLength_pos (bs : List UInt8) : 0 < badLength bs := by
  unfold badLength
  repeat' split
  all_goals decide

/-- `bs.decode("utf-8", errors="replace")`. -/
def decodeReplace : List UInt8 → List Char
  | [] => []
  | b :: bs =>
    match char? (b :: bs) with
    | some c => c :: decodeReplace ((b :: bs).drop c.utf8Size)
    | none => replacement :: decodeReplace ((b :: bs).drop (badLength (b :: bs)))
termination_by bs => bs.length
decreasing_by
  · have := c.utf8Size_pos
    simp only [length_drop, length_cons]
    omega
  · have := badLength_pos (b :: bs)
    simp only [length_drop, length_cons]
    omega

/-! ### Well-formed sequences -/

theorem char?_encode_append (c : Char) (rest : List UInt8) :
    char? (String.utf8EncodeChar c ++ rest) = some c := by
  rw [char?, toByteArray_append]
  exact ByteArray.utf8DecodeChar?_utf8EncodeChar_append

theorem eq_of_char? {bs : List UInt8} {c : Char} (h : char? bs = some c) :
    bs = String.utf8EncodeChar c ++ bs.drop c.utf8Size := by
  obtain ⟨rest, hrest⟩ := ByteArray.exists_of_utf8DecodeChar?_eq_some h
  have hbs : bs = String.utf8EncodeChar c ++ rest.data.toList := by
    have := congrArg (fun b : ByteArray => b.data.toList) hrest
    simpa using this
  conv_lhs => rw [hbs]
  rw [hbs, ← String.length_utf8EncodeChar c, drop_left]

theorem decodeReplace_of_some {bs : List UInt8} {c : Char} (h : char? bs = some c) :
    decodeReplace bs = c :: decodeReplace (bs.drop c.utf8Size) := by
  cases bs with
  | nil => simp [char?, ByteArray.utf8DecodeChar?] at h
  | cons b bs => rw [decodeReplace, h]

theorem decodeReplace_of_none {bs : List UInt8} (hbs : bs ≠ []) (h : char? bs = none) :
    decodeReplace bs = replacement :: decodeReplace (bs.drop (badLength bs)) := by
  cases bs with
  | nil => exact absurd rfl hbs
  | cons b bs => rw [decodeReplace, h]

theorem decodeReplace_encode_append (text : List Char) (rest : List UInt8) :
    decodeReplace (encode text ++ rest) = text ++ decodeReplace rest := by
  induction text with
  | nil => rfl
  | cons c text ih =>
    have hc := char?_encode_append c (encode text ++ rest)
    rw [encode_cons, append_assoc, decodeReplace_of_some hc, ← String.length_utf8EncodeChar c,
      drop_left, ih]
    rfl

theorem decodeReplace_nil : decodeReplace [] = [] := by rw [decodeReplace]

theorem decodeReplace_encode (text : List Char) : decodeReplace (encode text) = text := by
  simpa [decodeReplace_nil] using decodeReplace_encode_append text []

/-! ### What the decoded text determines -/

theorem encode_decodeReplace {bs : List UInt8} (h : replacement ∉ decodeReplace bs) :
    encode (decodeReplace bs) = bs := by
  induction hn : bs.length using Nat.strongRecOn generalizing bs with
  | ind n ih =>
    by_cases hbs : bs = []
    · rw [hbs, decodeReplace_nil, encode_nil]
    · cases hc : char? bs with
      | none =>
        rw [decodeReplace_of_none hbs hc] at h
        exact absurd mem_cons_self h
      | some c =>
        rw [decodeReplace_of_some hc] at h ⊢
        have hlt : (bs.drop c.utf8Size).length < n := by
          have := c.utf8Size_pos
          have := length_pos_of_ne_nil hbs
          rw [length_drop]
          omega
        rw [encode_cons, ih _ hlt (fun hmem => h (mem_cons_of_mem _ hmem)) rfl]
        exact (eq_of_char? hc).symm

theorem decodeReplace_bad {b : UInt8} (hb : ¬ b.IsUTF8FirstByte)
    (hfollows : ∀ b', follows b b' = false) (rest : List UInt8) :
    decodeReplace (b :: rest) = replacement :: decodeReplace rest := by
  have hnone : char? (b :: rest) = none := by
    -- an encoded character never starts with this byte
    cases hc : char? (b :: rest) with
    | none => rfl
    | some c =>
      have hbs := eq_of_char? hc
      have hfirst := UInt8.isUTF8FirstByte_getElem_zero_utf8EncodeChar (c := c)
      cases henc : String.utf8EncodeChar c with
      | nil => exact absurd henc (ne_nil_of_length_pos (by simp [c.utf8Size_pos]))
      | cons b' bs =>
        rw [henc, cons_append] at hbs
        obtain rfl := (List.cons.inj hbs).1
        simp only [henc, getElem_cons_zero] at hfirst
        exact absurd hfirst hb
  have hlen : badLength (b :: rest) = 1 := by
    cases rest with
    | nil => rfl
    | cons b' rest => simp [badLength, hfollows b']
  rw [decodeReplace_of_none (cons_ne_nil _ _) hnone, hlen]
  rfl

/-- **Decoding with replacement is injective at a byte string** exactly when the byte string is
the encoding of a text without the replacement character. -/
theorem determined_iff (bs : List UInt8) :
    (∀ bs', decodeReplace bs' = decodeReplace bs → bs' = bs) ↔
      ∃ text, replacement ∉ text ∧ bs = encode text := by
  constructor
  · intro h
    -- the encoding of the decoded text is decoded to the same text
    have hself : encode (decodeReplace bs) = bs := h _ (decodeReplace_encode _)
    refine ⟨decodeReplace bs, fun hmem => ?_, hself.symm⟩
    -- a replacement character in it may as well come from a bad byte
    obtain ⟨s, t, hst⟩ := append_of_mem hmem
    have hbad : decodeReplace (encode s ++ 0xFF :: encode t) = decodeReplace bs := by
      rw [decodeReplace_encode_append, decodeReplace_bad (by decide) (fun _ => rfl),
        decodeReplace_encode, hst]
    have hlen := congrArg List.length ((h _ hbad).trans hself.symm)
    have hsize : replacement.utf8Size = 3 := by decide
    simp only [hst, encode_append, encode_cons, length_append, length_cons,
      String.length_utf8EncodeChar, hsize] at hlen
    omega
  · rintro ⟨text, htext, rfl⟩ bs' hbs'
    rw [decodeReplace_encode] at hbs'
    rw [← hbs'] at htext
    rw [← encode_decodeReplace htext, hbs']

end Omniscience.Utf8
