import Omniscience.Base.Uuid
import Omniscience.Lib.JsonText

/-!
# The `repr` of scalars

What `repr` shows of a string, an integer, a float, a Boolean and `None`.  A string stands between
single quotes, or between double quotes if it has single and no double ones; the quote, the
backslash and what cannot be printed are escaped.  Which characters beyond ASCII can be printed is a
parameter.

* `reprStr_append_inj` : a string ends with its closing quote, whatever follows.
* `token_append_inj` : the other scalars are told apart by their characters up to a delimiter.
-/

namespace Omniscience.PyRepr

open JsonText (renderInt IsFloatText isNumChar)
open List
open Uuid

/-! ### Strings -/

/-- The escape of a character by its number. -/
def escapeHex (n : ℕ) : List Char :=
  if n < 256 then '\\' :: 'x' :: hexDigits 2 n
  else if n < 65536 then '\\' :: 'u' :: hexDigits 4 n
  else '\\' :: 'U' :: hexDigits 8 n

/-- A character inside a string. -/
def reprChar (isPrintable : Char → Bool) (quote c : Char) : List Char :=
  if c = quote ∨ c = '\\' then ['\\', c]
  else if c = '\t' then ['\\', 't']
  else if c = '\n' then ['\\', 'n']
  else if c = '\r' then ['\\', 'r']
  else if c.toNat < 32 ∨ c.toNat = 127 ∨ 127 < c.toNat ∧ isPrintable c = false then
    escapeHex c.toNat
  else [c]

/-- The quote of a string. -/
def quoteOf (s : List Char) : Char := if '\'' ∈ s ∧ '"' ∉ s then '"' else '\''

/-- A string. -/
def reprStr (isPrintable : Char → Bool) (s : List Char) : List Char :=
  quoteOf s :: (s.flatMap (reprChar isPrintable (quoteOf s)) ++ [quoteOf s])

/-- The character of an escape, after its backslash. -/
def readEscape : List Char → Option (Char × List Char)
  | 'x' :: rest => (hexValue (rest.take 2)).map fun n => (Char.ofNat n, rest.drop 2)
  | 'u' :: rest => (hexValue (rest.take 4)).map fun n => (Char.ofNat n, rest.drop 4)
  | 'U' :: rest => (hexValue (rest.take 8)).map fun n => (Char.ofNat n, rest.drop 8)
  | 't' :: rest => some ('\t', rest)
  | 'n' :: rest => some ('\n', rest)
  | 'r' :: rest => some ('\r', rest)
  | c :: rest => some (c, rest)
  | [] => none

/-- The first character of a string after its opening quote. -/
def readChar : List Char → Option (Char × List Char)
  | [] => none
  | c :: cs => if c = '\\' then readEscape cs else some (c, cs)

theorem readChar_escapeHex (c : Char) (rest : List Char) :
    readChar (escapeHex c.toNat ++ rest) = some (c, rest) := by
  have hread : ∀ k, c.toNat < 16 ^ k →
      (hexValue ((hexDigits k c.toNat ++ rest).take k)).map (fun n =>
        (Char.ofNat n, (hexDigits k c.toNat ++ rest).drop k)) = some (c, rest) := by
    intro k hk
    rw [take_left' (length_hexDigits k _), drop_left' (length_hexDigits k _),
      hexValue_hexDigits, Nat.mod_eq_of_lt hk, Option.map_some, Char.ofNat_toNat]
  have hchar : c.toNat < 16 ^ 8 := by
    have hlt := c.val.toNat_lt
    exact hlt
  rw [escapeHex]
  split_ifs with h₁ h₂
  · exact hread 2 (by omega)
  · exact hread 4 (by omega)
  · exact hread 8 hchar

variable {isPrintable : Char → Bool}

theorem readChar_reprChar {quote : Char} (hquote : quote = '\'' ∨ quote = '"') (c : Char)
    (rest : List Char) : readChar (reprChar isPrintable quote c ++ rest) = some (c, rest) := by
  rw [reprChar]
  split_ifs with h₁ h₂ h₃ h₄ h₅
  · -- the quotes and the backslash are no letters of an escape
    have hc : c = '\'' ∨ c = '"' ∨ c = '\\' := by
      obtain rfl | rfl := h₁
      · exact hquote.imp_right .inl
      · exact .inr (.inr rfl)
    obtain rfl | rfl | rfl := hc
    · rfl
    · rfl
    · rfl
  · rw [h₂]
    rfl
  · rw [h₃]
    rfl
  · rw [h₄]
    rfl
  · exact readChar_escapeHex c rest
  · rw [not_or] at h₁
    exact if_neg h₁.2

theorem head_reprChar (isPrintable : Char → Bool) {quote : Char}
    (hquote : quote = '\'' ∨ quote = '"') (c : Char) :
    ∃ d ds, reprChar isPrintable quote c = d :: ds ∧ d ≠ quote := by
  have hslash : '\\' ≠ quote := by
    obtain rfl | rfl := hquote
    · decide
    · decide
  rw [reprChar]
  split_ifs with h₁ h₂ h₃ h₄ h₅
  · exact ⟨_, _, rfl, hslash⟩
  · exact ⟨_, _, rfl, hslash⟩
  · exact ⟨_, _, rfl, hslash⟩
  · exact ⟨_, _, rfl, hslash⟩
  · rw [escapeHex]
    split_ifs with h₆ h₇
    · exact ⟨_, _, rfl, hslash⟩
    · exact ⟨_, _, rfl, hslash⟩
    · exact ⟨_, _, rfl, hslash⟩
  · rw [not_or] at h₁
    exact ⟨_, _, rfl, h₁.1⟩

theorem quoteOf_cases (s : List Char) : quoteOf s = '\'' ∨ quoteOf s = '"' := by
  rw [quoteOf]
  split
  · exact .inr rfl
  · exact .inl rfl

theorem reprChars_append_inj {quote : Char} (hquote : quote = '\'' ∨ quote = '"')
    {s t x y : List Char}
    (h : s.flatMap (reprChar isPrintable quote) ++ quote :: x = t.flatMap (reprChar isPrintable quote) ++ quote :: y) :
    s = t ∧ x = y := by
  induction s generalizing t with
  | nil =>
    cases t with
    | nil => exact ⟨rfl, (List.cons.inj h).2⟩
    | cons d t =>
      obtain ⟨e, es, he, hne⟩ := head_reprChar isPrintable hquote d
      rw [flatMap_cons, he] at h
      exact absurd (List.cons.inj h).1.symm hne
  | cons c s ih =>
    cases t with
    | nil =>
      obtain ⟨e, es, he, hne⟩ := head_reprChar isPrintable hquote c
      rw [flatMap_cons, he] at h
      exact absurd (List.cons.inj h).1 hne
    | cons d t =>
      rw [flatMap_cons, flatMap_cons, append_assoc, append_assoc] at h
      have hread := congrArg readChar h
      rw [readChar_reprChar hquote, readChar_reprChar hquote, Option.some.injEq,
        Prod.mk.injEq] at hread
      obtain ⟨rfl, hrest⟩ := hread
      obtain ⟨rfl, hxy⟩ := ih hrest
      exact ⟨rfl, hxy⟩

/-- **A string ends with its closing quote**, whatever follows. -/
theorem reprStr_append_inj {s t x y : List Char}
    (h : reprStr isPrintable s ++ x = reprStr isPrintable t ++ y) : s = t ∧ x = y := by
  rw [reprStr, reprStr, cons_append, cons_append, append_assoc, append_assoc,
    singleton_append, singleton_append] at h
  obtain ⟨hquote, h⟩ := List.cons.inj h
  rw [← hquote] at h
  exact reprChars_append_inj (quoteOf_cases s) h

/-! ### The other scalars -/

/-- A character of a scalar that is no string. -/
def isPlain (c : Char) : Bool := c.isAlphanum || c = '-' || c = '+' || c = '.'

/-- What follows does not go on with a scalar. -/
def Delimited (rest : List Char) : Prop := ∀ c ∈ rest.head?, isPlain c = false

/-- What a scalar that is no string is shown as. -/
def token : Json → List Char
  | .null => "None".toList
  | .bool true => "True".toList
  | .bool false => "False".toList
  | .int n => renderInt n
  | .float text => text.toList
  | _ => []

/-- The value is a scalar and no string, a float with a text that it can have. -/
def IsToken : Json → Prop
  | .null => True
  | .bool _ => True
  | .int _ => True
  | .float text => IsFloatText text
  | _ => False

/-- `repr` of a scalar. -/
def repr (isPrintable : Char → Bool) : Json → String
  | .str s => String.ofList (reprStr isPrintable s.toList)
  | v => String.ofList (token v)

/-- The scalar of a token. -/
def readToken (cs : List Char) : Option Json :=
  if cs = "None".toList then some .null
  else if cs = "True".toList then some (.bool true)
  else if cs = "False".toList then some (.bool false)
  else if cs = "nan".toList ∨ cs = "inf".toList ∨ cs = "-inf".toList then
    some (.float (String.ofList cs))
  else JsonText.readNumber id cs

theorem readToken_of_numChars {cs : List Char} (h : ∀ c ∈ cs, isNumChar c = true) :
    readToken cs = JsonText.readNumber id cs := by
  have hword : ∀ word : String, word.toList.all isNumChar = false → cs ≠ word.toList := by
    rintro word hnum rfl
    rw [all_eq_true.2 h] at hnum
    cases hnum
  rw [readToken, if_neg (hword _ (by decide)), if_neg (hword _ (by decide)),
    if_neg (hword _ (by decide)), if_neg]
  rintro (hcs | hcs | hcs)
  · exact hword _ (by decide) hcs
  · exact hword _ (by decide) hcs
  · exact hword _ (by decide) hcs

theorem readToken_token {v : Json} (h : IsToken v) : readToken (token v) = some v := by
  cases v with
  | null => rfl
  | bool b =>
    cases b with
    | false => rfl
    | true => rfl
  | int n =>
    exact (readToken_of_numChars (JsonText.isNumChar_renderInt n)).trans
      (JsonText.readNumber_renderInt id n)
  | float text =>
    obtain rfl | rfl | rfl | ⟨hnum, hliteral⟩ := h
    · rfl
    · rfl
    · rfl
    · exact (readToken_of_numChars hnum).trans (JsonText.readNumber_float hliteral)
  | str s => cases h
  | arr items => cases h
  | obj members => cases h

theorem isPlain_of_isNumChar {c : Char} (h : isNumChar c = true) : isPlain c = true := by
  simp only [isNumChar, Bool.or_eq_true, decide_eq_true_eq] at h
  obtain ((((hdigit | rfl) | rfl) | rfl) | rfl) | rfl := h
  · simp [isPlain, Char.isAlphanum, hdigit]
  · rfl
  · rfl
  · rfl
  · rfl
  · rfl

theorem isPlain_token {v : Json} (h : IsToken v) : ∀ c ∈ token v, isPlain c = true := by
  cases v with
  | null => exact all_eq_true.1 rfl
  | bool b =>
    cases b with
    | false => exact all_eq_true.1 rfl
    | true => exact all_eq_true.1 rfl
  | int n => exact fun c hc => isPlain_of_isNumChar (JsonText.isNumChar_renderInt n c hc)
  | float text =>
    obtain rfl | rfl | rfl | ⟨hnum, -⟩ := h
    · exact all_eq_true.1 rfl
    · exact all_eq_true.1 rfl
    · exact all_eq_true.1 rfl
    · exact fun c hc => isPlain_of_isNumChar (hnum c hc)
  | str s => cases h
  | arr items => cases h
  | obj members => cases h

theorem token_ne_nil {v : Json} (h : IsToken v) : token v ≠ [] := by
  intro hnil
  have hread := readToken_token h
  rw [hnil] at hread
  have hnone : readToken [] = none := by decide
  rw [hnone] at hread
  cases hread

/-- **A scalar ends where a delimiter follows.** -/
theorem token_append_inj {v w : Json} (hv : IsToken v) (hw : IsToken w) {x y : List Char}
    (hx : Delimited x) (hy : Delimited y) (h : token v ++ x = token w ++ y) : v = w ∧ x = y := by
  have htake : ∀ {v : Json} {x : List Char}, IsToken v → Delimited x →
      (token v ++ x).takeWhile isPlain = token v ∧ (token v ++ x).dropWhile isPlain = x := by
    intro v x hv hx
    rw [takeWhile_append_of_pos (isPlain_token hv), dropWhile_append_of_pos (isPlain_token hv)]
    cases x with
    | nil => simp
    | cons c cs => simp [hx c rfl]
  obtain ⟨htoken, hrest⟩ := htake hv hx
  rw [h, (htake hw hy).1] at htoken
  rw [h, (htake hw hy).2] at hrest
  have hread := readToken_token hv
  rw [← htoken, readToken_token hw] at hread
  exact ⟨(Option.some.inj hread).symm, hrest.symm⟩

end Omniscience.PyRepr
