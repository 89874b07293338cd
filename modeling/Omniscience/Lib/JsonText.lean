import Omniscience.Base.Python
import Mathlib.Data.List.Sort
import Mathlib.Data.List.TakeWhile

/-!
# The text of a JSON value

`dumps` writes a value with the members of its dictionaries sorted and nothing between the tokens
(`json.dumps(value, sort_keys=True, separators=(",", ":"), ensure_ascii=False)`), and `loads` reads
a text (`json.loads`), with every member of a dictionary in the order of the text, repeated ones
included.  What a float is written as is part of the value.

* `readValue_render` : reading what was written gives the value back, whatever follows it.
* `loads_dumps` : a written text reads as the value with its members sorted.
* `dumps_injective` : so two values with the same text are equal up to the order of members.
-/

namespace Omniscience.JsonText

open List

/-! ### Writing -/

/-- A character inside a string. -/
def escape (c : Char) : List Char :=
  if c = '"' then ['\\', '"']
  else if c = '\\' then ['\\', '\\']
  else if c = '\n' then ['\\', 'n']
  else if c = '\r' then ['\\', 'r']
  else if c = '\t' then ['\\', 't']
  else if c.toNat = 8 then ['\\', 'b']
  else if c.toNat = 12 then ['\\', 'f']
  else if c.toNat < 32 then
    ['\\', 'u', '0', '0', Nat.digitChar (c.toNat / 16), Nat.digitChar (c.toNat % 16)]
  else [c]

/-- A string after its opening quote. -/
def renderChars : List Char → List Char
  | [] => ['"']
  | c :: cs => escape c ++ renderChars cs

/-- An integer. -/
def renderInt : ℤ → List Char
  | .ofNat n => Nat.toDigits 10 n
  | .negSucc n => '-' :: Nat.toDigits 10 (n + 1)

/-- A float, by its text; the three that are no numbers have names of their own. -/
def renderFloat (text : String) : List Char :=
  if text = "nan" then "NaN".toList
  else if text = "inf" then "Infinity".toList
  else if text = "-inf" then "-Infinity".toList
  else text.toList

mutual

/-- A value. -/
def render : Json → List Char
  | .null => "null".toList
  | .bool true => "true".toList
  | .bool false => "false".toList
  | .int n => renderInt n
  | .float text => renderFloat text
  | .str s => '"' :: renderChars s.toList
  | .arr [] => ['[', ']']
  | .arr (v :: vs) => '[' :: (render v ++ renderItems vs)
  | .obj [] => ['{', '}']
  | .obj ((k, v) :: ms) => '{' :: '"' :: (renderChars k.toList ++ ':' :: (render v ++ renderMembers ms))

/-- The items after the first, with the closing bracket. -/
def renderItems : List Json → List Char
  | [] => [']']
  | v :: vs => ',' :: (render v ++ renderItems vs)

/-- The members after the first, with the closing brace. -/
def renderMembers : List (String × Json) → List Char
  | [] => ['}']
  | (k, v) :: ms => ',' :: '"' :: (renderChars k.toList ++ ':' :: (render v ++ renderMembers ms))

end

/-- Put a member in its place among sorted ones, before those of the same key. -/
def insertMember (m : String × Json) : List (String × Json) → List (String × Json)
  | [] => [m]
  | m' :: ms => if m.1 ≤ m'.1 then m :: m' :: ms else m' :: insertMember m ms

mutual

/-- A value with the members of its dictionaries sorted by key. -/
def sorted : Json → Json
  | .arr items => .arr (sortedItems items)
  | .obj members => .obj (sortedMembers members)
  | v => v

def sortedItems : List Json → List Json
  | [] => []
  | v :: vs => sorted v :: sortedItems vs

def sortedMembers : List (String × Json) → List (String × Json)
  | [] => []
  | (k, v) :: ms => insertMember (k, sorted v) (sortedMembers ms)

end

/-- `json.dumps(value, sort_keys=True, separators=(",", ":"), ensure_ascii=False)`. -/
def dumps (v : Json) : String := String.ofList (render (sorted v))

/-! ### Reading -/

/-- Whitespace between tokens. -/
def isWs (c : Char) : Bool := c = ' ' || c = '\n' || c = '\r' || c = '\t'

def skipWs (cs : List Char) : List Char := cs.dropWhile isWs

/-- A hexadecimal digit. -/
def hexDigit (c : Char) : Option ℕ :=
  if '0' ≤ c ∧ c ≤ '9' then some (c.toNat - '0'.toNat)
  else if 'a' ≤ c ∧ c ≤ 'f' then some (c.toNat - 'a'.toNat + 10)
  else if 'A' ≤ c ∧ c ≤ 'F' then some (c.toNat - 'A'.toNat + 10)
  else none

/-- The number of four hexadecimal digits. -/
def hex4 (a b c d : Char) : Option ℕ :=
  match hexDigit a, hexDigit b, hexDigit c, hexDigit d with
  | some a, some b, some c, some d => some (((a * 16 + b) * 16 + c) * 16 + d)
  | _, _, _, _ => none

/-- The character of an escape with one letter. -/
def unescape (c : Char) : Option Char :=
  if c = '"' then some '"'
  else if c = '\\' then some '\\'
  else if c = '/' then some '/'
  else if c = 'n' then some '\n'
  else if c = 'r' then some '\r'
  else if c = 't' then some '\t'
  else if c = 'b' then some (Char.ofNat 8)
  else if c = 'f' then some (Char.ofNat 12)
  else none

/-- The number of an escape `uXXXX`. -/
def readHex : List Char → Option (ℕ × List Char)
  | 'u' :: a :: b :: c :: d :: cs => (hex4 a b c d).map fun n => (n, cs)
  | _ => none

/-- The character of an escape, after its backslash.  Half of a surrogate pair is no character. -/
def readEscape (cs : List Char) : Option (Char × List Char) :=
  match readHex cs with
  | some (n, rest) =>
    if 0xD800 ≤ n ∧ n < 0xDC00 then
      match rest with
      | '\\' :: rest =>
        match readHex rest with
        | some (m, rest) =>
          if 0xDC00 ≤ m ∧ m < 0xE000 then
            some (Char.ofNat (0x10000 + (n - 0xD800) * 0x400 + (m - 0xDC00)), rest)
          else none
        | none => none
      | _ => none
    else if 0xDC00 ≤ n ∧ n < 0xE000 then none
    else some (Char.ofNat n, rest)
  | none =>
    match cs with
    | c :: rest => (unescape c).map fun c => (c, rest)
    | [] => none

/-- The first character of a string after its opening quote, `none` in place of the character for
the closing quote. -/
def readChar : List Char → Option (Option Char × List Char)
  | [] => none
  | c :: cs =>
    if c = '"' then some (none, cs)
    else if c = '\\' then (readEscape cs).map fun p => (some p.1, p.2)
    else if c.toNat < 32 then none
    else some (some c, cs)

/-- A string after its opening quote. -/
def readChars : ℕ → List Char → Option (List Char × List Char)
  | 0, _ => none
  | fuel + 1, cs =>
    match readChar cs with
    | none => none
    | some (none, rest) => some ([], rest)
    | some (some c, rest) => (readChars fuel rest).map fun p => (c :: p.1, p.2)

/-- A character of a number. -/
def isNumChar (c : Char) : Bool := c.isDigit || c = '-' || c = '+' || c = '.' || c = 'e' || c = 'E'

/-- Digits without a leading zero. -/
def isNatural : List Char → Bool
  | [] => false
  | ['0'] => true
  | c :: cs => c ≠ '0' && (c :: cs).all Char.isDigit

/-- A non-empty run of digits. -/
def isDigits (cs : List Char) : Bool := !cs.isEmpty && cs.all Char.isDigit

/-- `e` or `E`, a sign, digits; or nothing. -/
def isExponent : List Char → Bool
  | [] => true
  | c :: cs => (c = 'e' || c = 'E') &&
    match cs with
    | '+' :: ds => isDigits ds
    | '-' :: ds => isDigits ds
    | ds => isDigits ds

/-- What follows the integral part of a float: a fraction, an exponent, or both. -/
def isFloatTail : List Char → Bool
  | '.' :: cs =>
    isDigits (cs.takeWhile Char.isDigit) && isExponent (cs.dropWhile Char.isDigit)
  | cs => !cs.isEmpty && isExponent cs

/-- The digits of a number, and whether there is a sign before them. -/
def unsigned : List Char → Bool × List Char
  | [] => (false, [])
  | c :: cs => if c = '-' then (true, cs) else (false, c :: cs)

/-- A number that is not an integer. -/
def isFloatLiteral (digits : List Char) : Bool :=
  isNatural (digits.takeWhile Char.isDigit) && isFloatTail (digits.dropWhile Char.isDigit)

/-- The value of a number.  `floatRepr` is the text of the float that is nearest to a literal. -/
def readNumber (floatRepr : String → String) (token : List Char) : Option Json :=
  let (neg, digits) := unsigned token
  if isNatural digits then
    let n : ℤ := Nat.ofDigitChars 10 digits 0
    some (.int (if neg then -n else n))
  else if isFloatLiteral digits then some (.float (floatRepr (String.ofList token)))
  else none

/-- The values that are written as words. -/
def keywords : List (String × Json) :=
  [("null", .null), ("true", .bool true), ("false", .bool false), ("NaN", .float "nan"),
    ("Infinity", .float "inf"), ("-Infinity", .float "-inf")]

/-- A word at the start. -/
def readKeyword (cs : List Char) : Option (Json × List Char) :=
  keywords.findSome? fun w =>
    if w.1.toList.isPrefixOf cs then some (w.2, cs.drop w.1.toList.length) else none

section

variable (floatRepr : String → String)

mutual

/-- A value that starts here.  A call that reads on from a later place, and a call for a part, has
less fuel. -/
def readValue : ℕ → List Char → Option (Json × List Char)
  | 0, _ => none
  | fuel + 1, cs =>
    match cs with
    | '"' :: cs => (readChars fuel cs).map fun p => (.str (String.ofList p.1), p.2)
    | '[' :: cs =>
      match skipWs cs with
      | ']' :: rest => some (.arr [], rest)
      | cs => (readItems fuel cs).map fun p => (.arr p.1, p.2)
    | '{' :: cs =>
      match skipWs cs with
      | '}' :: rest => some (.obj [], rest)
      | cs => (readMembers fuel cs).map fun p => (.obj p.1, p.2)
    | cs =>
      match readKeyword cs with
      | some p => some p
      | none => (readNumber floatRepr (cs.takeWhile isNumChar)).map fun v =>
          (v, cs.dropWhile isNumChar)

/-- The items from one that starts here to the closing bracket. -/
def readItems : ℕ → List Char → Option (List Json × List Char)
  | 0, _ => none
  | fuel + 1, cs =>
    match readValue fuel cs with
    | none => none
    | some (v, rest) =>
      match skipWs rest with
      | ']' :: rest => some ([v], rest)
      | ',' :: rest => (readItems fuel (skipWs rest)).map fun p => (v :: p.1, p.2)
      | _ => none

/-- The members from one that starts here to the closing brace. -/
def readMembers : ℕ → List Char → Option (List (String × Json) × List Char)
  | 0, _ => none
  | fuel + 1, cs =>
    match cs with
    | '"' :: cs =>
      match readChars fuel cs with
      | none => none
      | some (k, rest) =>
        match skipWs rest with
        | ':' :: rest =>
          match readValue fuel (skipWs rest) with
          | none => none
          | some (v, rest) =>
            match skipWs rest with
            | '}' :: rest => some ([(String.ofList k, v)], rest)
            | ',' :: rest =>
              (readMembers fuel (skipWs rest)).map fun p => ((String.ofList k, v) :: p.1, p.2)
            | _ => none
        | _ => none
    | _ => none

end

/-- `json.loads(text)`; `none` is the decode error. -/
def loads (text : String) : Option Json :=
  match readValue floatRepr (2 * text.toList.length + 2) (skipWs text.toList) with
  | some (v, rest) => if (skipWs rest).isEmpty then some v else none
  | none => none

end

/-! ### Strings -/

theorem hexDigit_digitChar : ∀ d < 16, hexDigit (Nat.digitChar d) = some d := by decide

theorem readChar_escape (c : Char) (rest : List Char) :
    readChar (escape c ++ rest) = some (some c, rest) := by
  by_cases h₁ : c = '"'
  · subst h₁
    rfl
  by_cases h₂ : c = '\\'
  · subst h₂
    rfl
  by_cases h₃ : c = '\n'
  · subst h₃
    rfl
  by_cases h₄ : c = '\r'
  · subst h₄
    rfl
  by_cases h₅ : c = '\t'
  · subst h₅
    rfl
  by_cases h₆ : c.toNat = 8
  · obtain rfl : c = Char.ofNat 8 := by rw [← h₆, Char.ofNat_toNat]
    rfl
  by_cases h₇ : c.toNat = 12
  · obtain rfl : c = Char.ofNat 12 := by rw [← h₇, Char.ofNat_toNat]
    rfl
  unfold escape
  rw [if_neg h₁, if_neg h₂, if_neg h₃, if_neg h₄, if_neg h₅, if_neg h₆, if_neg h₇]
  split_ifs with h₈
  · have hhigh := hexDigit_digitChar (c.toNat / 16) (by omega)
    have hlow := hexDigit_digitChar (c.toNat % 16) (by omega)
    have hnum : ((0 * 16 + 0) * 16 + c.toNat / 16) * 16 + c.toNat % 16 = c.toNat := by omega
    have hhex : readHex ('u' :: '0' :: '0' :: Nat.digitChar (c.toNat / 16) ::
        Nat.digitChar (c.toNat % 16) :: rest) = some (c.toNat, rest) := by
      have hzero : hexDigit '0' = some 0 := by decide
      simp only [readHex, hex4, hzero, hhigh, hlow, hnum, Option.map_some]
    have hescape : readEscape ('u' :: '0' :: '0' :: Nat.digitChar (c.toNat / 16) ::
        Nat.digitChar (c.toNat % 16) :: rest) = some (c, rest) := by
      unfold readEscape
      simp only [hhex]
      rw [if_neg (by omega), if_neg (by omega), Char.ofNat_toNat]
    simp only [cons_append, nil_append, readChar]
    rw [if_neg (by decide), if_pos trivial, hescape]
    rfl
  · simp only [cons_append, nil_append, readChar]
    rw [if_neg h₁, if_neg h₂, if_neg h₈]

theorem length_escape_pos (c : Char) : 0 < (escape c).length := by
  refine length_pos_iff.2 fun h => ?_
  have hread := readChar_escape c []
  rw [h] at hread
  cases hread

theorem length_renderChars (cs : List Char) : cs.length < (renderChars cs).length := by
  induction cs with
  | nil => simp [renderChars]
  | cons c cs ih =>
    have := length_escape_pos c
    simp only [renderChars, length_append, length_cons]
    omega

theorem readChars_renderChars {fuel : ℕ} {cs : List Char} (h : cs.length < fuel)
    (rest : List Char) : readChars fuel (renderChars cs ++ rest) = some (cs, rest) := by
  induction cs generalizing fuel with
  | nil =>
    obtain ⟨fuel, rfl⟩ : ∃ n, fuel = n + 1 := ⟨fuel - 1, by simp at h; omega⟩
    rfl
  | cons c cs ih =>
    obtain ⟨fuel, rfl⟩ : ∃ n, fuel = n + 1 := ⟨fuel - 1, by simp at h; omega⟩
    rw [length_cons, Nat.add_lt_add_iff_right] at h
    rw [renderChars, append_assoc, readChars, readChar_escape]
    dsimp only
    rw [ih h]
    rfl

/-! ### Numbers -/

/-- What follows does not go on with a number. -/
def Delimited (rest : List Char) : Prop := ∀ c ∈ rest.head?, isNumChar c = false

theorem takeWhile_token {token rest : List Char} (htoken : ∀ c ∈ token, isNumChar c = true)
    (hrest : Delimited rest) : (token ++ rest).takeWhile isNumChar = token := by
  rw [takeWhile_append_of_pos htoken]
  cases rest with
  | nil => simp
  | cons c cs => simp [hrest c rfl]

theorem dropWhile_token {token rest : List Char} (htoken : ∀ c ∈ token, isNumChar c = true)
    (hrest : Delimited rest) : (token ++ rest).dropWhile isNumChar = rest := by
  rw [dropWhile_append_of_pos htoken]
  cases rest with
  | nil => rfl
  | cons c cs => simp [hrest c rfl]

theorem isDigit_toDigits {n : ℕ} : ∀ c ∈ Nat.toDigits 10 n, c.isDigit = true :=
  fun _ hc => Nat.isDigit_of_mem_toDigits (by decide) (by decide) hc

theorem head_toDigits (n : ℕ) : (Nat.toDigits 10 n).head? = some '0' → n = 0 := by
  induction n using Nat.strongRecOn with
  | ind n ih =>
    intro h
    by_cases hn : n < 10
    · rw [Nat.toDigits_of_lt_base hn] at h
      simpa using h
    · rw [Nat.toDigits_of_base_le (by decide) (by omega),
        List.head?_append_of_ne_nil _ Nat.toDigits_ne_nil] at h
      have := ih (n / 10) (by omega) h
      omega

theorem isNatural_toDigits (n : ℕ) : isNatural (Nat.toDigits 10 n) = true := by
  by_cases hn : n = 0
  · subst hn
    decide
  · have hhead := head_toDigits n
    have hdigits := isDigit_toDigits (n := n)
    have hne : Nat.toDigits 10 n ≠ [] := Nat.toDigits_ne_nil
    generalize Nat.toDigits 10 n = token at hhead hdigits hne
    unfold isNatural
    split
    · exact absurd rfl hne
    · rfl
    · next c cs _ =>
      have hc : c ≠ '0' := by
        rintro rfl
        exact hn (hhead rfl)
      rw [Bool.and_eq_true, all_eq_true]
      exact ⟨by simpa using hc, hdigits⟩

/-- What the text of a float may be. -/
def IsFloatText (text : String) : Prop :=
  text = "nan" ∨ text = "inf" ∨ text = "-inf" ∨
    ((∀ c ∈ text.toList, isNumChar c = true) ∧ isFloatLiteral (unsigned text.toList).2 = true)

instance : DecidablePred IsFloatText := fun _ => inferInstanceAs (Decidable (_ ∨ _))

theorem isNumChar_of_isDigit {c : Char} (h : c.isDigit = true) : isNumChar c = true := by
  simp [isNumChar, h]

theorem isNumChar_renderInt (n : ℤ) : ∀ c ∈ renderInt n, isNumChar c = true := by
  cases n with
  | ofNat n => exact fun c hc => isNumChar_of_isDigit (isDigit_toDigits c hc)
  | negSucc n =>
    intro c hc
    rcases mem_cons.1 hc with rfl | hc
    · decide
    · exact isNumChar_of_isDigit (isDigit_toDigits c hc)

variable {token : List Char}

theorem unsigned_of_isDigit (h : ∀ c ∈ token, c.isDigit = true) :
    unsigned token = (false, token) := by
  cases token with
  | nil => rfl
  | cons c cs =>
    have hc : c ≠ '-' := by
      rintro rfl
      exact absurd (h _ mem_cons_self) (by decide)
    rw [unsigned, if_neg hc]

theorem readNumber_renderInt (floatRepr : String → String) (n : ℤ) :
    readNumber floatRepr (renderInt n) = some (.int n) := by
  cases n with
  | ofNat n =>
    simp only [readNumber, renderInt, unsigned_of_isDigit isDigit_toDigits, isNatural_toDigits,
      if_pos, Nat.ofDigitChars_ten_toDigits, Bool.false_eq_true, if_false, Int.ofNat_eq_natCast]
  | negSucc n =>
    simp only [readNumber, renderInt, unsigned, if_true, isNatural_toDigits,
      Nat.ofDigitChars_ten_toDigits, Int.negSucc_eq, Int.natCast_add, Int.natCast_one]

theorem isNatural_eq_false {digits : List Char} (h : isFloatLiteral digits = true) :
    isNatural digits = false := by
  rw [isFloatLiteral, Bool.and_eq_true] at h
  rw [Bool.eq_false_iff]
  intro hnat
  have hall : ∀ c ∈ digits, c.isDigit = true := by
    unfold isNatural at hnat
    split at hnat
    · simp
    · simp only [mem_singleton, forall_eq]
      rfl
    · rw [Bool.and_eq_true, all_eq_true] at hnat
      exact hnat.2
  have hnil : digits.dropWhile Char.isDigit = [] := dropWhile_eq_nil_iff.2 hall
  rw [hnil] at h
  exact absurd h.2 (by decide)

theorem readNumber_float {floatRepr : String → String} {text : String}
    (h : isFloatLiteral (unsigned text.toList).2 = true) :
    readNumber floatRepr text.toList = some (.float (floatRepr text)) := by
  rw [readNumber]
  dsimp only
  rw [if_neg (by rw [isNatural_eq_false h]; decide), if_pos h, String.ofList_toList]

/-- A number starts with a digit, after its sign. -/
def StartsNumber (token : List Char) : Prop :=
  ∃ d ds, d.isDigit = true ∧ (token = d :: ds ∨ token = '-' :: d :: ds)

theorem startsNumber_of_unsigned {token ds : List Char} {d : Char} (hd : d.isDigit = true)
    (h : (unsigned token).2 = d :: ds) : StartsNumber token := by
  cases token with
  | nil => cases h
  | cons c cs =>
    rw [unsigned] at h
    split_ifs at h with hc
    · obtain rfl : cs = d :: ds := h
      exact ⟨d, ds, hd, .inr (by rw [hc])⟩
    · exact ⟨d, ds, hd, .inl h⟩

theorem startsNumber_renderInt (n : ℤ) : StartsNumber (renderInt n) := by
  have hdigits (n : ℕ) : ∃ d ds, Nat.toDigits 10 n = d :: ds ∧ d.isDigit = true := by
    obtain ⟨d, ds, hds⟩ := exists_cons_of_ne_nil (Nat.toDigits_ne_nil (b := 10) (n := n))
    exact ⟨d, ds, hds, isDigit_toDigits d (by rw [hds]; exact mem_cons_self)⟩
  cases n with
  | ofNat n =>
    obtain ⟨d, ds, hds, hd⟩ := hdigits n
    exact ⟨d, ds, hd, .inl hds⟩
  | negSucc n =>
    obtain ⟨d, ds, hds, hd⟩ := hdigits (n + 1)
    exact ⟨d, ds, hd, .inr (by rw [renderInt, hds])⟩

theorem startsNumber_of_isFloatLiteral (h : isFloatLiteral (unsigned token).2 = true) :
    StartsNumber token := by
  rw [isFloatLiteral, Bool.and_eq_true] at h
  cases hdigits : (unsigned token).2 with
  | nil =>
    rw [hdigits] at h
    exact absurd h.1 (by decide)
  | cons d ds =>
    have hd : d.isDigit = true := by
      by_contra hno
      rw [hdigits, takeWhile_cons_of_neg (by simpa using hno)] at h
      exact absurd h.1 (by decide)
    exact startsNumber_of_unsigned hd hdigits

theorem readKeyword_of_startsNumber (h : StartsNumber token) (rest : List Char) :
    readKeyword (token ++ rest) = none := by
  obtain ⟨d, ds, hd, rfl | rfl⟩ := h
  · have hne : ∀ c ∈ ['n', 't', 'f', 'N', 'I', '-'], c ≠ d := by
      rintro c hc rfl
      simp only [mem_cons, not_mem_nil, or_false] at hc
      rcases hc with rfl | rfl | rfl | rfl | rfl | rfl <;> exact absurd hd (by decide)
    simp only [forall_mem_cons] at hne
    simp [readKeyword, keywords, hne]
  · have hne : 'I' ≠ d := by
      rintro rfl
      exact absurd hd (by decide)
    simp [readKeyword, keywords, hne]

theorem readValue_word (floatRepr : String → String) {fuel : ℕ} {c : Char} {cs : List Char}
    (hquote : c ≠ '"') (hbracket : c ≠ '[') (hbrace : c ≠ '\x7b') :
    readValue floatRepr (fuel + 1) (c :: cs) =
      match readKeyword (c :: cs) with
      | some p => some p
      | none => (readNumber floatRepr ((c :: cs).takeWhile isNumChar)).map fun v =>
          (v, (c :: cs).dropWhile isNumChar) := by
  rw [readValue]
  all_goals grind

/-! ### Reading what was written -/

mutual

/-- Every float of a value satisfies `P`. -/
def AllFloats (P : String → Prop) : Json → Prop
  | .float text => P text
  | .arr items => AllFloatsItems P items
  | .obj members => AllFloatsMembers P members
  | _ => True

def AllFloatsItems (P : String → Prop) : List Json → Prop
  | [] => True
  | v :: vs => AllFloats P v ∧ AllFloatsItems P vs

def AllFloatsMembers (P : String → Prop) : List (String × Json) → Prop
  | [] => True
  | (_, v) :: ms => AllFloats P v ∧ AllFloatsMembers P ms

end

variable {floatRepr : String → String}

/-- The floats of a value have texts that are read as they are. -/
abbrev Fits (floatRepr : String → String) : Json → Prop :=
  AllFloats fun text => IsFloatText text ∧ floatRepr text = text

theorem startsNumber_ne (h : StartsNumber token) :
    ∃ c cs, token = c :: cs ∧ c ≠ '"' ∧ c ≠ '[' ∧ c ≠ '\x7b' ∧ c ≠ ']' ∧ c ≠ '\x7d' ∧
      isWs c = false := by
  have hfirst (d : Char) (hd : d.isDigit = true) : d ≠ '"' ∧ d ≠ '[' ∧ d ≠ '\x7b' ∧ d ≠ ']' ∧
      d ≠ '\x7d' ∧ isWs d = false := by
    refine ⟨?_, ?_, ?_, ?_, ?_, ?_⟩
    case refine_6 =>
      by_contra hws
      simp only [isWs, Bool.not_eq_false, Bool.or_eq_true, decide_eq_true_eq] at hws
      rcases hws with ((rfl | rfl) | rfl) | rfl <;> exact absurd hd (by decide)
    all_goals
      rintro rfl
      exact absurd hd (by decide)
  obtain ⟨d, ds, hd, rfl | rfl⟩ := h
  · exact ⟨d, ds, rfl, hfirst d hd⟩
  · exact ⟨'-', d :: ds, rfl, by decide⟩

theorem readValue_number {fuel : ℕ} {token rest : List Char} {v : Json}
    (hstart : StartsNumber token) (hchars : ∀ c ∈ token, isNumChar c = true)
    (hvalue : readNumber floatRepr token = some v) (hrest : Delimited rest) :
    readValue floatRepr (fuel + 1) (token ++ rest) = some (v, rest) := by
  obtain ⟨c, cs, hc, hquote, hbracket, hbrace, -⟩ := startsNumber_ne hstart
  have hword := readKeyword_of_startsNumber hstart rest
  have htake := takeWhile_token hchars hrest
  have hdrop := dropWhile_token hchars hrest
  rw [hc, cons_append] at hword htake hdrop ⊢
  rw [readValue_word floatRepr hquote hbracket hbrace, hword]
  dsimp only
  rw [htake, hdrop, ← hc, hvalue]
  rfl

theorem renderFloat_of_isFloatLiteral {text : String}
    (h : isFloatLiteral (unsigned text.toList).2 = true) : renderFloat text = text.toList := by
  have hne {special : String}
      (hspecial : isFloatLiteral (unsigned special.toList).2 = false) : text ≠ special := by
    rintro rfl
    rw [h] at hspecial
    cases hspecial
  rw [renderFloat, if_neg (hne (by decide)), if_neg (hne (by decide)), if_neg (hne (by decide))]

theorem exists_render (v : Json) (h : Fits floatRepr v) : ∃ c cs, render v = c :: cs ∧
    isWs c = false ∧ c ≠ ']' ∧ c ≠ '\x7d' := by
  match v, h with
  | .null, _ => exact ⟨'n', _, rfl, by decide⟩
  | .bool true, _ => exact ⟨'t', _, rfl, by decide⟩
  | .bool false, _ => exact ⟨'f', _, rfl, by decide⟩
  | .int n, _ =>
    obtain ⟨c, cs, hc, -, -, -, hbracket, hbrace, hws⟩ := startsNumber_ne (startsNumber_renderInt n)
    exact ⟨c, cs, hc, hws, hbracket, hbrace⟩
  | .float text, h =>
    rcases h.1 with rfl | rfl | rfl | ⟨-, hliteral⟩
    · exact ⟨'N', _, rfl, by decide⟩
    · exact ⟨'I', _, rfl, by decide⟩
    · exact ⟨'-', _, rfl, by decide⟩
    · obtain ⟨c, cs, hc, -, -, -, hbracket, hbrace, hws⟩ :=
        startsNumber_ne (startsNumber_of_isFloatLiteral hliteral)
      exact ⟨c, cs, (renderFloat_of_isFloatLiteral hliteral).trans hc, hws, hbracket, hbrace⟩
  | .str s, _ => exact ⟨'"', _, rfl, by decide⟩
  | .arr [], _ => exact ⟨'[', _, rfl, by decide⟩
  | .arr (v :: vs), _ => exact ⟨'[', _, rfl, by decide⟩
  | .obj [], _ => exact ⟨'\x7b', _, rfl, by decide⟩
  | .obj ((k, v) :: ms), _ => exact ⟨'\x7b', _, rfl, by decide⟩

theorem skipWs_cons {c : Char} (h : isWs c = false) (cs : List Char) :
    skipWs (c :: cs) = c :: cs := by
  rw [skipWs, dropWhile_cons_of_neg (by simp [h])]

theorem skipWs_render {v : Json} (h : Fits floatRepr v) (rest : List Char) :
    skipWs (render v ++ rest) = render v ++ rest := by
  obtain ⟨c, cs, hc, hws, -⟩ := exists_render v h
  rw [hc, cons_append, skipWs_cons hws]

theorem delimited_cons {c : Char} (h : isNumChar c = false) (cs : List Char) :
    Delimited (c :: cs) := by
  rintro _ ⟨⟩
  exact h

theorem delimited_renderItems (vs : List Json) (rest : List Char) :
    Delimited (renderItems vs ++ rest) := by
  cases vs with
  | nil => exact delimited_cons (by decide) _
  | cons v vs => exact delimited_cons (by decide) _

variable (ms : List (String × Json))

theorem delimited_renderMembers (rest : List Char) : Delimited (renderMembers ms ++ rest) := by
  cases ms with
  | nil => exact delimited_cons (by decide) _
  | cons m ms => exact delimited_cons (by decide) _

theorem readValue_keyword {fuel : ℕ} (word : String) {v : Json} (hmem : (word, v) ∈ keywords)
    (rest : List Char) : readValue floatRepr (fuel + 1) (word.toList ++ rest) = some (v, rest) := by
  simp only [keywords, mem_cons, Prod.mk.injEq, not_mem_nil, or_false] at hmem
  have hword (c : Char) (cs : List Char) (hc : c ≠ '"' ∧ c ≠ '[' ∧ c ≠ '\x7b')
      (hread : readKeyword (c :: cs) = some (v, rest)) :
      readValue floatRepr (fuel + 1) (c :: cs) = some (v, rest) := by
    rw [readValue_word floatRepr hc.1 hc.2.1 hc.2.2, hread]
  rcases hmem with ⟨rfl, rfl⟩ | ⟨rfl, rfl⟩ | ⟨rfl, rfl⟩ | ⟨rfl, rfl⟩ | ⟨rfl, rfl⟩ | ⟨rfl, rfl⟩ <;>
    exact hword _ _ (by decide) rfl

theorem readValue_renderFloat {fuel : ℕ} {text : String} {rest : List Char}
    (htext : IsFloatText text) (hrepr : floatRepr text = text) (hrest : Delimited rest) :
    readValue floatRepr (fuel + 1) (renderFloat text ++ rest) = some (.float text, rest) := by
  rcases htext with rfl | rfl | rfl | ⟨hchars, hliteral⟩
  · exact readValue_keyword "NaN" (by simp [keywords]) rest
  · exact readValue_keyword "Infinity" (by simp [keywords]) rest
  · exact readValue_keyword "-Infinity" (by simp [keywords]) rest
  · rw [renderFloat_of_isFloatLiteral hliteral]
    exact readValue_number (startsNumber_of_isFloatLiteral hliteral) hchars
      (by rw [readNumber_float hliteral, hrepr]) hrest

theorem readValue_bracket {fuel : ℕ} {c : Char} {cs : List Char} (hws : isWs c = false)
    (hne : c ≠ ']') : readValue floatRepr (fuel + 1) ('[' :: c :: cs) =
      (readItems floatRepr fuel (c :: cs)).map fun p => (.arr p.1, p.2) := by
  rw [readValue, skipWs_cons hws]
  split
  · next heq => exact absurd (List.cons.inj heq).1 hne
  · rfl

theorem readValue_brace {fuel : ℕ} {c : Char} {cs : List Char} (hws : isWs c = false)
    (hne : c ≠ '\x7d') : readValue floatRepr (fuel + 1) ('\x7b' :: c :: cs) =
      (readMembers floatRepr fuel (c :: cs)).map fun p => (.obj p.1, p.2) := by
  rw [readValue, skipWs_cons hws]
  split
  · next heq => exact absurd (List.cons.inj heq).1 hne
  · rfl

theorem readMembers_key {fuel : ℕ} {k : String} {v : Json} {rest : List Char}
    (hv : Fits floatRepr v) (hkey : k.toList.length < fuel)
    (hread : readValue floatRepr fuel (render v ++ rest) = some (v, rest)) :
    readMembers floatRepr (fuel + 1) ('"' :: (renderChars k.toList ++ ':' :: (render v ++ rest))) =
      match skipWs rest with
      | '\x7d' :: rest => some ([(k, v)], rest)
      | ',' :: rest => (readMembers floatRepr fuel (skipWs rest)).map fun p => ((k, v) :: p.1, p.2)
      | _ => none := by
  have hcolon : skipWs (':' :: (render v ++ rest)) = ':' :: (render v ++ rest) :=
    skipWs_cons (by decide) _
  simp only [readMembers, readChars_renderChars hkey, hcolon, skipWs_render hv, hread,
    String.ofList_toList]

mutual

/-- **Reading what was written gives the value back**, whatever follows it. -/
theorem readValue_render : ∀ (v : Json) {fuel : ℕ} {rest : List Char}, Fits floatRepr v →
    (render v).length < fuel → Delimited rest →
    readValue floatRepr fuel (render v ++ rest) = some (v, rest)
  | _, 0, _, _, hfuel, _ => absurd hfuel (Nat.not_lt_zero _)
  | .null, _ + 1, rest, _, _, _ => readValue_keyword "null" (by simp [keywords]) rest
  | .bool true, _ + 1, rest, _, _, _ => readValue_keyword "true" (by simp [keywords]) rest
  | .bool false, _ + 1, rest, _, _, _ => readValue_keyword "false" (by simp [keywords]) rest
  | .int n, _ + 1, _, _, _, hrest =>
    readValue_number (startsNumber_renderInt n) (isNumChar_renderInt n)
      (readNumber_renderInt floatRepr n) hrest
  | .float _, _ + 1, _, hfits, _, hrest => readValue_renderFloat hfits.1 hfits.2 hrest
  | .str s, fuel + 1, rest, _, hfuel, _ => by
    have hlength := length_renderChars s.toList
    replace hfuel : (renderChars s.toList).length < fuel := Nat.lt_of_succ_lt_succ hfuel
    show readValue floatRepr (fuel + 1) ('"' :: (renderChars s.toList ++ rest)) = _
    simp only [readValue]
    rw [readChars_renderChars (by omega), Option.map_some, String.ofList_toList]
  | .arr [], fuel + 1, rest, _, _, _ => by
    show readValue floatRepr (fuel + 1) ('[' :: ']' :: rest) = _
    simp only [readValue]
    rw [skipWs_cons (by decide)]
    rfl
  | .arr (v :: vs), fuel + 1, rest, hfits, hfuel, _ => by
    replace hfuel : (render v ++ renderItems vs).length < fuel := Nat.lt_of_succ_lt_succ hfuel
    rw [length_append] at hfuel
    have hitems : readItems floatRepr fuel (render v ++ (renderItems vs ++ rest)) =
        some (v :: vs, rest) :=
      readItems_render (v :: vs) hfits v vs rfl hfuel
    obtain ⟨c, cs, hc, hws, hbracket, -⟩ := exists_render v hfits.1
    show readValue floatRepr (fuel + 1) ('[' :: (render v ++ renderItems vs ++ rest)) = _
    rw [append_assoc]
    rw [hc, cons_append] at hitems ⊢
    rw [readValue_bracket hws hbracket, hitems, Option.map_some]
  | .obj [], fuel + 1, rest, _, _, _ => by
    show readValue floatRepr (fuel + 1) ('\x7b' :: '\x7d' :: rest) = _
    simp only [readValue]
    rw [skipWs_cons (by decide)]
    rfl
  | .obj ((k, v) :: ms), fuel + 1, rest, hfits, hfuel, _ => by
    replace hfuel : ('"' :: (renderChars k.toList ++ ':' :: (render v ++
        renderMembers ms))).length < fuel := Nat.lt_of_succ_lt_succ hfuel
    simp only [length_cons, length_append] at hfuel
    have hmembers : readMembers floatRepr fuel ('"' :: (renderChars k.toList ++
        ':' :: (render v ++ (renderMembers ms ++ rest)))) = some ((k, v) :: ms, rest) :=
      readMembers_render ((k, v) :: ms) hfits k v ms rfl hfuel
    show readValue floatRepr (fuel + 1) ('\x7b' :: '"' :: (renderChars k.toList ++
      ':' :: (render v ++ renderMembers ms) ++ rest)) = _
    simp only [cons_append, append_assoc]
    rw [readValue_brace (by decide) (by decide), hmembers, Option.map_some]

theorem readItems_render : ∀ (items : List Json) {fuel : ℕ} {rest : List Char},
    AllFloatsItems (fun text => IsFloatText text ∧ floatRepr text = text) items →
    ∀ v vs, items = v :: vs → (render v).length + (renderItems vs).length < fuel →
    readItems floatRepr fuel (render v ++ (renderItems vs ++ rest)) = some (items, rest)
  | _, 0, _, _, _, _, _, hfuel => absurd hfuel (Nat.not_lt_zero _)
  | [], _ + 1, _, _, _, _, h, _ => by cases h
  | v :: [], fuel + 1, rest, hfits, _, _, rfl, hfuel => by
    have hlength : (renderItems []).length = 1 := rfl
    rw [readItems, readValue_render v hfits.1 (by omega) (delimited_renderItems [] rest)]
    dsimp only [renderItems, cons_append, nil_append]
    rw [skipWs_cons (by decide)]
    rfl
  | v :: w :: vs, fuel + 1, rest, hfits, _, _, rfl, hfuel => by
    simp only [renderItems, length_cons, length_append] at hfuel
    have hitems : readItems floatRepr fuel (render w ++ (renderItems vs ++ rest)) =
        some (w :: vs, rest) :=
      readItems_render (w :: vs) hfits.2 w vs rfl (by omega)
    rw [readItems, readValue_render v hfits.1 (by omega) (delimited_renderItems (w :: vs) rest)]
    simp only [renderItems, cons_append, append_assoc]
    rw [skipWs_cons (by decide)]
    show (readItems floatRepr fuel (skipWs (render w ++ (renderItems vs ++ rest)))).map
      (fun p => (v :: p.1, p.2)) = _
    rw [skipWs_render hfits.2.1, hitems]
    rfl

theorem readMembers_render : ∀ (members : List (String × Json)) {fuel : ℕ} {rest : List Char},
    AllFloatsMembers (fun text => IsFloatText text ∧ floatRepr text = text) members →
    ∀ k v ms, members = (k, v) :: ms →
    (renderChars k.toList).length + ((render v).length + (renderMembers ms).length + 1) + 1 < fuel →
    readMembers floatRepr fuel ('"' :: (renderChars k.toList ++
      ':' :: (render v ++ (renderMembers ms ++ rest)))) = some (members, rest)
  | _, 0, _, _, _, _, _, _, hfuel => absurd hfuel (Nat.not_lt_zero _)
  | [], _ + 1, _, _, _, _, _, h, _ => by cases h
  | (k, v) :: [], fuel + 1, rest, hfits, _, _, _, rfl, hfuel => by
    have hkey := length_renderChars k.toList
    have hlength : (renderMembers []).length = 1 := rfl
    rw [readMembers_key hfits.1 (by omega)
      (readValue_render v hfits.1 (by omega) (delimited_renderMembers [] rest))]
    dsimp only [renderMembers, cons_append, nil_append]
    rw [skipWs_cons (by decide)]
    rfl
  | (k, v) :: (k', w) :: ms, fuel + 1, rest, hfits, _, _, _, rfl, hfuel => by
    have hkey := length_renderChars k.toList
    simp only [renderMembers, length_cons, length_append] at hfuel
    have hmembers : readMembers floatRepr fuel ('"' :: (renderChars k'.toList ++
        ':' :: (render w ++ (renderMembers ms ++ rest)))) = some ((k', w) :: ms, rest) :=
      readMembers_render ((k', w) :: ms) hfits.2 k' w ms rfl (by omega)
    rw [readMembers_key hfits.1 (by omega)
      (readValue_render v hfits.1 (by omega) (delimited_renderMembers ((k', w) :: ms) rest))]
    simp only [renderMembers, cons_append, append_assoc]
    rw [skipWs_cons (by decide)]
    show (readMembers floatRepr fuel (skipWs ('"' :: (renderChars k'.toList ++
      ':' :: (render w ++ (renderMembers ms ++ rest)))))).map (fun p => ((k, v) :: p.1, p.2)) = _
    rw [skipWs_cons (by decide), hmembers]
    rfl

end

/-! ### Sorting the members -/

variable {P : String → Prop}

theorem allFloats_insertMember {m : String × Json} {ms : List (String × Json)}
    (hm : AllFloats P m.2) (hms : AllFloatsMembers P ms) :
    AllFloatsMembers P (insertMember m ms) := by
  induction ms with
  | nil => exact ⟨hm, trivial⟩
  | cons m' ms ih =>
    rw [insertMember]
    split_ifs
    · exact ⟨hm, hms⟩
    · exact ⟨hms.1, ih hms.2⟩

mutual

theorem allFloats_sorted : ∀ v, AllFloats P v → AllFloats P (sorted v)
  | .null, h => h
  | .bool _, h => h
  | .int _, h => h
  | .float _, h => h
  | .str _, h => h
  | .arr items, h => allFloats_sortedItems items h
  | .obj members, h => allFloats_sortedMembers members h

theorem allFloats_sortedItems : ∀ items, AllFloatsItems P items →
    AllFloatsItems P (sortedItems items)
  | [], h => h
  | v :: vs, h => ⟨allFloats_sorted v h.1, allFloats_sortedItems vs h.2⟩

theorem allFloats_sortedMembers : ∀ members, AllFloatsMembers P members →
    AllFloatsMembers P (sortedMembers members)
  | [], h => h
  | (_, v) :: ms, h =>
    allFloats_insertMember (allFloats_sorted v h.1) (allFloats_sortedMembers ms h.2)

end

theorem lookup_insertMember (m : String × Json) (ms : List (String × Json)) (k : String) :
    (insertMember m ms).lookup k = (m :: ms).lookup k := by
  induction ms with
  | nil => rfl
  | cons m' ms ih =>
    rw [insertMember]
    split_ifs with hle
    · rfl
    · rw [lookup_cons, ih, lookup_cons, lookup_cons, lookup_cons]
      -- members of the same key are not exchanged
      have hne : m.1 ≠ m'.1 := fun heq => hle (heq ▸ String.le_refl _)
      cases hm : k == m.1 with
      | false => rfl
      | true =>
        have hm' : (k == m'.1) = false := by
          rw [beq_eq_false_iff_ne, eq_of_beq hm]
          exact hne
        rw [hm']

theorem lookup_sortedMembers (members : List (String × Json)) (k : String) :
    (sortedMembers members).lookup k = (members.lookup k).map sorted := by
  induction members with
  | nil => rfl
  | cons m ms ih =>
    rw [sortedMembers, lookup_insertMember, lookup_cons, ih, lookup_cons]
    split
    · rfl
    · rfl

theorem sortedItems_eq_map (items : List Json) : sortedItems items = items.map sorted := by
  induction items with
  | nil => rfl
  | cons v vs ih => rw [sortedItems, ih, map_cons]

theorem insertMember_eq_orderedInsert (m : String × Json) (ms : List (String × Json)) :
    insertMember m ms = List.orderedInsert (fun m m' => m.1 ≤ m'.1) m ms := by
  induction ms with
  | nil => rfl
  | cons m' ms ih => rw [insertMember, orderedInsert_cons, ih]

theorem sortedMembers_eq_insertionSort : sortedMembers ms =
      (ms.map fun m => (m.1, sorted m.2)).insertionSort fun m m' => m.1 ≤ m'.1 := by
  induction ms with
  | nil => rfl
  | cons m ms ih =>
    rw [sortedMembers, insertMember_eq_orderedInsert, ih]
    rfl

theorem length_sortedMembers : (sortedMembers ms).length = ms.length := by
  rw [sortedMembers_eq_insertionSort, length_insertionSort, length_map]

theorem pairwise_sortedMembers : (sortedMembers ms).Pairwise fun m m' => m.1 ≤ m'.1 := by
  have : Std.Total fun m m' : String × Json => m.1 ≤ m'.1 := ⟨fun _ _ => String.le_total _ _⟩
  have : IsTrans (String × Json) fun m m' => m.1 ≤ m'.1 := ⟨fun _ _ _ => String.le_trans⟩
  rw [sortedMembers_eq_insertionSort]
  exact pairwise_insertionSort _ _

theorem sortedMembers_eq_of_perm {ms ms' : List (String × Json)} (hkeys : (ms.map Prod.fst).Nodup)
    (h : (ms.map fun m => (m.1, sorted m.2)).Perm (ms'.map fun m => (m.1, sorted m.2))) :
    sortedMembers ms = sortedMembers ms' := by
  have hperm := perm_insertionSort (fun m m' : String × Json => m.1 ≤ m'.1)
    (ms.map fun m => (m.1, sorted m.2))
  have hperm' := perm_insertionSort (fun m m' : String × Json => m.1 ≤ m'.1)
    (ms'.map fun m => (m.1, sorted m.2))
  rw [← sortedMembers_eq_insertionSort] at hperm hperm'
  have hall := (hperm.trans h).trans hperm'.symm
  refine List.Perm.eq_of_pairwise (fun a b ha hb hab hba => ?_) (pairwise_sortedMembers ms)
    (pairwise_sortedMembers ms') hall
  have hnodup : ((sortedMembers ms).map Prod.fst).Nodup := by
    rw [(hperm.map Prod.fst).nodup_iff, map_map]
    exact hkeys
  exact inj_on_of_nodup_map hnodup ha (hall.mem_iff.2 hb) (String.le_antisymm hab hba)

mutual

theorem AllFloats.mono {Q : String → Prop} (hPQ : ∀ text, P text → Q text) :
    ∀ v, AllFloats P v → AllFloats Q v
  | .null, _ | .bool _, _ | .int _, _ | .str _, _ => trivial
  | .float _, h => hPQ _ h
  | .arr items, h => AllFloatsItems.mono hPQ items h
  | .obj members, h => AllFloatsMembers.mono hPQ members h

theorem AllFloatsItems.mono {Q : String → Prop} (hPQ : ∀ text, P text → Q text) :
    ∀ items, AllFloatsItems P items → AllFloatsItems Q items
  | [], _ => trivial
  | v :: vs, h => ⟨AllFloats.mono hPQ v h.1, AllFloatsItems.mono hPQ vs h.2⟩

theorem AllFloatsMembers.mono {Q : String → Prop} (hPQ : ∀ text, P text → Q text) :
    ∀ members, AllFloatsMembers P members → AllFloatsMembers Q members
  | [], _ => trivial
  | (_, v) :: ms, h => ⟨AllFloats.mono hPQ v h.1, AllFloatsMembers.mono hPQ ms h.2⟩

end

/-- **A written text reads as the value, with its members sorted.** -/
theorem loads_dumps {v : Json} (h : Fits floatRepr v) :
    loads floatRepr (dumps v) = some (sorted v) := by
  have hfits : Fits floatRepr (sorted v) := allFloats_sorted v h
  have hread : readValue floatRepr (2 * (render (sorted v)).length + 2) (render (sorted v)) =
      some (sorted v, []) := by
    have hread : readValue floatRepr (2 * (render (sorted v)).length + 2)
        (render (sorted v) ++ []) = some (sorted v, []) :=
      readValue_render (sorted v) hfits (by omega) (by rintro _ ⟨⟩)
    rwa [append_nil] at hread
  have hws : skipWs (render (sorted v)) = render (sorted v) := by
    have hskip := skipWs_render hfits []
    rwa [append_nil] at hskip
  rw [loads, dumps, String.toList_ofList, hws, hread]
  rfl

theorem dumps_injective {v w : Json} (hv : AllFloats IsFloatText v) (hw : AllFloats IsFloatText w)
    (h : dumps v = dumps w) : sorted v = sorted w := by
  have hid : ∀ text, IsFloatText text → IsFloatText text ∧ id text = text := fun _ h => ⟨h, rfl⟩
  have hv' := loads_dumps (hv.mono hid)
  have hw' := loads_dumps (hw.mono hid)
  rw [h, hw'] at hv'
  exact (Option.some.inj hv').symm

theorem sorted_member {ms ms' : List (String × Json)} (h : sorted (.obj ms) = sorted (.obj ms'))
    {k : String} {v w : Json} (hv : ms.lookup k = some v) (hw : ms'.lookup k = some w) :
    sorted v = sorted w := by
  have hms : sortedMembers ms = sortedMembers ms' := Json.obj.inj h
  have hlookup := lookup_sortedMembers ms k
  rw [hms, lookup_sortedMembers, hv, hw] at hlookup
  exact (Option.some.inj hlookup).symm

theorem sorted_obj_cons {k : String} {v w : Json} {ms : List (String × Json)}
    (h : sorted v = sorted w) : sorted (.obj ((k, v) :: ms)) = sorted (.obj ((k, w) :: ms)) := by
  rw [sorted, sorted, sortedMembers, sortedMembers, h]

theorem sorted_items {vs ws : List Json} (h : sorted (.arr vs) = sorted (.arr ws)) :
    vs.map sorted = ws.map sorted := by
  rw [← sortedItems_eq_map, ← sortedItems_eq_map]
  exact Json.arr.inj h

theorem allFloatsItems_of_forall {items : List Json} (h : ∀ v ∈ items, AllFloats P v) :
    AllFloatsItems P items := by
  induction items with
  | nil => trivial
  | cons v vs ih => exact ⟨h v mem_cons_self, ih fun w hw => h w (mem_cons_of_mem _ hw)⟩

end Omniscience.JsonText
