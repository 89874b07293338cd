import Mathlib.Data.List.DropRight
import Mathlib.Data.BitVec

/-!
# UUIDs and their text form

The source passes identifiers around as text and turns them into `uuid.UUID` values where it
needs them; both directions are part of the standard library.

* `Uuid.parse` is the constructor `uuid.UUID(text)`: a URN prefix, curly braces and hyphens are
  dropped, and what remains has to be 32 hexadecimal digits (`ValueError` otherwise).
* `Uuid.str` is `str(u)`: the 32 lower-case digits with the four hyphens.

`Uuid.parse_str` says that the text of a UUID parses back to it.
-/

namespace Omniscience

open List

/-- A UUID is a 128-bit number. -/
abbrev Uuid := BitVec 128

/-- Membership in a list of UUIDs is decided by comparing them. -/
instance (u : Uuid) (l : List Uuid) : Decidable (u ∈ l) := List.instDecidableMemOfLawfulBEq u l

namespace Uuid

/-- The value of a hexadecimal digit. -/
def hexVal (c : Char) : Option ℕ :=
  if '0' ≤ c ∧ c ≤ '9' then some (c.toNat - '0'.toNat)
  else if 'a' ≤ c ∧ c ≤ 'f' then some (c.toNat - 'a'.toNat + 10)
  else if 'A' ≤ c ∧ c ≤ 'F' then some (c.toNat - 'A'.toNat + 10)
  else none

/-- `int(text, 16)` on text that is nothing but hexadecimal digits. -/
def hexValue (l : List Char) : Option ℕ :=
  l.foldlM (fun n c => (hexVal c).map (16 * n + ·)) 0

/-- `text.replace(pat, "")`: remove the occurrences of `pat`, from the left and without
overlap.  `skip` characters of an occurrence are still to be dropped. -/
def eraseText (pat : List Char) : ℕ → List Char → List Char
  | _, [] => []
  | skip + 1, _ :: cs => eraseText pat skip cs
  | 0, c :: cs =>
    if pat.isPrefixOf (c :: cs) then eraseText pat (pat.length - 1) cs
    else c :: eraseText pat 0 cs

/-- `text.strip("{}")`. -/
def stripBraces (l : List Char) : List Char :=
  let brace (c : Char) : Bool := c == '{' || c == '}'
  (l.dropWhile brace).rdropWhile brace

/-- `uuid.UUID(text)`; `none` is the `ValueError`. -/
def parse (text : String) : Option Uuid :=
  let hex := eraseText "uuid:".toList 0 (eraseText "urn:".toList 0 text.toList)
  let hex := (stripBraces hex).filter (· ≠ '-')
  if hex.length = 32 then (hexValue hex).map (BitVec.ofNat 128) else none

/-- The last `k` hexadecimal digits of a number. -/
def hexDigits : ℕ → ℕ → List Char
  | 0, _ => []
  | k + 1, n => hexDigits k (n / 16) ++ [Nat.digitChar (n % 16)]

attribute [grind =] hexDigits

/-- `str(u)`. -/
def str (u : Uuid) : String :=
  let hex := hexDigits 32 u.toNat
  String.ofList (hex.take 8 ++ '-' :: ((hex.drop 8).take 4 ++ '-' :: ((hex.drop 12).take 4 ++
    '-' :: ((hex.drop 16).take 4 ++ '-' :: hex.drop 20))))

theorem hexVal_digitChar : ∀ d < 16, hexVal (Nat.digitChar d) = some d := by decide

theorem digitChar_ne :
    ∀ d < 16, Nat.digitChar d ≠ 'u' ∧ Nat.digitChar d ≠ '-' ∧ Nat.digitChar d ≠ '{' ∧
      Nat.digitChar d ≠ '}' := by
  decide

@[simp] theorem length_hexDigits (k n : ℕ) : (hexDigits k n).length = k := by
  induction k generalizing n with
  | zero => rfl
  | succ k ih => simp [hexDigits, ih]

theorem mem_hexDigits {k n : ℕ} {c : Char} (h : c ∈ hexDigits k n) :
    ∃ d < 16, c = Nat.digitChar d := by
  induction k generalizing n with
  | zero => simp [hexDigits] at h
  | succ k ih =>
    rw [hexDigits, mem_append, mem_singleton] at h
    rcases h with h | h
    · exact ih h
    · exact ⟨n % 16, Nat.mod_lt _ (by decide), h⟩

theorem hexValue_hexDigits (k n : ℕ) : hexValue (hexDigits k n) = some (n % 16 ^ k) := by
  induction k generalizing n with
  | zero => simp [hexDigits, hexValue, Nat.mod_one]
  | succ k ih =>
    have hd := hexVal_digitChar (n % 16) (Nat.mod_lt _ (by decide))
    unfold hexValue at ih ⊢
    rw [hexDigits, foldlM_append, ih]
    simp only [Option.bind_eq_bind, Option.bind_some, foldlM_cons, hd, Option.map_some,
      foldlM_nil, pow_succ]
    have hsplit : n % (16 ^ k * 16) = 16 * (n / 16 % 16 ^ k) + n % 16 := by
      rw [mul_comm, Nat.mod_mul, add_comm]
    exact congrArg some hsplit.symm

theorem eraseText_of_not_mem {p : Char} {pat l : List Char} (h : p ∉ l) :
    eraseText (p :: pat) 0 l = l := by
  induction l with
  | nil => rfl
  | cons c cs ih =>
    rw [mem_cons, not_or] at h
    have hc : (p == c) = false := beq_eq_false_iff_ne.2 h.1
    simp [eraseText, List.isPrefixOf, hc, ih h.2]

theorem stripBraces_of_not_mem {l : List Char} (h₁ : '{' ∉ l) (h₂ : '}' ∉ l) :
    stripBraces l = l := by
  have hb : ∀ c ∈ l, ¬ (c == '{' || c == '}') = true := by
    intro c hc
    simp only [Bool.or_eq_true, beq_iff_eq, not_or]
    exact ⟨fun e => h₁ (e ▸ hc), fun e => h₂ (e ▸ hc)⟩
  have hdrop : l.dropWhile (fun c => c == '{' || c == '}') = l := by
    cases l with
    | nil => rfl
    | cons c cs => exact dropWhile_cons_of_neg (hb c mem_cons_self)
  rw [stripBraces, hdrop, rdropWhile_eq_self_iff]
  exact fun hl => hb _ (getLast_mem hl)

theorem mem_toList_str {u : Uuid} {c : Char} (h : c ∈ (str u).toList) :
    c = '-' ∨ ∃ d < 16, c = Nat.digitChar d := by
  simp only [str, String.toList_ofList, mem_append, mem_cons] at h
  have hd : ∀ {l : List Char}, c ∈ l → l.Sublist (hexDigits 32 u.toNat) →
      ∃ d < 16, c = Nat.digitChar d := fun hc hl => mem_hexDigits (hl.subset hc)
  rcases h with h | h | h | h | h | h | h | h | h
  · exact .inr (hd h (take_sublist _ _))
  · exact .inl h
  · exact .inr (hd h ((take_sublist _ _).trans (drop_sublist _ _)))
  · exact .inl h
  · exact .inr (hd h ((take_sublist _ _).trans (drop_sublist _ _)))
  · exact .inl h
  · exact .inr (hd h ((take_sublist _ _).trans (drop_sublist _ _)))
  · exact .inl h
  · exact .inr (hd h (drop_sublist _ _))

theorem not_mem_str {u : Uuid} {c : Char} (hc : c = 'u' ∨ c = '{' ∨ c = '}') :
    c ∉ (str u).toList := by
  intro h
  rcases mem_toList_str h with rfl | ⟨d, hd, rfl⟩
  · revert hc; decide
  · obtain ⟨hu, -, hl, hr⟩ := digitChar_ne d hd
    rcases hc with h | h | h
    · exact hu h
    · exact hl h
    · exact hr h

theorem filter_str (u : Uuid) : (str u).toList.filter (· ≠ '-') = hexDigits 32 u.toNat := by
  have hself : ∀ l : List Char, l.Sublist (hexDigits 32 u.toNat) → l.filter (· ≠ '-') = l := by
    intro l hl
    rw [filter_eq_self]
    intro c hc
    obtain ⟨d, hd, rfl⟩ := mem_hexDigits (hl.subset hc)
    simp [(digitChar_ne d hd).2.1]
  have hsub : ∀ i j, ((hexDigits 32 u.toNat).drop i |>.take j).Sublist (hexDigits 32 u.toNat) :=
    fun _ _ => (take_sublist _ _).trans (drop_sublist _ _)
  have hcut : ∀ i j, (hexDigits 32 u.toNat).drop i =
      ((hexDigits 32 u.toNat).drop i).take j ++ (hexDigits 32 u.toNat).drop (i + j) := by
    intro i j
    rw [← drop_drop, take_append_drop]
  have hdash : ∀ l : List Char, ('-' :: l).filter (· ≠ '-') = l.filter (· ≠ '-') := by simp
  simp only [str, String.toList_ofList, filter_append, hdash]
  rw [hself _ (take_sublist _ _), hself _ (hsub 8 4), hself _ (hsub 12 4), hself _ (hsub 16 4),
    hself _ (drop_sublist _ _), ← hcut 16 4, ← hcut 12 4, ← hcut 8 4, take_append_drop]

/-- **The text of a UUID parses back to it.** -/
theorem parse_str (u : Uuid) : parse (str u) = some u := by
  have h₁ : eraseText "urn:".toList 0 (str u).toList = (str u).toList :=
    eraseText_of_not_mem (not_mem_str (.inl rfl))
  have h₂ : eraseText "uuid:".toList 0 (str u).toList = (str u).toList :=
    eraseText_of_not_mem (not_mem_str (.inl rfl))
  have h₃ : stripBraces (str u).toList = (str u).toList :=
    stripBraces_of_not_mem (not_mem_str (.inr (.inl rfl))) (not_mem_str (.inr (.inr rfl)))
  simp only [parse, h₁, h₂, h₃, filter_str, length_hexDigits, ↓reduceIte, hexValue_hexDigits,
    Option.map_some, Option.some.injEq]
  have hlt : u.toNat < 16 ^ 32 := u.isLt
  rw [Nat.mod_eq_of_lt hlt, BitVec.ofNat_toNat, BitVec.setWidth_eq]

-- nothing but `parse_str` is needed of the parser, and unfolding it on an unknown text is slow
attribute [irreducible] parse

theorem str_injective : Function.Injective Uuid.str := by
  intro a b h
  have hparse := congrArg Uuid.parse h
  rw [Uuid.parse_str, Uuid.parse_str] at hparse
  exact Option.some.inj hparse

end Uuid

end Omniscience
