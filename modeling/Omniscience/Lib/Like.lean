import Mathlib.Data.Bool.AllAny
import Mathlib.Data.List.Forall2
import Mathlib.Data.List.Infix

/-!
# The `LIKE` operator of SQL

A pattern is matched against a whole text: `%` stands for any text, `_` for any one character, a
backslash takes the next character as it is, and every other character stands for itself.

`like_append_iff` splits a match behind a part of the pattern that has a fixed length,
`like_prefix_iff` is the search for a prefix.
-/

namespace Omniscience.Sql

open List

/-- The match of a text with a pattern whose first character may be escaped; a pattern that ends in
a backslash is an error. -/
def likeFrom : List Char → Bool → List Char → Bool
  | [], escaped, text => !escaped && text.isEmpty
  | c :: pattern, escaped, text =>
    if escaped = false ∧ c = '\\' then likeFrom pattern true text
    else if escaped = false ∧ c = '%' then text.tails.any (likeFrom pattern false)
    else
      match text with
      | [] => false
      | d :: rest => (escaped = false ∧ c = '_' ∨ c = d) && likeFrom pattern false rest

/-- `text LIKE pattern`. -/
def like (pattern text : List Char) : Bool := likeFrom pattern false text

/-- The character stands for exactly one character: it is neither a percent sign nor a backslash. -/
def IsFixed (c : Char) : Prop := c ≠ '%' ∧ c ≠ '\\'

/-- The character stands for itself. -/
def IsPlain (c : Char) : Prop := IsFixed c ∧ c ≠ '_'

instance (c : Char) : Decidable (IsFixed c) := inferInstanceAs (Decidable (_ ∧ _))

instance (c : Char) : Decidable (IsPlain c) := inferInstanceAs (Decidable (_ ∧ _))

theorem isFixed_of_all {cs : List Char} (h : (cs.all fun c => decide (IsFixed c)) = true) :
    ∀ c ∈ cs, IsFixed c :=
  all_iff_forall_prop.1 h

theorem isPlain_of_all {cs : List Char} (h : (cs.all fun c => decide (IsPlain c)) = true) :
    ∀ c ∈ cs, IsPlain c :=
  all_iff_forall_prop.1 h

/-- What a fixed character of a pattern stands for. -/
def Stands (c d : Char) : Prop := c = '_' ∨ c = d

instance (c d : Char) : Decidable (Stands c d) := inferInstanceAs (Decidable (_ ∨ _))

theorem like_cons_iff {c : Char} (hc : IsFixed c) (pattern text : List Char) :
    like (c :: pattern) text = true ↔
      ∃ d rest, text = d :: rest ∧ Stands c d ∧ like pattern rest = true := by
  obtain ⟨hpercent, hback⟩ := hc
  cases text with
  | nil => simp [like, likeFrom, hback, hpercent]
  | cons d rest => simp [like, likeFrom, hback, hpercent, Stands]

theorem like_append_iff {p : List Char} (hp : ∀ c ∈ p, IsFixed c) (q text : List Char) :
    like (p ++ q) text = true ↔
      ∃ t u, text = t ++ u ∧ List.Forall₂ Stands p t ∧ like q u = true := by
  induction p generalizing text with
  | nil => simp
  | cons c p ih =>
    rw [cons_append, like_cons_iff (hp c mem_cons_self)]
    constructor
    · rintro ⟨d, rest, rfl, hcd, hlike⟩
      obtain ⟨t, u, rfl, hpt, hq⟩ := (ih (fun c' h => hp c' (mem_cons_of_mem _ h)) _).1 hlike
      exact ⟨d :: t, u, rfl, .cons hcd hpt, hq⟩
    · rintro ⟨t, u, rfl, hpt, hq⟩
      cases hpt with
      | cons hcd hpt =>
        exact ⟨_, _, rfl, hcd, (ih (fun c' h => hp c' (mem_cons_of_mem _ h)) _).2
          ⟨_, u, rfl, hpt, hq⟩⟩

@[simp] theorem like_percent (text : List Char) : like ['%'] text = true := by
  have hnil : ([] : List Char) ∈ text.tails := (mem_tails _ _).2 nil_suffix
  exact any_eq_true.2 ⟨[], hnil, rfl⟩

theorem like_prefix_iff {p : List Char} (hp : ∀ c ∈ p, IsFixed c) (text : List Char) :
    like (p ++ ['%']) text = true ↔ ∃ t u, text = t ++ u ∧ List.Forall₂ Stands p t := by
  simp [like_append_iff hp]

theorem forall₂_stands_self (p : List Char) : List.Forall₂ Stands p p :=
  forall₂_same.2 fun _ _ => .inr rfl

theorem eq_of_forall₂_stands {p t : List Char} (hp : ∀ c ∈ p, c ≠ '_')
    (h : List.Forall₂ Stands p t) : p = t := by
  induction h with
  | nil => rfl
  | cons hcd _ ih =>
    rw [hcd.resolve_left (hp _ mem_cons_self), ih fun c hc => hp c (mem_cons_of_mem _ hc)]

end Omniscience.Sql
