import Mathlib.Data.List.Forall2

/-!
# The words of a list

A list is cut at its separators into words; empty pieces are left out.

* `words_append_sep` : a separator divides the words of a list.
* `words_intercalate` : joined by a separator, words are read back.
-/

namespace Omniscience.Words

open List

variable {α : Type*} (sep : α → Bool)

/-- The words of a list, behind a word that has begun. -/
def wordsFrom : List α → List α → List (List α)
  | [], [] => []
  | word, [] => [word]
  | word, c :: l =>
    if sep c then
      match word with
      | [] => wordsFrom [] l
      | word => word :: wordsFrom [] l
    else wordsFrom (word ++ [c]) l

/-- The words of a list. -/
def words (l : List α) : List (List α) := wordsFrom sep [] l

/-- A word is not empty and has no separators. -/
def IsWord (word : List α) : Prop := word ≠ [] ∧ ∀ c ∈ word, sep c = false

variable {sep} {word l r : List α} {c : α}

theorem wordsFrom_of_sep (h : sep c = true) :
    wordsFrom sep word (c :: l) = wordsFrom sep word [] ++ words sep l := by
  cases word with
  | nil => simp [wordsFrom, words, h]
  | cons d word => simp [wordsFrom, words, h]

theorem wordsFrom_of_not_sep (h : sep c = false) :
    wordsFrom sep word (c :: l) = wordsFrom sep (word ++ [c]) l := by
  cases word with
  | nil => simp [wordsFrom, h]
  | cons d word => simp [wordsFrom, h]

@[simp] theorem words_nil : words sep ([] : List α) = [] := rfl

theorem words_of_sep (h : sep c = true) : words sep (c :: l) = words sep l := wordsFrom_of_sep h

theorem wordsFrom_append_sep (h : sep c = true) :
    wordsFrom sep word (l ++ c :: r) = wordsFrom sep word l ++ words sep r := by
  induction l generalizing word with
  | nil => exact wordsFrom_of_sep h
  | cons d l ih =>
    rw [cons_append]
    by_cases hd : sep d = true
    · rw [wordsFrom_of_sep hd, wordsFrom_of_sep hd, words, ih, append_assoc]
      rfl
    · rw [Bool.not_eq_true] at hd
      rw [wordsFrom_of_not_sep hd, wordsFrom_of_not_sep hd, ih]

theorem words_append_sep (h : sep c = true) :
    words sep (l ++ c :: r) = words sep l ++ words sep r := wordsFrom_append_sep h

theorem words_append_of_ends (h : sep c = true) :
    words sep (l ++ [c] ++ r) = words sep (l ++ [c]) ++ words sep r := by
  rw [words_append_sep h, words_nil, append_nil, append_assoc, singleton_append, words_append_sep h]

theorem words_append (h : ∀ c ∈ l.getLast?, sep c = true) :
    words sep (l ++ r) = words sep l ++ words sep r := by
  obtain rfl | ⟨l, c, rfl⟩ := eq_nil_or_concat' l
  · rfl
  · exact words_append_of_ends (h c (by simp))

theorem words_of_seps (h : ∀ c ∈ l, sep c = true) : words sep l = [] := by
  induction l with
  | nil => rfl
  | cons c l ih =>
    rw [words_of_sep (h c mem_cons_self), ih fun d hd => h d (mem_cons_of_mem c hd)]

theorem words_append_seps (h : ∀ c ∈ r, sep c = true) : words sep (l ++ r) = words sep l := by
  cases r with
  | nil => rw [append_nil]
  | cons c r =>
    rw [words_append_sep (h c mem_cons_self),
      words_of_seps fun d hd => h d (mem_cons_of_mem c hd), append_nil]

theorem words_dropWhile {test : α → Bool} (h : ∀ c, test c = true → sep c = true) (l : List α) :
    words sep (l.dropWhile test) = words sep l := by
  induction l with
  | nil => rfl
  | cons c l ih =>
    cases hc : test c with
    | true => rw [dropWhile_cons_of_pos hc, ih, words_of_sep (h c hc)]
    | false => rw [dropWhile_cons_of_neg (by simp [hc])]

theorem wordsFrom_of_forall (h : ∀ d ∈ l, sep d = false) :
    wordsFrom sep word l = wordsFrom sep (word ++ l) [] := by
  induction l generalizing word with
  | nil => rw [append_nil]
  | cons d l ih =>
    rw [wordsFrom_of_not_sep (h d mem_cons_self),
      ih fun e he => h e (mem_cons_of_mem _ he), append_assoc, singleton_append]

theorem words_of_isWord (h : IsWord sep word) : words sep word = [word] := by
  rw [words, wordsFrom_of_forall h.2, nil_append]
  cases word with
  | nil => exact absurd rfl h.1
  | cons c word => rfl

theorem isWord_of_mem_wordsFrom (hword : ∀ d ∈ word, sep d = false) {w : List α}
    (h : w ∈ wordsFrom sep word l) : IsWord sep w := by
  induction l generalizing word with
  | nil =>
    cases word with
    | nil => exact absurd h not_mem_nil
    | cons d word =>
      rw [mem_singleton.1 h]
      exact ⟨cons_ne_nil _ _, hword⟩
  | cons d l ih =>
    by_cases hd : sep d = true
    · rw [wordsFrom_of_sep hd] at h
      rcases mem_append.1 h with h | h
      · cases word with
        | nil => exact absurd h not_mem_nil
        | cons e word =>
          rw [mem_singleton.1 h]
          exact ⟨cons_ne_nil _ _, hword⟩
      · exact ih (fun _ he => absurd he not_mem_nil) h
    · rw [Bool.not_eq_true] at hd
      rw [wordsFrom_of_not_sep hd] at h
      refine ih (fun e he => ?_) h
      rcases mem_append.1 he with he | he
      · exact hword e he
      · rw [mem_singleton.1 he]
        exact hd

theorem isWord_of_mem_words {w : List α} (h : w ∈ words sep l) : IsWord sep w :=
  isWord_of_mem_wordsFrom (fun _ he => absurd he not_mem_nil) h

theorem forall₂_wordsFrom {R : α → α → Prop} (hR : ∀ c d, R c d → sep c = sep d)
    {word' l' : List α} (hword : List.Forall₂ R word word') (hl : List.Forall₂ R l l') :
    List.Forall₂ (List.Forall₂ R) (wordsFrom sep word l) (wordsFrom sep word' l') := by
  induction hl generalizing word word' with
  | nil =>
    cases hword with
    | nil => exact .nil
    | cons hc hword => exact .cons (.cons hc hword) .nil
  | @cons c c' l l' hc hl ih =>
    by_cases hsep : sep c = true
    · rw [wordsFrom_of_sep hsep, wordsFrom_of_sep ((hR _ _ hc).symm.trans hsep)]
      refine rel_append ?_ (ih .nil)
      cases hword with
      | nil => exact .nil
      | cons hd hword => exact .cons (.cons hd hword) .nil
    · rw [Bool.not_eq_true] at hsep
      rw [wordsFrom_of_not_sep hsep, wordsFrom_of_not_sep ((hR _ _ hc).symm.trans hsep)]
      exact ih (rel_append hword (.cons hc .nil))

theorem forall₂_words {R : α → α → Prop} (hR : ∀ c d, R c d → sep c = sep d) {l' : List α}
    (hl : List.Forall₂ R l l') :
    List.Forall₂ (List.Forall₂ R) (words sep l) (words sep l') := forall₂_wordsFrom hR .nil hl

theorem words_intercalate (hsep : sep c = true) {ws : List (List α)}
    (h : ∀ w ∈ ws, IsWord sep w) : words sep (List.intercalate [c] ws) = ws := by
  induction ws with
  | nil => rfl
  | cons w ws ih =>
    have hw : words sep w = [w] := words_of_isWord (h w mem_cons_self)
    have hrest := ih fun v hv => h v (mem_cons_of_mem _ hv)
    cases ws with
    | nil => simpa [List.intercalate] using hw
    | cons v ws =>
      rw [intercalate_cons_cons, append_assoc, singleton_append, words_append_sep hsep, hw, hrest]
      rfl

end Omniscience.Words
