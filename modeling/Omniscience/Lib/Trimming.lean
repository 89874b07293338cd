import Mathlib.Data.List.DropRight

/-!
# Trimming a list at both ends

`Trimming.trim p` removes what satisfies `p` from both ends of a list.  A list is `Solid` if there
is nothing to remove.  Every list is a solid part between two parts that are removed
(`exists_parts`), and trimming finds that part (`trim_parts`).
-/

namespace Omniscience.Trimming

open List

variable {α : Type*} (p : α → Bool)

/-- The list without the elements of `p` at its ends. -/
def trim (l : List α) : List α := (l.dropWhile p).rdropWhile p

/-- Neither end is an element of `p`. -/
def Solid (l : List α) : Prop := (∀ a ∈ l.head?, p a = false) ∧ ∀ a ∈ l.getLast?, p a = false

variable {p}

theorem dropWhile_of_head {l : List α} (h : ∀ a ∈ l.head?, p a = false) : l.dropWhile p = l := by
  cases l with
  | nil => rfl
  | cons a l => rw [dropWhile_cons_of_neg (by simp [h a rfl])]

theorem trim_of_solid {l : List α} (h : Solid p l) : trim p l = l := by
  rw [trim, dropWhile_of_head h.1, List.rdropWhile, dropWhile_of_head, reverse_reverse]
  simpa using h.2

theorem dropWhile_append {lead l : List α} (hlead : ∀ a ∈ lead, p a = true) :
    (lead ++ l).dropWhile p = l.dropWhile p :=
  dropWhile_append_of_pos hlead

theorem rdropWhile_append {l trail : List α} (htrail : ∀ a ∈ trail, p a = true) :
    (l ++ trail).rdropWhile p = l.rdropWhile p := by
  rw [List.rdropWhile, reverse_append, dropWhile_append (by simpa using htrail), ← List.rdropWhile]

/-- **Trimming finds the solid part.** -/
theorem trim_parts {lead core trail : List α} (hlead : ∀ a ∈ lead, p a = true)
    (hcore : Solid p core) (htrail : ∀ a ∈ trail, p a = true) :
    trim p (lead ++ core ++ trail) = core := by
  rw [trim, append_assoc, dropWhile_append hlead]
  cases core with
  | nil =>
    rw [nil_append, dropWhile_eq_nil_iff.2 htrail]
    rfl
  | cons a core =>
    rw [dropWhile_of_head (by simpa using hcore.1), rdropWhile_append htrail]
    simpa [trim, dropWhile_of_head hcore.1] using trim_of_solid hcore

theorem solid_trim (p : α → Bool) (l : List α) : Solid p (trim p l) := by
  constructor
  · intro a ha
    -- the first element is the first one behind the elements of `p`
    obtain ⟨rest, hrest⟩ := rdropWhile_prefix p (l := l.dropWhile p)
    have hhead : (l.dropWhile p).head? = some a := by
      rw [← hrest, List.head?_append, show ((l.dropWhile p).rdropWhile p).head? = some a from ha]
      rfl
    have hnot := List.head?_dropWhile_not p l
    rwa [hhead] at hnot
  · intro a ha
    have hne : (l.dropWhile p).rdropWhile p ≠ [] := by
      intro h
      rw [trim, h] at ha
      cases ha
    obtain rfl : ((l.dropWhile p).rdropWhile p).getLast hne = a :=
      Option.some.inj ((List.getLast?_eq_some_getLast hne).symm.trans ha)
    simpa using rdropWhile_last_not p (l.dropWhile p) hne

theorem exists_parts (p : α → Bool) (l : List α) :
    ∃ lead core trail, l = lead ++ core ++ trail ∧ (∀ a ∈ lead, p a = true) ∧ Solid p core ∧
      ∀ a ∈ trail, p a = true := by
  refine ⟨l.takeWhile p, trim p l, (l.dropWhile p).rtakeWhile p, ?_,
    fun a => mem_takeWhile_imp, solid_trim p l, fun a => mem_rtakeWhile_imp⟩
  rw [trim, append_assoc, rdropWhile_append_rtakeWhile, takeWhile_append_dropWhile]

end Omniscience.Trimming
