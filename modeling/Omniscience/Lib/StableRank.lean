import Mathlib.Data.List.Infix
import Mathlib.Data.List.Nodup
import Mathlib.Order.Lattice

/-!
# Stable rankings

A list is ranked by a score, the highest first; elements with one score keep their order.

* `pairwise_ranked` : what stands earlier has a higher score, or the same one and stood earlier.
* `le_of_not_mem_take` : a cut keeps the highest scores.
-/

namespace Omniscience.StableRank

open List

variable {α S : Type*} [LinearOrder S]

/-- `sorted(l, key=score, reverse=True)`. -/
def ranked (score : α → S) (l : List α) : List α := l.mergeSort fun a b => score b ≤ score a

variable {score : α → S} {l : List α} {a b : α}

theorem ranked_perm (score : α → S) (l : List α) : (ranked score l).Perm l :=
  mergeSort_perm _ _

theorem mem_ranked : a ∈ ranked score l ↔ a ∈ l := (ranked_perm score l).mem_iff

theorem length_ranked : (ranked score l).length = l.length := length_mergeSort l

theorem pairwise_le_ranked (score : α → S) (l : List α) :
    (ranked score l).Pairwise fun a b => score b ≤ score a := by
  refine (pairwise_mergeSort ?_ ?_ l).imp fun h => of_decide_eq_true h
  · intro a b c hab hbc
    exact decide_eq_true ((of_decide_eq_true hbc).trans (of_decide_eq_true hab))
  · intro a b
    simpa using le_total (score b) (score a)

theorem sublist_ranked (h : [a, b].Sublist l) (hscore : score a = score b) :
    [a, b].Sublist (ranked score l) := by
  refine pair_sublist_mergeSort ?_ ?_ (decide_eq_true hscore.ge) h
  · intro a b c hab hbc
    exact decide_eq_true ((of_decide_eq_true hbc).trans (of_decide_eq_true hab))
  · intro a b
    simpa using le_total (score b) (score a)

theorem pair_sublist_or (ha : a ∈ l) (hb : b ∈ l) (hne : a ≠ b) :
    [a, b].Sublist l ∨ [b, a].Sublist l := by
  induction l with
  | nil => exact absurd ha not_mem_nil
  | cons c l ih =>
    rcases mem_cons.1 ha with rfl | hal
    · have hbl := (mem_cons.1 hb).resolve_left (Ne.symm hne)
      exact .inl ((singleton_sublist.2 hbl).cons_cons a)
    · rcases mem_cons.1 hb with rfl | hbl
      · exact .inr ((singleton_sublist.2 hal).cons_cons b)
      · exact (ih hal hbl).imp (·.cons c) (·.cons c)

theorem not_pair_sublist (hnodup : l.Nodup) (h : [a, b].Sublist l) : ¬[b, a].Sublist l := by
  induction l with
  | nil => exact fun h' => by cases h'
  | cons c l ih =>
    obtain ⟨hc, hl⟩ := nodup_cons.1 hnodup
    intro h'
    cases h with
    | cons _ h =>
      cases h' with
      | cons _ h' => exact ih hl h h'
      | cons_cons _ h' => exact hc (h.subset (mem_cons_of_mem _ mem_cons_self))
    | cons_cons _ h =>
      cases h' with
      | cons _ h' => exact hc (h'.subset (mem_cons_of_mem _ mem_cons_self))
      | cons_cons _ h' => exact hc (h.subset mem_cons_self)

theorem pairwise_ranked (hnodup : l.Nodup) : (ranked score l).Pairwise fun a b =>
    score b < score a ∨ score a = score b ∧ [a, b].Sublist l := by
  have hranked : (ranked score l).Nodup := (ranked_perm score l).nodup_iff.2 hnodup
  rw [pairwise_iff_forall_sublist]
  intro a b h
  have hle : score b ≤ score a := pairwise_iff_forall_sublist.1 (pairwise_le_ranked score l) h
  rcases hle.lt_or_eq with hlt | heq
  · exact .inl hlt
  · have ha : a ∈ l := mem_ranked.1 (h.subset mem_cons_self)
    have hb : b ∈ l := mem_ranked.1 (h.subset (mem_cons_of_mem _ mem_cons_self))
    have hne : a ≠ b := by
      rintro rfl
      exact (nodup_cons.1 (hranked.sublist h)).1 mem_cons_self
    refine .inr ⟨heq.symm, (pair_sublist_or ha hb hne).resolve_right fun h' => ?_⟩
    exact not_pair_sublist hranked h (sublist_ranked h' heq)

theorem le_of_not_mem_take {n : ℕ} (ha : a ∈ (ranked score l).take n) (hb : b ∈ l)
    (hnot : b ∉ (ranked score l).take n) : score b ≤ score a := by
  have hsplit := pairwise_le_ranked score l
  rw [← take_append_drop n (ranked score l), pairwise_append] at hsplit
  have hmem : b ∈ (ranked score l).drop n := by
    have hb : b ∈ ranked score l := mem_ranked.2 hb
    rw [← take_append_drop n (ranked score l)] at hb
    exact (mem_append.1 hb).resolve_left hnot
  exact hsplit.2.2 a ha b hmem

end Omniscience.StableRank
