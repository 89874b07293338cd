import Mathlib.Data.List.Sort
import Mathlib.Data.Prod.Lex

/-!
# The oldest elements of a pool

A poller takes the `n` oldest elements of a pool, by a key that need not tell all elements apart;
how ties are broken is not specified.  `Oldest key n pool chosen` says that `chosen` may be what
it gets.

Some elements of the pool are *stuck*: taking them does not remove them.  An element that is not
stuck is kept out of a batch only by elements that are not younger.

* `Oldest.exists_not_stuck`: while fewer than `n` stuck elements are not younger than `x`, a batch
  without `x` contains an element that is not stuck.
* `not_mem_oldestButLast`: with `n` or more of them, breaking ties against `x` keeps it out.
-/

namespace Omniscience

open List

variable {α κ : Type} [LinearOrder κ]

/-- `chosen` are `n` elements of `pool` (all of it, if it has fewer) such that no element left out
is older, sorted by age. -/
def Oldest (key : α → κ) (n : ℕ) (pool chosen : List α) : Prop :=
  ∃ l : List α, l.Perm pool ∧ l.Pairwise (key · ≤ key ·) ∧ chosen = l.take n

variable {key : α → κ} {n : ℕ} {pool chosen : List α} {x : α}

theorem Oldest.subset (h : Oldest key n pool chosen) : chosen ⊆ pool := by
  obtain ⟨l, hperm, -, rfl⟩ := h
  exact fun y hy => hperm.subset (mem_of_mem_take hy)

theorem Oldest.full_of_not_mem (h : Oldest key n pool chosen) (hx : x ∈ pool) (hn : x ∉ chosen) :
    chosen.length = n ∧ ∀ y ∈ chosen, key y ≤ key x := by
  obtain ⟨l, hperm, hsorted, rfl⟩ := h
  have hdrop : x ∈ l.drop n := by
    have hl := hperm.mem_iff.2 hx
    rw [← take_append_drop n l] at hl
    exact (mem_append.1 hl).resolve_left hn
  constructor
  · have := length_pos_of_mem hdrop
    rw [length_drop] at this
    rw [length_take]
    omega
  · rw [← take_append_drop n l, pairwise_append] at hsorted
    exact fun y hy => hsorted.2.2 y hy x hdrop

variable {stuck : α → Bool}

/-- The number of stuck elements that are not younger than `x`. -/
def stuckBefore (stuck : α → Bool) (key : α → κ) (pool : List α) (x : α) : ℕ :=
  pool.countP fun y => stuck y ∧ key y ≤ key x

theorem Oldest.exists_not_stuck (h : Oldest key n pool chosen) (hx : x ∈ pool) (hn : x ∉ chosen)
    (hlt : stuckBefore stuck key pool x < n) : ∃ y ∈ chosen, stuck y = false := by
  by_contra hall
  push Not at hall
  obtain ⟨hlen, hle⟩ := h.full_of_not_mem hx hn
  have hcount : chosen.countP (fun y => stuck y ∧ key y ≤ key x) = chosen.length := by
    rw [countP_eq_length]
    intro y hy
    simpa using ⟨Bool.eq_true_of_not_eq_false (hall y hy), hle y hy⟩
  obtain ⟨l, hperm, -, rfl⟩ := h
  have hmono := (take_sublist n l).countP_le (p := fun y => stuck y ∧ key y ≤ key x)
  rw [hperm.countP_eq] at hmono
  rw [stuckBefore] at hlt
  omega

/-- The order in which `x` comes after everything that is as old. -/
def beforeOrLast [DecidableEq α] (key : α → κ) (x y z : α) : Bool :=
  key y < key z ∨ key y = key z ∧ (y = x → z = x)

/-- The `n` oldest elements, with ties broken against `x`. -/
def oldestButLast [DecidableEq α] (key : α → κ) (x : α) (n : ℕ) (pool : List α) : List α :=
  (pool.mergeSort (beforeOrLast key x)).take n

section

variable [DecidableEq α]

theorem pairwise_beforeOrLast (key : α → κ) (x : α) (pool : List α) :
    (pool.mergeSort (beforeOrLast key x)).Pairwise fun y z => beforeOrLast key x y z := by
  refine pairwise_mergeSort ?_ ?_ pool
  · intro a b c
    simp only [beforeOrLast, decide_eq_true_eq]
    grind
  · intro a b
    simp only [beforeOrLast, Bool.or_eq_true, decide_eq_true_eq]
    grind

theorem oldest_oldestButLast (key : α → κ) (x : α) (n : ℕ) (pool : List α) :
    Oldest key n pool (oldestButLast key x n pool) := by
  refine ⟨_, mergeSort_perm _ _, (pairwise_beforeOrLast key x pool).imp fun {y z} h => ?_, rfl⟩
  simp only [beforeOrLast, decide_eq_true_eq] at h
  rcases h with h | h
  · exact h.le
  · exact h.1.le

theorem not_mem_oldestButLast (hnodup : pool.Nodup) (hfree : stuck x = false)
    (hle : n ≤ stuckBefore stuck key pool x) : x ∉ oldestButLast key x n pool := by
  intro hx
  have hperm : (pool.mergeSort (beforeOrLast key x)).Perm pool := mergeSort_perm _ _
  have hsorted := pairwise_beforeOrLast key x pool
  -- split the sorted pool at `x`: the stuck elements that count all stand before it
  obtain ⟨l₁, l₂, hl⟩ := append_of_mem (mem_of_mem_take hx)
  have hafter : l₂.countP (fun y => stuck y ∧ key y ≤ key x) = 0 := by
    rw [countP_eq_zero]
    intro y hy
    rw [hl, pairwise_append, pairwise_cons] at hsorted
    have hxy := hsorted.2.1.1 y hy
    rw [beforeOrLast, decide_eq_true_eq] at hxy
    rw [decide_eq_true_eq]
    rintro ⟨hstuck, hyx⟩
    rcases hxy with hlt | ⟨-, heq⟩
    · exact absurd hyx (not_le.2 hlt)
    · rw [heq rfl, hfree] at hstuck
      cases hstuck
  have hn : n ≤ l₁.length := by
    rw [stuckBefore, ← hperm.countP_eq, hl, countP_append, countP_cons, hafter, hfree] at hle
    refine hle.trans ?_
    simpa using countP_le_length
  rw [oldestButLast, hl, take_append_of_le_length hn] at hx
  have hnd := hperm.nodup_iff.2 hnodup
  rw [hl, nodup_append] at hnd
  exact hnd.2.2 x (mem_of_mem_take hx) x mem_cons_self rfl

end

end Omniscience
