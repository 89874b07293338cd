import Mathlib.Data.List.Basic

/-!
# Sliding windows

A window of a fixed size moves over a list in steps until it reaches the end of the list.  The
windows cover the list, and neighbours share what the size exceeds the step by (`isCover_windows`).
-/

namespace Omniscience.SlidingWindows

open List

variable {α : Type*}

/-- The windows of a list, of which there are `n` at most. -/
def windows (size step : ℕ) : ℕ → List α → List (List α)
  | 0, _ => []
  | n + 1, l =>
    if l = [] then []
    else if l.length ≤ size then [l]
    else l.take size :: windows size step n (l.drop step)

attribute [grind =] windows

/-- The windows put together: what is shared is taken from the earlier window. -/
def stitch (shared : ℕ) : List (List α) → List α
  | [] => []
  | w :: rest => w ++ rest.flatMap (List.drop shared)

/-- The end of the one window is the beginning of the other. -/
def Shares (shared : ℕ) (w w' : List α) : Prop :=
  shared ≤ w.length ∧ shared ≤ w'.length ∧ w.drop (w.length - shared) = w'.take shared

/-- The windows cover the list in order, and neighbours share so many elements. -/
structure IsCover (shared : ℕ) (ws : List (List α)) (l : List α) : Prop where
  covers : stitch shared ws = l
  shares : ws.IsChain (Shares shared)

variable {size step shared n : ℕ} {l : List α} {ws : List (List α)}

theorem isCover_nil : IsCover shared ([] : List (List α)) [] := ⟨rfl, .nil⟩

theorem isCover_singleton (l : List α) : IsCover shared [l] l :=
  ⟨append_nil l, .singleton l⟩

theorem IsCover.cons (hsize : step + shared = size) (hlong : size < l.length)
    (h : IsCover shared ws (l.drop step)) {w : List α} (hhead : ws.head? = some w)
    (hw : shared ≤ w.length) (hstart : w <+: l.drop step) :
    IsCover shared (l.take size :: ws) l := by
  obtain ⟨rest, rfl⟩ : ∃ rest, ws = w :: rest := by
    cases ws with
    | nil => cases hhead
    | cons v rest => exact ⟨rest, by rw [Option.some.inj hhead]⟩
  have hlength : (l.take size).length = size := by
    rw [length_take]
    omega
  have htake : w.take shared = (l.drop step).take shared := by
    obtain ⟨tail, htail⟩ := hstart
    rw [← htail, take_append_of_le_length hw]
  constructor
  · have hcovers : w ++ rest.flatMap (List.drop shared) = l.drop step := h.covers
    have hdrop : w.drop shared ++ rest.flatMap (List.drop shared) = l.drop size := by
      rw [← hsize, ← drop_drop, ← hcovers, drop_append_of_le_length hw]
    show l.take size ++ (w :: rest).flatMap (List.drop shared) = l
    rw [flatMap_cons, hdrop, take_append_drop]
  · refine List.IsChain.cons_cons ⟨by omega, hw, ?_⟩ h.shares
    rw [hlength, htake, drop_take, show size - shared = step by omega,
      show size - step = shared by omega]

theorem head?_windows (hl : l ≠ []) : (windows size step (n + 1) l).head? = some (l.take size) := by
  rw [windows, if_neg hl]
  split_ifs with h
  · rw [take_of_length_le h]
    rfl
  · rfl

theorem isCover_windows (hstep : 0 < step) (hsize : step + shared = size)
    (hn : l.length ≤ n) : IsCover shared (windows size step n l) l := by
  induction n generalizing l with
  | zero =>
    rw [length_eq_zero_iff.1 (Nat.le_zero.1 hn)]
    exact isCover_nil
  | succ n ih =>
    rw [windows]
    split_ifs with hnil hshort
    · rw [hnil]
      exact isCover_nil
    · exact isCover_singleton l
    · have hlong : size < l.length := Nat.lt_of_not_le hshort
      have hlength : (l.drop step).length = l.length - step := length_drop
      obtain ⟨m, rfl⟩ : ∃ m, n = m + 1 := ⟨n - 1, by omega⟩
      have hne : l.drop step ≠ [] := fun hnil => by simp [hnil] at hlength; omega
      refine (ih (by omega)).cons hsize hlong (head?_windows hne) ?_ ( take_prefix _ _)
      rw [length_take]
      omega

theorem length_le_of_mem_windows {w : List α} (h : w ∈ windows size step n l) :
    w.length ≤ size := by
  induction n generalizing l with
  | zero => exact absurd h not_mem_nil
  | succ n ih =>
    rw [windows] at h
    split_ifs at h with hnil hshort
    · exact absurd h not_mem_nil
    · rw [mem_singleton.1 h]
      exact hshort
    · rcases mem_cons.1 h with rfl | h
      · exact length_take_le _ _
      · exact ih h

theorem isInfix_of_mem_windows {w : List α} (h : w ∈ windows size step n l) : w <:+: l := by
  induction n generalizing l with
  | zero => exact absurd h not_mem_nil
  | succ n ih =>
    rw [windows] at h
    split_ifs at h with hnil hshort
    · exact absurd h not_mem_nil
    · exact mem_singleton.1 h ▸ infix_rfl
    · rcases mem_cons.1 h with rfl | h
      · exact ( take_prefix _ _).isInfix
      · exact (ih h).trans (drop_suffix _ _).isInfix

end Omniscience.SlidingWindows
