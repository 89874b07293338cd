import Mathlib.Order.Lattice
import Mathlib.Data.List.Pairwise

/-!
# Validity windows

A window starts at some time and ends before another one, or not at all.  A history is a list of
windows that are pairwise `Apart`: no time lies in two of them.  It stays one when windows end
earlier (`pairwise_apart_map`) and when a window is opened after all the others have ended
(`pairwise_apart_concat`), and it has at most one open window (`length_filter_isOpen_le_one`).
-/

namespace Omniscience

open List

/-- A half-open interval of times; without a stop it is open. -/
structure Window (T : Type*) where
  start : T
  stop : Option T

namespace Window

variable {T : Type*}

/-- The window has no end. -/
def isOpen (w : Window T) : Bool := w.stop.isNone

variable [LinearOrder T]

/-- The time lies in the window. -/
def Covers (w : Window T) (t : T) : Prop := w.start ≤ t ∧ ∀ e, w.stop = some e → t < e

/-- No time lies in both windows. -/
def Apart (w w' : Window T) : Prop := ∀ t, w.Covers t → ¬ w'.Covers t

theorem apart_of_le {w w' : Window T} {e : T} (hstop : w.stop = some e) (h : e ≤ w'.start) :
    w.Apart w' := by
  intro t hw hw'
  have hlt : t < e := hw.2 e hstop
  exact absurd (hlt.trans_le h) (not_lt.2 hw'.1)

theorem not_apart_of_isOpen {w w' : Window T} (h : w.isOpen = true) (h' : w'.isOpen = true) :
    ¬ w.Apart w' := by
  have hopen : ∀ {w : Window T}, w.isOpen = true → ∀ t, w.start ≤ t → w.Covers t := by
    intro w h t ht
    refine ⟨ht, fun e he => ?_⟩
    rw [isOpen, he] at h
    cases h
  intro hapart
  exact hapart (max w.start w'.start) (hopen h _ (le_max_left _ _)) (hopen h' _ (le_max_right _ _))

variable {α : Type*} {window : α → Window T} {l : List α}

theorem pairwise_apart_map (h : l.Pairwise fun a b => (window a).Apart (window b)) {f : α → α}
    (hf : ∀ a ∈ l, ∀ t, (window (f a)).Covers t → (window a).Covers t) :
    (l.map f).Pairwise fun a b => (window a).Apart (window b) := by
  rw [pairwise_map]
  refine h.imp_of_mem fun ha hb hapart t hcovers hcovers' => ?_
  exact hapart t (hf _ ha t hcovers) (hf _ hb t hcovers')

theorem pairwise_apart_concat (h : l.Pairwise fun a b => (window a).Apart (window b)) {a : α}
    (ha : ∀ b ∈ l, ∃ e, (window b).stop = some e ∧ e ≤ (window a).start) :
    (l ++ [a]).Pairwise fun a b => (window a).Apart (window b) := by
  rw [pairwise_append]
  refine ⟨h, pairwise_singleton _ _, fun b hb c hc => ?_⟩
  obtain rfl := mem_singleton.1 hc
  obtain ⟨e, hstop, hle⟩ := ha b hb
  exact apart_of_le hstop hle

theorem length_filter_isOpen_le_one (h : l.Pairwise fun a b => (window a).Apart (window b)) :
    (l.filter fun a => (window a).isOpen).length ≤ 1 := by
  have hfilter := h.sublist (filter_sublist (p := fun a => (window a).isOpen))
  match hopen : l.filter fun a => (window a).isOpen with
  | [] => exact Nat.zero_le 1
  | [_] => exact le_rfl
  | a :: b :: rest =>
    rw [hopen] at hfilter
    have hisOpen : ∀ c ∈ a :: b :: rest, (window c).isOpen = true := by
      intro c hc
      rw [← hopen] at hc
      exact (mem_filter.1 hc).2
    have hapart := rel_of_pairwise_cons hfilter mem_cons_self
    exact absurd hapart (not_apart_of_isOpen (hisOpen a mem_cons_self)
      (hisOpen b (mem_cons_of_mem _ mem_cons_self)))

end Window

end Omniscience
