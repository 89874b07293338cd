import Mathlib.Data.List.Basic

/-!
# Loops that may raise

A loop over a list whose body either gives the next state or raises is `List.foldlM` in
`Except`.  When it returns, every iteration did, so that an invariant of the iterations holds at
the end (`foldlM_induction`).
-/

namespace Omniscience.Fold

variable {ε α β : Type*} {f : β → α → Except ε β} {l : List α} {b b' : β}

theorem foldlM_cons_ok {a : α} :
    (a :: l).foldlM f b = .ok b' ↔ ∃ c, f b a = .ok c ∧ l.foldlM f c = .ok b' := by
  rw [List.foldlM_cons]
  cases f b a with
  | error e =>
    constructor
    · intro h
      cases h
    · rintro ⟨c, ⟨⟩, -⟩
  | ok c =>
    refine ⟨fun h => ⟨c, rfl, h⟩, ?_⟩
    rintro ⟨c', hc, h⟩
    cases hc
    exact h

/-- **The rule for loops**: what holds of no iterations and is kept by each one holds of all. -/
theorem foldlM_induction (h : l.foldlM f b = .ok b') (I : List α → β → Prop) (h0 : I [] b)
    (step : ∀ pre a post c c', l = pre ++ a :: post → I pre c → f c a = .ok c' →
      I (pre ++ [a]) c') : I l b' := by
  -- the iterations that are done are part of the induction
  suffices hgen : ∀ rest pre c, l = pre ++ rest → I pre c → rest.foldlM f c = .ok b' → I l b' from
    hgen l [] b rfl h0 h
  intro rest
  induction rest with
  | nil =>
    intro pre c hl hc hok
    cases hok
    rw [List.append_nil] at hl
    rwa [hl]
  | cons a rest ih =>
    intro pre c hl hc hok
    obtain ⟨c', hstep, hrest⟩ := foldlM_cons_ok.1 hok
    exact ih (pre ++ [a]) c' (by rw [hl, List.append_assoc, List.singleton_append])
      (step pre a rest c c' hl hc hstep) hrest

theorem foldlM_keeps (h : l.foldlM f b = .ok b') (P : β → Prop) (h0 : P b)
    (step : ∀ a ∈ l, ∀ c c', P c → f c a = .ok c' → P c') : P b' := by
  refine foldlM_induction h (fun _ c => P c) h0 fun pre a post c c' hl hc hstep => ?_
  refine step a ?_ c c' hc hstep
  rw [hl]
  exact List.mem_append_right _ List.mem_cons_self

theorem foldlM_frame {γ : Type*} (h : l.foldlM f b = .ok b') (view : β → γ)
    (step : ∀ a ∈ l, ∀ c c', f c a = .ok c' → view c' = view c) : view b' = view b :=
  foldlM_keeps h (fun c => view c = view b) rfl fun a ha c c' hc hstep =>
    (step a ha c c' hstep).trans hc

end Omniscience.Fold
