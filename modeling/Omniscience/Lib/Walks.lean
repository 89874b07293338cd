import Mathlib.Data.List.MinMax
import Mathlib.Order.Bounds.Basic
import Mathlib.Order.Nat
import Mathlib.Order.WellFounded

/-!
# Walks, and reports of distances

A traversal reports vertices with depths, a vertex more than once perhaps.  `Reports` says that it
reports walks from the seed only, and of each vertex that it shows the shortest walk within a bound.
Two such reports give every vertex the same least depth, in whichever way they were found
(`Reports.leastDepth_eq`).
-/

namespace Omniscience

/-- The vertices that a walk of `n` steps from `a` leads to. -/
inductive Walk {V : Type*} (r : V → V → Prop) (a : V) : ℕ → V → Prop
  | nil : Walk r a 0 a
  | snoc {n : ℕ} {b c : V} (h : Walk r a n b) (hstep : r b c) : Walk r a (n + 1) c

namespace Walk

variable {V W : Type*} {r : V → V → Prop} {r' : W → W → Prop} {a b : V} {n k : ℕ}

theorem zero_iff : Walk r a 0 b ↔ b = a := by
  constructor
  · intro h
    cases h
    rfl
  · rintro rfl
    exact .nil

theorem succ_iff {c : V} : Walk r a (n + 1) c ↔ ∃ b, Walk r a n b ∧ r b c := by
  constructor
  · intro h
    cases h with
    | snoc h hstep => exact ⟨_, h, hstep⟩
  · rintro ⟨b, h, hstep⟩
    exact .snoc h hstep

theorem map {f : V → W} (hf : ∀ a b, r a b → r' (f a) (f b)) (h : Walk r a n b) :
    Walk r' (f a) n (f b) := by
  induction h with
  | nil => exact .nil
  | snoc _ hstep ih => exact .snoc ih (hf _ _ hstep)

theorem lift {f : V → W} (hf : ∀ a y, r' (f a) y → ∃ b, y = f b ∧ r a b) {y : W}
    (h : Walk r' (f a) n y) : ∃ b, y = f b ∧ Walk r a n b := by
  induction h with
  | nil => exact ⟨a, rfl, .nil⟩
  | snoc _ hstep ih =>
    obtain ⟨b, rfl, hwalk⟩ := ih
    obtain ⟨c, rfl, hbc⟩ := hf b _ hstep
    exact ⟨c, rfl, .snoc hwalk hbc⟩

theorem exists_least (h : Walk r a n b) : ∃ k ≤ n, IsLeast {n | Walk r a n b} k := by
  classical
  have hex : ∃ n, Walk r a n b := ⟨n, h⟩
  exact ⟨Nat.find hex, Nat.find_min' hex h, Nat.find_spec hex, fun m hm => Nat.find_min' hex hm⟩

end Walk

/-! ### Reports -/

section

variable {V : Type*} [DecidableEq V]

/-- The least depth that a report gives a vertex. -/
def leastDepth (report : List (V × ℕ)) (v : V) : Option ℕ :=
  ((report.filter fun x => x.1 = v).map Prod.snd).min?

theorem leastDepth_eq_some_iff {report : List (V × ℕ)} {v : V} {k : ℕ} :
    leastDepth report v = some k ↔ IsLeast {n | (v, n) ∈ report} k := by
  have hmem : ∀ n, n ∈ (report.filter fun x => x.1 = v).map Prod.snd ↔ (v, n) ∈ report := by
    intro n
    simp only [List.mem_map, List.mem_filter, decide_eq_true_eq, Prod.exists]
    constructor
    · rintro ⟨u, m, ⟨hin, rfl⟩, rfl⟩
      exact hin
    · intro hin
      exact ⟨v, n, ⟨hin, rfl⟩, rfl⟩
  rw [leastDepth, List.min?_eq_some_iff, hmem]
  simp only [hmem]
  rfl

end

/-- The report gives walks from the seed to vertices that are shown, and of each such vertex within
the bound the shortest. -/
structure Reports {V : Type*} (r : V → V → Prop) (seed : V) (bound : ℕ) (shown : V → Prop)
    (report : List (V × ℕ)) : Prop where
  sound : ∀ v n, (v, n) ∈ report → v ≠ seed ∧ shown v ∧ n ≤ bound ∧ Walk r seed n v
  complete : ∀ v k, v ≠ seed → shown v → k ≤ bound → IsLeast {n | Walk r seed n v} k →
    (v, k) ∈ report

namespace Reports

variable {V : Type*} {r : V → V → Prop} {seed : V} {bound : ℕ} {shown : V → Prop}
  {report report' : List (V × ℕ)} {v : V} {k : ℕ}

theorem isLeast_iff (h : Reports r seed bound shown report) : IsLeast {n | (v, n) ∈ report} k ↔
      v ≠ seed ∧ shown v ∧ k ≤ bound ∧ IsLeast {n | Walk r seed n v} k := by
  constructor
  · rintro ⟨hmem, hleast⟩
    obtain ⟨hne, hshown, hk, hwalk⟩ := h.sound v k hmem
    obtain ⟨j, hj, hjleast⟩ := hwalk.exists_least
    have hkj : k ≤ j := hleast (h.complete v j hne hshown (hj.trans hk) hjleast)
    obtain rfl : j = k := le_antisymm hj hkj
    exact ⟨hne, hshown, hk, hjleast⟩
  · rintro ⟨hne, hshown, hk, hleast⟩
    exact ⟨h.complete v k hne hshown hk hleast, fun n hn => hleast.2 (h.sound v n hn).2.2.2⟩

theorem leastDepth_eq [DecidableEq V] (h : Reports r seed bound shown report)
    (h' : Reports r seed bound shown report') : leastDepth report = leastDepth report' := by
  funext v
  refine Option.ext fun k => ?_
  rw [leastDepth_eq_some_iff, leastDepth_eq_some_iff, h.isLeast_iff, h'.isLeast_iff]

theorem filter {p : V → Bool} (h : Reports r seed bound shown report) :
    Reports r seed bound (fun v => shown v ∧ p v = true) (report.filter fun x => p x.1) where
  sound v n hmem := by
    obtain ⟨hin, hp⟩ := List.mem_filter.1 hmem
    obtain ⟨hne, hshown, hn, hwalk⟩ := h.sound v n hin
    exact ⟨hne, ⟨hshown, hp⟩, hn, hwalk⟩
  complete v k hne hshown hk hleast :=
    List.mem_filter.2 ⟨h.complete v k hne hshown.1 hk hleast, hshown.2⟩

theorem leastDepth_eq_iff_of_le [DecidableEq V] {r' : V → V → Prop} (hle : ∀ a b, r' a b → r a b)
    (h : Reports r seed bound shown report) (h' : Reports r' seed bound shown report') :
    leastDepth report' = leastDepth report ↔
      ∀ v k, v ≠ seed → shown v → k ≤ bound → IsLeast {n | Walk r seed n v} k →
        Walk r' seed k v := by
  have hmono : ∀ {v n}, Walk r' seed n v → Walk r seed n v := fun hwalk =>
    hwalk.map (f := id) fun a b => hle a b
  constructor
  · intro heq v k hne hshown hk hleast
    have hsome : leastDepth report v = some k :=
      leastDepth_eq_some_iff.2 (h.isLeast_iff.2 ⟨hne, hshown, hk, hleast⟩)
    rw [← heq, leastDepth_eq_some_iff, h'.isLeast_iff] at hsome
    exact hsome.2.2.2.1
  · intro hshort
    funext v
    refine Option.ext fun k => ?_
    rw [leastDepth_eq_some_iff, leastDepth_eq_some_iff, h.isLeast_iff, h'.isLeast_iff]
    refine and_congr_right fun hne => and_congr_right fun hshown => and_congr_right fun hk => ?_
    constructor
    · intro hleast
      obtain ⟨j, hj, hjleast⟩ := (hmono hleast.1).exists_least
      have hkj : k ≤ j := hleast.2 (hshort v j hne hshown (hj.trans hk) hjleast)
      obtain rfl : j = k := le_antisymm hj hkj
      exact hjleast
    · intro hleast
      exact ⟨hshort v k hne hshown hk hleast, fun n hn => hleast.2 (hmono hn)⟩

end Reports

end Omniscience
