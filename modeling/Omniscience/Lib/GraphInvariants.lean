import Omniscience.Lib.Relocation

/-!
# Invariants of property graphs

`Holds` says that the data of every node and of every relationship satisfies a predicate.  Each
operation has a rule that asks for what it adds or rewrites only, and loops keep what their steps
keep.

`Typed` says more of a relationship: what it may lead to.  Its rules ask the same of the operations,
and of a rewriting of the nodes also that it leaves every node one that its relationships may lead
to.
-/

namespace Omniscience.PropertyGraph

open Dict List

variable {N R : Type*}

theorem test_of_not_any {g : PropertyGraph N R} {test : N → Bool} {i : ℕ} {n : N}
    (hany : ¬ (g.nodes.items.any fun item => test item.2) = true) (hi : g.nodes.get? i = some n) :
    test n = false := by
  rw [any_eq_true, not_exists] at hany
  have hno := hany (i, n)
  rw [not_and, Bool.not_eq_true] at hno
  exact hno (mem_items_of_get? hi)

/-- Every node and every relationship satisfies its predicate. -/
structure Holds (P : N → Prop) (Q : R → Prop) (g : PropertyGraph N R) : Prop where
  nodes : ∀ i n, g.nodes.get? i = some n → P n
  rels : ∀ r ∈ g.rels, Q r.data

section

variable {P : N → Prop} {Q : R → Prop} {g : PropertyGraph N R}

theorem holds_empty : Holds P Q (empty : PropertyGraph N R) where
  nodes i n h := by cases h
  rels r h := absurd h not_mem_nil

theorem Holds.create (h : Holds P Q g) {n : N} (hn : P n) : Holds P Q (g.create n) where
  nodes i n' hi := by
    rw [PropertyGraph.create] at hi
    by_cases hfresh : i = g.fresh
    · rw [hfresh, get?_set_self, Option.some.injEq] at hi
      exact hi ▸ hn
    · rw [get?_set_ne _ _ hfresh] at hi
      exact h.nodes i n' hi
  rels := h.rels

theorem Holds.connect (h : Holds P Q g) {a : Arc R} (ha : Q a.data) : Holds P Q (g.connect a) := by
  rw [PropertyGraph.connect]
  split
  · refine ⟨h.nodes, fun r hr => ?_⟩
    rcases mem_append.1 hr with hr | hr
    · exact h.rels r hr
    · exact mem_singleton.1 hr ▸ ha
  · exact h

theorem Holds.setNodesAt (h : Holds P Q g) {f : ℕ → N → N}
    (hf : ∀ i n, g.nodes.get? i = some n → P n → P (f i n)) : Holds P Q (g.setNodes f) where
  nodes i n hi := by
    have hget := get?_map f g.nodes i
    rw [PropertyGraph.setNodes] at hi
    rw [hget, Option.map_eq_some_iff] at hi
    obtain ⟨n₀, hn₀, rfl⟩ := hi
    exact hf i n₀ hn₀ (h.nodes i n₀ hn₀)
  rels := h.rels

theorem Holds.setNodes (h : Holds P Q g) {f : ℕ → N → N} (hf : ∀ i n, P n → P (f i n)) :
    Holds P Q (g.setNodes f) :=
  h.setNodesAt fun i n _ => hf i n

theorem Holds.setRels (h : Holds P Q g) {f : Arc R → R} (hf : ∀ r, Q r.data → Q (f r)) :
    Holds P Q (g.setRels f) where
  nodes := h.nodes
  rels r hr := by
    obtain ⟨r₀, hr₀, rfl⟩ := mem_map.1 hr
    exact hf r₀ (h.rels r₀ hr₀)

theorem Holds.setFirstRels (h : Holds P Q g) {test : Arc R → Bool} {f : Arc R → R} (k : ℕ)
    (hf : ∀ r, test r = true → Q r.data → Q (f r)) : Holds P Q (g.setFirstRels test f k) where
  nodes := h.nodes
  rels r hr := by
    rcases mem_mapFirst hr with hr | ⟨r₀, hr₀, htest, rfl⟩
    · exact h.rels r hr
    · exact hf r₀ htest (h.rels r₀ hr₀)

theorem Holds.detachDelete (h : Holds P Q g) (doomed : ℕ → Bool) :
    Holds P Q (g.detachDelete doomed) where
  nodes i n hi := h.nodes i n (get?_of_filter hi)
  rels r hr := h.rels r (mem_filter.1 hr).1

theorem Holds.mergeNodeNew (h : Holds P Q g) {test : N → Bool} {new : N} {onMatch : N → N}
    (hnew : (∀ i n, g.nodes.get? i = some n → test n = false) → P new)
    (hmatch : ∀ n, P n → P (onMatch n)) : Holds P Q (g.mergeNode test new onMatch) := by
  rw [PropertyGraph.mergeNode]
  split
  · refine h.setNodes fun i n hn => ?_
    split
    · exact hmatch n hn
    · exact hn
  · rename_i hany
    exact h.create (hnew fun i n hi => test_of_not_any hany hi)

theorem Holds.mergeNode (h : Holds P Q g) {test : N → Bool} {new : N} {onMatch : N → N}
    (hnew : P new) (hmatch : ∀ n, P n → P (onMatch n)) :
    Holds P Q (g.mergeNode test new onMatch) :=
  h.mergeNodeNew (fun _ => hnew) hmatch

theorem Holds.mergeRel (h : Holds P Q g) {source target : ℕ} {test : R → Bool} {new : R}
    {onMatch : R → R} (hnew : Q new) (hmatch : ∀ d, Q d → Q (onMatch d)) :
    Holds P Q (g.mergeRel source target test new onMatch) := by
  rw [PropertyGraph.mergeRel]
  split
  · refine h.setRels fun r hr => ?_
    split
    · exact hmatch r.data hr
    · exact hr
  · exact h.connect hnew

end

/-! ### What relationships lead to -/

/-- Every node satisfies its predicate, and every relationship leads to a node that it may lead
to. -/
structure Typed (P : N → Prop) (E : R → N → Prop) (g : PropertyGraph N R) : Prop where
  nodes : ∀ i n, g.nodes.get? i = some n → P n
  rels : ∀ r ∈ g.rels, ∀ n, g.nodes.get? r.target = some n → E r.data n

section

variable {P : N → Prop} {E : R → N → Prop} {g : PropertyGraph N R}

theorem typed_empty : Typed P E (empty : PropertyGraph N R) where
  nodes i n h := by cases h
  rels r h := absurd h not_mem_nil

theorem Typed.create (h : Typed P E g) {n : N} (hn : P n) : Typed P E (g.create n) where
  nodes i n' hi := by
    rw [PropertyGraph.create] at hi
    by_cases hfresh : i = g.fresh
    · rw [hfresh, get?_set_self, Option.some.injEq] at hi
      exact hi ▸ hn
    · rw [get?_set_ne _ _ hfresh] at hi
      exact h.nodes i n' hi
  rels r hr n' hn' := by
    have htarget : r.target ≠ g.fresh := fun heq => g.fresh_notMem (heq ▸ (g.ends r hr).2)
    rw [PropertyGraph.create, get?_set_ne _ _ htarget] at hn'
    exact h.rels r hr n' hn'

theorem Typed.connect (h : Typed P E g) {a : Arc R}
    (ha : ∀ n, g.nodes.get? a.target = some n → E a.data n) : Typed P E (g.connect a) := by
  rw [PropertyGraph.connect]
  split
  · refine ⟨h.nodes, fun r hr => ?_⟩
    rcases mem_append.1 hr with hr | hr
    · exact h.rels r hr
    · exact mem_singleton.1 hr ▸ ha
  · exact h

theorem Typed.setNodes (h : Typed P E g) {f : ℕ → N → N}
    (hf : ∀ i n, g.nodes.get? i = some n → P n → P (f i n))
    (hrels : ∀ i n d, E d n → E d (f i n)) : Typed P E (g.setNodes f) where
  nodes i n hi := by
    rw [PropertyGraph.setNodes, get?_map, Option.map_eq_some_iff] at hi
    obtain ⟨n₀, hn₀, rfl⟩ := hi
    exact hf i n₀ hn₀ (h.nodes i n₀ hn₀)
  rels r hr n hn := by
    rw [PropertyGraph.setNodes, get?_map, Option.map_eq_some_iff] at hn
    obtain ⟨n₀, hn₀, rfl⟩ := hn
    exact hrels r.target n₀ r.data (h.rels r hr n₀ hn₀)

theorem Typed.setRels (h : Typed P E g) {f : Arc R → R} (hf : ∀ r n, E r.data n → E (f r) n) :
    Typed P E (g.setRels f) where
  nodes := h.nodes
  rels r hr n hn := by
    obtain ⟨r₀, hr₀, rfl⟩ := mem_map.1 hr
    exact hf r₀ n (h.rels r₀ hr₀ n hn)

theorem Typed.deleteRels (h : Typed P E g) (test : Arc R → Bool) :
    Typed P E (g.deleteRels test) where
  nodes := h.nodes
  rels r hr := h.rels r (mem_filter.1 hr).1

theorem Typed.detachDelete (h : Typed P E g) (doomed : ℕ → Bool) :
    Typed P E (g.detachDelete doomed) where
  nodes i n hi := h.nodes i n (get?_of_filter hi)
  rels r hr n hn := h.rels r (mem_filter.1 hr).1 n (get?_of_filter hn)

theorem Typed.mergeNode (h : Typed P E g) {test : N → Bool} {new : N} {onMatch : N → N}
    (hnew : (∀ i n, g.nodes.get? i = some n → test n = false) → P new)
    (hmatch : ∀ n, test n = true → P n → P (onMatch n))
    (hrels : ∀ n d, E d n → E d (onMatch n)) : Typed P E (g.mergeNode test new onMatch) := by
  rw [PropertyGraph.mergeNode]
  split
  · refine h.setNodes (fun i n _ hn => ?_) fun i n d hd => ?_
    · split
      · rename_i htest
        exact hmatch n htest hn
      · exact hn
    · split
      · exact hrels n d hd
      · exact hd
  · rename_i hany
    exact h.create (hnew fun i n hi => test_of_not_any hany hi)

theorem Typed.mergeRel (h : Typed P E g) {source target : ℕ} {test : R → Bool} {new : R}
    {onMatch : R → R} (hnew : ∀ n, g.nodes.get? target = some n → E new n)
    (hmatch : ∀ d n, E d n → E (onMatch d) n) :
    Typed P E (g.mergeRel source target test new onMatch) := by
  rw [PropertyGraph.mergeRel]
  split
  · refine h.setRels fun r n hr => ?_
    split
    · exact hmatch r.data n hr
    · exact hr
  · exact h.connect hnew

theorem Typed.mergeRels {like : R → R → Bool} {l : List (Arc R)} (h : Typed P E g)
    (hl : ∀ a ∈ l, ∀ n, g.nodes.get? a.target = some n → E a.data n) :
    Typed P E (g.mergeRels like l) := by
  induction l generalizing g with
  | nil => exact h
  | cons a l ih =>
    refine ih (h.mergeRel (hl a mem_cons_self) fun _ _ hd => hd) fun b hb n hn => ?_
    rw [nodes_mergeRel] at hn
    exact hl b (mem_cons_of_mem _ hb) n hn

theorem Typed.relocate [DecidableEq R] {like : R → R → Bool} {rows : List (Arc R × Arc R)}
    (h : Typed P E g)
    (hrows : ∀ row ∈ rows, ∀ n, g.nodes.get? row.2.target = some n → E row.2.data n) :
    Typed P E (g.relocate like rows) := by
  refine (h.mergeRels fun a ha n hn => ?_).deleteRels _
  obtain ⟨row, hrow, rfl⟩ := mem_map.1 ha
  exact hrows row hrow n hn

end

/-! ### Loops -/

theorem foldl_keeps {α : Type*} {I : PropertyGraph N R → Prop}
    {step : PropertyGraph N R → α → PropertyGraph N R} {l : List α}
    (hstep : ∀ g, ∀ a ∈ l, I g → I (step g a)) {g : PropertyGraph N R} (h : I g) :
    I (l.foldl step g) := by
  induction l generalizing g with
  | nil => exact h
  | cons a l ih =>
    exact ih (fun g b hb => hstep g b (mem_cons_of_mem _ hb)) (hstep g a mem_cons_self h)

theorem foldlM_keeps {α β : Type*} {I : β → Prop} {step : β → α → Option β} {l : List α} {b b' : β}
    (hstep : ∀ a ∈ l, ∀ c c', I c → step c a = some c' → I c') (h : I b)
    (hb' : l.foldlM step b = some b') : I b' := by
  induction l generalizing b with
  | nil =>
    cases hb'
    exact h
  | cons a l ih =>
    rw [foldlM_cons, Option.bind_eq_bind, Option.bind_eq_some_iff] at hb'
    obtain ⟨c, hc, hrest⟩ := hb'
    exact ih (fun a' ha' => hstep a' (mem_cons_of_mem _ ha'))
      (hstep a mem_cons_self b c h hc) hrest

end Omniscience.PropertyGraph
