import Omniscience.Lib.Dict

/-!
# Property graphs

A directed multigraph with data on its nodes and on its relationships, as a graph database keeps
it.  A node is known by its element id.  A relationship is its two ends and its data, and several
equal ones may stand side by side, so what a graph has of them is a list.

The statements of a query language are built from six operations: `create` and `connect` add a node
and a relationship, `setNodes` and `setRels` rewrite data, `deleteRels` and `detachDelete` remove.
No relationship dangles, which is a field of the graph: `connect` adds nothing to an end that does
not exist, and `detachDelete` takes the relationships along.

`Agree` compares two graphs on the nodes and the relationships that satisfy a test.  To create,
change or merge nodes is a frame step for the test under the condition of a rule (`agree_mergeNode`),
and `Agree.trans` and `agree_foldl` compose such steps.
-/

namespace Omniscience

open Dict List

/-- A relationship: the element ids of its ends, and its data. -/
structure Arc (R : Type*) where
  source : ℕ
  target : ℕ
  data : R
  deriving DecidableEq

/-- The relationship starts or ends at the node. -/
def Arc.touches {R : Type*} (r : Arc R) (i : ℕ) : Bool := r.source = i || r.target = i

/-- A directed multigraph with data on nodes and relationships, none of which dangles. -/
@[ext] structure PropertyGraph (N R : Type*) where
  nodes : Dict ℕ N
  rels : List (Arc R)
  ends : ∀ r ∈ rels, r.source ∈ nodes.keys ∧ r.target ∈ nodes.keys

namespace PropertyGraph

variable {N R : Type*}

theorem ends_empty : ∀ r ∈ ([] : List (Arc R)),
    r.source ∈ (Dict.empty : Dict ℕ N).keys ∧ r.target ∈ (Dict.empty : Dict ℕ N).keys :=
  fun _ h => absurd h not_mem_nil

/-- The graph without nodes. -/
def empty : PropertyGraph N R := ⟨.empty, [], ends_empty⟩

/-! ### Matching -/

/-- The nodes that satisfy the test, in the order of the store. -/
def matching (test : N → Bool) (g : PropertyGraph N R) : List (ℕ × N) :=
  g.nodes.items.filter fun item => test item.2

/-- Their element ids. -/
def refs (test : N → Bool) (g : PropertyGraph N R) : List ℕ := (g.matching test).map Prod.fst

/-- Their data. -/
def values (test : N → Bool) (g : PropertyGraph N R) : List N := (g.matching test).map Prod.snd

/-- The node with the element id satisfies the test. -/
def has (test : N → Bool) (g : PropertyGraph N R) (i : ℕ) : Bool := (g.nodes.get? i).any test

variable {g : PropertyGraph N R} {test : N → Bool}

theorem has_iff {i : ℕ} : g.has test i = true ↔ ∃ n, g.nodes.get? i = some n ∧ test n = true :=
  Option.any_eq_true _ _

theorem get?_of_mem_matching {item : ℕ × N} (h : item ∈ g.matching test) :
    g.nodes.get? item.1 = some item.2 :=
  get?_of_mem_items (mem_filter.1 h).1

theorem mem_values {n : N} : n ∈ g.values test ↔ ∃ i, g.nodes.get? i = some n ∧ test n = true := by
  rw [values, matching, mem_map]
  constructor
  · rintro ⟨item, hitem, rfl⟩
    obtain ⟨hmem, htest⟩ := mem_filter.1 hitem
    exact ⟨item.1, get?_of_mem_items hmem, htest⟩
  · rintro ⟨i, hi, htest⟩
    exact ⟨(i, n), mem_filter.2 ⟨mem_items_of_get? hi, htest⟩, rfl⟩

theorem mem_refs {i : ℕ} : i ∈ g.refs test ↔ g.has test i = true := by
  rw [refs, matching, has, mem_map, Option.any_eq_true]
  constructor
  · rintro ⟨item, hitem, rfl⟩
    obtain ⟨hmem, htest⟩ := mem_filter.1 hitem
    exact ⟨item.2, get?_of_mem_items hmem, htest⟩
  · rintro ⟨n, hn, htest⟩
    exact ⟨(i, n), mem_filter.2 ⟨mem_items_of_get? hn, htest⟩, rfl⟩

theorem mem_keys_of_mem_refs {i : ℕ} (h : i ∈ g.refs test) : i ∈ g.nodes.keys := by
  obtain ⟨item, hitem, rfl⟩ := mem_map.1 h
  exact mem_map_of_mem (mem_filter.1 hitem).1

theorem refs_congr {g g' : PropertyGraph N R} (h : g'.nodes = g.nodes) (test : N → Bool) :
    g'.refs test = g.refs test := by
  rw [refs, refs, matching, matching, h]

theorem has_of_refs {i : ℕ} (h : g.refs test = [i]) (j : ℕ) : g.has test j = decide (j = i) := by
  rw [Bool.eq_iff_iff, ← mem_refs, h, mem_singleton, decide_eq_true_eq]

theorem length_refs_le {test test' : N → Bool} (h : ∀ n, test n = true → test' n = true)
    (g : PropertyGraph N R) : (g.refs test).length ≤ (g.refs test').length := by
  rw [refs, refs, length_map, length_map, matching, matching,
    ← countP_eq_length_filter, ← countP_eq_length_filter]
  exact countP_mono_left fun item _ => h item.2

/-! ### Operations -/

/-- An element id that no node has. -/
def fresh (g : PropertyGraph N R) : ℕ := (g.nodes.keys.foldr max 0) + 1

theorem le_foldr_max {l : List ℕ} {i : ℕ} (h : i ∈ l) : i ≤ l.foldr max 0 := by
  induction l with
  | nil => exact absurd h not_mem_nil
  | cons j l ih =>
    rcases mem_cons.1 h with rfl | h
    · exact le_max_left _ _
    · exact (ih h).trans (le_max_right _ _)

theorem fresh_notMem (g : PropertyGraph N R) : g.fresh ∉ g.nodes.keys := by
  intro h
  have hle := le_foldr_max h
  rw [fresh] at hle
  omega

theorem ends_create (g : PropertyGraph N R) (n : N) :
    ∀ r ∈ g.rels, r.source ∈ (g.nodes.set g.fresh n).keys ∧
      r.target ∈ (g.nodes.set g.fresh n).keys :=
  fun r hr => ⟨mem_keys_set.2 (.inr (g.ends r hr).1), mem_keys_set.2 (.inr (g.ends r hr).2)⟩

/-- Add a node. -/
def create (n : N) (g : PropertyGraph N R) : PropertyGraph N R :=
  ⟨g.nodes.set g.fresh n, g.rels, ends_create g n⟩

theorem ends_connect {a : Arc R} (h : a.source ∈ g.nodes.keys ∧ a.target ∈ g.nodes.keys) :
    ∀ r ∈ g.rels ++ [a], r.source ∈ g.nodes.keys ∧ r.target ∈ g.nodes.keys := by
  intro r hr
  rcases mem_append.1 hr with hr | hr
  · exact g.ends r hr
  · rw [mem_singleton.1 hr]
    exact h

/-- Add a relationship between two nodes. -/
def connect (a : Arc R) (g : PropertyGraph N R) : PropertyGraph N R :=
  if h : a.source ∈ g.nodes.keys ∧ a.target ∈ g.nodes.keys then
    ⟨g.nodes, g.rels ++ [a], ends_connect h⟩
  else g

/-- Add relationships, one after the other. -/
def connectAll (l : List (Arc R)) (g : PropertyGraph N R) : PropertyGraph N R :=
  l.foldl (fun g a => g.connect a) g

theorem nodes_connect (a : Arc R) (g : PropertyGraph N R) : (g.connect a).nodes = g.nodes := by
  rw [connect]
  split
  · rfl
  · rfl

@[simp] theorem nodes_connectAll (l : List (Arc R)) (g : PropertyGraph N R) :
    (g.connectAll l).nodes = g.nodes := by
  induction l generalizing g with
  | nil => rfl
  | cons a l ih => exact (ih (g.connect a)).trans (nodes_connect a g)

theorem rels_connectAll {l : List (Arc R)}
    (h : ∀ a ∈ l, a.source ∈ g.nodes.keys ∧ a.target ∈ g.nodes.keys) :
    (g.connectAll l).rels = g.rels ++ l := by
  induction l generalizing g with
  | nil => exact (append_nil _).symm
  | cons a l ih =>
    have hrels : (g.connect a).rels = g.rels ++ [a] := by
      rw [connect, dif_pos (h a mem_cons_self)]
    have hrest : ((g.connect a).connectAll l).rels = (g.connect a).rels ++ l := by
      refine ih fun b hb => ?_
      rw [nodes_connect]
      exact h b (mem_cons_of_mem _ hb)
    rw [connectAll, foldl_cons, ← connectAll, hrest, hrels, append_assoc]
    rfl

theorem foldl_connectAll {α : Type*} (arcs : PropertyGraph N R → α → List (Arc R))
    (hends : ∀ g a, ∀ r ∈ arcs g a, r.source ∈ g.nodes.keys ∧ r.target ∈ g.nodes.keys)
    (hcongr : ∀ {g g'}, g'.nodes = g.nodes → arcs g' = arcs g) (l : List α)
    (g : PropertyGraph N R) : (l.foldl (fun g a => g.connectAll (arcs g a)) g).nodes = g.nodes ∧
      (l.foldl (fun g a => g.connectAll (arcs g a)) g).rels = g.rels ++ l.flatMap (arcs g) := by
  induction l generalizing g with
  | nil => exact ⟨rfl, (append_nil _).symm⟩
  | cons a l ih =>
    obtain ⟨hnodes, hrels⟩ := ih (g.connectAll (arcs g a))
    rw [foldl_cons, hnodes, hrels, nodes_connectAll, rels_connectAll (hends g a),
      hcongr (nodes_connectAll (arcs g a) g), flatMap_cons, append_assoc]
    exact ⟨rfl, rfl⟩

theorem keys_map (g : PropertyGraph N R) (f : ℕ → N → N) : (g.nodes.map f).keys = g.nodes.keys := by
  rw [Dict.keys, Dict.keys, Dict.map, map_map]
  rfl

theorem ends_setNodes (g : PropertyGraph N R) (f : ℕ → N → N) :
    ∀ r ∈ g.rels, r.source ∈ (g.nodes.map f).keys ∧ r.target ∈ (g.nodes.map f).keys := by
  rw [keys_map]
  exact g.ends

/-- Rewrite the nodes. -/
def setNodes (f : ℕ → N → N) (g : PropertyGraph N R) : PropertyGraph N R :=
  ⟨g.nodes.map f, g.rels, ends_setNodes g f⟩

theorem ends_setRels (g : PropertyGraph N R) (f : Arc R → R) :
    ∀ r ∈ g.rels.map fun r => { r with data := f r },
      r.source ∈ g.nodes.keys ∧ r.target ∈ g.nodes.keys := by
  intro r hr
  obtain ⟨r₀, hr₀, rfl⟩ := mem_map.1 hr
  exact g.ends r₀ hr₀

/-- Rewrite the relationships. -/
def setRels (f : Arc R → R) (g : PropertyGraph N R) : PropertyGraph N R :=
  ⟨g.nodes, g.rels.map fun r => { r with data := f r }, ends_setRels g f⟩

theorem ends_deleteRels (g : PropertyGraph N R) (test : Arc R → Bool) :
    ∀ r ∈ g.rels.filter fun r => !test r, r.source ∈ g.nodes.keys ∧ r.target ∈ g.nodes.keys :=
  fun r hr => g.ends r (mem_filter.1 hr).1

/-- Remove relationships. -/
def deleteRels (test : Arc R → Bool) (g : PropertyGraph N R) : PropertyGraph N R :=
  ⟨g.nodes, g.rels.filter fun r => !test r, ends_deleteRels g test⟩

theorem has_deleteRels (testNode : N → Bool) (test : Arc R → Bool) (g : PropertyGraph N R) :
    (g.deleteRels test).has testNode = g.has testNode := rfl

theorem ends_detachDelete (g : PropertyGraph N R) (doomed : ℕ → Bool) :
    ∀ r ∈ g.rels.filter fun r => !doomed r.source && !doomed r.target,
      r.source ∈ (g.nodes.filter fun i _ => !doomed i).keys ∧
        r.target ∈ (g.nodes.filter fun i _ => !doomed i).keys := by
  intro r hr
  obtain ⟨hmem, hkept⟩ := mem_filter.1 hr
  rw [Bool.and_eq_true] at hkept
  exact ⟨mem_keys_filter.2 ⟨(g.ends r hmem).1, hkept.1⟩,
    mem_keys_filter.2 ⟨(g.ends r hmem).2, hkept.2⟩⟩

/-- Remove nodes with all their relationships. -/
def detachDelete (doomed : ℕ → Bool) (g : PropertyGraph N R) : PropertyGraph N R :=
  ⟨g.nodes.filter fun i _ => !doomed i,
    g.rels.filter fun r => !doomed r.source && !doomed r.target, ends_detachDelete g doomed⟩

/-- The list with the first `k` of the elements that satisfy the test replaced. -/
def mapFirst {α : Type*} (test : α → Bool) (f : α → α) : ℕ → List α → List α
  | 0, l => l
  | _ + 1, [] => []
  | k + 1, x :: l => if test x then f x :: mapFirst test f k l else x :: mapFirst test f (k + 1) l

theorem mapFirst_nil {α : Type*} (test : α → Bool) (f : α → α) (k : ℕ) :
    mapFirst test f k [] = [] := by
  cases k with
  | zero => rfl
  | succ k => rfl

theorem mem_mapFirst {α : Type*} {test : α → Bool} {f : α → α} {k : ℕ} {l : List α} {x : α}
    (h : x ∈ mapFirst test f k l) : x ∈ l ∨ ∃ y ∈ l, test y = true ∧ x = f y := by
  induction l generalizing k with
  | nil =>
    rw [mapFirst_nil] at h
    exact .inl h
  | cons y l ih =>
    cases k with
    | zero => exact .inl h
    | succ k =>
      rw [mapFirst] at h
      split at h
      · rename_i hy
        rcases mem_cons.1 h with rfl | h
        · exact .inr ⟨y, mem_cons_self, hy, rfl⟩
        · refine (ih h).imp (mem_cons_of_mem _) ?_
          rintro ⟨z, hz, hrest⟩
          exact ⟨z, mem_cons_of_mem _ hz, hrest⟩
      · rcases mem_cons.1 h with rfl | h
        · exact .inl mem_cons_self
        · refine (ih h).imp (mem_cons_of_mem _) ?_
          rintro ⟨z, hz, hrest⟩
          exact ⟨z, mem_cons_of_mem _ hz, hrest⟩

theorem ends_setFirstRels (g : PropertyGraph N R) (test : Arc R → Bool) (f : Arc R → R) (k : ℕ) :
    ∀ r ∈ mapFirst test (fun r => { r with data := f r }) k g.rels,
      r.source ∈ g.nodes.keys ∧ r.target ∈ g.nodes.keys := by
  intro r hr
  rcases mem_mapFirst hr with hr | ⟨r₀, hr₀, -, rfl⟩
  · exact g.ends r hr
  · exact g.ends r₀ hr₀

/-- Rewrite the first `k` relationships that satisfy the test. -/
def setFirstRels (test : Arc R → Bool) (f : Arc R → R) (k : ℕ) (g : PropertyGraph N R) :
    PropertyGraph N R :=
  ⟨g.nodes, mapFirst test (fun r => { r with data := f r }) k g.rels,
    ends_setFirstRels g test f k⟩

/-- The list without the first `k` of the elements that satisfy the test. -/
def eraseFirst {α : Type*} (test : α → Bool) : ℕ → List α → List α
  | 0, l => l
  | _ + 1, [] => []
  | k + 1, x :: l => if test x then eraseFirst test k l else x :: eraseFirst test (k + 1) l

theorem eraseFirst_sublist {α : Type*} (test : α → Bool) (k : ℕ) (l : List α) :
    (eraseFirst test k l).Sublist l := by
  induction l generalizing k with
  | nil =>
    cases k with
    | zero => exact List.Sublist.refl _
    | succ k => exact List.Sublist.refl _
  | cons x l ih =>
    cases k with
    | zero => exact List.Sublist.refl _
    | succ k =>
      rw [eraseFirst]
      split
      · exact (ih k).cons x
      · exact (ih (k + 1)).cons_cons x

theorem filter_eraseFirst {α : Type*} (test : α → Bool) (k : ℕ) (l : List α) :
    (eraseFirst test k l).filter test = (l.filter test).drop k := by
  induction l generalizing k with
  | nil =>
    cases k with
    | zero => rfl
    | succ k => rfl
  | cons x l ih =>
    cases k with
    | zero => rfl
    | succ k =>
      rw [eraseFirst]
      by_cases htest : test x = true
      · rw [if_pos htest, ih, filter_cons_of_pos htest, drop_succ_cons]
      · rw [if_neg htest, filter_cons_of_neg htest, filter_cons_of_neg htest, ih]

/-- Remove the first `k` relationships that satisfy the test. -/
def deleteFirstRels (test : Arc R → Bool) (k : ℕ) (g : PropertyGraph N R) : PropertyGraph N R :=
  ⟨g.nodes, eraseFirst test k g.rels, fun r hr => g.ends r ((eraseFirst_sublist _ _ _).subset hr)⟩

theorem filter_true (d : Dict ℕ N) : (d.filter fun _ _ => true) = d := by
  cases d with
  | mk items nodup =>
    simp only [Dict.filter]
    congr 1
    exact List.filter_true items

theorem matching_detachDelete (test : N → Bool) (doomed : ℕ → Bool) (g : PropertyGraph N R) :
    (g.detachDelete doomed).matching test = (g.matching test).filter fun item => !doomed item.1 := by
  have hitems : (g.detachDelete doomed).nodes.items =
      g.nodes.items.filter fun item => !doomed item.1 := rfl
  rw [matching, matching, hitems, filter_filter, filter_filter]
  refine filter_congr fun item _ => ?_
  rw [Bool.and_comm]

theorem matching_detachDelete_of_disjoint {test doomedTest : N → Bool} {doomed : ℕ → Bool}
    (hdoomed : ∀ i, doomed i = true → g.has doomedTest i = true)
    (hdisjoint : ∀ n, test n = true → doomedTest n = false) :
    (g.detachDelete doomed).matching test = g.matching test := by
  rw [matching_detachDelete, filter_eq_self]
  intro item hitem
  rw [Bool.not_eq_true', ← Bool.not_eq_true]
  intro hi
  obtain ⟨n, hn, hdoomedTest⟩ := has_iff.1 (hdoomed item.1 hi)
  rw [get?_of_mem_matching hitem, Option.some.injEq] at hn
  subst hn
  rw [hdisjoint item.2 (mem_filter.1 hitem).2] at hdoomedTest
  cases hdoomedTest

@[simp] theorem rels_detachDelete (doomed : ℕ → Bool) (g : PropertyGraph N R) :
    (g.detachDelete doomed).rels = g.rels.filter fun r => !doomed r.source && !doomed r.target :=
  rfl

theorem filter_notMem_take (test : N → Bool) (k : ℕ) (g : PropertyGraph N R) :
    ((g.matching test).filter fun item => !decide (item.1 ∈ (g.refs test).take k)) =
      (g.matching test).drop k := by
  have hnodup : (g.refs test).Nodup := g.nodes.nodup.sublist (filter_sublist.map _)
  rw [refs] at hnodup ⊢
  generalize g.matching test = l at hnodup ⊢
  induction l generalizing k with
  | nil => simp
  | cons item l ih =>
    rw [map_cons, nodup_cons] at hnodup
    cases k with
    | zero => simp
    | succ k =>
      rw [map_cons, take_succ_cons, filter_cons_of_neg (by simp), drop_succ_cons, ← ih k hnodup.2]
      refine filter_congr fun other hother => ?_
      have hne : other.1 ≠ item.1 := fun h => hnodup.1 (h ▸ mem_map_of_mem hother)
      simp [hne]

/-- `MERGE` of a node: those that satisfy the test are rewritten, and if there is none, a new one is
added. -/
def mergeNode (test : N → Bool) (new : N) (onMatch : N → N) (g : PropertyGraph N R) :
    PropertyGraph N R :=
  if g.nodes.items.any fun item => test item.2 then
    g.setNodes fun _ n => if test n then onMatch n else n
  else g.create new

/-- `MERGE` of a relationship between two nodes. -/
def mergeRel (source target : ℕ) (test : R → Bool) (new : R) (onMatch : R → R)
    (g : PropertyGraph N R) : PropertyGraph N R :=
  if g.rels.any fun r => r.source = source && r.target = target && test r.data then
    g.setRels fun r =>
      if r.source = source && r.target = target && test r.data then onMatch r.data else r.data
  else g.connect ⟨source, target, new⟩

theorem refs_setNodes_eq {f : ℕ → N → N} {before : ℕ × N → Bool}
    (h : ∀ item ∈ g.nodes.items, test (f item.1 item.2) = before item) :
    (g.setNodes f).refs test = (g.nodes.items.filter before).map Prod.fst := by
  have hitems : (g.setNodes f).nodes.items =
      g.nodes.items.map fun item => (item.1, f item.1 item.2) := rfl
  rw [refs, matching, hitems, filter_map, map_map]
  congr 1
  exact filter_congr h

theorem refs_setNodes {f : ℕ → N → N} (h : ∀ i n, test (f i n) = test n) (g : PropertyGraph N R) :
    (g.setNodes f).refs test = g.refs test :=
  refs_setNodes_eq fun item _ => h item.1 item.2

/-! ### Frames -/

/-- The graphs have the same nodes and relationships among those that satisfy the tests. -/
structure Agree (onNode : N → Bool) (onRel : R → Bool) (g g' : PropertyGraph N R) : Prop where
  nodes : g'.matching onNode = g.matching onNode
  rels : (g'.rels.filter fun r => onRel r.data) = g.rels.filter fun r => onRel r.data

section

variable {onNode : N → Bool} {onRel : R → Bool} {g g' g'' : PropertyGraph N R}

theorem Agree.refl (g : PropertyGraph N R) : Agree onNode onRel g g := ⟨rfl, rfl⟩

theorem Agree.trans (h : Agree onNode onRel g g') (h' : Agree onNode onRel g' g'') :
    Agree onNode onRel g g'' :=
  ⟨h'.nodes.trans h.nodes, h'.rels.trans h.rels⟩

theorem agree_create {n : N} (hn : onNode n = false) (g : PropertyGraph N R) :
    Agree onNode onRel g (g.create n) := by
  refine ⟨?_, rfl⟩
  rw [matching, create, items_set_of_not_mem g.fresh_notMem, filter_append]
  simp [matching, hn]

variable {α : Type*}

theorem filter_map_of_off {on : α → Bool} {f : α → α} {l : List α}
    (h : ∀ x ∈ l, f x = x ∨ (on x = false ∧ on (f x) = false)) :
    (l.map f).filter on = l.filter on := by
  induction l with
  | nil => rfl
  | cons x l ih =>
    have htail := ih fun y hy => h y (mem_cons_of_mem _ hy)
    rw [map_cons]
    rcases h x mem_cons_self with hx | ⟨hx, hfx⟩
    · rw [hx, filter_cons, filter_cons, htail]
    · rw [filter_cons_of_neg (by simp [hfx]), filter_cons_of_neg (by simp [hx]), htail]

theorem filter_mapFirst_of_off {on test : α → Bool} {f : α → α} {l : List α} (k : ℕ)
    (h : ∀ x ∈ l, test x = true → on x = false ∧ on (f x) = false) :
    (mapFirst test f k l).filter on = l.filter on := by
  induction l generalizing k with
  | nil => rw [mapFirst_nil]
  | cons x l ih =>
    have htail := fun k => ih k fun y hy => h y (mem_cons_of_mem _ hy)
    cases k with
    | zero => rfl
    | succ k =>
      rw [mapFirst]
      split
      · rename_i htest
        obtain ⟨hoff, hnew⟩ := h x mem_cons_self htest
        rw [filter_cons_of_neg (by simp [hnew]), filter_cons_of_neg (by simp [hoff]), htail]
      · rw [filter_cons, filter_cons, htail]

theorem filter_mapFirst {test : α → Bool} {f : α → α} {l : List α} (k : ℕ)
    (h : ∀ x ∈ l, test x = true → test (f x) = false) :
    (mapFirst test f k l).filter test = (l.filter test).drop k := by
  induction l generalizing k with
  | nil =>
    rw [mapFirst_nil, filter_nil, drop_nil]
  | cons x l ih =>
    have htail := fun k => ih k fun y hy => h y (mem_cons_of_mem _ hy)
    cases k with
    | zero => rfl
    | succ k =>
      rw [mapFirst]
      split
      · rename_i htest
        rw [filter_cons_of_neg (by simp [h x mem_cons_self htest]),
          filter_cons_of_pos htest, drop_succ_cons, htail]
      · rename_i htest
        rw [filter_cons_of_neg htest, filter_cons_of_neg htest, htail]

theorem filter_filter_of_off {on keep : α → Bool} {l : List α}
    (h : ∀ x ∈ l, keep x = false → on x = false) : (l.filter keep).filter on = l.filter on := by
  rw [filter_filter]
  refine filter_congr fun x hx => ?_
  cases hkeep : keep x with
  | true => rw [Bool.and_true]
  | false => rw [h x hx hkeep, Bool.false_and]

theorem agree_setNodes {f : ℕ → N → N}
    (h : ∀ i n, g.nodes.get? i = some n → f i n = n ∨ (onNode n = false ∧ onNode (f i n) = false)) :
    Agree onNode onRel g (g.setNodes f) := by
  refine ⟨?_, rfl⟩
  refine filter_map_of_off fun item hitem => ?_
  rcases h item.1 item.2 (get?_of_mem_items hitem) with hf | hoff
  · exact .inl (Prod.ext rfl hf)
  · exact .inr hoff

theorem filter_eraseFirst_of_off {on test : α → Bool} {l : List α} (k : ℕ)
    (h : ∀ x ∈ l, test x = true → on x = false) :
    (eraseFirst test k l).filter on = l.filter on := by
  induction l generalizing k with
  | nil =>
    cases k with
    | zero => rfl
    | succ k => rfl
  | cons x l ih =>
    have htail := fun k => ih k fun y hy => h y (mem_cons_of_mem _ hy)
    cases k with
    | zero => rfl
    | succ k =>
      rw [eraseFirst]
      split
      · rename_i htest
        rw [filter_cons_of_neg (by simp [h x mem_cons_self htest]), htail]
      · rw [filter_cons, filter_cons, htail]

theorem agree_mergeNode {test : N → Bool} {new : N} {onMatch : N → N} (hnew : onNode new = false)
    (hmatch : ∀ n, test n = true → onNode n = false ∧ onNode (onMatch n) = false)
    (g : PropertyGraph N R) : Agree onNode onRel g (g.mergeNode test new onMatch) := by
  rw [mergeNode]
  split
  · refine agree_setNodes fun i n _ => ?_
    by_cases htest : test n = true
    · rw [if_pos htest]
      exact .inr (hmatch n htest)
    · exact .inl (if_neg htest)
  · exact agree_create hnew g

theorem agree_mergeRel {source target : ℕ} {test : R → Bool} {new : R} (hnew : onRel new = false)
    (g : PropertyGraph N R) :
    Agree onNode onRel g (g.mergeRel source target test new fun d => d) := by
  rw [mergeRel]
  split
  · refine ⟨rfl, ?_⟩
    simp only [ite_self, setRels, map_id']
  · rw [connect]
    split
    · refine ⟨rfl, ?_⟩
      rw [filter_append, filter_cons_of_neg (by simp [hnew]), filter_nil, append_nil]
    · exact .refl g

theorem Agree.get?_iff (h : Agree onNode onRel g g') {i : ℕ} {n : N} (hn : onNode n = true) :
    g'.nodes.get? i = some n ↔ g.nodes.get? i = some n := by
  have hmem : ∀ g : PropertyGraph N R, g.nodes.get? i = some n ↔ (i, n) ∈ g.matching onNode := by
    intro g
    constructor
    · exact fun hi => mem_filter.2 ⟨mem_items_of_get? hi, hn⟩
    · exact fun hi => get?_of_mem_matching hi
  rw [hmem, hmem, h.nodes]

theorem Agree.matching_eq (h : Agree onNode onRel g g') {test : N → Bool}
    (htest : ∀ n, test n = true → onNode n = true) : g'.matching test = g.matching test := by
  have hsub : ∀ g : PropertyGraph N R,
      g.matching test = (g.matching onNode).filter fun item => test item.2 := by
    intro g
    rw [matching, matching, filter_filter]
    refine filter_congr fun item _ => ?_
    cases ht : test item.2 with
    | true => rw [htest _ ht, Bool.and_true]
    | false => rw [Bool.false_and]
  rw [hsub, hsub, h.nodes]

theorem agree_foldl {step : PropertyGraph N R → α → PropertyGraph N R} {l : List α}
    (h : ∀ g, ∀ a ∈ l, Agree onNode onRel g (step g a)) (g : PropertyGraph N R) :
    Agree onNode onRel g (l.foldl step g) := by
  induction l generalizing g with
  | nil => exact .refl g
  | cons a l ih =>
    exact (h g a mem_cons_self).trans (ih (fun g b hb => h g b (mem_cons_of_mem _ hb)) _)

end

/-! ### Merging by key -/

/-- What `mergeNode` does to the data of the nodes. -/
def mergeInto (test : N → Bool) (new : N) (onMatch : N → N) (l : List N) : List N :=
  if l.any test then l.map fun n => if test n then onMatch n else n else l ++ [new]

theorem map_snd_filter {on : N → Bool} (items : List (ℕ × N)) :
    (items.filter fun item => on item.2).map Prod.snd = (items.map Prod.snd).filter on := by
  rw [filter_map]
  rfl

theorem values_eq (on : N → Bool) (g : PropertyGraph N R) :
    g.values on = (g.nodes.items.map Prod.snd).filter on :=
  map_snd_filter g.nodes.items

theorem filter_map_update {on test : N → Bool} {f : N → N}
    (h : ∀ n, test n = true → on n = true ∧ on (f n) = true) (l : List N) :
    (l.map fun n => if test n then f n else n).filter on =
      (l.filter on).map fun n => if test n then f n else n := by
  rw [filter_map]
  congr 1
  refine filter_congr fun n _ => ?_
  rw [Function.comp]
  cases ht : test n with
  | true => simp [(h n ht).1, (h n ht).2]
  | false => simp

theorem any_filter_of_imp {on test : N → Bool} (h : ∀ n, test n = true → on n = true) (l : List N) :
    (l.filter on).any test = l.any test := by
  rw [any_filter]
  congr 1
  funext n
  cases ht : test n with
  | true => rw [h n ht, Bool.and_true]
  | false => rw [Bool.and_false]

theorem values_mergeNode {on test : N → Bool} {new : N} {onMatch : N → N} (hnew : on new = true)
    (hmatch : ∀ n, test n = true → on n = true ∧ on (onMatch n) = true) (g : PropertyGraph N R) :
    (g.mergeNode test new onMatch).values on = mergeInto test new onMatch (g.values on) := by
  have hany : (g.values on).any test = g.nodes.items.any fun item => test item.2 := by
    rw [values_eq, any_filter_of_imp fun n hn => (hmatch n hn).1, any_map]
    rfl
  rw [mergeInto, hany, mergeNode]
  split
  · have hitems : ((g.setNodes fun _ n => if test n then onMatch n else n).nodes.items.map
        Prod.snd) = (g.nodes.items.map Prod.snd).map fun n => if test n then onMatch n else n := by
      rw [setNodes, map_map]
      exact map_map
    rw [values_eq, hitems, filter_map_update hmatch, values_eq]
  · rw [values_eq, create, items_set_of_not_mem g.fresh_notMem, map_append,
      filter_append, values_eq]
    simp [hnew]

section

variable {α β κ : Type*} [DecidableEq κ]

/-- Merge a list of rows, each by its key, into what is there. -/
def mergeAll (key : α → κ) (slot : β → κ) (new : α → β) (update : α → β → β) (l : List α)
    (acc : List β) : List β :=
  l.foldl (fun acc x => mergeInto (fun b => slot b = key x) (new x) (update x) acc) acc

variable {key : α → κ} {slot : β → κ} {new : α → β} {update : α → β → β}

theorem filter_mergeInto (hnew : ∀ x, slot (new x) = key x)
    (hupdate : ∀ x b, slot (update x b) = slot b) (x : α) (acc : List β) (k : κ) :
    (mergeInto (fun b => slot b = key x) (new x) (update x) acc).filter (fun b => slot b = k) =
      if key x = k then
        mergeInto (fun _ => true) (new x) (update x) (acc.filter fun b => slot b = k)
      else acc.filter fun b => slot b = k := by
  have hmap : (acc.map fun b => if slot b = key x then update x b else b).filter
      (fun b => slot b = k) =
      if key x = k then (acc.filter fun b => slot b = k).map (update x)
      else acc.filter fun b => slot b = k := by
    induction acc with
    | nil => simp
    | cons b acc ih =>
      by_cases hb : slot b = key x
      · by_cases hk : key x = k
        · simp_all
        · simp_all
      · by_cases hk : slot b = k
        · have hne : key x ≠ k := fun h => hb (hk.trans h.symm)
          simp_all
        · simp_all
  have hany : acc.any (fun b => slot b = key x) = true ↔
      (acc.filter fun b => slot b = key x) ≠ [] := by
    simp [filter_eq_nil_iff]
  rw [mergeInto]
  by_cases hk : key x = k
  · subst hk
    rw [if_pos rfl, mergeInto]
    by_cases hmem : acc.any (fun b => slot b = key x) = true
    · have hne := hany.1 hmem
      have htrue : (acc.filter fun b => slot b = key x).any (fun _ => true) = true := by
        obtain ⟨b, bs, hbs⟩ := exists_cons_of_ne_nil hne
        rw [hbs]
        rfl
      rw [if_pos hmem, if_pos htrue]
      simpa using hmap
    · have hnil : (acc.filter fun b => slot b = key x) = [] := by
        by_contra hne
        exact hmem (hany.2 hne)
      rw [if_neg hmem, filter_append, hnil]
      simp [hnew]
  · rw [if_neg hk]
    split
    · simpa [hk] using hmap
    · rw [filter_append]
      simp [hnew, hk]

theorem filter_mergeAll (hnew : ∀ x, slot (new x) = key x)
    (hupdate : ∀ x b, slot (update x b) = slot b) (l : List α) (acc : List β) (k : κ) :
    (mergeAll key slot new update l acc).filter (fun b => slot b = k) =
      (l.filter fun x => key x = k).foldl
        (fun acc x => mergeInto (fun _ => true) (new x) (update x) acc)
        (acc.filter fun b => slot b = k) := by
  induction l generalizing acc with
  | nil => rfl
  | cons x l ih =>
    rw [mergeAll, foldl_cons, ← mergeAll, ih, filter_mergeInto hnew hupdate]
    by_cases hk : key x = k
    · rw [if_pos hk, filter_cons_of_pos (by simpa using hk), foldl_cons]
    · rw [if_neg hk, filter_cons_of_neg (by simpa using hk)]

theorem mem_slots_mergeAll (hnew : ∀ x, slot (new x) = key x)
    (hupdate : ∀ x b, slot (update x b) = slot b) {l : List α} {acc : List β} {k : κ} :
    k ∈ (mergeAll key slot new update l acc).map slot ↔
      k ∈ acc.map slot ∨ k ∈ l.map key := by
  induction l generalizing acc with
  | nil => simp [mergeAll]
  | cons x l ih =>
    have hstep : k ∈ (mergeInto (fun b => slot b = key x) (new x) (update x) acc).map slot ↔
        k ∈ acc.map slot ∨ k = key x := by
      rw [mergeInto]
      split
      · rename_i hany
        have hslots : (acc.map fun b => if slot b = key x then update x b else b).map slot =
            acc.map slot := by
          rw [map_map]
          refine map_congr_left fun b _ => ?_
          by_cases hb : slot b = key x
          · simp [hb, hupdate]
          · simp [hb]
        simp only [decide_eq_true_eq, hslots]
        refine (or_iff_left_of_imp ?_).symm
        rintro rfl
        obtain ⟨b, hb, hslot⟩ := any_eq_true.1 hany
        exact of_decide_eq_true hslot ▸ mem_map_of_mem hb
      · simp [hnew]
    rw [mergeAll, foldl_cons, ← mergeAll, ih, hstep, map_cons, mem_cons, or_assoc]

omit [DecidableEq κ] in
theorem foldl_mergeInto_singleton (l : List α) (b : β) :
    l.foldl (fun acc x => mergeInto (fun _ => true) (new x) (update x) acc) [b] =
      [l.foldl (fun b x => update x b) b] := by
  induction l generalizing b with
  | nil => rfl
  | cons x l ih =>
    rw [foldl_cons, foldl_cons]
    exact ih (update x b)

/-- **Merging by key**: the first row of a key makes the entry, and the others update it. -/
theorem filter_mergeAll_nil (hnew : ∀ x, slot (new x) = key x)
    (hupdate : ∀ x b, slot (update x b) = slot b) {l rest : List α} {acc : List β} {first : α}
    {k : κ} (hacc : (acc.filter fun b => slot b = k) = [])
    (hl : (l.filter fun x => key x = k) = first :: rest) :
    (mergeAll key slot new update l acc).filter (fun b => slot b = k) =
      [rest.foldl (fun b x => update x b) (new first)] := by
  rw [filter_mergeAll hnew hupdate, hacc, hl, foldl_cons]
  exact foldl_mergeInto_singleton rest (new first)

end

end PropertyGraph

end Omniscience
