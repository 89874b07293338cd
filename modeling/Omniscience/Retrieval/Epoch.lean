import Mathlib.Algebra.Order.Ring.Int
import Mathlib.Data.Rat.Defs
import Omniscience.Base.Uuid
import Omniscience.Lib.Bfs
import Omniscience.Lib.Dict

/-!
# The epoch pin

A composed search pins its evidence to what all stores have applied: the reconciler gives a
watermark for every source, and the composer (`omniscience_retrieval/graph_rag.py`) drops the vector
hits and the graph nodes that are ahead of the watermark of their source.

The two filters treat what they do not know in different ways.  `_apply_watermark_filter` drops a
versioned hit of a source that is not in the map, for every map.  `_apply_graph_watermark_filter`
drops a related node of such a source unless the map is empty, and looks at the version of the seed
only if its source is in the map.  After a node has been dropped, the nodes that are not connected
to the seed any more go too.

* `epoch_pinned` : what every kept hit, every kept related node and a kept seed satisfy.
* `mem_related_recomputeReachability_iff` : the nodes that remain are those connected to the seed.
-/

namespace Omniscience.Retrieval

open List

/-- `SearchHit`: what the composer reads and sets. -/
structure SearchHit where
  chunkId : Uuid
  sourceId : Uuid
  sourceType : String
  text : String
  indexedAt : ℕ
  score : ℚ
  confidence : Option ℚ := none
  scoreType : Option String := none
  impact : Option ℚ := none
  appliedVersion : Option ℤ := none
  deriving DecidableEq

/-- `EntityNodeView`. -/
structure EntityNodeView where
  id : Uuid
  name : String
  source : String
  depth : ℕ := 0
  isParked : Bool := false
  version : Option ℤ := none
  deriving DecidableEq

/-- `GraphEdgeView`. -/
structure GraphEdgeView where
  fromEntity : String
  toEntity : String
  edgeType : String
  deriving DecidableEq

/-- `GraphResultView`. -/
structure GraphResultView where
  seed : EntityNodeView
  related : List EntityNodeView := []
  edges : List GraphEdgeView := []
  deriving DecidableEq

/-- The watermark of every known source, by the text of its id. -/
abbrev Watermarks := Dict String ℤ

/-- The version is at most the watermark; what has no version passes. -/
def within (version : Option ℤ) (watermark : ℤ) : Bool :=
  match version with
  | none => true
  | some v => v ≤ watermark

/-! ### Hits -/

/-- The test of a hit. -/
def keepsHit (watermarks : Watermarks) (strictEpoch : Bool) (hit : SearchHit) : Bool :=
  match watermarks.get? hit.sourceId.str with
  | none => hit.appliedVersion.isNone || !strictEpoch
  | some watermark => within hit.appliedVersion watermark

/-- `_apply_watermark_filter`; without a reconciler there is no map and nothing is dropped. -/
def applyWatermarkFilter (hits : List SearchHit) (perSourceWatermark : Option Watermarks)
    (strictEpoch : Bool := true) : List SearchHit :=
  match perSourceWatermark with
  | none => hits
  | some watermarks => hits.filter (keepsHit watermarks strictEpoch)

/-! ### Graph nodes -/

/-- The neighbours of an entity, in both directions of the edges. -/
def neighbours (edges : List GraphEdgeView) (name : String) : List String :=
  edges.flatMap fun e =>
    (if e.fromEntity = name then [e.toEntity] else []) ++
      if e.toEntity = name then [e.fromEntity] else []

/-- The seed and the ends of the edges. -/
def vertices (seed : String) (edges : List GraphEdgeView) : List String :=
  seed :: edges.flatMap fun e => [e.fromEntity, e.toEntity]

/-- `_recompute_reachability`. -/
def recomputeReachability (graph : GraphResultView) : GraphResultView :=
  if graph.related = [] ∧ graph.edges = [] then graph
  else
    let seedName := graph.seed.name
    let reachable := Bfs.search (neighbours graph.edges) (vertices seedName graph.edges).length
      [seedName] [seedName]
    { graph with related := graph.related.filter fun n => decide (n.name ∈ reachable) }

/-- The test of a related node. -/
def keepsNode (watermarks : Watermarks) (strictEpoch : Bool) (node : EntityNodeView) : Bool :=
  match watermarks.get? node.source with
  | some watermark => within node.version watermark
  | none => !(strictEpoch && watermarks.items ≠ [])

/-- The seed has a version beyond the watermark of its source. -/
def seedAhead (watermarks : Watermarks) (seed : EntityNodeView) : Bool :=
  match watermarks.get? seed.source with
  | some watermark => !within seed.version watermark
  | none => false

/-- `_apply_graph_watermark_filter`: the pruned result, and whether the seed was excluded. -/
def applyGraphWatermarkFilter (graph : GraphResultView) (watermarks : Watermarks)
    (strictEpoch : Bool := false) : GraphResultView × Bool :=
  if seedAhead watermarks graph.seed then (graph, true)
  else
    let excluded := (graph.related.filter fun n => !keepsNode watermarks strictEpoch n).map
      EntityNodeView.name
    let pruned := { graph with related := graph.related.filter (keepsNode watermarks strictEpoch) }
    if excluded = [] then (pruned, false)
    else
      (recomputeReachability
        { pruned with
          edges := pruned.edges.filter fun e =>
            decide (e.fromEntity ∉ excluded ∧ e.toEntity ∉ excluded) }, false)

/-! ### Reachability -/

section Reachability

variable {graph : GraphResultView} {edges : List GraphEdgeView} {node : EntityNodeView}

theorem mem_neighbours_iff {a b : String} : b ∈ neighbours edges a ↔
    ∃ e ∈ edges, (e.fromEntity = a ∧ e.toEntity = b) ∨ (e.toEntity = a ∧ e.fromEntity = b) := by
  simp only [neighbours, mem_flatMap, mem_append]
  refine exists_congr fun e => and_congr_right fun _ => ?_
  refine or_congr ?_ ?_
  · by_cases h : e.fromEntity = a <;> simp [h, eq_comm]
  · by_cases h : e.toEntity = a <;> simp [h, eq_comm]

/-- There is a path of edges, in either direction, from the entity. -/
def Connected (edges : List GraphEdgeView) (a b : String) : Prop :=
  Relation.ReflTransGen (fun x y => y ∈ neighbours edges x) a b

theorem mem_related_recomputeReachability_iff : node ∈ (recomputeReachability graph).related ↔
      node ∈ graph.related ∧ Connected graph.edges graph.seed.name node.name := by
  unfold recomputeReachability
  split_ifs with hempty
  · simp [hempty.1]
  · have hclosed : ∀ x ∈ vertices graph.seed.name graph.edges, ∀ y ∈ neighbours graph.edges x,
        y ∈ vertices graph.seed.name graph.edges := by
      intro x _ y hy
      obtain ⟨e, he, ⟨-, rfl⟩ | ⟨-, rfl⟩⟩ := mem_neighbours_iff.1 hy
      all_goals exact mem_cons_of_mem _ (mem_flatMap.2 ⟨e, he, by simp⟩)
    simp only [mem_filter, decide_eq_true_eq]
    rw [Bfs.mem_search_iff hclosed mem_cons_self]
    rfl

@[simp] theorem seed_recomputeReachability : (recomputeReachability graph).seed = graph.seed := by
  unfold recomputeReachability
  split_ifs <;> rfl

end Reachability

/-! ### What is kept -/

section Kept

variable {watermarks : Watermarks} {graph graph' : GraphResultView}

/-- The source is mapped, and the version, if there is one, is at most its watermark. -/
def Pinned (watermarks : Watermarks) (source : String) (version : Option ℤ) : Prop :=
  ∃ watermark, watermarks.get? source = some watermark ∧ ∀ v, version = some v → v ≤ watermark

theorem within_iff {version : Option ℤ} {watermark : ℤ} :
    within version watermark = true ↔ ∀ v, version = some v → v ≤ watermark := by
  cases version <;> simp [within]

theorem pinned_of_keepsHit {hit : SearchHit} (h : keepsHit watermarks true hit = true) :
    hit.appliedVersion = none ∨ Pinned watermarks hit.sourceId.str hit.appliedVersion := by
  unfold keepsHit at h
  split at h
  case h_1 hget => exact .inl (by simpa using h)
  case h_2 watermark hget => exact .inr ⟨watermark, hget, within_iff.1 h⟩

theorem pinned_of_keepsNode {node : EntityNodeView} (hne : watermarks.items ≠ [])
    (h : keepsNode watermarks true node = true) :
    Pinned watermarks node.source node.version := by
  unfold keepsNode at h
  split at h
  case h_1 watermark hget => exact ⟨watermark, hget, within_iff.1 h⟩
  case h_2 hget => simp [hne] at h

theorem seed_of_filter {strictEpoch : Bool}
    (h : applyGraphWatermarkFilter graph watermarks strictEpoch = (graph', false)) :
    graph'.seed = graph.seed ∧ seedAhead watermarks graph.seed = false := by
  simp only [applyGraphWatermarkFilter] at h
  split_ifs at h with hahead hexcluded
  · cases h
  · cases h
    exact ⟨rfl, by simpa using hahead⟩
  · cases h
    exact ⟨by simp, by simpa using hahead⟩

theorem keepsNode_of_filter {strictEpoch : Bool} {node : EntityNodeView}
    (h : applyGraphWatermarkFilter graph watermarks strictEpoch = (graph', false))
    (hnode : node ∈ graph'.related) : keepsNode watermarks strictEpoch node = true := by
  simp only [applyGraphWatermarkFilter] at h
  split_ifs at h with hahead hexcluded
  · cases h
  · cases h
    exact (mem_filter.1 hnode).2
  · cases h
    exact (mem_filter.1 (mem_related_recomputeReachability_iff.1 hnode).1).2

theorem related_of_filter {strictEpoch : Bool}
    (h : applyGraphWatermarkFilter graph watermarks strictEpoch = (graph', false)) :
    graph'.related ⊆ graph.related := by
  simp only [applyGraphWatermarkFilter] at h
  split_ifs at h with hahead hexcluded
  · cases h
  · cases h
    exact filter_subset_self _
  · cases h
    intro node hnode
    exact (mem_filter.1 (mem_related_recomputeReachability_iff.1 hnode).1).1

/-- Under a strict epoch: a kept hit has no version, or its source is mapped and its version is at
most the watermark; and when the map is not empty, the same holds of every kept related node, and of
a kept seed whose source is mapped. -/
theorem epoch_pinned (watermarks : Watermarks) :
    (∀ hits, ∀ hit ∈ applyWatermarkFilter hits (some watermarks) true,
      hit.appliedVersion = none ∨ Pinned watermarks hit.sourceId.str hit.appliedVersion) ∧
    (watermarks.items ≠ [] → ∀ graph graph',
      applyGraphWatermarkFilter graph watermarks true = (graph', false) →
        (∀ node ∈ graph'.related, Pinned watermarks node.source node.version) ∧
        (graph'.seed.source ∈ watermarks.keys →
          Pinned watermarks graph'.seed.source graph'.seed.version)) := by
  refine ⟨fun hits hit hmem => pinned_of_keepsHit (mem_filter.1 hmem).2,
    fun hne graph graph' h => ⟨fun node hnode => ?_, fun hmapped => ?_⟩⟩
  · exact pinned_of_keepsNode hne (keepsNode_of_filter h hnode)
  · obtain ⟨hseed, hahead⟩ := seed_of_filter h
    rw [hseed] at hmapped ⊢
    cases hget : watermarks.get? graph.seed.source with
    | none => exact absurd hmapped (Dict.get?_eq_none_iff.1 hget)
    | some watermark =>
      refine ⟨watermark, hget, within_iff.1 ?_⟩
      simpa [seedAhead, hget] using hahead

/-- A traversal whose related node is at version 5. -/
def sampleGraph : GraphResultView :=
  ⟨⟨1, "a", "s", 0, false, none⟩, [⟨2, "b", "s", 1, false, some 5⟩], [⟨"a", "b", "calls"⟩]⟩

/-- With an empty map, a node of an unmapped source is kept with its version. -/
theorem empty_map_keeps_node :
    ∃ graph', applyGraphWatermarkFilter sampleGraph .empty true = (graph', false) ∧
      ∃ node ∈ graph'.related, node.version ≠ none ∧
        ¬ Pinned .empty node.source node.version := by
  refine ⟨_, rfl, _, .head _, by simp, ?_⟩
  rintro ⟨watermark, hget, -⟩
  simp at hget

/-- With the watermark 5 of its source, the node is kept and pinned. -/
theorem epoch_pinned_sample : (Dict.empty.set "s" (5 : ℤ)).items ≠ [] ∧
      ∀ node ∈ sampleGraph.related, Pinned (Dict.empty.set "s" 5) node.source node.version := by
  have hne : (Dict.empty.set "s" (5 : ℤ)).items ≠ [] := by decide
  exact ⟨hne, ((epoch_pinned (Dict.empty.set "s" 5)).2 hne sampleGraph sampleGraph (by decide)).1⟩

end Kept

end Omniscience.Retrieval
