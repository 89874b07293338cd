import Omniscience.Lib.Trails
import Omniscience.Stores.Cypher
import Omniscience.Stores.RecursiveQuery

/-!
# The path pattern of the graph store

`Neo4jGraphStore.find_related` (`stores/neo4j/store.py`) clamps the depth, refuses an edge type that
the pattern does not allow, and matches the paths of variable length from the seed, in either
direction.  The statement has a row for each path, so that a neighbour comes once for every trail
that leads to it, and the mapper drops the neighbours without a name.

* `findRelated_of_seed` : what is reported, if there is one seed.
-/

namespace Omniscience.PathPattern

open Cypher Trails List
open RecursiveQuery (EntityNodeView GraphEdgeView GraphResultView)

/-! ### The arguments -/

/-- `_MAX_DEPTH_CEILING`. -/
def maxDepthCeiling : ℕ := 6

/-- `_clamp_depth`. -/
def clampDepth (requested : ℤ) (ceiling : ℕ) : ℕ :=
  if requested < 1 then 1 else if (ceiling : ℤ) < requested then ceiling else requested.toNat

/-- `_validate_edge_types`. -/
def validateEdgeTypes (edgeTypes : Option (List String)) : Except Exc (Option (List String)) :=
  match edgeTypes with
  | none => .ok none
  | some types =>
    match types.find? fun value => !Neo4j.isValidEdgeType value with
    | some value => .error ⟨.valueError, "invalid_edge_type:" ++ value⟩
    | none => .ok (some types)

/-! ### The statement -/

/-- The condition on the relationships; a filter without types is left out. -/
def follows (workspaceId : Uuid) (edgeTypes : Option (List String)) (r : Arc Rel) : Bool :=
  r.data.workspaceId = some workspaceId &&
    match edgeTypes with
    | none | some [] => true
    | some types => r.data.edgeType.any fun edgeType => types.contains edgeType

/-- The paths of one to `maxDepth` relationships. -/
def paths (g : Graph) (seed maxDepth : ℕ) : List (List ℕ × ℕ) :=
  (List.range maxDepth).flatMap fun n => trails g.rels seed (n + 1)

/-- A match of the pattern: the path, and the neighbour at its end. -/
structure Match where
  rels : List ℕ
  neighbour : Node

/-- The rows of `OPTIONAL MATCH … WHERE`. -/
def matchPaths (g : Graph) (workspaceId : Uuid) (edgeTypes : Option (List String))
    (maxDepth seed : ℕ) : List Match :=
  (paths g seed maxDepth).filterMap fun path =>
    (g.nodes.get? path.2).bind fun n =>
      if all g.rels (follows workspaceId edgeTypes) path.1 && n.isIn .entity workspaceId &&
        path.2 ≠ seed
      then some ⟨path.1, n⟩ else none

/-- The last relationship of the path. -/
def Match.last (g : Graph) (m : Match) : Option (Arc Rel) := m.rels.head?.bind fun k => g.rels[k]?

/-- The nodes that match `seed`. -/
def matchSeeds (g : Graph) (workspaceId : Uuid) (entityName : String) : List (ℕ × Node) :=
  g.nodes.items.filter fun item =>
    item.2.isIn .entity workspaceId && item.2.name = some entityName

/-- The columns that `RETURN` groups the rows by. -/
structure SeedColumns where
  id : Option Uuid
  name : Option String
  kind : Option String
  sourceId : Option String
  validFrom : Option Time
  validTo : Option Time
  recordedAt : Option Time
  metadata : Option String
  deriving DecidableEq

def seedColumns (n : Node) : SeedColumns :=
  ⟨n.id, n.name, n.kind, n.sourceId, n.validFrom, n.validTo, n.recordedAt, n.metadata⟩

/-! ### The mappers -/

/-- The text is there and not empty. -/
def isNamed (name : Option String) : Bool := name.any (· ≠ "")

/-- `uuid.UUID(str(value))`. -/
def uuidOfId (id : Option Uuid) : Except Exc Uuid :=
  match id with
  | some id => .ok id
  | none => .error ⟨.valueError, "badly formed hexadecimal UUID string"⟩

/-- The view of a node; what is missing is shown by `str`, and the chunk's text is never written. -/
def nodeView (id : Uuid) (n : Node) (depth : ℕ) (edgeType : Option String) : EntityNodeView where
  id := id
  name := n.name.getD "None"
  kind := n.kind.getD "None"
  source := n.sourceId.getD "None"
  chunkText := none
  depth := depth
  edgeType := edgeType.filter (· ≠ "")

/-- `_neighbour_to_view`. -/
def neighbourToView (g : Graph) (m : Match) : Except Exc EntityNodeView := do
  let id ← uuidOfId m.neighbour.id
  return nodeView id m.neighbour m.rels.length ((m.last g).bind fun r => r.data.edgeType)

/-- `_edge_tuple_to_view`, unless an end has no name. -/
def edgeTupleToView (g : Graph) (m : Match) : Option GraphEdgeView :=
  (m.last g).bind fun r =>
    let startName := (g.nodes.get? r.source).bind Node.name
    let endName := (g.nodes.get? r.target).bind Node.name
    if isNamed startName && isNamed endName then
      some ⟨startName.getD "None", endName.getD "None", r.data.edgeType.getD "None"⟩
    else none

/-- `_rows_to_graph_result` of the first row. -/
def rowToGraphResult (g : Graph) (seed : Node) (neighbours : List Match) :
    Except Exc GraphResultView := do
  let id ← uuidOfId seed.id
  let related ← (neighbours.filter fun m => isNamed m.neighbour.name).mapM (neighbourToView g)
  return ⟨nodeView id seed 0 none, related, neighbours.filterMap (edgeTupleToView g)⟩

/-- `Neo4jGraphStore.find_related` and `traverse`, without `as_of`. -/
def findRelated (g : Graph) (entityName : String) (workspaceId : Uuid) (maxDepth : ℤ)
    (edgeTypes : Option (List String)) : Except Exc GraphResultView := do
  let clamped := clampDepth maxDepth maxDepthCeiling
  let validatedTypes ← validateEdgeTypes edgeTypes
  match matchSeeds g workspaceId entityName with
  | [] => .error ⟨.valueError, "entity_not_found:" ++ entityName⟩
  | seed :: others =>
    let group := (seed :: others).filter fun item => seedColumns item.2 = seedColumns seed.2
    rowToGraphResult g seed.2
      (group.flatMap fun item => matchPaths g workspaceId validatedTypes clamped item.1)

/-! ### What is reported -/

variable {g : Graph} {workspaceId w : Uuid} {edgeTypes : Option (List String)} {maxDepth : ℤ}
  {entityName : String}

theorem clampDepth_eq {requested : ℤ} {ceiling : ℕ} (h : 1 ≤ requested) :
    clampDepth requested ceiling = (min requested ceiling).toNat := by
  unfold clampDepth
  rw [if_neg (by omega)]
  split_ifs <;> omega

theorem validateEdgeTypes_of_valid
    (h : ∀ types ∈ edgeTypes, ∀ value ∈ types, Neo4j.isValidEdgeType value = true) :
    validateEdgeTypes edgeTypes = .ok edgeTypes := by
  cases edgeTypes with
  | none => rfl
  | some types =>
    have hnone : types.find? (fun value => !Neo4j.isValidEdgeType value) = none := by
      rw [List.find?_eq_none]
      intro value hvalue
      simp [h types rfl value hvalue]
    simp only [validateEdgeTypes, hnone]

theorem findRelated_of_invalid
    (h : ∃ types ∈ edgeTypes, ∃ value ∈ types, Neo4j.isValidEdgeType value = false) :
    ∃ value, findRelated g entityName w maxDepth edgeTypes =
      .error ⟨.valueError, "invalid_edge_type:" ++ value⟩ := by
  obtain ⟨types, rfl, value, hmem, hinvalid⟩ := h
  obtain ⟨first, hfirst⟩ : ∃ first,
      types.find? (fun value => !Neo4j.isValidEdgeType value) = some first :=
    Option.isSome_iff_exists.1 (List.find?_isSome.2 ⟨value, hmem, by simp [hinvalid]⟩)
  refine ⟨first, ?_⟩
  simp only [findRelated, validateEdgeTypes, hfirst]
  rfl

theorem mem_paths_iff {seed depth : ℕ} {path : List ℕ} {j : ℕ} : (path, j) ∈ paths g seed depth ↔
      path ≠ [] ∧ path.length ≤ depth ∧ (path, j) ∈ trails g.rels seed path.length := by
  simp only [paths, mem_flatMap, mem_range]
  constructor
  · rintro ⟨n, hn, htrail⟩
    have hlength := length_of_mem_trails htrail
    rw [hlength]
    exact ⟨fun hnil => by simp [hnil] at hlength, hn, htrail⟩
  · rintro ⟨hne, hle, htrail⟩
    obtain ⟨n, hn⟩ := Nat.exists_eq_succ_of_ne_zero (length_pos_iff.2 hne).ne'
    exact ⟨n, by omega, by rwa [hn] at htrail⟩

theorem mem_matchPaths_iff {seed depth : ℕ} {path : List ℕ} {n : Node} :
    (⟨path, n⟩ : Match) ∈ matchPaths g w edgeTypes depth seed ↔
      ∃ j, (path, j) ∈ paths g seed depth ∧ g.nodes.get? j = some n ∧
        all g.rels (follows w edgeTypes) path = true ∧
        n.isIn .entity w = true ∧ j ≠ seed := by
  simp only [matchPaths, mem_filterMap, Option.bind_eq_some_iff]
  constructor
  · rintro ⟨⟨path', j⟩, hpath, n', hget, heq⟩
    split_ifs at heq with hcond
    obtain ⟨rfl, rfl⟩ := Match.mk.inj (Option.some.inj heq)
    simp only [Bool.and_eq_true, decide_eq_true_eq] at hcond
    exact ⟨j, hpath, hget, hcond.1.1, hcond.1.2, hcond.2⟩
  · rintro ⟨j, hpath, hget, hall, hin, hne⟩
    exact ⟨(path, j), hpath, n, hget, by simp [hall, hin, hne]⟩

theorem findRelated_of_seed (maxDepth : ℤ) {seed : ℕ × Node} {seedId : Uuid}
    (hseeds : matchSeeds g w entityName = [seed]) (hid : seed.2.id = some seedId)
    (hids : ∀ i n, g.nodes.get? i = some n → n.isIn .entity w = true →
      ∃ id, n.id = some id)
    (hvalid : ∀ types ∈ edgeTypes, ∀ value ∈ types, Neo4j.isValidEdgeType value = true) :
    ∃ result, findRelated g entityName w maxDepth edgeTypes = .ok result ∧
      ∀ v d, (v, d) ∈ result.report ↔ ∃ path j n,
        (path, j) ∈ paths g seed.1 (clampDepth maxDepth maxDepthCeiling) ∧
        g.nodes.get? j = some n ∧ all g.rels (follows w edgeTypes) path = true ∧
        n.isIn .entity w = true ∧ j ≠ seed.1 ∧ isNamed n.name = true ∧
        n.id = some v ∧ path.length = d := by
  let depth := clampDepth maxDepth maxDepthCeiling
  let matched := matchPaths g w edgeTypes depth seed.1
  let view (m : Match) : EntityNodeView :=
    nodeView (m.neighbour.id.getD 0) m.neighbour m.rels.length
      ((m.last g).bind fun r => r.data.edgeType)
  have hview : ∀ m ∈ matched.filter fun m => isNamed m.neighbour.name,
      neighbourToView g m = .ok (view m) := by
    intro m hm
    obtain ⟨j, -, hget, -, hin, -⟩ := mem_matchPaths_iff.1 (mem_filter.1 hm).1
    obtain ⟨id, hsome⟩ := hids j m.neighbour hget hin
    unfold neighbourToView uuidOfId
    simp only [view]
    rw [hsome]
    rfl
  have hrow : rowToGraphResult g seed.2 matched = .ok ⟨nodeView seedId seed.2 0 none,
      (matched.filter fun m => isNamed m.neighbour.name).map view,
      matched.filterMap (edgeTupleToView g)⟩ := by
    unfold rowToGraphResult uuidOfId
    rw [hid, mapM_eq_ok hview]
    rfl
  have hgroup : ([seed].filter fun item => seedColumns item.2 = seedColumns seed.2) = [seed] := by
    simp
  have hresult : findRelated g entityName w maxDepth edgeTypes =
      rowToGraphResult g seed.2 matched := by
    unfold findRelated
    rw [validateEdgeTypes_of_valid hvalid, ok_bind, hseeds]
    simp only [hgroup, flatMap_singleton]
    rfl
  refine ⟨_, hresult.trans hrow, fun v d => ?_⟩
  simp only [GraphResultView.report, map_map, mem_map, mem_filter]
  constructor
  · rintro ⟨⟨path, n⟩, ⟨hmatch, hnamed⟩, heq⟩
    obtain ⟨j, hpath, hget, hall, hin, hne⟩ := mem_matchPaths_iff.1 hmatch
    obtain ⟨id, hsome⟩ := hids j n hget hin
    obtain ⟨hv, hd⟩ := Prod.mk.inj heq
    have hv : n.id.getD 0 = v := hv
    rw [hsome, Option.getD_some] at hv
    exact ⟨path, j, n, hpath, hget, hall, hin, hne, hnamed, hv ▸ hsome, hd⟩
  · rintro ⟨path, j, n, hpath, hget, hall, hin, hne, hnamed, hsome, rfl⟩
    refine ⟨⟨path, n⟩, ⟨mem_matchPaths_iff.2 ⟨j, hpath, hget, hall, hin, hne⟩, hnamed⟩, ?_⟩
    show (n.id.getD 0, path.length) = (v, path.length)
    rw [hsome, Option.getD_some]

end Omniscience.PathPattern
