import Omniscience.Base.Uuid
import Omniscience.Lib.Table
import Omniscience.Lib.Worklist

/-!
# Graph queries on the ledger

`GraphQueryService.get_related` (`retrieval/graph_query.py`) looks a seed entity up by its name and
goes breadth-first through its edges.  Entities and edges carry no workspace: each query joins the
source of the entity it reads, whose `tenant_id` has to be the workspace of the caller or null.

Queries without an order list the rows as they lie in the tables; any fixed order `rank` of the
primary keys will do.

* `turn_simulates` : the loop is a search with a work list over the neighbours that are joined.
* `frontier_traverse` : the loop ends.
* `reports_traverse` : what it has found are the distances from the seed.
-/

namespace Omniscience.GraphQuery

open List

/-! ### The tables -/

/-- A row of `sources`. -/
structure Source where
  id : Uuid
  tenantId : Option Uuid
  deriving DecidableEq

/-- A row of `entities`. -/
structure Entity where
  id : Uuid
  sourceId : Uuid
  entityType : String
  name : String
  displayName : String
  chunkId : Option Uuid
  deriving DecidableEq

/-- A row of `edges`. -/
structure Edge where
  id : Uuid
  sourceEntityId : Uuid
  targetEntityId : Uuid
  edgeType : String
  deriving DecidableEq

/-- A row of `chunks`. -/
structure Chunk where
  id : Uuid
  text : String
  deriving DecidableEq

/-- The tables that the traversals read; `id` is the primary key of each. -/
structure Database (rank : Uuid → ℕ) where
  sources : Table fun source : Source => rank source.id
  entities : Table fun entity : Entity => rank entity.id
  edges : Table fun edge : Edge => rank edge.id
  chunks : Table fun chunk : Chunk => rank chunk.id

/-! ### Results -/

structure EntityNode where
  name : String
  kind : String
  source : String
  chunkText : Option String
  depth : ℕ := 0
  edgeType : Option String := none
  deriving DecidableEq

structure EdgeResult where
  fromEntity : String
  toEntity : String
  edgeType : String
  deriving DecidableEq

structure GraphResult where
  seed : EntityNode
  related : List EntityNode
  edges : List EdgeResult
  deriving DecidableEq

/-! ### The queries -/

variable {rank : Uuid → ℕ}

/-- `_workspace_predicate`. -/
def workspacePredicate (workspaceId : Uuid) (source : Source) : Bool :=
  source.tenantId = some workspaceId || source.tenantId = none

/-- The entity is joined with a source that satisfies the condition. -/
def joinsSource (db : Database rank) (condition : Source → Bool) (entity : Entity) : Bool :=
  db.sources.rows.any fun source => source.id = entity.sourceId && condition source

/-- `_fetch_entity_by_name`. -/
def fetchEntityByName (db : Database rank) (workspaceId : Uuid) (name : String) : Option Entity :=
  (db.entities.rows.filter fun entity => entity.name = name &&
    joinsSource db (workspacePredicate workspaceId) entity).head?

/-- `_fetch_entity_by_id`. -/
def fetchEntityById (db : Database rank) (workspaceId : Uuid) (entityId : Uuid) : Option Entity :=
  (db.entities.rows.filter fun entity => entity.id = entityId &&
    joinsSource db (workspacePredicate workspaceId) entity).head?

/-- `_fetch_chunk_text`. -/
def fetchChunkText (db : Database rank) (chunkId : Option Uuid) : Option String :=
  chunkId.bind fun id =>
    (db.chunks.rows.filter fun chunk => chunk.id = id).head?.map Chunk.text

/-- `if edge_types: query.where(Edge.edge_type.in_(edge_types))`. -/
def hasEdgeType (edgeTypes : Option (List String)) (edge : Edge) : Bool :=
  match edgeTypes with
  | none | some [] => true
  | some types => edge.edgeType ∈ types

/-- The edges at an entity, each joined with the entity at its far end. -/
def joinFar (db : Database rank) (condition : Source → Bool) (edgeTypes : Option (List String))
    (near far : Edge → Uuid) (entityId : Uuid) : List (Edge × Entity) :=
  (db.edges.rows.filter fun edge => near edge = entityId && hasEdgeType edgeTypes edge).flatMap
    fun edge => (db.entities.rows.filter fun entity => entity.id = far edge &&
      joinsSource db condition entity).map fun entity => (edge, entity)

/-- `_fetch_adjacent`. -/
def fetchAdjacent (db : Database rank) (workspaceId : Uuid) (edgeTypes : Option (List String))
    (entityId : Uuid) : List (Edge × Entity) :=
  joinFar db (workspacePredicate workspaceId) edgeTypes Edge.sourceEntityId Edge.targetEntityId
      entityId ++
    joinFar db (workspacePredicate workspaceId) edgeTypes Edge.targetEntityId Edge.sourceEntityId
      entityId

/-! ### The traversal -/

/-- The variables of the loop in `get_related`. -/
structure Traversal where
  visitedIds : List Uuid
  frontier : List (Uuid × ℕ × Option String)
  relatedNodes : List EntityNode
  resultEdges : List EdgeResult

/-- The edge is listed, unless one with the same names and type is. -/
def addEdge (edge : EdgeResult) (edges : List EdgeResult) : List EdgeResult :=
  if edge ∈ edges then edges else edges ++ [edge]

/-- The node of an entity that is found. -/
def entityNode (db : Database rank) (entity : Entity) (depth : ℕ) (edgeType : Option String) :
    EntityNode where
  name := entity.name
  kind := entity.entityType
  source := entity.sourceId.str
  chunkText := fetchChunkText db entity.chunkId
  depth := depth
  edgeType := edgeType

/-- `if neighbor_id not in visited_ids:` the neighbour is listed and put into the frontier. -/
def visitNeighbor (db : Database rank) (depth : ℕ) (edge : Edge) (neighbor : Entity)
    (t : Traversal) : Traversal :=
  if neighbor.id ∈ t.visitedIds then t
  else
    { t with
      visitedIds := t.visitedIds ++ [neighbor.id]
      relatedNodes := t.relatedNodes ++ [entityNode db neighbor depth (some edge.edgeType)]
      frontier := t.frontier ++ [(neighbor.id, depth, some edge.edgeType)] }

/-- The body of `for edge, neighbor_entity in next_hops`. -/
def visitHop (db : Database rank) (workspaceId : Uuid) (depth : ℕ) (t : Traversal)
    (hop : Edge × Entity) : Traversal :=
  match fetchEntityById db workspaceId hop.1.sourceEntityId,
    fetchEntityById db workspaceId hop.1.targetEntityId with
  | some source, some target =>
    visitNeighbor db depth hop.1 hop.2
      { t with
        resultEdges := addEdge ⟨source.name, target.name, hop.1.edgeType⟩ t.resultEdges }
  | _, _ => t

/-- One turn of `while frontier`; without a frontier the loop has ended. -/
def turn (db : Database rank) (workspaceId : Uuid) (maxDepth : ℕ)
    (edgeTypes : Option (List String)) (t : Traversal) : Traversal :=
  match t.frontier with
  | [] => t
  | (currentId, currentDepth, _) :: rest =>
    if maxDepth ≤ currentDepth then { t with frontier := rest }
    else
      (fetchAdjacent db workspaceId edgeTypes currentId).foldl
        (visitHop db workspaceId (currentDepth + 1)) { t with frontier := rest }

/-- The variables before the loop. -/
def initial (seed : Entity) : Traversal where
  visitedIds := [seed.id]
  frontier := [(seed.id, 0, none)]
  relatedNodes := []
  resultEdges := []

/-- The loop of `get_related`.  Each entity enters the frontier once at most, so that no more turns
are needed than there are entities. -/
def traverse (db : Database rank) (workspaceId : Uuid) (maxDepth : ℕ)
    (edgeTypes : Option (List String)) (seed : Entity) : Traversal :=
  (turn db workspaceId maxDepth edgeTypes)^[db.entities.rows.length + 1] (initial seed)

/-- `GraphQueryService.get_related`; the error is the text of the `ValueError`. -/
def getRelated (db : Database rank) (entityName : String) (workspaceId : Uuid) (maxDepth : ℤ)
    (edgeTypes : Option (List String)) : Except String GraphResult :=
  match fetchEntityByName db workspaceId entityName with
  | none => .error ("entity_not_found:" ++ entityName)
  | some seed =>
    let t := traverse db workspaceId (max 1 maxDepth).toNat edgeTypes seed
    .ok ⟨entityNode db seed 0 none, t.relatedNodes, t.resultEdges⟩

/-! ### The loop is a search -/

/-- Where an edge leads to, if both of its ends are resolved. -/
def resolvedHop (db : Database rank) (workspaceId : Uuid) (hop : Edge × Entity) : Option Uuid :=
  match fetchEntityById db workspaceId hop.1.sourceEntityId,
    fetchEntityById db workspaceId hop.1.targetEntityId with
  | some _, some _ => some hop.2.id
  | _, _ => none

/-- The neighbours that an expansion goes through. -/
def neighbors (db : Database rank) (workspaceId : Uuid) (edgeTypes : Option (List String))
    (entityId : Uuid) : List Uuid :=
  (fetchAdjacent db workspaceId edgeTypes entityId).filterMap (resolvedHop db workspaceId)

/-- The node describes an entity that is found at a depth. -/
def Describes (db : Database rank) (node : EntityNode) (x : Uuid × ℕ) : Prop :=
  ∃ entity ∈ db.entities.rows, ∃ edgeType,
    entity.id = x.1 ∧ node = entityNode db entity x.2 edgeType

/-- The variables of the loop are those of a search. -/
structure Simulates (db : Database rank) (seed : EntityNode) (t : Traversal)
    (s : Worklist.Search Uuid) : Prop where
  visited : t.visitedIds = s.found.map Prod.fst
  frontier : t.frontier.map (fun x => (x.1, x.2.1)) = s.queue
  related : List.Forall₂ (Describes db) (seed :: t.relatedNodes) s.found

variable {db : Database rank} {workspaceId w : Uuid} {edgeTypes : Option (List String)}
  {maxDepth depth : ℕ} {seed : EntityNode} {t : Traversal} {s : Worklist.Search Uuid}

theorem turn_nil (h : t.frontier = []) : turn db w maxDepth edgeTypes t = t := by
  rw [turn, h]

theorem turn_of_le {x : Uuid × ℕ × Option String} {rest : List (Uuid × ℕ × Option String)}
    (h : t.frontier = x :: rest) (hk : maxDepth ≤ x.2.1) :
    turn db w maxDepth edgeTypes t = { t with frontier := rest } := by
  rw [turn, h]
  exact if_pos hk

theorem turn_of_lt {x : Uuid × ℕ × Option String} {rest : List (Uuid × ℕ × Option String)}
    (h : t.frontier = x :: rest) (hk : x.2.1 < maxDepth) :
    turn db w maxDepth edgeTypes t =
      (fetchAdjacent db w edgeTypes x.1).foldl (visitHop db w (x.2.1 + 1))
        { t with frontier := rest } := by
  rw [turn, h]
  exact if_neg (not_le.2 hk)

variable {entity : Entity}

theorem mem_joinFar_iff {condition : Source → Bool} {near far : Edge → Uuid} {entityId : Uuid}
    {edge : Edge} : (edge, entity) ∈ joinFar db condition edgeTypes near far entityId ↔
      edge ∈ db.edges.rows ∧ near edge = entityId ∧ hasEdgeType edgeTypes edge = true ∧
        entity ∈ db.entities.rows ∧ entity.id = far edge ∧
        joinsSource db condition entity = true := by
  simp only [joinFar, mem_flatMap, mem_filter, mem_map, Prod.mk.injEq,
    Bool.and_eq_true, decide_eq_true_eq]
  constructor
  · rintro ⟨e, ⟨he, hnear, htype⟩, x, ⟨hx, hfar, hjoin⟩, rfl, rfl⟩
    exact ⟨he, hnear, htype, hx, hfar, hjoin⟩
  · rintro ⟨he, hnear, htype, hx, hfar, hjoin⟩
    exact ⟨edge, ⟨he, hnear, htype⟩, entity, ⟨hx, hfar, hjoin⟩, rfl, rfl⟩

theorem mem_of_mem_fetchAdjacent {entityId : Uuid} {hop : Edge × Entity}
    (h : hop ∈ fetchAdjacent db w edgeTypes entityId) :
    hop.2 ∈ db.entities.rows ∧
      joinsSource db (workspacePredicate w) hop.2 = true := by
  obtain h | h := mem_append.1 h
  · obtain ⟨-, -, -, hmem, -, hjoin⟩ := mem_joinFar_iff.1 h
    exact ⟨hmem, hjoin⟩
  · obtain ⟨-, -, -, hmem, -, hjoin⟩ := mem_joinFar_iff.1 h
    exact ⟨hmem, hjoin⟩

theorem visitNeighbor_simulates {edge : Edge} {neighbor : Entity}
    (hmem : neighbor ∈ db.entities.rows) (h : Simulates db seed t s) :
    Simulates db seed (visitNeighbor db depth edge neighbor t)
      (Worklist.discover depth s neighbor.id) := by
  by_cases hvisited : neighbor.id ∈ t.visitedIds
  · rw [visitNeighbor, if_pos hvisited, Worklist.discover_of_mem (h.visited ▸ hvisited)]
    exact h
  · rw [visitNeighbor, if_neg hvisited, Worklist.discover_of_not_mem (h.visited ▸ hvisited)]
    refine ⟨by simp [h.visited], by simp [h.frontier], ?_⟩
    have hnode : Describes db (entityNode db neighbor depth (some edge.edgeType))
        (neighbor.id, depth) := ⟨neighbor, hmem, some edge.edgeType, rfl, rfl⟩
    exact rel_append h.related (.cons hnode .nil)

theorem visitHop_simulates (w : Uuid) (depth : ℕ) {hop : Edge × Entity}
    (hmem : hop.2 ∈ db.entities.rows) (h : Simulates db seed t s) :
    Simulates db seed (visitHop db w depth t hop)
      ((resolvedHop db w hop).elim s (Worklist.discover depth s)) := by
  unfold visitHop resolvedHop
  cases fetchEntityById db w hop.1.sourceEntityId with
  | none => exact h
  | some source =>
    cases fetchEntityById db w hop.1.targetEntityId with
    | none => exact h
    | some target => exact visitNeighbor_simulates hmem ⟨h.visited, h.frontier, h.related⟩

theorem foldl_visitHop_simulates {hops : List (Edge × Entity)}
    (hmem : ∀ hop ∈ hops, hop.2 ∈ db.entities.rows) (h : Simulates db seed t s) :
    Simulates db seed (hops.foldl (visitHop db workspaceId depth) t)
      ((hops.filterMap (resolvedHop db workspaceId)).foldl (Worklist.discover depth) s) := by
  induction hops generalizing t s with
  | nil => exact h
  | cons hop hops ih =>
    have hhead := visitHop_simulates workspaceId depth (hmem hop mem_cons_self) h
    have hrest := ih (fun x hx => hmem x (mem_cons_of_mem _ hx)) hhead
    rw [foldl_cons, filterMap_cons]
    cases hresolved : resolvedHop db workspaceId hop with
    | none => simpa [hresolved] using hrest
    | some w => simpa [hresolved] using hrest

theorem turn_simulates (h : Simulates db seed t s) :
    Simulates db seed (turn db w maxDepth edgeTypes t)
      (Worklist.turn (neighbors db w edgeTypes) maxDepth s) := by
  cases hfrontier : t.frontier with
  | nil =>
    have hqueue : s.queue = [] := by rw [← h.frontier, hfrontier]; rfl
    rw [turn_nil hfrontier, Worklist.turn_nil hqueue]
    exact h
  | cons x rest =>
    have hqueue : s.queue = (x.1, x.2.1) :: rest.map fun x => (x.1, x.2.1) := by
      rw [← h.frontier, hfrontier]
      rfl
    have hpop : Simulates db seed { t with frontier := rest }
        { s with queue := rest.map fun x => (x.1, x.2.1) } := ⟨h.visited, rfl, h.related⟩
    by_cases hk : maxDepth ≤ x.2.1
    · rw [turn_of_le hfrontier hk, Worklist.turn_of_le hqueue hk]
      exact hpop
    · rw [turn_of_lt hfrontier (not_le.1 hk), Worklist.turn_of_lt hqueue (not_le.1 hk)]
      exact foldl_visitHop_simulates (fun hop hhop => (mem_of_mem_fetchAdjacent hhop).1) hpop

theorem iterate_turn_simulates (w : Uuid) (maxDepth : ℕ)
    (edgeTypes : Option (List String)) (n : ℕ) (h : Simulates db seed t s) :
    Simulates db seed ((turn db w maxDepth edgeTypes)^[n] t)
      ((Worklist.turn (neighbors db w edgeTypes) maxDepth)^[n] s) := by
  induction n generalizing t s with
  | zero => exact h
  | succ n ih =>
    rw [Function.iterate_succ_apply, Function.iterate_succ_apply]
    exact ih (turn_simulates h)

theorem initial_simulates (h : entity ∈ db.entities.rows) :
    Simulates db (entityNode db entity 0 none) (initial entity) (Worklist.start entity.id) :=
  ⟨rfl, rfl, .cons ⟨entity, h, none, rfl, rfl⟩ .nil⟩

theorem mem_of_mem_neighbors {entityId : Uuid} :
    ∀ w ∈ neighbors db workspaceId edgeTypes entityId, w ∈ db.entities.rows.map Entity.id := by
  intro w hw
  obtain ⟨hop, hhop, hresolved⟩ := mem_filterMap.1 hw
  obtain rfl : hop.2.id = w := by
    unfold resolvedHop at hresolved
    split at hresolved
    · exact Option.some.inj hresolved
    · cases hresolved
  exact mem_map_of_mem (mem_of_mem_fetchAdjacent hhop).1

theorem frontier_traverse (h : entity ∈ db.entities.rows) :
    (traverse db w maxDepth edgeTypes entity).frontier = [] := by
  have hsim := iterate_turn_simulates w maxDepth edgeTypes (db.entities.rows.length + 1)
    (initial_simulates h)
  have hlength : (db.entities.rows.map Entity.id).length + 1 ≤ db.entities.rows.length + 1 := by
    rw [length_map]
  have hqueue : ((Worklist.turn (neighbors db w edgeTypes)
      maxDepth)^[db.entities.rows.length + 1] (Worklist.start entity.id)).queue = [] :=
    Worklist.queue_start_iterate entity.id (fun _ => mem_of_mem_neighbors) hlength
  have hfrontier := hsim.frontier
  rw [hqueue] at hfrontier
  exact map_eq_nil_iff.1 hfrontier

/-! ### What the loop finds -/

/-- The ids of the related entities, as they have been marked, each with the depth of its node. -/
def Traversal.report (t : Traversal) : List (Uuid × ℕ) :=
  t.visitedIds.tail.zip (t.relatedNodes.map EntityNode.depth)

theorem map_depth_of_describes {nodes : List EntityNode} {found : List (Uuid × ℕ)}
    (h : List.Forall₂ (Describes db) nodes found) :
    nodes.map EntityNode.depth = found.map Prod.snd := by
  induction h with
  | nil => rfl
  | cons hnode _ ih =>
    obtain ⟨entity, -, edgeType, -, rfl⟩ := hnode
    rw [map_cons, map_cons, ih]
    rfl

theorem Simulates.report_eq (h : Simulates db seed t s) :
    t.report = s.found.tail ∧ List.Forall₂ (Describes db) t.relatedNodes s.found.tail := by
  obtain ⟨x, later, hfound⟩ : ∃ x later, s.found = x :: later := by
    cases hs : s.found with
    | nil =>
      have hrelated := h.related
      rw [hs] at hrelated
      cases hrelated
    | cons x later => exact ⟨x, later, rfl⟩
  have hrelated := h.related
  have hvisited := h.visited
  rw [hfound] at hrelated hvisited ⊢
  have htail : List.Forall₂ (Describes db) t.relatedNodes later := by
    cases hrelated with
    | cons _ htail => exact htail
  refine ⟨?_, htail⟩
  rw [Traversal.report, hvisited, map_depth_of_describes htail]
  simp [zip_map']

theorem reports_traverse (w : Uuid) (maxDepth : ℕ) (edgeTypes : Option (List String))
    (h : entity ∈ db.entities.rows) :
    Reports (fun a b => b ∈ neighbors db w edgeTypes a) entity.id maxDepth
        (fun _ => True) (traverse db w maxDepth edgeTypes entity).report ∧
      List.Forall₂ (Describes db) (traverse db w maxDepth edgeTypes entity).relatedNodes
        (traverse db w maxDepth edgeTypes entity).report := by
  have hsim := iterate_turn_simulates w maxDepth edgeTypes (db.entities.rows.length + 1)
    (initial_simulates h)
  have hlength : (db.entities.rows.map Entity.id).length + 1 ≤ db.entities.rows.length + 1 := by
    rw [length_map]
  obtain ⟨hreport, hdescribes⟩ := hsim.report_eq
  unfold traverse
  rw [hreport]
  exact ⟨Worklist.reports (fun _ => mem_of_mem_neighbors) hlength, hdescribes⟩

/-- The entities that `get_related` lists, each with its depth. -/
def relatedReport (db : Database rank) (entityName : String) (workspaceId : Uuid) (maxDepth : ℤ)
    (edgeTypes : Option (List String)) : List (Uuid × ℕ) :=
  match fetchEntityByName db workspaceId entityName with
  | none => []
  | some seed => (traverse db workspaceId (max 1 maxDepth).toNat edgeTypes seed).report

theorem getRelated_report {entityName : String}
    (h : fetchEntityByName db w entityName = some entity) (maxDepth : ℤ) :
    ∃ result, getRelated db entityName w maxDepth edgeTypes = .ok result ∧
      List.Forall₂ (Describes db) result.related
        (relatedReport db entityName w maxDepth edgeTypes) := by
  have hmem := (mem_filter.1 (List.mem_of_mem_head? h)).1
  unfold getRelated relatedReport
  rw [h]
  exact ⟨_, rfl, (reports_traverse w _ edgeTypes hmem).2⟩

end Omniscience.GraphQuery
