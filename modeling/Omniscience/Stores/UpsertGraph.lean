import Omniscience.Lib.Fold
import Omniscience.Stores.Neo4j

/-!
# Batches of the graph store

`Neo4jGraphStore.upsert_graph` writes the entities and the edges of one document.  The call is one
transaction, in four stages:

* the checkpoint of the *document* decides whether the write is stale; if not, it is advanced
  together with that of the source,
* the entities of the source that the batch does not have are taken out: deleted without
  bitemporal mode, and end-dated by a snapshot,
* the entities of the batch are merged one by one,
* its edges follow, those whose target the batch does not have by name.

`Run` are the graphs that sequences of such calls lead to.
-/

namespace Omniscience.Neo4j

open Outbox

/-- An edge of a batch: its target is given by id or by name. -/
structure BatchEdge where
  sourceEntityId : Option Uuid
  targetEntityId : Option Uuid := none
  targetName : Option String := none
  edgeType : String
  metadata : Metadata := []

/-- The arguments of `upsert_graph`.  The entities are taken into the source of the call, whatever
source they name. -/
structure GraphUpsert where
  sourceId : Uuid
  documentId : Uuid
  entities : List EntityUpsert
  edges : List BatchEdge := []
  workspaceId : Option Uuid := none
  snapshotAt : Option ℕ := none
  version : Option ℤ := none
  epoch : Option ℤ := none
  forcedReplay : Bool := false

/-- `GraphWriteResult`, without the counters of the driver. -/
structure GraphWriteResult where
  applied : Bool
  entitiesEndDated : ℕ := 0
  edgesEndDated : ℕ := 0
  skipReason : Option String := none
  entitiesSubmitted : ℕ := 0
  edgesSubmitted : ℕ := 0
  deriving DecidableEq

/-- The configuration with `_stub_entity_id`, a name-based UUID of workspace and name. -/
structure GraphConfig extends Config where
  stubEntityId : Uuid → String → Uuid

/-- A bitemporal store over `Py.sample`, for the instances of the general results. -/
def GraphConfig.sample : GraphConfig where
  toConfig := .source .sample true
  stubEntityId _ name := BitVec.ofNat 128 name.length

/-! ### The workspace and the checkpoints -/

/-- `_workspace_from_entities`. -/
def workspaceFromEntities (py : Py) : List EntityUpsert → Except Exc Uuid
  | [] => .error ⟨.valueError, "upsert_graph_empty_batch"⟩
  | head :: _ =>
    match head.metadata.lookup "workspace_id" with
    | none => .error ⟨.valueError, "upsert_graph_missing_workspace_id"⟩
    | some .null => .error ⟨.valueError, "upsert_graph_missing_workspace_id"⟩
    | some ws =>
      match Uuid.parse (py.str ws) with
      | some workspaceId => .ok workspaceId
      | none => .error ⟨.valueError, "badly formed hexadecimal UUID string"⟩

/-- The workspace of the call. -/
def GraphUpsert.workspace (py : Py) (u : GraphUpsert) : Except Exc Uuid :=
  match u.workspaceId with
  | some workspaceId => .ok workspaceId
  | none => workspaceFromEntities py u.entities

/-- The staleness test of a call; a call without a version is never stale. -/
def GraphUpsert.isStaleIn (u : GraphUpsert) (workspaceId : Uuid) (g : Graph) : Bool :=
  match u.version with
  | some version =>
    let applied := readDocumentCheckpoint g workspaceId u.sourceId.str u.documentId
    isStale version u.epoch applied.1 applied.2 u.forcedReplay
  | none => false

/-- The checkpoints of the document and of the source are advanced. -/
def GraphUpsert.advance (u : GraphUpsert) (workspaceId : Uuid) (g : Graph) : Graph :=
  match u.version with
  | some version =>
    advanceCheckpoint
      (advanceDocumentCheckpoint g workspaceId u.sourceId.str u.documentId version u.epoch)
      workspaceId u.sourceId.str version u.epoch u.forcedReplay
  | none => g

@[simp] theorem nodes_advance (u : GraphUpsert) (w : Uuid) (g : Graph) :
    (u.advance w g).nodes = g.nodes := by
  unfold GraphUpsert.advance
  split
  · rfl
  · rfl

@[simp] theorem states_advance (u : GraphUpsert) (w : Uuid) (g : Graph) :
    (u.advance w g).states = g.states := by
  unfold GraphUpsert.advance
  split
  · rfl
  · rfl

@[simp] theorem rels_advance (u : GraphUpsert) (w : Uuid) (g : Graph) :
    (u.advance w g).rels = g.rels := by
  unfold GraphUpsert.advance
  split
  · rfl
  · rfl

/-! ### Taking out the entities of a source -/

/-- The node is one of the source. -/
def Graph.isOfSource (g : Graph) (workspaceId : Uuid) (sourceId : String) (key : NodeKey) : Bool :=
  key.1 = workspaceId ∧ (g.nodes.get? key).bind Node.sourceId = some sourceId

theorem isOfSource_iff {g : Graph} {w : Uuid} {sourceId : String} {key : NodeKey} :
    g.isOfSource w sourceId key = true ↔
      key.1 = w ∧ ∃ n, g.nodes.get? key = some n ∧ n.sourceId = some sourceId := by
  simp [Graph.isOfSource, Option.bind_eq_some_iff]

/-- The relationship starts or ends at a node of the source. -/
def Graph.isIncident (g : Graph) (workspaceId : Uuid) (sourceId : String) (r : Rel) : Bool :=
  g.isOfSource workspaceId sourceId r.source || g.isOfSource workspaceId sourceId r.target

/-- `_DELETE_BY_SOURCE_CYPHER`: the nodes of the source go with their relationships. -/
def deleteBySource (workspaceId : Uuid) (sourceId : String) (g : Graph) : Graph :=
  { g with
    nodes := g.nodes.filter fun key _ => !g.isOfSource workspaceId sourceId key
    states := g.states.map fun s =>
      if g.isOfSource workspaceId sourceId s.key then { s with link := none } else s
    rels := g.rels.filter fun r => !g.isIncident workspaceId sourceId r }

/-- The node is an open one of the source that the batch does not have. -/
def Graph.isGone (g : Graph) (workspaceId : Uuid) (sourceId : String) (batchEntityIds : List Uuid)
    (key : NodeKey) : Bool :=
  g.isOfSource workspaceId sourceId key && ((g.nodes.get? key).bind Node.validTo).isNone &&
    key.2 ∉ batchEntityIds

/-- Phase A of `_END_DATE_BY_SOURCE_CYPHER`: the nodes that are gone end, each with the state that
is open together with its relationship. -/
def endDateEntities (workspaceId : Uuid) (sourceId : String) (batchEntityIds : List Uuid)
    (now : ℕ) (g : Graph) : Graph :=
  { g with
    nodes := g.nodes.map fun key n =>
      if g.isGone workspaceId sourceId batchEntityIds key then
        { n with validTo := some now, updatedAt := some now }
      else n
    states := g.states.map fun s =>
      if g.isGone workspaceId sourceId batchEntityIds s.key && s.isOpen then s.close now else s }

/-- The relationship is an open one of the workspace at a node of the source. -/
def Graph.isEndDated (g : Graph) (workspaceId : Uuid) (sourceId : String) (r : Rel) : Bool :=
  g.isIncident workspaceId sourceId r && r.workspaceId = workspaceId && r.validTo.isNone

/-- The same for the relationship that holds a state. -/
def Graph.isUnlinked (g : Graph) (workspaceId : Uuid) (sourceId : String) (s : EntityState) :
    Bool :=
  g.isOfSource workspaceId sourceId s.key &&
    s.link.any fun h => h.workspaceId = some workspaceId ∧ h.validTo = none

/-- The relationship that holds the state ends, and the state does not. -/
def EntityState.closeLink (s : EntityState) (validTo : ℕ) : EntityState :=
  { s with link := s.link.map fun h => { h with validTo := some validTo } }

/-- Phase B of `_END_DATE_BY_SOURCE_CYPHER`: every open relationship at a node of the source ends,
`HAD_STATE` among them. -/
def endDateRels (workspaceId : Uuid) (sourceId : String) (now : ℕ) (g : Graph) : Graph :=
  { g with
    states := g.states.map fun s =>
      if g.isUnlinked workspaceId sourceId s then s.closeLink now else s
    rels := g.rels.map fun r =>
      if g.isEndDated workspaceId sourceId r then r.close now else r }

/-- `_END_DATE_BY_SOURCE_CYPHER` with the counts that it returns. -/
def endDateBySource (workspaceId : Uuid) (sourceId : String) (batchEntityIds : List Uuid)
    (now : ℕ) (g : Graph) : Graph × ℕ × ℕ :=
  let closed := endDateEntities workspaceId sourceId batchEntityIds now g
  (endDateRels workspaceId sourceId now closed,
    (g.nodes.keys.filter fun key => g.isGone workspaceId sourceId batchEntityIds key).length,
    (closed.rels.filter fun r => closed.isEndDated workspaceId sourceId r).length +
      (closed.states.filter fun s => closed.isUnlinked workspaceId sourceId s).length)

variable (cfg : GraphConfig)

/-- The second stage, by mode. -/
def retire (u : GraphUpsert) (workspaceId : Uuid) (g : Graph) : Graph × ℕ × ℕ :=
  if !cfg.bitemporal then (deleteBySource workspaceId u.sourceId.str g, 0, 0)
  else match u.snapshotAt with
    | some snapshotAt =>
      endDateBySource workspaceId u.sourceId.str (u.entities.map EntityUpsert.id) snapshotAt g
    | none => (g, 0, 0)

/-! ### The entities of the batch -/

/-- The entity statement of the configuration, for an entity of the batch. -/
def writeEntity (u : GraphUpsert) (workspaceId : Uuid) (now : ℕ) (g : Graph)
    (entity : EntityUpsert) : Except Exc Graph :=
  let entity := { entity with sourceId := u.sourceId }
  if cfg.bitemporal then mergeEntityBitemporal cfg.toConfig entity workspaceId now g
  else .ok (mergeEntity cfg.toConfig entity workspaceId now g)

/-- The table from names to ids: of several entities with a name the last one counts, and a display
name only if nothing has it yet. -/
def nameToId (entities : List EntityUpsert) : Dict String Uuid :=
  entities.foldl (fun table entity =>
    let table := table.set entity.name entity.id
    if entity.displayName = "" then table else table.setDefault entity.displayName entity.id)
    .empty

/-! ### The edges of the batch -/

/-- `_edge_to_params`; `none` when an end is missing, and for a loop. -/
def edgeToParams (u : GraphUpsert) (edge : BatchEdge) : Except Exc (Option EdgeParams) :=
  let targetEntityId := match edge.targetEntityId, edge.targetName with
    | none, some name => (nameToId u.entities).get? name
    | target, _ => target
  match edge.sourceEntityId, targetEntityId with
  | some source, some target =>
    if source = target then .ok none
    else if !isValidEdgeType edge.edgeType then
      .error ⟨.valueError, "invalid_edge_type:" ++ edge.edgeType⟩
    else .ok (some ⟨source, target, u.sourceId.str, edge.edgeType, edge.metadata⟩)
  | _, _ => .ok none

/-- The entity of the workspace that has the name: rather a real one than a stub, and then the one
with the least id. -/
def findByName (workspaceId : Uuid) (name : String) (g : Graph) : Option Uuid :=
  let named := g.nodes.items.filter fun item => item.1.1 = workspaceId ∧ item.2.name = some name
  (named.argmin fun item => toLex (item.2.isStub.getD false, item.1.2.toNat)).map (·.1.2)

/-- `_UPSERT_EDGE_BY_NAME_CYPHER_TEMPLATE`: the target is found by its name or is a new stub; a
relationship of the type between the two is rewritten, open or not, or created. -/
def upsertEdgeByName (source : Uuid) (targetName edgeType sourceId : String) (metadata : Metadata)
    (workspaceId : Uuid) (now : ℕ) (g : Graph) : Graph :=
  if !g.nodes.contains (workspaceId, source) then g
  else
    let target :=
      (findByName workspaceId targetName g).getD (cfg.stubEntityId workspaceId targetName)
    let params : EdgeParams := ⟨source, target, sourceId, edgeType, metadata⟩
    let text := serialiseMetadata cfg.py metadata
    { g with
      nodes := g.nodes.setDefault (workspaceId, target)
        { name := some targetName, isStub := some true, createdAt := some now }
      rels := if g.rels.any (·.isOf params workspaceId) then
          g.rels.map fun r => if r.isOf params workspaceId then
            { r with
              updatedAt := if r.metadata ≠ text ∨ r.sourceId ≠ sourceId then some now
                else r.updatedAt
              sourceId := sourceId
              metadata := text }
          else r
        else g.rels ++ [newRel cfg.toConfig params workspaceId now] }

/-- The statement for an edge of the batch, if it has one. -/
def writeBatchEdge (u : GraphUpsert) (workspaceId : Uuid) (now : ℕ) (g : Graph) (edge : BatchEdge) :
    Except Exc Graph :=
  match edgeToParams u edge with
  | .error e => .error e
  | .ok (some params) => .ok (writeEdge cfg.toConfig params workspaceId now g)
  | .ok none =>
    match edge.targetName, edge.sourceEntityId with
    | none, _ => .ok g
    | some name, source =>
      if name = "" then .ok g
      else if !isValidEdgeType edge.edgeType then
        .error ⟨.valueError, "invalid_edge_type:" ++ edge.edgeType⟩
      else match source with
        -- the text `None` is the id of no node
        | none => .ok g
        | some source => .ok (upsertEdgeByName cfg source name edge.edgeType u.sourceId.str
            edge.metadata workspaceId now g)

/-! ### The transaction -/

/-- The stages after the guard. -/
def writeBatch (u : GraphUpsert) (workspaceId : Uuid) (now : ℕ) (g : Graph) :
    Except Exc (Graph × GraphWriteResult) :=
  let retired := retire cfg u workspaceId g
  match u.entities.foldlM (writeEntity cfg u workspaceId now) retired.1 with
  | .error e => .error e
  | .ok merged =>
    match u.edges.foldlM (writeBatchEdge cfg u workspaceId now) merged with
    | .error e => .error e
    | .ok g' =>
      .ok (g',
        { applied := true
          entitiesEndDated := retired.2.1
          edgesEndDated := retired.2.2
          entitiesSubmitted := u.entities.length
          edgesSubmitted := u.edges.length })

/-- `Neo4jGraphStore.upsert_graph`. -/
def upsertGraph (u : GraphUpsert) (now : ℕ) (g : Graph) : Except Exc (Graph × GraphWriteResult) :=
  match u.workspace cfg.py with
  | .error e => .error e
  | .ok workspaceId =>
    if u.isStaleIn workspaceId g then
      .ok (g, { applied := false, skipReason := some "stale_document_version" })
    else writeBatch cfg u workspaceId now (u.advance workspaceId g)

/-! ### What a call can do -/

section

variable {cfg} {u : GraphUpsert} {workspaceId w : Uuid} {now : ℕ} {g g' : Graph}
  {result : GraphWriteResult}

theorem writeEntity_cases {entity : EntityUpsert} (h : writeEntity cfg u w now g entity = .ok g') :
    ∃ n states,
      g' = { g with nodes := g.nodes.set (w, entity.id) n, states := states } := by
  rw [writeEntity] at h
  split at h
  · obtain ⟨n, states, rfl⟩ := mergeEntityBitemporal_cases h
    exact ⟨n, states, rfl⟩
  · cases h
    exact ⟨_, g.states, rfl⟩

theorem writeBatchEdge_cases {edge : BatchEdge} (h : writeBatchEdge cfg u w now g edge = .ok g') :
    (edgeToParams u edge = .ok none ∧ g' = g) ∨
      (∃ params, edgeToParams u edge = .ok (some params) ∧
        g' = writeEdge cfg.toConfig params w now g) ∨
      ∃ source name, edgeToParams u edge = .ok none ∧ edge.targetName = some name ∧ name ≠ "" ∧
        g' = upsertEdgeByName cfg source name edge.edgeType u.sourceId.str edge.metadata
          w now g := by
  rw [writeBatchEdge] at h
  split at h
  · cases h
  · rename_i params hparams
    cases h
    exact .inr (.inl ⟨params, hparams, rfl⟩)
  · rename_i hparams
    split at h
    · cases h
      exact .inl ⟨hparams, rfl⟩
    · rename_i name hname
      split at h
      · cases h
        exact .inl ⟨hparams, rfl⟩
      · rename_i hne
        split at h
        · cases h
        · split at h
          · cases h
            exact .inl ⟨hparams, rfl⟩
          · cases h
            exact .inr (.inr ⟨_, name, hparams, hname, hne, rfl⟩)

/-- The stages of a call that was applied. -/
inductive Applies (cfg : GraphConfig) (u : GraphUpsert) (workspaceId : Uuid) (now : ℕ)
    (g g' : Graph) : Prop
  | intro (merged : Graph)
    (entities : u.entities.foldlM (writeEntity cfg u workspaceId now)
      (retire cfg u workspaceId (u.advance workspaceId g)).1 = .ok merged)
    (edges : u.edges.foldlM (writeBatchEdge cfg u workspaceId now) merged = .ok g')

/-- **What a call does**: one that returns was stale and changed nothing, or went through all the
stages. -/
theorem upsertGraph_cases (h : upsertGraph cfg u now g = .ok (g', result)) :
    ∃ w, u.workspace cfg.py = .ok w ∧
      ((u.isStaleIn w g = true ∧ result.applied = false ∧ g' = g) ∨
        (u.isStaleIn w g = false ∧ result.applied = true ∧
          Applies cfg u w now g g')) := by
  rw [upsertGraph] at h
  split at h
  · cases h
  · rename_i w hws
    refine ⟨w, hws, ?_⟩
    split at h
    · rename_i hstale
      cases h
      exact .inl ⟨hstale, rfl, rfl⟩
    · rename_i hstale
      rw [Bool.not_eq_true] at hstale
      rw [writeBatch] at h
      split at h
      · cases h
      · rename_i merged hentities
        split at h
        · cases h
        · rename_i hedges
          cases h
          exact .inr ⟨hstale, rfl, merged, hentities, hedges⟩

theorem applies_of_applied (h : upsertGraph cfg u now g = .ok (g', result))
    (happlied : result.applied = true) (hws : u.workspace cfg.py = .ok w) :
    Applies cfg u w now g g' := by
  obtain ⟨ws, hws', ⟨-, hskipped, -⟩ | ⟨-, -, happlies⟩⟩ := upsertGraph_cases h
  · rw [hskipped] at happlied
    cases happlied
  · obtain rfl : ws = w := Except.ok.inj (hws'.symm.trans hws)
    exact happlies

theorem upsertGraph_of_empty (cfg : GraphConfig) (u : GraphUpsert) (now : ℕ) (g : Graph)
    (hws : u.workspaceId = some w) (hentities : u.entities = []) (hedges : u.edges = []) :
    ∃ g' result, upsertGraph cfg u now g = .ok (g', result) := by
  rw [upsertGraph, GraphUpsert.workspace, hws]
  dsimp only
  split
  · exact ⟨_, _, rfl⟩
  · rw [writeBatch, hentities, hedges]
    exact ⟨_, _, rfl⟩

/-! ### The stages leave the checkpoints of the documents alone -/

theorem documentCheckpoints_retire (u : GraphUpsert) (w : Uuid) (g : Graph) :
    (retire cfg u w g).1.documentCheckpoints = g.documentCheckpoints := by
  rw [retire]
  split
  · rfl
  · split
    · rfl
    · rfl

theorem documentCheckpoints_writeEntity {entity : EntityUpsert}
    (h : writeEntity cfg u w now g entity = .ok g') :
    g'.documentCheckpoints = g.documentCheckpoints := by
  obtain ⟨n, states, rfl⟩ := writeEntity_cases h
  rfl

theorem frame_writeBatchEdge {edge : BatchEdge} (h : writeBatchEdge cfg u w now g edge = .ok g') :
    g'.states = g.states ∧ g'.documentCheckpoints = g.documentCheckpoints := by
  obtain ⟨-, rfl⟩ | ⟨params, -, rfl⟩ | ⟨source, name, -, -, -, rfl⟩ := writeBatchEdge_cases h
  · exact ⟨rfl, rfl⟩
  · unfold writeEdge
    split
    · exact ⟨rfl, rfl⟩
    · exact ⟨rfl, rfl⟩
  · unfold upsertEdgeByName
    split
    · exact ⟨rfl, rfl⟩
    · exact ⟨rfl, rfl⟩

theorem Applies.documentCheckpoints_eq (h : Applies cfg u w now g g') :
    g'.documentCheckpoints = (u.advance w g).documentCheckpoints := by
  obtain ⟨merged, hentities, hedges⟩ := h
  calc g'.documentCheckpoints
      = merged.documentCheckpoints := Fold.foldlM_frame hedges _ fun _ _ _ _ hstep =>
        (frame_writeBatchEdge hstep).2
    _ = (retire cfg u w (u.advance w g)).1.documentCheckpoints :=
        Fold.foldlM_frame hentities _ fun _ _ _ _ hstep => documentCheckpoints_writeEntity hstep
    _ = (u.advance w g).documentCheckpoints := documentCheckpoints_retire u w _

end

/-! ### Runs -/

/-- A call that returned, with the graph that it found.  One that raises is rolled back. -/
structure Return where
  before : Graph
  args : GraphUpsert
  now : ℕ
  result : GraphWriteResult

/-- The graphs that calls lead to, one after the other. -/
inductive Run (g₀ : Graph) : List Return → Graph → Prop
  | start : Run g₀ [] g₀
  | call {calls : List Return} {u : GraphUpsert} {now : ℕ} {g g' : Graph}
    {result : GraphWriteResult} (run : Run g₀ calls g)
    (returned : upsertGraph cfg u now g = .ok (g', result)) :
    Run g₀ (calls ++ [⟨g, u, now, result⟩]) g'

section

variable {cfg} {g₀ g : Graph} {calls : List Return}

theorem Run.of_concat {c : Return} (h : Run cfg g₀ (calls ++ [c]) g) :
    Run cfg g₀ calls c.before ∧ upsertGraph cfg c.args c.now c.before = .ok (g, c.result) := by
  generalize hl : calls ++ [c] = l at h
  cases h with
  | start => simp at hl
  | call run returned =>
    obtain ⟨rfl, hc⟩ := List.append_inj' hl rfl
    cases hc
    exact ⟨run, returned⟩

theorem Run.of_prefix (h : Run cfg g₀ calls g) {pre : List Return} (hpre : pre <+: calls) :
    ∃ g', Run cfg g₀ pre g' := by
  induction h with
  | start =>
    rw [List.prefix_nil] at hpre
    exact ⟨g₀, hpre ▸ .start⟩
  | call run returned ih =>
    obtain rfl | hpre := List.prefix_concat_iff.1 hpre
    · exact ⟨_, .call run returned⟩
    · exact ih hpre

end

end Omniscience.Neo4j
