import Omniscience.Outbox.Consumer
import Omniscience.Outbox.Worker

/-!
# The reconcile worker

`ReconcileWorker` compares Neo4j and Qdrant with Postgres, workspace by workspace, and writes
outbox rows for the entities and edges that have drifted.  The number of rows a run may write is
bounded by a cursor that all workspaces of the run share.

The rows are written in three places, each with a payload built by hand, and read back by
`OutboxWorker` with the models of the queue.  `consumable_iff` says when the two sides agree: the
payload of an edge has no `id`, so a run writes only rows that can be published exactly when it
never finds an edge of Postgres ahead of Neo4j.
-/

namespace Omniscience.Reconcile

open Queue Outbox Coro List

/-! ### What the worker asks for -/

/-- A row that is added to the outbox table. -/
structure NewEvent where
  eventType : String
  payload : Metadata
  entityId : Option Uuid := none

/-- The row as the outbox worker finds it. -/
def NewEvent.stored (row : NewEvent) (id : Uuid) (createdAt : ℕ) : OutboxEvent where
  id := id
  eventType := row.eventType
  payload := row.payload
  entityId := row.entityId
  createdAt := createdAt

/-- The ends and the type of an edge. -/
abbrev EdgeKey := Uuid × Uuid × String

/-- A call to Postgres, to one of the two stores or to the timer. -/
inductive Call where
  | loadWorkspaceIds
  | loadActiveSourceIds (workspaceId : Uuid)
  | selectEntities (workspaceId : Uuid)
  | selectEntitiesOf (workspaceId : Uuid) (sourceIds : List Uuid)
  | selectEdges (workspaceId : Uuid)
  | selectOkRun (sourceId : Uuid)
  | markRunPartial (runId : Uuid)
  | insertEvents (rows : List NewEvent)
  | countChunksBySource (workspaceId : Uuid)
  | countPoints (workspaceId sourceId : Uuid)
  | scrollPoints (workspaceId sourceId : Uuid) (limit : ℕ)
  | deletePoints (pointIds : List String)
  | qdrantEntityVersions (workspaceId : Uuid)
  | qdrantContentHashes (workspaceId : Uuid)
  | countEntitiesBySource (workspaceId : Uuid)
  | endDateSourceOrphans (workspaceId : Uuid) (sourceId nowIso : String)
  | neo4jEntityVersions (workspaceId : Uuid)
  | neo4jContentHashes (workspaceId : Uuid)
  | neo4jEdgeVersions (workspaceId : Uuid)
  | sleep

@[reducible] def Call.Resp : Call → Type
  | .loadWorkspaceIds | .loadActiveSourceIds _ => List Uuid
  | .selectEntities _ | .selectEntitiesOf .. => List EntityRow
  | .selectEdges _ => List EdgeRow
  | .selectOkRun _ => Option Uuid
  | .markRunPartial _ | .insertEvents _ | .deletePoints _ | .sleep => Unit
  | .countChunksBySource _ | .countEntitiesBySource _ => Dict String ℕ
  | .countPoints .. | .endDateSourceOrphans .. => ℕ
  | .scrollPoints .. => List String
  | .qdrantEntityVersions _ | .neo4jEntityVersions _ => Dict Uuid ℤ
  | .qdrantContentHashes _ | .neo4jContentHashes _ => Dict Uuid String
  | .neo4jEdgeVersions _ => Dict EdgeKey ℤ

/-- What the worker keeps between its calls; `clock` is the time. -/
structure Memory where
  reemitCursor : ℕ := 0
  clock : ℕ := 0

abbrev iface : Iface where
  State := Memory
  Exc := Exc
  Call := Call
  Resp := Call.Resp

/-- A coroutine of the worker. -/
abbrev Co (α : Type) := Coro iface α

/-- Await a call. -/
def call (q : Call) : Co q.Resp := Coro.call (S := iface) q

/-- The configuration of the worker; both bounds are at least one. -/
structure ReconcileWorker where
  py : Py
  orphanLimit : ℕ := 200
  reemitCap : ℕ := 1000

/-- `WorkspaceReconcileReport`. -/
structure WorkspaceReconcileReport where
  workspaceId : Uuid
  pgMissingQdrant : List Uuid
  qdrantOrphanSources : List String
  qdrantOrphansDeleted : ℕ
  neo4jOrphanSources : List String

/-! ### Drift -/

/-- The rows of a select, by id. -/
def entitiesById (rows : List EntityRow) : Dict Uuid EntityRow :=
  rows.foldl (fun d row => d.set row.id row) .empty

/-- A hash of a projection that differs from the one of Postgres. -/
def hashDiffers (found : Option String) (contentHash : String) : Bool :=
  match found with
  | some h => h ≠ contentHash
  | none => false

/-- What the two stores hold about the entities of a workspace. -/
structure Projections where
  qdrantVersions : Dict Uuid ℤ
  neo4jVersions : Dict Uuid ℤ
  qdrantHashes : Dict Uuid String
  neo4jHashes : Dict Uuid String

/-- Version drift or hash drift of an entity. -/
def Projections.entityDrift (p : Projections) (row : EntityRow) : Bool :=
  let versionDrift := p.qdrantVersions.getD row.id 0 < row.version ∨
    p.neo4jVersions.getD row.id 0 < row.version
  let hashDrift := match row.contentHash with
    | some contentHash => hashDiffers (p.qdrantHashes.get? row.id) contentHash ||
        hashDiffers (p.neo4jHashes.get? row.id) contentHash
    | none => false
  versionDrift || hashDrift

/-- The entities that have to be emitted again. -/
def Projections.driftedEntities (p : Projections) (rows : List EntityRow) : List EntityRow :=
  ((entitiesById rows).items.map Prod.snd).filter p.entityDrift

/-- The key under which Neo4j knows an edge. -/
def edgeKey (edge : EdgeRow) : EdgeKey := (edge.sourceEntityId, edge.targetEntityId, edge.edgeType)

/-- The edges that have to be emitted again. -/
def driftedEdges (neo4jEdgeVersions : Dict EdgeKey ℤ) (edges : List EdgeRow) : List EdgeRow :=
  edges.filter fun edge => neo4jEdgeVersions.getD (edgeKey edge) 0 < edge.version

/-- The outbox row for an entity. -/
def entityEvent (workspaceId : Uuid) (row : EntityRow) : NewEvent where
  eventType := "entity.upsert"
  entityId := some row.id
  payload := [("workspace_id", .str workspaceId.str), ("id", .str row.id.str),
    ("source_id", .str row.sourceId.str), ("entity_type", .str row.entityType),
    ("name", .str row.name), ("display_name", .str row.displayName),
    ("metadata", .obj row.entityMetadata), ("version", .int row.version),
    ("is_backfill", .bool true), ("content_hash", strOrNull row.contentHash)]

/-- The outbox row for an edge. -/
def edgeEvent (workspaceId : Uuid) (edge : EdgeRow) : NewEvent where
  eventType := "edge.upsert"
  entityId := some edge.sourceEntityId
  payload := [("workspace_id", .str workspaceId.str),
    ("source_entity_id", .str edge.sourceEntityId.str),
    ("target_entity_id", .str edge.targetEntityId.str), ("edge_type", .str edge.edgeType),
    ("metadata", .obj edge.edgeMetadata), ("version", .int edge.version),
    ("is_backfill", .bool true)]

/-- `_try_parse_uuid(value) not in source_ids`. -/
def isOrphan (sourceIds : List Uuid) (value : String) : Bool :=
  match Uuid.parse value with
  | some id => id ∉ sourceIds
  | none => true

/-- The sources of a histogram that Postgres has no active document of. -/
def orphanSources (sourceIds : List Uuid) (histogram : Dict String ℕ) : List String :=
  (histogram.items.filter fun (source, count) => 0 < count ∧ isOrphan sourceIds source).map Prod.fst

/-- The sources of a histogram, as UUIDs. -/
def presentSources (histogram : Dict String ℕ) : Except Exc (List Uuid) :=
  ((histogram.items.filter fun p => 0 < p.2).map Prod.fst).mapM uuidOf

namespace ReconcileWorker

variable (w : ReconcileWorker)

/-- Write rows in one transaction, and count them. -/
def emit (rows : List NewEvent) : Co Unit := do
  call (.insertEvents rows)
  modify (S := iface) fun s => { s with reemitCursor := s.reemitCursor + rows.length }

/-- `_reemit_entities_for_missing_sources`. -/
def reemitEntitiesForMissingSources (workspaceId : Uuid) (missing : List Uuid) : Co Unit := do
  let s ← Coro.get (S := iface)
  if w.reemitCap ≤ s.reemitCursor then return ()
  else
    let entities ← call (.selectEntitiesOf workspaceId missing)
    if entities.isEmpty then return ()
    else emit ((entities.take (w.reemitCap - s.reemitCursor)).map (entityEvent workspaceId))

/-- `_mark_ingestion_run_partial`. -/
def markIngestionRunPartial (sourceId : Uuid) : Co Unit := do
  match ← call (.selectOkRun sourceId) with
  | none => return ()
  | some runId => call (.markRunPartial runId)

/-- `_check_pg_missing_qdrant`. -/
def checkPgMissingQdrant (workspaceId : Uuid) (sourceIds : List Uuid) : Co (List Uuid) := do
  if sourceIds.isEmpty then return []
  else
    let histogram ← call (.countChunksBySource workspaceId)
    let present ← lift (S := iface) (presentSources histogram)
    let missing := (sourceIds.dedup.filter (· ∉ present)).mergeSort (·.toNat ≤ ·.toNat)
    if !missing.isEmpty then w.reemitEntitiesForMissingSources workspaceId missing
    forEach missing markIngestionRunPartial
    return missing

/-- `_delete_qdrant_orphan_source`. -/
def deleteQdrantOrphanSource (workspaceId sourceId : Uuid) (limit : ℕ) : Co ℕ := do
  let count ← call (.countPoints workspaceId sourceId)
  if min count limit = 0 then return 0
  else
    let pointIds ← call (.scrollPoints workspaceId sourceId (min count limit))
    if pointIds.isEmpty then return 0
    else
      call (.deletePoints pointIds)
      return pointIds.length

/-- `_check_qdrant_orphans`; the loop carries what was deleted and what may still be. -/
def checkQdrantOrphans (workspaceId : Uuid) (sourceIds : List Uuid) : Co (List String × ℕ) := do
  let histogram ← call (.countChunksBySource workspaceId)
  let orphans := orphanSources sourceIds histogram
  let deleted ← fold (fun (total, budget) source => do
    if budget = 0 then return (total, budget)
    else
      match Uuid.parse source with
      | none => return (total, budget)
      | some sourceId =>
        let deleted ← deleteQdrantOrphanSource workspaceId sourceId budget
        return (total + deleted, budget - deleted)) (0, w.orphanLimit) orphans
  return (orphans, deleted.1)

/-- `_check_neo4j_orphans`. -/
def checkNeo4jOrphans (workspaceId : Uuid) (sourceIds : List Uuid) : Co (List String) := do
  let histogram ← call (.countEntitiesBySource workspaceId)
  let orphans := orphanSources sourceIds histogram
  let s ← Coro.get (S := iface)
  forEach orphans fun source => do
    let _ ← call (.endDateSourceOrphans workspaceId source (w.py.isoformat s.clock))
  return orphans

/-- `_check_entity_drift`. -/
def checkEntityDrift (workspaceId : Uuid) : Co Unit := do
  let s ← Coro.get (S := iface)
  if w.reemitCap ≤ s.reemitCursor then return ()
  else
    let rows ← call (.selectEntities workspaceId)
    let qdrantVersions ← call (.qdrantEntityVersions workspaceId)
    let neo4jVersions ← call (.neo4jEntityVersions workspaceId)
    let qdrantHashes ← call (.qdrantContentHashes workspaceId)
    let neo4jHashes ← call (.neo4jContentHashes workspaceId)
    let p : Projections := ⟨qdrantVersions, neo4jVersions, qdrantHashes, neo4jHashes⟩
    let toBackfill := p.driftedEntities rows
    if toBackfill.isEmpty then return ()
    else emit ((toBackfill.take (w.reemitCap - s.reemitCursor)).map (entityEvent workspaceId))

/-- `_check_edge_drift`. -/
def checkEdgeDrift (workspaceId : Uuid) : Co Unit := do
  let s ← Coro.get (S := iface)
  if w.reemitCap ≤ s.reemitCursor then return ()
  else
    let edges ← call (.selectEdges workspaceId)
    if edges.isEmpty then return ()
    else
      let neo4jEdgeVersions ← call (.neo4jEdgeVersions workspaceId)
      let toBackfill := driftedEdges neo4jEdgeVersions edges
      if toBackfill.isEmpty then return ()
      else emit ((toBackfill.take (w.reemitCap - s.reemitCursor)).map (edgeEvent workspaceId))

/-- `_reconcile_workspace`. -/
def reconcileWorkspace (workspaceId : Uuid) : Co WorkspaceReconcileReport := do
  let sourceIds ← call (.loadActiveSourceIds workspaceId)
  let missing ← w.checkPgMissingQdrant workspaceId sourceIds
  let (qdrantOrphans, deleted) ← w.checkQdrantOrphans workspaceId sourceIds
  let neo4jOrphans ← w.checkNeo4jOrphans workspaceId sourceIds
  -- entities first, so that the consumer sees them before the edges that need them
  w.checkEntityDrift workspaceId
  w.checkEdgeDrift workspaceId
  return {
    workspaceId := workspaceId
    pgMissingQdrant := missing
    qdrantOrphanSources := qdrantOrphans
    qdrantOrphansDeleted := deleted
    neo4jOrphanSources := neo4jOrphans }

/-- `run_once`. -/
def runOnce : Co (List WorkspaceReconcileReport) := do
  modify (S := iface) fun s => { s with reemitCursor := 0 }
  let workspaceIds ← call .loadWorkspaceIds
  fold (fun reports workspaceId => do
    let report ← w.reconcileWorkspace workspaceId
    return reports ++ [report]) [] workspaceIds

/-- `rounds` rounds of the loop of `start`; an error of a run is logged. -/
def start (rounds : ℕ) : Co Unit :=
  forEach (List.range rounds) fun _ => do
    tryCatch (do let _ ← w.runOnce) fun _ => return ()
    call .sleep

/-! ### The calls of the parts that write no rows -/

/-- The calls that neither write rows nor take anything out of the stores; the versions of the
edges are left out, since the worker goes on to write what it finds behind. -/
def Plain : Call → Prop
  | .insertEvents _ | .neo4jEdgeVersions _ | .deletePoints _ | .endDateSourceOrphans .. => False
  | _ => True

/-- The calls of the two checks for orphans. -/
def Orphans (q : Call) : Prop :=
  Plain q ∨ (∃ pointIds, q = .deletePoints pointIds) ∨
    ∃ workspaceId sourceId nowIso, q = .endDateSourceOrphans workspaceId sourceId nowIso

theorem reads_markIngestionRunPartial (sourceId : Uuid) :
    (markIngestionRunPartial sourceId).Reads Plain := by
  refine (reads_call (by trivial)).bind fun run => ?_
  cases run with
  | none => exact reads_pure _
  | some runId => exact reads_call (by trivial)

theorem reads_deleteQdrantOrphanSource (workspaceId sourceId : Uuid) (limit : ℕ) :
    (deleteQdrantOrphanSource workspaceId sourceId limit).Reads Orphans := by
  refine (reads_call (.inl trivial)).bind fun count => ?_
  split
  · exact reads_pure _
  · refine (reads_call (.inl trivial)).bind fun pointIds => ?_
    split
    · exact reads_pure _
    · exact (reads_call (.inr (.inl ⟨_, rfl⟩))).bind fun _ => reads_pure _

theorem reads_checkQdrantOrphans (workspaceId : Uuid) (sourceIds : List Uuid) :
    (w.checkQdrantOrphans workspaceId sourceIds).Reads Orphans := by
  refine (reads_call (.inl trivial)).bind fun histogram => ?_
  refine (reads_fold (fun acc source => ?_) _ _).bind fun _ => reads_pure _
  obtain ⟨total, budget⟩ := acc
  dsimp only
  split
  · exact reads_pure _
  · split
    · exact reads_pure _
    · exact (reads_deleteQdrantOrphanSource workspaceId _ _).bind fun _ => reads_pure _

theorem reads_checkNeo4jOrphans (workspaceId : Uuid) (sourceIds : List Uuid) :
    (w.checkNeo4jOrphans workspaceId sourceIds).Reads Orphans := by
  refine (reads_call (.inl trivial)).bind fun histogram => ?_
  refine reads_get.bind fun s => Reads.bind ?_ fun _ => reads_pure _
  refine reads_fold (fun _ source => ?_) _ _
  exact (reads_call (.inr (.inr ⟨_, _, _, rfl⟩))).bind fun _ => reads_pure _

/-! ### The invariants that the entity passes keep -/

section

variable {K : Contract iface} {I : List (Event iface) → Memory → Prop}
  (hplain : ∀ q, Plain q → Respects K I q)
  (hemit : ∀ (workspaceId : Uuid) (rows : List EntityRow),
    Keeps K I (emit (rows.map (entityEvent workspaceId))))
include hplain hemit

theorem keeps_reemitEntitiesForMissingSources (workspaceId : Uuid) (missing : List Uuid) :
    Keeps K I (w.reemitEntitiesForMissingSources workspaceId missing) := by
  refine keeps_get.bind fun s => ?_
  split
  · exact keeps_pure _
  · refine (keeps_call (hplain _ (by trivial))).bind fun entities => ?_
    split
    · exact keeps_pure _
    · exact hemit workspaceId _

theorem keeps_checkPgMissingQdrant (workspaceId : Uuid) (sourceIds : List Uuid) :
    Keeps K I (w.checkPgMissingQdrant workspaceId sourceIds) := by
  rw [checkPgMissingQdrant]
  split
  · exact keeps_pure _
  · refine (keeps_call (hplain _ (by trivial))).bind fun histogram => ?_
    refine (keeps_lift _).bind fun present => ?_
    have hrest : ∀ missing : List Uuid, Keeps K I (do
          forEach missing markIngestionRunPartial
          return missing) := fun missing =>
      (keeps_forEach fun sourceId =>
        (reads_markIngestionRunPartial sourceId).keeps hplain).bind fun _ => keeps_pure _
    dsimp only
    split
    · exact (w.keeps_reemitEntitiesForMissingSources hplain hemit workspaceId _).bind
        fun _ => hrest _
    · exact hrest _

theorem keeps_checkEntityDrift (workspaceId : Uuid) :
    Keeps K I (w.checkEntityDrift workspaceId) := by
  refine keeps_get.bind fun s => ?_
  split
  · exact keeps_pure _
  · refine (keeps_call (hplain _ (by trivial))).bind fun rows => ?_
    refine (keeps_call (hplain _ (by trivial))).bind fun qdrantVersions => ?_
    refine (keeps_call (hplain _ (by trivial))).bind fun neo4jVersions => ?_
    refine (keeps_call (hplain _ (by trivial))).bind fun qdrantHashes => ?_
    refine (keeps_call (hplain _ (by trivial))).bind fun neo4jHashes => ?_
    dsimp only
    split
    · exact keeps_pure _
    · exact hemit workspaceId _

end

end ReconcileWorker

/-! ### The two sides of the outbox -/

/-- The outbox worker will publish the row, whenever it finds it. -/
def Consumable (ow : OutboxWorker) (row : NewEvent) : Prop :=
  ∀ id createdAt, ow.Valid (row.stored id createdAt)

theorem modelValidate_entityEvent (pyd : Pydantic) (workspaceId : Uuid) (row : EntityRow) :
    EntityUpsertEvent.modelValidate pyd (payloadOf (entityEvent workspaceId row).payload) =
      .ok (row.backfillEvent (some workspaceId)) :=
  EntityUpsertEvent.modelValidate_modelDump pyd (row.backfillEvent (some workspaceId))

theorem publication_entityEvent (ow : OutboxWorker) (workspaceId : Uuid) (row : EntityRow)
    (id : Uuid) (createdAt : ℕ) :
    ow.publication ((entityEvent workspaceId row).stored id createdAt) =
      .ok (some ("outbox.entity.upsert", .entity (row.backfillEvent (some workspaceId)))) := by
  have h := modelValidate_entityEvent ow.pyd workspaceId row
  simp only [OutboxWorker.publication, NewEvent.stored, h]
  rfl

theorem consumable_entityEvent (ow : OutboxWorker) (workspaceId : Uuid) (row : EntityRow) :
    Consumable ow (entityEvent workspaceId row) := by
  intro id createdAt
  exact ⟨_, _, publication_entityEvent ow workspaceId row id createdAt⟩

theorem modelValidate_edgeEvent (pyd : Pydantic) (workspaceId : Uuid) (edge : EdgeRow) :
    EdgeUpsertEvent.modelValidate pyd (payloadOf (edgeEvent workspaceId edge).payload) =
      .error ⟨.validationError, "id: Field required"⟩ := by
  simp [EdgeUpsertEvent.modelValidate, edgeEvent, payloadOf, field, lookup_cons]

theorem not_consumable_edgeEvent (ow : OutboxWorker) (workspaceId : Uuid) (edge : EdgeRow) :
    ¬ Consumable ow (edgeEvent workspaceId edge) := by
  intro h
  obtain ⟨subject, payload, hpub⟩ := h 0 0
  have herror : ow.publication ((edgeEvent workspaceId edge).stored 0 0) =
      .error ⟨.validationError, "id: Field required"⟩ := by
    have h := modelValidate_edgeEvent ow.pyd workspaceId edge
    simp only [OutboxWorker.publication, NewEvent.stored, h]
    rfl
  rw [herror] at hpub
  cases hpub

/-- Every row that was written is one that the outbox worker publishes. -/
def AllConsumable (ow : OutboxWorker) (t : List (Event iface)) : Prop :=
  ∀ rows r, (⟨.insertEvents rows, r⟩ : Event iface) ∈ t → ∀ row ∈ rows, Consumable ow row

/-- The event is an answer with the edge versions of Neo4j. -/
def IsEdgeVersions (ev : Event iface) : Prop :=
  ∃ workspaceId versions, ev = ⟨.neo4jEdgeVersions workspaceId, .ok versions⟩

/-- `a` is the answer with the edges of Postgres, `b` the one with the versions of Neo4j, and no
edge is ahead of its version. -/
def EdgesInStep (a b : Event iface) : Prop :=
  ∃ workspaceId edges versions, a = ⟨.selectEdges workspaceId, .ok edges⟩ ∧
    b = ⟨.neo4jEdgeVersions workspaceId, .ok versions⟩ ∧ driftedEdges versions edges = []

/-- Whenever the worker compared the edges of a workspace with Neo4j, none was ahead. -/
def NoEdgeDrift (t : List (Event iface)) : Prop := EachAfter IsEdgeVersions EdgesInStep t

/-- The two agree on the calls made so far. -/
def Agree (ow : OutboxWorker) (t : List (Event iface)) : Prop := AllConsumable ow t ↔ NoEdgeDrift t

section

variable {ow : OutboxWorker} {t : List (Event iface)}

theorem allConsumable_concat {ev : Event iface} : AllConsumable ow (t ++ [ev]) ↔
      AllConsumable ow t ∧ ∀ rows r, ev = ⟨.insertEvents rows, r⟩ → ∀ row ∈ rows,
        Consumable ow row := by
  simp only [AllConsumable, mem_append, mem_singleton, or_imp, forall_and]
  simp only [eq_comm]

theorem noEdgeDrift_concat_of_ne {ev : Event iface} (h : ∀ ws, ev.1 ≠ .neo4jEdgeVersions ws) :
    NoEdgeDrift (t ++ [ev]) ↔ NoEdgeDrift t := by
  refine eachAfter_concat.trans (and_iff_left ?_)
  rintro ⟨ws, versions, rfl⟩
  exact absurd rfl (h ws)

theorem Agree.concat (h : Agree ow t) {q : Call} {r : Except Exc q.Resp}
    (hins : ∀ rows, q = .insertEvents rows → ∀ row ∈ rows, Consumable ow row)
    (hver : ∀ ws, q ≠ .neo4jEdgeVersions ws) : Agree ow (t ++ [(⟨q, r⟩ : Event iface)]) := by
  rw [Agree, allConsumable_concat, noEdgeDrift_concat_of_ne hver]
  refine (and_iff_left ?_).trans h
  intro rows r' heq
  exact hins rows (congrArg Sigma.fst heq)

theorem respects {q : Call}
    (hins : ∀ rows, q = .insertEvents rows → ∀ row ∈ rows, Consumable ow row)
    (hver : ∀ ws, q ≠ .neo4jEdgeVersions ws) :
    Respects (.free : Contract iface) (fun t _ => Agree ow t) q :=
  ⟨fun _ _ _ => trivial, fun _ _ _ _ h _ => h.concat hins hver⟩

variable {workspaceId : Uuid}

theorem agree_insertEdges {edges : List EdgeRow} (hne : edges ≠ []) (hdrift : ¬ NoEdgeDrift t)
    {r : Except Exc Unit} :
    Agree ow (t ++ [(⟨.insertEvents (edges.map (edgeEvent workspaceId)), r⟩ : Event iface)]) := by
  rw [Agree, noEdgeDrift_concat_of_ne (by rintro _ ⟨⟩), allConsumable_concat]
  refine iff_of_false (fun h => ?_) hdrift
  obtain ⟨edge, edges, rfl⟩ := exists_cons_of_ne_nil hne
  exact not_consumable_edgeEvent ow workspaceId edge (h.2 _ _ rfl _ (mem_map_of_mem mem_cons_self))

theorem noEdgeDrift_concat_pair {edges : List EdgeRow} {versions : Dict EdgeKey ℤ} :
    NoEdgeDrift (t ++ [(⟨.selectEdges workspaceId, .ok edges⟩ : Event iface)] ++
        [⟨.neo4jEdgeVersions workspaceId, .ok versions⟩]) ↔
      NoEdgeDrift t ∧ driftedEdges versions edges = [] := by
  refine eachAfter_concat.trans (and_congr (noEdgeDrift_concat_of_ne (by rintro _ ⟨⟩))
    ⟨fun h => ?_, fun h _ => ?_⟩)
  · obtain ⟨pre, a, hpre, ws, edges', versions', rfl, hb, hdrift⟩ := h ⟨_, _, rfl⟩
    have hlast := (append_inj' hpre rfl).2
    cases hlast
    cases hb
    exact hdrift
  · exact ⟨t, _, rfl, _, _, _, rfl, rfl, h⟩

theorem Agree.versions (h : Agree ow t) {edges : List EdgeRow} {versions : Dict EdgeKey ℤ}
    (hnil : driftedEdges versions edges = []) :
    Agree ow (t ++ [(⟨.selectEdges workspaceId, .ok edges⟩ : Event iface)] ++
      [⟨.neo4jEdgeVersions workspaceId, .ok versions⟩]) := by
  rw [Agree, noEdgeDrift_concat_pair, and_iff_left hnil, allConsumable_concat,
    allConsumable_concat, and_assoc, and_iff_left]
  · exact h
  · exact ⟨by rintro _ _ ⟨⟩, by rintro _ _ ⟨⟩⟩

theorem Agree.versions_error (h : Agree ow t) {e : Exc} :
    Agree ow (t ++ [(⟨.neo4jEdgeVersions workspaceId, .error e⟩ : Event iface)]) := by
  rw [Agree, allConsumable_concat, and_iff_left (by rintro _ _ ⟨⟩)]
  refine Iff.trans h (eachAfter_concat.trans (and_iff_left ?_)).symm
  rintro ⟨_, _, ⟨⟩⟩

end

namespace ReconcileWorker

variable {ow : OutboxWorker} (w : ReconcileWorker)

theorem respects_orphans {q : Call} (hq : Orphans q) :
    Respects (.free : Contract iface) (fun t _ => Agree ow t) q := by
  refine respects ?_ ?_
  · rintro rows rfl
    simp [Orphans, Plain] at hq
  · rintro ws rfl
    simp [Orphans, Plain] at hq

theorem respects_plain (q : Call) (hq : Plain q) :
    Respects (.free : Contract iface) (fun t _ => Agree ow t) q :=
  respects_orphans (.inl hq)

theorem keeps_emit_entities (workspaceId : Uuid) (rows : List EntityRow) :
    Keeps (.free : Contract iface) (fun t _ => Agree ow t)
      (emit (rows.map (entityEvent workspaceId))) := by
  refine (keeps_call (respects ?_ (by rintro _ ⟨⟩))).bind fun _ => keeps_modify ?_
  · rintro _ ⟨⟩ row hrow
    obtain ⟨entity, -, rfl⟩ := mem_map.1 hrow
    exact consumable_entityEvent ow workspaceId entity
  · exact fun _ _ h => h

theorem keeps_checkEdgeDrift (workspaceId : Uuid) :
    Keeps (.free : Contract iface) (fun t _ => Agree ow t)
      (w.checkEdgeDrift workspaceId) := by
  refine keeps_get.bind fun s => ⟨fun t s₁ h => ?_⟩
  -- the one place where the two sides could part, so that the calls are followed one by one
  split
  · exact h
  · rename_i hcap
    refine ⟨trivial, fun r s₂ _ => ?_⟩
    have hedges : ∀ r, Agree ow (t ++ [(⟨.selectEdges workspaceId, r⟩ : Event iface)]) := fun r =>
      h.concat (by rintro _ ⟨⟩) (by rintro _ ⟨⟩)
    cases r with
    | error e => exact hedges _
    | ok edges =>
      cases edges with
      | nil => exact hedges _
      | cons edge edges =>
        refine ⟨trivial, fun r s₃ _ => ?_⟩
        cases r with
        | error e => exact (hedges _).versions_error
        | ok versions =>
          by_cases hnil : driftedEdges versions (edge :: edges) = []
          · show Coro.wp _ (if (driftedEdges versions (edge :: edges)).isEmpty then _ else _) _ _ _
            rw [hnil]
            exact h.versions hnil
          · -- the cap is not exhausted, so at least one drifted edge is written
            show Coro.wp _ (if (driftedEdges versions (edge :: edges)).isEmpty then _ else _) _ _ _
            rw [if_neg (by simpa using hnil)]
            refine ⟨trivial, fun r s₄ _ => ?_⟩
            have hinsert : ∀ r, Agree ow (t ++
                [(⟨.selectEdges workspaceId, .ok (edge :: edges)⟩ : Event iface)] ++
                [⟨.neo4jEdgeVersions workspaceId, .ok versions⟩] ++
                [⟨.insertEvents (((driftedEdges versions (edge :: edges)).take
                  (w.reemitCap - s.reemitCursor)).map (edgeEvent workspaceId)), r⟩]) := by
              intro r
              refine agree_insertEdges ?_ fun hno => hnil (noEdgeDrift_concat_pair.1 hno).2
              rw [ne_eq, take_eq_nil_iff, not_or]
              exact ⟨by omega, hnil⟩
            cases r with
            | error e => exact hinsert _
            | ok u => exact hinsert _

theorem keeps_reconcileWorkspace (workspaceId : Uuid) :
    Keeps (.free : Contract iface) (fun t _ => Agree ow t)
      (w.reconcileWorkspace workspaceId) := by
  refine (keeps_call (respects_plain _ (by trivial))).bind fun sourceIds => ?_
  refine (w.keeps_checkPgMissingQdrant respects_plain keeps_emit_entities workspaceId
    sourceIds).bind fun missing => ?_
  refine ((w.reads_checkQdrantOrphans workspaceId sourceIds).keeps
    fun _ => respects_orphans).bind fun qdrantOrphans => ?_
  refine ((w.reads_checkNeo4jOrphans workspaceId sourceIds).keeps
    fun _ => respects_orphans).bind fun neo4jOrphans => ?_
  refine (w.keeps_checkEntityDrift respects_plain keeps_emit_entities workspaceId).bind fun _ => ?_
  exact (w.keeps_checkEdgeDrift workspaceId).bind fun _ => keeps_pure _

theorem keeps_runOnce : Keeps (.free : Contract iface) (fun t _ => Agree ow t) w.runOnce := by
  refine Keeps.bind (keeps_modify ?_) fun _ => ?_
  · exact fun _ _ h => h
  refine (keeps_call (respects_plain _ (by trivial))).bind fun workspaceIds => ?_
  refine keeps_fold fun reports workspaceId => ?_
  exact (w.keeps_reconcileWorkspace workspaceId).bind fun _ => keeps_pure _

theorem keeps_start (rounds : ℕ) :
    Keeps (.free : Contract iface) (fun t _ => Agree ow t) (w.start rounds) := by
  refine keeps_forEach fun _ => Keeps.bind ?_ fun _ =>
    keeps_call (respects_plain _ (by trivial))
  exact (w.keeps_runOnce.bind fun _ => keeps_pure _).tryCatch fun _ => keeps_pure _

/-- **The reconciler and the outbox worker**: over any number of runs, against any database and any
stores, every row that the reconciler writes is one that the outbox worker publishes if and only
if no edge that it compared with Neo4j was ahead of its version there. -/
theorem consumable_iff (ow : OutboxWorker) (w : ReconcileWorker) (env : Env iface) (rounds : ℕ)
    (s : Memory) :
    AllConsumable ow (Coro.exec env (w.start rounds) [] s).trace ↔
      NoEdgeDrift (Coro.exec env (w.start rounds) [] s).trace := by
  have hnil : Agree ow [] := iff_of_true (by rintro _ _ ⟨⟩) eachAfter_nil
  exact exec_of_wp (obeys_free env) ((w.keeps_start rounds).run [] s hnil)

/-! ### An edge that Neo4j does not have -/

def missingEdge : EdgeRow where
  id := 1
  sourceEntityId := 2
  targetEntityId := 3
  edgeType := "calls"
  edgeMetadata := []
  version := 1

/-- A database with one workspace and one edge, and empty stores. -/
def oneEdge : Env iface
  | _, .loadWorkspaceIds, s => (.ok [7], s)
  | _, .selectEdges _, s => (.ok [missingEdge], s)
  | _, .loadActiveSourceIds _, s | _, .selectEntities _, s | _, .selectEntitiesOf .., s
  | _, .scrollPoints .., s => (.ok [], s)
  | _, .selectOkRun _, s => (.ok none, s)
  | _, .markRunPartial _, s | _, .insertEvents _, s | _, .deletePoints _, s | _, .sleep, s =>
    (.ok (), s)
  | _, .countPoints .., s | _, .endDateSourceOrphans .., s => (.ok 0, s)
  | _, .countChunksBySource _, s | _, .countEntitiesBySource _, s | _, .qdrantEntityVersions _, s
  | _, .neo4jEntityVersions _, s | _, .qdrantContentHashes _, s | _, .neo4jContentHashes _, s
  | _, .neo4jEdgeVersions _, s => (.ok .empty, s)

theorem missingEdge_not_consumable :
    ¬ ∀ (w : ReconcileWorker) (env : Env iface) (rounds : ℕ) (s : Memory),
      AllConsumable OutboxWorker.sample (Coro.exec env (w.start rounds) [] s).trace := by
  intro h
  have hrow := h { py := .sample } oneEdge 1 {} [edgeEvent 7 missingEdge] (.ok ())
    (List.mem_of_getElem? (i := 11) rfl) _ mem_cons_self
  exact not_consumable_edgeEvent _ _ _ hrow

end ReconcileWorker

end Omniscience.Reconcile
