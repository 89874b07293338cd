import Omniscience.Base.Uuid
import Omniscience.Lib.Pool
import Omniscience.Queue.Consumer

/-!
# The outbox consumer

`OutboxConsumerWorker` keeps Neo4j and Qdrant in step with the outbox.  It runs three consume
loops (entities, edges, merges) and an un-park loop as tasks of one event loop, over shared
dictionaries: what is parked since when, what a parked edge depends on, and how often a message of
an entity or edge has failed.

Every function is a coroutine over the state `Worker`.  It may lose control only where the source
awaits: at the calls to the broker and to the services of `Service`.

The local variables of a consume loop outlive an iteration, and the `except` block of an iteration
reads them: `entity_id` in one loop, `edge_id`, `source_entity_id` and `target_entity_id` in the
other.  They are the local state that `consumeEntity` and `consumeEdge` take and return.
-/

namespace Omniscience.Outbox

open Queue Coro

/-! ### The services -/

/-- `EntityUpsert`, the argument of `GraphStore.upsert_entity`. -/
structure EntityUpsert where
  id : Uuid
  sourceId : Uuid
  entityType : String
  name : String
  displayName : String
  chunkId : Option Uuid := none
  metadata : Metadata := []
  version : Option ℤ := none
  epoch : Option ℤ := none
  forcedReplay : Bool := false
  contentHash : Option String := none
  bypassSourceCheckpoint : Bool := false

/-- `EdgeUpsert`, the argument of `GraphStore.upsert_edge`. -/
structure EdgeUpsert where
  sourceEntityId : Uuid
  targetEntityId : Uuid
  edgeType : String
  metadata : Metadata := []
  version : Option ℤ := none
  epoch : Option ℤ := none
  forcedReplay : Bool := false
  bypassSourceCheckpoint : Bool := false

/-- An embedding vector; like every float, a component is given by its text. -/
abbrev Embedding := List String

/-- `ChunkPayload`. -/
structure ChunkPayload where
  ord : ℕ
  text : String
  embedding : Embedding
  symbol : Option String
  metadata : Metadata
  embeddingModel : String
  embeddingProvider : String
  parserVersion : String
  chunkerStrategy : String

/-- The arguments of `VectorStore.upsert_chunks`. -/
structure ChunksUpsert where
  sourceId : Uuid
  externalId : String
  uri : String
  title : Option String
  contentHash : String
  metadata : Metadata
  chunks : List ChunkPayload
  version : Option ℤ := none
  epoch : Option ℤ := none
  forcedReplay : Bool := false

/-- A row of the entity table. -/
structure EntityRow where
  id : Uuid
  sourceId : Uuid
  entityType : String
  name : String
  displayName : String
  entityMetadata : Metadata
  version : ℤ
  contentHash : Option String

/-- A row of the edge table. -/
structure EdgeRow where
  id : Uuid
  sourceEntityId : Uuid
  targetEntityId : Uuid
  edgeType : String
  edgeMetadata : Metadata
  version : ℤ

/-- A call to a store, to the embedding provider, to the database or to the timer.  The database
answers with rows and the tenant of the source each row belongs to. -/
inductive Service where
  | upsertEntity (entity : EntityUpsert) (workspaceId : Uuid)
  | upsertEdge (edge : EdgeUpsert) (workspaceId : Uuid)
  | mergeNodes (workspaceId sourceId targetId : Uuid)
  | unmergeNode (workspaceId mergedNodeId : Uuid)
  | embed (texts : List String)
  | upsertChunks (args : ChunksUpsert)
  | selectEntities (ids : List Uuid)
  | selectEdges (ids : List Uuid)
  | sleep

/-- The answer of a service. -/
@[reducible] def Service.Resp : Service → Type
  | .upsertEntity .. | .upsertEdge .. | .upsertChunks .. | .sleep => Unit
  | .mergeNodes .. | .unmergeNode .. => Bool
  | .embed _ => List Embedding
  | .selectEntities _ => List (EntityRow × Option Uuid)
  | .selectEdges _ => List (EdgeRow × Option Uuid)

/-! ### The worker -/

def maxParkedItems : ℕ := 10000

def maxRetriesBeforePark : ℕ := 3

/-- `_unpark_timeout_seconds`, in microseconds like the clock. -/
def unparkTimeout : ℕ := 300000000

/-- The state of the worker; `clock` is the time that `time.monotonic()` reads. -/
structure Worker where
  parkedEntities : Dict Uuid ℕ := .empty
  parkedEdges : Dict Uuid ℕ := .empty
  edgeDeps : Dict Uuid (Uuid × Uuid) := .empty
  entityAttempts : Dict Uuid ℕ := .empty
  edgeAttempts : Dict Uuid ℕ := .empty
  clock : ℕ := 0
  sessionFactory : Bool := true
  dlqProducer : Bool := true

/-- What the worker is built with, apart from the calls it awaits. -/
structure Deps where
  py : Py
  pyd : Pydantic
  entityContentHash : (entityType name displayName : String) → Metadata → String
  modelName : String
  providerName : String

/-- Dependencies for the instances of the general results. -/
def Deps.sample : Deps where
  py := .sample
  pyd := .strict
  entityContentHash _ _ _ _ := "0"
  modelName := "model"
  providerName := "provider"

/-- A coroutine of the worker. -/
abbrev Co (α : Type) := Coro (iface Worker Service.Resp) α

/-- Await a service. -/
def service (c : Service) : Co c.Resp := .call (S := iface Worker Service.Resp) (.service c)

/-- Read the state of the worker. -/
def get : Co Worker := .get (S := iface Worker Service.Resp)

/-- Update the state of the worker. -/
def modify (f : Worker → Worker) : Co Unit := .modify (S := iface Worker Service.Resp) f

section

variable {K : Contract (iface Worker Service.Resp)} {α : Type}
  {Q : Post (iface Worker Service.Resp) α} {t : List (Event (iface Worker Service.Resp))}
  {s : Worker}

theorem wp_get_bind {f : Worker → Co α} : Coro.wp K (get >>= f) Q t s ↔ Coro.wp K (f s) Q t s :=
  Coro.wp_get_bind

theorem wp_modify_bind {g : Worker → Worker} {f : Unit → Co α} :
    Coro.wp K (modify g >>= f) Q t s ↔ Coro.wp K (f ()) Q t (g s) :=
  Coro.wp_modify_bind

end

/-- `uuid.UUID(text)`. -/
def uuidOf (text : String) : Except Exc Uuid :=
  match Uuid.parse text with
  | some u => .ok u
  | none => .error ⟨.valueError, "badly formed hexadecimal UUID string"⟩

theorem uuidOf_str (u : Uuid) : uuidOf u.str = .ok u := by
  rw [uuidOf, Uuid.parse_str]

/-- The workspace of an event; an event without one belongs to the nil workspace. -/
def workspaceOf : Option String → Except Exc Uuid
  | none => .ok 0
  | some text => if text = "" then .ok 0 else uuidOf text

theorem workspaceOf_nonEmpty (text : Option String) :
    workspaceOf (nonEmpty text) = workspaceOf text := by
  cases text with
  | none => rfl
  | some text =>
    by_cases h : text = ""
    · simp [nonEmpty, Option.filter, workspaceOf, h]
    · simp [nonEmpty, Option.filter, workspaceOf, h]

theorem workspaceOf_str (u : Uuid) : workspaceOf (some u.str) = .ok u := by
  have hne : u.str ≠ "" := by
    intro h
    have hparse := Uuid.parse_str u
    rw [h] at hparse
    have hnone : Uuid.parse "" = none := by decide +kernel
    rw [hnone] at hparse
    cases hparse
  rw [workspaceOf, if_neg hne, uuidOf_str]

variable (deps : Deps)

/-- `_route_to_dlq`: `payload` is the dump of the message's payload. -/
def routeToDlq {α : Type} (msg : Message α) (payload : Metadata)
    (dlqSubject errorMsg : String) : Co Unit := do
  let s ← get
  if s.dlqProducer then
    tryCatch
      (do
        publish deps.py deps.pyd dlqSubject (.dlq {
          originalSubject := msg.subject
          originalPayload := deps.pyd.toJson (.obj payload)
          error := errorMsg
          attemptCount := 1
          failedAt := s.clock })
        term msg.delivery)
      fun _ => nak msg.delivery none

/-- Evict the oldest entry of an overfull lot; the second component is the evicted key. -/
def evictOldest (parked : Dict Uuid ℕ) : Dict Uuid ℕ × Option Uuid :=
  if maxParkedItems < parked.size then
    match parked.oldest with
    | some oldest => (parked.pop oldest, some oldest)
    | none => (parked, none)
  else (parked, none)

/-- Park an id unless it is parked, then evict from an overfull lot. -/
def park (parked : Dict Uuid ℕ) (id : Uuid) (now : ℕ) : Dict Uuid ℕ × Option Uuid :=
  evictOldest (parked.setDefault id now)

/-! ### Entities -/

/-- Forget that an entity failed. -/
def Worker.clearEntity (s : Worker) (entityId : Uuid) : Worker :=
  { s with
    parkedEntities := s.parkedEntities.pop entityId
    entityAttempts := s.entityAttempts.pop entityId }

/-- Forget that an edge failed. -/
def Worker.clearEdge (s : Worker) (edgeId : Uuid) : Worker :=
  { s with
    parkedEdges := s.parkedEdges.pop edgeId
    edgeDeps := s.edgeDeps.pop edgeId
    edgeAttempts := s.edgeAttempts.pop edgeId }

/-- Take a parked edge out of the lot. -/
def Worker.unparkEdge (s : Worker) (edgeId : Uuid) : Worker :=
  { s with
    parkedEdges := s.parkedEdges.pop edgeId
    edgeDeps := s.edgeDeps.pop edgeId }

/-- Park an entity. -/
def Worker.parkEntity (s : Worker) (entityId : Uuid) : Worker :=
  { s with parkedEntities := (park s.parkedEntities entityId s.clock).1 }

/-- Park an edge and remember its ends. -/
def Worker.parkEdge (s : Worker) (edgeId sourceEntityId targetEntityId : Uuid) : Worker :=
  let deps :=
    if s.parkedEdges.contains edgeId then s.edgeDeps
    else s.edgeDeps.set edgeId (sourceEntityId, targetEntityId)
  let parked := park s.parkedEdges edgeId s.clock
  { s with
    parkedEdges := parked.1
    edgeDeps := match parked.2 with
      | some oldest => deps.pop oldest
      | none => deps }

/-- The backfill event for a row of the entity table. -/
def EntityRow.backfillEvent (row : EntityRow) (tenantId : Option Uuid) : EntityUpsertEvent where
  id := row.id.str
  sourceId := row.sourceId.str
  workspaceId := tenantId.map Uuid.str
  entityType := row.entityType
  name := row.name
  displayName := row.displayName
  metadata := row.entityMetadata
  version := some row.version
  isBackfill := true
  contentHash := row.contentHash

/-- The backfill event for a row of the edge table. -/
def EdgeRow.backfillEvent (row : EdgeRow) (tenantId : Option Uuid) : EdgeUpsertEvent where
  id := row.id.str
  sourceEntityId := row.sourceEntityId.str
  targetEntityId := row.targetEntityId.str
  workspaceId := tenantId.map Uuid.str
  edgeType := row.edgeType
  metadata := row.edgeMetadata
  version := some row.version
  isBackfill := true

/-- The parked edges at `resolvedEntityId` whose other end is not parked. -/
def edgesToUnpark (s : Worker) (resolvedEntityId : Uuid) : List Uuid :=
  (s.edgeDeps.items.filter fun (_, srcId, tgtId) =>
    (srcId = resolvedEntityId ∨ tgtId = resolvedEntityId) ∧
      ¬ s.parkedEntities.contains (if srcId = resolvedEntityId then tgtId else srcId)).map Prod.fst

/-- `_auto_unpark_edges`. -/
def autoUnparkEdges (resolvedEntityId : Uuid) : Co Unit := do
  let s ← get
  if s.sessionFactory then
    let ids := edgesToUnpark s resolvedEntityId
    if !ids.isEmpty then
      let rows ← service (.selectEdges ids)
      forEach rows fun (edge, tenantId) => do
        publish deps.py deps.pyd "outbox.edge.upsert" (.edge (edge.backfillEvent tenantId))
        modify (·.unparkEdge edge.id)

/-- `_handle_entity_failure`. -/
def handleEntityFailure (entityId : Uuid) (msg : Message EntityUpsertEvent) (exc : Exc) :
    Co Unit := do
  let s ← get
  let attempt := s.entityAttempts.getD entityId 0 + 1
  modify fun s => { s with entityAttempts := s.entityAttempts.set entityId attempt }
  if attempt ≤ maxRetriesBeforePark then
    nak msg.delivery (some (2 ^ attempt))
  else
    modify (·.parkEntity entityId)
    routeToDlq deps msg msg.payload.modelDump "ingest.dlq.outbox_entity"
      ("Processing failed: " ++ exc.text)

/-- `{**base, **update}`: the members of `update` replace those of `base`. -/
def mergeDict (base update : Metadata) : Metadata :=
  update.foldl (fun d (k, v) =>
    if d.any (·.1 = k) then d.map fun p => if p.1 = k then (k, v) else p
    else d ++ [(k, v)]) base

/-- The text of an entity that is embedded. -/
def entityText (event : EntityUpsertEvent) : String :=
  "Entity: " ++ event.entityType ++ " " ++ event.name ++ " (" ++ event.displayName ++ "). "
    ++ "Metadata: " ++ deps.py.repr (.obj event.metadata)

/-- The graph write for an entity event. -/
def entityUpsert (event : EntityUpsertEvent) (entityId sourceId : Uuid) : EntityUpsert where
  id := entityId
  sourceId := sourceId
  entityType := event.entityType
  name := event.name
  displayName := event.displayName
  metadata := event.metadata
  version := event.version
  bypassSourceCheckpoint := event.isBackfill

/-- The chunk write for an entity event. -/
def entityChunks (event : EntityUpsertEvent) (workspaceId sourceId : Uuid)
    (embedding : Embedding) : ChunksUpsert where
  sourceId := sourceId
  externalId := "entity:" ++ event.id
  uri := "entity://" ++ event.entityType ++ "/" ++ event.name
  title := some event.displayName
  contentHash := event.contentHash.getD
    (deps.entityContentHash event.entityType event.name event.displayName event.metadata)
  metadata := [("workspace_id", .str workspaceId.str)]
  chunks := [{
    ord := 0
    text := entityText deps event
    embedding := embedding
    symbol := event.name
    metadata := mergeDict
      [("workspace_id", .str workspaceId.str), ("entity_type", .str event.entityType),
        ("name", .str event.name), ("display_name", .str event.displayName)] event.metadata
    embeddingModel := deps.modelName
    embeddingProvider := deps.providerName
    parserVersion := "outbox_v1"
    chunkerStrategy := "entity_outbox" }]
  version := event.version

/-- `embeddings[0]`. -/
def firstEmbedding : List Embedding → Except Exc Embedding
  | [] => .error ⟨.indexError, "list index out of range"⟩
  | e :: _ => .ok e

/-- The writes of `_consume_entities` to the two stores, and what follows them. -/
def writeEntity (entityId : Uuid) (msg : Message EntityUpsertEvent) : Co Unit := do
  let event := msg.payload
  let workspaceId ← lift (workspaceOf event.workspaceId)
  let sourceId ← lift (uuidOf event.sourceId)
  service (.upsertEntity (entityUpsert event entityId sourceId) workspaceId)
  let embeddings ← service (.embed [entityText deps event])
  let embedding ← lift (firstEmbedding embeddings)
  service (.upsertChunks (entityChunks deps event workspaceId sourceId embedding))
  modify fun s => { s with entityAttempts := s.entityAttempts.pop entityId }
  ack msg.delivery
  autoUnparkEdges deps entityId

/-- The `try` block of `_consume_entities` from the point where `entity_id` is bound. -/
def processEntity (entityId : Uuid) (msg : Message EntityUpsertEvent) : Co Unit := do
  modify fun s => if msg.payload.isBackfill then s.clearEntity entityId else s
  let s ← get
  if s.parkedEntities.contains entityId then
    routeToDlq deps msg msg.payload.modelDump "ingest.dlq.outbox_entity"
      ("Entity " ++ entityId.str ++ " is parked due to previous failure")
  else
    writeEntity deps entityId msg

/-- The `except` block of `_consume_entities`: `entityId` is the local variable `entity_id`, if it
is bound. -/
def exceptEntity (entityId : Option Uuid) (msg : Message EntityUpsertEvent) (exc : Exc) : Co Unit :=
  match entityId with
  | some entityId => handleEntityFailure deps entityId msg exc
  | none => nak msg.delivery none

/-- One iteration of `_consume_entities`.  `entityId` is the local variable `entity_id` as the
earlier iterations left it: the `except` block finds that binding when the id of this message is
not a UUID. -/
def consumeEntity (entityId : Option Uuid) (msg : Message EntityUpsertEvent) :
    Co (Option Uuid) := do
  match uuidOf msg.payload.id with
  | .error exc =>
    exceptEntity deps entityId msg exc
    return entityId
  | .ok entityId =>
    (processEntity deps entityId msg).tryCatch (exceptEntity deps (some entityId) msg)
    return some entityId

/-! ### Edges -/

/-- The local variables of `_consume_edges` that its `except` block reads. -/
structure EdgeLocals where
  edgeId : Option Uuid := none
  sourceEntityId : Option Uuid := none
  targetEntityId : Option Uuid := none

/-- `_handle_edge_failure`. -/
def handleEdgeFailure (edgeId sourceEntityId targetEntityId : Uuid)
    (msg : Message EdgeUpsertEvent) (exc : Exc) : Co Unit := do
  let s ← get
  let attempt := s.edgeAttempts.getD edgeId 0 + 1
  modify fun s => { s with edgeAttempts := s.edgeAttempts.set edgeId attempt }
  if attempt ≤ maxRetriesBeforePark then
    nak msg.delivery (some (2 ^ attempt))
  else
    modify (·.parkEdge edgeId sourceEntityId targetEntityId)
    routeToDlq deps msg msg.payload.modelDump "ingest.dlq.outbox_edge"
      ("Processing failed: " ++ exc.text)

/-- The first three assignments of the `try` block: the variables they bind, and the error of the
one that failed. -/
def EdgeLocals.assign (l : EdgeLocals) (event : EdgeUpsertEvent) :
    EdgeLocals × Except Exc (Uuid × Uuid × Uuid) :=
  match uuidOf event.id with
  | .error exc => (l, .error exc)
  | .ok edgeId =>
    let l := { l with edgeId := some edgeId }
    match uuidOf event.sourceEntityId with
    | .error exc => (l, .error exc)
    | .ok sourceEntityId =>
      let l := { l with sourceEntityId := some sourceEntityId }
      match uuidOf event.targetEntityId with
      | .error exc => (l, .error exc)
      | .ok targetEntityId =>
        ({ l with targetEntityId := some targetEntityId },
          .ok (edgeId, sourceEntityId, targetEntityId))

/-- The graph write for an edge event. -/
def edgeUpsert (event : EdgeUpsertEvent) (sourceEntityId targetEntityId : Uuid) : EdgeUpsert where
  sourceEntityId := sourceEntityId
  targetEntityId := targetEntityId
  edgeType := event.edgeType
  metadata := event.metadata
  version := event.version
  bypassSourceCheckpoint := event.isBackfill

/-- The write of `_consume_edges` to the graph store, and what follows it. -/
def writeEdge (edgeId sourceEntityId targetEntityId : Uuid) (msg : Message EdgeUpsertEvent) :
    Co Unit := do
  let event := msg.payload
  let workspaceId ← lift (workspaceOf event.workspaceId)
  service (.upsertEdge (edgeUpsert event sourceEntityId targetEntityId) workspaceId)
  modify fun s => { s with edgeAttempts := s.edgeAttempts.pop edgeId }
  ack msg.delivery

/-- The `try` block of `_consume_edges` after the three assignments. -/
def processEdge (edgeId sourceEntityId targetEntityId : Uuid) (msg : Message EdgeUpsertEvent) :
    Co Unit := do
  modify fun s => if msg.payload.isBackfill then s.clearEdge edgeId else s
  let s ← get
  if s.parkedEdges.contains edgeId then
    routeToDlq deps msg msg.payload.modelDump "ingest.dlq.outbox_edge"
      ("Edge " ++ edgeId.str ++ " is parked due to previous failure")
  else if s.parkedEntities.contains sourceEntityId ∨ s.parkedEntities.contains targetEntityId then
    modify (·.parkEdge edgeId sourceEntityId targetEntityId)
    routeToDlq deps msg msg.payload.modelDump "ingest.dlq.outbox_edge"
      ("Edge " ++ edgeId.str ++ " involves parked entities")
  else
    writeEdge edgeId sourceEntityId targetEntityId msg

/-- The error of reading an unbound local variable. -/
def unboundLocal (name : String) : Exc where
  kind := .unboundLocalError
  text := "cannot access local variable '" ++ name ++ "' where it is not associated with a value"

/-- The `except` block of `_consume_edges`.  It tests `edge_id` only: when that variable is bound
and one of the other two is not, evaluating the arguments raises. -/
def EdgeLocals.exceptEdge (l : EdgeLocals) (msg : Message EdgeUpsertEvent) (exc : Exc) : Co Unit :=
  match l.edgeId, l.sourceEntityId, l.targetEntityId with
  | none, _, _ => nak msg.delivery none
  | some _, none, _ => .raise (unboundLocal "source_entity_id")
  | some _, some _, none => .raise (unboundLocal "target_entity_id")
  | some edgeId, some sourceEntityId, some targetEntityId =>
    handleEdgeFailure deps edgeId sourceEntityId targetEntityId msg exc

/-- One iteration of `_consume_edges`. -/
def consumeEdge (l : EdgeLocals) (msg : Message EdgeUpsertEvent) : Co EdgeLocals := do
  match l.assign msg.payload with
  | (l, .error exc) =>
    l.exceptEdge deps msg exc
    return l
  | (l, .ok (edgeId, sourceEntityId, targetEntityId)) =>
    (processEdge deps edgeId sourceEntityId targetEntityId msg).tryCatch (l.exceptEdge deps msg)
    return l

/-! ### Merges -/

/-- The `try` block of `_consume_merges`. -/
def processMerge (msg : Message EntityMergeEvent) : Co Unit := do
  let event := msg.payload
  let workspaceId ← lift (uuidOf event.workspaceId)
  if msg.subject.endsWith "entity.merge" then
    match event.sourceId, event.targetId with
    | some sourceId, some targetId =>
      let sourceId ← lift (uuidOf sourceId)
      let targetId ← lift (uuidOf targetId)
      let _ ← service (.mergeNodes workspaceId sourceId targetId)
      ack msg.delivery
    | _, _ => term msg.delivery
  else if msg.subject.endsWith "entity.unmerge" then
    match event.mergedNodeId with
    | some mergedNodeId =>
      let mergedNodeId ← lift (uuidOf mergedNodeId)
      let _ ← service (.unmergeNode workspaceId mergedNodeId)
      ack msg.delivery
    | none => term msg.delivery
  else
    ack msg.delivery

/-- One iteration of `_consume_merges`. -/
def consumeMerge (msg : Message EntityMergeEvent) : Co Unit :=
  (processMerge msg).tryCatch fun exc =>
    routeToDlq deps msg msg.payload.modelDump "ingest.dlq.outbox_merge"
      ("Merge/unmerge processing failed: " ++ exc.text)

/-! ### The un-park loop -/

/-- The ids that have been parked for longer than the timeout. -/
def staleIds (parked : Dict Uuid ℕ) (now : ℕ) : List Uuid :=
  (parked.items.filter fun (_, parkedAt) => parkedAt + unparkTimeout < now).map Prod.fst

/-- Publish backfill events for the stale entities. -/
def backfillEntities (ids : List Uuid) : Co Unit := do
  if !ids.isEmpty then
    let rows ← service (.selectEntities ids)
    forEach rows fun (entity, tenantId) =>
      publish deps.py deps.pyd "outbox.entity.upsert" (.entity (entity.backfillEvent tenantId))

/-- Publish backfill events for the stale edges. -/
def backfillEdges (ids : List Uuid) : Co Unit := do
  if !ids.isEmpty then
    let rows ← service (.selectEdges ids)
    forEach rows fun (edge, tenantId) =>
      publish deps.py deps.pyd "outbox.edge.upsert" (.edge (edge.backfillEvent tenantId))

/-- One round of `_unpark_loop`.  It publishes, and leaves the parked entries where they are. -/
def unparkRound : Co Unit := do
  tryCatch
    (do
      let s ← get
      backfillEntities deps (staleIds s.parkedEntities s.clock)
      backfillEdges deps (staleIds s.parkedEdges s.clock))
    fun _ => .ret ()
  service .sleep

/-! ### The tasks -/

/-- The queue consumers of the worker. -/
structure Consumers where
  entity : QueueConsumer EntityUpsertEvent
  edge : QueueConsumer EdgeUpsertEvent
  merge : QueueConsumer EntityMergeEvent

/-- The consumers that `start` creates, all on the stream of the outbox. -/
def consumers : Consumers where
  entity :=
    { subject := "outbox.entity.upsert", dlqSubject := "ingest.dlq.outbox_entity",
      decode := decodeEntity deps.py deps.pyd }
  edge :=
    { subject := "outbox.edge.upsert", dlqSubject := "ingest.dlq.outbox_edge",
      decode := decodeEdge deps.py deps.pyd }
  merge :=
    { subject := "outbox.entity.*", dlqSubject := "ingest.dlq.outbox_merge",
      decode := decodeMerge deps.pyd }

/-- The tasks that `start` creates. -/
inductive TaskKind where
  | entity
  | edge
  | merge
  | unpark
  deriving DecidableEq

/-- The loop of a task.  A round of a consume loop takes a raw message from its consumer. -/
def loop (cs : Consumers) : TaskKind → Loop (iface Worker Service.Resp)
  | .entity =>
    { Local := Option Uuid, Input := Raw, init := none,
      body := deliver deps.py deps.pyd Worker.clock cs.entity (consumeEntity deps) }
  | .edge =>
    { Local := EdgeLocals, Input := Raw, init := {},
      body := deliver deps.py deps.pyd Worker.clock cs.edge (consumeEdge deps) }
  | .merge =>
    { Local := Unit, Input := Raw, init := (),
      body := deliver deps.py deps.pyd Worker.clock cs.merge fun _ => consumeMerge deps }
  | .unpark =>
    { Local := Unit, Input := Unit, init := (), body := fun _ _ => unparkRound deps }

end Omniscience.Outbox
