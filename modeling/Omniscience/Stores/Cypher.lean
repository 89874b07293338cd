import Omniscience.Lib.PropertyGraph
import Omniscience.Stores.UpsertGraph

/-!
# The statements of the graph store

The database behind `Neo4jGraphStore` as a property graph, and the write statements of `_cypher.py`
on it.  Entities, their states, the daily snapshots and the checkpoints are all nodes, told apart by
a label, and a property may be missing on any of them.  So a statement that matches nodes without a
label, or follows a relationship without asking for a workspace, reaches what it reaches in the
database.  `Stores.Neo4j` has the entities and their histories as tables, which is enough where only
the writers of single workspaces matter.

A time is kept with its type: the writers store the ISO text in `created_at` and `updated_at` and a
temporal value in `valid_from`, `valid_to` and `recorded_at`, and the backfill copies the texts over.

A statement that raises rolls its transaction back.
-/

namespace Omniscience.Cypher

open Outbox
open Neo4j (Config GraphConfig GraphUpsert BatchEdge EdgeParams EntityContent)

/-! ### Nodes and relationships -/

/-- A point in time or a calendar day, each as its ISO text in UTC or as a temporal value. -/
inductive Time where
  | text (moment : ℕ)
  | datetime (moment : ℕ)
  | dateText (day : ℕ)
  | date (day : ℕ)
  deriving DecidableEq

/-- The labels of the store; the two kinds of snapshots are also `Daily`. -/
inductive Label where
  | entity
  | entityState
  | entitySnapshot
  | relationshipSnapshot
  | storeCheckpoint
  | documentCheckpoint
  deriving DecidableEq

/-- The properties of a node. -/
structure Node where
  label : Label
  workspaceId : Option Uuid := none
  id : Option Uuid := none
  sourceId : Option String := none
  kind : Option String := none
  name : Option String := none
  displayName : Option String := none
  chunkId : Option Uuid := none
  cluster : Option String := none
  metadata : Option String := none
  contentHash : Option String := none
  isStub : Option Bool := none
  version : Option ℤ := none
  epoch : Option ℤ := none
  documentId : Option Uuid := none
  fingerprint : Option String := none
  createdAt : Option Time := none
  updatedAt : Option Time := none
  validFrom : Option Time := none
  validTo : Option Time := none
  recordedAt : Option Time := none
  tombstonedAt : Option Time := none
  tierPending : Bool := false
  snapshotDate : Option Time := none
  sourceEntityId : Option Uuid := none
  targetEntityId : Option Uuid := none
  edgeType : Option String := none
  isMerged : Option Bool := none
  mergedInto : Option Uuid := none

/-- The type and the properties of a relationship. -/
structure Rel where
  relType : String
  workspaceId : Option Uuid := none
  sourceId : Option String := none
  metadata : Option String := none
  edgeType : Option String := none
  fingerprint : Option String := none
  createdAt : Option Time := none
  updatedAt : Option Time := none
  validFrom : Option Time := none
  validTo : Option Time := none
  recordedAt : Option Time := none
  tierPending : Bool := false
  originalNodeId : Option Uuid := none
  deriving DecidableEq

abbrev Graph := PropertyGraph Node Rel

/-- The type of the relationships from an entity to its states. -/
def hadState : String := "HAD_STATE"

/-- The node is one of the workspace with the label. -/
def Node.isIn (n : Node) (label : Label) (workspaceId : Uuid) : Bool :=
  n.label = label && n.workspaceId = some workspaceId

/-- The node is the entity of the workspace with the id. -/
def Node.isEntity (n : Node) (workspaceId id : Uuid) : Bool :=
  n.isIn .entity workspaceId && n.id = some id

/-! ### Checkpoints -/

/-- The checkpoint of a source. -/
def Node.isStoreCheckpoint (n : Node) (workspaceId : Uuid) (sourceId : String) : Bool :=
  n.isIn .storeCheckpoint workspaceId && n.sourceId = some sourceId

/-- The checkpoint of a document. -/
def Node.isDocumentCheckpoint (n : Node) (workspaceId : Uuid) (sourceId : String)
    (documentId : Uuid) : Bool :=
  n.isIn .documentCheckpoint workspaceId && n.sourceId = some sourceId &&
    n.documentId = some documentId

/-- `_read_checkpoint`. -/
def readCheckpoint (test : Node → Bool) (g : Graph) : Option ℤ × Option ℤ :=
  Neo4j.foldRecords ((g.nodes.items.filter fun item => test item.2).map fun item =>
    (item.2.version, item.2.epoch))

/-- `_ADVANCE_SOURCE_CHECKPOINT_CYPHER`. -/
def advanceSourceCheckpoint (workspaceId : Uuid) (sourceId : String) (version : ℤ)
    (epoch : Option ℤ) (forced : Bool) (now : ℕ) (g : Graph) : Graph :=
  g.mergeNode (·.isStoreCheckpoint workspaceId sourceId)
    { label := .storeCheckpoint
      workspaceId := some workspaceId
      sourceId := some sourceId
      version := some version
      epoch := epoch
      createdAt := some (.datetime now)
      updatedAt := some (.datetime now) }
    fun n =>
      { n with
        version := if forced then some version
          else Neo4j.advanceVersion version epoch n.version n.epoch
        epoch := if forced then epoch else Neo4j.advanceEpoch epoch n.epoch
        updatedAt := some (.datetime now) }

/-- `_ADVANCE_DOCUMENT_CHECKPOINT_CYPHER`. -/
def advanceDocumentCheckpoint (workspaceId : Uuid) (sourceId : String) (documentId : Uuid)
    (version : ℤ) (epoch : Option ℤ) (now : ℕ) (g : Graph) : Graph :=
  g.mergeNode (·.isDocumentCheckpoint workspaceId sourceId documentId)
    { label := .documentCheckpoint
      workspaceId := some workspaceId
      sourceId := some sourceId
      documentId := some documentId
      version := some version
      epoch := epoch
      createdAt := some (.datetime now)
      updatedAt := some (.datetime now) }
    fun n =>
      { n with
        version := Neo4j.advanceVersion version epoch n.version n.epoch
        epoch := Neo4j.advanceEpoch epoch n.epoch
        updatedAt := some (.datetime now) }

/-! ### Entities -/

/-- The node with another content. -/
def Node.withContent (n : Node) (content : EntityContent) (now : ℕ) : Node :=
  { n with
    sourceId := some content.sourceId
    kind := some content.kind
    name := some content.name
    displayName := some content.displayName
    chunkId := content.chunkId
    cluster := content.cluster
    metadata := some content.metadata
    updatedAt := some (.text now) }

/-- The node with a version that is valid from now on. -/
def Node.stamp (n : Node) (fingerprint : String) (now : ℕ) : Node :=
  { n with
    fingerprint := some fingerprint
    validFrom := some (.datetime now)
    validTo := none
    recordedAt := some (.datetime now) }

/-- The node with the properties of an entity, all but its version. -/
def Node.write (n : Node) (py : Py) (entity : EntityUpsert) (now : ℕ) : Node :=
  { n.withContent (Neo4j.contentOf py entity) now with
    contentHash := entity.contentHash
    isStub := some false }

/-- An entity without properties other than its key. -/
def bareEntity (workspaceId id : Uuid) : Node :=
  { label := .entity, workspaceId := some workspaceId, id := some id }

variable (cfg : Config)

/-- `_UPSERT_ENTITY_CYPHER`. -/
def mergeEntity (entity : EntityUpsert) (workspaceId : Uuid) (now : ℕ) (g : Graph) : Graph :=
  g.mergeNode (·.isEntity workspaceId entity.id)
    { (bareEntity workspaceId entity.id).write cfg.py entity now with
      createdAt := some (.text now) }
    fun n => n.write cfg.py entity now

/-- The node after a versioned write: it is written if the version exceeds its own. -/
def casNode (entity : EntityUpsert) (version : ℤ) (now : ℕ) (n : Node) : Node :=
  if entity.forcedReplay || n.version.getD (-1) < version then
    let written := { n.write cfg.py entity now with version := some version }
    if cfg.bitemporal then written.stamp (cfg.entityFingerprint entity) now else written
  else n

/-- `_UPSERT_ENTITY_CAS_CYPHER` and its bitemporal variant. -/
def casEntity (entity : EntityUpsert) (workspaceId : Uuid) (version : ℤ) (now : ℕ) (g : Graph) :
    Graph :=
  g.mergeNode (·.isEntity workspaceId entity.id)
    (casNode cfg entity version now (bareEntity workspaceId entity.id))
    (casNode cfg entity version now)

/-- The node is a state that has not ended. -/
def Node.isOpenState (n : Node) : Bool := n.label = .entityState && n.validTo.isNone

/-- The relationship leads from one of the nodes to an open state, and is open like it. -/
def holdsOpenState (g : Graph) (selected : ℕ → Bool) (r : Arc Rel) : Bool :=
  selected r.source && r.data.relType = hadState && r.data.validTo.isNone &&
    g.has Node.isOpenState r.target

/-- The open states of the nodes end, with the relationships that hold them. -/
def closeStates (selected : ℕ → Bool) (now : ℕ) (g : Graph) : Graph :=
  (g.setRels fun r =>
      if holdsOpenState g selected r then { r.data with validTo := some (.datetime now) }
      else r.data).setNodes fun i n =>
    if g.rels.any fun r => holdsOpenState g selected r && r.target = i then
      { n with validTo := some (.datetime now) }
    else n

/-- `state_changed`: the fingerprint differs and the node was not created by this transaction; a
node without `created_at` makes the comparison `null`. -/
def stateChanged (entity : EntityUpsert) (now : ℕ) (n : Node) : Bool :=
  n.fingerprint.getD "" ≠ cfg.entityFingerprint entity && n.createdAt.isSome &&
    n.createdAt ≠ some (.text now)

/-- The node leads to a state. -/
def holdsState (g : Graph) (i : ℕ) : Bool :=
  g.rels.any fun r => r.source = i && r.data.relType = hadState &&
    g.has (fun s => s.label = .entityState) r.target

/-- The state that a write of the entity creates. -/
def newState (entity : EntityUpsert) (workspaceId : Uuid) (now : ℕ) : Node :=
  let content := Neo4j.contentOf cfg.py entity
  { label := .entityState
    workspaceId := some workspaceId
    id := some entity.id
    validFrom := some (.datetime now)
    recordedAt := some (.datetime now)
    kind := some content.kind
    sourceId := some content.sourceId
    name := some content.name
    displayName := some content.displayName
    chunkId := content.chunkId
    cluster := content.cluster
    metadata := some content.metadata }

/-- The state has the key of the constraint `entity_state_workspace_id_valid_from_unique`. -/
def Node.isState (n : Node) (workspaceId id : Uuid) (validFrom : Time) : Bool :=
  n.isIn .entityState workspaceId && n.id = some id && n.validFrom = some validFrom

/-- Add the state of a write, with the relationship that holds it. -/
def addState (entity : EntityUpsert) (workspaceId : Uuid) (now : ℕ) (i : ℕ) (g : Graph) :
    Except Exc Graph :=
  if g.nodes.items.any fun item => item.2.isState workspaceId entity.id (.datetime now) then
    .error ⟨.external, "Neo.ClientError.Schema.ConstraintValidationFailed"⟩
  else
    .ok ((g.create (newState cfg entity workspaceId now)).connect
      ⟨i, g.fresh,
        { relType := hadState
          workspaceId := some workspaceId
          validFrom := some (.datetime now)
          recordedAt := some (.datetime now) }⟩)

/-- The rows of `_UPSERT_ENTITY_BITEMPORAL_CYPHER` after its `MERGE`: an entity is written when its
fingerprint differs, and its open states are closed then; it gets a new state, also if it had
none. -/
def versionEntity (entity : EntityUpsert) (workspaceId : Uuid) (now : ℕ) (g : Graph) (i : ℕ) :
    Except Exc Graph :=
  let changed := g.has (stateChanged cfg entity now) i
  let written :=
    if changed then
      closeStates (· = i) now (g.setNodes fun j n =>
        if j = i then
          (n.withContent (Neo4j.contentOf cfg.py entity) now).stamp (cfg.entityFingerprint entity)
            now
        else n)
    else g
  if changed || !holdsState written i then addState cfg entity workspaceId now i written
  else .ok written

/-- `_UPSERT_ENTITY_BITEMPORAL_CYPHER`. -/
def mergeEntityBitemporal (entity : EntityUpsert) (workspaceId : Uuid) (now : ℕ) (g : Graph) :
    Except Exc Graph :=
  let merged := g.mergeNode (·.isEntity workspaceId entity.id)
    { ((bareEntity workspaceId entity.id).withContent (Neo4j.contentOf cfg.py entity) now).stamp
        (cfg.entityFingerprint entity) now with
      createdAt := some (.text now) }
    fun n => n
  (merged.refs (·.isEntity workspaceId entity.id)).foldlM
    (versionEntity cfg entity workspaceId now) merged

/-- `Neo4jGraphStore.upsert_entity`. -/
def upsertEntity (entity : EntityUpsert) (workspaceId : Uuid) (now : ℕ) (g : Graph) :
    Except Exc Graph :=
  match entity.version with
  | some version =>
    let applied := readCheckpoint (·.isStoreCheckpoint workspaceId entity.sourceId.str) g
    if Neo4j.isStale version entity.epoch applied.1 applied.2
        (entity.forcedReplay || entity.bypassSourceCheckpoint) then .ok g
    else
      .ok (casEntity cfg entity workspaceId version now
        (advanceSourceCheckpoint workspaceId entity.sourceId.str version entity.epoch
          entity.forcedReplay now g))
  | none =>
    if cfg.bitemporal then mergeEntityBitemporal cfg entity workspaceId now g
    else .ok (mergeEntity cfg entity workspaceId now g)

/-! ### Edges -/

/-- The relationship is of the type and the workspace. -/
def Rel.isOf (r : Rel) (relType : String) (workspaceId : Uuid) : Bool :=
  r.relType = relType && r.workspaceId = some workspaceId

/-- A relationship with the properties of the edge, without a validity window. -/
def newRel (workspaceId : Uuid) (edgeType : String) (sourceId : Option String) (metadata : String)
    (now : ℕ) : Rel where
  relType := edgeType
  workspaceId := some workspaceId
  sourceId := sourceId
  metadata := some metadata
  edgeType := some edgeType
  createdAt := some (.text now)
  updatedAt := some (.text now)

/-- The pairs of nodes that the two `MATCH` clauses of an edge statement bind. -/
def endsOf (params : EdgeParams) (workspaceId : Uuid) (g : Graph) : List (ℕ × ℕ) :=
  (g.refs (·.isEntity workspaceId params.sourceIdEnt)).flatMap fun a =>
    (g.refs (·.isEntity workspaceId params.targetIdEnt)).map fun b => (a, b)

/-- `_UPSERT_EDGE_CYPHER_TEMPLATE`. -/
def mergeEdge (params : EdgeParams) (workspaceId : Uuid) (now : ℕ) (g : Graph) : Graph :=
  let metadata := Neo4j.serialiseMetadata cfg.py params.metadata
  (endsOf params workspaceId g).foldl (fun g pair =>
    g.mergeRel pair.1 pair.2 (·.isOf params.edgeType workspaceId)
      (newRel workspaceId params.edgeType (some params.sourceId) metadata now)
      fun r =>
        { r with
          sourceId := some params.sourceId
          metadata := some metadata
          updatedAt := some (.text now) }) g

/-- The relationship joins the pair, and is an open one of the type and the workspace. -/
def isOpenBetween (pair : ℕ × ℕ) (relType : String) (workspaceId : Uuid) (r : Arc Rel) : Bool :=
  r.source = pair.1 && r.target = pair.2 && r.data.isOf relType workspaceId &&
    r.data.validTo.isNone

/-- The rows of `_UPSERT_EDGE_BITEMPORAL_CYPHER_TEMPLATE` for a pair of nodes: each open
relationship with another fingerprint is closed and replaced. -/
def versionEdge (params : EdgeParams) (workspaceId : Uuid) (now : ℕ) (g : Graph) (pair : ℕ × ℕ) :
    Graph :=
  let fingerprint := params.fingerprint cfg
  let created : Arc Rel := ⟨pair.1, pair.2,
    { newRel workspaceId params.edgeType (some params.sourceId)
        (Neo4j.serialiseMetadata cfg.py params.metadata) now with
      fingerprint := some fingerprint
      validFrom := some (.datetime now)
      recordedAt := some (.datetime now) }⟩
  let isSuperseded (r : Arc Rel) : Bool :=
    isOpenBetween pair params.edgeType workspaceId r && r.data.fingerprint.getD "" ≠ fingerprint
  if g.rels.any (isOpenBetween pair params.edgeType workspaceId) then
    (g.rels.filter isSuperseded).foldl (fun g _ => g.connect created)
      (g.setRels fun r =>
        if isSuperseded r then
          { r.data with validTo := some (.datetime now), updatedAt := some (.text now) }
        else r.data)
  else g.connect created

/-- `_UPSERT_EDGE_BITEMPORAL_CYPHER_TEMPLATE`. -/
def mergeEdgeBitemporal (params : EdgeParams) (workspaceId : Uuid) (now : ℕ) (g : Graph) : Graph :=
  (endsOf params workspaceId g).foldl (versionEdge cfg params workspaceId now) g

/-- The edge statement of the configuration. -/
def writeEdge (params : EdgeParams) (workspaceId : Uuid) (now : ℕ) (g : Graph) : Graph :=
  if cfg.bitemporal then mergeEdgeBitemporal cfg params workspaceId now g
  else mergeEdge cfg params workspaceId now g

/-- `Neo4jGraphStore.upsert_edge`. -/
def upsertEdge (edge : EdgeUpsert) (workspaceId : Uuid) (now : ℕ) (g : Graph) :
    Except Exc Graph :=
  if !Neo4j.isValidEdgeType edge.edgeType then
    .error ⟨.valueError, "invalid_edge_type:" ++ edge.edgeType⟩
  else
    match edge.version, Neo4j.edgeSource cfg edge.metadata with
    | some version, some sourceId =>
      let applied := readCheckpoint (·.isStoreCheckpoint workspaceId sourceId) g
      if Neo4j.isStale version edge.epoch applied.1 applied.2
          (edge.forcedReplay || edge.bypassSourceCheckpoint) then .ok g
      else .ok (writeEdge cfg (Neo4j.edgeParams cfg edge) workspaceId now
        (advanceSourceCheckpoint workspaceId sourceId version edge.epoch edge.forcedReplay now g))
    | _, _ => .ok (writeEdge cfg (Neo4j.edgeParams cfg edge) workspaceId now g)

/-- `existing_id`: of the entities with the name rather a real one than a stub, and then the one
with the least id. -/
def findByName (workspaceId : Uuid) (name : String) (g : Graph) : Option Uuid :=
  let named := g.nodes.items.filterMap fun item =>
    if item.2.isIn .entity workspaceId && item.2.name = some name then
      item.2.id.map fun id => (item.2.isStub.getD false, id)
    else none
  (named.argmin fun found => toLex (found.1, found.2.toNat)).map Prod.snd

variable (gcfg : GraphConfig)

/-- `_UPSERT_EDGE_BY_NAME_CYPHER_TEMPLATE`. -/
def mergeEdgeByName (source : Uuid) (targetName edgeType : String) (sourceId : Option String)
    (metadata : Metadata) (workspaceId : Uuid) (now : ℕ) (g : Graph) : Graph :=
  let text := Neo4j.serialiseMetadata gcfg.py metadata
  (g.refs (·.isEntity workspaceId source)).foldl (fun g a =>
    let target :=
      (findByName workspaceId targetName g).getD (gcfg.stubEntityId workspaceId targetName)
    let merged := g.mergeNode (·.isEntity workspaceId target)
      { bareEntity workspaceId target with
        name := some targetName
        isStub := some true
        createdAt := some (.text now) }
      fun n => n
    (merged.refs (·.isEntity workspaceId target)).foldl (fun g b =>
      g.mergeRel a b (·.isOf edgeType workspaceId)
        (newRel workspaceId edgeType sourceId text now)
        fun r =>
          { r with
            updatedAt :=
              if r.metadata.getD "" ≠ text || sourceId.any (· ≠ r.sourceId.getD "") then
                some (.text now)
              else r.updatedAt
            sourceId := sourceId
            metadata := some text }) merged) g

/-- `Neo4jGraphStore.upsert_edge_by_name`. -/
def upsertEdgeByName (source : Uuid) (targetName edgeType : String) (metadata : Metadata)
    (workspaceId : Uuid) (now : ℕ) (g : Graph) : Except Exc Graph :=
  if !Neo4j.isValidEdgeType edgeType then .error ⟨.valueError, "invalid_edge_type:" ++ edgeType⟩
  else
    let sourceId := match metadata, metadata.lookup "source_id" with
      | [], _ => some ""
      | _, none => none
      | _, some .null => none
      | _, some v => some (gcfg.py.str v)
    .ok (mergeEdgeByName gcfg source targetName edgeType sourceId metadata workspaceId now g)

/-! ### Batches -/

/-- The node is an entity of the source. -/
def Node.isOfSource (n : Node) (workspaceId : Uuid) (sourceId : String) : Bool :=
  n.isIn .entity workspaceId && n.sourceId = some sourceId

/-- `_DELETE_BY_SOURCE_CYPHER`. -/
def deleteBySource (workspaceId : Uuid) (sourceId : String) (g : Graph) : Graph :=
  g.detachDelete (g.has (·.isOfSource workspaceId sourceId))

/-- The selected nodes end, each with the states that are open together with their relationship. -/
def endDateNodes (selected : ℕ → Bool) (now : ℕ) (g : Graph) : Graph :=
  closeStates selected now (g.setNodes fun i n =>
    if selected i then
      { n with validTo := some (.datetime now), updatedAt := some (.text now) }
    else n)

/-- Every open relationship of the workspace at one of the nodes ends. -/
def endDateRels (selected : ℕ → Bool) (workspaceId : Uuid) (now : ℕ) (g : Graph) : Graph :=
  g.setRels fun r =>
    if (selected r.source || selected r.target) && r.data.workspaceId = some workspaceId &&
        r.data.validTo.isNone then
      { r.data with validTo := some (.datetime now), updatedAt := some (.text now) }
    else r.data

/-- `_END_DATE_BY_SOURCE_CYPHER`. -/
def endDateBySource (workspaceId : Uuid) (sourceId : String) (batchEntityIds : List Uuid)
    (now : ℕ) (g : Graph) : Graph :=
  let gone := g.has fun n => n.isOfSource workspaceId sourceId && n.validTo.isNone &&
    n.id.any (· ∉ batchEntityIds)
  let closed := endDateNodes gone now g
  endDateRels (closed.has (·.isOfSource workspaceId sourceId)) workspaceId now closed

/-- The entities of the source that the batch does not have are taken out, by mode. -/
def retire (u : GraphUpsert) (workspaceId : Uuid) (g : Graph) : Graph :=
  if !gcfg.bitemporal then deleteBySource workspaceId u.sourceId.str g
  else match u.snapshotAt with
    | some snapshotAt =>
      endDateBySource workspaceId u.sourceId.str (u.entities.map EntityUpsert.id) snapshotAt g
    | none => g

/-- The entity statement of the configuration, for an entity of the batch. -/
def writeEntity (u : GraphUpsert) (workspaceId : Uuid) (now : ℕ) (g : Graph)
    (entity : EntityUpsert) : Except Exc Graph :=
  let entity := { entity with sourceId := u.sourceId }
  if gcfg.bitemporal then mergeEntityBitemporal gcfg.toConfig entity workspaceId now g
  else .ok (mergeEntity gcfg.toConfig entity workspaceId now g)

/-- The statement for an edge of the batch, if it has one. -/
def writeBatchEdge (u : GraphUpsert) (workspaceId : Uuid) (now : ℕ) (g : Graph)
    (edge : BatchEdge) : Except Exc Graph :=
  match Neo4j.edgeToParams u edge with
  | .error e => .error e
  | .ok (some params) => .ok (writeEdge gcfg.toConfig params workspaceId now g)
  | .ok none =>
    match edge.targetName, edge.sourceEntityId with
    | none, _ => .ok g
    | some name, source =>
      if name = "" then .ok g
      else if !Neo4j.isValidEdgeType edge.edgeType then
        .error ⟨.valueError, "invalid_edge_type:" ++ edge.edgeType⟩
      else match source with
        -- the text `None` is the id of no node
        | none => .ok g
        | some source => .ok (mergeEdgeByName gcfg source name edge.edgeType
            (some u.sourceId.str) edge.metadata workspaceId now g)

/-- The staleness guard of a batch, and the checkpoints that it advances. -/
def passGuard (u : GraphUpsert) (workspaceId : Uuid) (now : ℕ) (g : Graph) : Option Graph :=
  match u.version with
  | none => some g
  | some version =>
    let sourceId := u.sourceId.str
    let applied := readCheckpoint (·.isDocumentCheckpoint workspaceId sourceId u.documentId) g
    if Neo4j.isStale version u.epoch applied.1 applied.2 u.forcedReplay then none
    else some (advanceSourceCheckpoint workspaceId sourceId version u.epoch u.forcedReplay now
      (advanceDocumentCheckpoint workspaceId sourceId u.documentId version u.epoch now g))

/-- `Neo4jGraphStore.upsert_graph`, on the database. -/
def upsertGraph (u : GraphUpsert) (now : ℕ) (g : Graph) : Except Exc Graph := do
  let workspaceId ← u.workspace gcfg.py
  match passGuard u workspaceId now g with
  | none => return g
  | some guarded =>
    let merged ← u.entities.foldlM (writeEntity gcfg u workspaceId now)
      (retire gcfg u workspaceId guarded)
    u.edges.foldlM (writeBatchEdge gcfg u workspaceId now) merged

/-! ### Tombstones -/

/-- `_DELETE_TOMBSTONED_CYPHER`, which has no workspace. -/
def deleteTombstonedEntities (g : Graph) : Graph :=
  g.detachDelete (g.has fun n => n.label = .entity && n.tombstonedAt.isSome)

/-- `_END_DATE_TOMBSTONED_CYPHER`. -/
def endDateTombstoned (workspaceId : Uuid) (now : ℕ) (g : Graph) : Graph :=
  let tombstoned (n : Node) : Bool := n.isIn .entity workspaceId && n.tombstonedAt.isSome
  let closed := endDateNodes (g.has fun n => tombstoned n && n.validTo.isNone) now g
  endDateRels (closed.has tombstoned) workspaceId now closed

/-- `Neo4jGraphStore.delete_tombstoned`, called for a workspace. -/
def deleteTombstoned (workspaceId : Uuid) (now : ℕ) (g : Graph) : Graph :=
  if cfg.bitemporal then endDateTombstoned workspaceId now g else deleteTombstonedEntities g

/-! ### Batched statements -/

/-- `_loop_count_query` and `_run_backfill_phase`: the statement runs, each time in a transaction of
its own, until a pass counts nothing.  The flag says that it came to this: a pass that raises ends
the loop, and a loop that goes on when the fuel is used up has not ended. -/
def loopCount (pass : Graph → Option (Graph × ℕ)) : ℕ → Graph → Graph × Bool
  | 0, g => (g, false)
  | fuel + 1, g =>
    match pass g with
    | none => (g, false)
    | some (g', 0) => (g', true)
    | some (g', _ + 1) => loopCount pass fuel g'

variable {pass : Graph → Option (Graph × ℕ)}

theorem loopCount_preserves {P : Graph → Prop}
    (hpass : ∀ {g g' n}, P g → pass g = some (g', n) → P g') (fuel : ℕ) {g : Graph} (h : P g) :
    P (loopCount pass fuel g).1 := by
  induction fuel generalizing g with
  | zero => exact h
  | succ fuel ih =>
    rw [loopCount]
    split
    · exact h
    · rename_i g' hg'
      exact hpass h hg'
    · rename_i g' n hg'
      exact ih (hpass h hg')

theorem loopCount_last {fuel : ℕ} {g g' : Graph} (h : loopCount pass fuel g = (g', true)) :
    ∃ g₁, pass g₁ = some (g', 0) := by
  induction fuel generalizing g with
  | zero => cases h
  | succ fuel ih =>
    rw [loopCount] at h
    split at h
    · cases h
    · rename_i g₁ hg₁
      cases h
      exact ⟨g, hg₁⟩
    · exact ih h

theorem loopCount_ends {P : Graph → Prop} (size : Graph → ℕ)
    (hpass : ∀ {g}, P g → ∃ g' n, pass g = some (g', n) ∧ P g' ∧ (0 < n → size g' < size g))
    {fuel : ℕ} {g : Graph} (h : P g) (hfuel : size g < fuel) :
    (loopCount pass fuel g).2 = true := by
  induction fuel generalizing g with
  | zero => omega
  | succ fuel ih =>
    obtain ⟨g', n, hg', hP, hsize⟩ := hpass h
    rw [loopCount, hg']
    cases n with
    | zero => rfl
    | succ n =>
      have hless := hsize (Nat.succ_pos n)
      exact ih hP (by omega)

/-- The statements one after the other; one that does not end keeps the next from starting. -/
def loopAll (passes : List (Graph → Option (Graph × ℕ))) (fuel : ℕ) (g : Graph) : Graph × Bool :=
  passes.foldl (fun acc pass => if acc.2 then loopCount pass fuel acc.1 else acc) (g, true)

/-- `_BACKFILL_ENTITY_PROPS_CYPHER`. -/
def backfillEntityProps (workspaceId : Uuid) (batchSize : ℕ) (g : Graph) : Option (Graph × ℕ) :=
  let batch := (g.refs fun n => n.isIn .entity workspaceId && n.validFrom.isNone).take batchSize
  some (g.setNodes fun i n =>
    if i ∈ batch then
      { n with validFrom := n.createdAt, validTo := none, recordedAt := n.updatedAt }
    else n, batch.length)

/-- The state of an entity as it is. -/
def Node.mirror (n : Node) : Node where
  label := .entityState
  workspaceId := n.workspaceId
  id := n.id
  validFrom := n.validFrom
  validTo := n.validTo
  recordedAt := n.recordedAt
  kind := n.kind
  name := n.name
  displayName := n.displayName
  sourceId := n.sourceId
  chunkId := n.chunkId
  cluster := n.cluster
  metadata := n.metadata

/-- The row of `_BACKFILL_ENTITY_STATE_NODES_CYPHER` for an entity; `MERGE` raises where a property
of its key is null. -/
def backfillState (acc : Graph × ℕ) (i : ℕ) : Option (Graph × ℕ) := do
  let n ← acc.1.nodes.get? i
  let workspaceId ← n.workspaceId
  let id ← n.id
  let validFrom ← n.validFrom
  let merged := acc.1.mergeNode (·.isState workspaceId id validFrom) n.mirror fun s => s
  let states := merged.refs (·.isState workspaceId id validFrom)
  return (states.foldl (fun g s => g.mergeRel i s (·.relType = hadState) { relType := hadState }
    fun r => r) merged, acc.2 + states.length)

/-- `_BACKFILL_ENTITY_STATE_NODES_CYPHER`. -/
def backfillEntityStateNodes (workspaceId : Uuid) (batchSize : ℕ) (g : Graph) :
    Option (Graph × ℕ) :=
  let stateless := (g.refs fun n => n.isIn .entity workspaceId && n.validFrom.isSome).filter
    fun i => !holdsState g i
  (stateless.take batchSize).foldlM backfillState (g, 0)

/-- The relationship is one of the workspace without a validity window. -/
def Rel.isUntimed (r : Rel) (workspaceId : Uuid) : Bool :=
  r.workspaceId = some workspaceId && r.validFrom.isNone

/-- `_BACKFILL_EDGE_PROPS_CYPHER`. -/
def backfillEdgeProps (workspaceId : Uuid) (batchSize : ℕ) (g : Graph) : Option (Graph × ℕ) :=
  some (g.setFirstRels (·.data.isUntimed workspaceId)
    (fun r => { r.data with
      validFrom := r.data.createdAt, validTo := none, recordedAt := r.data.updatedAt }) batchSize,
    min batchSize (g.rels.countP fun r => r.data.isUntimed workspaceId))

/-- `Neo4jGraphStore.backfill_bitemporal`. -/
def backfillBitemporal (workspaceId : Uuid) (batchSize fuel : ℕ) (g : Graph) : Graph × Bool :=
  if batchSize < 1 then (g, false)
  else loopAll [backfillEntityProps workspaceId batchSize,
    backfillEntityStateNodes workspaceId batchSize, backfillEdgeProps workspaceId batchSize] fuel g

end Omniscience.Cypher
