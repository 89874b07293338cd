import Mathlib.Data.Prod.Lex
import Mathlib.Data.String.Basic
import Omniscience.Outbox.Consumer

/-!
# The graph store

The database of `Neo4jGraphStore` and its writes of single entities and edges: the entity nodes
with the states of their history, the checkpoints of sources and documents and the relationships
of a workspace.  A whole batch is written by `upsertGraph`.

An entity write is guarded twice, by the checkpoint of its source (`isStale`) and by the version
of its own node, which has to be exceeded.  An edge write is guarded by a checkpoint only, and no
branch of it sets the `version` of a relationship that `getEdgeVersions` reads.

A write is one transaction: one that raises leaves the graph as it was.
-/

namespace Omniscience.Neo4j

open Outbox Dict

/-! ### The graph -/

/-- The identity of an entity node: workspace and id. -/
abbrev NodeKey := Uuid × Uuid

/-- The properties of an entity node; `MERGE` creates a node without any.  The metadata is JSON
text. -/
structure Node where
  sourceId : Option String := none
  kind : Option String := none
  name : Option String := none
  displayName : Option String := none
  chunkId : Option Uuid := none
  cluster : Option String := none
  metadata : Option String := none
  contentHash : Option String := none
  isStub : Option Bool := none
  version : Option ℤ := none
  fingerprint : Option String := none
  createdAt : Option ℕ := none
  updatedAt : Option ℕ := none
  validFrom : Option ℕ := none
  validTo : Option ℕ := none
  recordedAt : Option ℕ := none

/-- What is said about an entity at one time, which the node and its state have in common. -/
structure EntityContent where
  sourceId : String
  kind : String
  name : String
  displayName : String
  chunkId : Option Uuid
  cluster : Option String
  metadata : String
  deriving DecidableEq

/-- The `HAD_STATE` relationship from a node to one of its states; one that was backfilled has no
properties. -/
structure HadState where
  workspaceId : Option Uuid := none
  validFrom : Option ℕ := none
  validTo : Option ℕ := none
  recordedAt : Option ℕ := none
  deriving DecidableEq

/-- An `EntityState` node: one version of an entity with its validity window, and the relationship
by which the node of the entity holds it. -/
structure EntityState where
  key : NodeKey
  validFrom : ℕ
  validTo : Option ℕ
  recordedAt : ℕ
  content : EntityContent
  link : Option HadState
  deriving DecidableEq

/-- A node that records the version up to which a source was applied.  Databases from before the
uniqueness constraint may hold several for one source. -/
structure StoreCheckpoint where
  workspaceId : Uuid
  sourceId : String
  version : Option ℤ
  epoch : Option ℤ

/-- A node that records the version up to which a document was applied. -/
structure DocumentCheckpoint where
  workspaceId : Uuid
  sourceId : String
  documentId : Uuid
  version : Option ℤ
  epoch : Option ℤ

/-- A relationship between two entity nodes. -/
structure Rel where
  workspaceId : Uuid
  source : NodeKey
  target : NodeKey
  relType : String
  sourceId : String := ""
  metadata : String := ""
  version : Option ℤ := none
  fingerprint : Option String := none
  createdAt : Option ℕ := none
  updatedAt : Option ℕ := none
  validFrom : Option ℕ := none
  validTo : Option ℕ := none
  recordedAt : Option ℕ := none

structure Graph where
  nodes : Dict NodeKey Node := .empty
  states : List EntityState := []
  checkpoints : List StoreCheckpoint := []
  documentCheckpoints : List DocumentCheckpoint := []
  rels : List Rel := []

/-- The configuration of the store, with the hashes of the state of an entity and of an edge. -/
structure Config where
  py : Py
  bitemporal : Bool := false
  entityFingerprint : EntityUpsert → String
  edgeFingerprint : (edgeType sourceId : String) → Metadata → String

/-! ### Checkpoints -/

/-- The larger of two optional numbers. -/
def maxOf (acc raw : Option ℤ) : Option ℤ :=
  match raw, acc with
  | none, acc => acc
  | some candidate, none => some candidate
  | some candidate, some best => if best < candidate then some candidate else some best

/-- The loop of `_read_checkpoint`: the largest version and the largest epoch of the records. -/
def foldRecords (records : List (Option ℤ × Option ℤ)) : Option ℤ × Option ℤ :=
  (records.foldl (fun acc record => maxOf acc record.1) none,
    records.foldl (fun acc record => maxOf acc record.2) none)

/-- `_read_checkpoint` with the query for the checkpoints of a source. -/
def readCheckpoint (g : Graph) (workspaceId : Uuid) (sourceId : String) : Option ℤ × Option ℤ :=
  let found := g.checkpoints.filter fun c => c.workspaceId = workspaceId ∧ c.sourceId = sourceId
  foldRecords (found.map fun c => (c.version, c.epoch))

/-- The checkpoint is that of the document. -/
def DocumentCheckpoint.isOf (c : DocumentCheckpoint) (workspaceId : Uuid) (sourceId : String)
    (documentId : Uuid) : Bool :=
  c.workspaceId = workspaceId ∧ c.sourceId = sourceId ∧ c.documentId = documentId

/-- The checkpoints of a document. -/
def checkpointsOf (g : Graph) (workspaceId : Uuid) (sourceId : String) (documentId : Uuid) :
    List DocumentCheckpoint :=
  g.documentCheckpoints.filter fun c => c.isOf workspaceId sourceId documentId

/-- `_read_checkpoint` with the query for the checkpoints of a document. -/
def readDocumentCheckpoint (g : Graph) (workspaceId : Uuid) (sourceId : String)
    (documentId : Uuid) : Option ℤ × Option ℤ :=
  foldRecords ((checkpointsOf g workspaceId sourceId documentId).map fun c => (c.version, c.epoch))

/-- `a > b` where both are present. -/
def exceeds : Option ℤ → Option ℤ → Bool
  | some a, some b => b < a
  | _, _ => false

/-- `_is_stale`. -/
def isStale (incomingVersion : ℤ) (incomingEpoch appliedVersion appliedEpoch : Option ℤ)
    (forcedReplay : Bool) : Bool :=
  if forcedReplay then false
  else if exceeds incomingEpoch appliedEpoch then false
  else match appliedVersion with
    | some applied => incomingVersion ≤ applied
    | none => false

/-- The version of an advanced checkpoint: a newer epoch restarts the sequence, otherwise it only
climbs. -/
def advanceVersion (version : ℤ) (epoch oldVersion oldEpoch : Option ℤ) : Option ℤ :=
  if exceeds epoch oldEpoch then some version
  else match oldVersion with
    | none => some version
    | some old => if old < version then some version else some old

/-- The epoch of an advanced checkpoint. -/
def advanceEpoch (epoch oldEpoch : Option ℤ) : Option ℤ :=
  match oldEpoch with
  | none => epoch
  | some old => if exceeds epoch (some old) then epoch else some old

/-- The `ON MATCH` part of `_ADVANCE_SOURCE_CHECKPOINT_CYPHER`. -/
def StoreCheckpoint.advance (c : StoreCheckpoint) (version : ℤ) (epoch : Option ℤ)
    (forced : Bool) : StoreCheckpoint :=
  { c with
    version := if forced then some version else advanceVersion version epoch c.version c.epoch
    epoch := if forced then epoch else advanceEpoch epoch c.epoch }

/-- The `ON MATCH` part of `_ADVANCE_DOCUMENT_CHECKPOINT_CYPHER`, which has no forced branch. -/
def DocumentCheckpoint.advance (c : DocumentCheckpoint) (version : ℤ) (epoch : Option ℤ) :
    DocumentCheckpoint :=
  { c with
    version := advanceVersion version epoch c.version c.epoch
    epoch := advanceEpoch epoch c.epoch }

/-- `_ADVANCE_SOURCE_CHECKPOINT_CYPHER`: every checkpoint of the source is advanced, and one is
created if there is none. -/
def advanceCheckpoint (g : Graph) (workspaceId : Uuid) (sourceId : String) (version : ℤ)
    (epoch : Option ℤ) (forced : Bool) : Graph :=
  let isOurs (c : StoreCheckpoint) : Bool := c.workspaceId = workspaceId ∧ c.sourceId = sourceId
  { g with
    checkpoints :=
      if g.checkpoints.any isOurs then
        g.checkpoints.map fun c => if isOurs c then c.advance version epoch forced else c
      else g.checkpoints ++ [⟨workspaceId, sourceId, some version, epoch⟩] }

/-- `_ADVANCE_DOCUMENT_CHECKPOINT_CYPHER`. -/
def advanceDocumentCheckpoint (g : Graph) (workspaceId : Uuid) (sourceId : String)
    (documentId : Uuid) (version : ℤ) (epoch : Option ℤ) : Graph :=
  { g with
    documentCheckpoints :=
      if g.documentCheckpoints.any (·.isOf workspaceId sourceId documentId) then
        g.documentCheckpoints.map fun c =>
          if c.isOf workspaceId sourceId documentId then c.advance version epoch else c
      else g.documentCheckpoints ++ [⟨workspaceId, sourceId, documentId, some version, epoch⟩] }

@[simp] theorem nodes_advanceCheckpoint (g : Graph) (ws : Uuid) (src : String) (v : ℤ)
    (epoch : Option ℤ) (forced : Bool) :
    (advanceCheckpoint g ws src v epoch forced).nodes = g.nodes :=
  rfl

/-! ### The content of an entity -/

/-- `_serialise_metadata`. -/
def serialiseMetadata (py : Py) (metadata : Metadata) : String := py.dumpsSorted (.obj metadata)

/-- `_cluster_from_metadata`. -/
def clusterFromMetadata (py : Py) (metadata : Metadata) : Option String :=
  match metadata.lookup "cluster" with
  | none => none
  | some .null => none
  | some raw => if py.str raw = "" then none else some (py.str raw)

/-- The content of an upsert, as the parameters of the statements have it. -/
def contentOf (py : Py) (entity : EntityUpsert) : EntityContent where
  sourceId := entity.sourceId.str
  kind := entity.entityType
  name := entity.name
  displayName := entity.displayName
  chunkId := entity.chunkId
  cluster := clusterFromMetadata py entity.metadata
  metadata := serialiseMetadata py entity.metadata

/-! ### Fingerprints -/

/-- `sep.join(parts)`. -/
def joinWith (sep : String) : List String → String
  | [] => ""
  | [part] => part
  | part :: parts => part ++ sep ++ joinWith sep parts

mutual

/-- `_stable_repr`: a dictionary is shown with its keys sorted. -/
def stableRepr (py : Py) : Json → String
  | .null => "None"
  | .obj members =>
    let items := (stableReprMembers py members).mergeSort fun a b => toLex a ≤ toLex b
    "\x7b" ++ joinWith "," (items.map fun item => item.1 ++ ":" ++ item.2) ++ "\x7d"
  | .arr items => "[" ++ joinWith "," (stableReprItems py items) ++ "]"
  | v => py.repr v

/-- The items of a list. -/
def stableReprItems (py : Py) : List Json → List String
  | [] => []
  | v :: vs => stableRepr py v :: stableReprItems py vs

/-- The members of a dictionary. -/
def stableReprMembers (py : Py) : List (String × Json) → List (String × String)
  | [] => []
  | (k, v) :: members => (k, stableRepr py v) :: stableReprMembers py members

end

/-- `_entity_state_fingerprint`. -/
def entityStateFingerprint (py : Py) (entity : EntityUpsert) : String :=
  let chunkId := match entity.chunkId with
    | some chunkId => Json.str chunkId.str
    | none => .null
  py.sha256 (joinWith "|" [stableRepr py (.str entity.entityType), stableRepr py (.str entity.name),
    stableRepr py (.str entity.displayName), stableRepr py (.str entity.sourceId.str),
    stableRepr py chunkId, stableRepr py (.obj entity.metadata)])

/-- `_edge_state_fingerprint`. -/
def edgeStateFingerprint (py : Py) (edgeType sourceId : String) (metadata : Metadata) : String :=
  py.sha256 (joinWith "|" [stableRepr py (.str edgeType), stableRepr py (.str sourceId),
    stableRepr py (.obj metadata)])

/-- The store with its own hashes. -/
def Config.source (py : Py) (bitemporal : Bool) : Config where
  py := py
  bitemporal := bitemporal
  entityFingerprint := entityStateFingerprint py
  edgeFingerprint := edgeStateFingerprint py

/-! ### Entities -/

/-- The node with another content. -/
def Node.withContent (n : Node) (content : EntityContent) (now : ℕ) : Node :=
  { n with
    sourceId := some content.sourceId
    kind := some content.kind
    name := some content.name
    displayName := some content.displayName
    chunkId := content.chunkId
    cluster := content.cluster
    metadata := some content.metadata
    updatedAt := some now }

/-- The content of a node that was written; a stub has only a name. -/
def Node.content (n : Node) : Option EntityContent := do
  return ⟨← n.sourceId, ← n.kind, ← n.name, ← n.displayName, n.chunkId, n.cluster, ← n.metadata⟩

/-- The node with a version that is valid from now on. -/
def Node.stamp (n : Node) (fingerprint : String) (now : ℕ) : Node :=
  { n with
    fingerprint := some fingerprint
    validFrom := some now
    validTo := none
    recordedAt := some now }

/-- The node with the properties of an entity, all but its version. -/
def Node.write (n : Node) (py : Py) (entity : EntityUpsert) (now : ℕ) : Node :=
  { n.withContent (contentOf py entity) now with
    contentHash := entity.contentHash
    isStub := some false }

variable (cfg : Config)

/-- The node after a versioned write: it is written if the version exceeds its own. -/
def casNode (entity : EntityUpsert) (version : ℤ) (now : ℕ) (n : Node) : Node :=
  if entity.forcedReplay || n.version.getD (-1) < version then
    let written := { n.write cfg.py entity now with version := some version }
    if cfg.bitemporal then written.stamp (cfg.entityFingerprint entity) now else written
  else n

/-- `_UPSERT_ENTITY_CAS_CYPHER` and its bitemporal variant. -/
def casEntity (entity : EntityUpsert) (workspaceId : Uuid) (version : ℤ) (now : ℕ) (g : Graph) :
    Graph :=
  let n := g.nodes.getD (workspaceId, entity.id) {}
  { g with nodes := g.nodes.set (workspaceId, entity.id) (casNode cfg entity version now n) }

/-- `_UPSERT_ENTITY_CYPHER`. -/
def mergeEntity (entity : EntityUpsert) (workspaceId : Uuid) (now : ℕ) (g : Graph) : Graph :=
  let written := match g.nodes.get? (workspaceId, entity.id) with
    | some n => n.write cfg.py entity now
    | none => { ({} : Node).write cfg.py entity now with createdAt := some now }
  { g with nodes := g.nodes.set (workspaceId, entity.id) written }

/-- The state and its relationship are both open. -/
def EntityState.isOpen (s : EntityState) : Bool :=
  s.validTo.isNone && s.link.any fun h => h.validTo.isNone

/-- The state and its relationship end. -/
def EntityState.close (s : EntityState) (validTo : ℕ) : EntityState :=
  { s with
    validTo := some validTo
    link := s.link.map fun h => { h with validTo := some validTo } }

/-- The state that a write of the entity creates. -/
def newState (entity : EntityUpsert) (workspaceId : Uuid) (now : ℕ) : EntityState where
  key := (workspaceId, entity.id)
  validFrom := now
  validTo := none
  recordedAt := now
  content := contentOf cfg.py entity
  link := some ⟨some workspaceId, some now, none, some now⟩

/-- The node that the `MERGE` of a bitemporal write finds or creates. -/
def foundNode (entity : EntityUpsert) (workspaceId : Uuid) (now : ℕ) (g : Graph) : Node :=
  match g.nodes.get? (workspaceId, entity.id) with
  | some n => n
  | none =>
    { (({} : Node).withContent (contentOf cfg.py entity) now).stamp
        (cfg.entityFingerprint entity) now with
      createdAt := some now }

/-- `state_changed`: the fingerprint differs and the node was not created by this transaction; a
node without `created_at` makes the comparison `null`. -/
def stateChanged (entity : EntityUpsert) (now : ℕ) (n : Node) : Bool :=
  n.fingerprint.getD "" ≠ cfg.entityFingerprint entity ∧ n.createdAt.isSome ∧
    n.createdAt ≠ some now

/-- `_UPSERT_ENTITY_BITEMPORAL_CYPHER`: an existing node is written when its fingerprint differs,
and keeps its hash and its stub mark; its open state is closed then, and a new one created. -/
def mergeEntityBitemporal (entity : EntityUpsert) (workspaceId : Uuid) (now : ℕ) (g : Graph) :
    Except Exc Graph :=
  let key : NodeKey := (workspaceId, entity.id)
  let n := foundNode cfg entity workspaceId now g
  let changed := stateChanged cfg entity now n
  let written := if changed then
      (n.withContent (contentOf cfg.py entity) now).stamp (cfg.entityFingerprint entity) now
    else n
  let closed := if changed then
      g.states.map fun s => if s.key = key ∧ s.isOpen then s.close now else s
    else g.states
  let needNewState := changed || !g.states.any fun s => s.key = key ∧ s.link.isSome
  if !needNewState then
    .ok { g with nodes := g.nodes.set key written, states := closed }
  -- the constraint `entity_state_workspace_id_valid_from_unique`
  else if g.states.any fun s => s.key = key ∧ s.validFrom = now then
    .error ⟨.external, "Neo.ClientError.Schema.ConstraintValidationFailed"⟩
  else
    .ok { g with
      nodes := g.nodes.set key written
      states := closed ++ [newState cfg entity workspaceId now] }

/-- `Neo4jGraphStore.upsert_entity`. -/
def upsertEntity (entity : EntityUpsert) (workspaceId : Uuid) (now : ℕ) (g : Graph) : Graph :=
  match entity.version with
  | some version =>
    let applied := readCheckpoint g workspaceId entity.sourceId.str
    if isStale version entity.epoch applied.1 applied.2
        (entity.forcedReplay || entity.bypassSourceCheckpoint) then g
    else
      casEntity cfg entity workspaceId version now
        (advanceCheckpoint g workspaceId entity.sourceId.str version entity.epoch
          entity.forcedReplay)
  | none =>
    if cfg.bitemporal then
      match mergeEntityBitemporal cfg entity workspaceId now g with
      | .ok g' => g'
      | .error _ => g
    else mergeEntity cfg entity workspaceId now g

/-! ### Edges -/

/-- `_is_valid_edge_type`: a letter, then at most 63 letters, digits and underscores. -/
def isValidEdgeType (value : String) : Bool :=
  match value.toList with
  | [] => false
  | c :: cs => isLetter c && cs.length ≤ 63 && cs.all fun c => isLetter c || c.isDigit || c = '_'
where
  /-- An ASCII letter. -/
  isLetter (c : Char) : Bool := ('A' ≤ c && c ≤ 'Z') || ('a' ≤ c && c ≤ 'z')

/-- The source that the metadata of an edge names, if it is truthy. -/
def edgeSource (metadata : Metadata) : Option String :=
  match metadata.lookup "source_id" with
  | some v => if v.truthy then some (cfg.py.str v) else none
  | none => none

/-- The parameters of the edge statements, without workspace and time. -/
structure EdgeParams where
  sourceIdEnt : Uuid
  targetIdEnt : Uuid
  sourceId : String
  edgeType : String
  metadata : Metadata

/-- The parameters that `upsert_edge` fills in. -/
def edgeParams (edge : EdgeUpsert) : EdgeParams where
  sourceIdEnt := edge.sourceEntityId
  targetIdEnt := edge.targetEntityId
  sourceId := (edgeSource cfg edge.metadata).getD ""
  edgeType := edge.edgeType
  metadata := edge.metadata

/-- The relationship is the one that a write of the edge merges with. -/
def Rel.isOf (r : Rel) (params : EdgeParams) (workspaceId : Uuid) : Bool :=
  r.workspaceId = workspaceId ∧ r.source = (workspaceId, params.sourceIdEnt) ∧
    r.target = (workspaceId, params.targetIdEnt) ∧ r.relType = params.edgeType

/-- The relationship that a write of the edge creates. -/
def newRel (params : EdgeParams) (workspaceId : Uuid) (now : ℕ) : Rel where
  workspaceId := workspaceId
  source := (workspaceId, params.sourceIdEnt)
  target := (workspaceId, params.targetIdEnt)
  relType := params.edgeType
  sourceId := params.sourceId
  metadata := serialiseMetadata cfg.py params.metadata
  createdAt := some now
  updatedAt := some now

/-- `_UPSERT_EDGE_CYPHER_TEMPLATE`. -/
def mergeEdge (params : EdgeParams) (workspaceId : Uuid) (now : ℕ) (rels : List Rel) : List Rel :=
  if rels.any (·.isOf params workspaceId) then
    rels.map fun r => if r.isOf params workspaceId then
      { r with
        sourceId := params.sourceId
        metadata := serialiseMetadata cfg.py params.metadata
        updatedAt := some now }
    else r
  else rels ++ [newRel cfg params workspaceId now]

/-- The fingerprint of the edge. -/
def EdgeParams.fingerprint (params : EdgeParams) : String :=
  cfg.edgeFingerprint params.edgeType params.sourceId params.metadata

/-- The relationship with its fingerprint, valid from now on. -/
def newVersion (params : EdgeParams) (workspaceId : Uuid) (now : ℕ) : Rel :=
  { newRel cfg params workspaceId now with
    fingerprint := some (params.fingerprint cfg)
    validFrom := some now
    recordedAt := some now }

/-- The relationship ends. -/
def Rel.close (r : Rel) (validTo : ℕ) : Rel :=
  { r with validTo := some validTo, updatedAt := some validTo }

/-- The relationship is a still open one of the edge, with another fingerprint. -/
def Rel.isSuperseded (r : Rel) (params : EdgeParams) (workspaceId : Uuid) : Bool :=
  r.isOf params workspaceId && r.validTo.isNone && r.fingerprint.getD "" ≠ params.fingerprint cfg

/-- `_UPSERT_EDGE_BITEMPORAL_CYPHER_TEMPLATE`: an open relationship with another fingerprint is
closed and replaced. -/
def mergeEdgeBitemporal (params : EdgeParams) (workspaceId : Uuid) (now : ℕ) (rels : List Rel) :
    List Rel :=
  let created := newVersion cfg params workspaceId now
  if rels.any fun r => r.isOf params workspaceId && r.validTo.isNone then
    rels.map (fun r => if r.isSuperseded cfg params workspaceId then r.close now else r) ++
      (rels.filter (·.isSuperseded cfg params workspaceId)).map fun _ => created
  else rels ++ [created]

/-- The edge statement of the configuration: its `MATCH` clauses need both ends. -/
def writeEdge (params : EdgeParams) (workspaceId : Uuid) (now : ℕ) (g : Graph) : Graph :=
  if g.nodes.contains (workspaceId, params.sourceIdEnt) ∧
      g.nodes.contains (workspaceId, params.targetIdEnt) then
    { g with
      rels := if cfg.bitemporal then mergeEdgeBitemporal cfg params workspaceId now g.rels
        else mergeEdge cfg params workspaceId now g.rels }
  else g

/-- `Neo4jGraphStore.upsert_edge`. -/
def upsertEdge (edge : EdgeUpsert) (workspaceId : Uuid) (now : ℕ) (g : Graph) :
    Except Exc Graph :=
  if !isValidEdgeType edge.edgeType then
    .error ⟨.valueError, "invalid_edge_type:" ++ edge.edgeType⟩
  else
    match edge.version, edgeSource cfg edge.metadata with
    | some version, some sourceId =>
      let applied := readCheckpoint g workspaceId sourceId
      if isStale version edge.epoch applied.1 applied.2
          (edge.forcedReplay || edge.bypassSourceCheckpoint) then .ok g
      else .ok (writeEdge cfg (edgeParams cfg edge) workspaceId now
        (advanceCheckpoint g workspaceId sourceId version edge.epoch edge.forcedReplay))
    | _, _ => .ok (writeEdge cfg (edgeParams cfg edge) workspaceId now g)

/-! ### What the reconcile worker reads -/

/-- A property of the entity nodes of a workspace, where it is present. -/
def readNodes {β : Type} (prop : Node → Option β) (workspaceId : Uuid) (g : Graph) : Dict Uuid β :=
  .ofList (g.nodes.items.filterMap fun (key, n) =>
    if key.1 = workspaceId then (prop n).map fun v => (key.2, v) else none)

/-- `get_entity_versions`. -/
def getEntityVersions (workspaceId : Uuid) (g : Graph) : Dict Uuid ℤ :=
  readNodes Node.version workspaceId g

/-- `get_entity_content_hashes`. -/
def getEntityContentHashes (workspaceId : Uuid) (g : Graph) : Dict Uuid String :=
  readNodes Node.contentHash workspaceId g

/-- The key and the version of a relationship of the workspace that has one. -/
def Rel.versioned (workspaceId : Uuid) (r : Rel) : Option ((Uuid × Uuid × String) × ℤ) :=
  if r.workspaceId = workspaceId ∧ r.source.1 = workspaceId ∧ r.target.1 = workspaceId then
    r.version.map fun v => ((r.source.2, r.target.2, r.relType), v)
  else none

/-- `get_edge_versions`. -/
def getEdgeVersions (workspaceId : Uuid) (g : Graph) : Dict (Uuid × Uuid × String) ℤ :=
  .ofList (g.rels.filterMap (Rel.versioned workspaceId))

/-! ### The readers and the writers -/

theorem get?_readNodes {β : Type} (prop : Node → Option β) (w id : Uuid) (g : Graph) :
    (readNodes prop w g).get? id = (g.nodes.get? (w, id)).bind prop := by
  obtain ⟨⟨items, nodup⟩, states, checkpoints, documentCheckpoints, rels⟩ := g
  rw [readNodes, get?_ofList, get?]
  induction items with
  | nil => rfl
  | cons item items ih =>
    obtain ⟨⟨ws, id'⟩, n⟩ := item
    rw [List.map_cons, List.nodup_cons] at nodup
    have ih := ih nodup.2
    simp only at ih
    by_cases hkey : (ws, id') = (w, id)
    · -- the key occurs only once, so that the rest of the list contributes nothing
      cases hkey
      have hrest := lookup_eq_none_iff.2 nodup.1
      rw [hrest, Option.bind_none] at ih
      rw [Option.map_eq_none_iff, List.getLast?_eq_none_iff] at ih
      rw [lookup_cons_self, Option.bind_some]
      cases hp : prop n with
      | none => simp [hp, ih]
      | some v => simp [hp, ih]
    · rw [lookup_cons_ne _ (Ne.symm hkey), ← ih]
      -- another entity of the workspace, or another workspace
      by_cases hws : ws = w
      · subst hws
        have hid : id' ≠ id := fun h => hkey (by rw [h])
        cases hp : prop n with
        | none => simp [hp]
        | some v => simp [hp, hid]
      · simp [hws]

section

variable {cfg} {entity : EntityUpsert} {workspaceId ws id w : Uuid} {now : ℕ} {g : Graph}

theorem nodes_casEntity {version : ℤ} :
    (casEntity cfg entity w version now g).nodes = g.nodes.set (w, entity.id)
      (casNode cfg entity version now (g.nodes.getD (w, entity.id) {})) :=
  rfl

theorem casNode_of_lt (cfg : Config) (entity : EntityUpsert) (now : ℕ) {version : ℤ} {n : Node}
    (h : n.version.getD (-1) < version) :
    (casNode cfg entity version now n).version = some version ∧
      (casNode cfg entity version now n).content = some (contentOf cfg.py entity) ∧
      (casNode cfg entity version now n).contentHash = entity.contentHash := by
  rw [casNode, if_pos (by simp [h])]
  dsimp only
  split
  · exact ⟨rfl, rfl, rfl⟩
  · exact ⟨rfl, rfl, rfl⟩

theorem casNode_of_le {version : ℤ} {n : Node} (hforced : entity.forcedReplay = false)
    (h : version ≤ n.version.getD (-1)) : casNode cfg entity version now n = n := by
  rw [casNode, if_neg]
  simp [hforced, h]

theorem mergeEntityBitemporal_cases {g' : Graph}
    (h : mergeEntityBitemporal cfg entity w now g = .ok g') :
    ∃ n states,
      g' = { g with nodes := g.nodes.set (w, entity.id) n, states := states } := by
  rw [mergeEntityBitemporal] at h
  split at h
  · cases h
    exact ⟨_, _, rfl⟩
  · split at h
    · cases h
    · cases h
      exact ⟨_, _, rfl⟩

/-- **The frame of an entity write**: the other nodes stay. -/
theorem get?_nodes_upsertEntity_ne (h : (ws, id) ≠ (w, entity.id)) :
    (upsertEntity cfg entity w now g).nodes.get? (ws, id) = g.nodes.get? (ws, id) := by
  rw [upsertEntity]
  split
  · dsimp only
    split
    · rfl
    · rw [nodes_casEntity, get?_set_ne _ _ h, nodes_advanceCheckpoint]
  · split
    · split
      · rename_i g' hg
        obtain ⟨n, states, rfl⟩ := mergeEntityBitemporal_cases hg
        exact get?_set_ne _ _ h
      · rfl
    · exact get?_set_ne _ _ h

theorem rels_upsertEntity : (upsertEntity cfg entity w now g).rels = g.rels := by
  rw [upsertEntity]
  split
  · dsimp only
    split
    · rfl
    · rfl
  · split
    · split
      · rename_i g' hg
        obtain ⟨n, states, rfl⟩ := mergeEntityBitemporal_cases hg
        rfl
      · rfl
    · rfl

/-- The write of an unforced version is skipped, by the checkpoint or by the node. -/
def Skipped (g : Graph) (workspaceId : Uuid) (sourceId : String) (id : Uuid) (version : ℤ) : Prop :=
  (∃ applied, (readCheckpoint g workspaceId sourceId).1 = some applied ∧ version ≤ applied) ∨
    version ≤ ((g.nodes.get? (workspaceId, id)).bind Node.version).getD (-1)

theorem getD_version_eq (g : Graph) (key : NodeKey) :
    (g.nodes.getD key {}).version = (g.nodes.get? key).bind Node.version := by
  rw [getD]
  cases g.nodes.get? key with
  | none => rfl
  | some n => rfl

theorem getD_contentHash_eq (g : Graph) (key : NodeKey) :
    (g.nodes.getD key {}).contentHash = (g.nodes.get? key).bind Node.contentHash := by
  rw [getD]
  cases g.nodes.get? key with
  | none => rfl
  | some n => rfl

theorem isStale_unforced {v : ℤ} {applied e : Option ℤ} :
    isStale v none applied e false = true ↔ ∃ a, applied = some a ∧ v ≤ a := by
  cases applied with
  | none => simp [isStale, exceeds]
  | some a => simp [isStale, exceeds]

variable {version : ℤ} (hversion : entity.version = some version) (hepoch : entity.epoch = none)
  (hforced : entity.forcedReplay = false) (hbypass : entity.bypassSourceCheckpoint = false)

include hversion hepoch hforced hbypass

/-- **An entity write**: one that is not skipped sets version and hash of the node. -/
theorem node_upsertEntity (hskip : ¬ Skipped g w entity.sourceId.str entity.id version) :
    let n := (upsertEntity cfg entity w now g).nodes.get? (w, entity.id)
    n.bind Node.version = some version ∧ n.bind Node.contentHash = entity.contentHash := by
  rw [Skipped, not_or, not_le] at hskip
  obtain ⟨hstale, hnode⟩ := hskip
  rw [← isStale_unforced (e := (readCheckpoint g w entity.sourceId.str).2),
    Bool.not_eq_true] at hstale
  rw [← getD_version_eq] at hnode
  obtain ⟨hv, -, hhash⟩ := casNode_of_lt cfg entity now hnode
  simp only [upsertEntity, hversion, hepoch, hforced, hbypass, Bool.or_self, hstale,
    Bool.false_eq_true, ↓reduceIte, nodes_casEntity, nodes_advanceCheckpoint, get?_set_self,
    Option.bind_some]
  exact ⟨hv, hhash⟩

theorem node_upsertEntity_skipped (hskip : Skipped g w entity.sourceId.str entity.id version) :
    let n := (upsertEntity cfg entity w now g).nodes.get? (w, entity.id)
    n.bind Node.version = (g.nodes.get? (w, entity.id)).bind Node.version ∧
      n.bind Node.contentHash = (g.nodes.get? (w, entity.id)).bind Node.contentHash := by
  simp only [upsertEntity, hversion, hepoch, hforced, hbypass, Bool.or_self]
  split
  · exact ⟨rfl, rfl⟩
  · rename_i hstale
    -- not stale, so that the node itself is at the version
    have hnode := hskip.resolve_left fun h => hstale (isStale_unforced.2 h)
    rw [← getD_version_eq] at hnode
    simp only [nodes_casEntity, nodes_advanceCheckpoint, get?_set_self,
      casNode_of_le hforced hnode, Option.bind_some]
    exact ⟨getD_version_eq _ _, getD_contentHash_eq _ _⟩

end

/-! ### Edges have no version -/

section

variable {cfg} {edge : EdgeUpsert} {workspaceId w : Uuid} {now : ℕ}

variable (params : EdgeParams)

theorem nodes_writeEdge (g : Graph) : (writeEdge cfg params w now g).nodes = g.nodes := by
  rw [writeEdge]
  split
  · rfl
  · rfl

theorem rels_writeEdge (g : Graph) : (writeEdge cfg params w now g).rels = g.rels ∨
      (writeEdge cfg params w now g).rels = mergeEdge cfg params w now g.rels ∨
      (writeEdge cfg params w now g).rels =
        mergeEdgeBitemporal cfg params w now g.rels := by
  rw [writeEdge]
  split
  · refine .inr ?_
    dsimp only
    split
    · exact .inr rfl
    · exact .inl rfl
  · exact .inl rfl

theorem upsertEdge_cases {g g' : Graph} (h : upsertEdge cfg edge w now g = .ok g') :
    g'.nodes = g.nodes ∧ (g'.rels = g.rels ∨
      g'.rels = mergeEdge cfg (edgeParams cfg edge) w now g.rels ∨
      g'.rels = mergeEdgeBitemporal cfg (edgeParams cfg edge) w now g.rels) := by
  rw [upsertEdge] at h
  split at h
  · cases h
  · split at h
    · dsimp only at h
      split at h
      · cases h
        exact ⟨rfl, .inl rfl⟩
      · -- the checkpoint was advanced before
        cases h
        exact ⟨nodes_writeEdge _ _, rels_writeEdge _ _⟩
    · cases h
      exact ⟨nodes_writeEdge _ g, rels_writeEdge _ g⟩

theorem versioned_newRel (ws : Uuid) : (newRel cfg params w now).versioned ws = none := by
  rw [Rel.versioned]
  split
  · rfl
  · rfl

theorem versioned_newVersion (ws : Uuid) : (newVersion cfg params w now).versioned ws = none := by
  rw [Rel.versioned]
  split
  · rfl
  · rfl

theorem filterMap_versioned_map {f : Rel → Rel} {ws : Uuid}
    (h : ∀ r, (f r).versioned ws = r.versioned ws) (rels : List Rel) :
    (rels.map f).filterMap (Rel.versioned ws) = rels.filterMap (Rel.versioned ws) := by
  rw [List.filterMap_map]
  exact List.filterMap_congr fun r _ => h r

theorem filterMap_versioned_mergeEdge (ws : Uuid) (rels : List Rel) :
    (mergeEdge cfg params w now rels).filterMap (Rel.versioned ws) =
      rels.filterMap (Rel.versioned ws) := by
  rw [mergeEdge]
  split
  · refine filterMap_versioned_map (fun r => ?_) rels
    split
    · rfl
    · rfl
  · simp [versioned_newRel]

theorem filterMap_versioned_mergeEdgeBitemporal (ws : Uuid) (rels : List Rel) :
    (mergeEdgeBitemporal cfg params w now rels).filterMap (Rel.versioned ws) =
      rels.filterMap (Rel.versioned ws) := by
  rw [mergeEdgeBitemporal]
  split
  · rw [List.filterMap_append, filterMap_versioned_map]
    · simp [versioned_newVersion]
    · intro r
      split
      · rfl
      · rfl
  · simp [versioned_newVersion]

/-- **Edge writes do not move versions**: what `getEdgeVersions` reads is the same before and
after. -/
theorem getEdgeVersions_upsertEdge {g g' : Graph}
    (h : upsertEdge cfg edge w now g = .ok g') (ws : Uuid) :
    getEdgeVersions ws g' = getEdgeVersions ws g := by
  rw [getEdgeVersions, getEdgeVersions]
  obtain ⟨-, hrels | hrels | hrels⟩ := upsertEdge_cases h
  · rw [hrels]
  · rw [hrels, filterMap_versioned_mergeEdge]
  · rw [hrels, filterMap_versioned_mergeEdgeBitemporal]

end

end Omniscience.Neo4j
