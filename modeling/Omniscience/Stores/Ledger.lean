import Omniscience.Ingestion.Dedup
import Omniscience.Stores.Documents

/-!
# The ledger and the index writer

`IndexWriter` (`omniscience_index/writer.py`) stores a document twice: as a row of `documents` with
its rows of `chunks` in Postgres, the ledger, and as points of the vector store.  The two writes
are not one transaction.  The ledger is committed first, and each store decides for itself whether
the content is unchanged: the ledger compares the hash with that of its row, the vector store with
that of its current generation, after the checkpoint of the source has let the version through.

`upsertDocument` and `tombstone` are the calls with the faults that can end them half way.
-/

namespace Omniscience

/-- `d[key] = value`, on a dictionary with string keys. -/
def Metadata.set (m : Metadata) (key : String) (value : Json) : Metadata :=
  if key ∈ m.map Prod.fst then m.map fun p => if p.1 = key then (key, value) else p
  else m ++ [(key, value)]

theorem Metadata.lookup_set (m : Metadata) (key : String) (value : Json) :
    (m.set key value).lookup key = some value := by
  unfold Metadata.set
  split_ifs with hmem
  · exact Dict.lookup_map_ite_self hmem
  · rw [List.lookup_append, Dict.lookup_eq_none_iff.2 hmem]
    simp

namespace Ledger

open Outbox

/-! ### The tables -/

/-- `SourceStatus`. -/
inductive SourceStatus where
  | active
  | paused
  | error
  deriving DecidableEq, Repr

/-- A row of `sources`. -/
structure Source where
  id : Uuid
  name : String
  type : String
  status : SourceStatus := .active
  tenantId : Option Uuid := none

/-- A row of `chunks`.  The column `embedding` exists in Lite mode only. -/
structure Chunk where
  id : Uuid
  payload : ChunkPayload
  embedding : Option Embedding := none
  ingestionRunId : Option Uuid := none

/-- A row of `documents` with the chunks that refer to it. -/
structure Document where
  id : Uuid
  uri : String
  title : Option String
  contentHash : String
  metadata : Metadata
  docVersion : ℤ := 1
  indexedAt : DateTime
  tombstonedAt : Option DateTime := none
  chunks : List Chunk := []

/-- What identifies a row of `documents`: its source and its external id. -/
abbrev Key := Uuid × String

/-- The tables. -/
structure Tables where
  sources : List Source := []
  documents : Dict Key Document := .empty

/-- The ids of the chunks of a document. -/
def Tables.chunkIds (t : Tables) (key : Key) : List Uuid :=
  ((t.documents.get? key).map fun doc => doc.chunks.map Chunk.id).getD []

/-! ### The writer -/

/-- `ChunkData`: the id is drawn with `uuid.uuid4()` when the chunk is made. -/
structure ChunkData extends ChunkPayload where
  id : Uuid

/-- The arguments of `upsert_document`. -/
structure DocumentUpsert where
  sourceId : Uuid
  externalId : String
  uri : String
  title : Option String
  contentHash : String
  metadata : Metadata
  chunks : List ChunkData
  ingestionRunId : Option Uuid := none
  epoch : Option ℤ := none
  forcedReplay : Bool := false

/-- The row that the call is about. -/
def DocumentUpsert.key (args : DocumentUpsert) : Key := (args.sourceId, args.externalId)

/-- `_insert_chunks`. -/
def insertChunks (writeChunkEmbedding : Bool) (args : DocumentUpsert) : List Chunk :=
  args.chunks.map fun c =>
    { id := c.id
      payload := c.toChunkPayload
      embedding := if writeChunkEmbedding then some c.embedding else none
      ingestionRunId := args.ingestionRunId }

/-- `_insert_document`, with the chunks. -/
def insertDocument (writeChunkEmbedding : Bool) (args : DocumentUpsert) (documentId : Uuid)
    (now : DateTime) : Document where
  id := documentId
  uri := args.uri
  title := args.title
  contentHash := args.contentHash
  metadata := args.metadata
  indexedAt := now
  chunks := insertChunks writeChunkEmbedding args

/-- `_delete_chunks` and `_update_document`, with the new chunks. -/
def updateDocument (writeChunkEmbedding : Bool) (args : DocumentUpsert) (now : DateTime)
    (doc : Document) : Document where
  id := doc.id
  uri := args.uri
  title := args.title
  contentHash := args.contentHash
  metadata := args.metadata
  docVersion := doc.docVersion + 1
  indexedAt := now
  tombstonedAt := none
  chunks := insertChunks writeChunkEmbedding args

/-- `UpsertResult.action`. -/
inductive Action where
  | created
  | updated
  | unchanged
  deriving DecidableEq, Repr

/-- What the transaction of `upsert_document` makes of the row. -/
def writeRow (writeChunkEmbedding : Bool) (args : DocumentUpsert) (documentId : Uuid)
    (now : DateTime) (existing : Option Document) : Document × Action :=
  match existing with
  | none => (insertDocument writeChunkEmbedding args documentId now, .created)
  | some doc =>
    if doc.contentHash = args.contentHash then (doc, .unchanged)
    else (updateDocument writeChunkEmbedding args now doc, .updated)

/-- The arguments of the vector write. -/
def vectorArgs (args : DocumentUpsert) (workspaceId : Uuid) (docVersion : ℤ) : ChunksUpsert where
  sourceId := args.sourceId
  externalId := args.externalId
  uri := args.uri
  title := args.title
  contentHash := args.contentHash
  metadata := args.metadata.set "workspace_id" (.str workspaceId.str)
  chunks := args.chunks.map ChunkData.toChunkPayload
  version := some docVersion
  epoch := args.epoch
  forcedReplay := args.forcedReplay

/-- The two stores. -/
structure Stores where
  tables : Tables := {}
  vectors : Qdrant.Collection := .empty

/-- A call of `upsert_document` with a workspace: the ids that are drawn for a new document in the
ledger and in the vector store, and the time. -/
structure Upsert where
  args : DocumentUpsert
  workspaceId : Uuid
  documentId : Uuid
  vectorDocumentId : Uuid
  now : DateTime

/-- Where a run can fail: the transaction is rolled back; the first call to the vector store fails;
the upsert of the points fails when the old ones are closed; or something fails when both writes
have been made (the answer of the vector store is lost, or the graph stage raises). -/
inductive Fault where
  | ledger
  | vector
  | closed
  | after
  deriving DecidableEq, Repr

/-- The ids of the points are those of the chunks. -/
def Upsert.draw (u : Upsert) : Qdrant.Draw := ⟨u.vectorDocumentId, u.args.chunks.map ChunkData.id⟩

/-- The vector write decides that it has to be made. -/
def vectorWrites (u : Upsert) (docVersion : ℤ) (c : Qdrant.Collection) : Bool :=
  !Qdrant.skips c (vectorArgs u.args u.workspaceId docVersion) &&
    decide ((Qdrant.findDocument u.workspaceId u.args.sourceId u.args.externalId c).map
      Qdrant.DocumentRecord.contentHash ≠ some u.args.contentHash)

/-- The collection when the current generation of the document is closed. -/
def closeVectors (u : Upsert) (c : Qdrant.Collection) : Qdrant.Collection where
  points := Qdrant.closeDocument
    (Qdrant.findDocument u.workspaceId u.args.sourceId u.args.externalId c) u.workspaceId u.now.val
    c.points
  checkpoints := c.checkpoints
  ascending := Qdrant.ascending_closeDocument c.ascending

/-- `vector_store.upsert_chunks`, with the fault that ends it; `false` is the exception. -/
def vectorStage (u : Upsert) (docVersion : ℤ) (fault : Option Fault) (c : Qdrant.Collection) :
    Qdrant.Collection × Bool :=
  let args := vectorArgs u.args u.workspaceId docVersion
  match fault with
  | some .vector => (c, false)
  | some .closed =>
    if vectorWrites u docVersion c then (closeVectors u c, false) else (c, true)
  | fault =>
    match Qdrant.upsertChunks args u.draw u.now.val c with
    | .ok c' => (c', fault ≠ some .after)
    | .error _ => (c, false)

/-- The row after a call. -/
def rowOf (writeChunkEmbedding : Bool) (u : Upsert) (t : Tables) : Document :=
  (writeRow writeChunkEmbedding u.args u.documentId u.now (t.documents.get? u.args.key)).1

/-- `upsert_document`: the stores afterwards, and whether it returns. -/
def upsertDocument (writeChunkEmbedding : Bool) (u : Upsert) (fault : Option Fault) (s : Stores) :
    Stores × Bool :=
  if fault = some .ledger then (s, false)
  else
    let row := rowOf writeChunkEmbedding u s.tables
    let (vectors, returns) := vectorStage u row.docVersion fault s.vectors
    ({ tables := { s.tables with documents := s.tables.documents.set u.args.key row }
       vectors := vectors }, returns)

/-- `IndexWriter.tombstone`; the vector store is called before the transaction commits.  The fault
is either in that call or in the commit. -/
def tombstone (key : Key) (workspaceId : Uuid) (now : DateTime) (fault : Option Fault)
    (s : Stores) : Stores × Except Exc Bool :=
  match s.tables.documents.get? key with
  | none => (s, .ok false)
  | some doc =>
    if fault = some .vector then (s, .error ⟨.external, "qdrant"⟩)
    else
      let s' := { s with
        vectors := (Qdrant.deleteByDocument workspaceId key.1 key.2 now.val s.vectors).1 }
      if fault.isSome then (s', .error ⟨.external, "postgres"⟩)
      else
        ({ s' with
          tables := { s.tables with
            documents := s.tables.documents.set key { doc with tombstonedAt := some now } } },
          .ok true)

/-- `IndexWriter.purge_tombstones`: the vector store first, then the ledger unless that fails.  Each
takes the time for its own cutoff. -/
def purgeTombstones (vectorCutoff cutoff : ℤ) (fault : Option Fault) (s : Stores) : Stores :=
  if fault = some .vector then s
  else
    let s' := { s with vectors := Qdrant.deleteTombstoned vectorCutoff s.vectors }
    if fault.isSome then s'
    else
      { s' with
        tables := { s.tables with
          documents := s.tables.documents.filter fun _ doc =>
            !doc.tombstonedAt.any fun moment => decide ((moment.val : ℤ) ≤ cutoff) } }

/-! ### What a call does to the row -/

/-- The ledger has another hash for the document, or none. -/
def ledgerWrites (u : Upsert) (t : Tables) : Bool :=
  (t.documents.get? u.args.key).all fun doc => decide (doc.contentHash ≠ u.args.contentHash)

/-- The version of the next row of a document. -/
def nextDocVersion (t : Tables) (key : Key) : ℤ :=
  match t.documents.get? key with
  | none => 1
  | some doc => doc.docVersion + 1

theorem rowOf_of_writes (wce : Bool) {u : Upsert} {t : Tables} (h : ledgerWrites u t = true) :
    (rowOf wce u t).tombstonedAt = none ∧ (rowOf wce u t).chunks = insertChunks wce u.args ∧
      (rowOf wce u t).docVersion = nextDocVersion t u.args.key := by
  unfold rowOf nextDocVersion
  cases hget : t.documents.get? u.args.key with
  | none => exact ⟨rfl, rfl, rfl⟩
  | some doc =>
    have hhash : doc.contentHash ≠ u.args.contentHash := by simpa [ledgerWrites, hget] using h
    simp only [writeRow, if_neg hhash]
    exact ⟨rfl, rfl, rfl⟩

theorem rowOf_of_not_writes (wce : Bool) {u : Upsert} {t : Tables} (h : ledgerWrites u t = false) :
    t.documents.get? u.args.key = some (rowOf wce u t) := by
  unfold rowOf
  cases hget : t.documents.get? u.args.key with
  | none => simp [ledgerWrites, hget] at h
  | some doc =>
    have hhash : doc.contentHash = u.args.contentHash := by simpa [ledgerWrites, hget] using h
    simp [writeRow, hhash]

/-! ### What a call does to the vectors -/

/-- What becomes of the current generation of a document. -/
inductive VectorEffect where
  | kept
  | closed
  | replaced
  deriving DecidableEq, Repr

/-- The effect of the vector write, by its decision and its fault. -/
def vectorEffect (u : Upsert) (docVersion : ℤ) (fault : Option Fault) (c : Qdrant.Collection) :
    VectorEffect :=
  if vectorWrites u docVersion c then
    match fault with
    | some .vector => .kept
    | some .closed => .closed
    | _ => .replaced
  else .kept

/-- The collection when the document is written. -/
def writeVectors (u : Upsert) (docVersion : ℤ) (c : Qdrant.Collection) : Qdrant.Collection :=
  Qdrant.writeDocument (Qdrant.findDocument u.workspaceId u.args.sourceId u.args.externalId c)
    u.workspaceId (vectorArgs u.args u.workspaceId docVersion) u.draw u.now.val c

/-- The document in the vector store. -/
def Upsert.vectorKey (u : Upsert) : Qdrant.DocumentKey :=
  ⟨u.workspaceId, u.args.sourceId, u.args.externalId⟩

section

variable {u : Upsert} {docVersion : ℤ} {fault : Option Fault} {c : Qdrant.Collection}

theorem extractWorkspaceId_vectorArgs (u : Upsert) (docVersion : ℤ) :
    Qdrant.extractWorkspaceId (vectorArgs u.args u.workspaceId docVersion).metadata =
      .ok u.workspaceId := by
  simp only [Qdrant.extractWorkspaceId, vectorArgs, Metadata.lookup_set, uuidOf_str]

theorem vectorWrites_iff : vectorWrites u docVersion c = true ↔
    Qdrant.Written c u.workspaceId (vectorArgs u.args u.workspaceId docVersion) := by
  simp [vectorWrites, Qdrant.Written, vectorArgs]

theorem upsertChunks_vectorArgs :
    Qdrant.upsertChunks (vectorArgs u.args u.workspaceId docVersion) u.draw u.now.val c =
      .ok (if vectorWrites u docVersion c then writeVectors u docVersion c else c) := by
  have hws := extractWorkspaceId_vectorArgs u docVersion
  obtain ⟨c', hc'⟩ := Qdrant.exists_upsertChunks hws u.draw u.now.val c
  rw [hc']
  obtain ⟨hnot, rfl⟩ | ⟨hwritten, rfl⟩ := Qdrant.upsertChunks_cases hws hc'
  · rw [if_neg fun h => hnot (vectorWrites_iff.1 h)]
  · rw [if_pos (vectorWrites_iff.2 hwritten)]
    rfl

theorem vectorStage_fst : (vectorStage u docVersion fault c).1 =
    match vectorEffect u docVersion fault c with
    | .kept => c
    | .closed => closeVectors u c
    | .replaced => writeVectors u docVersion c := by
  unfold vectorStage vectorEffect
  cases hwrites : vectorWrites u docVersion c with
  | false => rcases fault with _ | _ | _ | _ | _ <;> simp [hwrites, upsertChunks_vectorArgs]
  | true => rcases fault with _ | _ | _ | _ | _ <;> simp [hwrites, upsertChunks_vectorArgs]

theorem vectorStage_of_returns (h : (vectorStage u docVersion fault c).2 = true) :
    (vectorStage u docVersion fault c).1 = (vectorStage u docVersion none c).1 := by
  simp only [vectorStage_fst]
  rcases fault with _ | _ | _ | _ | _
  · rfl
  · rfl
  · simp [vectorStage] at h
  · -- the fault is in a write that is not made
    cases hwrites : vectorWrites u docVersion c with
    | false => simp [vectorEffect, hwrites]
    | true => simp [vectorStage, hwrites] at h
  · simp [vectorStage, upsertChunks_vectorArgs] at h

theorem points_closeVectors : (closeVectors u c).points = c.points.map fun p =>
    if p.isCurrent u.vectorKey then p.close u.now.val else p :=
  Qdrant.closeDocument_findDocument u.vectorKey u.now.val c

/-- The points of the chunks, for a document id and a version. -/
def newPoints (u : Upsert) (docVersion : ℤ) (vectorDocumentId : Uuid) (vectorVersion : ℤ) :
    List Qdrant.Point :=
  u.args.chunks.map fun chunk => Qdrant.chunkToPoint
    (vectorArgs u.args u.workspaceId docVersion) u.workspaceId vectorDocumentId vectorVersion
    u.now.val chunk.toChunkPayload chunk.id

theorem current_newPoints {vectorDocumentId : Uuid} {vectorVersion : ℤ} {q : Qdrant.Point}
    (h : q ∈ newPoints u docVersion vectorDocumentId vectorVersion) :
    q.isCurrent u.vectorKey = true ∧ q.tombstonedAt = some none := by
  obtain ⟨chunk, -, rfl⟩ := List.mem_map.1 h
  exact ⟨by simp [Qdrant.Point.isCurrent, Qdrant.chunkToPoint, vectorArgs, Upsert.vectorKey], rfl⟩

theorem points_writeVectors (u : Upsert) (docVersion : ℤ) (c : Qdrant.Collection) :
    ∃ vectorDocumentId vectorVersion, (writeVectors u docVersion c).points =
      Qdrant.addPoints (newPoints u docVersion vectorDocumentId vectorVersion)
        (closeVectors u c).points := by
  simp only [writeVectors, Qdrant.writeDocument, newPoints, vectorArgs, Upsert.draw,
    List.zipWith_map, List.zipWith_self]
  exact ⟨_, _, rfl⟩

end

end Ledger

end Omniscience
