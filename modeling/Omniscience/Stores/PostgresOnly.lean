import Omniscience.Retrieval.Requests
import Omniscience.Stores.Ledger

/-!
# The store of the Lite mode

`PostgresOnlyStore` (`stores/postgres_only_store.py`) serves as the vector store when there is no
Qdrant: it works on the tables of the ledger, with the embeddings in a column of `chunks`.

Two things differ from the index writer and from Qdrant.  `upsert_chunks` updates a row without
touching `tombstoned_at`, so a document that was deleted stays deleted.  `search` drops the strings
of the source filter that are not UUIDs, and the filter itself when nothing is left of it; Qdrant
refuses such a request.
-/

namespace Omniscience.PostgresOnly

open Outbox Ledger Retrieval

/-- The arguments of `upsert_chunks`, each chunk with the id that is drawn for its row. -/
structure ChunksUpsert where
  sourceId : Uuid
  externalId : String
  uri : String
  title : Option String
  contentHash : String
  metadata : Metadata
  chunks : List ChunkData
  ingestionRunId : Option Uuid := none

/-- The new rows of `chunks`; an empty embedding is not written. -/
def newChunks (args : ChunksUpsert) : List Chunk :=
  args.chunks.map fun c =>
    { id := c.id
      payload := c.toChunkPayload
      embedding := if c.embedding = [] then none else some c.embedding
      ingestionRunId := args.ingestionRunId }

/-- `PostgresOnlyStore.upsert_chunks`.  The column `indexed_at` has a default for new rows and is
not set on old ones. -/
def upsertChunks (args : ChunksUpsert) (documentId : Uuid) (now : DateTime) (t : Tables) :
    Tables :=
  let row : Document := match t.documents.get? (args.sourceId, args.externalId) with
    | none =>
      { id := documentId
        uri := args.uri
        title := args.title
        contentHash := args.contentHash
        metadata := args.metadata
        indexedAt := now
        chunks := newChunks args }
    | some doc =>
      { doc with
        uri := args.uri
        title := args.title
        contentHash := args.contentHash
        metadata := args.metadata
        docVersion := doc.docVersion + 1
        chunks := newChunks args }
  { t with documents := t.documents.set (args.sourceId, args.externalId) row }

/-- `PostgresOnlyStore.delete_by_document`. -/
def deleteByDocument (key : Key) (now : DateTime) (t : Tables) : Tables × Bool :=
  match t.documents.get? key with
  | none => (t, false)
  | some doc =>
    if doc.tombstonedAt.isSome then (t, false)
    else
      ({ t with documents := t.documents.set key { doc with tombstonedAt := some now } }, true)

/-- `PostgresOnlyStore.delete_tombstoned`. -/
def deleteTombstoned (cutoff : ℤ) (t : Tables) : Tables :=
  { t with
    documents := t.documents.filter fun _ doc =>
      !doc.tombstonedAt.any fun moment => decide ((moment.val : ℤ) < cutoff) }

/-! ### Search -/

/-- What the store is configured with: the embedding of a query, the distance of pgvector, and the
flag of the degraded mode. -/
structure Config where
  embedQuery : String → Except Exc Embedding
  distance : Embedding → Embedding → ℚ
  degraded : Bool := false

/-- A row of the joined tables. -/
structure Row where
  chunk : Chunk
  document : Document
  source : Source
  distance : Option ℚ

/-- The chunks joined with their documents and their sources. -/
def joined (cfg : Config) (queryVector : Embedding) (t : Tables) : List Row :=
  t.documents.items.flatMap fun p =>
    (t.sources.filter fun source => source.id = p.1.1).flatMap fun source =>
      p.2.chunks.map fun chunk =>
        ⟨chunk, p.2, source, chunk.embedding.map fun embedding =>
          cfg.distance embedding queryVector⟩

/-- The order of `ORDER BY distance`: the rows without a distance come last. -/
def closer (a b : Row) : Prop :=
  match a.distance, b.distance with
  | _, none => True
  | none, some _ => False
  | some x, some y => x ≤ y

instance : DecidableRel closer := fun a b => by
  unfold closer
  split <;> infer_instance

/-- The part of the `WHERE` clause on the source: nothing, if no string is a UUID. -/
def sourceTest (sources : Option (List String)) (row : Row) : Bool :=
  let uuids := (sources.getD []).filterMap Uuid.parse
  uuids.isEmpty || decide (row.source.id ∈ uuids)

/-- The moment before which a document is too old. -/
def ageCutoff (request : SearchRequest) (now : DateTime) : Except Exc (Option DateTime) :=
  match request.maxAgeSeconds with
  | none => .ok none
  | some seconds => do
    let delta ← Dedup.timedelta seconds
    let moment ← Dedup.subtract now delta
    .ok (some moment)

/-- The hit of a row. -/
def hitOf (cfg : Config) (row : Row) : SearchHit :=
  let score := match row.distance with
    | some distance => 1 - distance
    | none => 0
  { chunkId := row.chunk.id
    sourceId := row.source.id
    sourceType := row.source.type
    text := row.chunk.payload.text
    indexedAt := row.document.indexedAt.val
    score := if cfg.degraded then score * (8 / 10) else score
    appliedVersion := some row.document.docVersion }

/-- `PostgresOnlyStore.search`. -/
def search (cfg : Config) (t : Tables) (now : DateTime) : Search :=
    fun request workspaceId asOf => do
  let queryVector ← cfg.embedQuery request.query
  let cutoff ← ageCutoff request now
  let rows := (joined cfg queryVector t).filter fun row =>
    decide (row.source.tenantId = some workspaceId) &&
      (request.includeTombstoned || row.document.tombstonedAt.isNone) &&
      sourceTest request.sources row &&
      cutoff.all fun moment => decide (moment ≤ row.document.indexedAt)
  let hits := ((rows.insertionSort closer).take request.topK).map (hitOf cfg)
  .ok
    { hits := hits
      queryStats := ⟨hits.length, hits.length, 0⟩
      minAppliedVersion := minAppliedVersion hits
      effectiveAsOf := some (asOf.getD now) }

theorem of_mem_search {cfg : Config} {t : Tables} {now : DateTime} {request : SearchRequest}
    {workspaceId : Uuid} {asOf : Option DateTime} {result : SearchResult} {hit : SearchHit}
    (h : search cfg t now request workspaceId asOf = .ok result) (hhit : hit ∈ result.hits) :
    ∃ queryVector, ∃ row ∈ joined cfg queryVector t, hit = hitOf cfg row ∧
      row.source.tenantId = some workspaceId ∧
      (request.includeTombstoned = true ∨ row.document.tombstonedAt = none) ∧
      sourceTest request.sources row = true := by
  unfold search at h
  cases hquery : cfg.embedQuery request.query with
  | error e => simp [hquery] at h
  | ok queryVector =>
    cases hcutoff : ageCutoff request now with
    | error e => simp [hquery, hcutoff] at h
    | ok cutoff =>
      simp only [hquery, hcutoff, ok_bind, Except.ok.injEq] at h
      subst h
      obtain ⟨row, hrow, rfl⟩ := List.mem_map.1 hhit
      have hmem := (List.mem_insertionSort closer).1 (List.mem_of_mem_take hrow)
      obtain ⟨hmem, htests⟩ := List.mem_filter.1 hmem
      simp only [Bool.and_eq_true, Bool.or_eq_true, decide_eq_true_eq,
        Option.isNone_iff_eq_none] at htests
      exact ⟨queryVector, row, hmem, rfl, htests.1.1.1, htests.1.1.2, htests.1.2⟩

theorem inSources_of_mem_search {cfg : Config} {t : Tables} {now : DateTime}
    {request : SearchRequest} {workspaceId : Uuid} {asOf : Option DateTime} {result : SearchResult}
    {hit : SearchHit} {sources : List String} (hsources : request.sources = some sources)
    (huuid : ∃ s ∈ sources, (Uuid.parse s).isSome)
    (h : search cfg t now request workspaceId asOf = .ok result) (hhit : hit ∈ result.hits) :
    InSources sources hit.sourceId := by
  obtain ⟨queryVector, row, -, rfl, -, -, htest⟩ := of_mem_search h hhit
  have hne : sources.filterMap Uuid.parse ≠ [] := by
    obtain ⟨s, hs, hparse⟩ := huuid
    obtain ⟨id, hid⟩ := Option.isSome_iff_exists.1 hparse
    exact List.ne_nil_of_mem (List.mem_filterMap.2 ⟨s, hs, hid⟩)
  simp only [sourceTest, hsources, Option.getD_some, Bool.or_eq_true, List.isEmpty_iff,
    decide_eq_true_eq] at htest
  exact htest.resolve_left hne

end Omniscience.PostgresOnly
