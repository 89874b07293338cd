import Omniscience.Ingestion.Worker
import Omniscience.Stores.Ledger

/-!
# The chunk ids of a document

The pipeline (`ingestion/pipeline.py`) draws a new id for the chunk of a document in every run and
hands it to the ledger and to the vector store, so that a hit of the vector store can be looked up
in the ledger.  But each of the two stores decides for itself whether it writes.  After a run that
has failed between the two writes, the retry finds the ledger up to date and the vector store not:
the ledger keeps the id of the first run, and the vector store gets that of the second.

`effects` lists what the runs have done to a document in the two stores, by the decisions that the
stores take before each write.

* `ids_agree_iff` : over every sequence of runs, the stores agree on the ids after every successful
  run exactly when each time the last run that has changed one of the stores has changed both.
-/

namespace Omniscience.ChunkIds

open Ledger Ingestion List

/-- `_PARSER_VERSION`. -/
def parserVersion : String := "placeholder-v0"

/-- `_CHUNKER_STRATEGY`. -/
def chunkerStrategy : String := "full-content-v0"

/-- What a pipeline is configured with.  The workspace is that of the source. -/
structure Pipeline where
  computeContentHash : String → String
  modelName : String
  providerName : String
  workspaceOf : Uuid → Uuid
  writeChunkEmbedding : Bool := false

/-- A run of the pipeline that has come to the index stage: the fetched document, the embedding of
its text, the ids that are drawn, and the fault that ends it. -/
structure Run where
  sourceId : Uuid
  ref : DocumentRef
  metadata : Metadata := []
  contentText : String
  embedding : Outbox.Embedding
  ingestionRunId : Option Uuid := none
  chunkId : Uuid
  documentId : Uuid
  vectorDocumentId : Uuid
  now : DateTime
  fault : Option Fault := none

/-- The chunk of a run: `_stage_chunk` makes one of the whole text. -/
def Run.chunk (p : Pipeline) (r : Run) : ChunkData where
  id := r.chunkId
  ord := 0
  text := r.contentText
  embedding := r.embedding
  symbol := none
  metadata := []
  embeddingModel := p.modelName
  embeddingProvider := p.providerName
  parserVersion := parserVersion
  chunkerStrategy := chunkerStrategy

/-- `_stage_index`: the call of the index writer. -/
def Run.upsert (p : Pipeline) (r : Run) : Upsert where
  args := {
    sourceId := r.sourceId
    externalId := r.ref.externalId
    uri := r.ref.uri
    title := none
    contentHash := p.computeContentHash r.contentText
    metadata := r.metadata
    chunks := [r.chunk p]
    ingestionRunId := r.ingestionRunId }
  workspaceId := p.workspaceOf r.sourceId
  documentId := r.documentId
  vectorDocumentId := r.vectorDocumentId
  now := r.now

/-- The stores after a run. -/
def Run.apply (p : Pipeline) (s : Stores) (r : Run) : Stores :=
  (upsertDocument p.writeChunkEmbedding (r.upsert p) r.fault s).1

/-- The run reports success. -/
def Run.succeeds (p : Pipeline) (s : Stores) (r : Run) : Bool :=
  (upsertDocument p.writeChunkEmbedding (r.upsert p) r.fault s).2

/-- The stores after a sequence of runs. -/
def after (p : Pipeline) (runs : List Run) : Stores := runs.foldl (Run.apply p) {}

/-- The document that a run is about. -/
def Run.key (r : Run) : Key := (r.sourceId, r.ref.externalId)

/-- A document in the vector store. -/
def Pipeline.vectorKey (p : Pipeline) (key : Key) : Qdrant.DocumentKey :=
  ⟨p.workspaceOf key.1, key.1, key.2⟩

/-- The ids of the current points of a document. -/
def currentIds (k : Qdrant.DocumentKey) (points : List Qdrant.Point) : List Uuid :=
  (points.filter (Qdrant.Point.isCurrent k)).map Qdrant.Point.id

/-- The two stores have the same chunk ids for the document. -/
def Agree (p : Pipeline) (key : Key) (s : Stores) : Prop :=
  ∀ id, id ∈ currentIds (p.vectorKey key) s.vectors.points ↔ id ∈ s.tables.chunkIds key

/-! ### Effects -/

/-- What a run does to a document: whether the ledger gets a new row, and what becomes of the
current points. -/
structure Effect where
  ledger : Bool
  vector : VectorEffect
  deriving DecidableEq, Repr

/-- Nothing. -/
def Effect.idle : Effect := ⟨false, .kept⟩

/-- Both stores are written. -/
def Effect.both : Effect := ⟨true, .replaced⟩

/-- The effect of a run on a document, by what the stores hold before it. -/
def effect (p : Pipeline) (key : Key) (s : Stores) (r : Run) : Effect :=
  if r.key = key ∧ r.fault ≠ some .ledger then
    let u := r.upsert p
    ⟨ledgerWrites u s.tables,
      vectorEffect u (rowOf p.writeChunkEmbedding u s.tables).docVersion r.fault s.vectors⟩
  else .idle

/-- The effects of a sequence of runs. -/
def effects (p : Pipeline) (key : Key) (s : Stores) : List Run → List Effect
  | [] => []
  | r :: rs => effect p key s r :: effects p key (r.apply p s) rs

/-- The last run that has changed one of the stores has changed both. -/
def LastChangedBoth (l : List Effect) : Prop :=
  ∀ e, (l.filter (· ≠ Effect.idle)).getLast? = some e → e = .both

section Effects

variable {p : Pipeline} {key : Key} {s : Stores}

theorem after_concat (runs : List Run) (r : Run) :
    after p (runs ++ [r]) = r.apply p (after p runs) := by
  rw [after, foldl_append]
  rfl

theorem effects_concat (runs : List Run) (r : Run) : effects p key s (runs ++ [r]) =
    effects p key s runs ++ [effect p key (runs.foldl (Run.apply p) s) r] := by
  induction runs generalizing s with
  | nil => rfl
  | cons r' runs ih => simp [effects, ih]

theorem lastChangedBoth_idle (l : List Effect) :
    LastChangedBoth (l ++ [.idle]) ↔ LastChangedBoth l := by
  simp [LastChangedBoth]

theorem lastChangedBoth_concat (l : List Effect) {e : Effect} (he : e ≠ .idle) :
    LastChangedBoth (l ++ [e]) ↔ e = .both := by
  simp [LastChangedBoth, he]

end Effects

/-! ### One write -/

section Write

variable {k : Qdrant.DocumentKey} {u : Upsert} {docVersion : ℤ} {c : Qdrant.Collection} {id : Uuid}

theorem mem_currentIds_iff {points : List Qdrant.Point} :
    id ∈ currentIds k points ↔ ∃ q, (q ∈ points ∧ q.isCurrent k = true) ∧ q.id = id := by
  simp [currentIds]

theorem mem_currentIds_closeVectors : id ∈ currentIds k (closeVectors u c).points ↔
      id ∈ currentIds k c.points ∧ k ≠ u.vectorKey := by
  rw [points_closeVectors, mem_currentIds_iff, mem_currentIds_iff]
  simp only [Qdrant.current_close_iff]
  constructor
  · rintro ⟨q, ⟨hq, hne⟩, hid⟩
    exact ⟨⟨q, hq, hid⟩, hne⟩
  · rintro ⟨⟨q, hq, hid⟩, hne⟩
    exact ⟨q, ⟨hq, hne⟩, hid⟩

theorem id_newPoints (u : Upsert) (docVersion : ℤ) (vectorDocumentId : Uuid) (vectorVersion : ℤ) :
    (newPoints u docVersion vectorDocumentId vectorVersion).map Qdrant.Point.id =
      u.args.chunks.map ChunkData.id := by
  rw [newPoints, map_map]
  rfl

theorem mem_points_writeVectors {q : Qdrant.Point} (h : q ∈ (writeVectors u docVersion c).points) :
    q.id ∈ u.args.chunks.map ChunkData.id ∨ q.id ∈ c.points.map Qdrant.Point.id := by
  obtain ⟨vectorDocumentId, vectorVersion, hpoints⟩ := points_writeVectors u docVersion c
  rw [hpoints] at h
  rcases Qdrant.mem_addPoints h with hq | hq
  · left
    rw [← id_newPoints u docVersion vectorDocumentId vectorVersion]
    exact mem_map_of_mem hq
  · right
    have hmem := mem_map_of_mem (f := Qdrant.Point.id) hq
    rwa [closeVectors, Qdrant.map_id_closeDocument] at hmem

theorem mem_currentIds_writeVectors (hnodup : (u.args.chunks.map ChunkData.id).Nodup) :
    id ∈ currentIds u.vectorKey (writeVectors u docVersion c).points ↔
      id ∈ u.args.chunks.map ChunkData.id := by
  obtain ⟨vectorDocumentId, vectorVersion, hpoints⟩ := points_writeVectors u docVersion c
  have hids := id_newPoints u docVersion vectorDocumentId vectorVersion
  rw [hpoints, mem_currentIds_iff, ← hids]
  constructor
  · rintro ⟨q, ⟨hq, hcurrent⟩, rfl⟩
    rcases Qdrant.mem_addPoints hq with hq | hq
    · exact mem_map_of_mem hq
    · -- the closed points are not current any more
      rw [points_closeVectors] at hq
      exact absurd rfl (Qdrant.current_close_iff.1 ⟨hq, hcurrent⟩).2
  · intro hid
    obtain ⟨q, hq, rfl⟩ := mem_map.1 hid
    refine ⟨q, ⟨Qdrant.mem_addPoints_of_mem hq ?_, (current_newPoints hq).1⟩, rfl⟩
    rw [hids]
    exact hnodup

theorem mem_currentIds_writeVectors_ne (hne : k ≠ u.vectorKey)
    (hnew : ∀ q ∈ c.points, q.id ∉ u.args.chunks.map ChunkData.id) :
    id ∈ currentIds k (writeVectors u docVersion c).points ↔ id ∈ currentIds k c.points := by
  obtain ⟨vectorDocumentId, vectorVersion, hpoints⟩ := points_writeVectors u docVersion c
  rw [hpoints, mem_currentIds_iff, mem_currentIds_iff]
  refine exists_congr fun q => and_congr_left fun _ => ?_
  constructor
  · rintro ⟨hq, hcurrent⟩
    rcases Qdrant.mem_addPoints hq with hq | hq
    · rw [Qdrant.isCurrent_ne hne (current_newPoints hq).1] at hcurrent
      cases hcurrent
    · rw [points_closeVectors] at hq
      exact (Qdrant.current_close_iff.1 ⟨hq, hcurrent⟩).1
  · rintro ⟨hq, hcurrent⟩
    refine ⟨Qdrant.mem_addPoints_of_ne ?_ ?_, hcurrent⟩
    · rw [points_closeVectors]
      exact (Qdrant.current_close_iff.2 ⟨⟨hq, hcurrent⟩, hne⟩).1
    · rw [id_newPoints]
      exact hnew q hq

end Write

/-! ### One run -/

section Step

variable {p : Pipeline} {key : Key} {s : Stores} {r : Run} {id : Uuid}

theorem vectors_apply (hfault : r.fault ≠ some .ledger) : (r.apply p s).vectors =
    match vectorEffect (r.upsert p) (rowOf p.writeChunkEmbedding (r.upsert p) s.tables).docVersion
      r.fault s.vectors with
    | .kept => s.vectors
    | .closed => closeVectors (r.upsert p) s.vectors
    | .replaced => writeVectors (r.upsert p)
        (rowOf p.writeChunkEmbedding (r.upsert p) s.tables).docVersion s.vectors := by
  rw [Run.apply, upsertDocument, if_neg hfault]
  exact vectorStage_fst

theorem apply_of_ledgerFault (hfault : r.fault = some .ledger) : r.apply p s = s := by
  rw [Run.apply, upsertDocument, if_pos hfault]

theorem vectorKey_ne (p : Pipeline) (hkey : r.key ≠ key) :
    p.vectorKey key ≠ (r.upsert p).vectorKey := by
  intro h
  refine hkey ?_
  obtain ⟨-, hsource, hexternal⟩ := Qdrant.DocumentKey.mk.inj h
  exact (Prod.ext hsource hexternal).symm

theorem mem_currentIds_apply (p : Pipeline) (key : Key) (id : Uuid)
    (hnew : ∀ q ∈ s.vectors.points, q.id ≠ r.chunkId) :
    id ∈ currentIds (p.vectorKey key) (r.apply p s).vectors.points ↔
      match (effect p key s r).vector with
      | .kept => id ∈ currentIds (p.vectorKey key) s.vectors.points
      | .closed => False
      | .replaced => id = r.chunkId := by
  by_cases hfault : r.fault = some .ledger
  · rw [apply_of_ledgerFault hfault]
    simp [effect, hfault, Effect.idle]
  have hnew' : ∀ q ∈ s.vectors.points, q.id ∉ (r.upsert p).args.chunks.map ChunkData.id := by
    intro q hq hmem
    exact hnew q hq (mem_singleton.1 hmem)
  rw [vectors_apply hfault]
  by_cases hkey : r.key = key
  · subst hkey
    have hself : p.vectorKey r.key = (r.upsert p).vectorKey := rfl
    simp only [effect, hfault, ne_eq, not_false_eq_true, and_self, ↓reduceIte]
    split
    · rfl
    · rw [mem_currentIds_closeVectors, hself]
      simp
    · have hnodup : ((r.upsert p).args.chunks.map ChunkData.id).Nodup := nodup_singleton _
      rw [hself, mem_currentIds_writeVectors hnodup]
      exact mem_singleton
  · have hne := vectorKey_ne p hkey
    simp only [effect, hkey, false_and, ↓reduceIte, Effect.idle]
    split
    · rfl
    · rw [mem_currentIds_closeVectors, and_iff_left hne]
    · rw [mem_currentIds_writeVectors_ne hne hnew']

theorem get?_apply_self (hfault : r.fault ≠ some .ledger) :
    (r.apply p s).tables.documents.get? r.key =
      some (rowOf p.writeChunkEmbedding (r.upsert p) s.tables) := by
  rw [Run.apply, upsertDocument, if_neg hfault]
  exact Dict.get?_set_self _ _ _

theorem get?_apply_ne (hkey : r.key ≠ key) :
    (r.apply p s).tables.documents.get? key = s.tables.documents.get? key := by
  by_cases hfault : r.fault = some .ledger
  · rw [apply_of_ledgerFault hfault]
  · rw [Run.apply, upsertDocument, if_neg hfault]
    exact Dict.get?_set_ne _ _ (Ne.symm hkey)

theorem get?_apply (p : Pipeline) (key : Key) (s : Stores) (r : Run) :
    ((effect p key s r).ledger = false ∧
      (r.apply p s).tables.documents.get? key = s.tables.documents.get? key) ∨
    ((effect p key s r).ledger = true ∧ ∃ doc,
      (r.apply p s).tables.documents.get? key = some doc ∧
        doc.chunks.map Chunk.id = [r.chunkId]) := by
  by_cases hkey : r.key = key
  · subst hkey
    by_cases hfault : r.fault = some .ledger
    · left
      rw [apply_of_ledgerFault hfault]
      simp [effect, hfault, Effect.idle]
    · simp only [effect, hfault, ne_eq, not_false_eq_true, and_self, ↓reduceIte]
      rw [get?_apply_self hfault]
      cases hledger : ledgerWrites (r.upsert p) s.tables with
      | false => exact .inl ⟨rfl, (rowOf_of_not_writes p.writeChunkEmbedding hledger).symm⟩
      | true =>
        refine .inr ⟨rfl, _, rfl, ?_⟩
        rw [(rowOf_of_writes p.writeChunkEmbedding hledger).2.1]
        rfl
  · left
    rw [get?_apply_ne hkey]
    simp [effect, hkey, Effect.idle]

theorem pointIds_apply {q : Qdrant.Point} (h : q ∈ (r.apply p s).vectors.points) :
    q.id = r.chunkId ∨ q.id ∈ s.vectors.points.map Qdrant.Point.id := by
  by_cases hfault : r.fault = some .ledger
  · rw [apply_of_ledgerFault hfault] at h
    exact .inr (mem_map_of_mem h)
  rw [vectors_apply hfault] at h
  split at h
  · exact .inr (mem_map_of_mem h)
  · have hmem := mem_map_of_mem (f := Qdrant.Point.id) h
    rw [closeVectors, Qdrant.map_id_closeDocument] at hmem
    exact .inr hmem
  · exact (mem_points_writeVectors h).imp_left mem_singleton.1

end Step

/-! ### Sequences of runs -/

/-- What holds of a document after a sequence of runs. -/
structure Inv (p : Pipeline) (key : Key) (runs : List Run) (s : Stores) : Prop where
  points : ∀ q ∈ s.vectors.points, q.id ∈ runs.map Run.chunkId
  rows : ∀ id ∈ s.tables.chunkIds key, id ∈ runs.map Run.chunkId
  row : ∀ doc, s.tables.documents.get? key = some doc → doc.chunks ≠ []
  agree : Agree p key s ↔ LastChangedBoth (effects p key {} runs)

section Runs

variable {p : Pipeline} {key : Key} {runs : List Run} {s : Stores} {r : Run}

theorem mem_chunkIds_iff {t : Tables} {id : Uuid} : id ∈ t.chunkIds key ↔
    ∃ doc, t.documents.get? key = some doc ∧ id ∈ doc.chunks.map Chunk.id := by
  rw [Tables.chunkIds]
  cases t.documents.get? key with
  | none => simp
  | some doc => simp

theorem mem_chunkIds_apply (p : Pipeline) (key : Key) (s : Stores) (r : Run) (id : Uuid) :
    id ∈ (r.apply p s).tables.chunkIds key ↔
      if (effect p key s r).ledger then id = r.chunkId else id ∈ s.tables.chunkIds key := by
  obtain ⟨hledger, hget⟩ | ⟨hledger, doc, hget, hchunks⟩ := get?_apply p key s r
  · rw [hledger, mem_chunkIds_iff, hget, ← mem_chunkIds_iff]
    rfl
  · rw [hledger, mem_chunkIds_iff, hget]
    simp only [Option.some.injEq, exists_eq_left', hchunks, mem_singleton, ↓reduceIte]

theorem row_of_effect (p : Pipeline) (key : Key) (s : Stores) (r : Run)
    (hledger : (effect p key s r).ledger = false)
    (heffect : effect p key s r ≠ .idle) : ∃ doc, s.tables.documents.get? key = some doc := by
  unfold effect at hledger heffect
  split_ifs at hledger heffect with hcond
  · obtain ⟨rfl, -⟩ := hcond
    exact ⟨_, rowOf_of_not_writes p.writeChunkEmbedding hledger⟩
  · exact absurd rfl heffect

theorem Inv.id_ne (h : Inv p key runs s) (hnew : r.chunkId ∉ runs.map Run.chunkId) :
    ∀ q ∈ s.vectors.points, q.id ≠ r.chunkId := by
  intro q hq heq
  rw [← heq] at hnew
  exact hnew (h.points q hq)

/-- **One run**: the stores agree after a run that has changed one of them if and only if it has
changed both. -/
theorem agree_apply_iff (h : Inv p key runs s) (hnew : r.chunkId ∉ runs.map Run.chunkId)
    (heffect : effect p key s r ≠ .idle) :
    Agree p key (r.apply p s) ↔ effect p key s r = .both := by
  have hpoints := h.id_ne hnew
  have hrows : r.chunkId ∉ s.tables.chunkIds key := fun hmem => hnew (h.rows _ hmem)
  have hcurrent : r.chunkId ∉ currentIds (p.vectorKey key) s.vectors.points := by
    intro hmem
    obtain ⟨q, ⟨hq, -⟩, hid⟩ := mem_currentIds_iff.1 hmem
    exact hpoints q hq hid
  have hrow := row_of_effect p key s r
  unfold Agree
  simp only [mem_currentIds_apply p key _ hpoints, mem_chunkIds_apply]
  generalize effect p key s r = e at heffect hrow ⊢
  obtain ⟨ledger, vector⟩ := e
  cases ledger with
  | true =>
    cases vector with
    | replaced => exact iff_of_true (fun id => Iff.rfl) rfl
    | kept => exact iff_of_false (fun hagree => hcurrent ((hagree r.chunkId).2 rfl)) (by decide)
    | closed => exact iff_of_false (fun hagree => (hagree r.chunkId).2 rfl) (by decide)
  | false =>
    cases vector with
    | replaced => exact iff_of_false (fun hagree => hrows ((hagree r.chunkId).1 rfl)) (by decide)
    | kept => exact absurd rfl heffect
    | closed =>
      -- the points are gone, but the row has a chunk
      refine iff_of_false (fun hagree => ?_) (by decide)
      obtain ⟨doc, hdoc⟩ := hrow rfl heffect
      obtain ⟨chunk, hchunk⟩ := exists_mem_of_ne_nil _ (h.row doc hdoc)
      exact (hagree chunk.id).2 (mem_chunkIds_iff.2 ⟨doc, hdoc, mem_map_of_mem hchunk⟩)

theorem agree_apply_idle (h : Inv p key runs s) (hnew : r.chunkId ∉ runs.map Run.chunkId)
    (heffect : effect p key s r = .idle) : Agree p key (r.apply p s) ↔ Agree p key s := by
  have hpoints := h.id_ne hnew
  unfold Agree
  simp only [mem_currentIds_apply p key _ hpoints, mem_chunkIds_apply, heffect, Effect.idle]
  rfl

theorem Inv.step (h : Inv p key runs (after p runs)) (hnew : r.chunkId ∉ runs.map Run.chunkId) :
    Inv p key (runs ++ [r]) (r.apply p (after p runs)) where
  points q hq := by
    rw [map_append, mem_append]
    rcases pointIds_apply hq with hid | hid
    · exact .inr (mem_singleton.2 hid)
    · obtain ⟨q', hq', hid⟩ := mem_map.1 hid
      rw [← hid]
      exact .inl (h.points q' hq')
  rows id hid := by
    rw [map_append, mem_append]
    rw [mem_chunkIds_apply] at hid
    split_ifs at hid with hledger
    · exact .inr (mem_singleton.2 hid)
    · exact .inl (h.rows id hid)
  row doc hdoc := by
    obtain ⟨-, hget⟩ | ⟨-, doc', hget, hchunks⟩ := get?_apply p key (after p runs) r
    · exact h.row doc (hget ▸ hdoc)
    · rw [hdoc, Option.some.injEq] at hget
      subst hget
      rintro hnil
      rw [hnil] at hchunks
      cases hchunks
  agree := by
    rw [effects_concat]
    change _ ↔ LastChangedBoth (_ ++ [effect p key (after p runs) r])
    by_cases heffect : effect p key (after p runs) r = .idle
    · rw [agree_apply_idle h hnew heffect, heffect, lastChangedBoth_idle]
      exact h.agree
    · rw [agree_apply_iff h hnew heffect, lastChangedBoth_concat _ heffect]

theorem inv_after (p : Pipeline) (key : Key) (hids : (runs.map Run.chunkId).Nodup) :
    Inv p key runs (after p runs) := by
  induction runs using List.reverseRecOn with
  | nil =>
    refine ⟨?_, ?_, ?_, iff_of_true (fun id => Iff.rfl) ?_⟩
    · rintro q ⟨⟩
    · rintro id ⟨⟩
    · rintro doc ⟨⟩
    · rintro e ⟨⟩
  | append_singleton runs r ih =>
    rw [map_append, nodup_append] at hids
    rw [after_concat]
    refine (ih hids.1).step fun hmem => ?_
    exact hids.2.2 _ hmem _ mem_cons_self rfl

/-- **When the stores agree on the ids.** -/
theorem ids_agree_iff (p : Pipeline) (key : Key) (runs : List Run)
    (hids : (runs.map Run.chunkId).Nodup) :
    (∀ pre r, pre ++ [r] <+: runs → r.key = key → r.succeeds p (after p pre) = true →
        Agree p key (after p (pre ++ [r]))) ↔
      ∀ pre r, pre ++ [r] <+: runs → r.key = key → r.succeeds p (after p pre) = true →
        LastChangedBoth (effects p key {} (pre ++ [r])) := by
  refine forall₂_congr fun pre r => forall_congr' fun hpre => ?_
  have hprefix : ((pre ++ [r]).map Run.chunkId).Nodup := hids.sublist (hpre.sublist.map _)
  exact forall₂_congr fun _ _ => (inv_after p key hprefix).agree

end Runs

/-- A pipeline whose hash is the text itself. -/
def samplePipeline : Pipeline := ⟨id, "m", "p", fun _ => 7, false⟩

/-- A run for a document with a content. -/
def sampleRun (contentText : String) (chunkId : Uuid) (fault : Option Fault) : Run where
  sourceId := 3
  ref := ⟨"a", "a", []⟩
  contentText := contentText
  embedding := []
  chunkId := chunkId
  documentId := 1
  vectorDocumentId := 2
  now := Dedup.newYear
  fault := fault

/-- The document changes between two runs, and the stores agree afterwards. -/
theorem changed_document_agrees : Agree samplePipeline (3, "a")
      (after samplePipeline [sampleRun "x" 10 none, sampleRun "y" 11 none]) := by
  refine (ids_agree_iff samplePipeline (3, "a") [sampleRun "x" 10 none, sampleRun "y" 11 none]
    (by decide)).2 (fun pre r hpre _ _ => ?_) [sampleRun "x" 10 none] (sampleRun "y" 11 none)
    (prefix_refl _) rfl (by decide +kernel)
  have heffects : effects samplePipeline (3, "a") {} (pre ++ [r]) = [.both] ∨
      effects samplePipeline (3, "a") {} (pre ++ [r]) = [.both, .both] := by
    obtain ⟨rfl, rfl⟩ | ⟨rfl, rfl⟩ := Qdrant.of_prefix_pair hpre
    · left
      decide
    · right
      decide +kernel
  rcases heffects with heffects | heffects
  · rw [heffects]
    rintro e ⟨⟩
    rfl
  · rw [heffects]
    rintro e ⟨⟩
    rfl

/-- The vector write fails after that of the ledger; the retry succeeds, and leaves the ledger with
the id of the first run and the vector store with its own. -/
theorem retry_disagrees :
    ¬ ∀ (p : Pipeline) (key : Key) (runs : List Run), (runs.map Run.chunkId).Nodup →
      ∀ pre r, pre ++ [r] <+: runs → r.key = key → r.succeeds p (after p pre) = true →
        Agree p key (after p (pre ++ [r])) := by
  intro h
  have hagree := h samplePipeline (3, "a")
    [sampleRun "x" 10 (some .vector), sampleRun "x" 11 none] (by decide)
    [sampleRun "x" 10 (some .vector)] (sampleRun "x" 11 none) (prefix_refl _) rfl
    (by decide +kernel) 11
  exact absurd hagree (by decide +kernel)

end Omniscience.ChunkIds
