import Omniscience.Stores.PostgresOnly

/-!
# Documents that come back

A document is tombstoned in the ledger and in the vector store, and then it is written again.  Both
stores compare the content hash before they look at the tombstone, so that a document that comes
back with its old content stays deleted: the ledger keeps the row as it is, and so does the vector
store with its points.  In the vector store the checkpoint of the source can skip the write as well.
The Lite store does not compare hashes, but it never clears the tombstone.

* `comes_back_iff` : after any history and a tombstone, the next write brings the document back
  exactly when the ledger has another hash and the vector store makes its write (or there are no
  chunks); in the Lite store it never does.
-/

namespace Omniscience

open List

namespace Ledger

open Outbox Qdrant

/-! ### What a search sees -/

/-- `_request_to_filter` of a search without `as_of`. -/
def currentFilter (workspaceId : Uuid) (sourceIds : List Uuid) (includeTombstoned : Bool)
    (p : Point) : Bool :=
  decide (p.workspaceId = workspaceId) &&
    (sourceIds.isEmpty || decide (p.sourceId ∈ sourceIds)) &&
    (includeTombstoned || decide (p.tombstonedAt = some none)) && decide (p.validTo = some none)

/-- The chunks of a document among the points that a current search of the workspace sees. -/
def visibleChunks (k : DocumentKey) (points : List Point) : List ChunkPayload :=
  (points.filter fun p => currentFilter k.workspaceId [] false p &&
    decide (p.sourceId = k.sourceId ∧ p.externalId = k.externalId)).map Point.chunk

theorem mem_visibleChunks_iff {k : DocumentKey} {points : List Point} {chunk : ChunkPayload} :
    chunk ∈ visibleChunks k points ↔
      ∃ p ∈ points, p.isCurrent k = true ∧ p.tombstonedAt = some none ∧ p.chunk = chunk := by
  simp only [visibleChunks, mem_map, mem_filter, currentFilter, Point.isCurrent,
    Bool.and_eq_true, decide_eq_true_eq]
  refine exists_congr fun p => ?_
  simp only [isEmpty_nil, Bool.true_or, Bool.false_or, decide_eq_true_eq]
  tauto

/-! ### Histories -/

/-- A call of the index writer, or a write of another user of the vector store. -/
inductive Op where
  | upsert (u : Upsert) (fault : Option Fault)
  | vector (u : Qdrant.Upsert)
  | tombstone (key : Key) (workspaceId : Uuid) (now : DateTime) (fault : Option Fault)
  | purge (vectorCutoff cutoff : ℤ) (fault : Option Fault)

/-- The document that a call is about. -/
def Op.key : Op → Option Key
  | .upsert u _ => some u.args.key
  | .vector u => some (u.args.sourceId, u.args.externalId)
  | .tombstone key _ _ _ => some key
  | .purge _ _ _ => none

/-- The stores after a call. -/
def Op.apply (writeChunkEmbedding : Bool) (s : Stores) : Op → Stores
  | .upsert u fault => (upsertDocument writeChunkEmbedding u fault s).1
  | .vector u => { s with vectors := u.apply s.vectors }
  | .tombstone key workspaceId now fault => (Ledger.tombstone key workspaceId now fault s).1
  | .purge vectorCutoff cutoff fault => purgeTombstones vectorCutoff cutoff fault s

/-- The stores after a sequence of calls. -/
def run (writeChunkEmbedding : Bool) (s : Stores) (ops : List Op) : Stores :=
  ops.foldl (Op.apply writeChunkEmbedding) s

/-! ### The points of a document over a step -/

/-- All current points of the document are tombstoned. -/
def Buried (k : DocumentKey) (points : List Point) : Prop :=
  ∀ p ∈ points, p.isCurrent k = true → p.tombstonedAt ≠ some none

/-- None of them is. -/
def Alive (k : DocumentKey) (points : List Point) : Prop :=
  ∀ p ∈ points, p.isCurrent k = true → p.tombstonedAt = some none

/-- The current points of the document are points that were there before. -/
def Keeps (k : DocumentKey) (points points' : List Point) : Prop :=
  ∀ p ∈ points', p.isCurrent k = true → p ∈ points

/-- Every document is tombstoned as a whole or not at all. -/
def Uniform (points : List Point) : Prop := ∀ k, Alive k points ∨ Buried k points

section Points

variable {k k' : DocumentKey} {points points' new : List Point} {now : ℕ}

theorem Keeps.refl : Keeps k points points := fun _ hp _ => hp

theorem Buried.of_keeps (h : Buried k points) (hkeeps : Keeps k points points') :
    Buried k points' := fun p hp hcurrent => h p (hkeeps p hp hcurrent) hcurrent

theorem Alive.of_keeps (h : Alive k points) (hkeeps : Keeps k points points') :
    Alive k points' := fun p hp hcurrent => h p (hkeeps p hp hcurrent) hcurrent

theorem keeps_close : Keeps k points
    (points.map fun p => if p.isCurrent k' then p.close now else p) :=
  fun _ hq hcurrent => (current_close_iff.1 ⟨hq, hcurrent⟩).1.1

theorem not_current_close {q : Point}
    (h : q ∈ points.map fun p => if p.isCurrent k then p.close now else p) :
    q.isCurrent k = false := by
  by_contra hcurrent
  exact (current_close_iff.1 ⟨h, Bool.eq_true_of_not_eq_false hcurrent⟩).2 rfl

theorem keeps_add (hne : k ≠ k') (hnew : ∀ p ∈ new, p.isCurrent k' = true)
    (h : Keeps k points points') : Keeps k points (addPoints new points') := by
  intro p hp hcurrent
  rcases mem_addPoints hp with hp | hp
  · rw [isCurrent_ne hne (hnew p hp)] at hcurrent
    cases hcurrent
  · exact h p hp hcurrent

theorem alive_add (halive : ∀ p ∈ new, p.tombstonedAt = some none)
    (hclosed : ∀ p ∈ points, p.isCurrent k = false) : Alive k (addPoints new points) := by
  intro p hp hcurrent
  rcases mem_addPoints hp with hp | hp
  · exact halive p hp
  · rw [hclosed p hp] at hcurrent
    cases hcurrent

theorem keeps_bury (hne : k ≠ k') : Keeps k points
    (points.map fun p => if p.isCurrent k' then p.bury now else p) := by
  intro q hq hcurrent
  obtain ⟨p, hp, rfl⟩ := mem_map.1 hq
  split_ifs at hcurrent ⊢ with hburied
  · rw [isCurrent_bury, isCurrent_ne hne hburied] at hcurrent
    cases hcurrent
  · exact hp

theorem buried_bury : Buried k (points.map fun p => if p.isCurrent k then p.bury now else p) := by
  intro q hq hcurrent
  obtain ⟨p, hp, rfl⟩ := mem_map.1 hq
  split_ifs at hcurrent ⊢ with hburied
  · simp [Point.bury]
  · exact absurd hcurrent hburied

theorem write_cases (k : DocumentKey) (points : List Point) (now : ℕ)
    (hnew : ∀ p ∈ new, p.isCurrent k' = true ∧ p.tombstonedAt = some none) :
    let points' := addPoints new
      (points.map fun p => if p.isCurrent k' then p.close now else p)
    (k ≠ k' ∧ Keeps k points points') ∨ (k = k' ∧ Alive k points') := by
  by_cases hk : k = k'
  · subst hk
    exact .inr ⟨rfl, alive_add (fun p hp => (hnew p hp).2) fun p hp => not_current_close hp⟩
  · exact .inl ⟨hk, keeps_add hk (fun p hp => (hnew p hp).1) keeps_close⟩

theorem deleteByDocument_points (k k' : DocumentKey) (now : ℕ) (c : Collection) :
    let c' := (deleteByDocument k'.workspaceId k'.sourceId k'.externalId now c).1
    (k ≠ k' → Keeps k c.points c'.points) ∧ (Uniform c.points → Buried k' c'.points) := by
  intro c'
  obtain ⟨hsame, hcurrent⟩ | hpoints := deleteByDocument_cases k' now c
  · rw [show c' = c from hsame]
    refine ⟨fun _ => Keeps.refl, fun huniform => ?_⟩
    rcases hcurrent with hnone | ⟨p, hp, hcurrent, htombstoned⟩
    · intro p hp hcurrent
      rw [hnone p hp] at hcurrent
      cases hcurrent
    · refine (huniform k').resolve_left fun halive => ?_
      rw [halive p hp hcurrent] at htombstoned
      cases htombstoned
  · rw [show c'.points = _ from hpoints]
    exact ⟨keeps_bury, fun _ => buried_bury⟩

end Points

/-! ### One call -/

section Step

variable {wce : Bool} {s : Stores} {k : DocumentKey}

theorem writeVectors_points (k : DocumentKey) (u : Upsert) (docVersion : ℤ) (c : Collection) :
    (k ≠ u.vectorKey ∧ Keeps k c.points (writeVectors u docVersion c).points) ∨
      (k = u.vectorKey ∧ Alive k (writeVectors u docVersion c).points) := by
  obtain ⟨vectorDocumentId, vectorVersion, hpoints⟩ := points_writeVectors u docVersion c
  rw [hpoints, points_closeVectors]
  exact write_cases k c.points u.now.val fun p hp => current_newPoints hp

theorem upsertDocument_points (k : DocumentKey) (u : Upsert) (fault : Option Fault) :
    Keeps k s.vectors.points (upsertDocument wce u fault s).1.vectors.points ∨
      (k = u.vectorKey ∧ Alive k (upsertDocument wce u fault s).1.vectors.points) := by
  unfold upsertDocument
  split_ifs with hfault
  · exact .inl Keeps.refl
  · simp only [vectorStage_fst]
    split
    · exact .inl Keeps.refl
    · rw [points_closeVectors]
      exact .inl keeps_close
    · exact (writeVectors_points k u _ s.vectors).imp_left And.right

theorem vectorUpsert_points (k : DocumentKey) (u : Qdrant.Upsert) (c : Collection) :
    Keeps k c.points (u.apply c).points ∨
      (k.sourceId = u.args.sourceId ∧ k.externalId = u.args.externalId ∧
        Alive k (u.apply c).points) := by
  cases hws : extractWorkspaceId u.args.metadata with
  | error e =>
    left
    simp [Qdrant.Upsert.apply, upsertChunks, hws, Keeps.refl]
  | ok w =>
    obtain ⟨-, happly⟩ | ⟨-, happly⟩ := apply_cases (c := c) hws
    · rw [happly]
      exact .inl Keeps.refl
    · rw [happly]
      have hclose := closeDocument_findDocument (keyOf w u.args) u.now c
      have hnew : ∀ documentId docVersion, ∀ p ∈ u.args.chunks.zipWith
          (chunkToPoint u.args w documentId docVersion u.now) u.draw.pointIds,
            p.isCurrent (keyOf w u.args) = true ∧ p.tombstonedAt = some none := by
        intro documentId docVersion p hp
        rw [← map_uncurry_zip_eq_zipWith] at hp
        obtain ⟨⟨chunk, id⟩, -, rfl⟩ := mem_map.1 hp
        exact ⟨by simp [Point.isCurrent, chunkToPoint, keyOf], rfl⟩
      simp only [writeDocument]
      rw [show closeDocument (findDocument w u.args.sourceId u.args.externalId c)
        w u.now c.points = _ from hclose]
      obtain ⟨-, hkeeps⟩ | ⟨rfl, halive⟩ := write_cases k c.points u.now (hnew _ _)
      · exact .inl hkeeps
      · exact .inr ⟨rfl, rfl, halive⟩

theorem apply_points (wce : Bool) (s : Stores) (k : DocumentKey) (op : Op) :
    Keeps k s.vectors.points (op.apply wce s).vectors.points ∨
      (op.key = some (k.sourceId, k.externalId) ∧ (Alive k (op.apply wce s).vectors.points ∨
        (Uniform s.vectors.points → Buried k (op.apply wce s).vectors.points))) := by
  cases op with
  | upsert u fault =>
    refine (upsertDocument_points k u fault).imp_right fun ⟨hk, halive⟩ => ?_
    subst hk
    exact ⟨rfl, .inl halive⟩
  | vector u =>
    refine (vectorUpsert_points k u s.vectors).imp_right fun ⟨hsource, hexternal, halive⟩ => ?_
    exact ⟨by simp [Op.key, hsource, hexternal], .inl halive⟩
  | tombstone key w now fault =>
    obtain ⟨hkeeps, hburied⟩ := deleteByDocument_points k ⟨w, key.1, key.2⟩ now.val
      s.vectors
    simp only [Op.apply, Ledger.tombstone]
    split
    · exact .inl Keeps.refl
    · split_ifs with hvector hcommit
      · exact .inl Keeps.refl
      all_goals
        by_cases hk : k = ⟨w, key.1, key.2⟩
        · subst hk
          exact .inr ⟨rfl, .inr hburied⟩
        · exact .inl (hkeeps hk)
  | purge vectorCutoff cutoff fault =>
    left
    simp only [Op.apply, purgeTombstones]
    split_ifs with hvector hledger
    · exact Keeps.refl
    all_goals exact fun p hp _ => (mem_filter.1 hp).1

theorem keeps_of_other {op : Op} (hother : op.key ≠ some (k.sourceId, k.externalId)) :
    Keeps k s.vectors.points (op.apply wce s).vectors.points :=
  (apply_points wce s k op).resolve_right fun h => hother h.1

theorem uniform_apply (op : Op) (h : Uniform s.vectors.points) :
    Uniform (op.apply wce s).vectors.points := by
  intro k
  rcases apply_points wce s k op with hkeeps | ⟨-, halive | hburied⟩
  · exact (h k).imp (fun h => h.of_keeps hkeeps) fun h => h.of_keeps hkeeps
  · exact .inl halive
  · exact .inr (hburied h)

/-- The row of the document, if there is one, is tombstoned. -/
def Dead (key : Key) (t : Tables) : Prop :=
  ∀ doc, t.documents.get? key = some doc → doc.tombstonedAt ≠ none

theorem row_of_other {op : Op} {key : Key} (hother : op.key ≠ some key) {doc : Document}
    (h : (op.apply wce s).tables.documents.get? key = some doc) :
    s.tables.documents.get? key = some doc := by
  cases op with
  | upsert u fault =>
    simp only [Op.apply, upsertDocument] at h
    split_ifs at h with hfault
    · exact h
    · have hne : key ≠ u.args.key := fun heq => hother (by rw [heq]; rfl)
      rwa [Dict.get?_set_ne _ _ hne] at h
  | vector u => exact h
  | tombstone key' w now fault =>
    have hne : key ≠ key' := fun heq => hother (by rw [heq]; rfl)
    simp only [Op.apply, Ledger.tombstone] at h
    split at h
    · exact h
    · split_ifs at h with hvector hcommit
      · exact h
      · exact h
      · rwa [Dict.get?_set_ne _ _ hne] at h
  | purge vectorCutoff cutoff fault =>
    simp only [Op.apply, purgeTombstones] at h
    split_ifs at h with hvector hledger
    · exact h
    · exact h
    · exact Dict.get?_of_filter h

end Step

/-! ### Runs -/

theorem uniform_run (wce : Bool) {s : Stores} (h : Uniform s.vectors.points) (ops : List Op) :
    Uniform (run wce s ops).vectors.points := by
  induction ops generalizing s with
  | nil => exact h
  | cons op ops ih => exact ih (uniform_apply op h)

theorem gone_run (wce : Bool) {s : Stores} {k : DocumentKey} {ops : List Op}
    (hothers : ∀ op ∈ ops, op.key ≠ some (k.sourceId, k.externalId))
    (hburied : Buried k s.vectors.points) (hdead : Dead (k.sourceId, k.externalId) s.tables) :
    Buried k (run wce s ops).vectors.points ∧
      Dead (k.sourceId, k.externalId) (run wce s ops).tables := by
  induction ops generalizing s with
  | nil => exact ⟨hburied, hdead⟩
  | cons op ops ih =>
    have hother := hothers op mem_cons_self
    refine ih (fun op hop => hothers op (mem_cons_of_mem _ hop)) ?_ fun doc hdoc => ?_
    · exact hburied.of_keeps (keeps_of_other hother)
    · exact hdead doc (row_of_other hother hdoc)

/-! ### The document comes back -/

/-- The document is not tombstoned in the ledger, and a current search sees its chunks. -/
def Returned (u : Upsert) (s : Stores) : Prop :=
  ∃ doc, s.tables.documents.get? u.args.key = some doc ∧ doc.tombstonedAt = none ∧
    ∀ chunk ∈ doc.chunks, chunk.payload ∈ visibleChunks u.vectorKey s.vectors.points

section Back

variable {wce : Bool} {u : Upsert} {fault : Option Fault} {s : Stores}

theorem upsertDocument_of_returns (h : (upsertDocument wce u fault s).2 = true) :
    (upsertDocument wce u fault s).1.tables.documents.get? u.args.key =
        some (rowOf wce u s.tables) ∧
      (upsertDocument wce u fault s).1.vectors =
        if vectorWrites u (rowOf wce u s.tables).docVersion s.vectors then
          writeVectors u (rowOf wce u s.tables).docVersion s.vectors
        else s.vectors := by
  simp only [upsertDocument] at h ⊢
  split_ifs at h with hfault
  rw [if_neg hfault]
  refine ⟨Dict.get?_set_self _ _ _, ?_⟩
  dsimp only
  rw [vectorStage_of_returns h, vectorStage_fst]
  split_ifs with hwrites <;> simp [vectorEffect, hwrites]

theorem visible_writeVectors (hnodup : (u.args.chunks.map ChunkData.id).Nodup) (docVersion : ℤ)
    {chunk : ChunkData} (hchunk : chunk ∈ u.args.chunks) :
    chunk.toChunkPayload ∈
      visibleChunks u.vectorKey (writeVectors u docVersion s.vectors).points := by
  obtain ⟨vectorDocumentId, vectorVersion, hpoints⟩ := points_writeVectors u docVersion s.vectors
  rw [hpoints, mem_visibleChunks_iff]
  have hnew : chunkToPoint (vectorArgs u.args u.workspaceId docVersion) u.workspaceId
      vectorDocumentId vectorVersion u.now.val chunk.toChunkPayload chunk.id ∈
        newPoints u docVersion vectorDocumentId vectorVersion := mem_map_of_mem hchunk
  refine ⟨_, mem_addPoints_of_mem hnew ?_, (current_newPoints hnew).1, (current_newPoints hnew).2,
    rfl⟩
  rw [newPoints, map_map]
  exact hnodup

theorem visibleChunks_of_buried {k : DocumentKey} {points : List Point} (h : Buried k points) :
    visibleChunks k points = [] := by
  rw [eq_nil_iff_forall_not_mem]
  intro chunk hchunk
  obtain ⟨p, hp, hcurrent, halive, -⟩ := mem_visibleChunks_iff.1 hchunk
  exact h p hp hcurrent halive

/-- **A tombstoned document comes back** if the ledger writes the row and the vector store the
points; without chunks there are no points to write. -/
theorem broughtBack_iff (hnodup : (u.args.chunks.map ChunkData.id).Nodup)
    (hburied : Buried u.vectorKey s.vectors.points) (hdead : Dead u.args.key s.tables)
    (h : (upsertDocument wce u fault s).2 = true) :
    Returned u (upsertDocument wce u fault s).1 ↔
      ledgerWrites u s.tables = true ∧ (u.args.chunks = [] ∨
        vectorWrites u (nextDocVersion s.tables u.args.key) s.vectors = true) := by
  obtain ⟨hrow, hvectors⟩ := upsertDocument_of_returns h
  cases hledger : ledgerWrites u s.tables with
  | false =>
    -- the row is kept with its tombstone
    refine iff_of_false ?_ (by simp)
    rintro ⟨doc, hdoc, halive, -⟩
    rw [hrow, Option.some.injEq] at hdoc
    subst hdoc
    exact hdead _ (rowOf_of_not_writes wce hledger) halive
  | true =>
    obtain ⟨halive, hchunks, hversion⟩ := rowOf_of_writes wce hledger
    rw [hversion] at hvectors
    rw [Returned, hrow, hvectors]
    simp only [Option.some.injEq, exists_eq_left', halive, hchunks, true_and]
    cases hwrites : vectorWrites u (nextDocVersion s.tables u.args.key) s.vectors with
    | true =>
      refine iff_of_true (fun chunk hchunk => ?_) (.inr rfl)
      obtain ⟨data, hdata, rfl⟩ := mem_map.1 hchunk
      exact visible_writeVectors hnodup _ hdata
    | false =>
      have hnil := visibleChunks_of_buried hburied
      simp [hnil, insertChunks, eq_nil_iff_forall_not_mem]

theorem gone_of_tombstone {history : List Op} {key : Key} {w : Uuid} {now : DateTime}
    (h : tombstone key w now none (run wce {} history) = (s, .ok true)) :
    Buried ⟨w, key.1, key.2⟩ s.vectors.points ∧ Dead key s.tables := by
  have huniform : Uniform (run wce {} history).vectors.points :=
    uniform_run wce (fun k => .inl fun p hp => by cases hp) history
  simp only [tombstone] at h
  split at h
  · cases h
  · simp only [reduceCtorEq, ↓reduceIte, Option.isSome_none, Bool.false_eq_true, Prod.mk.injEq,
      and_true] at h
    subst h
    refine ⟨(deleteByDocument_points ⟨w, key.1, key.2⟩ ⟨w, key.1, key.2⟩
      now.val _).2 huniform, fun doc hdoc => ?_⟩
    rw [Dict.get?_set_self, Option.some.injEq] at hdoc
    subst hdoc
    simp

end Back

end Ledger

/-! ### The Lite store -/

namespace PostgresOnly

open Ledger

/-- A call of the Lite store that writes. -/
inductive Op where
  | upsert (args : ChunksUpsert) (documentId : Uuid) (now : DateTime)
  | delete (key : Key) (now : DateTime)
  | purge (cutoff : ℤ)

/-- The document that a call is about. -/
def Op.key : Op → Option Key
  | .upsert args _ _ => some (args.sourceId, args.externalId)
  | .delete key _ => some key
  | .purge _ => none

/-- The tables after a call. -/
def Op.apply (t : Tables) : Op → Tables
  | .upsert args documentId now => upsertChunks args documentId now t
  | .delete key now => (deleteByDocument key now t).1
  | .purge cutoff => deleteTombstoned cutoff t

/-- The chunks that a current search of a workspace sees, before it cuts the list. -/
def visibleChunks (cfg : Config) (queryVector : Outbox.Embedding) (workspaceId : Uuid)
    (t : Tables) : List Chunk :=
  ((joined cfg queryVector t).filter fun row =>
    decide (row.source.tenantId = some workspaceId) && row.document.tombstonedAt.isNone).map
      Row.chunk

/-- The document is not tombstoned, and a current search in the workspace of its source sees its
chunks. -/
def Returned (key : Key) (t : Tables) : Prop :=
  ∃ doc, t.documents.get? key = some doc ∧ doc.tombstonedAt = none ∧
    ∀ cfg queryVector, ∀ source ∈ t.sources, source.id = key.1 →
      ∀ workspaceId, source.tenantId = some workspaceId →
        ∀ chunk ∈ doc.chunks, chunk ∈ visibleChunks cfg queryVector workspaceId t

theorem row_of_other {op : Op} {key : Key} (hother : op.key ≠ some key) {t : Tables}
    {doc : Document} (h : (op.apply t).documents.get? key = some doc) :
    t.documents.get? key = some doc := by
  cases op with
  | upsert args documentId now =>
    have hne : key ≠ (args.sourceId, args.externalId) := fun heq => hother (by rw [heq]; rfl)
    simp only [Op.apply, upsertChunks] at h
    rwa [Dict.get?_set_ne _ _ hne] at h
  | delete key' now =>
    have hne : key ≠ key' := fun heq => hother (by rw [heq]; rfl)
    simp only [Op.apply, deleteByDocument] at h
    split at h
    · exact h
    · split_ifs at h with htombstoned
      · exact h
      · rwa [Dict.get?_set_ne _ _ hne] at h
  | purge cutoff => exact Dict.get?_of_filter h

theorem dead_run {ops : List Op} {key : Key} (hothers : ∀ op ∈ ops, op.key ≠ some key) {t : Tables}
    (h : Dead key t) : Dead key (ops.foldl Op.apply t) := by
  induction ops generalizing t with
  | nil => exact h
  | cons op ops ih =>
    refine ih (fun op hop => hothers op (mem_cons_of_mem _ hop)) fun doc hdoc => ?_
    exact h doc (row_of_other (hothers op mem_cons_self) hdoc)

theorem returned_of_alive {key : Key} {t : Tables} {doc : Document}
    (h : t.documents.get? key = some doc) (halive : doc.tombstonedAt = none) : Returned key t := by
  refine ⟨doc, h, halive, fun cfg queryVector source hsource hid w htenant chunk hchunk => ?_⟩
  refine mem_map.2 ⟨⟨chunk, doc, source, chunk.embedding.map fun embedding =>
    cfg.distance embedding queryVector⟩, mem_filter.2 ⟨?_, by simp [htenant, halive]⟩, rfl⟩
  refine mem_flatMap.2 ⟨(key, doc), Dict.mem_items_of_get? h, ?_⟩
  refine mem_flatMap.2 ⟨source, mem_filter.2 ⟨hsource, by simp [hid]⟩, ?_⟩
  exact mem_map.2 ⟨chunk, hchunk, rfl⟩

theorem broughtBack_iff {args : ChunksUpsert} {t : Tables} (documentId : Uuid) (now : DateTime)
    (hdead : Dead (args.sourceId, args.externalId) t) :
    Returned (args.sourceId, args.externalId) (upsertChunks args documentId now t) ↔
      t.documents.get? (args.sourceId, args.externalId) = none := by
  cases hget : t.documents.get? (args.sourceId, args.externalId) with
  | none =>
    obtain ⟨row, hrow, halive⟩ : ∃ row, (upsertChunks args documentId now t).documents.get?
        (args.sourceId, args.externalId) = some row ∧ row.tombstonedAt = none := by
      simp only [upsertChunks, hget]
      exact ⟨_, Dict.get?_set_self _ _ _, rfl⟩
    exact iff_of_true (returned_of_alive hrow halive) rfl
  | some doc =>
    refine iff_of_false ?_ (by simp)
    rintro ⟨row, hrow, halive, -⟩
    simp only [upsertChunks, hget, Dict.get?_set_self, Option.some.injEq] at hrow
    subst hrow
    exact hdead doc hget halive

end PostgresOnly

namespace Ledger

/-- After a tombstone of a document, a successful upsert brings it back if and only if the ledger
has another content hash for it (or no row) and the vector store makes its write (or there are no
chunks); in the Lite store, if and only if its row has been purged in between. -/
theorem comes_back_iff (key : Key) :
    (∀ (wce : Bool) (history others : List Op) (u : Upsert) (now : DateTime) (s : Stores)
      (fault : Option Fault), u.args.key = key → (u.args.chunks.map ChunkData.id).Nodup →
        (∀ op ∈ others, op.key ≠ some key) →
          tombstone key u.workspaceId now none (run wce {} history) = (s, .ok true) →
            (upsertDocument wce u fault (run wce s others)).2 = true →
              (Returned u (upsertDocument wce u fault (run wce s others)).1 ↔
                ledgerWrites u (run wce s others).tables = true ∧ (u.args.chunks = [] ∨
                  vectorWrites u (nextDocVersion (run wce s others).tables key)
                    (run wce s others).vectors = true))) ∧
    (∀ (t t' : Tables) (others : List PostgresOnly.Op) (args : PostgresOnly.ChunksUpsert)
      (documentId : Uuid) (deletedAt now : DateTime), (args.sourceId, args.externalId) = key →
        (∀ op ∈ others, op.key ≠ some key) →
          PostgresOnly.deleteByDocument key deletedAt t = (t', true) →
            (PostgresOnly.Returned key (PostgresOnly.upsertChunks args documentId now
                (others.foldl PostgresOnly.Op.apply t')) ↔
              (others.foldl PostgresOnly.Op.apply t').documents.get? key = none)) := by
  constructor
  · rintro wce history others u now s fault rfl hnodup hothers htombstone hreturns
    obtain ⟨hburied, hdead⟩ := gone_of_tombstone htombstone
    obtain ⟨hburied, hdead⟩ := gone_run wce (k := u.vectorKey) hothers hburied hdead
    exact broughtBack_iff hnodup hburied hdead hreturns
  · rintro t t' others args documentId deletedAt now rfl hothers hdelete
    refine PostgresOnly.broughtBack_iff documentId now (PostgresOnly.dead_run hothers ?_)
    intro doc hdoc
    simp only [PostgresOnly.deleteByDocument] at hdelete
    split at hdelete
    · cases hdelete
    · split_ifs at hdelete with htombstoned
      · cases hdelete
      · cases hdelete
        rw [Dict.get?_set_self, Option.some.injEq] at hdoc
        subst hdoc
        simp

/-- A document with one chunk. -/
def note (contentHash : String) (chunkId : Uuid) : Upsert where
  args := {
    sourceId := 3
    externalId := "a"
    uri := "a"
    title := none
    contentHash := contentHash
    metadata := []
    chunks := [{ ord := 0, text := contentHash, embedding := [], symbol := none, metadata := [],
                 embeddingModel := "", embeddingProvider := "", parserVersion := "",
                 chunkerStrategy := "", id := chunkId }] }
  workspaceId := 7
  documentId := 1
  vectorDocumentId := 2
  now := Dedup.newYear

/-- The stores after the note has been written and tombstoned. -/
def tombstoned : Stores :=
  (tombstone (3, "a") 7 Dedup.hourLater none (run false {} [.upsert (note "h" 10) none])).1

theorem tombstone_note :
    tombstone (note "h" 10).args.key (note "h" 10).workspaceId Dedup.hourLater none
      (run false {} [.upsert (note "h" 10) none]) = (tombstoned, .ok true) :=
  Prod.ext rfl rfl

/-- With another content the note comes back. -/
theorem note_comes_back :
    Returned (note "i" 11) (upsertDocument false (note "i" 11) none tombstoned).1 := by
  refine ((comes_back_iff (3, "a")).1 false [.upsert (note "h" 10) none] [] (note "i" 11)
    Dedup.hourLater tombstoned none rfl (by decide) (by simp) tombstone_note (by decide +kernel)).2
    ⟨by decide, .inr ?_⟩
  decide +kernel

/-- The note, for the Lite store. -/
def liteNote : PostgresOnly.ChunksUpsert where
  sourceId := 3
  externalId := "a"
  uri := "a"
  title := none
  contentHash := "h"
  metadata := []
  chunks := (note "h" 10).args.chunks

/-- The tables of the Lite store with the note. -/
def liteTables : Tables := PostgresOnly.upsertChunks liteNote 1 Dedup.newYear {}

/-- With its old content it stays deleted, in both modes. -/
theorem note_stays_deleted :
    (¬ ∀ (wce : Bool) (history : List Op) (u : Upsert) (now : DateTime) (s : Stores),
      (u.args.chunks.map ChunkData.id).Nodup →
        tombstone u.args.key u.workspaceId now none (run wce {} history) = (s, .ok true) →
          (upsertDocument wce u none s).2 = true →
            Returned u (upsertDocument wce u none s).1) ∧
    ¬ ∀ (t t' : Tables) (args : PostgresOnly.ChunksUpsert) (documentId : Uuid)
      (deletedAt now : DateTime),
        PostgresOnly.deleteByDocument (args.sourceId, args.externalId) deletedAt t = (t', true) →
          PostgresOnly.Returned (args.sourceId, args.externalId)
            (PostgresOnly.upsertChunks args documentId now t') := by
  constructor
  · intro h
    obtain ⟨doc, hdoc, halive, -⟩ := h false [.upsert (note "h" 10) none] (note "h" 11)
      Dedup.hourLater tombstoned (by decide) tombstone_note (by decide +kernel)
    have hstill : ((upsertDocument false (note "h" 11) none tombstoned).1.tables.documents.get?
        (note "h" 11).args.key).bind Document.tombstonedAt = some Dedup.hourLater := by
      decide
    rw [hdoc, Option.bind_some, halive] at hstill
    cases hstill
  · intro h
    obtain ⟨doc, hdoc, halive, -⟩ := h liteTables
      (PostgresOnly.deleteByDocument (3, "a") Dedup.hourLater liteTables).1 liteNote 2
      Dedup.hourLater Dedup.hourLater (Prod.ext rfl rfl)
    have hstill : ((PostgresOnly.upsertChunks liteNote 2 Dedup.hourLater
        (PostgresOnly.deleteByDocument (3, "a") Dedup.hourLater liteTables).1).documents.get?
          (liteNote.sourceId, liteNote.externalId)).bind Document.tombstonedAt =
            some Dedup.hourLater := by
      decide
    rw [hdoc, Option.bind_some, halive] at hstill
    cases hstill

end Ledger

end Omniscience
