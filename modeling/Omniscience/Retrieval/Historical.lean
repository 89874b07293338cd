import Omniscience.Ingestion.ChunkIds
import Omniscience.Retrieval.GraphRag
import Omniscience.Stores.TimeTravel

/-!
# Searches for an earlier moment

A search with `as_of` finds the points of the vector store that were valid at the moment, and
`_validate_hits` then asks the ledger for their chunks.  The vector store keeps every generation of
a document.  The ledger keeps one: a write deletes the chunks of the document and inserts new ones,
with new ids.

`returned_iff` says which sequences of pipeline runs leave the hits of a moment in place: the run
that has written the points that were valid then has to be the last one that has written the row.
-/

namespace Omniscience.Historical

open ChunkIds Ledger Retrieval GraphRag List
open Qdrant (DocumentKey Point)

/-! ### Points that are valid at a moment -/

/-- A point of the document with the id is valid at the moment. -/
def HasValid (k : DocumentKey) (asOf : ℕ) (points : List Point) (id : Uuid) : Prop :=
  ∃ q ∈ points, q.isOf k = true ∧ q.isValidAt asOf = true ∧ q.id = id

section

variable {k k' : DocumentKey} {asOf now : ℕ} {points new : List Point} {id : Uuid}

theorem isOf_ne (hne : k ≠ k') {q : Point} (h : q.isOf k = true) : q.isOf k' = false := by
  rw [Point.isOf, decide_eq_true_eq] at h
  rw [Point.isOf, decide_eq_false_iff_not]
  rintro ⟨hws, hsource, hexternal⟩
  refine hne ?_
  cases k
  cases k'
  simp_all

theorem hasValid_addPoints (hnodup : (new.map Point.id).Nodup)
    (hfresh : ∀ q ∈ points, q.id ∉ new.map Point.id) :
    HasValid k asOf (Qdrant.addPoints new points) id ↔
      HasValid k asOf new id ∨ HasValid k asOf points id := by
  constructor
  · rintro ⟨q, hq, hrest⟩
    exact (Qdrant.mem_addPoints hq).imp (fun hq => ⟨q, hq, hrest⟩) fun hq => ⟨q, hq, hrest⟩
  · rintro (⟨q, hq, hrest⟩ | ⟨q, hq, hrest⟩)
    · exact ⟨q, Qdrant.mem_addPoints_of_mem hq hnodup, hrest⟩
    · exact ⟨q, Qdrant.mem_addPoints_of_ne hq (hfresh q hq), hrest⟩

theorem hasValid_close_ne (hne : k ≠ k') :
    HasValid k asOf (points.map (Qdrant.closeCurrent k' now)) id ↔ HasValid k asOf points id := by
  have hsame : ∀ q : Point, q.isOf k = true → Qdrant.closeCurrent k' now q = q := by
    intro q hof
    rw [Qdrant.closeCurrent, if_neg]
    intro hcurrent
    exact absurd (Qdrant.isCurrent_iff.1 hcurrent).1 (by simp [isOf_ne hne hof])
  constructor
  · rintro ⟨_, hq, hof, hvalid, hid⟩
    obtain ⟨q, hmem, rfl⟩ := mem_map.1 hq
    rw [Qdrant.isOf_closeCurrent] at hof
    rw [hsame q hof] at hvalid hid
    exact ⟨q, hmem, hof, hvalid, hid⟩
  · rintro ⟨q, hmem, hof, hvalid, hid⟩
    exact ⟨q, mem_map.2 ⟨q, hmem, hsame q hof⟩, hof, hvalid, hid⟩

theorem hasValid_close_of_lt (h : asOf < now) :
    HasValid k asOf (points.map (Qdrant.closeCurrent k now)) id ↔ HasValid k asOf points id := by
  simp only [HasValid, mem_map, exists_exists_and_eq_and,
    Qdrant.isOf_closeCurrent, Qdrant.isValidAt_closeCurrent_of_lt _ h, Qdrant.id_closeCurrent]

theorem not_hasValid_close_of_le (h : now ≤ asOf)
    (hends : ∀ q ∈ points, q.isOf k = true →
      q.validTo = some none ∨ ∃ t ≤ now, q.validTo = some (some t)) :
    ¬ HasValid k asOf (points.map (Qdrant.closeCurrent k now)) id := by
  rintro ⟨_, hq, hof, hvalid, -⟩
  obtain ⟨q, hmem, rfl⟩ := mem_map.1 hq
  rw [Qdrant.isOf_closeCurrent] at hof
  rw [Qdrant.closeCurrent] at hvalid
  split at hvalid
  · rw [Qdrant.isValidAt_close_of_le h] at hvalid
    cases hvalid
  · rename_i hcurrent
    rcases hends q hmem hof with hopen | ⟨t, ht, hend⟩
    · exact hcurrent (Qdrant.isCurrent_iff.2 ⟨hof, hopen⟩)
    · simp only [Point.isValidAt, hend, Bool.and_eq_true, decide_eq_true_eq] at hvalid
      omega

theorem hasValid_newPoints (u : Upsert) (docVersion : ℤ) (vectorDocumentId : Uuid)
    (vectorVersion : ℤ) :
    HasValid k asOf (newPoints u docVersion vectorDocumentId vectorVersion) id ↔
      k = u.vectorKey ∧ u.now.val ≤ asOf ∧ id ∈ u.args.chunks.map ChunkData.id := by
  constructor
  · rintro ⟨q, hq, hof, hvalid, rfl⟩
    have hown : q.isOf u.vectorKey = true := (Qdrant.isCurrent_iff.1 (current_newPoints hq).1).1
    have hid := mem_map_of_mem (f := Point.id) hq
    rw [id_newPoints] at hid
    refine ⟨by_contra fun hne => ?_, ?_, hid⟩
    · rw [isOf_ne hne hof] at hown
      cases hown
    · obtain ⟨chunk, -, rfl⟩ := mem_map.1 hq
      simpa [Point.isValidAt, Point.validFrom, Qdrant.chunkToPoint] using hvalid
  · rintro ⟨rfl, hle, hid⟩
    rw [← id_newPoints u docVersion vectorDocumentId vectorVersion] at hid
    obtain ⟨q, hq, rfl⟩ := mem_map.1 hid
    refine ⟨q, hq, (Qdrant.isCurrent_iff.1 (current_newPoints hq).1).1, ?_, rfl⟩
    obtain ⟨chunk, -, rfl⟩ := mem_map.1 hq
    simpa [Point.isValidAt, Point.validFrom, Qdrant.chunkToPoint] using hle

end

/-! ### One run -/

section

variable {p : Pipeline} {key : Key} {s : Stores} {r : Run} {asOf : ℕ} {id : Uuid}

/-- **What is valid after a run**: what was valid before, up to its time; from then on its own point
if it has replaced those of the document, and none if it has only closed them. -/
theorem hasValid_apply (hnew : ∀ q ∈ s.vectors.points, q.id ≠ r.chunkId)
    (hends : ∀ q ∈ s.vectors.points, q.isOf (p.vectorKey key) = true →
      q.validTo = some none ∨ ∃ t ≤ r.now.val, q.validTo = some (some t)) :
    HasValid (p.vectorKey key) asOf (r.apply p s).vectors.points id ↔
      if (effect p key s r).vector = .kept ∨ asOf < r.now.val then
        HasValid (p.vectorKey key) asOf s.vectors.points id
      else (effect p key s r).vector = .replaced ∧ id = r.chunkId := by
  by_cases hfault : r.fault = some .ledger
  · rw [apply_of_ledgerFault hfault]
    simp [effect, hfault, Effect.idle]
  have hfresh : ∀ (docVersion : ℤ) (vectorDocumentId : Uuid) (vectorVersion : ℤ),
      ∀ q ∈ (closeVectors (r.upsert p) s.vectors).points,
        q.id ∉ (newPoints (r.upsert p) docVersion vectorDocumentId vectorVersion).map Point.id := by
    intro docVersion vectorDocumentId vectorVersion q hq
    rw [id_newPoints]
    have hmem := mem_map_of_mem (f := Point.id) hq
    rw [closeVectors, Qdrant.map_id_closeDocument] at hmem
    obtain ⟨q', hq', hid⟩ := mem_map.1 hmem
    intro hchunk
    exact hnew q' hq' (hid.trans (mem_singleton.1 hchunk))
  have hnodup : ∀ (docVersion : ℤ) (vectorDocumentId : Uuid) (vectorVersion : ℤ),
      ((newPoints (r.upsert p) docVersion vectorDocumentId vectorVersion).map Point.id).Nodup := by
    intro docVersion vectorDocumentId vectorVersion
    rw [id_newPoints]
    exact nodup_singleton _
  have hclose : (closeVectors (r.upsert p) s.vectors).points =
      s.vectors.points.map (Qdrant.closeCurrent (r.upsert p).vectorKey r.now.val) :=
    points_closeVectors
  rw [vectors_apply hfault]
  by_cases hkey : r.key = key
  · subst hkey
    have hself : p.vectorKey r.key = (r.upsert p).vectorKey := rfl
    rw [hself] at hends ⊢
    simp only [effect, hfault, ne_eq, not_false_eq_true, and_self, ↓reduceIte]
    split
    · rename_i hkept
      simp [hkept]
    · rename_i hclosed
      rw [hclose, hclosed]
      by_cases h : asOf < r.now.val
      · simp [h, hasValid_close_of_lt h]
      · simp [h, not_hasValid_close_of_le (not_lt.1 h) hends]
    · rename_i hreplaced
      obtain ⟨vectorDocumentId, vectorVersion, hpoints⟩ := points_writeVectors (r.upsert p)
        (rowOf p.writeChunkEmbedding (r.upsert p) s.tables).docVersion s.vectors
      rw [hpoints, hasValid_addPoints (hnodup _ _ _) (hfresh _ _ _), hasValid_newPoints, hclose,
        hreplaced]
      by_cases h : asOf < r.now.val
      · simp only [h, hasValid_close_of_lt h, or_true, ↓reduceIte]
        refine or_iff_right ?_
        rintro ⟨-, hle, -⟩
        exact hle.not_gt h
      · simp only [h, not_hasValid_close_of_le (not_lt.1 h) hends, reduceCtorEq, or_false,
          ↓reduceIte, true_and]
        exact ⟨fun hown => mem_singleton.1 hown.2,
          fun hid => ⟨not_lt.1 h, mem_singleton.2 hid⟩⟩
  · -- a run for another document
    have hne := vectorKey_ne p hkey
    simp only [effect, hkey, false_and, ↓reduceIte, Effect.idle, true_or]
    split
    · rfl
    · rw [hclose, hasValid_close_ne hne]
    · obtain ⟨vectorDocumentId, vectorVersion, hpoints⟩ := points_writeVectors (r.upsert p)
        (rowOf p.writeChunkEmbedding (r.upsert p) s.tables).docVersion s.vectors
      rw [hpoints, hasValid_addPoints (hnodup _ _ _) (hfresh _ _ _), hasValid_newPoints, hclose,
        hasValid_close_ne hne]
      simp [hne]

theorem ends_apply {q : Point} (hq : q ∈ (r.apply p s).vectors.points) :
    q.validTo = some none ∨ q.validTo = some (some r.now.val) ∨
      ∃ q' ∈ s.vectors.points, q.validTo = q'.validTo ∧
        ∀ k, q.isOf k = q'.isOf k := by
  have hclosed : ∀ {q}, q ∈ (closeVectors (r.upsert p) s.vectors).points →
      q.validTo = some none ∨ q.validTo = some (some r.now.val) ∨
        ∃ q' ∈ s.vectors.points, q.validTo = q'.validTo ∧ ∀ k, q.isOf k = q'.isOf k := by
    intro q hq
    rw [points_closeVectors] at hq
    obtain ⟨q', hq', rfl⟩ := mem_map.1 hq
    split
    · exact .inr (.inl rfl)
    · exact .inr (.inr ⟨q', hq', rfl, fun _ => rfl⟩)
  by_cases hfault : r.fault = some .ledger
  · rw [apply_of_ledgerFault hfault] at hq
    exact .inr (.inr ⟨q, hq, rfl, fun _ => rfl⟩)
  rw [vectors_apply hfault] at hq
  split at hq
  · exact .inr (.inr ⟨q, hq, rfl, fun _ => rfl⟩)
  · exact hclosed hq
  · obtain ⟨vectorDocumentId, vectorVersion, hpoints⟩ := points_writeVectors (r.upsert p)
      (rowOf p.writeChunkEmbedding (r.upsert p) s.tables).docVersion s.vectors
    rw [hpoints] at hq
    rcases Qdrant.mem_addPoints hq with hq | hq
    · exact .inl (Qdrant.isCurrent_iff.1 (current_newPoints hq).1).2
    · exact hclosed hq

theorem tombstonedAt_apply (h : ∀ doc, s.tables.documents.get? key = some doc →
      doc.tombstonedAt = none) {doc : Document}
    (hdoc : (r.apply p s).tables.documents.get? key = some doc) : doc.tombstonedAt = none := by
  by_cases hfault : r.fault = some .ledger
  · rw [apply_of_ledgerFault hfault] at hdoc
    exact h doc hdoc
  by_cases hkey : r.key = key
  · subst hkey
    rw [get?_apply_self hfault, Option.some.injEq] at hdoc
    subst hdoc
    cases hledger : ledgerWrites (r.upsert p) s.tables with
    | true => exact (rowOf_of_writes p.writeChunkEmbedding hledger).1
    | false => exact h _ (rowOf_of_not_writes p.writeChunkEmbedding hledger)
  · rw [get?_apply_ne hkey] at hdoc
    exact h doc hdoc

end

/-! ### Sequences of runs -/

/-- The runs, each with what it did to the document. -/
def log (p : Pipeline) (key : Key) (runs : List Run) : List (Run × Effect) :=
  runs.zip (effects p key {} runs)

/-- When the run of an entry was. -/
def timeOf (x : Run × Effect) : ℕ := x.1.now.val

/-- The run whose point is valid at the moment, if there is one: the last one until then that has
changed the points, unless it has only closed them. -/
def pointsWriter (p : Pipeline) (key : Key) (runs : List Run) (asOf : ℕ) : Option Run :=
  ((lastUntil timeOf asOf ((log p key runs).filter fun x => x.2.vector ≠ .kept)).filter
      fun x => x.2.vector = .replaced).map Prod.fst

/-- The run that has written the row of the document, as it is now. -/
def rowWriter (p : Pipeline) (key : Key) (runs : List Run) : Option Run :=
  (((log p key runs).filter fun x => x.2.ledger).getLast?).map Prod.fst

section

variable {p : Pipeline} {key : Key} {runs : List Run} {r : Run} {asOf : ℕ} {id : Uuid}

theorem length_effects (s : Stores) (runs : List Run) :
    (effects p key s runs).length = runs.length := by
  induction runs generalizing s with
  | nil => rfl
  | cons r runs ih => simp [effects, ih]

theorem log_concat (runs : List Run) (r : Run) :
    log p key (runs ++ [r]) = log p key runs ++ [(r, effect p key (after p runs) r)] := by
  rw [log, effects_concat, zip_append (length_effects _ _).symm]
  rfl

theorem pointsWriter_concat (runs : List Run) (r : Run) (asOf : ℕ) :
    pointsWriter p key (runs ++ [r]) asOf =
      if (effect p key (after p runs) r).vector = .kept ∨ asOf < r.now.val then
        pointsWriter p key runs asOf
      else if (effect p key (after p runs) r).vector = .replaced then some r else none := by
  rw [pointsWriter, log_concat, filter_append]
  by_cases hkept : (effect p key (after p runs) r).vector = .kept
  · simp [hkept, pointsWriter]
  · rw [filter_cons_of_pos (by simpa using hkept), filter_nil]
    by_cases h : asOf < r.now.val
    · have hlt : asOf < timeOf (r, effect p key (after p runs) r) := h
      rw [lastUntil_concat_of_lt _ hlt, if_pos (.inr h), pointsWriter]
    · have hle : timeOf (r, effect p key (after p runs) r) ≤ asOf := not_lt.1 h
      rw [lastUntil_concat_of_le _ hle, if_neg (by simp [hkept, h])]
      split
      · rename_i hreplaced
        simp [hreplaced]
      · rename_i hclosed
        simp [hclosed]

theorem rowWriter_concat (runs : List Run) (r : Run) : rowWriter p key (runs ++ [r]) =
      if (effect p key (after p runs) r).ledger then some r else rowWriter p key runs := by
  rw [rowWriter, log_concat, filter_append]
  split
  · rename_i hledger
    simp [hledger]
  · rename_i hledger
    simp [hledger, rowWriter]

theorem key_of_effect {s : Stores} (h : effect p key s r ≠ .idle) : r.key = key := by
  unfold effect at h
  split at h
  · rename_i hcond
    exact hcond.1
  · exact absurd rfl h

/-- What the runs have left of a document. -/
structure Inv (p : Pipeline) (key : Key) (runs : List Run) (s : Stores) : Prop where
  points : ∀ q ∈ s.vectors.points, q.id ∈ runs.map Run.chunkId
  ends : ∀ q ∈ s.vectors.points, q.isOf (p.vectorKey key) = true →
    q.validTo = some none ∨ ∃ r ∈ runs, q.validTo = some (some r.now.val)
  valid : ∀ asOf id, HasValid (p.vectorKey key) asOf s.vectors.points id ↔
    ∃ r, pointsWriter p key runs asOf = some r ∧ id = r.chunkId
  rows : ∀ id, id ∈ s.tables.chunkIds key ↔
    ∃ r, rowWriter p key runs = some r ∧ id = r.chunkId
  tombstone : ∀ doc, s.tables.documents.get? key = some doc → doc.tombstonedAt = none
  pointsWriter : ∀ asOf r, pointsWriter p key runs asOf = some r → r ∈ runs ∧ r.key = key
  rowWriter : ∀ r, rowWriter p key runs = some r → r ∈ runs ∧ r.key = key

/-- **A run keeps the invariant.** -/
theorem Inv.step (h : Inv p key runs (after p runs)) (hnew : r.chunkId ∉ runs.map Run.chunkId)
    (hlater : ∀ r' ∈ runs, r'.now.val ≤ r.now.val) :
    Inv p key (runs ++ [r]) (r.apply p (after p runs)) where
  points q hq := by
    rw [map_append, mem_append]
    rcases pointIds_apply hq with hid | hid
    · exact .inr (mem_singleton.2 hid)
    · obtain ⟨q', hq', hid⟩ := mem_map.1 hid
      rw [← hid]
      exact .inl (h.points q' hq')
  ends q hq hof := by
    have hr : r ∈ runs ++ [r] := mem_append_right _ mem_cons_self
    rcases ends_apply hq with hopen | hend | ⟨q', hq', hsame, hof'⟩
    · exact .inl hopen
    · exact .inr ⟨r, hr, hend⟩
    · rw [hsame]
      refine (h.ends q' hq' (hof' _ ▸ hof)).imp_right ?_
      rintro ⟨r', hr', hend⟩
      exact ⟨r', mem_append_left _ hr', hend⟩
  valid asOf id := by
    rw [hasValid_apply (fun q hq heq => hnew (heq ▸ h.points q hq)) fun q hq hof => ?_,
      pointsWriter_concat]
    · split
      · exact h.valid asOf id
      · split
        · rename_i hreplaced
          simp [hreplaced]
        · rename_i hclosed
          simp [hclosed]
    · refine (h.ends q hq hof).imp_right ?_
      rintro ⟨r', hr', hend⟩
      exact ⟨r'.now.val, hlater r' hr', hend⟩
  rows id := by
    rw [mem_chunkIds_apply, rowWriter_concat]
    split
    · simp
    · exact h.rows id
  tombstone doc hdoc := tombstonedAt_apply h.tombstone hdoc
  pointsWriter asOf r' hr' := by
    rw [pointsWriter_concat] at hr'
    split at hr'
    · obtain ⟨hmem, hkey⟩ := h.pointsWriter asOf r' hr'
      exact ⟨mem_append_left _ hmem, hkey⟩
    · rename_i hchanged
      split at hr'
      · obtain rfl := Option.some.inj hr'
        refine ⟨mem_append_right _ mem_cons_self,
          key_of_effect (p := p) (s := after p runs) fun heffect => ?_⟩
        exact hchanged (.inl (by rw [heffect]; rfl))
      · cases hr'
  rowWriter r' hr' := by
    rw [rowWriter_concat] at hr'
    split at hr'
    · rename_i hledger
      obtain rfl := Option.some.inj hr'
      refine ⟨mem_append_right _ mem_cons_self,
        key_of_effect (p := p) (s := after p runs) fun heffect => ?_⟩
      rw [heffect] at hledger
      cases hledger
    · obtain ⟨hmem, hkey⟩ := h.rowWriter r' hr'
      exact ⟨mem_append_left _ hmem, hkey⟩

theorem inv_after (p : Pipeline) (key : Key) (hids : (runs.map Run.chunkId).Nodup)
    (hclock : runs.Pairwise fun r r' => r.now.val ≤ r'.now.val) :
    Inv p key runs (after p runs) := by
  induction runs using List.reverseRecOn with
  | nil =>
    refine ⟨?_, ?_, fun asOf id => iff_of_false ?_ ?_, fun id => iff_of_false ?_ ?_, ?_, ?_, ?_⟩
    · rintro q ⟨⟩
    · rintro q ⟨⟩
    · rintro ⟨q, ⟨⟩, -⟩
    · rintro ⟨r, ⟨⟩, -⟩
    · rintro ⟨⟩
    · rintro ⟨r, ⟨⟩, -⟩
    · rintro doc ⟨⟩
    · rintro asOf r ⟨⟩
    · rintro r ⟨⟩
  | append_singleton runs r ih =>
    rw [map_append, nodup_append] at hids
    obtain ⟨hclock, -, hlast⟩ := pairwise_append.1 hclock
    rw [after_concat]
    refine (ih hids.1 hclock).step (fun hmem => ?_) fun r' hr' => hlast r' hr' r mem_cons_self
    exact hids.2.2 _ hmem _ mem_cons_self rfl

/-! ### The check of the hits -/

/-- The database of the composer has the ledger's documents, and the source of the document is
active in its workspace. -/
structure Serves (db : Database) (p : Pipeline) (key : Key) (runs : List Run) : Prop where
  documents : db.tables.documents = (after p runs).tables.documents
  source : ∃ source ∈ db.tables.sources, source.id = key.1 ∧
    Source.serves source (p.workspaceOf key.1) = true

/-- The check keeps every hit on a point of the document that was valid at the moment. -/
def Returned (p : Pipeline) (key : Key) (runs : List Run) (db : Database) (asOf : ℕ) : Prop :=
  ∀ hits, ∀ hit ∈ hits,
    HasValid (p.vectorKey key) asOf (after p runs).vectors.points hit.chunkId →
      hit ∈ validateHits (some db) hits (p.workspaceOf key.1)

variable {db : Database} (hids : (runs.map Run.chunkId).Nodup)
  (hclock : runs.Pairwise fun r r' => r.now.val ≤ r'.now.val)

include hids hclock

theorem key_of_mem_chunkIds {key' : Key} (hr : r ∈ runs) (hkey : r.key = key)
    (h : r.chunkId ∈ (after p runs).tables.chunkIds key') : key' = key := by
  have hinv := inv_after p key' hids hclock
  obtain ⟨r', hr', hid⟩ := (hinv.rows r.chunkId).1 h
  obtain ⟨hmem, hkey'⟩ := hinv.rowWriter r' hr'
  obtain rfl := inj_on_of_nodup_map hids hr hmem hid
  rw [← hkey', hkey]

theorem validChunk_iff (hdb : Serves db p key runs) (hr : r ∈ runs) (hkey : r.key = key) :
    validChunk db (p.workspaceOf key.1) r.chunkId = true ↔
      r.chunkId ∈ (after p runs).tables.chunkIds key := by
  have hinv := inv_after p key hids hclock
  have hfound : ∀ x, db.documentOf r.chunkId = some x → x.1 = key ∧
      (after p runs).tables.documents.get? key = some x.2 ∧
        r.chunkId ∈ (after p runs).tables.chunkIds key := by
    intro x hx
    have hmem := List.mem_of_find?_eq_some hx
    have htest := List.find?_some hx
    have hchunk := of_decide_eq_true htest
    rw [hdb.documents] at hmem
    have hget := Dict.get?_of_mem_items hmem
    have hids' : r.chunkId ∈ (after p runs).tables.chunkIds x.1 :=
      mem_chunkIds_iff.2 ⟨x.2, hget, hchunk⟩
    obtain hxkey := key_of_mem_chunkIds hids hclock hr hkey hids'
    rw [hxkey] at hget hids'
    exact ⟨hxkey, hget, hids'⟩
  rw [validChunk, Option.any_eq_true]
  constructor
  · rintro ⟨x, hx, -⟩
    exact (hfound x hx).2.2
  · intro hmem
    obtain ⟨doc, hdoc, hchunk⟩ := mem_chunkIds_iff.1 hmem
    obtain ⟨x, hx⟩ : ∃ x, db.documentOf r.chunkId = some x := by
      refine Option.isSome_iff_exists.1 (List.find?_isSome.2 ⟨(key, doc), ?_, ?_⟩)
      · rw [hdb.documents]
        exact Dict.mem_items_of_get? hdoc
      · exact decide_eq_true hchunk
    obtain ⟨hxkey, hget, -⟩ := hfound x hx
    refine ⟨x, hx, ?_⟩
    rw [Bool.and_eq_true, any_eq_true, Option.isNone_iff_eq_none]
    obtain ⟨source, hsource, hid, hserves⟩ := hdb.source
    refine ⟨hinv.tombstone x.2 hget, source, hsource, ?_⟩
    rw [Bool.and_eq_true, decide_eq_true_eq, hxkey]
    exact ⟨hid, hserves⟩

theorem rowWriter_of_returned (hdb : Serves db p key runs)
    (hreturned : Returned p key runs db asOf) (hr : pointsWriter p key runs asOf = some r) :
    rowWriter p key runs = some r := by
  have hinv := inv_after p key hids hclock
  obtain ⟨hmem, hkey⟩ := hinv.pointsWriter asOf r hr
  have hkept := hreturned [sampleHit r.chunkId 0] _ mem_cons_self
    ((hinv.valid asOf r.chunkId).2 ⟨r, hr, rfl⟩)
  have hvalid := (validChunk_iff hids hclock hdb hmem hkey).1 (mem_filter.1 hkept).2
  obtain ⟨r', hr', hid⟩ := (hinv.rows r.chunkId).1 hvalid
  obtain rfl := inj_on_of_nodup_map hids hmem (hinv.rowWriter r' hr').1 hid
  exact hr'

theorem returned_of_rowWriter (hdb : Serves db p key runs)
    (hwriter : ∀ r, pointsWriter p key runs asOf = some r → rowWriter p key runs = some r) :
    Returned p key runs db asOf := by
  have hinv := inv_after p key hids hclock
  intro hits hit hhit hvalid
  obtain ⟨r, hr, hid⟩ := (hinv.valid asOf hit.chunkId).1 hvalid
  obtain ⟨hmem, hkey⟩ := hinv.pointsWriter asOf r hr
  refine mem_filter.2 ⟨hhit, ?_⟩
  rw [hid, validChunk_iff hids hclock hdb hmem hkey]
  exact (hinv.rows r.chunkId).2 ⟨r, hwriter r hr, rfl⟩

omit hids hclock

/-- **Which history is returned**: the hits of a document for an earlier moment are kept if and only
if the run whose point was valid then, if there is one, is also the last one that has written the
row of the document in the ledger. -/
theorem returned_iff (hids : (runs.map Run.chunkId).Nodup)
    (hclock : runs.Pairwise fun r r' => r.now.val ≤ r'.now.val) (hdb : Serves db p key runs)
    (asOf : ℕ) : Returned p key runs db asOf ↔
      ∀ r, pointsWriter p key runs asOf = some r → rowWriter p key runs = some r :=
  ⟨fun hreturned _ hr => rowWriter_of_returned hids hclock hdb hreturned hr,
    returned_of_rowWriter hids hclock hdb⟩

end

/-- The ledger after the runs, with the active source 3 of workspace 7. -/
def sampleDatabase (runs : List Run) : Database where
  tables := { (after samplePipeline runs).tables with
    sources := [⟨3, "s", "git", .active, some 7⟩] }

theorem serves_sampleDatabase (runs : List Run) :
    Serves (sampleDatabase runs) samplePipeline (3, "a") runs :=
  ⟨rfl, _, mem_cons_self, rfl, by decide⟩

/-- A document that has not changed is returned. -/
theorem unchanged_returned :
    Returned samplePipeline (3, "a") [sampleRun "x" 10 none] (sampleDatabase [sampleRun "x" 10 none])
      Dedup.newYear.val := by
  refine (returned_iff (by decide) (pairwise_singleton _ _) (serves_sampleDatabase _)
    Dedup.newYear.val).2 fun r hr => ?_
  have heffects : effects samplePipeline (3, "a") {} [sampleRun "x" 10 none] = [.both] := by
    decide
  simp only [pointsWriter, rowWriter, log, heffects] at hr ⊢
  exact hr

/-- A run a moment later. -/
def laterRun : Run := { sampleRun "y" 11 none with now := ⟨Dedup.newYear.val + 1, by decide⟩ }

/-- The document has changed since, and the hit on its old version is dropped. -/
theorem changed_not_returned :
    ¬ ∀ (p : Pipeline) (key : Key) (runs : List Run) (db : Database) (asOf : ℕ),
      (runs.map Run.chunkId).Nodup → (runs.Pairwise fun r r' => r.now.val ≤ r'.now.val) →
        Serves db p key runs → Returned p key runs db asOf := by
  intro hall
  have hids : ([sampleRun "x" 10 none, laterRun].map Run.chunkId).Nodup := by decide
  have hclock : [sampleRun "x" 10 none, laterRun].Pairwise
      fun r r' => r.now.val ≤ r'.now.val := by decide
  have hdb := serves_sampleDatabase [sampleRun "x" 10 none, laterRun]
  have heffects : effects samplePipeline (3, "a") {} [sampleRun "x" 10 none, laterRun] =
      [.both, .both] := by decide +kernel
  have hwriter := rowWriter_of_returned (r := sampleRun "x" 10 none) hids hclock hdb
    (hall _ _ _ _ Dedup.newYear.val hids hclock hdb) (by
      simp only [pointsWriter, log, heffects]
      rfl)
  simp only [rowWriter, log, heffects] at hwriter
  have hid := congrArg (Option.map Run.chunkId) hwriter
  exact absurd hid (by decide)

end Omniscience.Historical
