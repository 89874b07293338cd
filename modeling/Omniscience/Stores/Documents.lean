import Omniscience.Stores.Qdrant

/-!
# Documents in the vector store

The chunks of a document are the current points with its workspace, its source and its external
id.  A write of a document either leaves the collection as it is or replaces the chunks of that
document and of no other (`currentChunks_writeDocument`, `currentChunks_writeDocument_ne`).

Which of the two it does is decided by the checkpoint of the *source*.  The versions of a write
count the versions of its document, so that a document whose versions are behind those of another
document of the source is not written at all.  `independent_iff` says which sequences of writes
leave every document with the chunks of its last write.
-/

namespace Omniscience.Qdrant

open Outbox List

/-- What identifies a document. -/
structure DocumentKey where
  workspaceId : Uuid
  sourceId : Uuid
  externalId : String

/-- The point belongs to the current generation of the document. -/
def Point.isCurrent (k : DocumentKey) (p : Point) : Bool :=
  p.workspaceId = k.workspaceId ∧ p.sourceId = k.sourceId ∧ p.externalId = k.externalId ∧
    p.validTo = some none

/-- The chunks of the current generation of a document, in scroll order. -/
def currentChunks (k : DocumentKey) (points : List Point) : List ChunkPayload :=
  (points.filter (Point.isCurrent k)).map Point.chunk

variable {p : Point}

theorem isCurrent_ne {k k' : DocumentKey} (hne : k' ≠ k) (h : p.isCurrent k = true) :
    p.isCurrent k' = false := by
  rw [Point.isCurrent, decide_eq_true_eq] at h
  rw [Point.isCurrent, decide_eq_false_iff_not]
  rintro ⟨h₁, h₂, h₃, -⟩
  refine hne ?_
  cases k
  cases k'
  simp_all

/-! ### Closing a generation -/

theorem nodup_ids {points : List Point} (h : Ascending points) : (points.map Point.id).Nodup := by
  rw [List.Nodup, pairwise_map]
  refine h.imp fun {p q} hlt heq => ?_
  rw [heq] at hlt
  exact lt_irrefl _ hlt

/-- The point, closed. -/
def Point.close (p : Point) (now : ℕ) : Point := { p with validTo := some (some now) }

variable (k : DocumentKey)

theorem isCurrent_close (p : Point) (now : ℕ) : (p.close now).isCurrent k = false := by
  simp [Point.isCurrent, Point.close]

theorem mem_map_id_filter {points : List Point} (h : Ascending points) {test : Point → Bool}
    (hp : p ∈ points) : p.id ∈ (points.filter test).map Point.id ↔ test p = true := by
  rw [mem_map]
  constructor
  · rintro ⟨q, hq, hid⟩
    obtain ⟨hq, htest⟩ := mem_filter.1 hq
    rw [← inj_on_of_nodup_map (nodup_ids h) hq hp hid]
    exact htest
  · exact fun htest => ⟨p, mem_filter.2 ⟨hp, htest⟩, rfl⟩

theorem findDocument_eq (c : Collection) : findDocument k.workspaceId k.sourceId k.externalId c =
      match c.points.filter (Point.isCurrent k) with
      | [] => none
      | first :: rest => some (recordFromPoints first (first :: rest)) := rfl

theorem exists_current_of_found {k : DocumentKey} {c : Collection} {contentHash : String}
    (h : (findDocument k.workspaceId k.sourceId k.externalId c).map DocumentRecord.contentHash =
      some contentHash) :
    ∃ p ∈ c.points, p.isCurrent k = true ∧ p.contentHash.getD "" = contentHash := by
  rw [findDocument_eq] at h
  split at h
  · cases h
  · rename_i first rest hfilter
    have hmem : first ∈ c.points.filter (Point.isCurrent k) := hfilter ▸ mem_cons_self
    exact ⟨first, (mem_filter.1 hmem).1, (mem_filter.1 hmem).2, Option.some.inj h⟩

theorem closeDocument_findDocument (now : ℕ) (c : Collection) :
    closeDocument (findDocument k.workspaceId k.sourceId k.externalId c) k.workspaceId now
        c.points = c.points.map fun p => if p.isCurrent k then p.close now else p := by
  rw [findDocument_eq]
  cases hfilter : c.points.filter (Point.isCurrent k) with
  | nil =>
    -- nothing is current, so that nothing is closed
    refine (map_id _).symm.trans (map_congr_left fun p hp => ?_)
    have hnot : ¬ p.isCurrent k = true := filter_eq_nil_iff.1 hfilter p hp
    rw [if_neg hnot]
    rfl
  | cons first rest =>
    refine map_congr_left fun p hp => ?_
    -- the ids are those of the current points
    have hids : p.id ∈ (first :: rest).map Point.id ↔ p.isCurrent k = true := by
      rw [← hfilter]
      exact mem_map_id_filter c.ascending hp
    have hws : p.isCurrent k = true → p.workspaceId = k.workspaceId := fun h =>
      (of_decide_eq_true h).1
    by_cases hcurrent : p.isCurrent k = true
    · have hmem : p.id ∈ (recordFromPoints first (first :: rest)).chunkPointIds := hids.2 hcurrent
      rw [if_pos hcurrent, if_pos ⟨hws hcurrent, hmem⟩]
      rfl
    · have hmem : p.id ∉ (recordFromPoints first (first :: rest)).chunkPointIds := fun h =>
        hcurrent (hids.1 h)
      rw [if_neg hcurrent, if_neg fun h => hmem h.2]

theorem current_close_iff {k k' : DocumentKey} {points : List Point} {now : ℕ} {q : Point} :
    (q ∈ (points.map fun p => if p.isCurrent k' then p.close now else p) ∧ q.isCurrent k = true) ↔
      (q ∈ points ∧ q.isCurrent k = true) ∧ k ≠ k' := by
  constructor
  · rintro ⟨hq, hcurrent⟩
    obtain ⟨p, hp, rfl⟩ := mem_map.1 hq
    split_ifs at hcurrent ⊢ with hclosed
    · rw [isCurrent_close] at hcurrent
      cases hcurrent
    · refine ⟨⟨hp, hcurrent⟩, ?_⟩
      rintro rfl
      exact hclosed hcurrent
  · rintro ⟨⟨hq, hcurrent⟩, hne⟩
    refine ⟨mem_map.2 ⟨q, hq, ?_⟩, hcurrent⟩
    rw [isCurrent_ne (Ne.symm hne) hcurrent]
    rfl

/-- The point, tombstoned. -/
def Point.bury (p : Point) (now : ℕ) : Point := { p with tombstonedAt := some (some now) }

theorem isCurrent_bury (p : Point) (now : ℕ) : (p.bury now).isCurrent k = p.isCurrent k := rfl

/-- `delete_by_document` tombstones the current points of the document, and no others, unless there
are none or the first of them is tombstoned. -/
theorem deleteByDocument_cases (now : ℕ) (c : Collection) :
    let c' := (deleteByDocument k.workspaceId k.sourceId k.externalId now c).1
    (c' = c ∧ ((∀ p ∈ c.points, p.isCurrent k = false) ∨
        ∃ p ∈ c.points, p.isCurrent k = true ∧ p.tombstonedAt.join.isSome)) ∨
      c'.points = c.points.map fun p => if p.isCurrent k then p.bury now else p := by
  intro c'
  cases hfilter : c.points.filter (Point.isCurrent k) with
  | nil =>
    have hfind : findDocument k.workspaceId k.sourceId k.externalId c = none := by
      rw [findDocument_eq, hfilter]
    refine .inl ⟨by simp [c', deleteByDocument, hfind], .inl fun p hp => ?_⟩
    simpa using filter_eq_nil_iff.1 hfilter p hp
  | cons first rest =>
    have hfind : findDocument k.workspaceId k.sourceId k.externalId c =
        some (recordFromPoints first (first :: rest)) := by
      rw [findDocument_eq, hfilter]
    have hfirst : first ∈ c.points.filter (Point.isCurrent k) := by simp [hfilter]
    obtain ⟨hmem, hfirstCurrent⟩ := mem_filter.1 hfirst
    by_cases htombstoned : first.tombstonedAt.join.isSome = true
    · refine .inl ⟨?_, .inr ⟨first, hmem, hfirstCurrent, htombstoned⟩⟩
      simp [c', deleteByDocument, hfind, recordFromPoints, htombstoned]
    · refine .inr ?_
      have hpoints : c'.points = tombstonePoints ((first :: rest).map Point.id) now c.points := by
        simp [c', deleteByDocument, hfind, recordFromPoints, htombstoned]
      rw [hpoints, tombstonePoints]
      refine map_congr_left fun p hp => ?_
      rw [← hfilter]
      exact if_congr (mem_map_id_filter c.ascending hp) rfl rfl

/-! ### Adding points -/

/-- The ids of the new points are new, one for each chunk. -/
structure Draw.Fresh (draw : Draw) (args : ChunksUpsert) (points : List Point) : Prop where
  nodup : draw.pointIds.Nodup
  length : draw.pointIds.length = args.chunks.length
  new : ∀ p ∈ points, p.id ∉ draw.pointIds

theorem mem_insertPoint_self (p : Point) (l : List Point) : p ∈ insertPoint p l := by
  induction l with
  | nil => exact mem_cons_self
  | cons q l ih =>
    rw [insertPoint]
    split_ifs
    · exact mem_cons_self
    · exact mem_cons_self
    · exact mem_cons_of_mem _ ih

theorem mem_insertPoint_of_ne {p q : Point} {l : List Point} (h : q ∈ l) (hne : p.id ≠ q.id) :
    q ∈ insertPoint p l := by
  induction l with
  | nil => cases h
  | cons r l ih =>
    rw [insertPoint]
    split_ifs with hlt heq
    · exact mem_cons_of_mem _ h
    · rcases mem_cons.1 h with rfl | h
      · exact absurd heq hne
      · exact mem_cons_of_mem _ h
    · rcases mem_cons.1 h with rfl | h
      · exact mem_cons_self
      · exact mem_cons_of_mem _ (ih h)

variable {new l : List Point}

theorem mem_addPoints (h : p ∈ addPoints new l) : p ∈ new ∨ p ∈ l := by
  induction new generalizing l with
  | nil => exact .inr h
  | cons q new ih =>
    rcases ih h with h | h
    · exact .inl (mem_cons_of_mem _ h)
    · rcases mem_insertPoint h with rfl | h
      · exact .inl mem_cons_self
      · exact .inr h

theorem mem_addPoints_of_ne (h : p ∈ l) (hne : p.id ∉ new.map Point.id) : p ∈ addPoints new l := by
  induction new generalizing l with
  | nil => exact h
  | cons q new ih =>
    rw [map_cons, mem_cons, not_or] at hne
    exact ih (mem_insertPoint_of_ne h (Ne.symm hne.1)) hne.2

theorem mem_addPoints_of_mem (h : p ∈ new) (hnodup : (new.map Point.id).Nodup) :
    p ∈ addPoints new l := by
  induction new generalizing l with
  | nil => cases h
  | cons q new ih =>
    rw [map_cons, nodup_cons] at hnodup
    rcases mem_cons.1 h with rfl | h
    · show p ∈ addPoints new (insertPoint p l)
      exact mem_addPoints_of_ne (mem_insertPoint_self p l) hnodup.1
    · exact ih h hnodup.2

theorem perm_insertPoint {l : List Point} (h : Ascending l) (hfresh : ∀ q ∈ l, q.id ≠ p.id) :
    (insertPoint p l).Perm (p :: l) := by
  obtain ⟨l₁, l₂, rfl, hins, -, -⟩ := insertPoint_split h hfresh
  rw [hins]
  exact perm_middle

theorem perm_addPoints (h : Ascending l) (hnodup : (new.map Point.id).Nodup)
    (hfresh : ∀ q ∈ l, q.id ∉ new.map Point.id) : (addPoints new l).Perm (new ++ l) := by
  induction new generalizing l with
  | nil => exact List.Perm.refl l
  | cons p new ih =>
    rw [map_cons, nodup_cons] at hnodup
    have hp : ∀ q ∈ l, q.id ≠ p.id := fun q hq heq =>
      hfresh q hq (heq ▸ mem_cons_self)
    have hnew : ∀ q ∈ insertPoint p l, q.id ∉ new.map Point.id := by
      intro q hq
      rcases mem_insertPoint hq with rfl | hq
      · exact hnodup.1
      · exact fun hmem => hfresh q hq (mem_cons_of_mem _ hmem)
    refine (ih (ascending_insertPoint p h) hnodup.2 hnew).trans ?_
    exact ((perm_insertPoint h hp).append_left new).trans perm_middle

/-! ### One write -/

/-- The document that a write is about. -/
def keyOf (workspaceId : Uuid) (args : ChunksUpsert) : DocumentKey :=
  ⟨workspaceId, args.sourceId, args.externalId⟩

section

variable {workspaceId w : Uuid} {args : ChunksUpsert} {draw : Draw} {now : ℕ} {c : Collection}

theorem newPoints (w : Uuid) (hfresh : draw.Fresh args c.points) (documentId : Uuid)
    (docVersion : ℤ) (now : ℕ) :
    let new := args.chunks.zipWith (chunkToPoint args w documentId docVersion now)
      draw.pointIds
    new.map Point.chunk = args.chunks ∧ new.map Point.id = draw.pointIds ∧
      ∀ p ∈ new, p.isCurrent (keyOf w args) = true := by
  intro new
  have hnew : new = (args.chunks.zip draw.pointIds).map fun x =>
      chunkToPoint args w documentId docVersion now x.1 x.2 := by
    rw [map_zip_eq_zipWith]
    rfl
  refine ⟨?_, ?_, fun p hp => ?_⟩
  · rw [hnew, map_map]
    exact map_fst_zip hfresh.length.ge
  · rw [hnew, map_map]
    exact map_snd_zip hfresh.length.le
  · rw [hnew] at hp
    obtain ⟨⟨chunk, id⟩, -, rfl⟩ := mem_map.1 hp
    simp [Point.isCurrent, chunkToPoint, keyOf]

theorem perm_writeDocument (hfresh : draw.Fresh args c.points) (now : ℕ) :
    ∃ new : List Point, new.map Point.chunk = args.chunks ∧
      (∀ p ∈ new, p.isCurrent (keyOf w args) = true) ∧
      (writeDocument (findDocument w args.sourceId args.externalId c) w args
        draw now c).points.Perm (new ++ c.points.map fun p =>
          if p.isCurrent (keyOf w args) then p.close now else p) := by
  obtain ⟨documentId, hpoints⟩ : ∃ documentId, (writeDocument (findDocument w
      args.sourceId args.externalId c) w args draw now c).points =
        addPoints (args.chunks.zipWith (chunkToPoint args w documentId
          (nextVersion (findDocument w args.sourceId args.externalId c)) now)
          draw.pointIds)
        (closeDocument (findDocument w args.sourceId args.externalId c) w now c.points) := ⟨_, rfl⟩
  obtain ⟨hchunks, hids, hcurrent⟩ := newPoints w hfresh documentId
    (nextVersion (findDocument w args.sourceId args.externalId c)) now
  refine ⟨_, hchunks, hcurrent, ?_⟩
  have hclosed := closeDocument_findDocument (keyOf w args) now c
  rw [hpoints, ← hclosed]
  refine perm_addPoints (ascending_closeDocument c.ascending) ?_ fun q hq => ?_
  · rw [hids]
    exact hfresh.nodup
  rw [hids]
  -- closing keeps the ids
  have hmem := mem_map_of_mem (f := Point.id) hq
  rw [map_id_closeDocument] at hmem
  obtain ⟨p, hp, hid⟩ := mem_map.1 hmem
  rw [← hid]
  exact hfresh.new p hp

/-- **A write replaces the chunks of its document.** -/
theorem currentChunks_writeDocument (hfresh : draw.Fresh args c.points) :
    (currentChunks (keyOf w args) (writeDocument (findDocument w args.sourceId
      args.externalId c) w args draw now c).points).Perm args.chunks := by
  obtain ⟨new, hchunks, hnew, hperm⟩ := perm_writeDocument hfresh now
  refine ((hperm.filter _).map _).trans ?_
  rw [filter_append, filter_eq_self.2 hnew, map_append, hchunks]
  -- the closed points are not current, and the others never were
  have hnil : (c.points.map fun p => if p.isCurrent (keyOf w args) then p.close now
      else p).filter (Point.isCurrent (keyOf w args)) = [] := by
    rw [filter_eq_nil_iff]
    intro q hq
    obtain ⟨p, -, rfl⟩ := mem_map.1 hq
    split
    · rw [isCurrent_close]
      exact Bool.false_ne_true
    · assumption
  rw [hnil, map_nil, append_nil]

/-- **The frame of a write**: the chunks of the other documents stay. -/
theorem currentChunks_writeDocument_ne (hfresh : draw.Fresh args c.points) {k : DocumentKey}
    (hne : k ≠ keyOf w args) :
    (currentChunks k (writeDocument (findDocument w args.sourceId args.externalId c)
      w args draw now c).points).Perm (currentChunks k c.points) := by
  obtain ⟨new, -, hnew, hperm⟩ := perm_writeDocument hfresh now
  refine ((hperm.filter _).map _).trans ?_
  have hnil : new.filter (Point.isCurrent k) = [] := by
    rw [filter_eq_nil_iff]
    intro p hp
    rw [isCurrent_ne hne (hnew p hp)]
    exact Bool.false_ne_true
  rw [filter_append, hnil, nil_append, currentChunks]
  refine List.Perm.of_eq ?_
  -- a point that is closed here was not one of the document in question
  induction c.points with
  | nil => rfl
  | cons p points ih =>
    rw [map_cons]
    by_cases hp : p.isCurrent (keyOf w args) = true
    · rw [if_pos hp, filter_cons_of_neg, filter_cons_of_neg]
      · exact ih
      · rw [isCurrent_ne hne hp]
        exact Bool.false_ne_true
      · rw [isCurrent_close]
        exact Bool.false_ne_true
    · rw [if_neg hp, filter_cons, filter_cons]
      split
      · rw [map_cons, map_cons, ih]
      · exact ih

end

/-! ### Sequences of writes -/

/-- A call of `upsert_chunks`, with the ids that it draws and its time. -/
structure Upsert where
  args : ChunksUpsert
  draw : Draw
  now : ℕ

/-- The collection after the call; one that raises leaves it. -/
def Upsert.apply (u : Upsert) (c : Collection) : Collection :=
  match upsertChunks u.args u.draw u.now c with
  | .ok c' => c'
  | .error _ => c

/-- The collection after a sequence of calls. -/
def after (c : Collection) (calls : List Upsert) : Collection :=
  calls.foldl (fun c u => u.apply c) c

/-- The last of the calls for a document. -/
def lastFor (externalId : String) (calls : List Upsert) : Option Upsert :=
  (calls.filter fun u => u.args.externalId = externalId).getLast?

/-- The calls write documents of one source, each with ids that are new when it is made. -/
structure Feeds (workspaceId sourceId : Uuid) (c : Collection) (calls : List Upsert) : Prop where
  source : ∀ u ∈ calls, u.args.sourceId = sourceId
  workspace : ∀ u ∈ calls, extractWorkspaceId u.args.metadata = .ok workspaceId
  fresh : ∀ pre u, pre ++ [u] <+: calls → u.draw.Fresh u.args (after c pre).points

/-- Whenever a call has been made, every document has the chunks of its last one. -/
def Independent (workspaceId sourceId : Uuid) (c : Collection) (calls : List Upsert) : Prop :=
  ∀ pre, pre <+: calls → ∀ externalId u, lastFor externalId pre = some u →
    (currentChunks ⟨workspaceId, sourceId, externalId⟩ (after c pre).points).Perm u.args.chunks

/-- The call is neither skipped by the checkpoint of its source nor a write of the content hash
that the document has, unless the document has these very chunks. -/
def Lands (workspaceId : Uuid) (c : Collection) (args : ChunksUpsert) : Prop :=
  (skips c args = true ∨ (findDocument workspaceId args.sourceId args.externalId c).map
      DocumentRecord.contentHash = some args.contentHash) →
    (currentChunks (keyOf workspaceId args) c.points).Perm args.chunks

section

variable {workspaceId sourceId w : Uuid} {c : Collection}

theorem not_written_iff {args : ChunksUpsert} : ¬ Written c w args ↔ skips c args = true ∨
      (findDocument w args.sourceId args.externalId c).map DocumentRecord.contentHash =
        some args.contentHash := by
  rw [Written, not_and_or, Bool.not_eq_false, not_not]

theorem apply_cases {u : Upsert} (hws : extractWorkspaceId u.args.metadata = .ok w) :
    (¬ Written c w u.args ∧ u.apply c = c) ∨ (Written c w u.args ∧
      u.apply c = writeDocument (findDocument w u.args.sourceId u.args.externalId c)
        w u.args u.draw u.now c) := by
  obtain ⟨c', hc'⟩ := exists_upsertChunks hws u.draw u.now c
  rw [Upsert.apply, hc']
  exact upsertChunks_cases hws hc'

/-- **One call**: its document has its chunks afterwards exactly if the call lands. -/
theorem currentChunks_apply {u : Upsert} (hws : extractWorkspaceId u.args.metadata = .ok w)
    (hfresh : u.draw.Fresh u.args c.points) :
    (currentChunks (keyOf w u.args) (u.apply c).points).Perm u.args.chunks ↔
      Lands w c u.args := by
  obtain ⟨hnot, happly⟩ | ⟨hwritten, happly⟩ := apply_cases (c := c) hws
  · rw [happly, Lands, forall_prop_of_true (not_written_iff.1 hnot)]
  · rw [happly, Lands, ← not_written_iff]
    exact iff_of_true (currentChunks_writeDocument hfresh) fun h => absurd hwritten h

theorem currentChunks_apply_ne {u : Upsert} (hws : extractWorkspaceId u.args.metadata = .ok w)
    (hfresh : u.draw.Fresh u.args c.points) {k : DocumentKey} (hne : k ≠ keyOf w u.args) :
    (currentChunks k (u.apply c).points).Perm (currentChunks k c.points) := by
  obtain ⟨-, happly⟩ | ⟨-, happly⟩ := apply_cases (c := c) hws
  · rw [happly]
  · rw [happly]
    exact currentChunks_writeDocument_ne hfresh hne

theorem after_concat (calls : List Upsert) (u : Upsert) :
    after c (calls ++ [u]) = u.apply (after c calls) := by
  rw [after, foldl_append]
  rfl

theorem lastFor_concat_self (calls : List Upsert) (u : Upsert) :
    lastFor u.args.externalId (calls ++ [u]) = some u := by
  simp [lastFor]

theorem lastFor_concat_ne (calls : List Upsert) {u : Upsert} {externalId : String}
    (hne : u.args.externalId ≠ externalId) :
    lastFor externalId (calls ++ [u]) = lastFor externalId calls := by
  simp [lastFor, hne]

/-- **Which documents are independent**: every document has the chunks of its last write, after each
of the calls, if and only if every call lands, or its document has these chunks already. -/
theorem independent_iff {calls : List Upsert} (h : Feeds workspaceId sourceId c calls) :
    Independent workspaceId sourceId c calls ↔
      ∀ pre u, pre ++ [u] <+: calls → Lands workspaceId (after c pre) u.args := by
  have hmem : ∀ pre u, pre ++ [u] <+: calls → u ∈ calls := fun pre u hpre =>
    hpre.subset (mem_append_right _ mem_cons_self)
  constructor
  · intro hind pre u hpre
    have hws := h.workspace u (hmem pre u hpre)
    rw [← currentChunks_apply hws (h.fresh pre u hpre), ← after_concat]
    have hcurrent := hind _ hpre _ u (lastFor_concat_self pre u)
    rw [← h.source u (hmem pre u hpre)] at hcurrent
    exact hcurrent
  · intro hlands pre
    -- by induction on the calls made so far, the last one being either the one in question or not
    induction pre using List.reverseRecOn with
    | nil => rintro - externalId u ⟨⟩
    | append_singleton pre u ih =>
      intro hpre externalId v hlast
      have hws := h.workspace u (hmem pre u hpre)
      have hfresh := h.fresh pre u hpre
      have hsource := h.source u (hmem pre u hpre)
      rw [after_concat]
      by_cases hx : u.args.externalId = externalId
      · subst hx
        rw [lastFor_concat_self, Option.some.injEq] at hlast
        subst hlast
        have hcurrent := (currentChunks_apply hws hfresh).2 (hlands pre u hpre)
        rw [keyOf, hsource] at hcurrent
        exact hcurrent
      · rw [lastFor_concat_ne pre hx] at hlast
        have hrest := ih ((prefix_append _ _).trans hpre) externalId v hlast
        refine (currentChunks_apply_ne hws hfresh ?_).trans hrest
        intro heq
        exact hx (congrArg DocumentKey.externalId heq).symm

end

/-! ### Two documents -/

/-- The epoch and the version of a call are above those of another. -/
def Precedes (a b : ChunksUpsert) : Prop :=
  ∃ e v e' v', a.epoch = some e ∧ a.version = some v ∧ b.epoch = some e' ∧ b.version = some v' ∧
    (e < e' ∨ e = e' ∧ v < v')

/-- The calls for each document have rising pairs of epoch and version. -/
def Increasing (calls : List Upsert) : Prop :=
  ∀ externalId, (calls.filter fun u => u.args.externalId = externalId).Pairwise fun a b =>
    Precedes a.args b.args

/-- A document with one chunk. -/
def page (externalId : String) (version : ℤ) (pointId : Uuid) : Upsert where
  args := {
    sourceId := 3
    externalId := externalId
    uri := externalId
    title := none
    contentHash := externalId
    metadata := [("workspace_id", .str (Uuid.str 7))]
    chunks := [⟨0, externalId, [], "", [], "", "", "", ""⟩]
    version := some version
    epoch := some 0 }
  draw := ⟨1, [pointId]⟩
  now := 0

theorem extractWorkspaceId_page (externalId : String) (version : ℤ) (pointId : Uuid) :
    extractWorkspaceId (page externalId version pointId).args.metadata = .ok 7 := by
  simp [extractWorkspaceId, page, uuidOf, Uuid.parse_str]

theorem points_page (version : ℤ) : ((page "a" version 10).apply {}).points =
        [chunkToPoint (page "a" version 10).args 7 1 1 (page "a" version 10).now
          ⟨0, "a", [], "", [], "", "", "", ""⟩ 10] ∧
      ((page "a" version 10).apply {}).checkpoints = Dict.empty.set 3 (some version, some 0) := by
  have hws := extractWorkspaceId_page "a" version 10
  simp only [Upsert.apply, upsertChunks, hws, ok_bind]
  exact ⟨rfl, rfl⟩

theorem of_prefix_pair {α : Type} {a b u : α} {pre : List α} (h : pre ++ [u] <+: [a, b]) :
    (pre = [] ∧ u = a) ∨ (pre = [a] ∧ u = b) := by
  rcases pre with _ | ⟨p, _ | ⟨q, rest⟩⟩
  · simp_all
  · simp_all
  · simpa using h.length_le

theorem feeds_pages (v w : ℤ) : Feeds 7 3 {} [page "a" v 10, page "b" w 11] := by
  refine ⟨?_, ?_, fun pre u hpre => ?_⟩
  · simp [page]
  · intro u hu
    rcases mem_cons.1 hu with rfl | hu
    · exact extractWorkspaceId_page _ _ _
    · rw [mem_singleton.1 hu]
      exact extractWorkspaceId_page _ _ _
  · obtain ⟨rfl, rfl⟩ | ⟨rfl, rfl⟩ := of_prefix_pair hpre
    · exact ⟨nodup_singleton _, rfl, by rintro _ ⟨⟩⟩
    · refine ⟨nodup_singleton _, rfl, ?_⟩
      rw [after, foldl_cons, foldl_nil, (points_page v).1]
      simp [chunkToPoint, page]

theorem increasing_pages (v w : ℤ) : Increasing [page "a" v 10, page "b" w 11] := by
  intro externalId
  by_cases ha : "a" = externalId
  · subst ha
    simp [page]
  · by_cases hb : "b" = externalId
    · simp [page, ha, hb]
    · simp [page, ha, hb]

/-- Both pages are stored if the version of the second is above that of the first. -/
theorem pages_independent : Feeds 7 3 {} [page "a" 1 10, page "b" 2 11] ∧
      Independent 7 3 {} [page "a" 1 10, page "b" 2 11] := by
  refine ⟨feeds_pages 1 2, (independent_iff (feeds_pages 1 2)).2 fun pre u hpre => ?_⟩
  obtain ⟨rfl, rfl⟩ | ⟨rfl, rfl⟩ := of_prefix_pair hpre
  · rintro (⟨⟨⟩⟩ | ⟨⟨⟩⟩)
  · rw [after, foldl_cons, foldl_nil]
    obtain ⟨hpoints, hcheckpoints⟩ := points_page 1
    generalize (page "a" 1 10).apply {} = c at hpoints hcheckpoints ⊢
    rintro (hskip | hhash)
    · simp [skips, shouldSkip, hcheckpoints, page] at hskip
    · simp [findDocument, hpoints, page, chunkToPoint] at hhash

/-- If it is below, the second page is lost, though it is the only write of its document. -/
theorem page_lost : ¬ ∀ (workspaceId sourceId : Uuid) (c : Collection) (calls : List Upsert),
      Feeds workspaceId sourceId c calls → Increasing calls →
        Independent workspaceId sourceId c calls := by
  intro h
  have hind := h 7 3 {} _ (feeds_pages 2 1) (increasing_pages 2 1)
  have hb := hind _ (prefix_refl _) "b" (page "b" 1 11) rfl
  rw [after, foldl_cons, foldl_cons, foldl_nil] at hb
  obtain ⟨hpoints, hcheckpoints⟩ := points_page 2
  generalize (page "a" 2 10).apply {} = c at hpoints hcheckpoints hb
  -- the checkpoint is at 2, so that version 1 is skipped
  have hskip : skips c (page "b" 1 11).args = true := by
    simp [skips, shouldSkip, hcheckpoints, page]
  obtain ⟨-, happly⟩ | ⟨hwritten, -⟩ := apply_cases (c := c) (extractWorkspaceId_page "b" 1 11)
  · rw [happly, hpoints] at hb
    exact absurd hb.length_eq (by decide)
  · rw [hwritten.1] at hskip
    exact Bool.false_ne_true hskip

end Omniscience.Qdrant
