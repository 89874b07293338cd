import Omniscience.Outbox.Consumer

/-!
# The vector store

`QdrantVectorStore` as far as the outbox consumer writes entity chunks to it and the reconcile
worker reads from it.

A write of a document with a new content hash closes the points of the current generation and adds
new ones; the closed points stay in the collection.  The `doc_version` of a new generation counts
the generations and has nothing to do with the version of the event.  The readers for the
reconcile worker scroll over all generations, in the order of the point ids, and of several points
of one entity the last one counts.
-/

namespace Omniscience.Qdrant

open Outbox List

/-! ### The collection -/

/-- A chunk point with the part of its payload that is read, and the chunk that it stores.  A
missing `valid_to` is not the same as a null one: the filter for current points wants the null, and
so does the filter for points that are not tombstoned.  `isWarm` says that `tier` is `warm`; no
other value is written. -/
structure Point where
  id : Uuid
  workspaceId : Uuid
  sourceId : Uuid
  documentId : Uuid
  externalId : String
  contentHash : Option String
  docVersion : Option ℤ
  chunk : ChunkPayload
  validTo : Option (Option ℕ) := some none
  tombstonedAt : Option (Option ℕ) := some none
  recordedAt : Option ℕ := none
  isWarm : Bool := false
  snapshotDate : Option ℕ := none

/-- The strategy in the payload of a point. -/
def Point.chunkerStrategy (p : Point) : String := p.chunk.chunkerStrategy

/-- The order in which the points are scrolled. -/
def Ascending (points : List Point) : Prop := points.Pairwise fun p q => p.id.toNat < q.id.toNat

/-- A collection: the chunk points in scroll order, and the checkpoint point of each source with
its version and its epoch. -/
structure Collection where
  points : List Point := []
  checkpoints : Dict Uuid (Option ℤ × Option ℤ) := .empty
  ascending : Ascending points := by exact List.Pairwise.nil

theorem ascending_nil : Ascending [] := List.Pairwise.nil

/-- A new collection. -/
def Collection.empty : Collection := ⟨[], .empty, ascending_nil⟩

/-- Store a point at its place; a point with the same id is replaced. -/
def insertPoint (p : Point) : List Point → List Point
  | [] => [p]
  | q :: l =>
    if p.id.toNat < q.id.toNat then p :: q :: l
    else if p.id = q.id then p :: l
    else q :: insertPoint p l

theorem mem_insertPoint {p q : Point} {l : List Point} (h : q ∈ insertPoint p l) :
    q = p ∨ q ∈ l := by
  induction l with
  | nil => exact .inl (mem_singleton.1 h)
  | cons r l ih =>
    rw [insertPoint] at h
    split at h
    · simpa using h
    · split at h
      · rcases mem_cons.1 h with h | h
        · exact .inl h
        · exact .inr (mem_cons_of_mem _ h)
      · rcases mem_cons.1 h with rfl | h
        · exact .inr mem_cons_self
        · exact (ih h).imp_right (mem_cons_of_mem _)

theorem ascending_insertPoint (p : Point) {l : List Point} (h : Ascending l) :
    Ascending (insertPoint p l) := by
  induction l with
  | nil => exact pairwise_singleton _ _
  | cons q l ih =>
    obtain ⟨hq, hl⟩ := pairwise_cons.1 h
    rw [insertPoint]
    split
    · rename_i hlt
      refine pairwise_cons.2 ⟨fun r hr => ?_, h⟩
      rcases mem_cons.1 hr with rfl | hr
      · exact hlt
      · exact hlt.trans (hq r hr)
    · rename_i hnlt
      split
      · rename_i heq
        refine pairwise_cons.2 ⟨fun r hr => ?_, hl⟩
        rw [heq]
        exact hq r hr
      · rename_i hne
        -- the point is above `q`, and so is everything that `q` was below of
        refine pairwise_cons.2 ⟨fun r hr => ?_, ih hl⟩
        rcases mem_insertPoint hr with rfl | hr
        · have hne' : r.id.toNat ≠ q.id.toNat := fun h => hne (BitVec.eq_of_toNat_eq h)
          omega
        · exact hq r hr

variable {points : List Point}

theorem ascending_map {change : Point → Point} (hid : ∀ p, (change p).id = p.id)
    (h : Ascending points) : Ascending (points.map change) := by
  refine pairwise_map.2 (h.imp fun {p q} hpq => ?_)
  rw [hid, hid]
  exact hpq

/-- `_end_date_points`. -/
def endDatePoints (pointIds : List Uuid) (workspaceId : Uuid) (now : ℕ) (points : List Point) :
    List Point :=
  points.map fun p =>
    if p.workspaceId = workspaceId ∧ p.id ∈ pointIds then { p with validTo := some (some now) }
    else p

theorem ascending_endDatePoints {pointIds : List Uuid} {w : Uuid} {now : ℕ}
    (h : Ascending points) : Ascending (endDatePoints pointIds w now points) := by
  refine ascending_map (fun p => ?_) h
  split <;> rfl

/-! ### Writing -/

/-- `_DocumentRecord`. -/
structure DocumentRecord where
  documentId : Uuid
  contentHash : String
  docVersion : ℤ
  chunkPointIds : List Uuid
  tombstoned : Bool

/-- `_record_from_points`, of a list that starts with `first`. -/
def recordFromPoints (first : Point) (points : List Point) : DocumentRecord where
  documentId := first.documentId
  contentHash := first.contentHash.getD ""
  docVersion := first.docVersion.getD 0
  chunkPointIds := points.map Point.id
  tombstoned := first.tombstonedAt.join.isSome

/-- `_find_document`: the current generation of a document. -/
def findDocument (workspaceId sourceId : Uuid) (externalId : String) (c : Collection) :
    Option DocumentRecord :=
  match c.points.filter fun p => p.workspaceId = workspaceId ∧ p.sourceId = sourceId ∧
      p.externalId = externalId ∧ p.validTo = some none with
  | [] => none
  | first :: rest => some (recordFromPoints first (first :: rest))

/-- `_extract_workspace_id`. -/
def extractWorkspaceId (metadata : Metadata) : Except Exc Uuid :=
  match metadata.lookup "workspace_id" with
  | none | some .null => .error ⟨.valueError, "QdrantVectorStore upsert rejected: " ++
      "metadata['workspace_id'] is required and must be a non-null UUID (ADR-0006 §ACL)."⟩
  | some (.str text) => uuidOf text
  | some _ => .error ⟨.typeError, "workspace_id must be UUID or str"⟩

/-- The ids of a write: what `uuid.uuid4()` returns for the document, and for each chunk its own
`chunk_id` or else what `uuid.uuid4()` returns. -/
structure Draw where
  documentId : Uuid
  pointIds : List Uuid

/-- The checkpoint of the source is at the version or beyond, and nothing overrides it. -/
def shouldSkip (c : Collection) (args : ChunksUpsert) (version : ℤ) : Bool :=
  match c.checkpoints.get? args.sourceId with
  | none => false
  | some (existingVersion, existingEpoch) =>
    let behind := match existingVersion with
      | some existing => decide (version ≤ existing)
      | none => false
    let newEpoch := match args.epoch, existingEpoch with
      | some epoch, some existing => decide (existing < epoch)
      | _, _ => false
    behind && !newEpoch && !args.forcedReplay

/-- The write carries a version, and the checkpoint of its source skips it. -/
def skips (c : Collection) (args : ChunksUpsert) : Bool :=
  match args.version with
  | some version => shouldSkip c args version
  | none => false

/-- `_chunk_to_point`. -/
def chunkToPoint (args : ChunksUpsert) (workspaceId documentId : Uuid) (docVersion : ℤ) (now : ℕ)
    (chunk : ChunkPayload) (pointId : Uuid) : Point where
  id := pointId
  workspaceId := workspaceId
  sourceId := args.sourceId
  documentId := documentId
  externalId := args.externalId
  contentHash := some args.contentHash
  docVersion := some docVersion
  chunk := chunk
  recordedAt := some now

/-- The version of the next generation. -/
def nextVersion (existing : Option DocumentRecord) : ℤ :=
  match existing with
  | some record => record.docVersion + 1
  | none => 1

/-- Close the points of the current generation. -/
def closeDocument (existing : Option DocumentRecord) (workspaceId : Uuid) (now : ℕ)
    (points : List Point) : List Point :=
  match existing with
  | some record => endDatePoints record.chunkPointIds workspaceId now points
  | none => points

/-- The new points of a document, stored. -/
def addPoints (new : List Point) (points : List Point) : List Point :=
  new.foldl (fun points p => insertPoint p points) points

theorem ascending_addPoints {new points : List Point} (h : Ascending points) :
    Ascending (addPoints new points) := by
  induction new generalizing points with
  | nil => exact h
  | cons p new ih => exact ih (ascending_insertPoint p h)

theorem ascending_closeDocument {existing : Option DocumentRecord} {w : Uuid} {now : ℕ}
    (h : Ascending points) : Ascending (closeDocument existing w now points) := by
  cases existing with
  | none => exact h
  | some record => exact ascending_endDatePoints h

/-- `_write_document`. -/
def writeDocument (existing : Option DocumentRecord) (workspaceId : Uuid) (args : ChunksUpsert)
    (draw : Draw) (now : ℕ) (c : Collection) : Collection :=
  let documentId := match existing with
    | some record => record.documentId
    | none => draw.documentId
  let new := args.chunks.zipWith (chunkToPoint args workspaceId documentId (nextVersion existing)
    now) draw.pointIds
  { points := addPoints new (closeDocument existing workspaceId now c.points)
    checkpoints := match args.version with
      | some version => c.checkpoints.set args.sourceId (some version, args.epoch)
      | none => c.checkpoints
    ascending := ascending_addPoints (ascending_closeDocument c.ascending) }

/-- `QdrantVectorStore.upsert_chunks`. -/
def upsertChunks (args : ChunksUpsert) (draw : Draw) (now : ℕ) (c : Collection) :
    Except Exc Collection := do
  let workspaceId ← extractWorkspaceId args.metadata
  if skips c args then return c
  else
    let existing := findDocument workspaceId args.sourceId args.externalId c
    if existing.map DocumentRecord.contentHash = some args.contentHash then return c
    else return writeDocument existing workspaceId args draw now c

/-! ### Tombstones -/

/-- `set_payload` with `tombstoned_at`, on the points with these ids. -/
def tombstonePoints (pointIds : List Uuid) (now : ℕ) (points : List Point) : List Point :=
  points.map fun p => if p.id ∈ pointIds then { p with tombstonedAt := some (some now) } else p

theorem ascending_tombstonePoints {pointIds : List Uuid} {now : ℕ} (h : Ascending points) :
    Ascending (tombstonePoints pointIds now points) := by
  refine ascending_map (fun p => ?_) h
  split <;> rfl

/-- `QdrantVectorStore.delete_by_document`. -/
def deleteByDocument (workspaceId sourceId : Uuid) (externalId : String) (now : ℕ)
    (c : Collection) : Collection × Bool :=
  match findDocument workspaceId sourceId externalId c with
  | none => (c, false)
  | some record =>
    if record.tombstoned then (c, false)
    else
      ({ c with
          points := tombstonePoints record.chunkPointIds now c.points
          ascending := ascending_tombstonePoints c.ascending }, true)

/-- `QdrantVectorStore.delete_tombstoned`, for all workspaces. -/
def deleteTombstoned (cutoff : ℤ) (c : Collection) : Collection where
  points := c.points.filter fun p => !p.tombstonedAt.join.any fun moment => (moment : ℤ) < cutoff
  checkpoints := c.checkpoints
  ascending := c.ascending.filter _

/-! ### What the reconcile worker reads -/

/-- `text.removeprefix(pre)`, of a text that starts with `pre`. -/
def removePrefix (pre text : String) : Option String :=
  (pre.toList.isPrefixOf? text.toList).map String.ofList

/-- The entity that an external id names. -/
def entityOf (externalId : String) : Option Uuid :=
  (removePrefix "entity:" externalId).bind Uuid.parse

/-- A property of a point, if it is an entity chunk of the workspace. -/
def view {β : Type} (prop : Point → Option β) (workspaceId : Uuid) (p : Point) :
    Option (Uuid × β) :=
  if p.workspaceId = workspaceId ∧ p.chunkerStrategy = "entity_outbox" then
    match entityOf p.externalId, prop p with
    | some id, some v => some (id, v)
    | _, _ => none
  else none

/-- A property of the entity chunks of a workspace, where it is present. -/
def readPoints {β : Type} (prop : Point → Option β) (workspaceId : Uuid) (c : Collection) :
    Dict Uuid β :=
  .ofList (c.points.filterMap (view prop workspaceId))

/-- `get_entity_versions`. -/
def getEntityVersions (workspaceId : Uuid) (c : Collection) : Dict Uuid ℤ :=
  readPoints Point.docVersion workspaceId c

/-- `get_entity_content_hashes`. -/
def getEntityContentHashes (workspaceId : Uuid) (c : Collection) : Dict Uuid String :=
  readPoints Point.contentHash workspaceId c

/-! ### The readers and the writers -/

/-- A property of a point, if it is a chunk of the entity. -/
def about {β : Type} (prop : Point → Option β) (workspaceId id : Uuid) (p : Point) : Option β :=
  if p.workspaceId = workspaceId ∧ p.chunkerStrategy = "entity_outbox" ∧
      entityOf p.externalId = some id then prop p
  else none

/-- What a reader shows of an entity: the property of its last point that has it. -/
def shown {β : Type} (prop : Point → Option β) (workspaceId id : Uuid) (points : List Point) :
    Option β :=
  (points.filterMap (about prop workspaceId id)).getLast?

theorem get?_ofList_view {β : Type} (prop : Point → Option β) (w id : Uuid) (points : List Point) :
    (Dict.ofList (points.filterMap (view prop w))).get? id =
      shown prop w id points := by
  rw [Dict.get?_ofList, shown, ← List.getLast?_map]
  congr 1
  induction points with
  | nil => rfl
  | cons p points ih =>
    -- a point is in the list of the reader with its own id, and is filtered by it
    by_cases hp : p.workspaceId = w ∧ p.chunkerStrategy = "entity_outbox"
    · cases he : entityOf p.externalId with
      | none => simpa [view, about, he] using ih
      | some id' =>
        cases hv : prop p with
        | none => simpa [view, about, he, hv] using ih
        | some v =>
          by_cases hid : id' = id
          · simpa [view, about, he, hv, hp.1, hp.2, hid] using ih
          · simpa [view, about, he, hv, hp.1, hp.2, hid] using ih
    · have hview : view prop w p = none := if_neg hp
      have habout : about prop w id p = none := if_neg fun h => hp ⟨h.1, h.2.1⟩
      simpa [hview, habout] using ih

theorem get?_readPoints {β : Type} (prop : Point → Option β) (w id : Uuid) (c : Collection) :
    (readPoints prop w c).get? id = shown prop w id c.points :=
  get?_ofList_view prop w id c.points

theorem insertPoint_split {p : Point} {l : List Point} (h : Ascending l)
    (hfresh : ∀ q ∈ l, q.id ≠ p.id) :
    ∃ l₁ l₂, l = l₁ ++ l₂ ∧ insertPoint p l = l₁ ++ p :: l₂ ∧
      (∀ q ∈ l₁, q.id.toNat < p.id.toNat) ∧ ∀ q ∈ l₂, p.id.toNat < q.id.toNat := by
  induction l with
  | nil => exact ⟨[], [], rfl, rfl, by simp, by simp⟩
  | cons q l ih =>
    obtain ⟨hq, hl⟩ := pairwise_cons.1 h
    by_cases hlt : p.id.toNat < q.id.toNat
    · refine ⟨[], q :: l, rfl, by simp [insertPoint, hlt], by simp, fun r hr => ?_⟩
      rcases mem_cons.1 hr with rfl | hr
      · exact hlt
      · exact hlt.trans (hq r hr)
    · have hne : p.id ≠ q.id := (hfresh q mem_cons_self).symm
      have hqp : q.id.toNat < p.id.toNat := by
        have hne' : p.id.toNat ≠ q.id.toNat := fun h => hne (BitVec.eq_of_toNat_eq h)
        omega
      obtain ⟨l₁, l₂, rfl, hins, hbelow, habove⟩ :=
        ih hl fun r hr => hfresh r (mem_cons_of_mem _ hr)
      refine ⟨q :: l₁, l₂, rfl, by simp [insertPoint, hlt, hne, hins], fun r hr => ?_, habove⟩
      rcases mem_cons.1 hr with rfl | hr
      · exact hqp
      · exact hbelow r hr

/-- The point id lies above those of all points of the entity with the property. -/
def OnTop {β : Type} (prop : Point → Option β) (workspaceId id pointId : Uuid)
    (points : List Point) : Prop :=
  ∀ q ∈ points, (about prop workspaceId id q).isSome → q.id.toNat < pointId.toNat

section

variable {β : Type} {prop : Point → Option β} {workspaceId w id : Uuid} {p : Point} {l : List Point}

theorem shown_insertPoint_none (h : Ascending l) (hfresh : ∀ q ∈ l, q.id ≠ p.id)
    (hp : about prop w id p = none) :
    shown prop w id (insertPoint p l) = shown prop w id l := by
  obtain ⟨l₁, l₂, rfl, hins, -, -⟩ := insertPoint_split h hfresh
  simp [shown, hins, hp]

theorem shown_insertPoint_top (h : Ascending l) (hfresh : ∀ q ∈ l, q.id ≠ p.id) {v : β}
    (hp : about prop w id p = some v) (htop : OnTop prop w id p.id l) :
    shown prop w id (insertPoint p l) = some v := by
  obtain ⟨l₁, l₂, rfl, hins, -, habove⟩ := insertPoint_split h hfresh
  have hnil : l₂.filterMap (about prop w id) = [] := by
    rw [filterMap_eq_nil_iff]
    intro q hq
    rw [← Option.not_isSome_iff_eq_none]
    intro hsome
    exact (habove q hq).not_gt (htop q (mem_append_right _ hq) hsome)
  simp [shown, hins, hp, hnil]

theorem shown_insertPoint_below (h : Ascending l) (hfresh : ∀ q ∈ l, q.id ≠ p.id)
    (hbelow : ¬ OnTop prop workspaceId id p.id l) :
    shown prop workspaceId id (insertPoint p l) = shown prop workspaceId id l := by
  obtain ⟨l₁, l₂, rfl, hins, hl₁, -⟩ := insertPoint_split h hfresh
  have hne : l₂.filterMap (about prop workspaceId id) ≠ [] := by
    intro hnil
    refine hbelow fun q hq hsome => ?_
    rcases mem_append.1 hq with hq | hq
    · exact hl₁ q hq
    · rw [filterMap_eq_nil_iff.1 hnil q hq] at hsome
      cases hsome
  obtain ⟨v, vs, hvs⟩ := exists_cons_of_ne_nil hne
  cases hp : about prop workspaceId id p with
  | none => simp [shown, hins, hp]
  | some w => simp [shown, hins, hp, hvs]

end

/-- The property is not the end date of a point. -/
def Lasting {β : Type} (prop : Point → Option β) : Prop :=
  ∀ p validTo, prop { p with validTo := validTo } = prop p

theorem lasting_docVersion : Lasting Point.docVersion := fun _ _ => rfl

theorem lasting_contentHash : Lasting Point.contentHash := fun _ _ => rfl

theorem about_validTo {β : Type} {prop : Point → Option β} (hprop : Lasting prop) (ws id : Uuid)
    (p : Point) (validTo : Option (Option ℕ)) :
    about prop ws id { p with validTo := validTo } = about prop ws id p := by
  rw [about, hprop p]
  rfl

theorem filterMap_closeDocument {β : Type} {prop : Point → Option β} (hprop : Lasting prop)
    (ws id : Uuid) (existing : Option DocumentRecord) (w : Uuid) (now : ℕ) (points : List Point) :
    (closeDocument existing w now points).filterMap (about prop ws id) =
      points.filterMap (about prop ws id) := by
  cases existing with
  | none => rfl
  | some record =>
    rw [closeDocument, endDatePoints, filterMap_map]
    refine filterMap_congr fun p _ => ?_
    simp only [Function.comp]
    split
    · rw [about_validTo hprop]
    · rfl

theorem map_id_closeDocument (existing : Option DocumentRecord) (w : Uuid) (now : ℕ)
    (points : List Point) :
    (closeDocument existing w now points).map Point.id = points.map Point.id := by
  cases existing with
  | none => rfl
  | some record =>
    rw [closeDocument, endDatePoints, map_map]
    refine map_congr_left fun p _ => ?_
    simp only [Function.comp]
    split
    · rfl
    · rfl

theorem fresh_closeDocument {p : Point} (h : ∀ q ∈ points, q.id ≠ p.id)
    (existing : Option DocumentRecord) (w : Uuid) (now : ℕ) :
    ∀ q ∈ closeDocument existing w now points, q.id ≠ p.id := by
  intro q hq heq
  have hmem := mem_map_of_mem (f := Point.id) hq
  rw [map_id_closeDocument] at hmem
  obtain ⟨r, hr, hrid⟩ := mem_map.1 hmem
  exact h r hr (hrid.trans heq)

theorem onTop_closeDocument {β : Type} {prop : Point → Option β} (hprop : Lasting prop)
    {ws id pointId : Uuid} (existing : Option DocumentRecord) (w : Uuid) (now : ℕ)
    (points : List Point) :
    OnTop prop ws id pointId (closeDocument existing w now points) ↔
      OnTop prop ws id pointId points := by
  cases existing with
  | none => exact Iff.rfl
  | some record =>
    rw [closeDocument, endDatePoints, OnTop, forall_mem_map]
    refine forall₂_congr fun p _ => ?_
    split
    · rw [about_validTo hprop]
    · rfl

theorem entityOf_entity (id : Uuid) : entityOf ("entity:" ++ id.str) = some id := by
  have hprefix : removePrefix "entity:" ("entity:" ++ id.str) = some id.str := by
    rw [removePrefix, String.toList_append]
    have happend : "entity:".toList.isPrefixOf? ("entity:".toList ++ id.str.toList) =
        some id.str.toList := by
      simp [List.isPrefixOf?]
    rw [happend, Option.map_some, String.ofList_toList]
  rw [entityOf, hprefix, Option.bind_some, Uuid.parse_str]

/-! ### The write of an entity -/

/-- The write of a document is not skipped: the checkpoint of its source is behind the version, and
the current generation has another hash. -/
def Written (c : Collection) (workspaceId : Uuid) (args : ChunksUpsert) : Prop :=
  skips c args = false ∧
    (findDocument workspaceId args.sourceId args.externalId c).map DocumentRecord.contentHash ≠
      some args.contentHash

section

variable {args : ChunksUpsert} {workspaceId w : Uuid} {draw : Draw} {now : ℕ} {c c' : Collection}

theorem upsertChunks_cases (hws : extractWorkspaceId args.metadata = .ok w)
    (h : upsertChunks args draw now c = .ok c') :
    (¬ Written c w args ∧ c' = c) ∨ (Written c w args ∧
      c' = writeDocument (findDocument w args.sourceId args.externalId c) w args
        draw now c) := by
  simp only [upsertChunks, hws, ok_bind] at h
  by_cases hskip : skips c args = true
  · rw [if_pos hskip] at h
    cases h
    exact .inl ⟨fun hw => Bool.false_ne_true (hw.1.symm.trans hskip), rfl⟩
  · rw [if_neg hskip] at h
    by_cases hhash : (findDocument w args.sourceId args.externalId c).map
        DocumentRecord.contentHash = some args.contentHash
    · rw [if_pos hhash] at h
      cases h
      exact .inl ⟨fun hw => hw.2 hhash, rfl⟩
    · rw [if_neg hhash] at h
      cases h
      exact .inr ⟨⟨Bool.eq_false_iff.2 hskip, hhash⟩, rfl⟩

theorem exists_upsertChunks (hws : extractWorkspaceId args.metadata = .ok w) (draw : Draw)
    (now : ℕ) (c : Collection) : ∃ c', upsertChunks args draw now c = .ok c' := by
  simp only [upsertChunks, hws, ok_bind]
  split
  · exact ⟨c, rfl⟩
  · split
    · exact ⟨c, rfl⟩
    · exact ⟨_, rfl⟩

/-- The write of an entity chunk: `id` is the entity, `pointId` the id drawn for its point. -/
structure EntityWrite (args : ChunksUpsert) (workspaceId id : Uuid) (draw : Draw) (pointId : Uuid) :
    Prop where
  workspace : extractWorkspaceId args.metadata = .ok workspaceId
  external : args.externalId = "entity:" ++ id.str
  chunk : ∃ chunk, args.chunks = [chunk] ∧ chunk.chunkerStrategy = "entity_outbox"
  drawn : draw.pointIds = [pointId]

variable {id pointId : Uuid} (hw : EntityWrite args w id draw pointId)
  (hfresh : ∀ q ∈ c.points, q.id ≠ pointId) {β : Type} {prop : Point → Option β}
  (hprop : Lasting prop)

include hw

theorem points_writeDocument (existing : Option DocumentRecord) (now : ℕ) (c : Collection) :
    ∃ p, (writeDocument existing w args draw now c).points =
        insertPoint p (closeDocument existing w now c.points) ∧
      p.id = pointId ∧ p.docVersion = some (nextVersion existing) ∧
      p.contentHash = some args.contentHash ∧
      ∀ {β : Type} (prop : Point → Option β) (ws id' : Uuid),
        about prop ws id' p = if w = ws ∧ id = id' then prop p else none := by
  obtain ⟨chunk, hchunks, hstrategy⟩ := hw.chunk
  refine ⟨chunkToPoint args w (match existing with
    | some record => record.documentId
    | none => draw.documentId) (nextVersion existing) now chunk pointId, ?_, rfl, rfl, rfl, ?_⟩
  · simp only [writeDocument, hchunks, hw.drawn, List.zipWith, addPoints, List.foldl]
  · intro β prop ws id'
    have hentity := entityOf_entity id
    rw [← hw.external] at hentity
    simp only [about, chunkToPoint, Point.chunkerStrategy, hentity, hstrategy, Option.some.injEq,
      true_and]

include hfresh hprop

/-- **The frame of an entity write**: what is shown of other entities stays. -/
theorem shown_upsertChunks_ne (h : upsertChunks args draw now c = .ok c') {ws id' : Uuid}
    (hne : (ws, id') ≠ (w, id)) :
    shown prop ws id' c'.points = shown prop ws id' c.points := by
  obtain ⟨-, rfl⟩ | ⟨-, rfl⟩ := upsertChunks_cases hw.workspace h
  · rfl
  · obtain ⟨p, hpoints, rfl, -, -, habout⟩ := points_writeDocument hw
      (findDocument w args.sourceId args.externalId c) now c
    rw [hpoints, shown_insertPoint_none (ascending_closeDocument c.ascending)
      (fresh_closeDocument hfresh _ _ _)]
    · rw [shown, filterMap_closeDocument hprop, ← shown]
    · rw [habout, if_neg fun h => hne (by rw [h.1, h.2])]

theorem shown_upsertChunks_hidden (h : upsertChunks args draw now c = .ok c')
    (hhidden : ¬ (Written c w args ∧ OnTop prop w id pointId c.points)) :
    shown prop w id c'.points = shown prop w id c.points := by
  obtain ⟨-, rfl⟩ | ⟨hwritten, rfl⟩ := upsertChunks_cases hw.workspace h
  · rfl
  · obtain ⟨p, hpoints, rfl, -, -, -⟩ := points_writeDocument hw
      (findDocument w args.sourceId args.externalId c) now c
    rw [hpoints, shown_insertPoint_below (ascending_closeDocument c.ascending)
      (fresh_closeDocument hfresh _ _ _)]
    · rw [shown, filterMap_closeDocument hprop, ← shown]
    · rw [onTop_closeDocument hprop]
      exact fun htop => hhidden ⟨hwritten, htop⟩

theorem shown_upsertChunks_visible (h : upsertChunks args draw now c = .ok c')
    (hwritten : Written c w args) (htop : OnTop prop w id pointId c.points) :
    ∃ p : Point, p.docVersion = some (nextVersion
        (findDocument w args.sourceId args.externalId c)) ∧
      p.contentHash = some args.contentHash ∧
      ∀ v, prop p = some v → shown prop w id c'.points = some v := by
  obtain ⟨hnot, -⟩ | ⟨-, rfl⟩ := upsertChunks_cases hw.workspace h
  · exact absurd hwritten hnot
  · obtain ⟨p, hpoints, rfl, hversion, hhash, habout⟩ :=
      points_writeDocument hw (findDocument w args.sourceId args.externalId c) now c
    refine ⟨p, hversion, hhash, fun v hv => ?_⟩
    rw [hpoints, shown_insertPoint_top (ascending_closeDocument c.ascending)
      (fresh_closeDocument hfresh _ _ _)]
    · rw [habout, if_pos ⟨rfl, rfl⟩, hv]
    · rw [onTop_closeDocument hprop]
      exact htop

end

end Omniscience.Qdrant
