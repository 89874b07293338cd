import Omniscience.Lib.LastOf
import Omniscience.Stores.Documents

/-!
# Reading the vector store at an earlier moment

A point is valid from the write that has added it until the write that closes it, and the `as_of`
filter of a search asks for the points that are valid at a moment.

`History` are the writes of one document at increasing times, all of them without a version.  The
points that are valid at a moment are then those of the last write until that moment
(`valid_points_eq_last`).  What carries the induction is that before the time of the next write
every closed point has ended (`Inv`).
-/

namespace Omniscience.Qdrant

open Outbox List

/-! ### The filter -/

/-- `valid_from`, which a point is written with together with `recorded_at`, and which stays equal
to it. -/
def Point.validFrom (p : Point) : Option ℕ := p.recordedAt

/-- `_as_of_must_clauses`: a range asks for a date, and the second clause also takes the null. -/
def Point.isValidAt (p : Point) (asOf : ℕ) : Bool :=
  p.validFrom.any (· ≤ asOf) &&
    match p.validTo with
    | some (some validTo) => asOf < validTo
    | some none => true
    | none => false

/-- The point is one of the document, of any generation. -/
def Point.isOf (k : DocumentKey) (p : Point) : Bool :=
  p.workspaceId = k.workspaceId ∧ p.sourceId = k.sourceId ∧ p.externalId = k.externalId

/-- The filter of a read with `as_of`, on the points of a document. -/
def validPoints (k : DocumentKey) (asOf : ℕ) (c : Collection) : List Point :=
  c.points.filter fun p => p.isOf k && p.isValidAt asOf

theorem isCurrent_iff {k : DocumentKey} {p : Point} :
    p.isCurrent k = true ↔ p.isOf k = true ∧ p.validTo = some none := by
  simp only [Point.isCurrent, Point.isOf, decide_eq_true_eq]
  tauto

theorem isValidAt_close_of_lt {p : Point} {now asOf : ℕ} (hopen : p.validTo = some none)
    (h : asOf < now) : (p.close now).isValidAt asOf = p.isValidAt asOf := by
  simp [Point.isValidAt, Point.close, Point.validFrom, hopen, h]

theorem isValidAt_close_of_le {p : Point} {now asOf : ℕ} (h : now ≤ asOf) :
    (p.close now).isValidAt asOf = false := by
  simp [Point.isValidAt, Point.close, h]

/-! ### The writes of a document -/

/-- Successful calls of `upsert_chunks` for one document, without versions and at increasing times:
no id is used again, and calls with one hash have the same chunks. -/
structure History (k : DocumentKey) (c : Collection) (calls : List Upsert) : Prop where
  start : ∀ p ∈ c.points, p.isOf k = false
  workspace : ∀ u ∈ calls, extractWorkspaceId u.args.metadata = .ok k.workspaceId
  source : ∀ u ∈ calls, u.args.sourceId = k.sourceId
  external : ∀ u ∈ calls, u.args.externalId = k.externalId
  version : ∀ u ∈ calls, u.args.version = none
  fresh : ∀ pre u, pre ++ [u] <+: calls → u.draw.Fresh u.args (after c pre).points
  clock : calls.Pairwise fun u v => u.now < v.now
  consistent : ∀ u ∈ calls, ∀ v ∈ calls, u.args.contentHash = v.args.contentHash →
    u.args.chunks.Perm v.args.chunks

/-- The chunks of the last call until a moment; before the first call there are none. -/
def chunksAt (asOf : ℕ) (calls : List Upsert) : List ChunkPayload :=
  match lastUntil Upsert.now asOf calls with
  | some u => u.args.chunks
  | none => []

/-- When a point was written, and what it stores. -/
def Point.stamp (p : Point) : Option ℕ × ChunkPayload := (p.recordedAt, p.chunk)

/-- What the calls have left of the document: every closed point ends at a call, the current
points have the hash of the last call, and at each moment the valid points are of one write and
store the chunks of the last call until then. -/
structure Inv (k : DocumentKey) (calls : List Upsert) (c : Collection) : Prop where
  ends : ∀ p ∈ c.points, p.isOf k = true →
    p.validTo = some none ∨ ∃ u ∈ calls, p.validTo = some (some u.now)
  hash : ∀ p ∈ c.points, p.isCurrent k = true →
    ∃ u, calls.getLast? = some u ∧ p.contentHash = some u.args.contentHash
  valid : ∀ asOf, ∃ moment, ((validPoints k asOf c).map Point.stamp).Perm
    ((chunksAt asOf calls).map (Prod.mk moment))

section

variable {k : DocumentKey} {c : Collection} {calls : List Upsert} {u : Upsert} {asOf : ℕ}

theorem chunksAt_concat_of_lt (calls : List Upsert) (h : asOf < u.now) :
    chunksAt asOf (calls ++ [u]) = chunksAt asOf calls := by
  rw [chunksAt, lastUntil_concat_of_lt calls h, chunksAt]

theorem chunksAt_concat_of_le (calls : List Upsert) (h : u.now ≤ asOf) :
    chunksAt asOf (calls ++ [u]) = u.args.chunks := by
  rw [chunksAt, lastUntil_concat_of_le calls h]

theorem Inv.nil (h : ∀ p ∈ c.points, p.isOf k = false) : Inv k [] c := by
  have hnone : ∀ p ∈ c.points, ¬ p.isOf k = true := fun p hp => by
    rw [h p hp]
    exact Bool.false_ne_true
  have hvalid : ∀ asOf, validPoints k asOf c = [] := fun asOf =>
    filter_eq_nil_iff.2 fun p hp => by simp [h p hp]
  refine ⟨fun p hp hof => absurd hof (hnone p hp),
    fun p hp hcurrent => absurd (isCurrent_iff.1 hcurrent).1 (hnone p hp), fun asOf => ⟨none, ?_⟩⟩
  rw [hvalid]
  exact List.Perm.refl _

theorem findDocument_of_not_written (hversion : u.args.version = none)
    (h : ¬ Written c k.workspaceId u.args) (hsource : u.args.sourceId = k.sourceId)
    (hexternal : u.args.externalId = k.externalId) :
    ∃ p ∈ c.points, p.isCurrent k = true ∧ p.contentHash.getD "" = u.args.contentHash := by
  have hskip : skips c u.args = false := by simp [skips, hversion]
  have hfound := (not_written_iff.1 h).resolve_left (by simp [hskip])
  rw [hsource, hexternal] at hfound
  exact exists_current_of_found hfound

/-! ### One write -/

/-- What a write that is not skipped does to a point that is there. -/
def closeCurrent (k : DocumentKey) (now : ℕ) (p : Point) : Point :=
  if p.isCurrent k then p.close now else p

@[simp] theorem isOf_closeCurrent (k k' : DocumentKey) (now : ℕ) (p : Point) :
    (closeCurrent k now p).isOf k' = p.isOf k' := by
  rw [closeCurrent]
  split
  · rfl
  · rfl

@[simp] theorem stamp_closeCurrent (k : DocumentKey) (now : ℕ) (p : Point) :
    (closeCurrent k now p).stamp = p.stamp := by
  rw [closeCurrent]
  split
  · rfl
  · rfl

@[simp] theorem id_closeCurrent (k : DocumentKey) (now : ℕ) (p : Point) :
    (closeCurrent k now p).id = p.id := by
  rw [closeCurrent]
  split
  · rfl
  · rfl

theorem isValidAt_closeCurrent_of_lt {now : ℕ} (p : Point) (h : asOf < now) :
    (closeCurrent k now p).isValidAt asOf = p.isValidAt asOf := by
  rw [closeCurrent]
  split
  · rename_i hcurrent
    exact isValidAt_close_of_lt (isCurrent_iff.1 hcurrent).2 h
  · rfl

theorem current_writeDocument {workspaceId : Uuid} {args : ChunksUpsert} {draw : Draw} {now : ℕ}
    {p : Point}
    (hp : p ∈ (writeDocument (findDocument workspaceId args.sourceId args.externalId c) workspaceId
      args draw now c).points) (hcurrent : p.isCurrent (keyOf workspaceId args) = true) :
    p.recordedAt = some now ∧ p.contentHash = some args.contentHash := by
  rcases mem_addPoints hp with hnew | hold
  · rw [← map_uncurry_zip_eq_zipWith] at hnew
    obtain ⟨⟨chunk, id⟩, -, rfl⟩ := mem_map.1 hnew
    exact ⟨rfl, rfl⟩
  · -- the others have been closed
    have hclosed := closeDocument_findDocument (keyOf workspaceId args) now c
    rw [keyOf] at hclosed
    rw [hclosed] at hold
    exact absurd rfl (current_close_iff.1 ⟨hold, hcurrent⟩).2

variable {new : List Point} {c' : Collection}
  (hchunks : new.map Point.chunk = u.args.chunks)
  (hnew : ∀ p ∈ new, p.isCurrent k = true ∧ p.recordedAt = some u.now)
  (hperm : c'.points.Perm (new ++ c.points.map (closeCurrent k u.now)))

include hperm

theorem validPoints_perm : (validPoints k asOf c').Perm
    (new.filter (fun p => p.isOf k && p.isValidAt asOf) ++
      (c.points.map (closeCurrent k u.now)).filter fun p => p.isOf k && p.isValidAt asOf) := by
  rw [← filter_append]
  exact hperm.filter _

include hnew

theorem stamps_of_lt (h : asOf < u.now) :
    ((validPoints k asOf c').map Point.stamp).Perm ((validPoints k asOf c).map Point.stamp) := by
  have hnil : new.filter (fun p => p.isOf k && p.isValidAt asOf) = [] := by
    refine filter_eq_nil_iff.2 fun p hp => ?_
    simp [Point.isValidAt, Point.validFrom, (hnew p hp).2, h]
  refine ((validPoints_perm hperm).map _).trans (List.Perm.of_eq ?_)
  rw [hnil, nil_append, filter_map, map_map, validPoints]
  have hsame : ((fun p : Point => p.isOf k && p.isValidAt asOf) ∘ closeCurrent k u.now) =
      fun p => p.isOf k && p.isValidAt asOf := by
    funext p
    rw [Function.comp, isOf_closeCurrent, isValidAt_closeCurrent_of_lt p h]
  rw [hsame]
  exact map_congr_left fun p _ => stamp_closeCurrent k u.now p

include hchunks

theorem stamps_of_le (hinv : Inv k calls c) (hlater : ∀ v ∈ calls, v.now < u.now)
    (h : u.now ≤ asOf) :
    ((validPoints k asOf c').map Point.stamp).Perm (u.args.chunks.map (Prod.mk (some u.now))) := by
  have hself : new.filter (fun p => p.isOf k && p.isValidAt asOf) = new := by
    refine filter_eq_self.2 fun p hp => ?_
    obtain ⟨hcurrent, hstart⟩ := hnew p hp
    obtain ⟨hof, hopen⟩ := isCurrent_iff.1 hcurrent
    simp [Point.isValidAt, Point.validFrom, hof, hopen, hstart, h]
  have hnil : (c.points.map (closeCurrent k u.now)).filter
      (fun p => p.isOf k && p.isValidAt asOf) = [] := by
    refine filter_eq_nil_iff.2 fun q hq => ?_
    obtain ⟨p, hp, rfl⟩ := mem_map.1 hq
    rw [Bool.and_eq_true, isOf_closeCurrent]
    rintro ⟨hof, hvalid⟩
    rw [closeCurrent] at hvalid
    split at hvalid
    · rw [isValidAt_close_of_le h] at hvalid
      cases hvalid
    · -- a point that is not current has ended before
      rename_i hcurrent
      rcases hinv.ends p hp hof with hopen | ⟨v, hv, hend⟩
      · exact hcurrent (isCurrent_iff.2 ⟨hof, hopen⟩)
      · have hlt := hlater v hv
        simp only [Point.isValidAt, hend, Bool.and_eq_true, decide_eq_true_eq] at hvalid
        omega
  refine ((validPoints_perm hperm).map _).trans (List.Perm.of_eq ?_)
  rw [hself, hnil, append_nil, ← hchunks, map_map]
  exact map_congr_left fun p hp => by rw [Point.stamp, (hnew p hp).2]; rfl

/-- **A write keeps the invariant.** -/
theorem Inv.write (hinv : Inv k calls c) (hlater : ∀ v ∈ calls, v.now < u.now)
    (hcurrent : ∀ p ∈ c'.points, p.isCurrent k = true →
      p.contentHash = some u.args.contentHash) : Inv k (calls ++ [u]) c' := by
  have hlast : u ∈ calls ++ [u] := mem_append_right _ mem_cons_self
  have hcases : ∀ p ∈ c'.points, p ∈ new ∨ ∃ q ∈ c.points, closeCurrent k u.now q = p := by
    intro p hp
    rcases mem_append.1 (hperm.subset hp) with hp | hp
    · exact .inl hp
    · exact .inr (mem_map.1 hp)
  refine ⟨fun p hp hof => ?_, fun p hp hopen => ?_, fun asOf => ?_⟩
  · rcases hcases p hp with hp | ⟨q, hq, rfl⟩
    · exact .inl (isCurrent_iff.1 (hnew p hp).1).2
    · rw [isOf_closeCurrent] at hof
      rw [closeCurrent]
      split
      · exact .inr ⟨u, hlast, rfl⟩
      · refine (hinv.ends q hq hof).imp_right ?_
        rintro ⟨v, hv, hend⟩
        exact ⟨v, mem_append_left _ hv, hend⟩
  · exact ⟨u, List.getLast?_concat, hcurrent p hp hopen⟩
  · by_cases h : asOf < u.now
    · obtain ⟨moment, hvalid⟩ := hinv.valid asOf
      rw [chunksAt_concat_of_lt calls h]
      exact ⟨moment, (stamps_of_lt hnew hperm h).trans hvalid⟩
    · rw [not_lt] at h
      rw [chunksAt_concat_of_le calls h]
      exact ⟨some u.now, stamps_of_le hchunks hnew hperm hinv hlater h⟩

end

/-! ### The history of a document -/

section

variable {k : DocumentKey} {c c' : Collection} {calls : List Upsert} {u : Upsert}

/-- **A call that is skipped keeps the invariant**: the current points are those of the last call,
which has the hash and so the chunks of this one. -/
theorem Inv.skip (hinv : Inv k calls c) (hlater : ∀ v ∈ calls, v.now < u.now)
    (hconsistent : ∀ v ∈ calls, v.args.contentHash = u.args.contentHash →
      v.args.chunks.Perm u.args.chunks)
    (hfound : ∃ p ∈ c.points, p.isCurrent k = true ∧
      p.contentHash.getD "" = u.args.contentHash) : Inv k (calls ++ [u]) c := by
  obtain ⟨p, hp, hcurrent, hhash⟩ := hfound
  obtain ⟨v, hv, hphash⟩ := hinv.hash p hp hcurrent
  have hsame : v.args.contentHash = u.args.contentHash := by
    rw [hphash] at hhash
    exact hhash
  have hmem : v ∈ calls := List.mem_of_getLast? hv
  refine ⟨fun p hp hof => ?_, fun q hq hopen => ?_, fun asOf => ?_⟩
  · refine (hinv.ends p hp hof).imp_right ?_
    rintro ⟨w, hw, hend⟩
    exact ⟨w, mem_append_left _ hw, hend⟩
  · obtain ⟨w, hw, hqhash⟩ := hinv.hash q hq hopen
    obtain rfl := Option.some.inj (hw.symm.trans hv)
    exact ⟨u, List.getLast?_concat, hqhash.trans (congrArg some hsame)⟩
  · obtain ⟨moment, hvalid⟩ := hinv.valid asOf
    refine ⟨moment, ?_⟩
    by_cases h : asOf < u.now
    · rwa [chunksAt_concat_of_lt calls h]
    · rw [not_lt] at h
      rw [chunksAt_concat_of_le calls h]
      -- until this moment the call `v` was the last
      have huntil : chunksAt asOf calls = v.args.chunks := by
        rw [chunksAt, lastUntil_eq_getLast? fun w hw => (hlater w hw).le.trans h, hv]
      rw [huntil] at hvalid
      exact hvalid.trans ((hconsistent v hmem hsame).map _)

theorem Inv.apply (hinv : Inv k calls c) (hlater : ∀ v ∈ calls, v.now < u.now)
    (hconsistent : ∀ v ∈ calls, v.args.contentHash = u.args.contentHash →
      v.args.chunks.Perm u.args.chunks)
    (hws : extractWorkspaceId u.args.metadata = .ok k.workspaceId)
    (hsource : u.args.sourceId = k.sourceId) (hexternal : u.args.externalId = k.externalId)
    (hversion : u.args.version = none) (hfresh : u.draw.Fresh u.args c.points) :
    Inv k (calls ++ [u]) (u.apply c) := by
  have hkey : keyOf k.workspaceId u.args = k := by rw [keyOf, hsource, hexternal]
  obtain ⟨hnot, happly⟩ | ⟨-, happly⟩ := apply_cases (c := c) hws
  · rw [happly]
    exact hinv.skip hlater hconsistent (findDocument_of_not_written hversion hnot hsource hexternal)
  · obtain ⟨new, hchunks, hcurrent, hperm⟩ :=
      @perm_writeDocument k.workspaceId u.args u.draw c hfresh u.now
    rw [hkey] at hcurrent hperm
    have hown : ∀ p ∈ (u.apply c).points, p.isCurrent k = true →
        p.recordedAt = some u.now ∧ p.contentHash = some u.args.contentHash := by
      rw [happly]
      intro p hp hopen
      exact current_writeDocument hp (by rwa [hkey])
    rw [← happly] at hperm
    refine Inv.write hchunks (fun p hp => ⟨hcurrent p hp, ?_⟩) hperm hinv hlater
      fun p hp hopen => (hown p hp hopen).2
    exact (hown p (hperm.symm.subset (mem_append_left _ hp)) (hcurrent p hp)).1

theorem History.inv (h : History k c calls) {pre : List Upsert} (hpre : pre <+: calls) :
    Inv k pre (after c pre) := by
  induction pre using List.reverseRecOn with
  | nil => exact .nil h.start
  | append_singleton pre u ih =>
    have hpre' : pre <+: calls := (prefix_append pre [u]).trans hpre
    have hu : u ∈ calls := hpre.subset (mem_append_right _ mem_cons_self)
    rw [after_concat]
    refine (ih hpre').apply (fun v hv => ?_) (fun v hv => h.consistent v (hpre'.subset hv) u hu)
      (h.workspace u hu) (h.source u hu) (h.external u hu) (h.version u hu) (h.fresh pre u hpre)
    exact (pairwise_append.1 (h.clock.sublist hpre.sublist)).2.2 v hv u mem_cons_self

/-- **Time travel is exact**: the points of the document that are valid at a moment were all written
at one time and store the chunks of the last call until then. -/
theorem valid_points_eq_last (h : History k c calls) {pre : List Upsert} (hpre : pre <+: calls)
    (asOf : ℕ) : ((validPoints k asOf (after c pre)).map Point.chunk).Perm (chunksAt asOf pre) ∧
      ∀ p ∈ validPoints k asOf (after c pre), ∀ q ∈ validPoints k asOf (after c pre),
        p.recordedAt = q.recordedAt := by
  obtain ⟨moment, hvalid⟩ := (h.inv hpre).valid asOf
  constructor
  · have hsnd := hvalid.map Prod.snd
    rw [map_map, map_map] at hsnd
    exact hsnd.trans (List.Perm.of_eq (map_id _))
  · have hall : ∀ p ∈ validPoints k asOf (after c pre), p.recordedAt = moment := by
      intro p hp
      obtain ⟨chunk, -, hstamp⟩ := mem_map.1 (hvalid.subset (mem_map_of_mem hp))
      exact (congrArg Prod.fst hstamp).symm
    intro p hp q hq
    rw [hall p hp, hall q hq]

end

/-- A write of document `a` of source 3 with one chunk for each id. -/
def edition (contentHash : String) (pointIds : List Uuid) (now : ℕ) : Upsert where
  args := {
    sourceId := 3
    externalId := "a"
    uri := "a"
    title := none
    contentHash := contentHash
    metadata := [("workspace_id", .str (Uuid.str 7))]
    chunks := pointIds.map fun _ => ⟨0, contentHash, [], "", [], "", "", "", ""⟩ }
  draw := ⟨1, pointIds⟩
  now := now

/-- A document that is emptied at time 2: until then its chunk is valid, and nothing from then
on. -/
theorem valid_points_emptied : History ⟨7, 3, "a"⟩ {} [edition "v1" [10] 1, edition "v2" [] 2] ∧
      ((validPoints ⟨7, 3, "a"⟩ 1 (after {} [edition "v1" [10] 1, edition "v2" [] 2])).map
        Point.chunk).Perm [⟨0, "v1", [], "", [], "", "", "", ""⟩] ∧
      ((validPoints ⟨7, 3, "a"⟩ 2 (after {} [edition "v1" [10] 1, edition "v2" [] 2])).map
        Point.chunk).Perm [] := by
  have h : History ⟨7, 3, "a"⟩ {} [edition "v1" [10] 1, edition "v2" [] 2] := by
    refine ⟨by rintro _ ⟨⟩, ?_, ?_, ?_, ?_, fun pre u hpre => ?_, ?_, ?_⟩
    · simp [edition, extractWorkspaceId, uuidOf, Uuid.parse_str]
    · simp [edition]
    · simp [edition]
    · simp [edition]
    · obtain ⟨rfl, rfl⟩ | ⟨rfl, rfl⟩ := of_prefix_pair hpre
      · exact ⟨nodup_singleton _, rfl, by rintro _ ⟨⟩⟩
      · exact ⟨nodup_nil, rfl, fun p _ => not_mem_nil⟩
    · simp [edition]
    · simp [edition]
  exact ⟨h, (valid_points_eq_last h prefix_rfl 1).1, (valid_points_eq_last h prefix_rfl 2).1⟩

end Omniscience.Qdrant
