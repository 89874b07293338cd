import Omniscience.Stores.TimeTravel

/-!
# What the reconcile worker reads of an entity

The readers of the reconcile worker scroll over the points of an entity, the closed ones among
them, and what comes last counts.  A search returns the current points only.

`reads_current_iff` says after which histories of entity writes the two agree whatever the order of
the scroll is: those in which every entity has had one content.
-/

namespace Omniscience.Qdrant

open Outbox List

/-! ### The readers, over a scroll -/

/-- A property of the entity chunks of a workspace, from a scroll. -/
def readRecords {β : Type} (prop : Point → Option β) (workspaceId : Uuid) (records : List Point) :
    Dict Uuid β :=
  .ofList (records.filterMap (view prop workspaceId))

/-- The point is a chunk of the entity. -/
def Point.IsChunkOf (workspaceId id : Uuid) (p : Point) : Prop :=
  p.workspaceId = workspaceId ∧ p.chunkerStrategy = "entity_outbox" ∧
    entityOf p.externalId = some id

/-- The property has this value at a current point of the entity. -/
def HasNow {β : Type} (prop : Point → Option β) (workspaceId id : Uuid) (points : List Point)
    (value : β) : Prop :=
  ∃ p ∈ points, p.IsChunkOf workspaceId id ∧ p.validTo = some none ∧ prop p = some value

/-- In whatever order the points are scrolled, the reader gives of every entity what its current
points have. -/
def ReadsCurrent {β : Type} (prop : Point → Option β) (points : List Point) : Prop :=
  ∀ workspaceId order, order.Perm points → ∀ id value,
    (readRecords prop workspaceId order).get? id = some value ↔
      HasNow prop workspaceId id points value

section

variable {β : Type} {prop : Point → Option β} {workspaceId w id : Uuid} {p : Point}
  {points : List Point}

theorem about_of_isChunkOf (h : p.IsChunkOf w id) : about prop w id p = prop p := if_pos h

theorem about_eq_some_iff {value : β} : about prop w id p = some value ↔
    p.IsChunkOf w id ∧ prop p = some value := by
  rw [about]
  split
  · rename_i h
    exact (and_iff_right h).symm
  · rename_i h
    exact iff_of_false (fun h => by cases h) fun hp => h hp.1

/-- **The readers and the generations**: they give the current values in every order if and only
if no other point of the entity has another value. -/
theorem readsCurrent_iff (hpresent : ∀ workspaceId id, (∃ p ∈ points, p.IsChunkOf workspaceId id) →
      ∃ p ∈ points, p.IsChunkOf workspaceId id ∧ p.validTo = some none)
    (hprop : ∀ p ∈ points, (prop p).isSome) :
    ReadsCurrent prop points ↔ ∀ workspaceId id, ∀ p ∈ points, ∀ q ∈ points,
      p.IsChunkOf workspaceId id → q.IsChunkOf workspaceId id → prop p = prop q := by
  constructor
  · intro h workspaceId id p hp q hq hpid hqid
    obtain ⟨r, hr, hrid, hrnow⟩ := hpresent workspaceId id ⟨p, hp, hpid⟩
    obtain ⟨v, hv⟩ := Option.isSome_iff_exists.1 (hprop r hr)
    have hnow : HasNow prop workspaceId id points v := ⟨r, hr, hrid, hrnow, hv⟩
    -- either point can come last, and what comes last is the current value
    have hlast : ∀ p ∈ points, p.IsChunkOf workspaceId id → prop p = some v := by
      intro p hp hpid
      obtain ⟨w, hw⟩ := Option.isSome_iff_exists.1 (hprop p hp)
      have hread : ∀ order : List Point, order.Perm points → ∀ value,
          (order.filterMap (about prop workspaceId id)).getLast? = some value ↔
            HasNow prop workspaceId id points value := by
        intro order horder value
        rw [← h workspaceId order horder id value, readRecords, get?_ofList_view, shown]
      have heq : w = v :=
        unique_of_getLast?_perm hread hp (by rw [about_of_isChunkOf hpid, hw]) hnow
      rw [hw, heq]
    rw [hlast p hp hpid, hlast q hq hqid]
  · intro h workspaceId order horder id value
    rw [readRecords, get?_ofList_view, shown]
    refine getLast?_perm_of_unique (fun p hp v hv => ?_) ?_ ?_ horder value
    · obtain ⟨hpid, hv⟩ := about_eq_some_iff.1 hv
      obtain ⟨r, hr, hrid, hrnow⟩ := hpresent workspaceId id ⟨p, hp, hpid⟩
      exact ⟨r, hr, hrid, hrnow, by rw [← hv, h workspaceId id r hr p hp hrid hpid]⟩
    · rintro v w ⟨p, hp, hpid, -, hv⟩ ⟨q, hq, hqid, -, hw⟩
      have heq := h workspaceId id p hp q hq hpid hqid
      rw [hv, hw] at heq
      exact Option.some.inj heq
    · rintro v ⟨p, hp, hpid, -, hv⟩
      exact ⟨p, hp, about_eq_some_iff.2 ⟨hpid, hv⟩⟩

end

/-! ### Histories of entity writes -/

/-- The call writes the chunk of the entity. -/
def Upsert.IsFor (u : Upsert) (workspaceId id : Uuid) : Prop :=
  ∃ pointId, EntityWrite u.args workspaceId id u.draw pointId

/-- Writes of entity chunks, each under an id that is new when it is made. -/
structure EntityHistory (calls : List Upsert) : Prop where
  write : ∀ u ∈ calls, ∃ workspaceId id, u.IsFor workspaceId id
  fresh : ∀ pre u, pre ++ [u] <+: calls → u.draw.Fresh u.args (after .empty pre).points

/-- A call of the history writes this content of the entity, and the checkpoint of its source lets
it through. -/
def Enters (calls : List Upsert) (workspaceId id : Uuid) (contentHash : String) : Prop :=
  ∃ pre u, pre ++ [u] <+: calls ∧ u.IsFor workspaceId id ∧
    skips (after .empty pre) u.args = false ∧ u.args.contentHash = contentHash

/-- What a history of entity writes leaves. -/
structure EntityInv (calls : List Upsert) (points : List Point) : Prop where
  strategy : ∀ p ∈ points, p.chunkerStrategy = "entity_outbox"
  hash : ∀ p ∈ points, (Point.contentHash p).isSome
  version : ∀ p ∈ points, (Point.docVersion p).isSome
  enters : ∀ workspaceId id contentHash, Enters calls workspaceId id contentHash ↔
    ∃ p ∈ points, p.IsChunkOf workspaceId id ∧ p.contentHash = some contentHash
  present : ∀ workspaceId id, (∃ p ∈ points, p.IsChunkOf workspaceId id) →
    ∃ p ∈ points, p.IsChunkOf workspaceId id ∧ p.validTo = some none

section

variable {u : Upsert} {workspaceId w id : Uuid} {calls : List Upsert} {c : Collection}

variable {workspaceId' id' : Uuid}

theorem Upsert.IsFor.unique (h : u.IsFor w id) (h' : u.IsFor workspaceId' id') :
    workspaceId' = w ∧ id' = id := by
  obtain ⟨pointId, hw⟩ := h
  obtain ⟨pointId', hw'⟩ := h'
  have hworkspace := hw'.workspace
  rw [hw.workspace] at hworkspace
  have hexternal := entityOf_entity id'
  rw [← hw'.external, hw.external, entityOf_entity] at hexternal
  exact ⟨(Except.ok.inj hworkspace).symm, (Option.some.inj hexternal).symm⟩

theorem enters_concat_iff {contentHash : String} :
    Enters (calls ++ [u]) workspaceId' id' contentHash ↔
      Enters calls workspaceId' id' contentHash ∨ u.IsFor workspaceId' id' ∧
        skips (after .empty calls) u.args = false ∧ u.args.contentHash = contentHash := by
  constructor
  · rintro ⟨pre, v, hpre, hfor, hskips, hhash⟩
    rcases prefix_concat_iff.1 hpre with heq | hpre
    · obtain ⟨rfl, hv⟩ := append_inj' heq rfl
      obtain rfl := singleton_inj.1 hv
      exact .inr ⟨hfor, hskips, hhash⟩
    · exact .inl ⟨pre, v, hpre, hfor, hskips, hhash⟩
  · rintro (⟨pre, v, hpre, hrest⟩ | ⟨hfor, hskips, hhash⟩)
    · exact ⟨pre, v, hpre.trans (prefix_append _ _), hrest⟩
    · exact ⟨calls, u, prefix_rfl, hfor, hskips, hhash⟩

variable (k : DocumentKey)

theorem isChunkOf_closeCurrent (now : ℕ) (p : Point) :
    (closeCurrent k now p).IsChunkOf w id ↔ p.IsChunkOf w id := by
  rw [closeCurrent]
  split
  · exact Iff.rfl
  · exact Iff.rfl

theorem chunkerStrategy_closeCurrent (now : ℕ) (p : Point) :
    (closeCurrent k now p).chunkerStrategy = p.chunkerStrategy := by
  rw [closeCurrent]
  split
  · rfl
  · rfl

theorem contentHash_closeCurrent (now : ℕ) (p : Point) :
    (closeCurrent k now p).contentHash = p.contentHash := by
  rw [closeCurrent]
  split
  · rfl
  · rfl

theorem docVersion_closeCurrent (now : ℕ) (p : Point) :
    (closeCurrent k now p).docVersion = p.docVersion := by
  rw [closeCurrent]
  split
  · rfl
  · rfl

theorem EntityWrite.isChunkOf {args : ChunksUpsert} {draw : Draw} {pointId : Uuid} {p : Point}
    (hw : EntityWrite args w id draw pointId) (hstrategy : p.chunkerStrategy = "entity_outbox")
    (hcurrent : p.isCurrent (keyOf w args) = true) : p.IsChunkOf w id := by
  rw [Point.isCurrent, decide_eq_true_eq] at hcurrent
  obtain ⟨hworkspace, -, hexternal, -⟩ := hcurrent
  refine ⟨hworkspace, hstrategy, ?_⟩
  rw [hexternal, keyOf, hw.external, entityOf_entity]

theorem mem_write_iff (hfor : u.IsFor w id) (hfresh : u.draw.Fresh u.args c.points) :
    ∃ new : Point, (∀ workspaceId' id', new.IsChunkOf workspaceId' id' ↔
        workspaceId' = w ∧ id' = id) ∧ new.validTo = some none ∧
      new.contentHash = some u.args.contentHash ∧
      new.docVersion = some (nextVersion
        (findDocument w u.args.sourceId u.args.externalId c)) ∧
      ∀ p, p ∈ (writeDocument (findDocument w u.args.sourceId u.args.externalId c)
          w u.args u.draw u.now c).points ↔
        p = new ∨ ∃ q ∈ c.points, p = closeCurrent (keyOf w u.args) u.now q := by
  obtain ⟨pointId, hw⟩ := hfor
  obtain ⟨chunk, hchunks, hstrategy⟩ := hw.chunk
  have hclosed := closeDocument_findDocument (keyOf w u.args) u.now c
  have hentity : entityOf u.args.externalId = some id := by rw [hw.external, entityOf_entity]
  refine ⟨chunkToPoint u.args w
    ((findDocument w u.args.sourceId u.args.externalId c).elim u.draw.documentId (·.documentId))
    (nextVersion (findDocument w u.args.sourceId u.args.externalId c)) u.now chunk
    pointId, fun workspaceId' id' => ?_, rfl, rfl, rfl, fun p => ?_⟩
  · rw [Point.IsChunkOf, show (chunkToPoint u.args w _ _ u.now chunk pointId).externalId =
      u.args.externalId from rfl, hentity, Option.some.injEq]
    exact ⟨fun h => ⟨h.1.symm, h.2.2.symm⟩, fun h => ⟨h.1.symm, hstrategy, h.2.symm⟩⟩
  · have hnew : ∀ q ∈ c.points, q.id ≠ pointId := by
      intro q hq heq
      have := hfresh.new q hq
      rw [hw.drawn, heq] at this
      exact this mem_cons_self
    simp only [writeDocument, hchunks, hw.drawn, List.zipWith, addPoints, List.foldl]
    rw [(perm_insertPoint (ascending_closeDocument c.ascending)
      (fresh_closeDocument hnew _ _ _)).mem_iff, mem_cons]
    rw [show closeDocument (findDocument w u.args.sourceId u.args.externalId c)
      w u.now c.points = c.points.map (closeCurrent (keyOf w u.args) u.now)
      from hclosed, mem_map]
    refine or_congr ?_ (exists_congr fun q => and_congr_right fun _ => eq_comm)
    cases findDocument w u.args.sourceId u.args.externalId c <;> rfl

theorem closeCurrent_of_isChunkOf (hfor : u.IsFor w id) {p : Point}
    (hp : p.IsChunkOf workspaceId' id') (hne : ¬ (workspaceId' = w ∧ id' = id)) (now : ℕ)
    :
    closeCurrent (keyOf w u.args) now p = p := by
  rw [closeCurrent, if_neg]
  intro hcurrent
  obtain ⟨pointId, hw⟩ := hfor
  rw [Point.isCurrent, decide_eq_true_eq] at hcurrent
  obtain ⟨hworkspace, -, hexternal, -⟩ := hcurrent
  refine hne ⟨hp.1.symm.trans hworkspace, ?_⟩
  have hentity := hp.2.2
  rw [hexternal, keyOf, hw.external, entityOf_entity, Option.some.injEq] at hentity
  exact hentity.symm

theorem EntityInv.nil : EntityInv [] [] where
  strategy p hp := by cases hp
  hash p hp := by cases hp
  version p hp := by cases hp
  enters w id contentHash := by
    refine iff_of_false ?_ ?_
    · rintro ⟨pre, u, hpre, -⟩
      exact absurd (prefix_nil.1 hpre) (by simp)
    · rintro ⟨p, hp, -⟩
      cases hp
  present w id := by
    rintro ⟨p, hp, -⟩
    cases hp

/-- **One call keeps the invariant.** -/
theorem EntityInv.apply (hinv : EntityInv calls (after .empty calls).points)
    (hfor : u.IsFor w id) (hfresh : u.draw.Fresh u.args (after .empty calls).points) :
    EntityInv (calls ++ [u]) (after .empty (calls ++ [u])).points := by
  obtain ⟨pointId, hw⟩ := hfor
  have hfor : u.IsFor w id := ⟨pointId, hw⟩
  rw [after_concat]
  generalize hc : after .empty calls = c at hinv hfresh
  have henters : ∀ workspaceId' id' contentHash,
      Enters (calls ++ [u]) workspaceId' id' contentHash ↔
        (∃ p ∈ c.points, p.IsChunkOf workspaceId' id' ∧ p.contentHash = some contentHash) ∨
          u.IsFor workspaceId' id' ∧ skips c u.args = false ∧ u.args.contentHash = contentHash := by
    intro workspaceId' id' contentHash
    rw [enters_concat_iff, hinv.enters, hc]
  obtain ⟨hnot, happly⟩ | ⟨hwritten, happly⟩ := apply_cases (c := c) hw.workspace
  · rw [happly]
    refine ⟨hinv.strategy, hinv.hash, hinv.version, fun workspaceId' id' contentHash => ?_,
      hinv.present⟩
    rw [henters]
    refine or_iff_left_of_imp ?_
    rintro ⟨hfor', hskips, rfl⟩
    obtain ⟨rfl, rfl⟩ := hfor.unique hfor'
    -- the content that is let through and not written is the current one
    rcases not_written_iff.1 hnot with hskipped | hsame
    · rw [hskips] at hskipped
      cases hskipped
    · have hfound : (findDocument (keyOf workspaceId' u.args).workspaceId
          (keyOf workspaceId' u.args).sourceId (keyOf workspaceId' u.args).externalId c).map
          DocumentRecord.contentHash = some u.args.contentHash := hsame
      obtain ⟨p, hp, hcurrent, hhash⟩ := exists_current_of_found hfound
      obtain ⟨v, hv⟩ := Option.isSome_iff_exists.1 (hinv.hash p hp)
      rw [hv, Option.getD_some] at hhash
      exact ⟨p, hp, hw.isChunkOf (hinv.strategy p hp) hcurrent, by rw [hv, hhash]⟩
  · obtain ⟨new, hnew, hopen, hhash, hversion, hmem⟩ := mem_write_iff hfor hfresh
    rw [happly]
    refine ⟨fun p hp => ?_, fun p hp => ?_, fun p hp => ?_, fun workspaceId' id' contentHash => ?_,
      fun workspaceId' id' => ?_⟩
    · rcases (hmem p).1 hp with rfl | ⟨q, hq, rfl⟩
      · exact ((hnew w id).2 ⟨rfl, rfl⟩).2.1
      · rw [chunkerStrategy_closeCurrent]
        exact hinv.strategy q hq
    · rcases (hmem p).1 hp with rfl | ⟨q, hq, rfl⟩
      · rw [hhash, Option.isSome_some]
      · rw [contentHash_closeCurrent]
        exact hinv.hash q hq
    · rcases (hmem p).1 hp with rfl | ⟨q, hq, rfl⟩
      · rw [hversion, Option.isSome_some]
      · rw [docVersion_closeCurrent]
        exact hinv.version q hq
    · rw [henters]
      constructor
      · rintro (⟨q, hq, hchunk, hq'⟩ | ⟨hfor', -, rfl⟩)
        · exact ⟨_, (hmem _).2 (.inr ⟨q, hq, rfl⟩), (isChunkOf_closeCurrent _ _ _).2 hchunk,
            (contentHash_closeCurrent _ _ _).trans hq'⟩
        · exact ⟨new, (hmem new).2 (.inl rfl), (hnew _ _).2 (hfor.unique hfor'), hhash⟩
      · rintro ⟨p, hp, hchunk, hphash⟩
        rcases (hmem p).1 hp with rfl | ⟨q, hq, rfl⟩
        · obtain ⟨rfl, rfl⟩ := (hnew workspaceId' id').1 hchunk
          rw [hhash, Option.some.injEq] at hphash
          exact .inr ⟨hfor, hwritten.1, hphash⟩
        · rw [isChunkOf_closeCurrent] at hchunk
          rw [contentHash_closeCurrent] at hphash
          exact .inl ⟨q, hq, hchunk, hphash⟩
    · rintro ⟨p, hp, hchunk⟩
      by_cases hsame : workspaceId' = w ∧ id' = id
      · exact ⟨new, (hmem new).2 (.inl rfl), (hnew _ _).2 hsame, hopen⟩
      · -- the current point of another entity is not closed
        rcases (hmem p).1 hp with rfl | ⟨q, hq, rfl⟩
        · exact absurd ((hnew workspaceId' id').1 hchunk) hsame
        · rw [isChunkOf_closeCurrent] at hchunk
          obtain ⟨r, hr, hrchunk, hrnow⟩ := hinv.present workspaceId' id' ⟨q, hq, hchunk⟩
          exact ⟨r, (hmem r).2 (.inr ⟨r, hr, (closeCurrent_of_isChunkOf hfor hrchunk hsame _).symm⟩),
            hrchunk, hrnow⟩

theorem EntityHistory.of_concat (h : EntityHistory (calls ++ [u])) : EntityHistory calls :=
  ⟨fun v hv => h.write v (mem_append_left _ hv),
    fun pre v hpre => h.fresh pre v (hpre.trans (prefix_append _ _))⟩

theorem EntityHistory.inv (h : EntityHistory calls) :
    EntityInv calls (after .empty calls).points := by
  induction calls using List.reverseRecOn with
  | nil => exact EntityInv.nil
  | append_singleton calls u ih =>
    obtain ⟨w, id, hfor⟩ := h.write u (mem_append_right _ mem_cons_self)
    exact (ih h.of_concat).apply hfor (h.fresh calls u prefix_rfl)

/-- Of every entity the checkpoints let one content through. -/
def OneContent (calls : List Upsert) : Prop :=
  ∀ workspaceId id contentHash contentHash', Enters calls workspaceId id contentHash →
    Enters calls workspaceId id contentHash' → contentHash = contentHash'

theorem OneContent.of_concat (h : OneContent (calls ++ [u])) : OneContent calls :=
  fun w id a b ha hb =>
    h w id a b (enters_concat_iff.2 (.inl ha)) (enters_concat_iff.2 (.inl hb))

theorem docVersion_of_oneContent (h : EntityHistory calls) (hone : OneContent calls) :
    ∀ p ∈ (after .empty calls).points, p.docVersion = some 1 := by
  induction calls using List.reverseRecOn with
  | nil => rintro p ⟨⟩
  | append_singleton calls u ih =>
    have hinv := h.of_concat.inv
    obtain ⟨w, id, hfor⟩ := h.write u (mem_append_right _ mem_cons_self)
    have hfresh := h.fresh calls u prefix_rfl
    have hbefore := ih h.of_concat hone.of_concat
    rw [after_concat]
    obtain ⟨pointId, hw⟩ := hfor
    have hfor : u.IsFor w id := ⟨pointId, hw⟩
    obtain ⟨-, happly⟩ | ⟨hwritten, happly⟩ := apply_cases (c := after .empty calls) hw.workspace
    · rw [happly]
      exact hbefore
    · rw [happly]
      obtain ⟨new, -, -, -, hversion, hmem⟩ := mem_write_iff hfor hfresh
      intro p hp
      rcases (hmem p).1 hp with rfl | ⟨q, hq, rfl⟩
      · rw [hversion]
        -- there is no generation to follow, since its content would be another one
        cases hfound : findDocument w u.args.sourceId u.args.externalId (after .empty calls) with
        | none => rfl
        | some record =>
          have hk : (findDocument (keyOf w u.args).workspaceId
              (keyOf w u.args).sourceId (keyOf w u.args).externalId
              (after .empty calls)).map DocumentRecord.contentHash = some record.contentHash :=
            congrArg (Option.map DocumentRecord.contentHash) hfound
          obtain ⟨q, hq, hcurrent, hhash⟩ := exists_current_of_found hk
          obtain ⟨v, hv⟩ := Option.isSome_iff_exists.1 (hinv.hash q hq)
          rw [hv, Option.getD_some] at hhash
          have henters : Enters calls w id record.contentHash :=
            (hinv.enters _ _ _).2
              ⟨q, hq, hw.isChunkOf (hinv.strategy q hq) hcurrent, by rw [hv, hhash]⟩
          have hsame := hone w id record.contentHash u.args.contentHash
            (enters_concat_iff.2 (.inl henters))
            (enters_concat_iff.2 (.inr ⟨hfor, hwritten.1, rfl⟩))
          refine absurd ?_ hwritten.2
          rw [hfound, Option.map_some, hsame]
      · rw [docVersion_closeCurrent]
        exact hbefore q hq

/-- **When the readers read the current state**: after a history of entity writes, both readers give
of every entity the values of its current points, in every order of the scroll, if and only if the
checkpoints have let through one content of each entity. -/
theorem reads_current_iff (h : EntityHistory calls) :
    (ReadsCurrent Point.docVersion (after .empty calls).points ∧
        ReadsCurrent Point.contentHash (after .empty calls).points) ↔ OneContent calls := by
  have hinv := h.inv
  rw [readsCurrent_iff hinv.present hinv.version, readsCurrent_iff hinv.present hinv.hash]
  constructor
  · rintro ⟨-, hsame⟩ workspaceId id contentHash contentHash' henters henters'
    obtain ⟨p, hp, hchunk, hhash⟩ := (hinv.enters _ _ _).1 henters
    obtain ⟨q, hq, hchunk', hhash'⟩ := (hinv.enters _ _ _).1 henters'
    have heq := hsame workspaceId id p hp q hq hchunk hchunk'
    rw [hhash, hhash'] at heq
    exact Option.some.inj heq
  · intro hone
    refine ⟨fun workspaceId id p hp q hq _ _ => ?_, fun workspaceId id p hp q hq hpid hqid => ?_⟩
    · rw [docVersion_of_oneContent h hone p hp, docVersion_of_oneContent h hone q hq]
    · obtain ⟨v, hv⟩ := Option.isSome_iff_exists.1 (hinv.hash p hp)
      obtain ⟨w, hw⟩ := Option.isSome_iff_exists.1 (hinv.hash q hq)
      have heq : v = w := hone workspaceId id v w ((hinv.enters _ _ _).2 ⟨p, hp, hpid, hv⟩)
        ((hinv.enters _ _ _).2 ⟨q, hq, hqid, hw⟩)
      rw [hv, hw, heq]

end

/-! ### An entity that changes -/

/-- A write of an entity, with its content and the id of its point. -/
def entityUpsert (contentHash : String) (pointId : Uuid) : Upsert where
  args := {
    sourceId := 3
    externalId := "entity:" ++ Uuid.str 9
    uri := "a"
    title := none
    contentHash := contentHash
    metadata := [("workspace_id", .str (Uuid.str 7))]
    chunks := [⟨0, "a", [], none, [], "", "", "", "entity_outbox"⟩] }
  draw := ⟨1, [pointId]⟩
  now := 0

theorem entityWrite_sample (contentHash : String) (pointId : Uuid) :
    EntityWrite (entityUpsert contentHash pointId).args 7 9 (entityUpsert contentHash pointId).draw
      pointId where
  workspace := by simp [extractWorkspaceId, entityUpsert, uuidOf, Uuid.parse_str]
  external := rfl
  chunk := ⟨_, rfl, rfl⟩
  drawn := rfl

theorem points_entityUpsert (contentHash : String) (pointId : Uuid) :
    ((entityUpsert contentHash pointId).apply .empty).points.map Point.id = [pointId] := by
  have hws := (entityWrite_sample contentHash pointId).workspace
  simp only [Upsert.apply, upsertChunks, hws, ok_bind]
  rfl

/-- An entity that is written once is read as it is. -/
theorem reads_current_once : EntityHistory [entityUpsert "a" 10] ∧
    (ReadsCurrent Point.docVersion (after .empty [entityUpsert "a" 10]).points ∧
      ReadsCurrent Point.contentHash (after .empty [entityUpsert "a" 10]).points) := by
  have hpre : ∀ pre u, pre ++ [u] <+: [entityUpsert "a" 10] →
      pre = [] ∧ u = entityUpsert "a" 10 := by
    intro pre u hpre
    rcases pre with _ | ⟨v, pre⟩
    · simpa using hpre
    · simpa using hpre.length_le
  have hhistory : EntityHistory [entityUpsert "a" 10] := by
    refine ⟨fun u hu => ?_, fun pre u h => ?_⟩
    · rw [mem_singleton.1 hu]
      exact ⟨7, 9, 10, entityWrite_sample "a" 10⟩
    · obtain ⟨rfl, rfl⟩ := hpre pre u h
      exact ⟨nodup_singleton _, rfl, by rintro _ ⟨⟩⟩
  refine ⟨hhistory, (reads_current_iff hhistory).2 ?_⟩
  rintro workspaceId id _ _ ⟨pre, u, h, -, -, rfl⟩ ⟨pre', u', h', -, -, rfl⟩
  rw [(hpre pre u h).2, (hpre pre' u' h').2]

/-- One that has changed is read with its old content, if the new point comes first. -/
theorem reads_outdated : ¬ ∀ calls, EntityHistory calls →
    ReadsCurrent Point.docVersion (after .empty calls).points ∧
      ReadsCurrent Point.contentHash (after .empty calls).points := by
  intro h
  have hhistory : EntityHistory [entityUpsert "a" 10, entityUpsert "b" 11] := by
    refine ⟨fun u hu => ?_, fun pre u hpre => ?_⟩
    · rcases mem_cons.1 hu with rfl | hu
      · exact ⟨7, 9, 10, entityWrite_sample "a" 10⟩
      · rw [mem_singleton.1 hu]
        exact ⟨7, 9, 11, entityWrite_sample "b" 11⟩
    · obtain ⟨rfl, rfl⟩ | ⟨rfl, rfl⟩ := of_prefix_pair hpre
      · exact ⟨nodup_singleton _, rfl, by rintro _ ⟨⟩⟩
      · refine ⟨nodup_singleton _, rfl, fun p hp hmem => ?_⟩
        have hid := mem_map_of_mem (f := Point.id) hp
        rw [after, foldl_cons, foldl_nil, points_entityUpsert, mem_singleton] at hid
        rw [hid] at hmem
        exact absurd hmem (by decide)
  have hinv := hhistory.inv
  have hsame := (readsCurrent_iff hinv.present hinv.hash).1 (h _ hhistory).2
  have henters : ∀ pre contentHash pointId,
      pre ++ [entityUpsert contentHash pointId] <+: [entityUpsert "a" 10, entityUpsert "b" 11] →
        Enters [entityUpsert "a" 10, entityUpsert "b" 11] 7 9 contentHash :=
    fun pre contentHash pointId hpre =>
      ⟨pre, _, hpre, ⟨pointId, entityWrite_sample _ _⟩, rfl, rfl⟩
  obtain ⟨p, hp, hpid, hphash⟩ := (hinv.enters _ _ _).1
    (henters [] "a" 10 (prefix_append [entityUpsert "a" 10] _))
  obtain ⟨q, hq, hqid, hqhash⟩ := (hinv.enters _ _ _).1
    (henters [entityUpsert "a" 10] "b" 11 prefix_rfl)
  have heq := hsame 7 9 p hp q hq hpid hqid
  rw [hphash, hqhash] at heq
  exact absurd heq (by decide)

end Omniscience.Qdrant
