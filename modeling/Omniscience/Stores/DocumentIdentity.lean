import Omniscience.Stores.ChunkFaults
import Omniscience.Stores.TimeTravel

/-!
# The identity of a document

The id and the version of a document are kept nowhere but in its current points: a write takes them
from the generation that it replaces.  A generation without chunks leaves no current point, so that
the next write starts the document anew, with another id and at version 1 (`stable_iff`).
-/

namespace Omniscience.Qdrant

open Outbox List

/-! ### Runs -/

/-- The collection after the call. -/
def Attempt.apply (call : Attempt) (c : Collection) : Collection := (attempt call none c).1

/-- The `doc_version` that the call reports, if it reports a change. -/
def Attempt.reported (call : Attempt) (c : Collection) : Option ℤ :=
  match (attempt call none c).2 with
  | .ok outcome => if outcome.action = .unchanged then none else some outcome.docVersion
  | .error _ => none

/-- The collection after a sequence of calls. -/
def afterAttempts (c : Collection) (calls : List Attempt) : Collection :=
  calls.foldl (fun c call => call.apply c) c

/-- The versions that are reported by the calls that change the content, in their order. -/
def versions : Collection → List Attempt → List ℤ
  | _, [] => []
  | c, call :: calls => (call.reported c).toList ++ versions (call.apply c) calls

/-- An unversioned call for the document, with one id for each chunk. -/
structure Attempt.For (call : Attempt) (k : DocumentKey) : Prop where
  workspace : extractWorkspaceId call.metadata = .ok k.workspaceId
  source : call.sourceId = k.sourceId
  external : call.externalId = k.externalId
  unversioned : call.version = none
  drawn : call.draw.pointIds.length = call.chunks.length

/-- The calls are unversioned calls for the document, and all of them succeed. -/
def Succeed (k : DocumentKey) : Collection → List Attempt → Prop
  | _, [] => True
  | c, call :: calls => call.For k ∧ (∃ outcome, (attempt call none c).2 = .ok outcome) ∧
      Succeed k (call.apply c) calls

/-- All points ever written carry one document id, and the reported versions count. -/
def Stable (k : DocumentKey) (c : Collection) (calls : List Attempt) : Prop :=
  (∃ documentId, ∀ pre, pre <+: calls → ∀ p ∈ (afterAttempts c pre).points, p.isOf k = true →
    p.documentId = documentId) ∧ (versions c calls).IsChain fun v w => w = v + 1

/-- Every call without chunks but the last repeats the content hash of the call before it. -/
def NoGap : Option String → List Attempt → Prop
  | _, [] => True
  | _, [_] => True
  | before, call :: next :: calls => (call.chunks = [] → before = some call.contentHash) ∧
      NoGap (some call.contentHash) (next :: calls)

/-! ### One call -/

/-- The document exists: it has current points, all of one version and one content, and all its
points have one id. -/
structure Generation (k : DocumentKey) (c : Collection) (documentId : Uuid) (version : ℤ)
    (contentHash : String) : Prop where
  identity : ∀ p ∈ c.points, p.isOf k = true → p.documentId = documentId
  present : ∃ p ∈ c.points, p.isCurrent k = true
  current : ∀ p ∈ c.points, p.isCurrent k = true →
    p.docVersion = some version ∧ p.contentHash = some contentHash

section

variable {k : DocumentKey} {c : Collection} {call : Attempt} {documentId : Uuid} {version : ℤ}
  {contentHash : String}

theorem length_requireChunkFields {raw : List RawChunk} {chunks : List ChunkPayload}
    (h : raw.mapM requireChunkFields = .ok chunks) : chunks.length = raw.length := by
  induction raw generalizing chunks with
  | nil =>
    cases h
    rfl
  | cons chunk raw ih =>
    rw [mapM_cons] at h
    obtain ⟨first, -, h⟩ := bind_eq_ok_iff.1 h
    obtain ⟨rest, hrest, h⟩ := bind_eq_ok_iff.1 h
    cases h
    rw [length_cons, length_cons, ih hrest]

theorem apply_attempt_cases (hcall : call.For k)
    (hreturns : ∃ outcome, (attempt call none c).2 = .ok outcome) :
    ((call.existing k.workspaceId c).map DocumentRecord.contentHash = some call.contentHash ∧
      call.apply c = c ∧ call.reported c = none) ∨
    ((call.existing k.workspaceId c).map DocumentRecord.contentHash ≠ some call.contentHash ∧
      call.reported c = some (nextVersion (call.existing k.workspaceId c)) ∧
      ∃ chunks : List ChunkPayload, chunks.length = call.chunks.length ∧
        call.apply c = writeDocument (call.existing k.workspaceId c) k.workspaceId
          (call.args chunks) call.draw call.now c) := by
  have hwritten : Written c k.workspaceId (call.args []) ↔
      (call.existing k.workspaceId c).map DocumentRecord.contentHash ≠ some call.contentHash := by
    have hskips : skips c (call.args []) = false := by
      rw [skips, show (call.args []).version = none from hcall.unversioned]
    rw [Written, hskips]
    exact and_iff_right rfl
  rw [Attempt.apply, Attempt.reported]
  obtain ⟨outcome, houtcome⟩ := hreturns
  obtain ⟨-, error, hattempt⟩ | ⟨hnot, _, hattempt, haction⟩ | ⟨hw, -, -, hattempt⟩ :=
    attempt_cases none c hcall.workspace
  · rw [hattempt] at houtcome
    cases houtcome
  · rw [hwritten, not_not] at hnot
    refine .inl ⟨hnot, ?_, ?_⟩
    · rw [hattempt]
    · simp only [hattempt, haction, if_true]
  · refine .inr ⟨hwritten.1 hw, ?_⟩
    rw [hattempt] at houtcome ⊢
    obtain ⟨-, -, error, hwrite⟩ | ⟨-, error, hwrite⟩ | ⟨chunks, hchunks, hwrite⟩ :=
      attemptWrite_cases call none k.workspaceId c (call.existing k.workspaceId c)
    · rw [hwrite] at houtcome
      cases houtcome
    · rw [hwrite] at houtcome
      cases houtcome
    · rw [hwrite]
      refine ⟨?_, chunks, length_requireChunkFields hchunks, rfl⟩
      cases (call.existing k.workspaceId c) with
      | none => rfl
      | some record => rfl

theorem Generation.existing (h : Generation k c documentId version contentHash)
    (hcall : call.For k) : ∃ record, call.existing k.workspaceId c = some record ∧
      record.documentId = documentId ∧ record.docVersion = version ∧
      record.contentHash = contentHash := by
  rw [Attempt.existing, hcall.source, hcall.external, findDocument_eq]
  cases hfilter : c.points.filter (Point.isCurrent k) with
  | nil =>
    obtain ⟨p, hp, hcurrent⟩ := h.present
    exact absurd hcurrent (filter_eq_nil_iff.1 hfilter p hp)
  | cons first rest =>
    have hfirst : first ∈ c.points.filter (Point.isCurrent k) := by simp [hfilter]
    obtain ⟨hmem, hcurrent⟩ := mem_filter.1 hfirst
    obtain ⟨hversion, hhash⟩ := h.current first hmem hcurrent
    refine ⟨_, rfl, h.identity first hmem (isCurrent_iff.1 hcurrent).1, ?_, ?_⟩
    · simp [recordFromPoints, hversion]
    · simp [recordFromPoints, hhash]

theorem existing_eq_none (hcall : call.For k) (h : ∀ p ∈ c.points, ¬ p.isCurrent k = true) :
    call.existing k.workspaceId c = none := by
  rw [Attempt.existing, hcall.source, hcall.external, findDocument_eq, filter_eq_nil_iff.2 h]

variable {chunks : List ChunkPayload}

theorem mem_points_write (hcall : call.For k) {p : Point}
    (hp : p ∈ (writeDocument (call.existing k.workspaceId c) k.workspaceId (call.args chunks)
      call.draw call.now c).points) :
    (p.documentId = identity (call.existing k.workspaceId c) call.draw ∧
      p.docVersion = some (nextVersion (call.existing k.workspaceId c)) ∧
      p.contentHash = some call.contentHash) ∨
    ∃ q ∈ c.points, p = closeCurrent k call.now q := by
  rcases mem_addPoints hp with hnew | hold
  · rw [← map_uncurry_zip_eq_zipWith] at hnew
    obtain ⟨⟨chunk, id⟩, -, rfl⟩ := mem_map.1 hnew
    exact .inl ⟨rfl, rfl, rfl⟩
  · rw [Attempt.existing, hcall.source, hcall.external, closeDocument_findDocument] at hold
    obtain ⟨q, hq, rfl⟩ := mem_map.1 hold
    exact .inr ⟨q, hq, rfl⟩

theorem isCurrent_closeCurrent (now : ℕ) (q : Point) :
    (closeCurrent k now q).isCurrent k = false := by
  rw [closeCurrent]
  split
  · exact isCurrent_close k q now
  · rename_i hnot
    exact Bool.eq_false_iff.2 hnot

theorem not_current_write (hcall : call.For k) (hchunks : chunks = []) :
    ∀ p ∈ (writeDocument (call.existing k.workspaceId c) k.workspaceId (call.args chunks)
      call.draw call.now c).points, ¬ p.isCurrent k = true := by
  subst hchunks
  intro p hp
  have hold : p ∈ closeDocument (call.existing k.workspaceId c) k.workspaceId call.now c.points :=
    hp
  rw [Attempt.existing, hcall.source, hcall.external, closeDocument_findDocument] at hold
  obtain ⟨q, -, rfl⟩ := mem_map.1 hold
  exact Bool.eq_false_iff.1 (isCurrent_closeCurrent call.now q)

theorem exists_mem_addPoints {new l : List Point} (hnew : new ≠ []) :
    ∃ p ∈ new, p ∈ addPoints new l := by
  induction new generalizing l with
  | nil => exact absurd rfl hnew
  | cons q new ih =>
    by_cases hrest : new = []
    · subst hrest
      exact ⟨q, mem_cons_self, mem_insertPoint_self q l⟩
    · obtain ⟨p, hp, hmem⟩ := ih (l := insertPoint q l) hrest
      exact ⟨p, mem_cons_of_mem _ hp, hmem⟩

theorem exists_current_write (hcall : call.For k) (hlength : chunks.length = call.chunks.length)
    (hchunks : call.chunks ≠ []) (existing : Option DocumentRecord) :
    ∃ p ∈ (writeDocument existing k.workspaceId (call.args chunks) call.draw call.now c).points,
      p.isCurrent k = true := by
  have hpos : 0 < call.chunks.length := length_pos_iff.2 hchunks
  have hnew : chunks.zipWith (chunkToPoint (call.args chunks) k.workspaceId
      (identity existing call.draw) (nextVersion existing) call.now) call.draw.pointIds ≠ [] := by
    intro hnil
    have hzip := congrArg List.length hnil
    rw [length_zipWith, hlength, hcall.drawn, min_self, length_nil] at hzip
    omega
  obtain ⟨p, hp, hmem⟩ := exists_mem_addPoints
    (l := closeDocument existing k.workspaceId call.now c.points) hnew
  refine ⟨p, hmem, ?_⟩
  rw [← map_uncurry_zip_eq_zipWith] at hp
  obtain ⟨⟨chunk, id⟩, -, rfl⟩ := mem_map.1 hp
  simp [Point.isCurrent, chunkToPoint, Attempt.args, hcall.source, hcall.external]

/-- **The next generation**: a write with chunks, under an id that the points of the document
already have. -/
theorem generation_write (hcall : call.For k) (hlength : chunks.length = call.chunks.length)
    (hchunks : call.chunks ≠ [])
    (hid : ∀ p ∈ c.points, p.isOf k = true →
      p.documentId = identity (call.existing k.workspaceId c) call.draw) :
    Generation k (writeDocument (call.existing k.workspaceId c) k.workspaceId (call.args chunks)
        call.draw call.now c) (identity (call.existing k.workspaceId c) call.draw)
      (nextVersion (call.existing k.workspaceId c)) call.contentHash where
  identity p hp hof := by
    obtain ⟨hdocument, -⟩ | ⟨q, hq, rfl⟩ := mem_points_write hcall hp
    · exact hdocument
    · rw [isOf_closeCurrent] at hof
      rw [← hid q hq hof, closeCurrent]
      split
      · rfl
      · rfl
  present := exists_current_write hcall hlength hchunks _
  current p hp hcurrent := by
    obtain ⟨-, hversion, hhash⟩ | ⟨q, -, rfl⟩ := mem_points_write hcall hp
    · exact ⟨hversion, hhash⟩
    · rw [isCurrent_closeCurrent] at hcurrent
      cases hcurrent

theorem Generation.step (h : Generation k c documentId version contentHash) (hcall : call.For k)
    (hreturns : ∃ outcome, (attempt call none c).2 = .ok outcome) :
    (contentHash = call.contentHash ∧ call.apply c = c ∧ call.reported c = none) ∨
    (contentHash ≠ call.contentHash ∧ call.reported c = some (version + 1) ∧
      (∀ p ∈ (call.apply c).points, p.isOf k = true → p.documentId = documentId) ∧
      (call.chunks ≠ [] →
        Generation k (call.apply c) documentId (version + 1) call.contentHash) ∧
      (call.chunks = [] → ∀ p ∈ (call.apply c).points, ¬ p.isCurrent k = true)) := by
  obtain ⟨record, hrecord, hdocument, hversion, hhash⟩ := h.existing hcall
  have hid : Qdrant.identity (some record) call.draw = documentId := hdocument
  have hnext : nextVersion (some record) = version + 1 := by rw [← hversion]; rfl
  obtain ⟨hsame, happly, hreported⟩ | ⟨hother, hreported, chunks, hlength, happly⟩ :=
    apply_attempt_cases hcall hreturns
  · rw [hrecord, Option.map_some, Option.some.injEq, hhash] at hsame
    exact .inl ⟨hsame, happly, hreported⟩
  · refine .inr ⟨?_, ?_, ?_, fun hne => ?_, fun hnil => ?_⟩
    · rw [hrecord, Option.map_some, ne_eq, Option.some.injEq, hhash] at hother
      exact hother
    · rw [hreported, hrecord, hnext]
    · intro p hp hof
      rw [happly] at hp
      obtain ⟨hnew, -⟩ | ⟨q, hq, rfl⟩ := mem_points_write hcall hp
      · rw [hnew, hrecord, hid]
      · rw [isOf_closeCurrent] at hof
        rw [← h.identity q hq hof, closeCurrent]
        split
        · rfl
        · rfl
    · have hwrite := generation_write hcall hlength hne fun p hp hof => by
        rw [hrecord, hid, h.identity p hp hof]
      rw [← happly, hrecord, hid, hnext] at hwrite
      exact hwrite
    · rw [happly]
      refine not_current_write hcall (length_eq_zero_iff.1 ?_)
      rw [hlength, hnil, length_nil]

theorem reported_of_not_current (hcall : call.For k)
    (hreturns : ∃ outcome, (attempt call none c).2 = .ok outcome)
    (h : ∀ p ∈ c.points, ¬ p.isCurrent k = true) : call.reported c = some 1 := by
  have hnone := existing_eq_none hcall h
  obtain ⟨hsame, -, -⟩ | ⟨-, hreported, -⟩ := apply_attempt_cases hcall hreturns
  · rw [hnone] at hsame
    cases hsame
  · rw [hreported, hnone]
    rfl

theorem first_step (hcall : call.For k)
    (hreturns : ∃ outcome, (attempt call none c).2 = .ok outcome)
    (h : ∀ p ∈ c.points, ¬ p.isOf k = true) :
    (∀ p ∈ (call.apply c).points, p.isOf k = true → p.documentId = call.draw.documentId) ∧
      (call.chunks ≠ [] →
        Generation k (call.apply c) call.draw.documentId 1 call.contentHash) ∧
      (call.chunks = [] → ∀ p ∈ (call.apply c).points, ¬ p.isCurrent k = true) := by
  have hnone := existing_eq_none hcall fun p hp hcurrent => h p hp (isCurrent_iff.1 hcurrent).1
  obtain ⟨hsame, -, -⟩ | ⟨-, -, chunks, hlength, happly⟩ := apply_attempt_cases hcall hreturns
  · rw [hnone] at hsame
    cases hsame
  · refine ⟨fun p hp hof => ?_, fun hne => ?_, fun hnil => ?_⟩
    · rw [happly] at hp
      obtain ⟨hnew, -⟩ | ⟨q, hq, rfl⟩ := mem_points_write hcall hp
      · rw [hnew, hnone]
        rfl
      · rw [isOf_closeCurrent] at hof
        exact absurd hof (h q hq)
    · have hwrite := generation_write hcall hlength hne fun p hp hof => absurd hof (h p hp)
      rw [← happly, hnone] at hwrite
      exact hwrite
    · rw [happly]
      refine not_current_write hcall (length_eq_zero_iff.1 ?_)
      rw [hlength, hnil, length_nil]

end

/-! ### Sequences of calls -/

section

variable {k : DocumentKey} {c : Collection} {calls : List Attempt} {documentId : Uuid} {version : ℤ}
  {contentHash : String}

/-- All points of the document, at any time of the run, carry the id. -/
def Identified (k : DocumentKey) (documentId : Uuid) (c : Collection) (calls : List Attempt) :
    Prop :=
  ∀ pre, pre <+: calls → ∀ p ∈ (afterAttempts c pre).points, p.isOf k = true →
    p.documentId = documentId

theorem identified_cons_iff {call : Attempt} : Identified k documentId c (call :: calls) ↔
    (∀ p ∈ c.points, p.isOf k = true → p.documentId = documentId) ∧
      Identified k documentId (call.apply c) calls := by
  constructor
  · intro h
    exact ⟨h [] nil_prefix, fun pre hpre => h (call :: pre) (cons_prefix_cons.2 ⟨rfl, hpre⟩)⟩
  · rintro ⟨hnow, hlater⟩ pre hpre
    rcases prefix_cons_iff.1 hpre with rfl | ⟨rest, rfl, hrest⟩
    · exact hnow
    · exact hlater rest hrest

theorem identified_nil (h : ∀ p ∈ c.points, p.isOf k = true → p.documentId = documentId) :
    Identified k documentId c [] := by
  intro pre hpre
  rw [prefix_nil.1 hpre]
  exact h

theorem Generation.run (h : Generation k c documentId version contentHash)
    (hcalls : Succeed k c calls) (hgap : NoGap (some contentHash) calls) :
    Identified k documentId c calls ∧
      (version :: versions c calls).IsChain fun v w => w = v + 1 := by
  induction calls generalizing c version contentHash with
  | nil => exact ⟨identified_nil h.identity, .singleton _⟩
  | cons call calls ih =>
    obtain ⟨hcall, hreturns, hrest⟩ := hcalls
    rw [identified_cons_iff, versions]
    obtain ⟨hsame, happly, hreported⟩ | ⟨hother, hreported, hidentity, hwith, -⟩ :=
      h.step hcall hreturns
    · have hgap' : NoGap (some contentHash) calls := by
        cases calls with
        | nil => trivial
        | cons next calls => exact hsame ▸ hgap.2
      rw [hreported, happly]
      obtain ⟨hlater, hchain⟩ := ih h (happly ▸ hrest) hgap'
      exact ⟨⟨h.identity, hlater⟩, hchain⟩
    · rw [hreported]
      cases calls with
      | nil => exact ⟨⟨h.identity, identified_nil hidentity⟩, .cons_cons rfl (.singleton _)⟩
      | cons next calls =>
        have hne : call.chunks ≠ [] := fun hnil => hother (Option.some.inj (hgap.1 hnil))
        obtain ⟨hlater, hchain⟩ := ih (hwith hne) hrest hgap.2
        exact ⟨⟨h.identity, hlater⟩, isChain_cons_cons.2 ⟨rfl, hchain⟩⟩

theorem Generation.noGap (h : Generation k c documentId version contentHash) (hpos : 1 ≤ version)
    (hcalls : Succeed k c calls)
    (hchain : (version :: versions c calls).IsChain fun v w => w = v + 1) :
    NoGap (some contentHash) calls := by
  induction calls generalizing c version contentHash with
  | nil => trivial
  | cons call calls ih =>
    cases calls with
    | nil => trivial
    | cons next calls =>
      obtain ⟨hcall, hreturns, hrest⟩ := hcalls
      rw [versions] at hchain
      obtain ⟨hsame, happly, hreported⟩ | ⟨hother, hreported, -, hwith, hwithout⟩ :=
        h.step hcall hreturns
      · rw [hreported, happly] at hchain
        rw [happly] at hrest
        exact ⟨fun _ => by rw [hsame], hsame ▸ ih h hpos hrest hchain⟩
      · rw [hreported] at hchain
        obtain ⟨-, hchain⟩ := isChain_cons_cons.1 hchain
        by_cases hnil : call.chunks = []
        · -- the next call starts again at version 1
          obtain ⟨hnext, hreturns', -⟩ := hrest
          rw [versions, reported_of_not_current hnext hreturns' (hwithout hnil)] at hchain
          have hone := (isChain_cons_cons.1 hchain).1
          omega
        · exact ⟨fun h => absurd h hnil, ih (hwith hnil) (by omega) hrest hchain⟩

/-- **When a document keeps its identity**: all points carry one id and the reported versions count,
if and only if a call without chunks is the last one, or repeats the content hash of the call before
it. -/
theorem stable_iff (hnew : ∀ p ∈ c.points, ¬ p.isOf k = true) (hcalls : Succeed k c calls) :
    Stable k c calls ↔ NoGap none calls := by
  cases calls with
  | nil =>
    refine iff_of_true ⟨⟨0, identified_nil fun p hp hof => absurd hof (hnew p hp)⟩, ?_⟩ trivial
    exact .nil
  | cons call calls =>
    obtain ⟨hcall, hreturns, hrest⟩ := hcalls
    have hbefore : ∀ p ∈ c.points, p.isOf k = true → p.documentId = call.draw.documentId :=
      fun p hp hof => absurd hof (hnew p hp)
    obtain ⟨hidentity, hwith, hwithout⟩ := first_step hcall hreturns hnew
    have hreported := reported_of_not_current hcall hreturns fun p hp hcurrent =>
      hnew p hp (isCurrent_iff.1 hcurrent).1
    have hversions : versions c (call :: calls) = 1 :: versions (call.apply c) calls := by
      rw [versions, hreported]
      rfl
    cases calls with
    | nil =>
      refine iff_of_true ⟨⟨_, identified_cons_iff.2 ⟨hbefore, identified_nil hidentity⟩⟩, ?_⟩
        trivial
      rw [hversions]
      exact .singleton _
    | cons next calls =>
      constructor
      · rintro ⟨-, hchain⟩
        rw [hversions] at hchain
        by_cases hnil : call.chunks = []
        · obtain ⟨hnext, hreturns', -⟩ := hrest
          rw [versions, reported_of_not_current hnext hreturns' (hwithout hnil)] at hchain
          exact absurd (isChain_cons_cons.1 hchain).1 (by decide)
        · exact ⟨fun h => absurd h hnil, (hwith hnil).noGap le_rfl hrest hchain⟩
      · rintro ⟨hfirst, hgap⟩
        have hne : call.chunks ≠ [] := fun hnil => by cases hfirst hnil
        obtain ⟨hlater, hchain⟩ := (hwith hne).run hrest hgap
        exact ⟨⟨_, identified_cons_iff.2 ⟨hbefore, hlater⟩⟩, hversions ▸ hchain⟩

end

/-! ### A page that is emptied -/

theorem exists_outcome {call : Attempt} {workspaceId : Uuid} {chunks : List ChunkPayload}
    (hws : extractWorkspaceId call.metadata = .ok workspaceId)
    (hchunks : call.chunks.mapM requireChunkFields = .ok chunks) (c : Collection) :
    ∃ outcome, (attempt call none c).2 = .ok outcome := by
  obtain ⟨⟨f, hf, -⟩, -⟩ | ⟨-, outcome, hattempt, -⟩ | ⟨-, -, -, hattempt⟩ :=
    attempt_cases none c hws
  · cases hf
  · exact ⟨outcome, by rw [hattempt]⟩
  · rw [hattempt]
    simp [attemptWrite, failsAt, hchunks]

theorem succeed_of_complete {k : DocumentKey} {calls : List Attempt}
    (h : ∀ call ∈ calls, call.For k ∧ ∃ chunks, call.chunks.mapM requireChunkFields = .ok chunks)
    (c : Collection) : Succeed k c calls := by
  induction calls generalizing c with
  | nil => trivial
  | cons call calls ih =>
    obtain ⟨hcall, chunks, hchunks⟩ := h call mem_cons_self
    exact ⟨hcall, exists_outcome hcall.workspace hchunks c,
      ih (fun next hnext => h next (mem_cons_of_mem _ hnext)) _⟩

/-- A revision of a page: its content hash, its lines, and the ids that are drawn. -/
def revision (contentHash : String) (lines : List String) (draw : Draw) : Attempt where
  sourceId := 3
  externalId := "a"
  uri := "a"
  title := none
  contentHash := contentHash
  metadata := [("workspace_id", .str (Uuid.str 7))]
  chunks := lines.map fun line => { ord := some 0, text := some line, embedding := some [] }
  draw := draw
  now := 0

theorem for_revision {contentHash : String} {lines : List String} {draw : Draw}
    (hdrawn : draw.pointIds.length = lines.length) :
    (revision contentHash lines draw).For ⟨7, 3, "a"⟩ where
  workspace := by simp [extractWorkspaceId, revision, uuidOf, Uuid.parse_str]
  source := rfl
  external := rfl
  unversioned := rfl
  drawn := hdrawn.trans (length_map _).symm

/-- A page with a line, and another line instead of it. -/
theorem stable_rewritten : (∀ p ∈ Collection.empty.points, ¬ p.isOf ⟨7, 3, "a"⟩ = true) ∧
      Succeed ⟨7, 3, "a"⟩ .empty [revision "a" ["x"] ⟨1, [10]⟩, revision "b" ["y"] ⟨2, [11]⟩] ∧
      Stable ⟨7, 3, "a"⟩ .empty [revision "a" ["x"] ⟨1, [10]⟩, revision "b" ["y"] ⟨2, [11]⟩] := by
  have hnew : ∀ p ∈ Collection.empty.points, ¬ p.isOf ⟨7, 3, "a"⟩ = true := by rintro _ ⟨⟩
  have hcalls : Succeed ⟨7, 3, "a"⟩ .empty
      [revision "a" ["x"] ⟨1, [10]⟩, revision "b" ["y"] ⟨2, [11]⟩] := by
    refine succeed_of_complete ?_ _
    simp only [forall_mem_cons, not_mem_nil, false_implies, implies_true, and_true]
    exact ⟨⟨for_revision rfl, _, rfl⟩, for_revision rfl, _, rfl⟩
  exact ⟨hnew, hcalls, (stable_iff hnew hcalls).2 ⟨nofun, trivial⟩⟩

/-- A page whose lines are removed is another document, at version 1, when it gets one again. -/
theorem identity_lost : ¬ ∀ (k : DocumentKey) (c : Collection) (calls : List Attempt),
      (∀ p ∈ c.points, ¬ p.isOf k = true) → Succeed k c calls → Stable k c calls := by
  intro h
  have hnew : ∀ p ∈ Collection.empty.points, ¬ p.isOf ⟨7, 3, "a"⟩ = true := by rintro _ ⟨⟩
  have hcalls : Succeed ⟨7, 3, "a"⟩ .empty [revision "a" ["x"] ⟨1, [10]⟩, revision "b" [] ⟨2, []⟩,
      revision "c" ["y"] ⟨3, [11]⟩] := by
    refine succeed_of_complete ?_ _
    simp only [forall_mem_cons, not_mem_nil, false_implies, implies_true, and_true]
    exact ⟨⟨for_revision rfl, _, rfl⟩, ⟨for_revision rfl, _, rfl⟩, for_revision rfl, _, rfl⟩
  obtain ⟨-, hchain⟩ := h _ _ _ hnew hcalls
  obtain ⟨hcall, hreturns, hrest⟩ := hcalls
  obtain ⟨-, hwith, -⟩ := first_step hcall hreturns hnew
  have hreported := reported_of_not_current hcall hreturns fun p hp hcurrent =>
    hnew p hp (isCurrent_iff.1 hcurrent).1
  rw [versions, hreported] at hchain
  have hgap := (hwith (by decide)).noGap le_rfl hrest hchain
  exact absurd (hgap.1 rfl) (by decide)

end Omniscience.Qdrant
