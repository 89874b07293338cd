import Omniscience.Stores.Documents

/-!
# Retention of the chunk points

The vector side of `RetentionWorker._process_workspace`.  A run marks the points that were recorded
before the hot cutoff with `tier = "warm"` and the day of their `recorded_at`, and deletes, for the
snapshot dates that the graph store lists, the warm points of each date.

No filter on the way reads `valid_to` or `tombstoned_at`.  A point of a document that has not
changed since is marked like any other, and is deleted when the graph store lists its day.
-/

namespace Omniscience.Qdrant

open Outbox List

/-! ### The operations -/

/-- The microseconds of a day. -/
def microsecondsPerDay : ℕ := 86400000000

/-- The UTC calendar day of a time, in microseconds since the epoch. -/
def dayOf (moment : ℕ) : ℕ := moment / microsecondsPerDay

/-- `build_retention_eligible_filter`. -/
def retentionEligible (workspaceId : Uuid) (cutoff : ℕ) (p : Point) : Bool :=
  p.workspaceId = workspaceId && p.recordedAt.any (· < cutoff)

/-- The payload that `mark_retention_warm` sets on an eligible point; a warm point is skipped. -/
def markPoint (workspaceId : Uuid) (cutoff : ℕ) (p : Point) : Point :=
  if retentionEligible workspaceId cutoff p && !p.isWarm then
    { p with isWarm := true, snapshotDate := p.recordedAt.map dayOf }
  else p

theorem id_markPoint (w : Uuid) (cutoff : ℕ) (p : Point) : (markPoint w cutoff p).id = p.id := by
  rw [markPoint]
  split <;> rfl

/-- `QdrantVectorStore.mark_retention_warm`. -/
def markRetentionWarm (workspaceId : Uuid) (cutoff : ℕ) (c : Collection) : Collection where
  points := c.points.map (markPoint workspaceId cutoff)
  checkpoints := c.checkpoints
  ascending := ascending_map (id_markPoint workspaceId cutoff) c.ascending

/-- `build_warm_archive_filter`. -/
def warmArchive (workspaceId : Uuid) (snapshotDate : ℕ) (p : Point) : Bool :=
  p.workspaceId = workspaceId && p.isWarm && p.snapshotDate = some snapshotDate

/-- `QdrantVectorStore.delete_retention_archive`. -/
def deleteRetentionArchive (workspaceId : Uuid) (c : Collection) (snapshotDate : ℕ) :
    Collection where
  points := c.points.filter fun p => !warmArchive workspaceId snapshotDate p
  checkpoints := c.checkpoints
  ascending := c.ascending.filter _

/-- The settings of the worker that the vector side depends on. -/
structure RetentionSettings where
  hotDays : ℕ
  warmDays : ℕ
  dryRun : Bool := false
  hasBucket : Bool := true

/-- `RETENTION_ARCHIVE_DATES_PER_RUN`. -/
def archiveDatesPerRun : ℕ := 32

/-- A pass over one workspace.  `warmDates` are the dates of its daily snapshots in the graph, in
ascending order; `archived` says how many of the listed ones are archived before a call fails. -/
structure RetentionRun where
  workspaceId : Uuid
  now : ℕ
  warmDates : List ℕ
  archived : ℕ := archiveDatesPerRun

/-- `hot_cutoff`. -/
def RetentionRun.hotCutoff (settings : RetentionSettings) (run : RetentionRun) : ℕ :=
  run.now - settings.hotDays * microsecondsPerDay

/-- `warm_cutoff_date`. -/
def RetentionRun.warmCutoffDate (settings : RetentionSettings) (run : RetentionRun) : ℕ :=
  dayOf (run.now - settings.warmDays * microsecondsPerDay)

/-- The dates whose chunks are deleted. -/
def RetentionRun.archiveDates (settings : RetentionSettings) (run : RetentionRun) : List ℕ :=
  if settings.dryRun || !settings.hasBucket then []
  else ((run.warmDates.filter (· < run.warmCutoffDate settings)).take archiveDatesPerRun).take
    run.archived

/-- `_process_workspace` on the collection. -/
def RetentionRun.apply (settings : RetentionSettings) (run : RetentionRun) (c : Collection) :
    Collection :=
  if settings.dryRun then c
  else (run.archiveDates settings).foldl (deleteRetentionArchive run.workspaceId)
    (markRetentionWarm run.workspaceId (run.hotCutoff settings) c)

/-- What happens to a collection. -/
inductive RetentionOp where
  | upsert (u : Upsert)
  | tombstone (workspaceId sourceId : Uuid) (externalId : String) (now : ℕ)
  | retention (run : RetentionRun)

/-- The collection after an operation. -/
def RetentionOp.apply (settings : RetentionSettings) (op : RetentionOp) (c : Collection) :
    Collection :=
  match op with
  | .upsert u => u.apply c
  | .tombstone workspaceId sourceId externalId now =>
    (deleteByDocument workspaceId sourceId externalId now c).1
  | .retention run => run.apply settings c

/-- The collection after a history, from a new one. -/
def history (settings : RetentionSettings) (ops : List RetentionOp) : Collection :=
  ops.foldl (fun c op => op.apply settings c) .empty

variable (settings : RetentionSettings)

theorem history_concat (ops : List RetentionOp) (op : RetentionOp) :
    history settings (ops ++ [op]) = op.apply settings (history settings ops) := by
  rw [history, foldl_append]
  rfl

/-! ### What a run deletes -/

/-- The point is end-dated or tombstoned. -/
def Point.isClosed (p : Point) : Bool := p.validTo.join.isSome || p.tombstonedAt.join.isSome

/-- The point is gone. -/
def Evicted (p : Point) (c' : Collection) : Prop := ∀ q ∈ c'.points, q.id ≠ p.id

theorem points_archive (w : Uuid) (dates : List ℕ) (c : Collection) :
    (dates.foldl (deleteRetentionArchive w) c).points =
      c.points.filter fun p => !dates.any fun date => warmArchive w date p := by
  induction dates generalizing c with
  | nil => simp
  | cons date dates ih =>
    rw [foldl_cons, ih, deleteRetentionArchive, filter_filter]
    refine filter_congr fun p _ => ?_
    rw [any_cons, Bool.not_or, Bool.and_comm]

variable {c : Collection}

theorem evicted_apply_iff (run : RetentionRun) {p : Point} (hp : p ∈ c.points) :
    Evicted p (run.apply settings c) ↔ ∃ date ∈ run.archiveDates settings,
      warmArchive run.workspaceId date
        (markPoint run.workspaceId (run.hotCutoff settings) p) = true := by
  rw [RetentionRun.apply]
  split
  · -- a dry run has no dates and changes nothing
    rename_i hdry
    have hnone : run.archiveDates settings = [] := by simp [RetentionRun.archiveDates, hdry]
    rw [hnone]
    refine iff_of_false (fun h => h p hp rfl) ?_
    rintro ⟨_, h, -⟩
    exact absurd h not_mem_nil
  · rw [Evicted, points_archive]
    constructor
    · intro h
      by_contra hkept
      refine h (markPoint run.workspaceId (run.hotCutoff settings) p)
        (mem_filter.2 ⟨mem_map_of_mem hp, ?_⟩) (id_markPoint _ _ p)
      rw [Bool.not_eq_true', ← Bool.not_eq_true, any_eq_true]
      exact hkept
    · rintro ⟨date, hdate, hwarm⟩ q hq hid
      obtain ⟨hmem, hkept⟩ := mem_filter.1 hq
      obtain ⟨r, hr, rfl⟩ := mem_map.1 hmem
      -- ids are unique, so the point that is left is the one that goes
      rw [id_markPoint] at hid
      obtain rfl := inj_on_of_nodup_map (nodup_ids c.ascending) hr hp hid
      rw [Bool.not_eq_true', ← Bool.not_eq_true, any_eq_true] at hkept
      exact hkept ⟨date, hdate, hwarm⟩

/-- A warm point carries the day of its `recorded_at`. -/
def Point.Dated (p : Point) : Prop := p.isWarm = true → p.snapshotDate = p.recordedAt.map dayOf

/-- The point is warm or old enough to become so, and its day is archived by the run. -/
def Due (settings : RetentionSettings) (run : RetentionRun) (p : Point) : Prop :=
  p.workspaceId = run.workspaceId ∧
    (p.isWarm = true ∨ ∃ moment, p.recordedAt = some moment ∧ moment < run.hotCutoff settings) ∧
    ∃ date ∈ run.archiveDates settings, p.recordedAt.map dayOf = some date

theorem warmArchive_markPoint_iff {w : Uuid} {cutoff date : ℕ} {p : Point} (hp : p.Dated) :
    warmArchive w date (markPoint w cutoff p) = true ↔
      p.workspaceId = w ∧
        (p.isWarm = true ∨ ∃ moment, p.recordedAt = some moment ∧ moment < cutoff) ∧
        p.recordedAt.map dayOf = some date := by
  have hold : p.recordedAt.any (· < cutoff) = true ↔
      ∃ moment, p.recordedAt = some moment ∧ moment < cutoff := by
    simp [Option.any_eq_true]
  cases hwarm : p.isWarm with
  | true =>
    rw [markPoint, if_neg (by simp [hwarm])]
    simp [warmArchive, hwarm, hp hwarm]
  | false =>
    by_cases helig : retentionEligible w cutoff p = true
    · rw [markPoint, if_pos (by simp [helig, hwarm])]
      simp only [retentionEligible, Bool.and_eq_true, decide_eq_true_eq] at helig
      simp [warmArchive, helig.1, hold.1 helig.2]
    · rw [markPoint, if_neg (by simp [helig])]
      simp only [retentionEligible, Bool.and_eq_true, decide_eq_true_eq] at helig
      simp only [warmArchive, hwarm, Bool.and_false, Bool.false_and, Bool.false_eq_true,
        false_or, false_iff]
      exact fun h => helig ⟨h.1, hold.2 h.2.1⟩

theorem evicted_iff_due {settings : RetentionSettings} {run : RetentionRun}
    (hc : ∀ p ∈ c.points, p.Dated) {p : Point} (hp : p ∈ c.points) :
    Evicted p (run.apply settings c) ↔ Due settings run p := by
  rw [evicted_apply_iff settings run hp, Due]
  constructor
  · rintro ⟨date, hdate, h⟩
    obtain ⟨hws, hold, hday⟩ := (warmArchive_markPoint_iff (hc p hp)).1 h
    exact ⟨hws, hold, date, hdate, hday⟩
  · rintro ⟨hws, hold, date, hdate, hday⟩
    exact ⟨date, hdate, (warmArchive_markPoint_iff (hc p hp)).2 ⟨hws, hold, hday⟩⟩

/-! ### The days of the warm points -/

theorem dated_addPoints {new points : List Point} (hnew : ∀ p ∈ new, p.Dated)
    (h : ∀ p ∈ points, p.Dated) : ∀ p ∈ addPoints new points, p.Dated := by
  induction new generalizing points with
  | nil => exact h
  | cons p new ih =>
    refine ih (fun q hq => hnew q (mem_cons_of_mem _ hq)) fun q hq => ?_
    rcases mem_insertPoint hq with rfl | hq
    · exact hnew q mem_cons_self
    · exact h q hq

theorem dated_map {change : Point → Point} (hchange : ∀ p : Point, p.Dated → (change p).Dated)
    {points : List Point} (h : ∀ p ∈ points, p.Dated) : ∀ p ∈ points.map change, p.Dated := by
  intro p hp
  obtain ⟨q, hq, rfl⟩ := mem_map.1 hp
  exact hchange q (h q hq)

theorem dated_writeDocument {existing : Option DocumentRecord} {w : Uuid}
    {args : ChunksUpsert} {draw : Draw} {now : ℕ} (h : ∀ p ∈ c.points, p.Dated) :
    ∀ p ∈ (writeDocument existing w args draw now c).points, p.Dated := by
  refine dated_addPoints (fun p hp => ?_) ?_
  · -- a new point is hot
    rw [← map_uncurry_zip_eq_zipWith] at hp
    obtain ⟨⟨chunk, pointId⟩, -, rfl⟩ := mem_map.1 hp
    rintro ⟨⟩
  · cases existing with
    | none => exact h
    | some record =>
      refine dated_map (fun p hp => ?_) h
      split
      · exact hp
      · exact hp

theorem dated_markPoint (w : Uuid) (cutoff : ℕ) (p : Point) (hp : p.Dated) :
    (markPoint w cutoff p).Dated := by
  rw [markPoint]
  split
  · exact fun _ => rfl
  · exact hp

theorem dated_apply {settings : RetentionSettings} (op : RetentionOp) (h : ∀ p ∈ c.points, p.Dated) :
    ∀ p ∈ (op.apply settings c).points, p.Dated := by
  cases op with
  | upsert u =>
    rw [RetentionOp.apply, Upsert.apply]
    split
    · rename_i c' hc'
      cases hws : extractWorkspaceId u.args.metadata with
      | error e =>
        simp only [upsertChunks, hws] at hc'
        cases hc'
      | ok w =>
        obtain ⟨-, rfl⟩ | ⟨-, rfl⟩ := upsertChunks_cases hws hc'
        · exact h
        · exact dated_writeDocument h
    · exact h
  | tombstone w sourceId externalId now =>
    rw [RetentionOp.apply, deleteByDocument]
    split
    · exact h
    · split
      · exact h
      · refine dated_map (fun p hp => ?_) h
        split
        · exact hp
        · exact hp
  | retention run =>
    rw [RetentionOp.apply, RetentionRun.apply]
    split
    · exact h
    · rw [points_archive]
      intro p hp
      exact dated_map (dated_markPoint _ _) h p (mem_filter.1 hp).1

theorem dated_history (ops : List RetentionOp) : ∀ p ∈ (history settings ops).points, p.Dated := by
  induction ops using List.reverseRecOn with
  | nil => exact fun p hp => absurd hp not_mem_nil
  | append_singleton ops op ih =>
    rw [history_concat]
    exact dated_apply op ih

/-- **A history evicts only closed points iff none of its runs archives the day of a live point**
that is warm or old enough to become so. -/
theorem evicts_closed_iff (settings : RetentionSettings) (ops : List RetentionOp) :
    (∀ before run, before ++ [.retention run] <+: ops →
        ∀ p ∈ (history settings before).points,
          Evicted p (history settings (before ++ [.retention run])) → p.isClosed = true) ↔
      ∀ before run, before ++ [.retention run] <+: ops →
        ∀ p ∈ (history settings before).points, p.isClosed = false → ¬ Due settings run p := by
  refine forall₃_congr fun before run _ => forall₂_congr fun p hp => ?_
  rw [history_concat, RetentionOp.apply, evicted_iff_due (dated_history settings before) hp,
    ← Bool.not_eq_true]
  exact not_imp_not.symm

/-- The default boundaries. -/
def defaultRetention : RetentionSettings := { hotDays := 90, warmDays := 365 }

/-- A run after `days` days, with a snapshot of the first day in the graph. -/
def runAfter (days : ℕ) : RetentionRun where
  workspaceId := 7
  now := days * microsecondsPerDay
  warmDates := [0]

theorem history_page :
    ∃ p : Point, (history defaultRetention [.upsert (page "a" 1 10)]).points = [p] ∧
      p.workspaceId = 7 ∧ p.recordedAt = some 0 ∧ p.isWarm = false ∧ p.isClosed = false :=
  ⟨_, (points_page 1).1, rfl, rfl, rfl, rfl⟩

/-- A page that was written a year and a day ago and has not changed since is deleted. -/
theorem live_page_evicted :
    ¬ ∀ (settings : RetentionSettings) (ops before : List RetentionOp) (run : RetentionRun),
      before ++ [.retention run] <+: ops → ∀ p ∈ (history settings before).points,
        Evicted p (history settings (before ++ [.retention run])) → p.isClosed = true := by
  intro h
  obtain ⟨p, hpoints, hws, hrecorded, -, hlive⟩ := history_page
  have hp : p ∈ (history defaultRetention [.upsert (page "a" 1 10)]).points :=
    hpoints ▸ mem_singleton_self p
  have hdue : Due defaultRetention (runAfter 366) p := by
    refine ⟨hws, .inr ⟨0, hrecorded, by decide⟩, 0, by decide, ?_⟩
    rw [hrecorded]
    rfl
  have hclosed := h defaultRetention _ [.upsert (page "a" 1 10)] (runAfter 366)
    (prefix_refl _) p hp ?_
  · rw [hlive] at hclosed
    cases hclosed
  · rw [history_concat, RetentionOp.apply]
    exact (evicted_iff_due (dated_history _ _) hp).2 hdue

end Omniscience.Qdrant
