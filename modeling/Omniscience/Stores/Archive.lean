import Mathlib.Logic.Equiv.List
import Omniscience.Lib.CivilDate
import Omniscience.Stores.Retention

/-!
# The archive

The last phase of `RetentionWorker._process_workspace`: the snapshots of a day are fetched, put into
one object of the archive, and deleted.  The name of the object is made of the workspace and the
day.

A day whose snapshots were archived can get new ones, since a state that is closed later goes to the
day that it was recorded on.  The next run archives the day again, and its object replaces the one
with the rows that are gone from the graph.

The tiers carry two records that the code does not have: the rows that the worker has deleted, and
the state in which each object was put.
-/

namespace Omniscience.Cypher

open Qdrant (dayOf microsecondsPerDay archiveDatesPerRun RetentionSettings)
open List

/-! ### Objects -/

/-- A row of a table of the archive: its columns in the order of the schema. -/
abbrev Row := List (Option String)

/-- `metadata_json`. -/
def metadataJson : Option String → String
  | none => "\x7b\x7d"
  | some text => if text = "" then "\x7b\x7d" else text

/-- A row of `_ENTITY_SCHEMA`; `timeText` is the `toString` of the server. -/
def entityRow (timeText : Time → String) (snap : Node) : Row :=
  [snap.id.map Uuid.str, snap.kind, snap.name, snap.displayName, snap.sourceId,
    snap.chunkId.map Uuid.str, snap.validFrom.map timeText, snap.validTo.map timeText,
    snap.recordedAt.map timeText, some (metadataJson snap.metadata)]

/-- A row of `_EDGE_SCHEMA`. -/
def edgeRow (timeText : Time → String) (snap : Node) : Row :=
  [snap.sourceEntityId.map Uuid.str, snap.targetEntityId.map Uuid.str, snap.edgeType, snap.sourceId,
    snap.validFrom.map timeText, snap.validTo.map timeText, snap.recordedAt.map timeText,
    some (metadataJson snap.metadata)]

/-- A number with leading zeros, as `format` writes it. -/
def padded (width n : ℕ) : String :=
  String.ofList (List.replicate (width - (Nat.toDigits 10 n).length) '0' ++ Nat.toDigits 10 n)

/-- The segments of a key. -/
def keySegments (workspaceId : Uuid) (date : CivilDate) : List String :=
  [workspaceId.str, padded 4 date.year, padded 2 date.month, padded 2 date.day, "snapshot.parquet"]

/-- `build_archive_key`. -/
def buildArchiveKey (workspaceId : Uuid) (snapshotDate : ℕ) : String :=
  "/".intercalate (keySegments workspaceId (CivilDate.civilOf snapshotDate))

/-- The parquet writer and reader: a table that was written is read back. -/
structure Parquet where
  write : List Row → List UInt8
  read : List UInt8 → List Row
  read_write : ∀ rows, read (write rows) = rows

/-- The four bytes of a number, the highest first. -/
def toBytes (n : ℕ) : List UInt8 :=
  [UInt8.ofNat (n / 2 ^ 24), UInt8.ofNat (n / 2 ^ 16), UInt8.ofNat (n / 2 ^ 8), UInt8.ofNat n]

/-- `int.from_bytes`. -/
def fromBytes (bytes : List UInt8) : ℕ := bytes.foldl (fun n b => n * 2 ^ 8 + b.toNat) 0

/-- `build_parquet_bytes`; a length that does not fit in four bytes raises. -/
def buildParquetBytes (parquet : Parquet) (entityRows edgeRows : List Row) : Option (List UInt8) :=
  let entities := parquet.write entityRows
  if entities.length < 2 ^ 32 then
    some (toBytes entities.length ++ entities ++ parquet.write edgeRows)
  else none

/-- `split_parquet_bytes`. -/
def splitParquetBytes (blob : List UInt8) : Option (List UInt8 × List UInt8) :=
  if blob.length < 4 then none
  else
    let entitiesLen := fromBytes (blob.take 4)
    if blob.length < 4 + entitiesLen then none
    else some ((blob.drop 4).take entitiesLen, blob.drop (4 + entitiesLen))

/-- The two tables of an object. -/
def readArchive (parquet : Parquet) (blob : List UInt8) : Option (List Row × List Row) :=
  (splitParquetBytes blob).map fun parts => (parquet.read parts.1, parquet.read parts.2)

theorem fromBytes_toBytes {n : ℕ} (h : n < 2 ^ 32) : fromBytes (toBytes n) = n := by
  simp only [fromBytes, toBytes, foldl_cons, foldl_nil, UInt8.toNat_ofNat']
  omega

theorem splitParquetBytes_append {entities edges : List UInt8} (h : entities.length < 2 ^ 32) :
    splitParquetBytes (toBytes entities.length ++ entities ++ edges) = some (entities, edges) := by
  have hheader : (toBytes entities.length).length = 4 := rfl
  have htake : (toBytes entities.length ++ entities ++ edges).take 4 = toBytes entities.length := by
    rw [append_assoc]
    exact take_left' hheader
  have hdrop : (toBytes entities.length ++ entities ++ edges).drop 4 = entities ++ edges := by
    rw [append_assoc]
    exact drop_left' hheader
  have hlen : (toBytes entities.length ++ entities ++ edges).length =
      4 + entities.length + edges.length := by
    rw [length_append, length_append, hheader]
  simp only [splitParquetBytes, htake, fromBytes_toBytes h, ← drop_drop, hdrop, hlen]
  rw [if_neg (by omega), if_neg (by omega), take_left, drop_left]

variable {body : List UInt8}

/-- **The tables of an object are read back.** -/
theorem readArchive_buildParquetBytes {parquet : Parquet} {entityRows edgeRows : List Row}
    (h : buildParquetBytes parquet entityRows edgeRows = some body) :
    readArchive parquet body = some (entityRows, edgeRows) := by
  simp only [buildParquetBytes] at h
  split at h
  · rename_i hlen
    cases h
    rw [readArchive, splitParquetBytes_append hlen, Option.map_some, parquet.read_write,
      parquet.read_write]
  · cases h

/-! ### Keys -/

theorem toList_padded (width n : ℕ) : (padded width n).toList =
    List.replicate (width - (Nat.toDigits 10 n).length) '0' ++ Nat.toDigits 10 n := by
  rw [padded, String.toList_ofList]

theorem padded_injective (width : ℕ) : Function.Injective (padded width) := by
  intro m n h
  have hread : ∀ n : ℕ, Nat.ofDigitChars 10 (padded width n).toList 0 = n := by
    intro n
    rw [toList_padded, Nat.ofDigitChars_append, Nat.ofDigitChars_replicate_zero, Nat.mul_zero,
      Nat.ofDigitChars_ten_toDigits]
  rw [← hread m, h, hread]

theorem slash_notMem_padded (width n : ℕ) : '/' ∉ (padded width n).toList := by
  rw [toList_padded, mem_append, mem_replicate]
  rintro (⟨-, h⟩ | h)
  · exact absurd h (by decide)
  · exact absurd (Nat.isDigit_of_mem_toDigits (by decide) (by decide) h) (by decide)

theorem slash_notMem_str (u : Uuid) : '/' ∉ u.str.toList := by
  intro h
  rcases Uuid.mem_toList_str h with h | ⟨d, hd, h⟩
  · exact absurd h (by decide)
  · revert h
    revert d
    decide

theorem splitOn_keySegments (w : Uuid) (date : CivilDate) :
    ("/".intercalate (keySegments w date)).toList.splitOn '/' =
      (keySegments w date).map String.toList := by
  have hsegments : ∀ s ∈ keySegments w date, '/' ∉ s.toList := by
    intro s hs
    simp only [keySegments, mem_cons, not_mem_nil, or_false] at hs
    rcases hs with h | h | h | h | h
    · exact h ▸ slash_notMem_str w
    · exact h ▸ slash_notMem_padded 4 date.year
    · exact h ▸ slash_notMem_padded 2 date.month
    · exact h ▸ slash_notMem_padded 2 date.day
    · rw [h]
      decide
  have hslash : "/".toList = ['/'] := rfl
  rw [String.toList_intercalate, hslash]
  refine splitOn_intercalate '/' (fun l hl => ?_) (by simp [keySegments])
  obtain ⟨s, hs, rfl⟩ := mem_map.1 hl
  exact hsegments s hs

/-- **The key of an object tells its workspace and its day.** -/
theorem buildArchiveKey_injective {w workspaceId' : Uuid} {day day' : ℕ}
    (h : buildArchiveKey w day = buildArchiveKey workspaceId' day') :
    w = workspaceId' ∧ day = day' := by
  have hsegments := splitOn_keySegments w (CivilDate.civilOf day)
  rw [← buildArchiveKey, h, buildArchiveKey, splitOn_keySegments,
    map_inj_right fun _ _ => String.toList_inj.1] at hsegments
  simp only [keySegments, List.cons.injEq, and_true] at hsegments
  obtain ⟨hws, hyear, hmonth, hday⟩ := hsegments
  refine ⟨(Uuid.str_injective hws).symm, CivilDate.civilOf_injective ?_⟩
  rw [CivilDate.mk.injEq]
  exact ⟨(padded_injective 4 hyear).symm, (padded_injective 2 hmonth).symm,
    (padded_injective 2 hday).symm⟩

/-! ### The worker -/

/-- What the worker is run with: how the server compares and prints times, the parquet library and
the settings. -/
structure Worker where
  engine : Engine
  timeText : Time → String
  parquet : Parquet
  settings : RetentionSettings
  batchSize : ℕ

/-- The object of a day was put into the archive. -/
structure Put where
  workspaceId : Uuid
  snapshotDate : ℕ
  graph : Graph
  deleted : List Node

/-- The graph and the archive.  Two records go along: the snapshots that were deleted, and what each
object was put from. -/
structure Tiers where
  graph : Graph
  objects : Dict String (List UInt8)
  deleted : List Node := []
  puts : List Put := []

variable (worker : Worker)

/-- The tables of a day. -/
def archiveRows (workspaceId : Uuid) (snapshotDate : ℕ) (g : Graph) : List Row × List Row :=
  let fetched := fetchWarmSnapshotRows worker.engine workspaceId snapshotDate g
  (fetched.1.map (entityRow worker.timeText), fetched.2.map (edgeRow worker.timeText))

/-- The rows of a day are fetched and put into their object. -/
def Tiers.putObject (workspaceId : Uuid) (snapshotDate : ℕ) (s : Tiers) : Option Tiers :=
  let rows := archiveRows worker workspaceId snapshotDate s.graph
  (buildParquetBytes worker.parquet rows.1 rows.2).map fun body =>
    { s with
      objects := s.objects.set (buildArchiveKey workspaceId snapshotDate) body
      puts := s.puts ++ [⟨workspaceId, snapshotDate, s.graph, s.deleted⟩] }

/-- The first statement of `delete_warm_snapshot`. -/
def Tiers.deleteEntities (workspaceId : Uuid) (snapshotDate : ℕ) (s : Tiers) : Option Tiers :=
  some { s with
    graph := deleteWarmEntitySnapshot worker.engine workspaceId snapshotDate s.graph
    deleted := s.deleted ++
      (fetchWarmSnapshotRows worker.engine workspaceId snapshotDate s.graph).1 }

/-- The second statement of `delete_warm_snapshot`. -/
def Tiers.deleteRelationships (workspaceId : Uuid) (snapshotDate : ℕ) (s : Tiers) : Option Tiers :=
  (deleteWarmRelationshipSnapshot worker.engine workspaceId snapshotDate s.graph).map fun g =>
    { s with
      graph := g
      deleted := s.deleted ++
        (fetchWarmSnapshotRows worker.engine workspaceId snapshotDate s.graph).2 }

/-- The steps one after the other, of which `calls` come about before one raises; a step can also
raise by itself.  The flag says that none did. -/
def runUntil : List (Tiers → Option Tiers) → ℕ → Tiers → Tiers × Bool
  | [], _, s => (s, true)
  | _ :: _, 0, s => (s, false)
  | step :: steps, calls + 1, s =>
    match step s with
    | none => (s, false)
    | some s' => runUntil steps calls s'

/-- `_archive_one_date`; the last step is `delete_retention_archive` of the vector store, which
changes neither the graph nor the archive. -/
def archiveOneDate (workspaceId : Uuid) (snapshotDate calls : ℕ) (s : Tiers) : Tiers × Bool :=
  runUntil [Tiers.putObject worker workspaceId snapshotDate,
    Tiers.deleteEntities worker workspaceId snapshotDate,
    Tiers.deleteRelationships worker workspaceId snapshotDate, some] calls s

/-- `_archive_dates`: a call that raises ends the run. -/
def archiveDates (workspaceId : Uuid) : List ℕ → List ℕ → Tiers → Tiers × Bool
  | [], _, s => (s, true)
  | date :: dates, calls, s =>
    match archiveOneDate worker workspaceId date (calls.headD 4) s with
    | (s', false) => (s', false)
    | (s', true) => archiveDates workspaceId dates calls.tail s'

/-- A run for a workspace.  `passes` bounds the statements of a batched loop, and `calls` says for
each date how many steps of its archiving come about. -/
structure WorkspaceRun where
  workspaceId : Uuid
  now : ℕ
  markPasses : ℕ
  movePasses : ℕ
  calls : List ℕ := []

/-- `hot_cutoff`. -/
def WorkspaceRun.hotCutoff (run : WorkspaceRun) : ℕ :=
  run.now - worker.settings.hotDays * microsecondsPerDay

/-- `warm_cutoff_date`. -/
def WorkspaceRun.warmCutoffDate (run : WorkspaceRun) : ℕ :=
  dayOf (run.now - worker.settings.warmDays * microsecondsPerDay)

/-- The mark phase and the move phase. -/
def WorkspaceRun.evict (run : WorkspaceRun) (g : Graph) : Graph × Bool :=
  match markHotToWarm worker.engine run.workspaceId (run.hotCutoff worker) worker.batchSize
    run.markPasses g with
  | (marked, false) => (marked, false)
  | (marked, true) =>
    moveHotToWarm worker.engine run.workspaceId worker.batchSize run.movePasses marked

/-- `_process_workspace`: the dates are listed before anything moves. -/
def processWorkspace (run : WorkspaceRun) (s : Tiers) : Tiers × Bool :=
  let dates := listWarmToArchiveDates worker.engine run.workspaceId (run.warmCutoffDate worker)
    archiveDatesPerRun s.graph
  if worker.settings.dryRun then (s, true)
  else
    match run.evict worker s.graph with
    | (g, false) => ({ s with graph := g }, false)
    | (g, true) =>
      if worker.settings.hasBucket then
        archiveDates worker run.workspaceId dates run.calls { s with graph := g }
      else ({ s with graph := g }, true)

/-- What happens to the tiers: anything at all to the graph, or a run. -/
inductive TierEvent where
  | write (g : Graph)
  | process (run : WorkspaceRun)

/-- The tiers after an event. -/
def TierEvent.apply (event : TierEvent) (s : Tiers) : Tiers :=
  match event with
  | .write g => { s with graph := g }
  | .process run => (processWorkspace worker run s).1

/-- The tiers after a history. -/
def tiersAfter (history : List TierEvent) (s : Tiers) : Tiers :=
  history.foldl (fun s event => event.apply worker s) s

/-! ### What is archived -/

/-- The row of the snapshot is one of the tables. -/
def Node.isRowOf (snap : Node) (tables : List Row × List Row) : Prop :=
  if snap.label = .entitySnapshot then entityRow worker.timeText snap ∈ tables.1
  else edgeRow worker.timeText snap ∈ tables.2

/-- The workspace and the day of a snapshot. -/
def Node.archiveKey (snap : Node) : Option (Uuid × ℕ) :=
  match snap.workspaceId, snap.snapshotDate with
  | some workspaceId, some date => some (workspaceId, date.day)
  | _, _ => none

/-- The snapshot is contained in the object under the key of its workspace and day. -/
def IsArchived (objects : Dict String (List UInt8)) (snap : Node) : Prop :=
  ∃ workspaceId day body tables, snap.archiveKey = some (workspaceId, day) ∧
    objects.get? (buildArchiveKey workspaceId day) = some body ∧
    readArchive worker.parquet body = some tables ∧ snap.isRowOf worker tables

/-- Every snapshot that was deleted is archived. -/
def Tiers.IsSafe (s : Tiers) : Prop := ∀ snap ∈ s.deleted, IsArchived worker s.objects snap

/-- The snapshots that were deleted under the key before are in the graph again. -/
def Put.IsComplete (put : Put) : Prop :=
  ∀ snap ∈ put.deleted, snap.archiveKey = some (put.workspaceId, put.snapshotDate) →
    snap.isRowOf worker (archiveRows worker put.workspaceId put.snapshotDate put.graph)

/-- The server takes a time for the text of a day only if it is of that day. -/
def Engine.MatchesDays (engine : Engine) : Prop :=
  ∀ t d, engine.eq t (.dateText d) = true → t.day = d

/-! ### What archiving a day does -/

/-- The day was archived: its object is what the graph had, and only rows of it are gone. -/
structure Archives (workspaceId : Uuid) (date : ℕ) (s s' : Tiers) : Prop where
  object : ∃ body, buildParquetBytes worker.parquet (archiveRows worker workspaceId date s.graph).1
      (archiveRows worker workspaceId date s.graph).2 = some body ∧
    s'.objects = s.objects.set (buildArchiveKey workspaceId date) body
  puts : s'.puts = s.puts ++ [⟨workspaceId, date, s.graph, s.deleted⟩]
  deleted : ∃ gone, s'.deleted = s.deleted ++ gone ∧
    ∀ snap ∈ gone, snap ∈ (fetchWarmSnapshotRows worker.engine workspaceId date s.graph).1 ∨
      snap ∈ (fetchWarmSnapshotRows worker.engine workspaceId date s.graph).2

variable {worker} {workspaceId w : Uuid} {date : ℕ} {s s' : Tiers}

theorem putObject_spec (h : s.putObject worker w date = some s') :
    Archives worker w date s s' ∧ s'.graph = s.graph ∧ s'.deleted = s.deleted := by
  rw [Tiers.putObject, Option.map_eq_some_iff] at h
  obtain ⟨body, hbody, rfl⟩ := h
  exact ⟨⟨⟨body, hbody, rfl⟩, rfl, [], (append_nil _).symm, by simp⟩, rfl, rfl⟩

theorem fetch_deleteWarmEntitySnapshot {engine : Engine} {g : Graph} {snap : Node}
    (h : snap ∈ (fetchWarmSnapshotRows engine w date
      (deleteWarmEntitySnapshot engine w date g)).2) :
    snap ∈ (fetchWarmSnapshotRows engine w date g).2 := by
  obtain ⟨item, hitem, rfl⟩ := mem_map.1 h
  obtain ⟨hmem, htest⟩ := mem_filter.1 hitem
  exact mem_map.2 ⟨item, mem_filter.2 ⟨(mem_filter.1 hmem).1, htest⟩, rfl⟩

variable (worker w date) in
/-- **What archiving a day does**, wherever it stops. -/
theorem archiveOneDate_cases (calls : ℕ) (s : Tiers) :
    (archiveOneDate worker w date calls s).1 = s ∨
      Archives worker w date s (archiveOneDate worker w date calls s).1 := by
  rw [archiveOneDate]
  cases calls with
  | zero => exact .inl rfl
  | succ calls =>
    rw [runUntil]
    split
    · exact .inl rfl
    · rename_i stored hstored
      right
      obtain ⟨harchives, hgraph, hdeleted⟩ := putObject_spec hstored
      cases calls with
      | zero => exact harchives
      | succ calls =>
        -- the object is there, and what goes on only deletes
        rw [runUntil, Tiers.deleteEntities]
        simp only [hgraph, hdeleted]
        cases calls with
        | zero => exact ⟨harchives.object, harchives.puts, _, rfl, fun snap hsnap => .inl hsnap⟩
        | succ calls =>
          rw [runUntil]
          split
          · exact ⟨harchives.object, harchives.puts, _, rfl, fun snap hsnap => .inl hsnap⟩
          · rename_i s₂ hs₂
            rw [Tiers.deleteRelationships, Option.map_eq_some_iff] at hs₂
            obtain ⟨g, -, rfl⟩ := hs₂
            have hdone : ∀ calls, Archives worker w date s (runUntil [some] calls { stored with
                  graph := g
                  deleted := s.deleted ++ (fetchWarmSnapshotRows worker.engine w date s.graph).1 ++
                    (fetchWarmSnapshotRows worker.engine w date
                      (deleteWarmEntitySnapshot worker.engine w date s.graph)).2 }).1 := by
              intro calls
              have hsame : ∀ t, (runUntil [some] calls t).1 = t := by
                intro t
                cases calls with
                | zero => rfl
                | succ calls => rfl
              rw [hsame]
              refine ⟨harchives.object, harchives.puts, _, append_assoc _ _ _, ?_⟩
              intro snap hsnap
              exact (mem_append.1 hsnap).imp id fetch_deleteWarmEntitySnapshot
            exact hdone calls

/-! ### Safety of a day -/

theorem archiveKey_of_fetched (hengine : worker.engine.MatchesDays) {g : Graph} {snap : Node}
    (h : snap ∈ (fetchWarmSnapshotRows worker.engine w date g).1 ∨
      snap ∈ (fetchWarmSnapshotRows worker.engine w date g).2) :
    snap.archiveKey = some (w, date) ∧
      snap.isRowOf worker (archiveRows worker w date g) := by
  have hkey : ∀ label, snap.isWarmRow worker.engine label w date = true →
      snap.label = label ∧ snap.archiveKey = some (w, date) := by
    intro label hrow
    rw [Node.isWarmRow, Node.isIn, Bool.and_eq_true, Bool.and_eq_true, decide_eq_true_eq,
      decide_eq_true_eq, Option.any_eq_true] at hrow
    obtain ⟨⟨hlabel, hws⟩, t, ht, heq⟩ := hrow
    refine ⟨hlabel, ?_⟩
    rw [Node.archiveKey, hws, ht]
    simp only [hengine t date heq]
  rcases h with h | h
  · obtain ⟨item, hitem, rfl⟩ := mem_map.1 h
    obtain ⟨hlabel, hkey⟩ := hkey .entitySnapshot (mem_filter.1 hitem).2
    refine ⟨hkey, ?_⟩
    rw [Node.isRowOf, if_pos hlabel]
    exact mem_map_of_mem h
  · obtain ⟨item, hitem, rfl⟩ := mem_map.1 h
    obtain ⟨hlabel, hkey⟩ := hkey .relationshipSnapshot (mem_filter.1 hitem).2
    refine ⟨hkey, ?_⟩
    rw [Node.isRowOf, if_neg (by rw [hlabel]; decide)]
    exact mem_map_of_mem h

/-- **A day keeps what is archived** if what was deleted under its key is in the graph again. -/
theorem isSafe_of_archives (hengine : worker.engine.MatchesDays)
    (h : Archives worker workspaceId date s s') (hsafe : s.IsSafe worker)
    (hcomplete : Put.IsComplete worker ⟨workspaceId, date, s.graph, s.deleted⟩) :
    s'.IsSafe worker := by
  obtain ⟨body, hbody, hobjects⟩ := h.object
  obtain ⟨gone, hdeleted, hgone⟩ := h.deleted
  have hnew : ∀ snap : Node, snap.archiveKey = some (workspaceId, date) →
      snap.isRowOf worker (archiveRows worker workspaceId date s.graph) →
      IsArchived worker s'.objects snap := by
    intro snap hkey hrow
    refine ⟨workspaceId, date, body, _, hkey, ?_, readArchive_buildParquetBytes hbody, hrow⟩
    rw [hobjects]
    exact Dict.get?_set_self _ _ _
  intro snap hsnap
  rw [hdeleted] at hsnap
  rcases mem_append.1 hsnap with hsnap | hsnap
  · obtain ⟨w, d, body', tables, hkey, hget, hread, hrow⟩ := hsafe snap hsnap
    by_cases hsame : buildArchiveKey w d = buildArchiveKey workspaceId date
    · -- its object is replaced
      obtain ⟨rfl, rfl⟩ := buildArchiveKey_injective hsame
      exact hnew snap hkey (hcomplete snap hsnap hkey)
    · refine ⟨w, d, body', tables, hkey, ?_, hread, hrow⟩
      rw [hobjects, Dict.get?_set_ne _ _ hsame]
      exact hget
  · obtain ⟨hkey, hrow⟩ := archiveKey_of_fetched hengine (hgone snap hsnap)
    exact hnew snap hkey hrow

/-! ### A run -/

variable (worker) in
/-- The object of the put is in the archive, and what was deleted before it still counts. -/
structure Put.IsStored (put : Put) (s : Tiers) : Prop where
  object : ∃ body,
    buildParquetBytes worker.parquet
        (archiveRows worker put.workspaceId put.snapshotDate put.graph).1
        (archiveRows worker put.workspaceId put.snapshotDate put.graph).2 = some body ∧
      s.objects.get? (buildArchiveKey put.workspaceId put.snapshotDate) = some body
  deleted : put.deleted ⊆ s.deleted

variable (worker) in
/-- The days were archived, or some of them. -/
structure ArchivesAll (workspaceId : Uuid) (dates : List ℕ) (s s' : Tiers) : Prop where
  puts : ∃ new, s'.puts = s.puts ++ new ∧ ∀ put ∈ new, put.workspaceId = workspaceId ∧
    put.snapshotDate ∈ dates ∧ put.IsStored worker s'
  objects : ∀ key, (∀ date ∈ dates, key ≠ buildArchiveKey workspaceId date) →
    s'.objects.get? key = s.objects.get? key
  deleted : s.deleted ⊆ s'.deleted

theorem ArchivesAll.refl (dates : List ℕ) (s : Tiers) : ArchivesAll worker w dates s s :=
  ⟨⟨[], (append_nil _).symm, by simp⟩, fun _ _ => rfl, List.Subset.refl _⟩

theorem archivesAll_singleton (h : Archives worker w date s s') :
    ArchivesAll worker w [date] s s' := by
  obtain ⟨body, hbody, hobjects⟩ := h.object
  obtain ⟨gone, hdeleted, -⟩ := h.deleted
  have hsub : s.deleted ⊆ s'.deleted := by
    rw [hdeleted]
    exact subset_append_left _ _
  refine ⟨⟨_, h.puts, fun put hput => ?_⟩, fun key hkey => ?_, hsub⟩
  · rw [mem_singleton.1 hput]
    refine ⟨rfl, mem_singleton_self date, ⟨body, hbody, ?_⟩, hsub⟩
    rw [hobjects]
    exact Dict.get?_set_self _ _ _
  · rw [hobjects, Dict.get?_set_ne _ _ (hkey date mem_cons_self)]

theorem ArchivesAll.cons {dates : List ℕ} {s'' : Tiers} (hdate : date ∉ dates)
    (h : ArchivesAll worker w [date] s s') (h' : ArchivesAll worker w dates s' s'') :
    ArchivesAll worker w (date :: dates) s s'' := by
  obtain ⟨new, hputs, hnew⟩ := h.puts
  obtain ⟨new', hputs', hnew'⟩ := h'.puts
  refine ⟨⟨new ++ new', by rw [hputs', hputs, append_assoc], fun put hput => ?_⟩,
    fun key hkey => ?_, List.Subset.trans h.deleted h'.deleted⟩
  · rcases mem_append.1 hput with hput | hput
    · obtain ⟨hws, hmem, ⟨body, hbody, hget⟩, hdeleted⟩ := hnew put hput
      have hput : put.snapshotDate = date := mem_singleton.1 hmem
      refine ⟨hws, hput ▸ mem_cons_self, ⟨body, hbody, ?_⟩, List.Subset.trans hdeleted h'.deleted⟩
      rw [h'.objects _ fun d hd hsame => ?_]
      · exact hget
      · exact hdate (hput ▸ (buildArchiveKey_injective hsame).2 ▸ hd)
    · obtain ⟨hws, hmem, hstored⟩ := hnew' put hput
      exact ⟨hws, mem_cons_of_mem _ hmem, hstored⟩
  · rw [h'.objects key fun d hd => hkey d (mem_cons_of_mem _ hd),
      h.objects key fun d hd => hkey d (mem_singleton.1 hd ▸ mem_cons_self)]

variable (worker w date) in
theorem archiveOneDate_spec (calls : ℕ) (s : Tiers) : ArchivesAll worker w [date] s
      (archiveOneDate worker w date calls s).1 := by
  rcases archiveOneDate_cases worker w date calls s with h | h
  · rw [h]
    exact .refl _ _
  · exact archivesAll_singleton h

theorem ArchivesAll.mono {dates dates' : List ℕ} (hsub : dates ⊆ dates')
    (h : ArchivesAll worker w dates s s') :
    ArchivesAll worker w dates' s s' := by
  obtain ⟨new, hputs, hnew⟩ := h.puts
  refine ⟨⟨new, hputs, fun put hput => ?_⟩, fun key hkey => h.objects key fun d hd =>
    hkey d (hsub hd), h.deleted⟩
  obtain ⟨hws, hmem, hstored⟩ := hnew put hput
  exact ⟨hws, hsub hmem, hstored⟩

variable (worker w) in
theorem archiveDates_spec {dates : List ℕ} (hdates : dates.Nodup) (calls : List ℕ) (s : Tiers) :
    ArchivesAll worker w dates s (archiveDates worker w dates calls s).1 := by
  induction dates generalizing calls s with
  | nil => exact .refl _ _
  | cons date dates ih =>
    obtain ⟨hdate, hrest⟩ := nodup_cons.1 hdates
    have hone := archiveOneDate_spec worker w date (calls.headD 4) s
    rw [archiveDates]
    split
    · rename_i s₁ hs₁
      rw [hs₁] at hone
      exact hone.mono (by simp)
    · rename_i s₁ hs₁
      rw [hs₁] at hone
      exact hone.cons hdate (ih hrest calls.tail s₁)

theorem isSafe_archiveDates (hengine : worker.engine.MatchesDays) {dates : List ℕ}
    (hdates : dates.Nodup) (calls : List ℕ) {s : Tiers} (hsafe : s.IsSafe worker)
    (hcomplete : ∀ put ∈ (archiveDates worker w dates calls s).1.puts,
      put.IsComplete worker) :
    (archiveDates worker w dates calls s).1.IsSafe worker := by
  induction dates generalizing calls s with
  | nil => exact hsafe
  | cons date dates ih =>
    obtain ⟨hdate, hrest⟩ := nodup_cons.1 hdates
    have hone : (∀ put ∈ (archiveOneDate worker w date (calls.headD 4) s).1.puts,
        put.IsComplete worker) →
        (archiveOneDate worker w date (calls.headD 4) s).1.IsSafe worker := by
      intro hputs
      rcases archiveOneDate_cases worker w date (calls.headD 4) s with h | h
      · rw [h]
        exact hsafe
      · refine isSafe_of_archives hengine h hsafe (hputs _ ?_)
        rw [h.puts]
        exact mem_append_right _ (mem_singleton_self _)
    rw [archiveDates] at hcomplete ⊢
    split
    · rename_i s₁ hs₁
      rw [hs₁] at hone hcomplete
      exact hone hcomplete
    · rename_i s₁ hs₁
      rw [hs₁] at hone hcomplete
      refine ih hrest calls.tail (hone fun put hput => hcomplete put ?_) hcomplete
      obtain ⟨new, hputs, -⟩ := (archiveDates_spec worker w hrest calls.tail s₁).puts
      rw [hputs]
      exact mem_append_left _ hput

/-! ### Histories -/

theorem nodup_listWarmToArchiveDates (engine : Engine) (w : Uuid)
    (warmCutoffDate limit : ℕ) (g : Graph) :
    (listWarmToArchiveDates engine w warmCutoffDate limit g).Nodup := by
  rw [listWarmToArchiveDates]
  refine List.Nodup.sublist (take_sublist _ _) ?_
  exact (mergeSort_perm _ _).nodup_iff.2 (nodup_dedup _)

variable (worker) in
theorem processWorkspace_cases (run : WorkspaceRun) (s : Tiers) :
    (∃ g, (processWorkspace worker run s).1 = { s with graph := g }) ∨
      ∃ g dates, dates.Nodup ∧ (processWorkspace worker run s).1 =
        (archiveDates worker run.workspaceId dates run.calls { s with graph := g }).1 := by
  simp only [processWorkspace]
  split
  · exact .inl ⟨s.graph, rfl⟩
  · split
    · rename_i g _
      exact .inl ⟨g, rfl⟩
    · rename_i g _
      split
      · exact .inr ⟨g, _, nodup_listWarmToArchiveDates _ _ _ _ _, rfl⟩
      · exact .inl ⟨g, rfl⟩

variable (worker) in
theorem apply_spec (event : TierEvent) (s : Tiers) :
    ∃ new, (event.apply worker s).puts = s.puts ++ new ∧
      ∀ put ∈ new, put.IsStored worker (event.apply worker s) := by
  cases event with
  | write g => exact ⟨[], (append_nil _).symm, by simp⟩
  | process run =>
    rw [TierEvent.apply]
    rcases processWorkspace_cases worker run s with ⟨g, h⟩ | ⟨g, dates, hdates, h⟩
    · rw [h]
      exact ⟨[], (append_nil _).symm, by simp⟩
    · rw [h]
      obtain ⟨new, hputs, hnew⟩ := (archiveDates_spec worker run.workspaceId hdates run.calls
        { s with graph := g }).puts
      exact ⟨new, hputs, fun put hput => (hnew put hput).2.2⟩

theorem isSafe_apply (hengine : worker.engine.MatchesDays) {event : TierEvent} {s : Tiers}
    (hsafe : s.IsSafe worker)
    (hcomplete : ∀ put ∈ (event.apply worker s).puts, put.IsComplete worker) :
    (event.apply worker s).IsSafe worker := by
  cases event with
  | write g => exact hsafe
  | process run =>
    rw [TierEvent.apply] at hcomplete ⊢
    rcases processWorkspace_cases worker run s with ⟨g, h⟩ | ⟨g, dates, hdates, h⟩
    · rw [h]
      exact hsafe
    · rw [h] at hcomplete ⊢
      exact isSafe_archiveDates hengine hdates run.calls hsafe hcomplete

theorem isComplete_of_isSafe {put : Put} (hstored : put.IsStored worker s)
    (hsafe : s.IsSafe worker) : put.IsComplete worker := by
  intro snap hsnap hkey
  obtain ⟨body, hbody, hget⟩ := hstored.object
  obtain ⟨w, d, body', tables, hkey', hget', hread, hrow⟩ := hsafe snap (hstored.deleted hsnap)
  rw [hkey, Option.some.injEq, Prod.mk.injEq] at hkey'
  obtain ⟨rfl, rfl⟩ := hkey'
  rw [hget, Option.some.injEq] at hget'
  subst hget'
  rw [readArchive_buildParquetBytes hbody, Option.some.injEq] at hread
  subst hread
  exact hrow

theorem tiersAfter_concat (history : List TierEvent) (event : TierEvent) (s : Tiers) :
    tiersAfter worker (history ++ [event]) s = event.apply worker (tiersAfter worker history s) :=
  foldl_concat _ _ _ _

/-- The comparison that the statements are written for: by what the times stand for, whether they are
texts or temporal values. -/
def Engine.byValue : Engine where
  lt a b := a.moment < b.moment
  eq a b := a.moment = b.moment

theorem matchesDays_byValue : Engine.byValue.MatchesDays := by
  intro t d h
  have hmoment : t.moment = d * microsecondsPerDay := of_decide_eq_true h
  have hday : ∀ moment, moment = d * microsecondsPerDay → dayOf moment = d := by
    intro moment hmoment
    rw [dayOf, hmoment, Nat.mul_div_cancel _ (by decide)]
  cases t with
  | text moment => exact hday moment hmoment
  | datetime moment => exact hday moment hmoment
  | dateText day => exact Nat.eq_of_mul_eq_mul_right (by decide) hmoment
  | date day => exact Nat.eq_of_mul_eq_mul_right (by decide) hmoment

/-- The number of a table. -/
def tableCode (rows : List Row) : ℕ :=
  Encodable.encode (rows.map (List.map (Option.map fun text => text.toList.map Char.toNat)))

/-- The table of a number. -/
def tableOf (code : ℕ) : List Row :=
  ((Encodable.decode (α := List (List (Option (List ℕ)))) code).getD []).map
    (List.map (Option.map fun codes => String.ofList (codes.map Char.ofNat)))

theorem tableOf_tableCode (rows : List Row) : tableOf (tableCode rows) = rows := by
  rw [tableOf, tableCode, Encodable.encodek, Option.getD_some, map_map]
  simp [Function.comp_def]

/-- A table as so many zeros as its number says; the known ones have the least. -/
def unaryParquet (known : List (List Row)) : Parquet where
  write rows := List.replicate
    (if rows ∈ known then known.idxOf rows else known.length + tableCode rows) 0
  read bytes := known.getD bytes.length (tableOf (bytes.length - known.length))
  read_write := by
    intro rows
    rw [length_replicate]
    split
    · rename_i hrows
      rw [getD_eq_getElem _ _ (idxOf_lt_length_of_mem hrows), getElem_idxOf]
    · rw [getD_eq_default _ _ (Nat.le_add_right _ _), Nat.add_sub_cancel_left, tableOf_tableCode]

theorem buildParquetBytes_of_known {known : List (List Row)} {entityRows : List Row}
    (h : entityRows ∈ known) (hknown : known.length ≤ 2 ^ 32) (edgeRows : List Row) :
    ∃ body, buildParquetBytes (unaryParquet known) entityRows edgeRows = some body := by
  have hlen : ((unaryParquet known).write entityRows).length < 2 ^ 32 := by
    simp only [unaryParquet, length_replicate, if_pos h]
    exact (idxOf_lt_length_of_mem h).trans_le hknown
  exact ⟨_, if_pos hlen⟩

theorem archiveOneDate_eq {g : Graph}
    (hbody : buildParquetBytes worker.parquet (archiveRows worker w date s.graph).1 (archiveRows worker w date s.graph).2 = some body)
    (hdelete : deleteWarmRelationshipSnapshot worker.engine w date (deleteWarmEntitySnapshot worker.engine w date s.graph) = some g)
    :
    archiveOneDate worker w date 4 s =
      ({ graph := g
         objects := s.objects.set (buildArchiveKey w date) body
         deleted := s.deleted ++ (fetchWarmSnapshotRows worker.engine w date s.graph).1 ++
           (fetchWarmSnapshotRows worker.engine w date
             (deleteWarmEntitySnapshot worker.engine w date s.graph)).2
         puts := s.puts ++ [⟨w, date, s.graph, s.deleted⟩] }, true) := by
  simp only [archiveOneDate, runUntil, Tiers.putObject, hbody, Option.map_some,
    Tiers.deleteEntities, Tiers.deleteRelationships, hdelete]

/-- A state of an entity that was recorded on the first day. -/
def firstDayState (validTo : Option Time) : Node where
  label := .entityState
  workspaceId := some 7
  id := some 2
  name := some "b"
  validFrom := some (.datetime 5)
  validTo := validTo
  recordedAt := some (.datetime 5)

/-- The daily snapshot of another entity on that day. -/
def firstDaySnapshot : Node :=
  { (firstDayState (some (.datetime 6))).snapshot 0 with id := some 1, name := some "a" }

/-- The snapshot of the first day is warm, and the state has not ended yet. -/
def warmDay : Graph :=
  (PropertyGraph.empty.create firstDaySnapshot).create (firstDayState none)

/-- The state has ended. -/
def lateClosing : Graph := PropertyGraph.empty.create (firstDayState (some (.datetime 9)))

/-- It has gone to its snapshot. -/
def lateSnapshot : Graph :=
  (lateClosing.create ((firstDayState (some (.datetime 9))).snapshot 0)).detachDelete (· = 1)

/-- A worker on a server that compares times by value. -/
def valueWorker : Worker where
  engine := .byValue
  timeText _ := ""
  parquet := unaryParquet [[entityRow (fun _ => "") firstDaySnapshot],
    [entityRow (fun _ => "") ((firstDayState (some (.datetime 9))).snapshot 0)]]
  settings := { hotDays := 90, warmDays := 365 }
  batchSize := 500

/-- A run on the day 1000. -/
def lateRun : WorkspaceRun where
  workspaceId := 7
  now := 1000 * microsecondsPerDay
  markPasses := 3
  movePasses := 3

/-- The day is archived, the state ends, and its snapshot is archived too. -/
def lateHistory : List TierEvent :=
  [.process lateRun, .write lateClosing, .process lateRun, .process lateRun]

theorem listWarmToArchiveDates_of_days {engine : Engine} {warmCutoffDate day limit : ℕ} {g : Graph}
    (h : (g.nodes.items.filterMap fun item =>
      if item.2.isIn .entitySnapshot w &&
          item.2.snapshotDate.any (engine.lt · (.dateText warmCutoffDate)) then
        item.2.snapshotDate.map Time.day
      else none) = [day]) :
    listWarmToArchiveDates engine w warmCutoffDate (limit + 1) g = [day] := by
  rw [listWarmToArchiveDates, h]
  simp

variable (worker) in
/-- A run that archives one day. -/
theorem processWorkspace_day (run : WorkspaceRun) {g g' g'' : Graph}
    {objects : Dict String (List UInt8)} {deleted entities edges : List Node} {puts : List Put}
    (hsettings : worker.settings.dryRun = false ∧ worker.settings.hasBucket = true)
    (hcalls : run.calls = [])
    (hdates : listWarmToArchiveDates worker.engine run.workspaceId (run.warmCutoffDate worker) archiveDatesPerRun g = [date])
    (hevict : run.evict worker g = (g', true))
    (hbody : buildParquetBytes worker.parquet (archiveRows worker run.workspaceId date g').1 (archiveRows worker run.workspaceId date g').2 = some body)
    (hentities : (fetchWarmSnapshotRows worker.engine run.workspaceId date g').1 = entities)
    (hedges : (fetchWarmSnapshotRows worker.engine run.workspaceId date (deleteWarmEntitySnapshot worker.engine run.workspaceId date g')).2 = edges)
    (hdelete : deleteWarmRelationshipSnapshot worker.engine run.workspaceId date (deleteWarmEntitySnapshot worker.engine run.workspaceId date g') = some g'')
    :
    (processWorkspace worker run ⟨g, objects, deleted, puts⟩).1 =
      ⟨g'', objects.set (buildArchiveKey run.workspaceId date) body, deleted ++ entities ++ edges,
        puts ++ [⟨run.workspaceId, date, g', deleted⟩]⟩ := by
  have hone := archiveOneDate_eq (s := ⟨g', objects, deleted, puts⟩) hbody hdelete
  simp only [processWorkspace, hdates, hevict, hsettings, hcalls, archiveDates, headD_nil,
    hone, hentities, hedges, if_true, Bool.false_eq_true, if_false]

variable (worker) in
theorem processWorkspace_noDay (run : WorkspaceRun) {g g' : Graph}
    {objects : Dict String (List UInt8)} {deleted : List Node} {puts : List Put}
    (hlive : worker.settings.dryRun = false)
    (hdates : listWarmToArchiveDates worker.engine run.workspaceId (run.warmCutoffDate worker)
      archiveDatesPerRun g = [])
    (hevict : run.evict worker g = (g', true)) :
    processWorkspace worker run ⟨g, objects, deleted, puts⟩ =
      (⟨g', objects, deleted, puts⟩, true) := by
  simp only [processWorkspace, hdates, hevict, hlive, archiveDates, ite_self, Bool.false_eq_true,
    if_false]

theorem listWarmToArchiveDates_lateClosing :
    listWarmToArchiveDates .byValue 7 (lateRun.warmCutoffDate valueWorker) archiveDatesPerRun
      lateClosing = [] := by
  have hdays : (lateClosing.nodes.items.filterMap fun item =>
      if item.2.isIn .entitySnapshot 7 && item.2.snapshotDate.any
          (Engine.byValue.lt · (.dateText (lateRun.warmCutoffDate valueWorker))) then
        item.2.snapshotDate.map Time.day
      else none) = [] := rfl
  rw [listWarmToArchiveDates, hdays]
  simp

theorem evict_lateClosing : lateRun.evict valueWorker lateClosing = (lateSnapshot, true) := rfl

theorem processWorkspace_warmDay
    (hbody : buildParquetBytes valueWorker.parquet (archiveRows valueWorker 7 0 warmDay).1 (archiveRows valueWorker 7 0 warmDay).2 = some body)
    :
    (processWorkspace valueWorker lateRun ⟨warmDay, .empty, [], []⟩).1 =
      ⟨warmDay.detachDelete (· = 1), Dict.empty.set (buildArchiveKey 7 0) body,
        [firstDaySnapshot], [⟨7, 0, warmDay, []⟩]⟩ := by
  have hdates : listWarmToArchiveDates .byValue 7 (lateRun.warmCutoffDate valueWorker)
      archiveDatesPerRun warmDay = [0] := listWarmToArchiveDates_of_days rfl
  have hevict : lateRun.evict valueWorker warmDay = (warmDay, true) := rfl
  have hentities : (fetchWarmSnapshotRows .byValue 7 0 warmDay).1 = [firstDaySnapshot] := rfl
  have hedges : (fetchWarmSnapshotRows .byValue 7 0
      (deleteWarmEntitySnapshot .byValue 7 0 warmDay)).2 = [] := rfl
  have hdelete : deleteWarmRelationshipSnapshot .byValue 7 0
      (deleteWarmEntitySnapshot .byValue 7 0 warmDay) = some (warmDay.detachDelete (· = 1)) := rfl
  exact processWorkspace_day valueWorker lateRun ⟨rfl, rfl⟩ rfl hdates hevict hbody hentities hedges
    hdelete

theorem processWorkspace_lateSnapshot {objects : Dict String (List UInt8)} {deleted : List Node}
    {puts : List Put}
    (hbody : buildParquetBytes valueWorker.parquet (archiveRows valueWorker 7 0 lateSnapshot).1 (archiveRows valueWorker 7 0 lateSnapshot).2 = some body)
    :
    (processWorkspace valueWorker lateRun ⟨lateSnapshot, objects, deleted, puts⟩).1 =
      ⟨lateSnapshot.detachDelete (· = 2), objects.set (buildArchiveKey 7 0) body,
        deleted ++ [(firstDayState (some (.datetime 9))).snapshot 0] ++ [],
        puts ++ [⟨7, 0, lateSnapshot, deleted⟩]⟩ := by
  have hdates : listWarmToArchiveDates .byValue 7 (lateRun.warmCutoffDate valueWorker)
      archiveDatesPerRun lateSnapshot = [0] := listWarmToArchiveDates_of_days rfl
  have hevict : lateRun.evict valueWorker lateSnapshot = (lateSnapshot, true) := rfl
  have hentities : (fetchWarmSnapshotRows .byValue 7 0 lateSnapshot).1 =
      [(firstDayState (some (.datetime 9))).snapshot 0] := rfl
  have hedges : (fetchWarmSnapshotRows .byValue 7 0
      (deleteWarmEntitySnapshot .byValue 7 0 lateSnapshot)).2 = [] := rfl
  have hdelete : deleteWarmRelationshipSnapshot .byValue 7 0
      (deleteWarmEntitySnapshot .byValue 7 0 lateSnapshot) =
        some (lateSnapshot.detachDelete (· = 2)) := rfl
  exact processWorkspace_day valueWorker lateRun ⟨rfl, rfl⟩ rfl hdates hevict hbody hentities hedges
    hdelete

theorem tiersAfter_lateHistory : ∃ body,
    buildParquetBytes valueWorker.parquet (archiveRows valueWorker 7 0 lateSnapshot).1
      (archiveRows valueWorker 7 0 lateSnapshot).2 = some body ∧
    (tiersAfter valueWorker lateHistory ⟨warmDay, .empty, [], []⟩).objects.get?
      (buildArchiveKey 7 0) = some body ∧
    firstDaySnapshot ∈ (tiersAfter valueWorker lateHistory ⟨warmDay, .empty, [], []⟩).deleted := by
  obtain ⟨first, hfirst⟩ : ∃ body, buildParquetBytes valueWorker.parquet
      (archiveRows valueWorker 7 0 warmDay).1 (archiveRows valueWorker 7 0 warmDay).2 = some body :=
    buildParquetBytes_of_known mem_cons_self (by decide) _
  obtain ⟨last, hlast⟩ : ∃ body, buildParquetBytes valueWorker.parquet
      (archiveRows valueWorker 7 0 lateSnapshot).1 (archiveRows valueWorker 7 0 lateSnapshot).2 =
        some body :=
    buildParquetBytes_of_known (mem_cons_of_mem _ mem_cons_self) (by decide) _
  have hevents : ∀ s₀ s₁ s₂ s₃ : Tiers, (processWorkspace valueWorker lateRun s₀).1 = s₁ →
      (processWorkspace valueWorker lateRun { s₁ with graph := lateClosing }).1 = s₂ →
      (processWorkspace valueWorker lateRun s₂).1 = s₃ →
      tiersAfter valueWorker lateHistory s₀ = s₃ := by
    rintro s₀ _ _ _ rfl rfl rfl
    rfl
  refine ⟨last, hlast, ?_⟩
  rw [hevents ⟨warmDay, .empty, [], []⟩ _ _ _ (processWorkspace_warmDay hfirst)
    (congrArg Prod.fst (processWorkspace_noDay valueWorker lateRun rfl
      listWarmToArchiveDates_lateClosing evict_lateClosing)) (processWorkspace_lateSnapshot hlast)]
  exact ⟨Dict.get?_set_self _ _ _, mem_cons_self⟩

end Omniscience.Cypher
