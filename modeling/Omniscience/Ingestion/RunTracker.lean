import Mathlib.Algebra.Group.Nat.Defs
import Omniscience.Base.Python
import Omniscience.Lib.RowTxn

/-!
# Counters of an ingestion run

`RunTracker` (`ingestion/run_tracker.py`) counts the documents of a sync in a row of
`ingestion_runs`.  `_increment` opens a session, reads the row (a plain `SELECT`), adds one to the
counter in Python, and writes that number when the session commits; nothing locks the row in
between.  The docstring of the class promises the opposite ("no read-modify-write").

A run here is any interleaving of the statements of `n` increments of one counter of one row.
`RunTracker.counts_all_iff` says exactly when no increment is lost: the increments have to run one
after the other (and the sum has to fit the column).
-/

namespace Omniscience.RunTracker

open RowTxn Function

/-- A column of type `INTEGER` that starts at `0` and is only counted up. -/
abbrev Counter := Fin (2 ^ 31)

/-- The counters of a run. -/
inductive Column where
  | docsNew
  | docsUpdated
  | docsRemoved
  deriving DecidableEq, Repr

/-- A row of `ingestion_runs`: its counters. -/
structure IngestionRun where
  docsNew : Counter
  docsUpdated : Counter
  docsRemoved : Counter
  deriving DecidableEq, Repr

/-- `getattr(run, column)`. -/
def IngestionRun.getattr (run : IngestionRun) : Column → Counter
  | .docsNew => run.docsNew
  | .docsUpdated => run.docsUpdated
  | .docsRemoved => run.docsRemoved

/-- `setattr(run, column, value)`. -/
def IngestionRun.setattr (run : IngestionRun) (value : Counter) : Column → IngestionRun
  | .docsNew => { run with docsNew := value }
  | .docsUpdated => { run with docsUpdated := value }
  | .docsRemoved => { run with docsRemoved := value }

@[simp] theorem getattr_setattr_self (run : IngestionRun) (value : Counter) (column : Column) :
    (run.setattr value column).getattr column = value := by
  cases column <;> rfl

/-- `_increment`.  The row may be missing; the driver refuses a number that does not fit the
column, and the session is rolled back then. -/
def increment (column : Column) : Txn (Option IngestionRun) (Except Exc Unit) where
  locks _ := false
  plan
    | none => (.ok (), none)
    | some run =>
      let current := run.getattr column
      if h : current.val + 1 < 2 ^ 31 then
        -- only the changed column is written
        (.ok (), some (Option.map (·.setattr ⟨current.val + 1, h⟩ column)))
      else (.error ⟨.external, "value out of int32 range"⟩, none)

/-- `record_new`. -/
def recordNew : Txn (Option IngestionRun) (Except Exc Unit) := increment .docsNew

/-- `record_updated`. -/
def recordUpdated : Txn (Option IngestionRun) (Except Exc Unit) := increment .docsUpdated

/-- `record_removed`. -/
def recordRemoved : Txn (Option IngestionRun) (Except Exc Unit) := increment .docsRemoved

/-- The value of the counter. -/
def count (column : Column) (row : Option IngestionRun) : ℕ :=
  (row.map fun run => (run.getattr column).val).getD 0

variable {column : Column} {run : IngestionRun} {row : Option IngestionRun}

@[simp] theorem count_some : count column (some run) = (run.getattr column).val := rfl

theorem count_lt : count column row < 2 ^ 31 := by
  cases row with
  | none => exact Nat.two_pow_pos 31
  | some run => exact (run.getattr column).isLt

theorem plan_cases (column : Column) (run : IngestionRun) :
    ((increment column).plan (some run)).2 = none ∨
      ∃ stmt, ((increment column).plan (some run)).2 = some stmt ∧
        ∀ row, row.isSome → (stmt row).isSome ∧
          count column (stmt row) = (run.getattr column).val + 1 := by
  simp only [increment]
  split
  case isTrue h =>
    refine .inr ⟨_, rfl, fun row hrow => ?_⟩
    obtain ⟨r, rfl⟩ := Option.isSome_iff_exists.1 hrow
    simp
  case isFalse h => exact .inl rfl

/-! ### Increments one after the other -/

theorem apply_increment (column : Column) (run : IngestionRun)
    (h : count column (some run) + 1 < 2 ^ 31) :
    ∃ run', apply ((increment column).plan (some run)) (some run) = some run' ∧
      count column (some run') = count column (some run) + 1 := by
  rw [count_some] at h
  refine ⟨run.setattr ⟨(run.getattr column).val + 1, h⟩ column, ?_, by simp⟩
  simp only [increment, apply, dif_pos h]
  rfl

theorem final_increment {ι : Type} (run : IngestionRun) (order : List ι)
    (h : count column (some run) + order.length < 2 ^ 31) :
    ∃ run', final (fun _ => increment column) (some run) order = some run' ∧
      count column (some run') = count column (some run) + order.length := by
  induction order generalizing run with
  | nil => exact ⟨run, rfl, rfl⟩
  | cons i order ih =>
    rw [List.length_cons] at h ⊢
    obtain ⟨run₁, hrun₁, hcount₁⟩ := apply_increment column run (by omega)
    obtain ⟨run₂, hrun₂, hcount₂⟩ := ih run₁ (by omega)
    refine ⟨run₂, ?_, by omega⟩
    rw [← hrun₂, ← hrun₁]
    rfl

/-! ### Increments that overlap -/

/-- The client is under way and has read this value of the counter. -/
def Reads (column : Column) (value : ℕ) :
    Phase (Option IngestionRun) (Except Exc Unit) → Prop
  | .planned plan => ∃ run, count column (some run) = value ∧
      plan = (increment column).plan (some run)
  | .written _ row => row.isSome ∧ count column row = value + 1
  | _ => False

/-- One client has read a value that is too low by now, two clients are under way at once, or the
counter is too low. -/
def Doomed {n : ℕ} (column : Column) (due : ℕ)
    (db : Db (Fin n) (Option IngestionRun) (Except Exc Unit)) : Prop :=
  count column db.row < due ∨ (∃ i, ∃ r < due, Reads column r (db.phase i)) ∨
    ∃ i j, i ≠ j ∧ (∃ r, Reads column r (db.phase i)) ∧ ∃ r, Reads column r (db.phase j)

/-- The counter is at most `due`, its first value and one for each client that has ended.  A client
that reads `due` does so since the last client has ended, so the counter is `due` then. -/
structure Counted {n : ℕ} (column : Column) (start : ℕ) (events : List (Fin n × Action))
    (db : Db (Fin n) (Option IngestionRun) (Except Exc Unit)) : Prop where
  isSome : db.row.isSome
  le : count column db.row ≤ start + db.log.length
  reads : ∀ i, ¬ Resting (db.phase i) → ∃ r, Reads column r (db.phase i) ∧
    (r = count column db.row ∨ r < start + db.log.length)
  serial : Serial events ∨ Doomed column (start + db.log.length) db

section Overlap

variable {n start : ℕ} {events : List (Fin n × Action)}
  {db db' : Db (Fin n) (Option IngestionRun) (Except Exc Unit)} {i : Fin n}

theorem Reads.not_resting {r : ℕ} {phase : Phase (Option IngestionRun) (Except Exc Unit)}
    (h : Reads column r phase) : ¬ Resting phase := by
  rintro (rfl | ⟨res, rfl⟩) <;> exact h

theorem Counted.read (hrun : Run (fun _ => increment column) row events db)
    (h : Counted column start events db)
    (hstep : step (fun _ => increment column) db (i, .read) = some db') :
    Counted column start (events ++ [(i, .read)]) db' := by
  obtain ⟨hidle, hrow, hlog, hphase⟩ := step_read hstep
  obtain ⟨run, hsome⟩ := Option.isSome_iff_exists.1 h.isSome
  have hi : Reads column (count column db.row) (db'.phase i) := by
    rw [hphase, update_self, hsome]
    exact ⟨run, rfl, rfl⟩
  have hother (j : Fin n) (hj : j ≠ i) : db'.phase j = db.phase j := by
    rw [hphase, update_of_ne hj]
  have hne (j : Fin n) (r : ℕ) (hj : Reads column r (db.phase j)) : j ≠ i := by
    rintro rfl
    exact hj.not_resting (.inl hidle)
  refine ⟨hrow ▸ h.isSome, hrow ▸ hlog ▸ h.le, fun j hj => ?_, ?_⟩
  · rw [hrow, hlog]
    by_cases hji : j = i
    · exact ⟨_, hji ▸ hi, .inl rfl⟩
    · rw [hother j hji] at hj ⊢
      exact h.reads j hj
  · rw [hlog]
    by_cases hrest : ∀ j, Resting (db.phase j)
    · -- nobody else is under way
      refine h.serial.imp (fun hs => serial_concat_iff.2 ⟨hs, fun _ _ j hj => ?_⟩) ?_
      · have hj' := (hrest j).resolve_left (mt hrun.idle_iff.1 (not_not_intro hj))
        exact hrun.hasReturned_iff.1 hj'
      · rintro (hlt | ⟨j, r, -, hj⟩ | ⟨j, k, -, ⟨r, hj⟩, -⟩)
        · exact .inl (hrow ▸ hlt)
        · exact absurd (hrest j) hj.not_resting
        · exact absurd (hrest j) hj.not_resting
    · obtain ⟨j, hj⟩ := not_forall.1 hrest
      obtain ⟨r, hreads, -⟩ := h.reads j hj
      have hji := hne j r hreads
      exact .inr (.inr (.inr ⟨j, i, hji, ⟨r, hother j hji ▸ hreads⟩, _, hi⟩))

theorem Counted.write (h : Counted column start events db)
    (hstep : step (fun _ => increment column) db (i, .write) = some db') :
    Counted column start (events ++ [(i, .write)]) db' := by
  obtain ⟨_, _, he, -⟩ | ⟨k, res, stmt, he, hk, -, rfl⟩ | ⟨_, _, he, -⟩ | ⟨_, _, _, he, -⟩ :=
    step_cases hstep
  · cases he
  · cases he
    have hkeep (r : ℕ) (j : Fin n) (hj : Reads column r (db.phase j)) :
        Reads column r (update db.phase i (.written res (stmt db.row)) j) := by
      by_cases hji : j = i
      · subst hji
        rw [hk] at hj
        obtain ⟨run, rfl, hplan⟩ := hj
        obtain hnone | ⟨stmt', hsome, hstmt⟩ := plan_cases column run
        · rw [← hplan] at hnone
          cases hnone
        · rw [← hplan] at hsome
          cases hsome
          simpa [Reads] using hstmt db.row h.isSome
      · rwa [update_of_ne hji]
    refine ⟨h.isSome, h.le, fun j hj => ?_, ?_⟩
    · have hj' : ¬ Resting (db.phase j) := by
        by_cases hji : j = i
        · simp [Resting, hji, hk]
        · simpa only [update_of_ne hji] using hj
      obtain ⟨r, hr, hle⟩ := h.reads j hj'
      exact ⟨r, hkeep r j hr, hle⟩
    · refine h.serial.imp (serial_concat_of_ne · (by simp)) ?_
      rintro (hlt | ⟨j, r, hr, hj⟩ | ⟨j, k, hjk, ⟨r, hj⟩, r', hk'⟩)
      · exact .inl hlt
      · exact .inr (.inl ⟨j, r, hr, hkeep r j hj⟩)
      · exact .inr (.inr ⟨j, k, hjk, ⟨r, hkeep r j hj⟩, r', hkeep r' k hk'⟩)
  all_goals cases he

theorem Counted.close (h : Counted column start events db) (hi : ¬ Resting (db.phase i))
    {result : Except Exc Unit} {row : Option IngestionRun} (hsome : row.isSome)
    (hvalue : count column row ≤ start + db.log.length ∨
      ∀ r, Reads column r (db.phase i) → count column row = r + 1) :
    Counted column start (events ++ [(i, .finish)]) (db.close i result row) := by
  have hle := h.le
  have hlength : (db.close i result row).log.length = db.log.length + 1 := by simp
  obtain ⟨r, hr, hrle⟩ := h.reads i hi
  have hother (j : Fin n) (hji : j ≠ i) (hj : ¬ Resting (db.phase j)) :
      ∃ r < start + (db.log.length + 1), Reads column r ((db.close i result row).phase j) := by
    obtain ⟨r', hr', hrle'⟩ := h.reads j hj
    refine ⟨r', by omega, ?_⟩
    rwa [close_phase, update_of_ne hji]
  refine ⟨hsome, ?_, fun j hj => ?_, ?_⟩
  · rw [close_row, hlength]
    obtain hvalue | hvalue := hvalue
    · omega
    · have := hvalue r hr
      omega
  · rw [hlength]
    by_cases hji : j = i
    · exact absurd (.inr ⟨result, by simp [hji]⟩) hj
    · rw [close_phase, update_of_ne hji] at hj
      obtain ⟨r', hlt, hr'⟩ := hother j hji hj
      exact ⟨r', hr', .inr hlt⟩
  · refine h.serial.imp (serial_concat_of_ne · (by simp)) fun hdoomed => ?_
    rw [hlength]
    -- a client that has read too little leaves too little
    have hlow (r' : ℕ) (hr' : Reads column r' (db.phase i)) (hlt : r' < start + db.log.length) :
        count column row < start + (db.log.length + 1) := by
      obtain hvalue | hvalue := hvalue
      · omega
      · have := hvalue r' hr'
        omega
    obtain hlt | ⟨j, r', hlt, hj⟩ | ⟨j, k, hjk, ⟨rj, hj⟩, rk, hk⟩ := hdoomed
    · exact .inl (hlow r hr (by omega))
    · by_cases hji : j = i
      · exact .inl (hlow r' (hji ▸ hj) hlt)
      · obtain ⟨r', hlt, hr'⟩ := hother j hji hj.not_resting
        exact .inr (.inl ⟨j, r', hlt, hr'⟩)
    · -- the other of the two has not seen this end
      by_cases hji : j = i
      · obtain ⟨r', hlt, hr'⟩ := hother k (hji ▸ hjk.symm) hk.not_resting
        exact .inr (.inl ⟨k, r', hlt, hr'⟩)
      · obtain ⟨r', hlt, hr'⟩ := hother j hji hj.not_resting
        exact .inr (.inl ⟨j, r', hlt, hr'⟩)

theorem counted_of_run (h : Run (fun _ : Fin n => increment column) (some run) events db) :
    Counted column (count column (some run)) events db := by
  induction h with
  | nil => exact ⟨rfl, le_rfl, fun i hi => absurd (.inl rfl) hi, .inl serial_nil⟩
  | @concat events db event db' hrun hstep ih =>
    obtain ⟨k, holder, rfl, -⟩ | ⟨k, res, stmt, rfl, -⟩ | ⟨k, res, rfl, hk, rfl⟩ |
      ⟨k, res, row, rfl, hk, rfl⟩ := step_cases hstep
    · exact ih.read hrun hstep
    · exact ih.write hstep
    · exact ih.close (by simp [Resting, hk]) ih.isSome (.inl ih.le)
    · have hrest : ¬ Resting (db.phase k) := by simp [Resting, hk]
      have hreads : ∀ r, Reads column r (db.phase k) → row.isSome ∧ count column row = r + 1 := by
        intro r hr
        rwa [hk] at hr
      obtain ⟨r, hr, -⟩ := ih.reads k hrest
      exact ih.close hrest (hreads r hr).1 (.inr fun r hr => (hreads r hr).2)

/-- `n` increments of a counter that run to their end count all `n` documents exactly when they run
one after the other and the sum fits the column. -/
theorem counts_all_iff (h : Run (fun _ : Fin n => increment column) (some run) events db)
    (hcomplete : db.Complete) :
    db.row.map (fun r => (r.getattr column).val) = some ((run.getattr column).val + n) ↔
      Serial events ∧ (run.getattr column).val + n < 2 ^ 31 := by
  have hlength : db.log.length = n := (h.length_log hcomplete).trans (Fintype.card_fin n)
  constructor
  · intro hrow
    have hcount : count column db.row = (run.getattr column).val + n := by simp [count, hrow]
    refine ⟨?_, hcount ▸ count_lt⟩
    refine (counted_of_run h).serial.resolve_right ?_
    rw [hlength, count_some]
    rintro (hlt | ⟨i, r, -, hi⟩ | ⟨i, j, -, ⟨r, hi⟩, -⟩)
    · omega
    · exact hi.not_resting (.inr (hcomplete i))
    · exact hi.not_resting (.inr (hcomplete i))
  · rintro ⟨hs, hfits⟩
    obtain ⟨order, horder⟩ := h.serial hs
    have horderLength : order.length = n := by
      have htrace := congrArg (List.map Prod.fst) horder.log
      rw [map_fst_trace] at htrace
      rw [← htrace, List.length_map, hlength]
    rw [← horderLength] at hfits
    obtain ⟨run', hfinal, hcount⟩ := final_increment run order hfits
    rw [horder.row_eq, hfinal]
    simpa [horderLength] using hcount

/-- Two increments that both read before either writes. -/
def overlapping : List (Fin 2 × Action) :=
  [(0, .read), (1, .read), (0, .write), (0, .finish), (1, .write), (1, .finish)]

/-- Two increments that run one after the other. -/
def oneByOne : List (Fin 2 × Action) :=
  [(0, .read), (0, .write), (0, .finish), (1, .read), (1, .write), (1, .finish)]

/-- A fresh run row loses one of two documents. -/
theorem increment_lost :
    ∃ db, Run (fun _ => increment .docsNew) (some ⟨0, 0, 0⟩) overlapping db ∧ db.Complete ∧
      db.row.map (fun r => (r.getattr .docsNew).val) ≠ some (0 + 2) := by
  have hrun : Run (fun _ : Fin 2 => increment .docsNew) (some ⟨0, 0, 0⟩) overlapping _ :=
    Run.of_foldlM _ rfl
  exact ⟨_, hrun, Fin.forall_fin_two.2 ⟨⟨_, rfl⟩, ⟨_, rfl⟩⟩, by decide⟩

/-- One after the other, two increments of a fresh run row count two documents. -/
theorem counts_all_two :
    ∃ db, Run (fun _ => increment .docsNew) (some ⟨0, 0, 0⟩) oneByOne db ∧ db.Complete ∧
      (db.row.map (fun r => (r.getattr .docsNew).val) = some (0 + 2) ↔
        Serial oneByOne ∧ 0 + 2 < 2 ^ 31) := by
  have hrun : Run (fun _ : Fin 2 => increment .docsNew) (some ⟨0, 0, 0⟩) oneByOne _ :=
    Run.of_foldlM _ rfl
  refine ⟨_, hrun, Fin.forall_fin_two.2 ⟨⟨_, rfl⟩, ⟨_, rfl⟩⟩, counts_all_iff hrun ?_⟩
  exact Fin.forall_fin_two.2 ⟨⟨_, rfl⟩, ⟨_, rfl⟩⟩

end Overlap

end Omniscience.RunTracker
