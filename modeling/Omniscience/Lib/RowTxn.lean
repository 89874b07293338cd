import Mathlib.Data.Fintype.Card

/-!
# Transactions on one row

Clients run one transaction each on one row of a database under read-committed isolation.  A
transaction reads the row, decides from what it read on a result and on a statement, executes the
statement, and ends.  A read may take the lock of the row (`SELECT ... FOR UPDATE`), a statement
always does and waits for the client that holds it; it works on the row as it is then, not on the
row that was read.  What a client has written is seen by the others once it ends.

* `Run.serial` : in a run in which nobody reads while another client is under way, the log is that
  of the transactions executed one after the other.
* `Run.pair` : in a complete run of two clients the log is that of the transactions executed one
  after the other, or both clients decided from the row at the start.
-/

namespace Omniscience.RowTxn

open Function List

/-- One transaction. -/
structure Txn (Row Result : Type*) where
  /-- The read takes the lock of the row. -/
  locks : Row → Bool
  /-- The result and the statement that a client decides on when it has read the row.  Without a
  statement the transaction is rolled back. -/
  plan : Row → Result × Option (Row → Row)

/-- What a client does next. -/
inductive Action where
  | read
  | write
  | finish
  deriving DecidableEq, Repr

/-- How far a client is. -/
inductive Phase (Row Result : Type*) where
  | idle
  | planned (plan : Result × Option (Row → Row))
  | written (result : Result) (row : Row)
  | returned (result : Result)

/-- The database. -/
structure Db (ι Row Result : Type*) where
  row : Row
  holder : Option ι
  phase : ι → Phase Row Result
  /-- The clients that have ended, each with its result and the row after its end. -/
  log : List (ι × Result × Row)

variable {ι Row Result : Type*}

/-- Nobody has started. -/
def Db.init (row : Row) : Db ι Row Result := ⟨row, none, fun _ => .idle, []⟩

/-- The row that a plan leaves. -/
def apply (plan : Result × Option (Row → Row)) (row : Row) : Row :=
  match plan.2 with
  | none => row
  | some stmt => stmt row

/-- The log of transactions that run one after the other. -/
def trace (txn : ι → Txn Row Result) : Row → List ι → List (ι × Result × Row)
  | _, [] => []
  | row, i :: order =>
    let plan := (txn i).plan row
    (i, plan.1, apply plan row) :: trace txn (apply plan row) order

/-- The row after transactions that run one after the other. -/
def final (txn : ι → Txn Row Result) (row : Row) (order : List ι) : Row :=
  order.foldl (fun row i => apply ((txn i).plan row) row) row

/-- Nobody reads while another client is under way. -/
def Serial (events : List (ι × Action)) : Prop :=
  ∀ before i, before ++ [(i, .read)] <+: events →
    ∀ j, (j, Action.read) ∈ before → (j, Action.finish) ∈ before

theorem serial_nil : Serial ([] : List (ι × Action)) := by
  intro before i h
  simp at h

theorem serial_concat_iff {events : List (ι × Action)} {event : ι × Action} :
    Serial (events ++ [event]) ↔ Serial events ∧ ∀ i, event = (i, .read) →
      ∀ j, (j, Action.read) ∈ events → (j, Action.finish) ∈ events := by
  constructor
  · intro h
    refine ⟨fun before i hb => h before i (hb.trans (prefix_append _ _)), ?_⟩
    rintro i rfl
    exact h events i prefix_rfl
  · rintro ⟨h, hlast⟩ before i hb
    obtain hb | hb := prefix_concat_iff.1 hb
    · obtain ⟨rfl, he⟩ := append_inj' hb rfl
      exact hlast i (singleton_inj.1 he).symm
    · exact h before i hb

/-- The clients in the order in which they end. -/
def ends (events : List (ι × Action)) : List ι :=
  (events.filter fun e => decide (e.2 = .finish)).map Prod.fst

theorem mem_ends_iff {events : List (ι × Action)} {i : ι} :
    i ∈ ends events ↔ (i, Action.finish) ∈ events := by
  simp [ends]

variable (txn : ι → Txn Row Result)

theorem map_fst_trace (row : Row) (order : List ι) :
    (trace txn row order).map Prod.fst = order := by
  induction order generalizing row with
  | nil => rfl
  | cons i order ih => simp [trace, ih]

theorem trace_concat (row : Row) (order : List ι) (i : ι) :
    trace txn row (order ++ [i]) = trace txn row order ++
      [(i, ((txn i).plan (final txn row order)).1,
        apply ((txn i).plan (final txn row order)) (final txn row order))] := by
  induction order generalizing row with
  | nil => rfl
  | cons j order ih => simp [trace, ih, final]

theorem final_concat (row : Row) (order : List ι) (i : ι) : final txn row (order ++ [i]) =
      apply ((txn i).plan (final txn row order)) (final txn row order) := by
  simp [final]

section Step

variable [DecidableEq ι] (txn : ι → Txn Row Result)

/-- The client ends with this row committed. -/
def Db.close (db : Db ι Row Result) (i : ι) (result : Result) (row : Row) : Db ι Row Result :=
  { row
    holder := if db.holder = some i then none else db.holder
    phase := update db.phase i (.returned result)
    log := db.log ++ [(i, result, row)] }

/-- A client takes its next step; `none` when that is not its next step, or when it has to wait
for the lock. -/
def step (db : Db ι Row Result) : ι × Action → Option (Db ι Row Result)
  | (i, .read) =>
    match db.phase i with
    | .idle =>
      let phase := update db.phase i (.planned ((txn i).plan db.row))
      if (txn i).locks db.row then
        if db.holder = none then some { db with holder := some i, phase } else none
      else some { db with phase }
    | _ => none
  | (i, .write) =>
    match db.phase i with
    | .planned (result, some stmt) =>
      if db.holder = none ∨ db.holder = some i then
        some { db with
          holder := some i
          phase := update db.phase i (.written result (stmt db.row)) }
      else none
    | _ => none
  | (i, .finish) =>
    match db.phase i with
    | .planned (result, none) => some (db.close i result db.row)
    | .written result row => some (db.close i result row)
    | _ => none

/-- The events of a run from the row, and the database after it. -/
inductive Run (row : Row) : List (ι × Action) → Db ι Row Result → Prop where
  | nil : Run row [] (Db.init row)
  | concat {events db event db'} :
      Run row events db → step txn db event = some db' → Run row (events ++ [event]) db'

theorem Run.of_foldlM {row : Row} {events : List (ι × Action)} {db : Db ι Row Result}
    (h : events.foldlM (step txn) (Db.init row) = some db) : Run txn row events db := by
  induction events using List.reverseRecOn generalizing db with
  | nil => exact Option.some.inj h ▸ .nil
  | append_singleton events event ih =>
    rw [foldlM_append, Option.bind_eq_bind, Option.bind_eq_some_iff] at h
    obtain ⟨db', hdb', hstep⟩ := h
    exact .concat (ih hdb') (by simpa using hstep)

/-- Every client has ended. -/
def Db.Complete (db : Db ι Row Result) : Prop := ∀ i, ∃ result, db.phase i = .returned result

end Step

/-! ### Steps -/

section Inversion

variable [DecidableEq ι] {txn : ι → Txn Row Result} {db db' : Db ι Row Result}
  {event : ι × Action} {i j : ι} {result : Result} {row : Row}

@[simp] theorem close_row : (db.close i result row).row = row := rfl

@[simp] theorem close_log : (db.close i result row).log = db.log ++ [(i, result, row)] := rfl

@[simp] theorem close_phase :
    (db.close i result row).phase = update db.phase i (.returned result) :=
  rfl

theorem close_holder_of_ne (h : j ≠ i) :
    (db.close i result row).holder = some j ↔ db.holder = some j := by
  unfold Db.close
  by_cases hi : db.holder = some i
  · simp [hi, h.symm]
  · simp [hi]

theorem step_cases (h : step txn db event = some db') :
    (∃ i holder, event = (i, .read) ∧ db.phase i = .idle ∧
      (holder = db.holder ∨ db.holder = none ∧ holder = some i) ∧
      db' = { db with
        holder
        phase := update db.phase i (.planned ((txn i).plan db.row)) }) ∨
    (∃ i result stmt, event = (i, .write) ∧ db.phase i = .planned (result, some stmt) ∧
      (db.holder = none ∨ db.holder = some i) ∧
      db' = { db with
        holder := some i
        phase := update db.phase i (.written result (stmt db.row)) }) ∨
    (∃ i result, event = (i, .finish) ∧ db.phase i = .planned (result, none) ∧
      db' = db.close i result db.row) ∨
    (∃ i result row, event = (i, .finish) ∧ db.phase i = .written result row ∧
      db' = db.close i result row) := by
  obtain ⟨i, action⟩ := event
  cases action with
  | read =>
    left
    simp only [step] at h
    split at h
    case h_1 hphase =>
      split_ifs at h with hlocks hholder
      · exact ⟨i, some i, rfl, hphase, .inr ⟨hholder, rfl⟩, (Option.some.inj h).symm⟩
      · exact ⟨i, db.holder, rfl, hphase, .inl rfl, (Option.some.inj h).symm⟩
    case h_2 => cases h
  | write =>
    right; left
    simp only [step] at h
    split at h
    case h_1 result stmt hphase =>
      split_ifs at h with hholder
      exact ⟨i, result, stmt, rfl, hphase, hholder, (Option.some.inj h).symm⟩
    case h_2 => cases h
  | finish =>
    right; right
    simp only [step] at h
    split at h
    case h_1 result hphase => exact .inl ⟨i, result, rfl, hphase, (Option.some.inj h).symm⟩
    case h_2 result row hphase =>
      exact .inr ⟨i, result, row, rfl, hphase, (Option.some.inj h).symm⟩
    case h_3 => cases h

/-- The client has read and decided, and has executed its statement on the row or not yet. -/
def Pending (plan : Result × Option (Row → Row)) (row : Row) (phase : Phase Row Result) : Prop :=
  phase = .planned plan ∨ ∃ stmt, plan.2 = some stmt ∧ phase = .written plan.1 (stmt row)

variable {plan : Result × Option (Row → Row)}

theorem Pending.ne_idle {phase : Phase Row Result} (h : Pending plan row phase) :
    phase ≠ .idle := by
  obtain rfl | ⟨stmt, -, rfl⟩ := h <;> simp

theorem Pending.ne_returned {phase : Phase Row Result} (h : Pending plan row phase) :
    phase ≠ .returned result := by
  obtain rfl | ⟨stmt, -, rfl⟩ := h <;> simp

theorem Pending.step_finish (h : Pending plan db.row (db.phase i))
    (hstep : step txn db (i, .finish) = some db') :
    db' = db.close i plan.1 (apply plan db.row) := by
  obtain hphase | ⟨stmt, hstmt, hphase⟩ := h
  · obtain ⟨result, _ | stmt⟩ := plan
    · simpa [step, hphase, apply] using hstep.symm
    · simp [step, hphase] at hstep
  · simpa [step, hphase, apply, hstmt] using hstep.symm

theorem Pending.step_write (h : Pending plan db.row (db.phase i))
    (hstep : step txn db (i, .write) = some db') :
    ∃ phase, Pending plan db.row phase ∧
      db' = { db with holder := some i, phase := update db.phase i phase } := by
  obtain hphase | ⟨stmt, hstmt, hphase⟩ := h
  · obtain ⟨result, _ | stmt⟩ := plan
    · simp [step, hphase] at hstep
    · refine ⟨.written result (stmt db.row), .inr ⟨stmt, rfl, rfl⟩, ?_⟩
      simp only [step, hphase, Option.ite_none_right_eq_some, Option.some.injEq] at hstep
      exact hstep.2.symm
  · simp [step, hphase] at hstep

theorem step_read (hstep : step txn db (i, .read) = some db') :
    db.phase i = .idle ∧ db'.row = db.row ∧ db'.log = db.log ∧
      db'.phase = update db.phase i (.planned ((txn i).plan db.row)) := by
  obtain ⟨j, holder, he, hphase, -, rfl⟩ | ⟨j, _, _, he, -⟩ | ⟨j, _, he, -⟩ | ⟨j, _, _, he, -⟩ :=
    step_cases hstep
  · cases he
    exact ⟨hphase, rfl, rfl, rfl⟩
  all_goals cases he

theorem ne_idle_of_step {action : Action} (ha : action ≠ .read)
    (hstep : step txn db (i, action) = some db') : db.phase i ≠ .idle := by
  intro hidle
  cases action <;> simp [step, hidle] at ha hstep

theorem ne_returned_of_step {action : Action} {result : Result}
    (hstep : step txn db (i, action) = some db') : db.phase i ≠ .returned result := by
  intro hreturned
  cases action <;> simp [step, hreturned] at hstep

end Inversion

/-! ### Runs -/

section Runs

variable [DecidableEq ι] {txn : ι → Txn Row Result} {db db' : Db ι Row Result}
  {events : List (ι × Action)} {event : ι × Action} {i j : ι} {row : Row}

theorem Run.holder_of_written (h : Run txn row events db) {result : Result} {r : Row}
    (hphase : db.phase i = .written result r) : db.holder = some i := by
  induction h generalizing i result r with
  | nil => cases hphase
  | @concat events db event db' _ hstep ih =>
    obtain ⟨k, holder, -, -, hholder, rfl⟩ | ⟨k, res, stmt, -, -, hholder, rfl⟩ |
      ⟨k, res, -, -, rfl⟩ | ⟨k, res, r', -, -, rfl⟩ := step_cases hstep
    · -- a read takes the lock only when nobody holds it, so nobody has written then
      have hik : i ≠ k := by rintro rfl; simp at hphase
      simp only [update_of_ne hik] at hphase
      obtain rfl | ⟨hnone, -⟩ := hholder
      · exact ih hphase
      · rw [ih hphase] at hnone
        cases hnone
    · by_cases hik : i = k
      · rw [hik]
      · simp only [update_of_ne hik] at hphase
        obtain hnone | hsome := hholder
        · rw [ih hphase] at hnone
          cases hnone
        · rw [ih hphase] at hsome
          exact absurd (Option.some.inj hsome) hik
    all_goals
      have hik : i ≠ k := by rintro rfl; simp at hphase
      rw [close_phase, update_of_ne hik] at hphase
      exact (close_holder_of_ne hik).2 (ih hphase)

theorem Run.idle_iff (h : Run txn row events db) :
    db.phase i = .idle ↔ (i, Action.read) ∉ events := by
  induction h with
  | nil => simp [Db.init]
  | @concat events db event db' _ hstep ih =>
    rw [mem_append, not_or, ← ih, mem_singleton]
    obtain ⟨k, holder, rfl, hk, -, rfl⟩ | ⟨k, res, stmt, rfl, hk, -, rfl⟩ |
      ⟨k, res, rfl, hk, rfl⟩ | ⟨k, res, r', rfl, hk, rfl⟩ := step_cases hstep
    all_goals
      by_cases hik : i = k
      · subst hik
        simp [hk]
      · simp [hik]

theorem Run.hasReturned_iff (h : Run txn row events db) :
    (∃ result, db.phase i = .returned result) ↔ (i, Action.finish) ∈ events := by
  induction h with
  | nil => simp [Db.init]
  | @concat events db event db' _ hstep ih =>
    rw [mem_append, ← ih, mem_singleton]
    obtain ⟨k, holder, rfl, hk, -, rfl⟩ | ⟨k, res, stmt, rfl, hk, -, rfl⟩ |
      ⟨k, res, rfl, hk, rfl⟩ | ⟨k, res, r', rfl, hk, rfl⟩ := step_cases hstep
    all_goals
      by_cases hik : i = k
      · subst hik
        simp [hk]
      · simp [hik]

theorem Run.map_fst_log (h : Run txn row events db) : db.log.map Prod.fst = ends events := by
  induction h with
  | nil => rfl
  | @concat events db event db' _ hstep ih =>
    obtain ⟨k, _, rfl, -, -, rfl⟩ | ⟨k, _, _, rfl, -, -, rfl⟩ | ⟨k, _, rfl, -, rfl⟩ |
      ⟨k, _, _, rfl, -, rfl⟩ := step_cases hstep
    all_goals simp [ends, ih]

theorem Run.nodup_ends (h : Run txn row events db) : (ends events).Nodup := by
  induction h with
  | nil => exact nodup_nil
  | @concat events db event db' hrun hstep ih =>
    obtain ⟨k, action⟩ := event
    cases action with
    | finish =>
      have hnot : k ∉ ends events := fun hk => ne_returned_of_step hstep
        (hrun.hasReturned_iff.2 (mem_ends_iff.1 hk)).choose_spec
      have hconcat := (nodup_concat (ends events) k).2 ⟨hnot, ih⟩
      simpa [ends] using hconcat
    | read => simpa [ends] using ih
    | write => simpa [ends] using ih

theorem Run.length_log [Fintype ι] (h : Run txn row events db) (hcomplete : db.Complete) :
    db.log.length = Fintype.card ι := by
  have huniv : (ends events).toFinset = Finset.univ := by
    ext i
    simpa [mem_ends_iff] using h.hasReturned_iff.1 (hcomplete i)
  rw [← length_map Prod.fst, h.map_fst_log, ← toFinset_card_of_nodup h.nodup_ends,
    huniv, Finset.card_univ]

/-! ### Serial runs -/

/-- The client has not started, or it has ended. -/
def Resting (phase : Phase Row Result) : Prop := phase = .idle ∨ ∃ result, phase = .returned result

/-- The transactions of `order` have run one after the other, and at most one more is under way. -/
structure InOrder (txn : ι → Txn Row Result) (row : Row) (db : Db ι Row Result) (order : List ι) :
    Prop where
  log : db.log = trace txn row order
  row_eq : db.row = final txn row order
  underway : ∀ i, Resting (db.phase i) ∨
    Pending ((txn i).plan db.row) db.row (db.phase i) ∧ ∀ j, j ≠ i → Resting (db.phase j)

omit [DecidableEq ι] in
variable {order : List ι}

theorem InOrder.pending (h : InOrder txn row db order) (hi : ¬ Resting (db.phase i)) :
    Pending ((txn i).plan db.row) db.row (db.phase i) ∧ ∀ j, j ≠ i → Resting (db.phase j) :=
  (h.underway i).resolve_left hi

theorem InOrder.read (h : InOrder txn row db order) (hrest : ∀ j, Resting (db.phase j))
    (hstep : step txn db (i, .read) = some db') : InOrder txn row db' order := by
  obtain ⟨-, hrow, hlog, hphase⟩ := step_read hstep
  refine ⟨hlog.trans h.log, hrow.trans h.row_eq, fun j => ?_⟩
  by_cases hji : j = i
  · subst hji
    refine .inr ⟨.inl (by simp [hphase, hrow]), fun k hk => ?_⟩
    rw [hphase, update_of_ne hk]
    exact hrest k
  · left
    rw [hphase, update_of_ne hji]
    exact hrest j

theorem InOrder.write (h : InOrder txn row db order) (hi : ¬ Resting (db.phase i))
    (hstep : step txn db (i, .write) = some db') : InOrder txn row db' order := by
  obtain ⟨hpending, hrest⟩ := h.pending hi
  obtain ⟨phase, hphase, rfl⟩ := hpending.step_write hstep
  refine ⟨h.log, h.row_eq, fun j => ?_⟩
  by_cases hji : j = i
  · subst hji
    refine .inr ⟨by simpa using hphase, fun k hk => ?_⟩
    simpa only [update_of_ne hk] using hrest k hk
  · left
    simpa only [update_of_ne hji] using hrest j hji

theorem InOrder.finish (h : InOrder txn row db order) (hi : ¬ Resting (db.phase i))
    (hstep : step txn db (i, .finish) = some db') : InOrder txn row db' (order ++ [i]) := by
  obtain ⟨hpending, hrest⟩ := h.pending hi
  obtain rfl := hpending.step_finish hstep
  refine ⟨?_, ?_, fun j => .inl ?_⟩
  · rw [close_log, trace_concat, ← h.log, ← h.row_eq]
  · rw [close_row, final_concat, ← h.row_eq]
  · rw [close_phase]
    by_cases hji : j = i
    · subst hji
      exact .inr ⟨_, update_self ..⟩
    · rw [update_of_ne hji]
      exact hrest j hji

theorem Run.serial (h : Run txn row events db) (hs : Serial events) :
    ∃ order, InOrder txn row db order := by
  induction h with
  | nil => exact ⟨[], rfl, rfl, fun _ => .inl (.inl rfl)⟩
  | @concat events db event db' hrun hstep ih =>
    obtain ⟨hs, hread⟩ := serial_concat_iff.1 hs
    obtain ⟨order, horder⟩ := ih hs
    obtain ⟨k, holder, rfl, -⟩ | ⟨k, res, stmt, rfl, hk, -⟩ | ⟨k, res, rfl, hk, -⟩ |
      ⟨k, res, r', rfl, hk, -⟩ := step_cases hstep
    · refine ⟨order, horder.read (fun j => ?_) hstep⟩
      by_cases hj : (j, Action.read) ∈ events
      · exact .inr (hrun.hasReturned_iff.2 (hread k rfl j hj))
      · exact .inl (hrun.idle_iff.2 hj)
    · exact ⟨order, horder.write (by simp [Resting, hk]) hstep⟩
    all_goals exact ⟨order ++ [k], horder.finish (by simp [Resting, hk]) hstep⟩

/-! ### Two clients -/

/-- The log of two clients that both decided from the row at the start. -/
def crossed (txn : ι → Txn Row Result) (row : Row) (i j : ι) : List (ι × Result × Row) :=
  let first := apply ((txn i).plan row) row
  [(i, ((txn i).plan row).1, first), (j, ((txn j).plan row).1, apply ((txn j).plan row) first)]

/-- How far two clients are: nobody has ended; one has; both have.  Either the run is serial so
far, or both clients have decided from the row at the start. -/
inductive Stage (txn : ι → Txn Row Result) (row : Row) (events : List (ι × Action))
    (db : Db ι Row Result) : Prop where
  | start (hlog : db.log = []) (hrow : db.row = row)
      (hphase : ∀ i, db.phase i = .idle ∨ Pending ((txn i).plan row) row (db.phase i))
      (hcross : Serial events ∨ ∀ i, Pending ((txn i).plan row) row (db.phase i))
  | middle (i j : ι) (hij : i ≠ j) (hreturned : ∃ result, db.phase i = .returned result)
      (hlog : db.log = [(i, ((txn i).plan row).1, apply ((txn i).plan row) row)])
      (hrow : db.row = apply ((txn i).plan row) row)
      (hcross : Serial events ∨ Pending ((txn j).plan row) db.row (db.phase j))
  | done (i j : ι) (hij : i ≠ j) (hreturned : db.Complete)
      (hcross : Serial events ∨ db.log = crossed txn row i j)

omit [DecidableEq ι] in
theorem serial_concat_of_ne (hs : Serial events) (h : ∀ i, event ≠ (i, .read)) :
    Serial (events ++ [event]) :=
  serial_concat_iff.2 ⟨hs, fun i he => absurd he (h i)⟩

theorem Run.pending_of_finish (hrun : Run txn row events db) (hij : i ≠ j)
    {plan : Result × Option (Row → Row)} (hj : Pending plan db.row (db.phase j))
    (hstep : step txn db (i, .finish) = some db') : Pending plan db'.row (db.phase j) := by
  obtain ⟨k, _, he, -⟩ | ⟨k, _, _, he, -⟩ | ⟨k, res, he, hk, rfl⟩ | ⟨k, res, r', he, hk, rfl⟩ :=
    step_cases hstep
  · cases he
  · cases he
  · exact hj
  · cases he
    obtain hj | ⟨stmt, -, hj⟩ := hj
    · exact .inl hj
    · -- both would hold the lock
      have hholder := (hrun.holder_of_written hk).symm.trans (hrun.holder_of_written hj)
      exact absurd (Option.some.inj hholder) hij

theorem Stage.step_start (hrun : Run txn row events db) (hcover : ∀ k, k = i ∨ k = j)
    (hij : i ≠ j) (hlog : db.log = []) (hrow : db.row = row)
    (hphase : ∀ k, db.phase k = .idle ∨ Pending ((txn k).plan row) row (db.phase k))
    (hcross : Serial events ∨ ∀ k, Pending ((txn k).plan row) row (db.phase k))
    {action : Action} (hstep : step txn db (i, action) = some db') :
    Stage txn row (events ++ [(i, action)]) db' := by
  subst hrow
  cases action with
  | read =>
    obtain ⟨hidle, hrow', hlog', hphase'⟩ := step_read hstep
    have hother (k : ι) (hk : k ≠ i) : k = j := (hcover k).resolve_left hk
    refine .start (hlog'.trans hlog) hrow' (fun k => ?_) ?_
    · by_cases hk : k = i
      · subst hk
        exact .inr (.inl (by simp [hphase']))
      · rw [hphase', update_of_ne hk]
        exact hphase k
    · obtain hj | hj := hphase j
      · -- nobody has read before
        have hs : Serial events := hcross.resolve_right fun h => (h i).ne_idle hidle
        refine .inl (serial_concat_iff.2 ⟨hs, fun _ _ k hk => ?_⟩)
        obtain rfl | rfl := hcover k
        · exact absurd hk (hrun.idle_iff.1 hidle)
        · exact absurd hk (hrun.idle_iff.1 hj)
      · refine .inr fun k => ?_
        by_cases hk : k = i
        · subst hk
          exact .inl (by simp [hphase'])
        · rw [hphase', update_of_ne hk, hother k hk]
          exact hj
  | write =>
    have hi := (hphase i).resolve_left (ne_idle_of_step (by simp) hstep)
    obtain ⟨phase, hnew, rfl⟩ := hi.step_write hstep
    have hpending (k : ι) (hk : Pending ((txn k).plan db.row) db.row (db.phase k)) :
        Pending ((txn k).plan db.row) db.row (update db.phase i phase k) := by
      by_cases hki : k = i
      · subst hki
        simpa using hnew
      · simpa only [update_of_ne hki] using hk
    refine .start hlog rfl (fun k => ?_) ?_
    · by_cases hki : k = i
      · subst hki
        exact .inr (hpending k hi)
      · exact (hphase k).imp (fun hk => by simpa only [update_of_ne hki] using hk)
          (hpending k)
    · exact hcross.imp (serial_concat_of_ne · (by simp)) fun h k => hpending k (h k)
  | finish =>
    have hi := (hphase i).resolve_left (ne_idle_of_step (by simp) hstep)
    have hclose := hi.step_finish hstep
    refine .middle i j hij ⟨((txn i).plan db.row).1, by simp [hclose]⟩ (by simp [hclose, hlog])
      (by simp [hclose]) ?_
    refine hcross.imp (serial_concat_of_ne · (by simp)) fun h => ?_
    have hj := hrun.pending_of_finish hij (h j) hstep
    simpa [hclose, update_of_ne hij.symm] using hj

theorem Stage.step_middle (hrun : Run txn row events db) (hcover : ∀ k, k = i ∨ k = j)
    (hij : i ≠ j) (hreturned : ∃ result, db.phase i = .returned result)
    (hlog : db.log = [(i, ((txn i).plan row).1, apply ((txn i).plan row) row)])
    (hrow : db.row = apply ((txn i).plan row) row)
    (hcross : Serial events ∨ Pending ((txn j).plan row) db.row (db.phase j))
    {action : Action} (hstep : step txn db (j, action) = some db') :
    Stage txn row (events ++ [(j, action)]) db' := by
  have hrun' := hrun.concat hstep
  have hreturned' : ∃ result, db'.phase i = .returned result :=
    hrun'.hasReturned_iff.2 (mem_append_left _ (hrun.hasReturned_iff.1 hreturned))
  cases action with
  | read =>
    obtain ⟨hidle, hrow', hlog', hphase'⟩ := step_read hstep
    have hs : Serial events := hcross.resolve_right fun h => h.ne_idle hidle
    refine .middle i j hij hreturned' (hlog'.trans hlog) (hrow'.trans hrow) (.inl ?_)
    refine serial_concat_iff.2 ⟨hs, fun _ _ k hk => ?_⟩
    obtain rfl | rfl := hcover k
    · exact hrun.hasReturned_iff.1 hreturned
    · exact absurd hk (hrun.idle_iff.1 hidle)
  | write =>
    obtain hs | hj := hcross
    · obtain ⟨k, _, he, -⟩ | ⟨k, res, stmt, he, -, -, rfl⟩ | ⟨k, _, he, -⟩ | ⟨k, _, _, he, -⟩ :=
        step_cases hstep
      · cases he
      · exact .middle i j hij hreturned' hlog hrow (.inl (serial_concat_of_ne hs (by simp)))
      all_goals cases he
    · obtain ⟨phase, hnew, rfl⟩ := hj.step_write hstep
      exact .middle i j hij hreturned' hlog hrow (.inr (by simpa using hnew))
  | finish =>
    refine .done i j hij (fun k => ?_) ?_
    · obtain rfl | rfl := hcover k
      · exact hreturned'
      · exact hrun'.hasReturned_iff.2 (by simp)
    · refine hcross.imp (serial_concat_of_ne · (by simp)) fun hj => ?_
      rw [hj.step_finish hstep, close_log, hlog, hrow]
      rfl

theorem Run.stage (h : Run txn row events db) (hij : i ≠ j) (hcover : ∀ k, k = i ∨ k = j) :
    Stage txn row events db := by
  induction h with
  | nil => exact .start rfl rfl (fun _ => .inl rfl) (.inl serial_nil)
  | @concat events db event db' hrun hstep ih =>
    obtain ⟨k, action⟩ := event
    have hother : ∃ l, k ≠ l ∧ ∀ m, m = k ∨ m = l := by
      obtain rfl | rfl := hcover k
      · exact ⟨j, hij, hcover⟩
      · exact ⟨i, hij.symm, fun m => (hcover m).symm⟩
    cases ih with
    | start hlog hrow hphase hcross =>
      obtain ⟨l, hkl, hcover⟩ := hother
      exact Stage.step_start hrun hcover hkl hlog hrow hphase hcross hstep
    | middle a b hab hreturned hlog hrow hcross =>
      have hka : k ≠ a := by
        rintro rfl
        exact ne_returned_of_step hstep hreturned.choose_spec
      have hcover' : ∀ m, m = a ∨ m = b := by
        intro m
        obtain ⟨l, hkl, hcover⟩ := hother
        have ha := (hcover a).resolve_left hka.symm
        subst ha
        have hb := (hcover b).resolve_right hab.symm
        rw [hb]
        exact (hcover m).symm
      obtain rfl := (hcover' k).resolve_left hka
      exact Stage.step_middle hrun hcover' hab hreturned hlog hrow hcross hstep
    | done a b hab hreturned hcross =>
      exact absurd (hreturned k).choose_spec (ne_returned_of_step hstep)

theorem Run.pair (h : Run txn row events db) (hij : i ≠ j) (hcover : ∀ k, k = i ∨ k = j)
    (hcomplete : db.Complete) (hs : ¬ Serial events) :
    db.log = crossed txn row i j ∨ db.log = crossed txn row j i := by
  cases h.stage hij hcover with
  | start hlog hrow hphase hcross =>
    have := (hcross.resolve_left hs) i
    exact absurd (hcomplete i).choose_spec this.ne_returned
  | middle a b hab hreturned hlog hrow hcross =>
    exact absurd (hcomplete b).choose_spec (hcross.resolve_left hs).ne_returned
  | done a b hab hreturned hcross =>
    have hlog := hcross.resolve_left hs
    obtain rfl | rfl := hcover a
    · obtain rfl := (hcover b).resolve_left hab.symm
      exact .inl hlog
    · obtain rfl := (hcover b).resolve_right hab.symm
      exact .inr hlog

end Runs

end Omniscience.RowTxn
