import Omniscience.Base.Uuid
import Omniscience.Lib.Oldest
import Omniscience.Queue.Consumer

/-!
# The outbox worker

`OutboxWorker` polls the outbox table.  A tick reads the oldest unprocessed rows, publishes what
they hold and marks the rows it is done with.

A row of an unknown type is marked without being published.  A row whose payload does not validate
is left as it is, to be retried, and since it stays among the oldest rows it takes a place in
every later batch: `progress_iff` says that a row is published in every run exactly when the
stuck rows that are not younger leave a place for it.
-/

namespace Omniscience.Outbox

open Queue Coro List

/-! ### The table -/

/-- A row of the outbox table; `createdAt` is the start of the transaction that wrote it, so rows
written together have the same one. -/
structure OutboxEvent where
  id : Uuid
  eventType : String
  payload : Metadata
  entityId : Option Uuid := none
  createdAt : ℕ
  processed : Bool := false

/-- The outbox table. -/
structure OutboxTable where
  rows : List OutboxEvent
  /-- `id` is the primary key. -/
  nodup : (rows.map OutboxEvent.id).Nodup

/-- The rows with `processed = false`. -/
def OutboxTable.unprocessed (table : OutboxTable) : List OutboxEvent :=
  table.rows.filter fun row => !row.processed

/-- Set `processed` on a row, if it is one of `ids`. -/
def OutboxEvent.mark (ids : List Uuid) (row : OutboxEvent) : OutboxEvent :=
  { row with processed := row.processed || decide (row.id ∈ ids) }

/-- Set `processed` on the rows `ids`. -/
def OutboxTable.markProcessed (table : OutboxTable) (ids : List Uuid) : OutboxTable where
  rows := table.rows.map (OutboxEvent.mark ids)
  nodup := by
    rw [map_map]
    exact table.nodup

/-- The row `id` is marked. -/
def OutboxTable.Processed (table : OutboxTable) (id : Uuid) : Prop :=
  ∃ row ∈ table.rows, row.id = id ∧ row.processed = true

/-- What the worker asks the database: the oldest unprocessed rows, and at the end of the
transaction to store the marks. -/
inductive Query where
  | selectUnprocessed (limit : ℕ)
  | commit (processed : List Uuid)

@[reducible] def Query.Resp : Query → Type
  | .selectUnprocessed _ => List OutboxEvent
  | .commit _ => Unit

/-- The connection to the broker, and the table. -/
structure Poll where
  connected : Bool
  table : OutboxTable

/-! ### The worker -/

/-- The configuration of an `OutboxWorker`. -/
structure OutboxWorker where
  py : Py
  pyd : Pydantic
  batchSize : ℕ := 50

namespace OutboxWorker

variable (w : OutboxWorker)

/-- The subject and the payload of a row; `none` for an unknown type. -/
def publication (event : OutboxEvent) : Except Exc (Option (String × Published)) := do
  if event.eventType = "entity.upsert" then
    let payload ← EntityUpsertEvent.modelValidate w.pyd (payloadOf event.payload)
    return some ("outbox.entity.upsert", .entity payload)
  else if event.eventType = "edge.upsert" then
    let payload ← EdgeUpsertEvent.modelValidate w.pyd (payloadOf event.payload)
    return some ("outbox.edge.upsert", .edge payload)
  else if event.eventType = "entity.merge" ∨ event.eventType = "entity.unmerge" then
    let payload ← EntityMergeEvent.modelValidate w.pyd (payloadOf event.payload)
    return some ("outbox." ++ event.eventType, .merge payload)
  else
    return none

/-- One row of a batch; the result says whether it is to be marked. -/
def handle (event : OutboxEvent) : Coro (iface Poll Query.Resp) Bool :=
  tryCatch
    (do
      match ← lift (w.publication event) with
      | none => return true
      | some (subject, payload) =>
        publish w.py w.pyd subject payload
        return true)
    -- a failure is logged, and the row is retried on the next tick
    fun _ => return false

/-- The rows of a batch, one after the other; `processed` are those to be marked. -/
def handleAll (events : List OutboxEvent) : Coro (iface Poll Query.Resp) (List Uuid) :=
  fold (fun processed event => do
    if ← w.handle event then return processed ++ [event.id] else return processed) [] events

/-- `OutboxWorker._tick`. -/
def tick : Coro (iface Poll Query.Resp) Unit := do
  let s ← Coro.get
  if s.connected then
    let events ← Coro.call (S := iface Poll Query.Resp) (.service (.selectUnprocessed w.batchSize))
    if !events.isEmpty then
      let processed ← w.handleAll events
      Coro.call (S := iface Poll Query.Resp) (.service (.commit processed))

/-- The row is of a known type and its payload validates. -/
def Valid (event : OutboxEvent) : Prop :=
  ∃ subject payload, w.publication event = .ok (some (subject, payload))

/-- The row is of a known type and its payload does not validate. -/
def stuck (event : OutboxEvent) : Bool :=
  match w.publication event with
  | .ok _ => false
  | .error _ => true

/-- The broker has accepted what the row holds. -/
def PublishedIn (t : List (Event (iface Poll Query.Resp))) (event : OutboxEvent) : Prop :=
  ∃ subject payload data, w.publication event = .ok (some (subject, payload)) ∧
    publishData w.py w.pyd payload = .ok data ∧ ⟨.publish subject data, .ok ()⟩ ∈ t

end OutboxWorker

/-- The outside of a tick when all is well: the broker accepts, the database commits, and it
answers the query with rows that `selects` allows. -/
def allWell (selects : ℕ → List OutboxEvent → List OutboxEvent → Prop) :
    Contract (iface Poll Query.Resp) where
  yields _ _ _ := True
  resumes _ q s r s' :=
    match q with
    | .service (.selectUnprocessed limit) => s' = s ∧
        ∃ events, r = .ok events ∧ selects limit s.table.unprocessed events
    | .service (.commit ids) => r = .ok () ∧ s' = { s with table := s.table.markProcessed ids }
    | .publish _ _ => r = .ok () ∧ s' = s
    | _ => s' = s

namespace OutboxWorker

/-! ### One tick -/

section

variable {w : OutboxWorker} {event : OutboxEvent}
  {selects : ℕ → List OutboxEvent → List OutboxEvent → Prop}

theorem stuck_eq_false_of_valid (h : w.Valid event) : w.stuck event = false := by
  obtain ⟨subject, payload, h⟩ := h
  rw [stuck, h]

theorem exists_publishData (w : OutboxWorker) (payload : Published) :
    ∃ data, publishData w.py w.pyd payload = .ok data := by
  cases payload with
  | entity e => exact ⟨_, publishData_entity w.py w.pyd e⟩
  | edge e => exact ⟨_, publishData_edge w.py w.pyd e⟩
  | merge e => exact ⟨_, publishData_merge w.py w.pyd e⟩
  | dlq m => exact ⟨_, rfl⟩

/-- The rows of `events` that are to be marked. -/
def handled (w : OutboxWorker) (events : List OutboxEvent) : List Uuid :=
  (events.filter fun event => !w.stuck event).map OutboxEvent.id

theorem wp_handle {t : List (Event (iface Poll Query.Resp))} {s : Poll} :
    Coro.wp (allWell selects) (w.handle event) (fun t' r s' => s' = s ∧ r = .ok (!w.stuck event) ∧
      t ⊆ t' ∧ (w.Valid event → w.PublishedIn t' event)) t s := by
  rw [handle, wp_tryCatch, wp_bind, Coro.wp_lift]
  cases hpub : w.publication event with
  | error exc =>
    -- the handler returns `false`, and nothing was published
    refine ⟨rfl, by rw [stuck, hpub]; rfl, List.Subset.refl t, ?_⟩
    rintro ⟨subject, payload, h⟩
    rw [hpub] at h
    cases h
  | ok found =>
    have hstuck : w.stuck event = false := by rw [stuck, hpub]
    cases found with
    | none =>
      -- a row of an unknown type is marked without a publish
      refine ⟨rfl, by rw [hstuck]; rfl, List.Subset.refl t, ?_⟩
      rintro ⟨subject, payload, h⟩
      rw [hpub] at h
      cases h
    | some found =>
      obtain ⟨subject, payload⟩ := found
      obtain ⟨data, hdata⟩ := exists_publishData w payload
      simp only [publish, hdata]
      refine ⟨trivial, fun r s' hr => ?_⟩
      obtain ⟨rfl, rfl⟩ := hr
      refine ⟨rfl, by rw [hstuck]; rfl, subset_append_left _ _, fun _ => ?_⟩
      exact ⟨subject, payload, data, hpub, hdata, by simp⟩

theorem PublishedIn.mono {t t' : List (Event (iface Poll Query.Resp))}
    (h : w.PublishedIn t event) (ht : t ⊆ t') : w.PublishedIn t' event := by
  obtain ⟨subject, payload, data, hpub, hdata, hmem⟩ := h
  exact ⟨subject, payload, data, hpub, hdata, ht hmem⟩

theorem wp_handleAll {events : List OutboxEvent} {t : List (Event (iface Poll Query.Resp))}
    {s : Poll} :
    Coro.wp (allWell selects) (w.handleAll events) (fun t' r s' => s' = s ∧
      r = .ok (w.handled events) ∧
        ∀ event ∈ events, w.Valid event → w.PublishedIn t' event) t s := by
  -- before a round, the rows `done` have been handled and `rest` are still to come
  refine wp_fold (fun rest processed t' s' => s' = s ∧ ∃ done, events = done ++ rest ∧
    processed = w.handled done ∧ ∀ event ∈ done, w.Valid event → w.PublishedIn t' event) ?_ ?_
    ⟨rfl, [], rfl, rfl, by rintro _ ⟨⟩⟩
  · rintro processed t' s' ⟨rfl, done, rfl, rfl, hall⟩
    rw [append_nil] at *
    exact ⟨rfl, rfl, hall⟩
  · rintro event rest processed t' _ ⟨rfl, done, rfl, rfl, hall⟩
    refine wp_seq wp_handle ?_ ?_
    · rintro marked t'' s'' ⟨rfl, hmarked, hsub, hpub⟩
      cases hmarked
      have hall' : ∀ e ∈ done ++ [event], w.Valid e → w.PublishedIn t'' e := by
        intro e he hv
        rcases mem_append.1 he with he | he
        · exact (hall e he hv).mono hsub
        · obtain rfl := mem_singleton.1 he
          exact hpub hv
      have hnext : ∀ b, w.stuck event = b →
          (if !b then w.handled done ++ [event.id] else w.handled done) =
            w.handled (done ++ [event]) := by
        rintro b rfl
        cases hb : w.stuck event <;> simp [handled, hb]
      cases hb : w.stuck event with
      | false => exact ⟨rfl, done ++ [event], by simp, hnext false hb, hall'⟩
      | true => exact ⟨rfl, done ++ [event], by simp, hnext true hb, hall'⟩
    · rintro e t'' s'' ⟨-, h, -⟩
      cases h

/-- What a tick does: it takes a batch of oldest rows, publishes the valid ones and marks all that
are not stuck. -/
structure Ticked (w : OutboxWorker) (s : Poll) (t : List (Event (iface Poll Query.Resp)))
    (events : List OutboxEvent) (s' : Poll) : Prop where
  oldest : Oldest OutboxEvent.createdAt w.batchSize s.table.unprocessed events
  state : s' = { s with table := s.table.markProcessed (w.handled events) }
  published : ∀ event ∈ events, w.Valid event → w.PublishedIn t event

variable (table : OutboxTable)

theorem markProcessed_nil : table.markProcessed [] = table := by
  have hmark : OutboxEvent.mark [] = id := by
    funext row
    simp [OutboxEvent.mark]
  simp [OutboxTable.markProcessed, hmark]

theorem wp_tick {s : Poll} (hs : s.connected = true)
    (hselects : ∀ n pool events, selects n pool events →
      Oldest OutboxEvent.createdAt n pool events) :
    Coro.wp (allWell selects) w.tick (fun t r s' => r = .ok () ∧
      ∃ events, selects w.batchSize s.table.unprocessed events ∧ w.Ticked s t events s') [] s := by
  rw [tick, Coro.wp_get_bind, if_pos hs, wp_bind, wp_call]
  refine ⟨trivial, fun r s' hr => ?_⟩
  obtain ⟨rfl, events, rfl, hsel⟩ := hr
  cases events with
  | nil =>
    refine ⟨rfl, [], hsel, hselects _ _ _ hsel, ?_, by rintro _ ⟨⟩⟩
    rw [handled, filter_nil, map_nil, markProcessed_nil]
  | cons event events =>
    refine wp_seq wp_handleAll ?_ ?_
    · rintro processed t s' ⟨rfl, hprocessed, hpub⟩
      cases hprocessed
      refine wp_call.2 ⟨trivial, fun r s' hr => ?_⟩
      obtain ⟨rfl, rfl⟩ := hr
      refine ⟨rfl, event :: events, hsel, hselects _ _ _ hsel, rfl, fun e he hv => ?_⟩
      exact (hpub e he hv).mono (subset_append_left _ _)
    · rintro e t s' ⟨-, h, -⟩
      cases h

/-! ### The unprocessed rows from tick to tick -/

theorem unprocessed_markProcessed (ids : List Uuid) : (table.markProcessed ids).unprocessed =
      table.unprocessed.filter fun row => decide (row.id ∉ ids) := by
  simp only [OutboxTable.unprocessed, OutboxTable.markProcessed, filter_map, filter_filter]
  have hmark : ∀ row : OutboxEvent, ((fun row : OutboxEvent => !row.processed) ∘
      OutboxEvent.mark ids) row = (decide (row.id ∉ ids) && !row.processed) := by
    intro row
    cases h : row.processed <;> simp [OutboxEvent.mark, h]
  rw [filter_congr fun row _ => hmark row]
  refine (map_congr_left fun row hrow => ?_).trans (map_id _)
  have hkept := (mem_filter.1 hrow).2
  simp only [Bool.and_eq_true, decide_eq_true_eq] at hkept
  simp [OutboxEvent.mark, hkept.1]

theorem mem_handled {table : OutboxTable} {events : List OutboxEvent}
    (hsub : events ⊆ table.rows) {row : OutboxEvent} (hrow : row ∈ table.rows) :
    row.id ∈ w.handled events ↔ row ∈ events ∧ w.stuck row = false := by
  simp only [handled, mem_map, mem_filter, Bool.not_eq_true']
  constructor
  · rintro ⟨row', ⟨hmem, hstuck⟩, hid⟩
    obtain rfl := inj_on_of_nodup_map table.nodup (hsub hmem) hrow hid
    exact ⟨hmem, hstuck⟩
  · rintro ⟨hmem, hstuck⟩
    exact ⟨row, ⟨hmem, hstuck⟩, rfl⟩

theorem unprocessed_subset : table.unprocessed ⊆ table.rows :=
  fun _ h => mem_of_mem_filter h

theorem nodup_unprocessed : table.unprocessed.Nodup :=
  (List.Nodup.of_map _ table.nodup).filter _

variable {s s' : Poll} {t : List (Event (iface Poll Query.Resp))} {events : List OutboxEvent}
  {row : OutboxEvent}

theorem Ticked.unprocessed (h : w.Ticked s t events s') :
    ∃ kept : OutboxEvent → Bool, s'.table.unprocessed = s.table.unprocessed.filter kept ∧
      ∀ row ∈ s.table.unprocessed, kept row = false ↔ row ∈ events ∧ w.stuck row = false := by
  refine ⟨fun row => decide (row.id ∉ w.handled events), ?_, fun row hrow => ?_⟩
  · rw [h.state]
    exact unprocessed_markProcessed _ _
  · have hsub : events ⊆ s.table.rows := fun e he =>
      unprocessed_subset _ (h.oldest.subset he)
    rw [decide_eq_false_iff_not, not_not]
    exact mem_handled hsub (unprocessed_subset _ hrow)

theorem Ticked.stuckBefore (h : w.Ticked s t events s') (row : OutboxEvent) :
    stuckBefore w.stuck OutboxEvent.createdAt s'.table.unprocessed row =
      stuckBefore w.stuck OutboxEvent.createdAt s.table.unprocessed row := by
  obtain ⟨kept, hkept, hiff⟩ := h.unprocessed
  rw [Omniscience.stuckBefore, Omniscience.stuckBefore, hkept, countP_filter]
  refine countP_congr fun e he => ?_
  cases hb : kept e with
  | true => simp
  | false => simp [((hiff e he).1 hb).2]

theorem Ticked.connected (h : w.Ticked s t events s') : s'.connected = s.connected := by
  rw [h.state]

theorem Ticked.of_mem (h : w.Ticked s t events s') (hrow : row ∈ events) (hvalid : w.Valid row) :
    w.PublishedIn t row ∧ s'.table.Processed row.id := by
  have hmem : row ∈ s.table.rows := unprocessed_subset _ (h.oldest.subset hrow)
  refine ⟨h.published row hrow hvalid, row.mark (w.handled events), ?_, rfl, ?_⟩
  · rw [h.state]
    exact mem_map_of_mem hmem
  · have hid : row.id ∈ w.handled events :=
      (mem_handled (fun e he => unprocessed_subset _ (h.oldest.subset he)) hmem).2
        ⟨hrow, stuck_eq_false_of_valid hvalid⟩
    simp [OutboxEvent.mark, hid]

theorem Ticked.of_not_mem (h : w.Ticked s t events s')
    (hrow : row ∈ s.table.unprocessed) (hn : row ∉ events) : row ∈ s'.table.unprocessed := by
  obtain ⟨kept, hkept, hiff⟩ := h.unprocessed
  rw [hkept, mem_filter]
  refine ⟨hrow, Bool.eq_true_of_not_eq_false fun hb => ?_⟩
  exact hn ((hiff row hrow).1 hb).1

theorem Ticked.length_lt (h : w.Ticked s t events s')
    (hrow : row ∈ s.table.unprocessed) (hn : row ∉ events)
    (hlt : Omniscience.stuckBefore w.stuck OutboxEvent.createdAt s.table.unprocessed row <
      w.batchSize) :
    s'.table.unprocessed.length < s.table.unprocessed.length := by
  obtain ⟨other, hmem, hfree⟩ := h.oldest.exists_not_stuck hrow hn hlt
  obtain ⟨kept, hkept, hiff⟩ := h.unprocessed
  rw [hkept, length_filter_lt_length_iff_exists]
  refine ⟨other, h.oldest.subset hmem, ?_⟩
  rw [(hiff other (h.oldest.subset hmem)).2 ⟨hmem, hfree⟩]
  exact Bool.false_ne_true

/-! ### Runs -/

/-- An endless run of the worker while all is well: the states between the ticks, and the calls of
each tick. -/
structure Run (w : OutboxWorker) where
  state : ℕ → Poll
  trace : ℕ → List (Event (iface Poll Query.Resp))
  step : ∀ n, ∃ env, Obeys env (allWell (Oldest OutboxEvent.createdAt)) ∧
    Coro.exec env w.tick [] (state n) = ⟨trace n, .ok (), state (n + 1)⟩

theorem Run.ticked (run : w.Run) {n : ℕ} (hn : (run.state n).connected = true) :
    ∃ events, w.Ticked (run.state n) (run.trace n) events (run.state (n + 1)) := by
  obtain ⟨env, henv, hexec⟩ := run.step n
  have h := exec_of_wp henv (wp_tick (w := w) hn fun _ _ _ h => h)
  rw [hexec] at h
  obtain ⟨-, events, -, hticked⟩ := h
  exact ⟨events, hticked⟩

/-- The row is published and marked by some tick of the run. -/
def Run.Publishes (run : w.Run) (row : OutboxEvent) : Prop :=
  ∃ n, w.PublishedIn (run.trace n) row ∧ (run.state (n + 1)).table.Processed row.id

theorem Run.publishes_of_lt (run : w.Run) (hvalid : w.Valid row) {n : ℕ}
    (hc : (run.state n).connected = true) (hrow : row ∈ (run.state n).table.unprocessed)
    (hlt : Omniscience.stuckBefore w.stuck OutboxEvent.createdAt
      (run.state n).table.unprocessed row < w.batchSize) :
    run.Publishes row := by
  induction hm : (run.state n).table.unprocessed.length using Nat.strong_induction_on
    generalizing n with
  | h m ih =>
    obtain ⟨events, hticked⟩ := run.ticked hc
    by_cases hmem : row ∈ events
    · exact ⟨n, hticked.of_mem hmem hvalid⟩
    · subst hm
      refine ih _ (hticked.length_lt hrow hmem hlt) ?_ (hticked.of_not_mem hrow hmem) ?_ rfl
      · rw [hticked.connected, hc]
      · rw [hticked.stuckBefore]
        exact hlt

section

variable [DecidableEq OutboxEvent]

/-- A database that breaks ties against `row`. -/
def against (row : OutboxEvent) : Env (iface Poll Query.Resp)
  | _, .service (.selectUnprocessed limit), s =>
    (.ok (oldestButLast OutboxEvent.createdAt row limit s.table.unprocessed), s)
  | _, .service (.commit ids), s => (.ok (), { s with table := s.table.markProcessed ids })
  | _, .publish _ _, s => (.ok (), s)
  | _, .fetch, s => (.ok (), s)
  | _, .ack _, s => (.ok (), s)
  | _, .nak _ _, s => (.ok (), s)
  | _, .term _, s => (.ok (), s)

theorem obeys_against (row : OutboxEvent) :
    Obeys (against row) (allWell fun n pool events =>
      events = oldestButLast OutboxEvent.createdAt row n pool) := by
  intro t q s _
  cases q with
  | service q =>
    cases q with
    | selectUnprocessed limit => exact ⟨rfl, _, rfl, rfl⟩
    | commit ids => exact ⟨rfl, rfl⟩
  | publish subject data => exact ⟨rfl, rfl⟩
  | _ => rfl

/-- A row waits while stuck rows fill the batches. -/
structure Starved (w : OutboxWorker) (row : OutboxEvent) (s : Poll) : Prop where
  connected : s.connected = true
  mem : row ∈ s.table.unprocessed
  full : w.batchSize ≤ Omniscience.stuckBefore w.stuck OutboxEvent.createdAt s.table.unprocessed row

theorem Starved.tick (hvalid : w.Valid row) (h : w.Starved row s) :
    (Coro.exec (against row) w.tick [] s).result = .ok () ∧
      w.Starved row (Coro.exec (against row) w.tick [] s).state := by
  have hticked := exec_of_wp (obeys_against row) (wp_tick (w := w) h.connected (by
    rintro n pool events rfl
    exact oldest_oldestButLast _ _ _ _))
  obtain ⟨hresult, events, rfl, hticked⟩ := hticked
  have hn := not_mem_oldestButLast (nodup_unprocessed s.table) (stuck_eq_false_of_valid hvalid)
    h.full
  refine ⟨hresult, ?_, hticked.of_not_mem h.mem hn, ?_⟩
  · rw [hticked.connected, h.connected]
  · rw [hticked.stuckBefore]
    exact h.full

end

theorem Starved.not_processed (h : w.Starved row s) : ¬ s.table.Processed row.id := by
  rintro ⟨row', hmem, hid, hprocessed⟩
  obtain rfl := inj_on_of_nodup_map s.table.nodup hmem (unprocessed_subset _ h.mem) hid
  have := (mem_filter.1 h.mem).2
  rw [hprocessed] at this
  cases this

theorem Starved.exists_run (hvalid : w.Valid row) (h : w.Starved row s) :
    ∃ run : w.Run, run.state 0 = s ∧ ¬ run.Publishes row := by
  classical
  -- the database breaks ties against the row, in every tick anew
  let state : ℕ → Poll := Nat.rec s fun _ s => (Coro.exec (against row) w.tick [] s).state
  have hstarved : ∀ n, w.Starved row (state n) := by
    intro n
    induction n with
    | zero => exact h
    | succ n ih => exact (ih.tick hvalid).2
  have henv : Obeys (against row) (allWell (Oldest OutboxEvent.createdAt)) := by
    intro t q s hy
    have hr := obeys_against row t q s hy
    cases q with
    | service q =>
      cases q with
      | selectUnprocessed limit => exact ⟨rfl, _, rfl, oldest_oldestButLast _ _ _ _⟩
      | commit ids => exact hr
    | _ => exact hr
  let run : w.Run :=
    { state := state
      trace := fun n => (Coro.exec (against row) w.tick [] (state n)).trace
      step := fun n => ⟨against row, henv, by rw [← ((hstarved n).tick hvalid).1]⟩ }
  refine ⟨run, rfl, ?_⟩
  rintro ⟨n, -, hprocessed⟩
  exact (hstarved (n + 1)).not_processed hprocessed

/-- **The progress of the outbox**: a valid unprocessed row is published and marked in every run
against a broker that accepts every publish, if and only if fewer than `batchSize` unprocessed rows
that are not younger are of a known type and do not validate. -/
theorem progress_iff (w : OutboxWorker) (table : OutboxTable) (row : OutboxEvent)
    (hrow : row ∈ table.unprocessed) (hvalid : w.Valid row) :
    (∀ run : w.Run, run.state 0 = ⟨true, table⟩ → run.Publishes row) ↔
      Omniscience.stuckBefore w.stuck OutboxEvent.createdAt table.unprocessed row <
        w.batchSize := by
  constructor
  · intro hall
    by_contra hfull
    have hstarved : w.Starved row ⟨true, table⟩ := ⟨rfl, hrow, Nat.not_lt.1 hfull⟩
    obtain ⟨run, hstart, hnot⟩ := hstarved.exists_run hvalid
    exact hnot (hall run hstart)
  · intro hlt run hstart
    refine run.publishes_of_lt hvalid ?_ ?_ ?_ (n := 0)
    · rw [hstart]
    · rw [hstart]
      exact hrow
    · rw [hstart]
      exact hlt

end

/-! ### A stuck row and a valid one -/

def sample : OutboxWorker where
  py := .sample
  pyd := .strict
  batchSize := 1

/-- An edge row without a payload. -/
def stuckRow : OutboxEvent where
  id := 1
  eventType := "edge.upsert"
  payload := []
  createdAt := 0

def validRow : OutboxEvent where
  id := 2
  eventType := "entity.upsert"
  payload := backfillSample.modelDump
  createdAt := 1

theorem valid_validRow : sample.Valid validRow := by
  refine ⟨"outbox.entity.upsert", .entity backfillSample, ?_⟩
  simp [publication, validRow, pure, Except.pure]

theorem progress_of_validRow : let table : OutboxTable := ⟨[validRow], by decide⟩
    ∀ run : sample.Run, run.state 0 = ⟨true, table⟩ → run.Publishes validRow :=
  (progress_iff sample ⟨[validRow], by decide⟩ validRow mem_cons_self valid_validRow).2 (by decide)

theorem validRow_starved :
    ¬ ∀ (w : OutboxWorker) (table : OutboxTable) (row : OutboxEvent), 1 ≤ w.batchSize →
      row ∈ table.unprocessed → w.Valid row → ∀ run : w.Run, run.state 0 = ⟨true, table⟩ →
        run.Publishes row := by
  intro h
  have hstarved : sample.Starved validRow ⟨true, ⟨[stuckRow, validRow], by decide⟩⟩ :=
    ⟨rfl, mem_cons_of_mem _ mem_cons_self, by decide⟩
  obtain ⟨run, hstart, hnot⟩ := hstarved.exists_run valid_validRow
  exact hnot (h sample _ validRow le_rfl hstarved.mem valid_validRow run hstart)

end OutboxWorker

end Omniscience.Outbox
