import Mathlib.Data.Rat.Floor
import Omniscience.Base.Python
import Omniscience.Base.Uuid
import Omniscience.Lib.Dict
import Omniscience.Lib.RowTxn

/-!
# The dedup gate

`DedupGate` (`ingestion/dedup.py`) decides which of the two Kubernetes emitters may write a
resource.  The table `entity_emitter` has a row for each pair of a workspace and an external id:
the emitter that has the authority, and when it emitted last.  The operator takes the authority from
the agentic connector at any time; the agentic connector gets it back when the operator has not
emitted for the time to live.

`plan` is what one transaction decides once it has read the row, with the statement that it
executes then; the statements have guards of their own.  `evaluate` is the whole call.

* `lawful_iff` : over every sequence of calls at non-decreasing times, the gate keeps its law
  exactly when the cutoff of every operator event is a valid date.
-/

namespace Omniscience

open List

/-- What has happened to a document. -/
inductive ChangeAction where
  | created
  | updated
  | deleted
  deriving DecidableEq, Repr

/-- A topology edge on an event of the operator. -/
structure TopologyEdge where
  kind : String
  targetExternalId : String
  deriving DecidableEq, Repr

/-- An event on the stream `ingest.changes`. -/
structure DocumentChangeEvent where
  sourceId : Uuid
  sourceType : String
  externalId : String
  uri : String
  action : ChangeAction
  metadata : Option (List (String × String)) := none
  topologyEdges : Option (List TopologyEdge) := none
  deriving DecidableEq, Repr

/-- A `datetime` in UTC: microseconds since the start of the year 1, up to the end of the year
9999. -/
abbrev DateTime := Fin 315537897600000000

theorem zero_lt_dateTime : 0 < 315537897600000000 := by decide

namespace Dedup

/-! ### Time to live -/

/-- The nearest integer, the even one of two. -/
def roundHalfEven (q : ℚ) : ℤ :=
  if q - ⌊q⌋ < 1 / 2 then ⌊q⌋
  else if 1 / 2 < q - ⌊q⌋ then ⌊q⌋ + 1
  else if ⌊q⌋ % 2 = 0 then ⌊q⌋
  else ⌊q⌋ + 1

@[simp] theorem roundHalfEven_intCast (n : ℤ) : roundHalfEven n = n := by
  simp [roundHalfEven]

theorem le_roundHalfEven (q : ℚ) : q - 1 / 2 ≤ roundHalfEven q := by
  unfold roundHalfEven
  have hfloor := Int.lt_floor_add_one q
  split_ifs <;> push_cast <;> linarith

/-- `timedelta(seconds=seconds)`, in microseconds. -/
def timedelta (seconds : ℚ) : Except Exc ℤ :=
  let us := roundHalfEven (seconds * 1000000)
  let days := us / 86400000000
  if -999999999 ≤ days ∧ days ≤ 999999999 then .ok us
  else .error ⟨.overflowError, s!"days={days}; must have magnitude <= 999999999"⟩

/-- `moment - delta`. -/
def subtract (moment : DateTime) (delta : ℤ) : Except Exc DateTime :=
  let us := (moment.val : ℤ) - delta
  if h : 0 ≤ us ∧ us < 315537897600000000 then .ok ⟨us.toNat, by omega⟩
  else .error ⟨.overflowError, "date value out of range"⟩

/-- The canonical emitters. -/
def emitterOperator : String := "k8s-operator"

/-- The agentic connector. -/
def emitterAgentic : String := "k8s-agentic"

/-- `is_k8s_emitter`. -/
def isK8sEmitter (sourceType : String) : Bool :=
  sourceType == emitterOperator || sourceType == emitterAgentic

/-- The outcome of a decision. -/
inductive DedupAction where
  | accept
  | drop
  deriving DecidableEq, Repr

/-- The `ACTION_*` constants. -/
inductive Reason where
  | firstAuthorityAssigned
  | noOpIdempotentRefresh
  | noOpAgenticDropped
  | operatorSupersedesAgentic
  | ttlReassignToAgentic
  | dedupDisabled
  | nonK8sBypass
  | agenticFlagDisabled
  deriving DecidableEq, Repr

/-- `DedupConfig`.  Without a time to live the operator keeps the authority forever. -/
structure DedupConfig where
  enabled : Bool
  ttlSeconds : Option ℚ
  agenticAllowed : Bool := true

/-- `DedupDecision`. -/
structure DedupDecision where
  action : DedupAction
  reason : Reason
  authorityEmitter : String
  kind : String
  deriving DecidableEq, Repr

/-- The moment before which an emission of the operator has expired. -/
def cutoff (cfg : DedupConfig) (wallNow : DateTime) : Except Exc (Option DateTime) :=
  match cfg.ttlSeconds with
  | none => .ok none
  | some seconds => do
    let delta ← timedelta seconds
    let moment ← subtract wallNow delta
    .ok (some moment)

/-- The kind segment of `^k8s_resource/[0-9a-f-]+/(?P<kind>[A-Za-z][A-Za-z0-9]*)/`.  Neither class
contains the slash, so the match does not backtrack. -/
def matchKind (text : List Char) : Option (List Char) := do
  let rest ← text.dropPrefix? "k8s_resource/".toList
  let (cluster, rest) := rest.span fun c => c.isDigit || ('a' ≤ c && c ≤ 'f') || c == '-'
  guard !cluster.isEmpty
  let rest ← rest.dropPrefix? ['/']
  let (kind, rest) := rest.span Char.isAlphanum
  guard (kind.head?.any Char.isAlpha)
  guard (rest.head? == some '/')
  some kind

/-- `parse_kind_from_external_id`. -/
def parseKindFromExternalId (externalId : String) : String :=
  match matchKind externalId.toList with
  | some kind => String.ofList kind
  | none => "unknown"

example : parseKindFromExternalId "k8s_resource/0a-1f/Pod/default/web" = "Pod" := by decide

/-! ### The table -/

/-- A row of `entity_emitter`. -/
structure EmitterRow where
  authorityEmitter : String
  lastEmitAt : DateTime
  authorityChangedAt : Option DateTime
  deriving DecidableEq, Repr

/-- The table `entity_emitter` with its primary key. -/
abbrev EntityEmitter := Dict (Uuid × String) EmitterRow

/-- `INSERT ... ON CONFLICT (workspace_id, external_id) DO UPDATE SET last_emit_at = ... WHERE
entity_emitter.authority_emitter = EXCLUDED.authority_emitter`. -/
def insertFirst (emitter : String) (now : DateTime) : Option EmitterRow → Option EmitterRow
  | none => some ⟨emitter, now, none⟩
  | some row =>
    if row.authorityEmitter = emitter then some { row with lastEmitAt := now } else some row

/-- The refresh of the emitter that has the authority. -/
def refresh (emitter : String) (now : DateTime) : Option EmitterRow → Option EmitterRow :=
  Option.map fun row =>
    if row.authorityEmitter = emitter then { row with lastEmitAt := now } else row

/-- The operator takes the authority from the agentic connector. -/
def takeover (now : DateTime) : Option EmitterRow → Option EmitterRow :=
  Option.map fun row =>
    if row.authorityEmitter = emitterAgentic then ⟨emitterOperator, now, some now⟩ else row

/-- The agentic connector gets the authority when the operator is presumed gone. -/
def reassign (now moment : DateTime) : Option EmitterRow → Option EmitterRow :=
  Option.map fun row =>
    if row.authorityEmitter = emitterOperator ∧ row.lastEmitAt < moment then
      ⟨emitterAgentic, now, some now⟩
    else row

/-- `cutoff is not None and last_emit_at < cutoff`. -/
def ttlExpired (limit : Option DateTime) (row : EmitterRow) : Option DateTime :=
  limit.filter (row.lastEmitAt < ·)

/-- What `_evaluate_in_session` decides when it has read the row, and the statement it executes
before it commits; without one it rolls back. -/
def plan (emitter kind : String) (wallNow : DateTime) (limit : Option DateTime) :
    Option EmitterRow → DedupDecision × Option (Option EmitterRow → Option EmitterRow)
  | none =>
    (⟨.accept, .firstAuthorityAssigned, emitter, kind⟩, some (insertFirst emitter wallNow))
  | some row =>
    if row.authorityEmitter = emitter then
      (⟨.accept, .noOpIdempotentRefresh, row.authorityEmitter, kind⟩,
        some (refresh emitter wallNow))
    else if emitter = emitterOperator ∧ row.authorityEmitter = emitterAgentic then
      (⟨.accept, .operatorSupersedesAgentic, emitterOperator, kind⟩, some (takeover wallNow))
    else if emitter = emitterAgentic ∧ row.authorityEmitter = emitterOperator then
      match ttlExpired limit row with
      | some moment =>
        (⟨.accept, .ttlReassignToAgentic, emitterAgentic, kind⟩, some (reassign wallNow moment))
      | none => (⟨.drop, .noOpAgenticDropped, emitterOperator, kind⟩, none)
    else (⟨.accept, .nonK8sBypass, row.authorityEmitter, kind⟩, none)

/-- A call of `evaluate`: the workspace comes from the caller, the time from the clock. -/
structure Call where
  workspaceId : Uuid
  event : DocumentChangeEvent
  now : DateTime

/-- The primary key of the row. -/
def Call.key (call : Call) : Uuid × String := (call.workspaceId, call.event.externalId)

/-- The table after the statement of a transaction on the row of the key. -/
def execute (table : EntityEmitter) (key : Uuid × String)
    (stmt : Option (Option EmitterRow → Option EmitterRow)) : EntityEmitter :=
  match stmt.bind (· (table.get? key)) with
  | none => table
  | some row => table.set key row

/-- `_evaluate_in_session`, when no other session is at the row. -/
def evaluateInSession (cfg : DedupConfig) (table : EntityEmitter) (call : Call) (kind : String) :
    Except Exc (DedupDecision × EntityEmitter) := do
  let limit ← cutoff cfg call.now
  let decided := plan call.event.sourceType kind call.now limit (table.get? call.key)
  .ok (decided.1, execute table call.key decided.2)

/-- `evaluate`. -/
def evaluate (cfg : DedupConfig) (table : EntityEmitter) (call : Call) :
    Except Exc (DedupDecision × EntityEmitter) :=
  let kind := parseKindFromExternalId call.event.externalId
  let sourceType := call.event.sourceType
  if !cfg.agenticAllowed && sourceType == emitterAgentic then
    .ok (⟨.drop, .agenticFlagDisabled, emitterOperator, kind⟩, table)
  else if !cfg.enabled then .ok (⟨.accept, .dedupDisabled, sourceType, kind⟩, table)
  else if !isK8sEmitter sourceType then .ok (⟨.accept, .nonK8sBypass, sourceType, kind⟩, table)
  else evaluateInSession cfg table call kind

/-! ### One call -/

section Call

variable {cfg : DedupConfig} {table : EntityEmitter} {call : Call} {d : DedupDecision}
  {table' : EntityEmitter}

/-- The cutoff of a call at this time is a date. -/
def DedupConfig.Representable (cfg : DedupConfig) (now : DateTime) : Prop :=
  ∀ seconds, cfg.ttlSeconds = some seconds →
    0 ≤ (now.val : ℤ) - roundHalfEven (seconds * 1000000) ∧
      (now.val : ℤ) - roundHalfEven (seconds * 1000000) < 315537897600000000

theorem timedelta_eq_ok {seconds : ℚ} {delta : ℤ} (h : timedelta seconds = .ok delta) :
    delta = roundHalfEven (seconds * 1000000) := by
  simp only [timedelta] at h
  split_ifs at h
  exact (Except.ok.inj h).symm

theorem subtract_eq_ok_iff {now moment : DateTime} {delta : ℤ} :
    subtract now delta = .ok moment ↔ (moment.val : ℤ) = now.val - delta := by
  simp only [subtract]
  split_ifs with h
  · rw [Except.ok.injEq, Fin.ext_iff]
    simp only
    omega
  · have := moment.isLt
    simp only [false_iff]
    omega

theorem cutoff_cases {now : DateTime} {limit : Option DateTime} (h : cutoff cfg now = .ok limit) :
    (cfg.ttlSeconds = none ∧ limit = none) ∨
      ∃ seconds moment, cfg.ttlSeconds = some seconds ∧ limit = some moment ∧
        (moment.val : ℤ) = now.val - roundHalfEven (seconds * 1000000) := by
  unfold cutoff at h
  cases hseconds : cfg.ttlSeconds with
  | none => exact .inl ⟨rfl, by simpa [hseconds] using h.symm⟩
  | some seconds =>
    simp only [hseconds] at h
    cases hdelta : timedelta seconds with
    | error e => simp [hdelta] at h
    | ok delta =>
      cases hmoment : subtract now delta with
      | error e => simp [hdelta, hmoment] at h
      | ok moment =>
        refine .inr ⟨seconds, moment, rfl, by simpa [hdelta, hmoment] using h.symm, ?_⟩
        rw [← timedelta_eq_ok hdelta]
        exact subtract_eq_ok_iff.1 hmoment

theorem cutoff_ok_iff {now : DateTime} :
    (∃ limit, cutoff cfg now = .ok limit) ↔ cfg.Representable now := by
  constructor
  · rintro ⟨limit, h⟩ seconds hseconds
    obtain ⟨hnone, -⟩ | ⟨seconds', moment, hseconds', -, hmoment⟩ := cutoff_cases h
    · rw [hseconds] at hnone
      cases hnone
    · obtain rfl : seconds = seconds' := Option.some.inj (hseconds.symm.trans hseconds')
      have hlt := moment.isLt
      omega
  · intro h
    unfold cutoff
    cases hseconds : cfg.ttlSeconds with
    | none => exact ⟨none, rfl⟩
    | some seconds =>
      obtain ⟨hle, hlt⟩ := h seconds hseconds
      have hnow := now.isLt
      have hdelta : timedelta seconds = .ok (roundHalfEven (seconds * 1000000)) := by
        simp only [timedelta]
        rw [if_pos]
        omega
      have hmoment : subtract now (roundHalfEven (seconds * 1000000)) =
          .ok ⟨((now.val : ℤ) - roundHalfEven (seconds * 1000000)).toNat, by omega⟩ := by
        rw [subtract_eq_ok_iff]
        simp only
        omega
      simp only [hdelta, hmoment, ok_bind]
      exact ⟨_, rfl⟩

theorem lt_of_cutoff {now moment last : DateTime} (h : cutoff cfg now = .ok (some moment))
    (hlast : last < moment) :
    ∃ seconds, cfg.ttlSeconds = some seconds ∧ (last.val : ℚ) < now.val - seconds * 1000000 := by
  obtain ⟨-, hnone⟩ | ⟨seconds, moment', hseconds, hsome, hmoment⟩ := cutoff_cases h
  · cases hnone
  · cases hsome
    refine ⟨seconds, hseconds, ?_⟩
    have hround := le_roundHalfEven (seconds * 1000000)
    have hlt : (last.val : ℤ) + 1 ≤ moment.val := by
      have : last.val < moment.val := hlast
      omega
    have hlt' : (last.val : ℚ) + 1 ≤ moment.val := by exact_mod_cast hlt
    have hmoment' : (moment.val : ℚ) = now.val - roundHalfEven (seconds * 1000000) := by
      exact_mod_cast hmoment
    linarith

theorem ttlExpired_eq_some_iff {limit : Option DateTime} {row : EmitterRow} {moment : DateTime} :
    ttlExpired limit row = some moment ↔ limit = some moment ∧ row.lastEmitAt < moment := by
  simp [ttlExpired, Option.filter_eq_some_iff]

theorem evaluate_cases (henabled : cfg.enabled = true)
    (h : evaluate cfg table call = .ok (d, table')) :
    (call.event.sourceType = emitterAgentic ∧ d.action = .drop ∧ table' = table) ∨
    (isK8sEmitter call.event.sourceType = false ∧ table' = table) ∨
    (isK8sEmitter call.event.sourceType = true ∧
      (call.event.sourceType = emitterAgentic → cfg.agenticAllowed = true) ∧
      ∃ kind limit, cutoff cfg call.now = .ok limit ∧
      d = (plan call.event.sourceType kind call.now limit (table.get? call.key)).1 ∧
      table' = execute table call.key
        (plan call.event.sourceType kind call.now limit (table.get? call.key)).2) := by
  simp only [evaluate, henabled, Bool.not_true, Bool.false_eq_true, ↓reduceIte] at h
  split_ifs at h with hflag hk8s
  · simp only [Except.ok.injEq, Prod.mk.injEq] at h
    obtain ⟨rfl, rfl⟩ := h
    simp only [Bool.and_eq_true, beq_iff_eq] at hflag
    exact .inl ⟨hflag.2, rfl, rfl⟩
  · simp only [Except.ok.injEq, Prod.mk.injEq] at h
    exact .inr (.inl ⟨by simpa using hk8s, h.2.symm⟩)
  · simp only [evaluateInSession] at h
    cases hlimit : cutoff cfg call.now with
    | error e => simp [hlimit] at h
    | ok limit =>
      simp only [hlimit, ok_bind, Except.ok.injEq, Prod.mk.injEq] at h
      refine .inr (.inr ⟨by simpa using hk8s, fun hagentic => ?_, _, limit, rfl, h.1.symm,
        h.2.symm⟩)
      simpa [hagentic] using hflag

/-- The gate accepts the event. -/
def Accepts (cfg : DedupConfig) (table : EntityEmitter) (call : Call) : Prop :=
  ∃ d table', evaluate cfg table call = .ok (d, table') ∧ d.action = .accept

/-- The table after a call; a call that raises has not touched it. -/
def after (cfg : DedupConfig) (table : EntityEmitter) (call : Call) : EntityEmitter :=
  match evaluate cfg table call with
  | .ok (_, table') => table'
  | .error _ => table

theorem after_of_ok (h : evaluate cfg table call = .ok (d, table')) :
    after cfg table call = table' := by
  rw [after, h]

theorem get?_execute_ne {key other : Uuid × String} (h : other ≠ key)
    (stmt : Option (Option EmitterRow → Option EmitterRow)) :
    (execute table key stmt).get? other = table.get? other := by
  unfold execute
  split
  · rfl
  · exact Dict.get?_set_ne table _ h

theorem get?_after_ne (henabled : cfg.enabled = true) {key : Uuid × String} (h : key ≠ call.key) :
    (after cfg table call).get? key = table.get? key := by
  cases heval : evaluate cfg table call with
  | error e => rw [after, heval]
  | ok result =>
    obtain ⟨d, table'⟩ := result
    rw [after_of_ok heval]
    obtain ⟨-, -, rfl⟩ | ⟨-, rfl⟩ | ⟨-, -, _, _, -, -, rfl⟩ := evaluate_cases henabled heval
    · rfl
    · rfl
    · exact get?_execute_ne h _

/-- The emitters of the rows are the two that the gate knows. -/
def Known (table : EntityEmitter) : Prop :=
  ∀ key row, table.get? key = some row → isK8sEmitter row.authorityEmitter = true

theorem isK8sEmitter_iff {sourceType : String} : isK8sEmitter sourceType = true ↔
    sourceType = emitterOperator ∨ sourceType = emitterAgentic := by
  simp [isK8sEmitter]

theorem operator_ne_agentic : emitterOperator ≠ emitterAgentic := by decide

theorem plan_operator (kind : String) (now : DateTime) (limit : Option DateTime)
    {row : Option EmitterRow} (hrow : ∀ r, row = some r → isK8sEmitter r.authorityEmitter = true) :
    (plan emitterOperator kind now limit row).1.action = .accept ∧
      ∃ r, (plan emitterOperator kind now limit row).2.bind (· row) = some r ∧
        r.authorityEmitter = emitterOperator ∧ r.lastEmitAt = now := by
  cases row with
  | none => exact ⟨rfl, _, rfl, rfl, rfl⟩
  | some r =>
    obtain hauth | hauth := isK8sEmitter_iff.1 (hrow r rfl)
    · simp [plan, refresh, hauth]
    · simp [plan, takeover, hauth, operator_ne_agentic.symm]

theorem plan_agentic (kind : String) (now : DateTime) (limit : Option DateTime)
    {row : Option EmitterRow} (hrow : ∀ r, row = some r → isK8sEmitter r.authorityEmitter = true) :
    ((plan emitterAgentic kind now limit row).1.action = .drop ∧
      (plan emitterAgentic kind now limit row).2 = none) ∨
    ((∃ r, (plan emitterAgentic kind now limit row).2.bind (· row) = some r ∧
        r.authorityEmitter = emitterAgentic) ∧
      ∀ r, row = some r → r.authorityEmitter = emitterOperator →
        ∃ moment, limit = some moment ∧ r.lastEmitAt < moment) := by
  cases row with
  | none => exact .inr ⟨⟨_, rfl, rfl⟩, by simp⟩
  | some r =>
    obtain hauth | hauth := isK8sEmitter_iff.1 (hrow r rfl)
    · cases hexpired : ttlExpired limit r with
      | none => simp [plan, hauth, operator_ne_agentic, hexpired]
      | some moment =>
        obtain ⟨rfl, hlt⟩ := ttlExpired_eq_some_iff.1 hexpired
        right
        simp [plan, reassign, hauth, operator_ne_agentic, hexpired, hlt]
    · right
      simp [plan, refresh, hauth, operator_ne_agentic.symm]

theorem Accepts.expired (haccepts : Accepts cfg table call) (henabled : cfg.enabled = true)
    (hag : call.event.sourceType = emitterAgentic)
    (hrow : ∀ r, table.get? call.key = some r → isK8sEmitter r.authorityEmitter = true)
    {old : EmitterRow} (hold : table.get? call.key = some old)
    (hop : old.authorityEmitter = emitterOperator) :
    ∃ moment, cutoff cfg call.now = .ok (some moment) ∧ old.lastEmitAt < moment := by
  obtain ⟨d, table', heval, haccept⟩ := haccepts
  obtain ⟨-, hdrop, -⟩ | ⟨hother, -⟩ | ⟨-, -, kind, limit, hlimit, rfl, -⟩ :=
    evaluate_cases henabled heval
  · rw [hdrop] at haccept
    cases haccept
  · rw [hag] at hother
    cases hother
  · rw [hag] at haccept
    obtain ⟨hdrop, -⟩ | ⟨-, hexpired⟩ := plan_agentic kind call.now limit hrow
    · rw [hdrop] at haccept
      cases haccept
    · obtain ⟨moment, rfl, hlt⟩ := hexpired old hold hop
      exact ⟨moment, hlimit, hlt⟩

end Call

/-! ### Sequences of calls -/

section Runs

variable {cfg : DedupConfig} {calls : List Call} {call : Call} {table : EntityEmitter}

/-- The table after the calls, from an empty one. -/
def tableAfter (cfg : DedupConfig) (calls : List Call) : EntityEmitter :=
  calls.foldl (after cfg) .empty

@[simp] theorem tableAfter_concat :
    tableAfter cfg (calls ++ [call]) = after cfg (tableAfter cfg calls) call := by
  simp [tableAfter]

/-- The call is one of the calls, and its event was accepted. -/
def AcceptedIn (cfg : DedupConfig) (calls : List Call) (call : Call) : Prop :=
  ∃ before later, calls = before ++ call :: later ∧ Accepts cfg (tableAfter cfg before) call

/-- An event accepted at `earlier` does not lie within the time to live before `now`. -/
def Outside (cfg : DedupConfig) (earlier now : DateTime) : Prop :=
  match cfg.ttlSeconds with
  | none => False
  | some seconds =>
    ¬ ((now.val : ℚ) - seconds * 1000000 < earlier.val ∧ (earlier.val : ℚ) ≤ now.val)

/-- The law of the gate over a sequence of calls. -/
structure Lawful (cfg : DedupConfig) (calls : List Call) : Prop where
  /-- The agentic connector is accepted only when no event of the operator for the pair was accepted
  within the time to live. -/
  agentic : ∀ before call later, calls = before ++ call :: later →
    call.event.sourceType = emitterAgentic → Accepts cfg (tableAfter cfg before) call →
    ∀ earlier, AcceptedIn cfg before earlier → earlier.event.sourceType = emitterOperator →
      earlier.key = call.key → Outside cfg earlier.now call.now
  operator : ∀ before call later, calls = before ++ call :: later →
    call.event.sourceType = emitterOperator → Accepts cfg (tableAfter cfg before) call
  others : ∀ before call later, calls = before ++ call :: later → ∀ key, key ≠ call.key →
    (tableAfter cfg (before ++ [call])).get? key = (tableAfter cfg before).get? key

theorem acceptedIn_concat_iff {c : Call} : AcceptedIn cfg (calls ++ [call]) c ↔
    AcceptedIn cfg calls c ∨ c = call ∧ Accepts cfg (tableAfter cfg calls) call := by
  constructor
  · rintro ⟨before, later, heq, haccepts⟩
    obtain rfl | ⟨later, x, rfl⟩ := eq_nil_or_concat' later
    · obtain ⟨rfl, hx⟩ := append_inj' heq rfl
      obtain rfl := (singleton_inj.1 hx).symm
      exact .inr ⟨rfl, haccepts⟩
    · rw [← cons_append, ← append_assoc] at heq
      obtain ⟨rfl, -⟩ := append_inj' heq rfl
      exact .inl ⟨before, later, rfl, haccepts⟩
  · rintro (⟨before, later, rfl, haccepts⟩ | ⟨rfl, haccepts⟩)
    · exact ⟨before, later ++ [call], by simp, haccepts⟩
    · exact ⟨calls, [], rfl, haccepts⟩

/-- An event accepted at `earlier` is older than the time to live. -/
def Lapsed (cfg : DedupConfig) (earlier now : DateTime) : Prop :=
  ∃ seconds, cfg.ttlSeconds = some seconds ∧ (earlier.val : ℚ) < now.val - seconds * 1000000

theorem Lapsed.mono {earlier now earlier' now' : DateTime} (h : Lapsed cfg earlier now)
    (hearlier : earlier' ≤ earlier) (hnow : now ≤ now') : Lapsed cfg earlier' now' := by
  obtain ⟨seconds, hseconds, hlt⟩ := h
  have h₁ : (earlier'.val : ℚ) ≤ earlier.val := by exact_mod_cast hearlier
  have h₂ : (now.val : ℚ) ≤ now'.val := by exact_mod_cast hnow
  exact ⟨seconds, hseconds, by linarith⟩

theorem Lapsed.outside {earlier now : DateTime} (h : Lapsed cfg earlier now) :
    Outside cfg earlier now := by
  obtain ⟨seconds, hseconds, hlt⟩ := h
  simp only [Outside, hseconds]
  rintro ⟨hgt, -⟩
  linarith

/-- The row remembers an accepted event of the operator: the operator still has the authority and
has not emitted later than the row says, or the event has expired and stays so. -/
def Remembers (cfg : DedupConfig) (calls : List Call) (row : Option EmitterRow) (at_ : DateTime) :
    Prop :=
  ∃ r, row = some r ∧ (r.authorityEmitter = emitterOperator ∧ at_ ≤ r.lastEmitAt ∨
    r.authorityEmitter = emitterAgentic ∧ ∀ now, (∀ c ∈ calls, c.now ≤ now) → Lapsed cfg at_ now)

/-- The table remembers every accepted event of the operator. -/
structure Tracks (cfg : DedupConfig) (calls : List Call) : Prop where
  known : Known (tableAfter cfg calls)
  remembers : ∀ c, AcceptedIn cfg calls c → c.event.sourceType = emitterOperator →
    Remembers cfg calls ((tableAfter cfg calls).get? c.key) c.now

theorem Remembers.concat {row : Option EmitterRow} {moment : DateTime}
    (h : Remembers cfg calls row moment) : Remembers cfg (calls ++ [call]) row moment := by
  obtain ⟨r, hr, hop | ⟨hag, hlapsed⟩⟩ := h
  · exact ⟨r, hr, .inl hop⟩
  · exact ⟨r, hr, .inr ⟨hag, fun now hnow =>
      hlapsed now fun c hc => hnow c (mem_append_left _ hc)⟩⟩

theorem Tracks.of_same (h : Tracks cfg calls)
    (hsame : after cfg (tableAfter cfg calls) call = tableAfter cfg calls)
    (hnot : Accepts cfg (tableAfter cfg calls) call → call.event.sourceType ≠ emitterOperator) :
    Tracks cfg (calls ++ [call]) := by
  refine ⟨by rw [tableAfter_concat, hsame]; exact h.known, fun c hc hop => ?_⟩
  rw [tableAfter_concat, hsame]
  obtain hc | ⟨rfl, haccepts⟩ := acceptedIn_concat_iff.1 hc
  · exact (h.remembers c hc hop).concat
  · exact absurd hop (hnot haccepts)

theorem Tracks.of_set (h : Tracks cfg calls) {row : EmitterRow}
    (hset : after cfg (tableAfter cfg calls) call = (tableAfter cfg calls).set call.key row)
    (hknown : isK8sEmitter row.authorityEmitter = true)
    (hrow : ∀ c, AcceptedIn cfg (calls ++ [call]) c → c.event.sourceType = emitterOperator →
      c.key = call.key → Remembers cfg (calls ++ [call]) (some row) c.now) :
    Tracks cfg (calls ++ [call]) := by
  refine ⟨fun key r hr => ?_, fun c hc hop => ?_⟩
  · rw [tableAfter_concat, hset] at hr
    by_cases hkey : key = call.key
    · subst hkey
      rw [Dict.get?_set_self] at hr
      exact Option.some.inj hr ▸ hknown
    · rw [Dict.get?_set_ne _ _ hkey] at hr
      exact h.known key r hr
  · rw [tableAfter_concat, hset]
    by_cases hkey : c.key = call.key
    · rw [hkey, Dict.get?_set_self]
      exact hrow c hc hop hkey
    · rw [Dict.get?_set_ne _ _ hkey]
      obtain hc | ⟨rfl, -⟩ := acceptedIn_concat_iff.1 hc
      · exact (h.remembers c hc hop).concat
      · exact absurd rfl hkey

theorem mem_of_acceptedIn {c : Call} (h : AcceptedIn cfg calls c) : c ∈ calls := by
  obtain ⟨before, later, rfl, -⟩ := h
  simp

theorem Tracks.concat (henabled : cfg.enabled = true) (h : Tracks cfg calls)
    (hlatest : ∀ c ∈ calls, c.now ≤ call.now) : Tracks cfg (calls ++ [call]) := by
  cases heval : evaluate cfg (tableAfter cfg calls) call with
  | error e =>
    refine h.of_same (by rw [after, heval]) ?_
    rintro ⟨d, table', heval', -⟩
    rw [heval] at heval'
    cases heval'
  | ok result =>
    obtain ⟨d, table'⟩ := result
    have hafter := after_of_ok heval
    have haccepts (ha : Accepts cfg (tableAfter cfg calls) call) : d.action = .accept := by
      obtain ⟨d', _, heval', hd'⟩ := ha
      rw [heval] at heval'
      cases heval'
      exact hd'
    obtain ⟨hag, hdrop, rfl⟩ | ⟨hother, rfl⟩ | ⟨hk8s, -, kind, limit, hlimit, rfl, rfl⟩ :=
      evaluate_cases henabled heval
    · refine h.of_same hafter fun ha => ?_
      rw [hag]
      exact operator_ne_agentic.symm
    · refine h.of_same hafter fun _ hop => ?_
      rw [hop] at hother
      cases hother
    · have hknown := h.known call.key
      obtain hop | hag := isK8sEmitter_iff.1 hk8s
      · -- the operator has the authority now, with the latest time
        obtain ⟨-, r, hr, hauth, hlast⟩ := plan_operator kind call.now limit hknown
        rw [hop, execute, hr] at hafter
        refine h.of_set hafter (isK8sEmitter_iff.2 (.inl hauth)) fun c hc _ _ => ?_
        refine ⟨r, rfl, .inl ⟨hauth, hlast ▸ ?_⟩⟩
        obtain hc | ⟨rfl, -⟩ := acceptedIn_concat_iff.1 hc
        · exact hlatest c (mem_of_acceptedIn hc)
        · exact le_rfl
      · have hnotop : call.event.sourceType ≠ emitterOperator := hag ▸ operator_ne_agentic.symm
        obtain ⟨-, hnone⟩ | ⟨⟨r, hr, hauth⟩, hexpired⟩ :=
          plan_agentic kind call.now limit hknown
        · rw [hag, execute, hnone] at hafter
          exact h.of_same hafter fun _ => hnotop
        · -- what the operator had claimed before has expired by now
          rw [hag, execute, hr] at hafter
          refine h.of_set hafter (isK8sEmitter_iff.2 (.inr hauth)) fun c hc hop hkey => ?_
          refine ⟨r, rfl, .inr ⟨hauth, fun now hnow => ?_⟩⟩
          have hle : call.now ≤ now := hnow call (by simp)
          obtain hc | ⟨rfl, -⟩ := acceptedIn_concat_iff.1 hc
          · obtain ⟨old, hold, ⟨hop', hlast⟩ | ⟨-, hlapsed⟩⟩ := h.remembers c hc hop
            · obtain ⟨moment, rfl, hlt⟩ := hexpired old (hkey ▸ hold) hop'
              exact Lapsed.mono (lt_of_cutoff hlimit hlt) hlast hle
            · exact (hlapsed call.now hlatest).mono le_rfl hle
          · exact absurd hop hnotop

theorem tracks (henabled : cfg.enabled = true)
    (hmono : calls.Pairwise fun a b => a.now ≤ b.now) : Tracks cfg calls := by
  induction calls using List.reverseRecOn with
  | nil =>
    refine ⟨fun key row h => ?_, fun c hc => absurd (mem_of_acceptedIn hc) (by simp)⟩
    simp [tableAfter] at h
  | append_singleton calls call ih =>
    obtain ⟨hcalls, -, hlatest⟩ := pairwise_append.1 hmono
    exact (ih hcalls).concat henabled fun c hc => hlatest c hc call (by simp)

theorem accepts_operator_iff (henabled : cfg.enabled = true) (hknown : Known table)
    (hop : call.event.sourceType = emitterOperator) :
    Accepts cfg table call ↔ cfg.Representable call.now := by
  rw [← cutoff_ok_iff]
  constructor
  · rintro ⟨d, table', heval, -⟩
    obtain ⟨hag, -⟩ | ⟨hother, -⟩ | ⟨-, -, kind, limit, hlimit, -⟩ := evaluate_cases henabled heval
    · rw [hop] at hag
      exact absurd hag operator_ne_agentic
    · rw [hop] at hother
      cases hother
    · exact ⟨limit, hlimit⟩
  · rintro ⟨limit, hlimit⟩
    have hk8s : isK8sEmitter emitterOperator = true := by decide
    let decided := plan emitterOperator (parseKindFromExternalId call.event.externalId) call.now
      limit (table.get? call.key)
    have heval : evaluate cfg table call = .ok (decided.1, execute table call.key decided.2) := by
      simp [evaluate, evaluateInSession, henabled, hop, hk8s, hlimit, operator_ne_agentic, decided]
    exact ⟨_, _, heval, (plan_operator _ _ _ (hknown call.key)).1⟩

theorem Tracks.outside (henabled : cfg.enabled = true) (h : Tracks cfg calls)
    (hlatest : ∀ c ∈ calls, c.now ≤ call.now) (hag : call.event.sourceType = emitterAgentic)
    (haccepts : Accepts cfg (tableAfter cfg calls) call) {c : Call} (hc : AcceptedIn cfg calls c)
    (hop : c.event.sourceType = emitterOperator) (hkey : c.key = call.key) :
    Outside cfg c.now call.now := by
  obtain ⟨old, hold, ⟨hop', hlast⟩ | ⟨-, hlapsed⟩⟩ := h.remembers c hc hop
  · rw [hkey] at hold
    obtain ⟨moment, hlimit, hlt⟩ := haccepts.expired henabled hag (h.known call.key) hold hop'
    exact (Lapsed.mono (lt_of_cutoff hlimit hlt) hlast le_rfl).outside
  · exact (hlapsed call.now hlatest).outside

/-- **When the gate keeps its law.** -/
theorem lawful_iff (henabled : cfg.enabled = true)
    (hmono : calls.Pairwise fun a b => a.now ≤ b.now) :
    Lawful cfg calls ↔ ∀ call ∈ calls, call.event.sourceType = emitterOperator →
      cfg.Representable call.now := by
  have hsplit {before later : List Call} {call : Call} (h : calls = before ++ call :: later) :
      Tracks cfg before ∧ ∀ c ∈ before, c.now ≤ call.now := by
    rw [h] at hmono
    obtain ⟨hbefore, -, hle⟩ := pairwise_append.1 hmono
    exact ⟨tracks henabled hbefore, fun c hc => hle c hc call (by simp)⟩
  constructor
  · intro h call hcall hop
    obtain ⟨before, later, heq⟩ := append_of_mem hcall
    exact (accepts_operator_iff henabled (hsplit heq).1.known hop).1
      (h.operator before call later heq hop)
  · intro h
    refine ⟨fun before call later heq hag haccepts c hc hop hkey => ?_,
      fun before call later heq hop => ?_, fun before call later heq key hkey => ?_⟩
    · obtain ⟨htracks, hlatest⟩ := hsplit heq
      exact htracks.outside henabled hlatest hag haccepts hc hop hkey
    · exact (accepts_operator_iff henabled (hsplit heq).1.known hop).2 (h call (by simp [heq]) hop)
    · rw [tableAfter_concat]
      exact get?_after_ne henabled hkey

/-- An event of the emitter for one pod. -/
def podEvent (sourceType : String) : DocumentChangeEvent where
  sourceId := 1
  sourceType
  externalId := "k8s_resource/0a-1f/Pod/default/web"
  uri := "k8s://0a-1f/Pod/default/web"
  action := .updated

/-- The first moment of the year 2026. -/
def newYear : DateTime := ⟨63902822400000000, by decide⟩

/-- One hour later. -/
def hourLater : DateTime := ⟨63902826000000000, by decide⟩

/-- The agentic connector emits one hour after the operator. -/
def hourApart : List Call :=
  [⟨7, podEvent emitterOperator, newYear⟩, ⟨7, podEvent emitterAgentic, hourLater⟩]

/-- With a time to live of a hundred million hours, an event of the operator is not accepted. -/
theorem operator_refused :
    ¬ Lawful ⟨true, some (100000000 * 3600), true⟩ [⟨7, podEvent emitterOperator, newYear⟩] := by
  intro h
  have haccepts := h.operator [] _ [] rfl rfl
  have hknown : Known (tableAfter ⟨true, some (100000000 * 3600), true⟩ []) := by
    intro key row hrow
    cases hrow
  have hcutoff := (accepts_operator_iff rfl hknown rfl).1 haccepts _ rfl
  have hround : roundHalfEven (100000000 * 3600 * 1000000) = 360000000000000000 := by
    have := roundHalfEven_intCast 360000000000000000
    norm_num at this ⊢
    exact this
  rw [hround] at hcutoff
  exact absurd hcutoff.1 (by decide)

/-- With the default time to live the gate keeps its law when the agentic connector emits an hour
after the operator. -/
theorem lawful_hour : hourApart.Pairwise (fun a b => a.now ≤ b.now) ∧
      Lawful ⟨true, some (24 * 3600), true⟩ hourApart := by
  have hmono : hourApart.Pairwise (fun a b => a.now ≤ b.now) := by
    simp [hourApart, newYear, hourLater]
  refine ⟨hmono, (lawful_iff rfl hmono).2 fun call hcall _ seconds hseconds => ?_⟩
  have hround : roundHalfEven (24 * 3600 * 1000000) = 86400000000 := by
    have := roundHalfEven_intCast 86400000000
    norm_num at this ⊢
    exact this
  cases hseconds
  rw [hround]
  simp only [hourApart, mem_cons, not_mem_nil, or_false] at hcall
  obtain rfl | rfl := hcall <;> decide

end Runs

end Dedup

end Omniscience
