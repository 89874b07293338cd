import Omniscience.Lib.Cells
import Omniscience.Lib.TokenBucket
import Omniscience.Base.Python

/-!
# The two rate limiters

`ProcessLocalAdmissionBackend.try_admit` keeps a token bucket for every pair of a lane and a key;
`_check_source_rate_limit` of the webhook endpoint keeps one for every source, with the capacity
and the rate that follow from a number of requests a minute.  Both are written out here as the
source has them, with times and tokens as rationals.

`tryAdmit` is a machine with a cell for each pair (`tryAdmit_eq_step`), and the cell is a token
bucket (`cell_bucket`), so that the general results apply:

* `admission_token_buckets` : in every run at times that do not decrease, the bound on the calls
  admitted in a window, the independence of the pairs, the least wait of a call that is denied, and
  the same decisions from the webhook limiter.
-/

namespace Omniscience.Admission

open List

/-- `AdmissionDecision`; the wait is a float, and `⊤` is `float("inf")`. -/
structure AdmissionDecision where
  allowed : Bool
  retryAfterSeconds : WithTop ℚ

/-- A call of `try_admit`, at a time of the monotonic clock. -/
structure Call where
  lane : String
  key : String
  capacity : ℤ
  refillPerSecond : ℚ
  now : ℚ

/-- The key of the bucket. -/
def Call.pair (call : Call) : String × String := (call.lane, call.key)

/-- `_buckets`: the tokens left and the time of the last refill. -/
abbrev Buckets (K : Type) := Dict K (ℚ × ℚ)

/-- `ProcessLocalAdmissionBackend.try_admit`. -/
def tryAdmit (buckets : Buckets (String × String)) (call : Call) :
    Buckets (String × String) × AdmissionDecision :=
  let cap : ℚ := call.capacity
  match buckets.get? call.pair with
  | none =>
    -- a new bucket starts full
    (buckets.set call.pair (cap - 1, call.now), ⟨true, 0⟩)
  | some (tokens, lastRefill) =>
    let elapsed := call.now - lastRefill
    let tokens := min cap (tokens + elapsed * call.refillPerSecond)
    if 1 ≤ tokens then (buckets.set call.pair (tokens - 1, call.now), ⟨true, 0⟩)
    else
      let retryAfter : WithTop ℚ :=
        if 0 < call.refillPerSecond then ((1 - tokens) / call.refillPerSecond : ℚ) else ⊤
      (buckets.set call.pair (tokens, call.now), ⟨false, retryAfter⟩)

/-- `check_rate_limit`: the lane `"default"` of the process, with a limit of requests a minute. -/
def checkRateLimit (buckets : Buckets (String × String)) (tokenId : String) (rpm : ℤ) (now : ℚ) :
    Buckets (String × String) × Bool × WithTop ℚ :=
  let decision := tryAdmit buckets ⟨"default", tokenId, rpm, rpm / 60, now⟩
  (decision.1, decision.2.allowed, decision.2.retryAfterSeconds)

/-- `_check_source_rate_limit`; an exception leaves the buckets as they were. -/
def checkSourceRateLimit (sourceBuckets : Buckets String) (sourceId : String) (rpm : ℤ) (now : ℚ) :
    Buckets String × Except Exc (Bool × ℚ) :=
  let capacity : ℚ := rpm
  let refillRate := capacity / 60
  match sourceBuckets.get? sourceId with
  | none => (sourceBuckets.set sourceId (capacity - 1, now), .ok (true, 0))
  | some (tokens, lastRefill) =>
    let elapsed := now - lastRefill
    let tokens := min capacity (tokens + elapsed * refillRate)
    if 1 ≤ tokens then (sourceBuckets.set sourceId (tokens - 1, now), .ok (true, 0))
    else if refillRate = 0 then (sourceBuckets, .error ⟨.zeroDivisionError, "float division by zero"⟩)
    else
      let retryAfter := (1 - tokens) / refillRate
      (sourceBuckets.set sourceId (tokens, now), .ok (false, retryAfter))

/-- The calls of a process in their order, each with its decision. -/
def decisions (buckets : Buckets (String × String)) : List Call → List (Call × AdmissionDecision)
  | [] => []
  | call :: rest =>
    (call, (tryAdmit buckets call).2) :: decisions (tryAdmit buckets call).1 rest

/-- The buckets of a process after its calls. -/
def bucketsAfter (calls : List Call) : Buckets (String × String) :=
  calls.foldl (fun buckets call => (tryAdmit buckets call).1) .empty

/-- A webhook request to a source: the limit in force and the time. -/
structure SourceRequest where
  sourceId : String
  rpm : ℤ
  now : ℚ

/-- The webhook requests in their order, each with what the limiter says. -/
def sourceDecisions (sourceBuckets : Buckets String) :
    List SourceRequest → List (Except Exc (Bool × ℚ))
  | [] => []
  | r :: rest =>
    (checkSourceRateLimit sourceBuckets r.sourceId r.rpm r.now).2 ::
      sourceDecisions (checkSourceRateLimit sourceBuckets r.sourceId r.rpm r.now).1 rest

/-- The call of `try_admit` with the capacity and the rate of a webhook request. -/
def SourceRequest.asCall (lane : String) (r : SourceRequest) : Call :=
  ⟨lane, r.sourceId, r.rpm, r.rpm / 60, r.now⟩

/-- What the webhook limiter says, as a decision. -/
def asDecision (said : Bool × ℚ) : AdmissionDecision := ⟨said.1, said.2⟩

/-! ### One bucket -/

/-- What a call does to the bucket of its pair. -/
def cell (s : Option (ℚ × ℚ)) (call : Call) : (ℚ × ℚ) × AdmissionDecision :=
  match s with
  | none => ((call.capacity - 1, call.now), ⟨true, 0⟩)
  | some (tokens, lastRefill) =>
    let tokens := min (call.capacity : ℚ) (tokens + (call.now - lastRefill) * call.refillPerSecond)
    if 1 ≤ tokens then ((tokens - 1, call.now), ⟨true, 0⟩)
    else
      ((tokens, call.now), ⟨false,
        if 0 < call.refillPerSecond then ((1 - tokens) / call.refillPerSecond : ℚ) else ⊤⟩)

/-- The calls as inputs of a machine with a bucket for each pair. -/
def machine : Cells.Machine (String × String) Call (ℚ × ℚ) AdmissionDecision := ⟨Call.pair, cell⟩

@[simp] theorem machine_key (call : Call) : machine.key call = call.pair := rfl

theorem tryAdmit_eq_step (buckets : Buckets (String × String)) (call : Call) :
    tryAdmit buckets call = machine.step buckets call := by
  unfold tryAdmit Cells.Machine.step machine cell
  dsimp only
  cases buckets.get? call.pair with
  | none => rfl
  | some s =>
    dsimp only
    split <;> rfl

theorem decisions_eq_outputs (buckets : Buckets (String × String)) (calls : List Call) :
    decisions buckets calls = machine.outputs buckets calls := by
  induction calls generalizing buckets with
  | nil => rfl
  | cons call rest ih => rw [decisions, Cells.Machine.outputs, tryAdmit_eq_step, ih]

theorem bucketsAfter_eq (calls : List Call) : bucketsAfter calls = machine.after .empty calls := by
  unfold bucketsAfter Cells.Machine.after
  simp only [tryAdmit_eq_step]

/-- The stored pair as a token bucket. -/
def asBucket (s : ℚ × ℚ) : TokenBucket.Bucket ℚ := ⟨s.1, s.2⟩

/-- The budget of a call. -/
def Call.budget (call : Call) : TokenBucket.Budget ℚ := ⟨call.capacity, call.refillPerSecond⟩

theorem cell_allowed {s : ℚ × ℚ} {call : Call}
    (h : 1 ≤ call.budget.tokensAt (asBucket s) call.now) :
    cell (some s) call =
      ((call.budget.tokensAt (asBucket s) call.now - 1, call.now), ⟨true, 0⟩) :=
  if_pos h

theorem cell_denied {s : ℚ × ℚ} {call : Call}
    (h : ¬ 1 ≤ call.budget.tokensAt (asBucket s) call.now) :
    cell (some s) call =
      ((call.budget.tokensAt (asBucket s) call.now, call.now), ⟨false,
        if 0 < call.refillPerSecond then
          (call.budget.wait (call.budget.tokensAt (asBucket s) call.now) : ℚ)
        else ⊤⟩) :=
  if_neg h

/-- **The cell of a pair is a token bucket.** -/
theorem cell_bucket (s : Option (ℚ × ℚ)) (call : Call) :
    (asBucket (cell s call).1, (cell s call).2.allowed) =
      call.budget.request (s.map asBucket) call.now := by
  cases s with
  | none => rfl
  | some s =>
    rw [Option.map_some]
    by_cases h : 1 ≤ call.budget.tokensAt (asBucket s) call.now
    · rw [TokenBucket.request_allowed h, cell_allowed h]
      rfl
    · rw [TokenBucket.request_denied h, cell_denied h]
      rfl

theorem retryAfter_eq {s : Option (ℚ × ℚ)} {call : Call} (hrate : 0 < call.refillPerSecond)
    (h : (cell s call).2.allowed = false) : (cell s call).2.retryAfterSeconds =
      (call.budget.wait (asBucket (cell s call).1).tokens : ℚ) := by
  cases s with
  | none => simp [cell] at h
  | some s =>
    by_cases hlt : 1 ≤ call.budget.tokensAt (asBucket s) call.now
    · rw [cell_allowed hlt] at h
      cases h
    · rw [cell_denied hlt]
      exact if_pos hrate

theorem solo_admitted {b : TokenBucket.Budget ℚ} {calls : List Call}
    (hb : ∀ call ∈ calls, call.budget = b) (s : Option (ℚ × ℚ)) :
    ((machine.solo s calls).filter (fun x => x.2.allowed)).map (fun x => x.1.now) =
      b.admitted (s.map asBucket) (calls.map Call.now) := by
  induction calls generalizing s with
  | nil => rfl
  | cons call rest ih =>
    have hcell := cell_bucket s call
    rw [hb call mem_cons_self] at hcell
    have hrest := ih (fun c hc => hb c (mem_cons_of_mem _ hc)) (some (cell s call).1)
    rw [map_cons, TokenBucket.Budget.admitted, ← hcell]
    show (((call, (cell s call).2) :: machine.solo (some (cell s call).1) rest).filter _).map _ = _
    cases h : (cell s call).2.allowed with
    | true =>
      rw [filter_cons_of_pos (by simpa using h), map_cons, hrest]
      rfl
    | false =>
      rw [filter_cons_of_neg (by simp [h]), hrest]
      rfl

/-! ### The webhook limiter -/

/-- The two limiters hold the same buckets, one in a lane of the other. -/
def SameBuckets (lane : String) (sourceBuckets : Buckets String)
    (buckets : Buckets (String × String)) : Prop :=
  ∀ sourceId, sourceBuckets.get? sourceId = buckets.get? (lane, sourceId)

theorem SameBuckets.set {lane : String} {sourceBuckets : Buckets String}
    {buckets : Buckets (String × String)} (h : SameBuckets lane sourceBuckets buckets)
    (sourceId : String) (s : ℚ × ℚ) :
    SameBuckets lane (sourceBuckets.set sourceId s) (buckets.set (lane, sourceId) s) := by
  intro other
  by_cases hk : other = sourceId
  · rw [hk, Dict.get?_set_self, Dict.get?_set_self]
  · rw [Dict.get?_set_ne _ _ hk, Dict.get?_set_ne _ _ (by simpa using hk), h other]

/-- With a limit of at least one request a minute, the webhook limiter does to the bucket of a source
what `try_admit` does to the bucket of a pair. -/
theorem checkSourceRateLimit_eq_cell (sourceBuckets : Buckets String) {r : SourceRequest}
    (hrpm : 1 ≤ r.rpm) (lane : String) :
    (checkSourceRateLimit sourceBuckets r.sourceId r.rpm r.now).1 =
        sourceBuckets.set r.sourceId
          (cell (sourceBuckets.get? r.sourceId) (r.asCall lane)).1 ∧
      (checkSourceRateLimit sourceBuckets r.sourceId r.rpm r.now).2.map asDecision =
        .ok (cell (sourceBuckets.get? r.sourceId) (r.asCall lane)).2 := by
  have hrate : (0 : ℚ) < (r.rpm : ℚ) / 60 := by
    have : (1 : ℚ) ≤ r.rpm := by exact_mod_cast hrpm
    linarith
  unfold checkSourceRateLimit
  cases sourceBuckets.get? r.sourceId with
  | none => exact ⟨rfl, rfl⟩
  | some s =>
    by_cases h : 1 ≤ min (r.rpm : ℚ) (s.1 + (r.now - s.2) * ((r.rpm : ℚ) / 60))
    · have hcell : cell (some s) (r.asCall lane) = _ := cell_allowed h
      rw [hcell]
      dsimp only
      rw [if_pos h]
      exact ⟨rfl, rfl⟩
    · have hcell : cell (some s) (r.asCall lane) = _ := cell_denied h
      rw [hcell, if_pos (show 0 < (r.asCall lane).refillPerSecond from hrate)]
      dsimp only
      rw [if_neg h, if_neg hrate.ne']
      exact ⟨rfl, rfl⟩

theorem SameBuckets.step {lane : String} {sourceBuckets : Buckets String}
    {buckets : Buckets (String × String)} (h : SameBuckets lane sourceBuckets buckets)
    {r : SourceRequest} (hrpm : 1 ≤ r.rpm) :
    (checkSourceRateLimit sourceBuckets r.sourceId r.rpm r.now).2.map asDecision =
        .ok (tryAdmit buckets (r.asCall lane)).2 ∧
      SameBuckets lane (checkSourceRateLimit sourceBuckets r.sourceId r.rpm r.now).1
        (tryAdmit buckets (r.asCall lane)).1 := by
  have hget : buckets.get? (machine.key (r.asCall lane)) = sourceBuckets.get? r.sourceId :=
    (h r.sourceId).symm
  obtain ⟨hbuckets, hsaid⟩ := checkSourceRateLimit_eq_cell sourceBuckets hrpm lane
  rw [hbuckets, hsaid, tryAdmit_eq_step, Cells.Machine.step, hget]
  exact ⟨rfl, h.set _ _⟩

/-- **The webhook limiter makes the decisions of `try_admit`** with its capacity and its rate. -/
theorem sourceDecisions_eq {lane : String} {sourceBuckets : Buckets String}
    {buckets : Buckets (String × String)} (h : SameBuckets lane sourceBuckets buckets)
    {requests : List SourceRequest} (hrpm : ∀ r ∈ requests, 1 ≤ r.rpm) :
    (sourceDecisions sourceBuckets requests).map (Except.map asDecision) =
      (decisions buckets (requests.map (SourceRequest.asCall lane))).map fun x => .ok x.2 := by
  induction requests generalizing sourceBuckets buckets with
  | nil => rfl
  | cons r rest ih =>
    obtain ⟨hsaid, hnext⟩ := h.step (hrpm r mem_cons_self)
    rw [sourceDecisions, map_cons, map_cons, decisions, map_cons, hsaid,
      ih hnext fun r' hr' => hrpm r' (mem_cons_of_mem _ hr')]

/-! ### The contract -/

variable {calls : List Call} {pair : String × String} {capacity : ℤ} {rate : ℚ}

theorem admitted_in_window (htimes : (calls.map Call.now).Pairwise (· ≤ ·)) (hcap : 1 ≤ capacity)
    (hrate : 0 < rate)
    (hpair : ∀ call ∈ calls, call.pair = pair →
      call.capacity = capacity ∧ call.refillPerSecond = rate) {a T : ℚ} (hT : 0 ≤ T) :
    (((decisions .empty calls).filter fun x =>
      x.1.pair = pair ∧ x.2.allowed ∧ a ≤ x.1.now ∧ x.1.now ≤ a + T).length : ℚ) ≤
        capacity + rate * T := by
  let own := calls.filter fun call => call.pair = pair
  have hown : ∀ call ∈ own, call.budget = ⟨capacity, rate⟩ := by
    intro call hcall
    obtain ⟨hmem, hp⟩ := mem_filter.1 hcall
    obtain ⟨h1, h2⟩ := hpair call hmem (by simpa using hp)
    rw [Call.budget, h1, h2]
  have hsorted : (own.map Call.now).Pairwise (· ≤ ·) :=
    htimes.sublist (filter_sublist.map _)
  -- the admitted calls of the pair, as the times its bucket admits
  have hsplit : ((decisions .empty calls).filter fun x =>
      x.1.pair = pair ∧ x.2.allowed ∧ a ≤ x.1.now ∧ x.1.now ≤ a + T) =
      ((machine.solo none own).filter fun x => x.2.allowed).filter fun x =>
        a ≤ x.1.now ∧ x.1.now ≤ a + T := by
    have hsolo : _ = machine.solo none own := machine.outputs_filter .empty calls pair
    rw [← decisions_eq_outputs] at hsolo
    rw [← hsolo, filter_filter, filter_filter]
    refine filter_congr fun x _ => ?_
    simp only [machine_key, Bool.decide_and, Bool.decide_eq_true]
    ac_rfl
  have hfull : (1 : ℚ) ≤ capacity := by exact_mod_cast hcap
  have hcount := TokenBucket.countP_admitted_le (b := ⟨(capacity : ℚ), rate⟩) (s := none) (a := a)
    hfull hrate.le hT (by simp) hsorted
  have hadm := solo_admitted hown none
  rw [hsplit, ← countP_eq_length_filter]
  rw [Option.map_none] at hadm
  rw [← hadm, countP_map] at hcount
  exact hcount

theorem decisions_of_pair : (decisions .empty calls).filter (fun x => x.1.pair = pair) =
      decisions .empty (calls.filter fun call => call.pair = pair) := by
  rw [decisions_eq_outputs, decisions_eq_outputs]
  exact machine.outputs_of_key .empty calls pair

/-- The decision for a call that comes after some others. -/
def decisionAfter (before : List Call) (call : Call) : AdmissionDecision :=
  (tryAdmit (bucketsAfter before) call).2

/-- The same call, later. -/
def Call.later (call : Call) (wait : ℚ) : Call := { call with now := call.now + wait }

theorem decisionAfter_eq_cell (before : List Call) (call : Call) : decisionAfter before call =
      (cell ((bucketsAfter before).get? call.pair) call).2 := by
  rw [decisionAfter, tryAdmit_eq_step]
  rfl

theorem get?_bucketsAfter_lone (before : List Call) (call : Call) {others : List Call}
    (hothers : ∀ c ∈ others, c.pair ≠ call.pair) :
    (bucketsAfter (before ++ call :: others)).get? call.pair =
      some (cell ((bucketsAfter before).get? call.pair) call).1 := by
  rw [bucketsAfter_eq, bucketsAfter_eq, Cells.Machine.after, foldl_append, foldl_cons]
  show (machine.after _ others).get? _ = _
  have hnone : others.filter (fun c => machine.key c = call.pair) = [] :=
    filter_eq_nil_iff.2 fun c hc h => hothers c hc (of_decide_eq_true h)
  rw [machine.get?_after, hnone]
  exact machine.get?_step_self _ call

theorem retry_admitted_iff {before others : List Call} {call : Call} (hcap : 1 ≤ call.capacity)
    (hrate : 0 < call.refillPerSecond) (hothers : ∀ c ∈ others, c.pair ≠ call.pair)
    (hdenied : (decisionAfter before call).allowed = false) :
    ∃ r : ℚ, 0 < r ∧ (decisionAfter before call).retryAfterSeconds = r ∧
      ∀ wait, (decisionAfter (before ++ call :: others) (call.later wait)).allowed = true ↔
        r ≤ wait := by
  rw [decisionAfter_eq_cell] at hdenied ⊢
  have hnext := get?_bucketsAfter_lone before call hothers
  generalize (bucketsAfter before).get? call.pair = s at hdenied hnext ⊢
  -- the bucket the denied call leaves, and the request of the retry to it
  have hbucket := cell_bucket s call
  rw [hdenied] at hbucket
  have hleft : asBucket (cell s call).1 = (call.budget.request (s.map asBucket) call.now).1 :=
    congrArg Prod.fst hbucket
  have hno : (call.budget.request (s.map asBucket) call.now).2 = false :=
    (congrArg Prod.snd hbucket).symm
  refine ⟨_, ?_, retryAfter_eq hrate hdenied, fun wait => ?_⟩
  · rw [hleft]
    exact TokenBucket.wait_pos hrate hno
  · have hretry := congrArg Prod.snd (cell_bucket (some (cell s call).1) (call.later wait))
    rw [decisionAfter_eq_cell, show (call.later wait).pair = call.pair from rfl, hnext]
    rw [show (cell (some (cell s call).1) (call.later wait)).2.allowed = _ from hretry,
      Option.map_some, hleft]
    have hfull : (1 : ℚ) ≤ call.capacity := by exact_mod_cast hcap
    exact TokenBucket.allowed_after_wait (b := call.budget) hfull hrate _ _ wait

/-- **The token bucket of a pair**: the calls admitted in a window, the independence of the pairs,
the wait of a call that is denied, and the webhook limiter. -/
theorem admission_token_buckets (calls : List Call) (pair : String × String) (capacity : ℤ)
    (rate : ℚ) (htimes : (calls.map Call.now).Pairwise (· ≤ ·))
    (hcap : 1 ≤ capacity) (hrate : 0 < rate)
    (hpair : ∀ call ∈ calls, call.pair = pair →
      call.capacity = capacity ∧ call.refillPerSecond = rate) :
    (∀ a T : ℚ, 0 ≤ T → (((decisions .empty calls).filter fun x =>
      x.1.pair = pair ∧ x.2.allowed ∧ a ≤ x.1.now ∧ x.1.now ≤ a + T).length : ℚ) ≤
        capacity + rate * T) ∧
    (decisions .empty calls).filter (fun x => x.1.pair = pair) =
      decisions .empty (calls.filter fun call => call.pair = pair) ∧
    (∀ before call after, calls = before ++ call :: after → call.pair = pair →
      (decisionAfter before call).allowed = false →
        ∀ others : List Call, (∀ c ∈ others, c.pair ≠ pair) →
          ∃ r : ℚ, 0 < r ∧ (decisionAfter before call).retryAfterSeconds = r ∧
            ∀ wait, (decisionAfter (before ++ call :: others) (call.later wait)).allowed = true ↔
              r ≤ wait) ∧
    ∀ (lane : String) (requests : List SourceRequest), (∀ r ∈ requests, 1 ≤ r.rpm) →
      (sourceDecisions .empty requests).map (Except.map asDecision) =
        (decisions .empty (requests.map (SourceRequest.asCall lane))).map fun x => .ok x.2 := by
  refine ⟨fun a T hT => admitted_in_window htimes hcap hrate hpair hT, decisions_of_pair, ?_, ?_⟩
  · rintro before call after rfl rfl hdenied others hothers
    obtain ⟨h1, h2⟩ := hpair call (mem_append_right _ mem_cons_self) rfl
    exact retry_admitted_iff (h1 ▸ hcap) (h2 ▸ hrate) hothers hdenied
  · intro lane requests hrpm
    exact sourceDecisions_eq (fun _ => rfl) hrpm

/-- Two calls of one pair at once, at a capacity of one: one is admitted, and the other has to wait. -/
theorem admission_token_buckets_two : let call : Call := ⟨"default", "a", 1, 1, 0⟩
    (∀ a T : ℚ, 0 ≤ T → (((decisions .empty [call, call]).filter fun x =>
      x.1.pair = ("default", "a") ∧ x.2.allowed ∧ a ≤ x.1.now ∧ x.1.now ≤ a + T).length : ℚ) ≤
        (1 : ℤ) + 1 * T) ∧
    ∃ r : ℚ, 0 < r ∧ (decisionAfter [call] call).retryAfterSeconds = r ∧
      ∀ wait, (decisionAfter ([call] ++ call :: []) (call.later wait)).allowed = true ↔
        r ≤ wait := by
  intro call
  have h := admission_token_buckets [call, call] ("default", "a") 1 1 (by simp) le_rfl one_pos
    (by simp [call, Call.pair])
  exact ⟨h.1, h.2.2.1 [call] call [] rfl rfl (by decide +kernel) [] (by simp)⟩

end Omniscience.Admission
