import Omniscience.Admission.TokenBuckets
import Mathlib.Data.Rat.Floor

/-!
# Fail-closed admission

`FailClosedAdmissionController` puts every request to a backend.  Where the backend is not healthy
or cannot decide, it refuses the background lane and asks a lease authority for the others; it never
turns to a bucket of its own.  `rate_limit_dependency` finds the lane and the bucket of a request
and makes a response of the outcome.

However often the backend fails, and whatever the authority grants, the background requests of a
token that pass within a window are bounded by the budget of the lane (`background_bounded`).
-/

namespace Omniscience.Admission

open List

/-- The states of the controller. -/
inductive AdmissionState where
  | normal
  | backendLost
  deriving DecidableEq

/-- The reasons in an outcome. -/
inductive Reason where
  | laneExhausted
  | backgroundSuspended
  | noProvableAuthority
  | incidentReserve

/-- `AdmissionOutcome`. -/
structure AdmissionOutcome where
  allowed : Bool
  state : AdmissionState
  reason : Option Reason
  retryAfterSeconds : WithTop ℚ := 0

/-- `FailClosedAdmissionController`: its backend and its lease authority, over what they keep.  An
exception of `health` is an `error`, and `AdmissionBackendUnavailableError` is `none`. -/
structure Controller (σ : Type) where
  health : σ → Except Exc Bool × σ
  tryAdmit : σ → Call → Option AdmissionDecision × σ
  tryAcquireIncidentReserve : σ → String → ℤ → Bool × σ
  incidentReserveCapacity : ℤ := 0

/-- `resolve_admission_lane`. -/
def resolveAdmissionLane (scopes : List String) : String :=
  if scopes.any fun scope => scope = "incidents:write" || scope = "admin" then "incident"
  else "background"

/-- The settings, with what `_validate_admission_backend_requirements` and the fields ask. -/
structure Settings where
  rateLimitRpm : ℤ
  isDisabled : Bool
  incidentBudget : Option ℤ
  backgroundBudget : Option ℤ
  reserveFraction : Option ℚ
  required : isDisabled = false →
    incidentBudget.isSome ∧ backgroundBudget.isSome ∧ reserveFraction.isSome
  positive : 1 ≤ rateLimitRpm ∧ (∀ n ∈ incidentBudget, 1 ≤ n) ∧ ∀ n ∈ backgroundBudget, 1 ≤ n

/-- `_lane_capacity_and_bucket`. -/
def laneCapacityAndBucket (settings : Settings) (lane : String) : ℤ × String :=
  match if lane ≠ "background" then settings.incidentBudget else settings.backgroundBudget with
  | some budget => (budget, lane)
  | none => (settings.rateLimitRpm, "default")

/-- A request: its token and its time. -/
structure Request where
  tokenId : String
  scopes : List String
  now : ℚ

/-- What the controller is asked about a request. -/
def Request.call (settings : Settings) (r : Request) : Call :=
  let (capacity, bucketLane) := laneCapacityAndBucket settings (resolveAdmissionLane r.scopes)
  ⟨bucketLane, r.tokenId, capacity, capacity / 60, r.now⟩

/-- The response: the request goes on, or 429 with `Retry-After`, or 503. -/
inductive Response where
  | passes
  | limited (retryAfter : WithTop ℤ)
  | unavailable (reason : Option Reason)

/-- The request goes on. -/
def Response.isPass : Response → Bool
  | .passes => true
  | _ => false

namespace Controller

variable {σ : Type} (c : Controller σ)

/-- `_degrade`. -/
def degrade (s : σ) (call : Call) : AdmissionOutcome × σ :=
  if call.lane = "background" then (⟨false, .backendLost, some .backgroundSuspended, 0⟩, s)
  else
    let (granted, s) := c.tryAcquireIncidentReserve s call.key c.incidentReserveCapacity
    if granted then (⟨true, .backendLost, some .incidentReserve, 0⟩, s)
    else (⟨false, .backendLost, some .noProvableAuthority, 0⟩, s)

/-- `evaluate`. -/
def evaluate (s : σ) (call : Call) : AdmissionOutcome × σ :=
  match c.health s with
  | (.ok true, s) =>
    match c.tryAdmit s call with
    | (some decision, s) =>
      (⟨decision.allowed, .normal, if decision.allowed then none else some .laneExhausted,
        decision.retryAfterSeconds⟩, s)
    | (none, s) => c.degrade s call
  | (_, s) => c.degrade s call

/-- `rate_limit_dependency`. -/
def rateLimitDependency (settings : Settings) (s : σ) (r : Request) : Response × σ :=
  let (outcome, s) := c.evaluate s (r.call settings)
  if outcome.allowed then (.passes, s)
  else if outcome.state = .backendLost then (.unavailable outcome.reason, s)
  else (.limited (outcome.retryAfterSeconds.map fun wait => ⌊wait⌋ + 1), s)

/-- The requests to a process, each with its response. -/
def responses (settings : Settings) : σ → List Request → List (Request × Response)
  | _, [] => []
  | s, r :: rest =>
    (r, (c.rateLimitDependency settings s r).1) ::
      responses settings (c.rateLimitDependency settings s r).2 rest

/-- The backend is the token buckets, as far as it answers at all. -/
structure IsBucketed (buckets : σ → Buckets (String × String)) : Prop where
  health : ∀ s, buckets (c.health s).2 = buckets s
  acquire : ∀ s key capacity, buckets (c.tryAcquireIncidentReserve s key capacity).2 = buckets s
  decided : ∀ s call,
    (c.tryAdmit s call).1 = none ∧ buckets (c.tryAdmit s call).2 = buckets s ∨
      (c.tryAdmit s call).1 = some (Admission.tryAdmit (buckets s) call).2 ∧
        buckets (c.tryAdmit s call).2 = (Admission.tryAdmit (buckets s) call).1

variable {c} {buckets : σ → Buckets (String × String)}

theorem degrade_spec (h : c.IsBucketed buckets) (s : σ) (call : Call) :
    buckets (c.degrade s call).2 = buckets s ∧ (c.degrade s call).1.state = .backendLost ∧
      (call.lane = "background" → (c.degrade s call).1.allowed = false) := by
  unfold degrade
  split
  · exact ⟨rfl, rfl, fun _ => rfl⟩
  · rename_i hlane
    have hkept := h.acquire s call.key c.incidentReserveCapacity
    dsimp only
    split <;> exact ⟨hkept, rfl, fun hlane' => absurd hlane' hlane⟩

theorem evaluate_of_unhealthy {s : σ} (h : (c.health s).1 ≠ .ok true) (call : Call) :
    c.evaluate s call = c.degrade (c.health s).2 call := by
  unfold evaluate
  split
  · rename_i s' heq
    exact absurd (congrArg Prod.fst heq) h
  · rename_i s' _ heq
    rw [heq]

/-- A request is decided by its bucket, or the buckets stay and the background lane is refused. -/
theorem evaluate_cases (h : c.IsBucketed buckets) (s : σ) (call : Call) :
    ((c.evaluate s call).1.allowed = (Admission.tryAdmit (buckets s) call).2.allowed ∧
      buckets (c.evaluate s call).2 = (Admission.tryAdmit (buckets s) call).1) ∨
    (buckets (c.evaluate s call).2 = buckets s ∧
      (call.lane = "background" → (c.evaluate s call).1.allowed = false)) := by
  have hhealth := h.health s
  unfold evaluate
  split
  · rename_i s' heq
    rw [heq] at hhealth
    have hadmit := h.decided s' call
    rw [hhealth] at hadmit
    split
    · rename_i decision s'' heq'
      rw [heq'] at hadmit
      rcases hadmit with ⟨hnone, -⟩ | ⟨hsome, hbuckets⟩
      · cases hnone
      · cases hsome
        exact .inl ⟨rfl, hbuckets⟩
    · rename_i s'' heq'
      rw [heq'] at hadmit
      rcases hadmit with ⟨-, hbuckets⟩ | ⟨hsome, -⟩
      · obtain ⟨hkept, -, hrefused⟩ := degrade_spec h s'' call
        exact .inr ⟨hkept.trans hbuckets, hrefused⟩
      · cases hsome
  · rename_i s' _ heq
    rw [heq] at hhealth
    obtain ⟨hkept, -, hrefused⟩ := degrade_spec h s' call
    exact .inr ⟨hkept.trans hhealth, hrefused⟩

variable {settings : Settings}

variable (c settings) in
theorem rateLimitDependency_spec (s : σ) (r : Request) :
    (c.rateLimitDependency settings s r).1.isPass = (c.evaluate s (r.call settings)).1.allowed ∧
      (c.rateLimitDependency settings s r).2 = (c.evaluate s (r.call settings)).2 := by
  unfold rateLimitDependency
  dsimp only
  split
  · rename_i hallowed
    exact ⟨hallowed.symm, rfl⟩
  · rename_i hallowed
    have hdenied := Bool.eq_false_iff.2 hallowed
    split <;> exact ⟨hdenied.symm, rfl⟩

variable (settings) in
/-- Some of the requests were decided by the buckets, and no other one passes in the background
lane. -/
theorem exists_decided (h : c.IsBucketed buckets) (s : σ) (requests : List Request) :
    ∃ decided, decided <+ requests.map (Request.call settings) ∧
      ∀ test : Call → Bool, (∀ call, test call = true → call.lane = "background") →
        (c.responses settings s requests).countP
            (fun x => test (x.1.call settings) && x.2.isPass) ≤
          (decisions (buckets s) decided).countP fun x => test x.1 && x.2.allowed := by
  induction requests generalizing s with
  | nil => exact ⟨[], .slnil, fun _ _ => le_rfl⟩
  | cons r rest ih =>
    obtain ⟨hpass, hnext⟩ := rateLimitDependency_spec c settings s r
    obtain ⟨decided, hsub, hcount⟩ := ih (c.rateLimitDependency settings s r).2
    rw [hnext] at hcount
    rcases evaluate_cases h s (r.call settings) with ⟨hallowed, hbuckets⟩ | ⟨hbuckets, hrefused⟩
    · refine ⟨r.call settings :: decided, hsub.cons_cons _, fun test htest => ?_⟩
      rw [responses, decisions, countP_cons, countP_cons, hpass, hallowed, hnext, ← hbuckets]
      exact Nat.add_le_add_right (hcount test htest) _
    · refine ⟨decided, hsub.cons _, fun test htest => ?_⟩
      rw [responses, countP_cons_of_neg, hnext, ← hbuckets]
      · exact hcount test htest
      · rw [hpass]
        intro hand
        obtain ⟨hlane, hyes⟩ := Bool.and_eq_true_iff.1 hand
        rw [hrefused (htest _ hlane)] at hyes
        cases hyes

theorem exists_of_mem_responses {s : σ} {requests : List Request} {x : Request × Response}
    (h : x ∈ c.responses settings s requests) :
    ∃ s', x.2 = (c.rateLimitDependency settings s' x.1).1 := by
  induction requests generalizing s with
  | nil => cases h
  | cons r rest ih =>
    rcases mem_cons.1 h with rfl | h
    · exact ⟨s, rfl⟩
    · exact ih h

end Controller

/-- `ProcessLocalAdmissionBackend` and no lease authority. -/
def processLocal : Controller (Buckets (String × String)) where
  health s := (.ok true, s)
  tryAdmit s call := (some (tryAdmit s call).2, (tryAdmit s call).1)
  tryAcquireIncidentReserve s _ _ := (false, s)

/-- `SharedAdmissionBackend`, a stub, and no lease authority. -/
def shared (incidentReserveCapacity : ℤ) : Controller (Buckets (String × String)) where
  health s := (.ok false, s)
  tryAdmit s _ := (none, s)
  tryAcquireIncidentReserve s _ _ := (false, s)
  incidentReserveCapacity := incidentReserveCapacity

/-- `_controller_for`. -/
def controllerFor (settings : Settings) : Controller (Buckets (String × String)) :=
  if settings.isDisabled then processLocal
  else shared ⌊(settings.incidentBudget.getD 0 : ℚ) * settings.reserveFraction.getD 0⌋

theorem isBucketed_controllerFor (settings : Settings) :
    (controllerFor settings).IsBucketed fun s => s := by
  unfold controllerFor
  split
  · exact ⟨fun _ => rfl, fun _ _ _ => rfl, fun _ _ => .inr ⟨rfl, rfl⟩⟩
  · exact ⟨fun _ => rfl, fun _ _ _ => rfl, fun _ _ => .inl ⟨rfl, rfl⟩⟩

/-- A request in the background lane. -/
def Request.IsBackground (r : Request) : Prop := resolveAdmissionLane r.scopes = "background"

instance (r : Request) : Decidable r.IsBackground := inferInstanceAs (Decidable (_ = _))

theorem resolveAdmissionLane_eq (scopes : List String) :
    resolveAdmissionLane scopes = "incident" ∨ resolveAdmissionLane scopes = "background" := by
  unfold resolveAdmissionLane
  split
  · exact .inl rfl
  · exact .inr rfl

section

variable {settings : Settings} {budget : ℤ} {r : Request}

theorem call_of_background (hbudget : settings.backgroundBudget = some budget)
    (h : r.IsBackground) :
    r.call settings = ⟨"background", r.tokenId, budget, budget / 60, r.now⟩ := by
  have hlane : resolveAdmissionLane r.scopes = "background" := h
  simp [Request.call, laneCapacityAndBucket, hlane, hbudget]

theorem call_lane_iff (hbudget : settings.backgroundBudget = some budget) :
    (r.call settings).lane = "background" ↔ r.IsBackground := by
  refine ⟨fun h => ?_, fun h => by rw [call_of_background hbudget h]⟩
  rcases resolveAdmissionLane_eq r.scopes with hlane | hlane
  · cases hincident : settings.incidentBudget <;>
      simp [Request.call, laneCapacityAndBucket, hlane, hincident] at h
  · exact hlane

end

/-- **The background lane is bounded**: the background requests of a token that pass within a window
are at most what the budget of the lane admits.  None passes while the backend is not healthy. -/
theorem background_bounded {σ : Type} (c : Controller σ) (buckets : σ → Buckets (String × String))
    (h : c.IsBucketed buckets) (settings : Settings) (budget : ℤ)
    (hbudget : settings.backgroundBudget = some budget) (s : σ) (hs : buckets s = .empty)
    (requests : List Request) (htimes : (requests.map Request.now).Pairwise (· ≤ ·)) :
    (∀ (tokenId : String) (a T : ℚ), 0 ≤ T →
      (((c.responses settings s requests).filter fun x => x.1.tokenId = tokenId ∧
        x.1.IsBackground ∧ x.2.isPass ∧ a ≤ x.1.now ∧ x.1.now ≤ a + T).length : ℚ) ≤
          budget + budget / 60 * T) ∧
    ((∀ s, (c.health s).1 ≠ .ok true) → ∀ x ∈ c.responses settings s requests,
      x.1.IsBackground → x.2 = .unavailable (some .backgroundSuspended)) := by
  refine ⟨fun tokenId a T hT => ?_, fun hhealth x hx hbackground => ?_⟩
  · obtain ⟨decided, hsub, hcount⟩ := Controller.exists_decided settings h s requests
    let test : Call → Bool := fun call =>
      call.pair = ("background", tokenId) ∧ a ≤ call.now ∧ call.now ≤ a + T
    have htest : ∀ call, test call = true → call.lane = "background" := fun call hcall =>
      congrArg Prod.fst (of_decide_eq_true hcall).1
    have hmem : ∀ call ∈ decided, call.pair = ("background", tokenId) →
        call.capacity = budget ∧ call.refillPerSecond = budget / 60 := by
      intro call hcall hpair
      obtain ⟨r, -, rfl⟩ := mem_map.1 (hsub.subset hcall)
      have hlane := (call_lane_iff hbudget).1 (congrArg Prod.fst hpair)
      rw [call_of_background hbudget hlane]
      exact ⟨rfl, rfl⟩
    have htimes' : (decided.map Call.now).Pairwise (· ≤ ·) := by
      have hall : ((requests.map (Request.call settings)).map Call.now).Pairwise (· ≤ ·) := by
        rw [map_map]
        exact htimes
      exact hall.sublist (hsub.map _)
    have hpos : (0 : ℚ) < (budget : ℚ) / 60 := by
      have hbudget' : (1 : ℚ) ≤ budget := by exact_mod_cast settings.positive.2.2 budget hbudget
      linarith
    have hwindow := admitted_in_window htimes' (settings.positive.2.2 budget hbudget) hpos hmem
      (a := a) hT
    refine le_trans ?_ hwindow
    rw [← countP_eq_length_filter, ← countP_eq_length_filter]
    have hcount' := hcount test htest
    rw [hs] at hcount'
    refine Nat.cast_le.2 (le_trans (le_of_eq ?_) (hcount'.trans (le_of_eq ?_)))
    · refine countP_congr fun x _ => ?_
      have hpair : (x.1.call settings).pair = ("background", tokenId) ↔
          x.1.IsBackground ∧ x.1.tokenId = tokenId :=
        Prod.ext_iff.trans (and_congr_left' (call_lane_iff hbudget))
      simp only [test, Bool.and_eq_true, decide_eq_true_eq, hpair]
      show _ ↔ (_ ∧ a ≤ x.1.now ∧ x.1.now ≤ a + T) ∧ _
      tauto
    · refine countP_congr fun x _ => ?_
      simp only [test, Bool.and_eq_true, decide_eq_true_eq]
      tauto
  · obtain ⟨s', hx'⟩ := Controller.exists_of_mem_responses hx
    have hcall := call_of_background hbudget hbackground
    rw [hx']
    unfold Controller.rateLimitDependency
    rw [Controller.evaluate_of_unhealthy (hhealth s') _, hcall]
    rfl

/-- Two requests of a token at once, at a budget of one a minute: one of them passes. -/
theorem background_bounded_two :
    let settings : Settings :=
      ⟨60, true, none, some 1, none, fun h => absurd h (by decide), by decide⟩
    let r : Request := ⟨"a", [], 0⟩
    (((controllerFor settings).responses settings .empty [r, r]).filter fun x =>
      x.1.tokenId = "a" ∧ x.1.IsBackground ∧ x.2.isPass ∧ 0 ≤ x.1.now ∧ x.1.now ≤ 0 + 30).length ≤
        ((1 : ℤ) + (1 : ℤ) / 60 * 30 : ℚ) := by
  intro settings r
  exact (background_bounded (controllerFor settings) _ (isBucketed_controllerFor settings) settings
    1 rfl .empty rfl [r, r] (by simp)).1 "a" 0 30 (by norm_num)

end Omniscience.Admission
