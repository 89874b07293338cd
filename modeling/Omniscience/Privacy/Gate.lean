import Omniscience.Privacy.Policy

/-!
# The privacy gate

`IngestPIIGate.evaluate` looks at the policy bundle first (`checkPolicySkew`), then asks the
detector, and quarantines what is not admitted.  An exception of the detector parks the envelope; so
does an exception of the quarantine store, if it is a `QuarantineUnavailableError`.

The inputs are as wide as the source lets them be: a detector returns anything (with or without the
two attributes that are read) or raises anything, and the store returns an identifier or raises
anything.

* `FailClosed` : what the gate is for.
* `failClosed_iff` : when it is met.
-/

namespace Omniscience.Privacy

/-! ### The taxonomy -/

/-- `DATA_CLASSES`. -/
def dataClasses : List String :=
  ["public", "internal_non_personal", "personal", "sensitive_personal", "prohibited", "unknown"]

/-- `TRANSFORM_STATES`. -/
def transformStates : List String := ["raw", "redacted", "pseudonymized", "aggregated"]

/-- `PW0_SAFE_DATA_CLASSES`. -/
def pw0SafeDataClasses : List String := ["public", "internal_non_personal"]

/-- `PW0_REDACTION_ELIGIBLE_CLASSES`. -/
def pw0RedactionEligibleClasses : List String := ["personal", "sensitive_personal"]

/-- `is_pw0_admitted`. -/
def isPw0Admitted (dataClass transformState : Json) : Bool :=
  if !inTuple dataClass dataClasses || !inTuple transformState transformStates then false
  else if inTuple dataClass pw0SafeDataClasses then true
  else inTuple dataClass pw0RedactionEligibleClasses && inTuple transformState ["redacted"]

/-! ### The gate -/

/-- `GateDisposition`. -/
inductive GateDisposition where
  | admitted
  | quarantined
  | parked
  deriving DecidableEq, Repr

/-- `disposition.value`. -/
def GateDisposition.value : GateDisposition → String
  | .admitted => "admitted"
  | .quarantined => "quarantined"
  | .parked => "parked"

/-- `DataEnvelope`. -/
structure DataEnvelope where
  envelopeId : String
  tenantId : String
  sourceRef : String
  dataClass : String
  transformState : String
  fieldManifest : List String
  allowedFields : List String
  allowedSinks : List String
  policyRevision : String
  producedAt : String
  integrity : List (String × String)

/-- What the detector returns, as far as the gate reads it; an attribute may be missing. -/
structure Detection where
  /-- `detection.data_class`. -/
  dataClass : Option Json
  /-- `detection.transform_state`. -/
  transformState : Option Json

/-- `detector.classify`. -/
abbrev Detector := DataEnvelope → Except Raised Detection

/-- `quarantine_store.put`. -/
abbrev QuarantineStore := DataEnvelope → Except Raised String

/-- `BoundaryReceipt`. -/
structure BoundaryReceipt where
  receiptId : String
  disposition : String
  reason : String
  envelopeDigest : String
  policyRevision : Json
  profile : String
  producedAt : String
  producer : String
  detail : List String

/-- `GateDecision`. -/
structure GateDecision where
  disposition : GateDisposition
  reason : String
  receipt : BoundaryReceipt
  quarantineId : Option String

/-- `digest_envelope_identity`; the two keys are written in their order. -/
def digestEnvelopeIdentity (py : Py) (envelopeId policyRevision : String) : String :=
  "sha256:" ++ py.sha256
    (py.dumps (.obj [("envelope_id", .str envelopeId), ("policy_revision", .str policyRevision)]))

/-- `IngestPIIGate`. -/
structure IngestPIIGate where
  quarantineStore : QuarantineStore
  consumerPin : ConsumerPolicyPin

/-- The arguments of `evaluate`. -/
structure Evaluation where
  envelope : DataEnvelope
  policyBundle : Metadata
  detector : Detector
  referenceNow : String
  receiptId : String
  producedAt : String

section Gate

variable (py : Py) (floats : FloatOrder)

/-- `_receipt`. -/
def receipt (e : Evaluation) (disposition : GateDisposition) (reason : String)
    (detail : List String) : BoundaryReceipt where
  receiptId := e.receiptId
  disposition := disposition.value
  reason := reason
  envelopeDigest := digestEnvelopeIdentity py e.envelope.envelopeId e.envelope.policyRevision
  policyRevision := Mapping.get e.policyBundle "policy_revision"
  profile := "PW0"
  producedAt := e.producedAt
  producer := "omniscience-pw0-gate"
  detail := detail

/-- `_park`. -/
def park (e : Evaluation) (reason : String) (detail : List String) : GateDecision :=
  ⟨.parked, reason, receipt py e .parked reason detail, none⟩

/-- `_admit`. -/
def admitEnvelope (e : Evaluation) : GateDecision :=
  ⟨.admitted, "pw0_admitted", receipt py e .admitted "pw0_admitted" [], none⟩

/-- `_quarantine_or_park`. -/
def quarantineOrPark (gate : IngestPIIGate) (e : Evaluation) (reason : String) :
    Except Raised GateDecision :=
  match gate.quarantineStore e.envelope with
  | .ok quarantineId =>
    .ok ⟨.quarantined, reason, receipt py e .quarantined reason [], some quarantineId⟩
  | .error exc =>
    if exc.kind = .quarantineUnavailable then .ok (park py e "quarantine_unavailable" [exc.text])
    else .error exc

/-- What `evaluate` does with the result of the detector. -/
def afterDetection (gate : IngestPIIGate) (e : Evaluation) (detection : Detection) :
    Except Raised GateDecision :=
  match detection.dataClass with
  | none => .error (noAttribute "object" "data_class")
  | some dataClass =>
    if !inTuple dataClass dataClasses || inTuple dataClass ["unknown"] then
      quarantineOrPark py gate e "unknown_class"
    else
      match detection.transformState with
      | none => .error (noAttribute "object" "transform_state")
      | some transformState =>
        if isPw0Admitted dataClass transformState then .ok (admitEnvelope py e)
        else quarantineOrPark py gate e "not_pw0_admitted"

/-- `IngestPIIGate.evaluate`. -/
def evaluate (gate : IngestPIIGate) (e : Evaluation) : Except Raised GateDecision :=
  match checkPolicySkew py floats gate.consumerPin e.policyBundle e.referenceNow with
  | .error exc => .error exc
  | .ok (error :: more) => .ok (park py e "policy_skew" (error :: more))
  | .ok [] =>
    match e.detector e.envelope with
    | .error exc =>
      if exc.kind = .baseException then .error exc
      else .ok (park py e "detector_failure" [exc.className ++ ": " ++ exc.text])
    | .ok detection => afterDetection py gate e detection

/-! ### What the gate is for -/

/-- A result of the detector with a class and a transformation that PW0 admits. -/
def Detection.Safe (detection : Detection) : Prop :=
  ∃ dataClass transformState, detection.dataClass = some dataClass ∧
    detection.transformState = some transformState ∧ isPw0Admitted dataClass transformState = true

/-- The detector returns such a result. -/
def DetectedSafe (e : Evaluation) : Prop :=
  ∃ detection, e.detector e.envelope = .ok detection ∧ detection.Safe

/-- The receipt of a decision: it names the decision and its reason, under the identifier asked
for. -/
structure Receipted (e : Evaluation) (decision : GateDecision) : Prop where
  disposition : decision.receipt.disposition = decision.disposition.value
  reason : decision.receipt.reason = decision.reason
  receiptId : decision.receipt.receiptId = e.receiptId

/-- **The gate fails closed**: it decides, with a receipt of the decision, and admits an envelope
only under matching pins, in the window and with a safe detection. -/
structure FailClosed (gate : IngestPIIGate) (e : Evaluation) : Prop where
  decides : ∃ decision, evaluate py floats gate e = .ok decision ∧ Receipted e decision
  safe : ∀ decision, evaluate py floats gate e = .ok decision → decision.disposition = .admitted →
    PinsMatch floats gate.consumerPin e.policyBundle ∧ InWindow e.referenceNow e.policyBundle ∧
      DetectedSafe e

/-- The class is one of the taxonomy other than `unknown`. -/
def KnownClass (dataClass : Json) : Prop :=
  inTuple dataClass dataClasses = true ∧ dataClass ≠ .str "unknown"

/-- The result has the attributes that are read: a class, and a transformation if the class is
known. -/
def Detection.Complete (detection : Detection) : Prop :=
  ∃ dataClass, detection.dataClass = some dataClass ∧
    (KnownClass dataClass → ∃ transformState, detection.transformState = some transformState)

/-- The store does not raise, or with the one exception that the gate handles. -/
def StoreHandled (gate : IngestPIIGate) (e : Evaluation) : Prop :=
  ∀ exc, gate.quarantineStore e.envelope = .error exc → exc.kind = .quarantineUnavailable

/-- What the detector and the store may do. -/
structure OutcomeHandled (gate : IngestPIIGate) (e : Evaluation) : Prop where
  /-- What the detector raises is an `Exception`. -/
  raised : ∀ exc, e.detector e.envelope = .error exc → exc.kind ≠ .baseException
  /-- What it returns has a class, and a transformation if the class is known. -/
  returned : ∀ detection, e.detector e.envelope = .ok detection → detection.Complete
  /-- Where it is not safe, the store takes the envelope or is unavailable. -/
  stored : ∀ detection, e.detector e.envelope = .ok detection → ¬ detection.Safe →
    StoreHandled gate e

variable {py floats}

/-! ### The stages of the gate -/

variable {gate : IngestPIIGate} {e : Evaluation} {decision : GateDecision} {detection : Detection}

theorem inTuple_iff {value : Json} {values : List String} :
    inTuple value values = true ↔ ∃ s ∈ values, value = .str s := by
  cases value <;> simp [inTuple]

theorem unknown_iff {dataClass : Json} :
    (!inTuple dataClass dataClasses || inTuple dataClass ["unknown"]) = true ↔
      ¬ KnownClass dataClass := by
  have hunknown : inTuple dataClass ["unknown"] = true ↔ dataClass = .str "unknown" := by
    simp [inTuple_iff]
  rw [KnownClass, Bool.or_eq_true, Bool.not_eq_true', hunknown, not_and_or, not_not,
    Bool.not_eq_true]

theorem knownClass_of_admitted {dataClass transformState : Json}
    (h : isPw0Admitted dataClass transformState = true) : KnownClass dataClass := by
  unfold isPw0Admitted at h
  split at h
  · cases h
  · rename_i hclass
    simp only [Bool.or_eq_true, Bool.not_eq_true', not_or, Bool.not_eq_false] at hclass
    refine ⟨hclass.1, ?_⟩
    rintro rfl
    simp [inTuple, pw0SafeDataClasses, pw0RedactionEligibleClasses] at h

theorem quarantineOrPark_returns {reason : String} :
    (∃ decision, quarantineOrPark py gate e reason = .ok decision) ↔ StoreHandled gate e := by
  unfold quarantineOrPark StoreHandled
  cases gate.quarantineStore e.envelope with
  | ok quarantineId => simp
  | error exc => by_cases hkind : exc.kind = .quarantineUnavailable <;> simp [hkind]

theorem quarantineOrPark_spec {reason : String}
    (h : quarantineOrPark py gate e reason = .ok decision) :
    decision.disposition ≠ .admitted ∧ Receipted e decision := by
  unfold quarantineOrPark at h
  split at h
  · cases h
    exact ⟨nofun, rfl, rfl, rfl⟩
  · split at h
    · cases h
      exact ⟨nofun, rfl, rfl, rfl⟩
    · cases h

theorem afterDetection_safe (h : detection.Safe) :
    afterDetection py gate e detection = .ok (admitEnvelope py e) := by
  obtain ⟨dataClass, transformState, hclass, htransform, hadmitted⟩ := h
  have hknown := knownClass_of_admitted hadmitted
  unfold afterDetection
  rw [hclass, htransform]
  dsimp only
  rw [if_neg (fun hunknown => unknown_iff.1 hunknown hknown), if_pos hadmitted]

theorem afterDetection_not_safe (h : ¬ detection.Safe) (hcomplete : detection.Complete) :
    ∃ reason, afterDetection py gate e detection = quarantineOrPark py gate e reason := by
  obtain ⟨dataClass, hclass, hknown⟩ := hcomplete
  unfold afterDetection
  rw [hclass]
  dsimp only
  by_cases hunknown : KnownClass dataClass
  · rw [if_neg (fun hu => unknown_iff.1 hu hunknown)]
    obtain ⟨transformState, htransform⟩ := hknown hunknown
    rw [htransform]
    dsimp only
    rw [if_neg fun hadmitted => h ⟨dataClass, transformState, hclass, htransform, hadmitted⟩]
    exact ⟨_, rfl⟩
  · rw [if_pos (unknown_iff.2 hunknown)]
    exact ⟨_, rfl⟩

theorem afterDetection_incomplete (h : ¬ detection.Complete) :
    ∃ exc, afterDetection py gate e detection = .error exc := by
  unfold afterDetection
  cases hclass : detection.dataClass with
  | none => exact ⟨_, rfl⟩
  | some dataClass =>
    dsimp only
    by_cases hknown : KnownClass dataClass
    · rw [if_neg (fun hu => unknown_iff.1 hu hknown)]
      cases htransform : detection.transformState with
      | none => exact ⟨_, rfl⟩
      | some transformState => exact absurd ⟨dataClass, hclass, fun _ => ⟨_, htransform⟩⟩ h
    · exact absurd ⟨dataClass, hclass, fun hk => absurd hk hknown⟩ h

theorem afterDetection_returns : (∃ decision, afterDetection py gate e detection = .ok decision) ↔
      detection.Complete ∧ (¬ detection.Safe → StoreHandled gate e) := by
  by_cases hcomplete : detection.Complete
  · by_cases hsafe : detection.Safe
    · rw [afterDetection_safe hsafe]
      exact ⟨fun _ => ⟨hcomplete, fun hns => absurd hsafe hns⟩, fun _ => ⟨_, rfl⟩⟩
    · obtain ⟨reason, hreason⟩ :
          ∃ reason, afterDetection py gate e detection = quarantineOrPark py gate e reason :=
        afterDetection_not_safe hsafe hcomplete
      rw [hreason, quarantineOrPark_returns]
      exact ⟨fun h => ⟨hcomplete, fun _ => h⟩, fun h => h.2 hsafe⟩
  · obtain ⟨exc, hexc⟩ : ∃ exc, afterDetection py gate e detection = .error exc :=
      afterDetection_incomplete hcomplete
    rw [hexc]
    constructor
    · rintro ⟨decision, ⟨⟩⟩
    · exact fun h => absurd h.1 hcomplete

theorem afterDetection_spec (h : afterDetection py gate e detection = .ok decision) :
    (decision.disposition = .admitted → detection.Safe) ∧ Receipted e decision := by
  by_cases hsafe : detection.Safe
  · rw [afterDetection_safe hsafe] at h
    cases h
    exact ⟨fun _ => hsafe, rfl, rfl, rfl⟩
  · have hcomplete : detection.Complete := (afterDetection_returns.1 ⟨decision, h⟩).1
    obtain ⟨reason, hreason⟩ :
        ∃ reason, afterDetection py gate e detection = quarantineOrPark py gate e reason :=
      afterDetection_not_safe hsafe hcomplete
    rw [hreason] at h
    obtain ⟨hne, hreceipt⟩ := quarantineOrPark_spec h
    exact ⟨fun hadmitted => absurd hadmitted hne, hreceipt⟩

theorem evaluate_of_nil
    (h : checkPolicySkew py floats gate.consumerPin e.policyBundle e.referenceNow = .ok []) :
    evaluate py floats gate e =
      match e.detector e.envelope with
      | .error exc =>
        if exc.kind = .baseException then .error exc
        else .ok (park py e "detector_failure" [exc.className ++ ": " ++ exc.text])
      | .ok detection => afterDetection py gate e detection := by
  rw [evaluate, h]

theorem evaluate_returns_of_nil
    (h : checkPolicySkew py floats gate.consumerPin e.policyBundle e.referenceNow = .ok []) :
    (∃ decision, evaluate py floats gate e = .ok decision) ↔ OutcomeHandled gate e := by
  rw [evaluate_of_nil h]
  cases hdetector : e.detector e.envelope with
  | error exc =>
    dsimp only
    by_cases hkind : exc.kind = .baseException
    · rw [if_pos hkind]
      constructor
      · rintro ⟨decision, ⟨⟩⟩
      · exact fun hhandled => absurd hkind (hhandled.raised exc hdetector)
    · rw [if_neg hkind]
      refine ⟨fun _ => ⟨?_, ?_, ?_⟩, fun _ => ⟨_, rfl⟩⟩
      · intro exc' hexc'
        rw [hdetector] at hexc'
        cases hexc'
        exact hkind
      · intro detection hdetection
        rw [hdetector] at hdetection
        cases hdetection
      · intro detection hdetection
        rw [hdetector] at hdetection
        cases hdetection
  | ok detection =>
    dsimp only
    rw [afterDetection_returns]
    constructor
    · rintro ⟨hcomplete, hstored⟩
      refine ⟨?_, ?_, ?_⟩
      · intro exc hexc
        rw [hdetector] at hexc
        cases hexc
      · intro detection' hdetection'
        rw [hdetector] at hdetection'
        cases hdetection'
        exact hcomplete
      · intro detection' hdetection'
        rw [hdetector] at hdetection'
        cases hdetection'
        exact hstored
    · intro hhandled
      exact ⟨hhandled.returned detection hdetector, hhandled.stored detection hdetector⟩

/-- **The gate admits only under matching pins, compared texts and a safe detection**, and every
decision has its receipt. -/
theorem evaluate_spec (h : evaluate py floats gate e = .ok decision) :
    (decision.disposition = .admitted → PinsMatch floats gate.consumerPin e.policyBundle ∧
      TextWindow e.referenceNow e.policyBundle ∧ DetectedSafe e) ∧ Receipted e decision := by
  cases hskew : checkPolicySkew py floats gate.consumerPin e.policyBundle e.referenceNow with
  | error exc =>
    rw [evaluate, hskew] at h
    cases h
  | ok errors =>
    cases errors with
    | cons error more =>
      rw [evaluate, hskew] at h
      cases h
      exact ⟨nofun, rfl, rfl, rfl⟩
    | nil =>
      rw [evaluate_of_nil hskew] at h
      cases hdetector : e.detector e.envelope with
      | error exc =>
        rw [hdetector] at h
        dsimp only at h
        split at h
        · cases h
        · cases h
          exact ⟨nofun, rfl, rfl, rfl⟩
      | ok detection =>
        rw [hdetector] at h
        obtain ⟨hsafe, hreceipt⟩ := afterDetection_spec h
        obtain ⟨-, hpins, hwindow⟩ := checkPolicySkew_nil.1 hskew
        exact ⟨fun hadmitted => ⟨hpins, hwindow, detection, hdetector, hsafe hadmitted⟩, hreceipt⟩

/-- **When the gate fails closed.**  The bundle can be read; where its pins match and the texts of
its window are in order, the outcomes of the detector and of the store are handled, and with a safe
detection the instants are in order too. -/
theorem failClosed_iff : FailClosed py floats gate e ↔
      Readable floats gate.consumerPin e.policyBundle ∧
      (PinsMatch floats gate.consumerPin e.policyBundle →
        TextWindow e.referenceNow e.policyBundle →
          OutcomeHandled gate e ∧
            (DetectedSafe e → InWindow e.referenceNow e.policyBundle)) := by
  constructor
  · rintro ⟨⟨decision, hdecision, -⟩, hsafe⟩
    have hreturns : ∃ errors, checkPolicySkew py floats gate.consumerPin e.policyBundle
        e.referenceNow = .ok errors := by
      cases hskew : checkPolicySkew py floats gate.consumerPin e.policyBundle e.referenceNow with
      | error exc =>
        rw [evaluate, hskew] at hdecision
        cases hdecision
      | ok errors => exact ⟨errors, rfl⟩
    have hreadable := checkPolicySkew_returns.1 hreturns
    refine ⟨hreadable, fun hpins hwindow => ?_⟩
    have hnil : checkPolicySkew py floats gate.consumerPin e.policyBundle e.referenceNow = .ok [] :=
      checkPolicySkew_nil.2 ⟨hreadable, hpins, hwindow⟩
    refine ⟨(evaluate_returns_of_nil hnil).1 ⟨decision, hdecision⟩, ?_⟩
    rintro ⟨detection, hdetector, hdetection⟩
    have hadmitted : evaluate py floats gate e = .ok (admitEnvelope py e) := by
      rw [evaluate_of_nil hnil, hdetector]
      exact afterDetection_safe hdetection
    exact (hsafe _ hadmitted rfl).2.1
  · rintro ⟨hreadable, hrest⟩
    obtain ⟨errors, hskew⟩ :
        ∃ errors, checkPolicySkew py floats gate.consumerPin e.policyBundle e.referenceNow =
          .ok errors :=
      checkPolicySkew_returns.2 hreadable
    have hdecides : ∃ decision, evaluate py floats gate e = .ok decision := by
      cases errors with
      | cons error more => exact ⟨_, by rw [evaluate, hskew]⟩
      | nil =>
        obtain ⟨-, hpins, hwindow⟩ := checkPolicySkew_nil.1 hskew
        exact (evaluate_returns_of_nil hskew).2 (hrest hpins hwindow).1
    refine ⟨?_, fun decision hdecision hadmitted => ?_⟩
    · obtain ⟨decision, hdecision⟩ := hdecides
      exact ⟨decision, hdecision, (evaluate_spec hdecision).2⟩
    · obtain ⟨hpins, hwindow, hdetected⟩ := (evaluate_spec hdecision).1 hadmitted
      exact ⟨hpins, (hrest hpins hwindow).2 hdetected, hdetected⟩

end Gate

/-! ### An input that raises -/

/-- A bundle in force for the pins below, in the year 2026. -/
def sampleBundle : Metadata :=
  [("compatibility", .obj [("min_supported_major", .int 1), ("max_supported_major", .int 1)]),
    ("policy_revision", .str "rev-1"), ("signer", .obj [("key_id", .str "key-1")]),
    ("issued_at", .str "2026-01-01T00:00:00Z"), ("expires_at", .str "2027-01-01T00:00:00Z")]

/-- An envelope with personal data, as it comes in. -/
def sampleEnvelope : DataEnvelope :=
  ⟨"env-1", "tenant-1", "source-1", "personal", "raw", [], [], [], "rev-1", "2026-06-01T00:00:00Z",
    []⟩

/-- A gate whose store loses its connection. -/
def sampleGate : IngestPIIGate where
  quarantineStore _ := .error ⟨"ConnectionError", .exception, "connection reset"⟩
  consumerPin := ⟨"omniscience", 1, "rev-1", "key-1"⟩

/-- The evaluation of the envelope, classified as what it is. -/
def sampleEvaluation : Evaluation where
  envelope := sampleEnvelope
  policyBundle := sampleBundle
  detector _ := .ok ⟨some (.str "personal"), some (.str "raw")⟩
  referenceNow := "2026-06-01T00:00:00Z"
  receiptId := "receipt-1"
  producedAt := "2026-06-01T00:00:00Z"

/-- A failure of the quarantine store that is no `QuarantineUnavailableError` raises. -/
theorem store_failure_raises :
    ¬ FailClosed Py.sample ⟨fun _ _ => false, fun _ _ => false⟩ sampleGate sampleEvaluation := by
  rintro ⟨⟨decision, hdecision, -⟩, -⟩
  have hraised : evaluate Py.sample ⟨fun _ _ => false, fun _ _ => false⟩ sampleGate
      sampleEvaluation = .error ⟨"ConnectionError", .exception, "connection reset"⟩ := by
    rfl
  rw [hraised] at hdecision
  cases hdecision

end Omniscience.Privacy
