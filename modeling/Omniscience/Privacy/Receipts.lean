import Omniscience.Privacy.Gate

/-!
# What a receipt reveals

A receipt is evidence of a decision and is meant to hold no content.  Two evaluations are compared
that differ in the content only: the identifiers, the policy, the instant of reference and the
outcome of the classification are the same (the same result, or an exception in both).  Nothing else
is asked of what the detectors and the store do; what an envelope carries beside its identifiers is
content.

* `ContentFree` : the two receipts are the same, up to the identifier and the instant generated for
  each.
* `contentFree_iff` : when they are.

They are not always: the text of an exception goes into the `detail` of the receipt as it is, that
of the detector as well as that of the quarantine store.
-/

namespace Omniscience.Privacy

/-! ### Two evaluations -/

/-- The same outcome of a classification: the same result, or an exception on both sides. -/
def SameOutcome : Except Raised Detection → Except Raised Detection → Prop
  | .ok detection₁, .ok detection₂ => detection₁ = detection₂
  | .error _, .error _ => True
  | _, _ => False

/-- Two evaluations that differ in the content of their envelopes only. -/
structure SameButContent (e₁ e₂ : Evaluation) : Prop where
  envelopeId : e₁.envelope.envelopeId = e₂.envelope.envelopeId
  tenantId : e₁.envelope.tenantId = e₂.envelope.tenantId
  sourceRef : e₁.envelope.sourceRef = e₂.envelope.sourceRef
  policyRevision : e₁.envelope.policyRevision = e₂.envelope.policyRevision
  policyBundle : e₁.policyBundle = e₂.policyBundle
  referenceNow : e₁.referenceNow = e₂.referenceNow
  outcome : SameOutcome (e₁.detector e₁.envelope) (e₂.detector e₂.envelope)

/-- A receipt without the identifier and the instant generated for it. -/
def BoundaryReceipt.lasting (r : BoundaryReceipt) : BoundaryReceipt :=
  { r with receiptId := "", producedAt := "" }

/-- What is recorded of an evaluation: nothing, if it raises. -/
def recorded : Except Raised GateDecision → Option BoundaryReceipt
  | .ok decision => some decision.receipt.lasting
  | .error _ => none

section Gate

variable (py : Py) (floats : FloatOrder)

/-- **The receipts reveal nothing about the content.** -/
def ContentFree (gate : IngestPIIGate) (e₁ e₂ : Evaluation) : Prop :=
  recorded (evaluate py floats gate e₁) = recorded (evaluate py floats gate e₂)

/-! ### What goes into a receipt -/

/-- What a failure of the detector leaves in the receipt. -/
def failureDetail : Except Raised Detection → Option String
  | .ok _ => none
  | .error exc =>
    if exc.kind = .baseException then none else some (exc.className ++ ": " ++ exc.text)

/-- What the quarantine leaves in the receipt, if there is one: nothing when it takes the envelope,
the text of the exception when it is unavailable. -/
def storeDetail : Except Raised String → Option (List String)
  | .ok _ => some []
  | .error exc => if exc.kind = .quarantineUnavailable then some [exc.text] else none

/-- The detector is asked: the bundle can be read and is not refused. -/
def Asked (gate : IngestPIIGate) (e : Evaluation) : Prop :=
  checkPolicySkew py floats gate.consumerPin e.policyBundle e.referenceNow = .ok []

/-- The store is asked: the detector returns a result with the attributes that are read, and one
that is not safe. -/
def Stored (e : Evaluation) : Prop :=
  ∃ detection, e.detector e.envelope = .ok detection ∧ detection.Complete ∧ ¬ detection.Safe

variable {py floats} {gate : IngestPIIGate} {e e₁ e₂ : Evaluation}

theorem lasting_receipt (h : SameButContent e₁ e₂) (disposition : GateDisposition)
    (reason : String) (detail : List String) : (receipt py e₁ disposition reason detail).lasting =
      (receipt py e₂ disposition reason detail).lasting := by
  simp only [receipt, BoundaryReceipt.lasting, h.envelopeId, h.policyRevision, h.policyBundle]

theorem recorded_park_iff (h : SameButContent e₁ e₂) {reason : String}
    {detail₁ detail₂ : List String} :
    recorded (.ok (park py e₁ reason detail₁)) = recorded (.ok (park py e₂ reason detail₂)) ↔
      detail₁ = detail₂ := by
  constructor
  · intro heq
    have hdetail := congrArg (Option.map BoundaryReceipt.detail) heq
    exact Option.some.inj hdetail
  · rintro rfl
    exact congrArg some (lasting_receipt h _ _ _)

theorem recorded_quarantineOrPark_iff (h : SameButContent e₁ e₂) {reason : String}
    (hreason : reason ≠ "quarantine_unavailable") :
    recorded (quarantineOrPark py gate e₁ reason) = recorded (quarantineOrPark py gate e₂ reason) ↔
      storeDetail (gate.quarantineStore e₁.envelope) =
        storeDetail (gate.quarantineStore e₂.envelope) := by
  have htaken (e e' : Evaluation) (detail : List String) :
      recorded (.ok ⟨.quarantined, reason, receipt py e .quarantined reason [], none⟩) ≠
        recorded (.ok (park py e' "quarantine_unavailable" detail)) := by
    intro heq
    have hreceipt := congrArg (Option.map BoundaryReceipt.reason) heq
    exact hreason (Option.some.inj hreceipt)
  unfold quarantineOrPark
  cases gate.quarantineStore e₁.envelope with
  | ok id₁ =>
    cases gate.quarantineStore e₂.envelope with
    | ok id₂ => exact iff_of_true (congrArg some (lasting_receipt h _ _ _)) rfl
    | error exc₂ =>
      by_cases hkind : exc₂.kind = .quarantineUnavailable
      · simp only [storeDetail, if_pos hkind]
        exact iff_of_false (htaken e₁ e₂ [exc₂.text]) (by simp)
      · simp [storeDetail, if_neg hkind, recorded]
  | error exc₁ =>
    cases gate.quarantineStore e₂.envelope with
    | ok id₂ =>
      by_cases hkind : exc₁.kind = .quarantineUnavailable
      · simp only [storeDetail, if_pos hkind]
        exact iff_of_false (fun heq => htaken e₂ e₁ [exc₁.text] heq.symm) (by simp)
      · simp [storeDetail, if_neg hkind, recorded]
    | error exc₂ =>
      by_cases hkind₁ : exc₁.kind = .quarantineUnavailable <;>
        by_cases hkind₂ : exc₂.kind = .quarantineUnavailable
      · simp only [storeDetail, if_pos hkind₁, if_pos hkind₂, Option.some.injEq]
        exact recorded_park_iff h
      · simp [storeDetail, if_pos hkind₁, if_neg hkind₂, recorded]
      · simp [storeDetail, if_neg hkind₁, if_pos hkind₂, recorded]
      · simp [storeDetail, if_neg hkind₁, if_neg hkind₂, recorded]

theorem afterDetection_quarantine {detection : Detection} (hsafe : ¬ detection.Safe)
    (hcomplete : detection.Complete) :
    ∃ reason, reason ≠ "quarantine_unavailable" ∧
      ∀ e, afterDetection py gate e detection = quarantineOrPark py gate e reason := by
  obtain ⟨dataClass, hclass, hknown⟩ := hcomplete
  by_cases hunknown : KnownClass dataClass
  · obtain ⟨transformState, htransform⟩ := hknown hunknown
    refine ⟨"not_pw0_admitted", by decide, fun e => ?_⟩
    unfold afterDetection
    rw [hclass, htransform]
    dsimp only
    rw [if_neg (fun hu => unknown_iff.1 hu hunknown),
      if_neg fun hadmitted => hsafe ⟨dataClass, transformState, hclass, htransform, hadmitted⟩]
  · refine ⟨"unknown_class", by decide, fun e => ?_⟩
    unfold afterDetection
    rw [hclass]
    dsimp only
    rw [if_pos (unknown_iff.2 hunknown)]

theorem recorded_afterDetection_iff (h : SameButContent e₁ e₂) {detection : Detection} :
    recorded (afterDetection py gate e₁ detection) =
        recorded (afterDetection py gate e₂ detection) ↔
      (detection.Complete → ¬ detection.Safe →
        storeDetail (gate.quarantineStore e₁.envelope) =
          storeDetail (gate.quarantineStore e₂.envelope)) := by
  by_cases hcomplete : detection.Complete
  · by_cases hsafe : detection.Safe
    · rw [afterDetection_safe hsafe, afterDetection_safe hsafe]
      exact iff_of_true (congrArg some (lasting_receipt h _ _ _)) (fun _ hns => absurd hsafe hns)
    · obtain ⟨reason, hreason, hquarantine⟩ : ∃ reason, reason ≠ "quarantine_unavailable" ∧
            ∀ e, afterDetection py gate e detection = quarantineOrPark py gate e reason :=
        afterDetection_quarantine hsafe hcomplete
      rw [hquarantine, hquarantine, recorded_quarantineOrPark_iff h hreason]
      exact ⟨fun heq _ _ => heq, fun heq => heq hcomplete hsafe⟩
  · obtain ⟨exc₁, hexc₁⟩ : ∃ exc, afterDetection py gate e₁ detection = .error exc :=
      afterDetection_incomplete hcomplete
    obtain ⟨exc₂, hexc₂⟩ : ∃ exc, afterDetection py gate e₂ detection = .error exc :=
      afterDetection_incomplete hcomplete
    rw [hexc₁, hexc₂]
    exact iff_of_true rfl (fun hc => absurd hc hcomplete)

theorem recorded_failure_iff (h : SameButContent e₁ e₂) {exc₁ exc₂ : Raised}
    (h₁ : e₁.detector e₁.envelope = .error exc₁) (h₂ : e₂.detector e₂.envelope = .error exc₂)
    (hasked₁ : Asked py floats gate e₁) (hasked₂ : Asked py floats gate e₂) :
    ContentFree py floats gate e₁ e₂ ↔
      failureDetail (.error exc₁) = failureDetail (.error exc₂) := by
  rw [ContentFree, evaluate_of_nil hasked₁, evaluate_of_nil hasked₂, h₁, h₂]
  dsimp only
  by_cases hkind₁ : exc₁.kind = .baseException <;> by_cases hkind₂ : exc₂.kind = .baseException
  · simp [failureDetail, if_pos hkind₁, if_pos hkind₂, recorded]
  · simp [failureDetail, if_pos hkind₁, if_neg hkind₂, recorded]
  · simp [failureDetail, if_neg hkind₁, if_pos hkind₂, recorded]
  · simp only [failureDetail, if_neg hkind₁, if_neg hkind₂, Option.some.injEq]
    rw [recorded_park_iff h, List.cons.injEq, and_iff_left rfl]

theorem contentFree_of_not_asked (h : SameButContent e₁ e₂) (hasked : ¬ Asked py floats gate e₁) :
    ContentFree py floats gate e₁ e₂ := by
  unfold ContentFree evaluate
  unfold Asked at hasked
  rw [← h.policyBundle, ← h.referenceNow]
  cases hskew : checkPolicySkew py floats gate.consumerPin e₁.policyBundle e₁.referenceNow with
  | error exc => rfl
  | ok errors =>
    cases errors with
    | nil => exact absurd hskew hasked
    | cons error more => exact (recorded_park_iff h).2 rfl

/-- **When the receipts reveal nothing**: the detector is not asked, or what it raises leaves the
same detail in both receipts, and so does the store where it is asked. -/
theorem contentFree_iff (h : SameButContent e₁ e₂) : ContentFree py floats gate e₁ e₂ ↔
      (Asked py floats gate e₁ →
        failureDetail (e₁.detector e₁.envelope) = failureDetail (e₂.detector e₂.envelope) ∧
        (Stored e₁ → storeDetail (gate.quarantineStore e₁.envelope) =
          storeDetail (gate.quarantineStore e₂.envelope))) := by
  by_cases hasked₁ : Asked py floats gate e₁
  · have hasked₂ : Asked py floats gate e₂ := by
      rw [Asked, ← h.policyBundle, ← h.referenceNow]
      exact hasked₁
    have hsame := h.outcome
    rw [forall_prop_of_true hasked₁]
    cases h₁ : e₁.detector e₁.envelope with
    | error exc₁ =>
      cases h₂ : e₂.detector e₂.envelope with
      | error exc₂ =>
        have hstored : ¬ Stored e₁ := by
          rintro ⟨detection, hdetection, -⟩
          rw [h₁] at hdetection
          cases hdetection
        rw [recorded_failure_iff h h₁ h₂ hasked₁ hasked₂, and_iff_left fun hs => absurd hs hstored]
      | ok detection₂ =>
        rw [h₁, h₂] at hsame
        exact hsame.elim
    | ok detection₁ =>
      cases h₂ : e₂.detector e₂.envelope with
      | error exc₂ =>
        rw [h₁, h₂] at hsame
        exact hsame.elim
      | ok detection₂ =>
        rw [h₁, h₂] at hsame
        obtain rfl : detection₁ = detection₂ := hsame
        have hstored : Stored e₁ ↔ detection₁.Complete ∧ ¬ detection₁.Safe := by
          simp [Stored, h₁]
        have heval (e : Evaluation) (hasked : Asked py floats gate e)
            (hd : e.detector e.envelope = .ok detection₁) :
            evaluate py floats gate e = afterDetection py gate e detection₁ := by
          rw [evaluate_of_nil hasked, hd]
        rw [ContentFree, heval e₁ hasked₁ h₁, heval e₂ hasked₂ h₂, recorded_afterDetection_iff h,
          hstored, and_imp]
        exact (and_iff_right rfl).symm
  · exact iff_of_true (contentFree_of_not_asked h hasked₁) (fun hasked => absurd hasked hasked₁)

end Gate

/-! ### A detector that mentions the content -/

/-- A detector that gives up on an envelope, and says at which field. -/
def mentioningDetector : Detector := fun envelope =>
  .error ⟨"DetectorFailureError", .exception,
    "cannot classify " ++ String.intercalate ", " envelope.fieldManifest⟩

/-- The evaluation of an envelope with a given field. -/
def mentioningEvaluation (field : String) : Evaluation :=
  { sampleEvaluation with
    envelope := { sampleEnvelope with fieldManifest := [field] }
    detector := mentioningDetector }

theorem mentioning_same (field₁ field₂ : String) :
    SameButContent (mentioningEvaluation field₁) (mentioningEvaluation field₂) :=
  ⟨rfl, rfl, rfl, rfl, rfl, rfl, trivial⟩

/-- The order of floats, which no bundle here has. -/
def noFloats : FloatOrder := ⟨fun _ _ => false, fun _ _ => false⟩

/-- Two fields that the detector mentions give two receipts. -/
theorem mentioned_field_is_recorded :
    ¬ ∀ gate e₁ e₂, SameButContent e₁ e₂ → ContentFree Py.sample noFloats gate e₁ e₂ := by
  intro hfree
  have hsame := hfree sampleGate _ _ (mentioning_same "Ada Lovelace" "Alan Turing")
  have hdetail : some ["DetectorFailureError: cannot classify Ada Lovelace"] =
      some ["DetectorFailureError: cannot classify Alan Turing"] :=
    congrArg (Option.map BoundaryReceipt.detail) hsame
  revert hdetail
  decide

/-- The gate above with the two fields. -/
theorem contentFree_mentioning :
    ContentFree Py.sample noFloats sampleGate (mentioningEvaluation "Ada Lovelace")
        (mentioningEvaluation "Alan Turing") ↔
      (Asked Py.sample noFloats sampleGate (mentioningEvaluation "Ada Lovelace") →
        failureDetail (mentioningDetector (mentioningEvaluation "Ada Lovelace").envelope) =
            failureDetail (mentioningDetector (mentioningEvaluation "Alan Turing").envelope) ∧
          (Stored (mentioningEvaluation "Ada Lovelace") →
            storeDetail (sampleGate.quarantineStore
                (mentioningEvaluation "Ada Lovelace").envelope) =
              storeDetail (sampleGate.quarantineStore
                (mentioningEvaluation "Alan Turing").envelope))) :=
  contentFree_iff (mentioning_same "Ada Lovelace" "Alan Turing")

end Omniscience.Privacy
