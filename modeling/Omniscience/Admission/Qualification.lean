import Omniscience.Base.Mapping
import Omniscience.Lib.JsonText

/-!
# Qualification reports

`build_qualification_report` sums up the probes of a horizontal-read deployment in a report that
addresses its own content, and `validate_report_json` looks at such a report again.  The validator
checks the presence of the fields and the statuses, but compares the number of replicas only where
it is an integer, and never looks at the address.

* `Declared` : what the validator checks (`validateReportJson_isGreen_iff`).
* `Trustworthy` : what a green report is to be.
* `qualification_trusted_iff` : which reports are trustworthy if they validate green, and which of
  those that are built validate green.
-/

namespace Omniscience.Qualification

open List

/-- `VerificationResult`. -/
structure VerificationResult where
  status : String
  reasons : List String := []

/-- `VerificationResult.is_green`. -/
def VerificationResult.isGreen (r : VerificationResult) : Bool := r.status = "GREEN"

/-- `QualificationReport`. -/
structure QualificationReport where
  reportId : String
  replicaCount : ℤ
  skewStatus : String
  isolationStatus : String
  fairnessStatus : String
  fallbackStatus : String
  status : String
  reasons : List String
  queueDepthStatus : Option String

/-- A text or `None`. -/
def optional : Option String → Json
  | some s => .str s
  | none => .null

/-- The fields that the report addresses. -/
def QualificationReport.body (r : QualificationReport) : Metadata :=
  [("replica_count", .int r.replicaCount), ("skew_status", .str r.skewStatus),
    ("isolation_status", .str r.isolationStatus), ("fairness_status", .str r.fairnessStatus),
    ("fallback_status", .str r.fallbackStatus), ("status", .str r.status),
    ("reasons", .arr (r.reasons.map .str)), ("queue_depth_status", optional r.queueDepthStatus)]

/-- `QualificationReport.to_dict`. -/
def QualificationReport.toDict (r : QualificationReport) : Metadata :=
  ("report_id", .str r.reportId) :: r.body

/-- `sha256:` and the digest of `_canonical_json`. -/
def contentAddress (py : Py) (body : Metadata) : String :=
  "sha256:" ++ py.sha256 (JsonText.dumps (.obj body))

/-- The reasons of a probe that is not green, under its label. -/
def probeReasons (label : String) (result : VerificationResult) : List String :=
  if result.isGreen then [] else result.reasons.map fun reason => label ++ ":" ++ reason

/-- `build_qualification_report`. -/
def buildQualificationReport (py : Py) (replicaCount : ℤ)
    (skew isolation fairness fallback : VerificationResult)
    (queueDepth : Option VerificationResult) : QualificationReport :=
  let reasons :=
    (if replicaCount < 2 then
      ["replica_count_below_minimum:" ++ toString replicaCount ++ "<2"] else []) ++
    probeReasons "skew" skew ++ probeReasons "isolation" isolation ++
    probeReasons "fairness" fairness ++ probeReasons "fallback" fallback ++
    queueDepth.toList.flatMap (probeReasons "queue_depth")
  let report : QualificationReport :=
    { reportId := ""
      replicaCount
      skewStatus := skew.status
      isolationStatus := isolation.status
      fairnessStatus := fairness.status
      fallbackStatus := fallback.status
      status := if reasons = [] then "GREEN" else "RED"
      reasons
      queueDepthStatus := queueDepth.map (·.status) }
  { report with reportId := contentAddress py report.body }

/-- `_REPORT_REQUIRED_FIELDS`. -/
def reportRequiredFields : List String :=
  ["report_id", "replica_count", "skew_status", "isolation_status", "fairness_status",
    "fallback_status", "status"]

/-- The statuses of the four required probes. -/
def probeFields : List String :=
  ["skew_status", "isolation_status", "fairness_status", "fallback_status"]

/-- `isinstance(replica_count, int) and replica_count < _MIN_QUALIFYING_REPLICAS`; `True` and
`False` are integers. -/
def belowMinimum : Json → List String
  | .int n => if n < 2 then ["report_replica_count_below_minimum:" ++ toString n] else []
  | .bool true => ["report_replica_count_below_minimum:True"]
  | .bool false => ["report_replica_count_below_minimum:False"]
  | _ => []

/-- What is wrong with the status of a probe. -/
def statusReasons (py : Py) (label : String) : Json → List String
  | .str "GREEN" => []
  | .str "RED" => ["report_" ++ label ++ "_is_red"]
  | value => ["report_" ++ label ++ "_not_green_or_red:" ++ py.repr value]

/-- The status of the queue depth may be missing. -/
def queueDepthReasons (py : Py) : Json → List String
  | .null => []
  | value => statusReasons py "queue_depth_status" value

/-- What is wrong with the status of the report. -/
def overallReasons (py : Py) : Json → List String
  | .str "GREEN" => []
  | value => ["report_status_not_green:" ++ py.repr value]

/-- `value is None`. -/
def isNone : Json → Bool
  | .null => true
  | _ => false

/-- The reasons against a report. -/
def reportReasons (py : Py) (report : Metadata) : List String :=
  ((reportRequiredFields.filter fun field => isNone (Mapping.get report field)).map
    ("report_field_absent:" ++ ·)) ++
  belowMinimum (Mapping.get report "replica_count") ++
  (probeFields.flatMap fun label => statusReasons py label (Mapping.get report label)) ++
  queueDepthReasons py (Mapping.get report "queue_depth_status") ++
  overallReasons py (Mapping.get report "status")

/-- `validate_report_json`. -/
def validateReportJson (py : Py) : Json → VerificationResult
  | .null => ⟨"RED", ["report_absent"]⟩
  | .obj report =>
    if reportReasons py report = [] then ⟨"GREEN", []⟩
    else ⟨"RED", (reportReasons py report).eraseDups⟩
  | _ => ⟨"RED", ["report_malformed:not_an_object"]⟩

/-! ### What the validator checks -/

/-- The probes and the report itself are green. -/
structure AllGreen (report : Metadata) : Prop where
  probes : ∀ label ∈ probeFields, Mapping.get report label = .str "GREEN"
  queueDepth : Mapping.get report "queue_depth_status" = .null ∨
    Mapping.get report "queue_depth_status" = .str "GREEN"
  status : Mapping.get report "status" = .str "GREEN"

/-- What the validator checks: nothing is missing, an integer in the place of the replicas is at
least two, and everything is green. -/
structure Declared (report : Metadata) : Prop where
  present : ∀ field ∈ reportRequiredFields, Mapping.get report field ≠ .null
  replicas : belowMinimum (Mapping.get report "replica_count") = []
  green : AllGreen report

/-- **A report that can be trusted**: at least two replicas, everything green, and the content
address of the other fields. -/
structure Trustworthy (py : Py) (report : Metadata) : Prop where
  replicas : ∃ n, Mapping.get report "replica_count" = .int n ∧ 2 ≤ n
  green : AllGreen report
  address : Mapping.get report "report_id" =
    .str (contentAddress py (report.filter (·.1 ≠ "report_id")))

section

variable (py : Py)

theorem isNone_eq_false_iff {v : Json} : isNone v = false ↔ v ≠ .null := by
  cases v <;> simp [isNone]

theorem statusReasons_eq_nil_iff {label : String} {v : Json} :
    statusReasons py label v = [] ↔ v = .str "GREEN" := by
  rw [statusReasons.eq_def]
  split <;> simp_all

theorem queueDepthReasons_eq_nil_iff {v : Json} :
    queueDepthReasons py v = [] ↔ v = .null ∨ v = .str "GREEN" := by
  rw [queueDepthReasons.eq_def]
  split
  · simp
  · rw [statusReasons_eq_nil_iff]
    simp_all

theorem overallReasons_eq_nil_iff {v : Json} : overallReasons py v = [] ↔ v = .str "GREEN" := by
  rw [overallReasons.eq_def]
  split <;> simp_all

theorem reportReasons_eq_nil_iff {report : Metadata} :
    reportReasons py report = [] ↔ Declared report := by
  rw [reportReasons, append_eq_nil_iff, append_eq_nil_iff, append_eq_nil_iff,
    append_eq_nil_iff, map_eq_nil_iff, filter_eq_nil_iff, flatMap_eq_nil_iff,
    queueDepthReasons_eq_nil_iff, overallReasons_eq_nil_iff]
  simp only [statusReasons_eq_nil_iff, Bool.not_eq_true, isNone_eq_false_iff]
  exact ⟨fun ⟨⟨⟨⟨hpresent, hreplicas⟩, hprobes⟩, hqueue⟩, hstatus⟩ =>
    ⟨hpresent, hreplicas, hprobes, hqueue, hstatus⟩,
    fun h => ⟨⟨⟨⟨h.present, h.replicas⟩, h.green.probes⟩, h.green.queueDepth⟩, h.green.status⟩⟩

theorem validateReportJson_isGreen_iff {r : Json} :
    (validateReportJson py r).isGreen = true ↔ ∃ report, r = .obj report ∧ Declared report := by
  cases r with
  | obj report =>
    rw [validateReportJson]
    simp only [Json.obj.injEq, exists_eq_left', ← reportReasons_eq_nil_iff py]
    split_ifs with h <;> simp [h, VerificationResult.isGreen]
  | _ => simp [validateReportJson, VerificationResult.isGreen]

theorem trustworthy_iff {report : Metadata} (h : Declared report) :
    Trustworthy py report ↔ (∃ n, Mapping.get report "replica_count" = .int n) ∧
      Mapping.get report "report_id" =
        .str (contentAddress py (report.filter (·.1 ≠ "report_id"))) := by
  constructor
  · rintro ⟨⟨n, hn, -⟩, -, haddress⟩
    exact ⟨⟨n, hn⟩, haddress⟩
  · rintro ⟨⟨n, hn⟩, haddress⟩
    refine ⟨⟨n, hn, ?_⟩, h.green, haddress⟩
    have hreplicas := h.replicas
    rw [hn, belowMinimum] at hreplicas
    by_contra hsmall
    rw [if_pos (by omega)] at hreplicas
    cases hreplicas

/-! ### What is built -/

theorem declared_toDict_iff {r : QualificationReport} :
    Declared r.toDict ↔ 2 ≤ r.replicaCount ∧ (∀ s ∈ [r.skewStatus, r.isolationStatus,
      r.fairnessStatus, r.fallbackStatus] ++ r.queueDepthStatus.toList, s = "GREEN") ∧
      r.status = "GREEN" := by
  have hreplicas : belowMinimum (Mapping.get r.toDict "replica_count") = [] ↔
      2 ≤ r.replicaCount := by
    change (if r.replicaCount < 2 then _ else _) = ([] : List String) ↔ _
    split_ifs with hsmall <;> simp <;> omega
  have hprobes : (∀ label ∈ probeFields, Mapping.get r.toDict label = .str "GREEN") ↔
      ∀ s ∈ [r.skewStatus, r.isolationStatus, r.fairnessStatus, r.fallbackStatus], s = "GREEN" := by
    simp [probeFields, Mapping.get, Mapping.getD, QualificationReport.toDict,
      QualificationReport.body, lookup_cons]
  have hqueue : (Mapping.get r.toDict "queue_depth_status" = .null ∨
      Mapping.get r.toDict "queue_depth_status" = .str "GREEN") ↔
        ∀ s ∈ r.queueDepthStatus.toList, s = "GREEN" := by
    change (optional r.queueDepthStatus = .null ∨ optional r.queueDepthStatus = .str "GREEN") ↔ _
    cases r.queueDepthStatus <;> simp [optional]
  have hstatus : Mapping.get r.toDict "status" = .str "GREEN" ↔ r.status = "GREEN" :=
    Json.str.injEq .. ▸ Iff.rfl
  have hpresent : ∀ field ∈ reportRequiredFields, Mapping.get r.toDict field ≠ .null := by
    simp [reportRequiredFields, Mapping.get, Mapping.getD, QualificationReport.toDict,
      QualificationReport.body, lookup_cons]
  simp only [mem_append, or_imp, forall_and, ← hreplicas, ← hprobes, ← hqueue, ← hstatus]
  exact ⟨fun h => ⟨h.replicas, ⟨h.green.probes, h.green.queueDepth⟩, h.green.status⟩,
    fun h => ⟨hpresent, h.1, h.2.1.1, h.2.1.2, h.2.2⟩⟩

theorem validateReportJson_build {replicaCount : ℤ}
    {skew isolation fairness fallback : VerificationResult}
    {queueDepth : Option VerificationResult} :
    (validateReportJson py (.obj (buildQualificationReport py replicaCount skew isolation fairness
      fallback queueDepth).toDict)).isGreen = true ↔
      2 ≤ replicaCount ∧ ∀ probe ∈ [skew, isolation, fairness, fallback] ++ queueDepth.toList,
        probe.isGreen = true := by
  set report := buildQualificationReport py replicaCount skew isolation fairness fallback queueDepth
    with hreport
  set probes := [skew, isolation, fairness, fallback] ++ queueDepth.toList with hprobes
  have hstatuses : [report.skewStatus, report.isolationStatus, report.fairnessStatus,
      report.fallbackStatus] ++ report.queueDepthStatus.toList = probes.map (·.status) := by
    rw [hreport, hprobes]
    cases queueDepth <;> rfl
  have hgreen : (∀ s ∈ probes.map (·.status), s = "GREEN") ↔
      ∀ probe ∈ probes, probe.isGreen = true := by
    simp [VerificationResult.isGreen]
  have hstatus (hr : 2 ≤ replicaCount) (hall : ∀ probe ∈ probes, probe.isGreen = true) :
      report.status = "GREEN" := by
    have hnone (label : String) : ∀ probe ∈ probes, probeReasons label probe = [] :=
      fun probe hprobe => if_pos (hall probe hprobe)
    simp only [hprobes, forall_mem_append, forall_mem_cons] at hnone
    refine if_pos ?_
    simp only [not_lt.2 hr, if_false, nil_append, (hnone _).1, flatMap_eq_nil_iff]
    exact (hnone "queue_depth").2
  rw [validateReportJson_isGreen_iff]
  simp only [Json.obj.injEq, exists_eq_left', declared_toDict_iff, hstatuses, hgreen]
  exact ⟨fun ⟨hr, hall, _⟩ => ⟨hr, hall⟩, fun ⟨hr, hall⟩ => ⟨hr, hall, hstatus hr hall⟩⟩

/-! ### What a green report is worth -/

/-- The report is trustworthy if it validates green. -/
def Trusted (py : Py) (r : Json) : Prop :=
  (validateReportJson py r).isGreen = true → ∃ report, r = .obj report ∧ Trustworthy py report

/-- **Green qualification reports.**  A value can be trusted if it fails one of the checks, or if its
number of replicas is an integer and its identifier the content address of the other fields.  A
report that is built validates green exactly if there are two replicas and green probes only. -/
theorem qualification_trusted_iff (py : Py) :
    (∀ r, Trusted py r ↔ ∀ report, r = .obj report → Declared report →
      (∃ n, Mapping.get report "replica_count" = .int n) ∧ Mapping.get report "report_id" =
        .str (contentAddress py (report.filter (·.1 ≠ "report_id")))) ∧
    ∀ replicaCount skew isolation fairness fallback queueDepth,
      (validateReportJson py (.obj (buildQualificationReport py replicaCount skew isolation
        fairness fallback queueDepth).toDict)).isGreen = true ↔
        2 ≤ replicaCount ∧ ∀ probe ∈ [skew, isolation, fairness, fallback] ++ queueDepth.toList,
          probe.isGreen = true := by
  refine ⟨fun r => ?_, fun _ _ _ _ _ _ => validateReportJson_build py⟩
  rw [Trusted, validateReportJson_isGreen_iff]
  constructor
  · rintro h report rfl hdeclared
    obtain ⟨report', heq, htrust⟩ := h ⟨report, rfl, hdeclared⟩
    cases heq
    exact (trustworthy_iff py hdeclared).1 htrust
  · rintro h ⟨report, rfl, hdeclared⟩
    exact ⟨report, rfl, (trustworthy_iff py hdeclared).2 (h report rfl hdeclared)⟩

end

/-- A green report whose identifier is made up. -/
def forgedReport : Metadata :=
  [("report_id", .str "forged"), ("replica_count", .str "many"), ("skew_status", .str "GREEN"),
    ("isolation_status", .str "GREEN"), ("fairness_status", .str "GREEN"),
    ("fallback_status", .str "GREEN"), ("status", .str "GREEN")]

/-- It validates green. -/
theorem forged_validates : ¬ ∀ r, (validateReportJson Py.sample r).isGreen = true →
      ∃ report, r = .obj report ∧ Trustworthy Py.sample report := by
  intro h
  obtain ⟨report, heq, htrust⟩ := h (.obj forgedReport) (by decide)
  cases heq
  obtain ⟨n, hn, -⟩ := htrust.replicas
  cases hn

end Omniscience.Qualification
