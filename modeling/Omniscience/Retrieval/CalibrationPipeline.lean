import Omniscience.Base.Mapping
import Omniscience.Retrieval.OutOfFold
import Mathlib.Data.Rat.Floor

/-!
# The calibration pipeline

`CalibrationPipeline.run` parses raw rows, predicts them out of fold if there are enough, and
measures the predictions by their Brier score and their expected calibration error, with bootstrap
intervals for both.

A raw row is any JSON value.  A float is a finite number, an infinity or NaN (`PyFloat`); its finite
arithmetic is exact here, and what is too large is an infinity or an `OverflowError` where the
interpreter has one.  What `Runtime` bundles stays abstract: the texts of numbers and timestamps, the
clock, the exponential function, the random numbers, and what the two fits make of predictions that
are not all finite.
-/

namespace Omniscience.Retrieval

/-! ### Floats -/

/-- A float. -/
inductive PyFloat where
  | finite (q : ℚ)
  | inf (negative : Bool)
  | nan
  deriving DecidableEq

/-- The least magnitude that is rounded to an infinity. -/
def overflowBound : ℚ := 2 ^ 1024 - 2 ^ 970

namespace PyFloat

/-- The float of a number. -/
def of (q : ℚ) : PyFloat := if |q| < overflowBound then .finite q else .inf (q < 0)

/-- `x + y`. -/
def add : PyFloat → PyFloat → PyFloat
  | .nan, _ => .nan
  | _, .nan => .nan
  | .finite p, .finite q => .finite (p + q)
  | .inf s, .inf t => if s = t then .inf s else .nan
  | .inf s, .finite _ => .inf s
  | .finite _, .inf t => .inf t

/-- `x * w` for a weight, which is not negative. -/
def scale (w : ℚ) : PyFloat → PyFloat
  | .finite q => .finite (w * q)
  | .inf s => if w = 0 then .nan else .inf s
  | .nan => .nan

/-- `x * k` for a small integer `k > 0`. -/
def times (k : ℕ) : PyFloat → PyFloat
  | .finite q => of (q * k)
  | x => x

/-- `x - y`. -/
def subInt (y : ℚ) : PyFloat → PyFloat
  | .finite q => of (q - y)
  | x => x

/-- `x ** 2`. -/
def square : PyFloat → Except Exc PyFloat
  | .finite q =>
    if q ^ 2 < overflowBound then .ok (.finite (q ^ 2))
    else .error ⟨.overflowError, "(34, 'Numerical result out of range')"⟩
  | .inf _ => .ok (.inf false)
  | .nan => .ok .nan

/-- `x <= y`. -/
def le : PyFloat → PyFloat → Bool
  | .nan, _ => false
  | _, .nan => false
  | .finite p, .finite q => p ≤ q
  | .inf s, .inf t => s || !t
  | .inf s, .finite _ => s
  | .finite _, .inf t => !t

end PyFloat

/-- The integral part of a number. -/
def truncated (q : ℚ) : ℤ := if 0 ≤ q then ⌊q⌋ else ⌈q⌉

/-- `int(x)`. -/
def PyFloat.toInt : PyFloat → Except Exc ℤ
  | .finite q => .ok (truncated q)
  | .inf _ => .error ⟨.overflowError, "cannot convert float infinity to integer"⟩
  | .nan => .error ⟨.valueError, "cannot convert float NaN to integer"⟩

/-- `float(n)`. -/
def floatOfInt (n : ℤ) : Except Exc ℚ :=
  if |(n : ℚ)| < overflowBound then .ok n
  else .error ⟨.overflowError, "int too large to convert to float"⟩

/-! ### The runtime -/

/-- A sample whose prediction may be any float. -/
structure Evaluated where
  prediction : PyFloat
  label : ℤ
  weight : ℚ

/-- The predictions that are evaluated, and the fitted map. -/
structure Fitted where
  evalPredictions : List PyFloat
  thresholds : List PyFloat
  values : List PyFloat

/-- Library functions that the pipeline rests on. -/
structure Runtime where
  /-- `str(value)`; `none` is a `ValueError`, for an integer with too many digits. -/
  strOf : Json → Option String
  /-- The float that a text is the `repr` of. -/
  floatValue : String → PyFloat
  /-- `float(text)`; `none` is the `ValueError`. -/
  floatOf : String → Option PyFloat
  /-- `int(text)`; `none` is the `ValueError`. -/
  intOf : String → Option ℤ
  /-- `datetime.fromisoformat(text)`, in microseconds of UTC; `none` is the `ValueError`. -/
  fromisoformat : String → Option ℤ
  /-- `datetime.now(UTC)` when the row of an index is parsed. -/
  now : ℕ → ℤ
  /-- `math.exp`. -/
  exp : ℚ → ℚ
  exp_pos : ∀ x, 0 < exp x
  /-- The shuffle of the indices after `random.seed(42)`. -/
  shuffle : Shuffle
  /-- `random.randint(0, m)` in a round of the bootstrap, for a position. -/
  randint : ℕ → ℕ → (m : ℕ) → Fin (m + 1)
  /-- What `get_out_of_fold_predictions` and `fit_isotonic_regression` return for predictions that
  are not all finite. -/
  fitBeyond : List Evaluated → ℤ → Fitted

variable (rt : Runtime)

/-! ### Parsing -/

/-- `row[key]`. -/
def subscript (row : Json) (key : String) : Except Exc Json :=
  match row with
  | .obj members =>
    match members.lookup key with
    | some v => .ok v
    | none => .error ⟨.keyError, key⟩
  | .arr _ => .error ⟨.typeError, "list indices must be integers or slices, not str"⟩
  | .str _ => .error ⟨.typeError, "string indices must be integers, not 'str'"⟩
  | row => .error ⟨.typeError, "'" ++ row.typeName ++ "' object is not subscriptable"⟩

/-- `str(value)`. -/
def strOf (v : Json) : Except Exc String :=
  match rt.strOf v with
  | some s => .ok s
  | none => .error ⟨.valueError, "Exceeds the limit for integer string conversion"⟩

/-- `float(value)`. -/
def floatOf : Json → Except Exc PyFloat
  | .bool b => .ok (.finite (if b then 1 else 0))
  | .int n => (floatOfInt n).map .finite
  | .float text => .ok (rt.floatValue text)
  | .str s =>
    match rt.floatOf s with
    | some x => .ok x
    | none => .error ⟨.valueError, "could not convert string to float: " ++ s⟩
  | v => .error ⟨.typeError,
      "float() argument must be a string or a real number, not '" ++ v.typeName ++ "'"⟩

/-- `int(value)`. -/
def intOf : Json → Except Exc ℤ
  | .bool b => .ok (if b then 1 else 0)
  | .int n => .ok n
  | .float text => (rt.floatValue text).toInt
  | .str s =>
    match rt.intOf s with
    | some n => .ok n
    | none => .error ⟨.valueError, "invalid literal for int() with base 10: " ++ s⟩
  | v => .error ⟨.typeError,
      "int() argument must be a string, a bytes-like object or a real number, not '" ++
        v.typeName ++ "'"⟩

/-- The timestamp of a row: its own if it is a text, or else the present. -/
def timestampOf (now : ℤ) (row : Json) : Except Exc ℤ :=
  match row with
  | .obj members =>
    match members.lookup "timestamp" with
    | some (.str s) =>
      match rt.fromisoformat (s.replace "Z" "+00:00") with
      | some ts => .ok ts
      | none => .error ⟨.valueError, "Invalid isoformat string: " ++ s⟩
    | _ => .ok now
  | _ => .ok now

/-- The body of the loop of `collect_labeled_incidents`. -/
def parseRow (now : ℤ) (row : Json) : Except Exc (IncidentLabel PyFloat) := do
  let incId ← strOf rt (← subscript row "incident_id")
  let conf ← floatOf rt (← subscript row "predicted_confidence")
  let label ← intOf rt (← subscript row "true_label")
  let ts ← timestampOf rt now row
  return ⟨incId, conf, label, ts⟩

/-- The exceptions that skip a row: `KeyError`, `ValueError` and `TypeError`. -/
def isSkipped (e : Exc) : Bool := e.kind = .keyError || e.kind = .valueError || e.kind = .typeError

/-- The loop of `collect_labeled_incidents`, from the row of an index on. -/
def collectFrom (i : ℕ) : List Json → Except Exc (List (IncidentLabel PyFloat))
  | [] => .ok []
  | row :: rest =>
    match parseRow rt (rt.now i) row with
    | .ok inc => (collectFrom (i + 1) rest).map (inc :: ·)
    | .error e => if isSkipped e then collectFrom (i + 1) rest else .error e

/-- `collect_labeled_incidents`. -/
def collectLabeledIncidents (rawData : List Json) : Except Exc (List (IncidentLabel PyFloat)) :=
  collectFrom rt 0 rawData

/-! ### Metrics -/

/-- The weight of some rows. -/
def totalWeight (rows : List Evaluated) : ℚ := (rows.map Evaluated.weight).sum

/-- `w * (p - y) ** 2`. -/
def weightedSquare (r : Evaluated) : Except Exc PyFloat := do
  let y ← floatOfInt r.label
  let err ← (r.prediction.subInt y).square
  return err.scale r.weight

/-- `compute_brier_score`. -/
def computeBrierScore (rows : List Evaluated) : Except Exc PyFloat :=
  if rows.isEmpty ∨ totalWeight rows = 0 then .ok (.finite 0)
  else do
    let terms ← rows.mapM weightedSquare
    return (terms.foldl PyFloat.add (.finite 0)).scale (totalWeight rows)⁻¹

/-- A row goes to its bin: `int(p * num_bins)`, where an index from the end is allowed. -/
def binRow (numBins : ℕ) (r : Evaluated) : Except Exc (ℕ × Sample) :=
  match r.prediction with
  | .finite q => do
    let b ← (PyFloat.times numBins (.finite q)).toInt
    let b := if b = numBins then (numBins : ℤ) - 1 else b
    if 0 ≤ b ∧ b < numBins then .ok (b.toNat, ⟨q, r.label, r.weight⟩)
    else if -numBins ≤ b ∧ b < 0 then .ok ((b + numBins).toNat, ⟨q, r.label, r.weight⟩)
    else .error ⟨.indexError, "list index out of range"⟩
  | x => do
    let _ ← x.toInt
    .error ⟨.indexError, "list index out of range"⟩

/-- The samples of a bin. -/
def binOf (binned : List (ℕ × Sample)) (b : ℕ) : List Sample :=
  (binned.filter fun p => p.1 = b).map Prod.snd

/-- What a bin adds to the error. -/
def binError (total : ℚ) (bin : List Sample) : Except Exc ℚ :=
  let bwSum := (bin.map Sample.weight).sum
  if bwSum = 0 then .ok 0
  else do
    let terms ← bin.mapM fun r => (floatOfInt r.label).map fun y => r.weight * y
    let binAcc := terms.sum / bwSum
    let binConf := (bin.map fun r => r.weight * r.prediction).sum / bwSum
    return bwSum / total * |binAcc - binConf|

/-- `compute_ece`. -/
def computeEce (rows : List Evaluated) (numBins : ℕ) : Except Exc ℚ :=
  if rows.isEmpty then .ok 0
  else do
    let binned ← rows.mapM (binRow numBins)
    if totalWeight rows = 0 then .ok 0
    else do
      let errors ← (List.range numBins).mapM fun b => binError (totalWeight rows) (binOf binned b)
      return errors.sum

/-- The rows that a round of the bootstrap draws. -/
def bootRows (rows : List Evaluated) (round : ℕ) : List Evaluated :=
  (List.range rows.length).map fun i =>
    rows.getD (rt.randint round i (rows.length - 1)) ⟨.finite 0, 0, 0⟩

/-- One round of the bootstrap. -/
def bootRound (rows : List Evaluated) (round : ℕ) : Except Exc (PyFloat × ℚ) := do
  let brier ← computeBrierScore (bootRows rt rows round)
  let ece ← computeEce (bootRows rt rows round) 10
  return (brier, ece)

/-- The confidence intervals of both metrics. -/
structure Intervals where
  brierCi : PyFloat × PyFloat
  eceCi : ℚ × ℚ

/-- The intervals between two indices of the sorted metrics. -/
def intervalsAt (lower upper : ℕ) (rounds : List (PyFloat × ℚ)) : Intervals :=
  let briers := (rounds.map Prod.fst).insertionSort fun x y => PyFloat.le x y
  let eces := (rounds.map Prod.snd).insertionSort (· ≤ ·)
  { brierCi := (briers.getD lower (.finite 0), briers.getD upper (.finite 0))
    eceCi := (eces.getD lower 0, eces.getD upper 0) }

/-- `bootstrap_metrics`. -/
def bootstrapMetrics (rows : List Evaluated) (numBootstraps : ℕ) (confidenceLevel : ℚ) :
    Except Exc Intervals :=
  if rows.isEmpty then .ok ⟨(.finite 0, .finite 0), (0, 0)⟩
  else do
    let rounds ← (List.range numBootstraps).mapM (bootRound rt rows)
    let lowerIdx := (truncated ((1 - confidenceLevel) / 2 * numBootstraps)).toNat
    let upperIdx := (truncated ((1 + confidenceLevel) / 2 * numBootstraps)).toNat
    let upperIdx := if numBootstraps ≤ upperIdx then numBootstraps - 1 else upperIdx
    return intervalsAt lowerIdx upperIdx rounds

/-! ### The pipeline -/

/-- `CalibrationPipeline`. -/
structure CalibrationPipeline where
  asOf : ℤ
  minSamples : ℤ
  kFolds : ℤ

/-- What the pipeline returns. -/
structure CalibrationReport where
  brierScore : PyFloat
  brierCi : PyFloat × PyFloat
  ece : ℚ
  eceCi : ℚ × ℚ
  isotonicThresholds : List PyFloat
  isotonicValues : List PyFloat
  numSamples : ℕ
  discountedWeightSum : ℚ
  mode : String

/-- An incident with its weight. -/
def evaluatedOf (asOf : ℤ) (inc : IncidentLabel PyFloat) : Evaluated where
  prediction := inc.predictedConfidence
  label := inc.trueLabel
  weight := calculateWatermarkWeight rt.exp inc.timestamp asOf

/-- The sample of a row with a finite prediction. -/
def Evaluated.sample? (r : Evaluated) : Option Sample :=
  match r.prediction with
  | .finite q => some ⟨q, r.label, r.weight⟩
  | _ => none

/-- The predictions to evaluate and the map.  A fit converts every label to a float. -/
def CalibrationPipeline.fitted (cfg : CalibrationPipeline) (rows : List Evaluated) :
    Except Exc Fitted :=
  if rows.length < cfg.minSamples then
    .ok ⟨rows.map Evaluated.prediction, [.finite 0, .finite 1], [.finite 0, .finite 1]⟩
  else do
    let _ ← rows.mapM fun r => floatOfInt r.label
    match rows.mapM Evaluated.sample? with
    | some samples =>
      return ⟨(getOutOfFoldPredictions rt.shuffle samples cfg.kFolds).map .finite,
        (fitIsotonicRegression samples).1.map .finite, (fitIsotonicRegression samples).2.map .finite⟩
    | none => return rt.fitBeyond rows cfg.kFolds

/-- The metrics of the fitted predictions. -/
def CalibrationPipeline.report (cfg : CalibrationPipeline) (rows : List Evaluated)
    (fitted : Fitted) : Except Exc CalibrationReport := do
  let evaluated := fitted.evalPredictions.zipWith (fun p r => { r with prediction := p }) rows
  let brier ← computeBrierScore evaluated
  let ece ← computeEce evaluated 10
  let ci ← bootstrapMetrics rt evaluated 200 (95 / 100)
  return {
    brierScore := brier
    brierCi := ci.brierCi
    ece := ece
    eceCi := ci.eceCi
    isotonicThresholds := fitted.thresholds
    isotonicValues := fitted.values
    numSamples := rows.length
    discountedWeightSum := totalWeight rows
    mode := if cfg.minSamples ≤ rows.length then "calibrated" else "uncalibrated" }

/-- "No valid labeled incidents provided". -/
def noIncidents : Exc := ⟨.valueError, "No valid labeled incidents provided"⟩

/-- `CalibrationPipeline.run`. -/
def CalibrationPipeline.run (cfg : CalibrationPipeline) (rawData : List Json) :
    Except Exc CalibrationReport := do
  let incidents ← collectLabeledIncidents rt rawData
  if incidents.isEmpty then .error noIncidents
  else do
    let rows := incidents.map (evaluatedOf rt cfg.asOf)
    let fitted ← cfg.fitted rt rows
    cfg.report rt rows fitted

end Omniscience.Retrieval
