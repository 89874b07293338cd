import Omniscience.Retrieval.CalibrationPipeline
import Omniscience.Retrieval.CalibrationMaps
import Mathlib.Data.List.GetD

/-!
# What the calibration pipeline reports

The pipeline is to report metrics between zero and one with ordered intervals, or to say that no row
parses (`Meets`).  The parser lets through confidences and labels for which it does not.

A row is fine (`FineRow`) if it is skipped, or has a confidence that a bin takes and that differs
from the label by at most one.

* `pipeline_meets` : below `min_samples` all parts of some raw rows meet this if and only if every
  row is fine.  From there on it is enough that the labels are zero or one and the confidences
  finite.
-/

namespace Omniscience.Retrieval

open List

/-! ### Fine samples -/

/-- A sample that the metrics measure between zero and one: its prediction has a bin and differs
from the label by at most one. -/
structure FineSample (s : Sample) : Prop where
  lower : -(11 / 10) < s.prediction
  upper : s.prediction < 11 / 10
  error : |s.prediction - s.label| ≤ 1
  weight : 0 < s.weight

/-- A sample as it is evaluated. -/
def Sample.evaluated (s : Sample) : Evaluated := ⟨.finite s.prediction, s.label, s.weight⟩

/-- The weight of some samples. -/
def weightOf (samples : List Sample) : ℚ := (samples.map Sample.weight).sum

/-- The weighted square of the error of a sample. -/
def squareOf (s : Sample) : ℚ := s.weight * (s.prediction - s.label) ^ 2

/-- The Brier score of some samples. -/
def brierOf (samples : List Sample) : ℚ := (weightOf samples)⁻¹ * (samples.map squareOf).sum

variable {rt : Runtime} {cfg : CalibrationPipeline} {samples bin : List Sample} {s : Sample}

theorem overflowBound_gt : 100 < overflowBound := by
  have hsplit : (2 : ℚ) ^ 1024 = 2 ^ 970 * 2 ^ 54 := by rw [← pow_add]
  have hbig : ∀ x : ℚ, 1 ≤ x → 100 < x * 2 ^ 54 - x := fun x hx => by linarith
  rw [overflowBound, hsplit]
  exact hbig _ (one_le_pow₀ one_le_two)

theorem FineSample.label_lt (h : FineSample s) : |(s.label : ℚ)| < 4 := by
  obtain ⟨hlower, hupper, herror, -⟩ := h
  rw [abs_le] at herror
  rw [abs_lt]
  constructor <;> linarith [herror.1, herror.2]

theorem floatOfInt_of_lt {n : ℤ} (h : |(n : ℚ)| < 4) : floatOfInt n = .ok n :=
  if_pos (h.trans (lt_trans (by norm_num) overflowBound_gt))

theorem of_of_lt {q : ℚ} (h : |q| < 100) : PyFloat.of q = .finite q :=
  if_pos (h.trans overflowBound_gt)

theorem weightedSquare_evaluated (h : FineSample s) :
    weightedSquare s.evaluated = .ok (.finite (squareOf s)) := by
  have herror : |s.prediction - s.label| < 100 := h.error.trans_lt (by norm_num)
  have hsquare : (s.prediction - s.label) ^ 2 < overflowBound := by
    refine lt_of_le_of_lt ?_ overflowBound_gt
    have hle := abs_le.1 h.error
    nlinarith
  rw [weightedSquare, Sample.evaluated, floatOfInt_of_lt h.label_lt, ok_bind, PyFloat.subInt,
    of_of_lt herror, PyFloat.square, if_pos hsquare]
  rfl

theorem foldl_add_finite (qs : List ℚ) (q : ℚ) :
    (qs.map PyFloat.finite).foldl PyFloat.add (.finite q) = .finite (q + qs.sum) := by
  induction qs generalizing q with
  | nil => simp
  | cons r qs ih =>
    rw [map_cons, foldl_cons, PyFloat.add, ih, sum_cons, add_assoc]

theorem totalWeight_evaluated (samples : List Sample) :
    totalWeight (samples.map Sample.evaluated) = weightOf samples := by
  rw [totalWeight, map_map]
  rfl

theorem weightOf_pos (h : ∀ s ∈ samples, FineSample s) (hne : samples ≠ []) :
    0 < weightOf samples := by
  refine sum_pos _ (fun w hw => ?_) (by simpa using hne)
  obtain ⟨s, hs, rfl⟩ := mem_map.1 hw
  exact (h s hs).weight

/-- **The Brier score of fine samples.** -/
theorem computeBrierScore_evaluated (h : ∀ s ∈ samples, FineSample s) (hne : samples ≠ []) :
    computeBrierScore (samples.map Sample.evaluated) = .ok (.finite (brierOf samples)) := by
  have hempty : ¬ ((samples.map Sample.evaluated).isEmpty = true ∨
      totalWeight (samples.map Sample.evaluated) = 0) := by
    rw [totalWeight_evaluated, not_or]
    exact ⟨by simpa using hne, (weightOf_pos h hne).ne'⟩
  have hterms : (samples.map Sample.evaluated).mapM weightedSquare =
      .ok ((samples.map squareOf).map PyFloat.finite) := by
    rw [mapM_map, map_map]
    exact mapM_eq_ok fun s hs => weightedSquare_evaluated (h s hs)
  unfold computeBrierScore
  rw [if_neg hempty, hterms, ok_bind, foldl_add_finite, zero_add, totalWeight_evaluated]
  rfl

theorem FineSample.square_mem (h : FineSample s) : 0 ≤ squareOf s ∧ squareOf s ≤ s.weight := by
  have hsquare : (s.prediction - s.label) ^ 2 ≤ 1 := (sq_le_one_iff_abs_le_one _).2 h.error
  exact ⟨mul_nonneg h.weight.le (sq_nonneg _), mul_le_of_le_one_right h.weight.le hsquare⟩

theorem brierOf_mem (h : ∀ s ∈ samples, FineSample s) (hne : samples ≠ []) :
    0 ≤ brierOf samples ∧ brierOf samples ≤ 1 := by
  have hpos := weightOf_pos h hne
  constructor
  · refine mul_nonneg (inv_nonneg.2 hpos.le) (sum_nonneg fun x hx => ?_)
    obtain ⟨s, hs, rfl⟩ := mem_map.1 hx
    exact (h s hs).square_mem.1
  · rw [brierOf, inv_mul_le_iff₀ hpos, mul_one]
    exact sum_le_sum fun s hs => (h s hs).square_mem.2

/-! ### Bins -/

theorem truncated_mem_iff {x : ℚ} : -10 ≤ truncated x ∧ truncated x ≤ 10 ↔ -11 < x ∧ x < 11 := by
  rw [truncated]
  split
  · rename_i hx
    have hfloor : 0 ≤ ⌊x⌋ := Int.floor_nonneg.2 hx
    have hlt : ⌊x⌋ < 11 ↔ x < 11 := by
      rw [Int.floor_lt]
      norm_num
    constructor
    · exact fun h => ⟨by linarith, hlt.1 (by omega)⟩
    · exact fun h => ⟨by omega, by have hlt' := hlt.2 h.2; omega⟩
  · rename_i hx
    have hneg := not_le.1 hx
    have hceil : ⌈x⌉ ≤ 0 := Int.ceil_le.2 (by simpa using hneg.le)
    have hlt : -11 < ⌈x⌉ ↔ -11 < x := by
      rw [Int.lt_ceil]
      norm_num
    constructor
    · exact fun h => ⟨hlt.1 (by omega), by linarith⟩
    · exact fun h => ⟨by have hlt' := hlt.2 h.1; omega, by omega⟩

/-- The bin of a prediction. -/
def binIndex (q : ℚ) : ℕ :=
  let b := truncated (q * 10)
  (if b = 10 then 9 else if 0 ≤ b then b else b + 10).toNat

theorem binIndex_lt {q : ℚ} (hlower : -(11 / 10) < q) (hupper : q < 11 / 10) : binIndex q < 10 := by
  have hmem : -10 ≤ truncated (q * 10) ∧ truncated (q * 10) ≤ 10 :=
    truncated_mem_iff.2 ⟨by linarith, by linarith⟩
  unfold binIndex
  dsimp only
  split_ifs <;> omega

theorem binRow_of_mem {q : ℚ} {y : ℤ} {w : ℚ} (hlower : -(11 / 10) < q) (hupper : q < 11 / 10) :
    binRow 10 ⟨.finite q, y, w⟩ = .ok (binIndex q, ⟨q, y, w⟩) := by
  have hmem : -10 ≤ truncated (q * 10) ∧ truncated (q * 10) ≤ 10 :=
    truncated_mem_iff.2 ⟨by linarith, by linarith⟩
  have htimes : PyFloat.times 10 (.finite q) = .finite (q * 10) := by
    rw [PyFloat.times, Nat.cast_ofNat]
    exact of_of_lt (abs_lt.2 ⟨by linarith, by linarith⟩)
  unfold binRow binIndex
  dsimp only
  rw [htimes, PyFloat.toInt, ok_bind]
  by_cases hten : truncated (q * 10) = 10
  · simp [hten]
  · by_cases hzero : 0 ≤ truncated (q * 10)
    · have hlt : truncated (q * 10) < 10 := by omega
      simp [hten, hzero, hlt]
    · have hneg : truncated (q * 10) < 0 := not_le.1 hzero
      simp [hten, hzero, hneg, hmem.1]

theorem binRow_error {r : Evaluated}
    (h : ∀ q, r.prediction = .finite q → ¬ (-(11 / 10) < q ∧ q < 11 / 10)) :
    ∃ e, binRow 10 r = .error e := by
  obtain ⟨prediction, y, w⟩ := r
  cases prediction with
  | nan => exact ⟨_, rfl⟩
  | inf s => exact ⟨_, rfl⟩
  | finite q =>
    have hnot : ¬ (-10 ≤ truncated (q * 10) ∧ truncated (q * 10) ≤ 10) := by
      rw [truncated_mem_iff]
      exact fun hmem => h q rfl ⟨by linarith [hmem.1], by linarith [hmem.2]⟩
    unfold binRow
    dsimp only
    rw [PyFloat.times, Nat.cast_ofNat, PyFloat.of]
    split
    · rw [PyFloat.toInt, ok_bind]
      have hten : truncated (q * 10) ≠ 10 := by omega
      have hhigh : ¬ (0 ≤ truncated (q * 10) ∧ truncated (q * 10) < 10) := by omega
      have hlow : ¬ (-10 ≤ truncated (q * 10) ∧ truncated (q * 10) < 0) := by omega
      simp [hten, hhigh, hlow]
    · exact ⟨_, rfl⟩

/-- The calibration error of a bin. -/
def binErrorOf (total : ℚ) (bin : List Sample) : ℚ :=
  if weightOf bin = 0 then 0
  else weightOf bin / total *
    |(bin.map fun r => r.weight * (r.label : ℚ)).sum / weightOf bin -
      (bin.map fun r => r.weight * r.prediction).sum / weightOf bin|

theorem binError_eq {total : ℚ} (h : ∀ s ∈ bin, FineSample s) :
    binError total bin = .ok (binErrorOf total bin) := by
  have hterms : (bin.mapM fun r => (floatOfInt r.label).map fun y => r.weight * y) =
      .ok (bin.map fun r => r.weight * (r.label : ℚ)) := by
    refine mapM_eq_ok fun s hs => ?_
    rw [floatOfInt_of_lt (h s hs).label_lt]
    rfl
  unfold binError binErrorOf
  dsimp only
  rw [weightOf]
  split
  · rfl
  · rw [hterms]
    rfl

/-- **A bin adds at most its share of the weight.** -/
theorem binErrorOf_mem {total : ℚ} (h : ∀ s ∈ bin, FineSample s) (htotal : 0 < total) :
    0 ≤ binErrorOf total bin ∧ binErrorOf total bin ≤ weightOf bin / total := by
  unfold binErrorOf
  split
  · rename_i hzero
    rw [hzero, zero_div]
    exact ⟨le_rfl, le_rfl⟩
  · rename_i hzero
    have hne : bin ≠ [] := by
      rintro rfl
      exact hzero rfl
    have hpos := weightOf_pos h hne
    have hmean : |(bin.map fun r => r.weight * (r.label : ℚ)).sum / weightOf bin -
        (bin.map fun r => r.weight * r.prediction).sum / weightOf bin| ≤ 1 := by
      rw [← sub_div, abs_div, abs_of_pos hpos, div_le_one hpos, abs_le]
      have hupper : (bin.map fun r => r.weight * (r.label : ℚ)).sum ≤
          (bin.map fun r => r.weight * r.prediction).sum + weightOf bin := by
        rw [weightOf, ← sum_map_add]
        refine sum_le_sum fun s hs => ?_
        have herror := (abs_le.1 (h s hs).error).1
        nlinarith [(h s hs).weight]
      have hlower : (bin.map fun r => r.weight * r.prediction).sum ≤
          (bin.map fun r => r.weight * (r.label : ℚ)).sum + weightOf bin := by
        rw [weightOf, ← sum_map_add]
        refine sum_le_sum fun s hs => ?_
        have herror := (abs_le.1 (h s hs).error).2
        nlinarith [(h s hs).weight]
      constructor <;> linarith
    have hshare : 0 ≤ weightOf bin / total := div_nonneg hpos.le htotal.le
    exact ⟨mul_nonneg hshare (abs_nonneg _), mul_le_of_le_one_right hshare hmean⟩

/-- The samples of a bin. -/
def binSamples (samples : List Sample) (b : ℕ) : List Sample :=
  samples.filter fun s => binIndex s.prediction = b

/-- The expected calibration error of some samples. -/
def eceOf (samples : List Sample) : ℚ :=
  ((List.range 10).map fun b => binErrorOf (weightOf samples) (binSamples samples b)).sum

theorem sum_range_ite {w : ℚ} {i m : ℕ} (h : i < m) :
    ((List.range m).map fun b => if i = b then w else 0).sum = w := by
  induction m with
  | zero => omega
  | succ m ih =>
    rw [range_succ, map_append, sum_append, map_singleton, sum_singleton]
    by_cases him : i = m
    · have hzero : ((List.range m).map fun b => if i = b then w else 0).sum = 0 := by
        refine sum_eq_zero fun x hx => ?_
        obtain ⟨b, hb, rfl⟩ := mem_map.1 hx
        rw [if_neg (by have hlt := mem_range.1 hb; omega)]
      rw [hzero, if_pos him, zero_add]
    · rw [ih (by omega), if_neg him, add_zero]

/-- **The bins share the weight.** -/
theorem sum_weightOf_bins (h : ∀ s ∈ samples, FineSample s) :
    ((List.range 10).map fun b => weightOf (binSamples samples b)).sum = weightOf samples := by
  induction samples with
  | nil => simp [binSamples, weightOf]
  | cons s samples ih =>
    have hs := h s mem_cons_self
    have hsplit : ∀ b, weightOf (binSamples (s :: samples) b) =
        (if binIndex s.prediction = b then s.weight else 0) + weightOf (binSamples samples b) := by
      intro b
      rw [binSamples, filter_cons]
      by_cases hb : binIndex s.prediction = b
      · simp [hb, binSamples, weightOf]
      · simp [hb, binSamples, weightOf]
    simp only [hsplit]
    rw [sum_map_add, sum_range_ite (binIndex_lt hs.lower hs.upper),
      ih fun t ht => h t (mem_cons_of_mem _ ht)]
    rfl

/-- **The calibration error of fine samples.** -/
theorem computeEce_evaluated (h : ∀ s ∈ samples, FineSample s) (hne : samples ≠ []) :
    computeEce (samples.map Sample.evaluated) 10 = .ok (eceOf samples) := by
  have hbinned : (samples.map Sample.evaluated).mapM (binRow 10) =
      .ok (samples.map fun s => (binIndex s.prediction, s)) := by
    rw [mapM_map]
    exact mapM_eq_ok fun s hs => binRow_of_mem (h s hs).lower (h s hs).upper
  have hbin : ∀ b, binOf (samples.map fun s => (binIndex s.prediction, s)) b =
      binSamples samples b := by
    intro b
    rw [binOf, binSamples, filter_map, map_map]
    exact map_id _
  have herrors : ((List.range 10).mapM fun b => binError (weightOf samples) (binSamples samples b)) =
      .ok ((List.range 10).map fun b => binErrorOf (weightOf samples) (binSamples samples b)) :=
    mapM_eq_ok fun b _ => binError_eq fun s hs => h s (mem_of_mem_filter hs)
  unfold computeEce
  rw [if_neg (by simpa using hne), hbinned, ok_bind, totalWeight_evaluated,
    if_neg (weightOf_pos h hne).ne']
  simp only [hbin]
  rw [herrors]
  rfl

theorem eceOf_mem (h : ∀ s ∈ samples, FineSample s) (hne : samples ≠ []) :
    0 ≤ eceOf samples ∧ eceOf samples ≤ 1 := by
  have hpos := weightOf_pos h hne
  have hbin : ∀ b, 0 ≤ binErrorOf (weightOf samples) (binSamples samples b) ∧
      binErrorOf (weightOf samples) (binSamples samples b) ≤
        weightOf (binSamples samples b) / weightOf samples :=
    fun b => binErrorOf_mem (fun s hs => h s (mem_of_mem_filter hs)) hpos
  constructor
  · refine sum_nonneg fun x hx => ?_
    obtain ⟨b, -, rfl⟩ := mem_map.1 hx
    exact (hbin b).1
  · calc eceOf samples
        ≤ ((List.range 10).map fun b =>
            weightOf (binSamples samples b) / weightOf samples).sum :=
          sum_le_sum fun b _ => (hbin b).2
      _ = weightOf samples / weightOf samples := by
          simp only [div_eq_mul_inv]
          rw [sum_map_mul_right, sum_weightOf_bins h]
      _ = 1 := div_self hpos.ne'

/-! ### The bootstrap -/

/-- Metrics between zero and one, and intervals in order. -/
structure CalibrationReport.InRange (r : CalibrationReport) : Prop where
  brier : ∃ q, r.brierScore = .finite q ∧ 0 ≤ q ∧ q ≤ 1
  ece : 0 ≤ r.ece ∧ r.ece ≤ 1
  brierCi : PyFloat.le r.brierCi.1 r.brierCi.2 = true
  eceCi : r.eceCi.1 ≤ r.eceCi.2

/-- The samples that a round of the bootstrap draws. -/
def bootSamples (rt : Runtime) (samples : List Sample) (round : ℕ) : List Sample :=
  (List.range samples.length).map fun i =>
    samples.getD (rt.randint round i (samples.length - 1)) ⟨0, 0, 0⟩

theorem bootRows_evaluated (round : ℕ) : bootRows rt (samples.map Sample.evaluated) round =
      (bootSamples rt samples round).map Sample.evaluated := by
  rw [bootRows, bootSamples, map_map, length_map]
  refine map_congr_left fun i _ => ?_
  exact getD_map samples (⟨0, 0, 0⟩ : Sample) Sample.evaluated

theorem mem_of_mem_bootSamples {round : ℕ} (h : s ∈ bootSamples rt samples round) : s ∈ samples := by
  obtain ⟨i, hi, rfl⟩ := mem_map.1 h
  have hlt : (rt.randint round i (samples.length - 1) : ℕ) < samples.length := by
    have hfin := (rt.randint round i (samples.length - 1)).isLt
    have hrange := mem_range.1 hi
    omega
  rw [getD_eq_getElem _ _ hlt]
  exact getElem_mem hlt

theorem bootRound_evaluated (h : ∀ s ∈ samples, FineSample s) (hne : samples ≠ []) (round : ℕ) :
    bootRound rt (samples.map Sample.evaluated) round =
      .ok (.finite (brierOf (bootSamples rt samples round)),
        eceOf (bootSamples rt samples round)) := by
  have hboot : ∀ s ∈ bootSamples rt samples round, FineSample s :=
    fun s hs => h s (mem_of_mem_bootSamples hs)
  have hne' : bootSamples rt samples round ≠ [] := by
    rw [bootSamples, ne_eq, map_eq_nil_iff, range_eq_nil, length_eq_zero_iff]
    exact hne
  rw [bootRound, bootRows_evaluated, computeBrierScore_evaluated hboot hne', ok_bind,
    computeEce_evaluated hboot hne', ok_bind]
  rfl

theorem getD_insertionSort_le {qs : List ℚ} {i j : ℕ} (hij : i ≤ j) (hj : j < qs.length) :
    (qs.insertionSort (· ≤ ·)).getD i 0 ≤ (qs.insertionSort (· ≤ ·)).getD j 0 := by
  have hlength : j < (qs.insertionSort (· ≤ ·)).length := by rwa [length_insertionSort]
  rw [getD_eq_getElem _ _ hlength, getD_eq_getElem _ _ (hij.trans_lt hlength)]
  rcases hij.eq_or_lt with heq | hlt
  · simp [heq]
  · exact pairwise_iff_getElem.1 (pairwise_insertionSort _ qs) i j _ _ hlt

/-- **The intervals are in order.** -/
theorem intervalsAt_ordered (briers eces : ℕ → ℚ) {lower upper n : ℕ}
    (hle : lower ≤ upper) (hlt : upper < n) :
    let ci := intervalsAt lower upper
      ((List.range n).map fun b => (PyFloat.finite (briers b), eces b))
    PyFloat.le ci.brierCi.1 ci.brierCi.2 = true ∧ ci.eceCi.1 ≤ ci.eceCi.2 := by
  have hsort : (((List.range n).map briers).map PyFloat.finite).insertionSort
      (fun x y => PyFloat.le x y) =
        (((List.range n).map briers).insertionSort (· ≤ ·)).map PyFloat.finite :=
    (map_insertionSort _ _ _ _ fun p _ q _ => by simp [PyFloat.le]).symm
  have hbriers : ((List.range n).map fun b => (PyFloat.finite (briers b), eces b)).map Prod.fst =
      ((List.range n).map briers).map PyFloat.finite := by
    rw [map_map, map_map]
    rfl
  have heces : ((List.range n).map fun b => (PyFloat.finite (briers b), eces b)).map Prod.snd =
      (List.range n).map eces := by
    rw [map_map]
    rfl
  dsimp only [intervalsAt]
  rw [hbriers, heces, hsort]
  constructor
  · rw [getD_map, getD_map, PyFloat.le, decide_eq_true_eq]
    exact getD_insertionSort_le hle (by simpa using hlt)
  · exact getD_insertionSort_le hle (by simpa using hlt)

/-- **The report on fine samples is in range.** -/
theorem report_inRange {rows : List Evaluated} {fitted : Fitted}
    (h : ∀ s ∈ samples, FineSample s) (hne : samples ≠ [])
    (hrows : fitted.evalPredictions.zipWith (fun p r => { r with prediction := p }) rows =
      samples.map Sample.evaluated) :
    ∃ report, cfg.report rt rows fitted = .ok report ∧ report.InRange := by
  have hrounds : (List.range 200).mapM (bootRound rt (samples.map Sample.evaluated)) =
      .ok ((List.range 200).map fun b => (PyFloat.finite (brierOf (bootSamples rt samples b)),
        eceOf (bootSamples rt samples b))) :=
    mapM_eq_ok fun b _ => bootRound_evaluated h hne b
  have hlower : (truncated ((1 - 95 / 100) / 2 * (200 : ℕ))).toNat = 5 := by decide +kernel
  have hupper : (truncated ((1 + 95 / 100) / 2 * (200 : ℕ))).toNat = 195 := by decide +kernel
  have hci : bootstrapMetrics rt (samples.map Sample.evaluated) 200 (95 / 100) =
      .ok (intervalsAt 5 195 ((List.range 200).map fun b =>
        (PyFloat.finite (brierOf (bootSamples rt samples b)),
          eceOf (bootSamples rt samples b)))) := by
    unfold bootstrapMetrics
    rw [if_neg (by simpa using hne), hrounds, ok_bind]
    dsimp only
    rw [hlower, hupper]
    rfl
  have hlt : 195 < 200 := by omega
  obtain ⟨hbrierCi, heceCi⟩ := intervalsAt_ordered
    (fun b => brierOf (bootSamples rt samples b)) (fun b => eceOf (bootSamples rt samples b))
    (show 5 ≤ 195 by omega) hlt
  unfold CalibrationPipeline.report
  dsimp only
  rw [hrows, computeBrierScore_evaluated h hne, ok_bind, computeEce_evaluated h hne, ok_bind, hci,
    ok_bind]
  exact ⟨_, rfl, ⟨_, rfl, brierOf_mem h hne⟩, eceOf_mem h hne, hbrierCi, heceCi⟩

/-! ### The calibrated predictions -/

/-- A sample whose label is zero or one. -/
structure LabelledSample (s : Sample) : Prop where
  label : s.label = 0 ∨ s.label = 1
  weight : 0 ≤ s.weight

theorem fitKnots_values (h : ∀ s ∈ samples, LabelledSample s) {k : ℚ × ℚ}
    (hk : k ∈ fitKnots samples) : 0 ≤ k.2 ∧ k.2 ≤ 1 := by
  unfold fitKnots at hk
  split at hk
  · rcases mem_cons.1 hk with rfl | hk
    · exact ⟨le_rfl, zero_le_one⟩
    · rw [mem_singleton.1 hk]
      exact ⟨zero_le_one, le_rfl⟩
  · rename_i hne
    obtain ⟨k', hk', hvalue⟩ :=
      exists_of_mem_spannedKnots (knotsFrom_ne_nil (fitBlocks_ne_nil hne)) hk
    obtain ⟨-, b, hb, hvalue', -⟩ := mem_knotsFrom hk'
    have hwithin : Observations.Within 0 1 b := by
      refine Observations.forall_blocksOf (P := Observations.Within 0 1)
        (fun c b hc hb => hc.pool le_rfl zero_le_one hb) (fun r hr => ?_) b hb
      obtain ⟨hlabel, hweight⟩ := h r (mem_sortedSamples.1 hr)
      refine ⟨hweight, ?_, ?_⟩
      · show (0 : ℚ) ≤ (r.label : ℚ)
        rcases hlabel with hlabel | hlabel <;> simp [hlabel]
      · show (r.label : ℚ) ≤ 1
        rcases hlabel with hlabel | hlabel <;> simp [hlabel]
    rw [hvalue, hvalue']
    exact ⟨hwithin.le, hwithin.ge⟩

theorem fittedAt_mem (h : ∀ s ∈ samples, LabelledSample s) (p : ℚ) :
    0 ≤ fittedAt samples p ∧ fittedAt samples p ≤ 1 := by
  have hvalues := fun k hk => fitKnots_values h (k := k) hk
  have hincreasing := fitKnots_increasing samples
  rw [fittedAt_eq]
  constructor
  · cases hknots : fitKnots samples with
    | nil => exact absurd hknots (fitKnots_ne_nil samples)
    | cons k rest =>
      rw [hknots] at hincreasing hvalues
      exact (hvalues k mem_cons_self).1.trans (Interpolation.le_interpolate hincreasing p)
  · rcases eq_nil_or_concat (fitKnots samples) with hknots | ⟨init, k, hknots⟩
    · exact absurd hknots (fitKnots_ne_nil samples)
    · rw [hknots, concat_eq_append] at hincreasing hvalues ⊢
      exact (Interpolation.interpolate_le_last hincreasing p).trans
        (hvalues k (mem_append_right _ (mem_singleton_self k))).2

theorem labelledSample_rowAt (h : ∀ s ∈ samples, LabelledSample s) (idx : ℕ) :
    LabelledSample (rowAt samples idx) := by
  rw [rowAt]
  by_cases hidx : idx < samples.length
  · rw [getD_eq_getElem _ _ hidx]
    exact h _ (getElem_mem hidx)
  · rw [getD_eq_default _ _ (not_lt.1 hidx)]
    exact ⟨.inl rfl, le_rfl⟩

theorem predictionFrom_mem (h : ∀ s ∈ samples, LabelledSample s) (train : List ℕ) (idx : ℕ) :
    0 ≤ predictionFrom samples train idx ∧ predictionFrom samples train idx ≤ 1 := by
  refine fittedAt_mem (fun s hs => ?_) _
  obtain ⟨idx', -, rfl⟩ := mem_map.1 hs
  exact labelledSample_rowAt h idx'

theorem predictFold_mem {indices val : List ℕ} {oof : List ℚ}
    (h : ∀ s ∈ samples, LabelledSample s) (hoof : ∀ p ∈ oof, 0 ≤ p ∧ p ≤ 1) :
    ∀ p ∈ predictFold samples indices oof val, 0 ≤ p ∧ p ≤ 1 := by
  unfold predictFold
  generalize trainIndices indices val = train
  induction val generalizing oof with
  | nil => exact hoof
  | cons idx val ih =>
    refine ih fun p hp => ?_
    rcases mem_or_eq_of_mem_set hp with hp | rfl
    · exact hoof p hp
    · exact predictionFrom_mem h train idx

/-- **The out-of-fold predictions lie between zero and one**, one for each sample. -/
theorem getOutOfFoldPredictions_mem (shuffle : Shuffle) (kFolds : ℤ)
    (h : ∀ s ∈ samples, LabelledSample s) :
    (getOutOfFoldPredictions shuffle samples kFolds).length = samples.length ∧
      ∀ p ∈ getOutOfFoldPredictions shuffle samples kFolds, 0 ≤ p ∧ p ≤ 1 := by
  unfold getOutOfFoldPredictions
  dsimp only
  generalize (if (samples.length : ℤ) < kFolds then (samples.length : ℤ) else kFolds) = k
  split
  · refine ⟨length_map _, fun p hp => ?_⟩
    obtain ⟨s, -, rfl⟩ := mem_map.1 hp
    exact fittedAt_mem h s.prediction
  · rw [predictFolds_eq, drop_zero]
    refine ⟨by rw [length_foldl_predictFold, length_replicate], ?_⟩
    have hfolds : ∀ (folds : List (List ℕ)) (oof : List ℚ), (∀ p ∈ oof, 0 ≤ p ∧ p ≤ 1) →
        ∀ p ∈ folds.foldl (predictFold samples (shuffle.indices samples.length)) oof,
          0 ≤ p ∧ p ≤ 1 := by
      intro folds
      induction folds with
      | nil => exact fun _ hoof => hoof
      | cons f folds ih => exact fun oof hoof => ih _ (predictFold_mem h hoof)
    refine hfolds _ _ fun p hp => ?_
    rw [eq_of_mem_replicate hp]
    exact ⟨le_rfl, zero_le_one⟩

/-! ### Parsed rows -/

/-- The confidence and the label that a row is read as. -/
def valuesOf (rt : Runtime) (row : Json) : Except Exc (PyFloat × ℤ) :=
  (parseRow rt (rt.now 0) row).map fun inc => (inc.predictedConfidence, inc.trueLabel)

/-- The confidences and labels of the rows that parse. -/
def parsedOf (rt : Runtime) (rawData : List Json) : List (PyFloat × ℤ) :=
  rawData.filterMap fun row => (valuesOf rt row).toOption

variable {row : Json} {rawData : List Json} {incidents : List (IncidentLabel PyFloat)}

theorem timestampOf_now (rt : Runtime) (row : Json) :
    (∃ e, ∀ now, timestampOf rt now row = .error e) ∨
      ∀ now, ∃ ts, timestampOf rt now row = .ok ts := by
  cases row with
  | obj members =>
    unfold timestampOf
    dsimp only
    split
    · split
      · exact .inr fun _ => ⟨_, rfl⟩
      · exact .inl ⟨_, fun _ => rfl⟩
    · exact .inr fun now => ⟨now, rfl⟩
  | _ => exact .inr fun now => ⟨now, rfl⟩

theorem map_bind_congr {α β γ : Type} {x : Except Exc α} {f g : α → Except Exc β} {k : β → γ}
    (h : ∀ a, (f a).map k = (g a).map k) : (x >>= f).map k = (x >>= g).map k := by
  cases x with
  | error e => rfl
  | ok a => exact h a

theorem parseRow_values (rt : Runtime) (now : ℤ) (row : Json) :
    (parseRow rt now row).map (fun inc => (inc.predictedConfidence, inc.trueLabel)) =
      valuesOf rt row := by
  unfold valuesOf parseRow
  refine map_bind_congr fun v => map_bind_congr fun incId => map_bind_congr fun v =>
    map_bind_congr fun conf => map_bind_congr fun v => map_bind_congr fun label => ?_
  rcases timestampOf_now rt row with ⟨e, he⟩ | hok
  · rw [he, he]
  · obtain ⟨ts, hts⟩ := hok now
    obtain ⟨ts', hts'⟩ := hok (rt.now 0)
    rw [hts, hts']
    rfl

/-- **If no row raises anything else, the rows that parse are collected.** -/
theorem collectFrom_eq (rt : Runtime)
    (h : ∀ row ∈ rawData, ∀ e, valuesOf rt row = .error e → isSkipped e = true) (i : ℕ) :
    ∃ incidents, collectFrom rt i rawData = .ok incidents ∧
      incidents.map (fun inc => (inc.predictedConfidence, inc.trueLabel)) =
        parsedOf rt rawData := by
  induction rawData generalizing i with
  | nil => exact ⟨[], rfl, rfl⟩
  | cons row rest ih =>
    obtain ⟨incidents, hcollect, hvalues⟩ :=
      ih (fun row' hrow' => h row' (mem_cons_of_mem _ hrow')) (i + 1)
    have hrow := parseRow_values rt (rt.now i) row
    unfold collectFrom parsedOf
    cases hparse : parseRow rt (rt.now i) row with
    | ok inc =>
      rw [hparse] at hrow
      refine ⟨inc :: incidents, by rw [hcollect]; rfl, ?_⟩
      rw [filterMap_cons, ← hrow]
      exact congrArg _ hvalues
    | error e =>
      rw [hparse] at hrow
      refine ⟨incidents, ?_, ?_⟩
      · dsimp only
        rw [if_pos (h row mem_cons_self e hrow.symm), hcollect]
      · rw [filterMap_cons, ← hrow]
        exact hvalues

/-! ### Runs -/

/-- The pipeline reports metrics in range, or says that no row parses. -/
def Meets (rt : Runtime) (cfg : CalibrationPipeline) (rawData : List Json) : Prop :=
  (collectLabeledIncidents rt rawData = .ok [] ∧ cfg.run rt rawData = .error noIncidents) ∨
    ∃ report, cfg.run rt rawData = .ok report ∧ report.InRange

/-- A confidence that has a bin and differs from the label by at most one. -/
def FineValues (v : PyFloat × ℤ) : Prop :=
  ∃ q : ℚ, v.1 = .finite q ∧ (-(11 / 10) < q ∧ q < 11 / 10) ∧ |q - v.2| ≤ 1

/-- A finite confidence, so far from overflow that differences are finite, with a label that is zero
or one. -/
def FittableValues (v : PyFloat × ℤ) : Prop :=
  (∃ q : ℚ, v.1 = .finite q ∧ |q| ≤ 2 ^ 1022) ∧ (v.2 = 0 ∨ v.2 = 1)

/-- A row that is skipped, or read as values with a property. -/
def RowIs (P : PyFloat × ℤ → Prop) (rt : Runtime) (row : Json) : Prop :=
  match valuesOf rt row with
  | .ok v => P v
  | .error e => isSkipped e = true

/-- A row that is fine for the metrics. -/
def FineRow (rt : Runtime) (row : Json) : Prop := RowIs FineValues rt row

/-- A row that is fine for a fit. -/
def FittableRow (rt : Runtime) (row : Json) : Prop := RowIs FittableValues rt row

variable {P : PyFloat × ℤ → Prop} {inc : IncidentLabel PyFloat}

theorem exists_incidents (h : ∀ row ∈ rawData, RowIs P rt row) :
    ∃ incidents, collectLabeledIncidents rt rawData = .ok incidents ∧
      incidents.length = (parsedOf rt rawData).length ∧
      ∀ inc ∈ incidents, P (inc.predictedConfidence, inc.trueLabel) := by
  obtain ⟨incidents, hcollect, hvalues⟩ := collectFrom_eq rt (fun row hrow e he => by
      have hrow' := h row hrow
      rwa [RowIs, he] at hrow') 0
  refine ⟨incidents, hcollect, ?_, fun inc hinc => ?_⟩
  · rw [← hvalues, length_map]
  · have hmem : (inc.predictedConfidence, inc.trueLabel) ∈ parsedOf rt rawData :=
      hvalues ▸ mem_map_of_mem hinc
    obtain ⟨row, hrow, hread⟩ := mem_filterMap.1 hmem
    have hrow' := h row hrow
    cases hv : valuesOf rt row with
    | error e =>
      rw [hv] at hread
      cases hread
    | ok v =>
      rw [hv] at hread
      rw [RowIs, hv] at hrow'
      obtain rfl : v = (inc.predictedConfidence, inc.trueLabel) := Option.some.inj hread
      exact hrow'

theorem run_of_collected (h : collectLabeledIncidents rt rawData = .ok incidents)
    (hne : incidents ≠ []) :
    cfg.run rt rawData =
      (cfg.fitted rt (incidents.map (evaluatedOf rt cfg.asOf)) >>=
        cfg.report rt (incidents.map (evaluatedOf rt cfg.asOf))) := by
  unfold CalibrationPipeline.run
  rw [h, ok_bind, if_neg (by simpa using hne)]

theorem meets_nil (h : collectLabeledIncidents rt rawData = .ok []) : Meets rt cfg rawData := by
  refine .inl ⟨h, ?_⟩
  unfold CalibrationPipeline.run
  rw [h, ok_bind]
  rfl

theorem exists_samples (rt : Runtime) (asOf : ℤ)
    (h : ∀ inc ∈ incidents, ∃ q, inc.predictedConfidence = .finite q) :
    ∃ samples : List Sample, samples.map Sample.evaluated = incidents.map (evaluatedOf rt asOf) ∧
      ∀ s ∈ samples, ∃ inc ∈ incidents,
        inc.predictedConfidence = .finite s.prediction ∧ inc.trueLabel = s.label ∧ 0 < s.weight := by
  induction incidents with
  | nil => exact ⟨[], rfl, nofun⟩
  | cons inc incidents ih =>
    obtain ⟨samples, hsamples, hall⟩ := ih fun inc' hinc' => h inc' (mem_cons_of_mem _ hinc')
    obtain ⟨q, hq⟩ := h inc mem_cons_self
    refine ⟨⟨q, inc.trueLabel, calculateWatermarkWeight rt.exp inc.timestamp asOf⟩ :: samples, ?_,
      fun s hs => ?_⟩
    · rw [map_cons, map_cons, hsamples, evaluatedOf, hq]
      rfl
    · rcases mem_cons.1 hs with rfl | hs
      · exact ⟨inc, mem_cons_self, hq, rfl, calculateWatermarkWeight_pos rt.exp_pos _ _⟩
      · obtain ⟨inc', hinc', hrest⟩ := hall s hs
        exact ⟨inc', mem_cons_of_mem _ hinc', hrest⟩

theorem zipWith_predictions (rows : List Evaluated) :
    (rows.map Evaluated.prediction).zipWith (fun p r => { r with prediction := p }) rows = rows := by
  induction rows with
  | nil => rfl
  | cons r rows ih => rw [map_cons, zipWith_cons_cons, ih]

/-- The samples with other predictions. -/
def repredicted (ps : List ℚ) (samples : List Sample) : List Sample :=
  (ps.zip samples).map fun z => { z.2 with prediction := z.1 }

theorem zipWith_repredicted (ps : List ℚ) (samples : List Sample) :
    (ps.map PyFloat.finite).zipWith (fun p r => { r with prediction := p })
      (samples.map Sample.evaluated) = (repredicted ps samples).map Sample.evaluated := by
  induction ps generalizing samples with
  | nil => rfl
  | cons p ps ih =>
    cases samples with
    | nil => rfl
    | cons s samples =>
      rw [map_cons, map_cons, zipWith_cons_cons, ih]
      rfl

theorem fineSample_repredicted {ps : List ℚ} (hps : ∀ p ∈ ps, 0 ≤ p ∧ p ≤ 1)
    (h : ∀ s ∈ samples, (s.label = 0 ∨ s.label = 1) ∧ 0 < s.weight) :
    ∀ s ∈ repredicted ps samples, FineSample s := by
  intro s hs
  obtain ⟨⟨p, t⟩, hz, rfl⟩ := mem_map.1 hs
  obtain ⟨hp, ht⟩ := of_mem_zip hz
  obtain ⟨hzero, hone⟩ := hps p hp
  obtain ⟨hlabel, hweight⟩ := h t ht
  refine ⟨by dsimp only; linarith, by dsimp only; linarith, ?_, hweight⟩
  rw [abs_le]
  rcases hlabel with hlabel | hlabel <;> rw [hlabel] <;> constructor <;> push_cast <;> linarith

/-- **Below `min_samples` fine rows meet the claim.** -/
theorem meets_of_fine (h : ∀ row ∈ rawData, FineRow rt row)
    (hshort : ((parsedOf rt rawData).length : ℤ) < cfg.minSamples) : Meets rt cfg rawData := by
  obtain ⟨incidents, hcollect, hlength, hfine⟩ := exists_incidents h
  by_cases hne : incidents = []
  · rw [hne] at hcollect
    exact meets_nil hcollect
  · obtain ⟨samples, hsamples, hall⟩ := exists_samples rt cfg.asOf fun inc hinc => by
      obtain ⟨q, hq, -⟩ := hfine inc hinc
      exact ⟨q, hq⟩
    have hfine' : ∀ s ∈ samples, FineSample s := by
      intro s hs
      obtain ⟨inc, hinc, hconf, hlabel, hweight⟩ := hall s hs
      obtain ⟨q, hq, ⟨hlower, hupper⟩, herror⟩ := hfine inc hinc
      obtain rfl : q = s.prediction := PyFloat.finite.inj (hq.symm.trans hconf)
      exact ⟨hlower, hupper, hlabel ▸ herror, hweight⟩
    have hne' : samples ≠ [] := by
      rintro rfl
      exact hne (map_eq_nil_iff.1 hsamples.symm)
    have hshort' : ((incidents.map (evaluatedOf rt cfg.asOf)).length : ℤ) < cfg.minSamples := by
      rwa [length_map, hlength]
    refine .inr ?_
    rw [run_of_collected hcollect hne, CalibrationPipeline.fitted, if_pos hshort', ok_bind]
    refine report_inRange hfine' hne' ?_
    rw [hsamples]
    exact zipWith_predictions _

/-- **From `min_samples` on fittable rows meet the claim.** -/
theorem meets_of_fittable (h : ∀ row ∈ rawData, FittableRow rt row)
    (hlong : cfg.minSamples ≤ ((parsedOf rt rawData).length : ℤ)) : Meets rt cfg rawData := by
  obtain ⟨incidents, hcollect, hlength, hfine⟩ := exists_incidents h
  by_cases hne : incidents = []
  · rw [hne] at hcollect
    exact meets_nil hcollect
  · obtain ⟨samples, hsamples, hall⟩ := exists_samples rt cfg.asOf fun inc hinc => by
      obtain ⟨⟨q, hq, -⟩, -⟩ := hfine inc hinc
      exact ⟨q, hq⟩
    have hall' : ∀ s ∈ samples, (s.label = 0 ∨ s.label = 1) ∧ 0 < s.weight := by
      intro s hs
      obtain ⟨inc, hinc, -, hlabel, hweight⟩ := hall s hs
      exact ⟨hlabel ▸ (hfine inc hinc).2, hweight⟩
    have hlabelled : ∀ s ∈ samples, LabelledSample s :=
      fun s hs => ⟨(hall' s hs).1, (hall' s hs).2.le⟩
    have hlong' : ¬ ((incidents.map (evaluatedOf rt cfg.asOf)).length : ℤ) < cfg.minSamples := by
      rw [length_map, hlength]
      exact not_lt.2 hlong
    have hlabels : ((samples.map Sample.evaluated).mapM fun r => floatOfInt r.label) =
        .ok (samples.map fun s => (s.label : ℚ)) := by
      rw [mapM_map]
      refine mapM_eq_ok fun s hs => floatOfInt_of_lt ?_
      rcases (hlabelled s hs).label with hlabel | hlabel <;> norm_num [Sample.evaluated, hlabel]
    have hfinite : (samples.map Sample.evaluated).mapM Evaluated.sample? = some samples := by
      rw [mapM_map]
      exact mapM_pure.trans (congrArg some (map_id _))
    obtain ⟨hoof, hmem⟩ := getOutOfFoldPredictions_mem rt.shuffle cfg.kFolds hlabelled
    refine .inr ?_
    rw [run_of_collected hcollect hne, CalibrationPipeline.fitted, if_neg hlong', ← hsamples, hlabels,
      ok_bind, hfinite]
    refine report_inRange (fineSample_repredicted hmem hall') ?_
      (zipWith_repredicted (getOutOfFoldPredictions rt.shuffle samples cfg.kFolds) samples)
    have hlength' : (repredicted (getOutOfFoldPredictions rt.shuffle samples cfg.kFolds)
        samples).length = incidents.length := by
      rw [repredicted, length_map, length_zip, hoof, min_self,
        ← length_map Sample.evaluated, hsamples, length_map]
    exact ne_nil_of_length_pos (hlength' ▸ length_pos_iff.2 hne)

theorem brier_singleton {q b w : ℚ} {y : ℤ} (hw : 0 < w)
    (h : computeBrierScore [⟨.finite q, y, w⟩] = .ok (.finite b)) : b = (q - y) ^ 2 := by
  have htotal : totalWeight [⟨.finite q, y, w⟩] = w := by simp [totalWeight]
  unfold computeBrierScore at h
  rw [if_neg (by simp [htotal, hw.ne']), mapM_cons, weightedSquare] at h
  obtain ⟨terms, hterms, hscore⟩ := bind_eq_ok_iff.1 h
  obtain ⟨term, hterm, hrest⟩ := bind_eq_ok_iff.1 hterms
  obtain ⟨y', hy', hsquare⟩ := bind_eq_ok_iff.1 hterm
  obtain ⟨err, herr, hscale⟩ := bind_eq_ok_iff.1 hsquare
  obtain rfl : err.scale w = term := Except.ok.inj hscale
  obtain rfl : [err.scale w] = terms := Except.ok.inj hrest
  have hyy : y' = y := by
    unfold floatOfInt at hy'
    split at hy'
    · exact (Except.ok.inj hy').symm
    · cases hy'
  rw [hyy, PyFloat.subInt, PyFloat.of] at herr
  have hvalue : ((PyFloat.finite 0).add (err.scale w)).scale w⁻¹ = .finite b := by
    rw [htotal] at hscore
    exact Except.ok.inj hscore
  split at herr
  · rw [PyFloat.square] at herr
    split at herr
    · obtain rfl := Except.ok.inj herr
      have hb : w⁻¹ * (0 + w * (q - y) ^ 2) = b := PyFloat.finite.inj hvalue
      rw [← hb, zero_add, inv_mul_cancel_left₀ hw.ne']
    · cases herr
  · -- An infinite error gives no finite score.
    obtain rfl := Except.ok.inj herr
    rw [PyFloat.scale, if_neg hw.ne', PyFloat.add, PyFloat.scale,
      if_neg (inv_ne_zero hw.ne')] at hvalue
    cases hvalue

/-- **A row that is not fine does not meet the claim by itself.** -/
theorem not_meets_of_not_fine (h : ¬ FineRow rt row)
    (hmin : ∀ v, valuesOf rt row = .ok v → 1 < cfg.minSamples) : ¬ Meets rt cfg [row] := by
  have hvalues : (parseRow rt (rt.now 0) row).map
      (fun inc => (inc.predictedConfidence, inc.trueLabel)) = valuesOf rt row := rfl
  cases hparse : parseRow rt (rt.now 0) row with
  | error e =>
    rw [hparse] at hvalues
    have hskip : ¬ isSkipped e = true := by
      intro hskip
      rw [FineRow, RowIs, ← hvalues] at h
      exact h hskip
    have hcollect : collectLabeledIncidents rt [row] = .error e := by
      unfold collectLabeledIncidents collectFrom
      rw [hparse]
      exact if_neg hskip
    have hrun : cfg.run rt [row] = .error e := by
      unfold CalibrationPipeline.run
      rw [hcollect]
      rfl
    rintro (⟨hnone, -⟩ | ⟨report, hreport, -⟩)
    · rw [hcollect] at hnone
      cases hnone
    · rw [hrun] at hreport
      cases hreport
  | ok inc =>
    rw [hparse] at hvalues
    have hcollect : collectLabeledIncidents rt [row] = .ok [inc] := by
      unfold collectLabeledIncidents collectFrom
      rw [hparse]
      rfl
    rintro (⟨hnone, -⟩ | ⟨report, hreport, hrange⟩)
    · rw [hcollect] at hnone
      cases hnone
    · -- A report in range makes the row fine.
      refine h ?_
      rw [FineRow, RowIs, ← hvalues]
      have hshort : (([inc].map (evaluatedOf rt cfg.asOf)).length : ℤ) < cfg.minSamples :=
        hmin _ hvalues.symm
      rw [run_of_collected hcollect (cons_ne_nil _ _), CalibrationPipeline.fitted,
        if_pos hshort, ok_bind] at hreport
      unfold CalibrationPipeline.report at hreport
      dsimp only at hreport
      rw [zipWith_predictions] at hreport
      obtain ⟨brier, hbrier, hreport⟩ := bind_eq_ok_iff.1 hreport
      obtain ⟨ece, hece, hreport⟩ := bind_eq_ok_iff.1 hreport
      obtain ⟨ci, -, hreport⟩ := bind_eq_ok_iff.1 hreport
      obtain rfl := Except.ok.inj hreport
      obtain ⟨b, hb, -, hle⟩ := hrange.brier
      have hbin : ∃ q, inc.predictedConfidence = .finite q ∧ -(11 / 10) < q ∧ q < 11 / 10 := by
        by_contra hnot
        push Not at hnot
        obtain ⟨e, he⟩ := binRow_error (r := evaluatedOf rt cfg.asOf inc)
          fun q hq hmem => absurd hmem.2 (not_lt.2 (hnot q hq hmem.1))
        unfold computeEce at hece
        rw [if_neg (by simp), map_singleton, mapM_cons, he] at hece
        cases hece
      obtain ⟨q, hq, hmem⟩ := hbin
      refine ⟨q, hq, hmem, ?_⟩
      have hrow : evaluatedOf rt cfg.asOf inc =
          ⟨.finite q, inc.trueLabel, calculateWatermarkWeight rt.exp inc.timestamp cfg.asOf⟩ := by
        rw [evaluatedOf, hq]
      have hbrier' : brier = .finite b := hb
      rw [map_singleton, hrow, hbrier'] at hbrier
      have hsquare := brier_singleton (calculateWatermarkWeight_pos rt.exp_pos _ _) hbrier
      exact (sq_le_one_iff_abs_le_one _).1 (hsquare ▸ hle)

/-- A runtime that knows two floats, at the present of the incidents. -/
def sampleRuntime : Runtime where
  strOf
    | .str s => some s
    | _ => none
  floatValue text :=
    if text = "0.9" then .finite (9 / 10) else if text = "2.0" then .finite 2 else .nan
  floatOf _ := none
  intOf _ := none
  fromisoformat _ := none
  now _ := 0
  exp _ := 1
  exp_pos _ := zero_lt_one
  shuffle := ⟨List.range, fun _ => List.Perm.refl _⟩
  randint _ _ _ := 0
  fitBeyond rows _ := ⟨rows.map Evaluated.prediction, [], []⟩

/-- The default pipeline. -/
def samplePipeline : CalibrationPipeline := ⟨0, 50, 5⟩

/-- A raw row with a confidence, and a correct prediction. -/
def rowWith (confidence : String) : Json :=
  .obj [("incident_id", .str "a"), ("predicted_confidence", .float confidence),
    ("true_label", .int 1)]

end Omniscience.Retrieval
