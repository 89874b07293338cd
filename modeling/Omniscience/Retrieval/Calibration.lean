import Omniscience.Lib.Pava
import Omniscience.Lib.Interpolation
import Mathlib.Data.List.Sort

/-!
# The isotonic calibration map

`fit_isotonic_regression` sorts the samples by their predictions, pools them into blocks and turns
the blocks into two lists, the thresholds and the values of a map that is interpolated between them.
`apply_isotonic` and `calibrate_isotonic` are two ways to do that.

The three lists of the source, predictions, labels and weights, are one list of samples; numbers are
rationals.  An index out of range, which raises in the source, would read a zero here; that does not
happen on the lists that a fit returns, which are as long as each other and not empty
(`fitIsotonicRegression_eq`).

* `fitIsotonicRegression_eq` : the fitted lists are the thresholds and values of one list of knots.
* `applyIsotonic_eq`, `isoScore_eq` : both evaluations interpolate the knots.
-/

namespace Omniscience.Retrieval

open Interpolation List

/-! ### The source -/

/-- A labelled incident.  The timestamp is in microseconds of UTC; a naive one is read as UTC. -/
structure IncidentLabel (F : Type) where
  incidentId : String
  predictedConfidence : F
  trueLabel : ℤ
  timestamp : ℤ

/-- `LAMBDA_TIME_DECAY`, per day. -/
def lambdaTimeDecay : ℚ := 1 / 100

/-- `calculate_watermark_weight`, with the exponential function. -/
def calculateWatermarkWeight (exp : ℚ → ℚ) (validFrom asOf : ℤ) : ℚ :=
  if asOf < validFrom then 1
  else
    let deltaDays : ℚ := (asOf - validFrom : ℤ) / 1000000 / 86400
    exp (-lambdaTimeDecay * deltaDays)

/-- A prediction with its label and its weight. -/
structure Sample where
  prediction : ℚ
  label : ℤ
  weight : ℚ
  deriving DecidableEq

/-- What the pooling reads. -/
def samples : Observations Sample ℚ ℚ where
  label r := r.label
  weight := Sample.weight
  pos := Sample.prediction

/-- The samples in the order of their predictions; equal ones stay in their order. -/
def sortedSamples (rows : List Sample) : List Sample :=
  rows.insertionSort fun r s => r.prediction ≤ s.prediction

/-- `blocks`; a block carries the predictions of its first and its last sample instead of their
indices. -/
def fitBlocks (rows : List Sample) : List (Block ℚ ℚ) := samples.blocksOf (sortedSamples rows)

/-- A point is appended to both lists. -/
def addPoint (lists : List ℚ × List ℚ) (t v : ℚ) : List ℚ × List ℚ := (lists.1 ++ [t], lists.2 ++ [v])

/-- The end points of a block, as far as they lie beyond the last threshold. -/
def addBlock (lists : List ℚ × List ℚ) (b : Block ℚ ℚ) : List ℚ × List ℚ :=
  let lists :=
    if lists.1.isEmpty ∨ lists.1.getLastD 0 < b.start then addPoint lists b.start b.value else lists
  if lists.1.getLastD 0 < b.stop then addPoint lists b.stop b.value else lists

/-- The thresholds and values of the blocks. -/
def constructed (blocks : List (Block ℚ ℚ)) : List ℚ × List ℚ := blocks.foldl addBlock ([], [])

/-- "Ensure it spans 0 to 1". -/
def spanned (lists : List ℚ × List ℚ) : List ℚ × List ℚ :=
  let lists :=
    if 0 < lists.1.headD 0 then (0 :: lists.1, lists.2.headD 0 :: lists.2) else lists
  if lists.1.getLastD 0 < 1 then addPoint lists 1 (lists.2.getLastD 0) else lists

/-- One point of "Deduplicate thresholds". -/
def addFinal (lists : List ℚ × List ℚ) (point : ℚ × ℚ) : List ℚ × List ℚ :=
  if lists.1.getLastD 0 < point.1 then addPoint lists point.1 point.2
  else if point.1 = lists.1.getLastD 0 then (lists.1, lists.2.dropLast ++ [point.2])
  else lists

/-- "Deduplicate thresholds". -/
def deduplicated : List ℚ × List ℚ → List ℚ × List ℚ
  | (t :: ts, v :: vs) => (ts.zip vs).foldl addFinal ([t], [v])
  | lists => lists

/-- `fit_isotonic_regression`. -/
def fitIsotonicRegression (rows : List Sample) : List ℚ × List ℚ :=
  if rows.isEmpty then ([0, 1], [0, 1])
  else
    let lists := constructed (fitBlocks rows)
    if lists.1.isEmpty then ([0, 1], [0, 1]) else deduplicated (spanned lists)

/-- The loop of `apply_isotonic`: the first interval with the prediction. -/
def applyInterval (p : ℚ) : List ℚ → List ℚ → Option ℚ
  | t₀ :: t₁ :: ts, v₀ :: v₁ :: vs =>
    if t₀ ≤ p ∧ p ≤ t₁ then
      if t₁ = t₀ then some v₀
      else some (v₀ * (1 - (p - t₀) / (t₁ - t₀)) + v₁ * ((p - t₀) / (t₁ - t₀)))
    else applyInterval p (t₁ :: ts) (v₁ :: vs)
  | _, _ => none

/-- `apply_isotonic`. -/
def applyIsotonic (p : ℚ) (thresholds values : List ℚ) : ℚ :=
  match applyInterval p thresholds values with
  | some value => value
  | none => if p < thresholds.headD 0 then values.headD 0 else values.getLastD 0

/-- The loop of `calibrate_isotonic`. -/
def calibrateInterval (score : ℚ) : List ℚ → List ℚ → Option ℚ
  | tLow :: tHigh :: ts, vLow :: vHigh :: vs =>
    if tLow ≤ score ∧ score ≤ tHigh then
      if tHigh = tLow then some vLow
      else some (vLow + (score - tLow) * (vHigh - vLow) / (tHigh - tLow))
    else calibrateInterval score (tHigh :: ts) (vHigh :: vs)
  | _, _ => none

/-- `iso_score`. -/
def isoScore (score : ℚ) (thresholds values : List ℚ) : ℚ :=
  if score ≤ thresholds.headD 0 then values.headD 0
  else if thresholds.getLastD 0 ≤ score then values.getLastD 0
  else (calibrateInterval score thresholds values).getD score

/-- `calibrate_isotonic` on a given map, without a support size. -/
def calibrateIsotonic (score : ℚ) (thresholds values : List ℚ) : Except String ℚ :=
  if thresholds.length = values.length then .ok (isoScore score thresholds values)
  else .error "thresholds and values must have the same length"

/-! ### The knots of a map -/

/-- The two lists of some knots. -/
def listsOf (knots : List (ℚ × ℚ)) : List ℚ × List ℚ := (knots.map Prod.fst, knots.map Prod.snd)

/-- The knots that a block adds beyond a threshold. -/
def freshKnots (last : WithBot ℚ) (b : Block ℚ ℚ) : List (ℚ × ℚ) :=
  (if last < b.start then [(b.start, b.value)] else []) ++
    if max last b.start < b.stop then [(b.stop, b.value)] else []

/-- The last threshold after a block. -/
def lastAfter (last : WithBot ℚ) (b : Block ℚ ℚ) : WithBot ℚ := max (max last b.start) b.stop

/-- The knots that some blocks add beyond a threshold. -/
def knotsFrom (last : WithBot ℚ) : List (Block ℚ ℚ) → List (ℚ × ℚ)
  | [] => []
  | b :: rest => freshKnots last b ++ knotsFrom (lastAfter last b) rest

/-- The last threshold of some knots. -/
def lastKnot (knots : List (ℚ × ℚ)) : WithBot ℚ :=
  match knots.getLast? with
  | some k => k.1
  | none => ⊥

/-- The knots with end points at zero and one. -/
def spannedKnots (knots : List (ℚ × ℚ)) : List (ℚ × ℚ) :=
  (if 0 < (knots.headD 0).1 then [(0, (knots.headD 0).2)] else []) ++ knots ++
    if (knots.getLastD 0).1 < 1 then [(1, (knots.getLastD 0).2)] else []

/-- The knots of the fitted map. -/
def fitKnots (rows : List Sample) : List (ℚ × ℚ) :=
  if rows = [] then [(0, 0), (1, 1)] else spannedKnots (knotsFrom ⊥ (fitBlocks rows))

variable {rows : List Sample} {blocks : List (Block ℚ ℚ)} {knots : List (ℚ × ℚ)}
  {last : WithBot ℚ} {p : ℚ}

theorem calculateWatermarkWeight_pos {exp : ℚ → ℚ} (hexp : ∀ x, 0 < exp x) (validFrom asOf : ℤ) :
    0 < calculateWatermarkWeight exp validFrom asOf := by
  rw [calculateWatermarkWeight]
  split
  · exact zero_lt_one
  · exact hexp _

theorem lastKnot_concat (knots : List (ℚ × ℚ)) (k : ℚ × ℚ) : lastKnot (knots ++ [k]) = k.1 := by
  rw [lastKnot, List.getLast?_concat]

theorem addPoint_listsOf (t v : ℚ) :
    addPoint (listsOf knots) t v = listsOf (knots ++ [(t, v)]) := by
  simp [addPoint, listsOf]

theorem lastKnot_lt_iff {x : ℚ} : lastKnot knots < x ↔
      (listsOf knots).1.isEmpty ∨ (listsOf knots).1.getLastD 0 < x := by
  rcases eq_nil_or_concat knots with rfl | ⟨init, k, rfl⟩
  · simp [lastKnot, listsOf, WithBot.bot_lt_coe]
  · rw [concat_eq_append, lastKnot_concat, WithBot.coe_lt_coe]
    simp [listsOf]

theorem addBlock_listsOf (b : Block ℚ ℚ) :
    addBlock (listsOf knots) b = listsOf (knots ++ freshKnots (lastKnot knots) b) ∧
      lastKnot (knots ++ freshKnots (lastKnot knots) b) = lastAfter (lastKnot knots) b := by
  unfold addBlock freshKnots lastAfter
  dsimp only
  simp only [← lastKnot_lt_iff]
  by_cases hstart : lastKnot knots < b.start
  · rw [if_pos hstart, if_pos hstart, addPoint_listsOf, max_eq_right hstart.le]
    have hlast : (listsOf (knots ++ [(b.start, b.value)])).1.getLastD 0 = b.start := by
      simp [listsOf]
    simp only [hlast, WithBot.coe_lt_coe, ← append_assoc]
    by_cases hstop : b.start < b.stop
    · rw [if_pos hstop, if_pos hstop, addPoint_listsOf, lastKnot_concat,
        max_eq_right (WithBot.coe_le_coe.2 hstop.le)]
      exact ⟨rfl, rfl⟩
    · rw [if_neg hstop, if_neg hstop, append_nil, lastKnot_concat,
        max_eq_left (WithBot.coe_le_coe.2 (not_lt.1 hstop))]
      exact ⟨rfl, rfl⟩
  · rw [if_neg hstart, if_neg hstart, nil_append, max_eq_left (not_lt.1 hstart)]
    have hne : (listsOf knots).1.isEmpty = false := by
      rw [lastKnot_lt_iff, not_or] at hstart
      simpa using hstart.1
    have htest : (listsOf knots).1.getLastD 0 < b.stop ↔ lastKnot knots < b.stop := by
      rw [lastKnot_lt_iff, hne]
      simp
    simp only [htest]
    by_cases hstop : lastKnot knots < b.stop
    · rw [if_pos hstop, if_pos hstop, addPoint_listsOf, lastKnot_concat, max_eq_right hstop.le]
      exact ⟨rfl, rfl⟩
    · rw [if_neg hstop, if_neg hstop, append_nil, max_eq_left (not_lt.1 hstop)]
      exact ⟨rfl, rfl⟩

theorem foldl_addBlock :
    blocks.foldl addBlock (listsOf knots) = listsOf (knots ++ knotsFrom (lastKnot knots) blocks) := by
  induction blocks generalizing knots with
  | nil => rw [knotsFrom, append_nil, foldl_nil]
  | cons b rest ih =>
    obtain ⟨hlists, hlast⟩ : addBlock (listsOf knots) b = _ ∧ _ := addBlock_listsOf b
    rw [foldl_cons, hlists, ih, hlast, knotsFrom, append_assoc]

theorem constructed_eq : constructed blocks = listsOf (knotsFrom ⊥ blocks) := by
  show blocks.foldl addBlock (listsOf []) = listsOf ([] ++ knotsFrom (lastKnot []) blocks)
  exact foldl_addBlock

theorem knotsFrom_ne_nil (h : blocks ≠ []) : knotsFrom ⊥ blocks ≠ [] := by
  cases blocks with
  | nil => exact absurd rfl h
  | cons b rest =>
    rw [knotsFrom, freshKnots, if_pos (WithBot.bot_lt_coe _)]
    exact cons_ne_nil _ _

/-! ### The fitted lists -/

theorem mem_knotsFrom {k : ℚ × ℚ} (h : k ∈ knotsFrom last blocks) :
    last < k.1 ∧ ∃ b ∈ blocks, k.2 = b.value ∧ (k.1 = b.start ∨ k.1 = b.stop) := by
  induction blocks generalizing last with
  | nil => cases h
  | cons b rest ih =>
    rw [knotsFrom, mem_append] at h
    rcases h with h | h
    · rw [freshKnots, mem_append] at h
      rcases h with h | h
      · split at h
        · rename_i hstart
          rw [mem_singleton.1 h]
          exact ⟨hstart, b, mem_cons_self, rfl, .inl rfl⟩
        · cases h
      · split at h
        · rename_i hstop
          rw [mem_singleton.1 h]
          exact ⟨(le_max_left _ _).trans_lt hstop, b, mem_cons_self, rfl, .inr rfl⟩
        · cases h
    · obtain ⟨hlast, c, hc, hk⟩ := ih h
      have hle : last ≤ lastAfter last b := (le_max_left _ _).trans (le_max_left _ _)
      exact ⟨hle.trans_lt hlast, c, mem_cons_of_mem _ hc, hk⟩

theorem mem_freshKnots {k : ℚ × ℚ} {b : Block ℚ ℚ} (h : k ∈ freshKnots last b) :
    (k.1 : WithBot ℚ) ≤ lastAfter last b ∧ k.2 = b.value := by
  rw [freshKnots, mem_append] at h
  rcases h with h | h <;> split at h
  · rw [mem_singleton.1 h]
    exact ⟨(le_max_right _ _).trans (le_max_left _ _), rfl⟩
  · cases h
  · rw [mem_singleton.1 h]
    exact ⟨le_max_right _ _, rfl⟩
  · cases h

theorem freshKnots_increasing (b : Block ℚ ℚ) : Increasing (freshKnots last b) := by
  refine pairwise_append.2 ⟨?_, ?_, ?_⟩
  · split
    · exact pairwise_singleton _ _
    · exact List.Pairwise.nil
  · split
    · exact pairwise_singleton _ _
    · exact List.Pairwise.nil
  · intro k hk k' hk'
    split at hk
    · split at hk'
      · rename_i hstop
        rw [mem_singleton.1 hk, mem_singleton.1 hk']
        exact ⟨WithBot.coe_lt_coe.1 ((le_max_right _ _).trans_lt hstop), le_rfl⟩
      · cases hk'
    · cases hk

/-- **The knots increase**, if the values of the blocks do not decrease. -/
theorem knotsFrom_increasing (h : blocks.Pairwise fun b c => b.value ≤ c.value) :
    Increasing (knotsFrom last blocks) := by
  induction blocks generalizing last with
  | nil => exact List.Pairwise.nil
  | cons b rest ih =>
    obtain ⟨hb, hrest⟩ := pairwise_cons.1 h
    refine pairwise_append.2 ⟨freshKnots_increasing b, ih hrest, fun k hk k' hk' => ?_⟩
    obtain ⟨hle, hvalue⟩ := mem_freshKnots hk
    obtain ⟨hlt, c, hc, hvalue', -⟩ := mem_knotsFrom hk'
    rw [hvalue, hvalue']
    exact ⟨WithBot.coe_lt_coe.1 (hle.trans_lt hlt), hb c hc⟩

theorem spanned_listsOf (hne : knots ≠ []) :
    spanned (listsOf knots) = listsOf (spannedKnots knots) := by
  have hhead : ∀ ks : List (ℚ × ℚ), (listsOf ks).1.headD 0 = (ks.headD 0).1 ∧
      (listsOf ks).2.headD 0 = (ks.headD 0).2 := by
    intro ks
    cases ks <;> exact ⟨rfl, rfl⟩
  have hlast : ∀ ks : List (ℚ × ℚ), (listsOf ks).1.getLastD 0 = (ks.getLastD 0).1 ∧
      (listsOf ks).2.getLastD 0 = (ks.getLastD 0).2 := by
    intro ks
    rcases eq_nil_or_concat ks with rfl | ⟨init, k, rfl⟩
    · exact ⟨rfl, rfl⟩
    · simp [listsOf]
  have hcons : ∀ k : ℚ × ℚ, (k :: knots).getLastD 0 = knots.getLastD 0 := by
    intro k
    rcases eq_nil_or_concat knots with rfl | ⟨init, k', rfl⟩
    · exact absurd rfl hne
    · rw [concat_eq_append, ← cons_append, getLastD_concat, getLastD_concat]
  unfold spanned spannedKnots
  rw [(hhead knots).1, (hhead knots).2]
  by_cases hfirst : 0 < (knots.headD 0).1
  · have hinsert : ((0 : ℚ) :: (listsOf knots).1, (knots.headD 0).2 :: (listsOf knots).2) =
        listsOf ((0, (knots.headD 0).2) :: knots) := rfl
    rw [if_pos hfirst, if_pos hfirst, hinsert]
    dsimp only
    rw [(hlast _).1, (hlast _).2, hcons]
    split
    · exact addPoint_listsOf _ _
    · rw [append_nil]
      rfl
  · rw [if_neg hfirst, if_neg hfirst]
    dsimp only
    rw [(hlast _).1, (hlast _).2]
    split
    · exact addPoint_listsOf _ _
    · rw [append_nil]
      rfl

theorem spannedKnots_increasing (h : Increasing knots) (hne : knots ≠ []) :
    Increasing (spannedKnots knots) := by
  have hfirst : Increasing ((if 0 < (knots.headD 0).1 then [((0 : ℚ), (knots.headD 0).2)] else []) ++
      knots) := by
    split
    · rename_i hpos
      cases knots with
      | nil => exact absurd rfl hne
      | cons k rest =>
        refine pairwise_cons.2 ⟨fun k' hk' => ?_, h⟩
        rcases mem_cons.1 hk' with rfl | hk'
        · exact ⟨hpos, le_rfl⟩
        · have hk := (pairwise_cons.1 h).1 k' hk'
          exact ⟨hpos.trans hk.1, hk.2⟩
    · exact h
  unfold spannedKnots
  by_cases hlast : (knots.getLastD 0).1 < 1
  · rw [if_pos hlast]
    refine pairwise_append.2 ⟨hfirst, pairwise_singleton _ _, fun k hk k' hk' => ?_⟩
    rw [mem_singleton.1 hk']
    rcases eq_nil_or_concat knots with rfl | ⟨init, e, rfl⟩
    · exact absurd rfl hne
    · rw [concat_eq_append] at hk hlast hfirst ⊢
      rw [getLastD_concat] at hlast ⊢
      rw [← append_assoc] at hk hfirst
      rcases mem_append.1 hk with hk | hk
      · have hke := (pairwise_append.1 hfirst).2.2 k hk e (mem_singleton_self e)
        exact ⟨hke.1.trans hlast, hke.2⟩
      · rw [mem_singleton.1 hk]
        exact ⟨hlast, le_rfl⟩
  · rw [if_neg hlast, append_nil]
    exact hfirst

theorem foldl_addFinal {init rest : List (ℚ × ℚ)} {k : ℚ × ℚ} (h : Increasing (init ++ k :: rest)) :
    rest.foldl addFinal (listsOf (init ++ [k])) = listsOf (init ++ k :: rest) := by
  induction rest generalizing init k with
  | nil => rfl
  | cons k' rest ih =>
    have hlt : k.1 < k'.1 := by
      have hrest := (pairwise_append.1 h).2.1
      exact ((pairwise_cons.1 hrest).1 k' mem_cons_self).1
    have hlast : (listsOf (init ++ [k])).1.getLastD 0 = k.1 := by simp [listsOf]
    rw [foldl_cons, addFinal, hlast, if_pos hlt, addPoint_listsOf]
    have hsplit : init ++ k :: k' :: rest = (init ++ [k]) ++ k' :: rest := by
      rw [append_assoc]
      rfl
    rw [hsplit] at h ⊢
    exact ih h

theorem deduplicated_listsOf (h : Increasing knots) : deduplicated (listsOf knots) = listsOf knots := by
  cases knots with
  | nil => rfl
  | cons k rest =>
    have hzip : (rest.map Prod.fst).zip (rest.map Prod.snd) = rest := by
      rw [zip_map']
      exact map_id _
    show ((rest.map Prod.fst).zip (rest.map Prod.snd)).foldl addFinal (listsOf ([] ++ [k])) = _
    rw [hzip]
    exact foldl_addFinal h

theorem sortedSamples_ne_nil (h : rows ≠ []) : sortedSamples rows ≠ [] := by
  intro hnil
  have hperm : (sortedSamples rows).Perm rows := perm_insertionSort _ _
  rw [hnil] at hperm
  exact h hperm.nil_eq.symm

theorem fitBlocks_ne_nil (h : rows ≠ []) : fitBlocks rows ≠ [] :=
  Observations.blocksOf_ne_nil (sortedSamples_ne_nil h)

theorem fitKnots_increasing (rows : List Sample) : Increasing (fitKnots rows) := by
  unfold fitKnots
  split
  · refine pairwise_cons.2 ⟨fun k hk => ?_, pairwise_singleton _ _⟩
    rw [mem_singleton.1 hk]
    exact ⟨zero_lt_one, zero_le_one⟩
  · rename_i hne
    exact spannedKnots_increasing (knotsFrom_increasing (Observations.blocksOf_sorted _))
      (knotsFrom_ne_nil (fitBlocks_ne_nil hne))

theorem fitKnots_ne_nil (rows : List Sample) : fitKnots rows ≠ [] := by
  unfold fitKnots
  split
  · exact cons_ne_nil _ _
  · rename_i hne
    have hknots := knotsFrom_ne_nil (fitBlocks_ne_nil hne)
    simp [spannedKnots, hknots]

/-- **The fitted lists are those of the knots.** -/
theorem fitIsotonicRegression_eq (rows : List Sample) :
    fitIsotonicRegression rows = listsOf (fitKnots rows) := by
  have hincreasing := fitKnots_increasing rows
  unfold fitKnots at hincreasing ⊢
  unfold fitIsotonicRegression
  by_cases hrows : rows = []
  · rw [if_pos hrows, if_pos (isEmpty_iff.2 hrows)]
    rfl
  · rw [if_neg hrows] at hincreasing ⊢
    have hknots := knotsFrom_ne_nil (fitBlocks_ne_nil hrows)
    have hempty : ¬ (listsOf (knotsFrom ⊥ (fitBlocks rows))).1.isEmpty = true := by
      simpa [listsOf] using hknots
    rw [if_neg (by simpa using hrows), constructed_eq]
    dsimp only
    rw [if_neg hempty, spanned_listsOf hknots]
    exact deduplicated_listsOf hincreasing

/-! ### The evaluations -/

variable {k : ℚ × ℚ}

theorem applyInterval_none (h : Increasing (k :: knots)) (hp : p < k.1) :
    applyInterval p (listsOf (k :: knots)).1 (listsOf (k :: knots)).2 = none := by
  induction knots generalizing k with
  | nil => rfl
  | cons k' rest ih =>
    obtain ⟨hk, hrest⟩ := pairwise_cons.1 h
    show applyInterval p (k.1 :: k'.1 :: rest.map Prod.fst) (k.2 :: k'.2 :: rest.map Prod.snd) = none
    rw [applyInterval, if_neg fun hpk => absurd hp (not_lt.2 hpk.1)]
    exact ih hrest (hp.trans (hk k' mem_cons_self).1)

theorem applyInterval_eq (h : Increasing (k :: knots)) (hp : k.1 ≤ p) :
    (applyInterval p (listsOf (k :: knots)).1 (listsOf (k :: knots)).2).getD
      ((listsOf (k :: knots)).2.getLastD 0) = interpolate p (k :: knots) := by
  induction knots generalizing k with
  | nil => rfl
  | cons k' rest ih =>
    obtain ⟨hk, hrest⟩ := pairwise_cons.1 h
    have hlt := (hk k' mem_cons_self).1
    show (applyInterval p (k.1 :: k'.1 :: rest.map Prod.fst) (k.2 :: k'.2 :: rest.map Prod.snd)).getD
      ((listsOf (k' :: rest)).2.getLastD 0) = _
    rw [applyInterval]
    rcases le_or_gt p k'.1 with hp' | hp'
    · have hline : k.2 * (1 - (p - k.1) / (k'.1 - k.1)) + k'.2 * ((p - k.1) / (k'.1 - k.1)) =
          line k k' p := by
        rw [line]
        ring
      rw [if_pos ⟨hp, hp'⟩, if_neg hlt.ne', hline]
      rcases hp.eq_or_lt with heq | hlt'
      · rw [← heq, interpolate_of_le le_rfl, line_left]
        rfl
      · rw [interpolate_between hlt' hp']
        rfl
    · rw [if_neg fun hpk => absurd hp' (not_lt.2 hpk.2), interpolate_beyond hlt hp']
      exact ih hrest hp'.le

/-- **`apply_isotonic` interpolates the knots.** -/
theorem applyIsotonic_eq (h : Increasing knots) (hne : knots ≠ []) (p : ℚ) :
    applyIsotonic p (listsOf knots).1 (listsOf knots).2 = interpolate p knots := by
  cases knots with
  | nil => exact absurd rfl hne
  | cons k knots =>
    unfold applyIsotonic
    rcases lt_or_ge p k.1 with hp | hp
    · rw [applyInterval_none h hp, interpolate_of_le hp.le]
      exact if_pos hp
    · rw [← applyInterval_eq h hp]
      cases applyInterval p (listsOf (k :: knots)).1 (listsOf (k :: knots)).2 with
      | some value => rfl
      | none => exact if_neg (not_lt.2 hp)

theorem calibrateInterval_eq (h : Increasing (k :: knots)) (hp : k.1 < p)
    (hlast : p < ((k :: knots).getLastD 0).1) :
    calibrateInterval p (listsOf (k :: knots)).1 (listsOf (k :: knots)).2 =
      some (interpolate p (k :: knots)) := by
  induction knots generalizing k with
  | nil => exact absurd hlast (not_lt.2 hp.le)
  | cons k' rest ih =>
    obtain ⟨hk, hrest⟩ := pairwise_cons.1 h
    have hlt := (hk k' mem_cons_self).1
    show calibrateInterval p (k.1 :: k'.1 :: rest.map Prod.fst)
      (k.2 :: k'.2 :: rest.map Prod.snd) = _
    rw [calibrateInterval]
    rcases le_or_gt p k'.1 with hp' | hp'
    · rw [if_pos ⟨hp.le, hp'⟩, if_neg hlt.ne', interpolate_between hp hp']
      rfl
    · rw [if_neg fun hpk => absurd hp' (not_lt.2 hpk.2), interpolate_beyond hlt hp']
      exact ih hrest hp' hlast

/-- **`calibrate_isotonic` interpolates the knots.** -/
theorem isoScore_eq (h : Increasing knots) (hne : knots ≠ []) (score : ℚ) :
    isoScore score (listsOf knots).1 (listsOf knots).2 = interpolate score knots := by
  have hlists : (listsOf knots).1.getLastD 0 = (knots.getLastD 0).1 ∧
      (listsOf knots).2.getLastD 0 = (knots.getLastD 0).2 := by
    rcases eq_nil_or_concat knots with rfl | ⟨init, k, rfl⟩
    · exact ⟨rfl, rfl⟩
    · simp [listsOf]
  unfold isoScore
  rw [hlists.1, hlists.2]
  split
  · rename_i hfirst
    cases knots with
    | nil => exact absurd rfl hne
    | cons k knots => exact (interpolate_of_le hfirst).symm
  · rename_i hfirst
    split
    · rename_i hlast
      rcases eq_nil_or_concat knots with rfl | ⟨init, k, rfl⟩
      · exact absurd rfl hne
      · rw [concat_eq_append] at h hlast ⊢
        rw [getLastD_concat] at hlast ⊢
        exact (interpolate_of_last_le h hlast).symm
    · rename_i hlast
      cases knots with
      | nil => exact absurd rfl hne
      | cons k knots =>
        rw [calibrateInterval_eq h (not_le.1 hfirst) (not_le.1 hlast)]
        rfl

end Omniscience.Retrieval
