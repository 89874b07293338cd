import Omniscience.Retrieval.Calibration
import Mathlib.Data.List.SplitLengths

/-!
# Out-of-fold predictions

`get_out_of_fold_predictions` shuffles the indices, cuts them into folds at running offsets and
predicts the samples of every fold by a fit on the others.  `random.seed(42)` before the shuffle
makes it a fixed permutation for every length (`Shuffle`).

* `outOfFold_predictions` : the folds partition the indices evenly, an index is predicted by the fit
  on all indices outside its one fold, and its own label does not change its prediction.
-/

namespace Omniscience.Retrieval

open List

/-- The shuffled indices for every length. -/
structure Shuffle where
  indices : ℕ → List ℕ
  perm : ∀ n, (indices n).Perm (List.range n)

/-! ### The source -/

/-- The sample at an index. -/
def rowAt (rows : List Sample) (idx : ℕ) : Sample := rows.getD idx ⟨0, 0, 0⟩

/-- `fold_sizes`. -/
def foldSizes (n k : ℕ) : List ℕ :=
  (List.range k).map fun i => n / k + if i < n % k then 1 else 0

/-- `train_indices`. -/
def trainIndices (indices valIndices : List ℕ) : List ℕ :=
  indices.filter fun idx => idx ∉ valIndices

/-- The prediction for an index by the fit on some others. -/
def predictionFrom (rows : List Sample) (train : List ℕ) (idx : ℕ) : ℚ :=
  let lists := fitIsotonicRegression (train.map (rowAt rows))
  applyIsotonic (rowAt rows idx).prediction lists.1 lists.2

/-- The predictions for one fold are assigned. -/
def predictFold (rows : List Sample) (indices : List ℕ) (oof : List ℚ) (valIndices : List ℕ) :
    List ℚ :=
  valIndices.foldl
    (fun oof idx => oof.set idx (predictionFrom rows (trainIndices indices valIndices) idx)) oof

/-- The loop over the folds. -/
def predictFolds (rows : List Sample) (indices : List ℕ) : List ℕ → ℕ → List ℚ → List ℚ
  | [], _, oof => oof
  | foldSize :: rest, current, oof =>
    predictFolds rows indices rest (current + foldSize)
      (predictFold rows indices oof ((indices.drop current).take foldSize))

/-- `get_out_of_fold_predictions`. -/
def getOutOfFoldPredictions (shuffle : Shuffle) (rows : List Sample) (kFolds : ℤ) : List ℚ :=
  let n := rows.length
  let kFolds := if n < kFolds then (n : ℤ) else kFolds
  if kFolds ≤ 1 then
    let lists := fitIsotonicRegression rows
    rows.map fun r => applyIsotonic r.prediction lists.1 lists.2
  else
    predictFolds rows (shuffle.indices n) (foldSizes n kFolds.toNat) 0 (List.replicate n 0)

/-! ### The folds -/

/-- The folds: the shuffled indices, cut into the sizes. -/
def foldsOf (shuffle : Shuffle) (n k : ℕ) : List (List ℕ) :=
  (foldSizes n k).splitLengths (shuffle.indices n)

/-- A partition of the indices into `k` folds of even sizes. -/
structure FoldPartition (n k : ℕ) (folds : List (List ℕ)) : Prop where
  count : folds.length = k
  covers : folds.flatten.Perm (List.range n)
  balanced : ∀ f ∈ folds, ∀ g ∈ folds, f.length ≤ g.length + 1

variable {shuffle : Shuffle} {rows rows' : List Sample} {indices val train : List ℕ}
  {folds : List (List ℕ)} {oof : List ℚ} {n k i : ℕ}

theorem sum_remainders (r : ℕ) :
    ((List.range k).map fun i => if i < r then 1 else 0).sum = min k r := by
  induction k with
  | zero => simp
  | succ k ih =>
    rw [range_succ, map_append, sum_append, ih, map_singleton, sum_singleton]
    split <;> omega

theorem sum_foldSizes (hk : 0 < k) : (foldSizes n k).sum = n := by
  have hmod := Nat.mod_lt n hk
  rw [foldSizes, sum_map_add, sum_remainders, map_const',
    sum_replicate_nat, length_range, min_eq_right hmod.le]
  exact Nat.div_add_mod n k

theorem mem_foldSizes {size : ℕ} (h : size ∈ foldSizes n k) : size = n / k ∨ size = n / k + 1 := by
  obtain ⟨i, -, rfl⟩ := mem_map.1 h
  split
  · exact .inr rfl
  · exact .inl rfl

/-- **The folds partition the indices.** -/
theorem foldsOf_partition (hk : 0 < k) : FoldPartition n k (foldsOf shuffle n k) where
  count := by
    rw [foldsOf, length_splitLengths, foldSizes, length_map, length_range]
  covers := by
    have hlength : (shuffle.indices n).length = n := by
      rw [(shuffle.perm n).length_eq, length_range]
    rw [foldsOf, flatten_splitLengths _ _ (by rw [sum_foldSizes hk, hlength])]
    exact shuffle.perm n
  balanced := by
    have hlength : (shuffle.indices n).length = n := by
      rw [(shuffle.perm n).length_eq, length_range]
    have hsizes : (foldsOf shuffle n k).map List.length = foldSizes n k :=
      map_splitLengths_length _ _ (by rw [sum_foldSizes hk, hlength])
    intro f hf g hg
    have hf' : f.length ∈ foldSizes n k := hsizes ▸ mem_map_of_mem hf
    have hg' : g.length ∈ foldSizes n k := hsizes ▸ mem_map_of_mem hg
    rcases mem_foldSizes hf' with hf' | hf' <;> rcases mem_foldSizes hg' with hg' | hg' <;> omega

theorem FoldPartition.disjoint (h : FoldPartition n k folds) : folds.Pairwise List.Disjoint :=
  (nodup_flatten.1 (h.covers.nodup_iff.2 nodup_range)).2

theorem FoldPartition.existsUnique (h : FoldPartition n k folds) (hi : i < n) :
    ∃! f, f ∈ folds ∧ i ∈ f := by
  obtain ⟨f, hf, hif⟩ := mem_flatten.1 (h.covers.mem_iff.2 (mem_range.2 hi))
  refine ⟨f, ⟨hf, hif⟩, fun g hg => ?_⟩
  by_contra hne
  have hsymm : Std.Symm fun f g : List ℕ => f.Disjoint g := ⟨fun _ _ hfg => hfg.symm⟩
  have hdisjoint : g.Disjoint f := h.disjoint.forall hg.1 hf hne
  exact hdisjoint hg.2 hif

theorem trainIndices_perm (h : indices.Perm (List.range n)) :
    (trainIndices indices val).Perm ((List.range n).filter fun idx => idx ∉ val) :=
  h.filter _

/-! ### The assignments -/

theorem getElem?_foldl_set {g : ℕ → ℚ} (hi : i < oof.length) :
    (val.foldl (fun oof idx => oof.set idx (g idx)) oof)[i]? =
      if i ∈ val then some (g i) else oof[i]? := by
  induction val generalizing oof with
  | nil => simp
  | cons idx val ih =>
    rw [foldl_cons, ih (by rwa [length_set])]
    by_cases hval : i ∈ val
    · rw [if_pos hval, if_pos (mem_cons_of_mem _ hval)]
    · rw [if_neg hval]
      by_cases heq : idx = i
      · rw [heq, List.getElem?_set_self hi, if_pos mem_cons_self]
      · rw [List.getElem?_set_ne heq, if_neg (by simp [Ne.symm heq, hval])]

theorem length_predictFold : (predictFold rows indices oof val).length = oof.length := by
  unfold predictFold
  generalize trainIndices indices val = train
  induction val generalizing oof with
  | nil => rfl
  | cons idx val ih => rw [foldl_cons, ih, length_set]

theorem length_foldl_predictFold :
    (folds.foldl (predictFold rows indices) oof).length = oof.length := by
  induction folds generalizing oof with
  | nil => rfl
  | cons f folds ih => rw [foldl_cons, ih, length_predictFold]

theorem predictFolds_eq {sizes : List ℕ} {current : ℕ} :
    predictFolds rows indices sizes current oof =
      (sizes.splitLengths (indices.drop current)).foldl (predictFold rows indices) oof := by
  induction sizes generalizing current oof with
  | nil => rfl
  | cons size rest ih =>
    rw [predictFolds, ih, splitLengths_cons, foldl_cons, drop_drop]

/-- **After the loop an index has the prediction of its fold.** -/
theorem getElem?_foldl_predictFold {f : List ℕ} (hdisjoint : folds.Pairwise List.Disjoint)
    (hi : i < oof.length) (hf : f ∈ folds) (hif : i ∈ f) :
    (folds.foldl (predictFold rows indices) oof)[i]? =
      some (predictionFrom rows (trainIndices indices f) i) := by
  have hkeep : ∀ (folds : List (List ℕ)) (oof : List ℚ), i < oof.length → (∀ g ∈ folds, i ∉ g) →
      (folds.foldl (predictFold rows indices) oof)[i]? = oof[i]? := by
    intro folds
    induction folds with
    | nil => exact fun _ _ _ => rfl
    | cons g folds ih =>
      intro oof hi hnot
      rw [foldl_cons, ih _ (by rwa [length_predictFold])
        fun g' hg' => hnot g' (mem_cons_of_mem _ hg'), predictFold, getElem?_foldl_set hi,
        if_neg (hnot g mem_cons_self)]
  induction folds generalizing oof with
  | nil => cases hf
  | cons g folds ih =>
    obtain ⟨hg, hfolds⟩ := pairwise_cons.1 hdisjoint
    have hlength : i < (predictFold rows indices oof g).length := by rwa [length_predictFold]
    rw [foldl_cons]
    rcases mem_cons.1 hf with rfl | hf
    · rw [hkeep folds _ hlength fun g' hg' hig' => hg g' hg' hif hig', predictFold,
        getElem?_foldl_set hi, if_pos hif]
    · exact ih hfolds hlength hf

theorem getOutOfFoldPredictions_eq {kFolds : ℤ} (hn : 2 ≤ rows.length) (hk : 2 ≤ kFolds) :
    getOutOfFoldPredictions shuffle rows kFolds =
      (foldsOf shuffle rows.length (min rows.length kFolds.toNat)).foldl
        (predictFold rows (shuffle.indices rows.length)) (List.replicate rows.length 0) := by
  unfold getOutOfFoldPredictions
  dsimp only
  have hfolds : (if (rows.length : ℤ) < kFolds then (rows.length : ℤ) else kFolds) =
      (min rows.length kFolds.toNat : ℕ) := by
    split <;> omega
  rw [hfolds, if_neg (by omega), predictFolds_eq, drop_zero, Int.toNat_natCast]
  rfl

/-- **The prediction of an index is that of its fold.** -/
theorem getElem?_outOfFold {kFolds : ℤ} {f : List ℕ} (hn : 2 ≤ rows.length) (hk : 2 ≤ kFolds)
    (hi : i < rows.length)
    (hf : f ∈ foldsOf shuffle rows.length (min rows.length kFolds.toNat)) (hif : i ∈ f) :
    (getOutOfFoldPredictions shuffle rows kFolds)[i]? =
      some (predictionFrom rows (trainIndices (shuffle.indices rows.length) f) i) := by
  have hpartition : FoldPartition rows.length (min rows.length kFolds.toNat)
      (foldsOf shuffle rows.length (min rows.length kFolds.toNat)) := foldsOf_partition (by omega)
  rw [getOutOfFoldPredictions_eq hn hk]
  exact getElem?_foldl_predictFold hpartition.disjoint (by rwa [length_replicate]) hf hif

/-! ### Labels -/

/-- The samples with another label at an index. -/
def relabel (rows : List Sample) (i : ℕ) (label : ℤ) : List Sample :=
  rows.modify i fun r => { r with label := label }

@[simp] theorem length_relabel (label : ℤ) : (relabel rows i label).length = rows.length := by
  simp [relabel]

theorem rowAt_relabel_ne {label : ℤ} {j : ℕ} (h : i ≠ j) :
    rowAt (relabel rows i label) j = rowAt rows j := by
  rw [rowAt, rowAt, relabel, List.getD_eq_getElem?_getD, List.getD_eq_getElem?_getD,
    List.getElem?_modify_ne _ _ h]

theorem prediction_relabel (label : ℤ) (j : ℕ) :
    (rowAt (relabel rows i label) j).prediction = (rowAt rows j).prediction := by
  by_cases h : i = j
  · rw [h, rowAt, rowAt, relabel, List.getD_eq_getElem?_getD, List.getD_eq_getElem?_getD,
      List.getElem?_modify_eq]
    cases rows[j]? <;> rfl
  · rw [rowAt_relabel_ne h]

/-- **A fit without an index does not read its label.** -/
theorem predictionFrom_relabel (label : ℤ) (j : ℕ) (h : i ∉ train) :
    predictionFrom (relabel rows i label) train j = predictionFrom rows train j := by
  have htrain : train.map (rowAt (relabel rows i label)) = train.map (rowAt rows) :=
    map_congr_left fun idx hidx => rowAt_relabel_ne fun heq => h (heq ▸ hidx)
  rw [predictionFrom, predictionFrom, htrain, prediction_relabel]

/-- Predictions that are out of fold: each is made once, by the fit on all indices outside the fold
of its index, and does not change with the label of its index. -/
structure OutOfFold (shuffle : Shuffle) (rows : List Sample) (kFolds : ℤ)
    (folds : List (List ℕ)) : Prop where
  partition : FoldPartition rows.length (min rows.length kFolds.toNat) folds
  length : (getOutOfFoldPredictions shuffle rows kFolds).length = rows.length
  unique : ∀ i < rows.length, ∃! f, f ∈ folds ∧ i ∈ f
  outside : ∀ f ∈ folds, (trainIndices (shuffle.indices rows.length) f).Perm
    ((List.range rows.length).filter fun idx => idx ∉ f)
  predicted : ∀ f ∈ folds, ∀ i ∈ f, (getOutOfFoldPredictions shuffle rows kFolds)[i]? =
    some (predictionFrom rows (trainIndices (shuffle.indices rows.length) f) i)
  unlabelled : ∀ i < rows.length, ∀ label : ℤ,
    (getOutOfFoldPredictions shuffle (relabel rows i label) kFolds)[i]? =
      (getOutOfFoldPredictions shuffle rows kFolds)[i]?

/-- **Out-of-fold predictions are out of fold.** -/
theorem outOfFold_predictions (shuffle : Shuffle) (rows : List Sample) (kFolds : ℤ)
    (hn : 2 ≤ rows.length) (hk : 2 ≤ kFolds) :
    OutOfFold shuffle rows kFolds
      (foldsOf shuffle rows.length (min rows.length kFolds.toNat)) := by
  have hpartition : FoldPartition rows.length (min rows.length kFolds.toNat)
      (foldsOf shuffle rows.length (min rows.length kFolds.toNat)) := foldsOf_partition (by omega)
  refine ⟨hpartition, ?_, fun i hi => hpartition.existsUnique hi,
    fun f _ => trainIndices_perm (shuffle.perm _), fun f hf i hif => ?_, fun i hi label => ?_⟩
  · rw [getOutOfFoldPredictions_eq hn hk, length_foldl_predictFold, length_replicate]
  · have hi : i ∈ List.range rows.length :=
      hpartition.covers.mem_iff.1 (mem_flatten_of_mem hf hif)
    exact getElem?_outOfFold hn hk (mem_range.1 hi) hf hif
  · obtain ⟨f, ⟨hf, hif⟩, -⟩ := hpartition.existsUnique hi
    have hf' : f ∈ foldsOf shuffle (relabel rows i label).length
        (min (relabel rows i label).length kFolds.toNat) := by
      rwa [length_relabel]
    rw [getElem?_outOfFold hn hk hi hf hif,
      getElem?_outOfFold (by rwa [length_relabel]) hk (by rwa [length_relabel]) hf' hif,
      length_relabel, predictionFrom_relabel]
    intro htrain
    exact of_decide_eq_true (mem_filter.1 htrain).2 hif

/-- Five samples in two folds, with a shuffle that reverses. -/
theorem outOfFold_predictions_five :
    OutOfFold ⟨fun n => (List.range n).reverse, fun _ => reverse_perm _⟩
      [⟨1 / 4, 0, 1⟩, ⟨1 / 2, 1, 1⟩, ⟨1 / 2, 0, 1⟩, ⟨3 / 4, 1, 1⟩, ⟨1, 1, 1⟩] 2
      [[4, 3, 2], [1, 0]] :=
  outOfFold_predictions ⟨fun n => (List.range n).reverse, fun _ => reverse_perm _⟩
    [⟨1 / 4, 0, 1⟩, ⟨1 / 2, 1, 1⟩, ⟨1 / 2, 0, 1⟩, ⟨3 / 4, 1, 1⟩, ⟨1, 1, 1⟩] 2 (by decide) (by decide)

end Omniscience.Retrieval
