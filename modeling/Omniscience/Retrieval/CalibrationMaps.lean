import Omniscience.Retrieval.Calibration

/-!
# What the calibration map is

* `calibrationMaps_wellFormed` : for predictions between zero and one the fitted map goes from
  threshold zero to threshold one with values that do not decrease, and on every such map the two
  evaluations are the same monotone function.
* `fit_optimal` : for different predictions with positive weights the map takes, at the
  predictions, the values that fit the labels best among all that do not decrease.
-/

namespace Omniscience.Retrieval

open Interpolation List

/-! ### Well-formed maps -/

/-- A map from threshold zero to threshold one. -/
structure WellFormedMap (thresholds values : List ℚ) : Prop where
  length : thresholds.length = values.length
  first : thresholds.head? = some 0
  last : thresholds.getLast? = some 1
  strict : thresholds.Pairwise (· < ·)
  mono : values.Pairwise (· ≤ ·)
  range : ∀ v ∈ values, 0 ≤ v ∧ v ≤ 1

/-- A sample as the pipeline makes it: a prediction between zero and one, a label that is zero or
one, a weight that is not negative. -/
structure Sample.Valid (r : Sample) : Prop where
  prediction : 0 ≤ r.prediction ∧ r.prediction ≤ 1
  label : r.label = 0 ∨ r.label = 1
  weight : 0 ≤ r.weight

/-- The two evaluations of a map are one monotone function with values between zero and one. -/
structure EvaluatedAlike (thresholds values : List ℚ) : Prop where
  agree : ∀ score, calibrateIsotonic score thresholds values =
    .ok (applyIsotonic score thresholds values)
  mono : Monotone fun score => applyIsotonic score thresholds values
  range : ∀ score, 0 ≤ applyIsotonic score thresholds values ∧
    applyIsotonic score thresholds values ≤ 1

variable {rows : List Sample} {knots : List (ℚ × ℚ)} {thresholds values : List ℚ}

theorem mem_sortedSamples {r : Sample} : r ∈ sortedSamples rows ↔ r ∈ rows :=
  mem_insertionSort _

theorem perm_sortedSamples (rows : List Sample) : (sortedSamples rows).Perm rows :=
  perm_insertionSort _ _

theorem pairwise_sortedSamples (rows : List Sample) :
    (sortedSamples rows).Pairwise fun r s => r.prediction ≤ s.prediction := by
  have htotal : Std.Total fun r s : Sample => r.prediction ≤ s.prediction :=
    ⟨fun r s => le_total r.prediction s.prediction⟩
  have htrans : IsTrans Sample fun r s => r.prediction ≤ s.prediction :=
    ⟨fun _ _ _ hrs hst => hrs.trans hst⟩
  exact pairwise_insertionSort _ _

theorem fitBlocks_within (h : ∀ r ∈ rows, r.Valid) {b : Block ℚ ℚ} (hb : b ∈ fitBlocks rows) :
    (0 ≤ b.value ∧ b.value ≤ 1) ∧ (0 ≤ b.start ∧ b.start ≤ 1) ∧ 0 ≤ b.stop ∧ b.stop ≤ 1 := by
  have hvalid : ∀ r ∈ sortedSamples rows, r.Valid := fun r hr => h r (mem_sortedSamples.1 hr)
  have hwithin : Observations.Within 0 1 b := by
    refine Observations.forall_blocksOf (P := Observations.Within 0 1)
      (fun c b hc hb => hc.pool le_rfl zero_le_one hb) (fun r hr => ?_) b hb
    obtain ⟨-, hlabel, hweight⟩ := hvalid r hr
    refine ⟨hweight, ?_, ?_⟩
    · show (0 : ℚ) ≤ (r.label : ℚ)
      rcases hlabel with hlabel | hlabel <;> simp [hlabel]
    · show (r.label : ℚ) ≤ 1
      rcases hlabel with hlabel | hlabel <;> simp [hlabel]
  have hspan : (0 ≤ b.start ∧ b.start ≤ 1) ∧ 0 ≤ b.stop ∧ b.stop ≤ 1 :=
    Observations.forall_blocksOf (o := samples)
      (P := fun b => ((0 : ℚ) ≤ b.start ∧ b.start ≤ 1) ∧ 0 ≤ b.stop ∧ b.stop ≤ 1)
      (fun c b hc hb => ⟨hc.1, hb.2⟩)
      (fun r hr => ⟨(hvalid r hr).prediction, (hvalid r hr).prediction⟩) b hb
  exact ⟨⟨hwithin.le, hwithin.ge⟩, hspan⟩

theorem spannedKnots_ends (hne : knots ≠ []) (h : ∀ k ∈ knots, 0 ≤ k.1 ∧ k.1 ≤ 1) :
    ((spannedKnots knots).map Prod.fst).head? = some 0 ∧
      ((spannedKnots knots).map Prod.fst).getLast? = some 1 := by
  unfold spannedKnots
  constructor
  · cases knots with
    | nil => exact absurd rfl hne
    | cons k rest =>
      rcases (h k mem_cons_self).1.eq_or_lt with heq | hlt
      · simp [← heq]
      · simp [hlt]
  · rcases eq_nil_or_concat knots with rfl | ⟨init, k, rfl⟩
    · exact absurd rfl hne
    · rw [concat_eq_append] at h ⊢
      rw [getLastD_concat]
      rcases (h k (mem_append_right _ (mem_singleton_self k))).2.eq_or_lt with heq | hlt
      · simp [heq]
      · simp [hlt]

theorem exists_of_mem_spannedKnots (hne : knots ≠ []) {k : ℚ × ℚ} (hk : k ∈ spannedKnots knots) :
    ∃ k' ∈ knots, k.2 = k'.2 := by
  unfold spannedKnots at hk
  rw [mem_append, mem_append] at hk
  rcases hk with (hk | hk) | hk
  · split at hk
    · cases knots with
      | nil => exact absurd rfl hne
      | cons k' rest =>
        rw [mem_singleton.1 hk]
        exact ⟨k', mem_cons_self, rfl⟩
    · cases hk
  · exact ⟨k, hk, rfl⟩
  · split at hk
    · rcases eq_nil_or_concat knots with rfl | ⟨init, k', rfl⟩
      · exact absurd rfl hne
      · rw [mem_singleton.1 hk, concat_eq_append, getLastD_concat]
        exact ⟨k', mem_append_right _ (mem_singleton_self k'), rfl⟩
    · cases hk

theorem wellFormed_listsOf (h : Increasing knots)
    (hends : (knots.map Prod.fst).head? = some 0 ∧ (knots.map Prod.fst).getLast? = some 1)
    (hrange : ∀ k ∈ knots, 0 ≤ k.2 ∧ k.2 ≤ 1) :
    WellFormedMap (listsOf knots).1 (listsOf knots).2 where
  length := by rw [listsOf, length_map, length_map]
  first := hends.1
  last := hends.2
  strict := pairwise_map.2 (h.imp fun hk => hk.1)
  mono := pairwise_map.2 (h.imp fun hk => hk.2)
  range v hv := by
    obtain ⟨k, hk, rfl⟩ := mem_map.1 hv
    exact hrange k hk

/-- **The fit of valid samples is a map.** -/
theorem fit_wellFormed (h : ∀ r ∈ rows, r.Valid) :
    WellFormedMap (fitIsotonicRegression rows).1 (fitIsotonicRegression rows).2 := by
  rw [fitIsotonicRegression_eq]
  have hincreasing := fitKnots_increasing rows
  unfold fitKnots at hincreasing ⊢
  split
  · rename_i hnil
    rw [if_pos hnil] at hincreasing
    refine wellFormed_listsOf hincreasing ⟨rfl, rfl⟩ fun k hk => ?_
    rcases mem_cons.1 hk with rfl | hk
    · exact ⟨le_rfl, zero_le_one⟩
    · rw [mem_singleton.1 hk]
      exact ⟨zero_le_one, le_rfl⟩
  · rename_i hne
    rw [if_neg hne] at hincreasing
    have hknots := knotsFrom_ne_nil (fitBlocks_ne_nil hne)
    refine wellFormed_listsOf hincreasing (spannedKnots_ends hknots fun k hk => ?_) fun k hk => ?_
    · obtain ⟨-, b, hb, -, hpos⟩ := mem_knotsFrom hk
      obtain ⟨-, hstart, hstop⟩ := fitBlocks_within h hb
      rcases hpos with hpos | hpos <;> rw [hpos]
      · exact hstart
      · exact hstop
    · obtain ⟨k', hk', hvalue⟩ := exists_of_mem_spannedKnots hknots hk
      obtain ⟨-, b, hb, hvalue', -⟩ := mem_knotsFrom hk'
      rw [hvalue, hvalue']
      exact (fitBlocks_within h hb).1

theorem listsOf_zip (h : thresholds.length = values.length) :
    listsOf (thresholds.zip values) = (thresholds, values) := by
  rw [listsOf, map_fst_zip h.le, map_snd_zip h.ge]

theorem WellFormedMap.increasing (h : WellFormedMap thresholds values) :
    Increasing (thresholds.zip values) := by
  have hlists := listsOf_zip h.length
  have hstrict : ((thresholds.zip values).map Prod.fst).Pairwise (· < ·) := by
    rw [show (thresholds.zip values).map Prod.fst = thresholds from congrArg Prod.fst hlists]
    exact h.strict
  have hmono : ((thresholds.zip values).map Prod.snd).Pairwise (· ≤ ·) := by
    rw [show (thresholds.zip values).map Prod.snd = values from congrArg Prod.snd hlists]
    exact h.mono
  exact (pairwise_map.1 hstrict).and (pairwise_map.1 hmono)

/-- **Both evaluations of a map are one monotone function.** -/
theorem WellFormedMap.evaluatedAlike (h : WellFormedMap thresholds values) :
    EvaluatedAlike thresholds values := by
  have hknots := h.increasing
  have hlists := listsOf_zip h.length
  have hne : thresholds.zip values ≠ [] := by
    intro hnil
    rw [hnil] at hlists
    have hthresholds : [] = thresholds := congrArg Prod.fst hlists
    have hfirst := h.first
    rw [← hthresholds] at hfirst
    cases hfirst
  have happly : ∀ score, applyIsotonic score thresholds values =
      interpolate score (thresholds.zip values) := by
    intro score
    have heq := applyIsotonic_eq hknots hne score
    rwa [hlists] at heq
  have hmem : ∀ k ∈ thresholds.zip values, 0 ≤ k.2 ∧ k.2 ≤ 1 :=
    fun k hk => h.range k.2 (of_mem_zip hk).2
  refine ⟨fun score => ?_, fun p q hpq => ?_, fun score => ?_⟩
  · have heq := isoScore_eq hknots hne score
    rw [hlists] at heq
    rw [calibrateIsotonic, if_pos h.length, happly]
    exact congrArg Except.ok heq
  · show applyIsotonic p thresholds values ≤ applyIsotonic q thresholds values
    rw [happly, happly]
    exact interpolate_mono hknots hpq
  · rw [happly]
    constructor
    · cases hzip : thresholds.zip values with
      | nil => exact absurd hzip hne
      | cons k rest =>
        rw [hzip] at hknots hmem
        exact (hmem k mem_cons_self).1.trans (le_interpolate hknots score)
    · rcases eq_nil_or_concat (thresholds.zip values) with hzip | ⟨init, k, hzip⟩
      · exact absurd hzip hne
      · rw [hzip, concat_eq_append] at hknots hmem ⊢
        exact (interpolate_le_last hknots score).trans
          (hmem k (mem_append_right _ (mem_singleton_self k))).2

/-- **The fits are maps, and every map is evaluated alike.** -/
theorem calibrationMaps_wellFormed :
    (∀ rows : List Sample, (∀ r ∈ rows, r.Valid) →
      WellFormedMap (fitIsotonicRegression rows).1 (fitIsotonicRegression rows).2) ∧
    ∀ thresholds values, WellFormedMap thresholds values → EvaluatedAlike thresholds values :=
  ⟨fun _ h => fit_wellFormed h, fun _ _ h => h.evaluatedAlike⟩

/-! ### The best fit -/

theorem knotsFrom_append {last : WithBot ℚ} (B C : List (Block ℚ ℚ)) :
    knotsFrom last (B ++ C) = knotsFrom last B ++ knotsFrom (B.foldl lastAfter last) C := by
  induction B generalizing last with
  | nil => rfl
  | cons b rest ih =>
    rw [cons_append, knotsFrom, knotsFrom, ih, append_assoc]
    rfl

theorem foldl_lastAfter_lt {last : WithBot ℚ} {x : ℚ} {B : List (Block ℚ ℚ)} (hlast : last < x)
    (h : ∀ b ∈ B, b.start < x ∧ b.stop < x) : B.foldl lastAfter last < x := by
  induction B generalizing last with
  | nil => exact hlast
  | cons b rest ih =>
    obtain ⟨hstart, hstop⟩ := h b mem_cons_self
    have hafter : lastAfter last b < x :=
      max_lt (max_lt hlast (WithBot.coe_lt_coe.2 hstart)) (WithBot.coe_lt_coe.2 hstop)
    exact ih hafter fun c hc => h c (mem_cons_of_mem _ hc)

theorem interpolate_block {B C : List (Block ℚ ℚ)} {b : Block ℚ ℚ} {pre post : List (ℚ × ℚ)}
    (hB : ∀ c ∈ B, c.start < b.start ∧ c.stop < b.start) (hspan : b.start ≤ b.stop)
    (hincreasing : Increasing (pre ++ knotsFrom ⊥ (B ++ b :: C) ++ post)) {p : ℚ}
    (hp : b.start ≤ p) (hp' : p ≤ b.stop) :
    interpolate p (pre ++ knotsFrom ⊥ (B ++ b :: C) ++ post) = b.value := by
  have hlast : B.foldl lastAfter ⊥ < b.start := foldl_lastAfter_lt (WithBot.bot_lt_coe _) hB
  rw [knotsFrom_append, knotsFrom, freshKnots, if_pos hlast, max_eq_right hlast.le] at hincreasing ⊢
  rcases hspan.eq_or_lt with heq | hlt
  · have hnot : ¬ ((b.start : WithBot ℚ) < b.stop) := by
      rw [WithBot.coe_lt_coe]
      exact heq.not_lt
    have hpstart : p = b.start := le_antisymm (hp'.trans_eq heq.symm) hp
    have hsplit : ∀ rest, pre ++ (knotsFrom ⊥ B ++ ([(b.start, b.value)] ++ [] ++ rest)) ++ post =
        (pre ++ knotsFrom ⊥ B) ++ (b.start, b.value) :: (rest ++ post) := by simp
    rw [if_neg hnot, hsplit] at hincreasing ⊢
    rw [hpstart]
    exact interpolate_knot hincreasing
  · have hsplit : ∀ rest, pre ++ (knotsFrom ⊥ B ++
        ([(b.start, b.value)] ++ [(b.stop, b.value)] ++ rest)) ++ post =
        (pre ++ knotsFrom ⊥ B) ++ (b.start, b.value) :: (b.stop, b.value) :: (rest ++ post) := by
      simp
    rw [if_pos (WithBot.coe_lt_coe.2 hlt), hsplit] at hincreasing ⊢
    exact interpolate_flat hincreasing rfl hp hp'

theorem exists_block {R : Block ℚ ℚ → ℚ × List Sample → Prop} {blocks : List (Block ℚ ℚ)}
    {E F : List (ℚ × List Sample)} {d : ℚ × List Sample} (h : List.Forall₂ R blocks (E ++ d :: F)) :
    ∃ B b C, blocks = B ++ b :: C ∧ R b d ∧ ∀ c ∈ B, ∃ e ∈ E, R c e := by
  induction E generalizing blocks with
  | nil =>
    obtain ⟨b, C, hb, -, rfl⟩ := forall₂_cons_right_iff.1 h
    exact ⟨[], b, C, rfl, hb, nofun⟩
  | cons e E ih =>
    obtain ⟨c, rest, hc, hrest, rfl⟩ := forall₂_cons_right_iff.1 h
    obtain ⟨B, b, C, rfl, hb, hB⟩ := ih hrest
    refine ⟨c :: B, b, C, rfl, hb, fun c' hc' => ?_⟩
    rcases mem_cons.1 hc' with rfl | hc'
    · exact ⟨e, mem_cons_self, hc⟩
    · obtain ⟨e', he', hrep⟩ := hB c' hc'
      exact ⟨e', mem_cons_of_mem _ he', hrep⟩

/-- The fitted value of a prediction. -/
def fittedAt (rows : List Sample) (p : ℚ) : ℚ :=
  applyIsotonic p (fitIsotonicRegression rows).1 (fitIsotonicRegression rows).2

theorem fittedAt_eq (rows : List Sample) (p : ℚ) :
    fittedAt rows p = interpolate p (fitKnots rows) := by
  rw [fittedAt, fitIsotonicRegression_eq]
  exact applyIsotonic_eq (fitKnots_increasing rows) (fitKnots_ne_nil rows) p

theorem strict_sortedSamples (hdistinct : rows.Pairwise fun r s => r.prediction ≠ s.prediction) :
    (sortedSamples rows).Pairwise fun r s => r.prediction < s.prediction := by
  have hne : (sortedSamples rows).Pairwise fun r s => r.prediction ≠ s.prediction :=
    ((perm_sortedSamples rows).pairwise_iff fun h => h.symm).2 hdistinct
  exact (pairwise_sortedSamples rows).imp₂ (fun _ _ hle hne => lt_of_le_of_ne hle hne) hne

/-- **The map reproduces the values of the runs.** -/
theorem fittedAt_of_mem {ds : List (ℚ × List Sample)} {d : ℚ × List Sample} {r : Sample}
    (hdistinct : rows.Pairwise fun r s => r.prediction ≠ s.prediction)
    (hds : samples.Division ds (sortedSamples rows))
    (hblocks : List.Forall₂ samples.Represents (fitBlocks rows) ds) (hd : d ∈ ds) (hr : r ∈ d.2) :
    fittedAt rows r.prediction = d.1 := by
  obtain ⟨E, F, rfl⟩ := append_of_mem hd
  obtain ⟨B, b, C, hsplit, hb, hB⟩ := exists_block hblocks
  have hstrict := strict_sortedSamples hdistinct
  rw [← hds.flatten, map_append, flatten_append, map_cons, flatten_cons]
    at hstrict
  obtain ⟨-, hrest, hbefore⟩ := pairwise_append.1 hstrict
  have hrun := (pairwise_append.1 hrest).1
  have hbetween : ∀ s ∈ d.2, b.start ≤ s.prediction ∧ s.prediction ≤ b.stop :=
    fun s hs => hb.between (hrun.imp fun hlt => hlt.le) hs
  -- The blocks before lie strictly before, because no prediction occurs twice.
  obtain ⟨first, hfirst, hstart⟩ := hb.start_mem
  have hlt : ∀ c ∈ B, c.start < b.start ∧ c.stop < b.start := by
    intro c hc
    obtain ⟨e, he, hrep⟩ := hB c hc
    have hpos : ∀ s ∈ e.2, s.prediction < b.start := by
      intro s hs
      rw [← hstart]
      exact hbefore s (mem_flatten_of_mem (mem_map_of_mem he) hs) first (mem_append_left _ hfirst)
    obtain ⟨s, hs, hcstart⟩ := hrep.start_mem
    obtain ⟨t, ht, hcstop⟩ := hrep.stop_mem
    rw [← hcstart, ← hcstop]
    exact ⟨hpos s hs, hpos t ht⟩
  have hne : rows ≠ [] := by
    rintro rfl
    have hnil : B ++ b :: C = [] := hsplit.symm
    simp at hnil
  have hincreasing := fitKnots_increasing rows
  rw [fittedAt_eq]
  unfold fitKnots at hincreasing ⊢
  rw [if_neg hne] at hincreasing ⊢
  rw [hsplit] at hincreasing ⊢
  have hspan := (hbetween r hr).1.trans (hbetween r hr).2
  rw [← hb.value]
  exact interpolate_block hlt hspan hincreasing (hbetween r hr).1 (hbetween r hr).2

/-- **The fit is optimal.**  The fitted values do not decrease, and no others that do not decrease
have a smaller weighted sum of squared differences to the labels. -/
theorem fit_optimal (rows : List Sample)
    (hdistinct : rows.Pairwise fun r s => r.prediction ≠ s.prediction)
    (hpos : ∀ r ∈ rows, 0 < r.weight) :
    (∀ r ∈ rows, ∀ s ∈ rows, r.prediction ≤ s.prediction →
      fittedAt rows r.prediction ≤ fittedAt rows s.prediction) ∧
    ∀ z : Sample → ℚ,
      (∀ r ∈ rows, ∀ s ∈ rows, r.prediction ≤ s.prediction → z r ≤ z s) →
        (rows.map fun r => r.weight * (r.label - fittedAt rows r.prediction) ^ 2).sum ≤
          (rows.map fun r => r.weight * (r.label - z r) ^ 2).sum := by
  constructor
  · intro r _ s _ hle
    rw [fittedAt_eq, fittedAt_eq]
    exact interpolate_mono (fitKnots_increasing rows) hle
  · intro z hz
    have hpos' : samples.Positive (sortedSamples rows) :=
      fun r hr => hpos r (mem_sortedSamples.1 hr)
    obtain ⟨ds, hds, hblocks⟩ := Observations.blocksOf_division hpos'
    have hzsorted : (sortedSamples rows).Pairwise fun r s => z r ≤ z s :=
      (pairwise_sortedSamples rows).imp_of_mem fun hr hs hle =>
        hz _ (mem_sortedSamples.1 hr) _ (mem_sortedSamples.1 hs) hle
    have hfitted : samples.loss (sortedSamples rows) (fun r => fittedAt rows r.prediction) =
        samples.divisionLoss ds := by
      rw [← hds.flatten]
      exact Observations.loss_flatten fun d hd r hr => fittedAt_of_mem hdistinct hds hblocks hd hr
    have hperm : ∀ f : Sample → ℚ, samples.loss (sortedSamples rows) f = samples.loss rows f :=
      fun f => ((perm_sortedSamples rows).map _).sum_eq
    have hoptimal := hds.optimal hpos' hzsorted
    rw [← hfitted, hperm, hperm] at hoptimal
    exact hoptimal

/-- Three samples out of order. -/
def threeSamples : List Sample := [⟨3 / 4, 0, 1⟩, ⟨1 / 4, 0, 1⟩, ⟨1 / 2, 1, 2⟩]

/-- The fit of the three. -/
theorem fit_optimal_three :
    (∀ r ∈ threeSamples, ∀ s ∈ threeSamples, r.prediction ≤ s.prediction →
      fittedAt threeSamples r.prediction ≤ fittedAt threeSamples s.prediction) ∧
    ∀ z : Sample → ℚ,
      (∀ r ∈ threeSamples, ∀ s ∈ threeSamples, r.prediction ≤ s.prediction → z r ≤ z s) →
        (threeSamples.map fun r =>
            r.weight * (r.label - fittedAt threeSamples r.prediction) ^ 2).sum ≤
          (threeSamples.map fun r => r.weight * (r.label - z r) ^ 2).sum :=
  fit_optimal threeSamples (by norm_num [threeSamples]) (by norm_num [threeSamples])

end Omniscience.Retrieval
