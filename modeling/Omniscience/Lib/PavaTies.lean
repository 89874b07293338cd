import Omniscience.Lib.PavaOrder
import Mathlib.Data.List.Sort

/-!
# Divisions that look alike

A division is seen at a position: the first run that reaches it has a value, and starts there, stops
there or neither (`Alike`).  If all arrangements of some observations look alike, then the runs of
the ascending arrangement that share a position are compatible (`compatible_of_alike`).

Two arrangements are enough to see that.  In the descending one a position has one value, and as
much label is distributed there as in the ascending one; and if a position alone is reversed, a run
starts or stops there only if one does before.
-/

namespace Omniscience.Observations

open List OrderedField

variable {α K X : Type*} [LinearOrder X] [Inhabited X] (o : Observations α K X)

/-! ### The first run that reaches a position -/

/-- The first run of a division that reaches a position. -/
def Reaches (ds : List (K × List α)) (x : X) (M : K × List α) : Prop :=
  ∃ S S', ds = S ++ M :: S' ∧ (∀ d ∈ S, o.stopOf d.2 < x) ∧ x ≤ o.stopOf M.2

/-- The value of that run. -/
def valueAt [Zero K] (ds : List (K × List α)) (x : X) : K :=
  match ds.find? fun d => x ≤ o.stopOf d.2 with
  | some d => d.1
  | none => 0

/-- A run that starts or stops at a position. -/
def EndsAt (x : X) (M : K × List α) : Prop := o.startOf M.2 = x ∨ o.stopOf M.2 = x

/-- Two divisions look alike at a position. -/
def Alike (ds ds' : List (K × List α)) (x : X) : Prop :=
  ∀ M M', o.Reaches ds x M → o.Reaches ds' x M' →
    M.1 = M'.1 ∧ (o.EndsAt x M ↔ o.EndsAt x M')

variable {o} {ds ds' S S' : List (K × List α)} {l : List α} {x : X} {M N d : K × List α} {a : α}

theorem exists_reaches (hd : d ∈ ds) (hx : x ≤ o.stopOf d.2) : ∃ M, o.Reaches ds x M := by
  induction ds with
  | nil => cases hd
  | cons e ds ih =>
    rcases le_or_gt x (o.stopOf e.2) with hle | hlt
    · exact ⟨e, [], ds, rfl, nofun, hle⟩
    · rcases mem_cons.1 hd with rfl | hd
      · exact absurd hx (not_le.2 hlt)
      · obtain ⟨M, S, S', rfl, hS, hM⟩ := ih hd
        refine ⟨M, e :: S, S', rfl, fun d hd => ?_, hM⟩
        rcases mem_cons.1 hd with rfl | hd
        · exact hlt
        · exact hS d hd

theorem Reaches.find_eq (h : o.Reaches ds x M) : ds.find? (fun d => x ≤ o.stopOf d.2) = some M := by
  obtain ⟨S, S', rfl, hS, hM⟩ := h
  have hnone : S.find? (fun d => x ≤ o.stopOf d.2) = none := by
    rw [List.find?_eq_none]
    intro d hd
    simpa using hS d hd
  rw [List.find?_append, hnone, Option.none_or, List.find?_cons_of_pos (by simpa using hM)]

theorem Reaches.unique (h : o.Reaches ds x M) (h' : o.Reaches ds x N) : M = N :=
  Option.some.inj (h.find_eq.symm.trans h'.find_eq)

theorem Reaches.valueAt_eq [Zero K] (h : o.Reaches ds x M) : o.valueAt ds x = M.1 := by
  rw [valueAt, h.find_eq]

theorem between_ends (hsorted : l.Pairwise fun a b => o.pos a ≤ o.pos b) (ha : a ∈ l) :
    o.startOf l ≤ o.pos a ∧ o.pos a ≤ o.stopOf l := by
  constructor
  · cases l with
    | nil => cases ha
    | cons b l =>
      rw [startOf_cons]
      rcases mem_cons.1 ha with rfl | ha
      · exact le_rfl
      · exact (pairwise_cons.1 hsorted).1 a ha
  · rcases eq_nil_or_concat l with rfl | ⟨init, b, rfl⟩
    · cases ha
    · rw [concat_eq_append] at hsorted ha ⊢
      rw [stopOf_concat]
      rcases mem_append.1 ha with ha | ha
      · exact (pairwise_append.1 hsorted).2.2 a ha b (mem_singleton_self b)
      · rw [mem_singleton.1 ha]

omit [LinearOrder X] in
theorem ends_mem (hne : l ≠ []) :
    (∃ a ∈ l, o.pos a = o.startOf l) ∧ ∃ a ∈ l, o.pos a = o.stopOf l := by
  constructor
  · cases l with
    | nil => exact absurd rfl hne
    | cons b l => exact ⟨b, mem_cons_self, rfl⟩
  · rcases eq_nil_or_concat l with rfl | ⟨init, b, rfl⟩
    · exact absurd rfl hne
    · rw [concat_eq_append]
      exact ⟨b, mem_append_right _ (mem_singleton_self b), (stopOf_concat init b).symm⟩

/-! ### Sorted divisions -/

variable [Field K] [LinearOrder K]

/-- A division of sorted observations. -/
structure SortedDivision (o : Observations α K X) (ds : List (K × List α)) (l : List α) : Prop where
  division : o.Division ds l
  sorted : l.Pairwise fun a b => o.pos a ≤ o.pos b
  positive : o.Positive l

theorem SortedDivision.split (h : o.SortedDivision (S ++ M :: S') l) :
    l = (S.map Prod.snd).flatten ++ (M.2 ++ (S'.map Prod.snd).flatten) ∧ o.Run M.1 M.2 ∧
      (∀ d ∈ S, d.1 ≤ M.1) ∧ (∀ d ∈ S', M.1 ≤ d.1) ∧
      (∀ a ∈ (S.map Prod.snd).flatten, o.pos a ≤ o.startOf M.2) ∧
      (∀ a ∈ M.2, o.startOf M.2 ≤ o.pos a ∧ o.pos a ≤ o.stopOf M.2) ∧
      ∀ a ∈ (S'.map Prod.snd).flatten, o.stopOf M.2 ≤ o.pos a := by
  have hl : l = (S.map Prod.snd).flatten ++ (M.2 ++ (S'.map Prod.snd).flatten) := by
    rw [← h.division.flatten, map_append, flatten_append, map_cons, flatten_cons]
  have hrun := h.division.runs M (mem_append_right _ mem_cons_self)
  have hsorted := h.sorted
  rw [hl] at hsorted
  obtain ⟨-, hrest, hbefore⟩ := pairwise_append.1 hsorted
  obtain ⟨hM, -, hafter⟩ := pairwise_append.1 hrest
  obtain ⟨-, hvalues, hvalues'⟩ := pairwise_append.1 h.division.sorted
  obtain ⟨⟨first, hfirst, hstart⟩, last, hlast, hstop⟩ := ends_mem (o := o) hrun.ne_nil
  refine ⟨hl, hrun, fun d hd => hvalues' d hd M mem_cons_self,
    (pairwise_cons.1 hvalues).1, fun a ha => ?_, fun a ha => between_ends hM ha,
    fun a ha => ?_⟩
  · rw [← hstart]
    exact hbefore a ha first (mem_append_left _ hfirst)
  · rw [← hstop]
    exact hafter last hlast a ha

theorem SortedDivision.reaches (h : o.SortedDivision ds l) (hd : d ∈ ds) (ha : a ∈ d.2) :
    ∃ M, o.Reaches ds (o.pos a) M ∧ o.startOf M.2 ≤ o.pos a ∧
      (M = d ∨ M.1 ≤ d.1 ∧ o.stopOf M.2 = o.pos a ∧ o.startOf d.2 = o.pos a ∧
        ∃ S S', ds = S ++ M :: S' ∧ d ∈ S') := by
  have hdstop : o.pos a ≤ o.stopOf d.2 := by
    obtain ⟨E, F, rfl⟩ := append_of_mem hd
    exact (h.split.2.2.2.2.2.1 a ha).2
  obtain ⟨M, hM⟩ := exists_reaches hd hdstop
  obtain ⟨S, S', rfl, hS, hMstop⟩ := id hM
  obtain ⟨-, hrun, -, hle, hbefore, hbetween, hafter⟩ := h.split
  obtain ⟨⟨first, hfirst, hstart⟩, -⟩ := ends_mem (o := o) hrun.ne_nil
  rcases mem_append.1 hd with hdS | hdM
  · exact absurd hdstop (not_le.2 (hS d hdS))
  · rcases mem_cons.1 hdM with rfl | hdS'
    · exact ⟨d, hM, (hbetween a ha).1, .inl rfl⟩
    · have hmem : a ∈ (S'.map Prod.snd).flatten :=
        mem_flatten_of_mem (mem_map_of_mem hdS') ha
      have hstop : o.stopOf M.2 = o.pos a := le_antisymm (hafter a hmem) hMstop
      refine ⟨M, hM, ?_, .inr ⟨hle d hdS', hstop, ?_, S, S', rfl, hdS'⟩⟩
      · rw [← hstop]
        exact (hbetween first hfirst).1.trans (hbetween first hfirst).2
      · obtain ⟨E, F, hEF⟩ := append_of_mem hd
        rw [hEF] at h
        have hdstart : o.startOf d.2 ≤ o.pos a := (h.split.2.2.2.2.2.1 a ha).1
        obtain ⟨⟨b, hb, hbstart⟩, -⟩ := ends_mem (o := o) h.split.2.1.ne_nil
        refine le_antisymm hdstart ?_
        rw [← hstop, ← hbstart]
        exact hafter b (mem_flatten_of_mem (mem_map_of_mem hdS') hb)

variable [IsStrictOrderedRing K]

/-- **Where the labels do not increase at a position**, a run that shares it with a later one is a
single position, and both have one value. -/
theorem SortedDivision.shared (h : o.SortedDivision (S ++ M :: S') l) (hN : N ∈ S')
    (hdesc : ∀ a b, [a, b].Sublist l → o.pos a = x → o.pos b = x → o.label b ≤ o.label a)
    (hM : o.stopOf M.2 = x) (hNstart : o.startOf N.2 = x) :
    M.1 = N.1 ∧ o.startOf M.2 = x := by
  obtain ⟨hl, hrun, -, hle, -⟩ := h.split
  have hrunN := h.division.runs N (mem_append_right _ (mem_cons_of_mem _ hN))
  rcases eq_nil_or_concat M.2 with hnil | ⟨p, u, hMeq⟩
  · exact absurd hnil hrun.ne_nil
  rw [concat_eq_append] at hMeq
  cases hNeq : N.2 with
  | nil => exact absurd hNeq hrunN.ne_nil
  | cons v q =>
    have hv : v ∈ (S'.map Prod.snd).flatten :=
      mem_flatten_of_mem (mem_map_of_mem hN) (hNeq ▸ mem_cons_self)
    have hsub : [u, v].Sublist l := by
      rw [hl, hMeq]
      have hpair : ([u] ++ [v]).Sublist ((p ++ [u]) ++ (S'.map Prod.snd).flatten) :=
        (sublist_append_right p [u]).append (singleton_sublist.2 hv)
      exact hpair.trans (sublist_append_right _ _)
    rw [hMeq, stopOf_concat] at hM
    rw [hNeq, startOf_cons] at hNstart
    have huv := hdesc u v hsub hM hNstart
    have hwu : 0 < o.weight u := h.positive u (hsub.subset mem_cons_self)
    have hwv : 0 < o.weight v :=
      h.positive v (hsub.subset (mem_cons_of_mem _ mem_cons_self))
    rw [hMeq] at hrun
    rw [hNeq] at hrunN
    have hu : o.weight u * (o.label u - M.1) ≤ 0 := by
      have hsuffix := hrun.excess_suffix_nonpos
      rwa [excess_cons, excess_nil, add_zero] at hsuffix
    have hv' : 0 ≤ o.weight v * (o.label v - N.1) := by
      have hprefix := Run.excess_prefix_nonneg (p := [v]) (s := q) hrunN
      rwa [excess_cons, excess_nil, add_zero] at hprefix
    have hule : o.label u ≤ M.1 := sub_nonpos.1 (nonpos_of_mul_nonpos_right hu hwu)
    have hvle : N.1 ≤ o.label v := sub_nonneg.1 (nonneg_of_mul_nonneg_right hv' hwv)
    have hMN := hle N hN
    refine ⟨le_antisymm hMN (hvle.trans (huv.trans hule)), ?_⟩
    by_cases hp : p = []
    · rw [hMeq, hp]
      exact hM
    · have hneg : o.weight u * (o.label u - M.1) < 0 := by
        have hsuffix := hrun.excess_suffix_neg hp (cons_ne_nil u [])
        rwa [excess_cons, excess_nil, add_zero] at hsuffix
      have hlt : o.label u < M.1 := sub_neg.1 (neg_of_mul_neg_right hneg hwu.le)
      exact absurd (hMN.trans (hvle.trans huv)) (not_le.2 hlt)

/-! ### The values at a position -/

omit [LinearOrder X] [Inhabited X] [LinearOrder K] [IsStrictOrderedRing K] in
theorem sum_values {G : X → K} (h : ∀ d ∈ ds, o.excess d.1 d.2 = 0) :
    (ds.map fun d => (d.2.map fun a => o.weight a * (d.1 - G (o.pos a))).sum).sum =
      ((ds.map Prod.snd).flatten.map fun a => o.weight a * (o.label a - G (o.pos a))).sum := by
  induction ds with
  | nil => rfl
  | cons d ds ih =>
    have hrun : (d.2.map fun a => o.weight a * (d.1 - G (o.pos a))).sum + o.excess d.1 d.2 =
        (d.2.map fun a => o.weight a * (o.label a - G (o.pos a))).sum := by
      rw [excess, ← sum_map_add]
      exact congrArg List.sum (map_congr_left fun a _ => by ring)
    rw [h d mem_cons_self, add_zero] at hrun
    rw [map_cons, sum_cons, map_cons, flatten_cons, map_append,
      sum_append, hrun, ih fun e he => h e (mem_cons_of_mem _ he)]

omit [IsStrictOrderedRing K] in
theorem SortedDivision.valueAt_le (h : o.SortedDivision ds l) (hd : d ∈ ds) (ha : a ∈ d.2) :
    o.valueAt ds (o.pos a) ≤ d.1 := by
  obtain ⟨M, hM, -, hcase⟩ := h.reaches hd ha
  rw [hM.valueAt_eq]
  rcases hcase with rfl | ⟨hle, -⟩
  · exact le_rfl
  · exact hle

theorem SortedDivision.valueAt_eq (h : o.SortedDivision ds l)
    (hdesc : ∀ a b, [a, b].Sublist l → o.pos a = o.pos b → o.label b ≤ o.label a) (hd : d ∈ ds)
    (ha : a ∈ d.2) : o.valueAt ds (o.pos a) = d.1 := by
  obtain ⟨M, hM, -, hcase⟩ := h.reaches hd ha
  rw [hM.valueAt_eq]
  rcases hcase with rfl | ⟨-, hstop, hstart, S, S', rfl, hdS'⟩
  · rfl
  · exact (h.shared hdS' (fun u v huv hu hv => hdesc u v huv (hu.trans hv.symm)) hstop hstart).1

/-- **If the descending arrangement looks alike, the runs at a position have one value.** -/
theorem SortedDivision.value_unique {l' : List α} (h : o.SortedDivision ds l)
    (h' : o.SortedDivision ds' l') (hperm : l'.Perm l)
    (hdesc : ∀ a b, [a, b].Sublist l' → o.pos a = o.pos b → o.label b ≤ o.label a)
    (halike : ∀ a ∈ l, o.Alike ds ds' (o.pos a)) (hd : d ∈ ds) (ha : a ∈ d.2) :
    d.1 = o.valueAt ds (o.pos a) := by
  have hmem : ∀ {ds l} (_ : o.SortedDivision ds l) {d : K × List α} {a : α}, d ∈ ds → a ∈ d.2 →
      a ∈ l := by
    intro ds l h d a hd ha
    rw [← h.division.flatten]
    exact mem_flatten_of_mem (mem_map_of_mem hd) ha
  have hsame : ∀ e ∈ ds', ∀ b ∈ e.2, o.valueAt ds (o.pos b) = e.1 := by
    intro e he b hb
    have hbl : b ∈ l := hperm.mem_iff.1 (hmem h' he hb)
    obtain ⟨e', he', hbe'⟩ : ∃ e' ∈ ds, b ∈ e'.2 := by
      rw [← h.division.flatten] at hbl
      obtain ⟨run, hrun, hbrun⟩ := mem_flatten.1 hbl
      obtain ⟨e', he', rfl⟩ := mem_map.1 hrun
      exact ⟨e', he', hbrun⟩
    obtain ⟨M, hM, -⟩ := h.reaches he' hbe'
    obtain ⟨M', hM', -⟩ := h'.reaches he hb
    rw [hM.valueAt_eq, (halike b hbl M M' hM hM').1, ← hM'.valueAt_eq]
    exact h'.valueAt_eq hdesc he hb
  -- Both arrangements distribute the same labels, and the descending one nothing beyond.
  have hzero : (ds.map fun e => (e.2.map fun b => o.weight b *
      (e.1 - o.valueAt ds (o.pos b))).sum).sum = 0 := by
    rw [sum_values fun e he => (h.division.runs e he).balanced, h.division.flatten,
      ← (hperm.map _).sum_eq, ← h'.division.flatten,
      ← sum_values fun e he => (h'.division.runs e he).balanced]
    refine sum_eq_zero fun y hy => ?_
    obtain ⟨e, he, rfl⟩ := mem_map.1 hy
    refine sum_eq_zero fun y hy => ?_
    obtain ⟨b, hb, rfl⟩ := mem_map.1 hy
    rw [hsame e he b hb, sub_self, mul_zero]
  have hterm : ∀ e ∈ ds, ∀ b ∈ e.2, 0 ≤ o.weight b * (e.1 - o.valueAt ds (o.pos b)) :=
    fun e he b hb => mul_nonneg (h.positive b (hmem h he hb)).le
      (sub_nonneg.2 (h.valueAt_le he hb))
  have hrun : (d.2.map fun b => o.weight b * (d.1 - o.valueAt ds (o.pos b))).sum = 0 := by
    refine all_zero_of_le_zero_le_of_sum_eq_zero (fun y hy => ?_) hzero
      (mem_map_of_mem hd)
    obtain ⟨e, he, rfl⟩ := mem_map.1 hy
    refine sum_nonneg fun y hy => ?_
    obtain ⟨b, hb, rfl⟩ := mem_map.1 hy
    exact hterm e he b hb
  have hone : o.weight a * (d.1 - o.valueAt ds (o.pos a)) = 0 := by
    refine all_zero_of_le_zero_le_of_sum_eq_zero (fun y hy => ?_) hrun
      (mem_map_of_mem ha)
    obtain ⟨b, hb, rfl⟩ := mem_map.1 hy
    exact hterm d hd b hb
  rcases mul_eq_zero.1 hone with hw | hvalue
  · exact absurd hw (h.positive a (hmem h hd ha)).ne'
  · exact sub_eq_zero.1 hvalue

/-! ### Arrangements -/

/-- The observations sorted by position and label. -/
def ascend (o : Observations α K X) (l : List α) : List α :=
  l.insertionSort fun a b => o.pos a < o.pos b ∨ o.pos a = o.pos b ∧ o.label a ≤ o.label b

/-- The observations with their labels negated. -/
def negated (o : Observations α K X) : Observations α K X := { o with label := fun a => -o.label a }

omit [Inhabited X] [IsStrictOrderedRing K] [Field K] in
theorem perm_ascend (l : List α) : (o.ascend l).Perm l := perm_insertionSort _ _

omit [Inhabited X] [IsStrictOrderedRing K] [Field K] in
theorem ascending_ascend (l : List α) : o.Ascending (o.ascend l) := by
  have htotal : Std.Total fun a b =>
      o.pos a < o.pos b ∨ o.pos a = o.pos b ∧ o.label a ≤ o.label b := by
    refine ⟨fun a b => ?_⟩
    rcases lt_trichotomy (o.pos a) (o.pos b) with hlt | heq | hlt
    · exact .inl (.inl hlt)
    · rcases le_total (o.label a) (o.label b) with hle | hle
      · exact .inl (.inr ⟨heq, hle⟩)
      · exact .inr (.inr ⟨heq.symm, hle⟩)
    · exact .inr (.inl hlt)
  have htrans : IsTrans α fun a b =>
      o.pos a < o.pos b ∨ o.pos a = o.pos b ∧ o.label a ≤ o.label b := by
    refine ⟨fun a b c => ?_⟩
    rintro (hab | ⟨hab, hle⟩) (hbc | ⟨hbc, hle'⟩)
    · exact .inl (hab.trans hbc)
    · exact .inl (hab.trans_eq hbc)
    · exact .inl (hab.trans_lt hbc)
    · exact .inr ⟨hab.trans hbc, hle.trans hle'⟩
  exact pairwise_insertionSort _ _

omit [Inhabited X] [IsStrictOrderedRing K] [Field K] in
theorem Ascending.sorted (h : o.Ascending l) : l.Pairwise fun a b => o.pos a ≤ o.pos b := by
  refine h.imp fun hab => ?_
  rcases hab with hlt | ⟨heq, -⟩
  · exact hlt.le
  · exact heq.le

omit [Inhabited X] in
theorem exists_sortedDivision (hsorted : l.Pairwise fun a b => o.pos a ≤ o.pos b)
    (hpos : o.Positive l) : ∃ ds, o.SortedDivision ds l := by
  obtain ⟨ds, hds, -⟩ := blocksOf_division hpos
  exact ⟨ds, hds, hsorted, hpos⟩

omit [LinearOrder X] [Inhabited X] [LinearOrder K] [IsStrictOrderedRing K] [Field K] in
theorem split_unique {P : α → Prop} {u v u' v' : List α} (h : u ++ v = u' ++ v')
    (hu : ∀ a ∈ u, P a) (hv : ∀ a ∈ v, ¬ P a) (hu' : ∀ a ∈ u', P a) (hv' : ∀ a ∈ v', ¬ P a) :
    u = u' ∧ v = v' := by
  rcases append_eq_append_iff.1 h with ⟨t, rfl, rfl⟩ | ⟨t, rfl, rfl⟩
  · cases t with
    | nil => exact ⟨(append_nil _).symm, rfl⟩
    | cons b t =>
      exact absurd (hu' b (mem_append_right _ mem_cons_self))
        (hv b (mem_append_left _ mem_cons_self))
  · cases t with
    | nil => exact ⟨append_nil _, rfl⟩
    | cons b t =>
      exact absurd (hu b (mem_append_right _ mem_cons_self))
        (hv' b (mem_append_left _ mem_cons_self))

omit [Inhabited X] [LinearOrder K] [IsStrictOrderedRing K] [Field K] in
theorem exists_split {P : X → Prop} (hP : ∀ x y, x ≤ y → P y → P x)
    (hsorted : l.Pairwise fun a b => o.pos a ≤ o.pos b) :
    ∃ u v, l = u ++ v ∧ (∀ a ∈ u, P (o.pos a)) ∧ ∀ a ∈ v, ¬ P (o.pos a) := by
  induction l with
  | nil => exact ⟨[], [], rfl, nofun, nofun⟩
  | cons b l ih =>
    obtain ⟨hb, hl⟩ := pairwise_cons.1 hsorted
    by_cases hPb : P (o.pos b)
    · obtain ⟨u, v, rfl, hu, hv⟩ := ih hl
      refine ⟨b :: u, v, rfl, fun a ha => ?_, hv⟩
      rcases mem_cons.1 ha with rfl | ha
      · exact hPb
      · exact hu a ha
    · refine ⟨[], b :: l, rfl, nofun, fun a ha hPa => hPb ?_⟩
      rcases mem_cons.1 ha with rfl | ha
      · exact hPa
      · exact hP _ _ (hb a ha) hPa

/-! ### A position reversed -/

theorem SortedDivision.cut {pre G post : List α} (h : o.SortedDivision ds (pre ++ (G ++ post)))
    (hpre : ∀ a ∈ pre, o.pos a < x) (hG : ∀ a ∈ G, o.pos a = x) (hpost : ∀ a ∈ post, x < o.pos a)
    (hdesc : ∀ a b, [a, b].Sublist (pre ++ (G ++ post)) → o.pos a = x → o.pos b = x →
      o.label b ≤ o.label a)
    (hM : o.Reaches ds x M) (hstart : o.startOf M.2 ≤ x) (hends : o.EndsAt x M) :
    (∀ s p, pre = s ++ p → o.excess M.1 p ≤ 0) ∧
        (∀ q t, post = q ++ t → 0 ≤ o.excess M.1 (G ++ q)) ∨
      (∀ s p, pre = s ++ p → o.excess M.1 (p ++ G) ≤ 0) ∧
        ∀ q t, post = q ++ t → 0 ≤ o.excess M.1 q := by
  obtain ⟨S, S', rfl, hS, hMstop⟩ := hM
  obtain ⟨hl, hrun, hle, hle', -, hbetween, hafter⟩ := h.split
  have hruns := h.division.runs
  have hbefore : ∀ a ∈ (S.map Prod.snd).flatten, o.pos a < x := by
    intro a ha
    obtain ⟨run, hrun', ha⟩ := mem_flatten.1 ha
    obtain ⟨d, hd, rfl⟩ := mem_map.1 hrun'
    obtain ⟨E, F, hEF⟩ := append_of_mem hd
    rw [hEF, append_assoc] at h
    exact (h.split.2.2.2.2.2.1 a ha).2.trans_lt (hS d hd)
  have hpositive := h.positive
  by_cases hMstart : o.startOf M.2 = x
  · -- The run starts at the position: the row is cut before it.
    have hsplit := split_unique (P := fun a => o.pos a < x) hl.symm hbefore
      (fun a ha => ?_) hpre fun a ha => ?_
    · refine .inl ⟨fun s p hp => ?_, fun q t hq => ?_⟩
      · rw [hp] at hpositive
        exact excess_suffix_nonpos (fun d hd => hruns d (mem_append_left _ hd)) hle
          hpositive.left (hsplit.1.trans hp)
      · rw [hq] at hpositive
        have hrest : ((M :: S').map Prod.snd).flatten = (G ++ q) ++ t := by
          rw [map_cons, flatten_cons, hsplit.2, hq, append_assoc]
        refine excess_prefix_nonneg (fun d hd => hruns d (mem_append_right _ hd))
          (fun d hd => ?_) (by simpa using hpositive.right) hrest
        rcases mem_cons.1 hd with rfl | hd
        · exact le_rfl
        · exact hle' d hd
    · rcases mem_append.1 ha with ha | ha
      · exact not_lt.2 (hMstart.ge.trans (hbetween a ha).1)
      · exact not_lt.2 (hMstop.trans (hafter a ha))
    · rcases mem_append.1 ha with ha | ha
      · exact not_lt.2 (hG a ha).ge
      · exact not_lt.2 (hpost a ha).le
  · -- The run stops at the position, and no later one starts there: the row is cut after it.
    have hMstop' : o.stopOf M.2 = x := hends.resolve_left hMstart
    have hlater : ∀ a ∈ (S'.map Prod.snd).flatten, x < o.pos a := by
      intro a ha
      refine lt_of_le_of_ne (hMstop.trans (hafter a ha)) fun heq => hMstart ?_
      obtain ⟨run, hrun', haN⟩ := mem_flatten.1 ha
      obtain ⟨N, hN, rfl⟩ := mem_map.1 hrun'
      have hNmem : N ∈ S ++ M :: S' := mem_append_right _ (mem_cons_of_mem _ hN)
      have hNne := (hruns N hNmem).ne_nil
      obtain ⟨⟨b, hb, hbstart⟩, -⟩ := ends_mem (o := o) hNne
      have hNstart : o.startOf N.2 = x := by
        obtain ⟨E, F, hEF⟩ := append_of_mem hNmem
        rw [hEF] at h
        have hfirst : o.startOf N.2 ≤ o.pos a := (h.split.2.2.2.2.2.1 a haN).1
        refine le_antisymm (hfirst.trans heq.ge) ?_
        rw [← hbstart]
        exact hMstop.trans (hafter b (mem_flatten_of_mem (mem_map_of_mem hN) hb))
      exact (h.shared hN hdesc hMstop' hNstart).2
    have hl' : ((S.map Prod.snd).flatten ++ M.2) ++ (S'.map Prod.snd).flatten =
        (pre ++ G) ++ post := by
      rw [append_assoc, append_assoc, ← hl]
    have hsplit := split_unique (P := fun a => o.pos a ≤ x) hl' (fun a ha => ?_)
      (fun a ha => not_le.2 (hlater a ha)) (fun a ha => ?_) fun a ha => not_le.2 (hpost a ha)
    · refine .inr ⟨fun s p hp => ?_, fun q t hq => ?_⟩
      · rw [hp] at hpositive
        have hfirst : ((S ++ [M]).map Prod.snd).flatten = s ++ (p ++ G) := by
          rw [map_append, flatten_append, map_singleton, flatten_singleton,
            hsplit.1, hp, append_assoc]
        refine excess_suffix_nonpos (fun d hd => hruns d ?_) (fun d hd => ?_) ?_ hfirst
        · rcases mem_append.1 hd with hd | hd
          · exact mem_append_left _ hd
          · rw [mem_singleton.1 hd]
            exact mem_append_right _ mem_cons_self
        · rcases mem_append.1 hd with hd | hd
          · exact hle d hd
          · rw [mem_singleton.1 hd]
        · refine Positive.left (s := post) ?_
          simpa using hpositive
      · rw [hq] at hpositive
        exact excess_prefix_nonneg
          (fun d hd => hruns d (mem_append_right _ (mem_cons_of_mem _ hd))) hle'
          hpositive.right.right (hsplit.2.trans hq)
    · rcases mem_append.1 ha with ha | ha
      · exact (hbefore a ha).le
      · exact (hbetween a ha).2.trans hMstop'.le
    · rcases mem_append.1 ha with ha | ha
      · exact (hpre a ha).le
      · exact (hG a ha).le

omit [Inhabited X] [LinearOrder K] [IsStrictOrderedRing K] [Field K] in
theorem sublist_middle {pre G post : List α} {b : α} (hpre : ∀ a ∈ pre, o.pos a < x)
    (hpost : ∀ a ∈ post, x < o.pos a) (h : [a, b].Sublist (pre ++ (G ++ post)))
    (ha : o.pos a = x) (hb : o.pos b = x) : [a, b].Sublist G := by
  have hfilter := h.filter fun c => o.pos c = x
  have hnone : ∀ l : List α, (∀ c ∈ l, o.pos c ≠ x) → l.filter (fun c => o.pos c = x) = [] := by
    intro l hl
    rw [filter_eq_nil_iff]
    intro c hc
    simpa using hl c hc
  rw [filter_append, filter_append, hnone pre fun c hc => (hpre c hc).ne,
    hnone post fun c hc => (hpost c hc).ne', nil_append, append_nil] at hfilter
  rw [filter_eq_self.2 (by simp [ha, hb])] at hfilter
  exact hfilter.trans filter_sublist

/-- **A run that begins before a position and one that ends after it do not share the position**, if
the arrangement with this position reversed looks alike. -/
theorem SortedDivision.not_across {E : K × List α} {S₁ S₂ S₃ : List (K × List α)}
    (h : o.SortedDivision (S₁ ++ d :: (S₂ ++ E :: S₃)) l) (hasc : o.Ascending l)
    (halike : ∀ l' ds', l'.Perm l → o.SortedDivision ds' l' → ∀ a ∈ l,
      o.Alike (S₁ ++ d :: (S₂ ++ E :: S₃)) ds' (o.pos a))
    (hvalue : d.1 = E.1) (hd : o.stopOf d.2 = x) (hE : o.startOf E.2 = x) :
    ¬ (o.startOf d.2 < x ∧ x < o.stopOf E.2) := by
  rintro ⟨hdstart, hEstop⟩
  obtain ⟨hl, hrun, -, hle, hbefore, hbetween, hafter⟩ := h.split
  have h' := h
  rw [show S₁ ++ d :: (S₂ ++ E :: S₃) = (S₁ ++ d :: S₂) ++ E :: S₃ by simp] at h'
  obtain ⟨-, hrunE, hleE, -, hbeforeE, hbetweenE, hafterE⟩ := h'.split
  -- What of the first run lies before the position, what of the second one after it.
  have hsorted := h.sorted
  rw [hl] at hsorted
  obtain ⟨-, hsorted', -⟩ := pairwise_append.1 hsorted
  obtain ⟨hdsorted, hrestsorted, -⟩ := pairwise_append.1 hsorted'
  have hEsorted : E.2.Pairwise fun a b => o.pos a ≤ o.pos b := by
    rw [map_append, flatten_append, map_cons, flatten_cons] at hrestsorted
    exact (pairwise_append.1 (pairwise_append.1 hrestsorted).2.1).1
  obtain ⟨p, g, hpg, hp, hg⟩ := exists_split (P := fun y => y < x)
    (fun y z hyz hz => hyz.trans_lt hz) hdsorted
  obtain ⟨g', q, hgq, hg', hq⟩ := exists_split (P := fun y => y ≤ x)
    (fun y z hyz hz => hyz.trans hz) hEsorted
  have hg_eq : ∀ a ∈ g, o.pos a = x := fun a ha => le_antisymm
    ((hbetween a (hpg ▸ mem_append_right _ ha)).2.trans hd.le) (not_lt.1 (hg a ha))
  have hg'_eq : ∀ a ∈ g', o.pos a = x := fun a ha => le_antisymm (hg' a ha)
    (hE.ge.trans (hbetweenE a (hgq ▸ mem_append_left _ ha)).1)
  have hmid_eq : ∀ a ∈ (S₂.map Prod.snd).flatten, o.pos a = x := by
    intro a ha
    refine le_antisymm ((hbeforeE a ?_).trans hE.le) (hd.ge.trans (hafter a ?_))
    · rw [map_append, flatten_append, map_cons, flatten_cons]
      exact mem_append_right _ (mem_append_right _ ha)
    · rw [map_append, flatten_append]
      exact mem_append_left _ ha
  obtain ⟨⟨first, hfirst, hfirsteq⟩, last, hlast, hlasteq⟩ := ends_mem (o := o) hrun.ne_nil
  obtain ⟨-, lastE, hlastE, hlastEeq⟩ := ends_mem (o := o) hrunE.ne_nil
  have hpne : p ≠ [] := by
    rintro rfl
    rw [hpg, nil_append] at hfirst
    exact hdstart.ne (hfirsteq.symm.trans (hg_eq first hfirst))
  have hgne : g ≠ [] := by
    rintro rfl
    rw [hpg, append_nil] at hlast
    exact (hp last hlast).ne (hlasteq.trans hd)
  have hqne : q ≠ [] := by
    rintro rfl
    rw [hgq, append_nil] at hlastE
    exact hEstop.ne ((hg'_eq lastE hlastE).symm.trans hlastEeq)
  have hg'ne : g' ≠ [] := by
    rintro rfl
    obtain ⟨⟨firstE, hfirstE, hfirstEeq⟩, -⟩ := ends_mem (o := o) hrunE.ne_nil
    rw [hgq, nil_append] at hfirstE
    exact hq firstE hfirstE (hfirstEeq.trans hE).le
  -- The observations at the position, and the arrangement that reverses them.
  have hsplit : l = ((S₁.map Prod.snd).flatten ++ p) ++
      ((g ++ (S₂.map Prod.snd).flatten ++ g') ++ (q ++ (S₃.map Prod.snd).flatten)) := by
    rw [hl, hpg, map_append, flatten_append, map_cons, flatten_cons, hgq]
    simp only [append_assoc]
  obtain ⟨pre, hpredef⟩ : ∃ pre, pre = (S₁.map Prod.snd).flatten ++ p := ⟨_, rfl⟩
  obtain ⟨G, hGdef⟩ : ∃ G, G = g ++ (S₂.map Prod.snd).flatten ++ g' := ⟨_, rfl⟩
  obtain ⟨post, hpostdef⟩ : ∃ post, post = q ++ (S₃.map Prod.snd).flatten := ⟨_, rfl⟩
  rw [← hpredef, ← hGdef, ← hpostdef] at hsplit
  have hpre : ∀ a ∈ pre, o.pos a < x := by
    intro a ha
    rw [hpredef] at ha
    rcases mem_append.1 ha with ha | ha
    · exact (hbefore a ha).trans_lt hdstart
    · exact hp a ha
  have hG : ∀ a ∈ G, o.pos a = x := by
    intro a ha
    rw [hGdef] at ha
    rcases mem_append.1 ha with ha | ha
    · rcases mem_append.1 ha with ha | ha
      · exact hg_eq a ha
      · exact hmid_eq a ha
    · exact hg'_eq a ha
  have hpost : ∀ a ∈ post, x < o.pos a := by
    intro a ha
    rw [hpostdef] at ha
    rcases mem_append.1 ha with ha | ha
    · exact not_le.1 (hq a ha)
    · exact hEstop.trans_le (hafterE a ha)
  have hperm : (pre ++ (G.reverse ++ post)).Perm l := by
    rw [hsplit]
    exact (G.reverse_perm.append_right post).append_left pre
  have hlsorted := h.sorted
  rw [hsplit] at hlsorted
  have hsorted_rev : (pre ++ (G.reverse ++ post)).Pairwise fun a b => o.pos a ≤ o.pos b := by
    obtain ⟨h₁, h₂, -⟩ := pairwise_append.1 hlsorted
    obtain ⟨-, h₃, -⟩ := pairwise_append.1 h₂
    have hGle : ∀ a ∈ G.reverse, o.pos a = x := fun a ha => hG a (mem_reverse.1 ha)
    refine pairwise_append.2 ⟨h₁, pairwise_append.2 ⟨?_, h₃, ?_⟩, ?_⟩
    · exact List.Pairwise.imp_of_mem (fun ha hb _ => ((hGle _ ha).trans (hGle _ hb).symm).le)
        (pairwise_of_forall fun _ _ => trivial)
    · exact fun a ha b hb => (hGle a ha).le.trans (hpost b hb).le
    · intro a ha b hb
      rcases mem_append.1 hb with hb | hb
      · exact (hpre a ha).le.trans (hGle b hb).ge
      · exact (hpre a ha).le.trans (hpost b hb).le
  have hpos_rev : o.Positive (pre ++ (G.reverse ++ post)) :=
    fun a ha => h.positive a (hperm.mem_iff.1 ha)
  obtain ⟨ds', hds'⟩ := exists_sortedDivision hsorted_rev hpos_rev
  have hdesc : ∀ a b, [a, b].Sublist (pre ++ (G.reverse ++ post)) → o.pos a = x → o.pos b = x →
      o.label b ≤ o.label a := by
    intro a b hab ha hb
    have hrev := (sublist_middle hpre hpost hab ha hb).reverse
    rw [reverse_reverse] at hrev
    have hsub : [b, a].Sublist l := by
      rw [hsplit]
      exact (hrev.trans (sublist_append_left G post)).trans (sublist_append_right pre _)
    rcases pairwise_iff_forall_sublist.1 hasc hsub with hlt | ⟨-, hle'⟩
    · exact absurd hlt (not_lt.2 (ha.trans hb.symm).le)
    · exact hle'
  -- The first run ends at the position, so one of the other arrangement does.
  have hlastl : last ∈ l := by
    rw [hl]
    exact mem_append_right _ (mem_append_left _ hlast)
  have hlastx : o.pos last = x := hlasteq.trans hd
  have hlast' : last ∈ (ds'.map Prod.snd).flatten := by
    rw [hds'.division.flatten]
    exact hperm.mem_iff.2 hlastl
  obtain ⟨run, hrun', hlastrun⟩ := mem_flatten.1 hlast'
  obtain ⟨d', hd', rfl⟩ := mem_map.1 hrun'
  obtain ⟨M, hM, hMstart, -⟩ := hds'.reaches hd' hlastrun
  rw [hlastx] at hM hMstart
  have hreach : o.Reaches (S₁ ++ d :: (S₂ ++ E :: S₃)) x d := by
    refine ⟨S₁, S₂ ++ E :: S₃, rfl, fun s hs => ?_, hd.ge⟩
    have hsne := (h.division.runs s (mem_append_left _ hs)).ne_nil
    obtain ⟨-, b, hb, hbstop⟩ := ends_mem (o := o) hsne
    rw [← hbstop]
    exact (hbefore b (mem_flatten_of_mem (mem_map_of_mem hs) hb)).trans_lt hdstart
  have hsee := halike _ ds' hperm hds' last hlastl
  rw [hlastx] at hsee
  have hends : o.EndsAt x M := (hsee d M hreach hM).2.1 (.inr hd)
  -- The excesses over the common value of the two runs.
  have hexp : 0 < o.excess d.1 p := by
    rw [hpg] at hrun
    exact hrun.above p g hpne hgne rfl
  have hexq : o.excess d.1 q < 0 := by
    rw [hgq] at hrunE
    rw [hvalue]
    exact hrunE.excess_suffix_neg hg'ne hqne
  have hexmid : o.excess d.1 (S₂.map Prod.snd).flatten = 0 := by
    have hmid : ∀ c ∈ S₂, d.1 = c.1 := fun c hc =>
      le_antisymm (hle c (mem_append_left _ hc))
        ((hleE c (mem_append_right _ (mem_cons_of_mem _ hc))).trans hvalue.ge)
    have hruns : ∀ c ∈ S₂, o.excess d.1 c.2 = 0 := by
      intro c hc
      rw [hmid c hc]
      exact (h.division.runs c (mem_append_right _ (mem_cons_of_mem _
        (mem_append_left _ hc)))).balanced
    clear hmid hmid_eq hGdef hsplit hl hle hleE hrestsorted hbeforeE hreach hsee halike h h' hafter
      hsorted hsorted'
    induction S₂ with
    | nil => rfl
    | cons c S₂ ih =>
      rw [map_cons, flatten_cons, excess_append, hruns c mem_cons_self, zero_add]
      exact ih fun e he => hruns e (mem_cons_of_mem _ he)
  have hexall : o.excess d.1 p + o.excess d.1 G + o.excess d.1 q = 0 := by
    have hd0 := hrun.balanced
    have hE0 := hrunE.balanced
    rw [hpg, excess_append] at hd0
    rw [← hvalue, hgq, excess_append] at hE0
    rw [hGdef, excess_append, excess_append, hexmid]
    linarith
  have hposG : o.Positive G.reverse := hpos_rev.right.left
  have hpospre : o.Positive pre := hpos_rev.left
  have hpospost : o.Positive post := hpos_rev.right.right
  rw [hpredef] at hpospre
  rw [hpostdef] at hpospost
  have hrevG : ∀ m, o.excess m G.reverse = o.excess m G := fun m => o.excess_perm G.reverse_perm m
  rcases hds'.cut hpre (fun a ha => hG a (mem_reverse.1 ha)) hpost hdesc hM hMstart hends with
    ⟨hcut, hcut'⟩ | ⟨hcut, hcut'⟩
  · have hcutp := hcut _ p hpredef
    have hcutG := hcut' q _ hpostdef
    rcases le_or_gt d.1 M.1 with hge | hlt
    · have hdown : o.excess M.1 (G.reverse ++ q) ≤ o.excess d.1 (G.reverse ++ q) :=
        Positive.excess_le (fun a ha => (mem_append.1 ha).elim (hposG a)
          (hpospost.left a)) hge
      rw [excess_append o d.1, hrevG] at hdown
      linarith
    · have hup := hpospre.right.excess_le hlt.le
      linarith
  · have hcutG := hcut _ p hpredef
    have hcutq := hcut' q _ hpostdef
    rcases le_or_gt d.1 M.1 with hge | hlt
    · have hdown := hpospost.left.excess_le hge
      linarith
    · have hup : o.excess d.1 (p ++ G.reverse) ≤ o.excess M.1 (p ++ G.reverse) :=
        Positive.excess_le (fun a ha => (mem_append.1 ha).elim (hpospre.right a)
          (hposG a)) hlt.le
      rw [excess_append o d.1, hrevG] at hup
      linarith

/-- **If all arrangements look alike, then the runs of the ascending one are compatible.** -/
theorem SortedDivision.compatible_of_alike (h : o.SortedDivision ds l) (hasc : o.Ascending l)
    (halike : ∀ l' ds', l'.Perm l → o.SortedDivision ds' l' → ∀ a ∈ l, o.Alike ds ds' (o.pos a)) :
    (o.spans ds).Pairwise Compatible := by
  refine pairwise_map.2 (pairwise_iff_forall_sublist.2 fun {d E} hsub hshare => ?_)
  obtain ⟨r₁, r₂, rfl, hd, hE⟩ := cons_sublist_iff.1 hsub
  obtain ⟨S₁, B, rfl⟩ := append_of_mem hd
  obtain ⟨C, S₃, rfl⟩ := append_of_mem (singleton_sublist.1 hE)
  have hds : (S₁ ++ d :: B) ++ (C ++ E :: S₃) = S₁ ++ d :: ((B ++ C) ++ E :: S₃) := by simp
  rw [hds] at h halike
  have hdmem : d ∈ S₁ ++ d :: ((B ++ C) ++ E :: S₃) :=
    mem_append_right _ mem_cons_self
  have hEmem : E ∈ S₁ ++ d :: ((B ++ C) ++ E :: S₃) :=
    mem_append_right _ (mem_cons_of_mem _ (mem_append_right _ mem_cons_self))
  have hshare' : o.stopOf d.2 = o.startOf E.2 := hshare
  obtain ⟨-, u, hu, hustop⟩ := ends_mem (o := o) (h.division.runs d hdmem).ne_nil
  obtain ⟨⟨v, hv, hvstart⟩, -⟩ := ends_mem (o := o) (h.division.runs E hEmem).ne_nil
  -- The descending arrangement gives both runs the value of the position.
  have hdown := ascending_ascend (o := o.negated) l
  have hperm : (o.negated.ascend l).Perm l := perm_ascend l
  obtain ⟨ds', hds'⟩ := exists_sortedDivision (o := o) hdown.sorted
    fun a ha => h.positive a (hperm.mem_iff.1 ha)
  have hdesc : ∀ a b, [a, b].Sublist (o.negated.ascend l) → o.pos a = o.pos b →
      o.label b ≤ o.label a := by
    intro a b hab hpos
    rcases pairwise_iff_forall_sublist.1 hdown hab with hlt | ⟨-, hle⟩
    · exact absurd hlt (not_lt.2 hpos.ge)
    · exact neg_le_neg_iff.1 hle
  have hvalues : ∀ c ∈ S₁ ++ d :: ((B ++ C) ++ E :: S₃), ∀ a ∈ c.2,
      c.1 = o.valueAt (S₁ ++ d :: ((B ++ C) ++ E :: S₃)) (o.pos a) := fun c hc a ha =>
    h.value_unique hds' hperm hdesc (halike _ ds' hperm hds') hc ha
  have hvalue : d.1 = E.1 := by
    rw [hvalues d hdmem u hu, hvalues E hEmem v hv, hustop, hvstart, hshare']
  refine ⟨hvalue, ?_⟩
  by_contra hnot
  rw [not_or] at hnot
  have hdle : o.startOf d.2 ≤ o.stopOf d.2 := by
    rw [← hustop]
    exact (h.split.2.2.2.2.2.1 u hu).1
  have hEle : o.startOf E.2 ≤ o.stopOf E.2 := by
    rw [← hvstart]
    have h' := h
    rw [show S₁ ++ d :: ((B ++ C) ++ E :: S₃) = (S₁ ++ d :: (B ++ C)) ++ E :: S₃ by simp] at h'
    exact (h'.split.2.2.2.2.2.1 v hv).2
  refine h.not_across hasc halike hvalue rfl hshare'.symm ⟨lt_of_le_of_ne hdle hnot.1, ?_⟩
  rw [hshare']
  exact lt_of_le_of_ne hEle hnot.2

end Omniscience.Observations
