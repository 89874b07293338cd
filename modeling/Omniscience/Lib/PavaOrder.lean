import Omniscience.Lib.Pava

/-!
# The order of observations at one position

Observations at one position may come in any order, and the division depends on it.  The spans of a
division, the first and the last position of every run with its value, are what is seen of it.

Two neighbours at one position with labels that do not decrease are exchanged (`Exchange`).  Every
arrangement by position is reached by such exchanges from the one sorted by position and label
(`exchanges_of_perm`).  If runs that share a position are compatible (`Compatible`), an exchange
changes the spans at most in that two of them are united that meet in an end (`Division.exchange`).
-/

namespace Omniscience.Observations

open Relation List OrderedField

variable {α K X : Type*}

/-! ### Spans -/

/-- What is seen of a run: its first and its last position, and its value. -/
structure Span (K X : Type*) where
  start : X
  stop : X
  value : K

/-- Two runs, the earlier one first: if they share a position, they have one value, and the earlier
one starts there or the later one stops there. -/
def Compatible (b c : Span K X) : Prop :=
  b.stop = c.start → b.value = c.value ∧ (b.start = b.stop ∨ c.start = c.stop)

/-- Two spans that meet in an end of one of them are united. -/
def United (S T : List (Span K X)) : Prop :=
  ∃ S₁ S₂ a x b m, (a = x ∨ x = b) ∧ S = S₁ ++ ⟨a, x, m⟩ :: ⟨x, b, m⟩ :: S₂ ∧
    T = S₁ ++ ⟨a, b, m⟩ :: S₂

theorem United.compatible {S T : List (Span K X)} (h : United S T)
    (hS : S.Pairwise Compatible) : T.Pairwise Compatible := by
  obtain ⟨S₁, S₂, a, x, b, m, -, rfl, rfl⟩ := h
  obtain ⟨hS₁, hrest, hcross⟩ := pairwise_append.1 hS
  obtain ⟨hL, hrest'⟩ := pairwise_cons.1 hrest
  obtain ⟨hR, hS₂⟩ := pairwise_cons.1 hrest'
  have hLR : Compatible (⟨a, x, m⟩ : Span K X) ⟨x, b, m⟩ := hL _ mem_cons_self
  refine pairwise_append.2 ⟨hS₁, pairwise_cons.2 ⟨fun z hz hshare => ?_, hS₂⟩, ?_⟩
  · -- A later span that starts where the second one stops.
    obtain ⟨hvalue, hends⟩ := hR z hz hshare
    refine ⟨hvalue, ?_⟩
    rcases hends with hxb | hz'
    · have hshare' : x = z.start := (show x = b from hxb).trans hshare
      rcases (hL z (mem_cons_of_mem _ hz) hshare').2 with hax | hz'
      · exact .inl ((show a = x from hax).trans hxb)
      · exact .inr hz'
    · exact .inr hz'
  · intro y hy z hz
    rcases mem_cons.1 hz with rfl | hz
    · -- An earlier span that stops where the first one starts.
      intro hshare
      obtain ⟨hvalue, hends⟩ := hcross y hy ⟨a, x, m⟩ mem_cons_self hshare
      refine ⟨hvalue, ?_⟩
      rcases hends with hy' | hax
      · exact .inl hy'
      · have hshare' : y.stop = x := hshare.trans hax
        rcases (hcross y hy ⟨x, b, m⟩ (mem_cons_of_mem _ mem_cons_self) hshare').2 with hy' | hxb
        · exact .inl hy'
        · exact .inr ((show a = x from hax).trans hxb)
    · exact hcross y hy z (mem_cons_of_mem _ (mem_cons_of_mem _ hz))

variable [Inhabited X] (o : Observations α K X)

/-- The first position of some observations. -/
def startOf (l : List α) : X := (l.head?.map o.pos).getD default

/-- The last position of some observations. -/
def stopOf (l : List α) : X := (l.getLast?.map o.pos).getD default

/-- The span of a run. -/
def spanOf (d : K × List α) : Span K X := ⟨o.startOf d.2, o.stopOf d.2, d.1⟩

/-- The spans of a division. -/
def spans (ds : List (K × List α)) : List (Span K X) := ds.map o.spanOf

variable {o} {ds : List (K × List α)} {l l' l₁ l₂ p q : List α} {m m' : K} {r s : α}

@[simp] theorem startOf_cons (a : α) (l : List α) : o.startOf (a :: l) = o.pos a := rfl

@[simp] theorem stopOf_concat (l : List α) (a : α) : o.stopOf (l ++ [a]) = o.pos a := by
  rw [stopOf, List.getLast?_concat]
  rfl

theorem stopOf_append (p : List α) {q : List α} (hq : q ≠ []) : o.stopOf (p ++ q) = o.stopOf q := by
  rw [stopOf, stopOf, List.getLast?_append_of_ne_nil _ hq]

theorem ends_exchange (hpos : o.pos r = o.pos s) :
    o.startOf (p ++ s :: r :: q) = o.startOf (p ++ r :: s :: q) ∧
      o.stopOf (p ++ s :: r :: q) = o.stopOf (p ++ r :: s :: q) := by
  constructor
  · cases p with
    | nil => exact hpos.symm
    | cons a p => rfl
  · rcases eq_nil_or_concat q with rfl | ⟨init, a, rfl⟩
    · rw [show p ++ [s, r] = (p ++ [s]) ++ [r] by simp, show p ++ [r, s] = (p ++ [r]) ++ [s] by simp,
        stopOf_concat, stopOf_concat, hpos]
    · rw [concat_eq_append,
        show p ++ s :: r :: (init ++ [a]) = (p ++ s :: r :: init) ++ [a] by simp,
        show p ++ r :: s :: (init ++ [a]) = (p ++ r :: s :: init) ++ [a] by simp,
        stopOf_concat, stopOf_concat]

omit [Inhabited X] in
theorem exists_runs (hne : ∀ d ∈ ds, d.2 ≠ [])
    (h : (ds.map Prod.snd).flatten = l₁ ++ r :: s :: l₂) :
    (∃ D₁ D₂ m p q, ds = D₁ ++ (m, p ++ r :: s :: q) :: D₂ ∧
      l₁ = (D₁.map Prod.snd).flatten ++ p ∧ l₂ = q ++ (D₂.map Prod.snd).flatten) ∨
    ∃ D₁ D₂ m m' p q, ds = D₁ ++ (m, p ++ [r]) :: (m', s :: q) :: D₂ ∧
      l₁ = (D₁.map Prod.snd).flatten ++ p ∧ l₂ = q ++ (D₂.map Prod.snd).flatten := by
  induction ds generalizing l₁ with
  | nil => simp at h
  | cons d ds ih =>
    rw [map_cons, flatten_cons] at h
    have hne' : ∀ e ∈ ds, e.2 ≠ [] := fun e he => hne e (mem_cons_of_mem _ he)
    have hlater : ∀ t, l₁ = d.2 ++ t → (ds.map Prod.snd).flatten = t ++ r :: s :: l₂ →
        (∃ D₁ D₂ m p q, d :: ds = D₁ ++ (m, p ++ r :: s :: q) :: D₂ ∧
          l₁ = (D₁.map Prod.snd).flatten ++ p ∧ l₂ = q ++ (D₂.map Prod.snd).flatten) ∨
        ∃ D₁ D₂ m m' p q, d :: ds = D₁ ++ (m, p ++ [r]) :: (m', s :: q) :: D₂ ∧
          l₁ = (D₁.map Prod.snd).flatten ++ p ∧ l₂ = q ++ (D₂.map Prod.snd).flatten := by
      rintro t rfl ht
      rcases ih hne' ht with ⟨D₁, D₂, m, p, q, rfl, rfl, rfl⟩ | ⟨D₁, D₂, m, m', p, q, rfl, rfl, rfl⟩
      · exact .inl ⟨d :: D₁, D₂, m, p, q, rfl, by simp, rfl⟩
      · exact .inr ⟨d :: D₁, D₂, m, m', p, q, rfl, by simp, rfl⟩
    rcases append_eq_append_iff.1 h with ⟨t, hl₁, ht⟩ | ⟨t, hd, ht⟩
    · exact hlater t hl₁ ht
    · match t with
      | [] =>
        rw [append_nil] at hd
        exact hlater [] (by rw [hd, append_nil]) ht.symm
      | [b] =>
        obtain ⟨rfl, hrest⟩ := List.cons.inj ht
        cases ds with
        | nil => simp at hrest
        | cons e ds =>
          rw [map_cons, flatten_cons] at hrest
          cases he : e.2 with
          | nil => exact absurd he (hne' e mem_cons_self)
          | cons c q =>
            rw [he] at hrest
            obtain ⟨rfl, hl₂⟩ := List.cons.inj hrest
            refine .inr ⟨[], ds, d.1, e.1, l₁, q, ?_, by simp, hl₂⟩
            rw [nil_append, ← hd, ← he]
      | b :: c :: q =>
        obtain ⟨rfl, hrest⟩ := List.cons.inj ht
        obtain ⟨rfl, hl₂⟩ := List.cons.inj hrest
        refine .inl ⟨[], ds, d.1, l₁, q, ?_, by simp, hl₂⟩
        rw [nil_append, ← hd]

/-! ### Exchanges -/

variable (o) [LinearOrder K]

/-- Two neighbours at one position with labels that do not decrease are exchanged. -/
def Exchange (l l' : List α) : Prop :=
  ∃ l₁ r s l₂, o.pos r = o.pos s ∧ o.label r ≤ o.label s ∧
    l = l₁ ++ r :: s :: l₂ ∧ l' = l₁ ++ s :: r :: l₂

/-- Sorted by position and label. -/
def Ascending (l : List α) [LinearOrder X] : Prop :=
  l.Pairwise fun a b => o.pos a < o.pos b ∨ o.pos a = o.pos b ∧ o.label a ≤ o.label b

variable {o}

omit [Inhabited X] in
theorem exchanges_cons (a : α) (h : ReflTransGen o.Exchange l l') :
    ReflTransGen o.Exchange (a :: l) (a :: l') := by
  refine h.lift (a :: ·) ?_
  rintro _ _ ⟨l₁, r, s, l₂, hpos, hle, rfl, rfl⟩
  exact ⟨a :: l₁, r, s, l₂, hpos, hle, rfl, rfl⟩

omit [Inhabited X] in
theorem exchanges_to_front (h : ∀ a ∈ p, o.pos a = o.pos r ∧ o.label a ≤ o.label r) :
    ReflTransGen o.Exchange (p ++ r :: q) (r :: (p ++ q)) := by
  induction p with
  | nil => exact ReflTransGen.refl
  | cons a p ih =>
    obtain ⟨hpos, hle⟩ := h a mem_cons_self
    have hmoved := exchanges_cons a (ih fun b hb => h b (mem_cons_of_mem _ hb))
    exact hmoved.tail ⟨[], a, r, p ++ q, hpos, hle, rfl, rfl⟩

omit [Inhabited X] in
/-- **Every arrangement by position is reached from the ascending one.** -/
theorem exchanges_of_perm [LinearOrder X] (hl : o.Ascending l)
    (hl' : l'.Pairwise fun a b => o.pos a ≤ o.pos b) (hperm : l.Perm l') :
    ReflTransGen o.Exchange l l' := by
  induction l' generalizing l with
  | nil => rw [hperm.eq_nil]
  | cons r l' ih =>
    obtain ⟨p, q, rfl⟩ := append_of_mem (hperm.mem_iff.2 mem_cons_self)
    obtain ⟨hfirst, hrest⟩ := pairwise_cons.1 hl'
    have hfront : ∀ a ∈ p, o.pos a = o.pos r ∧ o.label a ≤ o.label r := by
      intro a ha
      rcases (pairwise_append.1 hl).2.2 a ha r mem_cons_self with hlt | ⟨heq, hle⟩
      · have hmem : a ∈ r :: l' := hperm.mem_iff.1 (mem_append_left _ ha)
        rcases mem_cons.1 hmem with rfl | hmem
        · exact absurd hlt (lt_irrefl _)
        · exact absurd hlt (not_lt.2 (hfirst a hmem))
      · exact ⟨heq, hle⟩
    have hmiddle : (p ++ q).Perm l' := (perm_middle.symm.trans hperm).cons_inv
    have hsorted : o.Ascending (p ++ q) :=
      hl.sublist (List.Sublist.append_left (sublist_cons_self r q) p)
    exact (exchanges_to_front hfront).trans (exchanges_cons r (ih hsorted hrest hmiddle))

/-! ### One exchange -/

variable [Field K] [IsStrictOrderedRing K]

omit [Inhabited X] in
theorem Run.exchange (h : o.Run m (p ++ r :: s :: q)) (hpos : o.Positive (p ++ r :: s :: q))
    (hle : o.label r ≤ o.label s) : o.Run m (p ++ s :: r :: q) := by
  have hwr : 0 < o.weight r := hpos r (by simp)
  have hws : 0 < o.weight s := hpos s (by simp)
  have hfirst : 0 ≤ o.excess m p := h.excess_prefix_nonneg
  have hboth : 0 ≤ o.excess m (p ++ [r, s]) := by
    have hrun := h
    rw [show p ++ r :: s :: q = (p ++ [r, s]) ++ q by simp] at hrun
    exact hrun.excess_prefix_nonneg
  have hone : 0 < o.excess m (p ++ [r]) :=
    h.above (p ++ [r]) (s :: q) (by simp) (by simp) (by simp)
  simp only [excess_append, excess_cons, excess_nil, add_zero] at hboth hone
  have hmiddle : 0 < o.excess m p + o.weight s * (o.label s - m) := by
    rcases lt_trichotomy (o.label s) m with hlt | heq | hgt
    · have hdown : o.weight r * (o.label r - m) < 0 :=
        mul_neg_of_pos_of_neg hwr (sub_neg.2 (hle.trans_lt hlt))
      linarith
    · have hdown : o.weight r * (o.label r - m) ≤ 0 :=
        mul_nonpos_of_nonneg_of_nonpos hwr.le (sub_nonpos.2 (hle.trans heq.le))
      rw [heq, sub_self, mul_zero, add_zero]
      linarith
    · have hup : 0 < o.weight s * (o.label s - m) := mul_pos hws (sub_pos.2 hgt)
      linarith
  have hperm : (p ++ r :: s :: q).Perm (p ++ s :: r :: q) := (List.Perm.swap s r q).append_left p
  refine ⟨by simp, by rw [← o.excess_perm hperm, h.balanced], fun u v hu hv huv => ?_⟩
  rcases append_eq_append_iff.1 huv with ⟨t, rfl, ht⟩ | ⟨t, rfl, rfl⟩
  · match t with
    | [] =>
      rw [append_nil] at hu ⊢
      exact h.above p (r :: s :: q) hu (by simp) rfl
    | [b] =>
      obtain ⟨rfl, -⟩ := List.cons.inj ht
      simpa [excess_append] using hmiddle
    | b :: c :: t =>
      obtain ⟨rfl, hrest⟩ := List.cons.inj ht
      obtain ⟨rfl, rfl⟩ := List.cons.inj hrest
      have habove := h.above (p ++ r :: s :: t) v (by simp) hv (by simp)
      have hperm' : (p ++ r :: s :: t).Perm (p ++ s :: r :: t) :=
        (List.Perm.swap s r t).append_left p
      rwa [o.excess_perm hperm'] at habove
  · exact h.above u (t ++ r :: s :: q) hu (by simp) (by simp)

omit [Inhabited X] in
theorem Run.exchange_between (hr : o.Run m (p ++ [r])) (hs : o.Run m (s :: q))
    (hpos : o.Positive (p ++ r :: s :: q)) (hne : p ≠ [] ∨ q ≠ []) :
    o.Run m (p ++ s :: r :: q) := by
  have hws : 0 < o.weight s := hpos s (by simp)
  have hlast : o.excess m p + o.weight r * (o.label r - m) = 0 := by
    have hbalanced := hr.balanced
    rwa [excess_append, excess_cons, excess_nil, add_zero] at hbalanced
  have hfirst : o.weight s * (o.label s - m) + o.excess m q = 0 := hs.balanced
  have hp : 0 ≤ o.excess m p := hr.excess_prefix_nonneg
  have hp' : p ≠ [] → 0 < o.excess m p := fun h => hr.above p [r] h (by simp) rfl
  have hsingle : q ≠ [] → 0 < o.weight s * (o.label s - m) := by
    intro h
    have habove := hs.above [s] q (by simp) h rfl
    rwa [excess_cons, excess_nil, add_zero] at habove
  have hsingle' : 0 ≤ o.weight s * (o.label s - m) := by
    by_cases hq : q = []
    · rw [hq, excess_nil, add_zero] at hfirst
      exact hfirst.ge
    · exact (hsingle hq).le
  refine ⟨by simp, ?_, fun u v hu hv huv => ?_⟩
  · simp only [excess_append, excess_cons]
    linarith
  · rcases append_eq_append_iff.1 huv with ⟨t, rfl, ht⟩ | ⟨t, rfl, rfl⟩
    · match t with
      | [] =>
        rw [append_nil] at hu ⊢
        exact hp' hu
      | [b] =>
        obtain ⟨rfl, -⟩ := List.cons.inj ht
        simp only [excess_append, excess_cons, excess_nil, add_zero]
        rcases hne with h | h
        · have hpos' := hp' h
          linarith
        · have hpos' := hsingle h
          linarith
      | b :: c :: t =>
        obtain ⟨rfl, hrest⟩ := List.cons.inj ht
        obtain ⟨rfl, rfl⟩ := List.cons.inj hrest
        have habove := hs.above (s :: t) v (by simp) hv rfl
        simp only [excess_append, excess_cons] at habove ⊢
        linarith
    · exact hr.above u (t ++ [r]) hu (by simp) (by simp)

/-- **What an exchange does to a division** whose runs are compatible: the spans stay, or two of them
are united. -/
theorem Division.exchange (h : o.Division ds l) (hpos : o.Positive l)
    (hcompat : (o.spans ds).Pairwise Compatible) (hex : o.Exchange l l') :
    ∃ ds', o.Division ds' l' ∧ (o.spans ds' = o.spans ds ∨ United (o.spans ds) (o.spans ds')) := by
  obtain ⟨l₁, r, s, l₂, hx, hle, rfl, rfl⟩ := hex
  have hruns := h.runs
  have hsorted := pairwise_map.2 h.sorted
  rcases exists_runs (fun d hd => (h.runs d hd).ne_nil) h.flatten with
    ⟨D₁, D₂, m, p, q, rfl, rfl, rfl⟩ | ⟨D₁, D₂, m, m', p, q, rfl, rfl, rfl⟩
  · -- Both are in one run.
    have hrun : o.Run m (p ++ r :: s :: q) := hruns (m, p ++ r :: s :: q) (by simp)
    have hposrun : o.Positive (p ++ r :: s :: q) := fun a ha => hpos a (by
      simp only [mem_append, mem_cons] at ha ⊢
      tauto)
    refine ⟨D₁ ++ (m, p ++ s :: r :: q) :: D₂, ⟨by simp, fun d hd => ?_, ?_⟩, .inl ?_⟩
    · rcases mem_append.1 hd with hd | hd
      · exact hruns d (mem_append_left _ hd)
      · rcases mem_cons.1 hd with rfl | hd
        · exact hrun.exchange hposrun hle
        · exact hruns d (mem_append_right _ (mem_cons_of_mem _ hd))
    · refine pairwise_map.1 ?_
      rw [map_append, map_cons] at hsorted ⊢
      exact hsorted
    · obtain ⟨hstart, hstop⟩ : o.startOf (p ++ s :: r :: q) = _ ∧ _ := ends_exchange hx
      simp only [spans, map_append, map_cons, spanOf, hstart, hstop]
  · -- They are in two runs, which share the position.
    have hr : o.Run m (p ++ [r]) := hruns (m, p ++ [r]) (by simp)
    have hs : o.Run m' (s :: q) := hruns (m', s :: q) (by simp)
    have hposrun : o.Positive (p ++ r :: s :: q) := fun a ha => hpos a (by
      simp only [mem_append, mem_cons] at ha ⊢
      tauto)
    simp only [spans, map_append, map_cons] at hcompat
    have hpair : Compatible (o.spanOf (m, p ++ [r])) (o.spanOf (m', s :: q)) :=
      (pairwise_cons.1 (pairwise_append.1 hcompat).2.1).1 _ mem_cons_self
    have hstopr : o.stopOf (p ++ [r]) = o.pos r := stopOf_concat p r
    obtain ⟨hvalue, hends⟩ := hpair (hstopr.trans hx)
    obtain rfl : m = m' := hvalue
    by_cases hne : p ≠ [] ∨ q ≠ []
    · refine ⟨D₁ ++ (m, p ++ s :: r :: q) :: D₂, ⟨by simp, fun d hd => ?_, ?_⟩, .inr ?_⟩
      · rcases mem_append.1 hd with hd | hd
        · exact hruns d (mem_append_left _ hd)
        · rcases mem_cons.1 hd with rfl | hd
          · exact hr.exchange_between hs hposrun hne
          · exact hruns d (mem_append_right _ (mem_cons_of_mem _ (mem_cons_of_mem _ hd)))
      · refine pairwise_map.1 (hsorted.sublist ?_)
        simp only [map_append, map_cons]
        exact List.Sublist.append_left (sublist_cons_self _ _) _
      · have hstart : o.startOf (p ++ s :: r :: q) = o.startOf (p ++ [r]) := by
          rw [(ends_exchange hx).1]
          cases p <;> rfl
        have hstop : o.stopOf (p ++ s :: r :: q) = o.stopOf (s :: q) := by
          rw [(ends_exchange hx).2, show p ++ r :: s :: q = (p ++ [r]) ++ s :: q by simp]
          exact stopOf_append _ (by simp)
        refine ⟨o.spans D₁, o.spans D₂, o.startOf (p ++ [r]), o.pos r, o.stopOf (s :: q), m, ?_, ?_,
          ?_⟩
        · rcases hends with hends | hends
          · exact .inl (hends.trans hstopr)
          · exact .inr (hx.trans hends)
        · simp only [spans, map_append, map_cons, spanOf, hstopr, startOf_cons, hx]
        · simp only [spans, map_append, map_cons, spanOf, hstart, hstop]
    · -- Two single observations, both with the value as their label.
      rw [not_or, not_not, not_not] at hne
      obtain ⟨rfl, rfl⟩ := hne
      have hwr : o.weight r * (o.label r - m) = 0 := by simpa using hr.balanced
      have hws : o.weight s * (o.label s - m) = 0 := by simpa using hs.balanced
      have hlr : o.label r = m := by
        rcases mul_eq_zero.1 hwr with hzero | hzero
        · exact absurd hzero (hposrun r (by simp)).ne'
        · exact sub_eq_zero.1 hzero
      have hls : o.label s = m := by
        rcases mul_eq_zero.1 hws with hzero | hzero
        · exact absurd hzero (hposrun s (by simp)).ne'
        · exact sub_eq_zero.1 hzero
      refine ⟨D₁ ++ (m, [s]) :: (m, [r]) :: D₂, ⟨by simp, fun d hd => ?_, ?_⟩, .inl ?_⟩
      · rcases mem_append.1 hd with hd | hd
        · exact hruns d (mem_append_left _ hd)
        · rcases mem_cons.1 hd with rfl | hd
          · exact hs
          · rcases mem_cons.1 hd with rfl | hd
            · exact hr
            · exact hruns d (mem_append_right _ (mem_cons_of_mem _ (mem_cons_of_mem _ hd)))
      · refine pairwise_map.1 ?_
        simp only [map_append, map_cons] at hsorted ⊢
        exact hsorted
      · have hspan : o.spanOf (m, [s]) = o.spanOf (m, [r]) := by
          show (⟨o.pos s, o.pos s, m⟩ : Span K X) = ⟨o.pos r, o.pos r, m⟩
          rw [hx]
        simp only [spans, map_append, map_cons, nil_append, hspan]

/-- **All arrangements are seen alike**, by everything that does not see that spans are united. -/
theorem Division.exchanges {β : Type*} {f : List (Span K X) → β}
    (hf : ∀ S T, United S T → f S = f T) (h : o.Division ds l) (hpos : o.Positive l)
    (hcompat : (o.spans ds).Pairwise Compatible) (hex : ReflTransGen o.Exchange l l') :
    ∃ ds', o.Division ds' l' ∧ f (o.spans ds') = f (o.spans ds) := by
  suffices hall : ∃ ds', o.Division ds' l' ∧ (o.spans ds').Pairwise Compatible ∧
      f (o.spans ds') = f (o.spans ds) ∧ l.Perm l' by
    obtain ⟨ds', hds', -, hsame, -⟩ := hall
    exact ⟨ds', hds', hsame⟩
  induction hex with
  | refl => exact ⟨ds, h, hcompat, rfl, List.Perm.refl l⟩
  | @tail b c _ hstep ih =>
    obtain ⟨ds', hds', hcompat', hsame, hperm⟩ := ih
    have hpos' : o.Positive b := fun a ha => hpos a (hperm.mem_iff.2 ha)
    obtain ⟨ds'', hds'', hspans⟩ := hds'.exchange hpos' hcompat' hstep
    have hperm' : b.Perm c := by
      obtain ⟨l₁, r, s, l₂, -, -, rfl, rfl⟩ := hstep
      exact (List.Perm.swap s r l₂).append_left l₁
    refine ⟨ds'', hds'', ?_, ?_, hperm.trans hperm'⟩
    · rcases hspans with heq | hunited
      · rw [heq]
        exact hcompat'
      · exact hunited.compatible hcompat'
    · rcases hspans with heq | hunited
      · rw [heq, hsame]
      · rw [← hf _ _ hunited, hsame]

end Omniscience.Observations
