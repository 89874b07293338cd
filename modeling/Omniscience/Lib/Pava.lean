import Mathlib.Algebra.BigOperators.Ring.List
import Mathlib.Tactic.Linarith
import Mathlib.Tactic.Positivity
import Mathlib.Tactic.Ring
import Omniscience.Lib.OrderedField

/-!
# Pooling adjacent violators

Observations with a label, a weight and a position come in a row, and are to be fitted by values
that do not decrease.  The algorithm keeps a stack of blocks; an observation is a block of its own,
and while the last block has a smaller value than the one before it, the two are pooled.

A division cuts the row into runs.  A run with value `m` is balanced at `m`, and every proper
beginning of it exceeds `m` (`Run`): what comes first is what is too large.  The values of a
division do not decrease (`Division`).

* `blocksOf_sorted` : whatever the weights, the values of the blocks do not decrease.
* `blocksOf_division` : the algorithm computes a division, if the weights are positive.
* `Division.unique` : there is only one.
* `Division.optimal` : its values are the best fit, in the weighted sum of squares.
-/

namespace Omniscience

open List OrderedField

/-- What an observation is read for. -/
structure Observations (α K X : Type*) where
  label : α → K
  weight : α → K
  pos : α → X

/-- A block of pooled observations. -/
structure Block (K X : Type*) where
  weight : K
  value : K
  start : X
  stop : X
  deriving DecidableEq

namespace Observations

variable {α K X : Type*} [Field K]

/-! ### Excesses -/

variable (o : Observations α K X) {m m' μ ν : K} {l p s q r : List α}

/-- The weight of some observations. -/
def total (l : List α) : K := (l.map o.weight).sum

/-- By how much the labels exceed a value, in the weighted sum. -/
def excess (m : K) (l : List α) : K := (l.map fun a => o.weight a * (o.label a - m)).sum

@[simp] theorem total_nil : o.total [] = 0 := rfl

@[simp] theorem excess_nil (m : K) : o.excess m [] = 0 := rfl

@[simp] theorem total_cons (a : α) (l : List α) : o.total (a :: l) = o.weight a + o.total l := rfl

@[simp] theorem excess_cons (m : K) (a : α) (l : List α) :
    o.excess m (a :: l) = o.weight a * (o.label a - m) + o.excess m l := rfl

@[simp] theorem total_append (p s : List α) : o.total (p ++ s) = o.total p + o.total s := by
  simp [total]

@[simp] theorem excess_append (m : K) (p s : List α) :
    o.excess m (p ++ s) = o.excess m p + o.excess m s := by
  simp [excess]

theorem excess_perm {l l' : List α} (h : l.Perm l') (m : K) : o.excess m l = o.excess m l' :=
  (h.map _).sum_eq

theorem excess_shift (m m' : K) (l : List α) :
    o.excess m' l = o.excess m l + (m - m') * o.total l := by
  induction l with
  | nil => simp
  | cons a l ih =>
    rw [excess_cons, excess_cons, total_cons, ih]
    ring

variable [LinearOrder K]

/-! ### The algorithm -/

/-- The block of one observation. -/
def single (o : Observations α K X) (a : α) : Block K X :=
  ⟨o.weight a, o.label a, o.pos a, o.pos a⟩

/-- Two blocks pooled: their weighted mean, or zero if they have no weight. -/
def pool (b₁ b₂ : Block K X) : Block K X where
  weight := b₁.weight + b₂.weight
  value :=
    if 0 < b₁.weight + b₂.weight then
      (b₁.value * b₁.weight + b₂.value * b₂.weight) / (b₁.weight + b₂.weight)
    else 0
  start := b₁.start
  stop := b₂.stop

/-- Push a block on the stack; while its value is smaller than that of the block below, the two are
pooled. -/
def mergeBack (b : Block K X) : List (Block K X) → List (Block K X)
  | [] => [b]
  | c :: below => if b.value < c.value then mergeBack (pool c b) below else b :: c :: below

attribute [grind =] mergeBack

/-- The stack after the observations, the last block first. -/
def stackOf (o : Observations α K X) (l : List α) : List (Block K X) :=
  l.foldl (fun stack a => mergeBack (o.single a) stack) []

/-- The blocks of the observations. -/
def blocksOf (o : Observations α K X) (l : List α) : List (Block K X) := (o.stackOf l).reverse

theorem stackOf_append_singleton (o : Observations α K X) (l : List α) (a : α) :
    o.stackOf (l ++ [a]) = mergeBack (o.single a) (o.stackOf l) := by
  rw [stackOf, stackOf, foldl_append]
  rfl

/-! ### Runs and divisions -/

/-- All weights are positive. -/
def Positive (l : List α) : Prop := ∀ a ∈ l, 0 < o.weight a

/-- A run is balanced at its value, which every proper beginning of it exceeds. -/
structure Run (m : K) (l : List α) : Prop where
  ne_nil : l ≠ []
  balanced : o.excess m l = 0
  above : ∀ p s, p ≠ [] → s ≠ [] → l = p ++ s → 0 < o.excess m p

/-- A row of observations, divided into runs whose values do not decrease. -/
structure Division (ds : List (K × List α)) (l : List α) : Prop where
  flatten : (ds.map Prod.snd).flatten = l
  runs : ∀ d ∈ ds, o.Run d.1 d.2
  sorted : ds.Pairwise fun d e => d.1 ≤ e.1

/-- The block of a run. -/
structure Represents (b : Block K X) (d : K × List α) : Prop where
  weight : b.weight = o.total d.2
  value : b.value = d.1
  start : d.2.head?.map o.pos = some b.start
  stop : d.2.getLast?.map o.pos = some b.stop

variable {o} {ds ds' : List (K × List α)}

theorem Positive.left (h : o.Positive (p ++ s)) : o.Positive p :=
  fun a ha => h a (mem_append_left _ ha)

theorem Positive.right (h : o.Positive (p ++ s)) : o.Positive s :=
  fun a ha => h a (mem_append_right _ ha)

theorem run_singleton (a : α) : o.Run (o.label a) [a] where
  ne_nil := cons_ne_nil _ _
  balanced := by simp
  above p s hp hs h := by
    have hlength := congrArg List.length h
    rw [length_append, length_singleton] at hlength
    have hp' := length_pos_iff.2 hp
    have hs' := length_pos_iff.2 hs
    omega

theorem Run.excess_prefix_nonneg (h : o.Run m (p ++ s)) : 0 ≤ o.excess m p := by
  by_cases hp : p = []
  · rw [hp, excess_nil]
  · by_cases hs : s = []
    · have hbalanced := h.balanced
      rw [hs, append_nil] at hbalanced
      rw [hbalanced]
    · exact (h.above p s hp hs rfl).le

theorem division_nil : o.Division [] [] := ⟨rfl, nofun, List.Pairwise.nil⟩

variable {d : K × List α}

theorem Division.cons (h : o.Division (d :: ds) l) :
    o.Run d.1 d.2 ∧ (∀ e ∈ ds, d.1 ≤ e.1) ∧ o.Division ds (ds.map Prod.snd).flatten := by
  obtain ⟨hd, hds⟩ := pairwise_cons.1 h.sorted
  exact ⟨h.runs d mem_cons_self, hd, rfl, fun e he => h.runs e (mem_cons_of_mem _ he),
    hds⟩

theorem Division.concat (h : o.Division ds l) (hd : o.Run d.1 d.2) (hle : ∀ e ∈ ds, e.1 ≤ d.1) :
    o.Division (ds ++ [d]) (l ++ d.2) where
  flatten := by
    rw [map_append, flatten_append, h.flatten, map_singleton, flatten_singleton]
  runs e he := by
    rcases mem_append.1 he with he | he
    · exact h.runs e he
    · rw [mem_singleton.1 he]
      exact hd
  sorted := by
    refine pairwise_append.2 ⟨h.sorted, pairwise_singleton _ _, fun e he f hf => ?_⟩
    rw [mem_singleton.1 hf]
    exact hle e he

theorem Division.of_concat (h : o.Division (ds ++ [d]) l) :
    o.Division ds (ds.map Prod.snd).flatten ∧ o.Run d.1 d.2 ∧ (∀ e ∈ ds, e.1 ≤ d.1) ∧
      l = (ds.map Prod.snd).flatten ++ d.2 := by
  obtain ⟨hds, -, hle⟩ := pairwise_append.1 h.sorted
  refine ⟨⟨rfl, fun e he => h.runs e (mem_append_left _ he), hds⟩,
    h.runs d (mem_append_right _ (mem_singleton_self d)),
    fun e he => hle e he d (mem_singleton_self d), ?_⟩
  rw [← h.flatten, map_append, flatten_append, map_singleton, flatten_singleton]

omit [LinearOrder K] in
theorem represents_single (a : α) : o.Represents (o.single a) (o.label a, [a]) := by
  refine ⟨?_, rfl, rfl, rfl⟩
  rw [total_cons, total_nil, add_zero]
  rfl

omit [LinearOrder K] in
theorem Represents.start_mem {b : Block K X} {d : K × List α} (h : o.Represents b d) :
    ∃ a ∈ d.2, o.pos a = b.start := by
  obtain ⟨a, ha, hpos⟩ := Option.map_eq_some_iff.1 h.start
  exact ⟨a, List.mem_of_head? ha, hpos⟩

omit [LinearOrder K] in
theorem Represents.stop_mem {b : Block K X} {d : K × List α} (h : o.Represents b d) :
    ∃ a ∈ d.2, o.pos a = b.stop := by
  obtain ⟨a, ha, hpos⟩ := Option.map_eq_some_iff.1 h.stop
  exact ⟨a, List.mem_of_getLast? ha, hpos⟩

omit [LinearOrder K] in
theorem Represents.between [Preorder X] {b : Block K X} (h : o.Represents b d)
    (hsorted : d.2.Pairwise fun a c => o.pos a ≤ o.pos c) {a : α} (ha : a ∈ d.2) :
    b.start ≤ o.pos a ∧ o.pos a ≤ b.stop := by
  constructor
  · obtain ⟨first, hfirst, hpos⟩ := Option.map_eq_some_iff.1 h.start
    obtain ⟨rest, hrest⟩ := List.head?_eq_some_iff.1 hfirst
    rw [hrest] at hsorted ha
    rw [← hpos]
    rcases mem_cons.1 ha with rfl | ha
    · exact le_rfl
    · exact (pairwise_cons.1 hsorted).1 a ha
  · obtain ⟨last, hlast, hpos⟩ := Option.map_eq_some_iff.1 h.stop
    obtain ⟨init, hinit⟩ := List.getLast?_eq_some_iff.1 hlast
    rw [hinit] at hsorted ha
    rw [← hpos]
    rcases mem_append.1 ha with ha | ha
    · exact (pairwise_append.1 hsorted).2.2 a ha last (mem_singleton_self last)
    · rw [mem_singleton.1 ha]

/-! ### Order -/

variable [IsStrictOrderedRing K]

theorem Positive.total_nonneg (h : o.Positive l) : 0 ≤ o.total l := by
  refine sum_nonneg fun x hx => ?_
  obtain ⟨a, ha, rfl⟩ := mem_map.1 hx
  exact (h a ha).le

theorem Positive.total_pos (h : o.Positive l) (hne : l ≠ []) : 0 < o.total l := by
  cases l with
  | nil => exact absurd rfl hne
  | cons a l =>
    have hrest : 0 ≤ o.total l := Positive.total_nonneg fun b hb => h b (mem_cons_of_mem _ hb)
    have ha := h a mem_cons_self
    rw [total_cons]
    linarith

theorem Positive.excess_le (h : o.Positive l) (hm : m' ≤ m) : o.excess m l ≤ o.excess m' l := by
  have htotal := h.total_nonneg
  rw [o.excess_shift m m']
  nlinarith

theorem Positive.excess_lt (h : o.Positive l) (hne : l ≠ []) (hm : m' < m) :
    o.excess m l < o.excess m' l := by
  have htotal := h.total_pos hne
  rw [o.excess_shift m m']
  nlinarith

theorem Run.excess_suffix_nonpos (h : o.Run m (p ++ s)) : o.excess m s ≤ 0 := by
  have hprefix := h.excess_prefix_nonneg
  have hbalanced := h.balanced
  rw [excess_append] at hbalanced
  linarith

theorem Run.excess_suffix_neg (h : o.Run m (p ++ s)) (hp : p ≠ []) (hs : s ≠ []) :
    o.excess m s < 0 := by
  have hprefix := h.above p s hp hs rfl
  have hbalanced := h.balanced
  rw [excess_append] at hbalanced
  linarith

theorem Run.value_unique (h : o.Run m l) (h' : o.Run m' l) (hpos : o.Positive l) : m = m' := by
  rcases lt_trichotomy m m' with hlt | heq | hlt
  · have hexcess := hpos.excess_lt h.ne_nil hlt
    rw [h.balanced, h'.balanced] at hexcess
    exact absurd hexcess (lt_irrefl _)
  · exact heq
  · have hexcess := hpos.excess_lt h.ne_nil hlt
    rw [h.balanced, h'.balanced] at hexcess
    exact absurd hexcess (lt_irrefl _)

/-- **Two runs in the wrong order are one run**, at the value that balances both. -/
theorem Run.append (hq : o.Run μ q) (hr : o.Run m r) (hlt : m < μ) (hposq : o.Positive q)
    (hposr : o.Positive r) (hν : ν * (o.total q + o.total r) = μ * o.total q + m * o.total r) :
    o.Run ν (q ++ r) := by
  have hwq := hposq.total_pos hq.ne_nil
  have hwr := hposr.total_pos hr.ne_nil
  have hνμ : ν < μ := by
    by_contra hge
    nlinarith [not_lt.1 hge]
  have hmν : m < ν := by
    by_contra hge
    nlinarith [not_lt.1 hge]
  have hexq : o.excess ν q = (μ - ν) * o.total q := by
    rw [o.excess_shift μ ν, hq.balanced, zero_add]
  have hexr : o.excess ν r = (m - ν) * o.total r := by
    rw [o.excess_shift m ν, hr.balanced, zero_add]
  have hbalanced : o.excess ν (q ++ r) = 0 := by
    rw [excess_append, hexq, hexr]
    linarith
  have hfirst : 0 < o.excess ν q := by
    rw [hexq]
    exact mul_pos (sub_pos.2 hνμ) hwq
  refine ⟨by simp [hq.ne_nil], hbalanced, fun p s hp hs hps => ?_⟩
  rcases append_eq_append_iff.1 hps with ⟨t, rfl, rfl⟩ | ⟨t, rfl, rfl⟩
  · -- The beginning takes in the first run and a part of the second.
    by_cases ht : t = []
    · rw [ht, append_nil]
      exact hfirst
    · have hrest : o.excess ν s < 0 :=
        (hposr.right.excess_le hmν.le).trans_lt (hr.excess_suffix_neg ht hs)
      rw [excess_append, excess_append, ← add_assoc, ← excess_append] at hbalanced
      linarith
  · -- It ends within the first run.
    by_cases ht : t = []
    · rw [ht, append_nil] at hfirst
      exact hfirst
    · exact (hq.above p t hp ht rfl).trans (hposq.left.excess_lt hp hνμ)

/-! ### Whatever the weights -/

section Blocks

variable {b c : Block K X} {stack : List (Block K X)} {P : Block K X → Prop}

omit [IsStrictOrderedRing K] in
theorem forall_mergeBack (hpool : ∀ c b, P c → P b → P (pool c b)) (hb : P b)
    (hstack : ∀ c ∈ stack, P c) : ∀ c ∈ mergeBack b stack, P c := by
  induction stack generalizing b with
  | nil =>
    intro c hc
    rw [mem_singleton.1 hc]
    exact hb
  | cons d below ih =>
    rw [mergeBack]
    split
    · exact ih (hpool d b (hstack d mem_cons_self) hb) fun c hc => hstack c (mem_cons_of_mem _ hc)
    · intro c hc
      rcases mem_cons.1 hc with rfl | hc
      · exact hb
      · exact hstack c hc

omit [IsStrictOrderedRing K] in
theorem forall_blocksOf (hpool : ∀ c b, P c → P b → P (pool c b))
    (hsingle : ∀ a ∈ l, P (o.single a)) : ∀ b ∈ o.blocksOf l, P b := by
  suffices hstack : ∀ b ∈ o.stackOf l, P b from fun b hb => hstack b (mem_reverse.1 hb)
  induction l using List.reverseRecOn with
  | nil => nofun
  | append_singleton l a ih =>
    rw [stackOf_append_singleton]
    exact forall_mergeBack hpool (hsingle a (mem_append_right _ (mem_singleton_self a)))
      (ih fun d hd => hsingle d (mem_append_left _ hd))

omit [IsStrictOrderedRing K] in
theorem mergeBack_sorted (h : stack.Pairwise fun b c => c.value ≤ b.value) :
    (mergeBack b stack).Pairwise fun b c => c.value ≤ b.value := by
  induction stack generalizing b with
  | nil => exact pairwise_singleton _ _
  | cons d below ih =>
    obtain ⟨hd, hbelow⟩ := pairwise_cons.1 h
    rw [mergeBack]
    split
    · exact ih hbelow
    · rename_i hge
      refine pairwise_cons.2 ⟨fun e he => ?_, h⟩
      rcases mem_cons.1 he with rfl | he
      · exact not_lt.1 hge
      · exact (hd e he).trans (not_lt.1 hge)

omit [IsStrictOrderedRing K] in
/-- **The values of the blocks do not decrease.** -/
theorem blocksOf_sorted (l : List α) : (o.blocksOf l).Pairwise fun b c => b.value ≤ c.value := by
  refine pairwise_reverse.2 ?_
  induction l using List.reverseRecOn with
  | nil => exact List.Pairwise.nil
  | append_singleton l a ih =>
    rw [stackOf_append_singleton]
    exact mergeBack_sorted ih

/-- A weight that is not negative, and a value between two bounds. -/
structure Within (lo hi : K) (b : Block K X) : Prop where
  weight : 0 ≤ b.weight
  le : lo ≤ b.value
  ge : b.value ≤ hi

theorem Within.pool {lo hi : K} (hlo : lo ≤ 0) (hhi : 0 ≤ hi) (hc : Within lo hi c)
    (hb : Within lo hi b) : Within lo hi (pool c b) := by
  have hvalue : lo ≤ (Observations.pool c b).value ∧ (Observations.pool c b).value ≤ hi := by
    unfold Observations.pool
    dsimp only
    split
    · rename_i hweight
      rw [le_div_iff₀ hweight, div_le_iff₀ hweight]
      have h₁ := mul_le_mul_of_nonneg_right hc.le hc.weight
      have h₂ := mul_le_mul_of_nonneg_right hb.le hb.weight
      have h₃ := mul_le_mul_of_nonneg_right hc.ge hc.weight
      have h₄ := mul_le_mul_of_nonneg_right hb.ge hb.weight
      exact ⟨by linarith, by linarith⟩
    · exact ⟨hlo, hhi⟩
  exact ⟨add_nonneg hc.weight hb.weight, hvalue.1, hvalue.2⟩

omit [IsStrictOrderedRing K] in
theorem mergeBack_ne_nil : mergeBack b stack ≠ [] := by
  induction stack generalizing b with
  | nil => exact cons_ne_nil _ _
  | cons c below ih =>
    rw [mergeBack]
    split
    · exact ih
    · exact cons_ne_nil _ _

omit [IsStrictOrderedRing K] in
theorem blocksOf_ne_nil (h : l ≠ []) : o.blocksOf l ≠ [] := by
  rw [blocksOf, ne_eq, reverse_eq_nil_iff, ← dropLast_append_getLast h, stackOf_append_singleton]
  exact mergeBack_ne_nil

end Blocks

/-! ### There is one division -/

theorem excess_prefix_nonneg (hruns : ∀ d ∈ ds, o.Run d.1 d.2) (hle : ∀ d ∈ ds, m ≤ d.1)
    (hpos : o.Positive (p ++ s)) (h : (ds.map Prod.snd).flatten = p ++ s) :
    0 ≤ o.excess m p := by
  induction ds generalizing p with
  | nil =>
    have hp : p = [] := (append_eq_nil_iff.1 h.symm).1
    rw [hp, excess_nil]
  | cons d ds ih =>
    have hrun := hruns d mem_cons_self
    have hm := hle d mem_cons_self
    rw [map_cons, flatten_cons] at h
    rcases append_eq_append_iff.1 h with ⟨t, rfl, ht⟩ | ⟨t, hd, rfl⟩
    · rw [append_assoc] at hpos
      have hfirst : 0 ≤ o.excess m d.2 := by
        rw [← hrun.balanced]
        exact hpos.left.excess_le hm
      have hrest : 0 ≤ o.excess m t :=
        ih (fun e he => hruns e (mem_cons_of_mem _ he))
          (fun e he => hle e (mem_cons_of_mem _ he)) hpos.right ht
      rw [excess_append]
      linarith
    · rw [hd] at hrun
      exact hrun.excess_prefix_nonneg.trans (hpos.left.excess_le hm)

theorem excess_suffix_nonpos (hruns : ∀ d ∈ ds, o.Run d.1 d.2) (hle : ∀ d ∈ ds, d.1 ≤ m)
    (hpos : o.Positive (p ++ s)) (h : (ds.map Prod.snd).flatten = p ++ s) :
    o.excess m s ≤ 0 := by
  induction ds generalizing p s with
  | nil =>
    have hs : s = [] := (append_eq_nil_iff.1 h.symm).2
    rw [hs, excess_nil]
  | cons d ds ih =>
    have hrun := hruns d mem_cons_self
    have hm := hle d mem_cons_self
    rw [map_cons, flatten_cons] at h
    rcases append_eq_append_iff.1 h with ⟨t, rfl, ht⟩ | ⟨t, hd, rfl⟩
    · rw [append_assoc] at hpos
      exact ih (fun e he => hruns e (mem_cons_of_mem _ he))
        (fun e he => hle e (mem_cons_of_mem _ he)) hpos.right ht
    · have hall : o.excess m (ds.map Prod.snd).flatten ≤ 0 :=
        ih (p := []) (s := (ds.map Prod.snd).flatten) (fun e he => hruns e (mem_cons_of_mem _ he))
          (fun e he => hle e (mem_cons_of_mem _ he)) hpos.right.right rfl
      rw [hd] at hrun
      have hend : o.excess m t ≤ 0 :=
        (hpos.right.left.excess_le hm).trans hrun.excess_suffix_nonpos
      rw [excess_append]
      linarith

theorem Division.first_le {d d' : K × List α} (h : o.Division (d :: ds) l)
    (h' : o.Division (d' :: ds') l) (hpos : o.Positive l) : d'.2.length ≤ d.2.length := by
  by_contra hlt
  obtain ⟨hrun, hle, -⟩ := h.cons
  obtain ⟨hrun', -, -⟩ := h'.cons
  have hl : d.2 ++ (ds.map Prod.snd).flatten = l := h.flatten
  have hl' : d'.2 ++ (ds'.map Prod.snd).flatten = l := h'.flatten
  rcases append_eq_append_iff.1 (hl.trans hl'.symm) with ⟨t, hd', ht⟩ | ⟨t, hd, -⟩
  · have htne : t ≠ [] := by
      rintro rfl
      rw [hd', append_nil] at hlt
      exact hlt le_rfl
    rw [← hl] at hpos
    -- The rest of the longer run lies in runs with values from that of the shorter one on.
    have hrest : 0 ≤ o.excess d.1 t :=
      excess_prefix_nonneg (fun e he => h.runs e (mem_cons_of_mem _ he)) hle
        (ht ▸ hpos.right) ht
    rw [hd'] at hrun'
    have hfirst : 0 < o.excess d'.1 d.2 := hrun'.above d.2 t hrun.ne_nil htne rfl
    have hvalue : d'.1 < d.1 := by
      by_contra hge
      have hdown := hpos.left.excess_le (not_lt.1 hge)
      rw [hrun.balanced] at hdown
      exact absurd hfirst (not_lt.2 hdown)
    have htpos : o.Positive t := (ht ▸ hpos.right).left
    have hend := hrest.trans_lt (htpos.excess_lt htne hvalue)
    have hbalanced := hrun'.balanced
    rw [excess_append] at hbalanced
    linarith
  · rw [hd, length_append] at hlt
    omega

/-- **There is only one division.** -/
theorem Division.unique (h : o.Division ds l) (h' : o.Division ds' l) (hpos : o.Positive l) :
    ds = ds' := by
  induction ds generalizing ds' l with
  | nil =>
    cases ds' with
    | nil => rfl
    | cons d' ds' =>
      have hnil : d'.2 ++ (ds'.map Prod.snd).flatten = [] := h'.flatten.trans h.flatten.symm
      exact absurd (append_eq_nil_iff.1 hnil).1 (h'.runs d' mem_cons_self).ne_nil
  | cons d ds ih =>
    cases ds' with
    | nil =>
      have hnil : d.2 ++ (ds.map Prod.snd).flatten = [] := h.flatten.trans h'.flatten.symm
      exact absurd (append_eq_nil_iff.1 hnil).1 (h.runs d mem_cons_self).ne_nil
    | cons d' ds' =>
      have hlength : d.2.length = d'.2.length :=
        le_antisymm (h'.first_le h hpos) (h.first_le h' hpos)
      have hl : d.2 ++ (ds.map Prod.snd).flatten = l := h.flatten
      have hl' : d'.2 ++ (ds'.map Prod.snd).flatten = l := h'.flatten
      obtain ⟨hrun, hrest⟩ := append_inj (hl.trans hl'.symm) hlength
      rw [← hl] at hpos
      have hvalue : d.1 = d'.1 :=
        h.cons.1.value_unique (hrun ▸ h'.cons.1) hpos.left
      rw [Prod.ext hvalue hrun, ih h.cons.2.2 (hrest ▸ h'.cons.2.2) hpos.right]

/-! ### The algorithm computes the division -/

theorem Represents.pool {b c : Block K X} (hc : o.Represents c (μ, q)) (hb : o.Represents b (m, r))
    (hq : o.Run μ q) (hr : o.Run m r) (hlt : m < μ) (hposq : o.Positive q) (hposr : o.Positive r) :
    o.Represents (pool c b) ((pool c b).value, q ++ r) ∧ o.Run (pool c b).value (q ++ r) := by
  have hwq : 0 < c.weight := hc.weight ▸ hposq.total_pos hq.ne_nil
  have hwr : 0 < b.weight := hb.weight ▸ hposr.total_pos hr.ne_nil
  have hweight : 0 < c.weight + b.weight := add_pos hwq hwr
  have hvalue : (Observations.pool c b).value =
      (c.value * c.weight + b.value * b.weight) / (c.weight + b.weight) := if_pos hweight
  refine ⟨⟨?_, rfl, ?_, ?_⟩, hq.append hr hlt hposq hposr ?_⟩
  · show c.weight + b.weight = _
    rw [hc.weight, hb.weight, total_append]
  · show (q ++ r).head?.map o.pos = some c.start
    rw [List.head?_append_of_ne_nil _ hq.ne_nil]
    exact hc.start
  · show (q ++ r).getLast?.map o.pos = some b.stop
    rw [List.getLast?_append_of_ne_nil _ hr.ne_nil]
    exact hb.stop
  · rw [hvalue, hc.weight, hb.weight, hc.value, hb.value] at *
    exact div_mul_cancel₀ _ hweight.ne'

theorem mergeBack_division {b : Block K X} {stack : List (Block K X)} (hb : o.Represents b d)
    (hd : o.Run d.1 d.2) (hstack : List.Forall₂ o.Represents stack ds) (h : o.Division ds.reverse l)
    (hpos : o.Positive (l ++ d.2)) :
    ∃ ds', List.Forall₂ o.Represents (mergeBack b stack) ds' ∧
      o.Division ds'.reverse (l ++ d.2) := by
  induction hstack generalizing b d l with
  | nil =>
    have hl : l = [] := h.flatten.symm
    refine ⟨[d], List.Forall₂.cons hb List.Forall₂.nil, ?_⟩
    rw [hl]
    exact (division_nil (o := o)).concat hd nofun
  | @cons c e below ds hc hbelow ih =>
    rw [reverse_cons] at h
    obtain ⟨hbase, he, hle, hl⟩ := h.of_concat
    rw [mergeBack]
    split
    · rename_i hlt
      rw [hb.value, hc.value] at hlt
      have hpos' := hpos
      rw [hl, append_assoc] at hpos'
      obtain ⟨hrep, hrun⟩ := Represents.pool hc hb he hd hlt hpos'.right.left hpos'.right.right
      obtain ⟨ds', hds', hdivision⟩ := ih hrep hrun hbase hpos'
      refine ⟨ds', hds', ?_⟩
      rw [hl, append_assoc]
      exact hdivision
    · rename_i hge
      rw [hb.value, hc.value, not_lt] at hge
      refine ⟨d :: e :: ds, List.Forall₂.cons hb (List.Forall₂.cons hc hbelow), ?_⟩
      rw [reverse_cons, reverse_cons]
      refine h.concat hd fun f hf => ?_
      rcases mem_append.1 hf with hf | hf
      · exact (hle f hf).trans hge
      · rw [mem_singleton.1 hf]
        exact hge

/-- **The algorithm computes the division.** -/
theorem blocksOf_division (hpos : o.Positive l) :
    ∃ ds, o.Division ds l ∧ List.Forall₂ o.Represents (o.blocksOf l) ds := by
  suffices hstack : ∃ ds, List.Forall₂ o.Represents (o.stackOf l) ds ∧ o.Division ds.reverse l by
    obtain ⟨ds, hds, hdivision⟩ := hstack
    exact ⟨ds.reverse, hdivision, rel_reverse hds⟩
  induction l using List.reverseRecOn with
  | nil => exact ⟨[], List.Forall₂.nil, division_nil⟩
  | append_singleton l a ih =>
    obtain ⟨ds, hds, hdivision⟩ := ih hpos.left
    rw [stackOf_append_singleton]
    exact mergeBack_division (represents_single a) (run_singleton a) hds hdivision hpos

/-! ### The division is the best fit -/

theorem sum_mul_sub_nonpos {d z : α → K} {t : K} (htails : ∀ s, s <:+ l → (s.map d).sum ≤ 0)
    (hz : l.Pairwise fun a b => z a ≤ z b) (ht : ∀ a ∈ l, t ≤ z a) :
    (l.map fun a => d a * (z a - t)).sum ≤ 0 := by
  induction l generalizing t with
  | nil => exact le_rfl
  | cons a l ih =>
    obtain ⟨ha, hl⟩ := pairwise_cons.1 hz
    have hrest : (l.map fun b => d b * (z b - z a)).sum ≤ 0 :=
      ih (fun s hs => htails s (hs.trans (suffix_cons a l))) hl ha
    have hall : (d a + (l.map d).sum) * (z a - t) ≤ 0 :=
      mul_nonpos_of_nonpos_of_nonneg (htails (a :: l) (suffix_refl _))
        (sub_nonneg.2 (ht a mem_cons_self))
    have hshift : (l.map fun b => d b * (z b - t)).sum =
        (l.map fun b => d b * (z b - z a)).sum + (l.map d).sum * (z a - t) := by
      rw [← sum_map_mul_right, ← sum_map_add]
      exact congrArg List.sum (map_congr_left fun b _ => by ring)
    rw [map_cons, sum_cons, hshift]
    linarith

/-- The weighted sum of the squared differences between the labels and some values. -/
def loss (o : Observations α K X) (l : List α) (z : α → K) : K :=
  (l.map fun a => o.weight a * (o.label a - z a) ^ 2).sum

theorem Run.optimal (h : o.Run m r) (hpos : o.Positive r) {z : α → K}
    (hz : r.Pairwise fun a b => z a ≤ z b) : o.loss r (fun _ => m) ≤ o.loss r z := by
  cases r with
  | nil => exact le_rfl
  | cons a rest =>
    obtain ⟨ha, -⟩ := pairwise_cons.1 hz
    have htails : ∀ s, s <:+ a :: rest → (s.map fun b => o.weight b * (o.label b - m)).sum ≤ 0 := by
      rintro s ⟨p, hps⟩
      have hrun := h
      rw [← hps] at hrun
      exact hrun.excess_suffix_nonpos
    have habel := sum_mul_sub_nonpos htails hz (t := z a) fun b hb => by
      rcases mem_cons.1 hb with rfl | hb
      · exact le_rfl
      · exact ha b hb
    have hpoint : (((a :: rest).map fun b => o.weight b * (o.label b - m) ^ 2 +
        (2 * (m - z a) * (o.weight b * (o.label b - m)) +
          (-2) * (o.weight b * (o.label b - m) * (z b - z a))))).sum ≤ o.loss (a :: rest) z := by
      refine sum_le_sum fun b hb => ?_
      have hw := (hpos b hb).le
      nlinarith [mul_nonneg hw (sq_nonneg (m - z b))]
    rw [sum_map_add, sum_map_add, sum_map_mul_left, sum_map_mul_left] at hpoint
    have hbalanced : ((a :: rest).map fun b => o.weight b * (o.label b - m)).sum = 0 := h.balanced
    rw [hbalanced] at hpoint
    show ((a :: rest).map fun b => o.weight b * (o.label b - m) ^ 2).sum ≤ _
    linarith

/-- The loss of the values of a division. -/
def divisionLoss (o : Observations α K X) (ds : List (K × List α)) : K :=
  (ds.map fun d => o.loss d.2 fun _ => d.1).sum

omit [LinearOrder K] [IsStrictOrderedRing K] in
theorem loss_flatten {f : α → K} (h : ∀ d ∈ ds, ∀ a ∈ d.2, f a = d.1) :
    o.loss (ds.map Prod.snd).flatten f = o.divisionLoss ds := by
  induction ds with
  | nil => rfl
  | cons d ds ih =>
    have hfirst : o.loss d.2 f = o.loss d.2 fun _ => d.1 := by
      refine congrArg List.sum (map_congr_left fun a ha => ?_)
      rw [h d mem_cons_self a ha]
    have hrest := ih fun e he => h e (mem_cons_of_mem _ he)
    have hsum : o.loss (d.2 ++ (ds.map Prod.snd).flatten) f =
        o.loss d.2 f + o.loss (ds.map Prod.snd).flatten f := by
      simp [loss]
    rw [map_cons, flatten_cons, hsum, hfirst, hrest]
    rfl

/-- **The values of a division are the best fit** among all that do not decrease. -/
theorem Division.optimal (h : o.Division ds l) (hpos : o.Positive l) {z : α → K}
    (hz : l.Pairwise fun a b => z a ≤ z b) : o.divisionLoss ds ≤ o.loss l z := by
  induction ds generalizing l with
  | nil =>
    have hl : l = [] := h.flatten.symm
    rw [hl]
    exact le_rfl
  | cons d ds ih =>
    obtain ⟨hrun, -, hrest⟩ := h.cons
    have hl : d.2 ++ (ds.map Prod.snd).flatten = l := h.flatten
    rw [← hl] at hpos hz ⊢
    obtain ⟨hz₁, hz₂, -⟩ := pairwise_append.1 hz
    have hsum : o.loss (d.2 ++ (ds.map Prod.snd).flatten) z =
        o.loss d.2 z + o.loss (ds.map Prod.snd).flatten z := by
      simp [loss]
    rw [hsum]
    exact add_le_add (hrun.optimal hpos.left hz₁) (ih hrest hpos.right hz₂)

end Observations

end Omniscience
