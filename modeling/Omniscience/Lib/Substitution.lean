import Mathlib.Algebra.GroupWithZero.Nat
import Omniscience.Lib.Regex
import Omniscience.Lib.Words

/-!
# Substitution

Every match of a pattern is replaced by one text, from left to right.  A substitution that finds
nothing changes nothing; one whose matches are longer than what replaces them makes the text shorter
if it finds something; and one whose pattern does not tell a letter from another form of it commutes
with the change of form.

* `sub_plus_sat` : the substitution of runs of letters squeezes them.
* `sub_wholeWord` : the substitution of words that pass a test goes word by word.
-/

namespace Omniscience.Regex

open Words List

variable {α : Type*}

/-- So many times. -/
def exactly : ℕ → Regex α → Regex α
  | 0, _ => eps
  | n + 1, r => seq r (exactly n r)

attribute [grind =] exactly

/-- At least so many times. -/
def atLeast (n : ℕ) (r : Regex α) : Regex α := seq (exactly n r) (star r)

/-- The text from a place on, with the matches replaced. -/
def subFrom (r : Regex α) (repl : List α) : ℕ → Place α → List α
  | 0, p => p.after
  | n + 1, p =>
    match matchAt r p with
    | some q => repl ++ subFrom r repl n ⟨q.before, q.after, []⟩
    | none =>
      match p.after with
      | [] => []
      | c :: rest => c :: subFrom r repl n ⟨c :: p.before, rest, []⟩

attribute [grind =] subFrom

/-- A text with the matches of a pattern replaced. -/
def sub (r : Regex α) (repl l : List α) : List α := subFrom r repl l.length (start l)

variable {r s : Regex α} {repl l before after : List α} {p q : Place α} {n : ℕ}

/-! ### Nothing found, something found -/

theorem subFrom_of_findAllFrom (h : findAllFrom r n p = []) : subFrom r repl n p = p.after := by
  induction n generalizing p with
  | zero => rfl
  | succ n ih =>
    rw [findAllFrom] at h
    rw [subFrom]
    cases hmatch : matchAt r p with
    | some q =>
      rw [hmatch] at h
      exact absurd h (cons_ne_nil _ _)
    | none =>
      rw [hmatch] at h
      cases hafter : p.after with
      | nil => rfl
      | cons c rest =>
        rw [hafter] at h
        dsimp only at h ⊢
        rw [ih h]

theorem findAll_eq_nil (h : search r l = none) : findAll r l = [] := List.head?_eq_none_iff.1 h

/-- **A substitution that finds nothing changes nothing.** -/
theorem sub_of_search_eq_none (h : search r l = none) : sub r repl l = l :=
  subFrom_of_findAllFrom (findAll_eq_nil h)

theorem length_subFrom_le
    (hlong : ∀ p q, matchAt r p = some q → repl.length + q.after.length < p.after.length) :
    (subFrom r repl n p).length ≤ p.after.length := by
  induction n generalizing p with
  | zero => exact Nat.le_refl _
  | succ n ih =>
    rw [subFrom]
    cases hmatch : matchAt r p with
    | some q =>
      have hrest := ih (p := ⟨q.before, q.after, []⟩)
      have hlt := hlong p q hmatch
      dsimp only at hrest ⊢
      rw [length_append]
      omega
    | none =>
      cases hafter : p.after with
      | nil => exact Nat.le_refl _
      | cons c rest =>
        have hrest := ih (p := ⟨c :: p.before, rest, []⟩)
        dsimp only at hrest ⊢
        rw [length_cons, length_cons]
        exact Nat.succ_le_succ hrest

theorem length_subFrom_lt
    (hlong : ∀ p q, matchAt r p = some q → repl.length + q.after.length < p.after.length)
    (h : findAllFrom r n p ≠ []) : (subFrom r repl n p).length < p.after.length := by
  induction n generalizing p with
  | zero => exact absurd rfl h
  | succ n ih =>
    rw [findAllFrom] at h
    rw [subFrom]
    cases hmatch : matchAt r p with
    | some q =>
      have hrest := length_subFrom_le hlong (n := n) (p := ⟨q.before, q.after, []⟩)
      have hlt := hlong p q hmatch
      dsimp only at hrest ⊢
      rw [length_append]
      omega
    | none =>
      rw [hmatch] at h
      cases hafter : p.after with
      | nil =>
        rw [hafter] at h
        exact absurd rfl h
      | cons c rest =>
        rw [hafter] at h
        dsimp only at h ⊢
        rw [length_cons, length_cons]
        exact Nat.succ_lt_succ (ih h)

theorem length_sub_le
    (hlong : ∀ p q, matchAt r p = some q → repl.length + q.after.length < p.after.length) :
    (sub r repl l).length ≤ l.length := length_subFrom_le hlong

theorem length_sub_lt
    (hlong : ∀ p q, matchAt r p = some q → repl.length + q.after.length < p.after.length)
    (h : search r l ≠ none) : (sub r repl l).length < l.length := by
  refine length_subFrom_lt hlong fun hnil => h ?_
  rw [search, findAll, hnil]
  rfl

/-! ### What is read -/

theorem exists_read_repeats (hread : ∀ p, ∀ q ∈ run r p,
      ∃ w, p.after = w ++ q.after ∧ q.before = w.reverse ++ p.before)
    (h : q ∈ repeats (run r) n p) :
    ∃ w, p.after = w ++ q.after ∧ q.before = w.reverse ++ p.before := by
  induction n generalizing p with
  | zero =>
    rw [mem_singleton.1 h]
    exact ⟨[], rfl, rfl⟩
  | succ n ih =>
    rw [repeats, mem_append, mem_flatMap] at h
    obtain ⟨m, hm, hq⟩ | hq := h
    · obtain ⟨w, hw, hbefore⟩ := hread p m (mem_filter.1 hm).1
      obtain ⟨w', hw', hbefore'⟩ := ih hq
      exact ⟨w ++ w', by rw [hw, hw', append_assoc],
        by rw [hbefore', hbefore, reverse_append, append_assoc]⟩
    · rw [mem_singleton.1 hq]
      exact ⟨[], rfl, rfl⟩

theorem exists_read (r : Regex α) : ∀ p, ∀ q ∈ run r p,
    ∃ w, p.after = w ++ q.after ∧ q.before = w.reverse ++ p.before := by
  induction r with
  | eps =>
    intro p q h
    rw [mem_singleton.1 h]
    exact ⟨[], rfl, rfl⟩
  | sat test =>
    intro p q h
    obtain ⟨c, rest, hafter, -, rfl⟩ := mem_run_sat.1 h
    exact ⟨[c], hafter, rfl⟩
  | edge test =>
    intro p q h
    rw [(mem_run_edge.1 h).2]
    exact ⟨[], rfl, rfl⟩
  | seq r s ihr ihs =>
    intro p q h
    obtain ⟨m, hm, hq⟩ := mem_run_seq.1 h
    obtain ⟨w, hw, hbefore⟩ := ihr p m hm
    obtain ⟨w', hw', hbefore'⟩ := ihs m q hq
    exact ⟨w ++ w', by rw [hw, hw', append_assoc],
      by rw [hbefore', hbefore, reverse_append, append_assoc]⟩
  | alt r s ihr ihs =>
    intro p q h
    obtain h | h := mem_append.1 h
    · exact ihr p q h
    · exact ihs p q h
  | star r ih => exact fun p q h => exists_read_repeats ih h
  | group name r ih =>
    intro p q h
    obtain ⟨m, hm, rfl⟩ := mem_map.1 h
    exact ih p m hm

theorem exists_read_matchAt (h : matchAt r p = some q) :
    ∃ w, p.after = w ++ q.after ∧ q.before = w.reverse ++ p.before :=
  exists_read r p q (matchAt_eq_some_imp h).1

/-- How many letters a match has at least. -/
def width : Regex α → ℕ
  | eps => 0
  | sat _ => 1
  | edge _ => 0
  | seq r s => width r + width s
  | alt r s => min (width r) (width s)
  | star _ => 0
  | group _ r => width r

@[simp] theorem width_sat (test : α → Bool) : width (sat test) = 1 := rfl

@[simp] theorem width_edge (test : Option α → Option α → Bool) : width (edge test) = 0 := rfl

@[simp] theorem width_opt (r : Regex α) : width (opt r) = 0 := Nat.min_zero _

@[simp] theorem width_exactly (n : ℕ) (r : Regex α) : width (exactly n r) = n * width r := by
  induction n with
  | zero => exact (Nat.zero_mul _).symm
  | succ n ih => rw [exactly, width, ih, Nat.succ_mul, Nat.add_comm]

@[simp] theorem width_atLeast (n : ℕ) (r : Regex α) : width (atLeast n r) = n * width r :=
  width_exactly n r

@[simp] theorem width_seqs (rs : List (Regex α)) : width (seqs rs) = (rs.map width).sum := by
  induction rs with
  | nil => rfl
  | cons r rs ih =>
    cases rs with
    | nil => simp [seqs]
    | cons s rs =>
      have hseq : width (seqs (r :: s :: rs)) = width r + width (seqs (s :: rs)) := rfl
      rw [hseq, ih]
      rfl

theorem width_le (r : Regex α) : ∀ p, ∀ q ∈ run r p, q.after.length + width r ≤ p.after.length := by
  induction r with
  | eps =>
    intro p q h
    rw [mem_singleton.1 h]
    exact Nat.le_refl _
  | sat test =>
    intro p q h
    obtain ⟨c, rest, hafter, -, rfl⟩ := mem_run_sat.1 h
    rw [hafter]
    exact Nat.le_refl _
  | edge test =>
    intro p q h
    rw [(mem_run_edge.1 h).2]
    exact Nat.le_refl _
  | seq r s ihr ihs =>
    intro p q h
    obtain ⟨m, hm, hq⟩ := mem_run_seq.1 h
    have hr := ihr p m hm
    have hs := ihs m q hq
    rw [width]
    omega
  | alt r s ihr ihs =>
    intro p q h
    rw [width]
    obtain h | h := mem_append.1 h
    · have hr := ihr p q h
      omega
    · have hs := ihs p q h
      omega
  | star r ih =>
    intro p q h
    obtain ⟨w, hafter, -⟩ := exists_read (star r) p q h
    rw [hafter, length_append]
    exact Nat.le_add_left _ _
  | group name r ih =>
    intro p q h
    obtain ⟨m, hm, rfl⟩ := mem_map.1 h
    exact ih p m hm

theorem shorter_of_width (h : repl.length < width r) :
    ∀ p q, matchAt r p = some q → repl.length + q.after.length < p.after.length := by
  intro p q hmatch
  have hwidth := width_le r p q (matchAt_eq_some_imp hmatch).1
  omega

theorem mem_subFrom {c : α} (h : c ∈ subFrom r repl n p) : c ∈ p.after ∨ c ∈ repl := by
  induction n generalizing p with
  | zero => exact .inl h
  | succ n ih =>
    rw [subFrom] at h
    cases hmatch : matchAt r p with
    | some q =>
      rw [hmatch] at h
      obtain ⟨w, hafter, -⟩ := exists_read_matchAt hmatch
      obtain h | h := mem_append.1 h
      · exact .inr h
      · obtain h | h := ih h
        · left
          rw [hafter]
          exact mem_append_right w h
        · exact .inr h
    | none =>
      rw [hmatch] at h
      cases hafter : p.after with
      | nil =>
        rw [hafter] at h
        exact absurd h not_mem_nil
      | cons d rest =>
        rw [hafter] at h
        obtain rfl | h := mem_cons.1 h
        · exact .inl mem_cons_self
        · exact (ih h).imp_left (mem_cons_of_mem d)

theorem mem_sub {c : α} (h : c ∈ sub r repl l) : c ∈ l ∨ c ∈ repl := mem_subFrom h

/-- Two patterns of one shape, whose tests agree on the letters of a kind. -/
inductive AgreeOn (P : α → Prop) : Regex α → Regex α → Prop
  | refl (r : Regex α) : AgreeOn P r r
  | sat {test test' : α → Bool} (h : ∀ c, P c → test c = test' c) :
    AgreeOn P (sat test) (sat test')
  | seq {r r' s s' : Regex α} (hr : AgreeOn P r r') (hs : AgreeOn P s s') :
    AgreeOn P (seq r s) (seq r' s')
  | alt {r r' s s' : Regex α} (hr : AgreeOn P r r') (hs : AgreeOn P s s') :
    AgreeOn P (alt r s) (alt r' s')
  | star {r r' : Regex α} (hr : AgreeOn P r r') : AgreeOn P (star r) (star r')

variable {P : α → Prop}

theorem AgreeOn.seqs {rs rs' : List (Regex α)} (h : List.Forall₂ (AgreeOn P) rs rs') :
    AgreeOn P (seqs rs) (seqs rs') := by
  induction h with
  | nil => exact .refl _
  | cons hr hrs ih =>
    cases hrs with
    | nil => exact hr
    | cons hs hrs => exact .seq hr ih

theorem repeats_agree {r' : Regex α}
    (hrun : ∀ p : Place α, (∀ c ∈ p.after, P c) → run r p = run r' p) (hafter : ∀ c ∈ p.after, P c) :
    repeats (run r) n p = repeats (run r') n p := by
  induction n generalizing p with
  | zero => rfl
  | succ n ih =>
    rw [repeats, repeats, ← hrun p hafter]
    congr 1
    refine flatMap_congr fun q hq => ih fun c hc => ?_
    obtain ⟨w, hsplit, -⟩ := exists_read r p q (mem_filter.1 hq).1
    exact hafter c (by rw [hsplit]; exact mem_append_right w hc)

theorem run_agree {r r' : Regex α} (h : AgreeOn P r r') :
    ∀ p : Place α, (∀ c ∈ p.after, P c) → run r p = run r' p := by
  induction h with
  | refl r => exact fun p _ => rfl
  | sat htest =>
    intro p hafter
    rw [run, run]
    cases hp : p.after with
    | nil => rfl
    | cons c rest =>
      have hc := htest c (hafter c (by rw [hp]; exact mem_cons_self))
      dsimp only
      rw [hc]
  | seq hr hs ihr ihs =>
    intro p hafter
    rw [run, run, ← ihr p hafter]
    refine flatMap_congr fun q hq => ihs q fun c hc => ?_
    obtain ⟨w, hsplit, -⟩ := exists_read _ p q hq
    exact hafter c (by rw [hsplit]; exact mem_append_right w hc)
  | alt hr hs ihr ihs =>
    intro p hafter
    rw [run, run, ihr p hafter, ihs p hafter]
  | star hr ih => exact fun p hafter => repeats_agree ih hafter

/-- The two patterns match alike at every place of the text. -/
def MatchAlike (r s : Regex α) (l : List α) : Prop :=
  ∀ u v, l = u ++ v → matchAt r ⟨u.reverse, v, []⟩ = matchAt s ⟨u.reverse, v, []⟩

theorem subFrom_congr {u : List α} (h : MatchAlike r s (u ++ after)) :
    subFrom r repl n ⟨u.reverse, after, []⟩ = subFrom s repl n ⟨u.reverse, after, []⟩ := by
  induction n generalizing u after with
  | zero => rfl
  | succ n ih =>
    rw [subFrom, subFrom, ← h u after rfl]
    cases hmatch : matchAt r ⟨u.reverse, after, []⟩ with
    | some q =>
      obtain ⟨w, hafter, hbefore⟩ := exists_read_matchAt hmatch
      dsimp only at hafter hbefore ⊢
      subst hafter
      rw [← reverse_append] at hbefore
      rw [← append_assoc] at h
      rw [hbefore, ih h]
    | none =>
      cases after with
      | nil => rfl
      | cons c rest =>
        dsimp only
        rw [append_cons] at h
        have hrest := ih h
        rw [reverse_append] at hrest
        exact congrArg (c :: ·) hrest

theorem matchAlike_of_agreeOn (h : AgreeOn P r s) (hl : ∀ c ∈ l, P c) : MatchAlike r s l := by
  rintro u v rfl
  rw [matchAt, matchAt, run_agree h _ fun c hc => hl c (mem_append_right u hc)]

theorem sub_congr (h : MatchAlike r s l) : sub r repl l = sub s repl l :=
  subFrom_congr (u := []) h

/-! ### A change of form -/

/-- A place in the changed text. -/
def Place.map (f : α → α) (p : Place α) : Place α :=
  ⟨p.before.map f, p.after.map f, p.groups.map fun g => (g.1, g.2.map f)⟩

/-- The pattern does not tell a letter from its other form. -/
def Blind (f : α → α) : Regex α → Prop
  | eps => True
  | sat test => ∀ c, test (f c) = test c
  | edge test => ∀ before after, test (before.map f) (after.map f) = test before after
  | seq r s => Blind f r ∧ Blind f s
  | alt r s => Blind f r ∧ Blind f s
  | star r => Blind f r
  | group _ r => Blind f r

variable {f : α → α}

theorem Blind.seqs {rs : List (Regex α)} (h : ∀ r ∈ rs, Blind f r) : Blind f (seqs rs) := by
  induction rs with
  | nil => trivial
  | cons r rs ih =>
    have hr := h r mem_cons_self
    have hrs := ih fun s hs => h s (mem_cons_of_mem r hs)
    cases rs with
    | nil => exact hr
    | cons s rs => exact ⟨hr, hrs⟩

theorem Blind.exactly (h : Blind f r) (n : ℕ) : Blind f (exactly n r) := by
  induction n with
  | zero => trivial
  | succ n ih => exact ⟨h, ih⟩

theorem upto_map (f : α → α) (p q : Place α) : (p.map f).upto (q.map f) = (p.upto q).map f := by
  simp [Place.upto, Place.map, Place.offset, map_take, map_reverse]

theorem repeats_map (hr : ∀ p, run r (p.map f) = (run r p).map (Place.map f)) :
    repeats (run r) n (p.map f) = (repeats (run r) n p).map (Place.map f) := by
  induction n generalizing p with
  | zero => rfl
  | succ n ih =>
    have hfilter : ((run r p).map (Place.map f)).filter
          (fun q => q.after.length < (p.map f).after.length) =
        ((run r p).filter fun q => q.after.length < p.after.length).map (Place.map f) := by
      rw [filter_map]
      congr 1
      refine filter_congr fun q _ => ?_
      simp [Place.map]
    rw [repeats, repeats, hr, hfilter, map_append, flatMap_map, map_flatMap]
    congr 1
    refine flatMap_congr fun q _ => ?_
    exact ih

theorem run_map (r : Regex α) (h : Blind f r) :
    ∀ p, run r (p.map f) = (run r p).map (Place.map f) := by
  induction r with
  | eps => exact fun p => rfl
  | sat test =>
    intro p
    rw [run, run]
    cases hafter : p.after with
    | nil => simp [Place.map, hafter]
    | cons c rest =>
      have htest := h c
      cases hc : test c with
      | false => simp [Place.map, hafter, htest, hc]
      | true => simp [Place.map, hafter, htest, hc]
  | edge test =>
    intro p
    have htest := h p.before.head? p.after.head?
    rw [run, run]
    cases hc : test p.before.head? p.after.head? with
    | false => simp [Place.map, htest, hc]
    | true => simp [Place.map, htest, hc]
  | seq r s ihr ihs =>
    intro p
    rw [run, run, ihr h.1, flatMap_map, map_flatMap]
    exact flatMap_congr fun q _ => ihs h.2 q
  | alt r s ihr ihs =>
    intro p
    rw [run, run, ihr h.1, ihs h.2, map_append]
  | star r ih =>
    intro p
    rw [run, run, repeats_map (ih h)]
    simp [Place.map]
  | group name r ih =>
    intro p
    rw [run, run, ih h, map_map, map_map]
    refine map_congr_left fun q _ => ?_
    simp [Place.map, ← upto_map]

theorem matchAt_map (h : Blind f r) (p : Place α) :
    matchAt r (p.map f) = (matchAt r p).map (Place.map f) := by
  rw [matchAt, matchAt, run_map r h, List.head?_map]
  cases (run r p).head? with
  | none => rfl
  | some q =>
    rw [Option.map_some, Option.filter_some, Option.filter_some]
    simp only [Place.map, length_map]
    split_ifs
    · rfl
    · rfl

theorem subFrom_map (h : Blind f r) (hrepl : repl.map f = repl) (before after : List α) :
    subFrom r repl n ⟨before.map f, after.map f, []⟩ =
      (subFrom r repl n ⟨before, after, []⟩).map f := by
  induction n generalizing before after with
  | zero => rfl
  | succ n ih =>
    have hmap := matchAt_map h ⟨before, after, []⟩
    rw [Place.map, map_nil] at hmap
    rw [subFrom, subFrom, hmap]
    cases hmatch : matchAt r ⟨before, after, []⟩ with
    | some q =>
      have hrest := ih q.before q.after
      rw [map_append, hrepl, ← hrest]
      rfl
    | none =>
      cases after with
      | nil => rfl
      | cons c rest =>
        have hrest := ih (c :: before) rest
        exact congrArg (f c :: ·) hrest

theorem sub_map (h : Blind f r) (hrepl : repl.map f = repl) (l : List α) :
    sub r repl (l.map f) = (sub r repl l).map f := by
  rw [sub, sub, length_map]
  exact subFrom_map h hrepl [] l

/-! ### Runs of letters -/

/-- Every run of letters that pass a test becomes one text.  The flag says that a run has begun. -/
def squeeze (test : α → Bool) (repl : List α) : Bool → List α → List α
  | _, [] => []
  | inRun, c :: l =>
    if test c then (if inRun then [] else repl) ++ squeeze test repl true l
    else c :: squeeze test repl false l

attribute [grind =] squeeze

variable {test : α → Bool}

theorem squeeze_true (l : List α) :
    squeeze test repl true l = squeeze test repl false (l.dropWhile test) := by
  induction l with
  | nil => rfl
  | cons c l ih =>
    cases hc : test c with
    | true =>
      rw [squeeze, if_pos hc, if_pos rfl, nil_append, ih, dropWhile_cons_of_pos hc]
    | false => simp [squeeze, hc]

theorem length_squeeze_le (hrepl : repl.length ≤ 1) (inRun : Bool) (l : List α) :
    (squeeze test repl inRun l).length ≤ l.length := by
  induction l generalizing inRun with
  | nil => exact Nat.le_refl _
  | cons c l ih =>
    cases hc : test c with
    | false => simpa [squeeze, hc] using ih false
    | true =>
      have hrest := ih true
      cases inRun with
      | true => simpa [squeeze, hc] using Nat.le_succ_of_le hrest
      | false =>
        simp only [squeeze, hc, if_true, Bool.false_eq_true, if_false, length_append, length_cons]
        omega

/-- Every run of letters that pass a test is one blank.  The flag says that a run has begun. -/
def Squeezed (test : α → Bool) (blank : α) : Bool → List α → Prop
  | _, [] => True
  | inRun, c :: l => (test c = true → c = blank ∧ inRun = false) ∧ Squeezed test blank (test c) l

variable {blank : α}

theorem squeeze_of_squeezed {inRun : Bool} (h : Squeezed test blank inRun l) :
    squeeze test [blank] inRun l = l := by
  induction l generalizing inRun with
  | nil => rfl
  | cons c l ih =>
    have hrest := ih h.2
    cases hc : test c with
    | false =>
      rw [hc] at hrest
      simp [squeeze, hc, hrest]
    | true =>
      obtain ⟨rfl, rfl⟩ := h.1 hc
      rw [hc] at hrest
      simp [squeeze, hc, hrest]

theorem squeezed_squeeze (hblank : test blank = true) (inRun : Bool) (l : List α) :
    Squeezed test blank inRun (squeeze test [blank] inRun l) := by
  induction l generalizing inRun with
  | nil => trivial
  | cons c l ih =>
    cases hc : test c with
    | false => simp [squeeze, hc, Squeezed, ih]
    | true =>
      have hrest := ih true
      cases inRun with
      | true => simpa [squeeze, hc] using hrest
      | false => simpa [squeeze, hc, Squeezed, hblank] using hrest

theorem Squeezed.dropWhile {inRun : Bool} (h : Squeezed test blank inRun l) (inRun' : Bool) :
    Squeezed test blank inRun' (l.dropWhile test) := by
  induction l generalizing inRun with
  | nil => trivial
  | cons c l ih =>
    cases hc : test c with
    | true =>
      rw [dropWhile_cons_of_pos hc]
      exact ih h.2
    | false =>
      rw [dropWhile_cons_of_neg (by simp [hc])]
      exact ⟨fun htrue => absurd htrue (by simp [hc]), h.2⟩

theorem Squeezed.of_append {u v : List α} {inRun : Bool}
    (h : Squeezed test blank inRun (u ++ v)) : Squeezed test blank inRun u := by
  induction u generalizing inRun with
  | nil => trivial
  | cons c u ih => exact ⟨h.1, ih h.2⟩

theorem squeezed_append {u v : List α} {inRun : Bool} (hne : u ≠ [])
    (hu : ∀ c ∈ u, test c = false) (hv : Squeezed test blank false v) :
    Squeezed test blank inRun (u ++ v) := by
  induction u generalizing inRun with
  | nil => exact absurd rfl hne
  | cons c u ih =>
    have hc := hu c mem_cons_self
    refine ⟨fun htrue => absurd htrue (by simp [hc]), ?_⟩
    rw [hc]
    cases u with
    | nil => exact hv
    | cons d u => exact ih (cons_ne_nil _ _) fun e he => hu e (mem_cons_of_mem c he)

theorem words_squeeze {sep : α → Bool} (htest : ∀ c, test c = true → sep c = true)
    (hblank : test blank = true) (word l : List α) (inRun : Bool)
    (hword : inRun = true → word = []) :
    wordsFrom sep word (squeeze test [blank] inRun l) = wordsFrom sep word l := by
  induction l generalizing word inRun with
  | nil => rfl
  | cons c l ih =>
    cases hc : test c with
    | false =>
      simp only [squeeze, hc, Bool.false_eq_true, if_false]
      cases hsep : sep c with
      | true =>
        rw [wordsFrom_of_sep hsep, wordsFrom_of_sep hsep, words,
          ih [] false (absurd · Bool.false_ne_true)]
        rfl
      | false =>
        rw [wordsFrom_of_not_sep hsep, wordsFrom_of_not_sep hsep,
          ih _ false (absurd · Bool.false_ne_true)]
    | true =>
      have hsep := htest c hc
      have hrest := ih [] true fun _ => rfl
      rw [wordsFrom_of_sep hsep]
      cases inRun with
      | true =>
        rw [hword rfl]
        simpa [squeeze, hc, words, wordsFrom] using hrest
      | false =>
        simp only [squeeze, hc, if_true, Bool.false_eq_true, if_false, singleton_append]
        rw [wordsFrom_of_sep (htest blank hblank), words, hrest]
        rfl

theorem Place.move_of_after (hafter : p.after = l) : p.move [] l = p := by
  rw [← hafter]
  rfl

theorem head?_repeats_sat (hn : p.after.length ≤ n) : (repeats (run (sat test)) n p).head? =
      some (p.move (p.after.takeWhile test) (p.after.dropWhile test)) := by
  induction n generalizing p with
  | zero =>
    have hnil := length_eq_zero_iff.1 (Nat.le_zero.1 hn)
    rw [repeats, hnil, takeWhile_nil, dropWhile_nil, Place.move_of_after hnil]
    rfl
  | succ n ih =>
    rw [repeats, run]
    cases hafter : p.after with
    | nil =>
      rw [takeWhile_nil, dropWhile_nil, Place.move_of_after hafter]
      rfl
    | cons c rest =>
      rw [hafter, length_cons] at hn
      cases hc : test c with
      | false =>
        simp [hc, Place.move_of_after hafter]
      | true =>
        have hih := ih (p := p.move [c] rest) (Nat.le_of_succ_le_succ hn)
        simp only [Place.move, reverse_singleton, singleton_append] at hih
        simp [hc, Place.move, hih]

theorem matchAt_plus_sat (p : Place α) :
    matchAt (plus (sat test)) p =
      if p.after.head?.any test then
        some (p.move (p.after.takeWhile test) (p.after.dropWhile test))
      else none := by
  rw [matchAt, plus, run, run]
  cases hafter : p.after with
  | nil => rfl
  | cons c rest =>
    cases hc : test c with
    | false => simp [hc]
    | true =>
      have hhead : (run (star (sat test)) (p.move [c] rest)).head? =
          some ((p.move [c] rest).move (rest.takeWhile test) (rest.dropWhile test)) :=
        head?_repeats_sat (Nat.le_refl _)
      have hlength : (rest.dropWhile test).length ≤ rest.length :=
        (dropWhile_suffix test).length_le
      have hmove : p.move [c] rest = ⟨c :: p.before, rest, p.groups⟩ := rfl
      rw [hmove] at hhead
      simpa [hc, hhead, Place.move, Nat.lt_succ_iff] using hlength

theorem subFrom_plus_sat (hn : after.length ≤ n) :
    subFrom (plus (sat test)) repl n ⟨before, after, []⟩ = squeeze test repl false after := by
  induction n generalizing before after with
  | zero =>
    rw [length_eq_zero_iff.1 (Nat.le_zero.1 hn)]
    rfl
  | succ n ih =>
    rw [subFrom, matchAt_plus_sat]
    cases after with
    | nil => rfl
    | cons c rest =>
      have hrest := Nat.le_of_succ_le_succ hn
      cases hc : test c with
      | false => simp [squeeze, hc, ih hrest]
      | true =>
        have hdrop : (rest.dropWhile test).length ≤ n :=
          Nat.le_trans (dropWhile_suffix test).length_le hrest
        simp [squeeze, hc, Place.move, ih hdrop, squeeze_true]

/-- **The substitution of runs squeezes them.** -/
theorem sub_plus_sat (l : List α) : sub (plus (sat test)) repl l = squeeze test repl false l :=
  subFrom_plus_sat (Nat.le_refl _)

/-! ### Words -/

/-- The place is at an edge of a word. -/
def wordEdge (isWord : α → Bool) : Regex α :=
  edge fun before after => before.any isWord != after.any isWord

/-- Words of so many letters that pass a test. -/
def wholeWord (isWord : α → Bool) (k : ℕ) (test : α → Bool) : Regex α :=
  seqs [wordEdge isWord, atLeast k (sat test), wordEdge isWord]

theorem blind_wordEdge {isWord : α → Bool} (h : ∀ c, isWord (f c) = isWord c) :
    Blind f (wordEdge isWord) := by
  have hany : ∀ o : Option α, (o.map f).any isWord = o.any isWord := by
    intro o
    cases o with
    | none => rfl
    | some c => exact h c
  intro before after
  dsimp only
  rw [hany, hany]

theorem blind_wholeWord {isWord test : α → Bool} (hword : ∀ c, isWord (f c) = isWord c)
    (htest : ∀ c, test (f c) = test c) (k : ℕ) : Blind f (wholeWord isWord k test) := by
  have hsat : Blind f (sat test) := htest
  exact ⟨blind_wordEdge hword, ⟨hsat.exactly k, hsat⟩, blind_wordEdge hword⟩

theorem mem_run_exactly_sat {k : ℕ} : q ∈ run (exactly k (sat test)) p ↔
      ∃ w rest, p.after = w ++ rest ∧ w.length = k ∧ (∀ c ∈ w, test c = true) ∧
        q = p.move w rest := by
  induction k generalizing p with
  | zero =>
    rw [exactly, run, mem_singleton]
    constructor
    · rintro rfl
      exact ⟨[], q.after, rfl, rfl, fun _ h => absurd h not_mem_nil, rfl⟩
    · rintro ⟨w, rest, hafter, hlength, -, rfl⟩
      cases length_eq_zero_iff.1 hlength
      exact Place.move_of_after hafter
  | succ k ih =>
    rw [exactly, mem_run_seq]
    simp only [mem_run_sat, ih]
    constructor
    · rintro ⟨m, ⟨c, rest, hafter, hc, rfl⟩, w, rest', hrest, hlength, hw, rfl⟩
      change rest = w ++ rest' at hrest
      refine ⟨c :: w, rest', by rw [hafter, hrest, cons_append], ?_, ?_, ?_⟩
      · rw [length_cons, hlength]
      · exact forall_mem_cons.2 ⟨hc, hw⟩
      · simp [Place.move]
    · rintro ⟨w, rest, hafter, hlength, hw, rfl⟩
      cases w with
      | nil => cases hlength
      | cons c w =>
        refine ⟨p.move [c] (w ++ rest), ⟨c, w ++ rest, hafter, hw c mem_cons_self, rfl⟩,
          w, rest, rfl, Nat.succ.inj hlength, fun d hd => hw d (mem_cons_of_mem _ hd), ?_⟩
        simp [Place.move]

theorem mem_run_atLeast_sat {k : ℕ} : q ∈ run (atLeast k (sat test)) p ↔
      ∃ w rest, p.after = w ++ rest ∧ k ≤ w.length ∧ (∀ c ∈ w, test c = true) ∧
        q = p.move w rest := by
  rw [atLeast, mem_run_seq]
  simp only [mem_run_exactly_sat, mem_run_star_sat]
  constructor
  · rintro ⟨m, ⟨w, rest, hafter, hlength, hw, rfl⟩, w', rest', hrest, hw', rfl⟩
    change rest = w' ++ rest' at hrest
    refine ⟨w ++ w', rest', by rw [hafter, hrest, append_assoc], ?_, ?_, ?_⟩
    · rw [length_append, hlength]
      exact Nat.le_add_right k _
    · intro c hc
      exact (mem_append.1 hc).elim (hw c) (hw' c)
    · simp [Place.move]
  · rintro ⟨w, rest, hafter, hlength, hw, rfl⟩
    refine ⟨p.move (w.take k) (w.drop k ++ rest), ⟨w.take k, w.drop k ++ rest, ?_, ?_, ?_, rfl⟩,
      w.drop k, rest, rfl, fun c hc => hw c (mem_of_mem_drop hc), ?_⟩
    · rw [hafter, ← append_assoc, take_append_drop]
    · rw [length_take, Nat.min_eq_left hlength]
    · exact fun c hc => hw c (mem_of_mem_take hc)
    · have hw : w.reverse = (w.drop k).reverse ++ (w.take k).reverse := by
        rw [← reverse_append, take_append_drop]
      rw [Place.move, hw, append_assoc]
      rfl

variable {isWord : α → Bool} {k : ℕ}

theorem any_head?_reverse_append {w : List α} (hne : w ≠ []) (hw : ∀ c ∈ w, isWord c = true)
    (l : List α) : (w.reverse ++ l).head?.any isWord = true := by
  obtain ⟨w, c, rfl⟩ := (eq_nil_or_concat' w).resolve_left hne
  simp [hw c (by simp)]

theorem mem_run_atLeast_wordEdge (htest : ∀ c, test c = true → isWord c = true) (hk : 0 < k) :
    q ∈ run (seq (atLeast k (sat test)) (wordEdge isWord)) p ↔
      k ≤ (p.after.takeWhile isWord).length ∧ (∀ c ∈ p.after.takeWhile isWord, test c = true) ∧
        q = p.move (p.after.takeWhile isWord) (p.after.dropWhile isWord) := by
  have hlast : ∀ {w : List α} {rest}, w ≠ [] → (∀ c ∈ w, test c = true) →
      (p.move w rest).before.head?.any isWord = true :=
    fun hne hw => any_head?_reverse_append hne (fun c hc => htest c (hw c hc)) p.before
  rw [mem_run_seq]
  simp only [mem_run_atLeast_sat, wordEdge, mem_run_edge]
  constructor
  · rintro ⟨m, ⟨w, rest, hafter, hlength, hw, rfl⟩, hedge, rfl⟩
    have hne : w ≠ [] := ne_nil_of_length_pos (Nat.lt_of_lt_of_le hk hlength)
    rw [hlast hne hw] at hedge
    have hrest : rest.head?.any isWord = false := by simpa [Place.move] using hedge
    have htake : p.after.takeWhile isWord = w := by
      rw [hafter, takeWhile_append_of_pos fun c hc => htest c (hw c hc)]
      cases rest with
      | nil => simp
      | cons d rest =>
        have hd : isWord d = false := by simpa using hrest
        simp [hd]
    have hdrop : p.after.dropWhile isWord = rest := by
      rw [hafter, dropWhile_append_of_pos fun c hc => htest c (hw c hc)]
      cases rest with
      | nil => rfl
      | cons d rest =>
        have hd : isWord d = false := by simpa using hrest
        simp [hd]
    rw [htake, hdrop]
    exact ⟨hlength, hw, rfl⟩
  · rintro ⟨hlength, hw, rfl⟩
    have hne : p.after.takeWhile isWord ≠ [] :=
      ne_nil_of_length_pos (Nat.lt_of_lt_of_le hk hlength)
    refine ⟨_, ⟨_, _, takeWhile_append_dropWhile.symm, hlength, hw, rfl⟩, ?_, rfl⟩
    rw [hlast hne hw]
    cases hdrop : p.after.dropWhile isWord with
    | nil => rfl
    | cons d rest =>
      have hd := List.head?_dropWhile_not isWord p.after
      rw [hdrop] at hd
      simpa [Place.move] using hd

theorem matchAt_eq_ite {m : Place α} {cond : Prop} [Decidable cond]
    (hmem : ∀ q, q ∈ run r p ↔ cond ∧ q = m) (hprogress : cond → m.after.length < p.after.length) :
    matchAt r p = if cond then some m else none := by
  rw [matchAt_eq_head?]
  · split_ifs with hcond
    · cases hrun : run r p with
      | nil =>
        have hm := (hmem m).2 ⟨hcond, rfl⟩
        rw [hrun] at hm
        exact absurd hm not_mem_nil
      | cons q qs =>
        have hq : q ∈ run r p := by
          rw [hrun]
          exact mem_cons_self
        rw [((hmem q).1 hq).2]
        rfl
    · rw [List.head?_eq_none_iff, eq_nil_iff_forall_not_mem]
      exact fun q hq => hcond ((hmem q).1 hq).1
  · intro q hq
    obtain ⟨hcond, rfl⟩ := (hmem q).1 hq
    exact hprogress hcond

theorem length_dropWhile_lt (hk : 0 < k) (hlength : k ≤ (l.takeWhile isWord).length) :
    (l.dropWhile isWord).length < l.length := by
  have hsplit := congrArg List.length (takeWhile_append_dropWhile (p := isWord) (l := l))
  rw [length_append] at hsplit
  omega

theorem any_head?_of_takeWhile (hk : 0 < k) (hlength : k ≤ (l.takeWhile isWord).length) :
    l.head?.any isWord = true := by
  cases l with
  | nil => exact absurd hlength (Nat.not_le_of_lt hk)
  | cons c l =>
    cases hc : isWord c with
    | true => exact hc
    | false =>
      rw [takeWhile_cons_of_neg (by simp [hc])] at hlength
      exact absurd hlength (Nat.not_le_of_lt hk)

theorem matchAt_wholeWord (htest : ∀ c, test c = true → isWord c = true) (hk : 0 < k)
    (p : Place α) :
    matchAt (wholeWord isWord k test) p =
      if p.before.head?.any isWord = false ∧ k ≤ (p.after.takeWhile isWord).length ∧
          ∀ c ∈ p.after.takeWhile isWord, test c = true then
        some (p.move (p.after.takeWhile isWord) (p.after.dropWhile isWord))
      else none := by
  have hseq : wholeWord isWord k test =
      seq (wordEdge isWord) (seq (atLeast k (sat test)) (wordEdge isWord)) := rfl
  refine matchAt_eq_ite (fun q => ?_) fun hcond => length_dropWhile_lt hk hcond.2.1
  rw [hseq, mem_run_seq]
  constructor
  · rintro ⟨m, hm, hq⟩
    obtain ⟨hedge, rfl⟩ := mem_run_edge.1 hm
    obtain ⟨hlength, hw, rfl⟩ := (mem_run_atLeast_wordEdge htest hk).1 hq
    rw [any_head?_of_takeWhile hk hlength] at hedge
    exact ⟨⟨by simpa using hedge, hlength, hw⟩, rfl⟩
  · rintro ⟨⟨hbefore, hlength, hw⟩, rfl⟩
    refine ⟨p, mem_run_edge.2 ⟨?_, rfl⟩, (mem_run_atLeast_wordEdge htest hk).2 ⟨hlength, hw, rfl⟩⟩
    rw [hbefore, any_head?_of_takeWhile hk hlength]
    rfl

/-- A text with every word replaced, behind a word that has begun. -/
def mapWordsFrom (isWord : α → Bool) (g : List α → List α) : List α → List α → List α
  | word, [] => g word
  | word, c :: l =>
    if isWord c then mapWordsFrom isWord g (word ++ [c]) l
    else g word ++ c :: mapWordsFrom isWord g [] l

attribute [grind =] mapWordsFrom

/-- A text with every word replaced. -/
def mapWords (isWord : α → Bool) (g : List α → List α) (l : List α) : List α :=
  mapWordsFrom isWord g [] l

/-- What a word of so many letters that pass a test becomes. -/
def onWord (k : ℕ) (test : α → Bool) (repl w : List α) : List α :=
  if k ≤ w.length ∧ ∀ c ∈ w, test c = true then repl else w

variable {g : List α → List α}

theorem mapWordsFrom_eq (hg : g [] = []) (word l : List α) : mapWordsFrom isWord g word l =
      g (word ++ l.takeWhile isWord) ++ mapWords isWord g (l.dropWhile isWord) := by
  induction l generalizing word with
  | nil => simp [mapWordsFrom, mapWords, hg]
  | cons c l ih =>
    cases hc : isWord c with
    | true => rw [mapWordsFrom, if_pos hc, ih, takeWhile_cons_of_pos hc,
        dropWhile_cons_of_pos hc, append_assoc, singleton_append]
    | false => simp [mapWordsFrom, mapWords, hc, hg]

theorem subFrom_wholeWord (htest : ∀ c, test c = true → isWord c = true) (hk : 0 < k)
    (hn : after.length ≤ n) :
    subFrom (wholeWord isWord k test) repl n ⟨before, after, []⟩ =
      if before.head?.any isWord then
        after.takeWhile isWord ++ mapWords isWord (onWord k test repl) (after.dropWhile isWord)
      else mapWords isWord (onWord k test repl) after := by
  have hnil : onWord k test repl [] = [] := if_neg fun h => Nat.not_le_of_lt hk h.1
  induction n generalizing before after with
  | zero =>
    rw [length_eq_zero_iff.1 (Nat.le_zero.1 hn)]
    split_ifs <;> simp [subFrom, mapWords, mapWordsFrom, hnil]
  | succ n ih =>
    rw [subFrom, matchAt_wholeWord htest hk]
    cases after with
    | nil =>
      rw [if_neg fun h => Nat.not_le_of_lt hk h.2.1]
      split_ifs <;> simp [mapWords, mapWordsFrom, hnil]
    | cons c rest =>
      have hrest := Nat.le_of_succ_le_succ hn
      cases hbefore : before.head?.any isWord with
      | true =>
        -- inside a word nothing matches
        rw [if_neg fun h => Bool.noConfusion h.1]
        cases hc : isWord c with
        | true => simp [ih hrest, hc]
        | false => simp [ih hrest, hc, mapWords, mapWordsFrom, hnil]
      | false =>
        cases hc : isWord c with
        | false =>
          rw [if_neg fun h => Nat.not_le_of_lt hk (by simpa [hc] using h.2.1)]
          simp [ih hrest, hc, mapWords, mapWordsFrom, hnil]
        | true =>
          have hword : mapWords isWord (onWord k test repl) (c :: rest) =
              onWord k test repl (c :: rest.takeWhile isWord) ++
                mapWords isWord (onWord k test repl) (rest.dropWhile isWord) := by
            rw [mapWords, mapWordsFrom_eq hnil, takeWhile_cons_of_pos hc,
              dropWhile_cons_of_pos hc, nil_append]
          rw [takeWhile_cons_of_pos hc, dropWhile_cons_of_pos hc,
            if_neg Bool.false_ne_true, hword, onWord]
          by_cases hcond : k ≤ (c :: rest.takeWhile isWord).length ∧
              ∀ d ∈ c :: rest.takeWhile isWord, test d = true
          · have hdrop : (rest.dropWhile isWord).length ≤ n :=
              Nat.le_trans (dropWhile_suffix isWord).length_le hrest
            have hhead := any_head?_reverse_append (cons_ne_nil c _)
              (fun d hd => htest d (hcond.2 d hd)) before
            rw [if_pos hcond, if_pos ⟨rfl, hcond⟩]
            simp only [Place.move]
            rw [ih hdrop, if_pos hhead]
            cases hsplit : rest.dropWhile isWord with
            | nil => simp
            | cons d rest' =>
              have hd := List.head?_dropWhile_not isWord rest
              rw [hsplit] at hd
              have hd : isWord d = false := by simpa using hd
              simp [hd]
          · rw [if_neg hcond, if_neg fun h => hcond h.2]
            simp [ih hrest, hc]

/-- **The substitution of words goes word by word.** -/
theorem sub_wholeWord (htest : ∀ c, test c = true → isWord c = true) (hk : 0 < k) (l : List α) :
    sub (wholeWord isWord k test) repl l = mapWords isWord (onWord k test repl) l :=
  subFrom_wholeWord htest hk (Nat.le_refl _)

/-- What stands between words. -/
def separates (isWord : α → Bool) (c : α) : Bool := !isWord c

theorem words_mapWordsFrom (hg : g [] = []) (word l : List α) :
    words (separates isWord) (mapWordsFrom isWord g word l) =
      (wordsFrom (separates isWord) word l).flatMap fun w =>
        words (separates isWord) (g w) := by
  induction l generalizing word with
  | nil =>
    cases word with
    | nil => simp [mapWordsFrom, wordsFrom, hg]
    | cons c word => simp [mapWordsFrom, wordsFrom]
  | cons c l ih =>
    cases hc : isWord c with
    | true =>
      rw [mapWordsFrom, if_pos hc, ih, wordsFrom_of_not_sep (by simp [separates, hc])]
    | false =>
      have hsep : separates isWord c = true := by simp [separates, hc]
      rw [mapWordsFrom, if_neg (by simp [hc]), words_append_sep hsep,
        wordsFrom_of_sep hsep, ih, flatMap_append]
      cases word with
      | nil => simp [hg, wordsFrom, words]
      | cons d word => simp [wordsFrom, words]

theorem words_mapWords (hg : g [] = []) (l : List α) :
    words (separates isWord) (mapWords isWord g l) =
      (words (separates isWord) l).flatMap fun w =>
        words (separates isWord) (g w) := words_mapWordsFrom hg [] l

theorem wordsFrom_separates {word : List α} (hword : word ≠ []) (l : List α) :
    wordsFrom (separates isWord) word l =
      (word ++ l.takeWhile isWord) :: words (separates isWord) (l.dropWhile isWord) := by
  induction l generalizing word with
  | nil =>
    cases word with
    | nil => exact absurd rfl hword
    | cons c word => simp [wordsFrom]
  | cons c l ih =>
    cases hc : isWord c with
    | true =>
      rw [wordsFrom_of_not_sep (by simp [separates, hc]), ih (by simp),
        takeWhile_cons_of_pos hc, dropWhile_cons_of_pos hc, append_assoc,
        singleton_append]
    | false =>
      have hsep : separates isWord c = true := by simp [separates, hc]
      rw [wordsFrom_of_sep hsep, takeWhile_cons_of_neg (by simp [hc]),
        dropWhile_cons_of_neg (by simp [hc]), words_of_sep hsep, append_nil]
      cases word with
      | nil => exact absurd rfl hword
      | cons d word => rfl

theorem mem_words_append {u v : List α} (hu : u.reverse.head?.any isWord = false)
    (hv : v.takeWhile isWord ≠ []) :
    v.takeWhile isWord ∈ words (separates isWord) (u ++ v) := by
  rw [words_append]
  · refine mem_append_right _ ?_
    cases v with
    | nil => exact absurd rfl hv
    | cons c v =>
      cases hc : isWord c with
      | false => exact absurd (takeWhile_cons_of_neg (by simp [hc])) hv
      | true =>
        rw [words, wordsFrom_of_not_sep (by simp [separates, hc]),
          wordsFrom_separates (by simp), takeWhile_cons_of_pos hc]
        exact mem_cons_self
  · intro c hc
    rw [List.head?_reverse, Option.mem_def.1 hc] at hu
    simpa [separates] using hu

theorem search_wholeWord_eq_none (htest : ∀ c, test c = true → isWord c = true) (hk : 0 < k)
    (h : ∀ w ∈ words (separates isWord) l, ¬ (k ≤ w.length ∧ ∀ c ∈ w, test c = true)) :
    search (wholeWord isWord k test) l = none := by
  rw [← Option.not_isSome_iff_eq_none, search_isSome_iff]
  rintro ⟨u, v, rfl, -, hmatch⟩
  rw [matchAt_wholeWord htest hk] at hmatch
  split_ifs at hmatch with hcond
  · obtain ⟨hbefore, hlength, hw⟩ := hcond
    have hne : v.takeWhile isWord ≠ [] := ne_nil_of_length_pos (Nat.lt_of_lt_of_le hk hlength)
    exact h _ (mem_words_append hbefore hne) ⟨hlength, hw⟩
  · cases hmatch

end Omniscience.Regex
