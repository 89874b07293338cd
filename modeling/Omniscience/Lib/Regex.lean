import Mathlib.Data.List.Basic

/-!
# Backtracking regular expressions

A pattern is run at a place of a text and yields, in the order of preference, the places where a
match can end: the first alternative and the longer repetition come first, and what follows in a
sequence tries one end after the other.  The match is the first end.

* `findAll` : the matches of a pattern from left to right, each behind the one before.
-/

namespace Omniscience

open List

/-- A pattern over letters. -/
inductive Regex (α : Type*) where
  | eps
  | sat (test : α → Bool)
  /-- A test of the letters before and behind the place. -/
  | edge (test : Option α → Option α → Bool)
  | seq (r s : Regex α)
  | alt (r s : Regex α)
  | star (r : Regex α)
  | group (name : String) (r : Regex α)

namespace Regex

variable {α : Type*}

/-- A place in a text, with the text before it read backwards and the groups read so far. -/
structure Place (α : Type*) where
  before : List α
  after : List α
  groups : List (String × List α)

/-- The beginning of a text. -/
def start (l : List α) : Place α := ⟨[], l, []⟩

/-- The number of letters before a place. -/
def Place.offset (p : Place α) : ℕ := p.before.length

/-- What was read from one place to another. -/
def Place.upto (p q : Place α) : List α := (q.before.take (q.offset - p.offset)).reverse

/-- What a group has read. -/
def Place.group? (p : Place α) (name : String) : Option (List α) := p.groups.lookup name

/-- Repetitions that make progress, the longest first. -/
def repeats (f : Place α → List (Place α)) : ℕ → Place α → List (Place α)
  | 0, p => [p]
  | n + 1, p =>
    ((f p).filter fun q => q.after.length < p.after.length).flatMap (repeats f n) ++ [p]

/-- The ends of the matches at a place, in the order of preference. -/
def run : Regex α → Place α → List (Place α)
  | eps, p => [p]
  | sat test, p =>
    match p.after with
    | [] => []
    | c :: rest => if test c then [⟨c :: p.before, rest, p.groups⟩] else []
  | edge test, p => if test p.before.head? p.after.head? then [p] else []
  | seq r s, p => (run r p).flatMap (run s)
  | alt r s, p => run r p ++ run s p
  | star r, p => repeats (run r) p.after.length p
  | group name r, p => (run r p).map fun q => { q with groups := (name, p.upto q) :: q.groups }

attribute [grind =] run

/-- One or more. -/
def plus (r : Regex α) : Regex α := seq r (star r)

/-- At most one, rather one. -/
def opt (r : Regex α) : Regex α := alt r eps

/-- One letter. -/
def chr [DecidableEq α] (c : α) : Regex α := sat (· = c)

/-- One letter after the other. -/
def lit [DecidableEq α] : List α → Regex α
  | [] => eps
  | c :: l => seq (chr c) (lit l)

/-- One of several patterns. -/
def alts : List (Regex α) → Regex α
  | [] => sat fun _ => false
  | [r] => r
  | r :: rs => alt r (alts rs)

/-- One pattern after the other. -/
def seqs : List (Regex α) → Regex α
  | [] => eps
  | [r] => r
  | r :: rs => seq r (seqs rs)

/-- The match at a place, if it is not empty. -/
def matchAt (r : Regex α) (p : Place α) : Option (Place α) :=
  (run r p).head?.filter fun q => q.after.length < p.after.length

/-- The matches of a pattern that matches no empty text: each with its beginning and its end. -/
def findAllFrom (r : Regex α) : ℕ → Place α → List (Place α × Place α)
  | 0, _ => []
  | n + 1, p =>
    match matchAt r p with
    | some q => (p, q) :: findAllFrom r n ⟨q.before, q.after, []⟩
    | none =>
      match p.after with
      | [] => []
      | c :: rest => findAllFrom r n ⟨c :: p.before, rest, []⟩

/-- The matches in a text, from left to right. -/
def findAll (r : Regex α) (l : List α) : List (Place α × Place α) :=
  findAllFrom r l.length (start l)

/-- The first match in a text. -/
def search (r : Regex α) (l : List α) : Option (Place α × Place α) := (findAll r l).head?

/-- The text between the matches, behind a piece that has begun (read backwards). -/
def splitFrom (r : Regex α) : ℕ → List α → Place α → List (List α)
  | 0, piece, p => [piece.reverse ++ p.after]
  | n + 1, piece, p =>
    match matchAt r p with
    | some q => piece.reverse :: splitFrom r n [] ⟨q.before, q.after, []⟩
    | none =>
      match p.after with
      | [] => [piece.reverse]
      | c :: rest => splitFrom r n (c :: piece) ⟨c :: p.before, rest, []⟩

/-- The text cut at the matches of a pattern. -/
def split (r : Regex α) (l : List α) : List (List α) := splitFrom r l.length [] (start l)

/-! ### Ends of a match -/

/-- The place behind what is read. -/
def Place.move (p : Place α) (w rest : List α) : Place α := ⟨w.reverse ++ p.before, rest, p.groups⟩

variable {p q : Place α} {r s : Regex α} {l : List α}

@[simp] theorem Place.move_nil (p : Place α) : p.move [] p.after = p := rfl

theorem mem_run_seq : q ∈ run (seq r s) p ↔ ∃ m ∈ run r p, q ∈ run s m := mem_flatMap

theorem mem_run_edge {test : Option α → Option α → Bool} :
    q ∈ run (edge test) p ↔ test p.before.head? p.after.head? = true ∧ q = p := by
  rw [run]
  split_ifs with h
  · rw [mem_singleton, and_iff_right h]
  · exact ⟨fun hq => absurd hq not_mem_nil, fun hq => absurd hq.1 h⟩

variable {test : α → Bool}

theorem mem_run_sat :
    q ∈ run (sat test) p ↔ ∃ c rest, p.after = c :: rest ∧ test c = true ∧ q = p.move [c] rest := by
  rw [run]
  cases hafter : p.after with
  | nil => simp
  | cons c rest =>
    dsimp only
    split_ifs with h
    · rw [mem_singleton]
      constructor
      · rintro rfl
        exact ⟨c, rest, rfl, h, rfl⟩
      · rintro ⟨c', rest', heq, -, rfl⟩
        cases heq
        rfl
    · constructor
      · exact fun hq => absurd hq not_mem_nil
      · rintro ⟨c', rest', heq, htest, -⟩
        cases heq
        exact absurd htest h

theorem mem_run_lit [DecidableEq α] :
    q ∈ run (lit l) p ↔ ∃ rest, p.after = l ++ rest ∧ q = p.move l rest := by
  induction l generalizing p with
  | nil =>
    rw [lit, run, mem_singleton]
    constructor
    · rintro rfl
      exact ⟨q.after, rfl, rfl⟩
    · rintro ⟨rest, hafter, rfl⟩
      rw [nil_append] at hafter
      subst hafter
      rfl
  | cons c l ih =>
    rw [lit, mem_run_seq]
    simp only [chr, mem_run_sat, ih, decide_eq_true_eq]
    constructor
    · rintro ⟨m, ⟨c', rest', hafter, rfl, rfl⟩, rest, hrest, rfl⟩
      rw [Place.move] at hrest
      subst hrest
      exact ⟨rest, hafter, by simp [Place.move]⟩
    · rintro ⟨rest, hafter, rfl⟩
      exact ⟨p.move [c] (l ++ rest), ⟨c, l ++ rest, hafter, rfl, rfl⟩, rest, rfl,
        by simp [Place.move]⟩

theorem run_lit [DecidableEq α] :
    run (lit l) p = if l.isPrefixOf p.after then [p.move l (p.after.drop l.length)] else [] := by
  induction l generalizing p with
  | nil => rfl
  | cons c l ih =>
    rw [lit, run, chr, run]
    cases hafter : p.after with
    | nil => rfl
    | cons d rest =>
      dsimp only
      by_cases hd : d = c
      · subst hd
        rw [if_pos (decide_eq_true rfl), flatMap_singleton, ih]
        simp only [List.isPrefixOf, beq_self_eq_true, Bool.true_and, length_cons, drop_succ_cons,
          Place.move, reverse_cons, append_assoc, singleton_append]
      · have hne : (c == d) = false := beq_eq_false_iff_ne.2 (Ne.symm hd)
        rw [if_neg (by simpa using hd), flatMap_nil, List.isPrefixOf, hne, Bool.false_and]
        rfl

theorem mem_repeats_sat {n : ℕ} (hn : p.after.length ≤ n) : q ∈ repeats (run (sat test)) n p ↔
      ∃ w rest, p.after = w ++ rest ∧ (∀ c ∈ w, test c = true) ∧ q = p.move w rest := by
  induction n generalizing p with
  | zero =>
    have hnil := length_eq_zero_iff.1 (Nat.le_zero.1 hn)
    rw [repeats, mem_singleton]
    constructor
    · rintro rfl
      exact ⟨[], q.after, rfl, fun _ hc => absurd hc not_mem_nil, rfl⟩
    · rintro ⟨w, rest, hsplit, -, rfl⟩
      have hboth := append_eq_nil_iff.1 (hsplit.symm.trans hnil)
      rw [hboth.1, hboth.2]
      cases p
      cases hnil
      rfl
  | succ n ih =>
    rw [repeats, mem_append, mem_flatMap, mem_singleton]
    simp only [mem_filter, mem_run_sat, decide_eq_true_eq]
    constructor
    · rintro (⟨m, ⟨⟨c, rest, hafter, hc, rfl⟩, hlt⟩, hq⟩ | rfl)
      · have hlength : (p.move [c] rest).after.length ≤ n := by
          have : p.after.length = rest.length + 1 := by rw [hafter, length_cons]
          change rest.length ≤ n
          omega
        obtain ⟨w, rest', hsplit, hw, rfl⟩ := (ih hlength).1 hq
        change rest = w ++ rest' at hsplit
        refine ⟨c :: w, rest', by rw [hafter, hsplit, cons_append], ?_, ?_⟩
        · exact forall_mem_cons.2 ⟨hc, hw⟩
        · simp [Place.move]
      · exact ⟨[], q.after, rfl, fun _ hc => absurd hc not_mem_nil, rfl⟩
    · rintro ⟨w, rest, hsplit, hw, rfl⟩
      cases w with
      | nil =>
        right
        rw [nil_append] at hsplit
        subst hsplit
        rfl
      | cons c w =>
        left
        have hlength : p.after.length = (w ++ rest).length + 1 := by
          rw [hsplit, cons_append, length_cons]
        refine ⟨p.move [c] (w ++ rest), ⟨⟨c, w ++ rest, hsplit, hw c mem_cons_self, rfl⟩, ?_⟩,
          (ih ?_).2 ⟨w, rest, rfl, fun d hd => hw d (mem_cons_of_mem _ hd), ?_⟩⟩
        · change (w ++ rest).length < p.after.length
          omega
        · change (w ++ rest).length ≤ n
          omega
        · simp [Place.move]

theorem mem_run_star_sat : q ∈ run (star (sat test)) p ↔
      ∃ w rest, p.after = w ++ rest ∧ (∀ c ∈ w, test c = true) ∧ q = p.move w rest :=
  mem_repeats_sat (Nat.le_refl _)

/-- The longest repetition of letters behind which a test holds. -/
def longestEnd (test : α → Bool) (atEnd : Option α → Option α → Bool) : ℕ → Place α →
    Option (Place α)
  | 0, p => if atEnd p.before.head? p.after.head? then some p else none
  | n + 1, p =>
    (match p.after with
      | [] => none
      | c :: rest => if test c then longestEnd test atEnd n (p.move [c] rest) else none).or
      (if atEnd p.before.head? p.after.head? then some p else none)

theorem head?_repeats_edge {atEnd : Option α → Option α → Bool} {n : ℕ} {p : Place α} :
    ((repeats (run (sat test)) n p).flatMap (run (edge atEnd))).head? =
      longestEnd test atEnd n p := by
  have hedge (p : Place α) : (run (edge atEnd) p).head? =
      if atEnd p.before.head? p.after.head? then some p else none := by
    rw [run]
    split_ifs <;> rfl
  induction n generalizing p with
  | zero => rw [repeats, flatMap_singleton, hedge, longestEnd]
  | succ n ih =>
    rw [repeats, flatMap_append, List.head?_append, flatMap_singleton, hedge, longestEnd]
    congr 1
    rw [run]
    cases hafter : p.after with
    | nil => rfl
    | cons c rest =>
      dsimp only
      split_ifs with hc
      · rw [filter_cons_of_pos (by simp), filter_nil, flatMap_singleton, ← ih]
        rfl
      · rfl

/-! ### Searching -/

theorem matchAt_eq_some_imp (h : matchAt r p = some q) :
    q ∈ run r p ∧ q.after.length < p.after.length := by
  rw [matchAt, Option.filter_eq_some_iff, decide_eq_true_iff] at h
  exact ⟨List.mem_of_head? h.1, h.2⟩

theorem matchAt_eq_head? (hprogress : ∀ q ∈ run r p, q.after.length < p.after.length) :
    matchAt r p = (run r p).head? := by
  rw [matchAt]
  cases hrun : run r p with
  | nil => rfl
  | cons m ms =>
    have hm := hprogress m (by rw [hrun]; exact mem_cons_self)
    rw [List.head?_cons, Option.filter_some, if_pos (decide_eq_true hm)]

theorem matchAt_isSome (hprogress : ∀ q ∈ run r p, q.after.length < p.after.length)
    (hq : q ∈ run r p) : (matchAt r p).isSome := by
  rw [matchAt_eq_head? hprogress, List.isSome_head?]
  exact ne_nil_of_mem hq

theorem findAllFrom_eq_nil_iff {n : ℕ} {before after : List α} (hn : after.length ≤ n) :
    findAllFrom r n ⟨before, after, []⟩ = [] ↔
      ∀ u v, after = u ++ v → v ≠ [] → matchAt r ⟨u.reverse ++ before, v, []⟩ = none := by
  induction n generalizing before after with
  | zero =>
    rw [length_eq_zero_iff.1 (Nat.le_zero.1 hn)]
    refine ⟨fun _ u v hsplit hv => ?_, fun _ => rfl⟩
    exact absurd (append_eq_nil_iff.1 hsplit.symm).2 hv
  | succ n ih =>
    rw [findAllFrom]
    cases hmatch : matchAt r ⟨before, after, []⟩ with
    | some q =>
      have hne : after ≠ [] := by
        rintro rfl
        exact absurd (matchAt_eq_some_imp hmatch).2 (Nat.not_lt_zero _)
      refine ⟨fun h => absurd h (cons_ne_nil _ _), fun h => ?_⟩
      have := h [] after rfl hne
      rw [reverse_nil, nil_append, hmatch] at this
      cases this
    | none =>
      cases after with
      | nil =>
        refine ⟨fun _ u v hsplit hv => ?_, fun _ => rfl⟩
        exact absurd (append_eq_nil_iff.1 hsplit.symm).2 hv
      | cons c rest =>
        dsimp only
        rw [ih (Nat.le_of_succ_le_succ hn)]
        constructor
        · intro h u v hsplit hv
          cases u with
          | nil =>
            rw [nil_append] at hsplit
            subst hsplit
            exact hmatch
          | cons d u =>
            obtain ⟨rfl, rfl⟩ := List.cons.inj hsplit
            rw [reverse_cons, append_assoc]
            exact h u v rfl hv
        · intro h u v hsplit hv
          have := h (c :: u) v (by rw [hsplit, cons_append]) hv
          rwa [reverse_cons, append_assoc] at this

theorem search_isSome_iff :
    (search r l).isSome ↔ ∃ u v, l = u ++ v ∧ v ≠ [] ∧ (matchAt r ⟨u.reverse, v, []⟩).isSome := by
  rw [search, List.isSome_head?, findAll, start, ne_eq, findAllFrom_eq_nil_iff (Nat.le_refl _)]
  simp only [append_nil, not_forall, Option.isSome_iff_ne_none]
  constructor
  · rintro ⟨u, v, hsplit, hv, hmatch⟩
    exact ⟨u, v, hsplit, hv, hmatch⟩
  · rintro ⟨u, v, hsplit, hv, hmatch⟩
    exact ⟨u, v, hsplit, hv, hmatch⟩

end Regex

end Omniscience
