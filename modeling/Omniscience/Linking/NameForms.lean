import Omniscience.Lib.Trimming
import Omniscience.Linking.Matchers
import Omniscience.Retrieval.IncidentSignatures

/-!
# Normal forms of entity names

`normalize_entity_name` (`omniscience_index/matchers.py`) removes the known prefixes of a lowered
name, then turns its separators into underscores, then cuts the underscores off at both ends.  A
prefix that is written with a separator (`k8s-nginx-pod`) is therefore not seen, and may be seen
when the result is normalised again.

What is left of a name behind its known prefixes is its `Rest`, and the rest without separators and
underscores at the ends is its `Core`; the normal form is the core with its runs of separators
replaced (`normalChars_of_core`).

* `normalize_idempotent_iff`, `normalize_replaced_iff`, `exactNameMatch_nonEmpty_iff` : when the
  normal form is stable, when it does not depend on the separators, and when a match means
  something.
-/

namespace Omniscience.Linking

open Clustering (Letters)
open List
open Trimming (trim Solid)

/-! ### Prefixes -/

/-- The known prefixes without their underscores. -/
def prefixWords : List (List Char) := stripPrefixes.map fun p => p.toList.dropLast

/-- A separator or an underscore. -/
def isEdge (c : Char) : Bool := isSeparator c || c == '_'

/-- One of the two small sigmas, of which the last letter of a word takes the second one. -/
def isSigma (c : Char) : Bool := c == '\u03C3' || c == '\u03C2'

theorem prefixWords_plain :
    ∀ w ∈ prefixWords, w ≠ [] ∧ ∀ c ∈ w, isEdge c = false ∧ isSigma c = false := by
  decide

theorem toList_stripPrefixes : ∀ p ∈ stripPrefixes, p.toList = p.toList.dropLast ++ ['_'] := by
  decide

theorem prefixWords_eq :
    ∀ w ∈ prefixWords, ∀ v ∈ prefixWords, (w ++ ['_']).isPrefixOf (v ++ ['_']) = true → w = v := by
  decide

/-- The characters begin with a known prefix. -/
def StartsKnown (l : List Char) : Prop := ∃ w ∈ prefixWords, w ++ ['_'] <+: l

theorem stripOne_eq_some {l rest : List Char} (h : stripOne l = some rest) :
    ∃ w ∈ prefixWords, l = w ++ '_' :: rest := by
  obtain ⟨p, hp, rfl⟩ := Option.map_eq_some_iff.1 h
  have hmem := mem_of_find?_eq_some hp
  have hprefix : p.toList <+: l := by simpa using find?_some hp
  obtain ⟨rest, rfl⟩ := hprefix
  refine ⟨p.toList.dropLast, mem_map_of_mem hmem, ?_⟩
  rw [drop_left]
  conv_lhs => rw [toList_stripPrefixes p hmem]
  simp

variable {l : List Char}

theorem stripOne_eq_none_iff : stripOne l = none ↔ ¬ StartsKnown l := by
  rw [stripOne, Option.map_eq_none_iff, find?_eq_none, StartsKnown, prefixWords]
  simp only [mem_map, isPrefixOf_iff_prefix, not_exists, not_and]
  constructor
  · rintro h w ⟨p, hp, rfl⟩
    rw [← toList_stripPrefixes p hp]
    exact h p hp
  · intro h p hp
    rw [toList_stripPrefixes p hp]
    exact h _ ⟨p, hp, rfl⟩

theorem stripOne_known {w rest : List Char} (hw : w ∈ prefixWords) :
    stripOne (w ++ '_' :: rest) = some rest := by
  cases h : stripOne (w ++ '_' :: rest) with
  | none =>
    refine absurd ⟨w, hw, ?_⟩ (stripOne_eq_none_iff.1 h)
    exact ⟨rest, by simp⟩
  | some rest' =>
    obtain ⟨v, hv, heq⟩ := stripOne_eq_some h
    -- two prefixes of the same characters are comparable
    have hwl : w ++ ['_'] <+: w ++ '_' :: rest := ⟨rest, by simp⟩
    have hvl : v ++ ['_'] <+: w ++ '_' :: rest := heq ▸ ⟨rest', by simp⟩
    have hwv : w = v := by
      rcases prefix_or_prefix_of_prefix hwl hvl with hle | hle
      · exact prefixWords_eq w hw v hv ( isPrefixOf_iff_prefix.2 hle)
      · exact (prefixWords_eq v hv w hw ( isPrefixOf_iff_prefix.2 hle)).symm
    subst hwv
    simpa using heq.symm

theorem stripAll_of_le {fuel : ℕ} (h : l.length ≤ fuel) :
    stripAll fuel l = stripAll l.length l := by
  induction hn : l.length using Nat.strongRecOn generalizing l fuel with
  | ind n ih =>
    cases fuel with
    | zero =>
      have : n = 0 := by omega
      rw [this]
    | succ fuel =>
      cases n with
      | zero =>
        obtain rfl := length_eq_zero_iff.1 hn
        rfl
      | succ n =>
        rw [stripAll, stripAll]
        cases hone : stripOne l with
        | none => rfl
        | some rest =>
          have hlt := length_stripOne hone
          have hfuel := ih rest.length (by omega) (show rest.length ≤ fuel by omega) rfl
          have hself := ih rest.length (by omega) (show rest.length ≤ n by omega) rfl
          exact hfuel.trans hself.symm

/-- What stands behind the known prefixes. -/
def stripped (l : List Char) : List Char := stripAll l.length l

theorem stripped_of_none (h : ¬ StartsKnown l) : stripped l = l := by
  rw [stripped]
  cases hn : l.length with
  | zero => rfl
  | succ n => rw [stripAll, stripOne_eq_none_iff.2 h]

theorem stripped_known {w rest : List Char} (hw : w ∈ prefixWords) :
    stripped (w ++ '_' :: rest) = stripped rest := by
  rw [stripped, stripped, length_append, length_cons, ← Nat.add_assoc, stripAll, stripOne_known hw]
  exact stripAll_of_le (by omega)

theorem not_startsKnown_stripped (l : List Char) : ¬ StartsKnown (stripped l) :=
  stripOne_eq_none_iff.1 (stripOne_stripAll (Nat.le_refl _))

/-- The characters are known prefixes, one behind the other. -/
def Stacked (pre : List Char) : Prop :=
  ∃ ws : List (List Char), (∀ w ∈ ws, w ∈ prefixWords) ∧ pre = ws.flatMap (· ++ ['_'])

theorem stripped_stacked {pre : List Char} (h : Stacked pre) (rest : List Char) :
    stripped (pre ++ rest) = stripped rest := by
  obtain ⟨ws, hws, rfl⟩ := h
  induction ws with
  | nil => rfl
  | cons w ws ih =>
    rw [flatMap_cons, append_assoc, append_assoc, singleton_append,
      stripped_known (hws w mem_cons_self)]
    exact ih fun v hv => hws v (mem_cons_of_mem _ hv)

theorem exists_stacked (l : List Char) : ∃ pre, Stacked pre ∧ l = pre ++ stripped l := by
  induction hn : l.length using Nat.strongRecOn generalizing l with
  | ind n ih =>
    cases hone : stripOne l with
    | none =>
      refine ⟨[], ⟨[], by simp, rfl⟩, ?_⟩
      rw [stripped_of_none (stripOne_eq_none_iff.1 hone), nil_append]
    | some rest =>
      obtain ⟨w, hw, rfl⟩ := stripOne_eq_some hone
      obtain ⟨pre, ⟨ws, hws, rfl⟩, hrest⟩ := ih rest.length (hn ▸ length_stripOne hone) rest rfl
      refine ⟨_, ⟨w :: ws, ?_, rfl⟩, ?_⟩
      · simpa using ⟨hw, hws⟩
      · rw [stripped_known hw]
        simpa using hrest

/-- `rest` is what stands behind the known prefixes of `l`. -/
def Rest (l rest : List Char) : Prop :=
  ∃ pre, Stacked pre ∧ l = pre ++ rest ∧ ¬ StartsKnown rest

theorem rest_iff {l rest : List Char} : Rest l rest ↔ rest = stripped l := by
  constructor
  · rintro ⟨pre, hpre, rfl, hrest⟩
    rw [stripped_stacked hpre, stripped_of_none hrest]
  · rintro rfl
    obtain ⟨pre, hpre, hl⟩ := exists_stacked l
    exact ⟨pre, hpre, hl, not_startsKnown_stripped l⟩

/-! ### Separators -/

/-- `_RE_SEPARATORS.sub` of a separator that stands alone. -/
def unify (c : Char) : Char := if isSeparator c then '_' else c

/-- The last character, or what stood before, is a separator. -/
def runBehind (inRun : Bool) (l : List Char) : Bool := (l.getLast?.map isSeparator).getD inRun

theorem subSeparators_append (inRun : Bool) (l l' : List Char) : subSeparators inRun (l ++ l') =
      subSeparators inRun l ++ subSeparators (runBehind inRun l) l' := by
  induction l generalizing inRun with
  | nil => rfl
  | cons c l ih =>
    have hrun : runBehind (isSeparator c) l = runBehind inRun (c :: l) := by
      cases l with
      | nil => rfl
      | cons d l => simp [runBehind, getLast?_cons]
    rw [cons_append, subSeparators, subSeparators]
    cases hc : isSeparator c with
    | false => rw [hc] at hrun; simp [ih, hrun]
    | true => rw [hc] at hrun; cases inRun <;> simp [ih, hrun]

theorem mem_subSeparators {inRun : Bool} {c : Char} (h : c ∈ subSeparators inRun l) :
    c = '_' ∨ c ∈ l ∧ isSeparator c = false := by
  induction l generalizing inRun with
  | nil => cases h
  | cons d l ih =>
    rw [subSeparators] at h
    split at h
    · split at h
      · exact (ih h).imp_right (And.imp_left (mem_cons_of_mem d))
      · rcases mem_cons.1 h with rfl | h
        · exact .inl rfl
        · exact (ih h).imp_right (And.imp_left (mem_cons_of_mem d))
    · rename_i hd
      rcases mem_cons.1 h with rfl | h
      · exact .inr ⟨mem_cons_self, by simpa using hd⟩
      · exact (ih h).imp_right (And.imp_left (mem_cons_of_mem d))

theorem isEdge_of_isSeparator {c : Char} (h : isSeparator c = true) : isEdge c = true := by
  simp [isEdge, h]

theorem subSeparators_edges {inRun : Bool} (h : ∀ c ∈ l, isEdge c = true) :
    ∀ c ∈ subSeparators inRun l, (c == '_') = true := by
  intro c hc
  rcases mem_subSeparators hc with rfl | ⟨hmem, hsep⟩
  · rfl
  · simpa [isEdge, hsep] using h c hmem

theorem length_subSeparators_le (inRun : Bool) (l : List Char) :
    (subSeparators inRun l).length ≤ l.length := by
  induction l generalizing inRun with
  | nil => exact Nat.le_refl 0
  | cons c l ih =>
    have htrue := ih true
    have hfalse := ih false
    rw [subSeparators]
    split
    · split
      · rw [length_cons]; omega
      · simpa using htrue
    · simpa using hfalse

/-- The number of characters that are neither separators nor underscores. -/
def letterCount (l : List Char) : ℕ := l.countP fun c => !isEdge c

theorem letterCount_subSeparators (inRun : Bool) (l : List Char) :
    letterCount (subSeparators inRun l) = letterCount l := by
  have hline : isEdge '_' = true := rfl
  induction l generalizing inRun with
  | nil => rfl
  | cons c l ih =>
    rw [subSeparators]
    cases hc : isSeparator c with
    | true =>
      have hedge := isEdge_of_isSeparator hc
      cases inRun <;> simp_all [letterCount]
    | false => simp_all [letterCount, countP_cons]

/-- Two separators stand next to each other. -/
def HasDouble (l : List Char) : Prop :=
  ∃ u c₁ c₂ v, l = u ++ c₁ :: c₂ :: v ∧ isSeparator c₁ = true ∧ isSeparator c₂ = true

theorem length_subSeparators_lt (h : HasDouble l) (inRun : Bool) :
    (subSeparators inRun l).length < l.length := by
  obtain ⟨u, c₁, c₂, v, rfl, h₁, h₂⟩ := h
  have hu := length_subSeparators_le inRun u
  have hv := length_subSeparators_le true v
  rw [subSeparators_append]
  cases runBehind inRun u <;> simp [subSeparators, h₁, h₂] <;> omega

theorem subSeparators_eq_map (h : ¬ HasDouble l) {inRun : Bool}
    (hrun : inRun = true → ∀ c ∈ l.head?, isSeparator c = false) :
    subSeparators inRun l = l.map unify := by
  induction l generalizing inRun with
  | nil => rfl
  | cons c l ih =>
    have htail : ¬ HasDouble l := by
      rintro ⟨u, c₁, c₂, v, rfl, h₁, h₂⟩
      exact h ⟨c :: u, c₁, c₂, v, rfl, h₁, h₂⟩
    rw [subSeparators]
    cases hc : isSeparator c with
    | false => simp [unify, hc, @ih htail false (by simp)]
    | true =>
      have hfalse : inRun = false := by
        cases inRun with
        | false => rfl
        | true => simp [hrun rfl c rfl] at hc
      have hnext : ∀ d ∈ l.head?, isSeparator d = false := by
        intro d hd
        cases l with
        | nil => cases hd
        | cons e l =>
          obtain rfl : e = d := by simpa using hd
          by_contra hsep
          exact h ⟨[], c, e, l, rfl, hc, by simpa using hsep⟩
      simp [unify, hc, hfalse, ih htail fun _ => hnext]

theorem map_unify_of_plain (h : ∀ c ∈ l, isSeparator c = false) : l.map unify = l := by
  refine (map_congr_left fun c hc => ?_).trans (map_id l)
  simp [unify, h c hc]

theorem not_hasDouble_of_plain (h : ∀ c ∈ l, isSeparator c = false) : ¬ HasDouble l := by
  rintro ⟨u, c₁, c₂, v, rfl, h₁, -⟩
  simp [h c₁ (by simp)] at h₁

/-- The normal form of lowered characters. -/
def normalChars (l : List Char) : List Char := trim (· == '_') (subSeparators false (stripped l))

/-- The core of `l`: what stands behind the known prefixes, without the separators and underscores
at its ends. -/
def Core (l core : List Char) : Prop :=
  ∃ lead trail, Rest l (lead ++ core ++ trail) ∧ (∀ c ∈ lead, isEdge c = true) ∧
    Solid isEdge core ∧ ∀ c ∈ trail, isEdge c = true

theorem exists_core (l : List Char) : ∃ core, Core l core := by
  obtain ⟨lead, core, trail, hparts, hlead, hcore, htrail⟩ :=
    Trimming.exists_parts isEdge (stripped l)
  exact ⟨core, lead, trail, rest_iff.2 hparts.symm, hlead, hcore, htrail⟩

theorem solid_subSeparators {core : List Char} (h : Solid isEdge core) (inRun : Bool) :
    Solid (· == '_') (subSeparators inRun core) ∧
      subSeparators inRun core = subSeparators false core := by
  have hplain {c : Char} (hc : isEdge c = false) : isSeparator c = false ∧ (c == '_') = false := by
    simpa [isEdge] using hc
  cases core with
  | nil => exact ⟨⟨by simp [subSeparators], by simp [subSeparators]⟩, rfl⟩
  | cons c cs =>
    have hc := hplain (h.1 c rfl)
    have heq : subSeparators inRun (c :: cs) = c :: subSeparators false cs := by
      simp [subSeparators, hc.1]
    refine ⟨⟨?_, fun d hd => ?_⟩, by simp [subSeparators, hc.1]⟩
    · rw [heq]
      rintro _ ⟨⟩
      exact hc.2
    · -- the last character of the core is no separator and ends the result
      obtain ⟨init, e, hinit⟩ : ∃ init e, c :: cs = init ++ [e] :=
        ⟨_, _, (dropLast_append_getLast (cons_ne_nil c cs)).symm⟩
      have he := hplain (h.2 e (by simp [hinit]))
      rw [hinit, subSeparators_append] at hd
      simp only [subSeparators, he.1, Bool.false_eq_true, ↓reduceIte, getLast?_append,
        getLast?_singleton, Option.some_or, Option.mem_def, Option.some.injEq] at hd
      rw [← hd]
      exact he.2

/-- **The normal form is the core** with its runs of separators replaced. -/
theorem normalChars_of_core {l core : List Char} (h : Core l core) :
    normalChars l = subSeparators false core := by
  obtain ⟨lead, trail, hrest, hlead, hcore, htrail⟩ := h
  rw [normalChars, ← rest_iff.1 hrest, subSeparators_append, subSeparators_append,
    (solid_subSeparators hcore _).2]
  exact Trimming.trim_parts (subSeparators_edges hlead) (solid_subSeparators hcore false).1
    (subSeparators_edges htrail)

theorem letterCount_edges (h : ∀ c ∈ l, isEdge c = true) : letterCount l = 0 := by
  rw [letterCount, countP_eq_zero]
  intro c hc
  simp [h c hc]

theorem letterCount_normalChars (l : List Char) :
    letterCount (normalChars l) = letterCount (stripped l) := by
  obtain ⟨core, hcore⟩ := exists_core l
  obtain ⟨lead, trail, hrest, hlead, -, htrail⟩ := id hcore
  have hl := letterCount_edges hlead
  have ht := letterCount_edges htrail
  rw [normalChars_of_core hcore, letterCount_subSeparators, ← rest_iff.1 hrest]
  simp only [letterCount, countP_append] at hl ht ⊢
  omega

/-! ### A normal form that is normalised again -/

/-- The core of `l` begins with a known prefix whose underscore may be written as a separator. -/
def Exposed (l : List Char) : Prop :=
  ∃ w c tail, w ∈ prefixWords ∧ isEdge c = true ∧ Core l (w ++ c :: tail)

theorem startsKnown_subSeparators_iff {core : List Char} : StartsKnown (subSeparators false core) ↔
      ∃ w c tail, w ∈ prefixWords ∧ isEdge c = true ∧ core = w ++ c :: tail := by
  have hword (w : List Char) (hw : ∀ c ∈ w, isEdge c = false ∧ isSigma c = false)
      (core : List Char) : w ++ ['_'] <+: subSeparators false core ↔
        ∃ c tail, isEdge c = true ∧ core = w ++ c :: tail := by
    induction w generalizing core with
    | nil =>
      cases core with
      | nil => simp [subSeparators]
      | cons c cs =>
        rw [subSeparators]
        cases hc : isSeparator c with
        | true => simp [cons_prefix_cons, isEdge_of_isSeparator hc]
        | false =>
          have hedge : isEdge c = true ↔ '_' = c := by simp [isEdge, hc, eq_comm (a := c)]
          simp [cons_prefix_cons, hedge]
    | cons a w ih =>
      have ha := (hw a mem_cons_self).1
      have ih := ih fun c hc => hw c (mem_cons_of_mem a hc)
      cases core with
      | nil => simp [subSeparators]
      | cons c cs =>
        rw [subSeparators]
        cases hc : isSeparator c with
        | true =>
          have hac : a ≠ c := by
            rintro rfl
            rw [isEdge_of_isSeparator hc] at ha
            cases ha
          have hline : a ≠ '_' := by
            rintro rfl
            cases ha
          simp [cons_prefix_cons, hline, hac.symm]
        | false =>
          simp only [Bool.false_eq_true, ↓reduceIte, cons_append, cons_prefix_cons, ih,
            cons.injEq]
          constructor
          · rintro ⟨rfl, d, tail, hd, rfl⟩
            exact ⟨d, tail, hd, rfl, rfl⟩
          · rintro ⟨d, tail, hd, rfl, rfl⟩
            exact ⟨rfl, d, tail, hd, rfl⟩
  simp only [StartsKnown]
  constructor
  · rintro ⟨w, hw, h⟩
    obtain ⟨c, tail, hc, hcore⟩ := (hword w (prefixWords_plain w hw).2 core).1 h
    exact ⟨w, c, tail, hw, hc, hcore⟩
  · rintro ⟨w, c, tail, hw, hc, hcore⟩
    exact ⟨w, hw, (hword w (prefixWords_plain w hw).2 core).2 ⟨c, tail, hc, hcore⟩⟩

theorem plain_subSeparators {inRun : Bool} :
    ∀ c ∈ subSeparators inRun l, isSeparator c = false := by
  intro c hc
  rcases mem_subSeparators hc with rfl | ⟨-, h⟩
  · rfl
  · exact h

theorem length_stripped_le (l : List Char) : (stripped l).length ≤ l.length := by
  obtain ⟨pre, -, hl⟩ := exists_stacked l
  conv_rhs => rw [hl]
  rw [length_append]
  omega

theorem length_normalChars_le (l : List Char) : (normalChars l).length ≤ (stripped l).length :=
  (( rdropWhile_prefix _ _).length_le.trans (dropWhile_suffix _).length_le).trans
    (length_subSeparators_le _ _)

/-- **A normal form is stable** exactly if no known prefix is exposed. -/
theorem normalChars_normalChars_iff (l : List Char) :
    normalChars (normalChars l) = normalChars l ↔ ¬ Exposed l := by
  have hsolid {core : List Char} (h : Core l core) : Solid (· == '_') (normalChars l) := by
    rw [normalChars_of_core h]
    obtain ⟨_, _, _, _, hcore, _⟩ := h
    exact (solid_subSeparators hcore false).1
  have hplain : ∀ c ∈ normalChars l, isSeparator c = false := by
    obtain ⟨core, hcore⟩ := exists_core l
    rw [normalChars_of_core hcore]
    exact plain_subSeparators
  constructor
  · rintro h ⟨w, c, tail, hw, hc, hcore⟩
    have hstarts : StartsKnown (normalChars l) := by
      rw [normalChars_of_core hcore]
      exact startsKnown_subSeparators_iff.2 ⟨w, c, tail, hw, hc, rfl⟩
    -- a prefix is removed the second time, so that the result is shorter
    obtain ⟨v, hv, rest, hrest⟩ := hstarts
    have hlt : (stripped (normalChars l)).length < (normalChars l).length := by
      have hle := length_stripped_le rest
      rw [← hrest, append_assoc, singleton_append, stripped_known hv]
      simp only [length_append, length_cons]
      omega
    have := length_normalChars_le (normalChars l)
    rw [h] at this
    omega
  · intro h
    obtain ⟨core, hcore⟩ := exists_core l
    have hnot : ¬ StartsKnown (normalChars l) := by
      rw [normalChars_of_core hcore, startsKnown_subSeparators_iff]
      rintro ⟨w, c, tail, hw, hc, rfl⟩
      exact h ⟨w, c, tail, hw, hc, hcore⟩
    conv_lhs => rw [normalChars]
    rw [stripped_of_none hnot, subSeparators_eq_map (not_hasDouble_of_plain hplain) (by simp),
      map_unify_of_plain hplain, Trimming.trim_of_solid (hsolid hcore)]

/-! ### Names with other separators -/

/-- `y` is `x`, or an underscore in the place of a separator. -/
def Masks (x y : Char) : Prop := y = x ∨ isSeparator x = true ∧ y = '_'

/-- `y` masks `x`, or the two are small sigmas. -/
def Near (x y : Char) : Prop := Masks x y ∨ isSigma x = true ∧ isSigma y = true

theorem isEdge_of_isSigma {c : Char} (h : isSigma c = true) : isEdge c = false := by
  rw [isSigma, Bool.or_eq_true, beq_iff_eq, beq_iff_eq] at h
  rcases h with rfl | rfl <;> rfl

theorem Near.isEdge_eq {x y : Char} (h : Near x y) : isEdge y = isEdge x := by
  rcases h with (rfl | ⟨hx, rfl⟩) | ⟨hx, hy⟩
  · rfl
  · rw [isEdge_of_isSeparator hx]
    rfl
  · rw [isEdge_of_isSigma hx, isEdge_of_isSigma hy]

theorem Near.eq {x y : Char} (h : Near x y) (hsep : isSeparator x = false)
    (hsigma : isSigma x = false) : y = x := by
  rcases h with (rfl | ⟨hx, rfl⟩) | ⟨hx, -⟩
  · rfl
  · rw [hx] at hsep
    cases hsep
  · rw [hx] at hsigma
    cases hsigma

theorem Near.isSeparator_of {x y : Char} (h : Near x y) (hy : isSeparator y = true) :
    isSeparator x = true := by
  rcases h with (rfl | ⟨hx, rfl⟩) | ⟨-, hy'⟩
  · exact hy
  · exact hx
  · have := isEdge_of_isSeparator hy
    rw [isEdge_of_isSigma hy'] at this
    cases this

section

variable {R : Char → Char → Prop} {u v l : List Char}

theorem forall₂_append (h : List.Forall₂ R (u ++ v) l) :
    ∃ u' v', l = u' ++ v' ∧ List.Forall₂ R u u' ∧ List.Forall₂ R v v' := by
  induction u generalizing l with
  | nil => exact ⟨[], l, rfl, .nil, h⟩
  | cons a u ih =>
    obtain ⟨b, l', hab, hl, rfl⟩ := forall₂_cons_left_iff.1 h
    obtain ⟨u', v', rfl, hu, hv⟩ := ih hl
    exact ⟨b :: u', v', rfl, .cons hab hu, hv⟩

theorem forall₂_append_iff {u' v' : List Char} (hlen : u.length = u'.length) :
    List.Forall₂ R (u ++ v) (u' ++ v') ↔ List.Forall₂ R u u' ∧ List.Forall₂ R v v' := by
  constructor
  · intro h
    obtain ⟨x, y, hxy, hu, hv⟩ := forall₂_append h
    obtain ⟨rfl, rfl⟩ := append_inj hxy (hlen ▸ hu.length_eq)
    exact ⟨hu, hv⟩
  · rintro ⟨hu, hv⟩
    exact rel_append hu hv

theorem forall₂_mem (h : List.Forall₂ R u v) {b : Char} (hb : b ∈ v) : ∃ a ∈ u, R a b := by
  induction h with
  | nil => cases hb
  | cons hab _ ih =>
    rcases mem_cons.1 hb with rfl | hb
    · exact ⟨_, mem_cons_self, hab⟩
    · obtain ⟨a, ha, hr⟩ := ih hb
      exact ⟨a, mem_cons_of_mem _ ha, hr⟩

end

variable {l l' : List Char}

theorem near_edges (h : List.Forall₂ Near l l') (hl : ∀ c ∈ l, isEdge c = true) :
    ∀ c ∈ l', isEdge c = true := by
  intro c hc
  obtain ⟨a, ha, hr⟩ := forall₂_mem h hc
  rw [hr.isEdge_eq, hl a ha]

theorem near_plain (h : List.Forall₂ Near l l')
    (hl : ∀ c ∈ l, isSeparator c = false ∧ isSigma c = false) : l' = l := by
  induction h with
  | nil => rfl
  | cons hab _ ih =>
    have ha := hl _ mem_cons_self
    rw [hab.eq ha.1 ha.2, ih fun c hc => hl c (mem_cons_of_mem _ hc)]

theorem near_plain_left (h : List.Forall₂ Near l l')
    (hl : ∀ c ∈ l', isEdge c = false ∧ isSigma c = false) : l = l' := by
  induction h with
  | nil => rfl
  | @cons a b _ _ hab _ ih =>
    have hb := hl b mem_cons_self
    have heq : a = b := by
      rcases hab with (rfl | ⟨-, rfl⟩) | ⟨-, hsigma⟩
      · rfl
      · exact absurd hb.1 (by decide)
      · rw [hsigma] at hb
        cases hb.2
    rw [heq, ih fun c hc => hl c (mem_cons_of_mem _ hc)]

theorem unify_of_masks {x y : Char} (h : Masks x y) : unify y = unify x := by
  rcases h with rfl | ⟨hx, rfl⟩
  · rfl
  · simp [unify, hx]

theorem masks_of_unify (h : List.Forall₂ Near l l') (heq : l'.map unify = l.map unify) :
    List.Forall₂ Masks l l' := by
  induction h with
  | nil => exact .nil
  | @cons a b _ _ hab _ ih =>
    obtain ⟨hhead, htail⟩ := cons.inj heq
    refine .cons ?_ (ih htail)
    rcases hab with hab | ⟨ha, hb⟩
    · exact hab
    · have hsep {c : Char} (hc : isSigma c = true) : isSeparator c = false := by
        have := isEdge_of_isSigma hc
        rw [isEdge, Bool.or_eq_false_iff] at this
        exact this.1
      rw [unify, unify, hsep ha, hsep hb] at hhead
      exact .inl hhead

theorem near_letterCount (h : List.Forall₂ Near l l') : letterCount l' = letterCount l := by
  induction h with
  | nil => rfl
  | cons hab _ ih =>
    simp only [letterCount] at ih ⊢
    rw [countP_cons, countP_cons, hab.isEdge_eq, ih]

theorem near_solid (h : List.Forall₂ Near l l') (hl : Solid isEdge l) : Solid isEdge l' := by
  constructor
  · intro c hc
    cases h with
    | nil => cases hc
    | cons hab _ =>
      obtain rfl : _ = c := by simpa using hc
      rw [hab.isEdge_eq]
      exact hl.1 _ rfl
  · intro c hc
    obtain ⟨init', rfl⟩ := getLast?_eq_some_iff.1 hc
    rw [← forall₂_reverse_iff, reverse_append, reverse_singleton,
      singleton_append, forall₂_cons_right_iff] at h
    obtain ⟨a, rest, hab, -, hrev⟩ := h
    have hlast : l = rest.reverse ++ [a] := by simpa using congrArg reverse hrev
    rw [hab.isEdge_eq]
    exact hl.2 a (by simp [hlast])

theorem plain_of_mem_prefixWords {w : List Char} (hw : w ∈ prefixWords) :
    ∀ c ∈ w, isSeparator c = false ∧ isSigma c = false := by
  intro c hc
  have h := (prefixWords_plain w hw).2 c hc
  refine ⟨?_, h.2⟩
  cases hsep : isSeparator c with
  | false => rfl
  | true =>
    rw [isEdge_of_isSeparator hsep] at h
    cases h.1

theorem plain_of_stacked {pre : List Char} (hpre : Stacked pre) :
    ∀ c ∈ pre, isSeparator c = false ∧ isSigma c = false := by
  obtain ⟨ws, hws, rfl⟩ := hpre
  intro c hc
  obtain ⟨w, hw, hc⟩ := mem_flatMap.1 hc
  rcases mem_append.1 hc with hc | hc
  · exact plain_of_mem_prefixWords (hws w hw) c hc
  · rw [mem_singleton.1 hc]
    decide

theorem near_rest {rest : List Char} (h : List.Forall₂ Near l l') (hrest : Rest l rest) :
    ∃ pre rest', Stacked pre ∧ l = pre ++ rest ∧ l' = pre ++ rest' ∧
      List.Forall₂ Near rest rest' := by
  obtain ⟨pre, hpre, rfl, -⟩ := hrest
  obtain ⟨pre', rest', rfl, hnear, hnear'⟩ := forall₂_append h
  obtain rfl := near_plain hnear (plain_of_stacked hpre)
  exact ⟨pre', rest', hpre, rfl, rfl, hnear'⟩

/-- A known prefix of the name is written with a separator in the place of its underscore. -/
def Masked (l : List Char) : Prop :=
  ∃ w c tail, w ∈ prefixWords ∧ isSeparator c = true ∧ Rest l (w ++ c :: tail)

/-- The core has two separators next to each other. -/
def Doubled (l : List Char) : Prop := ∃ core, Core l core ∧ HasDouble core

theorem letterCount_of_masked (h : List.Forall₂ Near l l') (hm : Masked l)
    (hplain : ∀ c ∈ l', isSeparator c = false) :
    letterCount (normalChars l') < letterCount (normalChars l) := by
  obtain ⟨w, c, tail, hw, hc, hrest⟩ := hm
  obtain ⟨pre, rest', hpre, rfl, rfl, hnear⟩ := near_rest h hrest
  obtain ⟨w', tail', rfl, hnearw, hneart⟩ := forall₂_append hnear
  obtain rfl := near_plain hnearw (plain_of_mem_prefixWords hw)
  obtain ⟨c', tail', hnearc, hneart, rfl⟩ := forall₂_cons_left_iff.1 hneart
  obtain rfl : c' = '_' := by
    rcases hnearc with (rfl | ⟨-, rfl⟩) | ⟨hsigma, -⟩
    · rw [hplain c' (by simp)] at hc
      cases hc
    · rfl
    · have := isEdge_of_isSeparator hc
      rw [isEdge_of_isSigma hsigma] at this
      cases this
  have hword : 0 < letterCount w' := by
    obtain ⟨hne, hletters⟩ := prefixWords_plain w' hw
    obtain ⟨d, w, rfl⟩ := exists_cons_of_ne_nil hne
    rw [letterCount, countP_pos_iff]
    exact ⟨d, mem_cons_self, by simp [hletters d]⟩
  have hle : letterCount (stripped tail') ≤ letterCount tail' := by
    obtain ⟨front, -, hfront⟩ := exists_stacked tail'
    conv_rhs => rw [hfront]
    simp [letterCount, countP_append]
  rw [letterCount_normalChars, letterCount_normalChars, ← rest_iff.1 hrest,
    stripped_stacked hpre, stripped_known hw]
  have htail := near_letterCount hneart
  simp only [letterCount, countP_append, countP_cons] at htail hle hword ⊢
  omega

theorem near_core (h : List.Forall₂ Near l l') (hm : ¬ Masked l) {core : List Char}
    (hcore : Core l core) :
    ∃ core', Core l' core' ∧ List.Forall₂ Near core core' ∧
      (List.Forall₂ Masks core core' ↔ List.Forall₂ Masks l l') := by
  obtain ⟨lead, trail, hrest, hlead, hsolid, htrail⟩ := hcore
  obtain ⟨pre, rest', hpre, rfl, rfl, hnear⟩ := near_rest h hrest
  have hnot : ¬ StartsKnown rest' := by
    rintro ⟨w, hw, tail', rfl⟩
    rw [append_assoc w, singleton_append] at hnear
    obtain ⟨w', behind, hfront, hnearw, hbehind⟩ := forall₂_append hnear.flip
    obtain ⟨c, tail, hc, -, rfl⟩ := forall₂_cons_left_iff.1 hbehind
    obtain rfl : w' = w := near_plain_left hnearw.flip (prefixWords_plain w hw).2
    -- a prefix that is new has an underscore for a separator
    rcases hc with (hc | ⟨hc, -⟩) | ⟨-, hc⟩
    · obtain ⟨-, -, -, hstarts⟩ := hrest
      exact hstarts ⟨w', hw, tail, by rw [hfront, ← hc, append_assoc]; rfl⟩
    · exact hm ⟨w', c, tail, hw, hc, hfront ▸ hrest⟩
    · exact absurd hc (by decide)
  obtain ⟨front', trail', rfl, hnear, hneart⟩ := forall₂_append hnear
  obtain ⟨lead', core', rfl, hnearl, hnearc⟩ := forall₂_append hnear
  refine ⟨core', ⟨lead', trail', ⟨pre, hpre, rfl, hnot⟩, near_edges hnearl hlead,
    near_solid hnearc hsolid, near_edges hneart htrail⟩, hnearc, ?_⟩
  have hedges {u v : List Char} (huv : List.Forall₂ Near u v) (hu : ∀ c ∈ u, isEdge c = true) :
      List.Forall₂ Masks u v := by
    refine List.Forall₂.imp ?_ ((forall₂_and_left (p := fun c => isEdge c = true) u v).2
      ⟨hu, huv⟩)
    rintro a b ⟨ha, hab | ⟨hsigma, -⟩⟩
    · exact hab
    · rw [isEdge_of_isSigma hsigma] at ha
      cases ha
  have hself : List.Forall₂ Masks pre pre := forall₂_same.2 fun c _ => .inl rfl
  rw [forall₂_append_iff rfl, forall₂_append_iff hnear.length_eq,
    forall₂_append_iff hnearl.length_eq]
  exact ⟨fun hmasks => ⟨hself, ⟨hedges hnearl hlead, hmasks⟩, hedges hneart htrail⟩,
    fun hall => hall.2.1.2⟩

theorem length_of_doubled (h : List.Forall₂ Near l l') (hm : ¬ Masked l) (hd : Doubled l)
    (hplain : ∀ c ∈ l', isSeparator c = false) :
    (normalChars l).length < (normalChars l').length := by
  obtain ⟨core, hcore, hdouble⟩ := hd
  obtain ⟨core', hcore', hnear, -⟩ := near_core h hm hcore
  have hplain' : ∀ c ∈ core', isSeparator c = false := by
    obtain ⟨lead, trail, ⟨pre, -, rfl, -⟩, -, -, -⟩ := hcore'
    exact fun c hc => hplain c (by simp [hc])
  rw [normalChars_of_core hcore, normalChars_of_core hcore',
    subSeparators_eq_map (not_hasDouble_of_plain hplain') (by simp), length_map,
    ← hnear.length_eq]
  exact length_subSeparators_lt hdouble false

/-- **Near names have one normal form** exactly if the one masks the other. -/
theorem normalChars_near_iff (h : List.Forall₂ Near l l') (hm : ¬ Masked l) (hd : ¬ Doubled l) :
    normalChars l' = normalChars l ↔ List.Forall₂ Masks l l' := by
  obtain ⟨core, hcore⟩ := exists_core l
  obtain ⟨core', hcore', hnear, hmasks⟩ := near_core h hm hcore
  have hsingle : ¬ HasDouble core := fun hdouble => hd ⟨core, hcore, hdouble⟩
  have hsingle' : ¬ HasDouble core' := by
    rintro ⟨u, c₁, c₂, v, rfl, h₁, h₂⟩
    obtain ⟨u', _, hu, -, hbehind⟩ := forall₂_append hnear.flip
    obtain ⟨d₁, _, hd₁, hnext, rfl⟩ := forall₂_cons_left_iff.1 hbehind
    obtain ⟨d₂, v', hd₂, -, rfl⟩ := forall₂_cons_left_iff.1 hnext
    exact hsingle ⟨u', d₁, d₂, v', hu, Near.isSeparator_of hd₁ h₁, Near.isSeparator_of hd₂ h₂⟩
  rw [normalChars_of_core hcore, normalChars_of_core hcore',
    subSeparators_eq_map hsingle (by simp), subSeparators_eq_map hsingle' (by simp)]
  constructor
  · intro heq
    exact hmasks.1 (masks_of_unify hnear heq)
  · intro h'
    have hcores := hmasks.2 h'
    clear * - hcores
    induction hcores with
    | nil => rfl
    | cons hab _ ih => rw [map_cons, map_cons, unify_of_masks hab, ih]

/-! ### Names -/

/-- What is documented of the case table beyond the laws of its letters: no other letter becomes a
separator or an underscore, and only a sigma depends on what stands around it. -/
structure Contextual (letters : Letters) : Prop where
  lowerAt_edge : ∀ before after c d, d ∈ letters.lowerAt before after c → isEdge d = true → d = c
  lowerAt_context : ∀ before after before' after' c,
    letters.lowerAt before after c = letters.lowerAt before' after' c ∨
      ∃ d d', letters.lowerAt before after c = [d] ∧ letters.lowerAt before' after' c = [d'] ∧
        isSigma d = true ∧ isSigma d' = true

section

variable {letters : Letters} (hlaw : letters.Lawful) (hctx : Contextual letters)

include hlaw

theorem lowerAt_edge_self {c : Char} (hc : isEdge c = true) (before after : List Char) :
    letters.lowerAt before after c = [c] := by
  have hascii : c.toNat < 128 ∧ c.toLower = c := by
    have hmem : c ∈ ['-', '.', '/', ':', ' ', '_'] := by
      simpa [isEdge, isSeparator, or_assoc] using hc
    have hall : ∀ d ∈ ['-', '.', '/', ':', ' ', '_'], d.toNat < 128 ∧ d.toLower = d := by decide
    exact hall c hmem
  rw [hlaw.lowerAt_ascii _ _ c hascii.1, hascii.2]

include hctx in
theorem near_lowerFrom {l l' : List Char} (h : List.Forall₂ Masks l l')
    (before before' : List Char) :
    List.Forall₂ Near (letters.lowerFrom before l) (letters.lowerFrom before' l') := by
  induction h generalizing before before' with
  | nil => exact .nil
  | @cons a b l l' hab _ ih =>
    refine rel_append ?_ (ih _ _)
    rcases hab with rfl | ⟨ha, rfl⟩
    · rcases hctx.lowerAt_context before l before' l' b with h | ⟨d, d', hd, hd', hs, hs'⟩
      · rw [h]
        exact forall₂_same.2 fun c _ => .inl (.inl rfl)
      · rw [hd, hd']
        exact .cons (.inr ⟨hs, hs'⟩) .nil
    · rw [lowerAt_edge_self hlaw (isEdge_of_isSeparator ha), lowerAt_edge_self hlaw rfl]
      exact .cons (.inl (.inr ⟨ha, rfl⟩)) .nil

omit hlaw in
theorem mem_lowerFrom {before l : List Char} {d : Char} (h : d ∈ letters.lowerFrom before l) :
    ∃ before' after c, c ∈ l ∧ d ∈ letters.lowerAt before' after c := by
  induction l generalizing before with
  | nil => cases h
  | cons c l ih =>
    rcases mem_append.1 h with h | h
    · exact ⟨before, l, c, mem_cons_self, h⟩
    · obtain ⟨before', after, e, he, hd⟩ := ih h
      exact ⟨before', after, e, mem_cons_of_mem _ he, hd⟩

omit hlaw in
theorem lowerFrom_of_stable {l : List Char}
    (h : ∀ c ∈ l, ∀ before after, letters.lowerAt before after c = [c]) (before : List Char) :
    letters.lowerFrom before l = l := by
  induction l generalizing before with
  | nil => rfl
  | cons c l ih =>
    rw [Letters.lowerFrom, h c mem_cons_self, ih fun d hd => h d (mem_cons_of_mem _ hd)]
    rfl

theorem lowerFrom_normalChars (l : List Char) :
    letters.lowerFrom [] (normalChars (letters.lowerFrom [] l)) =
      normalChars (letters.lowerFrom [] l) := by
  refine lowerFrom_of_stable (fun c hc before after => ?_) []
  have hmem : c ∈ subSeparators false (stripped (letters.lowerFrom [] l)) :=
    (dropWhile_suffix _).subset (( rdropWhile_prefix _ _).subset hc)
  rcases mem_subSeparators hmem with rfl | ⟨hmem, -⟩
  · exact lowerAt_edge_self hlaw rfl before after
  · obtain ⟨pre, -, hpre⟩ := exists_stacked (letters.lowerFrom [] l)
    have hlow : c ∈ letters.lowerFrom [] l := by
      rw [hpre]
      exact mem_append_right _ hmem
    obtain ⟨before', after', d, -, hd⟩ := mem_lowerFrom hlow
    exact hlaw.lowerAt_lowerAt _ _ d _ _ c hd

end

variable (text : Text)

/-- The lowered characters of a name. -/
def lowered (name : String) : List Char := (text.lower name).toList

/-- The name `name'` is `name` with some of its separators replaced by underscores. -/
def Replaced (name name' : String) : Prop := List.Forall₂ Masks name.toList name'.toList

theorem normalizeEntityName_eq (name : String) :
    normalizeEntityName text name = String.ofList (normalChars (lowered text name)) :=
  rfl

theorem isSeparator_unify (c : Char) : isSeparator (unify c) = false := by
  rw [unify]
  split
  · rfl
  · rename_i h
    simpa using h

/-- The name with all its separators replaced. -/
def unified (name : String) : String := String.ofList (name.toList.map unify)

theorem replaced_unified (name : String) : Replaced name (unified name) := by
  rw [Replaced, unified, String.toList_ofList, forall₂_map_right_iff]
  refine forall₂_same.2 fun c _ => ?_
  rw [unify]
  split
  · rename_i h
    exact .inr ⟨h, rfl⟩
  · exact .inl rfl

theorem normalChars_eq_nil_iff : normalChars l = [] ↔ Core l [] := by
  constructor
  · intro h
    obtain ⟨core, hcore⟩ := exists_core l
    have hcount := letterCount_subSeparators false core
    rw [normalChars_of_core hcore] at h
    rw [h] at hcount
    -- a core without letters is empty, for it begins with one
    cases core with
    | nil => exact hcore
    | cons c core =>
      obtain ⟨_, _, _, _, hsolid, _⟩ := hcore
      have hc := hsolid.1 c rfl
      simp [letterCount, hc] at hcount
  · intro h
    rw [normalChars_of_core h]
    rfl

section

variable {text} {letters : Letters} (hlaw : letters.Lawful) (hctx : Contextual letters)
  (hlower : ∀ name, text.lower name = letters.lower name)

include hlower in
theorem lowered_eq (name : String) : lowered text name = letters.lowerFrom [] name.toList := by
  rw [lowered, hlower, Letters.lower, String.toList_ofList]

include hlaw hlower in
theorem normalize_idempotent_iff (name : String) :
    normalizeEntityName text (normalizeEntityName text name) = normalizeEntityName text name ↔
      ¬ Exposed (lowered text name) := by
  have htwice : lowered text (normalizeEntityName text name) = normalChars (lowered text name) := by
    rw [lowered_eq hlower, normalizeEntityName_eq, String.toList_ofList, lowered_eq hlower,
      lowerFrom_normalChars hlaw]
  rw [normalizeEntityName_eq text (normalizeEntityName text name), htwice, normalizeEntityName_eq,
    String.ofList_inj, normalChars_normalChars_iff]

include hlaw hctx hlower in
theorem normalize_replaced_iff (name : String) :
    (∀ name', Replaced name name' →
      normalizeEntityName text name' = normalizeEntityName text name) ↔
      ¬ Masked (lowered text name) ∧ ¬ Doubled (lowered text name) ∧
        ∀ name', Replaced name name' → Replaced (text.lower name) (text.lower name') := by
  simp only [normalizeEntityName_eq, String.ofList_inj]
  have hnear {name' : String} (h : Replaced name name') :
      List.Forall₂ Near (lowered text name) (lowered text name') := by
    rw [lowered_eq hlower, lowered_eq hlower]
    exact near_lowerFrom hlaw hctx h [] []
  constructor
  · intro h
    -- the name without separators tells masked prefixes and double separators
    have hplain : ∀ c ∈ lowered text (unified name), isSeparator c = false := by
      intro c hc
      rw [lowered_eq hlower] at hc
      obtain ⟨before, after, d, hd, hmem⟩ := mem_lowerFrom hc
      cases hsep : isSeparator c with
      | false => rfl
      | true =>
        obtain rfl := hctx.lowerAt_edge _ _ _ _ hmem (isEdge_of_isSeparator hsep)
        rw [unified, String.toList_ofList] at hd
        obtain ⟨e, -, rfl⟩ := mem_map.1 hd
        rw [isSeparator_unify] at hsep
        cases hsep
    have hself := h _ (replaced_unified name)
    have hm : ¬ Masked (lowered text name) := by
      intro hm
      have := letterCount_of_masked (hnear (replaced_unified name)) hm hplain
      rw [hself] at this
      exact lt_irrefl _ this
    have hd : ¬ Doubled (lowered text name) := by
      intro hd
      have := length_of_doubled (hnear (replaced_unified name)) hm hd hplain
      rw [hself] at this
      exact lt_irrefl _ this
    exact ⟨hm, hd, fun name' h' => (normalChars_near_iff (hnear h') hm hd).1 (h name' h')⟩
  · rintro ⟨hm, hd, hcase⟩ name' h'
    exact (normalChars_near_iff (hnear h') hm hd).2 (hcase name' h')

end

theorem exactNameMatch_nonEmpty_iff (nameA nameB : String) :
    (exactNameMatch text nameA nameB = 1 →
      normalizeEntityName text nameA = normalizeEntityName text nameB ∧
        normalizeEntityName text nameA ≠ "") ↔
      nameA = "" ∨ nameB = "" ∨
        ¬ (Core (lowered text nameA) [] ∧ Core (lowered text nameB) []) := by
  have hempty (name : String) :
      normalizeEntityName text name = "" ↔ Core (lowered text name) [] := by
    rw [← normalChars_eq_nil_iff, normalizeEntityName_eq]
    exact @String.ofList_inj _ []
  by_cases hA : nameA = ""
  · simp [exactNameMatch, hA]
  by_cases hB : nameB = ""
  · simp [exactNameMatch, hB]
  rw [← hempty, ← hempty, exactNameMatch, if_neg (by tauto)]
  by_cases heq : normalizeEntityName text nameA = normalizeEntityName text nameB
  · simp [heq, hA, hB]
  · have hne : ¬ (normalizeEntityName text nameA = "" ∧ normalizeEntityName text nameB = "") := by
      rintro ⟨h₁, h₂⟩
      exact heq (h₁.trans h₂.symm)
    simp [heq, hA, hB, hne]

/-- **Names in normal form**: when a normal form is stable, when it does not depend on the
separators, and when a match has a name behind it. -/
theorem names_normal_iff (letters : Letters) (hlaw : letters.Lawful) (hctx : Contextual letters)
    (hlower : ∀ name, text.lower name = letters.lower name) :
    (∀ name, stripOne (stripped (lowered text name)) = none) ∧
    (∀ name, normalizeEntityName text (normalizeEntityName text name) =
      normalizeEntityName text name ↔ ¬ Exposed (lowered text name)) ∧
    (∀ name, (∀ name', Replaced name name' →
        normalizeEntityName text name' = normalizeEntityName text name) ↔
      ¬ Masked (lowered text name) ∧ ¬ Doubled (lowered text name) ∧
        ∀ name', Replaced name name' → Replaced (text.lower name) (text.lower name')) ∧
    ∀ nameA nameB, (exactNameMatch text nameA nameB = 1 →
        normalizeEntityName text nameA = normalizeEntityName text nameB ∧
          normalizeEntityName text nameA ≠ "") ↔
      nameA = "" ∨ nameB = "" ∨
        ¬ (Core (lowered text nameA) [] ∧ Core (lowered text nameB) []) := by
  exact ⟨fun name => stripOne_stripAll (Nat.le_refl _), normalize_idempotent_iff hlaw hlower,
    normalize_replaced_iff hlaw hctx hlower, exactNameMatch_nonEmpty_iff text⟩

/-- Text of ASCII alone is lowered. -/
def asciiText : Text where
  lower := Letters.ascii.lower
  isWord := Letters.ascii.isWord
  floatValue _ := none

theorem contextual_ascii : Contextual Letters.ascii where
  lowerAt_edge _ _ c d hd hedge := by
    obtain rfl := mem_singleton.1 hd
    have hmem : c.toLower ∈ ['-', '.', '/', ':', ' ', '_'] := by
      simpa [isEdge, isSeparator, or_assoc] using hedge
    have hall : ∀ d ∈ ['-', '.', '/', ':', ' ', '_'], d.toNat < 97 := by decide
    have hlt := hall _ hmem
    rw [Clustering.toNat_toLower] at hlt
    rw [Clustering.eq_iff_toNat, Clustering.toNat_toLower]
    split_ifs at hlt ⊢ <;> omega
  lowerAt_context _ _ _ _ _ := .inl rfl

theorem names_normal_iff_sample : stripOne (stripped (lowered asciiText "k8s-nginx-pod")) = none :=
  (names_normal_iff asciiText Letters.ascii Letters.ascii_lawful contextual_ascii fun _ => rfl).1 _

/-- The prefix of `k8s-nginx-pod` is removed the second time. -/
theorem normalize_not_idempotent :
    ¬ ∀ name, normalizeEntityName asciiText (normalizeEntityName asciiText name) =
      normalizeEntityName asciiText name :=
  fun h => absurd (h "k8s-nginx-pod") (by decide)

end Omniscience.Linking
