import Omniscience.Lib.Relocation

/-!
# Writes that stay within a label

The nodes of a property graph carry a label each, and the relationships may.  What carries one label
is a part of the graph, and so is a relationship at a node of it.  `Move` is a single write that
stays within the part, and `Confined` is any number of them.  What is outside is then the same as
before (`Confined.sameOutside`).

Some writes go from a node of the part along a relationship to a node that is then written.  They
are confined in a graph without relationships across the border of the part, a `Separated` one.
The moves of every label keep every part separated (`Confined.wellLabelled`).
-/

namespace Omniscience.PropertyGraph

open Dict List Bool

variable {N R L : Type*} [DecidableEq L] (ofNode : N → Option L) (ofRel : R → Option L) (label : L)

/-- The node, or the relationship, carries the label. -/
def carries {D : Type*} (labelOf : D → Option L) (label : L) (d : D) : Bool :=
  labelOf d = some label

/-- The relationship carries the label, or has an end that does. -/
def isWithin (g : PropertyGraph N R) (r : Arc R) : Bool :=
  carries ofRel label r.data || g.has (carries ofNode label) r.source ||
    g.has (carries ofNode label) r.target

/-- The relationship joins two nodes of the part, and carries no other label. -/
structure IsInner (g : PropertyGraph N R) (r : Arc R) : Prop where
  source : g.has (carries ofNode label) r.source = true
  target : g.has (carries ofNode label) r.target = true
  label : ofRel r.data = none ∨ ofRel r.data = some label

/-- No relationship crosses the border of the part. -/
def Separated (g : PropertyGraph N R) : Prop :=
  ∀ r ∈ g.rels, isWithin ofNode ofRel label g r = true → IsInner ofNode ofRel label g r

/-- Every relationship joins nodes of one label, and carries no other one. -/
def WellLabelled (g : PropertyGraph N R) : Prop :=
  ∀ label : L, Separated ofNode ofRel label g

/-- A write that stays within the part. -/
inductive Move : PropertyGraph N R → PropertyGraph N R → Prop
  | create {g : PropertyGraph N R} {n : N} (h : ofNode n = some label) : Move g (g.create n)
  | connect {g : PropertyGraph N R} {a : Arc R} (h : IsInner ofNode ofRel label g a) :
    Move g (g.connect a)
  | setNodes {g : PropertyGraph N R} {f : ℕ → N → N}
    (h : ∀ i n, g.nodes.get? i = some n →
      f i n = n ∨ (ofNode n = some label ∧ ofNode (f i n) = some label)) :
    Move g (g.setNodes f)
  | setRels {g : PropertyGraph N R} {f : Arc R → R}
    (h : ∀ r ∈ g.rels, f r = r.data ∨
      (isWithin ofNode ofRel label g r = true ∧ ofRel (f r) = ofRel r.data)) :
    Move g (g.setRels f)
  | setFirstRels {g : PropertyGraph N R} {test : Arc R → Bool} {f : Arc R → R} {k : ℕ}
    (h : ∀ r ∈ g.rels, test r = true →
      isWithin ofNode ofRel label g r = true ∧ ofRel (f r) = ofRel r.data) :
    Move g (g.setFirstRels test f k)
  | deleteRels {g : PropertyGraph N R} {test : Arc R → Bool}
    (h : ∀ r ∈ g.rels, test r = true → isWithin ofNode ofRel label g r = true) :
    Move g (g.deleteRels test)
  | deleteFirstRels {g : PropertyGraph N R} {test : Arc R → Bool} {k : ℕ}
    (h : ∀ r ∈ g.rels, test r = true → isWithin ofNode ofRel label g r = true) :
    Move g (g.deleteFirstRels test k)
  | detachDelete {g : PropertyGraph N R} {doomed : ℕ → Bool}
    (h : ∀ i n, g.nodes.get? i = some n → doomed i = true → ofNode n = some label) :
    Move g (g.detachDelete doomed)

/-- Any number of such writes. -/
abbrev Confined : PropertyGraph N R → PropertyGraph N R → Prop :=
  Relation.ReflTransGen (Move ofNode ofRel label)

/-- What is outside of the part is the same. -/
structure SameOutside (g g' : PropertyGraph N R) : Prop where
  nodes : (g'.matching fun n => !carries ofNode label n) =
    g.matching fun n => !carries ofNode label n
  rels : (g'.rels.filter fun r => !isWithin ofNode ofRel label g' r) =
    g.rels.filter fun r => !isWithin ofNode ofRel label g r

variable {ofNode} {ofRel} {label} {g g' g'' : PropertyGraph N R}

theorem carries_iff {D : Type*} {labelOf : D → Option L} {d : D} :
    carries labelOf label d = true ↔ labelOf d = some label := decide_eq_true_iff

theorem carries_congr {D : Type*} {labelOf : D → Option L} {d d' : D}
    (h : labelOf d' = labelOf d) : carries labelOf label d' = carries labelOf label d := by
  rw [carries, carries, h]

theorem SameOutside.refl (g : PropertyGraph N R) : SameOutside ofNode ofRel label g g := ⟨rfl, rfl⟩

theorem SameOutside.trans (h : SameOutside ofNode ofRel label g g')
    (h' : SameOutside ofNode ofRel label g' g'') : SameOutside ofNode ofRel label g g'' :=
  ⟨h'.nodes.trans h.nodes, h'.rels.trans h.rels⟩

variable {r : Arc R}

theorem isWithin_of_source (h : g.has (carries ofNode label) r.source = true) :
    isWithin ofNode ofRel label g r = true := by
  rw [isWithin, h, Bool.or_true, Bool.true_or]

theorem isWithin_of_target (h : g.has (carries ofNode label) r.target = true) :
    isWithin ofNode ofRel label g r = true := by
  rw [isWithin, h, Bool.or_true]

theorem isWithin_of_rel (h : ofRel r.data = some label) :
    isWithin ofNode ofRel label g r = true := by
  rw [isWithin, carries_iff.2 h]
  rfl

theorem IsInner.not_isWithin {label' : L} (h : IsInner ofNode ofRel label' g r)
    (hne : label' ≠ label) : isWithin ofNode ofRel label g r = false := by
  have hend : ∀ {i : ℕ}, g.has (carries ofNode label') i = true →
      g.has (carries ofNode label) i = false := by
    intro i hi
    obtain ⟨n, hn, hlabel⟩ := has_iff.1 hi
    rw [eq_false_iff]
    intro hi'
    obtain ⟨n', hn', hlabel'⟩ := has_iff.1 hi'
    rw [hn, Option.some.injEq] at hn'
    rw [← hn', carries_iff, carries_iff.1 hlabel, Option.some.injEq] at hlabel'
    exact hne hlabel'
  have hrel : carries ofRel label r.data = false := by
    rw [eq_false_iff]
    intro hcarries
    rw [carries_iff] at hcarries
    rcases h.label with hnone | hsome
    · rw [hnone] at hcarries
      cases hcarries
    · rw [hsome, Option.some.injEq] at hcarries
      exact hne hcarries
  rw [isWithin, hrel, hend h.source, hend h.target]
  rfl

/-! ### What a move does to the part -/

variable (test : N → Bool)

theorem has_create (n : N) (g : PropertyGraph N R) {i : ℕ} (hi : i ∈ g.nodes.keys) :
    (g.create n).has test i = g.has test i := by
  have hne : i ≠ g.fresh := fun heq => g.fresh_notMem (heq ▸ hi)
  rw [has, has, create, get?_set_ne _ _ hne]

theorem has_create_of_has {test : N → Bool} (n : N) {i : ℕ} (h : g.has test i = true) :
    (g.create n).has test i = true := by
  obtain ⟨n', hn', -⟩ := has_iff.1 h
  have hkey : i ∈ g.nodes.keys := by
    by_contra hno
    rw [get?_eq_none_iff.2 hno] at hn'
    cases hn'
  rw [has_create test n g hkey, h]

theorem has_fresh_create {test : N → Bool} {n : N} (h : test n = true) :
    (g.create n).has test g.fresh = true := by
  refine has_iff.2 ⟨n, ?_, h⟩
  rw [create, get?_set_self]

theorem has_of_nodes (h : g'.nodes = g.nodes) (test : N → Bool) : g'.has test = g.has test := by
  funext i
  rw [has, has, h]

theorem has_connect (a : Arc R) (g : PropertyGraph N R) : (g.connect a).has test = g.has test :=
  has_of_nodes (nodes_connect a g) test

theorem has_setNodes {f : ℕ → N → N} (h : ∀ i n, g.nodes.get? i = some n → test (f i n) = test n)
    (i : ℕ) : (g.setNodes f).has test i = g.has test i := by
  rw [has, has, setNodes, get?_map]
  cases hi : g.nodes.get? i with
  | none => rfl
  | some n => exact h i n hi

theorem has_detachDelete {doomed : ℕ → Bool} {i : ℕ} (h : doomed i = false) :
    (g.detachDelete doomed).has test i = g.has test i := by
  have hiff : ∀ n, (g.detachDelete doomed).nodes.get? i = some n ↔ g.nodes.get? i = some n := by
    refine fun n => ⟨get?_of_filter, fun hi => ?_⟩
    have hmem : (i, n) ∈ (g.detachDelete doomed).nodes.items :=
      mem_filter.2 ⟨mem_items_of_get? hi, congrArg (!·) h⟩
    exact get?_of_mem_items hmem
  rw [has, has, Option.ext hiff]

theorem exists_source (hr : r ∈ g.rels) : ∃ n, g.nodes.get? r.source = some n :=
  Option.ne_none_iff_exists'.1 fun h => get?_eq_none_iff.1 h (g.ends r hr).1

theorem exists_target (hr : r ∈ g.rels) : ∃ n, g.nodes.get? r.target = some n :=
  Option.ne_none_iff_exists'.1 fun h => get?_eq_none_iff.1 h (g.ends r hr).2

theorem isWithin_congr {r r' : Arc R}
    (hsource : g'.has (carries ofNode label) r'.source = g.has (carries ofNode label) r.source)
    (htarget : g'.has (carries ofNode label) r'.target = g.has (carries ofNode label) r.target)
    (hlabel : ofRel r'.data = ofRel r.data) :
    isWithin ofNode ofRel label g' r' = isWithin ofNode ofRel label g r := by
  rw [isWithin, isWithin, hsource, htarget, carries_congr hlabel]

theorem IsInner.congr {r r' : Arc R} (h : IsInner ofNode ofRel label g r)
    (hsource : g'.has (carries ofNode label) r'.source = g.has (carries ofNode label) r.source)
    (htarget : g'.has (carries ofNode label) r'.target = g.has (carries ofNode label) r.target)
    (hlabel : ofRel r'.data = ofRel r.data) : IsInner ofNode ofRel label g' r' where
  source := hsource.trans h.source
  target := htarget.trans h.target
  label := hlabel ▸ h.label

theorem Separated.of_rel {r r' : Arc R} (h : Separated ofNode ofRel label g) (hr : r ∈ g.rels)
    (hsource : g'.has (carries ofNode label) r'.source = g.has (carries ofNode label) r.source)
    (htarget : g'.has (carries ofNode label) r'.target = g.has (carries ofNode label) r.target)
    (hlabel : ofRel r'.data = ofRel r.data)
    (hwithin : isWithin ofNode ofRel label g' r' = true) : IsInner ofNode ofRel label g' r' := by
  rw [isWithin_congr hsource htarget hlabel] at hwithin
  exact (h r hr hwithin).congr hsource htarget hlabel

theorem isWithin_update {d : R} (h : ofRel d = ofRel r.data) :
    isWithin ofNode ofRel label g { r with data := d } = isWithin ofNode ofRel label g r := by
  rw [isWithin, isWithin, carries_congr h]

theorem isWithin_of_nodes (h : g'.nodes = g.nodes) (r : Arc R) :
    isWithin ofNode ofRel label g' r = isWithin ofNode ofRel label g r := by
  rw [isWithin, isWithin, has_of_nodes h]

theorem IsInner.of_nodes (h : IsInner ofNode ofRel label g r) (hnodes : g'.nodes = g.nodes) :
    IsInner ofNode ofRel label g' r :=
  h.congr (by rw [has_of_nodes hnodes]) (by rw [has_of_nodes hnodes]) rfl

theorem isWithin_of_touches {doomed : ℕ → Bool}
    (h : ∀ i n, g.nodes.get? i = some n → doomed i = true → ofNode n = some label) (hr : r ∈ g.rels)
    (hdoomed : (!doomed r.source && !doomed r.target) = false) :
    isWithin ofNode ofRel label g r = true := by
  rw [and_eq_false_iff, not_eq_false', not_eq_false'] at hdoomed
  rcases hdoomed with hdoomed | hdoomed
  · obtain ⟨n, hn⟩ := exists_source hr
    exact isWithin_of_source (has_iff.2 ⟨n, hn, carries_iff.2 (h _ n hn hdoomed)⟩)
  · obtain ⟨n, hn⟩ := exists_target hr
    exact isWithin_of_target (has_iff.2 ⟨n, hn, carries_iff.2 (h _ n hn hdoomed)⟩)

omit [DecidableEq L] in
theorem ofNode_setNodes {f : ℕ → N → N}
    (h : ∀ i n, g.nodes.get? i = some n →
      f i n = n ∨ (ofNode n = some label ∧ ofNode (f i n) = some label)) {i : ℕ} {n : N}
    (hn : g.nodes.get? i = some n) : ofNode (f i n) = ofNode n := by
  rcases h i n hn with heq | ⟨hlabel, hlabel'⟩
  · rw [heq]
  · rw [hlabel, hlabel']

/-- **A move leaves what is outside.** -/
theorem Move.sameOutside (h : Move ofNode ofRel label g g') :
    SameOutside ofNode ofRel label g g' := by
  cases h with
  | @create n h =>
    have hframe : Agree (fun n => !carries ofNode label n) (fun _ : R => true) g (g.create n) := by
      refine agree_create ?_ g
      rw [carries_iff.2 h]
      rfl
    refine ⟨hframe.nodes, filter_congr fun r hr => ?_⟩
    rw [isWithin_congr (has_create _ _ g (g.ends r hr).1) (has_create _ _ g (g.ends r hr).2) rfl]
  | @connect a h =>
    have hcongr : ∀ r, isWithin ofNode ofRel label (g.connect a) r =
        isWithin ofNode ofRel label g r := isWithin_of_nodes (nodes_connect a g)
    refine ⟨by rw [matching, matching, nodes_connect], ?_⟩
    simp only [hcongr]
    rw [PropertyGraph.connect]
    split
    · rw [filter_append, filter_cons_of_neg, filter_nil, append_nil]
      rw [isWithin_of_source h.source]
      decide
    · rfl
  | setNodes h =>
    have hframe : Agree (fun n => !carries ofNode label n) (fun _ : R => true) g
        (g.setNodes _) := agree_setNodes fun i n hn => (h i n hn).imp_right fun hlabel =>
      ⟨congrArg (!·) (carries_iff.2 hlabel.1), congrArg (!·) (carries_iff.2 hlabel.2)⟩
    have hhas : ∀ i, (g.setNodes _).has (carries ofNode label) i = g.has (carries ofNode label) i :=
      has_setNodes _ fun i n hn => carries_congr (ofNode_setNodes h hn)
    refine ⟨hframe.nodes, filter_congr fun r _ => ?_⟩
    rw [isWithin_congr (hhas _) (hhas _) rfl]
  | @setRels f h =>
    refine ⟨rfl, filter_map_of_off fun r hr => ?_⟩
    rcases h r hr with heq | ⟨hin, hlabel⟩
    · left
      rw [heq]
    · right
      have hin' : isWithin ofNode ofRel label g { r with data := f r } = true :=
        (isWithin_update hlabel).trans hin
      exact ⟨congrArg (!·) hin, congrArg (!·) hin'⟩
  | @setFirstRels test f k h =>
    refine ⟨rfl, filter_mapFirst_of_off _ fun r hr htest => ?_⟩
    obtain ⟨hin, hlabel⟩ := h r hr htest
    have hin' : isWithin ofNode ofRel label g { r with data := f r } = true :=
      (isWithin_update hlabel).trans hin
    exact ⟨congrArg (!·) hin, congrArg (!·) hin'⟩
  | deleteRels h =>
    refine ⟨rfl, filter_filter_of_off fun r hr hdeleted => ?_⟩
    rw [not_eq_false'] at hdeleted
    exact congrArg (!·) (h r hr hdeleted)
  | deleteFirstRels h =>
    exact ⟨rfl, filter_eraseFirst_of_off _ fun r hr htest => congrArg (!·) (h r hr htest)⟩
  | @detachDelete doomed h =>
    refine ⟨filter_filter_of_off fun item hitem hdoomed => ?_, ?_⟩
    · rw [not_eq_false'] at hdoomed
      exact congrArg (!·) (carries_iff.2 (h item.1 item.2 (get?_of_mem_items hitem) hdoomed))
    · have hkept : ((g.detachDelete doomed).rels.filter fun r =>
          !isWithin ofNode ofRel label (g.detachDelete doomed) r) =
          (g.detachDelete doomed).rels.filter fun r => !isWithin ofNode ofRel label g r := by
        refine filter_congr fun r hr => ?_
        have hstays := (mem_filter.1 hr).2
        rw [and_eq_true, not_eq_true', not_eq_true'] at hstays
        rw [isWithin_congr (has_detachDelete _ hstays.1) (has_detachDelete _ hstays.2) rfl]
      rw [hkept]
      exact filter_filter_of_off fun r hr hdeleted =>
        congrArg (!·) (isWithin_of_touches h hr hdeleted)

/-- **Any number of moves leaves what is outside.** -/
theorem Confined.sameOutside (h : Confined ofNode ofRel label g g') :
    SameOutside ofNode ofRel label g g' := by
  induction h with
  | refl => exact .refl g
  | tail _ hmove ih => exact ih.trans hmove.sameOutside

theorem Separated.detachDelete (h : Separated ofNode ofRel label g) (doomed : ℕ → Bool) :
    Separated ofNode ofRel label (g.detachDelete doomed) := by
  intro r hr hwithin
  obtain ⟨hr, hstays⟩ := mem_filter.1 hr
  rw [and_eq_true, not_eq_true', not_eq_true'] at hstays
  exact h.of_rel hr (has_detachDelete _ hstays.1) (has_detachDelete _ hstays.2) rfl hwithin

theorem Move.separated {label' : L} (h : Move ofNode ofRel label' g g')
    (hg : Separated ofNode ofRel label g) : Separated ofNode ofRel label g' := by
  cases h with
  | create h =>
    intro r hr hwithin
    exact hg.of_rel hr (has_create _ _ g (g.ends r hr).1) (has_create _ _ g (g.ends r hr).2) rfl
      hwithin
  | @connect a h =>
    intro r hr hwithin
    have hnodes := nodes_connect a g
    rw [isWithin_of_nodes hnodes] at hwithin
    rw [PropertyGraph.connect] at hr
    refine IsInner.of_nodes ?_ hnodes
    split at hr
    · rcases mem_append.1 hr with hr | hr
      · exact hg r hr hwithin
      · obtain rfl := mem_singleton.1 hr
        by_cases heq : label' = label
        · exact heq ▸ h
        · rw [h.not_isWithin heq] at hwithin
          cases hwithin
    · exact hg r hr hwithin
  | setNodes h =>
    intro r hr hwithin
    have hhas : ∀ i, (g.setNodes _).has (carries ofNode label) i = g.has (carries ofNode label) i :=
      has_setNodes _ fun i n hn => carries_congr (ofNode_setNodes h hn)
    exact hg.of_rel hr (hhas _) (hhas _) rfl hwithin
  | setRels h =>
    intro r hr hwithin
    obtain ⟨r₀, hr₀, rfl⟩ := mem_map.1 hr
    refine hg.of_rel hr₀ rfl rfl ?_ hwithin
    rcases h r₀ hr₀ with heq | ⟨-, hlabel⟩
    · exact congrArg ofRel heq
    · exact hlabel
  | setFirstRels h =>
    intro r hr hwithin
    rcases mem_mapFirst hr with hr | ⟨r₀, hr₀, htest, rfl⟩
    · exact hg.of_rel hr rfl rfl rfl hwithin
    · exact hg.of_rel hr₀ rfl rfl (h r₀ hr₀ htest).2 hwithin
  | deleteRels h =>
    exact fun r hr => hg.of_rel (mem_filter.1 hr).1 rfl rfl rfl
  | deleteFirstRels h =>
    exact fun r hr => hg.of_rel ((eraseFirst_sublist _ _ _).subset hr) rfl rfl rfl
  | detachDelete h => exact hg.detachDelete _

theorem Confined.separated {label' : L} (h : Confined ofNode ofRel label' g g')
    (hg : Separated ofNode ofRel label g) : Separated ofNode ofRel label g' := by
  induction h with
  | refl => exact hg
  | tail _ hmove ih => exact hmove.separated ih

/-! ### The statements -/

theorem confined_mergeNode {test : N → Bool} {new : N} {onMatch : N → N}
    (hnew : ofNode new = some label)
    (hmatch : ∀ n, test n = true → ofNode n = some label ∧ ofNode (onMatch n) = some label)
    (g : PropertyGraph N R) : Confined ofNode ofRel label g (g.mergeNode test new onMatch) := by
  rw [mergeNode]
  split
  · refine .single (.setNodes fun i n _ => ?_)
    by_cases htest : test n = true
    · rw [if_pos htest]
      exact .inr (hmatch n htest)
    · exact .inl (if_neg htest)
  · exact .single (.create hnew)

theorem has_mergeNode {own test : N → Bool} {new : N} {onMatch : N → N}
    (hmatch : ∀ n, test n = true → own n = true → own (onMatch n) = true) {i : ℕ}
    (h : g.has own i = true) : (g.mergeNode test new onMatch).has own i = true := by
  obtain ⟨n, hn, hown⟩ := has_iff.1 h
  rw [mergeNode]
  split
  · refine has_iff.2 ⟨if test n = true then onMatch n else n, ?_, ?_⟩
    · rw [setNodes, get?_map, hn]
      rfl
    · split
      · rename_i htest
        exact hmatch n htest hown
      · exact hown
  · exact has_create_of_has new h

theorem exists_refs_mergeNode {test : N → Bool} {new : N} {onMatch : N → N}
    (hnew : test new = true) (hmatch : ∀ n, test n = true → test (onMatch n) = true) :
    ∃ i, i ∈ (g.mergeNode test new onMatch).refs test := by
  by_cases hany : g.nodes.items.any fun item => test item.2
  · obtain ⟨item, hitem, htest⟩ := any_eq_true.1 hany
    refine ⟨item.1, mem_refs.2 (has_mergeNode (fun n _ => hmatch n) (has_iff.2 ?_))⟩
    exact ⟨item.2, get?_of_mem_items hitem, htest⟩
  · rw [mergeNode, if_neg hany]
    exact ⟨g.fresh, mem_refs.2 (has_fresh_create hnew)⟩

theorem confined_mergeRel {source target : ℕ} {test : R → Bool} {new : R} {onMatch : R → R}
    (hnew : IsInner ofNode ofRel label g ⟨source, target, new⟩)
    (hmatch : ∀ d, test d = true → ofRel (onMatch d) = ofRel d) :
    Confined ofNode ofRel label g (g.mergeRel source target test new onMatch) := by
  rw [mergeRel]
  split
  · refine .single (.setRels fun r _ => ?_)
    by_cases htest : (r.source = source && r.target = target && test r.data) = true
    · rw [if_pos htest]
      simp only [and_eq_true, decide_eq_true_eq] at htest
      refine .inr ⟨isWithin_of_source ?_, hmatch r.data htest.2⟩
      rw [htest.1.1]
      exact hnew.source
    · exact .inl (if_neg htest)
  · exact .single (.connect hnew)

theorem confined_mergeRels {like : R → R → Bool} {l : List (Arc R)}
    (h : ∀ a ∈ l, IsInner ofNode ofRel label g a) :
    Confined ofNode ofRel label g (g.mergeRels like l) := by
  induction l generalizing g with
  | nil => exact .refl
  | cons a l ih =>
    have hfirst : Confined ofNode ofRel label g
        (g.mergeRel a.source a.target (like a.data) a.data fun d => d) :=
      confined_mergeRel (h a mem_cons_self) fun _ _ => rfl
    have hnodes : (g.mergeRel a.source a.target (like a.data) a.data fun d => d).nodes =
        g.nodes := nodes_mergeRel _ _ _ _ _ g
    exact hfirst.trans (ih fun b hb => (h b (mem_cons_of_mem _ hb)).of_nodes hnodes)

theorem confined_relocate [DecidableEq R] {like : R → R → Bool} {rows : List (Arc R × Arc R)}
    (h : ∀ row ∈ rows, isWithin ofNode ofRel label g row.1 = true ∧
      IsInner ofNode ofRel label g row.2) :
    Confined ofNode ofRel label g (g.relocate like rows) := by
  have hmerged : Confined ofNode ofRel label g (g.mergeRels like (rows.map Prod.snd)) := by
    refine confined_mergeRels fun a ha => ?_
    obtain ⟨row, hrow, rfl⟩ := mem_map.1 ha
    exact (h row hrow).2
  refine hmerged.tail (.deleteRels fun r _ htest => ?_)
  obtain ⟨row, hrow, rfl⟩ := mem_map.1 (of_decide_eq_true htest)
  rw [isWithin_of_nodes (nodes_mergeRels _ g)]
  exact (h row hrow).1

theorem confined_foldl {α : Type*} {I : PropertyGraph N R → Prop}
    {step : PropertyGraph N R → α → PropertyGraph N R} {l : List α}
    (hstep : ∀ g, ∀ a ∈ l, I g → Confined ofNode ofRel label g (step g a) ∧ I (step g a))
    {g : PropertyGraph N R} (h : I g) : Confined ofNode ofRel label g (l.foldl step g) := by
  induction l generalizing g with
  | nil => exact .refl
  | cons a l ih =>
    obtain ⟨hfirst, hkept⟩ := hstep g a mem_cons_self h
    exact hfirst.trans (ih (fun g b hb => hstep g b (mem_cons_of_mem _ hb)) hkept)

end Omniscience.PropertyGraph
