import Omniscience.Stores.Stubs

/-!
# The live edges of resolved stubs

`MERGE` looks for a relationship with the ends, the type and the workspace.  It does not ask whether
the one it finds is open.  So a closed version of an edge at the surviving node absorbs the open one
that is relocated there, and of several that meet at new ends the first one stays.  Nothing is lost
where all that meet are open, or where an open one is there already.
-/

namespace Omniscience.Cypher

open PropertyGraph List

variable {workspaceId w : Uuid}

/-- The relationship has not ended. -/
def isOpen (r : Arc Rel) : Bool := r.data.validTo.isNone

/-- The relationships meet at the nodes that their ends are folded into. -/
def Meets (into : ℕ → ℕ) (like : Rel → Rel → Prop) (r r₀ : Arc Rel) : Prop :=
  like r.data r₀.data ∧ into r₀.source = into r.source ∧ into r₀.target = into r.target

/-- All that meet the relationship are open, or an open one is there already. -/
def IsSettled (into : ℕ → ℕ) (like : Rel → Rel → Prop) (g : Graph) (r : Arc Rel) : Prop :=
  (∀ r₀ ∈ g.rels, Meets into like r r₀ → isOpen r₀ = true) ∨
    ∃ k ∈ g.rels, isOpen k = true ∧ like r.data k.data ∧ k.source = into r.source ∧
      k.target = into r.target

/-- The relationship has the type of the first, is open, and carries the properties of an open one
that met it. -/
def IsHeir (into : ℕ → ℕ) (like carries : Rel → Rel → Prop) (g : Graph) (r r' : Arc Rel) : Prop :=
  r'.data.relType = r.data.relType ∧ isOpen r' = true ∧
    ∃ r₀ ∈ g.rels, Meets into like r r₀ ∧ isOpen r₀ = true ∧ carries r₀.data r'.data

/-- Every open relationship of a deleted stub that satisfies the condition has an heir between its
other end and the surviving node, in the same direction.  An other end that is a stub itself may
have been folded too. -/
def KeepsLive (into : ℕ → ℕ) (like carries : Rel → Rel → Prop) (cond : Arc Rel → Prop)
    (g g' : Graph) : Prop :=
  ∀ r ∈ g.rels, isOpen r = true → cond r →
    (r.target ∉ g'.nodes.keys → r.source ≠ into r.target →
      ∃ r' ∈ g'.rels, Follows into r.source r'.source ∧ r'.target = into r.target ∧
        IsHeir into like carries g r r') ∧
    (r.source ∉ g'.nodes.keys → r.target ≠ into r.source →
      ∃ r' ∈ g'.rels, r'.source = into r.source ∧ Follows into r.target r'.target ∧
        IsHeir into like carries g r r')

section

variable {into : ℕ → ℕ} {same like : Rel → Rel → Prop} {alike : Rel → Rel → Bool} {g g' : Graph}
  {r : Arc Rel}

theorem exists_heir (hidem : ∀ i, into (into i) = into i) (hrefl : ∀ d, same d d)
    (htype : ∀ {a b}, like a b → b.relType = a.relType)
    (hopen : ∀ {a b}, same a b → b.validTo = a.validTo)
    (hlike : ∀ {a b c}, like a b → same c b → like a c)
    (h : Relocates into same like alike g g') (hr : r ∈ g.rels)
    (hsettled : IsSettled into like g r) :
    ∃ r' ∈ g'.rels, Follows into r.source r'.source ∧ Follows into r.target r'.target ∧
      IsHeir into like same g r r' := by
  rcases hsettled with hall | ⟨k, hk, hkopen, hdata, hsource, htarget⟩
  · obtain ⟨r', hr', hdata, hsource, htarget⟩ := h.image r hr
    obtain ⟨r₀, hr₀, hsame, hsource₀, htarget₀⟩ := h.origin r' hr'
    have hmeets : Meets into like r r₀ := by
      refine ⟨hlike hdata hsame, ?_, ?_⟩
      · rw [← hsource₀.into_eq hidem, hsource.into_eq hidem]
      · rw [← htarget₀.into_eq hidem, htarget.into_eq hidem]
    have hopen₀ := hall r₀ hr₀ hmeets
    refine ⟨r', hr', hsource, htarget, htype hdata, ?_, r₀, hr₀, hmeets, hopen₀, hsame⟩
    rw [isOpen, hopen hsame]
    exact hopen₀
  · have hstill : isStill into k = true := by
      simp [isStill, hsource, htarget, hidem]
    refine ⟨k, h.still.subset (mem_filter.2 ⟨hk, hstill⟩), .inr hsource, .inr htarget,
      htype hdata, hkopen, k, hk, ⟨hdata, ?_, ?_⟩, hkopen, hrefl _⟩
    · rw [hsource, hidem]
    · rw [htarget, hidem]

end

/-! ### Resolution -/

/-- What `MERGE` of the resolution takes for one edge. -/
def Mergeable (d d' : Rel) : Prop := d.isMergeable d' = true

theorem keepsLive_resolve (w : Uuid) (fuel : ℕ) (g : Graph) :
    KeepsLive (standIn w g) Mergeable Eq (IsSettled (standIn w g) Mergeable g) g
      (resolvePendingStubs w fuel g).1 := by
  set g' := (resolvePendingStubs w fuel g).1 with hg'
  have hresolves := (resolvePendingStubs_spec w fuel g).2
  intro r hr _ hsettled
  obtain ⟨r', hr', hsource, htarget, hheir⟩ := exists_heir (standIn_standIn g) (fun _ => rfl)
    (fun {a b} h => by
      simp only [Rel.isMergeable, Bool.and_eq_true, decide_eq_true_eq] at h
      exact h.1)
    (fun {a b} h => by rw [h]) (fun {a b c} h h' => h' ▸ h) hresolves hr hsettled
  refine ⟨fun hgone _ => ⟨r', hr', hsource, ?_, hheir⟩, fun hgone _ => ⟨r', hr', ?_, htarget, hheir⟩⟩
  · exact htarget.resolve_left fun heq => hgone (heq ▸ (g'.ends r' hr').2)
  · exact hsource.resolve_left fun heq => hgone (heq ▸ (g'.ends r' hr').1)

theorem lost_of_closed {fuel : ℕ} {g : Graph} {r k : Arc Rel} (hk : k ∈ g.rels)
    (hdata : r.data.isMergeable k.data = true)
    (hends : k.source = standIn w g r.source ∧
      k.target = standIn w g r.target)
    (hclosed : ∀ k' ∈ g.rels, isAlike Rel.isMergeable k k' = true → isOpen k' = false) :
    ¬ ∃ r' ∈ (resolvePendingStubs w fuel g).1.rels,
      r'.source = standIn w g r.source ∧ r'.target = standIn w g r.target ∧
        IsHeir (standIn w g) Mergeable Eq g r r' := by
  have hresolves := (resolvePendingStubs_spec w fuel g).2
  rintro ⟨r', hr', hsource, htarget, -, hopen, r₀, -, hmeets, -, hcarried⟩
  have hstill : isStill (standIn w g) k = true := by
    simp [isStill, hends.1, hends.2, standIn_standIn]
  have halike : isAlike Rel.isMergeable k r' = true := by
    have hmerge : k.data.isMergeable r'.data = true :=
      isMergeable_trans (isMergeable_symm hdata) (hcarried ▸ hmeets.1)
    simp [isAlike, hsource, htarget, hends.1, hends.2, hmerge]
  have hold := hresolves.alone k hk hstill r' hr' halike
  rw [hclosed r' hold halike] at hopen
  cases hopen

/-! ### Groups of duplicates -/

/-- The named stubs in the order of the statement. -/
def sortedStubs (g : Graph) : List (ℕ × Node) :=
  (g.matching Node.isNamedStub).insertionSort fun a b =>
    toLex (timeOrder a.2.createdAt, a.2.idOrder) ≤ toLex (timeOrder b.2.createdAt, b.2.idOrder)

/-- The stubs of one workspace and name. -/
def stubsOf (g : Graph) (key : Option Uuid × Option String) : List ℕ :=
  ((sortedStubs g).filter fun item => (item.2.workspaceId, item.2.name) = key).map Prod.fst

section

variable {g : Graph} {group group' : ℕ × List ℕ} {i : ℕ}

theorem mem_stubGroups (h : group ∈ stubGroups g) : ∃ key, stubsOf g key = group.1 :: group.2 := by
  simp only [stubGroups, mem_filterMap] at h
  obtain ⟨key, -, hgroup⟩ := h
  split at hgroup
  · rename_i keep dup dups hstubs
    cases hgroup
    exact ⟨key, hstubs⟩
  · cases hgroup

theorem mem_stubsOf {key : Option Uuid × Option String} : i ∈ stubsOf g key ↔
    ∃ n, g.nodes.get? i = some n ∧ n.isNamedStub = true ∧ (n.workspaceId, n.name) = key := by
  rw [stubsOf, mem_map]
  constructor
  · rintro ⟨item, hitem, rfl⟩
    obtain ⟨hmem, hkey⟩ := mem_filter.1 hitem
    rw [sortedStubs, mem_insertionSort] at hmem
    exact ⟨item.2, get?_of_mem_matching hmem, (mem_filter.1 hmem).2, of_decide_eq_true hkey⟩
  · rintro ⟨n, hn, hstub, hkey⟩
    refine ⟨(i, n), mem_filter.2 ⟨?_, decide_eq_true hkey⟩, rfl⟩
    rw [sortedStubs, mem_insertionSort]
    exact mem_filter.2 ⟨Dict.mem_items_of_get? hn, hstub⟩

theorem nodup_stubsOf (key : Option Uuid × Option String) : (stubsOf g key).Nodup := by
  have hperm : ((sortedStubs g).map Prod.fst).Perm ((g.matching Node.isNamedStub).map Prod.fst) :=
    (perm_insertionSort _ _).map _
  have hnodup : ((sortedStubs g).map Prod.fst).Nodup :=
    hperm.nodup_iff.2 (g.nodes.nodup.sublist (filter_sublist.map _))
  exact hnodup.sublist (filter_sublist.map _)

theorem group_eq_of_mem (h : group ∈ stubGroups g) (h' : group' ∈ stubGroups g)
    (hi : i ∈ group.1 :: group.2) (hi' : i ∈ group'.1 :: group'.2) : group = group' := by
  obtain ⟨key, hkey⟩ := mem_stubGroups h
  obtain ⟨key', hkey'⟩ := mem_stubGroups h'
  obtain ⟨n, hn, -, rfl⟩ := mem_stubsOf.1 (hkey ▸ hi)
  obtain ⟨n', hn', -, rfl⟩ := mem_stubsOf.1 (hkey' ▸ hi')
  obtain rfl : n = n' := Option.some.inj (hn.symm.trans hn')
  obtain ⟨hkeep, hdups⟩ := List.cons.inj (hkey.symm.trans hkey')
  exact Prod.ext hkeep hdups

theorem keep_notMem (h : group ∈ stubGroups g) : group.1 ∉ group.2 := by
  obtain ⟨key, hkey⟩ := mem_stubGroups h
  have hnodup := nodup_stubsOf (g := g) key
  rw [hkey, nodup_cons] at hnodup
  exact hnodup.1

theorem mem_keys_of_group (h : group ∈ stubGroups g) (hi : i ∈ group.1 :: group.2) :
    i ∈ g.nodes.keys := by
  obtain ⟨key, hkey⟩ := mem_stubGroups h
  obtain ⟨n, hn, -, -⟩ := mem_stubsOf.1 (hkey ▸ hi)
  exact mem_map_of_mem (Dict.mem_items_of_get? hn)

/-- The stub that is kept for a duplicate; every other node is kept itself. -/
def keeperOf (g : Graph) (i : ℕ) : ℕ :=
  match (stubGroups g).find? fun group => i ∈ group.2 with
  | some group => group.1
  | none => i

theorem keeperOf_dup (h : group ∈ stubGroups g) (hi : i ∈ group.2) : keeperOf g i = group.1 := by
  rw [keeperOf]
  split
  · rename_i found hfound
    have hmem := List.mem_of_find?_eq_some hfound
    have hdup : i ∈ found.2 := of_decide_eq_true (List.find?_some hfound :)
    rw [group_eq_of_mem hmem h (mem_cons_of_mem _ hdup) (mem_cons_of_mem _ hi)]
  · rename_i hnone
    exact absurd (decide_eq_true hi) (List.find?_eq_none.1 hnone group h)

theorem keeperOf_of_notMem (h : ∀ group ∈ stubGroups g, i ∉ group.2) : keeperOf g i = i := by
  have hnone : ((stubGroups g).find? fun group => i ∈ group.2) = none := by
    rw [List.find?_eq_none]
    intro group hgroup hi
    exact h group hgroup (of_decide_eq_true hi)
  rw [keeperOf, hnone]

theorem keep_notMem_dups (h : group ∈ stubGroups g) (h' : group' ∈ stubGroups g) :
    group.1 ∉ group'.2 := by
  intro hmem
  obtain rfl := group_eq_of_mem h h' mem_cons_self (mem_cons_of_mem _ hmem)
  exact keep_notMem h hmem

theorem keeperOf_keep (h : group ∈ stubGroups g) : keeperOf g group.1 = group.1 :=
  keeperOf_of_notMem fun _ h' => keep_notMem_dups h h'

theorem keeperOf_of_mem (h : group ∈ stubGroups g) (hi : i ∈ group.1 :: group.2) :
    keeperOf g i = group.1 := by
  rcases mem_cons.1 hi with rfl | hi
  · exact keeperOf_keep h
  · exact keeperOf_dup h hi

theorem keeperOf_keeperOf (g : Graph) (i : ℕ) : keeperOf g (keeperOf g i) = keeperOf g i := by
  by_cases hdup : ∃ group ∈ stubGroups g, i ∈ group.2
  · obtain ⟨group, hgroup, hi⟩ := hdup
    rw [keeperOf_dup hgroup hi, keeperOf_keep hgroup]
  · have hself : keeperOf g i = i :=
      keeperOf_of_notMem fun group hgroup hi => hdup ⟨group, hgroup, hi⟩
    rw [hself, hself]

theorem stubGroups_of_nodes {g' : Graph} (h : g'.nodes = g.nodes) : stubGroups g' = stubGroups g := by
  rw [stubGroups, stubGroups, matching, matching, h]

end

/-! ### Healing -/

/-- The second has every property of the first, and perhaps a workspace in addition. -/
def Carries (d d' : Rel) : Prop :=
  d' = { d with workspaceId := d'.workspaceId } ∧ ∀ u, d.workspaceId = some u → d'.workspaceId = some u

theorem carries_refl (d : Rel) : Carries d d := ⟨rfl, fun _ h => h⟩

theorem carries_trans {a b c : Rel} (h : Carries a b) (h' : Carries b c) : Carries a c := by
  refine ⟨?_, fun u hu => h'.2 u (h.2 u hu)⟩
  have hc := h'.1
  rw [h.1] at hc
  exact hc

/-- The relationships have one type. -/
def SameType (d d' : Rel) : Prop := d'.relType = d.relType

/-- The duplicates of the first graph are folded into the stubs that are kept. -/
def Heals (origin g g' : Graph) : Prop :=
  Relocates (keeperOf origin) Carries SameType Rel.isMergeable g g'

theorem Heals.trans {origin g g' g'' : Graph} (h : Heals origin g g') (h' : Heals origin g' g'') :
    Heals origin g g'' :=
  Relocates.trans (keeperOf_keeperOf origin) carries_trans
    (fun {a b c} (hab : SameType a b) (hbc : SameType b c) => (hbc.trans hab : SameType a c)) h h'

theorem Heals.of_rels {origin g g' : Graph} (h : g'.rels = g.rels) : Heals origin g g' :=
  Relocates.of_rels carries_refl (fun _ => rfl) h

section

variable {origin g : Graph} {relType : String} {rows : List (Arc Rel × Arc Rel)}
  {row : Arc Rel × Arc Rel}

theorem mem_healMatches {test : Arc Rel → ℕ → ℕ × List ℕ → Bool} {m : Arc Rel × ℕ} :
    m ∈ healMatches test g ↔ ∃ group ∈ stubGroups g, ∃ dup ∈ group.2, m.1 ∈ g.rels ∧
      test m.1 dup group = true ∧ m.2 = group.1 := by
  simp only [healMatches, mem_flatMap, mem_map, mem_filter]
  refine exists_congr fun group => and_congr_right fun _ => exists_congr fun dup =>
    and_congr_right fun _ => ⟨?_, ?_⟩
  · rintro ⟨r, ⟨hr, htest⟩, rfl⟩
    exact ⟨hr, htest, rfl⟩
  · rintro ⟨hr, htest, hkeep⟩
    exact ⟨m.1, ⟨hr, htest⟩, by rw [← hkeep]⟩

theorem carries_healWorkspace (g : Graph) (m : Arc Rel × ℕ) :
    Carries m.1.data { m.1.data with workspaceId := healWorkspace g m } := by
  refine ⟨rfl, fun u hu => ?_⟩
  change healWorkspace g m = some u
  rw [healWorkspace, hu]
  rfl

/-- The rows of either statement. -/
def healRowsAt (inward : Bool) (relType : String) (g : Graph) : Option (List (Arc Rel × Arc Rel)) :=
  if inward then healRowsTo relType g else healRowsFrom relType g

variable {inward : Bool}

theorem mem_healRowsAt (h : healRowsAt inward relType g = some rows) : row ∈ rows ↔
    ∃ group ∈ stubGroups g, ∃ dup ∈ group.2, row.1 ∈ g.rels ∧ endAt inward row.1 = dup ∧
      endAt (!inward) row.1 ∉ group.1 :: group.2 ∧ row.1.data.relType = relType ∧
      row.2 = redirect inward row.1 group.1
        { row.1.data with workspaceId := healWorkspace g (row.1, group.1) } := by
  cases inward
  all_goals
    simp only [healRowsAt, healRowsTo, healRowsFrom, Bool.false_eq_true, if_false, if_true] at h
    split at h
    · cases h
    obtain rfl := Option.some.inj h
    rw [mem_map]
    constructor
    · rintro ⟨m, hm, rfl⟩
      obtain ⟨group, hgroup, dup, hdup, hr, htest, hkeep⟩ := mem_healMatches.1 hm
      simp only [Bool.and_eq_true, decide_eq_true_eq] at htest
      refine ⟨group, hgroup, dup, hdup, hr, htest.1.1.1, ?_, htest.2, ?_⟩
      · rw [mem_cons, not_or]
        exact ⟨htest.1.1.2, htest.1.2⟩
      · rw [← hkeep]
        rfl
    · rintro ⟨group, hgroup, dup, hdup, hr, hend, hother, htype, hnew⟩
      rw [mem_cons, not_or] at hother
      refine ⟨(row.1, group.1), mem_healMatches.2 ⟨group, hgroup, dup, hdup, hr, ?_, rfl⟩,
        Prod.ext rfl hnew.symm⟩
      simp only [Bool.and_eq_true, decide_eq_true_eq]
      exact ⟨⟨⟨hend, hother.1⟩, hother.2⟩, htype⟩

theorem sameType_of_isMergeable {d d' : Rel} {ws : Option Uuid}
    (h : Rel.isMergeable { d with workspaceId := ws } d' = true) : SameType d d' := by
  simp only [Rel.isMergeable, Bool.and_eq_true, decide_eq_true_eq] at h
  exact h.1

section

variable (h : healRowsAt inward relType g = some rows) (hnodes : g.nodes = origin.nodes)

include h hnodes

theorem redirects_healRowsAt : Redirects inward (keeperOf origin) g rows := by
  have hinto {row : Arc Rel × Arc Rel} {group : ℕ × List ℕ} (hgroup : group ∈ stubGroups g)
      (hdup : endAt inward row.1 ∈ group.2) : keeperOf origin (endAt inward row.1) = group.1 :=
    keeperOf_dup (stubGroups_of_nodes hnodes ▸ hgroup) hdup
  refine ⟨fun row hrow => ?_, fun row hrow => ?_, fun row hrow => ?_, fun row hrow row' hrow' => ?_⟩
  all_goals obtain ⟨group, hgroup, _, hdup, hr, rfl, -, -, hnew⟩ := (mem_healRowsAt h).1 hrow
  · exact hr
  · rw [hinto hgroup hdup, hnew]
    cases inward <;> rfl
  · rw [hinto hgroup hdup]
    exact mem_keys_of_group hgroup mem_cons_self
  · obtain ⟨group', hgroup', _, hdup', -, rfl, -⟩ := (mem_healRowsAt h).1 hrow'
    rw [hinto hgroup hdup]
    exact fun heq => keep_notMem_dups hgroup hgroup' (heq ▸ hdup')

theorem heals_rowsAt : Heals origin g (g.relocate Rel.isMergeable rows) := by
  refine (redirects_healRowsAt h hnodes).relocates isMergeable_refl isMergeable_symm carries_refl
    (fun _ => rfl) fun row hrow => ?_
  obtain ⟨group, -, -, -, -, -, -, -, hnew⟩ := (mem_healRowsAt h).1 hrow
  rw [hnew]
  cases inward
  all_goals exact ⟨carries_healWorkspace g (row.1, group.1), fun _ hd => sameType_of_isMergeable hd⟩

theorem mem_relocate_healRowsAt {r : Arc Rel} (hr : r ∈ (g.relocate Rel.isMergeable rows).rels) :
    (r ∈ g.rels ∧ (r.data.relType = relType → ∀ group ∈ stubGroups g, endAt inward r ∈ group.2 →
      endAt (!inward) r ∈ group.1 :: group.2)) ∨
      (r.data.relType = relType ∧ ∃ group ∈ stubGroups g, endAt inward r = group.1 ∧
        ∃ r₀ ∈ g.rels, endAt inward r₀ ∈ group.2 ∧ r₀.data.relType = relType ∧
          endAt (!inward) r₀ = endAt (!inward) r ∧ endAt (!inward) r₀ ∉ group.1 :: group.2) := by
  rcases (redirects_healRowsAt h hnodes).mem_rels isMergeable_refl hr with
    ⟨hmem, hkept⟩ | ⟨row, hrow, rfl⟩
  · refine .inl ⟨hmem, fun htype group hgroup hdup => ?_⟩
    by_contra hother
    exact hkept (redirect inward r group.1
      { r.data with workspaceId := healWorkspace g (r, group.1) })
      ((mem_healRowsAt h).2 ⟨group, hgroup, _, hdup, hmem, rfl, hother, htype, rfl⟩)
  · obtain ⟨group, hgroup, _, hdup, hmem, rfl, houtside, htype, hnew⟩ := (mem_healRowsAt h).1 hrow
    rw [hnew]
    cases inward
    all_goals exact .inr ⟨htype, group, hgroup, rfl, row.1, hmem, hdup, htype, rfl, houtside⟩

end

end

/-- The relationships of the type at the duplicates stay within their groups. -/
def IsHealed (origin : Graph) (relType : String) (g : Graph) : Prop :=
  ∀ r ∈ g.rels, r.data.relType = relType → ∀ group ∈ stubGroups origin,
    (r.target ∈ group.2 → r.source ∈ group.1 :: group.2) ∧
      (r.source ∈ group.2 → r.target ∈ group.1 :: group.2)

section

variable {origin g g' : Graph} {relType : String}

theorem healType_spec (hnodes : g.nodes = origin.nodes) {ended : Bool}
    (h : healType (g, true) relType = (g', ended)) :
    g'.nodes = origin.nodes ∧ Heals origin g g' ∧
      (ended = true → IsHealed origin relType g') ∧
      ∀ other, other ≠ relType → IsHealed origin other g → IsHealed origin other g' := by
  have hgroups := stubGroups_of_nodes hnodes
  simp only [healType, Bool.not_true, Bool.false_eq_true, if_false] at h
  cases hto : healRowsTo relType g with
  | none =>
    rw [hto] at h
    obtain ⟨rfl, rfl⟩ := Prod.mk.inj h
    exact ⟨hnodes, .of_rels rfl, nofun, fun _ _ hhealed => hhealed⟩
  | some rows =>
    rw [hto] at h
    simp only at h
    have hto : healRowsAt true relType g = some rows := hto
    set inward := g.relocate Rel.isMergeable rows with hinward
    have hnodes' : inward.nodes = origin.nodes := (nodes_relocate rows g).trans hnodes
    have hgroups' := stubGroups_of_nodes hnodes'
    have hheals := heals_rowsAt hto hnodes
    have hinwardOther : ∀ other, other ≠ relType → IsHealed origin other g →
        IsHealed origin other inward := by
      intro other hne hhealed r hr htype
      rcases mem_relocate_healRowsAt hto hnodes hr with ⟨hmem, -⟩ | ⟨htype', -⟩
      · exact hhealed r hmem htype
      · exact absurd (htype.symm.trans htype') hne
    cases hfrom : healRowsFrom relType inward with
    | none =>
      rw [hfrom] at h
      obtain ⟨rfl, rfl⟩ := Prod.mk.inj h
      exact ⟨hnodes', hheals, nofun, hinwardOther⟩
    | some rows' =>
      rw [hfrom] at h
      obtain ⟨rfl, rfl⟩ := Prod.mk.inj h
      have hfrom : healRowsAt false relType inward = some rows' := hfrom
      refine ⟨(nodes_relocate rows' inward).trans hnodes',
        hheals.trans (heals_rowsAt hfrom hnodes'), fun _ => ?_, ?_⟩
      · -- what leaves a duplicate does not end at one of another group
        have hends : ∀ r ∈ inward.rels, r.data.relType = relType →
            ∀ group ∈ stubGroups origin, r.target ∈ group.2 → r.source ∈ group.1 :: group.2 := by
          intro r hr htype group hgroup hdup
          rcases mem_relocate_healRowsAt hto hnodes hr with
            ⟨-, hcleared⟩ | ⟨-, group', hgroup', hkeep, -⟩
          · exact hcleared htype group (hgroups ▸ hgroup) hdup
          · rw [hgroups] at hgroup'
            exact absurd (hkeep ▸ hdup) (keep_notMem_dups hgroup' hgroup)
        intro r hr htype group hgroup
        rcases mem_relocate_healRowsAt hfrom hnodes' hr with
          ⟨hmem, hcleared⟩ | ⟨-, group', hgroup', hkeep, r₀, hr₀, hdup₀, htype₀, hsame, houtside⟩
        · exact ⟨hends r hmem htype group hgroup, hcleared htype group (hgroups' ▸ hgroup)⟩
        · rw [hgroups'] at hgroup'
          have hsame : r₀.target = r.target := hsame
          have houtside : r₀.target ∉ group'.1 :: group'.2 := houtside
          refine ⟨fun hdup => ?_, fun hdup => ?_⟩
          · rw [← hsame] at hdup
            have hin := hends r₀ hr₀ htype₀ group hgroup hdup
            obtain rfl := group_eq_of_mem hgroup hgroup' hin (mem_cons_of_mem _ hdup₀)
            exact absurd (mem_cons_of_mem _ hdup) houtside
          · exact absurd (hkeep ▸ hdup) (keep_notMem_dups hgroup' hgroup)
      · intro other hne hhealed r hr htype
        rcases mem_relocate_healRowsAt hfrom hnodes' hr with ⟨hmem, -⟩ | ⟨htype', -⟩
        · exact hinwardOther other hne hhealed r hmem htype
        · exact absurd (htype.symm.trans htype') hne

theorem foldl_healType_spec (relTypes : List String) (hnodes : g.nodes = origin.nodes)
    {ended : Bool} (h : relTypes.foldl healType (g, true) = (g', ended)) :
    g'.nodes = origin.nodes ∧ Heals origin g g' ∧
      (ended = true → ∀ relType ∈ relTypes, IsHealed origin relType g') ∧
      (ended = true → ∀ other ∉ relTypes, IsHealed origin other g → IsHealed origin other g') := by
  induction relTypes generalizing g with
  | nil =>
    obtain ⟨rfl, rfl⟩ := Prod.mk.inj h
    exact ⟨hnodes, .of_rels rfl, by simp, fun _ _ _ hhealed => hhealed⟩
  | cons relType relTypes ih =>
    rw [foldl_cons] at h
    cases hstep : healType (g, true) relType with
    | mk g₁ ended₁ =>
      obtain ⟨hnodes₁, hheals, hhealed, hother⟩ := healType_spec hnodes hstep
      rw [hstep] at h
      cases ended₁ with
      | false =>
        -- a statement that raised ends the loop
        have hstuck : ∀ l : List String, l.foldl healType (g₁, false) = (g₁, false) := by
          intro l
          induction l with
          | nil => rfl
          | cons t l ih => exact ih
        rw [hstuck] at h
        obtain ⟨rfl, rfl⟩ := Prod.mk.inj h
        exact ⟨hnodes₁, hheals, nofun, nofun⟩
      | true =>
        obtain ⟨hnodes', hheals', hhealed', hother'⟩ := ih hnodes₁ h
        refine ⟨hnodes', hheals.trans hheals', fun hended t ht => ?_, fun hended t ht hg => ?_⟩
        · by_cases hlater : t ∈ relTypes
          · exact hhealed' hended t hlater
          · rcases mem_cons.1 ht with rfl | ht
            · exact hother' hended t hlater (hhealed rfl)
            · exact absurd ht hlater
        · rw [mem_cons, not_or] at ht
          exact hother' hended t ht.2 (hother t ht.1 hg)

end

section

variable {g : Graph} {relTypes skipped : List String}

theorem healDuplicateStubs_cases (relTypes skipped : List String) (g : Graph) :
    ∃ healed, healed.nodes = g.nodes ∧ Heals g g healed ∧
      (healDuplicateStubs relTypes skipped g = healed ∨
        (healDuplicateStubs relTypes skipped g = deleteDuplicates healed ∧ skipped = [] ∧
          ∀ relType ∈ relTypes, IsHealed g relType healed)) := by
  rw [healDuplicateStubs]
  split
  · exact ⟨g, rfl, .of_rels rfl, .inl rfl⟩
  cases hfold : relTypes.foldl healType (g, true) with
  | mk healed ended =>
    obtain ⟨hnodes, hheals, hhealed, -⟩ := foldl_healType_spec relTypes rfl hfold
    refine ⟨healed, hnodes, hheals, ?_⟩
    simp only
    split
    · rename_i hended
      rw [Bool.and_eq_true, List.isEmpty_iff] at hended
      exact .inr ⟨rfl, hended.2, hhealed hended.1⟩
    · exact .inl rfl

theorem mem_deleteDuplicates {healed : Graph} (hnodes : healed.nodes = g.nodes) {r : Arc Rel}
    (hr : r ∈ healed.rels)
    (hends : ∀ group ∈ stubGroups g, r.source ∉ group.2 ∧ r.target ∉ group.2) :
    r ∈ (deleteDuplicates healed).rels := by
  have hfree : ∀ i, (∀ group ∈ stubGroups g, i ∉ group.2) →
      ((stubGroups healed).any fun group => decide (i ∈ group.2)) = false := by
    intro i hi
    rw [stubGroups_of_nodes hnodes, any_eq_false]
    intro group hgroup hmem
    exact hi group hgroup (of_decide_eq_true hmem)
  rw [deleteDuplicates, rels_detachDelete, mem_filter,
    hfree _ fun group hgroup => (hends group hgroup).1,
    hfree _ fun group hgroup => (hends group hgroup).2]
  exact ⟨hr, rfl⟩

theorem keepsLive_heal
    (hcover : ∀ r ∈ g.rels, r.data.relType ∈ relTypes ∨ r.data.relType ∈ skipped) :
    KeepsLive (keeperOf g) SameType Carries (fun r => keeperOf g r.source ≠ keeperOf g r.target ∧
      IsSettled (keeperOf g) SameType g r) g (healDuplicateStubs relTypes skipped g) := by
  intro r hr _ hcond
  obtain ⟨hapart, hsettled⟩ := hcond
  obtain ⟨healed, hnodes, hheals, hresult⟩ := healDuplicateStubs_cases relTypes skipped g
  set g' := healDuplicateStubs relTypes skipped g with hg'
  rcases hresult with hresult | ⟨hresult, hskipped, hhealed⟩
  · -- no node is deleted
    have hkeys : ∀ {i}, i ∈ g.nodes.keys → i ∈ g'.nodes.keys := by
      intro i hi
      rw [hresult, hnodes]
      exact hi
    exact ⟨fun hgone _ => absurd (hkeys (g.ends r hr).2) hgone,
      fun hgone _ => absurd (hkeys (g.ends r hr).1) hgone⟩
  obtain ⟨r', hr', hsource, htarget, hheir⟩ := exists_heir (keeperOf_keeperOf g) carries_refl
    (fun {a b} h => h) (fun {a b} h => by rw [h.1]) (fun {a b c} (hab : b.relType = a.relType) h => by
      have hc : b.relType = c.relType := by rw [h.1]
      exact hc.symm.trans hab) hheals hr hsettled
  have htype : r'.data.relType ∈ relTypes := by
    rw [hheir.1]
    refine (hcover r hr).resolve_right fun hmem => ?_
    rw [hskipped] at hmem
    exact absurd hmem not_mem_nil
  have hkeeps : ∀ group ∈ stubGroups g, r'.source ∉ group.2 ∧ r'.target ∉ group.2 := by
    intro group hgroup
    obtain ⟨hto, hfrom⟩ := hhealed r'.data.relType htype r' hr' rfl group hgroup
    -- both ends in one group would fold into one
    have hboth : r'.source ∈ group.1 :: group.2 → r'.target ∈ group.1 :: group.2 → False := by
      intro hs ht
      refine hapart ?_
      rw [← hsource.into_eq (keeperOf_keeperOf g), ← htarget.into_eq (keeperOf_keeperOf g),
        keeperOf_of_mem hgroup hs, keeperOf_of_mem hgroup ht]
    exact ⟨fun hs => hboth (mem_cons_of_mem _ hs) (hfrom hs),
      fun ht => hboth (hto ht) (mem_cons_of_mem _ ht)⟩
  have hmem : r' ∈ g'.rels := by
    rw [hresult]
    exact mem_deleteDuplicates hnodes hr' hkeeps
  refine ⟨fun hgone _ => ⟨r', hmem, hsource, ?_, hheir⟩, fun hgone _ => ⟨r', hmem, ?_, htarget, hheir⟩⟩
  · exact htarget.resolve_left fun heq => hgone (heq ▸ (g'.ends r' hmem).2)
  · exact hsource.resolve_left fun heq => hgone (heq ▸ (g'.ends r' hmem).1)

end

/-! ### What no stub is concerned with -/

/-- The node is a stub. -/
def Node.isAnyStub (n : Node) : Bool := n.label = .entity && n.isStub = some true

/-- The relationships that are not incident to a stub. -/
def awayFromStubs (g : Graph) : List (Arc Rel) :=
  g.rels.filter fun r => !g.has Node.isAnyStub r.source && !g.has Node.isAnyStub r.target

theorem awayFromStubs_sublist {into : ℕ → ℕ} {g : Graph}
    (h : ∀ i, g.has Node.isAnyStub i = false → into i = i) :
    (awayFromStubs g).Sublist (g.rels.filter (isStill into)) := by
  refine monotone_filter_right _ fun r hr => ?_
  rw [Bool.and_eq_true, Bool.not_eq_true', Bool.not_eq_true'] at hr
  simp [isStill, h _ hr.1, h _ hr.2]

theorem standIn_of_isAnyStub {g : Graph} {i : ℕ} (h : g.has Node.isAnyStub i = false) :
    standIn w g i = i := by
  refine standIn_eq_self ?_
  rw [← Bool.not_eq_true]
  intro hstub
  obtain ⟨n, hn, hn'⟩ := has_iff.1 hstub
  simp only [Node.isStubIn, Node.isIn, Bool.and_eq_true, decide_eq_true_eq] at hn'
  have hany : g.has Node.isAnyStub i = true :=
    has_iff.2 ⟨n, hn, by simp [Node.isAnyStub, hn'.1.1, hn'.2]⟩
  rw [h] at hany
  cases hany

theorem keeperOf_of_isAnyStub {g : Graph} {i : ℕ} (h : g.has Node.isAnyStub i = false) :
    keeperOf g i = i := by
  refine keeperOf_of_notMem fun group hgroup hmem => ?_
  obtain ⟨key, hkey⟩ := mem_stubGroups hgroup
  obtain ⟨n, hn, hstub, -⟩ := mem_stubsOf.1 (hkey ▸ mem_cons_of_mem group.1 hmem)
  simp only [Node.isNamedStub, Bool.and_eq_true, decide_eq_true_eq] at hstub
  have hany : g.has Node.isAnyStub i = true := by
    refine has_iff.2 ⟨n, hn, ?_⟩
    cases hb : n.isStub with
    | none => simp [hb] at hstub
    | some b =>
      rw [hb, Option.getD_some] at hstub
      simp [Node.isAnyStub, hstub.1.1, hb, hstub.1.2]
  rw [h] at hany
  cases hany

theorem still_heal (relTypes skipped : List String) (g : Graph) :
    (g.rels.filter (isStill (keeperOf g))).Sublist (healDuplicateStubs relTypes skipped g).rels := by
  obtain ⟨healed, hnodes, hheals, hresult⟩ := healDuplicateStubs_cases relTypes skipped g
  rcases hresult with hresult | ⟨hresult, -, -⟩
  · rw [hresult]
    exact hheals.still
  · rw [hresult, deleteDuplicates, rels_detachDelete]
    have hfree : ∀ i, keeperOf g i = i →
        ((stubGroups healed).any fun group => decide (i ∈ group.2)) = false := by
      intro i hi
      rw [stubGroups_of_nodes hnodes, any_eq_false]
      intro group hgroup hmem
      have hdup : i ∈ group.2 := of_decide_eq_true hmem
      rw [keeperOf_dup hgroup hdup] at hi
      exact keep_notMem hgroup (hi.symm ▸ hdup)
    have hsub := hheals.still.filter fun r =>
      !((stubGroups healed).any fun group => decide (r.source ∈ group.2)) &&
        !((stubGroups healed).any fun group => decide (r.target ∈ group.2))
    rw [filter_eq_self.2 fun r hr => ?_] at hsub
    · exact hsub
    · have hstill := (mem_filter.1 hr).2
      simp only [isStill, Bool.and_eq_true, decide_eq_true_eq] at hstill
      rw [hfree _ hstill.1, hfree _ hstill.2]
      rfl

/-- **Live edges of stubs.**  Unless the surviving node has only closed versions of an edge of a
deleted stub, the resolution and the healing keep it open; the healing asks in addition that the two
ends are not stubs of one name. -/
theorem stubs_keep_live_edges {fuel : ℕ} {relTypes skipped : List String} {g : Graph}
    (hcover : ∀ r ∈ g.rels, r.data.relType ∈ relTypes ∨ r.data.relType ∈ skipped) :
    (KeepsLive (standIn workspaceId g) Mergeable Eq
        (IsSettled (standIn workspaceId g) Mergeable g) g
        (resolvePendingStubs workspaceId fuel g).1 ∧
      KeepsLive (keeperOf g) SameType Carries (fun r => keeperOf g r.source ≠ keeperOf g r.target ∧
        IsSettled (keeperOf g) SameType g r) g (healDuplicateStubs relTypes skipped g)) ∧
      ((awayFromStubs g).Sublist (resolvePendingStubs workspaceId fuel g).1.rels ∧
        (awayFromStubs g).Sublist (healDuplicateStubs relTypes skipped g).rels) ∧
      ∀ r, ∀ k ∈ g.rels, r.data.isMergeable k.data = true →
        k.source = standIn workspaceId g r.source ∧ k.target = standIn workspaceId g r.target →
        (∀ k' ∈ g.rels, isAlike Rel.isMergeable k k' = true → isOpen k' = false) →
        ¬ ∃ r' ∈ (resolvePendingStubs workspaceId fuel g).1.rels,
          r'.source = standIn workspaceId g r.source ∧ r'.target = standIn workspaceId g r.target ∧
            IsHeir (standIn workspaceId g) Mergeable Eq g r r' := by
  refine ⟨⟨keepsLive_resolve workspaceId fuel g, keepsLive_heal hcover⟩, ⟨?_, ?_⟩,
    fun r k hk => lost_of_closed hk⟩
  · exact (awayFromStubs_sublist fun i => standIn_of_isAnyStub).trans
      (resolvePendingStubs_spec workspaceId fuel g).2.still
  · exact (awayFromStubs_sublist fun i => keeperOf_of_isAnyStub).trans
      (still_heal relTypes skipped g)

/-- The edge of the sample, which ends at some time. -/
def callsUntil (validTo : Option Time) : Rel :=
  { relType := "calls", workspaceId := some 7, validTo := validTo }

/-- An entity with a closed version of an edge to a real entity, and an open one to a stub of its
name. -/
def historicEdge : Graph :=
  ((((empty.create (bareEntity 7 1)).create
    { bareEntity 7 2 with name := some "a" }).create
    { bareEntity 7 3 with name := some "a", isStub := some true }).connect
      ⟨1, 2, callsUntil (some (.datetime 5))⟩).connect ⟨1, 3, callsUntil none⟩

theorem rels_historicEdge : historicEdge.rels =
    [⟨1, 2, callsUntil (some (.datetime 5))⟩, ⟨1, 3, callsUntil none⟩] := rfl

theorem relTypes_historicEdge : ∀ r ∈ historicEdge.rels,
    r.data.relType ∈ ["calls"] ∨ r.data.relType ∈ ([] : List String) := by
  rw [rels_historicEdge]
  decide

/-- What is kept of the sample. -/
theorem historicEdge_keeps :
    (KeepsLive (standIn 7 historicEdge) Mergeable Eq
        (IsSettled (standIn 7 historicEdge) Mergeable historicEdge) historicEdge
        (resolvePendingStubs 7 2 historicEdge).1 ∧
      KeepsLive (keeperOf historicEdge) SameType Carries
        (fun r => keeperOf historicEdge r.source ≠ keeperOf historicEdge r.target ∧
          IsSettled (keeperOf historicEdge) SameType historicEdge r) historicEdge
        (healDuplicateStubs ["calls"] [] historicEdge)) ∧
      ((awayFromStubs historicEdge).Sublist (resolvePendingStubs 7 2 historicEdge).1.rels ∧
        (awayFromStubs historicEdge).Sublist (healDuplicateStubs ["calls"] [] historicEdge).rels) ∧
      ∀ r, ∀ k ∈ historicEdge.rels, r.data.isMergeable k.data = true →
        k.source = standIn 7 historicEdge r.source ∧ k.target = standIn 7 historicEdge r.target →
        (∀ k' ∈ historicEdge.rels, isAlike Rel.isMergeable k k' = true → isOpen k' = false) →
        ¬ ∃ r' ∈ (resolvePendingStubs 7 2 historicEdge).1.rels,
          r'.source = standIn 7 historicEdge r.source ∧
            r'.target = standIn 7 historicEdge r.target ∧
            IsHeir (standIn 7 historicEdge) Mergeable Eq historicEdge r r' :=
  stubs_keep_live_edges relTypes_historicEdge

/-- The closed version absorbs the open one. -/
theorem historicEdge_lost :
    ¬ ∀ (workspaceId : Uuid) (fuel : ℕ) (g : Graph), ∀ r ∈ g.rels, isOpen r = true →
      r.target ∉ (resolvePendingStubs workspaceId fuel g).1.nodes.keys →
      r.source ≠ standIn workspaceId g r.target →
      ∃ r' ∈ (resolvePendingStubs workspaceId fuel g).1.rels, r'.source = r.source ∧
        r'.target = standIn workspaceId g r.target ∧ r'.data.relType = r.data.relType ∧
        isOpen r' = true := by
  intro h
  obtain ⟨r', hr', -, -, -, hopen⟩ := h 7 2 historicEdge ⟨1, 3, callsUntil none⟩
    (by rw [rels_historicEdge]; exact mem_cons_of_mem _ (mem_singleton_self _)) rfl
    (by decide) (by decide)
  have hrels : (resolvePendingStubs 7 2 historicEdge).1.rels =
      [⟨1, 2, callsUntil (some (.datetime 5))⟩] := rfl
  rw [hrels, mem_singleton] at hr'
  rw [hr'] at hopen
  cases hopen

end Omniscience.Cypher
