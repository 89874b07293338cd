import Omniscience.Stores.Stubs

/-!
# The stubs that a resolution leaves

`resolve_pending_stubs` returns when a pass deletes nothing.  Each pass works on the first batch of
stubs by id, and relocates every relationship of theirs that it may: not one with the real entity
itself, not the one to a state, and not one of another workspace.  So at the end the first batch
consists of stubs that carry one of these (`resolve_leaves_blocked`).  A stub that is not in it is
not looked at.
-/

namespace Omniscience.Cypher

open PropertyGraph List

variable {workspaceId w : Uuid}

/-- The stub carries a relationship that is not relocated: one with its entity, one to a state, or
one of another workspace. -/
def Blocked (workspaceId : Uuid) (g : Graph) (pair : ℕ × ℕ) : Prop :=
  ∃ r ∈ g.rels, r.touches pair.1 = true ∧
    (r.touches pair.2 = true ∨ r.data.relType = hadState ∨ r.data.workspaceId ≠ some workspaceId)

/-- Every relationship at a stub has a type that can be rendered. -/
def HasValidTypes (workspaceId : Uuid) (g : Graph) : Prop :=
  ∀ r ∈ g.rels, g.has (·.isStubIn workspaceId) r.source = true ∨
    g.has (·.isStubIn workspaceId) r.target = true → Neo4j.isValidEdgeType r.data.relType = true

/-! ### What a type leaves at the stubs of the batch -/

/-- The relationships of the type at the stubs are with their entities only. -/
def IsClear (workspaceId : Uuid) (pairs : List (ℕ × ℕ)) (relType : String) (g : Graph) : Prop :=
  ∀ r ∈ g.rels, r.data.isOf relType workspaceId = true → ∀ pair ∈ pairs,
    (r.target = pair.1 → r.source = pair.2) ∧ (r.source = pair.1 → r.target = pair.2)

section

variable {g : Graph} {pairs : List (ℕ × ℕ)}
  (hpairs : ∀ pair ∈ pairs, pair ∈ stubPairs w g)

include hpairs

theorem mem_relocate_rowsAt (inward : Bool) {relType : String} {r : Arc Rel}
    (hr : r ∈ (g.relocate Rel.isMergeable (rowsAt inward w relType pairs g)).rels) :
    (r ∈ g.rels ∧ (r.data.isOf relType w = true → ∀ pair ∈ pairs,
      endAt inward r = pair.1 → endAt (!inward) r = pair.2)) ∨
      (r.data.isOf relType w = true ∧ ∃ pair ∈ pairs, endAt inward r = pair.2 ∧
        ∃ r₀ ∈ g.rels, endAt inward r₀ = pair.1 ∧ endAt (!inward) r₀ = endAt (!inward) r ∧
          r₀.data = r.data) := by
  rcases (redirects_rowsAt hpairs inward (.refl g)).mem_rels isMergeable_refl
    hr with ⟨hmem, hkept⟩ | ⟨row, hrow, rfl⟩
  · refine .inl ⟨hmem, fun hof pair hpair hend => ?_⟩
    by_contra hother
    exact hkept (redirect inward r pair.2 r.data)
      ((mem_rowsAt _).2 ⟨pair, hpair, hmem, hend, hother, hof, rfl⟩)
  · obtain ⟨pair, hpair, hmem, hend, -, hof, hnew⟩ := (mem_rowsAt _).1 hrow
    rw [hnew]
    cases inward <;> exact .inr ⟨hof, pair, hpair, rfl, row.1, hmem, hend, rfl, rfl⟩

end

section

variable {g : Graph} {batchSize : ℕ}

theorem stubPairs_of_nodes {g g' : Graph} (h : g'.nodes = g.nodes) :
    stubPairs w g' = stubPairs w g := by
  have hmatching : ∀ test : Node → Bool, g'.matching test = g.matching test := by
    intro test
    rw [matching, matching, h]
  have hreal : realOf w g' = realOf w g := by
    funext n
    rw [realOf, realOf, hmatching]
  rw [stubPairs, stubPairs, hmatching, hreal]

theorem isClear_relocateType (relType : String) : IsClear w ((stubPairs w g).take batchSize) relType
      (relocateType w batchSize g relType) := by
  have hpairs : ∀ pair ∈ (stubPairs w g).take batchSize,
      pair ∈ stubPairs w g := fun pair hpair => mem_of_mem_take hpair
  have hsame : stubPairs w (g.relocate Rel.isMergeable (rowsTo w relType
      ((stubPairs w g).take batchSize) g)) = stubPairs w g :=
    stubPairs_of_nodes (nodes_relocate _ g)
  -- after the first statement, what ends at a stub comes from its entity
  have hinward : ∀ r ∈ (g.relocate Rel.isMergeable (rowsTo w relType
      ((stubPairs w g).take batchSize) g)).rels,
      r.data.isOf relType w = true →
      ∀ pair ∈ (stubPairs w g).take batchSize, r.target = pair.1 → r.source = pair.2 := by
    intro r hr hof pair hpair htarget
    rcases mem_relocate_rowsAt hpairs true hr with
      ⟨-, hcleared⟩ | ⟨-, pair', hpair', hreal, -⟩
    · exact hcleared hof pair hpair htarget
    · exact absurd (htarget.symm.trans hreal) (stub_ne_entity hpairs hpair' hpair)
  intro r hr hof pair hpair
  rw [relocateType, hsame] at hr
  rcases mem_relocate_rowsAt (fun pair hpair => hsame.symm ▸ hpairs pair hpair) false hr with
    ⟨hmem, hcleared⟩ | ⟨-, pair', hpair', hsource, r₀, hr₀, hstub, htarget, hdata⟩
  · exact ⟨hinward r hmem hof pair hpair, hcleared hof pair hpair⟩
  · refine ⟨fun hend => ?_, fun hstart => ?_⟩
    · -- what leaves a stub does not end at one
      have hentity := hinward r₀ hr₀ (hdata ▸ hof) pair hpair (htarget.trans hend)
      exact absurd (hstub.symm.trans hentity) (stub_ne_entity hpairs hpair hpair')
    · exact absurd (hstart.symm.trans hsource) (stub_ne_entity hpairs hpair' hpair)

theorem isClear_relocateType_of_ne {pairs : List (ℕ × ℕ)} {relType other : String}
    (hne : relType ≠ other) (h : IsClear w pairs relType g) :
    IsClear w pairs relType (relocateType w batchSize g other) := by
  have hold : ∀ r ∈ (relocateType w batchSize g other).rels,
      r.data.isOf relType w = true → r ∈ g.rels := by
    intro r hr hof
    have hnot : r.data.isOf other w ≠ true := by
      intro hother
      simp only [Rel.isOf, Bool.and_eq_true, decide_eq_true_eq] at hof hother
      exact hne (hof.1.symm.trans hother.1)
    rw [relocateType] at hr
    rcases mem_relocate_rowsAt (fun pair hpair => mem_of_mem_take hpair) false hr with
      ⟨hr, -⟩ | ⟨hother, -⟩
    · rcases mem_relocate_rowsAt (fun pair hpair => mem_of_mem_take hpair) true hr with
        ⟨hr, -⟩ | ⟨hother, -⟩
      · exact hr
      · exact absurd hother hnot
    · exact absurd hother hnot
  exact fun r hr hof => h r (hold r hr hof) hof

theorem isClear_foldl {relTypes : List String} {relType : String} (hmem : relType ∈ relTypes) :
    IsClear w ((stubPairs w g).take batchSize) relType
      (relTypes.foldl (relocateType w batchSize) g) := by
  -- it is cleared by its last statement, and no later one brings it back
  have hkeeps : ∀ (relTypes : List String) (g₁ : Graph), g₁.nodes = g.nodes →
      IsClear w ((stubPairs w g).take batchSize) relType g₁ →
      IsClear w ((stubPairs w g).take batchSize) relType
        (relTypes.foldl (relocateType w batchSize) g₁) := by
    intro relTypes
    induction relTypes with
    | nil => exact fun g₁ _ h => h
    | cons other relTypes ih =>
      intro g₁ hnodes h
      refine ih _ ((nodes_relocateType batchSize g₁ other).trans hnodes) ?_
      by_cases heq : relType = other
      · subst heq
        rw [← stubPairs_of_nodes hnodes]
        exact isClear_relocateType relType
      · exact isClear_relocateType_of_ne heq h
  obtain ⟨before, after, rfl⟩ := append_of_mem hmem
  rw [foldl_append, foldl_cons]
  have hnodes : (before.foldl (relocateType w batchSize) g).nodes = g.nodes :=
    nodes_foldl_relocateType batchSize before g
  refine hkeeps after _ ((nodes_relocateType batchSize _ relType).trans hnodes) ?_
  rw [← stubPairs_of_nodes hnodes]
  exact isClear_relocateType relType

end

/-! ### The last pass -/

section

variable {g g' : Graph} {batchSize n : ℕ}

theorem touches_of_resolves (hresolves : Resolves w g g g') {r : Arc Rel}
    (hr : r ∈ g'.rels) {s : ℕ} (hs : g.has (·.isStubIn w) s = true)
    (htouches : r.touches s = true) :
    ∃ r₀ ∈ g.rels, r₀.data = r.data ∧ r₀.touches s = true := by
  obtain ⟨r₀, hr₀, hdata, hsource, htarget⟩ := hresolves.origin r hr
  -- what another node is folded into is no stub
  have hback : ∀ {i}, Follows (standIn w g) i s → i = s := by
    rintro i (heq | heq)
    · exact heq.symm
    · by_cases hi : g.has (·.isStubIn w) i = true
      · rcases Decidable.em (standIn w g i = i) with hself | hother
        · rw [heq, hself]
        · obtain ⟨m, hm, hstub⟩ : ∃ m, g.nodes.get? (standIn w g i) = some m ∧
              m.isStubIn w = false := by
            obtain ⟨n, hn, hstub⟩ := has_iff.1 hi
            cases hreal : realOf w g n with
            | none =>
              refine absurd ?_ hother
              simp [standIn, hn, hstub, hreal]
            | some e =>
              have he : standIn w g i = e := by simp [standIn, hn, hstub, hreal]
              rw [he]
              exact realOf_spec hreal
          rw [heq, has, hm] at hs
          exact absurd hs (by simp [hstub])
      · rw [Bool.not_eq_true] at hi
        rw [heq, standIn_eq_self hi]
  refine ⟨r₀, hr₀, hdata, ?_⟩
  rw [Arc.touches, Bool.or_eq_true, decide_eq_true_eq, decide_eq_true_eq] at htouches ⊢
  rcases htouches with h | h
  · exact .inl (hback (h ▸ hsource))
  · exact .inr (hback (h ▸ htarget))

theorem mem_listStubRelationshipTypes {relType : String} :
    relType ∈ listStubRelationshipTypes w g ↔ ∃ r ∈ g.rels, r.data.relType = relType ∧
      (g.has (·.isStubIn w) r.source = true ∨
        g.has (·.isStubIn w) r.target = true) := by
  rw [listStubRelationshipTypes, mem_dedup, mem_map]
  constructor
  · rintro ⟨r, hr, rfl⟩
    obtain ⟨hmem, hstub⟩ := mem_filter.1 hr
    exact ⟨r, hmem, rfl, Bool.or_eq_true_iff.1 hstub⟩
  · rintro ⟨r, hr, rfl, hstub⟩
    exact ⟨r, mem_filter.2 ⟨hr, Bool.or_eq_true_iff.2 hstub⟩, rfl⟩

theorem blocked_of_last_pass (h : resolvePass w batchSize g = some (g', 0)) :
    ∀ pair ∈ (stubPairs w g').take batchSize, Blocked w g' pair := by
  rw [resolvePass] at h
  split at h
  · cases h
  set relTypes := (listStubRelationshipTypes w g).filter (· ≠ hadState) with hrelTypes
  set moved := relTypes.foldl (relocateType w batchSize) g with hmoved
  have hnodes : moved.nodes = g.nodes := nodes_foldl_relocateType batchSize relTypes g
  have hresolves : Resolves w g g moved :=
    resolves_foldl (LacksStubs.refl g) batchSize relTypes
  obtain ⟨hg', hcount⟩ := Prod.mk.inj (Option.some.inj h)
  have hrels : g'.rels = moved.rels := by
    rw [← hg']
    exact rels_deleteStubs batchSize moved
  have hdoomed : ∀ pair ∈ (stubPairs w moved).take batchSize,
      moved.rels.any (·.touches pair.1) = true := by
    intro pair hpair
    have hnil := length_eq_zero_iff.1 hcount
    rw [filter_eq_nil_iff] at hnil
    simpa using hnil pair.1 (mem_map_of_mem hpair)
  have hpairsEq : stubPairs w g' = stubPairs w moved := by
    refine stubPairs_of_nodes ?_
    have hnil : (((stubPairs w moved).take batchSize).map Prod.fst).filter
        (fun i => !moved.rels.any (·.touches i)) = [] := length_eq_zero_iff.1 hcount
    rw [← hg']
    simp only [hnil, detachDelete, not_mem_nil, decide_false, Bool.not_false]
    exact filter_true moved.nodes
  intro pair hpair
  rw [hpairsEq] at hpair
  obtain ⟨r, hr, htouches⟩ := any_eq_true.1 (hdoomed pair hpair)
  refine ⟨r, hrels ▸ hr, htouches, ?_⟩
  by_contra hfree
  simp only [not_or, not_not] at hfree
  obtain ⟨hentity, hstate, hws⟩ := hfree
  -- its type is one of those that the pass has cleared
  have hstub := (standIn_of_mem_stubPairs (stubPairs_of_nodes hnodes ▸ mem_of_mem_take hpair)).2.2.1
  obtain ⟨r₀, hr₀, hdata, htouches₀⟩ := touches_of_resolves hresolves hr hstub htouches
  have htype : r.data.relType ∈ relTypes := by
    refine mem_filter.2 ⟨mem_listStubRelationshipTypes.2 ⟨r₀, hr₀, by rw [hdata], ?_⟩,
      by simpa using hstate⟩
    simp only [Arc.touches, Bool.or_eq_true, decide_eq_true_eq] at htouches₀
    rcases htouches₀ with hend | hend
    · exact .inl (hend.symm ▸ hstub)
    · exact .inr (hend.symm ▸ hstub)
  have hclear := isClear_foldl htype (g := g) r hr (by simp [Rel.isOf, hws]) pair
    (by rw [← stubPairs_of_nodes hnodes]; exact hpair)
  simp only [Arc.touches, Bool.or_eq_true, decide_eq_true_eq, not_or] at htouches hentity
  rcases htouches with hend | hend
  · exact hentity.2 (hclear.2 hend)
  · exact hentity.1 (hclear.1 hend)

/-! ### The loop ends -/

theorem hasValidTypes_resolvePass (hvalid : HasValidTypes w g)
    (h : resolvePass w batchSize g = some (g', n)) : HasValidTypes w g' := by
  obtain ⟨hlacks, hresolves⟩ := resolvePass_spec (LacksStubs.refl g) h
  have hstub : ∀ {i}, g'.has (·.isStubIn w) i = true → g.has (·.isStubIn w) i = true := by
    intro i hi
    obtain ⟨m, hm, hm'⟩ := has_iff.1 hi
    exact has_iff.2 ⟨m, hlacks.sub hm, hm'⟩
  have hat : ∀ r ∈ g'.rels, ∀ s, g'.has (·.isStubIn w) s = true →
      r.touches s = true → Neo4j.isValidEdgeType r.data.relType = true := by
    intro r hr s hs htouches
    obtain ⟨r₀, hr₀, hdata, htouches₀⟩ := touches_of_resolves hresolves hr (hstub hs) htouches
    rw [← hdata]
    refine hvalid r₀ hr₀ ?_
    simp only [Arc.touches, Bool.or_eq_true, decide_eq_true_eq] at htouches₀
    rcases htouches₀ with hend | hend
    · exact .inl (hend.symm ▸ hstub hs)
    · exact .inr (hend.symm ▸ hstub hs)
  intro r hr hends
  rcases hends with hs | hs
  · exact hat r hr _ hs (by simp [Arc.touches])
  · exact hat r hr _ hs (by simp [Arc.touches])

theorem size_resolvePass (h : resolvePass w batchSize g = some (g', n)) (hn : 0 < n) :
    g'.nodes.size < g.nodes.size := by
  rw [resolvePass] at h
  split at h
  · cases h
  set moved := ((listStubRelationshipTypes w g).filter (· ≠ hadState)).foldl
    (relocateType w batchSize) g with hmoved
  have hnodes : moved.nodes = g.nodes := nodes_foldl_relocateType batchSize _ g
  obtain ⟨hg', hcount⟩ := Prod.mk.inj (Option.some.inj h)
  rw [← hcount] at hn
  obtain ⟨i, hi⟩ := exists_mem_of_length_pos hn
  obtain ⟨pair, hpair, rfl⟩ := mem_map.1 (mem_filter.1 hi).1
  obtain ⟨m, hm, -⟩ := mem_stubPairs.1 (mem_of_mem_take hpair)
  rw [← hnodes, ← hg', Dict.size, Dict.size]
  refine length_filter_lt_length_iff_exists.2 ⟨(pair.1, m), Dict.mem_items_of_get? hm, ?_⟩
  simpa using hi

theorem resolvePass_isSome (hvalid : HasValidTypes w g) :
    ∃ g' n, resolvePass w batchSize g = some (g', n) := by
  have hsafe : ¬ (listStubRelationshipTypes w g).any (!Neo4j.isValidEdgeType ·) = true := by
    rw [any_eq_true]
    rintro ⟨relType, hmem, hunsafe⟩
    obtain ⟨r, hr, rfl, hstub⟩ := mem_listStubRelationshipTypes.1 hmem
    rw [hvalid r hr hstub] at hunsafe
    cases hunsafe
  exact ⟨_, _, by rw [resolvePass, if_neg hsafe]⟩

end

/-- **The stubs that remain.**  The resolution comes to its end, and a stub with a real entity that
remains then carries a relationship with this entity, one to a state or one of another workspace,
unless a whole batch of such stubs comes before it. -/
theorem resolve_leaves_blocked {g : Graph} (hvalid : HasValidTypes workspaceId g) :
    (∃ fuel g', resolvePendingStubs workspaceId fuel g = (g', true)) ∧
      ∀ fuel g', resolvePendingStubs workspaceId fuel g = (g', true) →
        ∀ pair ∈ stubPairs workspaceId g', Blocked workspaceId g' pair ∨
          ∃ before, before <+: stubPairs workspaceId g' ∧ before.length = resolveStubsBatchSize ∧
            pair ∉ before ∧ ∀ other ∈ before, Blocked workspaceId g' other := by
  constructor
  · refine ⟨g.nodes.size + 1, _, Prod.ext rfl ?_⟩
    refine loopCount_ends (P := HasValidTypes workspaceId) (fun g => g.nodes.size)
      (fun {g} hg => ?_) hvalid (Nat.lt_succ_self _)
    obtain ⟨g', n, hpass⟩ := resolvePass_isSome hg
    exact ⟨g', n, hpass, hasValidTypes_resolvePass hg hpass, size_resolvePass hpass⟩
  · intro fuel g' h pair hpair
    obtain ⟨g₁, hlast⟩ := loopCount_last h
    have hblocked := blocked_of_last_pass hlast
    by_cases hbatch : pair ∈ (stubPairs workspaceId g').take resolveStubsBatchSize
    · exact .inl (hblocked pair hbatch)
    · refine .inr ⟨_, take_prefix _ _, ?_, hbatch, hblocked⟩
      rw [length_take, min_eq_left]
      by_contra hshort
      exact hbatch (by rwa [take_of_length_le (by omega)])

/-- A real entity, and a stub of its name that has a state. -/
def versionedStub : Graph :=
  (((empty.create { bareEntity 7 1 with name := some "a" }).create
    { bareEntity 7 2 with name := some "a", isStub := some true }).create
    { bareEntity 7 2 with label := .entityState }).connect
      ⟨2, 3, { relType := hadState, workspaceId := some 7 }⟩

theorem rels_versionedStub :
    versionedStub.rels = [⟨2, 3, { relType := hadState, workspaceId := some 7 }⟩] := rfl

theorem hasValidTypes_versionedStub : HasValidTypes 7 versionedStub := by
  intro r hr _
  rw [rels_versionedStub] at hr
  rw [mem_singleton.1 hr]
  decide

/-- What remains of the stub with a state. -/
theorem versionedStub_leaves_blocked :
    (∃ fuel g', resolvePendingStubs 7 fuel versionedStub = (g', true)) ∧
      ∀ fuel g', resolvePendingStubs 7 fuel versionedStub = (g', true) →
        ∀ pair ∈ stubPairs 7 g', Blocked 7 g' pair ∨
          ∃ before, before <+: stubPairs 7 g' ∧ before.length = resolveStubsBatchSize ∧
            pair ∉ before ∧ ∀ other ∈ before, Blocked 7 g' other :=
  resolve_leaves_blocked hasValidTypes_versionedStub

/-- It remains, and has no relationship with the entity. -/
theorem versionedStub_remains :
    ¬ ∀ (workspaceId : Uuid) (fuel : ℕ) (g g' : Graph), HasValidTypes workspaceId g →
      resolvePendingStubs workspaceId fuel g = (g', true) →
      ∀ pair ∈ stubPairs workspaceId g',
        ∃ r ∈ g'.rels, r.touches pair.1 = true ∧ r.touches pair.2 = true := by
  intro h
  have hend : (resolvePendingStubs 7 1 versionedStub).2 = true := by decide
  obtain ⟨r, hr, hstub, hentity⟩ := h 7 1 versionedStub (resolvePendingStubs 7 1 versionedStub).1
    hasValidTypes_versionedStub (Prod.ext rfl hend) (2, 1) (by decide)
  have hrels : (resolvePendingStubs 7 1 versionedStub).1.rels =
      [⟨2, 3, { relType := hadState, workspaceId := some 7 }⟩] := rfl
  rw [hrels, mem_singleton] at hr
  rw [hr] at hentity
  exact absurd hentity (by decide)

end Omniscience.Cypher
