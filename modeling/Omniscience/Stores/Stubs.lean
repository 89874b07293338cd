import Omniscience.Lib.Relocation
import Omniscience.Stores.Retention

/-!
# Resolving stubs

An edge by name whose target does not exist yet makes a stub.  `resolve_pending_stubs` folds the
stubs of a workspace into the real entities that carry their names, a batch at a time;
`_heal_duplicate_stubs` folds stubs of one name into the oldest of them.  Both relocate the
relationships by `MERGE`, type by type and direction by direction, and then delete the stubs.
-/

namespace Omniscience.Cypher

open PropertyGraph List

/-! ### Stubs and their entities -/

/-- The node is a stub of the workspace. -/
def Node.isStubIn (n : Node) (workspaceId : Uuid) : Bool :=
  n.isIn .entity workspaceId && n.isStub = some true

/-- The place of a node in `ORDER BY n.id`, where a null comes last. -/
def Node.idOrder (n : Node) : Bool ×ₗ ℕ := toLex (n.id.isNone, (n.id.map BitVec.toNat).getD 0)

/-- The node is an entity of the workspace with the name, and no stub. -/
def Node.isRealNamed (n : Node) (workspaceId : Uuid) (name : Option String) : Bool :=
  n.isIn .entity workspaceId && name.isSome && n.name = name && !n.isStub.getD false

/-- `real`: of the entities that carry the name of the stub, the one with the least id. -/
def realOf (workspaceId : Uuid) (g : Graph) (stub : Node) : Option ℕ :=
  ((g.matching (·.isRealNamed workspaceId stub.name)).argmin fun item => item.2.idOrder).map
    Prod.fst

/-- `_RESOLVE_STUB_PAIR_PREFIX` without its limit: the stubs that have a real entity, by id. -/
def stubPairs (workspaceId : Uuid) (g : Graph) : List (ℕ × ℕ) :=
  ((g.matching (·.isStubIn workspaceId)).insertionSort
    fun a b => a.2.idOrder ≤ b.2.idOrder).filterMap fun item =>
      (realOf workspaceId g item.2).map fun real => (item.1, real)

/-! ### Resolving -/

/-- The relationships have one type and one workspace, which is what `MERGE` asks for. -/
def Rel.isMergeable (d r : Rel) : Bool := r.relType = d.relType && r.workspaceId = d.workspaceId

/-- The rows of the first of `_RESOLVE_STUB_RELOCATION_TEMPLATES`: a relationship to a stub goes to
the real entity, unless it comes from there. -/
def rowsTo (workspaceId : Uuid) (relType : String) (pairs : List (ℕ × ℕ)) (g : Graph) :
    List (Arc Rel × Arc Rel) :=
  pairs.flatMap fun pair =>
    (g.rels.filter fun r => r.target = pair.1 && r.source ≠ pair.2 &&
      r.data.isOf relType workspaceId).map fun r => (r, ⟨r.source, pair.2, r.data⟩)

/-- The rows of the second template. -/
def rowsFrom (workspaceId : Uuid) (relType : String) (pairs : List (ℕ × ℕ)) (g : Graph) :
    List (Arc Rel × Arc Rel) :=
  pairs.flatMap fun pair =>
    (g.rels.filter fun r => r.source = pair.1 && r.target ≠ pair.2 &&
      r.data.isOf relType workspaceId).map fun r => (r, ⟨pair.2, r.target, r.data⟩)

/-- The two relocation statements of a relationship type. -/
def relocateType (workspaceId : Uuid) (batchSize : ℕ) (g : Graph) (relType : String) : Graph :=
  let inward := g.relocate Rel.isMergeable
    (rowsTo workspaceId relType ((stubPairs workspaceId g).take batchSize) g)
  inward.relocate Rel.isMergeable
    (rowsFrom workspaceId relType ((stubPairs workspaceId inward).take batchSize) inward)

/-- `_LIST_STUB_RELATIONSHIP_TYPES_CYPHER`. -/
def listStubRelationshipTypes (workspaceId : Uuid) (g : Graph) : List String :=
  ((g.rels.filter fun r => g.has (·.isStubIn workspaceId) r.source ||
    g.has (·.isStubIn workspaceId) r.target).map fun r => r.data.relType).dedup

/-- `_RESOLVE_STUBS_DELETE_CYPHER`: of the batch, the stubs that carry no relationship at all go. -/
def deleteStubs (workspaceId : Uuid) (batchSize : ℕ) (g : Graph) : Graph × ℕ :=
  let doomed := (((stubPairs workspaceId g).take batchSize).map Prod.fst).filter
    fun i => !g.rels.any (·.touches i)
  (g.detachDelete (· ∈ doomed), doomed.length)

/-- A pass of `resolve_pending_stubs`; a type that cannot be rendered ends the loop. -/
def resolvePass (workspaceId : Uuid) (batchSize : ℕ) (g : Graph) : Option (Graph × ℕ) :=
  let relTypes := listStubRelationshipTypes workspaceId g
  if relTypes.any (!Neo4j.isValidEdgeType ·) then none
  else
    some (deleteStubs workspaceId batchSize
      ((relTypes.filter (· ≠ hadState)).foldl (relocateType workspaceId batchSize) g))

/-- `_RESOLVE_STUBS_BATCH_SIZE`. -/
def resolveStubsBatchSize : ℕ := 100

/-- `Neo4jGraphStore.resolve_pending_stubs`: the flag says that it came to a pass that deletes
nothing. -/
def resolvePendingStubs (workspaceId : Uuid) (fuel : ℕ) (g : Graph) : Graph × Bool :=
  loopCount (resolvePass workspaceId resolveStubsBatchSize) fuel g

/-! ### Healing -/

/-- The place of a time in an `ORDER BY`: temporal values come before texts, and a null last. -/
def timeOrder : Option Time → ℕ ×ₗ ℕ
  | some (.datetime moment) => toLex (0, moment)
  | some (.date day) => toLex (1, day)
  | some (.text moment) => toLex (2, moment)
  | some (.dateText day) => toLex (2, day * Qdrant.microsecondsPerDay)
  | none => toLex (3, 0)

/-- The node is a stub with a name, of whatever workspace. -/
def Node.isNamedStub (n : Node) : Bool :=
  n.label = .entity && n.isStub.getD false && n.name.isSome

/-- `_DUPLICATE_STUB_GROUP_PREFIX`: the stubs of one workspace and name, where there are several:
the oldest, and the others. -/
def stubGroups (g : Graph) : List (ℕ × List ℕ) :=
  let stubs := (g.matching Node.isNamedStub).insertionSort fun a b =>
    toLex (timeOrder a.2.createdAt, a.2.idOrder) ≤ toLex (timeOrder b.2.createdAt, b.2.idOrder)
  let keys := (stubs.map fun item => (item.2.workspaceId, item.2.name)).dedup
  keys.filterMap fun key =>
    match (stubs.filter fun item => (item.2.workspaceId, item.2.name) = key).map Prod.fst with
    | keep :: dup :: dups => some (keep, dup :: dups)
    | _ => none

/-- The relationships that a statement matches at the duplicates of each group, with the stub that
is kept; those within the group are left out. -/
def healMatches (test : Arc Rel → ℕ → ℕ × List ℕ → Bool) (g : Graph) : List (Arc Rel × ℕ) :=
  (stubGroups g).flatMap fun group => group.2.flatMap fun dup =>
    (g.rels.filter fun r => test r dup group).map fun r => (r, group.1)

/-- `coalesce(r.workspace_id, keep.workspace_id)`. -/
def healWorkspace (g : Graph) (row : Arc Rel × ℕ) : Option Uuid :=
  row.1.data.workspaceId <|> (g.nodes.get? row.2).bind Node.workspaceId

/-- The rows of the first of `_DUPLICATE_STUB_RELOCATION_TEMPLATES`; `MERGE` raises where neither
the relationship nor the stub has a workspace. -/
def healRowsTo (relType : String) (g : Graph) : Option (List (Arc Rel × Arc Rel)) :=
  let rows := healMatches (fun r dup group => r.target = dup && r.source ≠ group.1 &&
    r.source ∉ group.2 && r.data.relType = relType) g
  if rows.any fun row => (healWorkspace g row).isNone then none
  else some (rows.map fun row =>
    (row.1, ⟨row.1.source, row.2, { row.1.data with workspaceId := healWorkspace g row }⟩))

/-- The rows of the second template. -/
def healRowsFrom (relType : String) (g : Graph) : Option (List (Arc Rel × Arc Rel)) :=
  let rows := healMatches (fun r dup group => r.source = dup && r.target ≠ group.1 &&
    r.target ∉ group.2 && r.data.relType = relType) g
  if rows.any fun row => (healWorkspace g row).isNone then none
  else some (rows.map fun row =>
    (row.1, ⟨row.2, row.1.target, { row.1.data with workspaceId := healWorkspace g row }⟩))

/-- The two relocation statements of a relationship type; the flag says that both ran. -/
def healType (acc : Graph × Bool) (relType : String) : Graph × Bool :=
  if !acc.2 then acc
  else
    match healRowsTo relType acc.1 with
    | none => (acc.1, false)
    | some rows =>
      let inward := acc.1.relocate Rel.isMergeable rows
      match healRowsFrom relType inward with
      | none => (inward, false)
      | some rows => (inward.relocate Rel.isMergeable rows, true)

/-- `_DUPLICATE_STUB_DELETE_CYPHER`. -/
def deleteDuplicates (g : Graph) : Graph :=
  g.detachDelete fun i => (stubGroups g).any fun group => i ∈ group.2

/-- `Neo4jGraphStore._heal_duplicate_stubs`, for the relationship types of the database that can be
rendered and those that cannot. -/
def healDuplicateStubs (relTypes skipped : List String) (g : Graph) : Graph :=
  if (stubGroups g).isEmpty then g
  else
    let healed := relTypes.foldl healType (g, true)
    if healed.2 && skipped.isEmpty then deleteDuplicates healed.1 else healed.1

/-! ### Which entity a stub stands for -/

variable {workspaceId w : Uuid}

/-- The real entity of a stub; every other node stands for itself. -/
def standIn (workspaceId : Uuid) (g : Graph) (i : ℕ) : ℕ :=
  ((g.nodes.get? i).bind fun n =>
    if n.isStubIn workspaceId then realOf workspaceId g n else none).getD i

theorem realOf_spec {g : Graph} {n : Node} {e : ℕ} (h : realOf w g n = some e) :
    ∃ m, g.nodes.get? e = some m ∧ m.isStubIn w = false := by
  obtain ⟨item, hitem, rfl⟩ := Option.map_eq_some_iff.1 h
  have hmem := argmin_mem hitem
  refine ⟨item.2, get?_of_mem_matching hmem, ?_⟩
  have hreal := (mem_filter.1 hmem).2
  simp only [Node.isRealNamed, Bool.and_eq_true, Bool.not_eq_true'] at hreal
  cases hstub : item.2.isStub with
  | none => simp [Node.isStubIn, hstub]
  | some b =>
    rw [hstub, Option.getD_some] at hreal
    simp [Node.isStubIn, hstub, hreal.2]

theorem standIn_eq_self {g : Graph} {i : ℕ} (h : g.has (·.isStubIn w) i = false) :
    standIn w g i = i := by
  rw [standIn]
  cases hn : g.nodes.get? i with
  | none => rfl
  | some n =>
    have hstub : n.isStubIn w = false := by
      rw [has, hn] at h
      exact h
    simp [hstub]

theorem has_realOf {g : Graph} {n : Node} {e : ℕ} (h : realOf w g n = some e) :
    g.has (·.isStubIn w) e = false := by
  obtain ⟨m, hm, hstub⟩ := realOf_spec h
  rw [has, hm]
  exact hstub

theorem standIn_standIn (g : Graph) (i : ℕ) : standIn w g (standIn w g i) = standIn w g i := by
  have hcases : standIn w g i = i ∨ ∃ n, realOf w g n = some (standIn w g i) := by
    rw [standIn]
    cases hn : g.nodes.get? i with
    | none => exact .inl rfl
    | some n =>
      by_cases hstub : n.isStubIn w = true
      · rw [Option.bind_some, if_pos hstub]
        cases hreal : realOf w g n with
        | none => exact .inl rfl
        | some e => exact .inr ⟨n, hreal⟩
      · rw [Option.bind_some, if_neg hstub]
        exact .inl rfl
  rcases hcases with heq | ⟨n, hreal⟩
  · rw [heq, heq]
  · exact standIn_eq_self (has_realOf hreal)

theorem mem_stubPairs {g : Graph} {s e : ℕ} : (s, e) ∈ stubPairs w g ↔
    ∃ n, g.nodes.get? s = some n ∧ n.isStubIn w = true ∧
      realOf w g n = some e := by
  rw [stubPairs, mem_filterMap]
  constructor
  · rintro ⟨item, hitem, hpair⟩
    rw [mem_insertionSort] at hitem
    obtain ⟨real, hreal, heq⟩ := Option.map_eq_some_iff.1 hpair
    obtain ⟨rfl, rfl⟩ := Prod.mk.inj heq
    exact ⟨item.2, get?_of_mem_matching hitem, (mem_filter.1 hitem).2, hreal⟩
  · rintro ⟨n, hn, hstub, hreal⟩
    refine ⟨(s, n), ?_, by rw [hreal]; rfl⟩
    rw [mem_insertionSort]
    exact mem_filter.2 ⟨Dict.mem_items_of_get? hn, hstub⟩

theorem standIn_of_mem_stubPairs {g : Graph} {s e : ℕ} (h : (s, e) ∈ stubPairs w g) :
    standIn w g s = e ∧ e ≠ s ∧ g.has (·.isStubIn w) s = true ∧
      g.has (·.isStubIn w) e = false := by
  obtain ⟨n, hn, hstub, hreal⟩ := mem_stubPairs.1 h
  have hs : g.has (·.isStubIn w) s = true := has_iff.2 ⟨n, hn, hstub⟩
  have he := has_realOf hreal
  refine ⟨?_, ?_, hs, he⟩
  · rw [standIn, hn, Option.bind_some, if_pos hstub, hreal]
    rfl
  · rintro rfl
    rw [hs] at he
    cases he

/-- Only stubs are missing from the graph. -/
structure LacksStubs (workspaceId : Uuid) (g g' : Graph) : Prop where
  sub : ∀ {i n}, g'.nodes.get? i = some n → g.nodes.get? i = some n
  rest : g'.matching (!·.isStubIn workspaceId) = g.matching (!·.isStubIn workspaceId)

theorem LacksStubs.refl (g : Graph) : LacksStubs w g g := ⟨id, rfl⟩

theorem LacksStubs.of_nodes {g g' g'' : Graph} (h : LacksStubs w g g')
    (hnodes : g''.nodes = g'.nodes) : LacksStubs w g g'' := by
  refine ⟨fun hi => h.sub (hnodes ▸ hi), ?_⟩
  rw [matching, hnodes]
  exact h.rest

theorem LacksStubs.realOf_eq {g g' : Graph} (h : LacksStubs w g g') (n : Node) :
    realOf w g' n = realOf w g n := by
  have hagree : Agree (!·.isStubIn w) (fun _ => false) g g' :=
    ⟨h.rest, by simp⟩
  rw [realOf, realOf, hagree.matching_eq fun m hm => ?_]
  simp only [Node.isRealNamed, Bool.and_eq_true, Bool.not_eq_true'] at hm
  cases hstub : m.isStub with
  | none => simp [Node.isStubIn, hstub]
  | some b =>
    rw [hstub, Option.getD_some] at hm
    simp [Node.isStubIn, hstub, hm.2]

theorem LacksStubs.standIn_of_pair {g g' : Graph} (h : LacksStubs w g g') {s e : ℕ}
    (hpair : (s, e) ∈ stubPairs w g') : (s, e) ∈ stubPairs w g := by
  obtain ⟨n, hn, hstub, hreal⟩ := mem_stubPairs.1 hpair
  exact mem_stubPairs.2 ⟨n, h.sub hn, hstub, h.realOf_eq n ▸ hreal⟩

/-! ### What a run of the resolution keeps -/

theorem isMergeable_refl (d : Rel) : d.isMergeable d = true := by simp [Rel.isMergeable]

theorem isMergeable_symm {d d' : Rel} (h : d.isMergeable d' = true) : d'.isMergeable d = true := by
  simp only [Rel.isMergeable, Bool.and_eq_true, decide_eq_true_eq] at h ⊢
  exact ⟨h.1.symm, h.2.symm⟩

theorem isMergeable_trans {a b c : Rel} (h : a.isMergeable b = true) (h' : b.isMergeable c = true) :
    a.isMergeable c = true := by
  simp only [Rel.isMergeable, Bool.and_eq_true, decide_eq_true_eq] at h h' ⊢
  exact ⟨h'.1.trans h.1, h'.2.trans h.2⟩

/-- The stubs of the first graph are folded into their entities. -/
def Resolves (workspaceId : Uuid) (origin g g' : Graph) : Prop :=
  Relocates (standIn workspaceId origin) Eq (fun d d' => d.isMergeable d' = true)
    Rel.isMergeable g g'

theorem Resolves.trans {origin g g' g'' : Graph} (h : Resolves w origin g g')
    (h' : Resolves w origin g' g'') : Resolves w origin g g'' :=
  Relocates.trans (standIn_standIn origin) Eq.trans isMergeable_trans h h'

theorem Resolves.of_rels {origin g g' : Graph} (h : g'.rels = g.rels) : Resolves w origin g g' :=
  Relocates.of_rels (fun _ => rfl) isMergeable_refl h

section

variable {origin g : Graph} {pairs : List (ℕ × ℕ)} {relType : String} {row : Arc Rel × Arc Rel}

/-- The rows of either statement. -/
def rowsAt (inward : Bool) (workspaceId : Uuid) (relType : String) (pairs : List (ℕ × ℕ))
    (g : Graph) : List (Arc Rel × Arc Rel) :=
  if inward then rowsTo workspaceId relType pairs g else rowsFrom workspaceId relType pairs g

theorem mem_rowsAt (inward : Bool) : row ∈ rowsAt inward w relType pairs g ↔
    ∃ pair ∈ pairs, row.1 ∈ g.rels ∧ endAt inward row.1 = pair.1 ∧
      endAt (!inward) row.1 ≠ pair.2 ∧ row.1.data.isOf relType w = true ∧
      row.2 = redirect inward row.1 pair.2 row.1.data := by
  cases inward
  all_goals
    simp only [rowsAt, rowsTo, rowsFrom, Bool.false_eq_true, if_false, if_true, mem_flatMap,
      mem_map, mem_filter, Bool.and_eq_true, decide_eq_true_eq]
    refine exists_congr fun pair => and_congr_right fun _ => ⟨?_, ?_⟩
    · rintro ⟨r, ⟨hr, ⟨hend, hother⟩, hof⟩, rfl⟩
      exact ⟨hr, hend, hother, hof, rfl⟩
    · rintro ⟨hr, hend, hother, hof, hnew⟩
      exact ⟨row.1, ⟨hr, ⟨hend, hother⟩, hof⟩, Prod.ext rfl hnew.symm⟩

variable (hpairs : ∀ pair ∈ pairs, pair ∈ stubPairs w g)

include hpairs

theorem mem_keys_of_pair {pair : ℕ × ℕ} (hpair : pair ∈ pairs) : pair.2 ∈ g.nodes.keys := by
  obtain ⟨n, -, -, hreal⟩ := mem_stubPairs.1 (hpairs pair hpair)
  obtain ⟨m, hm, -⟩ := realOf_spec hreal
  exact mem_keys_of_mem_refs (mem_refs.2 (has_iff.2 ⟨m, hm, rfl⟩ : g.has (fun _ => true) _ = true))

theorem stub_ne_entity {pair pair' : ℕ × ℕ} (hpair : pair ∈ pairs) (hpair' : pair' ∈ pairs) :
    pair'.1 ≠ pair.2 := by
  intro heq
  have hstub := (standIn_of_mem_stubPairs (hpairs pair' hpair')).2.2.1
  rw [heq, (standIn_of_mem_stubPairs (hpairs pair hpair)).2.2.2] at hstub
  cases hstub

theorem redirects_rowsAt (inward : Bool) (hlacks : LacksStubs w origin g) :
    Redirects inward (standIn w origin) g
      (rowsAt inward w relType pairs g) := by
  have hinto {row : Arc Rel × Arc Rel} {pair : ℕ × ℕ} (hpair : pair ∈ pairs)
      (hend : endAt inward row.1 = pair.1) :
      standIn w origin (endAt inward row.1) = pair.2 := by
    rw [hend]
    exact (standIn_of_mem_stubPairs (hlacks.standIn_of_pair (hpairs pair hpair))).1
  refine ⟨fun row hrow => ?_, fun row hrow => ?_, fun row hrow => ?_, fun row hrow row' hrow' => ?_⟩
  all_goals obtain ⟨pair, hpair, hmem, hend, -, -, hnew⟩ := (mem_rowsAt _).1 hrow
  · exact hmem
  · rw [hinto hpair hend, hnew]
    cases inward <;> rfl
  · rw [hinto hpair hend]
    exact mem_keys_of_pair hpairs hpair
  · obtain ⟨pair', hpair', -, hend', -⟩ := (mem_rowsAt _).1 hrow'
    rw [hinto hpair hend, hend']
    exact stub_ne_entity hpairs hpair hpair'

theorem resolves_rowsAt (inward : Bool) (hlacks : LacksStubs w origin g) : Resolves w origin g
      (g.relocate Rel.isMergeable (rowsAt inward w relType pairs g)) := by
  refine (redirects_rowsAt hpairs inward hlacks).relocates isMergeable_refl isMergeable_symm
    (fun _ => rfl) isMergeable_refl fun row hrow => ?_
  obtain ⟨_, -, -, -, -, -, hnew⟩ := (mem_rowsAt _).1 hrow
  rw [hnew]
  cases inward <;> exact ⟨rfl, fun _ hd => hd⟩

end

theorem nodes_relocateType (batchSize : ℕ) (g : Graph) (relType : String) :
    (relocateType w batchSize g relType).nodes = g.nodes := by
  rw [relocateType, nodes_relocate, nodes_relocate]

theorem nodes_foldl_relocateType (batchSize : ℕ) (relTypes : List String) (g : Graph) :
    (relTypes.foldl (relocateType w batchSize) g).nodes = g.nodes := by
  induction relTypes generalizing g with
  | nil => rfl
  | cons relType relTypes ih => exact (ih _).trans (nodes_relocateType batchSize g relType)

theorem resolves_relocateType {origin g : Graph} (hlacks : LacksStubs w origin g)
    (batchSize : ℕ) (relType : String) :
    Resolves w origin g (relocateType w batchSize g relType) := by
  have hto : Resolves w origin g (g.relocate Rel.isMergeable
      (rowsTo w relType ((stubPairs w g).take batchSize) g)) :=
    resolves_rowsAt (fun pair hpair => mem_of_mem_take hpair) true hlacks
  refine hto.trans (resolves_rowsAt (fun pair hpair => mem_of_mem_take hpair) false ?_)
  exact hlacks.of_nodes (nodes_relocate _ g)

theorem resolves_foldl {origin g : Graph} (hlacks : LacksStubs w origin g)
    (batchSize : ℕ) (relTypes : List String) :
    Resolves w origin g (relTypes.foldl (relocateType w batchSize) g) := by
  induction relTypes generalizing g with
  | nil => exact .of_rels rfl
  | cons relType relTypes ih =>
    refine (resolves_relocateType hlacks batchSize relType).trans (ih ?_)
    exact hlacks.of_nodes (nodes_relocateType batchSize g relType)

theorem rels_deleteStubs (batchSize : ℕ) (g : Graph) :
    (deleteStubs w batchSize g).1.rels = g.rels := by
  rw [deleteStubs, rels_detachDelete, filter_eq_self]
  intro r hr
  have hbare : ∀ i, r.touches i = true → decide (i ∈ (((stubPairs w g).take
      batchSize).map Prod.fst).filter fun i => !g.rels.any (·.touches i)) = false := by
    intro i hi
    rw [decide_eq_false_iff_not, mem_filter]
    rintro ⟨-, hnone⟩
    rw [Bool.not_eq_true', any_eq_false] at hnone
    exact hnone r hr hi
  rw [hbare r.source (by simp [Arc.touches]), hbare r.target (by simp [Arc.touches])]
  rfl

theorem lacksStubs_deleteStubs {origin g : Graph} (hlacks : LacksStubs w origin g)
    (batchSize : ℕ) : LacksStubs w origin (deleteStubs w batchSize g).1 := by
  refine ⟨fun hi => hlacks.sub (Dict.get?_of_filter hi), ?_⟩
  rw [← hlacks.rest, deleteStubs]
  have hdoomed : ∀ i, decide (i ∈ (((stubPairs w g).take batchSize).map Prod.fst).filter
      fun i => !g.rels.any (·.touches i)) = true → g.has (·.isStubIn w) i = true := by
    intro i hi
    rw [decide_eq_true_eq, mem_filter] at hi
    obtain ⟨pair, hpair, rfl⟩ := mem_map.1 hi.1
    exact (standIn_of_mem_stubPairs (mem_of_mem_take hpair)).2.2.1
  exact matching_detachDelete_of_disjoint hdoomed fun n hn => by simpa using hn

theorem resolvePass_spec {origin g g' : Graph} {batchSize n : ℕ} (hlacks : LacksStubs w origin g)
    (h : resolvePass w batchSize g = some (g', n)) :
    LacksStubs w origin g' ∧ Resolves w origin g g' := by
  rw [resolvePass] at h
  split at h
  · cases h
  · obtain ⟨rfl, -⟩ := Prod.mk.inj (Option.some.inj h)
    have hmoved : LacksStubs w origin (((listStubRelationshipTypes w g).filter (· ≠ hadState)).foldl
          (relocateType w batchSize) g) :=
      hlacks.of_nodes (nodes_foldl_relocateType batchSize _ g)
    exact ⟨lacksStubs_deleteStubs hmoved batchSize, (resolves_foldl hlacks batchSize _).trans
      (.of_rels (rels_deleteStubs batchSize _))⟩

/-- **What a whole resolution keeps.** -/
theorem resolvePendingStubs_spec (w : Uuid) (fuel : ℕ) (g : Graph) :
    LacksStubs w g (resolvePendingStubs w fuel g).1 ∧
      Resolves w g g (resolvePendingStubs w fuel g).1 := by
  refine loopCount_preserves (P := fun g' => LacksStubs w g g' ∧
    Resolves w g g g') (fun {g₁ g₂ n} h hpass => ?_) fuel ⟨.refl g, .of_rels rfl⟩
  obtain ⟨hlacks, hresolves⟩ := resolvePass_spec h.1 hpass
  exact ⟨hlacks, h.2.trans hresolves⟩

end Omniscience.Cypher
