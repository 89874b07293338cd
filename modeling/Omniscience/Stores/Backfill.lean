import Omniscience.Lib.Confined
import Omniscience.Stores.Writes

/-!
# Whether the backfill ends

`backfill_bitemporal` runs three statements, each until a chunk modifies nothing.  A chunk of the
first one and of the last one takes rows whose `valid_from` is null and copies `created_at` there.
A row without `created_at` is as it was and counts as modified, so that it is taken again and again.

The writers set `created_at` on everything they create but for one statement: a versioned
`upsert_entity` that creates its node sets `valid_from` at most.  `backfill_ends_iff` says when the
backfill of a graph of the writers ends with nothing left, and that it does where every versioned
write that creates a node sets `valid_from`.
-/

namespace Omniscience.Cypher

open Outbox List
open Neo4j (GraphConfig)
open PropertyGraph

/-! ### What is left -/

/-- An entity of the workspace without a validity window. -/
def Node.isUntimed (n : Node) (workspaceId : Uuid) : Bool :=
  n.isIn .entity workspaceId && n.validFrom.isNone

/-- An entity of the workspace with a validity window. -/
def Node.isDated (n : Node) (workspaceId : Uuid) : Bool :=
  n.isIn .entity workspaceId && n.validFrom.isSome

/-- No entity and no relationship of the workspace has a null for `valid_from`. -/
structure NothingLeft (workspaceId : Uuid) (g : Graph) : Prop where
  nodes : ∀ i n, g.nodes.get? i = some n → n.isUntimed workspaceId = false
  rels : ∀ r ∈ g.rels, r.data.isUntimed workspaceId = false

/-- Every entity of the workspace has a time to start from. -/
def Datable (workspaceId : Uuid) (g : Graph) : Prop :=
  ∀ i n, g.nodes.get? i = some n → n.isIn .entity workspaceId = true → n.IsTimed

/-- The graph that operations make out of the empty one, each by a store of its own configuration. -/
def madeBy (writes : List (GraphConfig × GraphWrite)) : Graph :=
  writes.foldl (fun g write => write.2.apply write.1 g) .empty

/-- The operation is a versioned `upsert_entity` that creates the node of its entity, and does not
set its `valid_from`: a store without bitemporal mode never does, and one with it does not for a
version below 0. -/
def GraphWrite.CreatesUntimed (gcfg : GraphConfig) (g : Graph) : GraphWrite → Prop
  | .entity e workspaceId _ =>
    (∀ i n, g.nodes.get? i = some n → n.isEntity workspaceId e.id = false) ∧
      ∃ version, e.version = some version ∧
        (gcfg.bitemporal = false ∨ e.forcedReplay = false ∧ version ≤ -1)
  | _ => False

/-- No operation of the run creates an entity without a time. -/
def NoneUntimed (writes : List (GraphConfig × GraphWrite)) : Prop :=
  ∀ pre gcfg write post, writes = pre ++ (gcfg, write) :: post →
    ¬ write.CreatesUntimed gcfg (madeBy pre)

/-! ### The graphs of the writers -/

/-- An entity has its key, and one of the workspace a time. -/
def Node.IsReady (workspaceId : Uuid) (n : Node) : Prop :=
  (n.label = .entity → n.workspaceId.isSome = true ∧ n.id.isSome = true) ∧
    (n.isIn .entity workspaceId = true → n.IsTimed)

/-- A relationship of a workspace has a time. -/
def Rel.IsReady (r : Rel) : Prop := r.workspaceId = none ∨ r.IsTimed

/-- The graph is one that the backfill can work on. -/
abbrev Ready (workspaceId : Uuid) (g : Graph) : Prop :=
  Holds (Node.IsReady workspaceId) Rel.IsReady g

theorem isIn_iff {n : Node} {label : Label} {w : Uuid} :
    n.isIn label w = true ↔ n.label = label ∧ n.workspaceId = some w := by
  rw [Node.isIn, Bool.and_eq_true, decide_eq_true_eq, decide_eq_true_eq]

theorem keptByWriters_key : KeptByWriters
    (fun n => n.label = .entity → n.workspaceId.isSome = true ∧ n.id.isSome = true)
    Rel.IsReady where
  newNode h hlabel := (h.entity hlabel).1
  node hn h hlabel := by
    rw [h.workspaceId, h.id]
    exact hn (h.label.symm.trans hlabel)
  newRel h := h.timed
  rel hr h := hr.imp (fun hnone => h.workspaceId.trans hnone) h.timed

theorem keptByWriters_isReady (w : Uuid) : KeptByWriters (Node.IsReady w) Rel.IsReady where
  newNode h := ⟨fun hlabel => (h.entity hlabel).1, fun hin => (h.entity (isIn_iff.1 hin).1).2⟩
  node hn h := by
    refine ⟨keptByWriters_key.node hn.1 h, fun hin => h.timed (hn.2 ?_)⟩
    rwa [isIn_iff, h.label, h.workspaceId, ← isIn_iff] at hin
  newRel h := keptByWriters_key.newRel h
  rel hr h := keptByWriters_key.rel hr h

theorem madeBy_induction {I : Graph → Prop} (writes : List (GraphConfig × GraphWrite))
    (h0 : I .empty)
    (step : ∀ pre gcfg write post, writes = pre ++ (gcfg, write) :: post → I (madeBy pre) →
      I (write.apply gcfg (madeBy pre))) : I (madeBy writes) := by
  induction writes using List.reverseRecOn with
  | nil => exact h0
  | append_singleton writes write ih =>
    have hmade : madeBy (writes ++ [write]) = write.2.apply write.1 (madeBy writes) := by
      rw [madeBy, foldl_append]
      rfl
    rw [hmade]
    refine step writes write.1 write.2 [] rfl (ih fun pre gcfg w post hsplit => ?_)
    refine step pre gcfg w (post ++ [write]) ?_
    rw [hsplit, append_assoc, cons_append]

theorem ready_of_datable {w : Uuid} (writes : List (GraphConfig × GraphWrite))
    (h : Datable w (madeBy writes)) : Ready w (madeBy writes) := by
  have hkeys : Holds _ _ (madeBy writes) := madeBy_induction writes holds_empty
    fun pre gcfg write post _ hpre => holds_apply keptByWriters_key hpre write
      fun entity w now version _ _ _ =>
        keptByWriters_key.node (fun _ => ⟨rfl, rfl⟩)
          (becomes_casNode gcfg.toConfig entity version now (bareEntity w entity.id))
  exact ⟨fun i n hi => ⟨hkeys.nodes i n hi, h i n hi⟩, hkeys.rels⟩

theorem isTimed_casNode {gcfg : GraphConfig} {entity : EntityUpsert} {version : ℤ} {now : ℕ}
    (n : Node) (hbitemporal : gcfg.bitemporal = true)
    (hversion : entity.forcedReplay = true ∨ n.version.getD (-1) < version) :
    (casNode gcfg.toConfig entity version now n).IsTimed := by
  have hwritten : (entity.forcedReplay || decide (n.version.getD (-1) < version)) = true := by
    rw [Bool.or_eq_true, decide_eq_true_eq]
    exact hversion
  rw [casNode, if_pos hwritten]
  dsimp only
  rw [if_pos hbitemporal]
  exact .inl rfl

theorem datable_of_noneUntimed (workspaceId : Uuid) {writes : List (GraphConfig × GraphWrite)}
    (h : NoneUntimed writes) : Datable workspaceId (madeBy writes) := by
  have hready : Ready workspaceId (madeBy writes) := by
    refine madeBy_induction writes holds_empty fun pre gcfg write post hsplit hpre => ?_
    refine holds_apply (keptByWriters_isReady workspaceId) hpre write
      fun entity w now version hwrite hversion hnone => ⟨?_, fun _ => ?_⟩
    · exact keptByWriters_key.node (fun _ => ⟨rfl, rfl⟩)
        (becomes_casNode gcfg.toConfig entity version now (bareEntity w entity.id))
    · -- the step is none that leaves the new node without a time
      have hstep := h pre gcfg write post hsplit
      rw [hwrite] at hstep
      have hsets : ¬ (gcfg.bitemporal = false ∨ entity.forcedReplay = false ∧ version ≤ -1) :=
        fun hunset => hstep ⟨hnone, version, hversion, hunset⟩
      rw [not_or, Bool.not_eq_false, not_and, Int.not_le] at hsets
      refine isTimed_casNode _ hsets.1 ?_
      cases hforced : entity.forcedReplay with
      | true => exact .inl rfl
      | false => exact .inr (hsets.2 hforced)
  exact fun i n hi => (hready.nodes i n hi).2

/-! ### The chunks -/

theorem isUntimed_iff {n : Node} {w : Uuid} :
    n.isUntimed w = true ↔ n.isIn .entity w = true ∧ n.validFrom = none := by
  rw [Node.isUntimed, Bool.and_eq_true, Option.isNone_iff_eq_none]

section

variable {workspaceId w : Uuid} {k n : ℕ} {g g' : Graph}

theorem isUntimed_of_refs {i : ℕ} {n : Node} (hnone : g.refs (·.isUntimed w) = [])
    (hn : g.nodes.get? i = some n) : n.isUntimed w = false := by
  rw [← Bool.not_eq_true]
  intro htest
  have hmem : i ∈ g.refs (·.isUntimed w) :=
    mem_refs.2 (has_iff.2 ⟨n, hn, htest⟩)
  rw [hnone] at hmem
  cases hmem

theorem isUntimed_backfilled {item : ℕ × Node} {batch : List ℕ} (hready : item.2.IsReady w)
    (hbatch : item.1 ∈ batch → item.2.isUntimed w = true) :
    Node.isUntimed (if item.1 ∈ batch then
        { item.2 with
          validFrom := item.2.createdAt, validTo := none, recordedAt := item.2.updatedAt }
      else item.2) w =
      (!decide (item.1 ∈ batch) && item.2.isUntimed w) := by
  by_cases hmem : item.1 ∈ batch
  · obtain ⟨hin, hnone⟩ := isUntimed_iff.1 (hbatch hmem)
    have hcreated : item.2.createdAt.isSome = true := by
      obtain hfrom | hcreated := hready.2 hin
      · rw [hnone] at hfrom
        cases hfrom
      · exact hcreated
    rw [if_pos hmem, decide_eq_true hmem, Bool.not_true, Bool.false_and, ← Bool.not_eq_true,
      isUntimed_iff]
    rintro ⟨-, hfrom⟩
    rw [Option.isSome_iff_ne_none] at hcreated
    exact hcreated hfrom
  · rw [if_neg hmem, decide_eq_false hmem, Bool.not_false, Bool.true_and]

theorem backfillEntityProps_spec (hready : Ready w g)
    (h : backfillEntityProps w k g = some (g', n)) :
    n = min k (g.refs (·.isUntimed w)).length ∧
      g'.refs (·.isUntimed w) = (g.refs (·.isUntimed w)).drop k ∧
      g'.refs (·.isIn .entity w) = g.refs (·.isIn .entity w) ∧
      g'.rels = g.rels := by
  cases h
  refine ⟨length_take, ?_, ?_, rfl⟩
  · set batch := (g.refs (·.isUntimed w)).take k with hbatch
    have huntimed : ∀ item ∈ g.nodes.items, item.1 ∈ batch → item.2.isUntimed w = true := by
      intro item hitem hmem
      obtain ⟨n, hn, htest⟩ := has_iff.1 (mem_refs.1 (mem_of_mem_take hmem))
      rw [Dict.get?_of_mem_items hitem, Option.some.injEq] at hn
      exact hn ▸ htest
    refine (refs_setNodes_eq fun (item : ℕ × Node) hitem => isUntimed_backfilled
      (hready.nodes _ _ (Dict.get?_of_mem_items hitem)) (huntimed item hitem)).trans ?_
    rw [← filter_filter, refs, ← map_drop, ← filter_notMem_take]
    rfl
  · refine refs_setNodes (fun i n => ?_) g
    split
    · rfl
    · rfl

theorem backfillEntityProps_zero (hk : 0 < k) (h : backfillEntityProps w k g = some (g', 0)) :
    g'.refs (·.isUntimed w) = [] := by
  have hzero : ((g.refs (·.isUntimed w)).take k).length = 0 :=
    congrArg Prod.snd (Option.some.inj h)
  have hnil : g.refs (·.isUntimed w) = [] := by
    rw [length_take] at hzero
    rw [← length_eq_zero_iff]
    omega
  obtain rfl := congrArg Prod.fst (Option.some.inj h)
  rw [← hnil]
  refine refs_setNodes (fun i n => ?_) g
  change (if i ∈ (g.refs (·.isUntimed w)).take k then _ else n).isUntimed w = _
  rw [hnil, take_nil, if_neg not_mem_nil]

theorem backfillEdgeProps_spec (hready : Ready w g) (h : backfillEdgeProps w k g = some (g', n)) :
    n = min k (g.rels.countP fun r => r.data.isUntimed w) ∧
      (g'.rels.countP fun r => r.data.isUntimed w) =
        (g.rels.countP fun r => r.data.isUntimed w) - k ∧
      g'.nodes = g.nodes := by
  cases h
  refine ⟨rfl, ?_, rfl⟩
  rw [countP_eq_length_filter, countP_eq_length_filter, ← length_drop]
  refine congrArg List.length (filter_mapFirst k fun r hr htest => ?_)
  rw [Rel.isUntimed, Bool.and_eq_true, decide_eq_true_eq, Option.isNone_iff_eq_none] at htest
  obtain hnone | hfrom | hcreated := hready.rels r hr
  · rw [hnone] at htest
    cases htest.1
  · rw [htest.2] at hfrom
    cases hfrom
  · rw [Rel.isUntimed, Bool.and_eq_false_iff, Option.isNone_eq_false_iff]
    exact .inr hcreated

theorem backfillEdgeProps_zero (hk : 0 < k) (h : backfillEdgeProps w k g = some (g', 0)) :
    ∀ r ∈ g'.rels, r.data.isUntimed w = false := by
  have hzero : min k (g.rels.countP fun r => r.data.isUntimed w) = 0 :=
    congrArg Prod.snd (Option.some.inj h)
  have hcount : (g.rels.countP fun r => r.data.isUntimed w) = 0 := by
    omega
  rw [countP_eq_zero] at hcount
  obtain rfl := congrArg Prod.fst (Option.some.inj h)
  intro r hr
  obtain hr | ⟨r₀, hr₀, htest, -⟩ := mem_mapFirst hr
  · exact Bool.eq_false_iff.2 (hcount r hr)
  · exact absurd htest (hcount r₀ hr₀)

end

/-! ### The states of the entities -/

theorem holdsState_iff {g : Graph} {i : ℕ} : holdsState g i = true ↔
    ∃ r ∈ g.rels, r.source = i ∧ r.data.relType = hadState ∧
      g.has (fun s => s.label = .entityState) r.target = true := by
  rw [holdsState, any_eq_true]
  refine exists_congr fun r => and_congr_right fun _ => ?_
  rw [Bool.and_eq_true, Bool.and_eq_true, decide_eq_true_eq, decide_eq_true_eq, and_assoc]

/-- The entity `i` has a state, every other one keeps its own, and the rest is as it was. -/
structure Mirrored (workspaceId : Uuid) (batch : List ℕ) (acc acc' : Graph × ℕ) : Prop where
  agree : Agree Node.isAnyEntity (·.isUntimed workspaceId) acc.1 acc'.1
  kept : ∀ j, holdsState acc.1 j = true → holdsState acc'.1 j = true
  held : ∀ i ∈ batch, holdsState acc'.1 i = true
  counted : acc.2 + batch.length ≤ acc'.2

section

variable {workspaceId w : Uuid} {k : ℕ} {acc : Graph × ℕ} {g : Graph}

theorem holdsState_foldl {i j : ℕ} {states : List ℕ} (h : holdsState g j = true) :
    holdsState (states.foldl (fun g s => g.mergeRel i s (·.relType = hadState)
      { relType := hadState } fun r => r) g) j = true := by
  refine foldl_keeps (I := fun g => holdsState g j = true) (fun g s _ hg => ?_) h
  obtain ⟨r, hr, hsource, htype, hstate⟩ := holdsState_iff.1 hg
  refine holdsState_iff.2 ⟨r, mem_rels_mergeRel hr, hsource, htype, ?_⟩
  rwa [has_of_nodes (nodes_mergeRel ..)]

theorem holdsState_mergeRel {i s : ℕ} (hi : i ∈ g.nodes.keys)
    (hs : g.has (fun s => s.label = .entityState) s = true) :
    holdsState (g.mergeRel i s (·.relType = hadState) { relType := hadState } fun r => r) i =
      true := by
  have hexists : ∃ r ∈ (g.mergeRel i s (·.relType = hadState) { relType := hadState }
      fun r => r).rels, r.source = i ∧ r.target = s ∧ decide (r.data.relType = hadState) = true :=
    exists_mergeRel hi (mem_keys_of_mem_refs (mem_refs.2 hs)) (decide_eq_true rfl)
  obtain ⟨r, hr, hsource, rfl, htype⟩ := hexists
  refine holdsState_iff.2 ⟨r, hr, hsource, of_decide_eq_true htype, ?_⟩
  rwa [has_of_nodes (nodes_mergeRel ..)]

/-- **The row of an entity**: it returns for one with key and window, and gives it a state. -/
theorem exists_backfillState (workspaceId : Uuid) {i : ℕ} {n : Node}
    (hn : acc.1.nodes.get? i = some n) (hws : n.workspaceId.isSome = true)
    (hid : n.id.isSome = true) (hfrom : n.validFrom.isSome = true) :
    ∃ acc', backfillState acc i = some acc' ∧ Mirrored workspaceId [i] acc acc' := by
  obtain ⟨w, hw⟩ := Option.isSome_iff_exists.1 hws
  obtain ⟨id, hid⟩ := Option.isSome_iff_exists.1 hid
  obtain ⟨validFrom, hfrom⟩ := Option.isSome_iff_exists.1 hfrom
  set merged := acc.1.mergeNode (·.isState w id validFrom) n.mirror fun s => s with hmerged
  set states := merged.refs (·.isState w id validFrom) with hstates
  have hrow : backfillState acc i = some (states.foldl (fun g s =>
      g.mergeRel i s (·.relType = hadState) { relType := hadState } fun r => r) merged,
      acc.2 + states.length) := by
    simp only [backfillState, hn, hw, hid, hfrom, Option.pure_def, Option.bind_eq_bind,
      Option.bind_some]
    rfl
  have hmirror : n.mirror.isState w id validFrom = true := by
    simp [Node.isState, Node.isIn, Node.mirror, hw, hid, hfrom]
  have hexists : ∃ s, s ∈ (acc.1.mergeNode (·.isState w id validFrom) n.mirror fun s => s).refs
      (·.isState w id validFrom) := exists_refs_mergeNode hmirror fun _ h => h
  obtain ⟨s, hs⟩ := hexists
  have hlabel : ∀ n : Node, n.isState w id validFrom = true → n.label = .entityState := by
    intro n h
    rw [Node.isState, Bool.and_eq_true, Bool.and_eq_true, isIn_iff] at h
    exact h.1.1.1
  refine ⟨_, hrow, ⟨?_, fun j hj => ?_, fun j hj => ?_, ?_⟩⟩
  · have hmerge : Agree Node.isAnyEntity (·.isUntimed workspaceId) acc.1 merged := by
      have hoff : ∀ n : Node, n.label = .entityState → n.isAnyEntity = false := by
        intro n h
        rw [Node.isAnyEntity, h]
        rfl
      exact agree_mergeNode (hoff _ rfl) (fun n h => ⟨hoff n (hlabel n h), hoff n (hlabel n h)⟩) _
    exact hmerge.trans (agree_foldl (fun g _ _ => agree_mergeRel rfl g) merged)
  · refine holdsState_foldl ?_
    obtain ⟨r, hr, hsource, htype, hstate⟩ := holdsState_iff.1 hj
    refine holdsState_iff.2 ⟨r, ?_, hsource, htype, has_mergeNode (fun _ _ h => h) hstate⟩
    rw [hmerged, mergeNode]
    split
    · exact hr
    · exact hr
  · -- the first relationship that is merged gives the entity its state
    obtain rfl := mem_singleton.1 hj
    cases hcons : states with
    | nil =>
      rw [← hstates, hcons] at hs
      cases hs
    | cons s rest =>
      have hs : merged.has (·.isState w id validFrom) s = true := by
        rw [← mem_refs, ← hstates, hcons]
        exact mem_cons_self
      have hj : j ∈ merged.nodes.keys := by
        refine mem_keys_of_mem_refs (mem_refs.2
          (has_mergeNode (fun _ _ h => h) ?_ : merged.has (fun _ => true) j = true))
        exact has_iff.2 ⟨n, hn, rfl⟩
      rw [foldl_cons]
      refine holdsState_foldl ?_
      obtain ⟨s', hs', htest⟩ := has_iff.1 hs
      exact holdsState_mergeRel hj (has_iff.2 ⟨s', hs', decide_eq_true (hlabel s' htest)⟩)
  · have hpos : 0 < states.length := length_pos_of_mem hs
    rw [length_singleton]
    omega

/-- **The rows of a chunk**, one after the other. -/
theorem exists_foldlM_backfillState (w : Uuid) {batch : List ℕ}
    (hbatch : ∀ i ∈ batch, ∃ n, acc.1.nodes.get? i = some n ∧ n.isAnyEntity = true ∧
      n.workspaceId.isSome = true ∧ n.id.isSome = true ∧ n.validFrom.isSome = true) :
    ∃ acc', batch.foldlM backfillState acc = some acc' ∧
      Mirrored w batch acc acc' := by
  induction batch generalizing acc with
  | nil => exact ⟨acc, rfl, .refl _, fun _ h => h, nofun, le_rfl⟩
  | cons i batch ih =>
    obtain ⟨n, hn, -, hws, hid, hfrom⟩ := hbatch i mem_cons_self
    obtain ⟨mid, hstep, hmid⟩ := exists_backfillState w hn hws hid hfrom
    have hothers : ∀ j ∈ batch, ∃ n, mid.1.nodes.get? j = some n ∧ n.isAnyEntity = true ∧
        n.workspaceId.isSome = true ∧ n.id.isSome = true ∧ n.validFrom.isSome = true := by
      intro j hj
      obtain ⟨n, hn, hentity, hprops⟩ := hbatch j (mem_cons_of_mem _ hj)
      exact ⟨n, (hmid.agree.get?_iff hentity).2 hn, hentity, hprops⟩
    obtain ⟨acc', hrest, hacc'⟩ := ih hothers
    refine ⟨acc', ?_, hmid.agree.trans hacc'.agree, fun j hj => hacc'.kept j (hmid.kept j hj),
      fun j hj => ?_, ?_⟩
    · rw [foldlM_cons, hstep]
      exact hrest
    · obtain rfl | hj := mem_cons.1 hj
      · exact hacc'.kept j (hmid.held j (mem_singleton_self j))
      · exact hacc'.held j hj
    · have hfirst := hmid.counted
      have hothers := hacc'.counted
      rw [length_singleton] at hfirst
      rw [length_cons]
      omega

/-- The entities of the workspace with a window and without a state. -/
def stateless (workspaceId : Uuid) (g : Graph) : List ℕ :=
  (g.refs (·.isDated workspaceId)).filter fun i => !holdsState g i

/-- **A chunk of states** never raises on a graph of the writers, and leaves fewer entities without
a state if it counts anything. -/
theorem exists_backfillEntityStateNodes (hready : Ready w g) (k : ℕ) :
    ∃ g' n, backfillEntityStateNodes w k g = some (g', n) ∧
      Agree Node.isAnyEntity (·.isUntimed w) g g' ∧
      (0 < n → (stateless w g').length < (stateless w g).length) := by
  have hrows : ∃ acc', ((stateless w g).take k).foldlM backfillState (g, 0) = some acc' ∧
      Mirrored w ((stateless w g).take k) (g, 0) acc' := by
    refine exists_foldlM_backfillState w fun i hi => ?_
    obtain ⟨n, hn, htest⟩ := has_iff.1 (mem_refs.1 (mem_filter.1 (mem_of_mem_take hi)).1)
    rw [Node.isDated, Bool.and_eq_true] at htest
    obtain ⟨hlabel, -⟩ := isIn_iff.1 htest.1
    obtain ⟨hws, hid⟩ := (hready.nodes i n hn).1 hlabel
    exact ⟨n, hn, decide_eq_true hlabel, hws, hid, htest.2⟩
  obtain ⟨⟨g', n⟩, hrows, hmirrored⟩ := hrows
  refine ⟨g', n, hrows, hmirrored.agree, fun hn => ?_⟩
  have hrefs : g'.refs (·.isDated w) = g.refs (·.isDated w) := by
    refine congrArg (List.map Prod.fst) (hmirrored.agree.matching_eq fun n hdated => ?_)
    rw [Node.isDated, Bool.and_eq_true, isIn_iff] at hdated
    exact decide_eq_true hdated.1.1
  have hfewer : stateless w g' = (stateless w g).filter fun i => !holdsState g' i := by
    rw [stateless, stateless, hrefs, filter_filter]
    refine filter_congr fun i _ => ?_
    cases hheld : holdsState g i with
    | false => rw [Bool.not_false, Bool.and_true]
    | true => rw [hmirrored.kept i hheld, Bool.not_true, Bool.false_and]
  rw [hfewer, length_filter_lt_length_iff_exists]
  cases hbatch : (stateless w g).take k with
  | nil =>
    rw [hbatch] at hrows
    cases hrows
    cases hn
  | cons i rest =>
    have hi : i ∈ (stateless w g).take k := hbatch ▸ mem_cons_self
    refine ⟨i, mem_of_mem_take hi, ?_⟩
    rw [hmirrored.held i hi]
    exact Bool.false_ne_true

end

/-! ### Whole backfills -/

/-- What all chunks of a backfill keep, with bounds on what there is to do. -/
structure Backfills (workspaceId : Uuid) (entities rels : ℕ) (g : Graph) : Prop where
  ready : Ready workspaceId g
  entities : (g.refs (·.isIn .entity workspaceId)).length = entities
  rels : (g.rels.countP fun r => r.data.isUntimed workspaceId) ≤ rels

section

variable {workspaceId w : Uuid} {entities rels k : ℕ} {g : Graph}

theorem entityProps_ends {fuel : ℕ} (hk : 0 < k) (h : Backfills w entities rels g)
    (hfuel : entities < fuel) :
    ∃ g', loopCount (backfillEntityProps w k) fuel g = (g', true) ∧
      Backfills w entities rels g' ∧ g'.refs (·.isUntimed w) = [] := by
  have hpass : ∀ {g g' n}, Backfills w entities rels g → backfillEntityProps w k g = some (g', n) →
      Backfills w entities rels g' ∧ (0 < n →
        (g'.refs (·.isUntimed w)).length < (g.refs (·.isUntimed w)).length) := by
    intro g g' n hg hg'
    obtain ⟨hn, hrefs, hentities, hrels⟩ := backfillEntityProps_spec hg.ready hg'
    refine ⟨⟨holds_backfillEntityProps (keptByWriters_isReady w) hg.ready hg', ?_, ?_⟩,
      fun hpos => ?_⟩
    · rw [hentities, hg.entities]
    · rw [hrels]
      exact hg.rels
    · rw [hrefs, length_drop]
      omega
  have hends : (loopCount (backfillEntityProps w k) fuel g).2 = true := by
    refine loopCount_ends (P := Backfills w entities rels)
      (fun g => (g.refs (·.isUntimed w)).length)
      (fun hg => ⟨_, _, rfl, hpass hg rfl⟩) h ?_
    have hle : (g.refs (·.isUntimed w)).length ≤ (g.refs (·.isIn .entity w)).length :=
      length_refs_le (fun n hn => (isUntimed_iff.1 hn).1) g
    rw [h.entities] at hle
    exact hle.trans_lt hfuel
  refine ⟨_, Prod.ext rfl hends, loopCount_preserves (fun hg hg' => (hpass hg hg').1) fuel h, ?_⟩
  obtain ⟨g₁, hlast⟩ := loopCount_last (Prod.ext rfl hends)
  exact backfillEntityProps_zero hk hlast

theorem entityStateNodes_ends {fuel : ℕ} (k : ℕ) (h : Backfills w entities rels g)
    (hnone : g.refs (·.isUntimed w) = []) (hfuel : entities < fuel) :
    ∃ g', loopCount (backfillEntityStateNodes w k) fuel g = (g', true) ∧
      Backfills w entities rels g' ∧ g'.refs (·.isUntimed w) = [] := by
  have hpass : ∀ {g}, (Backfills w entities rels g ∧ g.refs (·.isUntimed w) = []) →
      ∃ g' n, backfillEntityStateNodes w k g = some (g', n) ∧
        (Backfills w entities rels g' ∧ g'.refs (·.isUntimed w) = []) ∧
        (0 < n → (stateless w g').length < (stateless w g).length) := by
    intro g ⟨hg, hnone⟩
    obtain ⟨g', n, hg', hagree, hless⟩ := exists_backfillEntityStateNodes hg.ready k
    have hrefs : ∀ test : Node → Bool, (∀ n, test n = true → n.isIn .entity w = true) →
        g'.refs test = g.refs test := fun test htest =>
      congrArg (List.map Prod.fst) (hagree.matching_eq fun n hn =>
        decide_eq_true (isIn_iff.1 (htest n hn)).1)
    refine ⟨g', n, hg', ⟨⟨?_, ?_, ?_⟩, ?_⟩, hless⟩
    · exact holds_backfillEntityStateNodes (keptByWriters_isReady w) hg.ready hg'
    · rw [hrefs _ fun _ hn => hn, hg.entities]
    · rw [countP_eq_length_filter, hagree.rels, ← countP_eq_length_filter]
      exact hg.rels
    · rw [hrefs _ fun _ hn => (isUntimed_iff.1 hn).1, hnone]
  have hends : (loopCount (backfillEntityStateNodes w k) fuel g).2 = true := by
    refine loopCount_ends (P := fun g => Backfills w entities rels g ∧ g.refs (·.isUntimed w) = [])
      (fun g => (stateless w g).length) hpass ⟨h, hnone⟩ ?_
    refine ((length_filter_le _ _).trans ?_).trans_lt hfuel
    rw [← h.entities]
    exact length_refs_le (fun n hn => (Bool.and_eq_true_iff.1 hn).1) g
  refine ⟨_, Prod.ext rfl hends, ?_⟩
  refine loopCount_preserves
    (P := fun g => Backfills w entities rels g ∧ g.refs (·.isUntimed w) = [])
    (fun hg hg' => ?_) fuel ⟨h, hnone⟩
  obtain ⟨g', n, hg'', hkept, -⟩ := hpass hg
  rw [hg', Option.some.injEq, Prod.mk.injEq] at hg''
  exact hg''.1 ▸ hkept

theorem edgeProps_ends {fuel : ℕ} (hk : 0 < k) (h : Backfills w entities rels g)
    (hnone : g.refs (·.isUntimed w) = []) (hfuel : rels < fuel) :
    ∃ g', loopCount (backfillEdgeProps w k) fuel g = (g', true) ∧
      NothingLeft w g' := by
  have hpass : ∀ {g g' n}, (Backfills w entities rels g ∧ g.refs (·.isUntimed w) = []) →
      backfillEdgeProps w k g = some (g', n) →
      (Backfills w entities rels g' ∧ g'.refs (·.isUntimed w) = []) ∧
        (0 < n → (g'.rels.countP fun r => r.data.isUntimed w) <
          g.rels.countP fun r => r.data.isUntimed w) := by
    intro g g' n ⟨hg, hnone⟩ hg'
    obtain ⟨hn, hcount, hnodes⟩ := backfillEdgeProps_spec hg.ready hg'
    have hrels := hg.rels
    refine ⟨⟨⟨?_, ?_, ?_⟩, ?_⟩, fun hpos => ?_⟩
    · exact holds_backfillEdgeProps (keptByWriters_isReady w) hg.ready hg'
    · rw [refs_congr hnodes, hg.entities]
    · omega
    · rw [refs_congr hnodes, hnone]
    · omega
  have hends : (loopCount (backfillEdgeProps w k) fuel g).2 = true :=
    loopCount_ends (P := fun g => Backfills w entities rels g ∧ g.refs (·.isUntimed w) = [])
      (fun g => g.rels.countP fun r => r.data.isUntimed w)
      (fun hg => ⟨_, _, rfl, hpass hg rfl⟩) ⟨h, hnone⟩ (h.rels.trans_lt hfuel)
  have hkept := loopCount_preserves
    (P := fun g => Backfills w entities rels g ∧ g.refs (·.isUntimed w) = [])
    (fun hg hg' => (hpass hg hg').1) fuel ⟨h, hnone⟩
  obtain ⟨g₁, hlast⟩ := loopCount_last (Prod.ext rfl hends)
  exact ⟨_, Prod.ext rfl hends, fun i n hn => isUntimed_of_refs hkept.2 hn,
    backfillEdgeProps_zero hk hlast⟩

theorem entityProps_stuck (fuel : ℕ) (hk : 0 < k) {i : ℕ} {n : Node} (hn : g.nodes.get? i = some n)
    (huntimed : n.isUntimed w = true) (hcreated : n.createdAt = none) :
    (loopCount (backfillEntityProps w k) fuel g).2 = false := by
  rw [← Bool.not_eq_true]
  intro hends
  let I (g : Graph) : Prop := ∃ n, g.nodes.get? i = some n ∧ n.isUntimed w = true ∧
    n.createdAt = none
  have hkept : I (loopCount (backfillEntityProps w k) fuel g).1 := by
    refine loopCount_preserves (fun {g g' m} hg hg' => ?_) fuel ⟨n, hn, huntimed, hcreated⟩
    obtain ⟨n, hn, huntimed, hcreated⟩ := hg
    cases hg'
    refine ⟨_, (Dict.get?_map _ _ _).trans (by rw [hn, Option.map_some]), ?_, ?_⟩
    · split
      · rw [isUntimed_iff] at huntimed ⊢
        exact ⟨huntimed.1, hcreated⟩
      · exact huntimed
    · split
      · exact hcreated
      · exact hcreated
  obtain ⟨g₁, hlast⟩ := loopCount_last (Prod.ext rfl hends)
  obtain ⟨n', hn', htest, -⟩ := hkept
  rw [isUntimed_of_refs (backfillEntityProps_zero hk hlast) hn'] at htest
  cases htest

theorem backfill_stuck (fuel : ℕ) (hk : 0 < k) {i : ℕ} {n : Node} (hn : g.nodes.get? i = some n)
    (huntimed : n.isUntimed w = true) (hcreated : n.createdAt = none) :
    (backfillBitemporal w k fuel g).2 = false := by
  have hstuck := entityProps_stuck fuel hk hn huntimed hcreated
  rw [backfillBitemporal, if_neg (by omega)]
  simp only [loopAll, foldl_cons, foldl_nil, if_true, hstuck, Bool.false_eq_true, if_false]

end

/-- **The backfill of a graph of the writers** ends with nothing left if and only if every entity of
the workspace has a time, as after a run whose versioned writes do not create entities without one;
otherwise it never ends. -/
theorem backfill_ends_iff (writes : List (GraphConfig × GraphWrite)) (workspaceId : Uuid)
    (batchSize : ℕ) (hsize : 1 ≤ batchSize) :
    ((∃ fuel g', backfillBitemporal workspaceId batchSize fuel (madeBy writes) = (g', true) ∧
        NothingLeft workspaceId g') ↔ Datable workspaceId (madeBy writes)) ∧
      ((∃ fuel, (backfillBitemporal workspaceId batchSize fuel (madeBy writes)).2 = true) →
        Datable workspaceId (madeBy writes)) ∧
      (NoneUntimed writes → Datable workspaceId (madeBy writes)) := by
  have hends : (∃ fuel, (backfillBitemporal workspaceId batchSize fuel (madeBy writes)).2 = true) →
      Datable workspaceId (madeBy writes) := by
    rintro ⟨fuel, hended⟩ i n hn hin
    by_contra huntimed
    rw [Node.IsTimed, not_or, Option.not_isSome_iff_eq_none, Option.not_isSome_iff_eq_none]
      at huntimed
    rw [backfill_stuck fuel hsize hn (isUntimed_iff.2 ⟨hin, huntimed.1⟩) huntimed.2] at hended
    cases hended
  refine ⟨⟨?_, fun hdatable => ?_⟩, hends, datable_of_noneUntimed workspaceId⟩
  · rintro ⟨fuel, g', hended, -⟩
    exact hends ⟨fuel, congrArg Prod.snd hended⟩
  · set entities := ((madeBy writes).refs (·.isIn .entity workspaceId)).length
    set rels := (madeBy writes).rels.countP fun r => r.data.isUntimed workspaceId
    have hstart : Backfills workspaceId entities rels (madeBy writes) :=
      ⟨ready_of_datable writes hdatable, rfl, le_rfl⟩
    -- no loop has more to do than this
    have hentities : entities < entities + rels + 1 := by omega
    have hrels : rels < entities + rels + 1 := by omega
    obtain ⟨g₁, hfirst, hg₁, hnone⟩ := entityProps_ends hsize hstart hentities
    obtain ⟨g₂, hsecond, hg₂, hnone⟩ := entityStateNodes_ends batchSize hg₁ hnone hentities
    obtain ⟨g₃, hthird, hleft⟩ := edgeProps_ends hsize hg₂ hnone hrels
    refine ⟨entities + rels + 1, g₃, ?_, hleft⟩
    rw [backfillBitemporal, if_neg (by omega)]
    simp only [loopAll, foldl_cons, foldl_nil, if_true, hfirst, hsecond, hthird]

/-! ### A service of the outbox -/

/-- A store without bitemporal mode writes a service, as an extractor or as the outbox gives it. -/
def serviceWrite (version : Option ℤ) : List (GraphConfig × GraphWrite) :=
  [({ GraphConfig.sample with bitemporal := false },
    .entity
      { id := 1
        sourceId := 3
        entityType := "service"
        name := "api"
        displayName := "API"
        version := version } 7 1)]

/-- The service of the extractor is backfilled. -/
theorem backfill_ends_service :
    ∃ fuel g, backfillBitemporal 7 500 fuel (madeBy (serviceWrite none)) = (g, true) ∧
      NothingLeft 7 g := by
  have hnone : NoneUntimed (serviceWrite none) := by
    intro pre gcfg write post hsplit
    obtain ⟨rfl, hwrite⟩ | ⟨rest, -, hrest⟩ := append_eq_cons_iff.1 hsplit.symm
    · obtain ⟨hwrite, -⟩ := List.cons.inj hwrite
      cases hwrite
      rintro ⟨-, version, hversion, -⟩
      cases hversion
    · cases rest <;> cases hrest
  have hends := backfill_ends_iff (serviceWrite none) 7 500 (by decide)
  exact hends.1.2 (hends.2.2 hnone)

/-- The backfill of the service of the outbox goes on for ever. -/
theorem backfill_service_stuck :
    ¬ ∃ fuel, (backfillBitemporal 7 500 fuel (madeBy (serviceWrite (some 1)))).2 = true := by
  rintro ⟨fuel, hends⟩
  -- the node 1 is the checkpoint of the source
  have hnode : ∃ n, (madeBy (serviceWrite (some 1))).nodes.get? 2 = some n ∧
      n.isUntimed 7 = true ∧ n.createdAt = none := ⟨_, rfl, rfl, rfl⟩
  obtain ⟨n, hn, huntimed, hcreated⟩ := hnode
  rw [backfill_stuck fuel (by decide) hn huntimed hcreated] at hends
  cases hends

end Omniscience.Cypher
