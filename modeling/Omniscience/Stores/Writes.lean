import Omniscience.Lib.GraphInvariants
import Omniscience.Stores.Retention

/-!
# Graphs that the writers produce

The operations that write the hot tier, as one type, and what all graphs have in common that they
make out of the empty one.  A predicate on nodes and one on relationships hold of these graphs if
they hold of what the writers create and survive what the writers change (`KeptByWriters`).  So
there is no daily snapshot in them, and nothing is tagged for retention (`isHot_producedBy`).
-/

namespace Omniscience.Cypher

open Outbox
open Neo4j (GraphConfig GraphUpsert BatchEdge EdgeParams)
open PropertyGraph

/-- An operation that writes the hot tier. -/
inductive GraphWrite where
  | graph (u : GraphUpsert) (now : ℕ)
  | entity (entity : EntityUpsert) (workspaceId : Uuid) (now : ℕ)
  | edge (edge : EdgeUpsert) (workspaceId : Uuid) (now : ℕ)
  | edgeByName (source : Uuid) (targetName edgeType : String) (metadata : Metadata)
      (workspaceId : Uuid) (now : ℕ)
  | tombstoned (workspaceId : Uuid) (now : ℕ)
  | backfill (workspaceId : Uuid) (batchSize fuel : ℕ)

/-- The graph after a transaction; one that raises is rolled back. -/
def committed (result : Except Exc Graph) (g : Graph) : Graph :=
  match result with
  | .ok g' => g'
  | .error _ => g

variable (gcfg : GraphConfig)

/-- The graph after an operation. -/
def GraphWrite.apply (write : GraphWrite) (g : Graph) : Graph :=
  match write with
  | .graph u now => committed (upsertGraph gcfg u now g) g
  | .entity e workspaceId now => committed (upsertEntity gcfg.toConfig e workspaceId now g) g
  | .edge e workspaceId now => committed (upsertEdge gcfg.toConfig e workspaceId now g) g
  | .edgeByName source targetName edgeType metadata workspaceId now =>
    committed (upsertEdgeByName gcfg source targetName edgeType metadata workspaceId now g) g
  | .tombstoned workspaceId now => deleteTombstoned gcfg.toConfig workspaceId now g
  | .backfill workspaceId batchSize fuel => (backfillBitemporal workspaceId batchSize fuel g).1

/-- The graph that the operations make out of the empty one. -/
def producedBy (writes : List GraphWrite) : Graph :=
  writes.foldl (fun g write => write.apply gcfg g) .empty

/-! ### What the statements do -/

theorem addState_eq {cfg : Neo4j.Config} {entity : EntityUpsert} {w : Uuid}
    {now i : ℕ} {g g' : Graph} (h : addState cfg entity w now i g = .ok g') :
    g' = (g.create (newState cfg entity w now)).connect
      ⟨i, g.fresh,
        { relType := hadState
          workspaceId := some w
          validFrom := some (.datetime now)
          recordedAt := some (.datetime now) }⟩ := by
  rw [addState] at h
  split at h
  · cases h
  · cases h
    rfl

theorem versionEntity_cases {cfg : Neo4j.Config} {entity : EntityUpsert} {w : Uuid}
    {now i : ℕ} {g g' : Graph} (h : versionEntity cfg entity w now g i = .ok g') :
    ∃ written,
      (written = g ∨ written = closeStates (· = i) now (g.setNodes fun j n =>
        if j = i then
          (n.withContent (Neo4j.contentOf cfg.py entity) now).stamp (cfg.entityFingerprint entity)
            now
        else n)) ∧
      (g' = written ∨ addState cfg entity w now i written = .ok g') := by
  simp only [versionEntity] at h
  by_cases hchanged : g.has (stateChanged cfg entity now) i = true
  · simp only [hchanged, if_true, Bool.true_or] at h
    exact ⟨_, .inr rfl, .inr h⟩
  · rw [Bool.not_eq_true] at hchanged
    simp only [hchanged, Bool.false_eq_true, if_false, Bool.false_or] at h
    refine ⟨g, .inl rfl, ?_⟩
    split at h
    · exact .inr h
    · cases h
      exact .inl rfl

theorem upsertGraph_cases {gcfg : GraphConfig} {u : GraphUpsert} {now : ℕ} {g g' : Graph}
    (h : upsertGraph gcfg u now g = .ok g') :
    ∃ w, u.workspace gcfg.py = .ok w ∧
      (g' = g ∨ ∃ guarded merged, passGuard u w now g = some guarded ∧
        u.entities.foldlM (writeEntity gcfg u w now)
          (retire gcfg u w guarded) = .ok merged ∧
        u.edges.foldlM (writeBatchEdge gcfg u w now) merged = .ok g') := by
  obtain ⟨w, hws, h⟩ := bind_eq_ok_iff.1 h
  refine ⟨w, hws, ?_⟩
  split at h
  · cases h
    exact .inl rfl
  · rename_i guarded hguarded
    obtain ⟨merged, hmerged, hedges⟩ := bind_eq_ok_iff.1 h
    exact .inr ⟨guarded, merged, hguarded, hmerged, hedges⟩

theorem backfillState_cases {acc acc' : Graph × ℕ} {i : ℕ} (h : backfillState acc i = some acc') :
    ∃ n w id validFrom, acc.1.nodes.get? i = some n ∧ n.workspaceId = some w ∧
      n.id = some id ∧ n.validFrom = some validFrom ∧
      acc'.1 = (((acc.1.mergeNode (·.isState w id validFrom) n.mirror fun s => s).refs
          (·.isState w id validFrom)).foldl
        (fun g s => g.mergeRel i s (·.relType = hadState) { relType := hadState } fun r => r)
        (acc.1.mergeNode (·.isState w id validFrom) n.mirror fun s => s)) := by
  simp only [backfillState, Option.pure_def, Option.bind_eq_bind, Option.bind_eq_some_iff] at h
  obtain ⟨n, hn, w, hws, id, hid, validFrom, hfrom, hacc'⟩ := h
  cases hacc'
  exact ⟨n, w, id, validFrom, hn, hws, hid, hfrom, rfl⟩

theorem loopAll_preserves {P : Graph → Prop} {passes : List (Graph → Option (Graph × ℕ))}
    (hpass : ∀ pass ∈ passes, ∀ {g g' n}, P g → pass g = some (g', n) → P g') (fuel : ℕ) {g : Graph}
    (h : P g) : P (loopAll passes fuel g).1 := by
  have hall : ∀ acc : Graph × Bool, P acc.1 → P (passes.foldl (fun acc pass =>
        if acc.2 then loopCount pass fuel acc.1 else acc) acc).1 := by
    induction passes with
    | nil => exact fun acc hacc => hacc
    | cons pass passes ih =>
      intro acc hacc
      refine ih (fun p hp => hpass p (List.mem_cons_of_mem _ hp)) _ ?_
      show P (if acc.2 then loopCount pass fuel acc.1 else acc).1
      split
      · exact loopCount_preserves (hpass pass List.mem_cons_self) fuel hacc
      · exact hacc
  exact hall (g, true) h

/-! ### What every writer keeps -/

/-- The label of a daily snapshot. -/
def Label.isDaily : Label → Bool
  | .entitySnapshot => true
  | .relationshipSnapshot => true
  | _ => false

/-- The node has a time from which it is valid, or one that the backfill takes for it. -/
def Node.IsTimed (n : Node) : Prop := n.validFrom.isSome = true ∨ n.createdAt.isSome = true

/-- The same for a relationship. -/
def Rel.IsTimed (r : Rel) : Prop := r.validFrom.isSome = true ∨ r.createdAt.isSome = true

/-- What is true of the nodes that the writers create, except for those of versioned writes. -/
structure Node.IsNew (n : Node) : Prop where
  label : n.label.isDaily = false
  tierPending : n.tierPending = false
  entity : n.label = .entity →
    (n.workspaceId.isSome = true ∧ n.id.isSome = true) ∧ n.IsTimed

/-- What the writers leave of a node when they rewrite it. -/
structure Node.Becomes (n n' : Node) : Prop where
  label : n'.label = n.label
  workspaceId : n'.workspaceId = n.workspaceId
  id : n'.id = n.id
  tierPending : n'.tierPending = n.tierPending
  timed : n.IsTimed → n'.IsTimed

/-- What is true of the relationships that the writers create. -/
structure Rel.IsNew (r : Rel) : Prop where
  tierPending : r.tierPending = false
  timed : r.workspaceId = none ∨ r.IsTimed

/-- What the writers leave of a relationship when they rewrite it. -/
structure Rel.Becomes (r r' : Rel) : Prop where
  workspaceId : r'.workspaceId = r.workspaceId
  tierPending : r'.tierPending = r.tierPending
  timed : r.IsTimed → r'.IsTimed

theorem Node.Becomes.refl (n : Node) : n.Becomes n := ⟨rfl, rfl, rfl, rfl, fun h => h⟩

/-- The predicates hold of what the writers create, and survive what they change. -/
structure KeptByWriters (P : Node → Prop) (Q : Rel → Prop) : Prop where
  newNode : ∀ {n : Node}, n.IsNew → P n
  node : ∀ {n n' : Node}, P n → n.Becomes n' → P n'
  newRel : ∀ {r : Rel}, r.IsNew → Q r
  rel : ∀ {r r' : Rel}, Q r → r.Becomes r' → Q r'

/-- A versioned write creates a node without `created_at`, and sets `valid_from` in bitemporal mode
only. -/
theorem becomes_casNode (cfg : Neo4j.Config) (entity : EntityUpsert) (version : ℤ) (now : ℕ)
    (n : Node) : n.Becomes (casNode cfg entity version now n) := by
  rw [casNode]
  split
  · dsimp only
    split
    · exact ⟨rfl, rfl, rfl, rfl, fun _ => .inl rfl⟩
    · exact ⟨rfl, rfl, rfl, rfl, id⟩
  · exact .refl n

section

variable {P : Node → Prop} {Q : Rel → Prop} {gcfg} {g g' : Graph} (hK : KeptByWriters P Q)
  (h : Holds P Q g)

include hK h

theorem holds_advanceSourceCheckpoint (w : Uuid) (sourceId : String) (version : ℤ)
    (epoch : Option ℤ) (forced : Bool) (now : ℕ) :
    Holds P Q (advanceSourceCheckpoint w sourceId version epoch forced now g) :=
  h.mergeNode (hK.newNode ⟨rfl, rfl, nofun⟩) fun _ hn => hK.node hn ⟨rfl, rfl, rfl, rfl, id⟩

theorem holds_advanceDocumentCheckpoint (w : Uuid) (sourceId : String)
    (documentId : Uuid) (version : ℤ) (epoch : Option ℤ) (now : ℕ) :
    Holds P Q (advanceDocumentCheckpoint w sourceId documentId version epoch now g) :=
  h.mergeNode (hK.newNode ⟨rfl, rfl, nofun⟩) fun _ hn => hK.node hn ⟨rfl, rfl, rfl, rfl, id⟩

theorem holds_closeStates (selected : ℕ → Bool) (now : ℕ) :
    Holds P Q (closeStates selected now g) := by
  refine Holds.setNodes (h.setRels fun r hr => ?_) fun i n hn => ?_
  · split
    · exact hK.rel hr ⟨rfl, rfl, id⟩
    · exact hr
  · split
    · exact hK.node hn ⟨rfl, rfl, rfl, rfl, id⟩
    · exact hn

variable (cfg : Neo4j.Config)

theorem holds_mergeEntity (entity : EntityUpsert) (w : Uuid) (now : ℕ) :
    Holds P Q (mergeEntity cfg entity w now g) :=
  h.mergeNode (hK.newNode ⟨rfl, rfl, fun _ => ⟨⟨rfl, rfl⟩, .inr rfl⟩⟩)
    fun _ hn => hK.node hn ⟨rfl, rfl, rfl, rfl, id⟩

variable {workspaceId w : Uuid} {now : ℕ} {entity : EntityUpsert}

theorem holds_casEntity {cfg : Neo4j.Config} {version : ℤ}
    (hcas : (∀ i n, g.nodes.get? i = some n → n.isEntity w entity.id = false) → P (casNode cfg entity version now (bareEntity w entity.id)))
    :
    Holds P Q (casEntity cfg entity w version now g) :=
  h.mergeNodeNew hcas fun n hn => hK.node hn (becomes_casNode cfg entity version now n)

theorem holds_versionEntity {cfg : Neo4j.Config} {now i : ℕ}
    (hg' : versionEntity cfg entity w now g i = .ok g') : Holds P Q g' := by
  obtain ⟨written, hwritten, hstep⟩ := versionEntity_cases hg'
  have hkept : Holds P Q written := by
    rcases hwritten with rfl | rfl
    · exact h
    · refine holds_closeStates hK (h.setNodes fun j n hn => ?_) _ _
      split
      · exact hK.node hn ⟨rfl, rfl, rfl, rfl, fun _ => .inl rfl⟩
      · exact hn
  rcases hstep with rfl | hadd
  · exact hkept
  · obtain rfl := addState_eq hadd
    have hstate : (newState cfg entity w now).label ≠ .entity := by
      change Label.entityState ≠ .entity
      exact nofun
    exact (hkept.create (hK.newNode ⟨rfl, rfl, fun heq => absurd heq hstate⟩)).connect
      (hK.newRel ⟨rfl, .inr (.inl rfl)⟩)

theorem holds_mergeEntityBitemporal {cfg : Neo4j.Config}
    (hg' : mergeEntityBitemporal cfg entity w now g = .ok g') : Holds P Q g' :=
  Fold.foldlM_keeps hg' (Holds P Q)
    (h.mergeNode (hK.newNode ⟨rfl, rfl, fun _ => ⟨⟨rfl, rfl⟩, .inr rfl⟩⟩) fun _ hn => hn)
    fun _ _ _ _ hc hstep => holds_versionEntity hK hc hstep

omit hK h in
theorem isEntity_advanceSourceCheckpoint {w ws id : Uuid} {sourceId : String}
    {version : ℤ} {epoch : Option ℤ} {forced : Bool}
    (hnone : ∀ i n, (advanceSourceCheckpoint w sourceId version epoch forced now g).nodes.get? i = some n → n.isEntity ws id = false)
    (i : ℕ) (n : Node) (hn : g.nodes.get? i = some n) : n.isEntity ws id = false := by
  rw [advanceSourceCheckpoint, mergeNode] at hnone
  split at hnone
  · have hi := Dict.get?_map (fun _ n => if n.isStoreCheckpoint w sourceId then
      { n with
        version := if forced then some version
          else Neo4j.advanceVersion version epoch n.version n.epoch
        epoch := if forced then epoch else Neo4j.advanceEpoch epoch n.epoch
        updatedAt := some (.datetime now) } else n) g.nodes i
    rw [hn, Option.map_some] at hi
    have hno := hnone i _ hi
    split at hno
    · exact hno
    · exact hno
  · refine hnone i n ?_
    rw [create, Dict.get?_set_ne _ _ fun heq => g.fresh_notMem ?_, hn]
    rw [← heq]
    exact List.mem_map_of_mem (Dict.mem_items_of_get? hn)

theorem holds_upsertEntity {cfg : Neo4j.Config}
    (hcas : ∀ version, entity.version = some version → (∀ i n, g.nodes.get? i = some n → n.isEntity w entity.id = false) → P (casNode cfg entity version now (bareEntity w entity.id)))
    (hg' : upsertEntity cfg entity w now g = .ok g') : Holds P Q g' := by
  simp only [upsertEntity] at hg'
  split at hg'
  · rename_i version hversion
    split at hg'
    · cases hg'
      exact h
    · cases hg'
      refine holds_casEntity hK (holds_advanceSourceCheckpoint hK h _ _ _ _ _ _) fun hnone => ?_
      exact hcas version hversion (isEntity_advanceSourceCheckpoint hnone)
  · split at hg'
    · exact holds_mergeEntityBitemporal hK h hg'
    · cases hg'
      exact holds_mergeEntity hK h _ _ _ _

theorem holds_mergeEdge (params : EdgeParams) (w : Uuid) (now : ℕ) :
    Holds P Q (mergeEdge cfg params w now g) :=
  foldl_keeps (fun _ _ _ hg => hg.mergeRel (hK.newRel ⟨rfl, .inr (.inr rfl)⟩)
    fun _ hd => hK.rel hd ⟨rfl, rfl, id⟩) h

theorem holds_versionEdge (params : EdgeParams) (w : Uuid) (now : ℕ) (pair : ℕ × ℕ) :
    Holds P Q (versionEdge cfg params w now g pair) := by
  simp only [versionEdge]
  split
  · refine foldl_keeps
      (fun g _ _ hg => hg.connect (hK.newRel ⟨rfl, .inr (.inl rfl)⟩)) (h.setRels fun r hr => ?_)
    split
    · exact hK.rel hr ⟨rfl, rfl, id⟩
    · exact hr
  · exact h.connect (hK.newRel ⟨rfl, .inr (.inl rfl)⟩)

theorem holds_writeEdge (params : EdgeParams) (w : Uuid) (now : ℕ) :
    Holds P Q (writeEdge cfg params w now g) := by
  rw [writeEdge]
  split
  · exact foldl_keeps (I := Holds P Q)
      (fun g pair _ hg => holds_versionEdge hK hg cfg params w now pair) h
  · exact holds_mergeEdge hK h _ _ _ _

theorem holds_upsertEdge {cfg : Neo4j.Config} {edge : EdgeUpsert}
    (hg' : upsertEdge cfg edge w now g = .ok g') : Holds P Q g' := by
  simp only [upsertEdge] at hg'
  split at hg'
  · cases hg'
  · split at hg'
    · split at hg'
      · cases hg'
        exact h
      · cases hg'
        exact holds_writeEdge hK (holds_advanceSourceCheckpoint hK h _ _ _ _ _ _) _ _ _ _
    · cases hg'
      exact holds_writeEdge hK h _ _ _ _

theorem holds_mergeEdgeByName (source : Uuid) (targetName edgeType : String)
    (sourceId : Option String) (metadata : Metadata) (w : Uuid) (now : ℕ) :
    Holds P Q
      (mergeEdgeByName gcfg source targetName edgeType sourceId metadata w now g) := by
  refine foldl_keeps (fun g a _ hg => ?_) h
  refine foldl_keeps (fun g b _ hg => hg.mergeRel
    (hK.newRel ⟨rfl, .inr (.inr rfl)⟩) fun _ hd => hK.rel hd ⟨rfl, rfl, id⟩) ?_
  exact hg.mergeNode (hK.newNode ⟨rfl, rfl, fun _ => ⟨⟨rfl, rfl⟩, .inr rfl⟩⟩) fun _ hn => hn

theorem holds_upsertEdgeByName {source : Uuid} {targetName edgeType : String} {metadata : Metadata}
    (hg' : upsertEdgeByName gcfg source targetName edgeType metadata w now g = .ok g') :
    Holds P Q g' := by
  unfold upsertEdgeByName at hg'
  split at hg'
  · cases hg'
  · cases hg'
    exact holds_mergeEdgeByName hK h _ _ _ _ _ _ _

theorem holds_endDateNodes (selected : ℕ → Bool) (now : ℕ) :
    Holds P Q (endDateNodes selected now g) := by
  refine holds_closeStates hK (h.setNodes fun i n hn => ?_) _ _
  split
  · exact hK.node hn ⟨rfl, rfl, rfl, rfl, id⟩
  · exact hn

theorem holds_endDateRels (selected : ℕ → Bool) (w : Uuid) (now : ℕ) :
    Holds P Q (endDateRels selected w now g) := by
  refine h.setRels fun r hr => ?_
  split
  · exact hK.rel hr ⟨rfl, rfl, id⟩
  · exact hr

theorem holds_retire (u : GraphUpsert) (w : Uuid) : Holds P Q (retire gcfg u w g) := by
  rw [retire]
  split
  · exact h.detachDelete _
  · split
    · exact holds_endDateRels hK (holds_endDateNodes hK h _ _) _ _ _
    · exact h

variable {u : GraphUpsert}

theorem holds_writeEntity (hg' : writeEntity gcfg u w now g entity = .ok g') : Holds P Q g' := by
  simp only [writeEntity] at hg'
  split at hg'
  · exact holds_mergeEntityBitemporal hK h hg'
  · cases hg'
    exact holds_mergeEntity hK h _ _ _ _

theorem holds_writeBatchEdge {edge : BatchEdge}
    (hg' : writeBatchEdge gcfg u w now g edge = .ok g') : Holds P Q g' := by
  rw [writeBatchEdge] at hg'
  split at hg'
  · cases hg'
  · cases hg'
    exact holds_writeEdge hK h _ _ _ _
  · split at hg'
    · cases hg'
      exact h
    · split at hg'
      · cases hg'
        exact h
      · split at hg'
        · cases hg'
        · split at hg'
          · cases hg'
            exact h
          · cases hg'
            exact holds_mergeEdgeByName hK h _ _ _ _ _ _ _

theorem holds_passGuard (hg' : passGuard u w now g = some g') : Holds P Q g' := by
  simp only [passGuard] at hg'
  split at hg'
  · cases hg'
    exact h
  · split at hg'
    · cases hg'
    · cases hg'
      exact holds_advanceSourceCheckpoint hK
        (holds_advanceDocumentCheckpoint hK h _ _ _ _ _ _) _ _ _ _ _ _

theorem holds_upsertGraph (hg' : upsertGraph gcfg u now g = .ok g') : Holds P Q g' := by
  obtain ⟨w, -, rfl | ⟨guarded, merged, hguarded, hmerged, hedges⟩⟩ :=
    upsertGraph_cases hg'
  · exact h
  · have hretired : Holds P Q (retire gcfg u w guarded) :=
      holds_retire hK (holds_passGuard hK h hguarded) u w
    have hentities : Holds P Q merged := Fold.foldlM_keeps hmerged (Holds P Q) hretired
      fun _ _ _ _ hc hstep => holds_writeEntity hK hc hstep
    exact Fold.foldlM_keeps hedges (Holds P Q) hentities fun _ _ _ _ hc hstep =>
      holds_writeBatchEdge hK hc hstep

theorem holds_deleteTombstoned (w : Uuid) (now : ℕ) : Holds P Q (deleteTombstoned cfg w now g) := by
  rw [deleteTombstoned]
  split
  · exact holds_endDateRels hK (holds_endDateNodes hK h _ _) _ _ _
  · exact h.detachDelete _

theorem holds_backfillEntityProps {batchSize n : ℕ}
    (hg' : backfillEntityProps w batchSize g = some (g', n)) : Holds P Q g' := by
  cases hg'
  refine h.setNodesAt fun i n hi hn => ?_
  split
  · rename_i hbatch
    -- what has no `valid_from` is timed by `created_at`
    obtain ⟨n', hn', htest⟩ := has_iff.1 (mem_refs.1 (List.mem_of_mem_take hbatch))
    rw [hi, Option.some.injEq] at hn'
    subst hn'
    have hnone : n.validFrom = none := by simpa using (Bool.and_eq_true_iff.1 htest).2
    refine hK.node hn ⟨rfl, rfl, rfl, rfl, ?_⟩
    rintro (hfrom | hcreated)
    · rw [hnone] at hfrom
      cases hfrom
    · exact .inr hcreated
  · exact hn

omit h in
theorem holds_backfillState {acc acc' : Graph × ℕ} {i : ℕ} (hacc : Holds P Q acc.1)
    (hacc' : backfillState acc i = some acc') : Holds P Q acc'.1 := by
  obtain ⟨n, w, id, validFrom, -, -, -, -, heq⟩ := backfillState_cases hacc'
  rw [heq]
  refine foldl_keeps (fun g s _ hg => hg.mergeRel (hK.newRel ⟨rfl, .inl rfl⟩) fun _ hd => hd) ?_
  exact hacc.mergeNode (hK.newNode ⟨rfl, rfl, nofun⟩) fun _ hn => hn

theorem holds_backfillEntityStateNodes {batchSize n : ℕ}
    (hg' : backfillEntityStateNodes w batchSize g = some (g', n)) : Holds P Q g' := by
  have hkept : Holds P Q (g', n).1 := foldlM_keeps (I := fun acc => Holds P Q acc.1)
    (fun _ _ _ _ hc hstep => holds_backfillState hK hc hstep) h hg'
  exact hkept

theorem holds_backfillEdgeProps {batchSize n : ℕ}
    (hg' : backfillEdgeProps w batchSize g = some (g', n)) : Holds P Q g' := by
  cases hg'
  refine h.setFirstRels batchSize fun r htest hr => ?_
  have hnone : r.data.validFrom = none := by simpa using (Bool.and_eq_true_iff.1 htest).2
  refine hK.rel hr ⟨rfl, rfl, ?_⟩
  rintro (hfrom | hcreated)
  · rw [hnone] at hfrom
    cases hfrom
  · exact .inr hcreated

theorem holds_backfillBitemporal (w : Uuid) (batchSize fuel : ℕ) :
    Holds P Q (backfillBitemporal w batchSize fuel g).1 := by
  rw [backfillBitemporal]
  split
  · exact h
  · refine loopAll_preserves (fun pass hpass => ?_) fuel h
    simp only [List.mem_cons, List.not_mem_nil, or_false] at hpass
    rcases hpass with rfl | rfl | rfl
    · exact fun hg hg' => holds_backfillEntityProps hK hg hg'
    · exact fun hg hg' => holds_backfillEntityStateNodes hK hg hg'
    · exact fun hg hg' => holds_backfillEdgeProps hK hg hg'

omit hK in
theorem holds_committed {result : Except Exc Graph} (hok : ∀ g', result = .ok g' → Holds P Q g') :
    Holds P Q (committed result g) := by
  cases result with
  | ok g' => exact hok g' rfl
  | error e => exact h

/-- **What every writer keeps**, if it is also kept by the versioned writes that create an
entity. -/
theorem holds_apply (write : GraphWrite)
    (hcas : ∀ entity w now version, write = .entity entity w now →
      entity.version = some version →
      (∀ i n, g.nodes.get? i = some n → n.isEntity w entity.id = false) →
      P (casNode gcfg.toConfig entity version now (bareEntity w entity.id))) :
    Holds P Q (write.apply gcfg g) := by
  cases write with
  | graph u now => exact holds_committed h fun g' hg' => holds_upsertGraph hK h hg'
  | entity e w now =>
    exact holds_committed h fun g' hg' =>
      holds_upsertEntity hK h (fun version hversion => hcas e w now version rfl hversion) hg'
  | edge e w now => exact holds_committed h fun g' hg' => holds_upsertEdge hK h hg'
  | edgeByName source targetName edgeType metadata w now =>
    exact holds_committed h fun g' hg' => holds_upsertEdgeByName hK h hg'
  | tombstoned w now => exact holds_deleteTombstoned hK h _ _ _
  | backfill w batchSize fuel => exact holds_backfillBitemporal hK h _ _ _

end

/-! ### The hot tier -/

/-- The node is no snapshot, and is not tagged. -/
def Node.IsHot (n : Node) : Prop := n.label.isDaily = false ∧ n.tierPending = false

/-- The relationship is not tagged. -/
def Rel.IsHot (r : Rel) : Prop := r.tierPending = false

/-- The graph has the hot tier only. -/
abbrev IsHot (g : Graph) : Prop := Holds Node.IsHot Rel.IsHot g

theorem keptByWriters_isHot : KeptByWriters Node.IsHot Rel.IsHot where
  newNode h := ⟨h.label, h.tierPending⟩
  node hn h := ⟨h.label ▸ hn.1, h.tierPending.trans hn.2⟩
  newRel h := h.tierPending
  rel hr h := h.tierPending.trans hr

/-- **The writers make graphs with the hot tier only.** -/
theorem isHot_producedBy (writes : List GraphWrite) : IsHot (producedBy gcfg writes) := by
  refine foldl_keeps (I := IsHot) (fun g write _ hg => ?_) holds_empty
  refine holds_apply keptByWriters_isHot hg write fun entity w now version _ _ _ => ?_
  exact keptByWriters_isHot.node ⟨rfl, rfl⟩ (becomes_casNode gcfg.toConfig entity version now _)

end Omniscience.Cypher
