import Omniscience.Stores.EntityVersions
import Omniscience.Stores.Reappearance

/-!
# Two writers of one entity

An entity is written by the outbox, one `upsert_entity` at a time, and by the pipeline, in the
batches of `upsert_graph`.  The versioned statement of the outbox sets the content and the
fingerprint of the node, but neither `created_at` nor a state.  The statement of the pipeline
compares the fingerprints and `created_at`, and takes a comparison with a missing property for no
change.  So a node of the outbox keeps its content whatever the batch says of it, and a state keeps
the content that the node had before the outbox wrote it (`agrees_iff`).
-/

namespace Omniscience.Neo4j

open Outbox

/-- The node has the content, and exactly one of the states is open, with the same content. -/
def Agrees (g : Graph) (key : NodeKey) (content : EntityContent) : Prop :=
  (∃ n, g.nodes.get? key = some n ∧ n.content = some content) ∧
    ∃ s, openStates g key = [s] ∧ s.content = content

/-- The graphs that calls of both kinds lead to, one after the other. -/
inductive Mixed (cfg : GraphConfig) : Graph → Prop
  | start : Mixed cfg {}
  | graph {u : GraphUpsert} {now : ℕ} {g g' : Graph} {result : GraphWriteResult}
    (run : Mixed cfg g) (returned : upsertGraph cfg u now g = .ok (g', result)) : Mixed cfg g'
  | entity {g : Graph} (run : Mixed cfg g) (d : Delivery) :
    Mixed cfg (upsertEntity cfg.toConfig d.entity d.workspaceId d.now g)

/-- The states of every entity hang at its node. -/
structure Attached (g : Graph) : Prop where
  held : ∀ key, g.nodes.get? key = none → statesOf g key = []
  linked : ∀ key, ∀ s ∈ statesOf g key, ∃ h, s.link = some h ∧ h.workspaceId = some key.1

section

variable {cfg : GraphConfig} {u : GraphUpsert} {workspaceId w : Uuid} {now : ℕ} {g g' : Graph}
  {result : GraphWriteResult}

theorem Attached.of_nodes (h : Attached g) (hstates : g'.states = g.states)
    (hnodes : ∀ key, g'.nodes.get? key = none → g.nodes.get? key = none) : Attached g' := by
  have hsame : ∀ key, statesOf g' key = statesOf g key := fun key => by
    rw [statesOf, hstates]
    rfl
  refine ⟨fun key hnone => ?_, fun key s hs => ?_⟩
  · rw [hsame]
    exact h.held key (hnodes key hnone)
  · rw [hsame] at hs
    exact h.linked key s hs

theorem linked_map {key : NodeKey} {states : List EntityState} {f : EntityState → EntityState}
    (hf : Closes f) (h : ∀ s ∈ states, ∃ h, s.link = some h ∧ h.workspaceId = some key.1) :
    ∀ s ∈ states.map f, ∃ h, s.link = some h ∧ h.workspaceId = some key.1 := by
  intro s hs
  obtain ⟨r, hr, rfl⟩ := List.mem_map.1 hs
  obtain ⟨link, hl, hws⟩ := h r hr
  obtain ⟨link', hl', hws'⟩ := hf.link r link hl
  exact ⟨link', hl', hws'.trans hws⟩

theorem Attached.retire (h : Attached g) (hbitemporal : cfg.bitemporal = true) (u : GraphUpsert)
    (w : Uuid) : Attached (retire cfg u w g).1 := by
  refine ⟨fun key hnone => ?_, fun key => ?_⟩
  · obtain ⟨f, -, hf⟩ := statesOf_retire_closes hbitemporal u w g key
    rw [get?_retire hbitemporal] at hnone
    have hnone : g.nodes.get? key = none := by
      cases hsnapshot : u.snapshotAt with
      | none => rwa [hsnapshot] at hnone
      | some snapshotAt =>
        rw [hsnapshot] at hnone
        exact Option.map_eq_none_iff.1 hnone
    rw [hf, h.held key hnone, List.map_nil]
  · obtain ⟨f, hcloses, hf⟩ := statesOf_retire_closes hbitemporal u w g key
    rw [hf]
    exact linked_map hcloses (h.linked key)

theorem Attached.mergeEntityBitemporal {config : Config} {entity : EntityUpsert} (h : Attached g)
    (hstep : mergeEntityBitemporal config entity w now g = .ok g') : Attached g' := by
  refine ⟨fun key hnone => ?_, fun key => ?_⟩
  · by_cases hkey : key = (w, entity.id)
    · subst hkey
      rw [get?_mergeEntityBitemporal hstep] at hnone
      cases hnone
    · rw [get?_mergeEntityBitemporal_ne hstep hkey] at hnone
      rw [statesOf_mergeEntityBitemporal_ne hstep hkey]
      exact h.held key hnone
  · by_cases hkey : key = (w, entity.id)
    · subst hkey
      rw [statesOf_mergeEntityBitemporal hstep, mergedStates]
      dsimp only
      intro s hs
      obtain hs | hs := List.mem_append.1 hs
      · split at hs
        · exact linked_map (closes_closeOpen now) (h.linked _) s hs
        · exact h.linked _ s hs
      · split at hs
        · obtain rfl := List.mem_singleton.1 hs
          exact ⟨_, rfl, rfl⟩
        · cases hs
    · rw [statesOf_mergeEntityBitemporal_ne hstep hkey]
      exact h.linked key

theorem Attached.writeBatchEdge {edge : BatchEdge} (h : Attached g)
    (hstep : writeBatchEdge cfg u w now g edge = .ok g') : Attached g' := by
  refine h.of_nodes (frame_writeBatchEdge hstep).1 fun key hnone => ?_
  obtain hsame | ⟨hnone', -⟩ := get?_writeBatchEdge hstep key
  · rw [← hsame, hnone]
  · exact hnone'

theorem Attached.upsertGraph (h : Attached g) (hbitemporal : cfg.bitemporal = true)
    (returned : upsertGraph cfg u now g = .ok (g', result)) : Attached g' := by
  obtain ⟨w, -, ⟨-, -, rfl⟩ | ⟨-, -, merged, hentities, hedges⟩⟩ :=
    upsertGraph_cases returned
  · exact h
  · have hadvanced : Attached (u.advance w g) :=
      h.of_nodes (states_advance u w g) fun key hnone => by
        rwa [nodes_advance] at hnone
    have hmerged := Fold.foldlM_keeps hentities Attached (hadvanced.retire hbitemporal u w) ?_
    · exact Fold.foldlM_keeps hedges Attached hmerged
        fun edge _ c c' hc hstep => hc.writeBatchEdge hstep
    · intro entity _ c c' hc hstep
      rw [writeEntity_bitemporal hbitemporal] at hstep
      exact hc.mergeEntityBitemporal hstep

theorem Attached.upsertEntity (h : Attached g) (hbitemporal : cfg.bitemporal = true)
    (d : Delivery) :
    Attached (upsertEntity cfg.toConfig d.entity d.workspaceId d.now g) := by
  unfold Neo4j.upsertEntity
  split
  · dsimp only
    split
    · exact h
    · refine h.of_nodes rfl fun key hnone => ?_
      rw [nodes_casEntity, nodes_advanceCheckpoint] at hnone
      by_cases hkey : key = (d.workspaceId, d.entity.id)
      · rw [hkey, Dict.get?_set_self] at hnone
        cases hnone
      · rwa [Dict.get?_set_ne _ _ hkey] at hnone
  · rw [if_pos hbitemporal]
    split
    · rename_i g' hstep
      exact h.mergeEntityBitemporal hstep
    · exact h

theorem Mixed.attached (hbitemporal : cfg.bitemporal = true) (run : Mixed cfg g) : Attached g := by
  induction run with
  | start => exact ⟨fun _ _ => rfl, fun _ _ hs => by cases hs⟩
  | graph _ returned ih => exact ih.upsertGraph hbitemporal returned
  | entity _ d ih => exact ih.upsertEntity hbitemporal d

/-- The call makes the node and the states of the entity agree with its batch.  A node that is taken
for changed is renewed: its open states must hang on open relationships, and the call must not be a
snapshot of its source.  Any other node has to have the content before, and one open state with it,
unless there is none at all. -/
def Settles (cfg : GraphConfig) (u : GraphUpsert) (workspaceId : Uuid) (now : ℕ)
    (entity : EntityUpsert) (g : Graph) : Prop :=
  ∀ n, g.nodes.get? (workspaceId, entity.id) = some n →
    if stateChanged cfg.toConfig (u.adopt entity) now n then
      ∀ s ∈ openStates g (workspaceId, entity.id),
        s.isOpen = true ∧ ¬ (u.snapshotAt.isSome ∧ n.sourceId = some u.sourceId.str)
    else n.content = some (contentOf cfg.py (u.adopt entity)) ∧
      (statesOf g (workspaceId, entity.id) = [] ∨
        ∃ s, openStates g (workspaceId, entity.id) = [s] ∧
          s.content = contentOf cfg.py (u.adopt entity))

theorem IsMerged.agrees_iff_settles (hbitemporal : cfg.bitemporal = true) {entity : EntityUpsert}
    (hentity : entity ∈ u.entities) (hattached : Attached g)
    (h : IsMerged cfg.toConfig (u.adopt entity) w now
      (Neo4j.retire cfg u w (u.advance w g)).1 g') :
    Agrees g' (w, entity.id) (contentOf cfg.py (u.adopt entity)) ↔
      Settles cfg u w now entity g := by
  have hget := get?_retire_of_mem hbitemporal hentity w g
  rw [Agrees, h.openStates_iff hbitemporal hentity (hattached.held _) (hattached.linked _)]
  cases hn : g.nodes.get? (w, entity.id) with
  | none =>
    rw [hn] at hget
    obtain ⟨n, hnode, -, hcontent⟩ := h.get?_of_none hget
    refine iff_of_true ⟨⟨n, hnode, hcontent⟩, fun n' hn' => (by cases hn')⟩ fun n' hn' => ?_
    rw [hn] at hn'
    cases hn'
  | some n =>
    rw [hn] at hget
    simp only [Settles, hn, Option.some.injEq, forall_eq']
    cases hchanged : stateChanged cfg.toConfig (u.adopt entity) now n with
    | true =>
      have hnode := h.get?_of_changed hget hchanged
      rw [id_adopt] at hnode
      rw [if_pos rfl]
      exact and_iff_right ⟨_, hnode, rfl⟩
    | false =>
      have hnode := h.get?_of_same hget hchanged
      rw [id_adopt] at hnode
      rw [if_neg Bool.false_ne_true, if_neg Bool.false_ne_true, hnode]
      simp

/-- **When the writers agree**: after an applied call of the pipeline an entity of the batch has the
content of the batch at its node and in its one open state if and only if the graph before the call
is one that `Settles` describes. -/
theorem agrees_iff (hbitemporal : cfg.bitemporal = true) (run : Mixed cfg g)
    (returned : upsertGraph cfg u now g = .ok (g', result)) (happlied : result.applied = true)
    (hws : u.workspace cfg.py = .ok workspaceId) {entity : EntityUpsert}
    (hentity : entity ∈ u.entities) (hsame : u.IsUnambiguous cfg entity) :
    Agrees g' (workspaceId, entity.id) (contentOf cfg.py (u.adopt entity)) ↔
      Settles cfg u workspaceId now entity g := by
  have happlies := applies_of_applied returned happlied hws
  exact (happlies.entity hbitemporal hentity hsame).agrees_iff_settles hbitemporal hentity
    (run.attached hbitemporal)

end

/-! ### A service that both write -/

/-- A service that only the pipeline writes. -/
theorem agrees_service : ∃ g result,
    upsertGraph .sample (sourceCall [service "api"] (some 1)) 1 {} = .ok (g, result) ∧
      Agrees g (7, 1) (contentOf .sample (service "api")) := by
  obtain ⟨g, result, hg, happlied, -⟩ := exists_first_snapshot "api" none
  refine ⟨g, result, hg, (agrees_iff rfl .start hg happlied rfl List.mem_cons_self ?_).2 ?_⟩
  · intro entity hentity _
    obtain rfl := List.mem_singleton.1 hentity
    exact SameEntity.refl _ _
  · intro n hn
    cases hn

/-- The outbox writes the service. -/
def serviceDelivery (name : String) : Delivery where
  entity := { service name with version := some 1 }
  workspaceId := 7
  now := 1

/-- The graph with the service of the outbox. -/
def outboxGraph (name : String) : Graph :=
  upsertEntity GraphConfig.sample.toConfig (serviceDelivery name).entity 7 1 {}

/-- The pipeline renames the service that the outbox has written: the node keeps its name. -/
theorem outbox_node_kept : Mixed .sample (outboxGraph "api") ∧ ∃ g result,
      upsertGraph .sample (sourceCall [service "gateway"] none) 2 (outboxGraph "api") =
        .ok (g, result) ∧ result.applied = true ∧
      ¬ Agrees g (7, 1) (contentOf .sample (service "gateway")) := by
  refine ⟨.entity .start (serviceDelivery "api"), ?_⟩
  obtain ⟨g, result, hg, happlied, hmerged⟩ := exists_serviceCall "gateway" none none 2
    (outboxGraph "api") rfl (fun s hs => by cases hs)
  refine ⟨g, result, hg, happlied, ?_⟩
  rintro ⟨⟨n, hn, hcontent⟩, -⟩
  -- the node has no `created_at`
  have hcreated : (casNode GraphConfig.sample.toConfig (serviceDelivery "api").entity 1 1
      {}).createdAt = none := rfl
  have hnode := hmerged.get?_of_same (n := casNode GraphConfig.sample.toConfig
    (serviceDelivery "api").entity 1 1 {}) rfl (by simp [stateChanged, hcreated])
  obtain rfl := Option.some.inj (hnode.symm.trans hn)
  have hname := congrArg (Option.map EntityContent.name) hcontent
  revert hname
  decide

end Omniscience.Neo4j
