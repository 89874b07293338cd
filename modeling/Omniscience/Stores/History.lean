import Omniscience.Lib.Window
import Omniscience.Stores.UpsertGraph

/-!
# The history of an entity

In bitemporal mode the node of an entity holds a chain of states, the last of which is meant to be
open.  A state is opened by the entity statement, and closed by it or by a snapshot without the
entity; both look for a state that is open *together with* the relationship that holds it.  The
second phase of a snapshot closes the relationships of all entities of the source, those of the
batch among them, and leaves their states open: such a state is never closed again.

This file describes what each stage of `upsertGraph` does to one entity: its node and its states.
-/

namespace Omniscience.Neo4j

open Outbox Dict
open List hiding contains

/-! ### The states of an entity -/

/-- The states of an entity, oldest first. -/
def statesOf (g : Graph) (key : NodeKey) : List EntityState := g.states.filter fun s => s.key = key

/-- The states of an entity that have no end. -/
def openStates (g : Graph) (key : NodeKey) : List EntityState :=
  (statesOf g key).filter fun s => s.validTo.isNone

/-- The validity window of a state. -/
def EntityState.window (s : EntityState) : Window ℕ := ⟨s.validFrom, s.validTo⟩

theorem key_of_mem_statesOf {g : Graph} {key : NodeKey} {s : EntityState}
    (h : s ∈ statesOf g key) : s.key = key := by
  simpa using (mem_filter.1 h).2

theorem filter_key_map {f : EntityState → EntityState} (hf : ∀ s, (f s).key = s.key)
    (states : List EntityState) (key : NodeKey) :
    (states.map f).filter (fun s => decide (s.key = key)) =
      (states.filter fun s => decide (s.key = key)).map f := by
  rw [filter_map]
  refine congrArg (List.map f) (filter_congr fun s _ => ?_)
  simp [hf]

theorem filter_isNone_map {f : EntityState → EntityState}
    (hf : ∀ s, (f s).validTo = s.validTo) (states : List EntityState) :
    (states.map f).filter (fun s => s.validTo.isNone) =
      (states.filter fun s => s.validTo.isNone).map f := by
  rw [filter_map]
  refine congrArg (List.map f) (filter_congr fun s _ => ?_)
  simp [hf]

/-! ### A snapshot and one entity -/

/-- The first phase of a snapshot and a state. -/
def endDateState (now : ℕ) (isGone : Bool) (s : EntityState) : EntityState :=
  if isGone && s.isOpen then s.close now else s

/-- The second phase and a state. -/
def unlinkState (workspaceId : Uuid) (now : ℕ) (isOfSource : Bool) (s : EntityState) :
    EntityState :=
  if isOfSource && s.link.any (fun h => h.workspaceId = some workspaceId ∧ h.validTo = none) then
    s.closeLink now
  else s

theorem validTo_unlinkState (w : Uuid) (now : ℕ) (isOfSource : Bool) (s : EntityState) :
    (unlinkState w now isOfSource s).validTo = s.validTo := by
  unfold unlinkState
  split
  · rfl
  · rfl

theorem content_unlinkState (w : Uuid) (now : ℕ) (isOfSource : Bool) (s : EntityState) :
    (unlinkState w now isOfSource s).content = s.content := by
  unfold unlinkState
  split
  · rfl
  · rfl

theorem isSome_link_unlinkState (w : Uuid) (now : ℕ) (isOfSource : Bool)
    (s : EntityState) : (unlinkState w now isOfSource s).link.isSome = s.link.isSome := by
  unfold unlinkState
  split
  · simp [EntityState.closeLink]
  · rfl

theorem isOpen_unlinkState {w : Uuid} {now : ℕ} {s : EntityState}
    (hlink : ∃ h, s.link = some h ∧ h.workspaceId = some w) (isOfSource : Bool) :
    (unlinkState w now isOfSource s).isOpen = true ↔
      s.isOpen = true ∧ isOfSource = false := by
  obtain ⟨h, hl, hws⟩ := hlink
  cases isOfSource with
  | false => simp [unlinkState]
  | true =>
    cases hto : h.validTo with
    | none => simp [unlinkState, hl, hws, hto, EntityState.isOpen, EntityState.closeLink]
    | some e => simp [unlinkState, hl, hws, hto, EntityState.isOpen]

section

variable {g : Graph} {workspaceId w : Uuid} {sourceId : String} {batchEntityIds : List Uuid}
  {now : ℕ}

theorem get?_endDateEntities (key : NodeKey) :
    (endDateEntities w sourceId batchEntityIds now g).nodes.get? key =
      (g.nodes.get? key).map fun n =>
        if g.isGone w sourceId batchEntityIds key then
          { n with validTo := some now, updatedAt := some now }
        else n :=
  get?_map _ _ _

theorem isOfSource_endDateEntities (key : NodeKey) :
    (endDateEntities w sourceId batchEntityIds now g).isOfSource w sourceId
      key = g.isOfSource w sourceId key := by
  unfold Graph.isOfSource
  rw [get?_endDateEntities]
  cases g.nodes.get? key with
  | none => rfl
  | some n =>
    rw [Option.map_some, Option.bind_some, Option.bind_some]
    split
    · rfl
    · rfl

theorem statesOf_endDateEntities (key : NodeKey) :
    statesOf (endDateEntities w sourceId batchEntityIds now g) key =
      (statesOf g key).map
        (endDateState now (g.isGone w sourceId batchEntityIds key)) := by
  unfold statesOf endDateEntities
  rw [filter_key_map]
  · refine map_congr_left fun s hs => ?_
    rw [key_of_mem_statesOf hs]
    rfl
  · intro s
    split
    · rfl
    · rfl

theorem statesOf_endDateRels (w : Uuid) (sourceId : String) (now : ℕ) (g : Graph) (key : NodeKey) :
    statesOf (endDateRels w sourceId now g) key =
      (statesOf g key).map
        (unlinkState w now (g.isOfSource w sourceId key)) := by
  unfold statesOf endDateRels
  rw [filter_key_map]
  · refine map_congr_left fun s hs => ?_
    unfold Graph.isUnlinked
    rw [key_of_mem_statesOf hs]
    rfl
  · intro s
    split
    · rfl
    · rfl

end

theorem get?_retire {cfg : GraphConfig} (hbitemporal : cfg.bitemporal = true) (u : GraphUpsert)
    (w : Uuid) (g : Graph) (key : NodeKey) : (retire cfg u w g).1.nodes.get? key =
      match u.snapshotAt with
      | some snapshotAt => (g.nodes.get? key).map fun n =>
          if g.isGone w u.sourceId.str (u.entities.map EntityUpsert.id) key then
            { n with validTo := some snapshotAt, updatedAt := some snapshotAt }
          else n
      | none => g.nodes.get? key := by
  rw [retire, hbitemporal]
  cases u.snapshotAt with
  | none => rfl
  | some snapshotAt => exact get?_endDateEntities key

theorem statesOf_retire {cfg : GraphConfig} (hbitemporal : cfg.bitemporal = true) (u : GraphUpsert)
    (w : Uuid) (g : Graph) (key : NodeKey) :
    statesOf (retire cfg u w g).1 key =
      match u.snapshotAt with
      | some snapshotAt => (statesOf g key).map fun s =>
          unlinkState w snapshotAt (g.isOfSource w u.sourceId.str key)
            (endDateState snapshotAt
              (g.isGone w u.sourceId.str (u.entities.map EntityUpsert.id) key) s)
      | none => statesOf g key := by
  rw [retire, hbitemporal]
  cases u.snapshotAt with
  | none => rfl
  | some snapshotAt =>
    have hrels := statesOf_endDateRels w u.sourceId.str snapshotAt
      (endDateEntities w u.sourceId.str (u.entities.map EntityUpsert.id) snapshotAt g) key
    rw [isOfSource_endDateEntities, statesOf_endDateEntities, map_map] at hrels
    exact hrels

/-! ### The entity statement and one entity -/

section

variable {cfg : Config} {entity : EntityUpsert} {workspaceId w : Uuid} {now : ℕ} {g g' : Graph}
  {key : NodeKey}

/-- The node with the content of the entity, valid from now on. -/
def Node.renew (n : Node) (cfg : Config) (entity : EntityUpsert) (now : ℕ) : Node :=
  (n.withContent (contentOf cfg.py entity) now).stamp (cfg.entityFingerprint entity) now

/-- The states of an entity that are open with their relationship end. -/
def closeOpen (now : ℕ) (s : EntityState) : EntityState := if s.isOpen then s.close now else s

@[simp] theorem key_closeOpen (now : ℕ) (s : EntityState) : (closeOpen now s).key = s.key := by
  unfold closeOpen
  split
  · rfl
  · rfl

/-- The entity has a state. -/
def isHeld (g : Graph) (key : NodeKey) : Bool := (statesOf g key).any fun s => s.link.isSome

variable (cfg entity workspaceId now g) in
/-- The node of the entity after its statement. -/
def mergedNode : Node :=
  let n := foundNode cfg entity workspaceId now g
  if stateChanged cfg entity now n then n.renew cfg entity now else n

variable (cfg entity workspaceId now g) in
/-- Its states after it: they are closed, if the fingerprint differs, and one is added, if it does
or there is none. -/
def mergedStates : List EntityState :=
  let changed := stateChanged cfg entity now (foundNode cfg entity workspaceId now g)
  (if changed then (statesOf g (workspaceId, entity.id)).map (closeOpen now)
    else statesOf g (workspaceId, entity.id)) ++
  if changed || !isHeld g (workspaceId, entity.id) then
    [newState cfg entity workspaceId now] else []

theorem mergeEntityBitemporal_eq (h : mergeEntityBitemporal cfg entity w now g = .ok g') :
    let n := foundNode cfg entity w now g
    let changed := stateChanged cfg entity now n
    g' = { g with
      nodes := g.nodes.set (w, entity.id) (if changed then n.renew cfg entity now else n)
      states :=
        (if changed then
          g.states.map fun s => if s.key = (w, entity.id) then closeOpen now s else s
        else g.states) ++
        if changed || !isHeld g (w, entity.id) then
          [newState cfg entity w now] else [] } := by
  have hheld : (g.states.any fun s => s.key = (w, entity.id) ∧ s.link.isSome) =
      isHeld g (w, entity.id) := by
    rw [isHeld, statesOf, any_filter]
    simp
  have hclose : (fun s : EntityState =>
      if s.key = (w, entity.id) ∧ s.isOpen then s.close now else s) =
      fun s => if s.key = (w, entity.id) then closeOpen now s else s := by
    funext s
    rw [ite_and]
    rfl
  rw [mergeEntityBitemporal, hheld, hclose] at h
  dsimp only
  split at h
  · rename_i hneed
    rw [Bool.not_eq_true'] at hneed
    cases h
    simp only [hneed, Bool.false_eq_true, ↓reduceIte, append_nil]
    rfl
  · rename_i hneed
    rw [Bool.not_eq_true', Bool.not_eq_false] at hneed
    split at h
    · cases h
    · cases h
      simp only [hneed, ↓reduceIte]
      rfl

/-- **The entity statement and its entity**: the states after it. -/
theorem statesOf_mergeEntityBitemporal (h : mergeEntityBitemporal cfg entity w now g = .ok g') :
    statesOf g' (w, entity.id) = mergedStates cfg entity w now g := by
  rw [mergeEntityBitemporal_eq h, statesOf, mergedStates]
  dsimp only
  rw [filter_append]
  congr 1
  · split
    · rw [filter_key_map]
      · refine map_congr_left fun s hs => ?_
        rw [if_pos (by simpa using (mem_filter.1 hs).2)]
      · intro s
        split
        · exact key_closeOpen now s
        · rfl
    · rfl
  · split
    · simp [newState]
    · rfl

theorem statesOf_mergeEntityBitemporal_ne (h : mergeEntityBitemporal cfg entity w now g = .ok g')
    (hkey : key ≠ (w, entity.id)) : statesOf g' key = statesOf g key := by
  rw [mergeEntityBitemporal_eq h, statesOf]
  dsimp only
  have hnew : (if (stateChanged cfg entity now (foundNode cfg entity w now g) ||
      !isHeld g (w, entity.id)) = true then [newState cfg entity w now]
      else []).filter (fun s => decide (s.key = key)) = [] := by
    split
    · simp [newState, Ne.symm hkey]
    · rfl
  rw [filter_append, hnew, append_nil]
  split
  · rw [filter_key_map]
    · rw [statesOf]
      conv_rhs => rw [← map_id (g.states.filter _)]
      refine map_congr_left fun s hs => ?_
      have hs : s.key = key := by simpa using (mem_filter.1 hs).2
      rw [if_neg (by rw [hs]; exact hkey)]
      rfl
    · intro s
      split
      · exact key_closeOpen now s
      · rfl
  · rfl

theorem get?_mergeEntityBitemporal (h : mergeEntityBitemporal cfg entity w now g = .ok g') :
    g'.nodes.get? (w, entity.id) =
      some (mergedNode cfg entity w now g) := by
  rw [mergeEntityBitemporal_eq h]
  exact get?_set_self _ _ _

/-- In `g'` the entity is as its statement, executed in `g`, leaves it. -/
structure IsMerged (cfg : Config) (entity : EntityUpsert) (workspaceId : Uuid) (now : ℕ)
    (g g' : Graph) : Prop where
  node : g'.nodes.get? (workspaceId, entity.id) = some (mergedNode cfg entity workspaceId now g)
  states : statesOf g' (workspaceId, entity.id) = mergedStates cfg entity workspaceId now g

theorem isMerged_mergeEntityBitemporal (h : mergeEntityBitemporal cfg entity w now g = .ok g') :
    IsMerged cfg entity w now g g' :=
  ⟨get?_mergeEntityBitemporal h, statesOf_mergeEntityBitemporal h⟩

theorem get?_mergeEntityBitemporal_ne (h : mergeEntityBitemporal cfg entity w now g = .ok g')
    (hkey : key ≠ (w, entity.id)) : g'.nodes.get? key = g.nodes.get? key := by
  rw [mergeEntityBitemporal_eq h]
  exact get?_set_ne _ _ hkey

theorem exists_mergeEntityBitemporal (cfg : Config) (entity : EntityUpsert) (w : Uuid)
    (h : ∀ s ∈ statesOf g (w, entity.id), s.validFrom ≠ now) :
    ∃ g', mergeEntityBitemporal cfg entity w now g = .ok g' := by
  have hany : (g.states.any fun s => s.key = (w, entity.id) ∧ s.validFrom = now) =
      false := by
    rw [any_eq_false]
    intro s hs hclash
    rw [decide_eq_true_eq] at hclash
    exact h s (mem_filter.2 ⟨hs, decide_eq_true hclash.1⟩) hclash.2
  rw [mergeEntityBitemporal, hany]
  split
  · exact ⟨_, rfl⟩
  · exact ⟨_, rfl⟩

theorem merged_congr (cfg : Config) (entity : EntityUpsert) (now : ℕ)
    (hnode : g'.nodes.get? (w, entity.id) = g.nodes.get? (w, entity.id))
    (hstates : statesOf g' (w, entity.id) = statesOf g (w, entity.id)) :
    mergedNode cfg entity w now g' = mergedNode cfg entity w now g ∧
      mergedStates cfg entity w now g' = mergedStates cfg entity w now g := by
  have hfound : foundNode cfg entity w now g' = foundNode cfg entity w now g := by
    unfold foundNode
    rw [hnode]
  have hheld : isHeld g' (w, entity.id) = isHeld g (w, entity.id) := by
    rw [isHeld, isHeld, hstates]
  unfold mergedNode mergedStates
  rw [hfound, hheld, hstates]
  exact ⟨rfl, rfl⟩

/-- The two upserts are of the same entity and say the same. -/
structure SameEntity (cfg : Config) (entity entity' : EntityUpsert) : Prop where
  id : entity'.id = entity.id
  content : contentOf cfg.py entity' = contentOf cfg.py entity
  fingerprint : cfg.entityFingerprint entity' = cfg.entityFingerprint entity

theorem SameEntity.refl (cfg : Config) (entity : EntityUpsert) : SameEntity cfg entity entity :=
  ⟨rfl, rfl, rfl⟩

theorem SameEntity.merged_eq {entity' : EntityUpsert} (h : SameEntity cfg entity entity') :
    mergedNode cfg entity' w now g = mergedNode cfg entity w now g ∧
      mergedStates cfg entity' w now g = mergedStates cfg entity w now g := by
  unfold mergedNode mergedStates foundNode Node.renew newState stateChanged
  simp only [h.id, h.content, h.fingerprint, and_self]

theorem stateChanged_mergedNode {entity' : EntityUpsert} {now' : ℕ}
    (h : SameEntity cfg entity entity')
    (hnow : now' = now ∨ ∀ n, g.nodes.get? (w, entity.id) = some n →
      n.createdAt ≠ some now) :
    stateChanged cfg entity' now' (mergedNode cfg entity w now g) = false := by
  unfold mergedNode
  dsimp only
  split
  · simp [stateChanged, Node.renew, Node.stamp, h.fingerprint]
  · rename_i hnot
    unfold foundNode at hnot ⊢
    cases hn : g.nodes.get? (w, entity.id) with
    | none => simp [stateChanged, Node.stamp, h.fingerprint]
    | some n =>
      rw [hn] at hnot
      dsimp only at hnot ⊢
      simp only [stateChanged, h.fingerprint, decide_eq_true_eq, not_and, not_not,
        decide_eq_false_iff_not] at hnot ⊢
      intro hfingerprint hcreated
      have hnow' := hnot hfingerprint hcreated
      obtain rfl | hold := hnow
      · exact hnow'
      · exact absurd hnow' (hold n hn)

theorem any_link_mergedStates :
    (mergedStates cfg entity w now g).any (fun s => s.link.isSome) = true := by
  unfold mergedStates
  rw [any_append, Bool.or_eq_true]
  cases hchanged : stateChanged cfg entity now (foundNode cfg entity w now g) with
  | true => exact .inr rfl
  | false =>
    cases hheld : isHeld g (w, entity.id) with
    | true => exact .inl hheld
    | false => exact .inr rfl

/-- **The second write of the same entity does nothing.** -/
theorem merged_again {entity' : EntityUpsert} {now' : ℕ} (h : SameEntity cfg entity entity')
    (hnow : now' = now ∨ ∀ n, g.nodes.get? (w, entity.id) = some n →
      n.createdAt ≠ some now)
    (hnode : g'.nodes.get? (w, entity.id) =
      some (mergedNode cfg entity w now g))
    (hheld : isHeld g' (w, entity.id) = true) :
    mergedNode cfg entity' w now' g' = mergedNode cfg entity w now g ∧
      mergedStates cfg entity' w now' g' = statesOf g' (w, entity.id) := by
  have hfound : foundNode cfg entity' w now' g' = mergedNode cfg entity w now g := by
    unfold foundNode
    rw [h.id, hnode]
  have hchanged := stateChanged_mergedNode h hnow
  rw [mergedNode, mergedStates, hfound, h.id, hheld, hchanged]
  simp

section

variable {c c' : Graph}

theorem IsMerged.held (h : IsMerged cfg entity w now g c) : isHeld c (w, entity.id) = true := by
  rw [isHeld, h.states]
  exact any_link_mergedStates

theorem IsMerged.of_before (h : IsMerged cfg entity w now c g')
    (hnode : c.nodes.get? (w, entity.id) = g.nodes.get? (w, entity.id))
    (hstates : statesOf c (w, entity.id) = statesOf g (w, entity.id)) :
    IsMerged cfg entity w now g g' := by
  obtain ⟨hn, hs⟩ := merged_congr cfg entity now hnode hstates
  exact ⟨hn ▸ h.node, hs ▸ h.states⟩

theorem IsMerged.of_after (h : IsMerged cfg entity w now g c)
    (hnode : c'.nodes.get? (w, entity.id) = c.nodes.get? (w, entity.id))
    (hstates : statesOf c' (w, entity.id) = statesOf c (w, entity.id)) :
    IsMerged cfg entity w now g c' :=
  ⟨hnode.trans h.node, hstates.trans h.states⟩

theorem IsMerged.of_same {entity' : EntityUpsert} (hsame : SameEntity cfg entity entity')
    (h : IsMerged cfg entity' w now g c) : IsMerged cfg entity w now g c := by
  obtain ⟨hnode, hstates⟩ := h
  rw [hsame.id] at hnode hstates
  rw [hsame.merged_eq.1] at hnode
  rw [hsame.merged_eq.2] at hstates
  exact ⟨hnode, hstates⟩

theorem IsMerged.again (h : IsMerged cfg entity w now g c)
    (hagain : IsMerged cfg entity w now c c') :
    IsMerged cfg entity w now g c' := by
  obtain ⟨hn, hs⟩ := merged_again (SameEntity.refl cfg entity) (.inl rfl) h.node h.held
  refine ⟨?_, ?_⟩
  · rw [hagain.node, hn]
  · rw [hagain.states, hs, h.states]

end

end

/-! ### The edge statements and one entity -/

section

variable {cfg : GraphConfig} {u : GraphUpsert} {workspaceId w : Uuid} {now : ℕ} {g g' : Graph}
  {edge : BatchEdge}

/-- The node that an edge by name may create. -/
def stub (name : String) (now : ℕ) : Node :=
  { name := some name, isStub := some true, createdAt := some now }

theorem get?_writeBatchEdge (h : writeBatchEdge cfg u w now g edge = .ok g') (key : NodeKey) :
    g'.nodes.get? key = g.nodes.get? key ∨
      (g.nodes.get? key = none ∧ ∃ name, g'.nodes.get? key = some (stub name now)) := by
  obtain ⟨-, rfl⟩ | ⟨params, -, rfl⟩ | ⟨source, name, -, -, -, rfl⟩ := writeBatchEdge_cases h
  · exact .inl rfl
  · rw [nodes_writeEdge]
    exact .inl rfl
  · unfold upsertEdgeByName
    split
    · exact .inl rfl
    · dsimp only
      rw [setDefault]
      split
      · exact .inl rfl
      · rename_i hnot
        by_cases hkey : key = (w, (findByName w name g).getD (cfg.stubEntityId w name))
        · subst hkey
          rw [contains, Option.isSome_iff_ne_none, not_not] at hnot
          exact .inr ⟨hnot, name, get?_set_self _ _ _⟩
        · exact .inl (get?_set_ne _ _ hkey)

theorem IsMerged.of_edge {config : Config} {entity : EntityUpsert} {g₁ : Graph}
    (h : IsMerged config entity w now g₁ g) (hstep : writeBatchEdge cfg u w now g edge = .ok g') :
    IsMerged config entity w now g₁ g' := by
  refine h.of_after ?_ ?_
  · obtain hkept | ⟨hnone, -⟩ := get?_writeBatchEdge hstep (w, entity.id)
    · exact hkept
    · rw [h.node] at hnone
      cases hnone
  · rw [statesOf, (frame_writeBatchEdge hstep).1]
    rfl

end

end Omniscience.Neo4j
