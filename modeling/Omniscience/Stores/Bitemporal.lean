import Omniscience.Stores.History

/-!
# At most one open state

In bitemporal mode the states of an entity are meant to be a history: their validity windows do
not overlap, and only the last one is open.  A call keeps this if each state that it supersedes
still hangs on an open relationship when the entity statement looks for it (`Safe`).  A snapshot of
the own source closes that relationship first, in the same call or in an earlier one, and then the
superseded state stays open beside the new one.
-/

namespace Omniscience.Neo4j

open Outbox List

/-! ### An entity and its states -/

/-- The entity of the batch, taken into the source of the call. -/
def GraphUpsert.adopt (u : GraphUpsert) (entity : EntityUpsert) : EntityUpsert :=
  { entity with sourceId := u.sourceId }

@[simp] theorem id_adopt (u : GraphUpsert) (entity : EntityUpsert) :
    (u.adopt entity).id = entity.id :=
  rfl

theorem writeEntity_bitemporal {cfg : GraphConfig} (h : cfg.bitemporal = true) (u : GraphUpsert)
    (w : Uuid) (now : ℕ) (g : Graph) (entity : EntityUpsert) :
    writeEntity cfg u w now g entity =
      mergeEntityBitemporal cfg.toConfig (u.adopt entity) w now g := by
  rw [writeEntity, if_pos h]
  rfl

/-- The node and the states of an entity at some time: every state is held by the node, which was
not created later. -/
structure Anchor (clock : ℕ) (key : NodeKey) (node : Option Node) (states : List EntityState) :
    Prop where
  held : node = none → states = []
  created : ∀ n, node = some n → ∃ t, n.createdAt = some t ∧ t ≤ clock
  linked : ∀ s ∈ states, ∃ h, s.link = some h ∧ h.workspaceId = some key.1

/-- Every entity of the graph has its states at its node. -/
def Anchored (clock : ℕ) (g : Graph) : Prop :=
  ∀ key, Anchor clock key (g.nodes.get? key) (statesOf g key)

section

variable {clock now : ℕ} {key : NodeKey} {node : Option Node} {states : List EntityState}
  {s : EntityState}

theorem Anchor.mono (h : Anchor clock key node states) (hle : clock ≤ now) :
    Anchor now key node states := by
  refine ⟨h.held, fun n hn => ?_, h.linked⟩
  obtain ⟨t, ht, hclock⟩ := h.created n hn
  exact ⟨t, ht, hclock.trans hle⟩

theorem Anchor.map (h : Anchor clock key node states) {f : EntityState → EntityState}
    (hlink : ∀ s h, s.link = some h →
      ∃ h', (f s).link = some h' ∧ h'.workspaceId = h.workspaceId) :
    Anchor clock key node (states.map f) := by
  refine ⟨fun hnone => by rw [h.held hnone, map_nil], h.created, fun s hs => ?_⟩
  obtain ⟨r, hr, rfl⟩ := mem_map.1 hs
  obtain ⟨link, hl, hws⟩ := h.linked r hr
  obtain ⟨link', hl', hws'⟩ := hlink r link hl
  exact ⟨link', hl', hws'.trans hws⟩

theorem Anchor.withNode (h : Anchor clock key node states) {n : Node} {t : ℕ}
    (ht : n.createdAt = some t) (hle : t ≤ clock) : Anchor clock key (some n) states := by
  refine ⟨fun hnone => (by cases hnone), fun n' hn' => ?_, h.linked⟩
  cases hn'
  exact ⟨t, ht, hle⟩

theorem Anchor.concat {n : Node} (h : Anchor clock key (some n) states)
    (hlink : ∃ h, s.link = some h ∧ h.workspaceId = some key.1) :
    Anchor clock key (some n) (states ++ [s]) := by
  refine ⟨fun hnone => (by cases hnone), h.created, fun r hr => ?_⟩
  obtain hr | hr := mem_append.1 hr
  · exact h.linked r hr
  · obtain rfl := mem_singleton.1 hr
    exact hlink

theorem isHeld_iff_of_linked {g : Graph} (h : ∀ s ∈ statesOf g key, s.link.isSome = true) :
    isHeld g key = true ↔ statesOf g key ≠ [] := by
  rw [isHeld, any_eq_true]
  constructor
  · rintro ⟨s, hs, -⟩
    exact ne_nil_of_mem hs
  · intro hne
    obtain ⟨s, hs⟩ := exists_mem_of_ne_nil _ hne
    exact ⟨s, hs, h s hs⟩

theorem Anchor.isHeld_iff {g : Graph} (h : Anchor clock key node (statesOf g key)) :
    isHeld g key = true ↔ statesOf g key ≠ [] := by
  refine isHeld_iff_of_linked fun s hs => ?_
  obtain ⟨link, hl, -⟩ := h.linked s hs
  rw [hl]
  rfl

/-! ### States that end -/

theorem validTo_of_isOpen (h : s.isOpen = true) : s.validTo = none := by
  rw [EntityState.isOpen, Bool.and_eq_true] at h
  exact Option.isNone_iff_eq_none.1 h.1

/-- The update closes some of the states that are open, and some of the relationships. -/
structure Closes (f : EntityState → EntityState) : Prop where
  link : ∀ s h, s.link = some h → ∃ h', (f s).link = some h' ∧ h'.workspaceId = h.workspaceId
  validFrom : ∀ s, (f s).validFrom = s.validFrom
  validTo : ∀ s, (f s).validTo = s.validTo ∨ s.validTo = none

theorem closes_close (t : ℕ) {p : EntityState → Bool} (hp : ∀ s, p s = true → s.isOpen = true) :
    Closes fun s => if p s then s.close t else s := by
  constructor
  · intro s h hl
    split
    · exact ⟨{ h with validTo := some t }, by simp [EntityState.close, hl], rfl⟩
    · exact ⟨h, hl, rfl⟩
  · intro s
    split
    · rfl
    · rfl
  · intro s
    split
    · rename_i hs
      exact .inr (validTo_of_isOpen (hp s hs))
    · exact .inl rfl

theorem closes_closeOpen (now : ℕ) : Closes (closeOpen now) :=
  closes_close now fun _ h => h

theorem closes_endDateState (now : ℕ) (isGone : Bool) : Closes (endDateState now isGone) :=
  closes_close now fun _ h => (Bool.and_eq_true _ _ ▸ h).2

theorem closes_unlinkState (w : Uuid) (now : ℕ) (isOfSource : Bool) :
    Closes (unlinkState w now isOfSource) := by
  constructor
  · intro s h hl
    unfold unlinkState
    split
    · exact ⟨{ h with validTo := some now }, by simp [EntityState.closeLink, hl], rfl⟩
    · exact ⟨h, hl, rfl⟩
  · intro s
    unfold unlinkState
    split
    · rfl
    · rfl
  · intro s
    exact .inl (validTo_unlinkState w now isOfSource s)

theorem Closes.comp {f f' : EntityState → EntityState} (h' : Closes f') (h : Closes f) :
    Closes fun s => f' (f s) := by
  constructor
  · intro s link hl
    obtain ⟨link₁, hl₁, hws₁⟩ := h.link s link hl
    obtain ⟨link₂, hl₂, hws₂⟩ := h'.link (f s) link₁ hl₁
    exact ⟨link₂, hl₂, hws₂.trans hws₁⟩
  · intro s
    exact (h'.validFrom (f s)).trans (h.validFrom s)
  · intro s
    obtain hto | hto := h.validTo s
    · rw [← hto]
      exact h'.validTo (f s)
    · exact .inr hto

theorem Closes.pairwise_apart {f : EntityState → EntityState} (hf : Closes f)
    (h : states.Pairwise fun s t => s.window.Apart t.window) :
    (states.map f).Pairwise fun s t => s.window.Apart t.window := by
  refine Window.pairwise_apart_map h fun s _ t hcovers => ?_
  refine ⟨(hf.validFrom s).symm.trans_le hcovers.1, fun e he => ?_⟩
  obtain hsame | hnone := hf.validTo s
  · exact hcovers.2 e (hsame.trans he)
  · have he : s.validTo = some e := he
    rw [hnone] at he
    cases he

/-- A state can start now: of the others, each has ended or has no end and an open relationship. -/
def Closable (now : ℕ) (states : List EntityState) : Prop :=
  ∀ s ∈ states, (∀ e, s.validTo = some e → e ≤ now) ∧ (s.validTo = none → s.isOpen = true)

theorem closable_concat (hclosed : ∀ s ∈ states, ∃ e, s.validTo = some e ∧ e ≤ now)
    (hto : s.validTo = none) (hopen : s.isOpen = true) : Closable now (states ++ [s]) := by
  intro r hr
  obtain hr | hr := mem_append.1 hr
  · obtain ⟨e, he, hend⟩ := hclosed r hr
    rw [he]
    exact ⟨fun e' he' => Option.some.inj he' ▸ hend, fun hnone => (by cases hnone)⟩
  · obtain rfl := mem_singleton.1 hr
    rw [hto]
    exact ⟨fun e he => (by cases he), fun _ => hopen⟩

theorem closed_of_closable (h : Closable now states) (hs : s ∈ states.map (closeOpen now)) :
    ∃ e, s.validTo = some e ∧ e ≤ now := by
  obtain ⟨r, hr, rfl⟩ := mem_map.1 hs
  obtain ⟨hended, hopen⟩ := h r hr
  unfold closeOpen
  split
  · exact ⟨now, rfl, le_rfl⟩
  · rename_i hnot
    cases hto : r.validTo with
    | none => exact absurd (hopen hto) hnot
    | some e => exact ⟨e, rfl, hended e hto⟩

end

/-! ### The entity statement -/

section

variable {cfg : Config} {entity : EntityUpsert} {workspaceId w : Uuid} {now : ℕ} {g g' : Graph}

theorem get?_of_stateChanged
    (h : stateChanged cfg entity now (foundNode cfg entity w now g) = true) :
    g.nodes.get? (w, entity.id) = some (foundNode cfg entity w now g) := by
  unfold foundNode at h ⊢
  cases hn : g.nodes.get? (w, entity.id) with
  | some n => rfl
  | none =>
    rw [hn] at h
    simp [stateChanged] at h

theorem createdAt_foundNode (cfg : Config) (entity : EntityUpsert) (w : Uuid) (h : Anchored now g) :
    ∃ t, (foundNode cfg entity w now g).createdAt = some t ∧ t ≤ now := by
  unfold foundNode
  cases hn : g.nodes.get? (w, entity.id) with
  | some n => exact (h _).created n hn
  | none => exact ⟨now, rfl, le_rfl⟩

theorem isOpen_newState : (newState cfg entity w now).isOpen = true := rfl

theorem filter_isNone_mergedStates
    (hchanged : stateChanged cfg entity now (foundNode cfg entity w now g) = true) :
    (mergedStates cfg entity w now g).filter (fun s => s.validTo.isNone) =
      ((statesOf g (w, entity.id)).map (closeOpen now)).filter
        (fun s => s.validTo.isNone) ++ [newState cfg entity w now] := by
  rw [mergedStates, hchanged, Bool.true_or, if_pos rfl, if_pos rfl, filter_append]
  rfl

/-- **The entity statement keeps the states at their nodes.** -/
theorem Anchored.mergeEntityBitemporal (hanchored : Anchored now g)
    (h : mergeEntityBitemporal cfg entity w now g = .ok g') : Anchored now g' := by
  intro key
  by_cases hkey : key = (w, entity.id)
  · subst hkey
    obtain ⟨t, ht, hle⟩ := createdAt_foundNode cfg entity w hanchored
    have hcreated : (mergedNode cfg entity w now g).createdAt = some t := by
      unfold mergedNode
      dsimp only
      split
      · exact ht
      · exact ht
    rw [get?_mergeEntityBitemporal h, statesOf_mergeEntityBitemporal h, mergedStates]
    have hanchor := (hanchored (w, entity.id)).withNode hcreated hle
    -- what is left of the old states, then the new one
    have hold : Anchor now (w, entity.id) (some (mergedNode cfg entity w now g))
        (if stateChanged cfg entity now (foundNode cfg entity w now g) then
          (statesOf g (w, entity.id)).map (closeOpen now)
        else statesOf g (w, entity.id)) := by
      split
      · exact hanchor.map (closes_closeOpen now).link
      · exact hanchor
    by_cases hnew : (stateChanged cfg entity now (foundNode cfg entity w now g) ||
        !isHeld g (w, entity.id)) = true
    · rw [if_pos hnew]
      exact hold.concat ⟨_, rfl, rfl⟩
    · rw [if_neg hnew, append_nil]
      exact hold
  · rw [get?_mergeEntityBitemporal_ne h hkey, statesOf_mergeEntityBitemporal_ne h hkey]
    exact hanchored key

/-- **The entity statement keeps the windows apart**, if what it supersedes can be closed; either
nothing happens to the entity, or all its states can be closed afterwards. -/
theorem pairwise_apart_mergedStates (entity : EntityUpsert) (hanchored : Anchored now g)
    (hapart : (statesOf g (w, entity.id)).Pairwise fun s t => s.window.Apart t.window)
    (hclosable : stateChanged cfg entity now (foundNode cfg entity w now g) = true →
      Closable now (statesOf g (w, entity.id))) :
    (mergedStates cfg entity w now g).Pairwise (fun s t => s.window.Apart t.window) ∧
      (Closable now (mergedStates cfg entity w now g) ∨
        (g.nodes.get? (w, entity.id) = some (mergedNode cfg entity w now g) ∧
          mergedStates cfg entity w now g = statesOf g (w, entity.id))) := by
  have hanchor := hanchored (w, entity.id)
  -- a state that follows states which have all ended
  have hconcat : ∀ {states : List EntityState},
      states.Pairwise (fun s t => s.window.Apart t.window) →
      (∀ s ∈ states, ∃ e, s.validTo = some e ∧ e ≤ now) →
      (states ++ [newState cfg entity w now]).Pairwise (fun s t => s.window.Apart t.window) ∧
        Closable now (states ++ [newState cfg entity w now]) := by
    intro states hstates hclosed
    exact ⟨Window.pairwise_apart_concat hstates hclosed,
      closable_concat hclosed rfl isOpen_newState⟩
  unfold mergedStates
  cases hchanged : stateChanged cfg entity now (foundNode cfg entity w now g) with
  | true =>
    have hclosed := fun s hs => closed_of_closable (hclosable hchanged) (s := s) hs
    obtain ⟨hnew, hnew'⟩ := hconcat ((closes_closeOpen now).pairwise_apart hapart) hclosed
    simp only [↓reduceIte, Bool.true_or]
    exact ⟨hnew, .inl hnew'⟩
  | false =>
    simp only [Bool.false_eq_true, ↓reduceIte, Bool.false_or]
    cases hheld : isHeld g (w, entity.id) with
    | true =>
      -- there is a state, hence a node, and nothing happens
      simp only [Bool.not_true, Bool.false_eq_true, ↓reduceIte, append_nil]
      refine ⟨hapart, .inr ⟨?_, trivial⟩⟩
      rw [mergedNode, hchanged, if_neg Bool.false_ne_true, foundNode]
      cases hn : g.nodes.get? (w, entity.id) with
      | some n => rfl
      | none => exact absurd (hanchor.held hn) (hanchor.isHeld_iff.1 hheld)
    | false =>
      -- the first state
      have hnil : statesOf g (w, entity.id) = [] := by
        by_contra hne
        exact absurd (hanchor.isHeld_iff.2 hne) (by simp [hheld])
      obtain ⟨hnew, hnew'⟩ := hconcat hapart (by simp [hnil])
      simp only [Bool.not_false, ↓reduceIte]
      exact ⟨hnew, .inl hnew'⟩

end

/-! ### The other stages -/

section

variable {cfg : GraphConfig} {u : GraphUpsert} {workspaceId w : Uuid} {now : ℕ} {g g' : Graph}
  {result : GraphWriteResult}

@[simp] theorem statesOf_advance (u : GraphUpsert) (w : Uuid) (g : Graph)
    (key : NodeKey) : statesOf (u.advance w g) key = statesOf g key := by
  rw [statesOf, states_advance]
  rfl

theorem statesOf_writeBatchEdge {edge : BatchEdge}
    (h : writeBatchEdge cfg u w now g edge = .ok g') (key : NodeKey) :
    statesOf g' key = statesOf g key := by
  rw [statesOf, (frame_writeBatchEdge h).1]
  rfl

theorem statesOf_retire_closes (hbitemporal : cfg.bitemporal = true) (u : GraphUpsert)
    (w : Uuid) (g : Graph) (key : NodeKey) :
    ∃ f, Closes f ∧ statesOf (retire cfg u w g).1 key = (statesOf g key).map f := by
  rw [statesOf_retire hbitemporal]
  cases u.snapshotAt with
  | none =>
    refine ⟨id, ⟨fun s h hl => ⟨h, hl, rfl⟩, fun s => rfl, fun s => .inl rfl⟩, ?_⟩
    exact (map_id _).symm
  | some snapshotAt =>
    exact ⟨_, (closes_unlinkState _ _ _).comp (closes_endDateState _ _), rfl⟩

theorem Anchored.retire (hanchored : Anchored now g) (u : GraphUpsert) (w : Uuid)
    (hbitemporal : cfg.bitemporal = true) :
    Anchored now (retire cfg u w g).1 := by
  intro key
  have hanchor := hanchored key
  obtain ⟨f, hf, hstates⟩ := statesOf_retire_closes hbitemporal u w g key
  have hended := hanchor.map hf.link
  rw [hstates, get?_retire hbitemporal]
  cases u.snapshotAt with
  | none => exact hended
  | some snapshotAt =>
    dsimp only
    cases hn : g.nodes.get? key with
    | none =>
      rw [hn] at hended
      exact hended
    | some n =>
      obtain ⟨t, ht, hle⟩ := hanchor.created n hn
      refine hended.withNode ?_ hle
      dsimp only
      split
      · exact ht
      · exact ht

theorem Anchored.writeBatchEdge (hanchored : Anchored now g) {edge : BatchEdge}
    (h : writeBatchEdge cfg u w now g edge = .ok g') : Anchored now g' := by
  intro key
  rw [statesOf_writeBatchEdge h]
  obtain hsame | ⟨-, name, hstub⟩ := get?_writeBatchEdge h key
  · rw [hsame]
    exact hanchored key
  · rw [hstub]
    exact (hanchored key).withNode rfl le_rfl

theorem Anchored.retire_advance (hanchored : Anchored now g) (u : GraphUpsert)
    (w : Uuid) (hbitemporal : cfg.bitemporal = true) :
    Anchored now (Neo4j.retire cfg u w (u.advance w g)).1 := by
  refine Anchored.retire (fun key => ?_) u w hbitemporal
  rw [nodes_advance, statesOf_advance]
  exact hanchored key

/-- **A call keeps the states at their nodes.** -/
theorem Anchored.upsertGraph (hbitemporal : cfg.bitemporal = true) (hanchored : Anchored now g)
    (h : upsertGraph cfg u now g = .ok (g', result)) : Anchored now g' := by
  obtain ⟨w, hws, ⟨-, -, rfl⟩ | ⟨hstale, -, merged, hentities, hedges⟩⟩ :=
    upsertGraph_cases h
  · exact hanchored
  · have hretired := hanchored.retire_advance u w hbitemporal
    have hmerged := Fold.foldlM_keeps hentities (Anchored now) hretired ?_
    · exact Fold.foldlM_keeps hedges (Anchored now) hmerged
        fun edge _ c c' hc hstep => hc.writeBatchEdge hstep
    · intro entity _ c c' hc hstep
      rw [writeEntity_bitemporal hbitemporal] at hstep
      exact hc.mergeEntityBitemporal hstep

/-- The call supersedes only states that it can close: if an entity of the batch has another
fingerprint than its node, each of its states has ended by now, or has no end and hangs on an open
relationship while the call is no snapshot of the source of the node. -/
def Safe (cfg : GraphConfig) (u : GraphUpsert) (now : ℕ) (g : Graph) : Prop :=
  ∀ workspaceId, u.workspace cfg.py = .ok workspaceId → u.isStaleIn workspaceId g = false →
    ∀ entity ∈ u.entities, ∀ n, g.nodes.get? (workspaceId, entity.id) = some n →
      stateChanged cfg.toConfig (u.adopt entity) now n = true →
        ∀ s ∈ statesOf g (workspaceId, entity.id),
          (∀ e, s.validTo = some e → e ≤ now) ∧
          (s.validTo = none → s.isOpen = true ∧
            ¬ (u.snapshotAt.isSome ∧ n.sourceId = some u.sourceId.str))

theorem isGone_of_mem {entity : EntityUpsert} (h : entity ∈ u.entities) (g : Graph)
    (sourceId : String) :
    g.isGone w sourceId (u.entities.map EntityUpsert.id) (w, entity.id) =
      false := by
  have hmem : entity.id ∈ u.entities.map EntityUpsert.id := mem_map_of_mem h
  simp [Graph.isGone, hmem]

theorem get?_retire_of_mem (hbitemporal : cfg.bitemporal = true) {entity : EntityUpsert}
    (h : entity ∈ u.entities) (w : Uuid) (g : Graph) :
    (retire cfg u w (u.advance w g)).1.nodes.get? (w, entity.id) =
      g.nodes.get? (w, entity.id) := by
  rw [get?_retire hbitemporal, isGone_of_mem h, nodes_advance]
  cases u.snapshotAt with
  | none => rfl
  | some snapshotAt =>
    cases g.nodes.get? (w, entity.id) with
    | none => rfl
    | some n => rfl

theorem statesOf_retire_of_mem (hbitemporal : cfg.bitemporal = true) {entity : EntityUpsert}
    (h : entity ∈ u.entities) (w : Uuid) (g : Graph) :
    statesOf (retire cfg u w (u.advance w g)).1 (w, entity.id) =
      match u.snapshotAt with
      | some snapshotAt => (statesOf g (w, entity.id)).map
          (unlinkState w snapshotAt
            (g.isOfSource w u.sourceId.str (w, entity.id)))
      | none => statesOf g (w, entity.id) := by
  rw [statesOf_retire hbitemporal, isGone_of_mem h, statesOf_advance]
  unfold Graph.isOfSource
  rw [nodes_advance]
  rfl

theorem Safe.closable_retire (hsafe : Safe cfg u now g) (hbitemporal : cfg.bitemporal = true)
    (hws : u.workspace cfg.py = .ok w) (hstale : u.isStaleIn w g = false)
    {entity : EntityUpsert} (hentity : entity ∈ u.entities) {n : Node}
    (hn : g.nodes.get? (w, entity.id) = some n)
    (hchanged : stateChanged cfg.toConfig (u.adopt entity) now n = true) :
    Closable now (statesOf (retire cfg u w (u.advance w g)).1
      (w, entity.id)) := by
  have hclosable := hsafe w hws hstale entity hentity n hn hchanged
  rw [statesOf_retire_of_mem hbitemporal hentity]
  cases hsnapshot : u.snapshotAt with
  | none =>
    intro s hs
    exact ⟨(hclosable s hs).1, fun hnone => ((hclosable s hs).2 hnone).1⟩
  | some snapshotAt =>
    intro s hs
    obtain ⟨r, hr, rfl⟩ := mem_map.1 hs
    obtain ⟨hended, hopen⟩ := hclosable r hr
    rw [validTo_unlinkState]
    refine ⟨hended, fun hnone => ?_⟩
    -- the relationship is closed only if the node is of the source
    obtain ⟨hisOpen, hother⟩ := hopen hnone
    have hsource : g.isOfSource w u.sourceId.str (w, entity.id) = false := by
      rw [hsnapshot] at hother
      simpa [Graph.isOfSource, hn] using hother
    unfold unlinkState
    rw [hsource]
    exact hisOpen

/-- The windows of the states of every entity are apart. -/
def IsHistory (g : Graph) : Prop :=
  ∀ key, (statesOf g key).Pairwise fun s t => s.window.Apart t.window

/-- **A safe call keeps the windows apart.** -/
theorem IsHistory.upsertGraph (hbitemporal : cfg.bitemporal = true) (hanchored : Anchored now g)
    (hhistory : IsHistory g) (h : upsertGraph cfg u now g = .ok (g', result))
    (hsafe : Safe cfg u now g) : IsHistory g' := by
  obtain ⟨w, hws, ⟨-, -, rfl⟩ | ⟨hstale, -, merged, hentities, hedges⟩⟩ :=
    upsertGraph_cases h
  · exact hhistory
  · have hretired : IsHistory (retire cfg u w (u.advance w g)).1 := by
      intro key
      obtain ⟨f, hf, hstates⟩ :=
        statesOf_retire_closes hbitemporal u w (u.advance w g) key
      rw [hstates, statesOf_advance]
      exact hf.pairwise_apart (hhistory key)
    -- what can still be superseded is closable: the entity is as the end-dating stage left it, or
    -- was written since
    have hmerged := Fold.foldlM_keeps hentities (fun c => Anchored now c ∧ IsHistory c ∧
      ∀ key, Closable now (statesOf c key) ∨ (c.nodes.get? key =
            (retire cfg u w (u.advance w g)).1.nodes.get? key ∧
          statesOf c key = statesOf (retire cfg u w (u.advance w g)).1 key))
      ⟨hanchored.retire_advance u w hbitemporal, hretired, fun key => .inr ⟨rfl, rfl⟩⟩ ?_
    · refine Fold.foldlM_keeps hedges IsHistory hmerged.2.1 fun edge _ c c' hc hstep key => ?_
      rw [statesOf_writeBatchEdge hstep]
      exact hc key
    · rintro entity hentity c c' ⟨hc, hhistory, hleft⟩ hstep
      rw [writeEntity_bitemporal hbitemporal] at hstep
      have hclosable : stateChanged cfg.toConfig (u.adopt entity) now
          (foundNode cfg.toConfig (u.adopt entity) w now c) = true →
            Closable now (statesOf c (w, entity.id)) := by
        intro hchanged
        obtain hclosable | ⟨hnode, hstates⟩ := hleft (w, entity.id)
        · exact hclosable
        · rw [hstates]
          have hfound := get?_of_stateChanged hchanged
          rw [id_adopt, hnode, get?_retire_of_mem hbitemporal hentity] at hfound
          exact hsafe.closable_retire hbitemporal hws hstale hentity hfound hchanged
      obtain ⟨hapart, hself⟩ := pairwise_apart_mergedStates (u.adopt entity) hc
        (hhistory (w, entity.id)) hclosable
      have hget := get?_mergeEntityBitemporal hstep
      have hstates := statesOf_mergeEntityBitemporal hstep
      rw [id_adopt] at hself hget hstates
      refine ⟨hc.mergeEntityBitemporal hstep, fun key => ?_, fun key => ?_⟩
      · by_cases hkey : key = (w, entity.id)
        · rw [hkey, hstates]
          exact hapart
        · rw [statesOf_mergeEntityBitemporal_ne hstep hkey]
          exact hhistory key
      · by_cases hkey : key = (w, entity.id)
        · subst hkey
          rw [hstates]
          obtain hself | ⟨hnode, hsame⟩ := hself
          · exact .inl hself
          · rw [hget, ← hnode, hsame]
            exact hleft _
        · rw [get?_mergeEntityBitemporal_ne hstep hkey,
            statesOf_mergeEntityBitemporal_ne hstep hkey]
          exact hleft key

/-! ### An entity of the batch -/

/-- The batch says one thing about the entity. -/
def GraphUpsert.IsUnambiguous (u : GraphUpsert) (cfg : GraphConfig) (entity : EntityUpsert) :
    Prop :=
  ∀ entity' ∈ u.entities, entity'.id = entity.id →
    SameEntity cfg.toConfig (u.adopt entity) (u.adopt entity')

/-- **What an applied call makes of an entity of its batch**: what the entity statement makes of
it after the end-dating stage. -/
theorem Applies.entity (hbitemporal : cfg.bitemporal = true)
    (h : Applies cfg u w now g g') {entity : EntityUpsert} (hentity : entity ∈ u.entities)
    (hsame : u.IsUnambiguous cfg entity) :
    IsMerged cfg.toConfig (u.adopt entity) w now
      (retire cfg u w (u.advance w g)).1 g' := by
  obtain ⟨merged, hentities, hedges⟩ := h
  generalize (retire cfg u w (u.advance w g)).1 = g₁ at hentities ⊢
  -- the statements before the first one for the entity leave it, and those after it as well
  have hmerged := Fold.foldlM_induction hentities (fun pre c =>
    ((∀ e ∈ pre, e.id ≠ entity.id) ∧ c.nodes.get? (w, entity.id) = g₁.nodes.get? (w, entity.id) ∧
      statesOf c (w, entity.id) = statesOf g₁ (w, entity.id)) ∨
    IsMerged cfg.toConfig (u.adopt entity) w now g₁ c)
    (.inl ⟨fun e he => absurd he not_mem_nil, rfl, rfl⟩) ?_
  · have hmerged := hmerged.resolve_left fun hnone => hnone.1 entity hentity rfl
    refine Fold.foldlM_keeps hedges (IsMerged cfg.toConfig (u.adopt entity) w now g₁) hmerged ?_
    intro edge _ c c' hc hstep
    exact hc.of_edge hstep
  · intro pre e post c c' hsplit hI hstep
    rw [writeEntity_bitemporal hbitemporal] at hstep
    by_cases hid : e.id = entity.id
    · have he : e ∈ u.entities := by
        rw [hsplit]
        exact mem_append_right _ mem_cons_self
      have hwritten := (isMerged_mergeEntityBitemporal hstep).of_same (hsame e he hid)
      obtain ⟨-, hnode, hstates⟩ | hc := hI
      · exact .inr (hwritten.of_before hnode hstates)
      · exact .inr (hc.again hwritten)
    · have hkey : (w, entity.id) ≠ (w, (u.adopt e).id) := by
        rw [id_adopt]
        exact fun hkey => hid (congrArg Prod.snd hkey).symm
      have hnode := get?_mergeEntityBitemporal_ne hstep hkey
      have hstates := statesOf_mergeEntityBitemporal_ne hstep hkey
      obtain ⟨hpre, hleft⟩ | hc := hI
      · refine .inl ⟨fun e' he' => ?_, hnode.trans hleft.1, hstates.trans hleft.2⟩
        obtain he' | he' := mem_append.1 he'
        · exact hpre e' he'
        · rw [mem_singleton.1 he']
          exact hid
      · exact .inr (hc.of_after hnode hstates)

theorem exists_upsertGraph_of_single (hbitemporal : cfg.bitemporal = true)
    (hws : u.workspaceId = some w) (hstale : u.isStaleIn w g = false)
    {entity : EntityUpsert} (hentities : u.entities = [entity]) (hedges : u.edges = [])
    (hfresh : ∀ s ∈ statesOf g (w, entity.id), s.validFrom ≠ now) :
    ∃ g' result, upsertGraph cfg u now g = .ok (g', result) ∧ result.applied = true ∧
      IsMerged cfg.toConfig (u.adopt entity) w now
        (retire cfg u w (u.advance w g)).1 g' := by
  obtain ⟨f, hf, hstates⟩ := statesOf_retire_closes hbitemporal u w (u.advance w g) (w, entity.id)
  have hwritten : ∃ g', mergeEntityBitemporal cfg.toConfig (u.adopt entity) w now
      (retire cfg u w (u.advance w g)).1 = .ok g' := by
    refine exists_mergeEntityBitemporal _ _ _ fun s hs => ?_
    rw [id_adopt, hstates, statesOf_advance] at hs
    obtain ⟨r, hr, rfl⟩ := mem_map.1 hs
    rw [hf.validFrom]
    exact hfresh r hr
  obtain ⟨g', hg'⟩ := hwritten
  have hentity : u.entities.foldlM (writeEntity cfg u w now)
      (retire cfg u w (u.advance w g)).1 = .ok g' := by
    rw [hentities, Fold.foldlM_cons_ok]
    exact ⟨g', (writeEntity_bitemporal hbitemporal _ _ _ _ _).trans hg', rfl⟩
  have hedge : u.edges.foldlM (writeBatchEdge cfg u w now) g' = .ok g' := by
    rw [hedges]
    rfl
  refine ⟨g', ⟨true, (retire cfg u w (u.advance w g)).2.1,
    (retire cfg u w (u.advance w g)).2.2, none, u.entities.length,
    u.edges.length⟩, ?_, rfl, isMerged_mergeEntityBitemporal hg'⟩
  simp [upsertGraph, GraphUpsert.workspace, hws, hstale, writeBatch, hentity, hedge]

/-! ### Runs -/

/-- The transaction times of the calls increase strictly. -/
def Increasing (calls : List Return) : Prop := (calls.map Return.now).Pairwise (· < ·)

theorem Increasing.of_concat {calls : List Return} {c : Return} (h : Increasing (calls ++ [c])) :
    Increasing calls ∧ ∀ c' ∈ calls, c'.now < c.now := by
  rw [Increasing, map_append, pairwise_append] at h
  exact ⟨h.1, fun c' hc' => h.2.2 _ (mem_map_of_mem hc') _ (mem_singleton_self _)⟩

theorem anchored_empty (clock : ℕ) : Anchored clock {} := by
  intro key
  refine ⟨fun _ => rfl, fun n hn => ?_, fun s hs => ?_⟩
  · cases hn
  · cases hs

/-- **The states of every entity stay at its node**, in every run. -/
theorem Run.anchored {calls : List Return} (hbitemporal : cfg.bitemporal = true)
    (run : Run cfg {} calls g) (htimes : Increasing calls) {clock : ℕ}
    (hclock : ∀ c ∈ calls, c.now ≤ clock) : Anchored clock g := by
  induction run generalizing clock with
  | start => exact anchored_empty clock
  | call run returned ih =>
    obtain ⟨htimes', hbefore⟩ := htimes.of_concat
    have hanchored := ih htimes' fun c hc => (hbefore c hc).le
    have hstep := hanchored.upsertGraph hbitemporal returned
    intro key
    exact (hstep key).mono (hclock ⟨_, _, _, _⟩ (mem_append_right _ mem_cons_self))

/-- **The windows of every entity are apart**, after a run of safe calls. -/
theorem Run.isHistory {calls : List Return} (hbitemporal : cfg.bitemporal = true)
    (run : Run cfg {} calls g) (htimes : Increasing calls)
    (hsafe : ∀ c ∈ calls, Safe cfg c.args c.now c.before) : IsHistory g := by
  induction run with
  | start => exact fun key => List.Pairwise.nil
  | call run returned ih =>
    obtain ⟨htimes', hbefore⟩ := htimes.of_concat
    have hanchored := run.anchored hbitemporal htimes' fun c hc => (hbefore c hc).le
    have hhistory := ih htimes' fun c hc => hsafe c (mem_append_left _ hc)
    exact hhistory.upsertGraph hbitemporal hanchored returned
      (hsafe ⟨_, _, _, _⟩ (mem_append_right _ mem_cons_self))

/-- **At most one open state**: in every graph that safe bitemporal calls lead to, every entity has
at most one state without an end, and the windows of its states are apart. -/
theorem openStates_le_one {calls : List Return} (hbitemporal : cfg.bitemporal = true)
    (run : Run cfg {} calls g) (htimes : Increasing calls)
    (hsafe : ∀ c ∈ calls, Safe cfg c.args c.now c.before) (key : NodeKey) :
    (openStates g key).length ≤ 1 ∧
      (statesOf g key).Pairwise fun s t => s.window.Apart t.window := by
  have hapart := run.isHistory hbitemporal htimes hsafe key
  exact ⟨Window.length_filter_isOpen_le_one hapart, hapart⟩

/-- A service of source 3. -/
def service (name : String) : EntityUpsert :=
  { id := 1, sourceId := 3, entityType := "service", name := name, displayName := "API" }

/-- A call for source 3. -/
def sourceCall (entities : List EntityUpsert) (snapshotAt : Option ℕ)
    (version : Option ℤ := none) : GraphUpsert :=
  { sourceId := 3
    documentId := 5
    entities := entities
    workspaceId := some 7
    snapshotAt := snapshotAt
    version := version }

theorem fingerprint_service (name name' : String) (h : name.length ≠ name'.length) :
    GraphConfig.sample.entityFingerprint (service name) ≠
      GraphConfig.sample.entityFingerprint (service name') := by
  intro heq
  have hlength := congrArg String.length heq
  simp [GraphConfig.sample, Config.source, entityStateFingerprint, service, joinWith, stableRepr,
    Py.sample, h] at hlength

theorem exists_serviceCall (name : String) (snapshotAt : Option ℕ) (version : Option ℤ) (now : ℕ)
    (g : Graph) (hstale : (sourceCall [service name] snapshotAt version).isStaleIn 7 g = false)
    (hfresh : ∀ s ∈ statesOf g (7, 1), s.validFrom ≠ now) :
    let u := sourceCall [service name] snapshotAt version
    ∃ g' result, upsertGraph .sample u now g = .ok (g', result) ∧ result.applied = true ∧
      IsMerged GraphConfig.sample.toConfig (service name) 7 now
        (retire .sample u 7 (u.advance 7 g)).1 g' :=
  @exists_upsertGraph_of_single .sample (sourceCall [service name] snapshotAt version) 7 now g rfl
    rfl hstale (service name) rfl rfl hfresh

theorem exists_emptyCall (snapshotAt : Option ℕ) (version : Option ℤ) (now : ℕ) (g : Graph)
    (hstale : (sourceCall [] snapshotAt version).isStaleIn 7 g = false) :
    let u := sourceCall [] snapshotAt version
    ∃ result, upsertGraph .sample u now g = .ok ((retire .sample u 7 (u.advance 7 g)).1, result) ∧
      result.applied = true := by
  intro u
  refine ⟨⟨true, (retire .sample u 7 (u.advance 7 g)).2.1, (retire .sample u 7 (u.advance 7 g)).2.2,
    none, 0, 0⟩, ?_, rfl⟩
  have hstale : u.isStaleIn 7 g ≠ true := by
    rw [hstale]
    decide
  rw [upsertGraph]
  exact if_neg hstale

theorem exists_first_snapshot (name : String) (version : Option ℤ) : ∃ g result,
      upsertGraph .sample (sourceCall [service name] (some 1) version) 1 {} = .ok (g, result) ∧
      result.applied = true ∧
      g.nodes.get? (7, 1) = some (foundNode GraphConfig.sample.toConfig (service name) 7 1 {}) ∧
      statesOf g (7, 1) = [newState GraphConfig.sample.toConfig (service name) 7 1] := by
  have hstale : (sourceCall [service name] (some 1) version).isStaleIn 7 {} = false := by
    cases version with
    | none => rfl
    | some v => rfl
  obtain ⟨g, result, hg, happlied, hmerged⟩ :=
    exists_serviceCall name (some 1) version 1 {} hstale fun s hs => (by cases hs)
  have hmem : service name ∈ (sourceCall [service name] (some 1) version).entities :=
    mem_cons_self
  have hget := @get?_retire_of_mem .sample _ rfl _ hmem 7 {}
  have hnil := @statesOf_retire_of_mem .sample _ rfl _ hmem 7 {}
  have hmerged := hmerged.of_before hget hnil
  have hchanged : stateChanged GraphConfig.sample.toConfig (service name) 1
      (foundNode GraphConfig.sample.toConfig (service name) 7 1 {}) = false := by
    simp [stateChanged, foundNode]
  refine ⟨g, result, hg, happlied, ?_, ?_⟩
  · refine hmerged.node.trans ?_
    rw [mergedNode, hchanged, if_neg Bool.false_ne_true]
  · refine hmerged.states.trans ?_
    rw [mergedStates, hchanged]
    rfl

theorem validFrom_of_first {g : Graph} {name : String} {now : ℕ}
    (hstates : statesOf g (7, 1) = [newState GraphConfig.sample.toConfig (service name) 7 1])
    (hnow : 1 ≠ now) : ∀ s ∈ statesOf g (7, 1), s.validFrom ≠ now := by
  rw [hstates]
  intro s hs
  obtain rfl := mem_singleton.1 hs
  exact hnow

theorem isOfSource_service {g : Graph} {name : String} (hnode : g.nodes.get? (7, 1) =
      some (foundNode GraphConfig.sample.toConfig (service name) 7 1 {})) :
    g.isOfSource 7 (Uuid.str 3) (7, 1) = true :=
  isOfSource_iff.2 ⟨rfl, _, hnode, rfl⟩

theorem stateChanged_gateway : stateChanged GraphConfig.sample.toConfig (service "gateway") 2
    (foundNode GraphConfig.sample.toConfig (service "api") 7 1 {}) = true := by
  have hne := fingerprint_service "api" "gateway" (by decide)
  simp [stateChanged, foundNode, Node.stamp, hne]

theorem safe_gateway {g : Graph}
    (hstates : statesOf g (7, 1) = [newState GraphConfig.sample.toConfig (service "api") 7 1]) :
    Safe .sample (sourceCall [service "gateway"] none) 2 g := by
  intro w hws _ entity hentity n _ _ s hs
  cases hws
  obtain rfl := mem_singleton.1 hentity
  have hs : s ∈ statesOf g (7, 1) := hs
  rw [hstates] at hs
  obtain rfl := mem_singleton.1 hs
  exact ⟨fun e he => (by cases he), fun _ => ⟨rfl, fun h => absurd h.1 Bool.false_ne_true⟩⟩

theorem openStates_le_one_renamed :
    ∃ g₁ r₁ g₂ r₂, Run .sample {} [⟨{}, sourceCall [service "api"] (some 1), 1, r₁⟩,
        ⟨g₁, sourceCall [service "gateway"] none, 2, r₂⟩] g₂ ∧
      (openStates g₂ (7, 1)).length ≤ 1 := by
  obtain ⟨g₁, r₁, hg₁, -, -, hstates⟩ := exists_first_snapshot "api" none
  obtain ⟨g₂, r₂, hg₂, -, -⟩ := exists_serviceCall "gateway" none none 2 g₁ rfl
    (validFrom_of_first hstates (by decide))
  have run : Run .sample {} [⟨{}, sourceCall [service "api"] (some 1), 1, r₁⟩,
      ⟨g₁, sourceCall [service "gateway"] none, 2, r₂⟩] g₂ := .call (.call .start hg₁) hg₂
  refine ⟨g₁, r₁, g₂, r₂, run, (openStates_le_one rfl run (by simp [Increasing]) ?_ (7, 1)).1⟩
  intro c hc
  obtain rfl | hc := mem_cons.1 hc
  · -- there is no node yet
    intro workspaceId _ _ entity _ n hn
    cases hn
  · obtain rfl := mem_singleton.1 hc
    exact safe_gateway hstates

/-- A snapshot renames the service: it closes the relationship of the first state, which then stays
open beside the second. -/
theorem two_open_states :
    ∃ g₁ r₁ g₂ r₂, Run .sample {} [⟨{}, sourceCall [service "api"] (some 1), 1, r₁⟩,
        ⟨g₁, sourceCall [service "gateway"] (some 2), 2, r₂⟩] g₂ ∧
      Increasing [⟨{}, sourceCall [service "api"] (some 1), 1, r₁⟩,
        ⟨g₁, sourceCall [service "gateway"] (some 2), 2, r₂⟩] ∧
      (openStates g₂ (7, 1)).length = 2 := by
  obtain ⟨g₁, r₁, hg₁, -, hnode, hstates⟩ := exists_first_snapshot "api" none
  obtain ⟨g₂, r₂, hg₂, -, -, hstates₂⟩ := exists_serviceCall "gateway" (some 2) none 2 g₁ rfl
    (validFrom_of_first hstates (by decide))
  refine ⟨g₁, r₁, g₂, r₂, .call (.call .start hg₁) hg₂, by simp [Increasing], ?_⟩
  have hmem : service "gateway" ∈ (sourceCall [service "gateway"] (some 2)).entities :=
    mem_cons_self
  have hget := (@get?_retire_of_mem .sample _ rfl _ hmem 7 g₁).trans hnode
  have hlinks := (@statesOf_retire_of_mem .sample _ rfl _ hmem 7 g₁).trans
    (congrArg₂ (fun isOfSource => List.map (unlinkState 7 2 isOfSource))
      (isOfSource_service hnode) hstates)
  have hstates₂ : statesOf g₂ (7, 1) = _ := hstates₂
  rw [openStates, hstates₂, filter_isNone_mergedStates]
  · rw [hlinks]
    rfl
  · rw [foundNode, hget]
    exact stateChanged_gateway

end

end Omniscience.Neo4j
