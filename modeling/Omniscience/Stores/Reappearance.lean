import Omniscience.Stores.Bitemporal

/-!
# Entities that return

An entity of a batch that was applied is meant to be current afterwards: its node is open, and so
is exactly one of its states, which has the content of the batch.  The entity statement looks only
at the fingerprint, though, and a snapshot without the entity does not change it.  So an entity
that was end-dated and returns unchanged is not touched: it stays closed (`reopened_iff`).
-/

namespace Omniscience.Neo4j

open Outbox List

/-- The entity is current: its node is open, and exactly one of its states, which has the
content. -/
def IsCurrent (g : Graph) (key : NodeKey) (content : EntityContent) : Prop :=
  (∃ n, g.nodes.get? key = some n ∧ n.validTo = none) ∧
    ∃ s, openStates g key = [s] ∧ s.content = content

theorem filter_isNone_closeOpen_eq_nil {states : List EntityState} {now : ℕ} :
    (states.map (closeOpen now)).filter (fun s => s.validTo.isNone) = [] ↔
      ∀ s ∈ states, s.validTo = none → s.isOpen = true := by
  rw [filter_eq_nil_iff, forall_mem_map]
  refine forall₂_congr fun s _ => ?_
  unfold closeOpen
  split
  · rename_i hopen
    simp [EntityState.close, hopen]
  · rename_i hopen
    simp [hopen]

section

variable {cfg : Config} {entity : EntityUpsert} {workspaceId w : Uuid} {now : ℕ} {g g' : Graph}
  (h : IsMerged cfg entity w now g g')

include h

theorem IsMerged.get?_of_none (hnone : g.nodes.get? (w, entity.id) = none) :
    ∃ n, g'.nodes.get? (w, entity.id) = some n ∧ n.validTo = none ∧
      n.content = some (contentOf cfg.py entity) := by
  have hfound : stateChanged cfg entity now (foundNode cfg entity w now g) = false := by
    simp [foundNode, hnone, stateChanged]
  rw [h.node, mergedNode, hfound, if_neg Bool.false_ne_true, foundNode, hnone]
  exact ⟨_, rfl, rfl, rfl⟩

theorem IsMerged.openStates_of_none (hnone : g.nodes.get? (w, entity.id) = none)
    (hnil : statesOf g (w, entity.id) = []) :
    openStates g' (w, entity.id) = [newState cfg entity w now] := by
  have hfound : stateChanged cfg entity now (foundNode cfg entity w now g) = false := by
    simp [foundNode, hnone, stateChanged]
  rw [openStates, h.states, mergedStates, hfound, isHeld, hnil]
  rfl

variable {n : Node} (hn : g.nodes.get? (w, entity.id) = some n)

include hn

theorem IsMerged.get?_of_same (hsame : stateChanged cfg entity now n = false) :
    g'.nodes.get? (w, entity.id) = some n := by
  have hfound : foundNode cfg entity w now g = n := by rw [foundNode, hn]
  rw [h.node, mergedNode, hfound, hsame, if_neg Bool.false_ne_true]

theorem IsMerged.openStates_of_same (hsame : stateChanged cfg entity now n = false)
    (hheld : isHeld g (w, entity.id) = true ↔ statesOf g (w, entity.id) ≠ []) :
    (∃ s, openStates g' (w, entity.id) = [s] ∧ s.content = contentOf cfg.py entity) ↔
      statesOf g (w, entity.id) = [] ∨
        ∃ s, openStates g (w, entity.id) = [s] ∧
          s.content = contentOf cfg.py entity := by
  have hfound : foundNode cfg entity w now g = n := by rw [foundNode, hn]
  rw [openStates, h.states, mergedStates, hfound, hsame, if_neg Bool.false_ne_true, Bool.false_or]
  by_cases hnil : statesOf g (w, entity.id) = []
  · have hnot : isHeld g (w, entity.id) = false := by
      rw [← Bool.not_eq_true, hheld, not_not]
      exact hnil
    rw [hnot, hnil]
    exact iff_of_true ⟨_, rfl, rfl⟩ (.inl rfl)
  · rw [hheld.2 hnil, Bool.not_true, if_neg Bool.false_ne_true, append_nil, or_iff_right hnil]
    rfl

theorem IsMerged.get?_of_changed (hchanged : stateChanged cfg entity now n = true) :
    g'.nodes.get? (w, entity.id) = some (n.renew cfg entity now) := by
  have hfound : foundNode cfg entity w now g = n := by rw [foundNode, hn]
  rw [h.node, mergedNode, hfound, hchanged, if_pos rfl]

theorem IsMerged.openStates_of_changed (hchanged : stateChanged cfg entity now n = true) :
    (∃ s, openStates g' (w, entity.id) = [s] ∧ s.content = contentOf cfg.py entity) ↔
      ∀ s ∈ openStates g (w, entity.id), s.isOpen = true := by
  have hfound : foundNode cfg entity w now g = n := by rw [foundNode, hn]
  rw [openStates, h.states, filter_isNone_mergedStates (hfound ▸ hchanged)]
  calc _ ↔ ((statesOf g (w, entity.id)).map (closeOpen now)).filter
        (fun s => s.validTo.isNone) = [] := by
        constructor
        · rintro ⟨s, hs, -⟩
          obtain ⟨hnil, -⟩ | ⟨-, hnew⟩ := append_eq_singleton_iff.1 hs
          · exact hnil
          · cases hnew
        · intro hnil
          refine ⟨newState cfg entity w now, ?_, rfl⟩
          rw [hnil, nil_append]
    _ ↔ ∀ s ∈ statesOf g (w, entity.id), s.validTo = none → s.isOpen = true :=
        filter_isNone_closeOpen_eq_nil
    _ ↔ _ := by simp [openStates]

end

section

variable {cfg : GraphConfig} {u : GraphUpsert} {workspaceId w : Uuid} {now : ℕ} {g g' : Graph}

/-- The call makes the entity of its batch current.  If the node has its fingerprint, it has to be
open before, and one open state has the content, unless there is none at all.  Otherwise the open
states must hang on open relationships, and the call must not be a snapshot of the source of the
node. -/
def Reopens (cfg : GraphConfig) (u : GraphUpsert) (workspaceId : Uuid) (entity : EntityUpsert)
    (g : Graph) : Prop :=
  ∀ n, g.nodes.get? (workspaceId, entity.id) = some n →
    if n.fingerprint.getD "" = cfg.entityFingerprint (u.adopt entity) then
      n.validTo = none ∧ (statesOf g (workspaceId, entity.id) = [] ∨
        ∃ s, openStates g (workspaceId, entity.id) = [s] ∧
          s.content = contentOf cfg.py (u.adopt entity))
    else ∀ s ∈ openStates g (workspaceId, entity.id),
      s.isOpen = true ∧ ¬ (u.snapshotAt.isSome ∧ n.sourceId = some u.sourceId.str)

theorem Run.createdAt_lt {calls : List Return} (hbitemporal : cfg.bitemporal = true)
    (run : Run cfg {} calls g) (htimes : Increasing calls) (hnow : ∀ c ∈ calls, c.now < now)
    {key : NodeKey} {n : Node} (hn : g.nodes.get? key = some n) :
    ∃ t, n.createdAt = some t ∧ t < now := by
  cases run with
  | start => cases hn
  | call run returned =>
    obtain ⟨htimes', hbefore⟩ := htimes.of_concat
    have hanchored := (run.anchored hbitemporal htimes' fun c hc => (hbefore c hc).le).upsertGraph
      hbitemporal returned
    obtain ⟨t, ht, hle⟩ := (hanchored key).created n hn
    have hlast := hnow ⟨_, _, _, _⟩ (mem_append_right _ mem_cons_self)
    exact ⟨t, ht, hle.trans_lt hlast⟩

theorem exists_map_eq_singleton {f : EntityState → EntityState}
    (hf : ∀ s, (f s).content = s.content) {states : List EntityState} {content : EntityContent} :
    (∃ s, states.map f = [s] ∧ s.content = content) ↔
      ∃ s, states = [s] ∧ s.content = content := by
  constructor
  · rintro ⟨s, hs, hcontent⟩
    obtain ⟨r, rfl, rfl⟩ := map_eq_singleton_iff.1 hs
    exact ⟨r, rfl, (hf r).symm.trans hcontent⟩
  · rintro ⟨s, rfl, hcontent⟩
    exact ⟨f s, rfl, (hf s).trans hcontent⟩

theorem exists_statesOf_retire (hbitemporal : cfg.bitemporal = true) {entity : EntityUpsert}
    (h : entity ∈ u.entities)
    (hlinked : ∀ s ∈ statesOf g (w, entity.id),
      ∃ h, s.link = some h ∧ h.workspaceId = some w) {n : Node}
    (hn : g.nodes.get? (w, entity.id) = some n) :
    ∃ f : EntityState → EntityState,
      statesOf (retire cfg u w (u.advance w g)).1 (w, entity.id) =
        (statesOf g (w, entity.id)).map f ∧
      (∀ s, (f s).validTo = s.validTo) ∧ (∀ s, (f s).content = s.content) ∧
      (∀ s, (f s).link.isSome = s.link.isSome) ∧
      ∀ s ∈ statesOf g (w, entity.id), (f s).isOpen = true ↔
        s.isOpen = true ∧ ¬ (u.snapshotAt.isSome ∧ n.sourceId = some u.sourceId.str) := by
  rw [statesOf_retire_of_mem hbitemporal h]
  cases u.snapshotAt with
  | none =>
    exact ⟨id, (map_id _).symm, fun s => rfl, fun s => rfl, fun s => rfl, fun s _ => by simp⟩
  | some snapshotAt =>
    refine ⟨_, rfl, validTo_unlinkState _ _ _, content_unlinkState _ _ _,
      isSome_link_unlinkState _ _ _, fun s hs => ?_⟩
    rw [isOpen_unlinkState (hlinked s hs)]
    simp [Graph.isOfSource, hn]

/-- **What an applied call makes of the states of an entity**: what was there before decides
whether exactly one is open afterwards, with the content of the batch. -/
theorem IsMerged.openStates_iff (hbitemporal : cfg.bitemporal = true) {entity : EntityUpsert}
    (hentity : entity ∈ u.entities)
    (hheld : g.nodes.get? (w, entity.id) = none →
      statesOf g (w, entity.id) = [])
    (hlinked : ∀ s ∈ statesOf g (w, entity.id),
      ∃ h, s.link = some h ∧ h.workspaceId = some w)
    (h : IsMerged cfg.toConfig (u.adopt entity) w now
      (retire cfg u w (u.advance w g)).1 g') :
    (∃ s, openStates g' (w, entity.id) = [s] ∧
        s.content = contentOf cfg.py (u.adopt entity)) ↔
      ∀ n, g.nodes.get? (w, entity.id) = some n →
        if stateChanged cfg.toConfig (u.adopt entity) now n then
          ∀ s ∈ openStates g (w, entity.id),
            s.isOpen = true ∧ ¬ (u.snapshotAt.isSome ∧ n.sourceId = some u.sourceId.str)
        else statesOf g (w, entity.id) = [] ∨
          ∃ s, openStates g (w, entity.id) = [s] ∧
            s.content = contentOf cfg.py (u.adopt entity) := by
  have hget := get?_retire_of_mem hbitemporal hentity w g
  cases hn : g.nodes.get? (w, entity.id) with
  | none =>
    rw [hn] at hget
    have hnil := statesOf_retire_of_mem hbitemporal hentity w g
    have hnew := h.openStates_of_none hget (by
      rw [id_adopt, hnil, hheld hn]
      cases u.snapshotAt with
      | none => rfl
      | some snapshotAt => rfl)
    refine iff_of_true ⟨_, hnew, rfl⟩ fun n hn' => ?_
    cases hn'
  | some n =>
    rw [hn] at hget
    obtain ⟨f, hf, hto, hcontent, hsome, hlink⟩ :=
      exists_statesOf_retire hbitemporal hentity hlinked hn
    have hopen : openStates (retire cfg u w (u.advance w g)).1
        (w, entity.id) = (openStates g (w, entity.id)).map f := by
      rw [openStates, hf, filter_isNone_map hto]
      rfl
    simp only [Option.some.injEq, forall_eq']
    cases hchanged : stateChanged cfg.toConfig (u.adopt entity) now n with
    | true =>
      have hiff := h.openStates_of_changed hget hchanged
      rw [id_adopt, hopen, forall_mem_map] at hiff
      rw [if_pos rfl]
      exact hiff.trans (forall₂_congr fun s hs => hlink s (mem_filter.1 hs).1)
    | false =>
      have hheld' : isHeld (retire cfg u w (u.advance w g)).1
          (w, (u.adopt entity).id) = true ↔ statesOf (retire cfg u w
            (u.advance w g)).1 (w, (u.adopt entity).id) ≠ [] := by
        refine isHeld_iff_of_linked ?_
        rw [id_adopt, hf, forall_mem_map]
        intro s hs
        obtain ⟨link, hl, -⟩ := hlinked s hs
        rw [hsome, hl]
        rfl
      have hiff := h.openStates_of_same hget hchanged hheld'
      rw [id_adopt, hopen, hf, map_eq_nil_iff, exists_map_eq_singleton hcontent] at hiff
      rw [if_neg Bool.false_ne_true]
      exact hiff

/-- **What an applied call makes of an entity**: what was there before decides whether the entity
is current afterwards. -/
theorem IsMerged.isCurrent_iff (hbitemporal : cfg.bitemporal = true) {entity : EntityUpsert}
    (hentity : entity ∈ u.entities) (hanchored : Anchored now g)
    (hcreated : ∀ n, g.nodes.get? (w, entity.id) = some n →
      ∃ t, n.createdAt = some t ∧ t < now)
    (h : IsMerged cfg.toConfig (u.adopt entity) w now
      (retire cfg u w (u.advance w g)).1 g') :
    IsCurrent g' (w, entity.id) (contentOf cfg.py (u.adopt entity)) ↔
      Reopens cfg u w entity g := by
  have hanchor := hanchored (w, entity.id)
  have hget := get?_retire_of_mem hbitemporal hentity w g
  rw [IsCurrent, h.openStates_iff hbitemporal hentity hanchor.held hanchor.linked]
  cases hn : g.nodes.get? (w, entity.id) with
  | none =>
    rw [hn] at hget
    obtain ⟨n, hnode, hopen, -⟩ := h.get?_of_none hget
    refine iff_of_true ⟨⟨n, hnode, hopen⟩, fun n' hn' => (by cases hn')⟩ fun n' hn' => ?_
    rw [hn] at hn'
    cases hn'
  | some n =>
    rw [hn] at hget
    obtain ⟨t, ht, hlt⟩ := hcreated n hn
    have hchanged : stateChanged cfg.toConfig (u.adopt entity) now n =
        decide (n.fingerprint.getD "" ≠ cfg.entityFingerprint (u.adopt entity)) := by
      simp [stateChanged, ht, hlt.ne]
    simp only [Reopens, hn, Option.some.injEq, forall_eq']
    by_cases hsame : n.fingerprint.getD "" = cfg.entityFingerprint (u.adopt entity)
    · have hunchanged : stateChanged cfg.toConfig (u.adopt entity) now n = false := by
        simp [hchanged, hsame]
      have hnode := h.get?_of_same hget hunchanged
      rw [id_adopt] at hnode
      rw [hunchanged, if_neg Bool.false_ne_true, if_pos hsame, hnode]
      simp
    · have hchanged : stateChanged cfg.toConfig (u.adopt entity) now n = true := by
        simp [hchanged, hsame]
      have hnode := h.get?_of_changed hget hchanged
      rw [id_adopt] at hnode
      rw [hchanged, if_pos rfl, if_neg hsame]
      exact and_iff_right ⟨_, hnode, rfl⟩

/-- **Reappearance**: after a call that was applied, an entity of the batch is current if and only
if the state before the call is one that `Reopens` describes.  Between snapshots of its source an
unchanged entity stays as it is: one that was end-dated stays closed. -/
theorem reopened_iff {calls : List Return} {c : Return} (hbitemporal : cfg.bitemporal = true)
    (run : Run cfg {} (calls ++ [c]) g') (htimes : Increasing (calls ++ [c]))
    (happlied : c.result.applied = true) (hws : c.args.workspace cfg.py = .ok workspaceId)
    {entity : EntityUpsert} (hentity : entity ∈ c.args.entities)
    (hsame : c.args.IsUnambiguous cfg entity) :
    IsCurrent g' (workspaceId, entity.id) (contentOf cfg.py (c.args.adopt entity)) ↔
      Reopens cfg c.args workspaceId entity c.before := by
  obtain ⟨run, returned⟩ := run.of_concat
  obtain ⟨htimes, hbefore⟩ := htimes.of_concat
  have hanchored := run.anchored hbitemporal htimes fun c hc => (hbefore c hc).le
  have happlies := applies_of_applied returned happlied hws
  exact (happlies.entity hbitemporal hentity hsame).isCurrent_iff hbitemporal hentity hanchored
    fun n hn => run.createdAt_lt hbitemporal htimes hbefore hn

/-- A service that is renamed, without a snapshot, is current. -/
theorem reopened_renamed :
    ∃ g₁ r₁ g₂ r₂, Run .sample {} [⟨{}, sourceCall [service "api"] (some 1), 1, r₁⟩,
        ⟨g₁, sourceCall [service "gateway"] none, 2, r₂⟩] g₂ ∧
      IsCurrent g₂ (7, 1) (contentOf .sample (service "gateway")) := by
  obtain ⟨g₁, r₁, hg₁, -, hnode, hstates⟩ := exists_first_snapshot "api" none
  obtain ⟨g₂, r₂, hg₂, happlied, -⟩ := exists_serviceCall "gateway" none none 2 g₁ rfl
    (validFrom_of_first hstates (by decide))
  have run : Run .sample {} ([⟨{}, sourceCall [service "api"] (some 1), 1, r₁⟩] ++
      [⟨g₁, sourceCall [service "gateway"] none, 2, r₂⟩]) g₂ := .call (.call .start hg₁) hg₂
  refine ⟨g₁, r₁, g₂, r₂, run, (reopened_iff rfl run (by simp [Increasing]) happlied rfl
    mem_cons_self ?_).2 ?_⟩
  · intro entity hentity _
    obtain rfl := mem_singleton.1 hentity
    exact SameEntity.refl _ _
  · intro n hn
    obtain rfl := Option.some.inj (hnode.symm.trans hn)
    split
    · rename_i hsame
      exact absurd hsame (fingerprint_service "api" "gateway" (by decide))
    intro s hs
    have hs : s ∈ statesOf g₁ (7, 1) := (mem_filter.1 hs).1
    rw [hstates] at hs
    obtain rfl := mem_singleton.1 hs
    exact ⟨rfl, fun h => absurd h.1 Bool.false_ne_true⟩

theorem exists_emptySnapshot
    (hnode : g.nodes.get? (7, 1) =
      some (foundNode GraphConfig.sample.toConfig (service "api") 7 1 {}))
    (hstates : statesOf g (7, 1) = [newState GraphConfig.sample.toConfig (service "api") 7 1]) :
    ∃ g' result, upsertGraph .sample (sourceCall [] (some 2)) 2 g = .ok (g', result) ∧
      (∃ n, g'.nodes.get? (7, 1) = some n ∧ n.validTo = some 2 ∧ n.createdAt = some 1 ∧
        n.fingerprint = some (GraphConfig.sample.entityFingerprint (service "api"))) ∧
      ∀ s ∈ statesOf g' (7, 1), s.validFrom = 1 := by
  obtain ⟨result, hresult, -⟩ := exists_emptyCall (some 2) none 2 g rfl
  refine ⟨_, result, hresult, ?_, fun s hs => ?_⟩
  · have hgone : g.isGone 7 (Uuid.str 3) [] (7, 1) = true := by
      rw [Graph.isGone, isOfSource_service hnode, hnode]
      rfl
    have hget := @get?_retire .sample rfl (sourceCall [] (some 2)) 7 g (7, 1)
    rw [hnode] at hget
    refine ⟨_, hget.trans (congrArg some (if_pos hgone)), rfl, rfl, rfl⟩
  · obtain ⟨f, hf, hmap⟩ := @statesOf_retire_closes .sample rfl (sourceCall [] (some 2)) 7
      ((sourceCall [] (some 2)).advance 7 g) (7, 1)
    rw [hmap, statesOf_advance, hstates] at hs
    obtain rfl := mem_singleton.1 hs
    exact hf.validFrom _

/-- A snapshot with the service, one without it, and one with the same service again: the node
stays closed. -/
theorem unchanged_stays_closed :
    ∃ g₁ r₁ g₂ r₂ g₃ r₃, Run .sample {} [⟨{}, sourceCall [service "api"] (some 1), 1, r₁⟩,
        ⟨g₁, sourceCall [] (some 2), 2, r₂⟩, ⟨g₂, sourceCall [service "api"] (some 3), 3, r₃⟩] g₃ ∧
      r₃.applied = true ∧ ¬ IsCurrent g₃ (7, 1) (contentOf .sample (service "api")) := by
  obtain ⟨g₁, r₁, hg₁, -, hnode, hstates⟩ := exists_first_snapshot "api" none
  obtain ⟨g₂, r₂, hg₂, ⟨n, hn, hclosed, hcreated, hfingerprint⟩, hfrom⟩ :=
    exists_emptySnapshot hnode hstates
  obtain ⟨g₃, r₃, hg₃, happlied, hnode₃, -⟩ := exists_serviceCall "api" (some 3) none 3 g₂ rfl (by
    intro s hs
    rw [hfrom s hs]
    decide)
  refine ⟨g₁, r₁, g₂, r₂, g₃, r₃, .call (.call (.call .start hg₁) hg₂) hg₃, happlied, ?_⟩
  rintro ⟨⟨n', hn', hopen⟩, -⟩
  -- the fingerprint is that of the node
  have hmem : service "api" ∈ (sourceCall [service "api"] (some 3)).entities := mem_cons_self
  have hget := (@get?_retire_of_mem .sample _ rfl _ hmem 7 g₂).trans hn
  have hsame : stateChanged GraphConfig.sample.toConfig (service "api") 3 n = false := by
    simp [stateChanged, hfingerprint]
  have hnode₃ : g₃.nodes.get? (7, 1) = some _ := hnode₃
  rw [hnode₃, mergedNode, foundNode, hget] at hn'
  dsimp only at hn'
  rw [hsame, if_neg Bool.false_ne_true, Option.some.injEq] at hn'
  rw [← hn', hclosed] at hopen
  cases hopen

end

end Omniscience.Neo4j
