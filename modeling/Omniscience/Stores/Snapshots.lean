import Omniscience.Lib.Slots
import Omniscience.Stores.Bitemporal

/-!
# Snapshots that are ingested again

A snapshot closes every relationship at an entity of its source and then writes its edges.  An edge
of the batch that was closed comes back as a new relationship, so that the relationships differ from
those before, but the edges that are open do not: `Edge` is a relationship without its times.

The open edges of the graph are the items of slots, one for each pair of ends and type, with the
fingerprint as the stamp; the edge statement is `Slots.put`.
-/

namespace Omniscience.Neo4j

open Outbox List

/-! ### Open edges -/

/-- What a relationship says, whenever it says it. -/
structure Edge where
  workspaceId : Uuid
  source : NodeKey
  target : NodeKey
  relType : String
  sourceId : String
  metadata : String
  version : Option ℤ
  fingerprint : Option String

/-- The relationship without its times. -/
def Rel.edge (r : Rel) : Edge :=
  ⟨r.workspaceId, r.source, r.target, r.relType, r.sourceId, r.metadata, r.version, r.fingerprint⟩

/-- The place of an edge: there is meant to be one open relationship for it. -/
def Edge.slot (x : Edge) : Uuid × NodeKey × NodeKey × String :=
  (x.workspaceId, x.source, x.target, x.relType)

/-- The fingerprint, as the edge statement compares it. -/
def Edge.stamp (x : Edge) : String := x.fingerprint.getD ""

/-- The edges that are open. -/
def openEdges (rels : List Rel) : Set Edge := {x | ∃ r ∈ rels, r.validTo = none ∧ r.edge = x}

/-- The edge that a write creates. -/
def EdgeParams.edge (cfg : Config) (params : EdgeParams) (workspaceId : Uuid) : Edge where
  workspaceId := workspaceId
  source := (workspaceId, params.sourceIdEnt)
  target := (workspaceId, params.targetIdEnt)
  relType := params.edgeType
  sourceId := params.sourceId
  metadata := serialiseMetadata cfg.py params.metadata
  version := none
  fingerprint := some (params.fingerprint cfg)

section

variable {cfg : Config} {params : EdgeParams} {workspaceId w : Uuid} {now : ℕ} {r : Rel}
  {rels : List Rel}

theorem isOf_iff (cfg : Config) :
    r.isOf params w = true ↔ r.edge.slot = (params.edge cfg w).slot := by
  simp [Rel.isOf, Edge.slot, Rel.edge, EdgeParams.edge]

theorem isSuperseded_iff : r.isSuperseded cfg params w = true ↔
    r.edge.slot = (params.edge cfg w).slot ∧ r.validTo = none ∧
      r.edge.stamp ≠ (params.edge cfg w).stamp := by
  rw [Rel.isSuperseded, Bool.and_eq_true, Bool.and_eq_true, isOf_iff cfg, and_assoc]
  simp [Edge.stamp, Rel.edge, EdgeParams.edge]

theorem mem_openEdges_append {rels' : List Rel} {x : Edge} :
    x ∈ openEdges (rels ++ rels') ↔ x ∈ openEdges rels ∨ x ∈ openEdges rels' := by
  simp [openEdges, or_and_right, exists_or]

theorem mem_openEdges_close {p : Rel → Bool} {x : Edge} :
    x ∈ openEdges (rels.map fun r => if p r then r.close now else r) ↔
      ∃ r ∈ rels, p r = false ∧ r.validTo = none ∧ r.edge = x := by
  simp only [openEdges, mem_map, Set.mem_ofPred_eq, exists_exists_and_eq_and]
  refine exists_congr fun r => and_congr_right fun _ => ?_
  cases hp : p r with
  | true => simp [Rel.close]
  | false => simp

/-- **The edge statement puts its edge.** -/
theorem openEdges_mergeEdgeBitemporal : openEdges (mergeEdgeBitemporal cfg params w now rels) =
      Slots.put Edge.slot Edge.stamp (openEdges rels) (params.edge cfg w) := by
  ext x
  have hkept : (∃ r ∈ rels, r.isSuperseded cfg params w = false ∧ r.validTo = none ∧
      r.edge = x) ↔ x ∈ openEdges rels ∧ (x.slot = (params.edge cfg w).slot →
        x.stamp = (params.edge cfg w).stamp) := by
    constructor
    · rintro ⟨r, hr, hnot, hopen, rfl⟩
      refine ⟨⟨r, hr, hopen, rfl⟩, fun hslot => ?_⟩
      rw [← Bool.not_eq_true, isSuperseded_iff] at hnot
      by_contra hstamp
      exact hnot ⟨hslot, hopen, hstamp⟩
    · rintro ⟨⟨r, hr, hopen, rfl⟩, hstamp⟩
      refine ⟨r, hr, ?_, hopen, rfl⟩
      rw [← Bool.not_eq_true, isSuperseded_iff]
      exact fun hsuper => hsuper.2.2 (hstamp hsuper.1)
  have hsuper : (∃ r ∈ rels, r.isSuperseded cfg params w = true) ↔
      ∃ y ∈ openEdges rels, y.slot = (params.edge cfg w).slot ∧
        y.stamp ≠ (params.edge cfg w).stamp := by
    simp only [isSuperseded_iff, openEdges, Set.mem_ofPred_eq]
    constructor
    · rintro ⟨r, hr, hslot, hopen, hstamp⟩
      exact ⟨r.edge, ⟨r, hr, hopen, rfl⟩, hslot, hstamp⟩
    · rintro ⟨y, ⟨r, hr, hopen, rfl⟩, hslot, hstamp⟩
      exact ⟨r, hr, hslot, hopen, hstamp⟩
  have hfree : (rels.any fun r => r.isOf params w && r.validTo.isNone) = false ↔
      ∀ y ∈ openEdges rels, y.slot ≠ (params.edge cfg w).slot := by
    simp only [any_eq_false, Bool.and_eq_true, isOf_iff cfg, Option.isNone_iff_eq_none,
      openEdges, Set.mem_ofPred_eq]
    constructor
    · rintro h y ⟨r, hr, hopen, rfl⟩ hslot
      exact h r hr ⟨hslot, hopen⟩
    · intro h r hr ⟨hslot, hopen⟩
      exact h r.edge ⟨r, hr, hopen, rfl⟩ hslot
  rw [mergeEdgeBitemporal, Slots.put, Set.mem_ofPred_eq, ← hsuper, ← hfree]
  split
  · rename_i htaken
    rw [mem_openEdges_append, mem_openEdges_close, hkept]
    refine or_congr_right ?_
    simp only [htaken, Bool.true_eq_false, false_or, openEdges, mem_map, mem_filter,
      Set.mem_ofPred_eq]
    constructor
    · rintro ⟨r, ⟨s, ⟨hs, hsup⟩, rfl⟩, -, rfl⟩
      exact ⟨rfl, s, hs, hsup⟩
    · rintro ⟨rfl, s, hs, hsup⟩
      exact ⟨_, ⟨s, ⟨hs, hsup⟩, rfl⟩, rfl, rfl⟩
  · rename_i htaken
    rw [Bool.not_eq_true] at htaken
    have hall := hfree.1 htaken
    rw [mem_openEdges_append]
    refine or_congr ⟨fun hx => ⟨hx, fun hslot => absurd hslot (hall x hx)⟩, And.left⟩ ?_
    simp only [htaken, true_or, and_true, openEdges, mem_singleton, exists_eq_left,
      Set.mem_ofPred_eq]
    exact ⟨fun h => h.2.symm, fun h => ⟨rfl, h.symm⟩⟩

end

/-! ### The edges of a batch -/

/-- Every edge with a target name finds its target in the batch: none is written by name. -/
def GraphUpsert.IsResolved (u : GraphUpsert) : Prop :=
  ∀ edge ∈ u.edges, edge.targetName.getD "" ≠ "" → edgeToParams u edge ≠ .ok none

/-- The edge that an edge of the batch stands for, if it has both ends. -/
def batchEdge (cfg : GraphConfig) (u : GraphUpsert) (workspaceId : Uuid) (nodes : Dict NodeKey Node)
    (edge : BatchEdge) : Option Edge :=
  match edgeToParams u edge with
  | .ok (some params) =>
    if nodes.contains (workspaceId, params.sourceIdEnt) ∧
        nodes.contains (workspaceId, params.targetIdEnt) then
      some (params.edge cfg.toConfig workspaceId)
    else none
  | _ => none

section

variable {cfg : GraphConfig} {u : GraphUpsert} {workspaceId w : Uuid} {now : ℕ} {g g' : Graph}

theorem writeBatchEdge_of_resolved {edge : BatchEdge} (hresolved : u.IsResolved)
    (hedge : edge ∈ u.edges) (h : writeBatchEdge cfg u w now g edge = .ok g') :
    (edgeToParams u edge = .ok none ∧ g' = g) ∨
      ∃ params, edgeToParams u edge = .ok (some params) ∧
        g' = writeEdge cfg.toConfig params w now g := by
  obtain hnone | hwritten | ⟨source, name, hparams, hname, hne, -⟩ := writeBatchEdge_cases h
  · exact .inl hnone
  · exact .inr hwritten
  · have hnamed := hresolved edge hedge
    rw [hname] at hnamed
    exact absurd hparams (hnamed hne)

theorem openEdges_writeBatchEdge {edge : BatchEdge} (hbitemporal : cfg.bitemporal = true)
    (hresolved : u.IsResolved) (hedge : edge ∈ u.edges)
    (h : writeBatchEdge cfg u w now g edge = .ok g') :
    g'.nodes = g.nodes ∧ openEdges g'.rels = Slots.putAll Edge.slot Edge.stamp (openEdges g.rels)
      (batchEdge cfg u w g.nodes edge).toList := by
  obtain ⟨hparams, rfl⟩ | ⟨params, hparams, rfl⟩ := writeBatchEdge_of_resolved hresolved hedge h
  · rw [batchEdge, hparams]
    exact ⟨rfl, rfl⟩
  · refine ⟨nodes_writeEdge _ _, ?_⟩
    rw [batchEdge, hparams, writeEdge, if_pos hbitemporal]
    dsimp only
    split
    · rw [openEdges_mergeEdgeBitemporal]
      rfl
    · rfl

/-- The edges of the batch that have both ends. -/
def batchEdges (cfg : GraphConfig) (u : GraphUpsert) (workspaceId : Uuid)
    (nodes : Dict NodeKey Node) : List Edge :=
  u.edges.filterMap (batchEdge cfg u workspaceId nodes)

theorem filterMap_concat {α β : Type*} (f : α → Option β) (l : List α) (a : α) :
    (l ++ [a]).filterMap f = l.filterMap f ++ (f a).toList := by
  rw [filterMap_append]
  cases h : f a with
  | none => simp [h]
  | some b => simp [h]

/-- **The last stage puts the edges of the batch.** -/
theorem openEdges_foldlM (hbitemporal : cfg.bitemporal = true) (hresolved : u.IsResolved)
    (h : u.edges.foldlM (writeBatchEdge cfg u w now) g = .ok g') :
    g'.nodes = g.nodes ∧ openEdges g'.rels = Slots.putAll Edge.slot Edge.stamp (openEdges g.rels)
      (batchEdges cfg u w g.nodes) := by
  refine Fold.foldlM_induction h (fun pre c => c.nodes = g.nodes ∧ openEdges c.rels =
    Slots.putAll Edge.slot Edge.stamp (openEdges g.rels)
      (pre.filterMap (batchEdge cfg u w g.nodes))) ⟨rfl, rfl⟩ ?_
  rintro pre edge post c c' hsplit ⟨hnodes, hopen⟩ hstep
  have hedge : edge ∈ u.edges := by
    rw [hsplit]
    exact mem_append_right _ mem_cons_self
  obtain ⟨hnodes', hopen'⟩ := openEdges_writeBatchEdge hbitemporal hresolved hedge hstep
  refine ⟨hnodes'.trans hnodes, ?_⟩
  rw [hopen', hopen, hnodes, filterMap_concat, Slots.putAll_append]

/-! ### The end-dating stage -/

/-- The edge is one of the workspace at a node of the source. -/
def Graph.touches (g : Graph) (workspaceId : Uuid) (sourceId : String) (x : Edge) : Prop :=
  x.workspaceId = workspaceId ∧ (g.isOfSource workspaceId sourceId x.source = true ∨
    g.isOfSource workspaceId sourceId x.target = true)

theorem isEndDated_iff {sourceId : String} {r : Rel} (hopen : r.validTo = none) :
    g.isEndDated w sourceId r = true ↔ g.touches w sourceId r.edge := by
  simp [Graph.isEndDated, Graph.isIncident, Graph.touches, Rel.edge, hopen, and_comm]

theorem isEndDated_endDateEntities {sourceId : String} {ids : List Uuid} (r : Rel) :
    (endDateEntities w sourceId ids now g).isEndDated w sourceId r =
      g.isEndDated w sourceId r := by
  unfold Graph.isEndDated Graph.isIncident
  rw [isOfSource_endDateEntities, isOfSource_endDateEntities]

theorem rels_retire (hbitemporal : cfg.bitemporal = true) {snapshotAt : ℕ}
    (hsnapshot : u.snapshotAt = some snapshotAt) : (retire cfg u w g).1.rels = g.rels.map fun r =>
      if g.isEndDated w u.sourceId.str r then r.close snapshotAt else r := by
  rw [retire, hbitemporal, hsnapshot]
  refine map_congr_left fun r _ => ?_
  rw [isEndDated_endDateEntities]

theorem isOfSource_advance (u : GraphUpsert) (sourceId : String) (key : NodeKey) :
    (u.advance w g).isOfSource w sourceId key =
      g.isOfSource w sourceId key := by
  unfold Graph.isOfSource
  rw [nodes_advance]

theorem isGone_advance (u : GraphUpsert) (sourceId : String) (ids : List Uuid) (key : NodeKey) :
    (u.advance w g).isGone w sourceId ids key =
      g.isGone w sourceId ids key := by
  unfold Graph.isGone
  rw [isOfSource_advance, nodes_advance]

theorem isEndDated_advance (u : GraphUpsert) (sourceId : String) (r : Rel) :
    (u.advance w g).isEndDated w sourceId r =
      g.isEndDated w sourceId r := by
  unfold Graph.isEndDated Graph.isIncident
  rw [isOfSource_advance, isOfSource_advance]

theorem openEdges_retire (hbitemporal : cfg.bitemporal = true) (hsnapshot : u.snapshotAt.isSome) :
    openEdges (retire cfg u w (u.advance w g)).1.rels =
      {x | x ∈ openEdges g.rels ∧ ¬ g.touches w u.sourceId.str x} := by
  obtain ⟨snapshotAt, hsnapshot⟩ := Option.isSome_iff_exists.1 hsnapshot
  ext x
  rw [rels_retire hbitemporal hsnapshot, rels_advance, mem_openEdges_close, Set.mem_ofPred_eq]
  constructor
  · rintro ⟨r, hr, hkept, hopen, rfl⟩
    rw [isEndDated_advance, ← Bool.not_eq_true, isEndDated_iff hopen] at hkept
    exact ⟨⟨r, hr, hopen, rfl⟩, hkept⟩
  · rintro ⟨⟨r, hr, hopen, rfl⟩, hkept⟩
    refine ⟨r, hr, ?_, hopen, rfl⟩
    rw [isEndDated_advance, ← Bool.not_eq_true, isEndDated_iff hopen]
    exact hkept

theorem rels_writeEntities (h : u.entities.foldlM (writeEntity cfg u w now) g = .ok g') :
    g'.rels = g.rels := by
  refine Fold.foldlM_frame h Graph.rels fun entity _ c c' hstep => ?_
  obtain ⟨n, states, rfl⟩ := writeEntity_cases hstep
  rfl

/-- **An applied snapshot and the open edges**: those that touch the source go, and those of the
batch come. -/
theorem Applies.openEdges_eq (h : Applies cfg u w now g g')
    (hbitemporal : cfg.bitemporal = true) (hsnapshot : u.snapshotAt.isSome)
    (hresolved : u.IsResolved) :
    openEdges g'.rels = Slots.putAll Edge.slot Edge.stamp
      {x | x ∈ openEdges g.rels ∧ ¬ g.touches w u.sourceId.str x}
      (batchEdges cfg u w g'.nodes) := by
  obtain ⟨merged, hentities, hedges⟩ := h
  obtain ⟨hnodes, hopen⟩ := openEdges_foldlM hbitemporal hresolved hedges
  rw [hopen, hnodes, rels_writeEntities hentities, openEdges_retire hbitemporal hsnapshot]

/-! ### The nodes after a snapshot -/

/-- The batch has the entity. -/
def GraphUpsert.Has (u : GraphUpsert) (workspaceId : Uuid) (key : NodeKey) : Prop :=
  ∃ entity ∈ u.entities, key = (workspaceId, entity.id)

theorem Applies.entity_of_not_has (h : Applies cfg u w now g g')
    (hbitemporal : cfg.bitemporal = true) (hresolved : u.IsResolved) {key : NodeKey}
    (hkey : ¬ u.Has w key) :
    g'.nodes.get? key =
        (retire cfg u w (u.advance w g)).1.nodes.get? key ∧
      statesOf g' key = statesOf (retire cfg u w (u.advance w g)).1 key := by
  obtain ⟨merged, hentities, hedges⟩ := h
  have hmerged := Fold.foldlM_frame hentities (fun c => (c.nodes.get? key, statesOf c key)) ?_
  · have hnodes := (openEdges_foldlM hbitemporal hresolved hedges).1
    have hstates := Fold.foldlM_frame hedges (fun c => statesOf c key)
      fun edge _ c c' hstep => statesOf_writeBatchEdge hstep key
    rw [Prod.mk.injEq] at hmerged
    exact ⟨hnodes ▸ hmerged.1, hstates.trans hmerged.2⟩
  · intro entity hentity c c' hstep
    rw [writeEntity_bitemporal hbitemporal] at hstep
    have hne : key ≠ (w, (u.adopt entity).id) := fun heq => hkey ⟨entity, hentity, heq⟩
    rw [get?_mergeEntityBitemporal_ne hstep hne, statesOf_mergeEntityBitemporal_ne hstep hne]

/-- The batch says one thing about each entity. -/
def GraphUpsert.IsConsistent (u : GraphUpsert) (cfg : GraphConfig) : Prop :=
  ∀ entity ∈ u.entities, u.IsUnambiguous cfg entity

/-- The batch takes the entity over from another source. -/
def GraphUpsert.TakesOver (u : GraphUpsert) (workspaceId : Uuid) (g : Graph) (key : NodeKey) :
    Prop :=
  u.Has workspaceId key ∧ ∃ n, g.nodes.get? key = some n ∧ n.sourceId ≠ some u.sourceId.str

theorem sourceId_retire (hbitemporal : cfg.bitemporal = true) (u : GraphUpsert)
    (w : Uuid) (g : Graph) (key : NodeKey) :
    ((retire cfg u w (u.advance w g)).1.nodes.get? key).map Node.sourceId =
      (g.nodes.get? key).map Node.sourceId := by
  rw [get?_retire hbitemporal, nodes_advance]
  cases u.snapshotAt with
  | none => rfl
  | some snapshotAt =>
    dsimp only
    rw [Option.map_map]
    refine Option.map_congr fun n _ => ?_
    rw [Function.comp_apply]
    split
    · rfl
    · rfl

section

variable (h : Applies cfg u w now g g') (hbitemporal : cfg.bitemporal = true)
  (hresolved : u.IsResolved) (hconsistent : u.IsConsistent cfg)

include h hbitemporal hresolved

theorem Applies.sourceId_of_not_has {key : NodeKey} (hkey : ¬ u.Has w key) :
    (g'.nodes.get? key).map Node.sourceId = (g.nodes.get? key).map Node.sourceId := by
  rw [(h.entity_of_not_has hbitemporal hresolved hkey).1, sourceId_retire hbitemporal]

theorem Applies.isOfSource_before {key : NodeKey}
    (hkey : g'.isOfSource w u.sourceId.str key = true) :
    g.isOfSource w u.sourceId.str key = true ∨ g.nodes.get? key = none ∨
      u.TakesOver w g key := by
  obtain ⟨hws, n', hn', hsource'⟩ := isOfSource_iff.1 hkey
  cases hn : g.nodes.get? key with
  | none => exact .inr (.inl rfl)
  | some n =>
    by_cases hhas : u.Has w key
    · by_cases hsource : n.sourceId = some u.sourceId.str
      · exact .inl (isOfSource_iff.2 ⟨hws, n, hn, hsource⟩)
      · exact .inr (.inr ⟨hhas, n, hn, hsource⟩)
    · have hsame := h.sourceId_of_not_has hbitemporal hresolved hhas
      rw [hn', hn, Option.map_some, Option.map_some, Option.some.injEq, hsource'] at hsame
      exact .inl (isOfSource_iff.2 ⟨hws, n, hn, hsame.symm⟩)

theorem Applies.isGone_after (hsnapshot : u.snapshotAt.isSome) (key : NodeKey) :
    g'.isGone w u.sourceId.str (u.entities.map EntityUpsert.id) key = false := by
  obtain ⟨snapshotAt, hsnapshot⟩ := Option.isSome_iff_exists.1 hsnapshot
  rw [← Bool.not_eq_true]
  intro hgone
  simp only [Graph.isGone, Bool.and_eq_true, decide_eq_true_eq] at hgone
  obtain ⟨⟨hsource, hopen⟩, hids⟩ := hgone
  obtain ⟨hws, n', hn', hsource'⟩ := isOfSource_iff.1 hsource
  have hhas : ¬ u.Has w key := by
    rintro ⟨entity, hentity, rfl⟩
    exact hids (mem_map_of_mem hentity)
  have hnode := (h.entity_of_not_has hbitemporal hresolved hhas).1
  rw [hn', get?_retire hbitemporal, hsnapshot, nodes_advance, eq_comm, Option.map_eq_some_iff]
    at hnode
  obtain ⟨n, hn, heq⟩ := hnode
  rw [hn', Option.bind_some] at hopen
  split at heq
  · rw [← heq] at hopen
    cases hopen
  · -- it was open before, so that the snapshot has ended it
    rename_i hnot
    subst heq
    refine hnot ?_
    simp only [Graph.isGone, isOfSource_advance, nodes_advance, hn, Option.bind_some, hopen,
      Bool.and_true, Bool.and_eq_true, decide_eq_true_eq]
    exact ⟨isOfSource_iff.2 ⟨hws, n, hn, hsource'⟩, hids⟩

include hconsistent

theorem Applies.contains_iff {key : NodeKey} :
    g'.nodes.contains key = true ↔ g.nodes.contains key = true ∨ u.Has w key := by
  by_cases hhas : u.Has w key
  · obtain ⟨entity, hentity, rfl⟩ := hhas
    have hnode := (h.entity hbitemporal hentity (hconsistent entity hentity)).node
    rw [id_adopt] at hnode
    rw [Dict.contains, hnode]
    exact iff_of_true rfl (.inr ⟨entity, hentity, rfl⟩)
  · have hsame := congrArg Option.isSome (h.sourceId_of_not_has hbitemporal hresolved hhas)
    rw [Option.isSome_map, Option.isSome_map] at hsame
    rw [Dict.contains, Dict.contains, hsame, or_iff_left hhas]

end

/-! ### Relationships that a snapshot leaves -/

theorem getElem?_mergeEdgeBitemporal {params : EdgeParams} {rels : List Rel} {i : ℕ} {r : Rel}
    (hr : rels[i]? = some r) (hkept : r.isSuperseded cfg.toConfig params w = false) :
    (mergeEdgeBitemporal cfg.toConfig params w now rels)[i]? = some r := by
  have happend : ∀ {l l' : List Rel}, l[i]? = some r → (l ++ l')[i]? = some r := by
    intro l l' hl
    rw [List.getElem?_append_left (List.getElem?_eq_some_iff.1 hl).1]
    exact hl
  rw [mergeEdgeBitemporal]
  split
  · refine happend ?_
    rw [List.getElem?_map, hr, Option.map_some, hkept]
    rfl
  · exact happend hr

/-- **What an applied call leaves**: a relationship that does not touch the source and that no edge
of the batch supersedes. -/
theorem Applies.getElem?_rels (h : Applies cfg u w now g g')
    (hbitemporal : cfg.bitemporal = true) (hresolved : u.IsResolved) {i : ℕ} {r : Rel}
    (hr : g.rels[i]? = some r) (htouches : ¬ g.touches w u.sourceId.str r.edge)
    (hkept : ∀ edge ∈ u.edges, ∀ params, edgeToParams u edge = .ok (some params) →
      r.isSuperseded cfg.toConfig params w = false) :
    g'.rels[i]? = some r := by
  obtain ⟨merged, hentities, hedges⟩ := h
  refine Fold.foldlM_keeps hedges (fun c => c.rels[i]? = some r) ?_ ?_
  · rw [rels_writeEntities hentities]
    cases hsnapshot : u.snapshotAt with
    | none =>
      rw [retire, hbitemporal, hsnapshot]
      show (u.advance w g).rels[i]? = some r
      rw [rels_advance]
      exact hr
    | some snapshotAt =>
      have hnot : g.isEndDated w u.sourceId.str r = false := by
        rw [← Bool.not_eq_true]
        intro hended
        have hopen : r.validTo = none := by
          rw [Graph.isEndDated, Bool.and_eq_true, Option.isNone_iff_eq_none] at hended
          exact hended.2
        exact htouches ((isEndDated_iff hopen).1 hended)
      rw [rels_retire hbitemporal hsnapshot, rels_advance, List.getElem?_map, hr, Option.map_some,
        isEndDated_advance, hnot]
      rfl
  · intro edge hedge c c' hc hstep
    obtain ⟨-, rfl⟩ | ⟨params, hparams, rfl⟩ := writeBatchEdge_of_resolved hresolved hedge hstep
    · exact hc
    · rw [writeEdge, if_pos hbitemporal]
      split
      · exact getElem?_mergeEdgeBitemporal hc (hkept edge hedge params hparams)
      · exact hc

/-! ### The same snapshot again -/

/-- The two calls have the same source and the same batch. -/
structure SameSnapshot (u u' : GraphUpsert) : Prop where
  sourceId : u'.sourceId = u.sourceId
  entities : u'.entities = u.entities
  edges : u'.edges = u.edges
  workspaceId : u'.workspaceId = u.workspaceId

/-- Relationships join nodes. -/
def Graph.HasEnds (g : Graph) : Prop :=
  ∀ r ∈ g.rels, g.nodes.contains r.source = true ∧ g.nodes.contains r.target = true

variable {u' : GraphUpsert}

theorem SameSnapshot.edgeToParams (hsame : SameSnapshot u u') (edge : BatchEdge) :
    edgeToParams u' edge = edgeToParams u edge := by
  unfold Neo4j.edgeToParams
  rw [hsame.sourceId, hsame.entities]

theorem SameSnapshot.isResolved (hsame : SameSnapshot u u') (hresolved : u.IsResolved) :
    u'.IsResolved := by
  intro edge hedge hname
  rw [hsame.edgeToParams]
  exact hresolved edge (hsame.edges ▸ hedge) hname

theorem SameSnapshot.adopt (hsame : SameSnapshot u u') : u'.adopt = u.adopt := by
  funext entity
  rw [GraphUpsert.adopt, hsame.sourceId]
  rfl

theorem SameSnapshot.isConsistent (hsame : SameSnapshot u u') (hconsistent : u.IsConsistent cfg) :
    u'.IsConsistent cfg := by
  unfold GraphUpsert.IsConsistent GraphUpsert.IsUnambiguous
  rw [hsame.entities, hsame.adopt]
  exact hconsistent

theorem SameSnapshot.has_iff (hsame : SameSnapshot u u') {key : NodeKey} :
    u'.Has w key ↔ u.Has w key := by
  rw [GraphUpsert.Has, hsame.entities]
  rfl

theorem touches_congr {sourceId : String} {x y : Edge} (h : x.slot = y.slot) :
    g.touches w sourceId x ↔ g.touches w sourceId y := by
  simp only [Edge.slot, Prod.mk.injEq] at h
  rw [Graph.touches, Graph.touches, h.1, h.2.1, h.2.2.1]

theorem touches_of_touches (h : Applies cfg u w now g g')
    (hbitemporal : cfg.bitemporal = true) (hresolved : u.IsResolved) (hends : g.HasEnds) {r : Rel}
    (hr : r ∈ g.rels) (hsource : ¬ u.TakesOver w g r.source) (htarget : ¬ u.TakesOver w g r.target)
    (htouches : g'.touches w u.sourceId.str r.edge) :
    g.touches w u.sourceId.str r.edge := by
  have hback : ∀ {key}, g.nodes.contains key = true → ¬ u.TakesOver w g key →
      g'.isOfSource w u.sourceId.str key = true → g.isOfSource w u.sourceId.str key = true := by
    intro key hkey hnot hafter
    obtain hbefore | hnone | htakes := h.isOfSource_before hbitemporal hresolved hafter
    · exact hbefore
    · rw [Dict.contains, hnone] at hkey
      cases hkey
    · exact absurd htakes hnot
  obtain ⟨hws, hend⟩ := htouches
  obtain ⟨hsource', htarget'⟩ := hends r hr
  exact ⟨hws, hend.imp (hback hsource' hsource) (hback htarget' htarget)⟩

section

variable {u' : GraphUpsert} {now' : ℕ} {g₁ g₂ : Graph} (hsame : SameSnapshot u u')
  (h₁ : Applies cfg u w now g g₁) (h₂ : Applies cfg u' w now' g₁ g₂)
  (hbitemporal : cfg.bitemporal = true) (hresolved : u.IsResolved)
  (hconsistent : u.IsConsistent cfg)

include hsame h₁ h₂ hbitemporal hresolved hconsistent

theorem batchEdges_again : batchEdges cfg u' w g₂.nodes = batchEdges cfg u w g₁.nodes := by
  have hcontains : ∀ key, g₂.nodes.contains key = g₁.nodes.contains key := by
    intro key
    rw [Bool.eq_iff_iff, h₂.contains_iff hbitemporal (hsame.isResolved hresolved)
      (hsame.isConsistent hconsistent), hsame.has_iff,
      h₁.contains_iff hbitemporal hresolved hconsistent, or_assoc, or_self]
  rw [batchEdges, batchEdges, hsame.edges]
  refine filterMap_congr fun edge _ => ?_
  unfold batchEdge
  rw [hsame.edgeToParams]
  simp only [hcontains]

/-- **The same edges are open after the second application**, except at entities that the first
one took over. -/
theorem openEdges_again (hsnapshot : u.snapshotAt.isSome) (hsnapshot' : u'.snapshotAt.isSome)
    (hends : g.HasEnds) {x : Edge} (hsource : ¬ u.TakesOver w g x.source)
    (htarget : ¬ u.TakesOver w g x.target) :
    x ∈ openEdges g₂.rels ↔ x ∈ openEdges g₁.rels := by
  have hopen₁ := h₁.openEdges_eq hbitemporal hsnapshot hresolved
  have hopen₂ := h₂.openEdges_eq hbitemporal hsnapshot' (hsame.isResolved hresolved)
  rw [batchEdges_again hsame h₁ h₂ hbitemporal hresolved hconsistent, hsame.sourceId] at hopen₂
  by_cases htouches : g₁.touches w u.sourceId.str x
  · -- the slot is empty before the batch, both times
    have hempty : Slots.AgreeAt Edge.slot x.slot
        {y | y ∈ openEdges g₁.rels ∧ ¬ g₁.touches w u.sourceId.str y}
        {y | y ∈ openEdges g.rels ∧ ¬ g.touches w u.sourceId.str y} := by
      intro y hy
      refine iff_of_false (fun hmem => hmem.2 ((touches_congr hy).2 htouches)) ?_
      rintro ⟨⟨r, hr, -, rfl⟩, hnot⟩
      have hsource' : r.source = x.source := congrArg (fun slot => slot.2.1) hy
      have htarget' : r.target = x.target := congrArg (fun slot => slot.2.2.1) hy
      rw [← hsource'] at hsource
      rw [← htarget'] at htarget
      exact hnot (touches_of_touches h₁ hbitemporal hresolved hends hr hsource htarget
        ((touches_congr hy).2 htouches))
    have hput : x ∈ Slots.putAll Edge.slot Edge.stamp _ _ ↔ _ :=
      hempty.putAll (batchEdges cfg u w g₁.nodes) x rfl
    rwa [← hopen₂, ← hopen₁] at hput
  · -- nothing happens to the slot before the batch
    have hkept : Slots.AgreeAt Edge.slot x.slot
        {y | y ∈ openEdges g₁.rels ∧ ¬ g₁.touches w u.sourceId.str y}
        (openEdges g₁.rels) := by
      intro y hy
      exact and_iff_left ((touches_congr hy).not.2 htouches)
    have hput : x ∈ Slots.putAll Edge.slot Edge.stamp _ _ ↔ _ :=
      hkept.putAll (batchEdges cfg u w g₁.nodes) x rfl
    have hfixed : Slots.putAll Edge.slot Edge.stamp (openEdges g₁.rels)
        (batchEdges cfg u w g₁.nodes) = openEdges g₁.rels := by
      rw [hopen₁, Slots.putAll_putAll]
    rwa [← hopen₂, hfixed] at hput

/-- The state without the relationship that holds it. -/
def EntityState.bare (s : EntityState) : EntityState := { s with link := none }

theorem statesOf_again (hsnapshot : u.snapshotAt.isSome) (hsnapshot' : u'.snapshotAt.isSome)
    (hclock : ∀ key n, g.nodes.get? key = some n → n.createdAt ≠ some now) (key : NodeKey) :
    ∃ snapshotAt isOfSource,
      statesOf g₂ key = (statesOf g₁ key).map (unlinkState w snapshotAt isOfSource) := by
  obtain ⟨snapshotAt, hsnapshot'⟩ := Option.isSome_iff_exists.1 hsnapshot'
  refine ⟨snapshotAt, g₁.isOfSource w u'.sourceId.str key, ?_⟩
  by_cases hhas : u.Has w key
  · obtain ⟨entity, hentity, rfl⟩ := hhas
    have hentity' : entity ∈ u'.entities := hsame.entities ▸ hentity
    have hmerged := h₁.entity hbitemporal hentity (hconsistent entity hentity)
    have hagain := h₂.entity hbitemporal hentity' (hsame.isConsistent hconsistent entity hentity')
    rw [hsame.adopt] at hagain
    have hget := (get?_retire_of_mem hbitemporal hentity' w g₁).trans hmerged.node
    have hunlinked := statesOf_retire_of_mem hbitemporal hentity' w g₁
    rw [hsnapshot'] at hunlinked
    -- the first application left a state, and a node with the fingerprint
    have hheld : isHeld (retire cfg u' w (u'.advance w g₁)).1 (w, (u.adopt entity).id) = true := by
      rw [isHeld, id_adopt, hunlinked, any_map, ← hmerged.held]
      refine congrArg (List.any _) (funext fun s => ?_)
      exact isSome_link_unlinkState _ _ _ s
    have hold : ∀ n, (retire cfg u w (u.advance w g)).1.nodes.get?
        (w, (u.adopt entity).id) = some n → n.createdAt ≠ some now := by
      intro n hn
      rw [id_adopt, get?_retire_of_mem hbitemporal hentity] at hn
      exact hclock _ n hn
    have hkept : mergedStates cfg.toConfig (u.adopt entity) w now' _ = _ :=
      (merged_again (SameEntity.refl _ (u.adopt entity)) (.inr hold) hget hheld).2
    calc statesOf g₂ (w, entity.id)
        = mergedStates cfg.toConfig (u.adopt entity) w now' _ := hagain.states
      _ = _ := hkept
      _ = _ := hunlinked
  · have hhas' : ¬ u'.Has w key := fun h => hhas (hsame.has_iff.1 h)
    have hgone := h₁.isGone_after hbitemporal hresolved hsnapshot key
    rw [(h₂.entity_of_not_has hbitemporal (hsame.isResolved hresolved) hhas').2,
      statesOf_retire hbitemporal, hsnapshot', statesOf_advance, isGone_advance, hsame.sourceId,
      hsame.entities, hgone, isOfSource_advance]
    rfl

/-- **The same states are open after the second application.** -/
theorem openStates_again (hsnapshot : u.snapshotAt.isSome) (hsnapshot' : u'.snapshotAt.isSome)
    (hclock : ∀ key n, g.nodes.get? key = some n → n.createdAt ≠ some now) (key : NodeKey) :
    (openStates g₂ key).map EntityState.bare = (openStates g₁ key).map EntityState.bare := by
  obtain ⟨snapshotAt, isOfSource, hstates⟩ := statesOf_again hsame h₁ h₂ hbitemporal hresolved
    hconsistent hsnapshot hsnapshot' hclock key
  rw [openStates, hstates, filter_isNone_map (validTo_unlinkState _ _ _), map_map]
  refine map_congr_left fun s _ => ?_
  rw [Function.comp_apply, unlinkState]
  split
  · rfl
  · rfl

end

theorem SameSnapshot.workspace (hsame : SameSnapshot u u') (py : Py) :
    u'.workspace py = u.workspace py := by
  unfold GraphUpsert.workspace
  rw [hsame.workspaceId, hsame.entities]

/-- **A snapshot that is ingested again** leaves the same states and edges open, and every
relationship that does not touch the source keeps what it has, unless an edge of the batch
supersedes it. Entities that the batch takes over from another source are left out: the first
application does not see their edges as those of the source. -/
theorem snapshot_again {u' : GraphUpsert} {now' : ℕ} {g₁ g₂ : Graph} {r₁ r₂ : GraphWriteResult}
    (hbitemporal : cfg.bitemporal = true) (hsame : SameSnapshot u u')
    (hsnapshot : u.snapshotAt.isSome) (hsnapshot' : u'.snapshotAt.isSome)
    (hws : u.workspace cfg.py = .ok workspaceId)
    (hfirst : upsertGraph cfg u now g = .ok (g₁, r₁)) (happlied : r₁.applied = true)
    (hsecond : upsertGraph cfg u' now' g₁ = .ok (g₂, r₂)) (happlied' : r₂.applied = true)
    (hends : g.HasEnds) (hclock : ∀ key n, g.nodes.get? key = some n → n.createdAt ≠ some now)
    (hresolved : u.IsResolved) (hconsistent : u.IsConsistent cfg) :
    (∀ key, (openStates g₂ key).map EntityState.bare = (openStates g₁ key).map EntityState.bare) ∧
      (∀ x : Edge, ¬ u.TakesOver workspaceId g x.source → ¬ u.TakesOver workspaceId g x.target →
        (x ∈ openEdges g₂.rels ↔ x ∈ openEdges g₁.rels)) ∧
      ∀ (i : ℕ) (r : Rel), g.rels[i]? = some r →
        ¬ g.touches workspaceId u.sourceId.str r.edge →
        ¬ u.TakesOver workspaceId g r.source → ¬ u.TakesOver workspaceId g r.target →
        (∀ edge ∈ u.edges, ∀ params, edgeToParams u edge = .ok (some params) →
          r.isSuperseded cfg.toConfig params workspaceId = false) →
        g₁.rels[i]? = some r ∧ g₂.rels[i]? = some r := by
  have h₁ := applies_of_applied hfirst happlied hws
  have h₂ := applies_of_applied hsecond happlied' ((hsame.workspace cfg.py).trans hws)
  have hstates := openStates_again hsame h₁ h₂ hbitemporal hresolved hconsistent hsnapshot
    hsnapshot' hclock
  have hedges := fun x => openEdges_again hsame h₁ h₂ hbitemporal hresolved hconsistent hsnapshot
    hsnapshot' hends (x := x)
  refine ⟨hstates, hedges, fun i r hr htouches hsource htarget hkept => ?_⟩
  have hr₁ := h₁.getElem?_rels hbitemporal hresolved hr htouches hkept
  refine ⟨hr₁, h₂.getElem?_rels hbitemporal (hsame.isResolved hresolved) hr₁ ?_ ?_⟩
  · rw [hsame.sourceId]
    exact fun hafter => htouches (touches_of_touches h₁ hbitemporal hresolved hends
      (List.mem_of_getElem? hr) hsource htarget hafter)
  · intro edge hedge params hparams
    rw [hsame.edgeToParams] at hparams
    exact hkept edge (hsame.edges ▸ hedge) params hparams

theorem isStaleIn_second (entities : List EntityUpsert) (snapshotAt : Option ℕ)
    (h : g.documentCheckpoints = [⟨7, Uuid.str 3, 5, some 1, none⟩]) :
    (sourceCall entities snapshotAt (some 2)).isStaleIn 7 g = false := by
  simp [GraphUpsert.isStaleIn, sourceCall, readDocumentCheckpoint, checkpointsOf, h,
    DocumentCheckpoint.isOf, foldRecords, maxOf, isStale, exceeds]

/-- The snapshot with the service, as versions 1 and 2. -/
theorem snapshot_again_service : ∃ g₁ r₁ g₂ r₂,
      upsertGraph .sample (sourceCall [service "api"] (some 1) (some 1)) 1 {} = .ok (g₁, r₁) ∧
      upsertGraph .sample (sourceCall [service "api"] (some 2) (some 2)) 2 g₁ = .ok (g₂, r₂) ∧
      (openStates g₂ (7, 1)).map EntityState.bare = (openStates g₁ (7, 1)).map EntityState.bare ∧
      ∀ x, x ∈ openEdges g₂.rels ↔ x ∈ openEdges g₁.rels := by
  obtain ⟨g₁, r₁, hg₁, happlied₁, -, hstates⟩ := exists_first_snapshot "api" (some 1)
  have h₁ : Applies .sample _ 7 1 {} g₁ := applies_of_applied hg₁ happlied₁ rfl
  obtain ⟨g₂, r₂, hg₂, happlied₂, -⟩ := exists_serviceCall "api" (some 2) (some 2) 2 g₁
    (isStaleIn_second _ _ h₁.documentCheckpoints_eq) (validFrom_of_first hstates (by decide))
  have hconsistent : (sourceCall [service "api"] (some 1) (some 1)).IsConsistent .sample := by
    intro entity hentity entity' hentity' _
    obtain rfl := mem_singleton.1 hentity
    obtain rfl := mem_singleton.1 hentity'
    exact SameEntity.refl _ _
  have hsame : SameSnapshot (sourceCall [service "api"] (some 1) (some 1))
      (sourceCall [service "api"] (some 2) (some 2)) := ⟨rfl, rfl, rfl, rfl⟩
  obtain ⟨hopen, hedges, -⟩ := snapshot_again (g := {}) rfl hsame rfl rfl rfl hg₁
    happlied₁ hg₂ happlied₂ (fun r hr => (by cases hr)) (fun key n hn => (by cases hn))
    (fun edge hedge => (by cases hedge)) hconsistent
  refine ⟨g₁, r₁, g₂, r₂, hg₁, hg₂, hopen (7, 1), fun x => hedges x ?_ ?_⟩
  · rintro ⟨-, n, hn, -⟩
    cases hn
  · rintro ⟨-, n, hn, -⟩
    cases hn

/-- A service of source 3 that an entity of source 4 calls. -/
def calledService : Graph where
  nodes := .ofList [((7, 1), { sourceId := some (Uuid.str 3) }),
    ((7, 2), { sourceId := some (Uuid.str 4) })]
  rels := [
    { workspaceId := 7
      source := (7, 2)
      target := (7, 1)
      relType := "calls"
      sourceId := Uuid.str 4 }]

/-- The snapshots without the service close the edge of the other source. -/
theorem foreign_edge_closed : ∃ g₁ r₁ g₂ r₂,
      upsertGraph .sample (sourceCall [] (some 1) (some 1)) 1 calledService = .ok (g₁, r₁) ∧
      r₁.applied = true ∧
      upsertGraph .sample (sourceCall [] (some 2) (some 2)) 2 g₁ = .ok (g₂, r₂) ∧
      r₂.applied = true ∧
      calledService.rels[0]?.map Rel.sourceId = some (Uuid.str 4) ∧ Uuid.str 4 ≠ Uuid.str 3 ∧
      calledService.rels[0]?.map Rel.validTo = some none ∧
      g₁.rels[0]?.map Rel.validTo = some (some 1) := by
  obtain ⟨r₁, hg₁, happlied₁⟩ := exists_emptyCall (some 1) (some 1) 1 calledService rfl
  have h₁ : Applies .sample _ 7 1 calledService _ := applies_of_applied hg₁ happlied₁ rfl
  obtain ⟨r₂, hg₂, happlied₂⟩ := exists_emptyCall (some 2) (some 2) 2 _
    (isStaleIn_second _ _ h₁.documentCheckpoints_eq)
  refine ⟨_, r₁, _, r₂, hg₁, happlied₁, hg₂, happlied₂, rfl, ?_, rfl, ?_⟩
  · exact fun heq => absurd (Uuid.str_injective heq) (by decide)
  · -- the service is of the source
    have hservice : calledService.isOfSource 7 (Uuid.str 3) (7, 1) = true :=
      isOfSource_iff.2 ⟨rfl, _, rfl, rfl⟩
    have hended : ∀ r ∈ calledService.rels,
        (GraphUpsert.advance (sourceCall [] (some 1) (some 1)) 7 calledService).isEndDated 7
          (Uuid.str 3) r = true := by
      intro r hr
      obtain rfl := mem_singleton.1 hr
      rw [isEndDated_advance, isEndDated_iff rfl]
      exact ⟨rfl, .inr hservice⟩
    rw [rels_retire rfl rfl, rels_advance]
    exact congrArg (fun r => some (Rel.validTo r)) (if_pos (hended _ mem_cons_self))

end

end Omniscience.Neo4j
