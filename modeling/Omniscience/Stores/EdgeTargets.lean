import Omniscience.Stores.SharedSource

/-!
# The targets of the edges of a batch

An edge of a batch gives its target by id or by name, and `_edge_to_params` looks the name up among
the names and display names of the batch.  It answers with `None` when the target is not there, and
also when the target is the source itself.  The caller takes every `None` for the first case, and
leaves the edge to the statement that looks the name up in the graph.

`edges_faithful_iff` says when every relationship that the edges of a call create joins the source
of the edge to its target, and no node to itself.
-/

namespace Omniscience.Neo4j

open Outbox Dict
open List hiding contains

/-! ### What an edge asks for -/

/-- The target of an edge as far as the batch knows it. -/
def BatchEdge.resolved (u : GraphUpsert) (edge : BatchEdge) : Option Uuid :=
  match edge.targetEntityId, edge.targetName with
  | none, some name => (nameToId u.entities).get? name
  | target, _ => target

/-- The node is the target of the edge: the one with the id of the edge, or else the entity that the
name of the edge stands for in the batch, or else one with the name. -/
def BatchEdge.HasTarget (u : GraphUpsert) (workspaceId : Uuid) (edge : BatchEdge) (g : Graph)
    (key : NodeKey) : Prop :=
  key.1 = workspaceId ∧
    match edge.targetEntityId with
    | some target => key.2 = target
    | none => ∃ name, edge.targetName = some name ∧
      match (nameToId u.entities).get? name with
      | some target => key.2 = target ∧
        ∃ entity ∈ u.entities, entity.id = target ∧ (entity.name = name ∨ entity.displayName = name)
      | none => ∃ n, g.nodes.get? key = some n ∧ n.name = some name

/-- The relationship joins the source of the edge to its target, which is another node. -/
structure BatchEdge.JoinedBy (u : GraphUpsert) (workspaceId : Uuid) (edge : BatchEdge) (g : Graph)
    (r : Rel) : Prop where
  source : ∃ source, edge.sourceEntityId = some source ∧ r.source = (workspaceId, source)
  target : edge.HasTarget u workspaceId g r.target
  relType : r.relType = edge.edgeType
  no_loop : r.source ≠ r.target

/-- The relationships that a statement has created. -/
def created (g g' : Graph) : List Rel := g'.rels.drop g.rels.length

variable (cfg : GraphConfig)

/-- The call was applied, and `edge` is one of its batch, whose statement leads from `g₁` to
`g₂`. -/
inductive Submits (u : GraphUpsert) (now : ℕ) (g g' : Graph) (workspaceId : Uuid) (edge : BatchEdge)
    (g₁ g₂ : Graph) : Prop
  | intro (result : GraphWriteResult) (merged : Graph) (before after : List BatchEdge)
    (returned : upsertGraph cfg u now g = .ok (g', result)) (applied : result.applied = true)
    (workspace : u.workspace cfg.py = .ok workspaceId)
    (entities : u.entities.foldlM (writeEntity cfg u workspaceId now)
      (retire cfg u workspaceId (u.advance workspaceId g)).1 = .ok merged)
    (edges : u.edges = before ++ edge :: after)
    (earlier : before.foldlM (writeBatchEdge cfg u workspaceId now) merged = .ok g₁)
    (written : writeBatchEdge cfg u workspaceId now g₁ edge = .ok g₂)

/-- The node at which the statement by name ends. -/
def byNameTarget (workspaceId : Uuid) (name : String) (g : Graph) : Uuid :=
  (findByName workspaceId name g).getD (cfg.stubEntityId workspaceId name)

/-- The parameters of the statement by name. -/
def BatchEdge.byNameParams (u : GraphUpsert) (workspaceId : Uuid) (edge : BatchEdge) (g : Graph)
    (source : Uuid) (name : String) : EdgeParams :=
  ⟨source, byNameTarget cfg workspaceId name g, u.sourceId.str, edge.edgeType, edge.metadata⟩

/-- The edge goes astray: its source is a node without a relationship of the type to the one that
the name leads to, and

* in the batch the target is the source itself,
* or the batch does not have the target, and the name leads to the source, or to a stub whose id is
  that of a node with another name. -/
def BatchEdge.Strays (u : GraphUpsert) (workspaceId : Uuid) (edge : BatchEdge) (g : Graph) : Prop :=
  ∃ source name, edge.sourceEntityId = some source ∧ edge.targetName = some name ∧ name ≠ "" ∧
    g.nodes.contains (workspaceId, source) = true ∧
    (g.rels.any fun r => r.isOf (edge.byNameParams cfg u workspaceId g source name) workspaceId) =
      false ∧
    (edge.resolved u = some source ∨
      edge.resolved u = none ∧
        (byNameTarget cfg workspaceId name g = source ∨
          findByName workspaceId name g = none ∧
            g.nodes.contains (workspaceId, cfg.stubEntityId workspaceId name) = true))

/-! ### The names of a batch -/

section

variable {u : GraphUpsert} {edge : BatchEdge}

theorem get?_findByName {w id : Uuid} {name : String} {g : Graph}
    (h : findByName w name g = some id) :
    ∃ n, g.nodes.get? (w, id) = some n ∧ n.name = some name := by
  obtain ⟨item, hitem, rfl⟩ := Option.map_eq_some_iff.1 h
  have hmem := argmin_mem hitem
  rw [mem_filter, decide_eq_true_eq] at hmem
  obtain ⟨hitem, hws, hname⟩ := hmem
  refine ⟨item.2, ?_, hname⟩
  rw [← hws]
  exact get?_of_mem_items hitem

theorem findByName_eq_none {w id : Uuid} {name : String} {g : Graph} {n : Node}
    (h : findByName w name g = none) (hn : g.nodes.get? (w, id) = some n) :
    n.name ≠ some name := by
  intro hname
  rw [findByName, Option.map_eq_none_iff, argmin_eq_none, filter_eq_nil_iff] at h
  refine h ((w, id), n) (mem_items_of_get? hn) ?_
  simpa using hname

theorem exists_of_nameToId {entities : List EntityUpsert} {name : String} {id : Uuid}
    (h : (nameToId entities).get? name = some id) :
    ∃ entity ∈ entities, entity.id = id ∧ (entity.name = name ∨ entity.displayName = name) := by
  induction entities using List.reverseRecOn with
  | nil => cases h
  | append_singleton entities entity ih =>
    -- the entity is the last one that the table takes in
    have hlater : (∃ entity ∈ entities, entity.id = id ∧
          (entity.name = name ∨ entity.displayName = name)) →
        ∃ e ∈ entities ++ [entity], e.id = id ∧ (e.name = name ∨ e.displayName = name) := by
      rintro ⟨e, he, hid⟩
      exact ⟨e, mem_append_left _ he, hid⟩
    have hset : ((nameToId entities).set entity.name entity.id).get? name = some id →
        ∃ e ∈ entities ++ [entity], e.id = id ∧ (e.name = name ∨ e.displayName = name) := by
      intro hget
      by_cases hname : name = entity.name
      · rw [hname, get?_set_self, Option.some.injEq] at hget
        exact ⟨entity, by simp, hget, .inl hname.symm⟩
      · rw [get?_set_ne _ _ hname] at hget
        exact hlater (ih hget)
    rw [nameToId, foldl_append] at h
    change (if entity.displayName = "" then (nameToId entities).set entity.name entity.id
      else ((nameToId entities).set entity.name entity.id).setDefault entity.displayName
        entity.id).get? name = some id at h
    split at h
    · exact hset h
    · by_cases hname : name = entity.displayName
      · rw [setDefault] at h
        split at h
        · exact hset h
        · rw [hname, get?_set_self, Option.some.injEq] at h
          exact ⟨entity, by simp, h, .inr hname.symm⟩
      · rw [get?_setDefault_ne _ _ hname] at h
        exact hset h

/-- What `_edge_to_params` answers for the source and the target that it finds. -/
def paramsFor (u : GraphUpsert) (edge : BatchEdge) :
    Option Uuid → Option Uuid → Except Exc (Option EdgeParams)
  | some source, some target =>
    if source = target then .ok none
    else if !isValidEdgeType edge.edgeType then
      .error ⟨.valueError, "invalid_edge_type:" ++ edge.edgeType⟩
    else .ok (some ⟨source, target, u.sourceId.str, edge.edgeType, edge.metadata⟩)
  | _, _ => .ok none

theorem edgeToParams_cases {params : Option EdgeParams} (h : edgeToParams u edge = .ok params) :
    (params = none ∧ ∀ source, edge.sourceEntityId = some source →
        edge.resolved u = none ∨ edge.resolved u = some source) ∨
      ∃ source target, edge.sourceEntityId = some source ∧ edge.resolved u = some target ∧
        source ≠ target ∧
        params = some ⟨source, target, u.sourceId.str, edge.edgeType, edge.metadata⟩ := by
  have h : paramsFor u edge edge.sourceEntityId (edge.resolved u) = .ok params := h
  cases hsource : edge.sourceEntityId with
  | none =>
    rw [hsource] at h
    cases h
    exact .inl ⟨rfl, fun source h => by cases h⟩
  | some source =>
    cases htarget : edge.resolved u with
    | none =>
      rw [hsource, htarget] at h
      cases h
      exact .inl ⟨rfl, fun _ _ => .inl rfl⟩
    | some target =>
      rw [hsource, htarget, paramsFor] at h
      split at h
      · rename_i hloop
        cases h
        refine .inl ⟨rfl, fun s hs => .inr ?_⟩
        rw [← Option.some.inj hs, hloop]
      · rename_i hne
        split at h
        · cases h
        · cases h
          exact .inr ⟨source, target, rfl, rfl, hne, rfl⟩

theorem hasTarget_of_resolved {w target : Uuid} (g : Graph) (h : edge.resolved u = some target) :
    edge.HasTarget u w g (w, target) := by
  refine ⟨rfl, ?_⟩
  rw [BatchEdge.resolved] at h
  cases hid : edge.targetEntityId with
  | some id =>
    rw [hid] at h
    exact (Option.some.inj h).symm
  | none =>
    cases hname : edge.targetName with
    | none =>
      rw [hid, hname] at h
      cases h
    | some name =>
      rw [hid, hname] at h
      refine ⟨name, rfl, ?_⟩
      dsimp only at h
      rw [h]
      exact ⟨rfl, exists_of_nameToId h⟩

theorem BatchEdge.HasTarget.eq_of_resolved {w target : Uuid} {g : Graph} {key : NodeKey}
    (h : edge.HasTarget u w g key) (hresolved : edge.resolved u = some target) :
    key = (w, target) := by
  obtain ⟨hws, htarget⟩ := h
  refine Prod.ext hws ?_
  rw [BatchEdge.resolved] at hresolved
  cases hid : edge.targetEntityId with
  | some id =>
    rw [hid] at htarget hresolved
    exact htarget.trans (Option.some.inj hresolved)
  | none =>
    rw [hid] at htarget hresolved
    obtain ⟨name, hname, htarget⟩ := htarget
    rw [hname] at hresolved
    dsimp only at hresolved
    rw [hresolved] at htarget
    exact htarget.1

theorem hasTarget_iff_of_unresolved {w : Uuid} {g : Graph} {key : NodeKey} {name : String}
    (hname : edge.targetName = some name) (hresolved : edge.resolved u = none) :
    edge.HasTarget u w g key ↔
      key.1 = w ∧ ∃ n, g.nodes.get? key = some n ∧ n.name = some name := by
  rw [BatchEdge.resolved] at hresolved
  cases hid : edge.targetEntityId with
  | some id =>
    rw [hid] at hresolved
    cases hresolved
  | none =>
    rw [hid, hname] at hresolved
    dsimp only at hresolved
    rw [BatchEdge.HasTarget, hid]
    constructor
    · rintro ⟨hws, name', hname', hnode⟩
      rw [hname] at hname'
      cases hname'
      rw [hresolved] at hnode
      exact ⟨hws, hnode⟩
    · rintro ⟨hws, hnode⟩
      refine ⟨hws, name, hname, ?_⟩
      rw [hresolved]
      exact hnode

end

/-! ### What an edge statement creates -/

/-- Relationships are rewritten without touching their ends, and `new` are added. -/
def Extends (g g' : Graph) (new : List Rel) : Prop :=
  ∃ f : Rel → Rel, (∀ r, (f r).isLike r = true) ∧ g'.rels = g.rels.map f ++ new

theorem extends_nil {g g' : Graph} (h : g'.rels = g.rels) : Extends g g' [] :=
  ⟨id, Rel.isLike_self, by rw [map_id, append_nil, h]⟩

theorem created_of_extends {g g' : Graph} {new : List Rel} (h : Extends g g' new) :
    created g g' = new := by
  obtain ⟨f, -, hrels⟩ := h
  rw [created, hrels, drop_append_of_le_length (by simp), drop_eq_nil_of_le (by simp), nil_append]

section

variable {cfg} {u : GraphUpsert} {edge : BatchEdge} {workspaceId w : Uuid} {now : ℕ} {g g' : Graph}

theorem isOf_newRel {config : Config} {params : EdgeParams} :
    (newRel config params w now).isOf params w = true := by
  simp [Rel.isOf, newRel]

theorem extends_writeEdge (config : Config) (params : EdgeParams) (w : Uuid) (now : ℕ) (g : Graph) :
    ∃ new, Extends g (writeEdge config params w now g) new ∧
      ∀ r ∈ new, r.isOf params w = true := by
  have hcases : (writeEdge config params w now g).rels = g.rels ∨
      (writeEdge config params w now g).rels = mergeEdge config params w now g.rels ∨
      (writeEdge config params w now g).rels =
        mergeEdgeBitemporal config params w now g.rels := rels_writeEdge params g
  obtain hrels | hrels | hrels := hcases
  · exact ⟨[], extends_nil hrels, forall_mem_nil _⟩
  · rw [mergeEdge] at hrels
    split at hrels
    · refine ⟨[], ⟨_, fun r => ?_, by rw [hrels, append_nil]⟩, forall_mem_nil _⟩
      split
      · simp [Rel.isLike]
      · exact r.isLike_self
    · refine ⟨[newRel config params w now], ⟨id, Rel.isLike_self, ?_⟩, ?_⟩
      · rw [hrels, map_id]
      · intro r hr
        rw [mem_singleton.1 hr]
        exact isOf_newRel
  · rw [mergeEdgeBitemporal] at hrels
    have hnew : (newVersion config params w now).isOf params w = true := by
      simp [Rel.isOf, newVersion, newRel]
    split at hrels
    · refine ⟨_, ⟨_, fun r => ?_, hrels⟩, ?_⟩
      · split
        · simp [Rel.isLike, Rel.close]
        · exact r.isLike_self
      · intro r hr
        obtain ⟨_, -, rfl⟩ := mem_map.1 hr
        exact hnew
    · refine ⟨[newVersion config params w now], ⟨id, Rel.isLike_self, ?_⟩, ?_⟩
      · rw [hrels, map_id]
      · intro r hr
        rw [mem_singleton.1 hr]
        exact hnew

variable {source : Uuid}

theorem extends_upsertEdgeByName {name : String} (hsource : g.nodes.contains (w, source) = true) :
    Extends g
      (upsertEdgeByName cfg source name edge.edgeType u.sourceId.str edge.metadata w now
        g)
      (if g.rels.any fun r => r.isOf (edge.byNameParams cfg u w g source name) w
        then []
        else [newRel cfg.toConfig (edge.byNameParams cfg u w g source name) w
          now]) := by
  rw [upsertEdgeByName, hsource]
  by_cases hany : g.rels.any fun r =>
      r.isOf (edge.byNameParams cfg u w g source name) w
  · rw [if_pos hany]
    refine ⟨fun r => if r.isOf (edge.byNameParams cfg u w g source name) w then
      { r with
        updatedAt := if r.metadata ≠ serialiseMetadata cfg.py edge.metadata ∨
            r.sourceId ≠ u.sourceId.str then some now else r.updatedAt
        sourceId := u.sourceId.str
        metadata := serialiseMetadata cfg.py edge.metadata } else r, fun r => ?_, ?_⟩
    · dsimp only
      split
      · simp [Rel.isLike]
      · exact r.isLike_self
    · rw [append_nil]
      exact if_pos hany
  · rw [if_neg hany]
    refine ⟨id, Rel.isLike_self, ?_⟩
    rw [map_id]
    exact if_neg hany

theorem upsertEdgeByName_of_absent {name sourceId : String}
    (hsource : g.nodes.contains (w, source) = false) :
    upsertEdgeByName cfg source name edge.edgeType sourceId edge.metadata w now g =
      g := by
  rw [upsertEdgeByName, hsource]
  rfl

theorem name_byNameTarget {name sourceId : String} (hsource : g.nodes.contains (w, source) = true) :
    (∃ n, (upsertEdgeByName cfg source name edge.edgeType sourceId edge.metadata w now
        g).nodes.get? (w, byNameTarget cfg w name g) = some n ∧
        n.name = some name) ↔
      ¬ (findByName w name g = none ∧
        g.nodes.contains (w, cfg.stubEntityId w name) = true) := by
  have hnodes : (upsertEdgeByName cfg source name edge.edgeType sourceId edge.metadata w
      now g).nodes = g.nodes.setDefault (w, byNameTarget cfg w name g)
        { name := some name, isStub := some true, createdAt := some now } := by
    rw [upsertEdgeByName, hsource]
    rfl
  rw [hnodes]
  cases hfound : findByName w name g with
  | some id =>
    obtain ⟨n, hn, hname⟩ := get?_findByName hfound
    have hcontains : g.nodes.contains (w, id) = true := by
      rw [contains, hn]
      rfl
    rw [byNameTarget, hfound, Option.getD_some, setDefault, if_pos hcontains]
    exact ⟨fun _ h => Option.some_ne_none _ h.1, fun _ => ⟨n, hn, hname⟩⟩
  | none =>
    rw [byNameTarget, hfound, Option.getD_none, setDefault]
    by_cases hcontains : g.nodes.contains (w, cfg.stubEntityId w name) = true
    · rw [if_pos hcontains]
      refine ⟨?_, fun h => absurd ⟨rfl, hcontains⟩ h⟩
      rintro ⟨n, hn, hname⟩
      exact absurd hname (findByName_eq_none hfound hn)
    · rw [if_neg hcontains, get?_set_self]
      exact ⟨fun _ h => hcontains h.2, fun _ => ⟨_, rfl, rfl⟩⟩

theorem writeBatchEdge_inv (h : writeBatchEdge cfg u w now g edge = .ok g') :
    (∃ source target, edge.sourceEntityId = some source ∧ edge.resolved u = some target ∧
        source ≠ target ∧
        g' = writeEdge cfg.toConfig
          ⟨source, target, u.sourceId.str, edge.edgeType, edge.metadata⟩ w now g) ∨
      (∃ source name, edge.sourceEntityId = some source ∧ edge.targetName = some name ∧
        name ≠ "" ∧ (edge.resolved u = none ∨ edge.resolved u = some source) ∧
        g' = upsertEdgeByName cfg source name edge.edgeType u.sourceId.str edge.metadata
          w now g) ∨
      ((∀ name, edge.targetName = some name → name ≠ "" → edge.sourceEntityId = none) ∧
        g' = g) := by
  rw [writeBatchEdge] at h
  split at h
  · cases h
  · rename_i params hparams
    cases h
    obtain ⟨hnone, -⟩ | ⟨source, target, hsource, htarget, hne, heq⟩ := edgeToParams_cases hparams
    · cases hnone
    · cases heq
      exact .inl ⟨source, target, hsource, htarget, hne, rfl⟩
  · rename_i hparams
    split at h
    · rename_i hname
      cases h
      refine .inr (.inr ⟨fun name hname' => ?_, rfl⟩)
      rw [hname] at hname'
      cases hname'
    · rename_i name hname
      split at h
      · rename_i hempty
        cases h
        refine .inr (.inr ⟨fun name' hname' hne => ?_, rfl⟩)
        rw [hname] at hname'
        cases hname'
        exact absurd hempty hne
      · rename_i hne
        split at h
        · cases h
        · split at h
          · rename_i hsource
            cases h
            exact .inr (.inr ⟨fun _ _ _ => hsource, rfl⟩)
          · rename_i source hsource
            cases h
            obtain ⟨-, hresolved⟩ | ⟨_, _, _, _, _, hsome⟩ := edgeToParams_cases hparams
            · exact .inr (.inl ⟨source, name, hsource, hname, hne, hresolved source hsource, rfl⟩)
            · cases hsome

theorem strays_iff {name : String} (hsource : edge.sourceEntityId = some source)
    (hname : edge.targetName = some name) (hempty : name ≠ "") :
    edge.Strays cfg u w g ↔
      g.nodes.contains (w, source) = true ∧
        (g.rels.any fun r =>
          r.isOf (edge.byNameParams cfg u w g source name) w) = false ∧
        (edge.resolved u = some source ∨
          edge.resolved u = none ∧
            (byNameTarget cfg w name g = source ∨
              findByName w name g = none ∧
                g.nodes.contains (w, cfg.stubEntityId w name) = true)) := by
  constructor
  · rintro ⟨source', name', hsource', hname', -, hstrays⟩
    rw [hsource] at hsource'
    rw [hname] at hname'
    cases hsource'
    cases hname'
    exact hstrays
  · intro hstrays
    exact ⟨source, name, hsource, hname, hempty, hstrays⟩

/-- The relationship that the statement by name creates. -/
theorem joined_newRel_iff {name : String} (hsource : edge.sourceEntityId = some source)
    (hname : edge.targetName = some name)
    (hresolved : edge.resolved u = none ∨ edge.resolved u = some source)
    (hfound : g.nodes.contains (w, source) = true) :
    edge.JoinedBy u w
        (upsertEdgeByName cfg source name edge.edgeType u.sourceId.str edge.metadata w
          now g)
        (newRel cfg.toConfig (edge.byNameParams cfg u w g source name) w now) ↔
      ¬ (edge.resolved u = some source ∨
        edge.resolved u = none ∧
          (byNameTarget cfg w name g = source ∨
            findByName w name g = none ∧
              g.nodes.contains (w, cfg.stubEntityId w name) = true)) := by
  obtain hunknown | hself := hresolved
  · rw [hunknown]
    constructor
    · rintro ⟨-, htarget, -, hloop⟩ (hself | ⟨-, hback | htaken⟩)
      · cases hself
      · exact hloop (congrArg (Prod.mk w) hback.symm)
      · obtain ⟨-, hnode⟩ := (hasTarget_iff_of_unresolved hname hunknown).1 htarget
        exact (name_byNameTarget hfound).1 hnode htaken
    · intro hstays
      refine ⟨⟨source, hsource, rfl⟩, ?_, rfl, fun hloop => ?_⟩
      · refine (hasTarget_iff_of_unresolved hname hunknown).2 ⟨rfl, ?_⟩
        exact (name_byNameTarget hfound).2 fun htaken => hstays (.inr ⟨rfl, .inr htaken⟩)
      · exact hstays (.inr ⟨rfl, .inl (congrArg Prod.snd hloop).symm⟩)
  · refine ⟨fun hjoined => ?_, fun hstays => absurd (.inl hself) hstays⟩
    -- the target is the source itself, which the relationship does not join to itself
    have htarget := hjoined.target.eq_of_resolved hself
    exact absurd htarget.symm hjoined.no_loop

/-- **The step**: what the statement for an edge creates joins the source of the edge to its target
if and only if the edge does not go astray. -/
theorem joined_iff (h : writeBatchEdge cfg u w now g edge = .ok g') :
    (∀ r ∈ created g g', edge.JoinedBy u w g' r) ↔
      ¬ edge.Strays cfg u w g := by
  obtain ⟨source, target, hsource, htarget, hne, rfl⟩ |
    ⟨source, name, hsource, hname, hempty, hresolved, rfl⟩ | ⟨hnone, rfl⟩ := writeBatchEdge_inv h
  · -- the ends are known and differ
    obtain ⟨new, hextends, hnew⟩ := extends_writeEdge cfg.toConfig
      ⟨source, target, u.sourceId.str, edge.edgeType, edge.metadata⟩ w now g
    rw [created_of_extends hextends]
    refine ⟨fun _ => ?_, fun _ r hr => ?_⟩
    · rintro ⟨source', name, hsource', -, -, -, -, hself | ⟨hunknown, -⟩⟩
      · rw [hsource'] at hsource
        rw [hself] at htarget
        exact hne ((Option.some.inj hsource).symm.trans (Option.some.inj htarget))
      · rw [hunknown] at htarget
        cases htarget
    · have hends := hnew r hr
      simp only [Rel.isOf, Bool.decide_and, Bool.and_eq_true, decide_eq_true_eq] at hends
      obtain ⟨-, hends, hended, htype⟩ := hends
      refine ⟨⟨source, hsource, hends⟩, ?_, htype, ?_⟩
      · rw [hended]
        exact hasTarget_of_resolved _ htarget
      · rw [hends, hended]
        exact fun heq => hne (congrArg Prod.snd heq)
  · rw [strays_iff hsource hname hempty]
    cases hfound : g.nodes.contains (w, source) with
    | false =>
      rw [upsertEdgeByName_of_absent hfound, created_of_extends (extends_nil rfl)]
      exact ⟨fun _ hstrays => Bool.false_ne_true hstrays.1, fun _ => forall_mem_nil _⟩
    | true =>
      rw [created_of_extends (extends_upsertEdgeByName hfound)]
      cases hany : g.rels.any fun r =>
          r.isOf (edge.byNameParams cfg u w g source name) w with
      | true =>
        rw [if_pos rfl]
        exact ⟨fun _ hstrays => (nomatch hstrays.2.1), fun _ => forall_mem_nil _⟩
      | false =>
        rw [if_neg Bool.false_ne_true, forall_mem_singleton,
          joined_newRel_iff hsource hname hresolved hfound]
        simp only [true_and]
  · rw [created_of_extends (extends_nil rfl)]
    refine ⟨fun _ => ?_, fun _ => forall_mem_nil _⟩
    rintro ⟨source, name, hsource, hname, hempty, -⟩
    rw [hnone name hname hempty] at hsource
    cases hsource

end

/-! ### Whole calls -/

section

variable {cfg} {u : GraphUpsert} {workspaceId w : Uuid} {now : ℕ} {g g' : Graph}

theorem isLike_retire {r : Rel} (h : r ∈ (retire cfg u w g).1.rels) :
    ∃ r₀ ∈ g.rels, r.isLike r₀ = true := by
  rw [retire] at h
  split at h
  · exact ⟨r, mem_of_mem_filter h, r.isLike_self⟩
  · split at h
    · obtain ⟨r₀, hr₀, rfl⟩ := mem_map.1 h
      refine ⟨r₀, hr₀, ?_⟩
      split
      · simp [Rel.isLike, Rel.close]
      · exact r₀.isLike_self
    · exact ⟨r, h, r.isLike_self⟩

theorem isLike_writeBatchEdge {edge : BatchEdge}
    (h : writeBatchEdge cfg u w now g edge = .ok g') {r : Rel} (hr : r ∈ g'.rels) :
    (∃ r₀ ∈ g.rels, r.isLike r₀ = true) ∨ r ∈ created g g' := by
  have hextends : ∃ new, Extends g g' new := by
    obtain ⟨_, _, _, _, _, rfl⟩ | ⟨source, name, -, -, -, -, rfl⟩ | ⟨-, rfl⟩ := writeBatchEdge_inv h
    · obtain ⟨new, hnew, -⟩ := extends_writeEdge cfg.toConfig _ w now g
      exact ⟨new, hnew⟩
    · cases hfound : g.nodes.contains (w, source) with
      | false =>
        rw [upsertEdgeByName_of_absent hfound]
        exact ⟨[], extends_nil rfl⟩
      | true => exact ⟨_, extends_upsertEdgeByName hfound⟩
    · exact ⟨[], extends_nil rfl⟩
  obtain ⟨new, hnew⟩ := hextends
  rw [created_of_extends hnew]
  obtain ⟨f, hf, hrels⟩ := hnew
  rw [hrels, mem_append, mem_map] at hr
  obtain ⟨r₀, hr₀, rfl⟩ | hr := hr
  · exact .inl ⟨r₀, hr₀, hf r₀⟩
  · exact .inr hr

theorem isLike_upsertGraph {result : GraphWriteResult}
    (h : upsertGraph cfg u now g = .ok (g', result)) {r : Rel} (hr : r ∈ g'.rels) :
    (∃ r₀ ∈ g.rels, r.isLike r₀ = true) ∨
      ∃ w edge g₁ g₂, Submits cfg u now g g' w edge g₁ g₂ ∧
        ∃ r₁ ∈ created g₁ g₂, r.isLike r₁ = true := by
  obtain ⟨w, hws, ⟨-, -, rfl⟩ | ⟨-, happlied, merged, hentities, hedges⟩⟩ :=
    upsertGraph_cases h
  · exact .inl ⟨r, hr, r.isLike_self⟩
  have hmerged : merged.rels = (retire cfg u w (u.advance w g)).1.rels :=
    Fold.foldlM_frame hentities _ fun _ _ _ _ hstep => by
      obtain ⟨n, states, rfl⟩ := writeEntity_cases hstep
      rfl
  -- by induction on the edges that are written
  let I (before : List BatchEdge) (c : Graph) : Prop :=
    before.foldlM (writeBatchEdge cfg u w now) merged = .ok c ∧
      ∀ r ∈ c.rels, (∃ r₀ ∈ g.rels, r.isLike r₀ = true) ∨
        ∃ w edge g₁ g₂, Submits cfg u now g g' w edge g₁ g₂ ∧
          ∃ r₁ ∈ created g₁ g₂, r.isLike r₁ = true
  refine (Fold.foldlM_induction hedges I ⟨rfl, fun r hr => ?_⟩ ?_).2 r hr
  · rw [hmerged] at hr
    obtain ⟨r₀, hr₀, hlike⟩ := isLike_retire hr
    rw [rels_advance] at hr₀
    exact .inl ⟨r₀, hr₀, hlike⟩
  · intro before edge after c c' hsplit ⟨hbefore, hrels⟩ hstep
    refine ⟨?_, fun r hr => ?_⟩
    · rw [foldlM_append, hbefore]
      exact Fold.foldlM_cons_ok.2 ⟨c', hstep, rfl⟩
    · obtain ⟨r₁, hr₁, hlike⟩ | hnew := isLike_writeBatchEdge hstep hr
      · obtain ⟨r₀, hr₀, hlike'⟩ | ⟨ws, edge', g₁, g₂, hsubmits, r₂, hr₂, hlike'⟩ := hrels r₁ hr₁
        · exact .inl ⟨r₀, hr₀, Rel.isLike_trans hlike hlike'⟩
        · exact .inr ⟨ws, edge', g₁, g₂, hsubmits, r₂, hr₂, Rel.isLike_trans hlike hlike'⟩
      · refine .inr ⟨w, edge, c, c', ?_, r, hnew, r.isLike_self⟩
        exact ⟨result, merged, before, after, h, happlied, hws, hentities, hsplit, hbefore, hstep⟩

end

/-- **The relationships of a batch**: every one that its edges create joins the source of the edge
to the target of the edge, another node, if and only if no edge goes astray at its turn. -/
theorem edges_faithful_iff (u : GraphUpsert) (now : ℕ) (g : Graph) :
    ((∀ g' workspaceId edge g₁ g₂, Submits cfg u now g g' workspaceId edge g₁ g₂ →
        ∀ r ∈ created g₁ g₂, edge.JoinedBy u workspaceId g₂ r) ↔
      ∀ g' workspaceId edge g₁ g₂, Submits cfg u now g g' workspaceId edge g₁ g₂ →
        ¬ edge.Strays cfg u workspaceId g₁) ∧
    ∀ g' result, upsertGraph cfg u now g = .ok (g', result) → ∀ r ∈ g'.rels,
      (∃ r₀ ∈ g.rels, r.isLike r₀ = true) ∨
        ∃ workspaceId edge g₁ g₂, Submits cfg u now g g' workspaceId edge g₁ g₂ ∧
          ∃ r₁ ∈ created g₁ g₂, r.isLike r₁ = true := by
  refine ⟨⟨fun hjoined => ?_, fun hstays => ?_⟩, fun g' result h r hr => isLike_upsertGraph h hr⟩
  · intro g' workspaceId edge g₁ g₂ hsubmits
    obtain ⟨_, _, _, _, _, _, _, _, _, _, hwritten⟩ := id hsubmits
    exact (joined_iff hwritten).1 (hjoined g' workspaceId edge g₁ g₂ hsubmits)
  · intro g' workspaceId edge g₁ g₂ hsubmits
    obtain ⟨_, _, _, _, _, _, _, _, _, _, hwritten⟩ := id hsubmits
    exact (joined_iff hwritten).2 (hstays g' workspaceId edge g₁ g₂ hsubmits)

/-! ### A loop -/

/-- A service, and an edge from it to its own name. -/
def selfNamed : GraphUpsert where
  sourceId := 1
  documentId := 2
  entities := [
    { id := 1, sourceId := 1, entityType := "service", name := "api", displayName := "" }]
  edges := [{ sourceEntityId := some 1, targetName := some "api", edgeType := "calls" }]
  workspaceId := some 7

/-- The service calls itself. -/
theorem selfNamed_loops : ∃ g result,
    upsertGraph { GraphConfig.sample with bitemporal := false } selfNamed 5 {} = .ok (g, result) ∧
      result.applied = true ∧ ∃ r ∈ g.rels, r.source = r.target := by
  refine ⟨_, _, rfl, rfl, _, mem_singleton_self _, ?_⟩
  decide

end Omniscience.Neo4j
