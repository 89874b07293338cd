import Omniscience.Retrieval.GraphQuery

/-!
# The answer of a traversal

`get_related` lists the entities around its seed and the edges that it has come across on the way
(`retrieval/graph_query.py`).  Its scope are the entities whose source has the workspace of the
caller or, for data from before there were workspaces, none.

* `getRelated_exact` : within this scope the entities are those that a walk of at most `max_depth`
  hops leads to, each once and at its distance, and the edges are those with an end nearer than that.
* `not_answersExactly_legacy` : an entity without a workspace is listed to every one.
-/

namespace Omniscience.GraphQuery

open List

variable {rank : Uuid → ℕ}

/-! ### What the answer is to be -/

/-- The entity with the id has a source that satisfies the condition. -/
def IsMember (db : Database rank) (condition : Source → Bool) (id : Uuid) : Prop :=
  ∃ entity ∈ db.entities.rows, entity.id = id ∧ joinsSource db condition entity = true

/-- The edge has its two ends at the two entities, in one direction or the other. -/
def Edge.Joins (edge : Edge) (a b : Uuid) : Prop :=
  edge.sourceEntityId = a ∧ edge.targetEntityId = b ∨
    edge.targetEntityId = a ∧ edge.sourceEntityId = b

/-- An undirected hop between two members along an allowed edge. -/
def Hop (db : Database rank) (condition : Source → Bool) (edgeTypes : Option (List String))
    (a b : Uuid) : Prop :=
  IsMember db condition a ∧ IsMember db condition b ∧
    ∃ edge ∈ db.edges.rows, hasEdgeType edgeTypes edge = true ∧ edge.Joins a b

/-- The triple is that of an allowed edge between members. -/
def IsTriple (db : Database rank) (condition : Source → Bool) (edgeTypes : Option (List String))
    (edge : Edge) (e : EdgeResult) : Prop :=
  edge ∈ db.edges.rows ∧ hasEdgeType edgeTypes edge = true ∧
    ∃ source ∈ db.entities.rows, ∃ target ∈ db.entities.rows,
      source.id = edge.sourceEntityId ∧ joinsSource db condition source = true ∧
      target.id = edge.targetEntityId ∧ joinsSource db condition target = true ∧
      e = ⟨source.name, target.name, edge.edgeType⟩

/-- The answer lists the members around the seed with their distances, and the edges with an end
nearer than the bound. -/
structure IsExact (db : Database rank) (condition : Source → Bool)
    (edgeTypes : Option (List String)) (maxDepth : ℤ) (seed : Uuid) (result : GraphResult)
    (report : List (Uuid × ℕ)) : Prop where
  related : List.Forall₂ (Describes db) result.related report
  once : (report.map Prod.fst).Nodup
  mem_report_iff : ∀ (v : Uuid) (k : ℕ), (v, k) ∈ report ↔
    v ≠ seed ∧ (k : ℤ) ≤ maxDepth ∧ IsLeast {n | Walk (Hop db condition edgeTypes) seed n v} k
  edges_once : result.edges.Nodup
  mem_edges_iff : ∀ e, e ∈ result.edges ↔ ∃ edge, IsTriple db condition edgeTypes edge e ∧
    ∃ (v : Uuid) (k : ℕ), (v = edge.sourceEntityId ∨ v = edge.targetEntityId) ∧ (k : ℤ) < maxDepth ∧
      IsLeast {n | Walk (Hop db condition edgeTypes) seed n v} k

/-- The traversal from the entity with the name is exact, if this is a member. -/
def AnswersExactly (db : Database rank) (condition : Source → Bool) (entityName : String)
    (workspaceId : Uuid) (maxDepth : ℤ) (edgeTypes : Option (List String)) : Prop :=
  ∀ seed, fetchEntityByName db workspaceId entityName = some seed →
    joinsSource db condition seed = true →
      ∃ result report, getRelated db entityName workspaceId maxDepth edgeTypes = .ok result ∧
        IsExact db condition edgeTypes maxDepth seed.id result report

/-! ### Hops -/

variable {db : Database rank} {workspaceId w : Uuid} {edgeTypes : Option (List String)}
  {maxDepth depth : ℕ} {t : Traversal} {s : Worklist.Search Uuid} {hop : Edge × Entity}

theorem fetchEntityById_eq_some {id : Uuid} {entity : Entity}
    (h : fetchEntityById db w id = some entity) :
    entity ∈ db.entities.rows ∧ entity.id = id ∧
      joinsSource db (workspacePredicate w) entity = true := by
  obtain ⟨hmem, hcond⟩ := mem_filter.1 (List.mem_of_mem_head? h)
  rw [Bool.and_eq_true, decide_eq_true_eq] at hcond
  exact ⟨hmem, hcond⟩

theorem exists_fetchEntityById {id : Uuid} (h : IsMember db (workspacePredicate w) id) :
    ∃ entity, fetchEntityById db w id = some entity := by
  obtain ⟨entity, hmem, hid, hjoin⟩ := h
  have hfilter : entity ∈ db.entities.rows.filter fun entity => entity.id = id &&
      joinsSource db (workspacePredicate w) entity :=
    mem_filter.2 ⟨hmem, by simp [hid, hjoin]⟩
  cases hhead : fetchEntityById db w id with
  | some first => exact ⟨first, rfl⟩
  | none =>
    rw [List.head?_eq_none_iff.1 hhead] at hfilter
    exact absurd hfilter not_mem_nil

theorem isMember_iff {id : Uuid} : IsMember db (workspacePredicate w) id ↔
      ∃ entity, fetchEntityById db w id = some entity := by
  refine ⟨exists_fetchEntityById, ?_⟩
  rintro ⟨entity, h⟩
  exact ⟨entity, fetchEntityById_eq_some h⟩

theorem mem_fetchAdjacent_iff {id : Uuid} {edge : Edge} {entity : Entity} :
    (edge, entity) ∈ fetchAdjacent db w edgeTypes id ↔
      edge ∈ db.edges.rows ∧ hasEdgeType edgeTypes edge = true ∧ edge.Joins id entity.id ∧
        entity ∈ db.entities.rows ∧
        joinsSource db (workspacePredicate w) entity = true := by
  rw [fetchAdjacent, mem_append, mem_joinFar_iff, mem_joinFar_iff]
  constructor
  · rintro (⟨he, hnear, htype, hx, hfar, hjoin⟩ | ⟨he, hnear, htype, hx, hfar, hjoin⟩)
    · exact ⟨he, htype, .inl ⟨hnear, hfar.symm⟩, hx, hjoin⟩
    · exact ⟨he, htype, .inr ⟨hnear, hfar.symm⟩, hx, hjoin⟩
  · rintro ⟨he, htype, ⟨hnear, hfar⟩ | ⟨hnear, hfar⟩, hx, hjoin⟩
    · exact .inl ⟨he, hnear, htype, hx, hfar.symm, hjoin⟩
    · exact .inr ⟨he, hnear, htype, hx, hfar.symm, hjoin⟩

theorem mem_neighbors_iff_hop {a b : Uuid} : b ∈ neighbors db w edgeTypes a ↔
      Hop db (workspacePredicate w) edgeTypes a b := by
  rw [neighbors, mem_filterMap]
  constructor
  · rintro ⟨⟨edge, entity⟩, hmem, hresolved⟩
    obtain ⟨he, htype, hjoins, hx, hjoin⟩ := mem_fetchAdjacent_iff.1 hmem
    unfold resolvedHop at hresolved
    split at hresolved
    · rename_i source target hsource htarget
      obtain rfl := Option.some.inj hresolved
      refine ⟨?_, ⟨entity, hx, rfl, hjoin⟩, edge, he, htype, hjoins⟩
      obtain ⟨rfl, -⟩ | ⟨rfl, -⟩ := hjoins
      · exact isMember_iff.2 ⟨source, hsource⟩
      · exact isMember_iff.2 ⟨target, htarget⟩
    · cases hresolved
  · rintro ⟨ha, ⟨entity, hx, rfl, hjoin⟩, edge, he, htype, hjoins⟩
    refine ⟨(edge, entity), mem_fetchAdjacent_iff.2 ⟨he, htype, hjoins, hx, hjoin⟩, ?_⟩
    have hb : IsMember db (workspacePredicate w) entity.id := ⟨entity, hx, rfl, hjoin⟩
    obtain ⟨source, hsource⟩ :
        ∃ source, fetchEntityById db w edge.sourceEntityId = some source := by
      obtain ⟨hs, -⟩ | ⟨-, hs⟩ := hjoins
      · exact exists_fetchEntityById (hs ▸ ha)
      · exact exists_fetchEntityById (hs ▸ hb)
    obtain ⟨target, htarget⟩ :
        ∃ target, fetchEntityById db w edge.targetEntityId = some target := by
      obtain ⟨-, ht⟩ | ⟨ht, -⟩ := hjoins
      · exact exists_fetchEntityById (ht ▸ hb)
      · exact exists_fetchEntityById (ht ▸ ha)
    simp only [resolvedHop, hsource, htarget]

/-! ### The edges that are listed -/

/-- The triple that a hop lists. -/
def resolvedEdge (db : Database rank) (workspaceId : Uuid) (hop : Edge × Entity) :
    Option EdgeResult :=
  match fetchEntityById db workspaceId hop.1.sourceEntityId,
    fetchEntityById db workspaceId hop.1.targetEntityId with
  | some source, some target => some ⟨source.name, target.name, hop.1.edgeType⟩
  | _, _ => none

/-- The triple is listed when the entity is expanded. -/
def ListedAt (db : Database rank) (workspaceId : Uuid) (edgeTypes : Option (List String))
    (id : Uuid) (e : EdgeResult) : Prop :=
  ∃ hop ∈ fetchAdjacent db workspaceId edgeTypes id, resolvedEdge db workspaceId hop = some e

theorem mem_addEdge {edge e : EdgeResult} {edges : List EdgeResult} :
    e ∈ addEdge edge edges ↔ e ∈ edges ∨ e = edge := by
  unfold addEdge
  split_ifs with h
  · exact ⟨.inl, fun hor => hor.elim id fun heq => heq ▸ h⟩
  · simp

theorem nodup_addEdge {edge : EdgeResult} {edges : List EdgeResult} (h : edges.Nodup) :
    (addEdge edge edges).Nodup := by
  unfold addEdge
  split_ifs with hmem
  · exact h
  · exact nodup_append.2 ⟨h, nodup_singleton _, by
      rintro a ha b hb rfl
      exact hmem (mem_singleton.1 hb ▸ ha)⟩

@[simp] theorem resultEdges_visitNeighbor (edge : Edge) (neighbor : Entity) (t : Traversal) :
    (visitNeighbor db depth edge neighbor t).resultEdges = t.resultEdges := by
  unfold visitNeighbor
  split_ifs
  · rfl
  · rfl

theorem mem_resultEdges_visitHop {e : EdgeResult} : e ∈ (visitHop db w depth t hop).resultEdges ↔
      e ∈ t.resultEdges ∨ resolvedEdge db w hop = some e := by
  unfold visitHop resolvedEdge
  cases fetchEntityById db w hop.1.sourceEntityId with
  | none => simp
  | some source =>
    cases fetchEntityById db w hop.1.targetEntityId with
    | none => simp
    | some target =>
      simp only [resultEdges_visitNeighbor, mem_addEdge, Option.some.injEq]
      exact or_congr Iff.rfl eq_comm

theorem nodup_resultEdges_visitHop (db : Database rank) (h : t.resultEdges.Nodup) :
    (visitHop db w depth t hop).resultEdges.Nodup := by
  unfold visitHop
  split
  · rw [resultEdges_visitNeighbor]
    exact nodup_addEdge h
  · exact h

theorem resultEdges_foldl_visitHop (db : Database rank) (w : Uuid) (depth : ℕ)
    (hops : List (Edge × Entity)) (h : t.resultEdges.Nodup) :
    (hops.foldl (visitHop db w depth) t).resultEdges.Nodup ∧
      ∀ e, e ∈ (hops.foldl (visitHop db w depth) t).resultEdges ↔
        e ∈ t.resultEdges ∨ ∃ hop ∈ hops, resolvedEdge db w hop = some e := by
  induction hops generalizing t with
  | nil => exact ⟨h, fun e => by simp⟩
  | cons hop hops ih =>
    obtain ⟨hnodup, hmem⟩ := ih (nodup_resultEdges_visitHop db h)
    refine ⟨hnodup, fun e => ?_⟩
    rw [foldl_cons, hmem e, mem_resultEdges_visitHop, or_assoc]
    simp only [mem_cons, exists_eq_or_imp]

/-! ### The loop -/

/-- The edges that are listed are those at the entities that have left the frontier below the
bound. -/
structure Lists (db : Database rank) (workspaceId : Uuid) (edgeTypes : Option (List String))
    (maxDepth : ℕ) (t : Traversal) (s : Worklist.Search Uuid) (expanded : List (Uuid × ℕ)) :
    Prop where
  found : s.found = expanded ++ s.queue
  once : t.resultEdges.Nodup
  mem_iff : ∀ e, e ∈ t.resultEdges ↔
    ∃ v k, (v, k) ∈ expanded ∧ k < maxDepth ∧ ListedAt db workspaceId edgeTypes v e

variable {expanded : List (Uuid × ℕ)}

theorem lists_initial (seed : Entity) :
    Lists db w edgeTypes maxDepth (initial seed) (Worklist.start seed.id) [] :=
  ⟨rfl, nodup_nil, fun e => by simp [initial]⟩

theorem Lists.turn {seed : EntityNode} (h : Lists db w edgeTypes maxDepth t s expanded)
    (hsim : Simulates db seed t s) :
    ∃ expanded', Lists db w edgeTypes maxDepth
      (GraphQuery.turn db w maxDepth edgeTypes t)
      (Worklist.turn (neighbors db w edgeTypes) maxDepth s) expanded' := by
  cases hfrontier : t.frontier with
  | nil =>
    have hqueue : s.queue = [] := by rw [← hsim.frontier, hfrontier]; rfl
    rw [turn_nil hfrontier, Worklist.turn_nil hqueue]
    exact ⟨expanded, h⟩
  | cons x rest =>
    have hqueue : s.queue = (x.1, x.2.1) :: rest.map fun x => (x.1, x.2.1) := by
      rw [← hsim.frontier, hfrontier]
      rfl
    refine ⟨expanded ++ [(x.1, x.2.1)], ?_⟩
    have hfound : s.found = expanded ++ [(x.1, x.2.1)] ++ rest.map fun x => (x.1, x.2.1) := by
      rw [h.found, hqueue, append_assoc, singleton_append]
    have hmem : ∀ e, (∃ v k, (v, k) ∈ expanded ++ [(x.1, x.2.1)] ∧ k < maxDepth ∧
          ListedAt db w edgeTypes v e) ↔
        e ∈ t.resultEdges ∨ x.2.1 < maxDepth ∧ ListedAt db w edgeTypes x.1 e := by
      intro e
      rw [h.mem_iff e]
      constructor
      · rintro ⟨v, k, hin, hk, hlisted⟩
        obtain hin | hin := mem_append.1 hin
        · exact .inl ⟨v, k, hin, hk, hlisted⟩
        · obtain ⟨rfl, rfl⟩ := Prod.mk.inj (mem_singleton.1 hin)
          exact .inr ⟨hk, hlisted⟩
      · rintro (⟨v, k, hin, hk, hlisted⟩ | ⟨hk, hlisted⟩)
        · exact ⟨v, k, mem_append_left _ hin, hk, hlisted⟩
        · exact ⟨x.1, x.2.1, mem_append_right _ (mem_singleton_self _), hk, hlisted⟩
    by_cases hk : maxDepth ≤ x.2.1
    · -- at the bound: nothing is listed
      rw [turn_of_le hfrontier hk, Worklist.turn_of_le hqueue hk]
      refine ⟨hfound, h.once, fun e => ?_⟩
      rw [hmem e]
      exact ⟨.inl, fun hor => hor.resolve_right fun hlt => absurd hlt.1 (not_lt.2 hk)⟩
    · obtain ⟨new, hnew, -⟩ := Worklist.foldl_discover (x.2.1 + 1) (neighbors db w edgeTypes x.1)
        { s with queue := rest.map fun x => (x.1, x.2.1) }
      have honce : ({ t with frontier := rest } : Traversal).resultEdges.Nodup := h.once
      obtain ⟨honce, hedges⟩ := resultEdges_foldl_visitHop db w (x.2.1 + 1)
        (fetchAdjacent db w edgeTypes x.1) honce
      rw [turn_of_lt hfrontier (not_le.1 hk), Worklist.turn_of_lt hqueue (not_le.1 hk), hnew]
      refine ⟨?_, honce, fun e => ?_⟩
      · show s.found ++ _ = _
        rw [hfound, append_assoc]
      · rw [hedges e, hmem e]
        exact or_congr Iff.rfl ⟨fun hlisted => ⟨not_le.1 hk, hlisted⟩, fun hlisted => hlisted.2⟩

theorem Lists.iterate {seed : EntityNode} (n : ℕ)
    (h : Lists db w edgeTypes maxDepth t s expanded) (hsim : Simulates db seed t s) :
    ∃ expanded', Lists db w edgeTypes maxDepth
      ((GraphQuery.turn db w maxDepth edgeTypes)^[n] t)
      ((Worklist.turn (neighbors db w edgeTypes) maxDepth)^[n] s) expanded' := by
  induction n generalizing t s expanded with
  | zero => exact ⟨expanded, h⟩
  | succ n ih =>
    obtain ⟨expanded', h'⟩ := h.turn hsim
    rw [Function.iterate_succ_apply, Function.iterate_succ_apply]
    exact ih h' (turn_simulates hsim)

theorem listedAt_iff {v : Uuid} {e : EdgeResult} : ListedAt db w edgeTypes v e ↔
      ∃ edge, IsTriple db (workspacePredicate w) edgeTypes edge e ∧
        (v = edge.sourceEntityId ∨ v = edge.targetEntityId) := by
  constructor
  · rintro ⟨⟨edge, entity⟩, hmem, hresolved⟩
    obtain ⟨he, htype, hjoins, hx, hjoin⟩ := mem_fetchAdjacent_iff.1 hmem
    unfold resolvedEdge at hresolved
    split at hresolved
    · rename_i source target hsource htarget
      obtain rfl := Option.some.inj hresolved
      obtain ⟨hsmem, hsid, hsjoin⟩ := fetchEntityById_eq_some hsource
      obtain ⟨htmem, htid, htjoin⟩ := fetchEntityById_eq_some htarget
      refine ⟨edge, ⟨he, htype, source, hsmem, target, htmem, hsid, hsjoin, htid, htjoin, rfl⟩, ?_⟩
      exact hjoins.imp (fun h => h.1.symm) fun h => h.1.symm
    · cases hresolved
  · rintro ⟨edge, ⟨he, htype, source, hsmem, target, htmem, hsid, hsjoin, htid, htjoin, rfl⟩, hv⟩
    have hnames : ∀ far, resolvedEdge db w (edge, far) =
        some ⟨source.name, target.name, edge.edgeType⟩ := by
      intro far
      obtain ⟨source', hsource⟩ := exists_fetchEntityById ⟨source, hsmem, hsid, hsjoin⟩
      obtain ⟨target', htarget⟩ := exists_fetchEntityById ⟨target, htmem, htid, htjoin⟩
      obtain ⟨hsmem', hsid', -⟩ := fetchEntityById_eq_some hsource
      obtain ⟨htmem', htid', -⟩ := fetchEntityById_eq_some htarget
      obtain rfl : source' = source :=
        db.entities.eq_of_place_eq hsmem' hsmem (by rw [hsid', hsid])
      obtain rfl : target' = target :=
        db.entities.eq_of_place_eq htmem' htmem (by rw [htid', htid])
      simp only [resolvedEdge, hsource, htarget]
    obtain rfl | rfl := hv
    · exact ⟨(edge, target), mem_fetchAdjacent_iff.2
        ⟨he, htype, .inl ⟨rfl, htid.symm⟩, htmem, htjoin⟩, hnames target⟩
    · exact ⟨(edge, source), mem_fetchAdjacent_iff.2
        ⟨he, htype, .inr ⟨rfl, hsid.symm⟩, hsmem, hsjoin⟩, hnames source⟩

/-! ### The answer -/

theorem isLeast_hop_iff {a v : Uuid} {k : ℕ} :
    IsLeast {n | Walk (fun a b => b ∈ neighbors db w edgeTypes a) a n v} k ↔
      IsLeast {n | Walk (Hop db (workspacePredicate w) edgeTypes) a n v} k := by
  have hrel : (fun a b => b ∈ neighbors db w edgeTypes a) =
      Hop db (workspacePredicate w) edgeTypes := by
    funext a b
    exact propext mem_neighbors_iff_hop
  rw [hrel]

/-- **Breadth-first traversal is exact.** -/
theorem getRelated_exact (db : Database rank) (entityName : String) (workspaceId : Uuid)
    {maxDepth : ℤ} (hdepth : 1 ≤ maxDepth) (edgeTypes : Option (List String)) :
    AnswersExactly db (workspacePredicate workspaceId) entityName workspaceId maxDepth
      edgeTypes := by
  rintro seed hseed -
  obtain ⟨bound, rfl⟩ : ∃ bound : ℕ, maxDepth = bound := ⟨maxDepth.toNat, by omega⟩
  have hmem : seed ∈ db.entities.rows := (mem_filter.1 (List.mem_of_mem_head? hseed)).1
  have hlength : (db.entities.rows.map Entity.id).length + 1 ≤ db.entities.rows.length + 1 := by
    rw [length_map]
  set next := neighbors db workspaceId edgeTypes
  set t := traverse db workspaceId bound edgeTypes seed with ht
  set s := (Worklist.turn next bound)^[db.entities.rows.length + 1] (Worklist.start seed.id) with hs
  have hsim : Simulates db (entityNode db seed 0 none) t s :=
    iterate_turn_simulates workspaceId bound edgeTypes _ (initial_simulates hmem)
  obtain ⟨expanded, hlists⟩ : ∃ expanded, Lists db workspaceId edgeTypes bound t s expanded :=
    (lists_initial seed).iterate _ (initial_simulates hmem)
  obtain ⟨hreport, hdescribes⟩ := hsim.report_eq
  have hqueue : s.queue = [] :=
    Worklist.queue_start_iterate seed.id (fun _ => mem_of_mem_neighbors) hlength
  have hfound : s.found = expanded := by rw [hlists.found, hqueue, append_nil]
  have hmemFound : ∀ v k, (v, k) ∈ s.found ↔ k ≤ bound ∧
      IsLeast {n | Walk (Hop db (workspacePredicate workspaceId) edgeTypes) seed.id n v} k := by
    intro v k
    rw [← isLeast_hop_iff]
    exact Worklist.mem_found_iff (fun _ => mem_of_mem_neighbors) hlength
  have hnodup : (s.found.map Prod.fst).Nodup := Worklist.nodup_found_start_iterate _
  refine ⟨⟨entityNode db seed 0 none, t.relatedNodes, t.resultEdges⟩, s.found.tail, ?_, ?_⟩
  · simp only [getRelated, hseed]
    rw [max_eq_right hdepth, Int.toNat_natCast]
  · -- the seed is found first, and what is found later is the report
    obtain ⟨later, hlater⟩ := Worklist.found_iterate next bound (db.entities.rows.length + 1)
      (Worklist.start seed.id)
    have hcons : s.found = (seed.id, 0) :: later := hlater
    have honce : seed.id ∉ later.map Prod.fst ∧ (later.map Prod.fst).Nodup := by
      rw [hcons] at hnodup
      exact nodup_cons.1 hnodup
    refine ⟨hdescribes, ?_, fun v k => ?_, hlists.once, fun e => ?_⟩
    · rw [hcons]
      exact honce.2
    · have hsplit : (v, k) ∈ s.found ↔ (v, k) = (seed.id, 0) ∨ (v, k) ∈ later := by
        rw [hcons, mem_cons]
      rw [hcons, tail_cons, Int.ofNat_le, ← hmemFound, hsplit]
      constructor
      · intro hin
        refine ⟨?_, .inr hin⟩
        rintro rfl
        exact honce.1 (mem_map_of_mem (f := Prod.fst) hin)
      · rintro ⟨hne, heq | hin⟩
        · exact absurd (Prod.mk.inj heq).1 hne
        · exact hin
    · rw [hlists.mem_iff, ← hfound]
      constructor
      · rintro ⟨v, k, hin, hk, hlisted⟩
        obtain ⟨edge, htriple, hv⟩ := listedAt_iff.1 hlisted
        exact ⟨edge, htriple, v, k, hv, Int.ofNat_lt.2 hk, ((hmemFound v k).1 hin).2⟩
      · rintro ⟨edge, htriple, v, k, hv, hk, hleast⟩
        have hk : k < bound := Int.ofNat_lt.1 hk
        exact ⟨v, k, (hmemFound v k).2 ⟨hk.le, hleast⟩, hk, listedAt_iff.2 ⟨edge, htriple, hv⟩⟩

/-- Two services that call each other and themselves, and one of a source without a workspace. -/
def legacyRows : Database BitVec.toNat where
  sources := ⟨[⟨1, some 1⟩, ⟨2, none⟩], by decide⟩
  entities := ⟨[⟨1, 1, "service", "api", "API", none⟩, ⟨2, 1, "service", "db", "DB", none⟩,
    ⟨3, 2, "service", "cron", "cron", none⟩], by decide⟩
  edges := ⟨[⟨1, 1, 2, "calls"⟩, ⟨2, 2, 1, "calls"⟩, ⟨3, 1, 1, "calls"⟩, ⟨4, 2, 3, "runs"⟩],
    by decide⟩
  chunks := ⟨[⟨9, "cron"⟩], by decide⟩

theorem getRelated_exact_services :
    AnswersExactly legacyRows (workspacePredicate 1) "api" 1 2 none :=
  getRelated_exact legacyRows "api" 1 (by decide) none

/-- The entity without a workspace is listed, and is no entity of the workspace. -/
theorem not_answersExactly_legacy :
    ¬ AnswersExactly legacyRows (fun source => source.tenantId = some 1) "api" 1 2 none := by
  intro h
  obtain ⟨result, report, hresult, hexact⟩ := h ⟨1, 1, "service", "api", "API", none⟩ rfl rfl
  have hedges : ⟨"db", "cron", "runs"⟩ ∈ result.edges := by
    cases hresult
    decide
  obtain ⟨edge, ⟨he, -, source, -, target, htmem, -, -, htid, htjoin, heq⟩, -⟩ :=
    (hexact.mem_edges_iff _).1 hedges
  have hname : target.name = "cron" := (congrArg EdgeResult.toEntity heq).symm
  have hall : ∀ x ∈ legacyRows.entities.rows, x.name = "cron" →
      joinsSource legacyRows (fun source => source.tenantId = some 1) x = false := by decide
  rw [hall target htmem hname] at htjoin
  cases htjoin

end Omniscience.GraphQuery
