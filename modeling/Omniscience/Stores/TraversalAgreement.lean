import Omniscience.Stores.PathPattern

/-!
# Three traversals of one graph

The recursive query of the Lite mode, the search of the query service and the path pattern of the
graph store, on one entity graph of a workspace.  All three are told to report the entities around a
seed with their distances.  The search and the pattern follow the edges in both directions, up to
the ceiling of the pattern; the recursive query follows the outgoing ones.

* `search_reports`, `pattern_reports`, `recursive_reports` : what each of them reports.
* `traversals_agree` : where they agree.
-/

namespace Omniscience.TraversalAgreement

open GraphQuery RecursiveQuery PathPattern Trails Cypher List

variable {rank : Uuid → ℕ}

/-- The tables and the graph hold the same entities and edges, all of one workspace, and the graph
has no history; `place` are the element ids of the entities. -/
structure SameGraph (workspaceId : Uuid) (place : Uuid → ℕ) (db : Database rank)
    (g : Graph) : Prop where
  injective : Function.Injective place
  tenant : ∀ entity ∈ db.entities.rows, ∃ source ∈ db.sources.rows,
    source.id = entity.sourceId ∧ source.tenantId = some workspaceId
  ends : ∀ edge ∈ db.edges.rows, (∃ a ∈ db.entities.rows, a.id = edge.sourceEntityId) ∧
    ∃ b ∈ db.entities.rows, b.id = edge.targetEntityId
  nodes : ∀ entity ∈ db.entities.rows, g.has (fun n => n.isEntity workspaceId entity.id &&
    decide (n.name = some entity.name)) (place entity.id) = true
  entities : ∀ item ∈ g.nodes.items, item.2.isIn .entity workspaceId = true →
    ∃ entity ∈ db.entities.rows, item.1 = place entity.id
  rels : ∀ r ∈ g.rels, r.data.workspaceId = some workspaceId ∧ ∃ edge ∈ db.edges.rows,
    r.source = place edge.sourceEntityId ∧ r.target = place edge.targetEntityId ∧
      r.data.edgeType = some edge.edgeType
  edges : ∀ edge ∈ db.edges.rows, ∃ r ∈ g.rels, r.source = place edge.sourceEntityId ∧
    r.target = place edge.targetEntityId ∧ r.data.edgeType = some edge.edgeType

/-- An edge of the filter leads from one entity to the other. -/
def Leads (db : Database rank) (edgeTypes : Option (List String)) (a b : Uuid) : Prop :=
  ∃ edge ∈ db.edges.rows, hasEdgeType edgeTypes edge = true ∧ edge.sourceEntityId = a ∧
    edge.targetEntityId = b

/-- An edge of the filter joins the entities, in either direction. -/
def Adjacent (db : Database rank) (edgeTypes : Option (List String)) (a b : Uuid) : Prop :=
  Leads db edgeTypes a b ∨ Leads db edgeTypes b a

variable {db : Database rank} {g : Graph} {workspaceId w : Uuid} {place : Uuid → ℕ}
  {edgeTypes : Option (List String)} {maxDepth : ℤ} {seed : Entity}

namespace SameGraph

variable (h : SameGraph w place db g)
include h

theorem joins {entity : Entity} (hmem : entity ∈ db.entities.rows) :
    joinsSource db (isTenant w) entity = true ∧
      joinsSource db (workspacePredicate w) entity = true := by
  obtain ⟨source, hsource, hid, htenant⟩ := h.tenant entity hmem
  constructor
  · exact any_eq_true.2 ⟨source, hsource, by simp [isTenant, hid, htenant]⟩
  · exact any_eq_true.2 ⟨source, hsource, by simp [workspacePredicate, hid, htenant]⟩

theorem outgoing_iff {a b : Uuid} : Outgoing db w edgeTypes a b ↔ Leads db edgeTypes a b := by
  constructor
  · rintro ⟨⟨edge, entity⟩, hhop, rfl⟩
    obtain ⟨hedge, hsource, htype, -, hid, -⟩ := mem_joinFar_iff.1 hhop
    exact ⟨edge, hedge, htype, hsource, hid.symm⟩
  · rintro ⟨edge, hedge, htype, hsource, rfl⟩
    obtain ⟨-, entity, hmem, hid⟩ := h.ends edge hedge
    exact ⟨(edge, entity),
      mem_joinFar_iff.2 ⟨hedge, hsource, htype, hmem, hid, (h.joins hmem).1⟩, hid⟩

theorem resolvedHop_eq {edge : Edge} {entity : Entity} (hedge : edge ∈ db.edges.rows) :
    resolvedHop db w (edge, entity) = some entity.id := by
  have hresolved : ∀ {id : Uuid}, (∃ a ∈ db.entities.rows, a.id = id) →
      ∃ e, fetchEntityById db w id = some e := by
    rintro id ⟨a, hmem, rfl⟩
    have ha : a ∈ db.entities.rows.filter fun entity => entity.id = a.id &&
        joinsSource db (workspacePredicate w) entity :=
      mem_filter.2 ⟨hmem, by simp [(h.joins hmem).2]⟩
    exact ⟨_, List.head?_eq_some_head (ne_nil_of_mem ha)⟩
  obtain ⟨source, hsource⟩ := hresolved (h.ends edge hedge).1
  obtain ⟨target, htarget⟩ := hresolved (h.ends edge hedge).2
  unfold resolvedHop
  rw [hsource, htarget]

theorem mem_neighbors_iff {a b : Uuid} :
    b ∈ neighbors db w edgeTypes a ↔ Adjacent db edgeTypes a b := by
  unfold neighbors
  rw [mem_filterMap]
  constructor
  · rintro ⟨⟨edge, entity⟩, hhop, hresolved⟩
    obtain hhop | hhop := mem_append.1 hhop
    · obtain ⟨hedge, hnear, htype, -, hfar, -⟩ := mem_joinFar_iff.1 hhop
      rw [h.resolvedHop_eq hedge] at hresolved
      exact .inl ⟨edge, hedge, htype, hnear, hfar.symm.trans (Option.some.inj hresolved)⟩
    · obtain ⟨hedge, hnear, htype, -, hfar, -⟩ := mem_joinFar_iff.1 hhop
      rw [h.resolvedHop_eq hedge] at hresolved
      exact .inr ⟨edge, hedge, htype, hfar.symm.trans (Option.some.inj hresolved), hnear⟩
  · rintro (⟨edge, hedge, htype, hsource, rfl⟩ | ⟨edge, hedge, htype, rfl, htarget⟩)
    · obtain ⟨-, entity, hmem, hid⟩ := h.ends edge hedge
      refine ⟨(edge, entity), mem_append_left _ (mem_joinFar_iff.2
        ⟨hedge, hsource, htype, hmem, hid, (h.joins hmem).2⟩), ?_⟩
      rw [h.resolvedHop_eq hedge, hid]
    · obtain ⟨⟨entity, hmem, hid⟩, -⟩ := h.ends edge hedge
      refine ⟨(edge, entity), mem_append_right _ (mem_joinFar_iff.2
        ⟨hedge, htarget, htype, hmem, hid, (h.joins hmem).2⟩), ?_⟩
      rw [h.resolvedHop_eq hedge, hid]

theorem follows_iff {r : Arc Cypher.Rel} {edge : Edge} (hr : r ∈ g.rels)
    (htype : r.data.edgeType = some edge.edgeType) :
    follows w edgeTypes r = hasEdgeType edgeTypes edge := by
  unfold follows hasEdgeType
  rw [(h.rels r hr).1, htype]
  match edgeTypes with
  | none | some [] => simp
  | some (type :: types) => simp

theorem joined_iff {a : Uuid} {j : ℕ} : Joined g.rels (follows w edgeTypes) (place a) j ↔
      ∃ b, j = place b ∧ Adjacent db edgeTypes a b := by
  constructor
  · rintro ⟨r, hr, hfollows, hdir⟩
    obtain ⟨-, edge, hedge, hsource, htarget, htype⟩ := h.rels r hr
    rw [h.follows_iff hr htype] at hfollows
    obtain ⟨hs, rfl⟩ | ⟨ht, rfl⟩ := hdir
    · exact ⟨edge.targetEntityId, htarget,
        .inl ⟨edge, hedge, hfollows, h.injective (hsource.symm.trans hs), rfl⟩⟩
    · exact ⟨edge.sourceEntityId, hsource,
        .inr ⟨edge, hedge, hfollows, rfl, h.injective (htarget.symm.trans ht)⟩⟩
  · rintro ⟨b, rfl, ⟨edge, hedge, htype, rfl, rfl⟩ | ⟨edge, hedge, htype, rfl, rfl⟩⟩
    · obtain ⟨r, hr, hsource, htarget, hrel⟩ := h.edges edge hedge
      exact ⟨r, hr, (h.follows_iff hr hrel).trans htype, .inl ⟨hsource, htarget⟩⟩
    · obtain ⟨r, hr, hsource, htarget, hrel⟩ := h.edges edge hedge
      exact ⟨r, hr, (h.follows_iff hr hrel).trans htype, .inr ⟨htarget, hsource⟩⟩

theorem walk_iff {a b : Uuid} {n : ℕ} :
    Walk (Joined g.rels (follows w edgeTypes)) (place a) n (place b) ↔
      Walk (Adjacent db edgeTypes) a n b := by
  constructor
  · intro hwalk
    obtain ⟨c, hc, hwalk⟩ := hwalk.lift fun a j => h.joined_iff.1
    exact h.injective hc ▸ hwalk
  · exact Walk.map fun a b hab => h.joined_iff.2 ⟨b, rfl, hab⟩

theorem exists_entity {i : ℕ} {n : Node} (hget : g.nodes.get? i = some n)
    (hin : n.isIn .entity w = true) :
    ∃ entity ∈ db.entities.rows, i = place entity.id ∧ n.id = some entity.id ∧
      n.name = some entity.name := by
  obtain ⟨entity, hmem, hi⟩ := h.entities (i, n) (Dict.mem_items_of_get? hget) hin
  obtain rfl : i = place entity.id := hi
  obtain ⟨n', hget', hnode⟩ := PropertyGraph.has_iff.1 (h.nodes entity hmem)
  obtain rfl : n = n' := Option.some.inj (hget.symm.trans hget')
  simp only [Node.isEntity, Bool.and_eq_true, decide_eq_true_eq] at hnode
  exact ⟨entity, hmem, rfl, hnode.1.2, hnode.2⟩

end SameGraph

/-! ### What each of them reports -/

/-- The entity is the only one with its name. -/
def UniqueName (db : Database rank) (seed : Entity) : Prop :=
  seed ∈ db.entities.rows ∧ ∀ entity ∈ db.entities.rows, entity.name = seed.name → entity = seed

theorem head?_filter_name {condition : Entity → Bool} (hseed : UniqueName db seed)
    (hcondition : condition seed = true) :
    (db.entities.rows.filter fun entity => entity.name = seed.name && condition entity).head? =
      some seed := by
  have hmem : seed ∈ db.entities.rows.filter fun entity =>
      entity.name = seed.name && condition entity :=
    mem_filter.2 ⟨hseed.1, by simp [hcondition]⟩
  have hhead := List.head?_eq_some_head (ne_nil_of_mem hmem)
  obtain ⟨hfirst, hname⟩ := mem_filter.1 (List.mem_of_mem_head? hhead)
  rw [Bool.and_eq_true, decide_eq_true_eq] at hname
  rw [hhead, hseed.2 _ hfirst hname.1]

section

variable (h : SameGraph w place db g) (hseed : UniqueName db seed)
include h hseed

theorem fetchEntityByName_seed : fetchEntityByName db w seed.name = some seed :=
  head?_filter_name hseed (h.joins hseed.1).2

theorem findSeed_seed : findSeed db w seed.name = some seed :=
  head?_filter_name hseed (h.joins hseed.1).1

theorem search_reports (maxDepth : ℤ) (edgeTypes : Option (List String)) :
    Reports (Adjacent db edgeTypes) seed.id (max 1 maxDepth).toNat (fun _ => True)
      (relatedReport db seed.name w maxDepth edgeTypes) := by
  have hrelation : (fun a b => b ∈ neighbors db w edgeTypes a) =
      Adjacent db edgeTypes := by
    funext a b
    exact propext h.mem_neighbors_iff
  unfold relatedReport
  rw [fetchEntityByName_seed h hseed, ← hrelation]
  exact (reports_traverse w _ edgeTypes hseed.1).1

theorem recursive_reports (maxDepth : ℤ) (edgeTypes : Option (List String)) :
    ∃ result, RecursiveQuery.traverse db seed.name w maxDepth edgeTypes = .ok result ∧
      Reports (Leads db edgeTypes) seed.id maxDepth.toNat (fun _ => True) result.report := by
  have hrelation : Outgoing db w edgeTypes = Leads db edgeTypes := by
    funext a b
    exact propext h.outgoing_iff
  rw [← hrelation]
  exact RecursiveQuery.reports_traverse (findSeed_seed h hseed)

/-- The entity with the id has a name. -/
def isNamedEntity (db : Database rank) (id : Uuid) : Bool :=
  db.entities.rows.any fun entity => entity.id = id && entity.name ≠ ""

theorem matchSeeds_seed : ∃ n, matchSeeds g w seed.name = [(place seed.id, n)] ∧
    n.id = some seed.id := by
  obtain ⟨n, hget, hnode⟩ := PropertyGraph.has_iff.1 (h.nodes seed hseed.1)
  simp only [Node.isEntity, Bool.and_eq_true, decide_eq_true_eq] at hnode
  obtain ⟨⟨hin, hid⟩, hname⟩ := hnode
  refine ⟨n, ?_, hid⟩
  have hmem : (place seed.id, n) ∈ matchSeeds g w seed.name :=
    mem_filter.2 ⟨Dict.mem_items_of_get? hget, by simp [hin, hname]⟩
  have honly : ∀ item ∈ matchSeeds g w seed.name, item = (place seed.id, n) := by
    rintro ⟨i, n'⟩ hitem
    obtain ⟨hitems, hmatch⟩ := mem_filter.1 hitem
    rw [Bool.and_eq_true, decide_eq_true_eq] at hmatch
    have hget' := Dict.get?_of_mem_items hitems
    obtain ⟨entity, hentity, hi, -, hname'⟩ := h.exists_entity hget' hmatch.1
    obtain rfl := hseed.2 entity hentity (Option.some.inj (hname'.symm.trans hmatch.2))
    obtain rfl : i = place entity.id := hi
    exact Prod.ext rfl (Option.some.inj (hget'.symm.trans hget))
  have hnodup : (matchSeeds g w seed.name).Nodup :=
    (List.Nodup.of_map Prod.fst g.nodes.nodup).filter _
  cases hlist : matchSeeds g w seed.name with
  | nil =>
    rw [hlist] at hmem
    exact absurd hmem not_mem_nil
  | cons first others =>
    rw [hlist] at honly hnodup
    obtain rfl := honly first mem_cons_self
    cases others with
    | nil => rfl
    | cons second others =>
      have heq := honly second (mem_cons_of_mem _ mem_cons_self)
      exact absurd (heq ▸ mem_cons_self) (nodup_cons.1 hnodup).1

theorem pattern_reports (maxDepth : ℤ)
    (hvalid : ∀ types ∈ edgeTypes, ∀ value ∈ types, Neo4j.isValidEdgeType value = true) :
    ∃ result, findRelated g seed.name w maxDepth edgeTypes = .ok result ∧
      Reports (Adjacent db edgeTypes) seed.id (clampDepth maxDepth maxDepthCeiling)
        (fun v => True ∧ isNamedEntity db v = true) result.report := by
  obtain ⟨n₀, hseeds, hid⟩ := matchSeeds_seed h hseed
  have hids : ∀ i n, g.nodes.get? i = some n → n.isIn .entity w = true → ∃ id, n.id = some id := by
    intro i n hget hin
    obtain ⟨entity, -, -, hsome, -⟩ := h.exists_entity hget hin
    exact ⟨entity.id, hsome⟩
  obtain ⟨result, hresult, hreport⟩ := findRelated_of_seed maxDepth hseeds hid hids hvalid
  refine ⟨result, hresult, fun v d hmem => ?_, fun v k hne hnamed hk hleast => ?_⟩
  · obtain ⟨path, j, n, hpath, hget, hall, hin, hother, hname, hv, rfl⟩ := (hreport v d).1 hmem
    obtain ⟨entity, hentity, rfl, hid', hname'⟩ := h.exists_entity hget hin
    obtain rfl : entity.id = v := Option.some.inj (hid'.symm.trans hv)
    obtain ⟨-, hle, htrail⟩ := mem_paths_iff.1 hpath
    refine ⟨fun heq => hother (congrArg place heq), ⟨trivial, ?_⟩, hle,
      h.walk_iff.1 (walk_of_mem_trails htrail hall)⟩
    rw [hname'] at hname
    exact any_eq_true.2 ⟨entity, hentity, by simpa [isNamed] using hname⟩
  · obtain ⟨entity, hentity, hcond⟩ := any_eq_true.1 hnamed.2
    rw [Bool.and_eq_true, decide_eq_true_eq, decide_eq_true_eq] at hcond
    obtain ⟨rfl, hnonempty⟩ := hcond
    obtain ⟨n, hget, hnode⟩ := PropertyGraph.has_iff.1 (h.nodes entity hentity)
    simp only [Node.isEntity, Bool.and_eq_true, decide_eq_true_eq] at hnode
    have hleast' : IsLeast {n | Walk (Joined g.rels (follows w edgeTypes))
        (place seed.id) n (place entity.id)} k := by
      simpa only [h.walk_iff] using hleast
    obtain ⟨path, htrail, hall, -⟩ := exists_mem_trails hleast'
    have hlength := length_of_mem_trails htrail
    have hpath : path ≠ [] := by
      rintro rfl
      obtain rfl : k = 0 := hlength.symm
      exact hne (Walk.zero_iff.1 hleast.1)
    refine (hreport entity.id k).2 ⟨path, place entity.id, n,
      mem_paths_iff.2 ⟨hpath, hlength.le.trans hk, hlength.symm ▸ htrail⟩, hget, hall, hnode.1.1,
      fun heq => hne (h.injective heq), ?_, hnode.1.2, hlength⟩
    simpa [isNamed, hnode.2] using hnonempty

end

/-! ### Where they agree -/

/-- Outgoing edges lead to every entity within the bound in as few hops as edges in both directions
do. -/
def OutgoingSuffice (db : Database rank) (edgeTypes : Option (List String)) (seedId : Uuid)
    (bound : ℕ) : Prop :=
  ∀ v k, v ≠ seedId → k ≤ bound → IsLeast {n | Walk (Adjacent db edgeTypes) seedId n v} k →
    Walk (Leads db edgeTypes) seedId k v

theorem recursive_agrees_iff (edgeTypes : Option (List String))
    (h : SameGraph w place db g) (hseed : UniqueName db seed) (hdepth : 1 ≤ maxDepth) :
    ∃ result, RecursiveQuery.traverse db seed.name w maxDepth edgeTypes = .ok result ∧
      (leastDepth result.report =
          leastDepth (relatedReport db seed.name w maxDepth edgeTypes) ↔
        OutgoingSuffice db edgeTypes seed.id maxDepth.toNat) := by
  obtain ⟨result, hresult, hrecursive⟩ := recursive_reports h hseed maxDepth edgeTypes
  have hsearch := search_reports h hseed maxDepth edgeTypes
  rw [max_eq_right hdepth] at hsearch
  refine ⟨result, hresult, ?_⟩
  rw [hsearch.leastDepth_eq_iff_of_le (fun a b hab => .inl hab) hrecursive]
  simp only [OutgoingSuffice, forall_const]

/-- The graph store reports what the query service does up to the ceiling of six hops, without the
entities that have no name, and refuses edge types out of its alphabet; the recursive query reports
the same where outgoing edges suffice. -/
theorem traversals_agree (h : SameGraph workspaceId place db g) (hseed : UniqueName db seed)
    (hdepth : 1 ≤ maxDepth) :
    (∃ result, getRelated db seed.name workspaceId maxDepth edgeTypes = .ok result ∧
      List.Forall₂ (Describes db) result.related
        (relatedReport db seed.name workspaceId maxDepth edgeTypes)) ∧
    ((∀ types ∈ edgeTypes, ∀ value ∈ types, Neo4j.isValidEdgeType value = true) →
      ∃ result, findRelated g seed.name workspaceId maxDepth edgeTypes = .ok result ∧
        leastDepth result.report =
          leastDepth ((relatedReport db seed.name workspaceId (min maxDepth 6) edgeTypes).filter
            fun x => isNamedEntity db x.1)) ∧
    ((∃ types ∈ edgeTypes, ∃ value ∈ types, Neo4j.isValidEdgeType value = false) →
      ∃ value, findRelated g seed.name workspaceId maxDepth edgeTypes =
        .error ⟨.valueError, "invalid_edge_type:" ++ value⟩) ∧
    (OutgoingSuffice db edgeTypes seed.id maxDepth.toNat →
      ∃ result, RecursiveQuery.traverse db seed.name workspaceId maxDepth edgeTypes = .ok result ∧
        leastDepth result.report =
          leastDepth (relatedReport db seed.name workspaceId maxDepth edgeTypes)) := by
  refine ⟨getRelated_report (fetchEntityByName_seed h hseed) maxDepth, fun hvalid => ?_,
    findRelated_of_invalid, fun hsuffice => ?_⟩
  · obtain ⟨result, hresult, hpattern⟩ := pattern_reports h hseed maxDepth hvalid
    refine ⟨result, hresult, ?_⟩
    have hsearch := search_reports h hseed (min maxDepth 6) edgeTypes
    have hbound : (max 1 (min maxDepth 6)).toNat = clampDepth maxDepth maxDepthCeiling := by
      rw [clampDepth_eq hdepth, max_eq_right (by omega)]
      rfl
    rw [hbound] at hsearch
    exact hpattern.leastDepth_eq hsearch.filter
  · obtain ⟨result, hresult, hiff⟩ := recursive_agrees_iff edgeTypes h hseed hdepth
    exact ⟨result, hresult, hiff.2 hsuffice⟩

/-! A chain of eight entities of one source, the fifth without a name. -/

def chainNames : List (Uuid × String) :=
  [(1, "a"), (2, "b"), (3, "c"), (4, "d"), (5, ""), (6, "f"), (7, "g"), (8, "h")]

def chainEntity (x : Uuid × String) : Entity := ⟨x.1, 1, "service", x.2, x.2, none⟩

theorem sorted_chainSources :
    ([⟨1, some 1⟩] : List Source).Pairwise fun a b => a.id.toNat < b.id.toNat := by decide

def chainRows : Database BitVec.toNat where
  sources := ⟨[⟨1, some 1⟩], sorted_chainSources⟩
  entities := ⟨chainNames.map chainEntity, by decide⟩
  edges := ⟨[1, 2, 3, 4, 5, 6, 7].map fun i => ⟨i, i, i + 1, "depends_on"⟩, by decide⟩
  chunks := ⟨[], by decide⟩

def chainGraph : Graph where
  nodes := ⟨chainNames.map fun x => (x.1.toNat,
    { label := .entity, workspaceId := some 1, id := some x.1, name := some x.2 }), by decide⟩
  rels := [1, 2, 3, 4, 5, 6, 7].map fun i =>
    ⟨i, i + 1, { relType := "depends_on", workspaceId := some 1, edgeType := some "depends_on" }⟩
  ends := by decide

theorem sameGraph_chain : SameGraph 1 BitVec.toNat chainRows chainGraph where
  injective _ _ h := BitVec.eq_of_toNat_eq h
  tenant := by decide
  ends := by decide
  nodes := by decide
  entities := by decide
  rels := by decide
  edges := by decide

/-- The least depth of a report, if the traversal has given one. -/
def reportedDepth {ε : Type} (answer : Except ε GraphResultView) (v : Uuid) : Option ℕ :=
  match answer with
  | .ok result => leastDepth result.report v
  | .error _ => none

/-- The traversals differ on the chain: the graph store stops at its ceiling, refuses a filter and
leaves the entity without a name out; the recursive query does not go back along an edge. -/
theorem chain_traversals_differ : SameGraph 1 BitVec.toNat chainRows chainGraph ∧
    (leastDepth (relatedReport chainRows "a" 1 7 none) 8 = some 7 ∧
      reportedDepth (findRelated chainGraph "a" 1 7 none) 8 = none) ∧
    ((getRelated chainRows "a" 1 1 (some ["depends-on"])).isOk = true ∧
      findRelated chainGraph "a" 1 1 (some ["depends-on"]) =
        .error ⟨.valueError, "invalid_edge_type:depends-on"⟩) ∧
    (leastDepth (relatedReport chainRows "a" 1 4 none) 5 = some 4 ∧
      reportedDepth (findRelated chainGraph "a" 1 4 none) 5 = none) ∧
    leastDepth (relatedReport chainRows "h" 1 1 none) 7 = some 1 ∧
      reportedDepth (RecursiveQuery.traverse chainRows "h" 1 1 none) 7 = none :=
  ⟨sameGraph_chain, by decide, by decide, by decide, by decide,
    by decide⟩

theorem uniqueName_chain : UniqueName chainRows (chainEntity (1, "a")) := by
  constructor
  · decide
  · decide

theorem traversals_agree_chain :
    (∃ result, getRelated chainRows "a" 1 7 none = .ok result ∧
      List.Forall₂ (Describes chainRows) result.related (relatedReport chainRows "a" 1 7 none)) ∧
    (∃ result, findRelated chainGraph "a" 1 7 none = .ok result ∧
      leastDepth result.report = leastDepth ((relatedReport chainRows "a" 1 6 none).filter
        fun x => isNamedEntity chainRows x.1)) ∧
    (∃ value, findRelated chainGraph "a" 1 7 (some ["depends-on"]) =
      .error ⟨.valueError, "invalid_edge_type:" ++ value⟩) := by
  have hdepth : (1 : ℤ) ≤ 7 := by decide
  obtain ⟨hdescribe, hpattern, -, -⟩ := traversals_agree sameGraph_chain uniqueName_chain hdepth
  obtain ⟨-, -, hinvalid, -⟩ := traversals_agree sameGraph_chain uniqueName_chain hdepth
  exact ⟨hdescribe, hpattern (by simp), hinvalid ⟨_, rfl, "depends-on", by simp, by decide⟩⟩

end Omniscience.TraversalAgreement
