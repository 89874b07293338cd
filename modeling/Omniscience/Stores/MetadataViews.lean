import Omniscience.Lib.JsonText
import Omniscience.Stores.Bitemporal

/-!
# The metadata of an entity, written and read

A node holds the metadata of its entity as JSON text.  There are three mappers from rows to views:
`_entity_record_to_view` decodes the text, the mappers for the seed and for the neighbours of a
traversal hand it out as it is.

* `stored_of_writesMetadata` : what a batch leaves at the node of an entity.
* `round_trips_iff` : which reads return the metadata that was written.
-/

namespace Omniscience.Neo4j

open Outbox JsonText Dict List

variable (py : Py)

/-! ### The mappers -/

/-- `_deserialise_metadata`. -/
def deserialiseMetadata : Option Json → Metadata
  | some (.obj members) => members
  | some (.str raw) =>
    if raw = "" then []
    else match py.loads raw with
      | some (.obj members) => members
      | _ => []
  | _ => []

/-- `value or {}`. -/
def orEmpty : Option Json → Json
  | some v => if v.truthy then v else .obj []
  | none => .obj []

/-- `EntityNodeView`; the mappers of a traversal may put something else than a mapping into
`metadata`. -/
structure EntityNodeView where
  id : Uuid
  name : String
  kind : String
  source : String
  chunkText : Option String := none
  depth : ℕ := 0
  edgeType : Option String := none
  validFrom : Option ℕ
  validTo : Option ℕ
  recordedAt : Option ℕ
  version : Option ℤ := none
  metadata : Json

/-- A node with its key, as a statement matches it. -/
abbrev Item := NodeKey × Node

/-- The property `n.metadata` of a row. -/
def Item.metadata (item : Item) : Option Json := item.2.metadata.map .str

/-- What the three mappers have in common: `str` shows what is missing, and nothing ever writes the
text of a chunk. -/
def viewOf (item : Item) (depth : ℕ) (edgeType : Option String) (metadata : Json) :
    EntityNodeView where
  id := item.1.2
  name := item.2.name.getD "None"
  kind := item.2.kind.getD "None"
  source := item.2.sourceId.getD "None"
  depth := depth
  edgeType := edgeType.filter (· ≠ "")
  validFrom := item.2.validFrom
  validTo := item.2.validTo
  recordedAt := item.2.recordedAt
  metadata := metadata

/-- `_entity_record_to_view`. -/
def entityRecordToView (item : Item) : EntityNodeView :=
  viewOf item 0 none (.obj (deserialiseMetadata py item.metadata))

/-- `_neighbour_to_view`. -/
def neighbourToView (item : Item) (depth : ℕ) (edgeType : Option String) : EntityNodeView :=
  viewOf item depth edgeType (orEmpty item.metadata)

/-- The seed in `_rows_to_graph_result`. -/
def seedToView (item : Item) : EntityNodeView := viewOf item 0 none (orEmpty item.metadata)

/-! ### The reads -/

/-- The entities of a workspace with these properties. -/
def matchEntities (workspaceId : Uuid) (kind cluster name : Option String) (g : Graph) :
    List Item :=
  g.nodes.items.filter fun item =>
    item.1.1 = workspaceId &&
      kind.all (fun k => item.2.kind = some k) &&
      cluster.all (fun c => item.2.cluster = some c) &&
      name.all fun n => item.2.name = some n

/-- A neighbour that the pattern of a traversal has matched, with the length of the path and the
type of its last relationship. -/
structure Match where
  neighbour : Uuid
  depth : ℕ
  edgeType : Option String

/-- The row of a match; neighbours without a name are left out. -/
def Match.view (m : Match) (workspaceId : Uuid) (g : Graph) : Option EntityNodeView :=
  (g.nodes.get? (workspaceId, m.neighbour)).bind fun n =>
    if n.name.any (· ≠ "") then some (neighbourToView ((workspaceId, m.neighbour), n) m.depth
      m.edgeType) else none

/-- The reads of the current state.  What the pattern of a traversal matches is left open. -/
inductive Read where
  | getEntity (entityName : String)
  | listEntities (kind : String) (cluster name : Option String)
  | getAllEntities
  | findRelated (entityName : String) (matched : List Match)

/-- The read is a traversal. -/
def Read.isTraversal : Read → Bool
  | .findRelated _ _ => true
  | _ => false

/-- The views that a read may return.  Of several entities with the name, `get_entity` and
`find_related` take the one that the database gives first. -/
def Read.views (workspaceId : Uuid) (g : Graph) : Read → List EntityNodeView
  | .getEntity entityName =>
    (matchEntities workspaceId none none (some entityName) g).map (entityRecordToView py)
  | .listEntities kind cluster name =>
    ((matchEntities workspaceId (some kind) cluster name g).mergeSort fun a b =>
      decide (a.2.name.getD "" ≤ b.2.name.getD "")).map (entityRecordToView py)
  | .getAllEntities => (matchEntities workspaceId none none none g).map (entityRecordToView py)
  | .findRelated entityName matched =>
    (matchEntities workspaceId none none (some entityName) g).map seedToView ++
      matched.filterMap fun m => m.view workspaceId g

/-! ### What is written -/

/-- The node has the text of the metadata. -/
def Stored (g : Graph) (key : NodeKey) (metadata : Metadata) : Prop :=
  ∃ n, g.nodes.get? key = some n ∧ n.metadata = some (serialiseMetadata py metadata)

/-- The entity statement sets the properties of the node: always without bitemporal mode, and with
it for a new node and for a changed state. -/
def SetsProperties (cfg : GraphConfig) (entity : EntityUpsert) (workspaceId : Uuid) (now : ℕ)
    (g : Graph) : Prop :=
  cfg.bitemporal = false ∨ g.nodes.get? (workspaceId, entity.id) = none ∨
    stateChanged cfg.toConfig entity now (foundNode cfg.toConfig entity workspaceId now g) = true

/-- The call writes the metadata of the entity: its statement sets the properties, and no later one
of the batch is about the same id. -/
structure WritesMetadata (cfg : GraphConfig) (u : GraphUpsert) (workspaceId : Uuid) (now : ℕ)
    (g g' : Graph) (entity : EntityUpsert) : Prop where
  workspace : u.workspace cfg.py = .ok workspaceId
  returned : ∃ result, upsertGraph cfg u now g = .ok (g', result) ∧ result.applied = true
  batch : ∃ pre post found, u.entities = pre ++ entity :: post ∧
    (∀ later ∈ post, later.id ≠ entity.id) ∧
    pre.foldlM (writeEntity cfg u workspaceId now)
      (retire cfg u workspaceId (u.advance workspaceId g)).1 = .ok found ∧
    SetsProperties cfg { entity with sourceId := u.sourceId } workspaceId now found

section

variable {py} {cfg : GraphConfig} {u : GraphUpsert} {workspaceId w : Uuid} {now : ℕ} {g g' : Graph}
  {entity : EntityUpsert}

/-- **The entity statement** stores the text of the metadata, if it sets the properties. -/
theorem stored_writeEntity (h : writeEntity cfg u w now g entity = .ok g')
    (hsets : SetsProperties cfg { entity with sourceId := u.sourceId } w now g) :
    Stored cfg.py g' (w, entity.id) entity.metadata := by
  simp only [writeEntity] at h
  generalize hentity : ({ entity with sourceId := u.sourceId } : EntityUpsert) = e at h hsets
  have hid : entity.id = e.id := by rw [← hentity]
  have hmetadata : entity.metadata = e.metadata := by rw [← hentity]
  rw [hid, hmetadata]
  split at h
  · rename_i hbitemporal
    have hmode : ¬ cfg.bitemporal = false := by rw [hbitemporal]; exact Bool.noConfusion
    have hsets' := hsets.resolve_left hmode
    have hwritten : (if stateChanged cfg.toConfig e now (foundNode cfg.toConfig e w now g)
        then ((foundNode cfg.toConfig e w now g).withContent (contentOf cfg.py e)
          now).stamp (cfg.entityFingerprint e) now
        else foundNode cfg.toConfig e w now g).metadata =
          some (serialiseMetadata cfg.py e.metadata) := by
      split
      · rfl
      · rename_i hnot
        have hnone := hsets'.resolve_right hnot
        rw [foundNode, hnone]
        rfl
    rw [mergeEntityBitemporal] at h
    split at h
    · cases h
      exact ⟨_, get?_set_self _ _ _, hwritten⟩
    · split at h
      · cases h
      · cases h
        exact ⟨_, get?_set_self _ _ _, hwritten⟩
  · cases h
    refine ⟨_, get?_set_self _ _ _, ?_⟩
    cases g.nodes.get? (w, e.id) with
    | none => rfl
    | some n => rfl

/-- **What a batch leaves at the node of an entity.** -/
theorem stored_of_writesMetadata (h : WritesMetadata cfg u w now g g' entity) :
    Stored cfg.py g' (w, entity.id) entity.metadata := by
  obtain ⟨result, hcall, happlied⟩ := h.returned
  obtain ⟨merged, hentities, hedges⟩ := applies_of_applied hcall happlied h.workspace
  obtain ⟨pre, post, found, hsplit, hlast, hpre, hsets⟩ := h.batch
  rw [hsplit, foldlM_append, hpre, ok_bind, Fold.foldlM_cons_ok] at hentities
  obtain ⟨written, hwrite, hpost⟩ := hentities
  have hstored := stored_writeEntity hwrite hsets
  -- the entities after it have other ids, and an edge adds stubs only
  have hmerged : merged.nodes.get? (w, entity.id) = written.nodes.get? (w, entity.id) := by
    refine Fold.foldlM_frame hpost (fun g => g.nodes.get? (w, entity.id)) ?_
    intro later hlater c c' hstep
    obtain ⟨n, states, rfl⟩ := writeEntity_cases hstep
    refine get?_set_ne _ _ fun heq => hlast later hlater ?_
    exact (congrArg Prod.snd heq).symm
  refine Fold.foldlM_keeps hedges (fun g => Stored cfg.py g (w, entity.id)
    entity.metadata) ?_ ?_
  · obtain ⟨n, hn, hmetadata⟩ := hstored
    exact ⟨n, hmerged.trans hn, hmetadata⟩
  · rintro edge - c c' ⟨n, hn, hmetadata⟩ hstep
    obtain hkept | ⟨hnone, -⟩ := get?_writeBatchEdge hstep (w, entity.id)
    · exact ⟨n, hkept.trans hn, hmetadata⟩
    · rw [hn] at hnone
      cases hnone

/-- `json.loads` reads back what `json.dumps` writes, up to the order of the members, and what it
writes is not empty. -/
structure ReadsBack (py : Py) (metadata : Metadata) : Prop where
  loads : ∃ members, py.loads (serialiseMetadata py metadata) = some (.obj members) ∧
    sorted (.obj members) = sorted (.obj metadata)
  ne_empty : serialiseMetadata py metadata ≠ ""

/-- The view has a mapping that is equal to the metadata. -/
def EntityNodeView.RoundTrips (view : EntityNodeView) (metadata : Metadata) : Prop :=
  ∃ members, view.metadata = .obj members ∧ sorted (.obj members) = sorted (.obj metadata)

theorem mem_matchEntities {kind cluster name : Option String} {item : Item}
    (h : item ∈ matchEntities w kind cluster name g) :
    item.1.1 = w ∧ g.nodes.get? item.1 = some item.2 := by
  obtain ⟨hitem, htest⟩ := mem_filter.1 h
  simp only [Bool.and_eq_true, decide_eq_true_eq] at htest
  exact ⟨htest.1.1.1, get?_of_mem_items hitem⟩

theorem mem_views {read : Read} {view : EntityNodeView} (h : view ∈ read.views py w g) :
    ∃ n, g.nodes.get? (w, view.id) = some n ∧ view.metadata =
      if read.isTraversal then orEmpty (n.metadata.map .str)
      else .obj (deserialiseMetadata py (n.metadata.map .str)) := by
  -- the views of the statements that end in the decoding mapper
  have hdecoded : ∀ {items : List Item}, (∀ item ∈ items, item.1.1 = w ∧
      g.nodes.get? item.1 = some item.2) → view ∈ items.map (entityRecordToView py) →
        ∃ n, g.nodes.get? (w, view.id) = some n ∧
          view.metadata = .obj (deserialiseMetadata py (n.metadata.map .str)) := by
    intro items hitems hview
    obtain ⟨item, hitem, rfl⟩ := mem_map.1 hview
    obtain ⟨rfl, hnode⟩ := hitems item hitem
    exact ⟨item.2, hnode, rfl⟩
  cases read with
  | getEntity entityName => exact hdecoded (fun item hitem => mem_matchEntities hitem) h
  | listEntities kind cluster name =>
    exact hdecoded (fun item hitem => mem_matchEntities (mem_mergeSort.1 hitem)) h
  | getAllEntities => exact hdecoded (fun item hitem => mem_matchEntities hitem) h
  | findRelated entityName matched =>
    rcases mem_append.1 h with hseed | hrelated
    · obtain ⟨item, hitem, rfl⟩ := mem_map.1 hseed
      obtain ⟨rfl, hnode⟩ := mem_matchEntities hitem
      exact ⟨item.2, hnode, rfl⟩
    · obtain ⟨m, -, hview⟩ := mem_filterMap.1 hrelated
      rw [Match.view, Option.bind_eq_some_iff] at hview
      obtain ⟨n, hnode, hview⟩ := hview
      split at hview
      · cases hview
        exact ⟨n, hnode, rfl⟩
      · cases hview

/-- **Which reads return the metadata that was written**: a view of the entity has a mapping equal
to it if and only if the read is not a traversal. -/
theorem round_trips_iff (hjson : ReadsBack cfg.py entity.metadata)
    (hwrites : WritesMetadata cfg u workspaceId now g g' entity) {read : Read}
    {view : EntityNodeView} (hview : view ∈ read.views cfg.py workspaceId g')
    (hid : view.id = entity.id) :
    view.RoundTrips entity.metadata ↔ read.isTraversal = false := by
  obtain ⟨n, hnode, hmetadata⟩ := mem_views hview
  obtain ⟨n', hnode', htext⟩ := stored_of_writesMetadata hwrites
  rw [hid, hnode', Option.some.injEq] at hnode
  subst hnode
  rw [EntityNodeView.RoundTrips, hmetadata, htext, Option.map_some]
  cases htraversal : read.isTraversal with
  | true =>
    refine iff_of_false ?_ Bool.noConfusion
    rintro ⟨members, hmembers, -⟩
    have htruthy : (Json.str (serialiseMetadata cfg.py entity.metadata)).truthy = true :=
      decide_eq_true hjson.ne_empty
    rw [if_pos rfl, orEmpty, if_pos htruthy] at hmembers
    cases hmembers
  | false =>
    refine iff_of_true ?_ rfl
    obtain ⟨members, hloads, hsame⟩ := hjson.loads
    refine ⟨members, ?_, hsame⟩
    rw [if_neg Bool.false_ne_true, deserialiseMetadata, if_neg hjson.ne_empty, hloads]

end

/-! ### A service -/

/-- The store without bitemporal mode. -/
def plainConfig : GraphConfig where
  toConfig := .source .sample false
  stubEntityId := GraphConfig.sample.stubEntityId

/-- The item of a service that has just been written. -/
def serviceItem : Item :=
  ((7, 1), { ({} : Node).write .sample (service "api") 0 with createdAt := some 0 })

/-- The graph that holds it. -/
def serviceGraph : Graph where
  nodes := Dict.empty.set serviceItem.1 serviceItem.2

theorem writesMetadata_service : WritesMetadata plainConfig
    (sourceCall [service "api"] none) 7 0 {} serviceGraph (service "api") where
  workspace := rfl
  returned := ⟨{ applied := true, entitiesSubmitted := 1 }, rfl, rfl⟩
  batch := ⟨[], [], {}, rfl, by simp, rfl, .inl rfl⟩

theorem readsBack_service : ReadsBack plainConfig.py (service "api").metadata :=
  ⟨⟨[], rfl, rfl⟩, by decide⟩

/-- The listing of all entities has its metadata as a mapping. -/
theorem round_trips_service : ∃ view,
    view ∈ Read.getAllEntities.views plainConfig.py 7 serviceGraph ∧
      view.id = (service "api").id ∧ view.RoundTrips (service "api").metadata := by
  have hview : entityRecordToView plainConfig.py serviceItem ∈
      Read.getAllEntities.views plainConfig.py 7 serviceGraph := mem_cons_self
  exact ⟨_, hview, rfl, (round_trips_iff readsBack_service writesMetadata_service hview rfl).2 rfl⟩

/-- A traversal that starts at it has the text. -/
theorem encoded_at_seed :
    ¬ ∀ (cfg : GraphConfig) (u : GraphUpsert) (workspaceId : Uuid) (now : ℕ) (g g' : Graph)
      (entity : EntityUpsert) (read : Read) (view : EntityNodeView),
      ReadsBack cfg.py entity.metadata → WritesMetadata cfg u workspaceId now g g' entity →
        view ∈ read.views cfg.py workspaceId g' → view.id = entity.id →
          view.RoundTrips entity.metadata := by
  intro h
  have hview : seedToView serviceItem ∈
      (Read.findRelated "api" []).views plainConfig.py 7 serviceGraph := mem_cons_self
  obtain ⟨members, hmembers, -⟩ :=
    h _ _ _ _ _ _ _ _ _ readsBack_service writesMetadata_service hview rfl
  have htext : (seedToView serviceItem).metadata = .str "\x7b\x7d" := rfl
  rw [htext] at hmembers
  cases hmembers

end Omniscience.Neo4j
