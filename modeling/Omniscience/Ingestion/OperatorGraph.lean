import Omniscience.Outbox.Effects
import Omniscience.Retrieval.GraphRag
import Omniscience.Stores.Stubs
import Omniscience.Stores.Writes

/-!
# Operator events in the graph

The operator of a cluster reports its resources as events.  `operator_event_to_graph` makes an entity
and edges of an event, and `route_operator_event_to_graph` writes them: by the rows of the outbox,
which the outbox consumer applies, or directly.  A claim to storage and its storage class are two
such resources, and the edge between them names the class by its `external_id`.

The node of a resource has the Kubernetes name, though, and the outbox event of an edge has no place
for the name of a target.  So no run leads the edge to the node of the class: `Inv` says that no
relationship of the type leads there, and `never_connected` follows.  What carries the induction is
that no edge and no stub has the Kubernetes name.
-/

namespace Omniscience.OperatorGraph

open Outbox Queue PropertyGraph Coro List
open Cypher (Graph Node Rel)
open Neo4j (GraphConfig GraphUpsert BatchEdge)

/-! ### The mapper -/

/-- `OperatorEventEdge`. -/
structure OperatorEventEdge where
  kind : String
  targetExternalId : String

/-- `OperatorEvent`, with the fields that the bridge reads. -/
structure OperatorEvent where
  sourceId : Uuid
  externalId : String
  workspaceId : Uuid
  metadata : List (String × String) := []
  topologyEdges : List OperatorEventEdge := []

def entityKindPrefix : String := "k8s_resource"

def relationUsesStorageclass : String := "uses_storageclass"

def nsOperatorGraph : Uuid := 0x8c3b1f4a2d6e4b7c9a1f5e0d2c4b6a7f#128

def kindStorageclass : String := "StorageClass"

def kindPvc : String := "PersistentVolumeClaim"

/-- `cluster_scoped_external_id`. -/
def clusterScopedExternalId (clusterId kind name : String) : String :=
  entityKindPrefix ++ "/" ++ clusterId ++ "/" ++ kind ++ "/" ++ name

/-- `meta.get(key, default)`. -/
def OperatorEvent.field (event : OperatorEvent) (key default : String) : String :=
  (event.metadata.lookup key).getD default

/-- The stripped `storage_class_name` of an event. -/
def OperatorEvent.storageClassName (event : OperatorEvent) : String :=
  GraphRag.strip (event.field "storage_class_name" "")

/-- `uuid.uuid5`. -/
abbrev Uuid5 := Uuid → String → Uuid

variable (uuid5 : Uuid5)

/-- `derive_entity_id`. -/
def deriveEntityId (workspaceId : Uuid) (externalId : String) : Uuid :=
  uuid5 nsOperatorGraph (workspaceId.str ++ "/" ++ externalId)

/-- The id of the entity of an event. -/
def OperatorEvent.entityId (event : OperatorEvent) : Uuid :=
  deriveEntityId uuid5 event.workspaceId event.externalId

/-- `entity_metadata`. -/
def entityMetadata (event : OperatorEvent) : Metadata :=
  let stamped := mergeDict (event.metadata.map fun entry => (entry.1, .str entry.2))
    [("workspace_id", .str event.workspaceId.str)]
  match event.metadata.lookup "cluster" with
  | some cluster => mergeDict stamped [("cluster", .str cluster)]
  | none => stamped

/-- The entity of an event. -/
def operatorEntity (event : OperatorEvent) : EntityUpsert :=
  let kind := event.field "kind" ""
  let name := event.field "name" event.externalId
  { id := event.entityId uuid5
    sourceId := event.sourceId
    entityType := if kind = "" then entityKindPrefix else kind
    name := name
    displayName := name
    metadata := entityMetadata event }

/-- `OperatorGraphEdge`. -/
structure OperatorGraphEdge where
  sourceEntityId : Uuid
  targetName : String
  edgeType : String
  targetEntityId : Option Uuid := none
  metadata : Metadata := []

/-- What `upsert_graph` reads of an edge. -/
def OperatorGraphEdge.batchEdge (edge : OperatorGraphEdge) : BatchEdge where
  sourceEntityId := some edge.sourceEntityId
  targetEntityId := edge.targetEntityId
  targetName := some edge.targetName
  edgeType := edge.edgeType
  metadata := edge.metadata

/-- The edges so far, and `seen_targets`. -/
abbrev EdgesSoFar := List OperatorGraphEdge × List (String × String)

/-- Add an edge of the event unless its key was seen. -/
def addEdge (event : OperatorEvent) (edgeType targetName : String) (more : Metadata)
    (soFar : EdgesSoFar) : EdgesSoFar :=
  if (edgeType, targetName) ∈ soFar.2 then soFar
  else
    (soFar.1 ++ [{
      sourceEntityId := event.entityId uuid5
      targetName := targetName
      edgeType := edgeType
      metadata := ("workspace_id", .str event.workspaceId.str) :: more }],
    soFar.2 ++ [(edgeType, targetName)])

/-- A round of the loop over the edges that the operator emits. -/
def addTopologyEdge (event : OperatorEvent) (soFar : EdgesSoFar) (edge : OperatorEventEdge) :
    EdgesSoFar :=
  if edge.kind = "" || edge.targetExternalId = "" then soFar
  else addEdge uuid5 event edge.kind edge.targetExternalId [] soFar

/-- The edge from a claim to its storage class. -/
def addStorageClassEdge (event : OperatorEvent) (soFar : EdgesSoFar) : EdgesSoFar :=
  let clusterId := event.field "cluster_id" ""
  if event.field "kind" "" = kindPvc && event.storageClassName ≠ "" && clusterId ≠ "" then
    addEdge uuid5 event relationUsesStorageclass
      (clusterScopedExternalId clusterId kindStorageclass event.storageClassName)
      [("storage_class_name", .str event.storageClassName)] soFar
  else soFar

/-- `operator_event_to_graph`; there is always one entity. -/
def operatorEventToGraph (event : OperatorEvent) : EntityUpsert × List OperatorGraphEdge :=
  (operatorEntity uuid5 event,
    (addStorageClassEdge uuid5 event
      (event.topologyEdges.foldl (addTopologyEdge uuid5 event) ([], []))).1)

/-! ### Routing -/

/-- The arguments of the direct write. -/
def graphUpsert (event : OperatorEvent) (documentId : Option Uuid) : GraphUpsert :=
  let mapped := operatorEventToGraph uuid5 event
  { sourceId := event.sourceId
    documentId := documentId.getD mapped.1.id
    entities := [mapped.1]
    edges := mapped.2.map OperatorGraphEdge.batchEdge
    workspaceId := some event.workspaceId }

/-- The payload of the outbox row of an entity. -/
def entityEvent (event : OperatorEvent) (entity : EntityUpsert) : EntityUpsertEvent where
  workspaceId := some event.workspaceId.str
  id := entity.id.str
  sourceId := entity.sourceId.str
  entityType := entity.entityType
  name := entity.name
  displayName := entity.displayName
  metadata := entity.metadata

/-- The payload of the outbox row of an edge, whose id is drawn: a target without an id is the empty
text. -/
def edgeEvent (event : OperatorEvent) (id : Uuid) (edge : OperatorGraphEdge) : EdgeUpsertEvent where
  workspaceId := some event.workspaceId.str
  id := id.str
  sourceEntityId := edge.sourceEntityId.str
  targetEntityId := match edge.targetEntityId with
    | some target => target.str
    | none => ""
  edgeType := edge.edgeType
  metadata := edge.metadata

/-- What the outbox rows of an event hold. -/
def outboxPayloads (event : OperatorEvent) (draw : ℕ → Uuid) : List Published :=
  let mapped := operatorEventToGraph uuid5 event
  .entity (entityEvent event mapped.1) ::
    mapped.2.mapIdx fun i edge => .edge (edgeEvent event (draw i) edge)

/-! ### Delivery -/

/-- Does the call write to the graph? -/
def isGraphWrite : Call Service → Bool
  | .service (.upsertEntity ..) | .service (.upsertEdge ..) | .service (.mergeNodes ..)
  | .service (.unmergeNode ..) => true
  | _ => false

/-- What a call of the entity loop or the edge loop does to the graph.  A write that failed may have
been made all the same. -/
inductive Effect (cfg : Neo4j.Config) : Graph → Event (iface Worker Service.Resp) → Graph → Prop
  | upsertEntity {g g' : Graph} {entity : EntityUpsert} {workspaceId : Uuid} {now : ℕ}
    {answer : Except Exc Unit} (h : Cypher.upsertEntity cfg entity workspaceId now g = .ok g') :
    Effect cfg g ⟨.service (.upsertEntity entity workspaceId), answer⟩ g'
  | upsertEdge {g g' : Graph} {edge : EdgeUpsert} {workspaceId : Uuid} {now : ℕ}
    {answer : Except Exc Unit} (h : Cypher.upsertEdge cfg edge workspaceId now g = .ok g') :
    Effect cfg g ⟨.service (.upsertEdge edge workspaceId), answer⟩ g'
  | failed (g : Graph) {ev : Event (iface Worker Service.Resp)} {e : Exc}
    (h : ev.2 = .error e) : Effect cfg g ev g
  | other (g : Graph) {ev : Event (iface Worker Service.Resp)}
    (h : isGraphWrite ev.1 = false) : Effect cfg g ev g

/-- What a run does to the graph. -/
inductive Effects (cfg : Neo4j.Config) :
    Graph → List (Event (iface Worker Service.Resp)) → Graph → Prop
  | nil (g : Graph) : Effects cfg g [] g
  | cons {g g₁ g' : Graph} {ev : Event (iface Worker Service.Resp)}
    {t : List (Event (iface Worker Service.Resp))} (hev : Effect cfg g ev g₁)
    (ht : Effects cfg g₁ t g') : Effects cfg g (ev :: t) g'

/-- The graph, and what the rows of the outbox hold. -/
structure Pipeline where
  graph : Graph
  rows : List Published

/-- Before anything is delivered. -/
def Pipeline.initial : Pipeline := ⟨.empty, []⟩

variable (gcfg : GraphConfig) (deps : Deps)

/-- A step of the pipeline: an event is routed, directly or to the outbox; the consumer takes a
message that holds what a row holds; or stubs are resolved. -/
inductive Step (events : List OperatorEvent) (workspaceId : Uuid) : Pipeline → Pipeline → Prop
  | direct {S : Pipeline} {event : OperatorEvent} (h : event ∈ events) (documentId : Option Uuid)
    (now : ℕ) :
    Step events workspaceId S { S with
      graph := Cypher.committed
        (Cypher.upsertGraph gcfg (graphUpsert uuid5 event documentId) now S.graph) S.graph }
  | outbox {S : Pipeline} {event : OperatorEvent} (h : event ∈ events) (draw : ℕ → Uuid) :
    Step events workspaceId S { S with rows := S.rows ++ outboxPayloads uuid5 event draw }
  | entity {S : Pipeline} {g : Graph} {event : EntityUpsertEvent} (h : .entity event ∈ S.rows)
    {raw : Raw} (hraw : (consumers deps).entity.decode raw.data = .ok event.asDelivered)
    (env : Env (iface Worker Service.Resp)) (s : Worker) (l : Option Uuid)
    (heffects : Effects gcfg.toConfig S.graph
      (Coro.exec env (deliver deps.py deps.pyd Worker.clock (consumers deps).entity
        (consumeEntity deps) l raw) [] s).trace g) :
    Step events workspaceId S { S with graph := g }
  | edge {S : Pipeline} {g : Graph} {event : EdgeUpsertEvent} (h : .edge event ∈ S.rows)
    {raw : Raw} (hraw : (consumers deps).edge.decode raw.data = .ok event.asDelivered)
    (env : Env (iface Worker Service.Resp)) (s : Worker) (l : EdgeLocals)
    (heffects : Effects gcfg.toConfig S.graph
      (Coro.exec env (deliver deps.py deps.pyd Worker.clock (consumers deps).edge
        (consumeEdge deps) l raw) [] s).trace g) :
    Step events workspaceId S { S with graph := g }
  | resolve {S : Pipeline} (fuel : ℕ) :
    Step events workspaceId S { S with
      graph := (Cypher.resolvePendingStubs workspaceId fuel S.graph).1 }

/-- The pipeline gets there, by whatever steps. -/
def Reaches (events : List OperatorEvent) (workspaceId : Uuid) : Pipeline → Prop :=
  Relation.ReflTransGen (Step uuid5 gcfg deps events workspaceId) .initial

/-! ### A claim and its class -/

/-- The claim asks for the class that the other event reports: both are of one cluster in one
workspace, and their topology edges lead to external ids.  A Kubernetes name has no slash. -/
structure Matching (pvc sc : OperatorEvent) (name : String) : Prop where
  pvcKind : pvc.field "kind" "" = kindPvc
  scKind : sc.field "kind" "" = kindStorageclass
  workspace : sc.workspaceId = pvc.workspaceId
  cluster : sc.field "cluster_id" "" = pvc.field "cluster_id" ""
  clusterNe : pvc.field "cluster_id" "" ≠ ""
  className : pvc.storageClassName = name
  nameNe : name ≠ ""
  scName : sc.metadata.lookup "name" = some name
  scId : sc.externalId =
    clusterScopedExternalId (sc.field "cluster_id" "") kindStorageclass name
  nameSlash : '/' ∉ name.toList
  targetSlash : ∀ edge ∈ pvc.topologyEdges ++ sc.topologyEdges,
    '/' ∈ edge.targetExternalId.toList

/-- The name-based ids of the run do not collide: the two entities, and the stubs for the targets of
their edges. -/
structure Apart (pvc sc : OperatorEvent) : Prop where
  entities : pvc.entityId uuid5 ≠ sc.entityId uuid5
  stubs : ∀ event ∈ [pvc, sc], ∀ edge ∈ (operatorEventToGraph uuid5 event).2,
    ∀ other ∈ [pvc, sc],
      gcfg.stubEntityId pvc.workspaceId edge.targetName ≠ other.entityId uuid5

/-- The relationship leads from the node of the claim to the node of the class. -/
def usesClass (pvc sc : OperatorEvent) (g : Graph) (r : Arc Rel) : Bool :=
  r.data.relType = relationUsesStorageclass &&
    g.has (·.isEntity pvc.workspaceId (pvc.entityId uuid5)) r.source &&
    g.has (·.isEntity pvc.workspaceId (sc.entityId uuid5)) r.target

/-- There is one such relationship, and no stub for the class. -/
def Connected (pvc sc : OperatorEvent) (g : Graph) : Prop :=
  g.rels.countP (usesClass uuid5 pvc sc g) = 1 ∧
    g.refs (fun n => n.isStubIn pvc.workspaceId && n.name = some sc.externalId) = []

/-! ### No relationship of the type leads to the class -/

/-- The node of the class has its Kubernetes name.  Neither this node nor that of the claim is a
stub, and no stub has the name. -/
structure Fits (w pvcId scId : Uuid) (name : String) (n : Node) : Prop where
  named : n.isEntity w scId = true → n.name = some name
  real : n.isEntity w scId = true ∨ n.isEntity w pvcId = true → n.isStub ≠ some true
  stub : n.isStubIn w = true → n.name ≠ some name

/-- A relationship of the type does not lead to the node of the class. -/
def Avoids (w scId : Uuid) (d : Rel) (n : Node) : Prop :=
  d.relType = relationUsesStorageclass → n.isEntity w scId = false

/-- The invariant of the runs. -/
abbrev Inv (w pvcId scId : Uuid) (name : String) (g : Graph) : Prop :=
  g.Typed (Fits w pvcId scId name) (Avoids w scId)

/-- The entity is that of the claim, or that of the class under its name. -/
structure Allowed (pvcId scId : Uuid) (name : String) (entity : EntityUpsert) : Prop where
  id : entity.id = scId ∨ entity.id = pvcId
  name : entity.id = scId → entity.name = name

section

variable {w pvcId scId : Uuid} {name : String} {entity : EntityUpsert} {now : ℕ} {g g' : Graph}

theorem hadState_ne : Cypher.hadState ≠ relationUsesStorageclass := by decide

theorem isEntity_iff {n : Node} {id : Uuid} :
    n.isEntity w id = true ↔ n.isIn .entity w = true ∧ n.id = some id := by
  rw [Node.isEntity, Bool.and_eq_true, decide_eq_true_eq]

theorem isEntity_inj {n : Node} {id id' : Uuid} (h : n.isEntity w id = true)
    (h' : n.isEntity w id' = true) : id = id' := by
  have hid := (isEntity_iff.1 h).2
  rw [(isEntity_iff.1 h').2] at hid
  exact (Option.some.inj hid).symm

theorem isEntity_bareEntity (id : Uuid) : (Cypher.bareEntity w id).isEntity w id = true := by
  simp [Cypher.bareEntity, Node.isEntity, Node.isIn]

theorem Allowed.fits (h : Allowed pvcId scId name entity) {n : Node}
    (hid : n.isEntity w entity.id = true) (hname : n.name = some entity.name)
    (hreal : n.isStub ≠ some true) : Fits w pvcId scId name n where
  named hsc := by rw [hname, h.name (isEntity_inj hid hsc)]
  real _ := hreal
  stub hstub := by
    rw [Node.isStubIn, Bool.and_eq_true, decide_eq_true_eq] at hstub
    exact absurd hstub.2 hreal

theorem Allowed.real (h : Allowed pvcId scId name entity) {n : Node}
    (hn : Fits w pvcId scId name n) (hid : n.isEntity w entity.id = true) :
    n.isStub ≠ some true := by
  rcases h.id with heq | heq
  · exact hn.real (.inl (heq ▸ hid))
  · exact hn.real (.inr (heq ▸ hid))

theorem inv_closeStates (h : Inv w pvcId scId name g) (selected : ℕ → Bool) (now : ℕ) :
    Inv w pvcId scId name (Cypher.closeStates selected now g) := by
  refine Typed.setNodes (h.setRels fun r n hr => ?_) (fun i n _ hn => ?_)
    fun i n d hd => ?_
  · split
    · exact hr
    · exact hr
  · split
    · exact ⟨hn.named, hn.real, hn.stub⟩
    · exact hn
  · split
    · exact hd
    · exact hd

theorem refs_closeStates (id : Uuid) (selected : ℕ → Bool) (now : ℕ) (g : Graph) :
    (Cypher.closeStates selected now g).refs (·.isEntity w id) = g.refs (·.isEntity w id) := by
  rw [Cypher.closeStates, refs_setNodes fun i n => ?_]
  · rfl
  · split
    · rfl
    · rfl

theorem inv_mergeEntity (cfg : Neo4j.Config) (hentity : Allowed pvcId scId name entity)
    (h : Inv w pvcId scId name g) :
    Inv w pvcId scId name (Cypher.mergeEntity cfg entity w now g) := by
  have hfalse : some false ≠ some true := by decide
  refine h.mergeNode (fun _ => ?_) (fun n hn _ => ?_) fun n d hd => hd
  · exact hentity.fits (isEntity_bareEntity entity.id) rfl hfalse
  · exact hentity.fits hn rfl hfalse

variable {cfg : Neo4j.Config}

theorem inv_versionEntity (hentity : Allowed pvcId scId name entity) (h : Inv w pvcId scId name g)
    {i : ℕ} (hi : g.has (·.isEntity w entity.id) i = true)
    (hg' : Cypher.versionEntity cfg entity w now g i = .ok g') : Inv w pvcId scId name g' := by
  obtain ⟨written, hwritten, hstep⟩ := Cypher.versionEntity_cases hg'
  have hinv : Inv w pvcId scId name written := by
    rcases hwritten with rfl | rfl
    · exact h
    · refine inv_closeStates (h.setNodes (fun j n hn hfits => ?_) fun j n d hd => ?_) _ _
      · split
        · rename_i hj
          obtain ⟨n', hn', hid⟩ := has_iff.1 hi
          rw [← hj, hn, Option.some.injEq] at hn'
          subst hn'
          have hreal := hentity.real hfits hid
          exact hentity.fits hid rfl hreal
        · exact hfits
      · split
        · exact hd
        · exact hd
  rcases hstep with rfl | hadd
  · exact hinv
  · obtain rfl := Cypher.addState_eq hadd
    refine (hinv.create ⟨?_, ?_, ?_⟩).connect fun n _ htype => ?_
    · rintro ⟨⟩
    · rintro (⟨⟨⟩⟩ | ⟨⟨⟩⟩)
    · rintro ⟨⟩
    · exact absurd htype hadState_ne

theorem refs_versionEntity {i : ℕ} (id : Uuid)
    (hg' : Cypher.versionEntity cfg entity w now g i = .ok g') :
    g'.refs (·.isEntity w id) = g.refs (·.isEntity w id) := by
  obtain ⟨written, hwritten, hstep⟩ := Cypher.versionEntity_cases hg'
  have hkeys : written.refs (·.isEntity w id) = g.refs (·.isEntity w id) := by
    rcases hwritten with rfl | rfl
    · rfl
    · rw [refs_closeStates, refs_setNodes fun j n => ?_]
      split
      · rfl
      · rfl
  rcases hstep with rfl | hadd
  · exact hkeys
  · obtain rfl := Cypher.addState_eq hadd
    have hframe : Agree (fun n : Node => n.isEntity w id) (fun _ : Rel => false)
        written (written.create (Cypher.newState cfg entity w now)) :=
      agree_create rfl written
    rw [refs_congr (nodes_connect _ _), ← hkeys, refs, refs, hframe.nodes]

theorem inv_mergeEntityBitemporal (hentity : Allowed pvcId scId name entity)
    (h : Inv w pvcId scId name g) (hg' : Cypher.mergeEntityBitemporal cfg entity w now g = .ok g') :
    Inv w pvcId scId name g' := by
  have hnone : (none : Option Bool) ≠ some true := by decide
  have hmerged : Inv w pvcId scId name (g.mergeNode (·.isEntity w entity.id)
      { ((Cypher.bareEntity w entity.id).withContent (Neo4j.contentOf cfg.py entity) now).stamp
          (cfg.entityFingerprint entity) now with
        createdAt := some (.text now) } fun n => n) :=
    h.mergeNode (fun _ => hentity.fits (isEntity_bareEntity entity.id) rfl hnone)
      (fun n _ hn => hn) fun n d hd => hd
  -- the nodes of the loop stay nodes of the entity
  refine (Fold.foldlM_keeps hg' (fun c => Inv w pvcId scId name c ∧
    c.refs (·.isEntity w entity.id) = refs (fun n : Node => n.isEntity w entity.id) _)
    ⟨hmerged, rfl⟩ fun i hi c c' hc hstep => ⟨?_, ?_⟩).1
  · rw [← hc.2, mem_refs] at hi
    exact inv_versionEntity hentity hc.1 hi hstep
  · rw [refs_versionEntity entity.id hstep, hc.2]

theorem inv_upsertEntity (hentity : Allowed pvcId scId name entity)
    (hversion : entity.version = none) (h : Inv w pvcId scId name g)
    (hg' : Cypher.upsertEntity cfg entity w now g = .ok g') : Inv w pvcId scId name g' := by
  simp only [Cypher.upsertEntity, hversion] at hg'
  split at hg'
  · exact inv_mergeEntityBitemporal hentity h hg'
  · cases hg'
    exact inv_mergeEntity cfg hentity h

theorem findByName_spec {targetName : String} {id : Uuid}
    (h : Cypher.findByName w targetName g = some id) :
    ∃ i n, g.nodes.get? i = some n ∧ n.isEntity w id = true ∧ n.name = some targetName := by
  obtain ⟨found, hfound, rfl⟩ := Option.map_eq_some_iff.1 h
  obtain ⟨item, hitem, hnode⟩ := mem_filterMap.1 (argmin_mem hfound)
  split at hnode
  · rename_i hnamed
    obtain ⟨id, hid, heq⟩ := Option.map_eq_some_iff.1 hnode
    rw [Bool.and_eq_true, decide_eq_true_eq] at hnamed
    refine ⟨item.1, item.2, Dict.get?_of_mem_items hitem, isEntity_iff.2 ⟨hnamed.1, ?_⟩, hnamed.2⟩
    rw [hid, ← heq]
  · cases hnode

variable {gcfg : GraphConfig}

theorem inv_mergeEdgeByName {targetName : String} (hname : targetName ≠ name)
    (hpvc : gcfg.stubEntityId w targetName ≠ pvcId) (hsc : gcfg.stubEntityId w targetName ≠ scId)
    (h : Inv w pvcId scId name g) (source : Uuid) (edgeType : String) (sourceId : Option String)
    (metadata : Metadata) (now : ℕ) :
    Inv w pvcId scId name (Cypher.mergeEdgeByName gcfg source targetName edgeType sourceId metadata
      w now g) := by
  refine foldl_keeps (fun g a _ hg => ?_) h
  set target := (Cypher.findByName w targetName g).getD (gcfg.stubEntityId w targetName) with htarget
  -- a target that no node has is the id of a stub
  have hcases : (∃ i n, g.nodes.get? i = some n ∧ n.isEntity w target = true ∧
      n.name = some targetName) ∨ target = gcfg.stubEntityId w targetName := by
    cases hfound : Cypher.findByName w targetName g with
    | none =>
      rw [hfound] at htarget
      exact .inr htarget
    | some id =>
      rw [hfound] at htarget
      rw [htarget]
      exact .inl (findByName_spec hfound)
  have hother : target ≠ scId := by
    rcases hcases with ⟨i, n, hn, hid, hnamed⟩ | hstub
    · intro heq
      rw [(hg.nodes i n hn).named (heq ▸ hid), Option.some.injEq] at hnamed
      exact hname hnamed.symm
    · exact hstub ▸ hsc
  have hmerged : Inv w pvcId scId name (g.mergeNode (·.isEntity w target)
      { Cypher.bareEntity w target with
        name := some targetName
        isStub := some true
        createdAt := some (.text now) } fun n => n) := by
    refine hg.mergeNode (fun hnone => ?_) (fun n _ hn => hn) fun n d hd => hd
    have hstub : target = gcfg.stubEntityId w targetName := by
      rcases hcases with ⟨i, n, hn, hid, -⟩ | hstub
      · rw [hnone i n hn] at hid
        cases hid
      · exact hstub
    refine ⟨fun hid => ?_, fun hid => ?_, fun _ heq => ?_⟩
    · exact absurd (isEntity_inj (isEntity_bareEntity target) hid) hother
    · rcases hid with hid | hid
      · exact absurd (isEntity_inj (isEntity_bareEntity target) hid) hother
      · exact absurd (hstub ▸ isEntity_inj (isEntity_bareEntity target) hid) hpvc
    · exact hname (Option.some.inj heq)
  -- the relationships do not change the nodes
  refine (foldl_keeps (I := fun c => Inv w pvcId scId name c ∧
    c.nodes = nodes _) (fun c b hb hc => ⟨?_, ?_⟩) ⟨hmerged, rfl⟩).1
  · refine hc.1.mergeRel (fun n hn _ => ?_) fun d n hd => hd
    rw [hc.2] at hn
    obtain ⟨n', hn', hid⟩ := has_iff.1 (mem_refs.1 hb)
    rw [hn, Option.some.injEq] at hn'
    rw [← Bool.not_eq_true]
    exact fun hclass => hother (isEntity_inj (hn' ▸ hid) hclass)
  · rw [nodes_mergeRel, hc.2]

/-- The name is not that of the class, and a stub for it is neither of the two entities. -/
structure Foreign (gcfg : GraphConfig) (w pvcId scId : Uuid) (name targetName : String) : Prop where
  name : targetName ≠ name
  pvc : gcfg.stubEntityId w targetName ≠ pvcId
  sc : gcfg.stubEntityId w targetName ≠ scId

variable {u : GraphUpsert}

theorem inv_retire (hsnapshot : u.snapshotAt = none) (h : Inv w pvcId scId name g) :
    Inv w pvcId scId name (Cypher.retire gcfg u w g) := by
  rw [Cypher.retire, hsnapshot]
  split
  · exact h.detachDelete _
  · exact h

theorem inv_writeEntity (hentity : Allowed pvcId scId name entity) (h : Inv w pvcId scId name g)
    (hg' : Cypher.writeEntity gcfg u w now g entity = .ok g') : Inv w pvcId scId name g' := by
  have hentity' : Allowed pvcId scId name { entity with sourceId := u.sourceId } :=
    ⟨hentity.id, hentity.name⟩
  simp only [Cypher.writeEntity] at hg'
  split at hg'
  · exact inv_mergeEntityBitemporal hentity' h hg'
  · cases hg'
    exact inv_mergeEntity _ hentity' h

theorem inv_writeBatchEdge {edge : BatchEdge} (hparams : Neo4j.edgeToParams u edge = .ok none)
    (hforeign : ∀ targetName ∈ edge.targetName, Foreign gcfg w pvcId scId name targetName)
    (h : Inv w pvcId scId name g) (hg' : Cypher.writeBatchEdge gcfg u w now g edge = .ok g') :
    Inv w pvcId scId name g' := by
  simp only [Cypher.writeBatchEdge, hparams] at hg'
  split at hg'
  · cases hg'
    exact h
  · rename_i targetName htarget
    have hother := hforeign targetName htarget
    split at hg'
    · cases hg'
      exact h
    · split at hg'
      · cases hg'
      · split at hg'
        · cases hg'
          exact h
        · cases hg'
          exact inv_mergeEdgeByName hother.name hother.pvc hother.sc h _ _ _ _ _

theorem inv_upsertGraph (hws : u.workspaceId = some w) (hversion : u.version = none)
    (hsnapshot : u.snapshotAt = none)
    (hentities : ∀ entity ∈ u.entities, Allowed pvcId scId name entity)
    (hedges : ∀ edge ∈ u.edges, Neo4j.edgeToParams u edge = .ok none ∧ ∀ targetName ∈ edge.targetName, Foreign gcfg w pvcId scId name targetName)
    (h : Inv w pvcId scId name g) (hg' : Cypher.upsertGraph gcfg u now g = .ok g') :
    Inv w pvcId scId name g' := by
  obtain ⟨workspaceId, hworkspace, rfl | ⟨guarded, merged, hguarded, hmerged, hrest⟩⟩ :=
    Cypher.upsertGraph_cases hg'
  · exact h
  · rw [GraphUpsert.workspace, hws, Except.ok.injEq] at hworkspace
    subst hworkspace
    rw [Cypher.passGuard, hversion, Option.some.injEq] at hguarded
    subst hguarded
    have hinv : Inv w pvcId scId name merged := Fold.foldlM_keeps hmerged _
      (inv_retire hsnapshot h) fun entity hmem c c' hc hstep =>
        inv_writeEntity (hentities entity hmem) hc hstep
    refine Fold.foldlM_keeps hrest _ hinv fun edge hmem c c' hc hstep => ?_
    exact inv_writeBatchEdge (hedges edge hmem).1 (hedges edge hmem).2 hc hstep

/-! ### Resolving stubs -/

theorem realOf_avoids (h : Inv w pvcId scId name g) {s e : ℕ}
    (hpair : (s, e) ∈ Cypher.stubPairs w g) {n : Node} (hn : g.nodes.get? e = some n) :
    n.isEntity w scId = false := by
  obtain ⟨stub, hstub, hisStub, hreal⟩ := Cypher.mem_stubPairs.1 hpair
  obtain ⟨item, hitem, rfl⟩ := Option.map_eq_some_iff.1 hreal
  have hmem := argmin_mem hitem
  have hnamed := (mem_filter.1 hmem).2
  rw [get?_of_mem_matching hmem, Option.some.injEq] at hn
  simp only [Node.isRealNamed, Bool.and_eq_true, decide_eq_true_eq, hn] at hnamed
  rw [← Bool.not_eq_true]
  intro hclass
  have hnode := h.nodes item.1 n (hn ▸ get?_of_mem_matching hmem)
  refine (h.nodes s stub hstub).stub hisStub ?_
  rw [← hnamed.1.2, hnode.named hclass]

theorem inv_relocateType (h : Inv w pvcId scId name g) (batchSize : ℕ) (relType : String) :
    Inv w pvcId scId name (Cypher.relocateType w batchSize g relType) := by
  rw [Cypher.relocateType]
  set inward := g.relocate Rel.isMergeable
    (Cypher.rowsTo w relType ((Cypher.stubPairs w g).take batchSize) g) with hinward
  have hmid : Inv w pvcId scId name inward := by
    refine h.relocate fun row hrow n hn _ => ?_
    obtain ⟨pair, hpair, -, -, -, -, hnew⟩ := (Cypher.mem_rowsAt true).1 hrow
    rw [hnew] at hn
    exact realOf_avoids h (mem_of_mem_take hpair) hn
  refine hmid.relocate fun row hrow n hn => ?_
  obtain ⟨pair, -, hmem, -, -, -, hnew⟩ := (Cypher.mem_rowsAt false).1 hrow
  rw [hnew] at hn ⊢
  exact hmid.rels row.1 hmem n hn

theorem inv_resolvePendingStubs (h : Inv w pvcId scId name g) (fuel : ℕ) :
    Inv w pvcId scId name (Cypher.resolvePendingStubs w fuel g).1 := by
  refine Cypher.loopCount_preserves (fun {g g' n} hg hpass => ?_) fuel h
  rw [Cypher.resolvePass] at hpass
  split at hpass
  · cases hpass
  · cases hpass
    have hmoved := foldl_keeps (I := Inv w pvcId scId name)
      (fun c relType _ hc => inv_relocateType hc Cypher.resolveStubsBatchSize relType) hg
      (l := (Cypher.listStubRelationshipTypes w g).filter (· ≠ Cypher.hadState))
    exact hmoved.detachDelete _

end

/-! ### What the consumer writes -/

/-- The graph writes among the calls are of the kind. -/
def WritesOnly (allowed : Call Service → Prop) (t : List (Event (iface Worker Service.Resp))) :
    Prop :=
  ∀ ev ∈ t, isGraphWrite ev.1 = true → allowed ev.1

section

variable {deps} {allowed : Call Service → Prop}

theorem writesOnly_nil : WritesOnly allowed [] := fun _ h => absurd h not_mem_nil

theorem respects_writesOnly {q : Call Service} (hq : isGraphWrite q = true → allowed q) :
    Respects (.free : Contract (iface Worker Service.Resp))
      (fun t _ => WritesOnly allowed t) q where
  yields _ _ _ := trivial
  resumes t s r s' h _ ev hev := by
    rcases mem_append.1 hev with hev | hev
    · exact h ev hev
    · rw [mem_singleton.1 hev]
      exact hq

theorem respects_handsBack {q : Call Service} (hq : HandsBack q) :
    Respects (.free : Contract (iface Worker Service.Resp))
      (fun t _ => WritesOnly allowed t) q := by
  refine respects_writesOnly fun hwrite => ?_
  cases q
  case service => exact hq.elim
  all_goals cases hwrite

theorem keeps_consumeEntity {event : EntityUpsertEvent} {entityId workspaceId sourceId : Uuid}
    (hid : uuidOf event.id = .ok entityId) (hws : workspaceOf event.workspaceId = .ok workspaceId)
    (hsource : uuidOf event.sourceId = .ok sourceId)
    (hallowed : allowed
      (.service (.upsertEntity (entityUpsert event entityId sourceId) workspaceId)))
    (l : Option Uuid) {msg : Message EntityUpsertEvent} (hmsg : msg.payload = event) :
    Keeps (.free : Contract (iface Worker Service.Resp))
      (fun t _ => WritesOnly allowed t) (consumeEntity deps l msg) := by
  have hwrite : Keeps (.free : Contract (iface Worker Service.Resp))
      (fun t _ => WritesOnly allowed t) (writeEntity deps entityId msg) := by
    rw [writeEntity, hmsg, hws, hsource]
    refine (keeps_service (respects_writesOnly fun _ => hallowed)).bind fun _ => ?_
    refine (keeps_service (respects_writesOnly fun h => by cases h)).bind fun embeddings => ?_
    refine (keeps_lift _).bind fun embedding => ?_
    refine (keeps_service (respects_writesOnly fun h => by cases h)).bind fun _ => ?_
    refine Keeps.bind ?_ fun _ => (keeps_ack (respects_writesOnly fun h => by cases h)).bind fun _ => ?_
    · exact keeps_modify fun _ _ h => h
    · exact keeps_autoUnparkEdges deps (fun _ => respects_handsBack)
        (fun _ => respects_writesOnly fun h => by cases h) (fun _ _ _ h => h) entityId
  have hprocess : Keeps (.free : Contract (iface Worker Service.Resp))
      (fun t _ => WritesOnly allowed t) (processEntity deps entityId msg) := by
    refine Keeps.bind ?_ fun _ => keeps_get.bind fun s => ?_
    · exact keeps_modify fun _ _ h => h
    · split
      · exact keeps_routeToDlq deps (fun _ => respects_handsBack) _ _ _ _
      · exact hwrite
  rw [consumeEntity, hmsg, hid]
  refine Keeps.bind (hprocess.tryCatch fun exc => ?_) fun _ => keeps_pure _
  exact keeps_handleEntityFailure deps (fun _ => respects_handsBack) (fun _ _ _ h => h)
    (fun _ _ h => h) msg exc

theorem assign_of_target {event : EdgeUpsertEvent} {e : Exc}
    (h : uuidOf event.targetEntityId = .error e) (l : EdgeLocals) :
    ∃ l' e', l.assign event = (l', .error e') := by
  rw [EdgeLocals.assign]
  split
  · exact ⟨_, _, rfl⟩
  · dsimp only
    split
    · exact ⟨_, _, rfl⟩
    · rw [h]
      exact ⟨_, _, rfl⟩

/-- **An edge event without the id of a target** does not reach the graph, whatever becomes of its
message. -/
theorem keeps_consumeEdge_of_target {event : EdgeUpsertEvent} {e : Exc}
    (h : uuidOf event.targetEntityId = .error e) (l : EdgeLocals) {msg : Message EdgeUpsertEvent}
    (hmsg : msg.payload = event) :
    Keeps (.free : Contract (iface Worker Service.Resp))
      (fun t _ => WritesOnly allowed t) (consumeEdge deps l msg) := by
  obtain ⟨l', e', hassign⟩ := assign_of_target h l
  rw [consumeEdge, hmsg, hassign]
  refine Keeps.bind ?_ fun _ => keeps_pure _
  exact keeps_exceptEdge deps (fun _ => respects_handsBack) (fun _ _ _ h => h)
    (fun _ _ _ _ _ h => h) l' msg e'

theorem inv_effects {w pvcId scId : Uuid} {name : String} {cfg : Neo4j.Config} {g g' : Graph}
    {t : List (Event (iface Worker Service.Resp))} (heffects : Effects cfg g t g')
    (ht : WritesOnly (fun q => ∃ entity, Allowed pvcId scId name entity ∧ entity.version = none ∧
      q = .service (.upsertEntity entity w)) t) (h : Inv w pvcId scId name g) :
    Inv w pvcId scId name g' := by
  induction heffects with
  | nil g => exact h
  | cons hev _ ih =>
    refine ih (fun ev hmem => ht ev (mem_cons_of_mem _ hmem)) ?_
    have hcall := ht _ mem_cons_self
    cases hev with
    | upsertEntity hok =>
      obtain ⟨entity, hallowed, hversion, heq⟩ := hcall rfl
      cases heq
      exact inv_upsertEntity hallowed hversion h hok
    | upsertEdge hok =>
      obtain ⟨entity, -, -, heq⟩ := hcall rfl
      cases heq
    | failed hno => exact h
    | other hno => exact h

end

/-! ### What the mapper makes -/

/-- The edge leads from the entity of the event to a name that has a slash. -/
structure ByName (event : OperatorEvent) (edge : OperatorGraphEdge) : Prop where
  source : edge.sourceEntityId = event.entityId uuid5
  target : edge.targetEntityId = none
  slash : '/' ∈ edge.targetName.toList

section

variable {uuid5} {event : OperatorEvent}

theorem addEdge_byName {edgeType targetName : String} {more : Metadata} {soFar : EdgesSoFar}
    (h : ∀ edge ∈ soFar.1, ByName uuid5 event edge) (hslash : '/' ∈ targetName.toList) :
    ∀ edge ∈ (addEdge uuid5 event edgeType targetName more soFar).1, ByName uuid5 event edge := by
  rw [addEdge]
  split
  · exact h
  · intro edge hedge
    rcases mem_append.1 hedge with hedge | hedge
    · exact h edge hedge
    · rw [mem_singleton.1 hedge]
      exact ⟨rfl, rfl, hslash⟩

theorem slash_clusterScopedExternalId (clusterId kind name : String) :
    '/' ∈ (clusterScopedExternalId clusterId kind name).toList := by
  simp [clusterScopedExternalId]

theorem byName_of_mem (hslash : ∀ edge ∈ event.topologyEdges, '/' ∈ edge.targetExternalId.toList) :
    ∀ edge ∈ (operatorEventToGraph uuid5 event).2, ByName uuid5 event edge := by
  have hloop : ∀ (l : List OperatorEventEdge) (soFar : EdgesSoFar),
      (∀ edge ∈ l, '/' ∈ edge.targetExternalId.toList) →
      (∀ edge ∈ soFar.1, ByName uuid5 event edge) →
      ∀ edge ∈ (l.foldl (addTopologyEdge uuid5 event) soFar).1, ByName uuid5 event edge := by
    intro l
    induction l with
    | nil => exact fun soFar _ h => h
    | cons a l ih =>
      intro soFar hl h
      refine ih _ (fun edge hedge => hl edge (mem_cons_of_mem _ hedge)) ?_
      rw [addTopologyEdge]
      split
      · exact h
      · exact addEdge_byName h (hl a mem_cons_self)
  have htopology := hloop event.topologyEdges ([], []) hslash fun _ h => absurd h not_mem_nil
  simp only [operatorEventToGraph, addStorageClassEdge]
  split
  · exact addEdge_byName htopology (slash_clusterScopedExternalId _ _ _)
  · exact htopology

theorem nameToId_singleton {entity : EntityUpsert} (h : entity.displayName = entity.name)
    {targetName : String} {id : Uuid} (hid : (Neo4j.nameToId [entity]).get? targetName = some id) :
    id = entity.id := by
  simp only [Neo4j.nameToId, foldl_cons, foldl_nil] at hid
  have hset : ∀ d : Dict String Uuid, (∀ k v, d.get? k = some v → v = entity.id) →
      ∀ k v, (d.set entity.name entity.id).get? k = some v → v = entity.id := by
    intro d hd k v hv
    by_cases hk : k = entity.name
    · rw [hk, Dict.get?_set_self, Option.some.injEq] at hv
      exact hv.symm
    · rw [Dict.get?_set_ne _ _ hk] at hv
      exact hd k v hv
  have hnamed := hset .empty fun k v h => by cases h
  split at hid
  · exact hnamed _ _ hid
  · rw [h, Dict.setDefault] at hid
    split at hid
    · exact hnamed _ _ hid
    · exact hset _ hnamed _ _ hid

theorem edgeToParams_graphUpsert (documentId : Option Uuid) {edge : OperatorGraphEdge}
    (h : ByName uuid5 event edge) :
    Neo4j.edgeToParams (graphUpsert uuid5 event documentId) edge.batchEdge = .ok none := by
  simp only [Neo4j.edgeToParams, OperatorGraphEdge.batchEdge, h.target, h.source]
  cases hid : (Neo4j.nameToId (graphUpsert uuid5 event documentId).entities).get?
      edge.targetName with
  | none => rfl
  | some id =>
    have hown : id = event.entityId uuid5 := nameToId_singleton rfl hid
    simp only [hown, if_true]

end

/-! ### The runs -/

section

variable {uuid5} {gcfg} {deps} {pvc sc : OperatorEvent} {name : String}

variable {event : OperatorEvent}

theorem Matching.workspace_eq (h : Matching pvc sc name) (hevent : event ∈ [pvc, sc]) :
    event.workspaceId = pvc.workspaceId := by
  simp only [mem_cons, not_mem_nil, or_false] at hevent
  rcases hevent with rfl | rfl
  · rfl
  · exact h.workspace

theorem Matching.allowed (h : Matching pvc sc name) (hapart : Apart uuid5 gcfg pvc sc)
    (hevent : event ∈ [pvc, sc]) :
    Allowed (pvc.entityId uuid5) (sc.entityId uuid5) name (operatorEntity uuid5 event) := by
  simp only [mem_cons, not_mem_nil, or_false] at hevent
  rcases hevent with rfl | rfl
  · exact ⟨.inr rfl, fun heq => absurd heq hapart.entities⟩
  · refine ⟨.inl rfl, fun _ => ?_⟩
    change (event.metadata.lookup "name").getD event.externalId = name
    rw [h.scName, Option.getD_some]

variable {edge : OperatorGraphEdge}

theorem Matching.byName (h : Matching pvc sc name) (hevent : event ∈ [pvc, sc])
    (hedge : edge ∈ (operatorEventToGraph uuid5 event).2) : ByName uuid5 event edge := by
  refine byName_of_mem (fun edge hedge => h.targetSlash edge ?_) edge hedge
  simp only [mem_cons, not_mem_nil, or_false] at hevent
  rw [mem_append]
  rcases hevent with rfl | rfl
  · exact .inl hedge
  · exact .inr hedge

theorem Matching.foreign (h : Matching pvc sc name) (hapart : Apart uuid5 gcfg pvc sc)
    (hevent : event ∈ [pvc, sc]) (hedge : edge ∈ (operatorEventToGraph uuid5 event).2) :
    Foreign gcfg pvc.workspaceId (pvc.entityId uuid5) (sc.entityId uuid5) name
      edge.targetName where
  name heq := h.nameSlash (heq ▸ (h.byName hevent hedge).slash)
  pvc := hapart.stubs event hevent edge hedge pvc (by simp)
  sc := hapart.stubs event hevent edge hedge sc (by simp)

/-- The graph keeps the invariant, and the rows are those of the two events. -/
structure PipelineInv (uuid5 : Uuid5) (pvc sc : OperatorEvent) (name : String) (S : Pipeline) :
    Prop where
  graph : Inv pvc.workspaceId (pvc.entityId uuid5) (sc.entityId uuid5) name S.graph
  rows : ∀ row ∈ S.rows, ∃ event ∈ [pvc, sc], ∃ draw, row ∈ outboxPayloads uuid5 event draw

theorem inv_direct (hmatch : Matching pvc sc name) (hapart : Apart uuid5 gcfg pvc sc)
    (hevent : event ∈ [pvc, sc]) (documentId : Option Uuid) {now : ℕ} {g g' : Graph}
    (h : Inv pvc.workspaceId (pvc.entityId uuid5) (sc.entityId uuid5) name g)
    (hg' : Cypher.upsertGraph gcfg (graphUpsert uuid5 event documentId) now g = .ok g') :
    Inv pvc.workspaceId (pvc.entityId uuid5) (sc.entityId uuid5) name g' := by
  refine inv_upsertGraph ?_ rfl rfl (fun entity hentity => ?_) (fun edge hedge => ?_) h hg'
  · exact congrArg some (hmatch.workspace_eq hevent)
  · rw [mem_singleton.1 hentity]
    exact hmatch.allowed hapart hevent
  · obtain ⟨edge, hmem, rfl⟩ := mem_map.1 hedge
    refine ⟨edgeToParams_graphUpsert documentId (hmatch.byName hevent hmem), ?_⟩
    rintro _ ⟨⟩
    exact hmatch.foreign hapart hevent hmem

theorem uuidOf_empty : ∃ e, uuidOf "" = .error e := by
  have hnone : Uuid.parse "" = none := by decide +kernel
  rw [uuidOf, hnone]
  exact ⟨_, rfl⟩

theorem inv_entity (hmatch : Matching pvc sc name) (hapart : Apart uuid5 gcfg pvc sc)
    (hevent : event ∈ [pvc, sc]) {raw : Raw}
    (hraw : (consumers deps).entity.decode raw.data = .ok (entityEvent event (operatorEntity uuid5 event)).asDelivered)
    (env : Env (iface Worker Service.Resp)) (s : Worker) (l : Option Uuid) {g g' : Graph}
    (h : Inv pvc.workspaceId (pvc.entityId uuid5) (sc.entityId uuid5) name g)
    (heffects : Effects gcfg.toConfig g (Coro.exec env (deliver deps.py deps.pyd Worker.clock (consumers deps).entity (consumeEntity deps) l raw) [] s).trace g')
    :
    Inv pvc.workspaceId (pvc.entityId uuid5) (sc.entityId uuid5) name g' := by
  have hallowed := hmatch.allowed hapart hevent
  have hid : uuidOf (entityEvent event (operatorEntity uuid5 event)).asDelivered.id =
      .ok (event.entityId uuid5) := by
    change uuidOf (event.entityId uuid5).str = _
    rw [uuidOf_str]
  have hsource : uuidOf (entityEvent event (operatorEntity uuid5 event)).asDelivered.sourceId =
      .ok event.sourceId := by
    change uuidOf event.sourceId.str = _
    rw [uuidOf_str]
  have hws : workspaceOf (entityEvent event (operatorEntity uuid5 event)).asDelivered.workspaceId =
      .ok pvc.workspaceId := by
    have hfield : (entityEvent event (operatorEntity uuid5 event)).workspaceId =
      some event.workspaceId.str := rfl
    rw [workspaceOf_asDelivered, hfield, workspaceOf_str, hmatch.workspace_eq hevent]
  have hkeeps : Keeps (.free : Contract (iface Worker Service.Resp)) (fun t _ =>
      WritesOnly (fun q => ∃ entity, Allowed (pvc.entityId uuid5) (sc.entityId uuid5) name entity ∧
        entity.version = none ∧ q = .service (.upsertEntity entity pvc.workspaceId)) t)
      (deliver deps.py deps.pyd Worker.clock (consumers deps).entity (consumeEntity deps) l
        raw) := by
    refine keeps_deliver deps (fun _ => respects_handsBack) _ _ fun msg hmsg => ?_
    rw [hraw, Except.ok.injEq] at hmsg
    exact keeps_consumeEntity hid hws hsource ⟨_, ⟨hallowed.id, hallowed.name⟩, rfl, rfl⟩ l
      hmsg.symm
  have hcalls := exec_of_wp (obeys_free env) (hkeeps.run [] s writesOnly_nil)
  exact inv_effects heffects hcalls h

theorem inv_edge (hmatch : Matching pvc sc name) (hevent : event ∈ [pvc, sc])
    (hedge : edge ∈ (operatorEventToGraph uuid5 event).2) {id : Uuid} {raw : Raw}
    (hraw : (consumers deps).edge.decode raw.data = .ok (edgeEvent event id edge).asDelivered)
    (env : Env (iface Worker Service.Resp)) (s : Worker) (l : EdgeLocals) {g g' : Graph}
    (h : Inv pvc.workspaceId (pvc.entityId uuid5) (sc.entityId uuid5) name g)
    (heffects : Effects gcfg.toConfig g (Coro.exec env (deliver deps.py deps.pyd Worker.clock (consumers deps).edge (consumeEdge deps) l raw) [] s).trace g')
    :
    Inv pvc.workspaceId (pvc.entityId uuid5) (sc.entityId uuid5) name g' := by
  obtain ⟨e, he⟩ := uuidOf_empty
  have htarget : uuidOf (edgeEvent event id edge).asDelivered.targetEntityId = .error e := by
    change uuidOf (match edge.targetEntityId with
      | some target => target.str
      | none => "") = .error e
    rw [(hmatch.byName hevent hedge).target, he]
  have hkeeps : Keeps (.free : Contract (iface Worker Service.Resp)) (fun t _ =>
      WritesOnly (fun q => ∃ entity, Allowed (pvc.entityId uuid5) (sc.entityId uuid5) name entity ∧
        entity.version = none ∧ q = .service (.upsertEntity entity pvc.workspaceId)) t)
      (deliver deps.py deps.pyd Worker.clock (consumers deps).edge (consumeEdge deps) l raw) := by
    refine keeps_deliver deps (fun _ => respects_handsBack) _ _ fun msg hmsg => ?_
    rw [hraw, Except.ok.injEq] at hmsg
    exact keeps_consumeEdge_of_target htarget l hmsg.symm
  have hcalls := exec_of_wp (obeys_free env) (hkeeps.run [] s writesOnly_nil)
  exact inv_effects heffects hcalls h

theorem mem_outboxPayloads_entity {draw : ℕ → Uuid} {e : EntityUpsertEvent}
    (h : .entity e ∈ outboxPayloads uuid5 event draw) :
    e = entityEvent event (operatorEntity uuid5 event) := by
  rcases mem_cons.1 h with h | h
  · exact Published.entity.inj h
  · obtain ⟨i, hi, heq⟩ := mem_mapIdx.1 h
    cases heq

theorem mem_outboxPayloads_edge {draw : ℕ → Uuid} {e : EdgeUpsertEvent}
    (h : .edge e ∈ outboxPayloads uuid5 event draw) :
    ∃ edge ∈ (operatorEventToGraph uuid5 event).2, ∃ id, e = edgeEvent event id edge := by
  rcases mem_cons.1 h with h | h
  · cases h
  · obtain ⟨i, hi, heq⟩ := mem_mapIdx.1 h
    exact ⟨_, getElem_mem hi, draw i, (Published.edge.inj heq).symm⟩

theorem PipelineInv.step (hmatch : Matching pvc sc name) (hapart : Apart uuid5 gcfg pvc sc)
    {S S' : Pipeline} (h : PipelineInv uuid5 pvc sc name S)
    (hstep : Step uuid5 gcfg deps [pvc, sc] pvc.workspaceId S S') :
    PipelineInv uuid5 pvc sc name S' := by
  cases hstep with
  | direct hevent documentId now =>
    refine ⟨?_, h.rows⟩
    cases hg' : Cypher.upsertGraph gcfg (graphUpsert uuid5 _ documentId) now S.graph with
    | error e => exact h.graph
    | ok g' => exact inv_direct hmatch hapart hevent documentId h.graph hg'
  | outbox hevent draw =>
    refine ⟨h.graph, fun row hrow => ?_⟩
    rcases mem_append.1 hrow with hrow | hrow
    · exact h.rows row hrow
    · exact ⟨_, hevent, draw, hrow⟩
  | entity hrow hraw env s l heffects =>
    obtain ⟨event, hevent, draw, hmem⟩ := h.rows _ hrow
    rw [mem_outboxPayloads_entity hmem] at hraw
    exact ⟨inv_entity hmatch hapart hevent hraw env s l h.graph heffects, h.rows⟩
  | edge hrow hraw env s l heffects =>
    obtain ⟨event, hevent, draw, hmem⟩ := h.rows _ hrow
    obtain ⟨edge, hedge, id, rfl⟩ := mem_outboxPayloads_edge hmem
    exact ⟨inv_edge hmatch hevent hedge hraw env s l h.graph heffects, h.rows⟩
  | resolve fuel => exact ⟨inv_resolvePendingStubs h.graph fuel, h.rows⟩

theorem Reaches.inv (hmatch : Matching pvc sc name) (hapart : Apart uuid5 gcfg pvc sc)
    {S : Pipeline} (h : Reaches uuid5 gcfg deps [pvc, sc] pvc.workspaceId S) :
    PipelineInv uuid5 pvc sc name S := by
  induction h with
  | refl => exact ⟨typed_empty, forall_mem_nil _⟩
  | tail _ hstep ih => exact ih.step hmatch hapart hstep

theorem Inv.usesClass_eq {g : Graph}
    (h : Inv pvc.workspaceId (pvc.entityId uuid5) (sc.entityId uuid5) name g) {r : Arc Rel}
    (hr : r ∈ g.rels) : usesClass uuid5 pvc sc g r = false := by
  rw [← Bool.not_eq_true, usesClass]
  intro huses
  rw [Bool.and_eq_true, Bool.and_eq_true, decide_eq_true_eq] at huses
  obtain ⟨n, hn, hclass⟩ := has_iff.1 huses.2
  rw [h.rels r hr n hn huses.1.1] at hclass
  cases hclass

/-- **The claim and its class are never connected**: whatever is delivered, in whatever order and
however often, directly or by the outbox, and however often stubs are resolved. -/
theorem never_connected (hmatch : Matching pvc sc name) (hapart : Apart uuid5 gcfg pvc sc)
    {S : Pipeline} (h : Reaches uuid5 gcfg deps [pvc, sc] pvc.workspaceId S) :
    ¬Connected uuid5 pvc sc S.graph := by
  rintro ⟨hone, -⟩
  have hnone : S.graph.rels.countP (usesClass uuid5 pvc sc S.graph) = 0 := by
    rw [countP_eq_zero]
    intro r hr
    rw [(h.inv hmatch hapart).graph.usesClass_eq hr]
    exact Bool.false_ne_true
  omega

end

/-! ### A run -/

/-- Ids by the length of the name. -/
def sampleUuid5 : Uuid5 := fun _ text => BitVec.ofNat 128 (1000 + text.length)

/-- A claim to the class `fast`. -/
def samplePvc : OperatorEvent where
  sourceId := 1#128
  externalId := "k8s_resource/c1/PersistentVolumeClaim/shop/data"
  workspaceId := 7#128
  metadata := [("kind", "PersistentVolumeClaim"), ("name", "data"), ("namespace", "shop"),
    ("cluster", "east"), ("cluster_id", "c1"), ("storage_class_name", "fast")]
  topologyEdges := [⟨"in_cluster", "k8s_resource/c1/Cluster/east"⟩]

/-- The class. -/
def sampleSc : OperatorEvent where
  sourceId := 1#128
  externalId := "k8s_resource/c1/StorageClass/fast"
  workspaceId := 7#128
  metadata := [("kind", "StorageClass"), ("name", "fast"), ("cluster", "east"),
    ("cluster_id", "c1")]
  topologyEdges := [⟨"in_cluster", "k8s_resource/c1/Cluster/east"⟩]

/-- A bitemporal store whose fingerprints are names. -/
def sampleConfig : GraphConfig where
  py := .sample
  bitemporal := true
  entityFingerprint entity := entity.name
  edgeFingerprint edgeType _ _ := edgeType
  stubEntityId _ name := BitVec.ofNat 128 name.length

theorem sample_matching : Matching samplePvc sampleSc "fast" where
  pvcKind := by decide
  scKind := by decide
  workspace := rfl
  cluster := by decide
  clusterNe := by decide
  className := by decide
  nameNe := by decide
  scName := by decide
  scId := by decide
  nameSlash := by decide
  targetSlash := by decide

theorem deriveEntityId_ofList (w : Uuid) (l : List Char) :
    deriveEntityId sampleUuid5 w (String.ofList l) =
      BitVec.ofNat 128 (1000 + (w.str.length + 1 + l.length)) := by
  have hslash : "/".length = 1 := rfl
  simp only [deriveEntityId, sampleUuid5, String.length_append, String.length_ofList, hslash]

theorem entityId_samplePvc : samplePvc.entityId sampleUuid5 = 1084#128 := by
  rw [OperatorEvent.entityId]
  refine (deriveEntityId_ofList _ _).trans ?_
  decide

theorem entityId_sampleSc : sampleSc.entityId sampleUuid5 = 1070#128 := by
  rw [OperatorEvent.entityId]
  refine (deriveEntityId_ofList _ _).trans ?_
  decide

theorem sample_apart : Apart sampleUuid5 sampleConfig samplePvc sampleSc where
  entities := by
    rw [entityId_samplePvc, entityId_sampleSc]
    decide
  stubs := by
    have hstubs : ∀ event ∈ [samplePvc, sampleSc],
        ∀ edge ∈ (operatorEventToGraph sampleUuid5 event).2,
          sampleConfig.stubEntityId samplePvc.workspaceId edge.targetName ≠ 1084#128 ∧
            sampleConfig.stubEntityId samplePvc.workspaceId edge.targetName ≠ 1070#128 := by
      decide
    intro event hevent edge hedge other hother
    obtain ⟨hpvc, hsc⟩ := hstubs event hevent edge hedge
    rcases mem_cons.1 hother with rfl | hother
    · rwa [entityId_samplePvc]
    · rwa [mem_singleton.1 hother, entityId_sampleSc]

/-- The graph after the direct writes of the events, one after the other. -/
def routedDirectly (order : List OperatorEvent) : Graph :=
  order.foldl (fun g event => Cypher.committed
    (Cypher.upsertGraph sampleConfig (graphUpsert sampleUuid5 event none) 5 g) g) .empty

instance (uuid5 : Uuid5) (pvc sc : OperatorEvent) (g : Graph) :
    Decidable (Connected uuid5 pvc sc g) :=
  inferInstanceAs (Decidable (_ ∧ _))

theorem reaches_routedDirectly {order : List OperatorEvent}
    (h : ∀ event ∈ order, event ∈ [samplePvc, sampleSc]) :
    Reaches sampleUuid5 sampleConfig .sample [samplePvc, sampleSc] 7#128
      ⟨routedDirectly order, []⟩ := by
  induction order using List.reverseRecOn with
  | nil => exact .refl
  | append_singleton order event ih =>
    rw [routedDirectly, foldl_append]
    exact (ih fun e he => h e (mem_append_left _ he)).tail
      (.direct (h event (by simp)) none 5)

theorem sample_never_connected :
    ¬Connected sampleUuid5 samplePvc sampleSc (routedDirectly [sampleSc, samplePvc]) := by
  have hevents : ∀ event ∈ [sampleSc, samplePvc], event ∈ [samplePvc, sampleSc] := by simp
  have h := reaches_routedDirectly hevents
  generalize routedDirectly [sampleSc, samplePvc] = g at h ⊢
  exact never_connected sample_matching sample_apart h

/-- **In either order** the resolution comes to an end, and the two are not connected. -/
theorem direct_not_connected : Matching samplePvc sampleSc "fast" ∧
    ∀ order ∈ [[samplePvc, sampleSc], [sampleSc, samplePvc]],
      Reaches sampleUuid5 sampleConfig .sample [samplePvc, sampleSc] 7#128
        ⟨(Cypher.resolvePendingStubs 7#128 3 (routedDirectly order)).1, []⟩ ∧
      (Cypher.resolvePendingStubs 7#128 3 (routedDirectly order)).2 = true ∧
      ¬Connected sampleUuid5 samplePvc sampleSc
        (Cypher.resolvePendingStubs 7#128 3 (routedDirectly order)).1 := by
  have hruns : ∀ order ∈ [[samplePvc, sampleSc], [sampleSc, samplePvc]],
      (Cypher.resolvePendingStubs 7#128 3 (routedDirectly order)).2 = true ∧
        ¬Connected sampleUuid5 samplePvc sampleSc
          (Cypher.resolvePendingStubs 7#128 3 (routedDirectly order)).1 := by
    decide +kernel
  refine ⟨sample_matching, fun order horder => ⟨?_, hruns order horder⟩⟩
  refine (reaches_routedDirectly fun event hevent => ?_).tail (.resolve 3)
  simp only [mem_cons, not_mem_nil, or_false] at horder ⊢
  rcases horder with rfl | rfl
  · simpa using hevent
  · exact (by simpa using hevent : event = sampleSc ∨ event = samplePvc).symm

end Omniscience.OperatorGraph
