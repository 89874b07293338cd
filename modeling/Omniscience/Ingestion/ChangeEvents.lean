import Omniscience.Ingestion.Worker
import Omniscience.Queue.Wire

/-!
# Document change events on the stream

`publishChange` is what `QueueProducer.publish` (`queue/producer.py`) puts on the wire for a
`DocumentChangeEvent`, `decodeChange` is what `QueueConsumer._process_raw` (`queue/consumer.py`)
makes of the bytes.  The field table of `pb_events` has five numbers.  The model has seven fields:
`metadata` and `topology_edges` were added for the events of the operator (`ingestion/events.py`)
and have no number.

* `decodeChange_publishChange` : what arrives is the event without the two fields.
* `survives_iff` : the events that arrive unchanged and are routed to the graph as they would have
  been on the other side of the queue.
-/

namespace Omniscience

/-! ### The model -/

/-- The text of an action. -/
def ChangeAction.text : ChangeAction → String
  | .created => "created"
  | .updated => "updated"
  | .deleted => "deleted"

namespace Queue

variable (pyd : Pydantic)

/-- `Literal["created", "updated", "deleted"]`. -/
def literalAction : Any → Option ChangeAction
  | .json (.str s) =>
    if s = "created" then some .created
    else if s = "updated" then some .updated
    else if s = "deleted" then some .deleted
    else none
  | _ => none

/-- `dict[str, str]`. -/
def dictStr : Any → Option (List (String × String))
  | .json (.obj m) => m.mapM fun p => (pyd.str (.json p.2)).map (p.1, ·)
  | _ => none

/-- `TopologyEdge`. -/
def topologyEdgeOf : Json → Option TopologyEdge
  | .obj m => do
    some
      { kind := ← (field (payloadOf m) "kind" pyd.str none).toOption
        targetExternalId := ← (field (payloadOf m) "target_external_id" pyd.str none).toOption }
  | _ => none

/-- `list[TopologyEdge]`. -/
def topologyEdgesOf : Any → Option (List TopologyEdge)
  | .json (.arr items) => items.mapM (topologyEdgeOf pyd)
  | _ => none

/-- `DocumentChangeEvent.model_validate`.  In both dictionaries that are validated the identifier of
the source is a `UUID` object already and is taken as it is; `d` holds the other items. -/
def modelValidateChange (sourceId : Uuid) (d : Payload) : Except Exc DocumentChangeEvent := do
  return {
    sourceId
    sourceType := ← field d "source_type" pyd.str none
    externalId := ← field d "external_id" pyd.str none
    uri := ← field d "uri" pyd.str none
    action := ← field d "action" literalAction none
    metadata := ← field d "metadata" (orNone (dictStr pyd)) (some none)
    topologyEdges := ← field d "topology_edges" (orNone (topologyEdgesOf pyd)) (some none) }

/-- The dump of a topology edge. -/
def dumpTopologyEdge (edge : TopologyEdge) : Json :=
  .obj [("kind", .str edge.kind), ("target_external_id", .str edge.targetExternalId)]

/-- The JSON value of optional metadata. -/
def metadataOrNull : Option (List (String × String)) → Json
  | some m => .obj (m.map fun p => (p.1, .str p.2))
  | none => .null

/-- The JSON value of optional topology edges. -/
def edgesOrNull : Option (List TopologyEdge) → Json
  | some edges => .arr (edges.map dumpTopologyEdge)
  | none => .null

/-- `event.model_dump()` without the identifier of the source. -/
def modelDumpChange (e : DocumentChangeEvent) : Metadata :=
  [("source_type", .str e.sourceType), ("external_id", .str e.externalId), ("uri", .str e.uri),
    ("action", .str e.action.text), ("metadata", metadataOrNull e.metadata),
    ("topology_edges", edgesOrNull e.topologyEdges)]

@[simp] theorem literalAction_text (a : ChangeAction) :
    literalAction (.json (.str a.text)) = some a := by
  cases a <;> rfl

theorem mapM_map_some {α β : Type} {f : α → β} {g : β → Option α} (h : ∀ a, g (f a) = some a)
    (l : List α) : (l.map f).mapM g = some l := by
  induction l with
  | nil => rfl
  | cons a l ih => simp [List.mapM_cons, h, ih]

@[simp] theorem dictStr_metadataOrNull (m : Option (List (String × String))) :
    orNone (dictStr pyd) (.json (metadataOrNull m)) = some m := by
  cases m with
  | none => rfl
  | some m =>
    have hm := mapM_map_some (f := fun p : String × String => (p.1, Json.str p.2))
      (g := fun p => (pyd.str (.json p.2)).map (p.1, ·)) (by simp) m
    simp only [metadataOrNull, orNone, dictStr, hm, Option.map_some]

theorem topologyEdgeOf_dump (edge : TopologyEdge) :
    topologyEdgeOf pyd (dumpTopologyEdge edge) = some edge := by
  simp [topologyEdgeOf, dumpTopologyEdge, payloadOf, field, List.lookup_cons, Except.toOption]

@[simp] theorem topologyEdgesOf_edgesOrNull (edges : Option (List TopologyEdge)) :
    orNone (topologyEdgesOf pyd) (.json (edgesOrNull edges)) = some edges := by
  cases edges with
  | none => rfl
  | some edges =>
    simp only [edgesOrNull, orNone, topologyEdgesOf, mapM_map_some (topologyEdgeOf_dump pyd),
      Option.map_some]

@[simp] theorem modelValidateChange_modelDump (e : DocumentChangeEvent) :
    modelValidateChange pyd e.sourceId (payloadOf (modelDumpChange e)) = .ok e := by
  simp [modelValidateChange, modelDumpChange, payloadOf, field, List.lookup_cons, pure, Except.pure]

/-! ### The wire -/

/-- `serialize_document_change_event`. -/
def serializeDocumentChangeEvent (e : DocumentChangeEvent) : Bytes :=
  encodeString 1 (some e.sourceId.str)
    ++ encodeString 2 (some e.sourceType)
    ++ encodeString 3 (some e.externalId)
    ++ encodeString 4 (some e.uri)
    ++ encodeString 5 (some e.action.text)

/-- `deserialize_document_change_event`: the identifier of the source and the other items. -/
def deserializeDocumentChangeEvent (data : Bytes) : Except Exc (Uuid × Payload) := do
  let fields ← decodeMessage data
  let text ← getStrField fields 1
  let sourceId ← match Uuid.parse text with
    | some sourceId => .ok sourceId
    | none => .error ⟨.valueError, "badly formed hexadecimal UUID string"⟩
  return (sourceId,
    [("source_type", .json (.str (← getStrField fields 2))),
      ("external_id", .json (.str (← getStrField fields 3))),
      ("uri", .json (.str (← getStrField fields 4))),
      ("action", .json (.str (← getStrField fields 5)))])

/-- The bytes that `QueueProducer.publish` hands to the broker for a change event. -/
def publishChange (e : DocumentChangeEvent) : Except Exc Bytes := do
  let _ ← modelValidateChange pyd e.sourceId (payloadOf (modelDumpChange e))
  return serializeDocumentChangeEvent e

/-- The payload of a message for a consumer of change events. -/
def decodeChange (data : Bytes) : Except Exc DocumentChangeEvent := do
  let (sourceId, d) ← deserializeDocumentChangeEvent data
  modelValidateChange pyd sourceId d

/-- What the wire format keeps of a change event. -/
def changeAsDelivered (e : DocumentChangeEvent) : DocumentChangeEvent :=
  { e with metadata := none, topologyEdges := none }

theorem decodeMessage_change (e : DocumentChangeEvent) :
    ∃ fields : Fields, decodeMessage (serializeDocumentChangeEvent e) = .ok fields ∧
      getStrField fields 1 = .ok e.sourceId.str ∧ getStrField fields 2 = .ok e.sourceType ∧
      getStrField fields 3 = .ok e.externalId ∧ getStrField fields 4 = .ok e.uri ∧
      getStrField fields 5 = .ok e.action.text := by
  have hreads := (((((reads_string 1 (some e.sourceId.str)).append
    (reads_string 2 (some e.sourceType))).append (reads_string 3 (some e.externalId))).append
    (reads_string 4 (some e.uri))).append (reads_string 5 (some e.action.text))).decodeMessage
  -- each field is read past the fields written after it
  refine ⟨_, hreads, getStrField_eq ?_, getStrField_eq ?_, getStrField_eq ?_, getStrField_eq ?_,
    getStrField_eq ?_⟩
  all_goals
    simp (disch := decide) only [Function.comp_apply, get?_addString_ne]
    refine (get?_addString_self ?_ _).trans rfl
    simp (disch := decide) only [get?_addString_ne, Dict.get?_empty]

/-- **What a consumer decodes** from the bytes of a published change event. -/
theorem decodeChange_publishChange (e : DocumentChangeEvent) :
    (publishChange pyd e >>= decodeChange pyd) = .ok (changeAsDelivered e) := by
  obtain ⟨fields, hfields, h₁, h₂, h₃, h₄, h₅⟩ := decodeMessage_change e
  have hpublish : publishChange pyd e = .ok (serializeDocumentChangeEvent e) := by
    simp [publishChange, pure, Except.pure]
  have hd : deserializeDocumentChangeEvent (serializeDocumentChangeEvent e) =
      .ok (e.sourceId, payloadOf (modelDumpChange e) |>.take 4) := by
    simp only [deserializeDocumentChangeEvent, hfields, h₁, h₂, h₃, h₄, h₅, ok_bind, Uuid.parse_str]
    rfl
  rw [hpublish, ok_bind, decodeChange, hd]
  simp [modelDumpChange, payloadOf, modelValidateChange, field, List.lookup_cons, pure,
    Except.pure, changeAsDelivered]

theorem changeAsDelivered_eq_iff {e : DocumentChangeEvent} :
    changeAsDelivered e = e ↔ e.metadata = none ∧ e.topologyEdges = none := by
  obtain ⟨src, ty, ext, uri, act, md, edges⟩ := e
  simp only [changeAsDelivered, DocumentChangeEvent.mk.injEq, true_and, eq_comm]

end Queue

namespace Ingestion

open Dedup Queue

/-! ### Routing to the graph -/

variable {V : Type} {svc : Services V} {event : DocumentChangeEvent} {result : ProcessResult}

/-- The guards of `_maybe_route_operator_graph`. -/
def Routes (svc : Services V) (event : DocumentChangeEvent) (result : ProcessResult) : Prop :=
  svc.routeOperatorGraph.isSome ∧ event.sourceType = emitterOperator ∧
    (result.action = .created ∨ result.action = .updated) ∧ event.metadata.getD [] ≠ []

theorem maybeRouteOperatorGraph_of_routes (h : Routes svc event result) (w : Uuid) :
    ∃ route, svc.routeOperatorGraph = some route ∧
      maybeRouteOperatorGraph svc event result w =
        match route event w with
        | .ok _ => result
        | .error e => { result with action := .error, error := some e.text } := by
  obtain ⟨hstore, hsource, haction, hmeta⟩ := h
  obtain ⟨route, hroute⟩ := Option.isSome_iff_exists.1 hstore
  have hact : ¬ (result.action ≠ .created ∧ result.action ≠ .updated) := by tauto
  have hne : ¬ (event.metadata.getD []).isEmpty := by rwa [List.isEmpty_iff]
  refine ⟨route, hroute, ?_⟩
  simp only [maybeRouteOperatorGraph, hroute]
  refine (if_neg (not_not.2 hsource)).trans ((if_neg hact).trans ((if_neg hne).trans ?_))
  cases route event w <;> rfl

theorem maybeRouteOperatorGraph_of_not_routes (h : ¬ Routes svc event result)
    (w : Uuid) : maybeRouteOperatorGraph svc event result w = result := by
  rw [maybeRouteOperatorGraph]
  cases hroute : svc.routeOperatorGraph with
  | none => rfl
  | some route =>
    simp only
    split_ifs with hsource haction hmeta
    · rfl
    · rfl
    · rfl
    · refine absurd ⟨by simp [hroute], not_not.1 hsource, ?_, ?_⟩ h
      · tauto
      · rwa [ne_eq, ← List.isEmpty_iff]

/-- The event that the consumer decodes is the event that was published, and the worker routes it
to the graph exactly when it would route the published one. -/
def Survives (pyd : Pydantic) (e : DocumentChangeEvent) : Prop :=
  (publishChange pyd e >>= decodeChange pyd) = .ok e ∧
    ∀ delivered, (publishChange pyd e >>= decodeChange pyd) = .ok delivered →
      ∀ (V : Type) (svc : Services V) (result : ProcessResult),
        Routes svc delivered result ↔ Routes svc e result

/-- **The round trip of the change events**: an event arrives unchanged exactly when it carries
neither metadata nor topology edges. -/
theorem survives_iff (pyd : Pydantic) (e : DocumentChangeEvent) :
    Survives pyd e ↔ e.metadata = none ∧ e.topologyEdges = none := by
  rw [Survives, decodeChange_publishChange, Except.ok.injEq]
  constructor
  · rintro ⟨heq, -⟩
    exact changeAsDelivered_eq_iff.1 heq
  · intro h
    have heq := changeAsDelivered_eq_iff.2 h
    refine ⟨heq, fun delivered hdelivered V svc result => ?_⟩
    have hsame : delivered = e := (Except.ok.inj hdelivered).symm.trans heq
    rw [hsame]

theorem not_routes_changeAsDelivered : ¬ Routes svc (changeAsDelivered event) result := by
  rintro ⟨-, -, -, h⟩
  exact h rfl

/-- The event of the operator for a claim of storage. -/
def pvcEvent : DocumentChangeEvent where
  sourceId := 1
  sourceType := emitterOperator
  externalId := "k8s_resource/0a-1f/PersistentVolumeClaim/default/data"
  uri := "kube://prod/default/PersistentVolumeClaim/data"
  action := .created
  metadata := some [("cluster_id", "0a-1f"), ("kind", "PersistentVolumeClaim"), ("name", "data"),
    ("storage_class_name", "gp3")]
  topologyEdges := some [⟨"in_cluster", "k8s_resource/0a-1f/Cluster/prod"⟩]

/-- The event of the operator reaches the worker without its metadata, and the worker does not route
it to the graph as it would have routed the original. -/
theorem pvcEvent_not_survives : ¬ Survives Pydantic.strict pvcEvent ∧
      let svc := { podServices with routeOperatorGraph := some fun _ _ => .ok () }
      let result : ProcessResult := ⟨1, pvcEvent.externalId, .created, none⟩
      Routes svc pvcEvent result ∧ ¬ Routes svc (changeAsDelivered pvcEvent) result := by
  refine ⟨fun h => ?_, ⟨rfl, rfl, .inl rfl, by decide⟩, not_routes_changeAsDelivered⟩
  have heq := h.1
  rw [decodeChange_publishChange, Except.ok.injEq] at heq
  exact absurd (changeAsDelivered_eq_iff.1 heq).1 (by decide)

end Ingestion

end Omniscience
