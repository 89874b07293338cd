import Omniscience.Queue.PbEvents

/-!
# From the producer to the consumer

`publishData` is what `QueueProducer.publish` puts on the wire, `decodeEntity`, `decodeEdge` and
`decodeMerge` are what `QueueConsumer._process_raw` makes of the bytes for its payload type.

The field tables of `pb_events` do not cover the models: neither `is_backfill` nor `content_hash`
has a field number, and the decoder cannot tell an empty workspace from a missing one.
`EntityUpsertEvent.asDelivered` and `EdgeUpsertEvent.asDelivered` say what is left of an event
(`decodeEntity_serialize`, `decodeEdge_serialize`); an event arrives unchanged exactly when there
was nothing to lose.
-/

namespace Omniscience.Queue

/-- A payload that `QueueProducer.publish` has a serialiser for. -/
inductive Published where
  | entity (e : EntityUpsertEvent)
  | edge (e : EdgeUpsertEvent)
  | merge (e : EntityMergeEvent)
  | dlq (m : DLQMessage)

variable (py : Py) (pyd : Pydantic)

/-- The bytes that `QueueProducer.publish` hands to the broker.  The payload is validated against
its own dump first; a dead letter has no field that could fail. -/
def publishData : Published → Except Exc Bytes
  | .entity e => do
    let _ ← EntityUpsertEvent.modelValidate pyd (payloadOf e.modelDump)
    return serializeEntityUpsertEvent py e
  | .edge e => do
    let _ ← EdgeUpsertEvent.modelValidate pyd (payloadOf e.modelDump)
    return serializeEdgeUpsertEvent py e
  | .merge e => do
    let _ ← EntityMergeEvent.modelValidate pyd (payloadOf e.modelDump)
    return e.modelDumpJson pyd
  | .dlq m => return serializeDlqMessage py m

/-- The payload of a message for a consumer of entity events. -/
def decodeEntity (data : Bytes) : Except Exc EntityUpsertEvent := do
  EntityUpsertEvent.modelValidate pyd (← deserializeEntityUpsertEvent py data)

/-- The payload of a message for a consumer of edge events. -/
def decodeEdge (data : Bytes) : Except Exc EdgeUpsertEvent := do
  EdgeUpsertEvent.modelValidate pyd (← deserializeEdgeUpsertEvent py data)

/-- The payload of a message for a consumer of merge events, which are JSON. -/
def decodeMerge (data : Bytes) : Except Exc EntityMergeEvent :=
  EntityMergeEvent.modelValidateJson pyd data

/-- What the wire format keeps of an entity event. -/
def EntityUpsertEvent.asDelivered (e : EntityUpsertEvent) : EntityUpsertEvent :=
  { e with
    workspaceId := nonEmpty e.workspaceId
    version := e.version.map fun v => (wireInt v : ℤ)
    isBackfill := false
    contentHash := none }

/-- What the wire format keeps of an edge event. -/
def EdgeUpsertEvent.asDelivered (e : EdgeUpsertEvent) : EdgeUpsertEvent :=
  { e with
    workspaceId := nonEmpty e.workspaceId
    version := e.version.map fun v => (wireInt v : ℤ)
    isBackfill := false }

@[simp] theorem publishData_entity (e : EntityUpsertEvent) :
    publishData py pyd (.entity e) = .ok (serializeEntityUpsertEvent py e) := by
  simp [publishData, pure, Except.pure]

@[simp] theorem publishData_edge (e : EdgeUpsertEvent) :
    publishData py pyd (.edge e) = .ok (serializeEdgeUpsertEvent py e) := by
  simp [publishData, pure, Except.pure]

@[simp] theorem publishData_merge (e : EntityMergeEvent) :
    publishData py pyd (.merge e) = .ok (e.modelDumpJson pyd) := by
  simp [publishData, pure, Except.pure]

theorem textOrNull_getD (text : Option String) :
    textOrNull (text.getD "") = strOrNull (nonEmpty text) := by
  cases text with
  | none => rfl
  | some text =>
    by_cases ht : text = ""
    · simp [textOrNull, nonEmpty, Option.filter, ht, strOrNull]
    · simp [textOrNull, nonEmpty, Option.filter, ht, strOrNull]

theorem optField_version {fields : Fields} {n : ℕ} {v : Option ℤ}
    (h : fields.get? n = v.map fun v => [.int (wireInt v)]) :
    optField fields n = .json (intOrNull (v.map fun v => (wireInt v : ℤ))) := by
  cases v with
  | none => simp [optField, h, intOrNull]
  | some v => simp [optField, h, intOrNull, WireVal.toAny]

theorem decodeMessage_entity (e : EntityUpsertEvent) :
    ∃ fields : Fields, decodeMessage (serializeEntityUpsertEvent py e) = .ok fields ∧
      getStrField fields 1 = .ok (e.workspaceId.getD "") ∧
      getStrField fields 2 = .ok e.id ∧ getStrField fields 3 = .ok e.sourceId ∧
      getStrField fields 4 = .ok e.entityType ∧ getStrField fields 5 = .ok e.name ∧
      getStrField fields 6 = .ok e.displayName ∧
      fields.get? 7 = (if py.dumps (.obj e.metadata) = "" then none
        else some [.bytes (encodeUtf8 (py.dumps (.obj e.metadata)))]) ∧
      fields.get? 8 = e.version.map fun v => [.int (wireInt v)] := by
  have hreads := ((((((((reads_string 1 (nonEmpty e.workspaceId)).append
    (reads_string 2 (some e.id))).append (reads_string 3 (some e.sourceId))).append
    (reads_string 4 (some e.entityType))).append (reads_string 5 (some e.name))).append
    (reads_string 6 (some e.displayName))).append
    (reads_string 7 (some (py.dumps (.obj e.metadata))))).append
    (reads_version 8 e.version)).decodeMessage
  -- each field is read past the fields written after it
  refine ⟨_, hreads, getStrField_eq ?_, getStrField_eq ?_, getStrField_eq ?_, getStrField_eq ?_,
    getStrField_eq ?_, getStrField_eq ?_, ?_, ?_⟩
  all_goals
    simp (disch := decide) only [Function.comp_apply, get?_addVersion_ne, get?_addString_ne]
  · exact get?_addString_nonEmpty (Dict.get?_empty 1) _
  all_goals
    first
    | refine (get?_addString_self ?_ _).trans rfl
    | refine (get?_addVersion_self ?_ _).trans rfl
    simp (disch := decide) only [get?_addString_ne, Dict.get?_empty]

theorem decodeMessage_edge (e : EdgeUpsertEvent) :
    ∃ fields : Fields, decodeMessage (serializeEdgeUpsertEvent py e) = .ok fields ∧
      getStrField fields 1 = .ok (e.workspaceId.getD "") ∧
      getStrField fields 2 = .ok e.id ∧ getStrField fields 3 = .ok e.sourceEntityId ∧
      getStrField fields 4 = .ok e.targetEntityId ∧ getStrField fields 5 = .ok e.edgeType ∧
      fields.get? 6 = (if py.dumps (.obj e.metadata) = "" then none
        else some [.bytes (encodeUtf8 (py.dumps (.obj e.metadata)))]) ∧
      fields.get? 7 = e.version.map fun v => [.int (wireInt v)] := by
  have hreads := (((((((reads_string 1 (nonEmpty e.workspaceId)).append
    (reads_string 2 (some e.id))).append (reads_string 3 (some e.sourceEntityId))).append
    (reads_string 4 (some e.targetEntityId))).append (reads_string 5 (some e.edgeType))).append
    (reads_string 6 (some (py.dumps (.obj e.metadata))))).append
    (reads_version 7 e.version)).decodeMessage
  refine ⟨_, hreads, getStrField_eq ?_, getStrField_eq ?_, getStrField_eq ?_, getStrField_eq ?_,
    getStrField_eq ?_, ?_, ?_⟩
  all_goals
    simp (disch := decide) only [Function.comp_apply, get?_addVersion_ne, get?_addString_ne]
  · exact get?_addString_nonEmpty (Dict.get?_empty 1) _
  all_goals
    first
    | refine (get?_addString_self ?_ _).trans rfl
    | refine (get?_addVersion_self ?_ _).trans rfl
    simp (disch := decide) only [get?_addString_ne, Dict.get?_empty]

/-- **What a consumer of entity events decodes** from the bytes of a published event. -/
theorem decodeEntity_serialize {e : EntityUpsertEvent} (hm : py.RoundTrips e.metadata) :
    decodeEntity py pyd (serializeEntityUpsertEvent py e) = .ok e.asDelivered := by
  obtain ⟨fields, hfields, h₁, h₂, h₃, h₄, h₅, h₆, h₇, h₈⟩ := decodeMessage_entity py e
  have hmeta : getStrField fields 7 "{}" = .ok (py.dumps (.obj e.metadata)) :=
    getStrField_of_ne hm.dumps_ne h₇
  have hloads : loadsOrEmpty py (py.dumps (.obj e.metadata)) = .obj e.metadata := by
    rw [loadsOrEmpty, hm.loads_dumps]
  have hd : deserializeEntityUpsertEvent py (serializeEntityUpsertEvent py e) =
      .ok (payloadOf e.asDelivered.modelDump |>.take 8) := by
    simp only [deserializeEntityUpsertEvent, hfields, h₁, h₂, h₃, h₄, h₅, h₆, hmeta, hloads,
      optField_version h₈, textOrNull_getD, ok_bind]
    rfl
  rw [decodeEntity, hd]
  simp [EntityUpsertEvent.modelDump, payloadOf, EntityUpsertEvent.modelValidate, field,
    List.lookup_cons, pure, Except.pure, EntityUpsertEvent.asDelivered]

/-- **What a consumer of edge events decodes** from the bytes of a published event. -/
theorem decodeEdge_serialize {e : EdgeUpsertEvent} (hm : py.RoundTrips e.metadata) :
    decodeEdge py pyd (serializeEdgeUpsertEvent py e) = .ok e.asDelivered := by
  obtain ⟨fields, hfields, h₁, h₂, h₃, h₄, h₅, h₆, h₇⟩ := decodeMessage_edge py e
  have hmeta : getStrField fields 6 "{}" = .ok (py.dumps (.obj e.metadata)) :=
    getStrField_of_ne hm.dumps_ne h₆
  have hloads : loadsOrEmpty py (py.dumps (.obj e.metadata)) = .obj e.metadata := by
    rw [loadsOrEmpty, hm.loads_dumps]
  have hd : deserializeEdgeUpsertEvent py (serializeEdgeUpsertEvent py e) =
      .ok (payloadOf e.asDelivered.modelDump |>.take 7) := by
    simp only [deserializeEdgeUpsertEvent, hfields, h₁, h₂, h₃, h₄, h₅, hmeta, hloads,
      optField_version h₇, textOrNull_getD, ok_bind]
    rfl
  rw [decodeEdge, hd]
  simp [EdgeUpsertEvent.modelDump, payloadOf, EdgeUpsertEvent.modelValidate, field,
    List.lookup_cons, pure, Except.pure, EdgeUpsertEvent.asDelivered]

/-! ### What survives the journey -/

/-- Nothing of the workspace and the version is lost on the wire. -/
def Carried (workspaceId : Option String) (version : Option ℤ) : Prop :=
  workspaceId ≠ some "" ∧ ∀ v, version = some v → 0 ≤ v

theorem nonEmpty_eq_iff {text : Option String} : nonEmpty text = text ↔ text ≠ some "" := by
  cases text with
  | none => simp [nonEmpty]
  | some text => simp [nonEmpty, Option.filter]

theorem map_wireInt_eq_iff {v : Option ℤ} :
    v.map (fun v => (wireInt v : ℤ)) = v ↔ ∀ n, v = some n → 0 ≤ n := by
  cases v with
  | none => simp
  | some v => simp [wireInt_eq_iff]

theorem EntityUpsertEvent.asDelivered_eq_iff {e : EntityUpsertEvent} : e.asDelivered = e ↔
      Carried e.workspaceId e.version ∧ e.isBackfill = false ∧ e.contentHash = none := by
  rw [Carried, ← nonEmpty_eq_iff, ← map_wireInt_eq_iff]
  obtain ⟨ws, id, src, ty, nm, dn, md, v, b, h⟩ := e
  simp only [asDelivered, EntityUpsertEvent.mk.injEq, true_and, and_assoc, eq_comm]

theorem EdgeUpsertEvent.asDelivered_eq_iff {e : EdgeUpsertEvent} :
    e.asDelivered = e ↔ Carried e.workspaceId e.version ∧ e.isBackfill = false := by
  rw [Carried, ← nonEmpty_eq_iff, ← map_wireInt_eq_iff]
  obtain ⟨ws, id, src, tgt, ty, md, v, b⟩ := e
  simp only [asDelivered, EdgeUpsertEvent.mk.injEq, true_and, and_assoc, eq_comm]

/-- **The wire round trip of the outbox events** keeps an event exactly when it has no empty
workspace text, no negative version, no backfill mark and, for an entity, no content hash. -/
theorem publish_decode_eq_iff :
    (∀ e : EntityUpsertEvent, py.RoundTrips e.metadata →
      ((publishData py pyd (.entity e) >>= decodeEntity py pyd) = .ok e ↔
        Carried e.workspaceId e.version ∧ e.isBackfill = false ∧ e.contentHash = none)) ∧
    ∀ e : EdgeUpsertEvent, py.RoundTrips e.metadata →
      ((publishData py pyd (.edge e) >>= decodeEdge py pyd) = .ok e ↔
        Carried e.workspaceId e.version ∧ e.isBackfill = false) := by
  refine ⟨fun e hm => ?_, fun e hm => ?_⟩
  · rw [publishData_entity, ok_bind, decodeEntity_serialize py pyd hm, Except.ok.injEq]
    exact EntityUpsertEvent.asDelivered_eq_iff
  · rw [publishData_edge, ok_bind, decodeEdge_serialize py pyd hm, Except.ok.injEq]
    exact EdgeUpsertEvent.asDelivered_eq_iff

/-- A backfill event of the reconciler for an entity without metadata. -/
def backfillSample : EntityUpsertEvent where
  id := "00000000-0000-0000-0000-000000000001"
  sourceId := "00000000-0000-0000-0000-000000000002"
  entityType := "service"
  name := "api"
  displayName := "API"
  version := some 3
  isBackfill := true

theorem publish_decode_backfill_ne : ¬ ∀ e : EntityUpsertEvent, Py.sample.RoundTrips e.metadata →
      (∀ v, e.version = some v → 0 ≤ v) →
      (publishData Py.sample Pydantic.strict (.entity e) >>=
        decodeEntity Py.sample Pydantic.strict) = .ok e := by
  intro h
  have h' := h backfillSample Py.sample_roundTrips (by rintro _ ⟨⟩; decide)
  rw [publishData_entity, ok_bind, decodeEntity_serialize _ _ Py.sample_roundTrips] at h'
  have hb := congrArg EntityUpsertEvent.isBackfill (Except.ok.inj h')
  exact absurd hb (by decide)

theorem publish_decode_sample : let e := { backfillSample with isBackfill := false }
    (publishData Py.sample Pydantic.strict (.entity e) >>=
      decodeEntity Py.sample Pydantic.strict) = .ok e :=
  ((publish_decode_eq_iff Py.sample Pydantic.strict).1 _ Py.sample_roundTrips).2
    ⟨⟨by decide, by rintro _ ⟨⟩; decide⟩, rfl, rfl⟩

end Omniscience.Queue
