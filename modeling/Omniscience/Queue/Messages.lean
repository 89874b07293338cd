import Omniscience.Base.Python

/-!
# The outbox events and their models

The payloads that travel through the outbox are pydantic models.  A model is a table of fields:
the name of each field, how a value is converted to the type of the field, and whether a missing
value has a default.  `modelValidate` builds an event from a dictionary by that table, `modelDump`
lists the fields of an event.

The conversions of single values belong to the validation library, and `Pydantic` keeps them
abstract.  What is relied on is that a value that already has the type of its field is taken as
it is, and that `None` is no string.  `modelValidate_modelDump` then says that a dumped event
validates to itself.
-/

namespace Omniscience.Queue

/-- A value in the dictionary that a model validates. -/
inductive Any where
  | json (v : Json)
  /-- Raw bytes, as the wire format yields them. -/
  | bytes (b : Bytes)

/-- A dictionary handed to a model. -/
abbrev Payload := List (String × Any)

/-- The validation library: its conversions to the scalar field types, its JSON printer and its
JSON parser. -/
structure Pydantic where
  str : Any → Option String
  int : Any → Option ℤ
  bool : Any → Option Bool
  toJson : Json → String
  fromJson : Bytes → Option Json
  str_str : ∀ s, str (.json (.str s)) = some s
  str_null : str (.json .null) = none
  int_int : ∀ n, int (.json (.int n)) = some n
  bool_bool : ∀ b, bool (.json (.bool b)) = some b

attribute [simp] Pydantic.str_str Pydantic.str_null Pydantic.int_int Pydantic.bool_bool

/-- Validation without conversions: a value must already have the type of its field, and no text
is JSON.  It serves the instances of the general results. -/
def Pydantic.strict : Pydantic where
  str
    | .json (.str s) => some s
    | _ => none
  int
    | .json (.int n) => some n
    | _ => none
  bool
    | .json (.bool b) => some b
    | _ => none
  toJson _ := ""
  fromJson _ := none
  str_str _ := rfl
  str_null := rfl
  int_int _ := rfl
  bool_bool _ := rfl

/-- The type `T | None`. -/
def orNone {α : Type} (conv : Any → Option α) : Any → Option (Option α)
  | .json .null => some none
  | v => (conv v).map some

/-- The type `dict[str, Any]`. -/
def dictOf : Any → Option Metadata
  | .json (.obj m) => some m
  | _ => none

/-- Validate one field; `default` is `none` for a required field. -/
def field {α : Type} (d : Payload) (name : String) (conv : Any → Option α) (default : Option α) :
    Except Exc α :=
  match d.lookup name with
  | some v =>
    match conv v with
    | some a => .ok a
    | none => .error ⟨.validationError, name ++ ": invalid value"⟩
  | none =>
    match default with
    | some a => .ok a
    | none => .error ⟨.validationError, name ++ ": Field required"⟩

/-- The JSON value of an optional string. -/
def strOrNull : Option String → Json
  | some s => .str s
  | none => .null

/-- The JSON value of an optional integer. -/
def intOrNull : Option ℤ → Json
  | some n => .int n
  | none => .null

/-- A JSON dictionary as a payload. -/
def payloadOf (m : Metadata) : Payload := m.map fun p => (p.1, .json p.2)

/-- `EntityUpsertEvent`: an entity was created or updated.  The identifiers are UUID strings;
`isBackfill` marks an event of the reconciler that clears the parked status, and `contentHash` is
the hash forwarded from Postgres. -/
structure EntityUpsertEvent where
  workspaceId : Option String := none
  id : String
  sourceId : String
  entityType : String
  name : String
  displayName : String
  metadata : Metadata := []
  version : Option ℤ := none
  isBackfill : Bool := false
  contentHash : Option String := none

/-- `EdgeUpsertEvent`: an edge was created or updated. -/
structure EdgeUpsertEvent where
  workspaceId : Option String := none
  id : String
  sourceEntityId : String
  targetEntityId : String
  edgeType : String
  metadata : Metadata := []
  version : Option ℤ := none
  isBackfill : Bool := false

/-- `EntityMergeEvent`: a merge carries `sourceId` and `targetId`, an unmerge carries
`mergedNodeId`. -/
structure EntityMergeEvent where
  workspaceId : String
  sourceId : Option String := none
  targetId : Option String := none
  mergedNodeId : Option String := none

/-- `DLQMessage`: a message that was given up on, with the subject it was consumed from, the
reason, the number of delivery attempts and the time. -/
structure DLQMessage where
  originalSubject : String
  originalPayload : String
  error : String
  attemptCount : ℕ
  failedAt : ℕ

variable (pyd : Pydantic)

namespace EntityUpsertEvent

/-- `EntityUpsertEvent.model_validate`. -/
def modelValidate (d : Payload) : Except Exc EntityUpsertEvent := do
  return {
    workspaceId := ← field d "workspace_id" (orNone pyd.str) (some none)
    id := ← field d "id" pyd.str none
    sourceId := ← field d "source_id" pyd.str none
    entityType := ← field d "entity_type" pyd.str none
    name := ← field d "name" pyd.str none
    displayName := ← field d "display_name" pyd.str none
    metadata := ← field d "metadata" dictOf (some [])
    version := ← field d "version" (orNone pyd.int) (some none)
    isBackfill := ← field d "is_backfill" pyd.bool (some false)
    contentHash := ← field d "content_hash" (orNone pyd.str) (some none) }

/-- `event.model_dump()`. -/
def modelDump (e : EntityUpsertEvent) : Metadata :=
  [("workspace_id", strOrNull e.workspaceId), ("id", .str e.id), ("source_id", .str e.sourceId),
    ("entity_type", .str e.entityType), ("name", .str e.name),
    ("display_name", .str e.displayName), ("metadata", .obj e.metadata),
    ("version", intOrNull e.version), ("is_backfill", .bool e.isBackfill),
    ("content_hash", strOrNull e.contentHash)]

end EntityUpsertEvent

namespace EdgeUpsertEvent

/-- `EdgeUpsertEvent.model_validate`. -/
def modelValidate (d : Payload) : Except Exc EdgeUpsertEvent := do
  return {
    workspaceId := ← field d "workspace_id" (orNone pyd.str) (some none)
    id := ← field d "id" pyd.str none
    sourceEntityId := ← field d "source_entity_id" pyd.str none
    targetEntityId := ← field d "target_entity_id" pyd.str none
    edgeType := ← field d "edge_type" pyd.str none
    metadata := ← field d "metadata" dictOf (some [])
    version := ← field d "version" (orNone pyd.int) (some none)
    isBackfill := ← field d "is_backfill" pyd.bool (some false) }

/-- `event.model_dump()`. -/
def modelDump (e : EdgeUpsertEvent) : Metadata :=
  [("workspace_id", strOrNull e.workspaceId), ("id", .str e.id),
    ("source_entity_id", .str e.sourceEntityId), ("target_entity_id", .str e.targetEntityId),
    ("edge_type", .str e.edgeType), ("metadata", .obj e.metadata),
    ("version", intOrNull e.version), ("is_backfill", .bool e.isBackfill)]

end EdgeUpsertEvent

namespace EntityMergeEvent

/-- `EntityMergeEvent.model_validate`. -/
def modelValidate (d : Payload) : Except Exc EntityMergeEvent := do
  return {
    workspaceId := ← field d "workspace_id" pyd.str none
    sourceId := ← field d "source_id" (orNone pyd.str) (some none)
    targetId := ← field d "target_id" (orNone pyd.str) (some none)
    mergedNodeId := ← field d "merged_node_id" (orNone pyd.str) (some none) }

/-- `event.model_dump()`. -/
def modelDump (e : EntityMergeEvent) : Metadata :=
  [("workspace_id", .str e.workspaceId), ("source_id", strOrNull e.sourceId),
    ("target_id", strOrNull e.targetId), ("merged_node_id", strOrNull e.mergedNodeId)]

/-- `event.model_dump_json().encode()`. -/
def modelDumpJson (e : EntityMergeEvent) : Bytes := encodeUtf8 (pyd.toJson (.obj e.modelDump))

/-- `EntityMergeEvent.model_validate_json`. -/
def modelValidateJson (data : Bytes) : Except Exc EntityMergeEvent :=
  match pyd.fromJson data with
  | some (.obj m) => modelValidate pyd (payloadOf m)
  | _ => .error ⟨.validationError, "Invalid JSON"⟩

end EntityMergeEvent

/-! ### A dumped event validates to itself -/

@[simp] theorem orNone_strOrNull (s : Option String) :
    orNone pyd.str (.json (strOrNull s)) = some s := by
  cases s with
  | none => rfl
  | some s => simp [orNone, strOrNull]

@[simp] theorem orNone_intOrNull (n : Option ℤ) :
    orNone pyd.int (.json (intOrNull n)) = some n := by
  cases n with
  | none => rfl
  | some n => simp [orNone, intOrNull]

@[simp] theorem orNone_str (s : String) : orNone pyd.str (.json (.str s)) = some (some s) :=
  orNone_strOrNull pyd (some s)

@[simp] theorem dictOf_obj (m : Metadata) : dictOf (.json (.obj m)) = some m := rfl

@[simp] theorem EntityUpsertEvent.modelValidate_modelDump (e : EntityUpsertEvent) :
    modelValidate pyd (payloadOf e.modelDump) = .ok e := by
  simp [modelValidate, modelDump, payloadOf, field, List.lookup_cons]

@[simp] theorem EdgeUpsertEvent.modelValidate_modelDump (e : EdgeUpsertEvent) :
    modelValidate pyd (payloadOf e.modelDump) = .ok e := by
  simp [modelValidate, modelDump, payloadOf, field, List.lookup_cons]

@[simp] theorem EntityMergeEvent.modelValidate_modelDump (e : EntityMergeEvent) :
    modelValidate pyd (payloadOf e.modelDump) = .ok e := by
  simp [modelValidate, modelDump, payloadOf, field, List.lookup_cons]

end Omniscience.Queue
