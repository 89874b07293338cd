import Omniscience.Ingestion.ChangeEvents
import Omniscience.Operator.Entity

/-!
# From the operator to the server

`publish` (`operator/internal/publisher/publisher.go`) marshals an event with `encoding/json`, whose
object the struct tags of `Event` lay out, and hands the text to the broker.  On the other side a
consumer of change events reads the bytes with the field decoder of `pb_events`.

The text of an object starts with a brace.  As a tag of the wire format the brace announces the
field 15 with the wire type 3, which `decode_message` does not know
(`decodeMessage_of_brace`), so no event of the operator gets past the decoder (`not_readable`).
-/

namespace Omniscience.Operator

open Queue

/-! ### `encoding/json` -/

/-- A hexadecimal digit, in lower case. -/
def hexDigit (n : ℕ) : Char := Nat.digitChar (n % 16)

/-- The text of a character inside a JSON string: quotes, backslashes, control characters, the
characters that are special in HTML and the two Unicode line ends are escaped. -/
def escapeChar (c : Char) : List Char :=
  let n := c.toNat
  if n = 0x22 ∨ n = 0x5C then ['\\', c]
  else if n = 0x08 then ['\\', 'b']
  else if n = 0x0C then ['\\', 'f']
  else if n = 0x0A then ['\\', 'n']
  else if n = 0x0D then ['\\', 'r']
  else if n = 0x09 then ['\\', 't']
  else if n < 0x20 ∨ n = 0x3C ∨ n = 0x3E ∨ n = 0x26 then
    ['\\', 'u', '0', '0', hexDigit (n / 16), hexDigit n]
  else if n = 0x2028 ∨ n = 0x2029 then ['\\', 'u', '2', '0', '2', hexDigit n]
  else [c]

/-- A JSON string. -/
def marshalString (text : String) : String :=
  "\"" ++ String.ofList (text.toList.flatMap escapeChar) ++ "\""

/-- A member of an object. -/
def marshalMember (name value : String) : String := marshalString name ++ ":" ++ value

/-- An object. -/
def marshalObject (members : List String) : String :=
  "\x7b" ++ (",".intercalate members ++ "\x7d")

/-- An array. -/
def marshalArray (items : List String) : String := "[" ++ ",".intercalate items ++ "]"

/-- A map, in the order of its keys. -/
def marshalMap : Option StringMap → String
  | none => "null"
  | some m => marshalObject
      ((m.items.insertionSort fun p q => p.1 ≤ q.1).map fun p =>
        marshalMember p.1 (marshalString p.2))

/-- The struct tags of `OwnerEdge`. -/
def OwnerEdge.marshal (e : OwnerEdge) : String :=
  marshalObject [marshalMember "relation" (marshalString e.relation),
    marshalMember "from_external_id" (marshalString e.fromExternalID),
    marshalMember "to_external_id" (marshalString e.toExternalID),
    marshalMember "from_kind" (marshalString e.fromKind),
    marshalMember "from_uid" (marshalString e.fromUID)]

/-- The struct tags of `EdgeRef`. -/
def EdgeRef.marshal (e : EdgeRef) : String :=
  marshalObject [marshalMember "kind" (marshalString e.kind),
    marshalMember "target_external_id" (marshalString e.targetExternalID)]

/-- A slice with the option `omitempty`. -/
def omitempty {α : Type} (name : String) (marshal : α → String) (items : List α) : List String :=
  if items = [] then [] else [marshalMember name (marshalArray (items.map marshal))]

variable {go : Go}

/-- The struct tags of `Event`: `json.Marshal(ev)`. -/
def Event.marshal (ev : Event go) : Except Exc Bytes :=
  match go.marshalTime ev.emittedAt with
  | none => .error ⟨.valueError, "Time.MarshalJSON: year outside of range [0,9999]"⟩
  | some emittedAt => .ok (encodeUtf8 (marshalObject (
      [marshalMember "source_id" (marshalString ev.sourceID.str),
        marshalMember "source_type" (marshalString ev.sourceType),
        marshalMember "external_id" (marshalString ev.externalID),
        marshalMember "uri" (marshalString ev.uri),
        marshalMember "action" (marshalString ev.action),
        marshalMember "workspace_id" (marshalString ev.workspaceID.str),
        marshalMember "emitted_at" emittedAt,
        marshalMember "metadata" (marshalMap ev.metadata)]
        ++ omitempty "edges" OwnerEdge.marshal ev.edges
        ++ omitempty "topology_edges" EdgeRef.marshal ev.topologyEdges)))

/-! ### The publisher -/

/-- A message for the broker. -/
structure Publication where
  subject : String
  body : Bytes

/-- `natsPublisher.Publish` up to the call of the broker. -/
def publish (subjectPrefix : String) (ev : Option (Event go)) : Except Exc Publication :=
  match ev with
  | none => .error ⟨.valueError, "publisher: event must not be nil"⟩
  | some ev =>
    if ev.workspaceID.str = "00000000-0000-0000-0000-000000000000" then
      .error ⟨.valueError, "publisher: refusing to publish event with zero workspace_id"⟩
    else
      match ev.marshal with
      | .error e => .error ⟨e.kind, "publisher: marshal event: " ++ e.text⟩
      | .ok body => .ok ⟨subjectPrefix ++ "." ++ ev.workspaceID.str, body⟩

theorem publish_eq_ok {subjectPrefix : String} {ev : Event go} {p : Publication}
    (h : publish subjectPrefix (some ev) = .ok p) :
    ev.marshal = .ok p.body ∧ p.subject = subjectPrefix ++ "." ++ ev.workspaceID.str := by
  simp only [publish] at h
  split at h
  · cases h
  · cases hbody : ev.marshal with
    | error e =>
      rw [hbody] at h
      cases h
    | ok body =>
      rw [hbody] at h
      cases h
      exact ⟨rfl, rfl⟩

theorem exists_publish (subjectPrefix : String) {ev : Event go} {text : String}
    (hws : ev.workspaceID.str ≠ "00000000-0000-0000-0000-000000000000")
    (htime : go.marshalTime ev.emittedAt = some text) :
    ∃ p, publish subjectPrefix (some ev) = .ok p := by
  obtain ⟨body, hbody⟩ : ∃ body, ev.marshal = .ok body := by
    simp only [Event.marshal, htime, Except.ok.injEq, exists_eq']
  refine ⟨⟨subjectPrefix ++ "." ++ ev.workspaceID.str, body⟩, ?_⟩
  simp only [publish, if_neg hws, hbody]

/-! ### The consumer -/

/-- The members of a decoded event agree with those of the event that was published. -/
structure Agrees (ev : Event go) (e : DocumentChangeEvent) : Prop where
  sourceID : e.sourceId = ev.sourceID
  sourceType : e.sourceType = ev.sourceType
  externalID : e.externalId = ev.externalID
  uri : e.uri = ev.uri
  action : e.action.text = ev.action
  metadata : ∀ key, ((e.metadata.getD []).lookup key) = (ev.metadata.getD .empty).get? key
  topologyEdges : (e.topologyEdges.getD []).map (fun t => (t.kind, t.targetExternalId)) =
    ev.topologyEdges.map fun t => (t.kind, t.targetExternalID)

/-- A consumer of change events decodes the bytes into an event that agrees with the published
one. -/
def Readable (pyd : Pydantic) (ev : Event go) (data : Bytes) : Prop :=
  ∃ e, decodeChange pyd data = .ok e ∧ Agrees ev e

theorem encodeUtf8_marshalObject (members : List String) :
    ∃ rest, encodeUtf8 (marshalObject members) = 0x7B :: rest := by
  refine ⟨encodeUtf8 (",".intercalate members ++ "\x7d"), ?_⟩
  have hbrace : ("\x7b" : String).toByteArray.data.toList = [0x7B] := by decide
  simp only [encodeUtf8, marshalObject, String.toUTF8_eq_toByteArray, String.toByteArray_append,
    ByteArray.data_append, Array.toList_append, hbrace, List.singleton_append]

theorem decodeMessage_of_brace (rest : Bytes) :
    decodeMessage (0x7B :: rest) = .error ⟨.notImplementedError, "Unsupported wire type 3"⟩ := by
  have hpos : 0 < (0x7B :: rest : Bytes).length := Nat.succ_pos _
  have htag : decodeVarint (0x7B :: rest) 0 = .ok (0x7B, 1) := rfl
  rw [decodeMessage, decodeMessageLoop, dif_pos hpos]
  split
  · rename_i h
    rw [htag] at h
    cases h
  · rename_i h
    rw [htag] at h
    cases h
    rfl

theorem decodeChange_of_brace (pyd : Pydantic) (rest : Bytes) : decodeChange pyd (0x7B :: rest) =
      .error ⟨.notImplementedError, "Unsupported wire type 3"⟩ := by
  rw [decodeChange, deserializeDocumentChangeEvent, decodeMessage_of_brace]
  rfl

theorem decodeChange_marshal (pyd : Pydantic) {ev : Event go} {body : Bytes}
    (h : ev.marshal = .ok body) :
    decodeChange pyd body = .error ⟨.notImplementedError, "Unsupported wire type 3"⟩ := by
  rw [Event.marshal] at h
  split at h
  · cases h
  · obtain ⟨rest, hrest⟩ := encodeUtf8_marshalObject (
      [marshalMember "source_id" (marshalString ev.sourceID.str),
        marshalMember "source_type" (marshalString ev.sourceType),
        marshalMember "external_id" (marshalString ev.externalID),
        marshalMember "uri" (marshalString ev.uri),
        marshalMember "action" (marshalString ev.action),
        marshalMember "workspace_id" (marshalString ev.workspaceID.str),
        marshalMember "emitted_at" ‹String›,
        marshalMember "metadata" (marshalMap ev.metadata)]
        ++ omitempty "edges" OwnerEdge.marshal ev.edges
        ++ omitempty "topology_edges" EdgeRef.marshal ev.topologyEdges)
    cases h
    rw [hrest, decodeChange_of_brace]

/-- **No event of the operator is readable**: whatever the publisher accepts and publishes, under
any subject, a consumer of change events does not decode it. -/
theorem not_readable (pyd : Pydantic) {subjectPrefix : String} {ev : Event go} {p : Publication}
    (h : publish subjectPrefix (some ev) = .ok p) : ¬ Readable pyd ev p.body := by
  rintro ⟨e, he, -⟩
  rw [decodeChange_marshal pyd (publish_eq_ok h).1] at he
  cases he

/-- A runtime with one moment and one name-based identifier. -/
def Go.sample : Go where
  Time := Unit
  utc := id
  marshalTime _ := some "\"2026-01-01T00:00:00Z\""
  newSHA1 _ _ := 1

/-- An update of a pod. -/
def podUpdate : Event Go.sample where
  sourceID := 1
  sourceType := sourceTypeOperator
  externalID := "k8s_resource/0a-1f/Pod/default/web"
  uri := "kube://prod/default/Pod/web"
  action := actionUpdated
  workspaceID := 7
  emittedAt := ()
  metadata := some (.ofList [("kind", "Pod"), ("name", "web")])

theorem podUpdate_published : ∃ p, publish "ingest.changes.k8s" (some podUpdate) = .ok p :=
  exists_publish "ingest.changes.k8s" (by decide) rfl

/-- The update of the pod is published and no consumer decodes it. -/
theorem podUpdate_not_readable : ∃ p, publish "ingest.changes.k8s" (some podUpdate) = .ok p ∧
      ¬ Readable Pydantic.strict podUpdate p.body := by
  obtain ⟨p, hp⟩ := podUpdate_published
  exact ⟨p, hp, not_readable Pydantic.strict hp⟩

theorem podUpdate_refused :
    ¬ ∀ (pyd : Pydantic) (subjectPrefix : String) (ev : Event Go.sample) (p : Publication),
      publish subjectPrefix (some ev) = .ok p → Readable pyd ev p.body := by
  intro h
  obtain ⟨p, hp⟩ := podUpdate_published
  obtain ⟨e, he, -⟩ := h Pydantic.strict _ _ p hp
  rw [decodeChange_marshal _ (publish_eq_ok hp).1] at he
  cases he

end Omniscience.Operator
