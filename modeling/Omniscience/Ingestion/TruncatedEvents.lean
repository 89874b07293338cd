import Omniscience.Ingestion.ChangeEvents
import Omniscience.Queue.FieldCodec

/-!
# Event messages that are cut short

An entity, edge or document event is a message of encoded fields (`serialize_eq`).  A proper
prefix of it that does not end between two fields ends inside one.

`decode_message` indexes the bytes of a tag, a length or a number one by one and so runs into the
end of the data, but it slices the payload of a text, and a slice past the end is shortened
without an error.  `truncated_rejected_iff` : a prefix is rejected exactly when it does not end
inside a payload.
-/

namespace Omniscience.Queue

/-- An event that is encoded field by field. -/
inductive WireEvent where
  | entity (e : EntityUpsertEvent)
  | edge (e : EdgeUpsertEvent)
  | document (e : DocumentChangeEvent)

namespace WireEvent

variable (py : Py)

/-- The encoding of the event. -/
def serialize : WireEvent → Bytes
  | .entity e => serializeEntityUpsertEvent py e
  | .edge e => serializeEdgeUpsertEvent py e
  | .document e => serializeDocumentChangeEvent e

/-- The fields that the encoder writes; a text that is missing is written as an empty one, that
is, not at all. -/
def fields : WireEvent → List WireField
  | .entity e =>
    [.string 1 (e.workspaceId.getD ""), .string 2 e.id, .string 3 e.sourceId,
      .string 4 e.entityType, .string 5 e.name, .string 6 e.displayName,
      .string 7 (py.dumps (.obj e.metadata))] ++ e.version.toList.map (.int 8)
  | .edge e =>
    [.string 1 (e.workspaceId.getD ""), .string 2 e.id, .string 3 e.sourceEntityId,
      .string 4 e.targetEntityId, .string 5 e.edgeType,
      .string 6 (py.dumps (.obj e.metadata))] ++ e.version.toList.map (.int 7)
  | .document e =>
    [.string 1 e.sourceId.str, .string 2 e.sourceType, .string 3 e.externalId, .string 4 e.uri,
      .string 5 e.action.text]

theorem encodeString_nonEmpty (n : ℕ) (text : Option String) :
    encodeString n (nonEmpty text) = encodeString n (some (text.getD "")) := by
  cases text with
  | none => rfl
  | some text =>
    by_cases ht : text = ""
    · simp [nonEmpty, Option.filter, ht, encodeString]
    · simp [nonEmpty, Option.filter, ht]

theorem encodeFields_version (n : ℕ) (version : Option ℤ) :
    encodeFields (version.toList.map (.int n)) = encodeVersion n version := by
  cases version with
  | none => rfl
  | some v => simp [WireField.encode, encodeVersion]

theorem serialize_eq (e : WireEvent) : e.serialize py = encodeFields (e.fields py) := by
  cases e with
  | entity e =>
    simp only [serialize, fields, serializeEntityUpsertEvent, encodeFields_append,
      encodeFields_version, encodeFields_cons, encodeFields_nil, WireField.encode,
      encodeString_nonEmpty, List.append_assoc, List.append_nil]
  | edge e =>
    simp only [serialize, fields, serializeEdgeUpsertEvent, encodeFields_append,
      encodeFields_version, encodeFields_cons, encodeFields_nil, WireField.encode,
      encodeString_nonEmpty, List.append_assoc, List.append_nil]
  | document e =>
    simp only [serialize, fields, serializeDocumentChangeEvent, encodeFields_cons,
      encodeFields_nil, WireField.encode, List.append_assoc, List.append_nil]

end WireEvent

/-- **Truncated events**: a proper prefix of an event that does not end between two fields is
rejected exactly when it does not end inside the payload of a text. -/
theorem truncated_rejected_iff (py : Py) (e : WireEvent) (k : ℕ)
    (hk : k < (e.serialize py).length) (hb : ¬ AtBoundary (e.fields py) k) :
    (∃ exc, decodeMessage ((e.serialize py).take k) = .error exc) ↔
      ¬ InPayload (e.fields py) k := by
  rw [e.serialize_eq py] at hk ⊢
  exact decodeMessage_take hk hb

theorem length_encodeVarint_of_lt {v : ℤ} (hv : v < 128) : (encodeVarint v).length = 1 := by
  rw [encodeVarint, if_neg (by omega)]
  rfl

theorem inPayload_sample : InPayload ((WireEvent.entity backfillSample).fields Py.sample) 2 := by
  have hlen : (encodeUtf8 backfillSample.id).length = 36 := by decide
  have hne : backfillSample.id ≠ "" := by decide
  have hempty : encodeFields [.string 1 ""] = [] := rfl
  have hheader : (WireField.string 2 backfillSample.id).header.length = 2 := by
    simp [WireField.header, hne, hlen, length_encodeVarint_of_lt]
  refine ⟨[.string 1 ""], .string 2 backfillSample.id, _, rfl, ?_, ?_⟩
  · rw [hempty, hheader]
    rfl
  · rw [hempty, WireField.encode_eq, List.length_append, hheader, WireField.payload, hlen]
    decide

theorem truncated_rejected_iff_sample :
    ¬ ∃ exc, decodeMessage (((WireEvent.entity backfillSample).serialize Py.sample).take 2) =
      .error exc := by
  have hk : 2 < ((WireEvent.entity backfillSample).serialize Py.sample).length := by
    rw [WireEvent.serialize_eq]
    exact inPayload_sample.lt_length
  exact fun h => (truncated_rejected_iff Py.sample (.entity backfillSample) 2 hk
    inPayload_sample.not_atBoundary).1 h inPayload_sample

theorem truncated_not_rejected : ¬ ∀ (e : WireEvent) (k : ℕ), k < (e.serialize Py.sample).length →
      ¬ AtBoundary (e.fields Py.sample) k →
      ∃ exc, decodeMessage ((e.serialize Py.sample).take k) = .error exc := by
  intro h
  have hin := inPayload_sample
  have h' := h (.entity backfillSample) 2
  rw [WireEvent.serialize_eq] at h'
  exact (decodeMessage_take hin.lt_length hin.not_atBoundary).1
    (h' hin.lt_length hin.not_atBoundary) hin

end Omniscience.Queue
