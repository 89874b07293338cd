import Omniscience.Lib.Utf8
import Omniscience.Queue.Consumer

/-!
# What a dead letter keeps of its message

`QueueConsumer._route_to_dlq` puts the bytes of a message into a text field, decoded with
`errors="replace"`, and publishes it.  `deserializeDlqMessage` and `DLQMessage.model_validate`
read such an entry back.

* `replayed_eq` : the entry that is read back has the decoded text as its payload.
* `payload_determines_iff` : the payload determines the bytes of the message exactly when they are
  the encoding of a text without the replacement character.
-/

namespace Omniscience.Queue

open Function

/-- A dead letter as it is read back; any integer can stand for the number of attempts. -/
structure ReadDlqMessage where
  originalSubject : String
  originalPayload : String
  error : String
  attemptCount : ℤ
  failedAt : ℕ

/-- `get_int_field`: the first value is returned as it is. -/
def getIntField (fields : Fields) (n : ℕ) (default : ℤ := 0) : Any :=
  match fields.get? n with
  | none | some [] => .json (.int default)
  | some (v :: _) => v.toAny

variable (py : Py) (pyd : Pydantic)

/-- `deserialize_dlq_message` at the time `now`: the time of failure and the other items. -/
def deserializeDlqMessage (now : ℕ) (data : Bytes) : Except Exc (ℕ × Payload) := do
  let fields ← decodeMessage data
  let failedAtStr ← getStrField fields 5
  let failedAt := (py.fromisoformat failedAtStr).getD now
  return (failedAt,
    [("original_subject", .json (.str (← getStrField fields 1))),
      ("original_payload", .json (.str (← getStrField fields 2))),
      ("error", .json (.str (← getStrField fields 3))),
      ("attempt_count", getIntField fields 4)])

/-- `DLQMessage.model_validate`; the time of failure is a `datetime` already. -/
def modelValidateDlq (failedAt : ℕ) (d : Payload) : Except Exc ReadDlqMessage := do
  return {
    originalSubject := ← field d "original_subject" pyd.str none
    originalPayload := ← field d "original_payload" pyd.str none
    error := ← field d "error" pyd.str none
    attemptCount := ← field d "attempt_count" pyd.int none
    failedAt }

/-- The payload of a message for a consumer of the dead letter queue. -/
def decodeDlq (now : ℕ) (data : Bytes) : Except Exc ReadDlqMessage := do
  let (failedAt, d) ← deserializeDlqMessage py now data
  modelValidateDlq pyd failedAt d

theorem decodeMessage_dlq (m : DLQMessage) :
    ∃ fields : Fields, decodeMessage (serializeDlqMessage py m) = .ok fields ∧
      getStrField fields 1 = .ok m.originalSubject ∧
      getStrField fields 2 = .ok m.originalPayload ∧ getStrField fields 3 = .ok m.error ∧
      getIntField fields 4 = .json (.int m.attemptCount) ∧
      getStrField fields 5 = .ok (py.isoformat m.failedAt) := by
  have hreads := (((((reads_string 1 (some m.originalSubject)).append
    (reads_string 2 (some m.originalPayload))).append (reads_string 3 (some m.error))).append
    (reads_version 4 (some (m.attemptCount : ℤ)))).append
    (reads_string 5 (some (py.isoformat m.failedAt)))).decodeMessage
  refine ⟨_, hreads, getStrField_eq ?_, getStrField_eq ?_, getStrField_eq ?_, ?_, getStrField_eq ?_⟩
  case refine_4 =>
    rw [getIntField, comp_apply, get?_addString_ne _ (by decide), comp_apply, get?_addVersion_self]
    · simp [wireInt, WireVal.toAny]
    · simp (disch := decide) only [comp_apply, get?_addString_ne, Dict.get?_empty]
  all_goals
    simp (disch := decide) only [comp_apply, get?_addVersion_ne, get?_addString_ne]
    refine (get?_addString_self ?_ _).trans rfl
    simp (disch := decide) only [get?_addString_ne, get?_addVersion_ne, Dict.get?_empty]

/-- **A dead letter is read back** with its own subject, payload, reason and number of attempts. -/
theorem decodeDlq_serialize (m : DLQMessage) (now : ℕ) :
    decodeDlq py pyd now (serializeDlqMessage py m) =
      .ok ⟨m.originalSubject, m.originalPayload, m.error, m.attemptCount,
        (py.fromisoformat (py.isoformat m.failedAt)).getD now⟩ := by
  obtain ⟨fields, hfields, h₁, h₂, h₃, h₄, h₅⟩ := decodeMessage_dlq py m
  have hd : deserializeDlqMessage py now (serializeDlqMessage py m) =
      .ok ((py.fromisoformat (py.isoformat m.failedAt)).getD now,
        [("original_subject", .json (.str m.originalSubject)),
          ("original_payload", .json (.str m.originalPayload)),
          ("error", .json (.str m.error)), ("attempt_count", .json (.int m.attemptCount))]) := by
    simp only [deserializeDlqMessage, hfields, h₁, h₂, h₃, h₄, h₅, ok_bind]
    rfl
  rw [decodeDlq, hd]
  simp [modelValidateDlq, field, List.lookup_cons, pure, Except.pure]

variable {α : Type} (c : QueueConsumer α)

/-- The payload of the entry that `_route_to_dlq` publishes at time `failedAt` for a raw message,
as it is read back at time `now`. -/
def replayed (raw : Raw) (failedAt now : ℕ) : Except Exc String := do
  let data ← publishData py pyd (.dlq (deadLetter py c raw failedAt))
  return (← decodeDlq py pyd now data).originalPayload

theorem replayed_eq (raw : Raw) (failedAt now : ℕ) :
    replayed py pyd c raw failedAt now = .ok (py.decodeReplace raw.data) := by
  have hpublish : publishData py pyd (.dlq (deadLetter py c raw failedAt)) =
      .ok (serializeDlqMessage py (deadLetter py c raw failedAt)) :=
    rfl
  rw [replayed, hpublish, ok_bind, decodeDlq_serialize]
  rfl

/-! ### When the payload determines the message -/

theorem encodeUtf8_eq (text : String) : encodeUtf8 text = Utf8.encode text.toList := by
  conv_lhs => rw [← String.ofList_toList (s := text)]
  rw [encodeUtf8, String.toUTF8_eq_toByteArray, String.toByteArray_ofList, List.utf8Encode,
    List.data_toByteArray]
  rfl

/-- The runtime decodes UTF-8 with replacement as Unicode recommends. -/
def DecodesUtf8 (py : Py) : Prop :=
  ∀ data, py.decodeReplace data = String.ofList (Utf8.decodeReplace data)

/-- `_process_raw` routes the message to the dead letter queue. -/
def Routed (raw : Raw) : Prop := c.maxDeliver ≤ getNumDelivered raw

/-- **What the payload of a dead letter determines**: every routed message of the same subject
with other bytes has another payload, whenever the two are given up and read back, exactly if the
bytes are the UTF-8 encoding of a text without the replacement character. -/
theorem payload_determines_iff (hutf8 : DecodesUtf8 py) (raw : Raw) (hraw : Routed c raw) :
    (∀ (raw' : Raw) (failedAt failedAt' now : ℕ), Routed c raw' → raw'.subject = raw.subject →
      replayed py pyd c raw' failedAt' now = replayed py pyd c raw failedAt now →
        raw'.data = raw.data) ↔
      ∃ text : String, Utf8.replacement ∉ text.toList ∧ raw.data = encodeUtf8 text := by
  have hiff : (∃ text : String, Utf8.replacement ∉ text.toList ∧ raw.data = encodeUtf8 text) ↔
      ∃ text, Utf8.replacement ∉ text ∧ raw.data = Utf8.encode text := by
    simp only [encodeUtf8_eq]
    constructor
    · rintro ⟨text, h⟩
      exact ⟨text.toList, h⟩
    · rintro ⟨text, h⟩
      exact ⟨String.ofList text, by simpa using h⟩
  rw [hiff, ← Utf8.determined_iff]
  simp only [replayed_eq, Except.ok.injEq, hutf8 _, String.ofList_inj]
  constructor
  · intro h data hdata
    exact h { raw with data } 0 0 0 hraw rfl hdata
  · intro h raw' _ _ _ _ _ hdata
    exact h raw'.data hdata

/-- The sample runtime with the decoder of the standard library. -/
def decodingPy : Py :=
  { Py.sample with decodeReplace := fun data => String.ofList (Utf8.decodeReplace data) }

/-- The consumer of edge events. -/
def edgeConsumer : QueueConsumer EdgeUpsertEvent where
  subject := "outbox.edge.upsert"
  dlqSubject := "ingest.dlq.outbox_edge"
  decode := decodeEdge decodingPy .strict

/-- A message that holds the version field of an edge event alone. -/
def versionMessage (version : ℕ) : Raw := { lastDelivery with data := encodeInt 7 version }

theorem encodeInt_version {low : ℕ} (hlow : low < 128) :
    encodeInt 7 (128 + low : ℕ) = Utf8.encode ['8'] ++ [UInt8.ofNat (low + 128), 1] := by
  have htag : Base128.encode (7 <<< 3 ||| 0) = Utf8.encode ['8'] :=
    (Base128.encode_of_lt (by decide)).trans (by decide)
  have hmod : (128 + low) % 128 = low := by omega
  have hdiv : (128 + low) / 128 = 1 := by omega
  rw [encodeInt, encodeVarint_natCast, encodeVarint_natCast, htag, Base128.encode,
    if_neg (by omega), hmod, hdiv, Base128.encode_of_lt (by decide)]
  rfl

theorem payload_determines_iff_sample : Routed edgeConsumer lastDelivery ∧
    ∀ (raw' : Raw) (failedAt failedAt' now : ℕ), Routed edgeConsumer raw' →
      raw'.subject = "outbox.edge.upsert" →
      replayed decodingPy .strict edgeConsumer raw' failedAt' now =
        replayed decodingPy .strict edgeConsumer lastDelivery failedAt now →
      raw'.data = [] :=
  ⟨Nat.le_refl 5, (payload_determines_iff decodingPy .strict edgeConsumer (fun _ => rfl)
    lastDelivery (Nat.le_refl 5)).2 ⟨"", by simp, rfl⟩⟩

/-- The messages of two versions have one payload. -/
theorem payload_not_determined : ¬ ∀ (raw raw' : Raw) (failedAt failedAt' now : ℕ),
      Routed edgeConsumer raw → Routed edgeConsumer raw' → raw'.subject = raw.subject →
      replayed decodingPy .strict edgeConsumer raw' failedAt' now =
        replayed decodingPy .strict edgeConsumer raw failedAt now →
      raw'.data = raw.data := by
  intro h
  have hpayload (b : UInt8) (hb : ¬ b.IsUTF8FirstByte)
      (hfollows : ∀ b', Utf8.follows b b' = false) :
      Utf8.decodeReplace (Utf8.encode ['8'] ++ [b, 1]) =
        '8' :: Utf8.replacement :: Utf8.decodeReplace [1] := by
    rw [Utf8.decodeReplace_encode_append, Utf8.decodeReplace_bad hb hfollows]
    rfl
  have h₁ : (versionMessage 129).data = Utf8.encode ['8'] ++ [129, 1] :=
    encodeInt_version (show 1 < 128 by decide)
  have h₂ : (versionMessage 130).data = Utf8.encode ['8'] ++ [130, 1] :=
    encodeInt_version (show 2 < 128 by decide)
  have hdata := h (versionMessage 129) (versionMessage 130) 0 0 0 (Nat.le_refl 5) (Nat.le_refl 5)
    rfl (by
      simp only [replayed_eq, decodingPy, h₁, h₂]
      rw [hpayload 129 (by decide) fun _ => rfl, hpayload 130 (by decide) fun _ => rfl])
  rw [h₁, h₂] at hdata
  exact absurd hdata (by decide)

end Omniscience.Queue
