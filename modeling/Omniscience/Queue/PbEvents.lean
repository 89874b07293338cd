import Omniscience.Lib.Base128
import Omniscience.Lib.Dict
import Omniscience.Queue.Messages

/-!
# The wire format of the outbox events

The events are encoded by hand in the protobuf wire format: a field is a varint tag (field number
and wire type) followed by a varint or by a length and that many bytes.  Empty strings are left
out.  The encoders and decoders below follow the source function by function; each event type has
its own table of field numbers, once in its `serialize` function and once in its `deserialize`
function.

The field codec is shown correct here.  `Reads chunk g` says that the reading loop, standing at
the start of `chunk`, consumes exactly `chunk` and changes the collected fields by `g`, whatever
stands before and after.  Encoded fields are read (`reads_string`, `reads_int`), and what is read
composes (`Reads.append`), so the fields of a whole message follow from its encoder's shape
(`Reads.decodeMessage`).
-/

namespace Omniscience.Queue

open Dict
open List hiding getD

/-! ### Varints -/

/-- `encode_varint`.  `value & 0x7F` and `value >> 7` are the remainder and the quotient by 128
also for a negative `value`; such a value does not enter the loop. -/
def encodeVarint (value : ℤ) : Bytes :=
  if 0x80 ≤ value then UInt8.ofNat ((value % 128).toNat + 0x80) :: encodeVarint (value / 128)
  else [UInt8.ofNat (value % 128).toNat]
termination_by value.toNat
decreasing_by omega

/-- The loop of `decode_varint` over the bytes from the current position on. -/
def decodeVarintLoop : Bytes → ℕ → ℕ → ℕ → Except Exc (ℕ × ℕ)
  | [], _, _, _ => .error ⟨.indexError, "index out of range"⟩
  | b :: bs, val, shift, pos =>
    let val := val ||| (b.toNat % 128) <<< shift
    if b.toNat < 0x80 then .ok (val, pos + 1) else decodeVarintLoop bs val (shift + 7) (pos + 1)

/-- `decode_varint`: the number at position `pos` and the position after it. -/
def decodeVarint (data : Bytes) (pos : ℕ) : Except Exc (ℕ × ℕ) :=
  decodeVarintLoop (data.drop pos) 0 0 pos

theorem encodeVarint_natCast (n : ℕ) : encodeVarint n = Base128.encode n := by
  induction n using Nat.strongRecOn with
  | ind n ih =>
    rw [encodeVarint, Base128.encode]
    by_cases h : n < 128
    · have hlt : ¬ (0x80 : ℤ) ≤ n := by omega
      have hmod : ((n : ℤ) % 128).toNat = n := by omega
      rw [if_neg hlt, if_pos h, hmod]
    · have hle : (0x80 : ℤ) ≤ n := by omega
      have hmod : ((n : ℤ) % 128).toNat = n % 128 := by omega
      rw [if_pos hle, if_neg h, hmod, ← ih (n / 128) (by omega)]
      rfl

theorem encodeVarint_of_neg {v : ℤ} (h : v < 0) :
    encodeVarint v = Base128.encode (v % 128).toNat := by
  have hlt : ¬ (0x80 : ℤ) ≤ v := by omega
  have hsmall : (v % 128).toNat < 128 := by omega
  rw [encodeVarint, if_neg hlt, Base128.encode_of_lt hsmall]

theorem decodeVarintLoop_eq (bs : Bytes) (val shift pos : ℕ) : decodeVarintLoop bs val shift pos =
      match Base128.decode bs with
      | some (n, k) => .ok (val ||| n <<< shift, pos + k)
      | none => .error ⟨.indexError, "index out of range"⟩ := by
  induction bs generalizing val shift pos with
  | nil => rfl
  | cons b bs ih =>
    rw [decodeVarintLoop, Base128.decode]
    by_cases hb : b.toNat < 128
    · simp only [hb, ↓reduceIte, Nat.mod_eq_of_lt hb]
    · simp only [hb, ↓reduceIte, ih]
      cases hd : Base128.decode bs with
      | none => rfl
      | some r =>
        obtain ⟨m, k⟩ := r
        have hlow : b.toNat % 128 < 128 := Nat.mod_lt _ (by decide)
        simp only [Option.map_some, Except.ok.injEq, Prod.mk.injEq]
        refine ⟨?_, by omega⟩
        rw [Nat.or_assoc, ← Base128.or_shiftLeft_seven hlow, Nat.shiftLeft_or_distrib,
          ← Nat.shiftLeft_add, Nat.add_comm 7 shift]

theorem decodeVarint_eq (data : Bytes) (pos : ℕ) : decodeVarint data pos =
      match Base128.decode (data.drop pos) with
      | some (n, k) => .ok (n, pos + k)
      | none => .error ⟨.indexError, "index out of range"⟩ := by
  rw [decodeVarint, decodeVarintLoop_eq]
  cases Base128.decode (data.drop pos) <;> simp

theorem decodeVarint_pos {data : Bytes} {pos n pos' : ℕ}
    (h : decodeVarint data pos = .ok (n, pos')) : pos < pos' := by
  rw [decodeVarint_eq] at h
  cases hd : Base128.decode (data.drop pos) with
  | none => rw [hd] at h; exact absurd h (by simp)
  | some r =>
    obtain ⟨m, k⟩ := r
    rw [hd] at h
    simp only [Except.ok.injEq, Prod.mk.injEq] at h
    have := (Base128.decode_pos hd).1
    omega

theorem decodeVarint_encode (pre post : Bytes) (n : ℕ) :
    decodeVarint (pre ++ (Base128.encode n ++ post)) pre.length =
      .ok (n, pre.length + (Base128.encode n).length) := by
  rw [decodeVarint_eq, drop_left, Base128.decode_encode]

/-! ### Fields -/

/-- `encode_string`: `None` and the empty string are left out. -/
def encodeString (fieldNum : ℕ) (val : Option String) : Bytes :=
  match val with
  | none => []
  | some text =>
    if text = "" then []
    else
      let payload := encodeUtf8 text
      encodeVarint (fieldNum <<< 3 ||| 2 : ℕ) ++ (encodeVarint payload.length ++ payload)

/-- `encode_int`. -/
def encodeInt (fieldNum : ℕ) (val : ℤ) : Bytes :=
  encodeVarint (fieldNum <<< 3 ||| 0 : ℕ) ++ encodeVarint val

/-- A value read from the wire: bytes (wire type 2) or a number (wire type 0). -/
inductive WireVal where
  | bytes (b : Bytes)
  | int (n : ℕ)

/-- The fields of a message: every value read for a field number, in order. -/
abbrev Fields := Dict ℕ (List WireVal)

/-- `fields.setdefault(n, []).append(v)`. -/
def Fields.append (fields : Fields) (n : ℕ) (v : WireVal) : Fields :=
  fields.set n (fields.getD n [] ++ [v])

/-- The loop of `decode_message`. -/
def decodeMessageLoop (data : Bytes) (pos : ℕ) (fields : Fields) : Except Exc Fields :=
  if _hpos : pos < data.length then
    match _htag : decodeVarint data pos with
    | .error e => .error e
    | .ok (tag, pos₁) =>
      if tag &&& 0x07 = 2 then
        match _hlen : decodeVarint data pos₁ with
        | .error e => .error e
        | .ok (valLen, pos₂) =>
          -- a slice past the end is shortened, not an error
          decodeMessageLoop data (pos₂ + valLen)
            (fields.append (tag >>> 3) (.bytes ((data.drop pos₂).take valLen)))
      else if tag &&& 0x07 = 0 then
        match _hint : decodeVarint data pos₁ with
        | .error e => .error e
        | .ok (intVal, pos₂) =>
          decodeMessageLoop data pos₂ (fields.append (tag >>> 3) (.int intVal))
      else .error ⟨.notImplementedError, "Unsupported wire type " ++ toString (tag &&& 0x07)⟩
  else .ok fields
termination_by data.length - pos
decreasing_by
  all_goals
    have h₁ := decodeVarint_pos ‹decodeVarint data pos = _›
    have h₂ := decodeVarint_pos ‹decodeVarint data pos₁ = _›
    omega

section

variable {data : Bytes} {pos tag pos₁ n pos₂ : ℕ} (fields : Fields)

theorem decodeMessageLoop_of_bytes (hpos : pos < data.length)
    (htag : decodeVarint data pos = .ok (tag, pos₁)) (hw : tag &&& 0x07 = 2)
    (hlen : decodeVarint data pos₁ = .ok (n, pos₂)) :
    decodeMessageLoop data pos fields =
      decodeMessageLoop data (pos₂ + n)
        (fields.append (tag >>> 3) (.bytes ((data.drop pos₂).take n))) := by
  rw [decodeMessageLoop, dif_pos hpos]
  split
  · rename_i h; rw [htag] at h; cases h
  · rename_i h; rw [htag] at h; cases h
    rw [if_pos hw]
    split
    · rename_i h; rw [hlen] at h; cases h
    · rename_i h; rw [hlen] at h; cases h
      rfl

theorem decodeMessageLoop_of_int (hpos : pos < data.length)
    (htag : decodeVarint data pos = .ok (tag, pos₁)) (hw : tag &&& 0x07 = 0)
    (hint : decodeVarint data pos₁ = .ok (n, pos₂)) :
    decodeMessageLoop data pos fields =
      decodeMessageLoop data pos₂ (fields.append (tag >>> 3) (.int n)) := by
  have hw' : tag &&& 0x07 ≠ 2 := by omega
  rw [decodeMessageLoop, dif_pos hpos]
  split
  · rename_i h; rw [htag] at h; cases h
  · rename_i h; rw [htag] at h; cases h
    rw [if_neg hw', if_pos hw]
    split
    · rename_i h; rw [hint] at h; cases h
    · rename_i h; rw [hint] at h; cases h
      rfl

theorem decodeMessageLoop_end : decodeMessageLoop data data.length fields = .ok fields := by
  rw [decodeMessageLoop, dif_neg (lt_irrefl _)]

end

/-- `decode_message`. -/
def decodeMessage (data : Bytes) : Except Exc Fields := decodeMessageLoop data 0 .empty

/-- `get_str_field`. -/
def getStrField (fields : Fields) (n : ℕ) (default : String := "") : Except Exc String :=
  match fields.get? n with
  | none | some [] => .ok default
  | some (.bytes b :: _) => decodeUtf8 b
  | some (.int _ :: _) => .error ⟨.attributeError, "'int' object has no attribute 'decode'"⟩

/-- A number or bytes from the wire, as a value for a model. -/
def WireVal.toAny : WireVal → Any
  | .bytes b => .bytes b
  | .int n => .json (.int n)

/-- `fields[n][0] if n in fields else None`. -/
def optField (fields : Fields) (n : ℕ) : Any :=
  match fields.get? n with
  | none | some [] => .json .null
  | some (v :: _) => v.toAny

theorem tag_eq {n w : ℕ} (hw : w < 8) : n <<< 3 ||| w = 8 * n + w := by
  rw [Nat.shiftLeft_eq, mul_comm n, ← Nat.two_pow_add_eq_or_of_lt (i := 3) hw]

theorem tag_shiftRight {n w : ℕ} (hw : w < 8) : (n <<< 3 ||| w) >>> 3 = n := by
  rw [tag_eq hw, Nat.shiftRight_eq_div_pow]
  omega

theorem tag_and {n w : ℕ} (hw : w < 8) : (n <<< 3 ||| w) &&& 0x07 = w := by
  rw [tag_eq hw, show (0x07 : ℕ) = 2 ^ 3 - 1 from rfl, Nat.and_two_pow_sub_one_eq_mod]
  omega

/-- The loop of `decode_message` consumes `chunk` and changes the collected fields by `g`. -/
def Reads (chunk : Bytes) (g : Fields → Fields) : Prop :=
  ∀ pre post fields,
    decodeMessageLoop (pre ++ (chunk ++ post)) pre.length fields =
      decodeMessageLoop (pre ++ chunk ++ post) (pre ++ chunk).length (g fields)

theorem Reads.append {a b : Bytes} {f g : Fields → Fields} (ha : Reads a f) (hb : Reads b g) :
    Reads (a ++ b) (g ∘ f) := by
  intro pre post fields
  have h₁ := ha pre (b ++ post) fields
  have h₂ := hb (pre ++ a) post (f fields)
  simp only [append_assoc] at h₁ h₂ ⊢
  rw [h₁, h₂]
  rfl

theorem Reads.nil : Reads [] id := by
  intro pre post fields
  simp

theorem Reads.decodeMessage {chunk : Bytes} {g : Fields → Fields} (h : Reads chunk g) :
    Queue.decodeMessage chunk = .ok (g .empty) := by
  have := h [] [] .empty
  simp only [nil_append, append_nil, length_nil] at this
  rw [Queue.decodeMessage, this, decodeMessageLoop_end]

/-- What `decode_message` has collected after one more string field. -/
def Fields.addString (fields : Fields) (n : ℕ) (val : Option String) : Fields :=
  match val with
  | none => fields
  | some text => if text = "" then fields else fields.append n (.bytes (encodeUtf8 text))

theorem encodeString_of_ne {n : ℕ} {text : String} (h : text ≠ "") : encodeString n (some text) =
      Base128.encode (n <<< 3 ||| 2) ++
        (Base128.encode (encodeUtf8 text).length ++ encodeUtf8 text) := by
  simp only [encodeString, h, ↓reduceIte, encodeVarint_natCast]

/-- **An encoded string field is read back.** -/
theorem reads_string (n : ℕ) (val : Option String) :
    Reads (encodeString n val) (·.addString n val) := by
  intro pre post fields
  rw [append_assoc]
  cases val with
  | none => simp [encodeString, Fields.addString]
  | some text =>
    -- an empty text is not written at all
    by_cases htext : text = ""
    · simp [encodeString, Fields.addString, htext]
    · set tag := Base128.encode (n <<< 3 ||| 2) with htag
      set len := Base128.encode (encodeUtf8 text).length with hlen
      set body := encodeUtf8 text with hbody
      rw [encodeString_of_ne htext, ← htag, ← hbody, ← hlen]
      have hpos : pre.length < (pre ++ (tag ++ (len ++ body) ++ post)).length := by
        have := length_pos_of_ne_nil (Base128.encode_ne_nil (n <<< 3 ||| 2))
        simp only [length_append, htag]
        omega
      -- the tag is read first, then the length, then as many bytes
      have hdtag : decodeVarint (pre ++ (tag ++ (len ++ body) ++ post)) pre.length =
          .ok (n <<< 3 ||| 2, pre.length + tag.length) := by
        rw [append_assoc]
        exact decodeVarint_encode _ _ _
      have hdlen : decodeVarint (pre ++ (tag ++ (len ++ body) ++ post)) (pre.length + tag.length) =
            .ok (body.length, pre.length + tag.length + len.length) := by
        have := decodeVarint_encode (pre ++ tag) (body ++ post) body.length
        simpa only [append_assoc, length_append] using this
      have hbytes : ((pre ++ (tag ++ (len ++ body) ++ post)).drop
          (pre.length + tag.length + len.length)).take body.length = body := by
        have hsplit : pre ++ (tag ++ (len ++ body) ++ post) =
            (pre ++ tag ++ len) ++ (body ++ post) := by
          simp only [append_assoc]
        have hl : pre.length + tag.length + len.length = (pre ++ tag ++ len).length := by
          simp only [length_append]
        rw [hsplit, hl, drop_left, take_left]
      rw [decodeMessageLoop_of_bytes fields hpos hdtag (tag_and (by decide)) hdlen, hbytes,
        tag_shiftRight (by decide)]
      simp only [Fields.addString, htext, ↓reduceIte, ← hbody]
      congr 1
      simp only [length_append]
      omega

/-- The number that is read back for an encoded integer: its value, or the low seven bits of a
negative one. -/
def wireInt (val : ℤ) : ℕ := if 0 ≤ val then val.toNat else (val % 128).toNat

theorem encodeVarint_eq (val : ℤ) : encodeVarint val = Base128.encode (wireInt val) := by
  unfold wireInt
  split
  · rename_i h
    conv_lhs => rw [← Int.toNat_of_nonneg h]
    exact encodeVarint_natCast _
  · rename_i h
    exact encodeVarint_of_neg (by omega)

theorem wireInt_eq_iff {val : ℤ} : (wireInt val : ℤ) = val ↔ 0 ≤ val := by
  unfold wireInt
  split <;> omega

theorem le_wireInt (val : ℤ) : val ≤ wireInt val := by
  unfold wireInt
  split <;> omega

/-- **An encoded integer field is read back**, a negative one as its low seven bits. -/
theorem reads_int (n : ℕ) (val : ℤ) :
    Reads (encodeInt n val) (·.append n (.int (wireInt val))) := by
  intro pre post fields
  rw [append_assoc, encodeInt, encodeVarint_natCast, encodeVarint_eq]
  set tag := Base128.encode (n <<< 3 ||| 0) with htag
  set body := Base128.encode (wireInt val) with hbody
  have hpos : pre.length < (pre ++ (tag ++ body ++ post)).length := by
    have := length_pos_of_ne_nil (Base128.encode_ne_nil (n <<< 3 ||| 0))
    simp only [length_append, htag]
    omega
  have hdtag : decodeVarint (pre ++ (tag ++ body ++ post)) pre.length =
      .ok (n <<< 3 ||| 0, pre.length + tag.length) := by
    rw [append_assoc]
    exact decodeVarint_encode _ _ _
  have hdbody : decodeVarint (pre ++ (tag ++ body ++ post)) (pre.length + tag.length) =
      .ok (wireInt val, pre.length + tag.length + body.length) := by
    have := decodeVarint_encode (pre ++ tag) post (wireInt val)
    simpa only [append_assoc, length_append] using this
  rw [decodeMessageLoop_of_int fields hpos hdtag (tag_and (by decide)) hdbody,
    tag_shiftRight (by decide)]
  congr 1
  simp only [length_append]
  omega

/-! ### Events -/

variable (py : Py)

/-- The `version` field of an entity or edge event. -/
def encodeVersion (n : ℕ) : Option ℤ → Bytes
  | some v => encodeInt n v
  | none => []

/-- `json.loads(meta_str)` with `{}` for a text that is not JSON. -/
def loadsOrEmpty (text : String) : Json :=
  match py.loads text with
  | some v => v
  | none => .obj []

/-- `text if text else None`, for an optional text. -/
def nonEmpty (text : Option String) : Option String := text.filter (· ≠ "")

/-- `ws_str if ws_str else None`. -/
def textOrNull (text : String) : Json := if text = "" then .null else .str text

/-- `serialize_entity_upsert_event`. -/
def serializeEntityUpsertEvent (e : EntityUpsertEvent) : Bytes :=
  encodeString 1 (nonEmpty e.workspaceId)
    ++ encodeString 2 (some e.id)
    ++ encodeString 3 (some e.sourceId)
    ++ encodeString 4 (some e.entityType)
    ++ encodeString 5 (some e.name)
    ++ encodeString 6 (some e.displayName)
    ++ encodeString 7 (some (py.dumps (.obj e.metadata)))
    ++ encodeVersion 8 e.version

/-- `deserialize_entity_upsert_event`. -/
def deserializeEntityUpsertEvent (data : Bytes) : Except Exc Payload := do
  let fields ← decodeMessage data
  let metaStr ← getStrField fields 7 "{}"
  let metadata := loadsOrEmpty py metaStr
  let wsStr ← getStrField fields 1
  return [("workspace_id", .json (textOrNull wsStr)),
    ("id", .json (.str (← getStrField fields 2))),
    ("source_id", .json (.str (← getStrField fields 3))),
    ("entity_type", .json (.str (← getStrField fields 4))),
    ("name", .json (.str (← getStrField fields 5))),
    ("display_name", .json (.str (← getStrField fields 6))),
    ("metadata", .json metadata),
    ("version", optField fields 8)]

/-- `serialize_edge_upsert_event`. -/
def serializeEdgeUpsertEvent (e : EdgeUpsertEvent) : Bytes :=
  encodeString 1 (nonEmpty e.workspaceId)
    ++ encodeString 2 (some e.id)
    ++ encodeString 3 (some e.sourceEntityId)
    ++ encodeString 4 (some e.targetEntityId)
    ++ encodeString 5 (some e.edgeType)
    ++ encodeString 6 (some (py.dumps (.obj e.metadata)))
    ++ encodeVersion 7 e.version

/-- `deserialize_edge_upsert_event`. -/
def deserializeEdgeUpsertEvent (data : Bytes) : Except Exc Payload := do
  let fields ← decodeMessage data
  let metaStr ← getStrField fields 6 "{}"
  let metadata := loadsOrEmpty py metaStr
  let wsStr ← getStrField fields 1
  return [("workspace_id", .json (textOrNull wsStr)),
    ("id", .json (.str (← getStrField fields 2))),
    ("source_entity_id", .json (.str (← getStrField fields 3))),
    ("target_entity_id", .json (.str (← getStrField fields 4))),
    ("edge_type", .json (.str (← getStrField fields 5))),
    ("metadata", .json metadata),
    ("version", optField fields 7)]

/-- `serialize_dlq_message`. -/
def serializeDlqMessage (m : DLQMessage) : Bytes :=
  encodeString 1 (some m.originalSubject)
    ++ encodeString 2 (some m.originalPayload)
    ++ encodeString 3 (some m.error)
    ++ encodeInt 4 m.attemptCount
    ++ encodeString 5 (some (py.isoformat m.failedAt))

/-! ### The fields of a serialised event -/

/-- What `decode_message` has collected after the `version` field. -/
def Fields.addVersion (fields : Fields) (n : ℕ) : Option ℤ → Fields
  | some v => fields.append n (.int (wireInt v))
  | none => fields

theorem reads_version (n : ℕ) (v : Option ℤ) : Reads (encodeVersion n v) (·.addVersion n v) := by
  cases v with
  | none => exact Reads.nil
  | some v => exact reads_int n v

theorem get?_addString_ne (fields : Fields) {n m : ℕ} (h : m ≠ n) (val : Option String) :
    (fields.addString n val).get? m = fields.get? m := by
  cases val with
  | none => rfl
  | some text =>
    rw [Fields.addString]
    split
    · rfl
    · exact get?_set_ne _ _ h

theorem get?_addVersion_ne (fields : Fields) {n m : ℕ} (h : m ≠ n) (v : Option ℤ) :
    (fields.addVersion n v).get? m = fields.get? m := by
  cases v with
  | none => rfl
  | some v => exact get?_set_ne _ _ h

variable {fields : Fields}

theorem get?_addString_self {n : ℕ} (h : fields.get? n = none) (text : String) :
    (fields.addString n (some text)).get? n =
      if text = "" then none else some [.bytes (encodeUtf8 text)] := by
  rw [Fields.addString]
  split
  · exact h
  · rw [Fields.append, get?_set_self, getD, h]
    rfl

theorem get?_addVersion_self {n : ℕ} (h : fields.get? n = none) (v : Option ℤ) :
    (fields.addVersion n v).get? n = v.map fun v => [.int (wireInt v)] := by
  cases v with
  | none => exact h
  | some v =>
    rw [Fields.addVersion, Fields.append, get?_set_self, getD, h]
    rfl

theorem get?_addString_nonEmpty {n : ℕ} (h : fields.get? n = none) (text : Option String) :
    (fields.addString n (nonEmpty text)).get? n =
      if text.getD "" = "" then none else some [.bytes (encodeUtf8 (text.getD ""))] := by
  cases text with
  | none => simpa [nonEmpty, Fields.addString] using h
  | some text =>
    by_cases ht : text = ""
    · simpa [nonEmpty, Fields.addString, Option.filter, ht] using h
    · have hne : nonEmpty (some text) = some text := by simp [nonEmpty, Option.filter, ht]
      rw [hne, get?_addString_self h]
      rfl

theorem getStrField_eq {n : ℕ} {text : String}
    (h : fields.get? n = if text = "" then none else some [.bytes (encodeUtf8 text)]) :
    getStrField fields n = .ok text := by
  rw [getStrField, h]
  by_cases ht : text = ""
  · simp [ht]
  · simp [ht]

theorem getStrField_of_ne {n : ℕ} {text default : String} (ht : text ≠ "")
    (h : fields.get? n = if text = "" then none else some [.bytes (encodeUtf8 text)]) :
    getStrField fields n default = .ok text := by
  rw [getStrField, h]
  simp [ht]

end Omniscience.Queue
