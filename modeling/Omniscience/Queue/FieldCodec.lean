import Omniscience.Queue.PbEvents

/-!
# Whole messages of the field codec

A message is the concatenation of encoded fields, here a list of `WireField`.

* `codec_round_trip` : a varint is read back between any two byte strings, and a message of
  non-empty texts and non-negative numbers is read back as the values of each field number, in
  the order in which they were written.
* `decodeMessage_cut` : what `decode_message` makes of a message that is cut inside a field.  A
  varint that is not complete is an error; a payload that is not complete is taken as far as it
  goes.
-/

namespace Omniscience.Queue

open Dict
open List hiding getD

/-- A field as `encode_string` or `encode_int` is asked to write it. -/
inductive WireField where
  | string (num : ℕ) (text : String)
  | int (num : ℕ) (val : ℤ)

namespace WireField

/-- The field number. -/
def num : WireField → ℕ
  | .string n _ => n
  | .int n _ => n

/-- The bytes of the field. -/
def encode : WireField → Bytes
  | .string n text => encodeString n (some text)
  | .int n val => encodeInt n val

/-- The payload or the number that was written. -/
def value : WireField → WireVal
  | .string _ text => .bytes (encodeUtf8 text)
  | .int _ val => .int val.toNat

/-- The field number is one of protobuf's, a text is not empty, a number is not negative. -/
def Plain : WireField → Prop
  | .string n text => 1 ≤ n ∧ text ≠ ""
  | .int n val => 1 ≤ n ∧ 0 ≤ val

/-- What `decode_message` has collected after one more field. -/
def collect (fields : Fields) : WireField → Fields
  | .string n text => fields.addString n (some text)
  | .int n val => fields.append n (.int (wireInt val))

theorem reads (f : WireField) : Reads f.encode (f.collect ·) := by
  cases f with
  | string n text => exact reads_string n (some text)
  | int n val => exact reads_int n val

theorem collect_of_plain {f : WireField} (hf : f.Plain) (fields : Fields) :
    f.collect fields = fields.append f.num f.value := by
  cases f with
  | string n text => simp [collect, Fields.addString, hf.2, num, value]
  | int n val => simp [collect, wireInt, hf.2, num, value]

end WireField

/-- The bytes of several fields. -/
def encodeFields (fs : List WireField) : Bytes := fs.flatMap WireField.encode

@[simp] theorem encodeFields_nil : encodeFields [] = [] := rfl

@[simp] theorem encodeFields_cons (f : WireField) (fs : List WireField) :
    encodeFields (f :: fs) = f.encode ++ encodeFields fs :=
  rfl

@[simp] theorem encodeFields_append (fs gs : List WireField) :
    encodeFields (fs ++ gs) = encodeFields fs ++ encodeFields gs :=
  flatMap_append

/-- What is collected from several fields. -/
def collectFields (fields : Fields) (fs : List WireField) : Fields :=
  fs.foldl (fun acc f => f.collect acc) fields

theorem reads_fields (fs : List WireField) : Reads (encodeFields fs) (collectFields · fs) := by
  induction fs with
  | nil => exact Reads.nil
  | cons f fs ih => exact f.reads.append ih

theorem decodeMessage_encodeFields (fs : List WireField) :
    decodeMessage (encodeFields fs) = .ok (collectFields .empty fs) :=
  (reads_fields fs).decodeMessage

/-! ### The round trip -/

/-- The values written under a field number, in order. -/
def valuesOf (n : ℕ) (fs : List WireField) : List WireVal :=
  (fs.filter (·.num = n)).map WireField.value

theorem valuesOf_cons_self (f : WireField) (fs : List WireField) :
    valuesOf f.num (f :: fs) = f.value :: valuesOf f.num fs := by
  simp [valuesOf]

theorem valuesOf_cons_ne {f : WireField} {n : ℕ} (h : n ≠ f.num) (fs : List WireField) :
    valuesOf n (f :: fs) = valuesOf n fs := by
  simp [valuesOf, h.symm]

variable {fs : List WireField}

theorem getD_collectFields (hfs : ∀ f ∈ fs, f.Plain) (fields : Fields) (n : ℕ) :
    (collectFields fields fs).getD n [] = fields.getD n [] ++ valuesOf n fs := by
  induction fs generalizing fields with
  | nil => simp [collectFields, valuesOf]
  | cons f fs ih =>
    have hstep : collectFields fields (f :: fs) =
        collectFields (fields.append f.num f.value) fs := by
      rw [← WireField.collect_of_plain (hfs f mem_cons_self)]
      rfl
    rw [hstep, ih fun g hg => hfs g (mem_cons_of_mem _ hg), Fields.append]
    by_cases hn : n = f.num
    · rw [hn, valuesOf_cons_self, getD, get?_set_self]
      simp
    · rw [valuesOf_cons_ne hn, getD, get?_set_ne _ _ hn, ← getD]

theorem get?_collectFields_ne_nil {fields : Fields} {n : ℕ} (h : fields.get? n ≠ some []) :
    (collectFields fields fs).get? n ≠ some [] := by
  have happend (fields : Fields) (m : ℕ) (v : WireVal) (h : fields.get? n ≠ some []) :
      (fields.append m v).get? n ≠ some [] := by
    by_cases hn : n = m
    · rw [hn, Fields.append, get?_set_self]
      simp
    · rwa [Fields.append, get?_set_ne _ _ hn]
  induction fs generalizing fields with
  | nil => exact h
  | cons f fs ih =>
    refine ih ?_
    cases f with
    | string m text =>
      change (fields.addString m (some text)).get? n ≠ some []
      rw [Fields.addString]
      split
      · exact h
      · exact happend _ _ _ h
    | int m val => exact happend _ _ _ h

theorem get?_collectFields (hfs : ∀ f ∈ fs, f.Plain) (n : ℕ) : (collectFields .empty fs).get? n =
      if valuesOf n fs = [] then none else some (valuesOf n fs) := by
  have hvalues := getD_collectFields hfs .empty n
  have hne : (collectFields .empty fs).get? n ≠ some [] := get?_collectFields_ne_nil (by simp)
  rw [getD] at hvalues
  cases hget : (collectFields .empty fs).get? n with
  | none =>
    rw [hget] at hvalues
    have hnil : valuesOf n fs = [] := by simpa [getD] using hvalues.symm
    rw [if_pos hnil]
  | some vs =>
    rw [hget] at hvalues hne
    have hvs : vs = valuesOf n fs := by simpa [getD] using hvalues
    rw [hvs] at hne
    rw [if_neg fun h => hne (congrArg some h), hvs]

/-- **The codec round trip.** -/
theorem codec_round_trip :
    (∀ (n : ℕ) (before after : Bytes),
      decodeVarint (before ++ (encodeVarint n ++ after)) before.length =
        .ok (n, before.length + (encodeVarint n).length)) ∧
    ∀ fs : List WireField, (∀ f ∈ fs, f.Plain) →
      ∃ fields, decodeMessage (encodeFields fs) = .ok fields ∧
        ∀ n, fields.get? n = if valuesOf n fs = [] then none else some (valuesOf n fs) := by
  refine ⟨fun n before after => ?_, fun fs hfs => ?_⟩
  · rw [encodeVarint_natCast]
    exact decodeVarint_encode before after n
  · exact ⟨_, decodeMessage_encodeFields fs, get?_collectFields hfs⟩

theorem codec_round_trip_sample :
    ∃ fields, decodeMessage (encodeFields [.string 1 "a", .int 300 128, .string 1 "b"]) =
        .ok fields ∧
      ∀ n, fields.get? n =
        if valuesOf n [.string 1 "a", .int 300 128, .string 1 "b"] = [] then none
        else some (valuesOf n [.string 1 "a", .int 300 128, .string 1 "b"]) :=
  codec_round_trip.2 _ (by simp [WireField.Plain])

/-! ### Messages that are cut short -/

section

variable {data : Bytes} {pos tag pos₁ : ℕ} {e : Exc} (fields : Fields)

theorem decodeMessageLoop_tag_error (hpos : pos < data.length)
    (htag : decodeVarint data pos = .error e) : decodeMessageLoop data pos fields = .error e := by
  rw [decodeMessageLoop, dif_pos hpos]
  split
  · rename_i h; rw [htag] at h; cases h; rfl
  · rename_i h; rw [htag] at h; cases h

theorem decodeMessageLoop_varint_error (hpos : pos < data.length)
    (htag : decodeVarint data pos = .ok (tag, pos₁)) (hw : tag &&& 0x07 = 2 ∨ tag &&& 0x07 = 0)
    (hvarint : decodeVarint data pos₁ = .error e) :
    decodeMessageLoop data pos fields = .error e := by
  rw [decodeMessageLoop, dif_pos hpos]
  split
  · rename_i h; rw [htag] at h; cases h
  · rename_i h; rw [htag] at h; cases h
    split
    · split
      · rename_i h; rw [hvarint] at h; cases h; rfl
      · rename_i h; rw [hvarint] at h; cases h
    · rename_i hw₂
      rw [if_pos (hw.resolve_left hw₂)]
      split
      · rename_i h; rw [hvarint] at h; cases h; rfl
      · rename_i h; rw [hvarint] at h; cases h

end

theorem decodeVarint_cut (before : Bytes) {n k : ℕ} (hk : k < (Base128.encode n).length) :
    decodeVarint (before ++ (Base128.encode n).take k) before.length =
      .error ⟨.indexError, "index out of range"⟩ := by
  rw [decodeVarint_eq, drop_left, Base128.decode_take_encode hk]

namespace WireField

/-- What stands before the payload: the tag and the length, or the tag and the number. -/
def header : WireField → Bytes
  | .string n text =>
    if text = "" then []
    else encodeVarint (n <<< 3 ||| 2 : ℕ) ++ encodeVarint (encodeUtf8 text).length
  | .int n val => encodeInt n val

/-- The bytes that the length counts. -/
def payload : WireField → Bytes
  | .string _ text => encodeUtf8 text
  | .int _ _ => []

theorem encode_eq (f : WireField) : f.encode = f.header ++ f.payload := by
  cases f with
  | string n text =>
    by_cases ht : text = ""
    · subst ht
      simp [encode, header, payload, encodeString, encodeUtf8]
    · simp [encode, header, payload, encodeString, ht]
  | int n val => simp [encode, header, payload]

theorem header_eq {f : WireField} (hf : f.encode ≠ []) : ∃ w n, (w = 2 ∨ w = 0) ∧
      f.header = Base128.encode (f.num <<< 3 ||| w) ++ Base128.encode n := by
  cases f with
  | string m text =>
    have ht : text ≠ "" := by
      rintro rfl
      exact hf rfl
    refine ⟨2, (encodeUtf8 text).length, Or.inl rfl, ?_⟩
    simp only [header, ht, ↓reduceIte, encodeVarint_natCast, num]
  | int m val =>
    refine ⟨0, wireInt val, Or.inr rfl, ?_⟩
    rw [header, encodeInt, encodeVarint_natCast, encodeVarint_eq, num]

/-- **A field whose header is cut** is an error. -/
theorem header_cut {f : WireField} {j : ℕ} (hj : 0 < j) (hcut : j < f.header.length)
    (before : Bytes) (fields : Fields) :
    decodeMessageLoop (before ++ f.encode.take j) before.length fields =
      .error ⟨.indexError, "index out of range"⟩ := by
  have hf : f.encode ≠ [] := by
    intro h
    rw [encode_eq, append_eq_nil_iff] at h
    rw [h.1] at hcut
    exact absurd hcut (Nat.not_lt_zero _)
  obtain ⟨w, n, hw, hheader⟩ := header_eq hf
  have hw8 : w < 8 := by omega
  set tag := Base128.encode (f.num <<< 3 ||| w) with htag
  rw [encode_eq, take_append_of_le_length (Nat.le_of_lt hcut), hheader]
  rw [hheader, length_append] at hcut
  have hpos : before.length < (before ++ (tag ++ Base128.encode n).take j).length := by
    simp only [length_append, length_take]
    omega
  by_cases hj' : j < tag.length
  · rw [take_append_of_le_length (Nat.le_of_lt hj')] at hpos ⊢
    exact decodeMessageLoop_tag_error fields hpos (decodeVarint_cut before hj')
  · have hsplit : (tag ++ Base128.encode n).take j =
        tag ++ (Base128.encode n).take (j - tag.length) := by
      rw [take_append, take_of_length_le (by omega)]
    rw [hsplit] at hpos ⊢
    have hdtag := decodeVarint_encode before ((Base128.encode n).take (j - tag.length))
      (f.num <<< 3 ||| w)
    have hdn := decodeVarint_cut (before ++ tag) (n := n) (k := j - tag.length) (by omega)
    rw [append_assoc, length_append] at hdn
    exact decodeMessageLoop_varint_error fields hpos hdtag (by rwa [tag_and hw8]) hdn

/-- **A field whose payload is cut** is taken with the payload that is there. -/
theorem payload_cut {f : WireField} {j : ℕ} (hheader : f.header.length ≤ j)
    (hcut : j < f.encode.length) (before : Bytes) (fields : Fields) :
    decodeMessageLoop (before ++ f.encode.take j) before.length fields =
      .ok (fields.append f.num (.bytes (f.payload.take (j - f.header.length)))) := by
  cases f with
  | int n val => exact absurd (Nat.lt_of_le_of_lt hheader hcut) (lt_irrefl _)
  | string n text =>
    have ht : text ≠ "" := by
      rintro rfl
      exact absurd hcut (Nat.not_lt_zero _)
    set tag := Base128.encode (n <<< 3 ||| 2) with htag
    set len := Base128.encode (encodeUtf8 text).length with hlen
    have hhead : (string n text).header = tag ++ len := by
      simp only [header, ht, ↓reduceIte, encodeVarint_natCast, htag, hlen]
    rw [encode_eq, take_append, take_of_length_le hheader, payload]
    rw [hhead] at hheader ⊢
    set k := j - (tag ++ len).length with hk
    have hkle : k ≤ (encodeUtf8 text).length := by
      rw [encode_eq, hhead, length_append, payload] at hcut
      omega
    set body := (encodeUtf8 text).take k with hbody
    have hpos : before.length < (before ++ (tag ++ len ++ body)).length := by
      have := length_pos_of_ne_nil (Base128.encode_ne_nil (n <<< 3 ||| 2))
      simp only [length_append, htag]
      omega
    have hdtag : decodeVarint (before ++ (tag ++ len ++ body)) before.length =
        .ok (n <<< 3 ||| 2, before.length + tag.length) := by
      rw [append_assoc tag]
      exact decodeVarint_encode _ _ _
    have hdlen : decodeVarint (before ++ (tag ++ len ++ body)) (before.length + tag.length) =
        .ok ((encodeUtf8 text).length, before.length + tag.length + len.length) := by
      have := decodeVarint_encode (before ++ tag) body (encodeUtf8 text).length
      simpa only [append_assoc, length_append] using this
    have hdrop : (before ++ (tag ++ len ++ body)).drop
        (before.length + tag.length + len.length) = body := by
      have hl : before.length + tag.length + len.length = (before ++ (tag ++ len)).length := by
        simp only [length_append, Nat.add_assoc]
      rw [← append_assoc before, hl, drop_left]
    have hshort : body.take (encodeUtf8 text).length = body := by
      rw [hbody, take_take, Nat.min_eq_right hkle]
    -- the position is past the end now, and the loop ends
    rw [decodeMessageLoop_of_bytes fields hpos hdtag (tag_and (by decide)) hdlen, hdrop, hshort,
      tag_shiftRight (by decide), decodeMessageLoop, dif_neg]
    · rfl
    · have hbodylen : body.length ≤ (encodeUtf8 text).length := by simp [hbody]
      simp only [length_append]
      omega

end WireField

/-- **A message that ends inside the field `f`.** -/
theorem decodeMessage_cut (fs : List WireField) (f : WireField) {j : ℕ} (hj : 0 < j)
    (hcut : j < f.encode.length) :
    decodeMessage (encodeFields fs ++ f.encode.take j) =
      if j < f.header.length then .error ⟨.indexError, "index out of range"⟩
      else .ok ((collectFields .empty fs).append f.num
        (.bytes (f.payload.take (j - f.header.length)))) := by
  have hread := reads_fields fs [] (f.encode.take j) .empty
  simp only [nil_append, length_nil] at hread
  rw [decodeMessage, hread]
  split
  · rename_i h
    exact WireField.header_cut hj h _ _
  · rename_i h
    exact WireField.payload_cut (Nat.le_of_not_lt h) hcut _ _

/-- The byte position `k` is between two fields of a message. -/
def AtBoundary (fs : List WireField) (k : ℕ) : Prop :=
  ∃ before after, fs = before ++ after ∧ k = (encodeFields before).length

/-- The byte position `k` is behind the length of a text and before the end of the text. -/
def InPayload (fs : List WireField) (k : ℕ) : Prop :=
  ∃ before f after, fs = before ++ f :: after ∧
    (encodeFields before).length + f.header.length ≤ k ∧
    k < (encodeFields before).length + f.encode.length

theorem exists_field {k : ℕ} (hk : k < (encodeFields fs).length) (hb : ¬ AtBoundary fs k) :
    ∃ before f after j, fs = before ++ f :: after ∧ k = (encodeFields before).length + j ∧
      0 < j ∧ j < f.encode.length := by
  induction fs generalizing k with
  | nil => simp at hk
  | cons f fs ih =>
    have hk₀ : k ≠ 0 := fun h => hb ⟨[], f :: fs, rfl, by simp [h]⟩
    rw [encodeFields_cons, length_append] at hk
    by_cases hf : k < f.encode.length
    · exact ⟨[], f, fs, k, rfl, by simp, by omega, hf⟩
    · have hb' : ¬ AtBoundary fs (k - f.encode.length) := by
        rintro ⟨before, after, rfl, h⟩
        refine hb ⟨f :: before, after, rfl, ?_⟩
        rw [encodeFields_cons, length_append]
        omega
      obtain ⟨before, g, after, j, rfl, h, hj⟩ := ih (by omega) hb'
      refine ⟨f :: before, g, after, j, rfl, ?_, hj⟩
      rw [encodeFields_cons, length_append]
      omega

theorem field_unique {before before' after after' : List WireField} {f f' : WireField} {k : ℕ}
    (h : before ++ f :: after = before' ++ f' :: after')
    (hf : (encodeFields before).length ≤ k ∧ k < (encodeFields before).length + f.encode.length)
    (hf' : (encodeFields before').length ≤ k ∧
      k < (encodeFields before').length + f'.encode.length) :
    before = before' ∧ f = f' := by
  rcases append_eq_append_iff.1 h with ⟨mid, rfl, hmid⟩ | ⟨mid, rfl, hmid⟩
  · cases mid with
    | nil => simpa using (List.cons.inj hmid).1
    | cons g mid =>
      obtain rfl := (List.cons.inj hmid).1
      simp only [encodeFields_append, encodeFields_cons, length_append] at hf'
      omega
  · cases mid with
    | nil => simpa using (List.cons.inj hmid).1.symm
    | cons g mid =>
      obtain rfl := (List.cons.inj hmid).1
      simp only [encodeFields_append, encodeFields_cons, length_append] at hf
      omega

theorem InPayload.not_atBoundary {k : ℕ} (h : InPayload fs k) : ¬ AtBoundary fs k := by
  obtain ⟨before, f, after, rfl, hle, hlt⟩ := h
  have hpos : 0 < f.header.length := by
    obtain ⟨w, n, -, hheader⟩ := WireField.header_eq (f := f) (by rintro h; simp [h] at hlt; omega)
    have := length_pos_of_ne_nil (Base128.encode_ne_nil n)
    rw [hheader, length_append]
    omega
  rintro ⟨before', after', h, rfl⟩
  -- the fields up to the position end before `f` or behind it
  rcases append_eq_append_iff.1 h with ⟨mid, rfl, hmid⟩ | ⟨mid, rfl, -⟩
  · cases mid with
    | nil =>
      rw [append_nil] at hle
      omega
    | cons g mid =>
      obtain rfl := (List.cons.inj hmid).1
      simp only [encodeFields_append, encodeFields_cons, length_append] at hlt
      omega
  · rw [encodeFields_append, length_append] at hle
    omega

theorem InPayload.lt_length {k : ℕ} (h : InPayload fs k) : k < (encodeFields fs).length := by
  obtain ⟨before, f, after, rfl, -, hlt⟩ := h
  simp only [encodeFields_append, encodeFields_cons, length_append]
  omega

/-- **A message that is cut inside a field is rejected exactly when the cut is not inside the
payload of a text.** -/
theorem decodeMessage_take {k : ℕ} (hk : k < (encodeFields fs).length) (hb : ¬ AtBoundary fs k) :
    (∃ exc, decodeMessage ((encodeFields fs).take k) = .error exc) ↔ ¬ InPayload fs k := by
  obtain ⟨before, f, after, j, hfs, rfl, hj, hjlt⟩ := exists_field hk hb
  have htake : (encodeFields fs).take ((encodeFields before).length + j) =
      encodeFields before ++ f.encode.take j := by
    rw [hfs, encodeFields_append, encodeFields_cons, take_length_add_append,
      take_append_of_le_length (Nat.le_of_lt hjlt)]
  rw [htake, decodeMessage_cut before f hj hjlt]
  by_cases hheader : j < f.header.length
  · rw [if_pos hheader]
    refine iff_of_true ⟨_, rfl⟩ ?_
    rintro ⟨before', g, after', hfs', hle, hlt⟩
    obtain ⟨rfl, rfl⟩ := field_unique (hfs.symm.trans hfs')
      (k := (encodeFields before).length + j) ⟨by omega, by omega⟩ ⟨by omega, hlt⟩
    omega
  · rw [if_neg hheader]
    refine iff_of_false (by simp) (not_not.2 ⟨before, f, after, hfs, ?_, ?_⟩)
    · omega
    · omega

end Omniscience.Queue
