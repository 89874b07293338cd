import Mathlib.Data.List.Basic
import Mathlib.Data.Int.Notation

/-!
# Values, exceptions and the parts of the runtime that stay abstract

The source is Python.  This file fixes the few things of the language that the models below
share: JSON values (metadata dictionaries, row payloads), byte strings with their UTF-8 text, and
exceptions.

A few library functions are not unfolded.  `Py` bundles the JSON codec, the text form of
timestamps, `repr` and the hash; what a result needs of them (that a document is read back as it was
written) is a hypothesis of that result.
-/

namespace Omniscience

/-- A JSON value.  A float is given by its text, since nothing computes with it; the members of a
dictionary are in insertion order. -/
inductive Json where
  | null
  | bool (b : Bool)
  | int (n : ℤ)
  | float (text : String)
  | str (s : String)
  | arr (items : List Json)
  | obj (members : List (String × Json))

/-- A dictionary with string keys. -/
abbrev Metadata := List (String × Json)

/-- `bool(value)`. -/
def Json.truthy : Json → Bool
  | .null => false
  | .bool b => b
  | .int n => n ≠ 0
  | .float text => text ≠ "0.0" ∧ text ≠ "-0.0"
  | .str s => s ≠ ""
  | .arr items => !items.isEmpty
  | .obj members => !members.isEmpty

/-- A byte string. -/
abbrev Bytes := List UInt8

/-- Library functions of the runtime that the models do not unfold. -/
structure Py where
  /-- `json.dumps`. -/
  dumps : Json → String
  /-- `json.loads`; `none` is the decode error. -/
  loads : String → Option Json
  /-- `repr(value)`. -/
  repr : Json → String
  /-- `data.decode(errors="replace")`. -/
  decodeReplace : Bytes → String
  /-- `moment.isoformat()` of a UTC timestamp. -/
  isoformat : ℕ → String
  /-- `datetime.fromisoformat(text)`. -/
  fromisoformat : String → Option ℕ
  /-- `json.dumps(value, separators=(",", ":"), sort_keys=True, default=str)`. -/
  dumpsSorted : Json → String
  /-- `hashlib.sha256(text.encode("utf-8")).hexdigest()`. -/
  sha256 : String → String

/-- `str(value)`: a string is its own text, everything else is shown by `repr`. -/
def Py.str (py : Py) : Json → String
  | .str s => s
  | v => py.repr v

/-- A metadata dictionary survives `json.dumps` followed by `json.loads`, and its text is not
empty (it has at least its braces). -/
structure Py.RoundTrips (py : Py) (m : Metadata) : Prop where
  loads_dumps : py.loads (py.dumps (.obj m)) = some (.obj m)
  dumps_ne : py.dumps (.obj m) ≠ ""

/-- A runtime that writes and reads the empty dictionary as the real one does, and nothing else.
It serves the instances of the general results. -/
def Py.sample : Py where
  dumps _ := "{}"
  loads text := if text = "{}" then some (.obj []) else none
  repr
    | .str s => "'" ++ s ++ "'"
    | _ => "..."
  decodeReplace _ := "\uFFFD"
  isoformat _ := "1970-01-01T00:00:00+00:00"
  fromisoformat _ := some 0
  dumpsSorted _ := "{}"
  sha256 text := text

theorem Py.sample_roundTrips : Py.sample.RoundTrips [] := ⟨rfl, by decide⟩

/-- The exception classes the source raises or lets through; `external` is a failure of a store,
of the database or of the broker. -/
inductive ExcKind where
  | valueError
  | typeError
  | indexError
  | attributeError
  | notImplementedError
  | unicodeDecodeError
  | unboundLocalError
  | validationError
  | overflowError
  | zeroDivisionError
  | keyError
  | external
  deriving DecidableEq, Repr

/-- An exception: its class and its text. -/
structure Exc where
  kind : ExcKind
  /-- `str(exc)`. -/
  text : String
  deriving DecidableEq, Repr

@[simp] theorem ok_bind {ε α β : Type} (a : α) (f : α → Except ε β) : (Except.ok a >>= f) = f a :=
  rfl

@[simp] theorem error_bind {ε α β : Type} (e : ε) (f : α → Except ε β) :
    (Except.error e >>= f) = .error e :=
  rfl

theorem bind_eq_ok_iff {ε α β : Type} {x : Except ε α} {f : α → Except ε β} {b : β} :
    x >>= f = .ok b ↔ ∃ a, x = .ok a ∧ f a = .ok b := by
  cases x with
  | error e => simp
  | ok a => simp

theorem mapM_eq_ok {α β ε : Type} {f : α → Except ε β} {f' : α → β} {l : List α}
    (h : ∀ a ∈ l, f a = .ok (f' a)) : l.mapM f = .ok (l.map f') := by
  induction l with
  | nil => rfl
  | cons a l ih =>
    rw [List.mapM_cons, h a List.mem_cons_self, ok_bind,
      ih fun b hb => h b (List.mem_cons_of_mem _ hb)]
    rfl

/-- `text.encode("utf-8")`. -/
def encodeUtf8 (text : String) : Bytes := text.toUTF8.data.toList

/-- `data.decode("utf-8")`. -/
def decodeUtf8 (data : Bytes) : Except Exc String :=
  match String.fromUTF8? ⟨data.toArray⟩ with
  | some text => .ok text
  | none => .error ⟨.unicodeDecodeError, "'utf-8' codec can't decode the data"⟩

@[simp] theorem decodeUtf8_encodeUtf8 (text : String) :
    decodeUtf8 (encodeUtf8 text) = .ok text := by
  have h : String.fromUTF8? text.toUTF8 = some text := by
    simp only [String.fromUTF8?, String.toUTF8_eq_toByteArray, text.isValidUTF8, ↓reduceDIte,
      Option.some.injEq]
    rfl
  unfold decodeUtf8 encodeUtf8
  rw [Array.toArray_toList, h]

end Omniscience
