import Omniscience.Base.Mapping
import Omniscience.Outbox.Consumer

/-!
# The progress file of the migration

`ProgressState` records which sources a migration has completed.  `save_progress` writes it to a
JSON file by way of a temporary file and a rename, so that the file always holds a whole document;
it is given here by that document.  A file that is written is read back as it was
(`loadProgress_save`), and one of another schema version is refused.
-/

namespace Omniscience.Migration

open Outbox List

/-- `ProgressState`. -/
structure ProgressState where
  batchSize : ℤ
  startedAt : ℕ
  updatedAt : ℕ
  lastCompletedSourceId : Option Uuid := none
  completedSourceIds : List Uuid := []

namespace ProgressState

/-- `mark_source_completed`. -/
def markSourceCompleted (p : ProgressState) (sourceId : Uuid) (now : ℕ) : ProgressState :=
  { p with
    completedSourceIds :=
      if sourceId ∈ p.completedSourceIds then p.completedSourceIds
      else p.completedSourceIds ++ [sourceId]
    lastCompletedSourceId := some sourceId
    updatedAt := now }

/-- `is_completed`. -/
def isCompleted (p : ProgressState) (sourceId : Uuid) : Bool := sourceId ∈ p.completedSourceIds

/-- `to_dict`. -/
def toDict (py : Py) (p : ProgressState) : Metadata :=
  [("schema_version", .int 1),
    ("batch_size", .int p.batchSize),
    ("started_at", .str (py.isoformat p.startedAt)),
    ("updated_at", .str (py.isoformat p.updatedAt)),
    ("last_completed_source_id", p.lastCompletedSourceId.elim .null fun id => .str id.str),
    ("completed_source_ids", .arr (p.completedSourceIds.map fun id => .str id.str))]

/-- `value == _SCHEMA_VERSION`; `True` is one, and so is `1.0`. -/
def isSchemaVersion : Json → Bool
  | .int n => n = 1
  | .bool b => b
  | .float text => text = "1.0"
  | _ => false

/-- `datetime.fromisoformat(str(data[key]))`. -/
def moment (py : Py) (data : Metadata) (key : String) : Except Exc ℕ :=
  match data.lookup key with
  | none => .error ⟨.keyError, "'" ++ key ++ "'"⟩
  | some value =>
    match py.fromisoformat (py.str value) with
    | none => .error ⟨.valueError, "Invalid isoformat string: " ++ py.repr (.str (py.str value))⟩
    | some t => .ok t

/-- `from_dict`. -/
def fromDict (py : Py) (data : Metadata) : Except Exc ProgressState := do
  let version := (data.lookup "schema_version").getD .null
  if isSchemaVersion version then
    let completed ← match data.lookup "completed_source_ids" with
      | some (.arr items) => .ok items
      | _ => .error ⟨.valueError, "completed_source_ids must be a list"⟩
    let last ← match data.lookup "last_completed_source_id" with
      | some (.str text) => (uuidOf text).map some
      | _ => .ok none
    let completed ← completed.mapM fun item => uuidOf (py.str item)
    let batchSize ← match (data.lookup "batch_size").getD .null with
      | .int n => .ok n
      -- a Boolean is an integer
      | .bool b => .ok b.toInt
      | raw => .error ⟨.valueError, "batch_size must be int, got " ++ raw.typeName⟩
    let startedAt ← moment py data "started_at"
    let updatedAt ← moment py data "updated_at"
    .ok ⟨batchSize, startedAt, updatedAt, last, completed⟩
  else
    .error ⟨.valueError, "Unsupported progress-file schema_version=" ++ py.repr version ++
      "; expected 1."⟩

end ProgressState

/-- `load_progress`, of the JSON document in the file; there is none if the file is absent. -/
def loadProgress (py : Py) (path : String) : Option Json → Except Exc (Option ProgressState)
  | none => .ok none
  | some (.obj data) => (ProgressState.fromDict py data).map some
  | some _ => .error ⟨.valueError, "Progress file " ++ path ++ " does not contain a JSON object"⟩

/-- `new_progress_state`. -/
def newProgressState (batchSize : ℤ) (now : ℕ) : ProgressState := ⟨batchSize, now, now, none, []⟩

variable {py : Py}

/-- The timestamps survive their text. -/
def ReadsTimes (py : Py) : Prop := ∀ t, py.fromisoformat (py.isoformat t) = some t

/-- A runtime that writes the epoch as the real one does, and every other time in unary. -/
def epochPy : Py :=
  { Py.sample with
    isoformat := fun t =>
      if t = 0 then Py.sample.isoformat 0 else String.ofList (replicate t 'x')
    fromisoformat := fun text =>
      if text = Py.sample.isoformat 0 then some 0 else some text.length }

theorem readsTimes_epochPy : ReadsTimes epochPy := by
  intro t
  by_cases ht : t = 0
  · rw [ht]
    rfl
  have hne : String.ofList (replicate t 'x') ≠ Py.sample.isoformat 0 := by
    intro h
    have hmem : '1' ∈ replicate t 'x' := by
      rw [← String.toList_ofList (l := replicate t 'x'), h]
      decide
    exact absurd (eq_of_mem_replicate hmem) (by decide)
  simp [epochPy, ht, hne]

/-- **The record survives the file.** -/
theorem fromDict_toDict (hpy : ReadsTimes py) (p : ProgressState) :
    ProgressState.fromDict py (p.toDict py) = .ok p := by
  have hids : (p.completedSourceIds.map fun id => Json.str id.str).mapM
      (fun item => uuidOf (py.str item)) = .ok p.completedSourceIds := by
    rw [mapM_map]
    exact (mapM_eq_ok fun id _ => uuidOf_str id).trans (by rw [map_id'])
  have hmoment : ∀ {data : Metadata} {key : String} {t : ℕ},
      data.lookup key = some (.str (py.isoformat t)) →
        ProgressState.moment py data key = .ok t := by
    intro data key t h
    simp only [ProgressState.moment, h, Py.str, hpy t]
  have hstarted : ProgressState.moment py (p.toDict py) "started_at" = .ok p.startedAt :=
    hmoment rfl
  have hupdated : ProgressState.moment py (p.toDict py) "updated_at" = .ok p.updatedAt :=
    hmoment rfl
  unfold ProgressState.fromDict
  rw [hstarted, hupdated]
  obtain ⟨batchSize, startedAt, updatedAt, last, completed⟩ := p
  cases last with
  | none => simp [ProgressState.toDict, ProgressState.isSchemaVersion, List.lookup_cons, hids]
  | some id =>
    simp [ProgressState.toDict, ProgressState.isSchemaVersion, List.lookup_cons, hids, uuidOf_str,
      Except.map]

theorem loadProgress_save (hpy : ReadsTimes py) (path : String) (p : ProgressState) :
    loadProgress py path (some (.obj (p.toDict py))) = .ok (some p) := by
  rw [loadProgress, fromDict_toDict hpy]
  rfl

end Omniscience.Migration
