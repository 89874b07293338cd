import Mathlib.Algebra.Order.Ring.Int
import Omniscience.Base.Python
import Omniscience.Base.Uuid
import Omniscience.Lib.Dict

/-!
# The convergence report

`GlobalReconciler` (`omniscience_retrieval/reconciler.py`) compares the checkpoints of Qdrant and
Neo4j with the highest document version of every source in Postgres.  Each of the three reads has
its own fallback: an exception is logged and the read gives an empty map.  For the two checkpoint
maps that is on the safe side, a missing checkpoint counts as version 0.  For Postgres it is not: a
source that is not in the map is not compared at all, so a failed read is reported as convergence.

`Stores` is what the stores hold, `Faults` which of the reads fail.

* `check_sound_iff` : a report of convergence is true unless the Postgres read fails while a source
  lags behind.
-/

namespace Omniscience.Reconciler

open Dict

/-- A row of `documents`: its source and its version, which starts at 1. -/
structure Document where
  sourceId : Uuid
  docVersion : ℤ
  pos : 0 < docVersion

/-- What the stores hold for a workspace: the documents of its sources, and the checkpoint of every
source in Qdrant and in Neo4j. -/
structure Stores where
  documents : List Document
  qdrant : Dict String ℤ
  neo4j : Dict String ℤ

/-- The exceptions of the three reads. -/
structure Faults where
  postgres : Option Exc := none
  qdrant : Option Exc := none
  neo4j : Option Exc := none

/-- `SELECT source_id, max(doc_version) ... GROUP BY source_id`. -/
def maxVersions (documents : List Document) : Dict String ℤ :=
  documents.foldl
    (fun d doc => d.set doc.sourceId.str (max (d.getD doc.sourceId.str 0) doc.docVersion)) .empty

/-- `_snapshot_pg_watermark`. -/
def snapshotPgWatermark (stores : Stores) (faults : Faults) : Dict String ℤ :=
  match faults.postgres with
  | none => maxVersions stores.documents
  | some _ => .empty

/-- `_get_qdrant_checkpoints`: one scroll of at most 10,000 records. -/
def getQdrantCheckpoints (stores : Stores) (faults : Faults) : Dict String ℤ :=
  match faults.qdrant with
  | none => stores.qdrant.take 10000
  | some _ => .empty

/-- `_get_neo4j_checkpoints`. -/
def getNeo4jCheckpoints (stores : Stores) (faults : Faults) : Dict String ℤ :=
  match faults.neo4j with
  | none => stores.neo4j
  | some _ => .empty

/-- A store that can lag behind. -/
inductive Subsystem where
  | qdrant
  | neo4j
  deriving DecidableEq, Repr

/-- What `check_convergence` returns.  The staleness is a difference of versions. -/
structure Report where
  converged : Bool
  degraded : List Subsystem
  staleness : Option ℤ
  minWatermark : Option ℤ
  perSourceWatermark : Dict String ℤ

/-- The variables of the loop over the sources. -/
structure Scan where
  qdrantLagging : Bool := false
  neo4jLagging : Bool := false
  maxLag : ℤ := 0
  allVersions : List ℤ := []
  perSourceWatermark : Dict String ℤ := .empty

/-- The body of the loop. -/
def Scan.visit (pg qdrant neo4j : Dict String ℤ) (scan : Scan) (sourceId : String) : Scan :=
  let pgVersion := pg.getD sourceId 0
  let qVersion := qdrant.getD sourceId 0
  let nVersion := neo4j.getD sourceId 0
  let perSourceWatermark :=
    scan.perSourceWatermark.set sourceId (min pgVersion (min qVersion nVersion))
  if 0 < pgVersion then
    let lagQ := if qVersion < pgVersion then max scan.maxLag (pgVersion - qVersion) else scan.maxLag
    { qdrantLagging := scan.qdrantLagging || decide (qVersion < pgVersion)
      neo4jLagging := scan.neo4jLagging || decide (nVersion < pgVersion)
      maxLag := if nVersion < pgVersion then max lagQ (pgVersion - nVersion) else lagQ
      allVersions := scan.allVersions ++ [pgVersion, qVersion, nVersion]
      perSourceWatermark }
  else { scan with perSourceWatermark }

/-- `check_convergence` once the three reads are done. -/
def compare (pg qdrant neo4j : Dict String ℤ) : Report :=
  let allSourceIds := (pg.keys ++ qdrant.keys ++ neo4j.keys).dedup
  if allSourceIds = [] then ⟨true, [], none, none, .empty⟩
  else
    let scan := allSourceIds.foldl (Scan.visit pg qdrant neo4j) {}
    let minWatermark := scan.allVersions.min?
    let degraded := (if scan.qdrantLagging then [Subsystem.qdrant] else []) ++
      if scan.neo4jLagging then [Subsystem.neo4j] else []
    if degraded ≠ [] then
      ⟨false, degraded, some scan.maxLag, minWatermark, scan.perSourceWatermark⟩
    else ⟨true, [], none, minWatermark, scan.perSourceWatermark⟩

/-- `check_convergence`. -/
def checkConvergence (stores : Stores) (faults : Faults) : Report :=
  compare (snapshotPgWatermark stores faults) (getQdrantCheckpoints stores faults)
    (getNeo4jCheckpoints stores faults)

/-! ### The loop -/

section Loop

variable {pg qdrant neo4j : Dict String ℤ}

/-- A version of the source in Postgres that the store has not reached. -/
def Behind (pg store : Dict String ℤ) (sourceId : String) : Prop :=
  0 < pg.getD sourceId 0 ∧ store.getD sourceId 0 < pg.getD sourceId 0

theorem visit_lagging (pg qdrant neo4j : Dict String ℤ) (scan : Scan) (sourceId : String) :
    ((scan.visit pg qdrant neo4j sourceId).qdrantLagging = true ↔
      scan.qdrantLagging = true ∨ Behind pg qdrant sourceId) ∧
    ((scan.visit pg qdrant neo4j sourceId).neo4jLagging = true ↔
      scan.neo4jLagging = true ∨ Behind pg neo4j sourceId) := by
  simp only [Scan.visit, Behind]
  split_ifs with hpos <;> simp [hpos]

theorem foldl_lagging (pg qdrant neo4j : Dict String ℤ) (ids : List String) (scan : Scan) :
    ((ids.foldl (Scan.visit pg qdrant neo4j) scan).qdrantLagging = true ↔
      scan.qdrantLagging = true ∨ ∃ s ∈ ids, Behind pg qdrant s) ∧
    ((ids.foldl (Scan.visit pg qdrant neo4j) scan).neo4jLagging = true ↔
      scan.neo4jLagging = true ∨ ∃ s ∈ ids, Behind pg neo4j s) := by
  induction ids generalizing scan with
  | nil => simp
  | cons sourceId ids ih =>
    obtain ⟨hq, hn⟩ := visit_lagging pg qdrant neo4j scan sourceId
    obtain ⟨ihq, ihn⟩ := ih (scan.visit pg qdrant neo4j sourceId)
    simp only [List.foldl_cons, ihq, ihn, hq, hn, List.exists_mem_cons_iff, or_assoc, and_self]

theorem mem_keys_of_behind {store : Dict String ℤ} {s : String} (h : Behind pg store s) :
    s ∈ pg.keys := by
  by_contra hs
  have hnone := get?_eq_none_iff.2 hs
  have := h.1
  simp [getD, hnone] at this

theorem converged_iff : (compare pg qdrant neo4j).converged = true ↔
    ∀ s, ¬ Behind pg qdrant s ∧ ¬ Behind pg neo4j s := by
  have hids {store : Dict String ℤ} : (∃ s ∈ (pg.keys ++ qdrant.keys ++ neo4j.keys).dedup,
      Behind pg store s) ↔ ∃ s, Behind pg store s := by
    refine ⟨fun h => h.imp fun s hs => hs.2, fun h => h.imp fun s hs => ⟨?_, hs⟩⟩
    simp [mem_keys_of_behind hs]
  obtain ⟨hq, hn⟩ := foldl_lagging pg qdrant neo4j (pg.keys ++ qdrant.keys ++ neo4j.keys).dedup {}
  simp only [Bool.false_eq_true, false_or, hids] at hq hn
  simp only [forall_and, ← not_exists, ← hq, ← hn, compare]
  generalize (pg.keys ++ qdrant.keys ++ neo4j.keys).dedup = ids
  by_cases hnil : ids = []
  · simp [hnil]
  · cases (ids.foldl (Scan.visit pg qdrant neo4j) {}).qdrantLagging <;>
      cases (ids.foldl (Scan.visit pg qdrant neo4j) {}).neo4jLagging <;> simp [hnil]

end Loop

/-! ### Soundness -/

section Sound

variable {stores : Stores} {faults : Faults}

theorem maxVersions_concat (documents : List Document) (doc : Document) :
    maxVersions (documents ++ [doc]) = (maxVersions documents).set doc.sourceId.str
      (max ((maxVersions documents).getD doc.sourceId.str 0) doc.docVersion) := by
  simp [maxVersions]

theorem maxVersions_spec (documents : List Document) (s : String) :
    (∀ doc ∈ documents, doc.sourceId.str = s →
      doc.docVersion ≤ (maxVersions documents).getD s 0) ∧
    ((maxVersions documents).getD s 0 = 0 ∨ ∃ doc ∈ documents, doc.sourceId.str = s ∧
      doc.docVersion = (maxVersions documents).getD s 0) := by
  induction documents using List.reverseRecOn with
  | nil => exact ⟨by simp, .inl rfl⟩
  | append_singleton documents doc ih =>
    obtain ⟨hle, hmax⟩ := ih
    rw [maxVersions_concat]
    by_cases hs : doc.sourceId.str = s
    · subst hs
      rw [getD_set_self]
      refine ⟨fun d hd hkey => ?_, .inr ?_⟩
      · obtain hd | hd := List.mem_append.1 hd
        · exact le_max_of_le_left (hle d hd hkey)
        · rw [List.mem_singleton.1 hd]
          exact le_max_right _ _
      · have hpos := doc.pos
        obtain hold | hnew := max_choice ((maxVersions documents).getD doc.sourceId.str 0)
          doc.docVersion
        · rw [hold]
          obtain hzero | ⟨d, hd, hkey, hversion⟩ := hmax
          · have := le_max_right ((maxVersions documents).getD doc.sourceId.str 0) doc.docVersion
            omega
          · exact ⟨d, List.mem_append_left _ hd, hkey, hversion⟩
        · rw [hnew]
          exact ⟨doc, by simp, rfl, rfl⟩
    · have hne : ((maxVersions documents).set doc.sourceId.str
          (max ((maxVersions documents).getD doc.sourceId.str 0) doc.docVersion)).getD s 0 =
          (maxVersions documents).getD s 0 := by
        rw [getD, get?_set_ne _ _ (Ne.symm hs), getD]
      rw [hne]
      refine ⟨fun d hd hkey => ?_, hmax.imp_right fun h => ?_⟩
      · obtain hd | hd := List.mem_append.1 hd
        · exact hle d hd hkey
        · exact absurd (List.mem_singleton.1 hd ▸ hkey) hs
      · obtain ⟨d, hd, h⟩ := h
        exact ⟨d, List.mem_append_left _ hd, h⟩

theorem not_behind_maxVersions_iff {documents : List Document} {store : Dict String ℤ}
    {s : String} : ¬ Behind (maxVersions documents) store s ↔
      ∀ doc ∈ documents, doc.sourceId.str = s → doc.docVersion ≤ store.getD s 0 := by
  obtain ⟨hle, hmax⟩ := maxVersions_spec documents s
  simp only [Behind, not_and, not_lt]
  constructor
  · intro h doc hdoc hkey
    have hdocle := hle doc hdoc hkey
    exact hdocle.trans (h (doc.pos.trans_le hdocle))
  · intro h hpos
    obtain hzero | ⟨doc, hdoc, hkey, hversion⟩ := hmax
    · omega
    · rw [← hversion]
      exact h doc hdoc hkey

/-- Qdrant and Neo4j have applied the highest version of every source with documents. -/
def Stores.CaughtUp (stores : Stores) : Prop :=
  ∀ doc ∈ stores.documents, doc.docVersion ≤ stores.qdrant.getD doc.sourceId.str 0 ∧
    doc.docVersion ≤ stores.neo4j.getD doc.sourceId.str 0

theorem le_of_read {read store : Dict String ℤ} {s : String} {v : ℤ} (hv : 0 < v)
    (hread : ∀ w, read.get? s = some w → store.get? s = some w) (h : v ≤ read.getD s 0) :
    v ≤ store.getD s 0 := by
  cases hget : read.get? s with
  | none =>
    rw [getD, hget] at h
    exact absurd (hv.trans_le h) (lt_irrefl 0)
  | some w =>
    rw [getD, hget] at h
    rw [getD, hread w hget]
    exact h

theorem get?_of_getQdrantCheckpoints {s : String} {w : ℤ}
    (h : (getQdrantCheckpoints stores faults).get? s = some w) :
    stores.qdrant.get? s = some w := by
  unfold getQdrantCheckpoints at h
  split at h
  · exact get?_of_take h
  · simp at h

theorem get?_of_getNeo4jCheckpoints {s : String} {w : ℤ}
    (h : (getNeo4jCheckpoints stores faults).get? s = some w) :
    stores.neo4j.get? s = some w := by
  unfold getNeo4jCheckpoints at h
  split at h
  · exact h
  · simp at h

theorem converged_of_postgres_fault {e : Exc} (h : faults.postgres = some e) :
    (checkConvergence stores faults).converged = true := by
  rw [checkConvergence, converged_iff]
  have hpg : snapshotPgWatermark stores faults = .empty := by simp [snapshotPgWatermark, h]
  intro s
  simp [hpg, Behind, getD]

theorem caughtUp_of_converged (hpg : faults.postgres = none)
    (h : (checkConvergence stores faults).converged = true) : stores.CaughtUp := by
  rw [checkConvergence, converged_iff] at h
  have hsnapshot : snapshotPgWatermark stores faults = maxVersions stores.documents := by
    simp [snapshotPgWatermark, hpg]
  rw [hsnapshot] at h
  intro doc hdoc
  obtain ⟨hq, hn⟩ := h doc.sourceId.str
  exact ⟨le_of_read doc.pos (fun _ => get?_of_getQdrantCheckpoints)
      (not_behind_maxVersions_iff.1 hq doc hdoc rfl),
    le_of_read doc.pos (fun _ => get?_of_getNeo4jCheckpoints)
      (not_behind_maxVersions_iff.1 hn doc hdoc rfl)⟩

/-- A report of convergence is true unless the Postgres read fails while a source lags behind. -/
theorem check_sound_iff : ((checkConvergence stores faults).converged = true → stores.CaughtUp) ↔
      faults.postgres = none ∨ stores.CaughtUp := by
  constructor
  · intro h
    cases hpg : faults.postgres with
    | none => exact .inl rfl
    | some e => exact .inr (h (converged_of_postgres_fault hpg))
  · rintro (hpg | hcaught)
    · exact caughtUp_of_converged hpg
    · exact fun _ => hcaught

/-- One document that has not reached Qdrant or Neo4j yet. -/
def laggingStores : Stores := ⟨[⟨1, 3, by decide⟩], .empty, .empty⟩

/-- When the database does not answer, the document that has reached neither store is reported as
converged. -/
theorem fault_reported_converged :
    ¬ ((checkConvergence laggingStores
        { postgres := some ⟨.external, "timeout"⟩ }).converged = true →
      laggingStores.CaughtUp) := by
  intro h
  have := (h rfl) _ (.head _)
  exact absurd this.1 (by decide)

end Sound

end Omniscience.Reconciler
