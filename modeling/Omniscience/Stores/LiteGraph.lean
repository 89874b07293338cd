import Omniscience.Lib.LastOf
import Omniscience.Stores.UpsertGraph

/-!
# The graph of the Lite mode

`PostgresOnlyStore.upsert_graph` keeps the graph in two tables, `entities` and `edges`, where each
edge refers to two entities.  A call deletes the entities of its *source* with all their edges and
then inserts the batch of one document.  An edge whose target is not found gets a new stub entity,
which belongs to the source as well.

The call is one transaction, and the keys that it draws come with its arguments.  An insertion whose
key is taken, or whose entities do not exist, raises.  The references from an entity to its source
and to its chunk are left out: they can only make a call raise.
-/

namespace Omniscience.PostgresOnly

open Outbox Dict
open Neo4j (GraphWriteResult)

/-! ### The tables -/

/-- A row of `entities`. -/
structure Entity where
  sourceId : Uuid
  entityType : String
  name : String
  displayName : String
  chunkId : Option Uuid := none
  entityMetadata : Metadata
  contentHash : String

/-- A row of `edges`. -/
structure Edge where
  sourceEntityId : Uuid
  targetEntityId : Uuid
  edgeType : String
  edgeMetadata : Metadata

structure GraphTables where
  entities : Dict Uuid Entity := .empty
  edges : Dict Uuid Edge := .empty

/-- An edge of a batch, with the keys that are drawn for it and for the stub of its target. -/
structure BatchEdge extends Neo4j.BatchEdge where
  rowId : Uuid
  stubId : Uuid

/-- The arguments of `upsert_graph`; `snapshot_at` is not used. -/
structure GraphUpsert where
  sourceId : Uuid
  documentId : Uuid
  entities : List EntityUpsert
  edges : List BatchEdge := []

/-- The runtime, and `entity_content_hash`. -/
structure GraphConfig where
  py : Py
  entityContentHash : (entityType name displayName : String) → Metadata → String

variable (cfg : GraphConfig)

def integrityError (text : String) : Exc := ⟨.external, text⟩

/-! ### The call -/

/-- The entities of the source go, with every edge at one of them. -/
def deleteSource (sourceId : Uuid) (t : GraphTables) : GraphTables :=
  let doomed (id : Uuid) : Bool := (t.entities.get? id).any fun ent => ent.sourceId = sourceId
  { entities := t.entities.filter fun id _ => !doomed id
    edges := t.edges.filter fun _ edge =>
      !doomed edge.sourceEntityId && !doomed edge.targetEntityId }

/-- The row of an entity of the batch. -/
def entityRow (sourceId : Uuid) (ent : EntityUpsert) : Entity where
  sourceId := sourceId
  entityType := ent.entityType
  name := ent.name
  displayName := ent.displayName
  chunkId := ent.chunkId
  entityMetadata := ent.metadata
  contentHash := cfg.entityContentHash ent.entityType ent.name ent.displayName ent.metadata

/-- The row of a stub. -/
def stubRow (sourceId : Uuid) (name : String) : Entity where
  sourceId := sourceId
  entityType := "stub"
  name := name
  displayName := name
  entityMetadata := [("is_stub", .bool true)]
  contentHash := cfg.entityContentHash "stub" name name [("is_stub", .bool true)]

/-- Insert an entity. -/
def insertEntity (id : Uuid) (row : Entity) (t : GraphTables) : Except Exc GraphTables :=
  if t.entities.contains id then .error (integrityError "entities_pkey")
  else .ok { t with entities := t.entities.set id row }

/-- Insert an edge. -/
def insertEdge (id : Uuid) (row : Edge) (t : GraphTables) : Except Exc GraphTables :=
  if t.edges.contains id then .error (integrityError "edges_pkey")
  else if !t.entities.contains row.sourceEntityId then
    .error (integrityError "edges_source_entity_id_fkey")
  else if !t.entities.contains row.targetEntityId then
    .error (integrityError "edges_target_entity_id_fkey")
  else .ok { t with edges := t.edges.set id row }

/-- The table from names to ids after the entities: the last one of a name or display name
counts. -/
def nameToId (entities : List EntityUpsert) : Dict String Uuid :=
  entities.foldl (fun table ent => (table.set ent.name ent.id).set ent.displayName ent.id) .empty

/-- The target of an edge: by id, by name, or a new stub. -/
def findTarget (sourceId : Uuid) (edge : BatchEdge) (table : Dict String Uuid) (t : GraphTables) :
    Except Exc (Uuid × Dict String Uuid × GraphTables) :=
  let found := match edge.targetEntityId, edge.targetName with
    | some target, _ => some target
    | none, some name => table.get? name
    | none, none => none
  match found with
  | some target => .ok (target, table, t)
  | none => do
    let name := match edge.targetName with
      | some name => if name = "" then "stub" else name
      | none => "stub"
    let inserted ← insertEntity edge.stubId (stubRow cfg sourceId name) t
    return (edge.stubId, table.set name edge.stubId, inserted)

/-- An edge of the batch; one without a source and a loop are skipped. -/
def writeEdge (sourceId : Uuid) (acc : Dict String Uuid × GraphTables) (edge : BatchEdge) :
    Except Exc (Dict String Uuid × GraphTables) :=
  match edge.sourceEntityId with
  | none => .ok acc
  | some source => do
    let (target, table, t) ← findTarget cfg sourceId edge acc.1 acc.2
    if source = target then return (table, t)
    else
      let inserted ← insertEdge edge.rowId ⟨source, target, edge.edgeType, edge.metadata⟩ t
      return (table, inserted)

/-- The loop over the entities of the batch. -/
def insertEntities (u : GraphUpsert) (t : GraphTables) : Except Exc GraphTables :=
  u.entities.foldlM (fun t ent => insertEntity ent.id (entityRow cfg u.sourceId ent) t) t

/-- `PostgresOnlyStore.upsert_graph`. -/
def upsertGraph (u : GraphUpsert) (t : GraphTables) : Except Exc (GraphTables × GraphWriteResult) :=
  if u.entities.isEmpty then .ok (t, { applied := false, skipReason := some "empty_batch" })
  else do
    let _ ← Neo4j.workspaceFromEntities cfg.py u.entities
    let inserted ← insertEntities cfg u (deleteSource u.sourceId t)
    let (_, written) ← u.edges.foldlM (writeEdge cfg u.sourceId) (nameToId u.entities, inserted)
    return (written, { applied := true })

/-! ### What a call can do -/

section

variable {cfg} {u : GraphUpsert} {t t' : GraphTables} {result : GraphWriteResult}

variable {row : Entity}

theorem insertEntity_eq_ok_iff {id : Uuid} : insertEntity id row t = .ok t' ↔
      t.entities.contains id = false ∧ t' = { t with entities := t.entities.set id row } := by
  rw [insertEntity, @eq_comm _ t']
  split
  · simp_all
  · simp_all

theorem insertEdge_eq_ok_iff {id : Uuid} {row : Edge} : insertEdge id row t = .ok t' ↔
      t.edges.contains id = false ∧ t.entities.contains row.sourceEntityId = true ∧
        t.entities.contains row.targetEntityId = true ∧
        t' = { t with edges := t.edges.set id row } := by
  rw [insertEdge, @eq_comm _ t']
  split
  · simp_all
  · split
    · simp_all
    · split
      · simp_all
      · simp_all

theorem findTarget_cases {sourceId : Uuid} {edge : BatchEdge} {table table' : Dict String Uuid}
    {target : Uuid} (h : findTarget cfg sourceId edge table t = .ok (target, table', t')) :
    t' = t ∨ ∃ name, insertEntity edge.stubId (stubRow cfg sourceId name) t = .ok t' := by
  unfold findTarget at h
  dsimp only at h
  split at h
  · cases h
    exact .inl rfl
  · obtain ⟨inserted, hinserted, h⟩ := bind_eq_ok_iff.1 h
    cases h
    exact .inr ⟨_, hinserted⟩

/-- **What an edge of the batch can do**: it may insert a stub, and then a row. -/
theorem writeEdge_cases {sourceId : Uuid} {acc acc' : Dict String Uuid × GraphTables}
    {edge : BatchEdge} (h : writeEdge cfg sourceId acc edge = .ok acc') :
    ∃ mid, (mid = acc.2 ∨
        ∃ name, insertEntity edge.stubId (stubRow cfg sourceId name) acc.2 = .ok mid) ∧
      (acc'.2 = mid ∨ ∃ row, insertEdge edge.rowId row mid = .ok acc'.2) := by
  unfold writeEdge at h
  split at h
  · cases h
    exact ⟨acc.2, .inl rfl, .inl rfl⟩
  · obtain ⟨⟨target, table, mid⟩, hfound, h⟩ := bind_eq_ok_iff.1 h
    refine ⟨mid, findTarget_cases hfound, ?_⟩
    dsimp only at h
    split at h
    · cases h
      exact .inl rfl
    · obtain ⟨inserted, hinserted, h⟩ := bind_eq_ok_iff.1 h
      cases h
      exact .inr ⟨_, hinserted⟩

/-- The stages of a call that was applied. -/
inductive Applies (cfg : GraphConfig) (u : GraphUpsert) (t t' : GraphTables) : Prop
  | intro (inserted : GraphTables) (table : Dict String Uuid)
    (entities : insertEntities cfg u (deleteSource u.sourceId t) = .ok inserted)
    (edges : u.edges.foldlM (writeEdge cfg u.sourceId) (nameToId u.entities, inserted) =
      .ok (table, t'))

/-- **What a call does**: one that was applied had entities, and went through all the stages. -/
theorem applies_of_applied (h : upsertGraph cfg u t = .ok (t', result))
    (happlied : result.applied = true) : u.entities ≠ [] ∧ Applies cfg u t t' := by
  unfold upsertGraph at h
  split at h
  · cases h
    cases happlied
  · rename_i hne
    obtain ⟨ws, -, h⟩ := bind_eq_ok_iff.1 h
    obtain ⟨inserted, hinserted, h⟩ := bind_eq_ok_iff.1 h
    obtain ⟨⟨table, written⟩, hwritten, h⟩ := bind_eq_ok_iff.1 h
    cases h
    exact ⟨fun hnil => hne (by rw [hnil]; rfl), inserted, table, hinserted, hwritten⟩

/-! ### Entities that stay -/

theorem get?_entities_insertEntity {id id' : Uuid} (h : insertEntity id row t = .ok t')
    (hne : id' ≠ id) : t'.entities.get? id' = t.entities.get? id' := by
  obtain ⟨-, rfl⟩ := insertEntity_eq_ok_iff.1 h
  exact get?_set_ne _ _ hne

theorem entities_insertEdge {id : Uuid} {row : Edge} (h : insertEdge id row t = .ok t') :
    t'.entities = t.entities := by
  obtain ⟨-, -, -, rfl⟩ := insertEdge_eq_ok_iff.1 h
  rfl

theorem insertEntity_keeps {id id' : Uuid} {row row' : Entity}
    (h : insertEntity id row t = .ok t') (hid' : t.entities.get? id' = some row') :
    t'.entities.get? id' = some row' := by
  have hne : id' ≠ id := by
    rintro rfl
    have hfree := (insertEntity_eq_ok_iff.1 h).1
    simp [contains, hid'] at hfree
  rw [get?_entities_insertEntity h hne, hid']

theorem writeEdge_keeps {sourceId id : Uuid} {acc acc' : Dict String Uuid × GraphTables}
    {edge : BatchEdge} (h : writeEdge cfg sourceId acc edge = .ok acc')
    (hid : acc.2.entities.get? id = some row) : acc'.2.entities.get? id = some row := by
  obtain ⟨mid, hmid, hend⟩ := writeEdge_cases h
  have hid' : mid.entities.get? id = some row := by
    rcases hmid with rfl | ⟨name, hstub⟩
    · exact hid
    · exact insertEntity_keeps hstub hid
  rcases hend with heq | ⟨row', hrow⟩
  · rw [heq, hid']
  · rw [entities_insertEdge hrow, hid']

theorem Applies.entities_get? (h : Applies cfg u t t') {ent : EntityUpsert} (hent : ent ∈ u.entities) :
    t'.entities.get? ent.id = some (entityRow cfg u.sourceId ent) := by
  obtain ⟨inserted, table, hentities, hedges⟩ := h
  refine Fold.foldlM_keeps hedges (fun acc => acc.2.entities.get? ent.id = _) ?_
    fun edge _ acc acc' hacc hstep => writeEdge_keeps hstep hacc
  refine Fold.foldlM_induction hentities
    (fun pre t => ∀ ent ∈ pre, t.entities.get? ent.id = some (entityRow cfg u.sourceId ent))
    (fun _ h => absurd h List.not_mem_nil) ?_ ent hent
  intro pre e post c c' _ hpre hstep ent hent
  rcases List.mem_append.1 hent with hent | hent
  · exact insertEntity_keeps hstep (hpre ent hent)
  · rw [List.mem_singleton.1 hent, (insertEntity_eq_ok_iff.1 hstep).2]
    exact get?_set_self _ _ _

/-! ### Entities that go -/

theorem get?_entities_deleteSource {sourceId id : Uuid} (hid : t.entities.get? id = some row)
    (hrow : row.sourceId = sourceId) : (deleteSource sourceId t).entities.get? id = none := by
  rw [deleteSource, get?_eq_none_iff, mem_keys_filter]
  rintro ⟨-, hkept⟩
  simp [hid, hrow] at hkept

/-- **What a call erases**: an entity of the source that the batch does not insert again is gone. -/
theorem Applies.entities_gone (h : Applies cfg u t t') {id : Uuid}
    (hid : t.entities.get? id = some row) (hrow : row.sourceId = u.sourceId)
    (hentities : ∀ ent ∈ u.entities, ent.id ≠ id) (hstubs : ∀ edge ∈ u.edges, edge.stubId ≠ id) :
    t'.entities.get? id = none := by
  obtain ⟨inserted, table, hinserted, hedges⟩ := h
  have hgone : inserted.entities.get? id = none := by
    refine Fold.foldlM_keeps hinserted (fun t => t.entities.get? id = none)
      (get?_entities_deleteSource hid hrow) fun ent hent c c' hc hstep => ?_
    rw [get?_entities_insertEntity hstep (hentities ent hent).symm, hc]
  refine Fold.foldlM_keeps hedges (fun acc => acc.2.entities.get? id = none) hgone
    fun edge hedge acc acc' hacc hstep => ?_
  obtain ⟨mid, hmid, hend⟩ := writeEdge_cases hstep
  have hmid' : mid.entities.get? id = none := by
    rcases hmid with rfl | ⟨name, hstub⟩
    · exact hacc
    · rw [get?_entities_insertEntity hstub (hstubs edge hedge).symm, hacc]
  rcases hend with heq | ⟨row', hrow'⟩
  · rw [heq, hmid']
  · rw [entities_insertEdge hrow', hmid']

end

/-! ### Runs -/

/-- A call that returned, with the tables that it found. -/
structure Return where
  before : GraphTables
  args : GraphUpsert
  result : GraphWriteResult

/-- The tables that calls lead to, one after the other. -/
inductive Run (t₀ : GraphTables) : List Return → GraphTables → Prop
  | start : Run t₀ [] t₀
  | call {calls : List Return} {u : GraphUpsert} {t t' : GraphTables} {result : GraphWriteResult}
    (run : Run t₀ calls t) (returned : upsertGraph cfg u t = .ok (t', result)) :
    Run t₀ (calls ++ [⟨t, u, result⟩]) t'

section

variable {cfg} {t₀ t : GraphTables} {calls : List Return}

theorem Run.of_concat {c : Return} (h : Run cfg t₀ (calls ++ [c]) t) :
    Run cfg t₀ calls c.before ∧ upsertGraph cfg c.args c.before = .ok (t, c.result) := by
  generalize hl : calls ++ [c] = l at h
  cases h with
  | start => simp at hl
  | call run returned =>
    obtain ⟨rfl, hc⟩ := List.append_inj' hl rfl
    cases hc
    exact ⟨run, returned⟩

theorem Run.of_prefix (h : Run cfg t₀ calls t) {pre : List Return} (hpre : pre <+: calls) :
    ∃ t', Run cfg t₀ pre t' := by
  induction h with
  | start =>
    rw [List.prefix_nil] at hpre
    exact ⟨t₀, hpre ▸ .start⟩
  | call run returned ih =>
    obtain rfl | hpre := List.prefix_concat_iff.1 hpre
    · exact ⟨_, .call run returned⟩
    · exact ih hpre

end

end Omniscience.PostgresOnly
