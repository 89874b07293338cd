import Omniscience.Lib.StraightLine
import Omniscience.Migration.Progress
import Omniscience.Stores.Ledger

/-!
# The migration runner

`MigrationRunner` copies the sources of the old database into the graph store and the vector store,
one source after the other: the entities, the edges, and the chunks of each document that is not
tombstoned, in batches.  After a source it writes the progress file, and a run that resumes skips
the sources of that file.

The runner is a coroutine that awaits the adapters and the write of the temporary file.  Nothing in
it catches an exception, so that a call that fails stands for the crash of the process at that
point.  The old database does not change meanwhile.

* `resumed_runs` : runs that resume one another, each of which may crash anywhere, migrate every
  source that the file does not list once, in order, and what is redone is part of one source.
* `checkpoint_sound` : whatever the runs and their filters are, a source that the file lists has
  been migrated as a whole by one of them.
-/

namespace Omniscience.Migration

open Outbox Coro List

/-! ### The old database -/

/-- A row of `sources`. -/
structure Source where
  id : Uuid
  name : String
  tenantId : Option Uuid

/-- A row of `entities`. -/
structure Entity where
  id : Uuid
  sourceId : Uuid
  entityType : String
  name : String
  displayName : String
  chunkId : Option Uuid
  entityMetadata : Option Metadata

/-- A row of `edges`. -/
structure Edge where
  sourceEntityId : Uuid
  targetEntityId : Uuid
  edgeType : String
  edgeMetadata : Option Metadata

/-- A row of `chunks`, with the embedding that old schemas have. -/
structure Chunk where
  ord : ℕ
  text : String
  embedding : Option Embedding
  symbol : Option String
  chunkMetadata : Option Metadata
  embeddingModel : Option String
  embeddingProvider : Option String
  parserVersion : Option String
  chunkerStrategy : Option String

/-- A row of `documents` with its chunks by `ord`. -/
structure Document where
  sourceId : Uuid
  externalId : String
  uri : String
  title : Option String
  contentHash : String
  docMetadata : Option Metadata
  tombstoned : Bool
  chunks : List Chunk

/-- The tables, each in the order in which it is read. -/
structure Database where
  sources : List Source
  entities : List Entity
  edges : List Edge
  documents : List Document
  nodup : (sources.map Source.id).Nodup

/-- `MigrationConfig`. -/
structure MigrationConfig where
  workspaceId : Option Uuid := none
  sourceId : Option Uuid := none
  defaultWorkspaceId : Option Uuid := none
  batchSize : ℕ
  dryRun : Bool := false
  resume : Bool := false
  progressFile : String
  batchSize_pos : 1 ≤ batchSize

/-- `_fetch_entities_for_source`. -/
def fetchEntitiesForSource (db : Database) (sourceId : Uuid) : List Entity :=
  db.entities.filter fun e => e.sourceId = sourceId

/-- `_fetch_edges_for_source`: an edge belongs to the source of its source entity. -/
def fetchEdgesForSource (db : Database) (sourceId : Uuid) : List Edge :=
  db.edges.filter fun e =>
    db.entities.any fun entity => entity.id = e.sourceEntityId ∧ entity.sourceId = sourceId

/-- `_iter_document_chunks`. -/
def iterDocumentChunks (db : Database) (sourceId : Uuid) : List Document :=
  db.documents.filter fun d => d.sourceId = sourceId ∧ !d.tombstoned

/-- `_select_sources`. -/
def selectSources (config : MigrationConfig) (db : Database) : List Source :=
  db.sources.filter fun source =>
    config.sourceId.all (· = source.id) ∧ config.workspaceId.all (some · = source.tenantId)

/-- `_chunked`. -/
def chunked {α : Type} (items : List α) (size : ℕ) : List (List α) :=
  (range ((items.length + size - 1) / size)).map fun i => (items.drop (i * size)).take size

/-! ### The runner -/

/-- A record of the progress, on its way to the file, and the calls of the adapters. -/
inductive Call where
  | upsertEntity (entity : EntityUpsert) (workspaceId : Uuid)
  | upsertEdge (edge : EdgeUpsert) (workspaceId : Uuid)
  | upsertChunks (args : ChunksUpsert)
  | writeText (data : Metadata)

/-- What ends a run: `MissingWorkspaceError` or another exception. -/
inductive Failure where
  | missingWorkspace (sourceId : Uuid) (sourceName : String)
  | raised (exc : Exc)

/-- The clock and the JSON document in the progress file. -/
structure State where
  clock : ℕ
  file : Option Json

/-- What the runner works on; it ignores what the adapters return. -/
abbrev iface : Iface := ⟨State, Failure, Call, fun _ => Unit⟩

/-- `SourceReport`. -/
structure SourceReport where
  sourceId : Uuid
  sourceName : String
  workspaceId : Uuid
  entitiesCopied : ℕ := 0
  edgesCopied : ℕ := 0
  chunksCopied : ℕ := 0
  documentsScanned : ℕ := 0
  skipped : Bool := false
  skipReason : Option String := none

/-- `resolve_source_workspace`. -/
def resolveSourceWorkspace (source : Source) (defaultWorkspaceId : Option Uuid) :
    Except Failure Uuid :=
  match source.tenantId <|> defaultWorkspaceId with
  | some workspaceId => .ok workspaceId
  | none => .error (.missingWorkspace source.id source.name)

/-- The argument of `upsert_entity`. -/
def Entity.upsert (e : Entity) : EntityUpsert where
  id := e.id
  sourceId := e.sourceId
  entityType := e.entityType
  name := e.name
  displayName := e.displayName
  chunkId := e.chunkId
  metadata := e.entityMetadata.getD []

/-- The argument of `upsert_edge`; the metadata name the source unless they do already. -/
def Edge.upsert (sourceId : Uuid) (e : Edge) : EdgeUpsert where
  sourceEntityId := e.sourceEntityId
  targetEntityId := e.targetEntityId
  edgeType := e.edgeType
  metadata :=
    let metadata := e.edgeMetadata.getD []
    if (metadata.lookup "source_id").isSome then metadata
    else metadata ++ [("source_id", .str sourceId.str)]

/-- `_chunk_to_payload`. -/
def chunkToPayload (c : Chunk) : ChunkPayload where
  ord := c.ord
  text := c.text
  embedding := c.embedding.getD []
  symbol := c.symbol
  metadata := c.chunkMetadata.getD []
  embeddingModel := c.embeddingModel.getD ""
  embeddingProvider := c.embeddingProvider.getD ""
  parserVersion := c.parserVersion.getD ""
  chunkerStrategy := c.chunkerStrategy.getD ""

/-- `_build_document_metadata`. -/
def buildDocumentMetadata (d : Document) (workspaceId : Uuid) : Metadata :=
  (d.docMetadata.getD []).set "workspace_id" (.str workspaceId.str)

/-- The arguments of `upsert_chunks` for a batch of a document. -/
def Document.upsert (sourceId workspaceId : Uuid) (d : Document) (batch : List Chunk) :
    ChunksUpsert where
  sourceId := sourceId
  externalId := d.externalId
  uri := d.uri
  title := d.title
  contentHash := d.contentHash
  metadata := buildDocumentMetadata d workspaceId
  chunks := batch.map chunkToPayload

section

variable (py : Py) (config : MigrationConfig) (db : Database)

/-- `_migrate_source_graph`. -/
def migrateSourceGraph (source : Source) (workspaceId : Uuid) (report : SourceReport) :
    Coro iface SourceReport := do
  let report ← fold (fun (report : SourceReport) batch => do
      forEach batch fun e => call (S := iface) (.upsertEntity e.upsert workspaceId)
      return { report with entitiesCopied := report.entitiesCopied + batch.length })
    report (chunked (fetchEntitiesForSource db source.id) config.batchSize)
  fold (fun (report : SourceReport) batch => do
      forEach batch fun e => call (S := iface) (.upsertEdge (e.upsert source.id) workspaceId)
      return { report with edgesCopied := report.edgesCopied + batch.length })
    report (chunked (fetchEdgesForSource db source.id) config.batchSize)

/-- `_migrate_source_chunks`. -/
def migrateSourceChunks (source : Source) (workspaceId : Uuid) (report : SourceReport) :
    Coro iface SourceReport :=
  fold (fun (report : SourceReport) d =>
      fold (fun (report : SourceReport) batch => do
          call (S := iface) (.upsertChunks (d.upsert source.id workspaceId batch))
          return { report with chunksCopied := report.chunksCopied + batch.length })
        { report with documentsScanned := report.documentsScanned + 1 }
        (chunked d.chunks config.batchSize))
    report (iterDocumentChunks db source.id)

/-- `_dry_run_source`. -/
def dryRunSource (source : Source) (report : SourceReport) : SourceReport :=
  { report with
    entitiesCopied := (fetchEntitiesForSource db source.id).length
    edgesCopied := (fetchEdgesForSource db source.id).length
    chunksCopied := ((iterDocumentChunks db source.id).map fun d => d.chunks.length).sum
    documentsScanned := (iterDocumentChunks db source.id).length }

/-- `save_progress`. -/
def saveProgress (p : ProgressState) : Coro iface Unit := do
  call (S := iface) (.writeText (p.toDict py))
  modify (S := iface) fun s => { s with file := some (.obj (p.toDict py)) }

/-- `_process_source`, with the progress and the reports so far. -/
def processSource (l : ProgressState × List SourceReport) (source : Source) :
    Coro iface (ProgressState × List SourceReport) := do
  let workspaceId ← lift (S := iface) (resolveSourceWorkspace source config.defaultWorkspaceId)
  let report : SourceReport :=
    { sourceId := source.id, sourceName := source.name, workspaceId := workspaceId }
  if config.resume && l.1.isCompleted source.id then
    return (l.1, l.2 ++ [{ report with skipped := true, skipReason := some "already_completed" }])
  else if config.dryRun then return (l.1, l.2 ++ [dryRunSource db source report])
  else
    let report ← migrateSourceGraph config db source workspaceId report
    let report ← migrateSourceChunks config db source workspaceId report
    let s ← get
    let progress := l.1.markSourceCompleted source.id s.clock
    saveProgress py progress
    return (progress, l.2 ++ [report])

/-- `_load_or_create_progress`. -/
def loadOrCreateProgress (s : State) : Except Failure ProgressState :=
  if config.resume then
    match loadProgress py config.progressFile s.file with
    | .error e => .error (.raised e)
    | .ok none => .ok (newProgressState config.batchSize s.clock)
    | .ok (some existing) => .ok existing
  else .ok (newProgressState config.batchSize s.clock)

/-- `MigrationRunner.run`, to the reports of the sources. -/
def run : Coro iface (List SourceReport) := do
  let s ← get
  let progress ← lift (S := iface) (loadOrCreateProgress py config s)
  let l ← fold (processSource py config db) (progress, []) (selectSources config db)
  return l.2

end

/-! ### What a run makes of a source -/

/-- Only the runner writes the progress file. -/
def Leaves (env : Env iface) : Prop := ∀ t q s, (env t q s).2.file = s.file

section

variable (config : MigrationConfig) (db : Database)

/-- The writes of the chunks of a source, a batch each. -/
def chunkWrites (source : Source) (workspaceId : Uuid) : List ChunksUpsert :=
  (iterDocumentChunks db source.id).flatMap fun d =>
    (chunked d.chunks config.batchSize).map (d.upsert source.id workspaceId)

/-- The calls that migrate a source. -/
def writesOf (source : Source) (workspaceId : Uuid) : List Call :=
  (fetchEntitiesForSource db source.id).map (fun e => .upsertEntity e.upsert workspaceId) ++
    (fetchEdgesForSource db source.id).map
      (fun e => .upsertEdge (e.upsert source.id) workspaceId) ++
      (chunkWrites config db source workspaceId).map .upsertChunks

/-- The source has been migrated: all its writes have returned, and so has the write of the
progress. -/
def Migrated (source : Source) (es : List (Event iface)) : Prop :=
  ∃ workspaceId data, resolveSourceWorkspace source config.defaultWorkspaceId = .ok workspaceId ∧
    Done es (writesOf config db source workspaceId ++ [.writeText data])

/-- The migration of the source was begun. -/
def Begun (source : Source) (es : List (Event iface)) : Prop :=
  ∃ workspaceId data,
    es.map Sigma.fst <+: writesOf config db source workspaceId ++ [.writeText data]

/-- A run does not skip the source, given the sources that are listed. -/
def isPending (listed : List Uuid) (source : Source) : Bool :=
  !(config.resume && decide (source.id ∈ listed))

end

/-- The events are those of one source after the other. -/
def Each (R : Source → List (Event iface) → Prop) : List Source → List (Event iface) → Prop
  | [], es => es = []
  | source :: sources, es => ∃ own rest, es = own ++ rest ∧ R source own ∧ Each R sources rest

/-- The runner wrote the file, and it lists these sources. -/
def Lists (py : Py) (file : Option Json) (ids : List Uuid) : Prop :=
  ∃ p : ProgressState, file = some (.obj (p.toDict py)) ∧ p.completedSourceIds = ids

/-- What becomes of some sources: those that are not skipped are migrated one after the other, up to
a point where the run ends, and the file lists what the record lists and the sources migrated. -/
structure Advance (py : Py) (config : MigrationConfig) (db : Database) (listed : List Uuid)
    (sources done rest : List Source) (es : List (Event iface)) (file file' : Option Json) :
    Prop where
  split : sources.filter (isPending config listed) = done ++ rest
  events : ∃ own tail, es = own ++ tail ∧ Each (Migrated config db) done own ∧
    (tail = [] ∨ ∃ next, rest.head? = some next ∧ Begun config db next tail)
  saved : done = [] ∧ file' = file ∨ Lists py file' (listed ++ done.map Source.id)

theorem flatten_chunked {α : Type} (items : List α) {size : ℕ} (hsize : 1 ≤ size) :
    (chunked items size).flatten = items := by
  have htake : ∀ n, ((range n).map fun i => (items.drop (i * size)).take size).flatten =
      items.take (n * size) := by
    intro n
    induction n with
    | zero => simp
    | succ n ih => simp [range_succ, ih, Nat.succ_mul, take_add]
  rw [chunked, htake, take_of_length_le]
  have hdiv := Nat.div_add_mod (items.length + size - 1) size
  have hmod := Nat.mod_lt (items.length + size - 1) hsize
  rw [Nat.mul_comm]
  omega

section

variable {py : Py} {config : MigrationConfig} {db : Database} {env : Env iface}

variable (config) in
theorem makes_batches {α : Type} (henv : Leaves env) (q : α → Call)
    (add : SourceReport → ℕ → SourceReport) (report : SourceReport) (items : List α) :
    Makes env State.file (fold (fun report batch => do
        forEach batch fun e => call (S := iface) (q e)
        return add report batch.length) report (chunked items config.batchSize))
      (items.map q)
      ((chunked items config.batchSize).foldl (fun report batch => add report batch.length)
        report) := by
  have hround : ∀ report (batch : List α), Makes env State.file (do
      forEach batch fun e => call (S := iface) (q e)
      return add report batch.length) (batch.map q) (add report batch.length) := by
    intro report batch
    have hcall : ∀ e, Makes env State.file (call (S := iface) (q e)) [q e] () := fun e =>
      makes_call () fun t s => henv t (q e) s
    rw [map_eq_flatMap, ← append_nil (flatMap _ _)]
    exact (makes_forEach hcall batch).bind (makes_ret _)
  have hloop := makes_fold hround report (chunked items config.batchSize)
  rwa [flatMap_def, ← map_flatten, flatten_chunked items config.batchSize_pos] at hloop

variable (config db) in
theorem makes_migrateSourceChunks (henv : Leaves env) (source : Source) (w : Uuid)
    (report : SourceReport) : ∃ report', report'.chunksCopied = report.chunksCopied +
        ((iterDocumentChunks db source.id).map fun d => d.chunks.length).sum ∧
      Makes env State.file (migrateSourceChunks config db source w report)
        ((chunkWrites config db source w).map .upsertChunks) report' := by
  let count (report : SourceReport) (batch : List Chunk) : SourceReport :=
    { report with chunksCopied := report.chunksCopied + batch.length }
  let scan (report : SourceReport) (d : Document) : SourceReport :=
    (chunked d.chunks config.batchSize).foldl count
      { report with documentsScanned := report.documentsScanned + 1 }
  have hcount : ∀ (batches : List (List Chunk)) report, (batches.foldl count report).chunksCopied =
      report.chunksCopied + batches.flatten.length := by
    intro batches
    induction batches with
    | nil => exact fun _ => rfl
    | cons batch batches ih =>
      intro report
      rw [foldl_cons, ih, flatten_cons, length_append, ← Nat.add_assoc]
  have hscan : ∀ (docs : List Document) report, (docs.foldl scan report).chunksCopied =
      report.chunksCopied + (docs.map fun d => d.chunks.length).sum := by
    intro docs
    induction docs with
    | nil => exact fun _ => rfl
    | cons d docs ih =>
      intro report
      rw [foldl_cons, ih, map_cons, sum_cons, hcount, flatten_chunked _ config.batchSize_pos,
        Nat.add_assoc]
  refine ⟨_, hscan (iterDocumentChunks db source.id) report, ?_⟩
  have hbatch : ∀ (d : Document) report (batch : List Chunk), Makes env State.file (do
      call (S := iface) (.upsertChunks (d.upsert source.id w batch))
      return count report batch) [.upsertChunks (d.upsert source.id w batch)]
        (count report batch) := by
    intro d report batch
    have hcall : Makes env State.file (call (S := iface)
        (.upsertChunks (d.upsert source.id w batch))) _ () := makes_call () fun t s => henv t _ s
    exact hcall.bind (makes_ret _)
  have hplan : (chunkWrites config db source w).map Call.upsertChunks =
      (iterDocumentChunks db source.id).flatMap fun d => (chunked d.chunks config.batchSize).flatMap
        fun batch => [.upsertChunks (d.upsert source.id w batch)] := by
    simp only [chunkWrites, map_flatMap, ← map_eq_flatMap, map_map, Function.comp_def]
  rw [hplan]
  exact makes_fold (fun report d => makes_fold (hbatch d)
    { report with documentsScanned := report.documentsScanned + 1 }
    (chunked d.chunks config.batchSize)) report (iterDocumentChunks db source.id)

variable (config db) in
theorem exists_makes_source (henv : Leaves env) (source : Source) (w : Uuid)
    (report : SourceReport) : ∃ report', Makes env State.file
      (migrateSourceGraph config db source w report >>= migrateSourceChunks config db source w)
      (writesOf config db source w) report' := by
  have hentities := makes_batches config henv
    (fun e : Entity => .upsertEntity e.upsert w)
    (fun report n => { report with entitiesCopied := report.entitiesCopied + n }) report
    (fetchEntitiesForSource db source.id)
  have hedges := fun report => makes_batches config henv
    (fun e : Edge => .upsertEdge (e.upsert source.id) w)
    (fun report n => { report with edgesCopied := report.edgesCopied + n }) report
    (fetchEdgesForSource db source.id)
  obtain ⟨report', -, hchunks⟩ := makes_migrateSourceChunks config db henv
    source w _
  rw [writesOf]
  exact ⟨report', (hentities.bind (hedges _)).bind hchunks⟩

variable (py) in
/-- What one source comes to: it is skipped, or it is migrated and listed, or the run ends there. -/
theorem processSource_spec (henv : Leaves env) (hdry : config.dryRun = false)
    (l : ProgressState × List SourceReport) (source : Source) (t : List (Event iface)) (s : State) :
    let o := exec env (processSource py config db l source) t s
    ∃ es, o.trace = t ++ es ∧
      match o.result with
      | .error _ => o.state.file = s.file ∧
          (es = [] ∨ isPending config l.1.completedSourceIds source = true ∧
            Begun config db source es)
      | .ok l' =>
        if isPending config l.1.completedSourceIds source = true then
          Migrated config db source es ∧ o.state.file = some (.obj (l'.1.toDict py)) ∧
            ∃ now, l'.1 = l.1.markSourceCompleted source.id now
        else es = [] ∧ o.state.file = s.file ∧ l'.1 = l.1 := by
  intro o
  cases hw : resolveSourceWorkspace source config.defaultWorkspaceId with
  | error e =>
    have ho : o = ⟨t, .error e, s⟩ := by simp only [o, processSource, hw]; rfl
    rw [ho]
    exact ⟨[], (append_nil t).symm, rfl, .inl rfl⟩
  | ok w =>
    have hpending : isPending config l.1.completedSourceIds source =
      !(config.resume && l.1.isCompleted source.id) := rfl
    rw [hpending]
    cases hskip : config.resume && l.1.isCompleted source.id with
    | true =>
      have ho : o.trace = t ∧ o.state = s ∧ ∃ reports, o.result = .ok (l.1, reports) := by
        simp only [o, processSource, hw, hskip, if_true]
        exact ⟨rfl, rfl, _, rfl⟩
      obtain ⟨htrace, hstate, reports, hresult⟩ := ho
      rw [htrace, hstate, hresult]
      exact ⟨[], (append_nil t).symm, by simp⟩
    | false =>
      let new : SourceReport :=
        { sourceId := source.id, sourceName := source.name, workspaceId := w }
      obtain ⟨report, hwrites⟩ := exists_makes_source config db henv source w new
      let rest (report : SourceReport) : Coro iface (ProgressState × List SourceReport) := do
        let s ← get
        let progress := l.1.markSourceCompleted source.id s.clock
        saveProgress py progress
        return (progress, l.2 ++ [report])
      have ho : o = exec env ((migrateSourceGraph config db source w new >>=
          migrateSourceChunks config db source w) >>= rest) t s := by
        rw [bind_eq, bind_eq, bind_assoc]
        simp only [o, processSource, hw, hskip, hdry]
        rfl
      obtain ⟨es, s', hdone, hfile, heq⟩ | ⟨es, s', e, hcut, hfile, heq⟩ :=
        hwrites.exec_bind rest t s
      · let p := l.1.markSourceCompleted source.id s'.clock
        have hkept := (henv (t ++ es) (.writeText (p.toDict py)) s').trans hfile
        have hrest : exec env (rest report) (t ++ es) s' =
            exec env (call (S := iface) (.writeText (p.toDict py)) >>= fun _ => .upd
              (fun s => { s with file := some (.obj (p.toDict py)) })
              fun _ => .ret (p, l.2 ++ [report])) (t ++ es) s' := by
          show exec env ((_ >>= _) >>= _) _ _ = _
          rw [bind_eq, bind_eq, bind_assoc]
          rfl
        rw [ho, heq, hrest]
        simp only [bind_eq, Coro.exec_bind, call, exec]
        generalize env (t ++ es) (.writeText (p.toDict py)) s' = answer at hkept ⊢
        obtain ⟨r, s''⟩ := answer
        refine ⟨es ++ [⟨.writeText (p.toDict py), r⟩], ?_⟩
        cases r with
        | error e =>
          refine ⟨append_assoc t es _, hkept, .inr ⟨rfl, w, p.toDict py, ?_⟩⟩
          rw [map_append, hdone.1]
          exact prefix_refl _
        | ok u =>
          refine ⟨append_assoc t es _, ?_⟩
          have hwrite : Done [(⟨.writeText (p.toDict py), .ok u⟩ : Event iface)]
              [.writeText (p.toDict py)] := ⟨rfl, by simp [Except.isOk, Except.toBool]⟩
          exact ⟨⟨w, p.toDict py, hw, hdone.append hwrite⟩, rfl, s'.clock, rfl⟩
      · rw [ho, heq]
        exact ⟨es, rfl, hfile, .inr ⟨rfl, w, [], hcut.trans (prefix_append _ _)⟩⟩

theorem isPending_concat {listed : List Uuid} {id : Uuid} {source : Source} (h : source.id ≠ id) :
    isPending config (listed ++ [id]) source = isPending config listed source := by
  simp [isPending, h]

variable (py) in
/-- **The loop over the sources.** -/
theorem fold_spec (henv : Leaves env) (hdry : config.dryRun = false) {sources : List Source}
    (hnodup : (sources.map Source.id).Nodup) (l : ProgressState × List SourceReport)
    (hnew : config.resume = false → ∀ source ∈ sources, source.id ∉ l.1.completedSourceIds)
    (t : List (Event iface)) (s : State) :
    let o := exec env (fold (processSource py config db) l sources) t s
    ∃ done rest es, o.trace = t ++ es ∧
      Advance py config db l.1.completedSourceIds sources done rest es s.file o.state.file ∧
      ∀ l', o.result = .ok l' → rest = [] := by
  induction sources generalizing l t s with
  | nil =>
    exact ⟨[], [], [], (append_nil t).symm,
      ⟨rfl, ⟨[], [], rfl, rfl, .inl rfl⟩, .inl ⟨rfl, rfl⟩⟩, fun _ _ => rfl⟩
  | cons source sources ih =>
    obtain ⟨hfresh, hnodup⟩ := nodup_cons.1 hnodup
    obtain ⟨es, htrace, hspec⟩ := processSource_spec py henv hdry l source t s
    rw [fold, bind_eq, Coro.exec_bind]
    generalize exec env (processSource py config db l source) t s = o at htrace hspec ⊢
    obtain ⟨t', r, s'⟩ := o
    obtain rfl : t' = t ++ es := htrace
    cases r with
    | error e =>
      obtain ⟨hfile, hes⟩ := hspec
      refine ⟨[], (source :: sources).filter (isPending config l.1.completedSourceIds), es, rfl,
        ⟨rfl, ⟨[], es, rfl, rfl, hes.imp_right fun h => ⟨source, ?_, h.2⟩⟩, .inl ⟨rfl, hfile⟩⟩,
        fun _ h => by cases h⟩
      rw [filter_cons_of_pos h.1]
      rfl
    | ok l' =>
      dsimp only at hspec ⊢
      by_cases hpending : isPending config l.1.completedSourceIds source = true
      · rw [if_pos hpending] at hspec
        obtain ⟨hmigrated, hfile, now, hl'⟩ := hspec
        have hnot : source.id ∉ l.1.completedSourceIds := by
          cases hresume : config.resume with
          | false => exact hnew hresume source mem_cons_self
          | true => simpa [isPending, hresume] using hpending
        have hlisted : l'.1.completedSourceIds = l.1.completedSourceIds ++ [source.id] := by
          rw [hl', ProgressState.markSourceCompleted]
          exact if_neg hnot
        have hne : ∀ other ∈ sources, other.id ≠ source.id := fun other hother heq =>
          hfresh (heq ▸ mem_map_of_mem hother)
        obtain ⟨done, rest, es', htrace, hout, hend⟩ := ih hnodup l' (by
          intro hresume other hother
          rw [hlisted, mem_append, mem_singleton]
          rintro (h | h)
          · exact hnew hresume other (mem_cons_of_mem _ hother) h
          · exact hne other hother h) (t ++ es) s'
        have hsplit := hout.split
        rw [hlisted, filter_congr fun other hother => isPending_concat (hne other hother)] at hsplit
        obtain ⟨own, tail, rfl, hown, htail⟩ := hout.events
        refine ⟨source :: done, rest, es ++ (own ++ tail), by rw [htrace, append_assoc],
          ⟨?_, ⟨es ++ own, tail, (append_assoc _ _ _).symm, ⟨es, own, rfl, hmigrated, hown⟩, htail⟩,
            .inr ?_⟩, hend⟩
        · rw [filter_cons_of_pos hpending, hsplit, cons_append]
        · rcases hout.saved with ⟨rfl, hsame⟩ | ⟨p, hsaved, hp⟩
          · exact ⟨l'.1, hsame.trans hfile, by rw [hlisted, map_cons, map_nil]⟩
          · refine ⟨p, hsaved, ?_⟩
            rw [hp, hlisted, append_assoc, map_cons, singleton_append]
      · rw [if_neg hpending] at hspec
        obtain ⟨rfl, hfile, hl'⟩ := hspec
        obtain ⟨done, rest, es', htrace, hout, hend⟩ := ih hnodup l' (by
          intro hresume other hother
          rw [hl']
          exact hnew hresume other (mem_cons_of_mem _ hother)) (t ++ []) s'
        rw [hl', hfile] at hout
        refine ⟨done, rest, es', by rw [htrace, append_nil], ⟨?_, hout.events, hout.saved⟩, hend⟩
        rw [filter_cons_of_neg hpending]
        exact hout.split

theorem exec_run {s : State} {progress : ProgressState}
    (h : loadOrCreateProgress py config s = .ok progress) (t : List (Event iface)) :
    exec env (run py config db) t s = exec env
      (fold (processSource py config db) (progress, []) (selectSources config db) >>= fun l =>
        .ret l.2) t s := by
  have hrun : exec env (run py config db) t s =
      exec env (lift (S := iface) (loadOrCreateProgress py config s) >>= fun progress =>
        fold (processSource py config db) (progress, []) (selectSources config db) >>= fun l =>
          .ret l.2) t s := rfl
  rw [hrun, h]
  rfl

theorem exec_run_dry (hdry : config.dryRun = true) (t : List (Event iface)) (s : State) :
    (exec env (run py config db) t s).trace = t ∧ (exec env (run py config db) t s).state = s := by
  have hsource : ∀ l source, ∃ r,
      exec env (processSource py config db l source) t s = ⟨t, r, s⟩ := by
    intro l source
    unfold processSource
    cases resolveSourceWorkspace source config.defaultWorkspaceId with
    | error e => exact ⟨_, rfl⟩
    | ok w =>
      cases config.resume && l.1.isCompleted source.id <;>
        simp only [lift, bind_eq, Coro.bind, hdry, if_true, if_false, Bool.false_eq_true] <;>
        exact ⟨_, rfl⟩
  have hfold : ∀ (sources : List Source) l, ∃ r,
      exec env (fold (processSource py config db) l sources) t s = ⟨t, r, s⟩ := by
    intro sources
    induction sources with
    | nil => exact fun l => ⟨_, rfl⟩
    | cons source sources ih =>
      intro l
      obtain ⟨r, hr⟩ := hsource l source
      rw [fold, bind_eq, Coro.exec_bind, hr]
      cases r with
      | error e => exact ⟨_, rfl⟩
      | ok l' => exact ih l'
  cases hload : loadOrCreateProgress py config s with
  | error e =>
    have hrun : exec env (run py config db) t s = ⟨t, .error e, s⟩ := by
      show exec env (lift (S := iface) (loadOrCreateProgress py config s) >>= _) t s = _
      rw [hload]
      rfl
    rw [hrun]
    exact ⟨rfl, rfl⟩
  | ok progress =>
    obtain ⟨r, hr⟩ := hfold (selectSources config db) (progress, [])
    rw [exec_run hload, bind_eq, Coro.exec_bind, hr]
    cases r <;> exact ⟨rfl, rfl⟩

theorem nodup_selectSources : ((selectSources config db).map Source.id).Nodup :=
  db.nodup.sublist (filter_sublist.map _)

variable (config db) in
/-- **One run**, from a file that is absent or was written by a run. -/
theorem run_spec (hpy : ReadsTimes py) (henv : Leaves env) (hdry : config.dryRun = false)
    {s : State} {listed : List Uuid}
    (hfile : s.file = none ∧ listed = [] ∨ Lists py s.file listed) :
    let o := exec env (run py config db) [] s
    ∃ done rest, Advance py config db (if config.resume then listed else [])
        (selectSources config db) done rest o.trace s.file o.state.file ∧
      ∀ reports, o.result = .ok reports → rest = [] := by
  have hload : ∃ progress, loadOrCreateProgress py config s = .ok progress ∧
      progress.completedSourceIds = if config.resume then listed else [] := by
    unfold loadOrCreateProgress
    cases config.resume with
    | false => exact ⟨_, rfl, rfl⟩
    | true =>
      rcases hfile with ⟨hnone, rfl⟩ | ⟨p, hsome, rfl⟩
      · rw [hnone]
        exact ⟨_, rfl, rfl⟩
      · rw [hsome, loadProgress_save hpy]
        exact ⟨_, rfl, rfl⟩
  obtain ⟨progress, hprogress, hlisted⟩ := hload
  obtain ⟨done, rest, es, htrace, hout, hend⟩ := fold_spec py henv hdry
    nodup_selectSources (progress, []) (by
      intro hresume source _
      rw [hlisted, hresume]
      exact not_mem_nil) [] s
  rw [exec_run hprogress, bind_eq, Coro.exec_bind]
  generalize exec env (fold (processSource py config db) (progress, [])
    (selectSources config db)) [] s = o at htrace hout hend ⊢
  obtain ⟨t, r, s'⟩ := o
  obtain rfl : t = es := htrace
  rw [← hlisted]
  cases r with
  | error e => exact ⟨done, rest, hout, fun _ h => by cases h⟩
  | ok l' => exact ⟨done, rest, hout, fun _ _ => hend l' rfl⟩

end

/-! ### Runs one after the other -/

/-- The runs of a process that is started again and again, each from the file of the one before. -/
def runs (py : Py) (db : Database) : State → List (MigrationConfig × Env iface) →
    List (MigrationConfig × Omniscience.Outcome iface (List SourceReport))
  | _, [] => []
  | s, (config, env) :: rest =>
    let o := exec env (run py config db) [] s
    (config, o) :: runs py db o.state rest

/-- The runs share the sources out among them: each migrates its part, in order, and begins at most
one source beyond it, and no source is left if the last run returns. -/
def Shared (config : MigrationConfig) (db : Database) (sources : List Source)
    (outcomes : List (MigrationConfig × Omniscience.Outcome iface (List SourceReport))) : Prop :=
  ∃ parts rest, sources = parts.flatten ++ rest ∧
    Forall₂ (fun part x => ∃ own tail, x.2.trace = own ++ tail ∧
      Each (Migrated config db) part own ∧
      (tail = [] ∨ ∃ source ∈ selectSources config db, Begun config db source tail))
      parts outcomes ∧
    ∀ x, outcomes.getLast? = some x → ∀ reports, x.2.result = .ok reports → rest = []

/-- The progress file after these runs. -/
def fileAfter (py : Py) (db : Database) (s : State)
    (attempts : List (MigrationConfig × Env iface)) : Option Json :=
  ((runs py db s attempts).getLast?.map fun x => x.2.state.file).getD s.file

section

variable {py : Py} {config : MigrationConfig} {db : Database} {env : Env iface}

theorem fileAfter_cons (s : State) (attempts : List (MigrationConfig × Env iface)) :
    fileAfter py db s ((config, env) :: attempts) =
      fileAfter py db (exec env (run py config db) [] s).state attempts := by
  rw [fileAfter, fileAfter, runs]
  cases runs py db (exec env (run py config db) [] s).state attempts with
  | nil => rfl
  | cons x l => rw [getLast?_cons_cons]; cases h : (x :: l).getLast? <;> simp_all

theorem exists_each {R : Source → List (Event iface) → Prop} {sources : List Source}
    {es : List (Event iface)} (h : Each R sources es) {source : Source} (hmem : source ∈ sources) :
    ∃ own, own <:+: es ∧ R source own := by
  induction sources generalizing es with
  | nil => cases hmem
  | cons first sources ih =>
    obtain ⟨own, rest, rfl, hown, hrest⟩ := h
    rcases mem_cons.1 hmem with rfl | hmem
    · exact ⟨own, (prefix_append own rest).isInfix, hown⟩
    · obtain ⟨own', hinfix, hR⟩ := ih hrest hmem
      exact ⟨own', hinfix.trans (suffix_append own rest).isInfix, hR⟩

/-- What a run does to the file, dry or not. -/
theorem saved_run (hpy : ReadsTimes py) (henv : Leaves env) {s : State} {P : Uuid → Prop}
    (hs : s.file = none ∨ ∃ listed, Lists py s.file listed ∧ ∀ id ∈ listed, P id)
    (hP : ∀ source ∈ db.sources, ∀ es, es <:+: (exec env (run py config db) [] s).trace →
      Migrated config db source es → P source.id) :
    (exec env (run py config db) [] s).state.file = none ∨
      ∃ listed, Lists py (exec env (run py config db) [] s).state.file listed ∧
        ∀ id ∈ listed, P id := by
  cases hdry : config.dryRun with
  | true =>
    rw [(exec_run_dry hdry [] s).2]
    exact hs
  | false =>
    obtain ⟨listed, hfile, hlisted⟩ : ∃ listed,
        (s.file = none ∧ listed = [] ∨ Lists py s.file listed) ∧ ∀ id ∈ listed, P id := by
      rcases hs with hnone | ⟨listed, hlists, hall⟩
      · exact ⟨[], .inl ⟨hnone, rfl⟩, fun _ h => absurd h not_mem_nil⟩
      · exact ⟨listed, .inr hlists, hall⟩
    obtain ⟨done, rest, hout, -⟩ := run_spec config db hpy henv hdry hfile
    rcases hout.saved with ⟨-, hsame⟩ | hlists
    · rw [hsame]
      exact hs
    · refine .inr ⟨_, hlists, fun id hid => ?_⟩
      rcases mem_append.1 hid with hid | hid
      · split at hid
        · exact hlisted id hid
        · cases hid
      · obtain ⟨source, hsource, rfl⟩ := mem_map.1 hid
        obtain ⟨own, tail, htrace, hown, -⟩ := hout.events
        obtain ⟨es, hinfix, hmigrated⟩ := exists_each hown hsource
        have hmem : source ∈ (selectSources config db).filter _ :=
          hout.split ▸ mem_append_left _ hsource
        refine hP source (mem_filter.1 (mem_filter.1 hmem).1).1 es ?_ hmigrated
        rw [htrace]
        exact hinfix.trans (prefix_append own tail).isInfix

theorem saved_runs (hpy : ReadsTimes py) {attempts : List (MigrationConfig × Env iface)}
    (henvs : ∀ x ∈ attempts, Leaves x.2) {s : State} {P : Uuid → Prop}
    (hs : s.file = none ∨ ∃ listed, Lists py s.file listed ∧ ∀ id ∈ listed, P id)
    (hP : ∀ x ∈ runs py db s attempts, ∀ source ∈ db.sources, ∀ es, es <:+: x.2.trace →
      Migrated x.1 db source es → P source.id) :
    fileAfter py db s attempts = none ∨
      ∃ listed, Lists py (fileAfter py db s attempts) listed ∧ ∀ id ∈ listed, P id := by
  induction attempts generalizing s with
  | nil => exact hs
  | cons x attempts ih =>
    obtain ⟨config, env⟩ := x
    rw [fileAfter_cons]
    refine ih (fun x hx => henvs x (mem_cons_of_mem _ hx))
      (saved_run hpy (henvs _ mem_cons_self) hs (hP _ mem_cons_self))
      fun x hx => hP x (mem_cons_of_mem _ hx)

/-- **The file is sound.** -/
theorem checkpoint_sound (hpy : ReadsTimes py) (attempts : List (MigrationConfig × Env iface))
    (henvs : ∀ x ∈ attempts, Leaves x.2) (s : State) (hs : s.file = none) :
    fileAfter py db s attempts = none ∨ ∃ listed, Lists py (fileAfter py db s attempts) listed ∧
      ∀ id ∈ listed, ∃ x ∈ runs py db s attempts, ∃ source ∈ db.sources, source.id = id ∧
        ∃ es, es <:+: x.2.trace ∧ Migrated x.1 db source es :=
  saved_runs hpy henvs (.inl hs) fun x hx source hsource es hes hmigrated =>
    ⟨x, hx, source, hsource, rfl, es, hes, hmigrated⟩

/-- A database with one source, which has a document of two chunks. -/
def Database.sample : Database where
  sources := [⟨0, "a", some 0⟩]
  entities := []
  edges := []
  documents :=
    let chunk (ord : ℕ) (text : String) : Chunk :=
      ⟨ord, text, none, none, none, none, none, none, none⟩
    [⟨0, "d", "d", none, "h", none, false, [chunk 0 "x", chunk 1 "y"]⟩]
  nodup := by simp

/-- A run of it that resumes, one chunk at a time. -/
def MigrationConfig.sample : MigrationConfig where
  batchSize := 1
  resume := true
  progressFile := "progress.json"
  batchSize_pos := le_rfl

/-- Every call fails. -/
def crash : Env iface := fun _ _ s => (.error (.raised ⟨.external, ""⟩), s)

/-- Every call returns. -/
def calm : Env iface := fun _ _ s => (.ok (), s)

/-- A run that crashes and one that does not. -/
theorem checkpoint_sound_twice :
    let attempts := [crash, calm].map fun env => (MigrationConfig.sample, env)
    let file := fileAfter epochPy .sample ⟨0, none⟩ attempts
    file = none ∨ ∃ listed, Lists epochPy file listed ∧
      ∀ id ∈ listed, ∃ x ∈ runs epochPy .sample ⟨0, none⟩ attempts,
        ∃ source ∈ Database.sample.sources, source.id = id ∧
          ∃ es, es <:+: x.2.trace ∧ Migrated x.1 .sample source es := by
  intro attempts file
  have henvs : ∀ x ∈ attempts, Leaves x.2 :=
    forall_mem_cons.2 ⟨fun _ _ _ => rfl, forall_mem_singleton.2 fun _ _ _ => rfl⟩
  exact checkpoint_sound readsTimes_epochPy attempts henvs ⟨0, none⟩ rfl

/-- What is pending after some of the pending sources have been listed. -/
theorem pending_listed (hresume : config.resume = true) {listed : List Uuid}
    {sources done rest : List Source} (hnodup : (sources.map Source.id).Nodup)
    (h : sources.filter (isPending config listed) = done ++ rest) :
    sources.filter (isPending config (listed ++ done.map Source.id)) = rest := by
  have hboth : (done ++ rest).filter (fun source => source.id ∉ done.map Source.id) = rest := by
    have hids : ((done ++ rest).map Source.id).Nodup := h ▸ hnodup.sublist (filter_sublist.map _)
    rw [map_append] at hids
    have hdisjoint := (nodup_append'.1 hids).2.2
    rw [filter_append, filter_eq_nil_iff.2, filter_eq_self.2, nil_append]
    · exact fun source hsource => decide_eq_true fun hmem =>
        hdisjoint hmem (mem_map_of_mem hsource)
    · exact fun source hsource hnot => of_decide_eq_true hnot (mem_map_of_mem hsource)
  rw [← hboth, ← h, filter_filter]
  refine filter_congr fun source _ => ?_
  simp only [isPending, hresume, Bool.true_and, mem_append, Bool.decide_or, Bool.not_or, decide_not]
  exact Bool.and_comm _ _

theorem resumed_parts (hpy : ReadsTimes py) (hresume : config.resume = true)
    (hdry : config.dryRun = false) {envs : List (Env iface)} (henvs : ∀ env ∈ envs, Leaves env)
    {s : State} {listed : List Uuid} (hs : s.file = none ∧ listed = [] ∨ Lists py s.file listed) :
    Shared config db ((selectSources config db).filter (isPending config listed))
      (runs py db s (envs.map fun env => (config, env))) := by
  induction envs generalizing s listed with
  | nil => exact ⟨[], _, rfl, .nil, fun _ h => by cases h⟩
  | cons env envs ih =>
    obtain ⟨done, rest, hout, hend⟩ := run_spec config db hpy
      (henvs env mem_cons_self) hdry hs
    simp only [hresume, if_true] at hout
    let s' := (exec env (run py config db) [] s).state
    have hfile : s'.file = none ∧ listed ++ done.map Source.id = [] ∨
        Lists py s'.file (listed ++ done.map Source.id) := by
      rcases hout.saved with ⟨rfl, hsame⟩ | hlists
      · rw [hsame, map_nil, append_nil]
        exact hs
      · exact .inr hlists
    obtain ⟨parts, rest', hsplit, hparts, hlast⟩ :=
      ih (fun env h => henvs env (mem_cons_of_mem _ h)) hfile
    rw [pending_listed hresume nodup_selectSources hout.split] at hsplit
    obtain ⟨own, tail, htrace, hown, htail⟩ := hout.events
    refine ⟨done :: parts, rest', ?_, .cons ⟨own, tail, htrace, hown, ?_⟩ hparts, ?_⟩
    · rw [hout.split, hsplit, flatten_cons, append_assoc]
    · rcases htail with hnil | ⟨next, hnext, hbegun⟩
      · exact .inl hnil
      refine .inr ⟨next, ?_, hbegun⟩
      have hmem : next ∈ (selectSources config db).filter _ :=
        hout.split ▸ mem_append_right _ (mem_of_mem_head? hnext)
      exact (mem_filter.1 hmem).1
    · intro x hx reports hreports
      rw [map_cons, runs] at hx
      cases hruns : runs py db s' (envs.map fun env => (config, env)) with
      | nil =>
        rw [hruns, getLast?_singleton] at hx
        cases hx
        rw [hend reports hreports] at hsplit
        exact (append_eq_nil_iff.1 hsplit.symm).2
      | cons y l =>
        refine hlast x ?_ reports hreports
        rw [hruns] at hx ⊢
        rwa [getLast?_cons_cons] at hx

/-- **Runs that resume one another**, each of which may crash anywhere, share the sources out. -/
theorem resumed_runs (hpy : ReadsTimes py) (hresume : config.resume = true)
    (hdry : config.dryRun = false) (envs : List (Env iface)) (henvs : ∀ env ∈ envs, Leaves env)
    (s : State) (hs : s.file = none) :
    Shared config db (selectSources config db)
      (runs py db s (envs.map fun env => (config, env))) := by
  have hall : (selectSources config db).filter (isPending config []) = selectSources config db :=
    filter_eq_self.2 fun source _ => by simp [isPending]
  have hparts : Shared config db ((selectSources config db).filter (isPending config []))
      (runs py db s (envs.map fun env => (config, env))) :=
    resumed_parts hpy hresume hdry henvs (.inl ⟨hs, rfl⟩)
  rwa [hall] at hparts

/-- A run that crashes and one that does not. -/
theorem resumed_runs_twice :
    Shared .sample .sample (selectSources .sample .sample)
      (runs epochPy .sample ⟨0, none⟩ ([crash, calm].map fun env => (.sample, env))) := by
  have henvs : ∀ env ∈ [crash, calm], Leaves env :=
    forall_mem_cons.2 ⟨fun _ _ _ => rfl, forall_mem_singleton.2 fun _ _ _ => rfl⟩
  exact resumed_runs readsTimes_epochPy rfl rfl [crash, calm] henvs ⟨0, none⟩ rfl

end

end Omniscience.Migration
