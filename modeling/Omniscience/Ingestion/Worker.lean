import Omniscience.Ingestion.Dedup

/-!
# The ingestion worker

`IngestionWorker.process_document` (`ingestion/worker.py`) takes one event from the stream to the
stores.  An event for one document passes the dedup gate first.  A sync marker does not: the comment
there says that the references it is fanned out into pass the gate one by one, but `run_ref` of the
pipeline (`ingestion/pipeline.py`) does not ask it.

The collaborators of the worker (`Services`) stand for the database rows, the connectors, the
embedding provider and the stores.  `written` lists the documents that the pipeline hands to the
index writer.

* `covered_iff` : the events for which no agentic document under live operator authority is
  written.
-/

namespace Omniscience.Ingestion

open Dedup

/-- `DocumentRef`. -/
structure DocumentRef where
  externalId : String
  uri : String
  metadata : Metadata := []

/-- `FetchedDocument`. -/
structure FetchedDocument where
  ref : DocumentRef
  contentBytes : Bytes

/-- Resolved secrets. -/
abbrev Secrets := List (String × String)

/-- A connector.  `configSchema` validates a configuration; `discover` is drained before its
references are used. -/
structure Connector where
  configSchema : Json → Option Json
  discover : Json → Secrets → Except Exc (List DocumentRef)
  fetch : Json → Secrets → DocumentRef → Except Exc FetchedDocument

/-- A row of `sources`. -/
structure Source where
  tenantId : Option Uuid
  config : Json
  secretsRef : Option String

/-- `source.config or {}`. -/
def Source.configOrEmpty (source : Source) : Json :=
  if source.config.truthy then source.config else .obj []

/-- `ProcessResult.action`. -/
inductive ResultAction where
  | created
  | updated
  | unchanged
  | deleted
  | error
  | dedupDropped
  deriving DecidableEq, Repr

/-- `ProcessResult`. -/
structure ProcessResult where
  sourceId : Uuid
  externalId : String
  action : ResultAction
  error : Option String := none

/-- `UpsertResult`. -/
structure UpsertResult where
  action : ResultAction
  documentId : Uuid
  docVersion : ℕ

/-- The arguments of `upsert_document`; the chunks are the texts with their vectors. -/
structure DocumentWrite (V : Type) where
  sourceId : Uuid
  externalId : String
  uri : String
  contentHash : String
  metadata : Metadata
  chunks : List (String × V)
  workspaceId : Uuid

/-- What the worker is given. -/
structure Services (V : Type) where
  py : Py
  /-- `_fetch_source`. -/
  fetchSource : Uuid → Option Source
  /-- `connector_registry.get`. -/
  registry : String → Except Exc Connector
  /-- `secrets_resolver.resolve`. -/
  resolveSecrets : Option String → Except Exc Secrets
  /-- `embedding_provider.embed`. -/
  embed : List String → Except Exc (List V)
  /-- `_compute_content_hash`. -/
  contentHash : String → String
  /-- `index_writer.upsert_document`. -/
  upsertDocument : DocumentWrite V → Except Exc UpsertResult
  /-- `_stage_graph`: a failure of the extractor is swallowed, one of the store is not. -/
  stageGraph : DocumentChangeEvent → DocumentRef → Bytes → UpsertResult → Uuid → Except Exc Unit
  /-- `index_writer.tombstone`. -/
  tombstone : Uuid → String → Uuid → Except Exc Bool
  /-- `route_operator_event_to_graph`, if there is a graph store. -/
  routeOperatorGraph : Option (DocumentChangeEvent → Uuid → Except Exc Unit)

/-- What has become of a reference or an event: the documents handed to the index writer and the
result. -/
structure Handled (α : Type) where
  written : List (Uuid × String)
  result : α

variable {V : Type} (svc : Services V)

/-! ### The pipeline -/

/-- `_build_chunks`. -/
def buildChunks (chunksText : List String) (embeddings : List V) :
    Except Exc (List (String × V)) :=
  if chunksText.length ≠ embeddings.length then
    .error ⟨.valueError, s!"chunk_embedding_mismatch: {chunksText.length} chunks vs " ++
      s!"{embeddings.length} embeddings"⟩
  else .ok (chunksText.zip embeddings)

/-- `_handle_delete`. -/
def handleDelete (event : DocumentChangeEvent) (workspaceId : Uuid) : Except Exc ProcessResult := do
  let found ← svc.tombstone event.sourceId event.externalId workspaceId
  .ok ⟨event.sourceId, event.externalId, if found then .deleted else .unchanged, none⟩

/-- The stages up to the chunks: fetch, decode, one chunk, embed. -/
def prepare (connector : Connector) (ref : DocumentRef) (config : Json) (secrets : Secrets) :
    Except Exc (FetchedDocument × String × List (String × V)) := do
  let fetched ← connector.fetch config secrets ref
  let contentText := svc.py.decodeReplace fetched.contentBytes
  let embeddings ← svc.embed [contentText]
  let chunks ← buildChunks [contentText] embeddings
  .ok (fetched, contentText, chunks)

/-- `_execute_ref`.  The linker never raises, so it leaves no trace here. -/
def executeRef (connector : Connector) (event : DocumentChangeEvent) (ref : DocumentRef)
    (config : Json) (secrets : Secrets) (workspaceId : Uuid) :
    Handled (Except Exc ProcessResult) :=
  if event.action = .deleted then ⟨[], handleDelete svc event workspaceId⟩
  else
    match prepare svc connector ref config secrets with
    | .error e => ⟨[], .error e⟩
    | .ok (fetched, contentText, chunks) =>
      { written := [(workspaceId, ref.externalId)]
        result := do
          let upserted ← svc.upsertDocument
            { sourceId := event.sourceId
              externalId := ref.externalId
              uri := ref.uri
              contentHash := svc.contentHash contentText
              metadata := fetched.ref.metadata
              chunks
              workspaceId }
          let _ ← svc.stageGraph event ref fetched.contentBytes upserted workspaceId
          .ok ⟨event.sourceId, ref.externalId, upserted.action, none⟩ }

/-- `run_ref`: an exception becomes an error result. -/
def runRef (connector : Connector) (event : DocumentChangeEvent) (ref : DocumentRef)
    (config : Json) (secrets : Secrets) (workspaceId : Uuid) : Handled ProcessResult :=
  let handled := executeRef svc connector event ref config secrets workspaceId
  match handled.result with
  | .ok result => ⟨handled.written, result⟩
  | .error e =>
    ⟨handled.written, ⟨event.sourceId, ref.externalId, .error, some e.text⟩⟩

/-! ### The worker -/

/-- `_is_sync_marker`. -/
def isSyncMarker (event : DocumentChangeEvent) : Bool :=
  event.externalId == "*" || event.uri.startsWith "sync://"

/-- `_maybe_route_operator_graph`. -/
def maybeRouteOperatorGraph (event : DocumentChangeEvent) (result : ProcessResult)
    (workspaceId : Uuid) : ProcessResult :=
  match svc.routeOperatorGraph with
  | none => result
  | some route =>
    if event.sourceType ≠ emitterOperator then result
    else if result.action ≠ .created ∧ result.action ≠ .updated then result
    else if (event.metadata.getD []).isEmpty then result
    else
      match route event workspaceId with
      | .ok _ => result
      | .error e => { result with action := .error, error := some e.text }

/-- `_process_sync_event`.  A connector without discovery falls back to the reference of the
event. -/
def processSyncEvent (connector : Connector) (event : DocumentChangeEvent) (config : Json)
    (secrets : Secrets) (workspaceId : Uuid) : Handled (Except Exc ProcessResult) :=
  match connector.discover config secrets with
  | .error e =>
    if e.kind = .notImplementedError then
      let handled := runRef svc connector event ⟨event.externalId, event.uri, []⟩ config secrets
        workspaceId
      ⟨handled.written, .ok handled.result⟩
    else ⟨[], .error e⟩
  | .ok refs =>
    let results := refs.map fun ref => runRef svc connector event ref config secrets workspaceId
    let errorCount := results.countP fun r => r.result.action = .error
    let action := if errorCount = results.length ∧ results ≠ [] then .error else .updated
    ⟨results.flatMap Handled.written, .ok ⟨event.sourceId, event.externalId, action, none⟩⟩

/-- `process_document` after the gate. -/
def dispatch (event : DocumentChangeEvent) (source : Source) (workspaceId : Uuid) :
    Handled (Except Exc ProcessResult) :=
  match svc.registry event.sourceType with
  | .error e => ⟨[], .error e⟩
  | .ok connector =>
    match connector.configSchema source.configOrEmpty with
    | none => ⟨[], .ok ⟨event.sourceId, event.externalId, .error, some "source_config_invalid"⟩⟩
    | some config =>
      match svc.resolveSecrets source.secretsRef with
      | .error e => ⟨[], .error e⟩
      | .ok secrets =>
        if isSyncMarker event then processSyncEvent svc connector event config secrets workspaceId
        else
          let handled := runRef svc connector event ⟨event.externalId, event.uri, []⟩ config secrets
            workspaceId
          ⟨handled.written, .ok (maybeRouteOperatorGraph svc event handled.result workspaceId)⟩

/-- `process_document`: the documents handed to the index writer, the result, and the table of the
gate. -/
def processDocument (cfg : DedupConfig) (table : EntityEmitter) (now : DateTime)
    (event : DocumentChangeEvent) : Handled (Except Exc ProcessResult) × EntityEmitter :=
  match svc.fetchSource event.sourceId with
  | none => (⟨[], .ok unresolved⟩, table)
  | some source =>
    match source.tenantId with
    | none => (⟨[], .ok unresolved⟩, table)
    | some workspaceId =>
      if event.action ≠ .deleted ∧ isSyncMarker event = false then
        match evaluate cfg table ⟨workspaceId, event, now⟩ with
        | .error e => (⟨[], .error e⟩, table)
        | .ok (decision, table') =>
          if decision.action = .drop then
            (⟨[], .ok ⟨event.sourceId, event.externalId, .dedupDropped, none⟩⟩, table')
          else (dispatch svc event source workspaceId, table')
      else (dispatch svc event source workspaceId, table)
where
  unresolved : ProcessResult :=
    ⟨event.sourceId, event.externalId, .error,
      some "workspace_resolution_failed: tenant_id is null or source not found"⟩

/-! ### What is written -/

section Written

variable {svc} {connector : Connector} {event : DocumentChangeEvent} {ref : DocumentRef}
  {config : Json} {secrets : Secrets} {workspaceId w : Uuid} {doc : Uuid × String}

/-- The reference can be fetched, and its text gets the one vector it needs. -/
def Fetchable (svc : Services V) (connector : Connector) (config : Json) (secrets : Secrets)
    (ref : DocumentRef) : Prop :=
  ∃ fetched v, connector.fetch config secrets ref = .ok fetched ∧
    svc.embed [svc.py.decodeReplace fetched.contentBytes] = .ok [v]

/-- The references that a sync marker stands for. -/
def Listed (connector : Connector) (config : Json) (secrets : Secrets) (event : DocumentChangeEvent)
    (ref : DocumentRef) : Prop :=
  match connector.discover config secrets with
  | .ok refs => ref ∈ refs
  | .error e => e.kind = .notImplementedError ∧ ref = ⟨event.externalId, event.uri, []⟩

theorem prepare_ok_iff : (∃ prepared, prepare svc connector ref config secrets = .ok prepared) ↔
      Fetchable svc connector config secrets ref := by
  simp only [prepare, Fetchable]
  cases hfetch : connector.fetch config secrets ref with
  | error e => simp
  | ok fetched =>
    simp only [ok_bind, Except.ok.injEq]
    cases hembed : svc.embed [svc.py.decodeReplace fetched.contentBytes] with
    | error e => simp [hembed]
    | ok embeddings =>
      match embeddings with
      | [] => simp [buildChunks, hembed]
      | [v] => simp [buildChunks, hembed]
      | v :: w :: rest => simp [buildChunks, hembed]

theorem mem_written_runRef : doc ∈ (runRef svc connector event ref config secrets w).written ↔
      event.action ≠ .deleted ∧ Fetchable svc connector config secrets ref ∧
        doc = (w, ref.externalId) := by
  have hrun : (runRef svc connector event ref config secrets w).written =
      (executeRef svc connector event ref config secrets w).written := by
    simp only [runRef]
    split <;> rfl
  rw [hrun, executeRef, ← prepare_ok_iff]
  split_ifs with hdeleted
  · simp [hdeleted]
  · cases prepare svc connector ref config secrets with
    | error e => simp
    | ok prepared => simp [hdeleted]

theorem mem_written_processSyncEvent :
    doc ∈ (processSyncEvent svc connector event config secrets w).written ↔
      event.action ≠ .deleted ∧ ∃ ref, Listed connector config secrets event ref ∧
        Fetchable svc connector config secrets ref ∧ doc = (w, ref.externalId) := by
  simp only [processSyncEvent, Listed]
  cases hdiscover : connector.discover config secrets with
  | ok refs =>
    simp only [List.mem_flatMap, List.mem_map, exists_exists_and_eq_and, mem_written_runRef]
    tauto
  | error e =>
    simp only
    split_ifs with hkind
    · simp [mem_written_runRef, hkind]
    · simp [hkind]

/-- The worker finds the source of the event in the workspace, its connector, a valid
configuration and the secrets. -/
def Resolves (svc : Services V) (event : DocumentChangeEvent) (workspaceId : Uuid)
    (connector : Connector) (config : Json) (secrets : Secrets) : Prop :=
  ∃ source, svc.fetchSource event.sourceId = some source ∧ source.tenantId = some workspaceId ∧
    svc.registry event.sourceType = .ok connector ∧
    connector.configSchema source.configOrEmpty = some config ∧
    svc.resolveSecrets source.secretsRef = .ok secrets

theorem mem_written_dispatch {source : Source} : doc ∈ (dispatch svc event source w).written ↔
      event.action ≠ .deleted ∧ ∃ connector config secrets ref,
        (svc.registry event.sourceType = .ok connector ∧
          connector.configSchema source.configOrEmpty = some config ∧
          svc.resolveSecrets source.secretsRef = .ok secrets) ∧
        (if isSyncMarker event then Listed connector config secrets event ref
          else ref = ⟨event.externalId, event.uri, []⟩) ∧
        Fetchable svc connector config secrets ref ∧ doc = (w, ref.externalId) := by
  simp only [dispatch]
  cases hregistry : svc.registry event.sourceType with
  | error e => simp
  | ok connector =>
    simp only [Except.ok.injEq]
    cases hconfig : connector.configSchema source.configOrEmpty with
    | none => simp [hconfig]
    | some config =>
      cases hsecrets : svc.resolveSecrets source.secretsRef with
      | error e => simp
      | ok secrets =>
        simp only
        split_ifs with hsync
        · simp [mem_written_processSyncEvent, hconfig]
        · simp [mem_written_runRef, hconfig]

/-! ### Coverage of the gate -/

variable {cfg : DedupConfig} {table : EntityEmitter} {now : DateTime}

/-- The gate is on, and the operator has the authority for the pair and has emitted within the time
to live. -/
def Live (cfg : DedupConfig) (table : EntityEmitter) (now : DateTime) (doc : Uuid × String) :
    Prop :=
  cfg.enabled = true ∧ ∃ row, table.get? doc = some row ∧
    row.authorityEmitter = emitterOperator ∧ ∀ seconds, cfg.ttlSeconds = some seconds →
      (now.val : ℤ) - roundHalfEven (seconds * 1000000) ≤ row.lastEmitAt.val

theorem not_accepts_of_live {call : Call} (h : Live cfg table call.now call.key)
    (hag : call.event.sourceType = emitterAgentic) : ¬ Accepts cfg table call := by
  obtain ⟨henabled, row, hrow, hauth, hlive⟩ := h
  intro haccepts
  have hknown : ∀ r, table.get? call.key = some r → isK8sEmitter r.authorityEmitter = true := by
    intro r hr
    obtain rfl := Option.some.inj (hrow.symm.trans hr)
    exact isK8sEmitter_iff.2 (.inl hauth)
  obtain ⟨moment, hlimit, hlt⟩ := haccepts.expired henabled hag hknown hrow hauth
  obtain ⟨-, hnone⟩ | ⟨seconds, moment', hseconds, hsome, hmoment⟩ := cutoff_cases hlimit
  · cases hnone
  · cases hsome
    have := hlive seconds hseconds
    have : row.lastEmitAt.val < moment.val := hlt
    omega

/-- The pipeline writes no document of an agentic event that is under live operator authority. -/
def Covered (svc : Services V) (cfg : DedupConfig) (table : EntityEmitter) (now : DateTime)
    (event : DocumentChangeEvent) : Prop :=
  event.sourceType = emitterAgentic →
    ∀ doc ∈ (processDocument svc cfg table now event).1.written, ¬ Live cfg table now doc

/-- An agentic sync marker, other than a deletion, that stands for a reference which can be fetched
and whose document is under live operator authority. -/
def Overreaches (svc : Services V) (cfg : DedupConfig) (table : EntityEmitter) (now : DateTime)
    (event : DocumentChangeEvent) : Prop :=
  event.sourceType = emitterAgentic ∧ event.action ≠ .deleted ∧ isSyncMarker event = true ∧
    ∃ workspaceId connector config secrets ref,
      Resolves svc event workspaceId connector config secrets ∧
      Listed connector config secrets event ref ∧ Fetchable svc connector config secrets ref ∧
      Live cfg table now (workspaceId, ref.externalId)

theorem mem_written_processDocument_sync (cfg : DedupConfig) (table : EntityEmitter)
    (now : DateTime) (hsync : isSyncMarker event = true) :
    doc ∈ (processDocument svc cfg table now event).1.written ↔
      event.action ≠ .deleted ∧ ∃ w connector config secrets ref,
        Resolves svc event w connector config secrets ∧
        Listed connector config secrets event ref ∧ Fetchable svc connector config secrets ref ∧
        doc = (w, ref.externalId) := by
  simp only [processDocument, Resolves]
  cases hsource : svc.fetchSource event.sourceId with
  | none => simp
  | some source =>
    cases htenant : source.tenantId with
    | none => simp [htenant]
    | some w =>
      simp only [htenant, hsync, Bool.true_eq_false, and_false, ↓reduceIte]
      rw [mem_written_dispatch]
      simp [htenant, hsync]

theorem accepts_of_mem_written (hsync : isSyncMarker event = false)
    (hmem : doc ∈ (processDocument svc cfg table now event).1.written) :
    ∃ w, doc = (w, event.externalId) ∧
      Accepts cfg table ⟨w, event, now⟩ := by
  simp only [processDocument] at hmem
  cases hsource : svc.fetchSource event.sourceId with
  | none => simp [hsource] at hmem
  | some source =>
    cases htenant : source.tenantId with
    | none => simp [hsource, htenant] at hmem
    | some w =>
      simp only [hsource, htenant, hsync, and_true] at hmem
      split_ifs at hmem with hdeleted
      · cases heval : evaluate cfg table ⟨w, event, now⟩ with
        | error e => simp [heval] at hmem
        | ok decided =>
          obtain ⟨d, table'⟩ := decided
          simp only [heval] at hmem
          split_ifs at hmem with hdrop
          · simp at hmem
          · obtain ⟨-, _, _, _, ref, -, href, -, rfl⟩ := mem_written_dispatch.1 hmem
            rw [hsync] at href
            obtain rfl : ref = ⟨event.externalId, event.uri, []⟩ := href
            refine ⟨w, rfl, d, table', heval, ?_⟩
            cases haction : d.action with
            | accept => rfl
            | drop => exact absurd haction hdrop
      · exact absurd (mem_written_dispatch.1 hmem).1 hdeleted

/-- The gate covers an event exactly when the event is not a sync marker that overreaches. -/
theorem covered_iff : Covered svc cfg table now event ↔ ¬ Overreaches svc cfg table now event := by
  constructor
  · rintro h ⟨hag, hdeleted, hsync, workspaceId, connector, config, secrets, ref, hresolves,
      hlisted, hfetch, hlive⟩
    have hmem := (mem_written_processDocument_sync cfg table now hsync).2
      ⟨hdeleted, workspaceId, connector, config, secrets, ref, hresolves, hlisted, hfetch, rfl⟩
    exact h hag _ hmem hlive
  · intro h hag doc hmem hlive
    cases hsync : isSyncMarker event with
    | true =>
      obtain ⟨hdeleted, workspaceId, connector, config, secrets, ref, hresolves, hlisted, hfetch,
        rfl⟩ := (mem_written_processDocument_sync cfg table now hsync).1 hmem
      exact h ⟨hag, hdeleted, hsync, workspaceId, connector, config, secrets, ref, hresolves,
        hlisted, hfetch, hlive⟩
    | false =>
      obtain ⟨workspaceId, rfl, haccepts⟩ := accepts_of_mem_written hsync hmem
      exact not_accepts_of_live hlive hag haccepts

/-- Services with one source whose connector lists one pod; everything else succeeds. -/
def podServices : Services Unit where
  py := Py.sample
  fetchSource _ := some ⟨some 7, .null, none⟩
  registry _ := .ok
    { configSchema := fun config => some config
      discover := fun _ _ => .ok [⟨(podEvent emitterAgentic).externalId, "", []⟩]
      fetch := fun _ _ ref => .ok ⟨ref, []⟩ }
  resolveSecrets _ := .ok []
  embed texts := .ok (texts.map fun _ => ())
  contentHash text := text
  upsertDocument _ := .ok ⟨.created, 5, 1⟩
  stageGraph _ _ _ _ _ := .ok ()
  tombstone _ _ _ := .ok true
  routeOperatorGraph := none

/-- The table after an event of the operator for the pod. -/
def operatorTable : EntityEmitter :=
  Dict.empty.set (7, (podEvent emitterOperator).externalId) ⟨emitterOperator, newYear, none⟩

/-- A sync of the agentic source. -/
def agenticSync : DocumentChangeEvent where
  sourceId := 1
  sourceType := emitterAgentic
  externalId := "*"
  uri := "sync://1"
  action := .updated

/-- A sync of the agentic source writes the pod that the operator has just claimed for good. -/
theorem sync_overwrites :
    ¬ Covered podServices ⟨true, none, true⟩ operatorTable newYear agenticSync := by
  intro h
  refine h rfl (7, (podEvent emitterAgentic).externalId) ?_ ?_
  · exact (mem_written_processDocument_sync _ _ _ (by decide)).2 ⟨by decide, 7, _, _, _, _,
      ⟨_, rfl, rfl, rfl, rfl, rfl⟩, .head _, ⟨_, (), rfl, rfl⟩, rfl⟩
  · exact ⟨rfl, _, rfl, rfl, by simp⟩

end Written

end Omniscience.Ingestion
