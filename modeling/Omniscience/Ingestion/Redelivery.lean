import Omniscience.Ingestion.ChangeEvents
import Omniscience.Stores.Ledger

/-!
# Redelivery of operator events

`IngestionWorker.start` (`ingestion/worker.py`) acknowledges a message when `process_document` has
no error and hands it back otherwise, and the broker delivers it again.  A failure of
`route_operator_event_to_graph` becomes an error, so that the route is tried again.  By then the
document of the event is in the ledger with its content hash (`IndexWriter.upsert_document`,
`index/writer.py`): the second attempt finds it unchanged, an unchanged document is not routed, and
the message is acknowledged.

* `contentHash_after` : the content hash that some deliveries leave in the ledger.
* `lands_iff` : when a message is acknowledged, its event is in the graph exactly when the last
  delivery found other content in the ledger.
-/

namespace Omniscience.Ingestion

open Dedup List

/-! ### One delivery -/

/-- An event of the operator about one resource. -/
structure OperatorChange where
  event : DocumentChangeEvent
  sourceType_eq : event.sourceType = emitterOperator
  single : isSyncMarker event = false

/-- The row of `documents` of the event. -/
def OperatorChange.key (e : OperatorChange) : Ledger.Key := (e.event.sourceId, e.event.externalId)

/-- What a delivery meets: the collaborators of the worker other than the writer, the table of the
gate, the ids that the writer draws, and where the write fails. -/
structure Delivery (V : Type) where
  svc : Services V
  cfg : DedupConfig
  table : EntityEmitter
  known : Known table
  now : DateTime
  writeChunkEmbedding : Bool := false
  chunk : ℕ → String × V → Ledger.ChunkData
  documentId : Uuid
  vectorDocumentId : Uuid
  ingestionRunId : Option Uuid := none
  fault : Option Ledger.Fault := none

/-- The arguments with which the worker runs the pipeline. -/
structure PipelineArgs where
  workspaceId : Uuid
  connector : Connector
  config : Json
  secrets : Secrets

/-- `UpsertResult.action` for the worker. -/
def resultAction : Ledger.Action → ResultAction
  | .created => .created
  | .updated => .updated
  | .unchanged => .unchanged

variable {V : Type}

/-- The reference of the event. -/
def OperatorChange.ref (e : OperatorChange) : DocumentRef := ⟨e.event.externalId, e.event.uri, []⟩

/-- The document that the pipeline hands to the index writer. -/
def documentWrite (svc : Services V) (e : OperatorChange) (run : PipelineArgs) :
    Option (DocumentWrite V) :=
  match prepare svc run.connector e.ref run.config run.secrets with
  | .error _ => none
  | .ok (fetched, contentText, chunks) =>
    some
      { sourceId := e.event.sourceId
        externalId := e.event.externalId
        uri := e.event.uri
        contentHash := svc.contentHash contentText
        metadata := fetched.ref.metadata
        chunks
        workspaceId := run.workspaceId }

namespace Delivery

variable (d : Delivery V) (e : OperatorChange) (s : Ledger.Stores)

/-- The call of `upsert_document` for a document. -/
def upsert (w : DocumentWrite V) : Ledger.Upsert where
  args :=
    { sourceId := w.sourceId
      externalId := w.externalId
      uri := w.uri
      title := none
      contentHash := w.contentHash
      metadata := w.metadata
      chunks := w.chunks.mapIdx d.chunk
      ingestionRunId := d.ingestionRunId }
  workspaceId := w.workspaceId
  documentId := d.documentId
  vectorDocumentId := d.vectorDocumentId
  now := d.now

/-- What the transaction makes of the row. -/
def row (w : DocumentWrite V) : Ledger.Document × Ledger.Action :=
  Ledger.writeRow d.writeChunkEmbedding (d.upsert w).args d.documentId d.now
    (s.tables.documents.get? (d.upsert w).args.key)

/-- The answer of `upsert_document`. -/
def writer (w : DocumentWrite V) : Except Exc UpsertResult :=
  if (Ledger.upsertDocument d.writeChunkEmbedding (d.upsert w) d.fault s).2 then
    .ok ⟨resultAction (d.row s w).2, (d.row s w).1.id, (d.row s w).1.docVersion.toNat⟩
  else .error ⟨.external, "upsert_document"⟩

/-- The collaborators with the writer. -/
def services : Services V :=
  { d.svc with
    upsertDocument := d.writer s
    tombstone := fun sourceId externalId workspaceId =>
      (Ledger.tombstone (sourceId, externalId) workspaceId d.now d.fault s).2 }

/-- `process_document` for the event. -/
def process : Except Exc ProcessResult :=
  (processDocument (d.services s) d.cfg d.table d.now e.event).1.result

/-- The gate lets the event pass. -/
def passes (workspaceId : Uuid) : Bool :=
  if e.event.action = .deleted then true
  else
    match evaluate d.cfg d.table ⟨workspaceId, e.event, d.now⟩ with
    | .error _ => false
    | .ok (decision, _) => decision.action = .accept

/-- What the pipeline is run with once the gate is passed. -/
def pipelineArgs (source : Source) (workspaceId : Uuid) : Option PipelineArgs := do
  let connector ← (d.svc.registry e.event.sourceType).toOption
  let config ← connector.configSchema source.configOrEmpty
  let secrets ← (d.svc.resolveSecrets source.secretsRef).toOption
  some ⟨workspaceId, connector, config, secrets⟩

/-- What the pipeline is run with, if the worker gets there. -/
def reach : Option PipelineArgs :=
  match d.svc.fetchSource e.event.sourceId with
  | none => none
  | some source =>
    match source.tenantId with
    | none => none
    | some workspaceId =>
      if d.passes e workspaceId then d.pipelineArgs e source workspaceId else none

/-- The stores after the delivery. -/
def next : Ledger.Stores :=
  match d.reach e with
  | none => s
  | some run =>
    if e.event.action = .deleted then
      (Ledger.tombstone e.key run.workspaceId d.now d.fault s).1
    else
      match documentWrite d.svc e run with
      | none => s
      | some w => (Ledger.upsertDocument d.writeChunkEmbedding (d.upsert w) d.fault s).1

/-- The result of the pipeline. -/
def pipelineResult (run : PipelineArgs) : ProcessResult :=
  (runRef (d.services s) run.connector e.event e.ref run.config run.secrets run.workspaceId).result

/-- The entity and the edges of the event are handed to the graph. -/
def HandsOver : Prop :=
  ∃ run, d.reach e = some run ∧ Routes (d.services s) e.event (d.pipelineResult e s run) ∧
    ∃ route, d.svc.routeOperatorGraph = some route ∧ route e.event run.workspaceId = .ok ()

end Delivery

/-! ### A message -/

/-- What becomes of a delivered message. -/
inductive Settlement where
  | ack
  | nak
  deriving DecidableEq

/-- The body of the loop of `start`. -/
def settle : Except Exc ProcessResult → Settlement
  | .error _ => .nak
  | .ok result => if result.action = .error then .nak else .ack

/-- The stores after some deliveries of a message. -/
def storesAfter (e : OperatorChange) (s₀ : Ledger.Stores) (deliveries : List (Delivery V)) :
    Ledger.Stores :=
  deliveries.foldl (fun s d => d.next e s) s₀

/-- The message is handed back after each of the deliveries and acknowledged after the last one. -/
def FinallyAcked (e : OperatorChange) (s₀ : Ledger.Stores) (deliveries : List (Delivery V))
    (last : Delivery V) : Prop :=
  (∀ pre d, pre ++ [d] <+: deliveries → settle (d.process e (storesAfter e s₀ pre)) = .nak) ∧
    settle (last.process e (storesAfter e s₀ deliveries)) = .ack

/-- One of the deliveries hands the event to the graph. -/
def Lands (e : OperatorChange) (s₀ : Ledger.Stores) (deliveries : List (Delivery V)) : Prop :=
  ∃ pre d, pre ++ [d] <+: deliveries ∧ d.HandsOver e (storesAfter e s₀ pre)

/-- The content hash that a delivery has fetched and embedded for the ledger. -/
def Delivery.contentHash (d : Delivery V) (e : OperatorChange) : Option String := do
  let run ← d.reach e
  let w ← documentWrite d.svc e run
  some w.contentHash

/-- The content hash that a delivery commits to the ledger. -/
def Delivery.committed (d : Delivery V) (e : OperatorChange) : Option String :=
  if e.event.action = .deleted ∨ d.fault = some .ledger then none else d.contentHash e

/-- The content hash of the document before the next delivery: the one that was committed last, or
the one from before the first delivery. -/
def ledgerHash (e : OperatorChange) (s₀ : Ledger.Stores) (deliveries : List (Delivery V)) :
    Option String :=
  ((deliveries.filterMap fun d => d.committed e).getLast?).or
    ((s₀.tables.documents.get? e.key).map Ledger.Document.contentHash)

/-! ### What a delivery does -/

section

variable {d : Delivery V} {e : OperatorChange} {s : Ledger.Stores} {run : PipelineArgs}

theorem accept_of_evaluate {cfg : DedupConfig} {table table' : EntityEmitter} (hknown : Known table)
    {call : Dedup.Call} (hop : call.event.sourceType = emitterOperator) {decision : DedupDecision}
    (h : evaluate cfg table call = .ok (decision, table')) : decision.action = .accept := by
  by_cases henabled : cfg.enabled = true
  · obtain ⟨hag, -⟩ | ⟨hother, -⟩ | ⟨-, -, kind, limit, -, rfl, -⟩ := evaluate_cases henabled h
    · rw [hop] at hag
      exact absurd hag operator_ne_agentic
    · rw [hop] at hother
      cases hother
    · rw [hop]
      exact (plan_operator _ _ _ (hknown call.key)).1
  · have hflag : (!cfg.agenticAllowed && call.event.sourceType == emitterAgentic) = false := by
      simp [hop, operator_ne_agentic]
    simp only [evaluate, hflag, Bool.not_eq_true] at h henabled
    rw [henabled] at h
    cases h
    rfl

theorem dispatch_cases (d : Delivery V) (e : OperatorChange) (s : Ledger.Stores)
    (source : Source) (w : Uuid) :
    (∃ run, d.pipelineArgs e source w = some run ∧
        (dispatch (d.services s) e.event source w).result =
          .ok (maybeRouteOperatorGraph (d.services s) e.event (d.pipelineResult e s run)
            run.workspaceId)) ∨
      (d.pipelineArgs e source w = none ∧
        settle (dispatch (d.services s) e.event source w).result = .nak) := by
  have hregistry' : (d.services s).registry = d.svc.registry := rfl
  have hsecrets' : (d.services s).resolveSecrets = d.svc.resolveSecrets := rfl
  unfold dispatch Delivery.pipelineArgs
  rw [hregistry', hsecrets']
  cases hregistry : d.svc.registry e.event.sourceType with
  | error exc => exact .inr ⟨rfl, rfl⟩
  | ok connector =>
    simp only [Except.toOption, Option.bind_eq_bind, Option.bind_some]
    cases hconfig : connector.configSchema source.configOrEmpty with
    | none => exact .inr ⟨rfl, rfl⟩
    | some config =>
      cases hsecrets : d.svc.resolveSecrets source.secretsRef with
      | error exc => exact .inr ⟨rfl, rfl⟩
      | ok secrets =>
        refine .inl ⟨⟨w, connector, config, secrets⟩, rfl, ?_⟩
        simp only [e.single, Bool.false_eq_true, if_false]
        rfl

theorem process_cases (d : Delivery V) (e : OperatorChange) (s : Ledger.Stores) :
    (∃ run, d.reach e = some run ∧
        d.process e s = .ok (maybeRouteOperatorGraph (d.services s) e.event
          (d.pipelineResult e s run) run.workspaceId)) ∨
      (d.reach e = none ∧ settle (d.process e s) = .nak) := by
  have hsource' : (d.services s).fetchSource = d.svc.fetchSource := rfl
  unfold Delivery.process processDocument Delivery.reach
  rw [hsource']
  cases hsource : d.svc.fetchSource e.event.sourceId with
  | none => exact .inr ⟨rfl, rfl⟩
  | some source =>
    cases htenant : source.tenantId with
    | none =>
      simp only [htenant]
      exact .inr ⟨trivial, rfl⟩
    | some w =>
      simp only [htenant, e.single, and_true]
      have hdispatch := dispatch_cases d e s source w
      by_cases hdeleted : e.event.action = .deleted
      · simpa [Delivery.passes, hdeleted] using hdispatch
      · cases heval : evaluate d.cfg d.table ⟨w, e.event, d.now⟩ with
        | error exc =>
          refine .inr ⟨?_, ?_⟩
          · simp [Delivery.passes, hdeleted, heval]
          · simp [hdeleted, settle]
        | ok decided =>
          obtain ⟨decision, table'⟩ := decided
          have haccept := accept_of_evaluate d.known e.sourceType_eq heval
          simpa [Delivery.passes, hdeleted, heval, haccept] using hdispatch

theorem pipelineResult_of_deleted (hdeleted : e.event.action = .deleted) (d : Delivery V)
    (s : Ledger.Stores) (run : PipelineArgs) : (d.pipelineResult e s run).action ≠ .created ∧
      (d.pipelineResult e s run).action ≠ .updated := by
  unfold Delivery.pipelineResult runRef executeRef
  simp only [if_pos hdeleted]
  cases hdelete : handleDelete (d.services s) e.event run.workspaceId with
  | error exc => exact ⟨by simp, by simp⟩
  | ok result =>
    obtain ⟨found, -, hresult⟩ := bind_eq_ok_iff.1 hdelete
    cases hresult
    cases found <;> exact ⟨by simp, by simp⟩

theorem pipelineResult_of_none (hdeleted : e.event.action ≠ .deleted)
    (h : documentWrite d.svc e run = none) : (d.pipelineResult e s run).action = .error := by
  have hprepare' : prepare (d.services s) run.connector e.ref run.config run.secrets =
      prepare d.svc run.connector e.ref run.config run.secrets := rfl
  cases hprepare : prepare d.svc run.connector e.ref run.config run.secrets with
  | error exc =>
    unfold Delivery.pipelineResult runRef executeRef
    simp only [if_neg hdeleted, hprepare', hprepare]
  | ok prepared =>
    unfold documentWrite at h
    rw [hprepare] at h
    cases h

theorem pipelineResult_of_some (hdeleted : e.event.action ≠ .deleted) {w : DocumentWrite V}
    (h : documentWrite d.svc e run = some w) : (d.pipelineResult e s run).action = .error ∨
      (d.pipelineResult e s run).action = resultAction (d.row s w).2 := by
  have hprepare' : prepare (d.services s) run.connector e.ref run.config run.secrets =
      prepare d.svc run.connector e.ref run.config run.secrets := rfl
  cases hprepare : prepare d.svc run.connector e.ref run.config run.secrets with
  | error exc =>
    unfold documentWrite at h
    rw [hprepare] at h
    cases h
  | ok prepared =>
    obtain ⟨fetched, contentText, chunks⟩ := prepared
    unfold documentWrite at h
    rw [hprepare] at h
    cases h
    unfold Delivery.pipelineResult runRef executeRef
    simp only [if_neg hdeleted, hprepare', hprepare]
    split
    · rename_i result hresult
      obtain ⟨upserted, hupserted, hrest⟩ := bind_eq_ok_iff.1 hresult
      obtain ⟨-, -, hok⟩ := bind_eq_ok_iff.1 hrest
      cases hok
      right
      change d.writer s _ = .ok upserted at hupserted
      unfold Delivery.writer at hupserted
      split_ifs at hupserted
      cases hupserted
      rfl
    · exact .inl rfl

theorem settle_ok {result : ProcessResult} : settle (.ok result) = .ack ↔ result.action ≠ .error := by
  simp only [settle]
  split_ifs with h <;> simp [h]

theorem settle_of_handsOver (h : d.HandsOver e s) : settle (d.process e s) = .ack := by
  obtain ⟨run, hreach, hroutes, route, hroute, hok⟩ := h
  obtain ⟨run', hreach', hprocess⟩ | ⟨hreach', -⟩ := process_cases d e s
  · obtain rfl : run = run' := Option.some.inj (hreach.symm.trans hreach')
    obtain ⟨route', hroute', hmaybe⟩ := maybeRouteOperatorGraph_of_routes hroutes run.workspaceId
    obtain rfl : route = route' := Option.some.inj (hroute.symm.trans hroute')
    rw [hprocess, hmaybe, hok, settle_ok]
    rcases hroutes.2.2.1 with haction | haction <;> simp [haction]
  · rw [hreach] at hreach'
    cases hreach'

theorem resultAction_row_iff (d : Delivery V) (s : Ledger.Stores) (w : DocumentWrite V) :
    (resultAction (d.row s w).2 = .created ∨ resultAction (d.row s w).2 = .updated) ↔
      (s.tables.documents.get? (w.sourceId, w.externalId)).map Ledger.Document.contentHash ≠
        some w.contentHash := by
  unfold Delivery.row
  have hkey : (d.upsert w).args.key = (w.sourceId, w.externalId) := rfl
  have hhash : (d.upsert w).args.contentHash = w.contentHash := rfl
  rw [hkey]
  cases hrow : s.tables.documents.get? (w.sourceId, w.externalId) with
  | none => simp [Ledger.writeRow, resultAction]
  | some doc =>
    simp only [Ledger.writeRow, hhash, Option.map_some, ne_eq, Option.some.injEq]
    split_ifs with hsame
    · simp [resultAction, hsame]
    · simp [resultAction, hsame]

theorem key_of_documentWrite {w : DocumentWrite V} (h : documentWrite d.svc e run = some w) :
    (w.sourceId, w.externalId) = e.key := by
  unfold documentWrite at h
  split at h
  · cases h
  · cases h
    rfl

theorem pipelineResult_of_ack (hack : settle (d.process e s) = .ack)
    (hprocess : d.process e s = .ok (maybeRouteOperatorGraph (d.services s) e.event
      (d.pipelineResult e s run) run.workspaceId)) : (d.pipelineResult e s run).action ≠ .error := by
  intro herror
  have hroutes : ¬ Routes (d.services s) e.event (d.pipelineResult e s run) := by
    rintro ⟨-, -, haction, -⟩
    rw [herror] at haction
    rcases haction with haction | haction <;> cases haction
  rw [hprocess, maybeRouteOperatorGraph_of_not_routes hroutes, settle_ok] at hack
  exact hack herror

/-- **The last delivery** has handed the event over exactly when there is a graph store, the event
is not a deletion and has metadata, and the ledger had other content. -/
theorem handsOver_iff (hack : settle (d.process e s) = .ack) : d.HandsOver e s ↔
      d.svc.routeOperatorGraph.isSome ∧ e.event.action ≠ .deleted ∧
        e.event.metadata.getD [] ≠ [] ∧
        (s.tables.documents.get? e.key).map Ledger.Document.contentHash ≠ d.contentHash e := by
  obtain ⟨run, hreach, hprocess⟩ | ⟨-, hnak⟩ := process_cases d e s
  swap
  · rw [hack] at hnak
    cases hnak
  by_cases hdeleted : e.event.action = .deleted
  · refine iff_of_false ?_ (fun h => h.2.1 hdeleted)
    rintro ⟨run', -, hroutes, -⟩
    obtain ⟨hcreated, hupdated⟩ := pipelineResult_of_deleted hdeleted d s run'
    exact hroutes.2.2.1.elim hcreated hupdated
  have hne := pipelineResult_of_ack hack hprocess
  obtain ⟨w, hw⟩ : ∃ w, documentWrite d.svc e run = some w := by
    cases hw : documentWrite d.svc e run with
    | none => exact absurd (pipelineResult_of_none hdeleted hw) hne
    | some w => exact ⟨w, rfl⟩
  have haction := (pipelineResult_of_some hdeleted hw).resolve_left hne
  have hhash : d.contentHash e = some w.contentHash := by
    simp [Delivery.contentHash, hreach, hw]
  have hroutes : Routes (d.services s) e.event (d.pipelineResult e s run) ↔
      d.svc.routeOperatorGraph.isSome ∧
        (s.tables.documents.get? e.key).map Ledger.Document.contentHash ≠ d.contentHash e ∧
        e.event.metadata.getD [] ≠ [] := by
    rw [Routes, haction, resultAction_row_iff, key_of_documentWrite hw, hhash]
    exact and_congr_right fun _ => and_iff_right e.sourceType_eq
  constructor
  · rintro ⟨run', hreach', hroutes', -⟩
    obtain rfl : run = run' := Option.some.inj (hreach.symm.trans hreach')
    obtain ⟨hstore, hother, hmeta⟩ := hroutes.1 hroutes'
    exact ⟨hstore, hdeleted, hmeta, hother⟩
  · rintro ⟨hstore, -, hmeta, hother⟩
    have hroutes' := hroutes.2 ⟨hstore, hother, hmeta⟩
    obtain ⟨route, hroute, hmaybe⟩ := maybeRouteOperatorGraph_of_routes hroutes' run.workspaceId
    refine ⟨run, hreach, hroutes', route, hroute, ?_⟩
    -- a route that fails is an error, and the message is not acknowledged
    cases hok : route e.event run.workspaceId with
    | ok _ => rfl
    | error exc =>
      rw [hprocess, hmaybe, hok, settle_ok] at hack
      exact absurd rfl hack

/-! ### A run of deliveries -/

theorem contentHash_upsertDocument (wce : Bool) (u : Ledger.Upsert)
    {fault : Option Ledger.Fault} (hfault : fault ≠ some .ledger) (s : Ledger.Stores) :
    ((Ledger.upsertDocument wce u fault s).1.tables.documents.get? u.args.key).map
      Ledger.Document.contentHash = some u.args.contentHash := by
  unfold Ledger.upsertDocument Ledger.rowOf
  simp only [if_neg hfault, Dict.get?_set_self, Option.map_some, Option.some.injEq]
  cases s.tables.documents.get? u.args.key with
  | none => rfl
  | some doc =>
    simp only [Ledger.writeRow]
    split_ifs with hsame
    · exact hsame
    · rfl

theorem contentHash_tombstone (key : Ledger.Key) (w : Uuid) (now : DateTime)
    (fault : Option Ledger.Fault) (s : Ledger.Stores) :
    ((Ledger.tombstone key w now fault s).1.tables.documents.get? key).map
      Ledger.Document.contentHash =
        (s.tables.documents.get? key).map Ledger.Document.contentHash := by
  unfold Ledger.tombstone
  cases hrow : s.tables.documents.get? key with
  | none => simp [hrow]
  | some doc =>
    simp only
    split_ifs
    · simp [hrow]
    · simp [hrow]
    · simp [Dict.get?_set_self]

theorem contentHash_next (d : Delivery V) (e : OperatorChange) (s : Ledger.Stores) :
    ((d.next e s).tables.documents.get? e.key).map Ledger.Document.contentHash =
      (d.committed e).or
        ((s.tables.documents.get? e.key).map Ledger.Document.contentHash) := by
  unfold Delivery.next Delivery.committed Delivery.contentHash
  cases hreach : d.reach e with
  | none => simp
  | some run =>
    by_cases hdeleted : e.event.action = .deleted
    · simp only [hdeleted, if_true, true_or, Option.none_or]
      exact contentHash_tombstone _ _ _ _ _
    · simp only [hdeleted, false_or, if_false]
      cases hw : documentWrite d.svc e run with
      | none => simp [hw]
      | some w =>
        have hkey : (d.upsert w).args.key = e.key := key_of_documentWrite hw
        by_cases hfault : d.fault = some .ledger
        · simp [hfault, Ledger.upsertDocument]
        · have hhash := contentHash_upsertDocument d.writeChunkEmbedding (d.upsert w) hfault s
          rw [hkey] at hhash
          simp only [hw, if_neg hfault, Option.bind_eq_bind, Option.bind_some, Option.some_or]
          exact hhash

theorem storesAfter_concat (e : OperatorChange) (s₀ : Ledger.Stores)
    (deliveries : List (Delivery V)) (d : Delivery V) :
    storesAfter e s₀ (deliveries ++ [d]) = d.next e (storesAfter e s₀ deliveries) := by
  simp only [storesAfter, foldl_append, foldl_cons, foldl_nil]

/-- **The ledger after some deliveries** has the content that was committed last. -/
theorem contentHash_after (e : OperatorChange) (s₀ : Ledger.Stores)
    (deliveries : List (Delivery V)) :
    ((storesAfter e s₀ deliveries).tables.documents.get? e.key).map Ledger.Document.contentHash =
      ledgerHash e s₀ deliveries := by
  induction deliveries using List.reverseRecOn with
  | nil => rfl
  | append_singleton deliveries d ih =>
    rw [storesAfter_concat, contentHash_next, ih]
    unfold ledgerHash
    rw [filterMap_append]
    cases hcommitted : d.committed e with
    | none => simp [hcommitted]
    | some hash => simp [hcommitted]

/-- **A retried route** has handed the event to the graph exactly when there is a graph store at the
last delivery, the event is not a deletion and has metadata, and the content that was committed last
is not that of the last delivery. -/
theorem lands_iff {s₀ : Ledger.Stores} {deliveries : List (Delivery V)} {last : Delivery V}
    (h : FinallyAcked e s₀ deliveries last) :
    Lands e s₀ (deliveries ++ [last]) ↔
      last.svc.routeOperatorGraph.isSome ∧ e.event.action ≠ .deleted ∧
        e.event.metadata.getD [] ≠ [] ∧ ledgerHash e s₀ deliveries ≠ last.contentHash e := by
  obtain ⟨hnak, hack⟩ := h
  rw [← contentHash_after, ← handsOver_iff hack]
  constructor
  · rintro ⟨pre, d, hpre, hands⟩
    rcases prefix_concat_iff.1 hpre with heq | hpre
    · obtain ⟨rfl, hd⟩ := append_inj' heq rfl
      obtain rfl := singleton_inj.1 hd
      exact hands
    · have hsettle := settle_of_handsOver hands
      rw [hnak pre d hpre] at hsettle
      cases hsettle
  · exact fun hands => ⟨deliveries, last, prefix_rfl, hands⟩

end

/-! ### A claim of storage that is routed twice -/

/-- The event of the operator for a claim of storage. -/
def pvcChange : OperatorChange := ⟨pvcEvent, rfl, by simp [isSyncMarker, pvcEvent]⟩

/-- A delivery at which everything but the route succeeds. -/
def routed (route : Except Exc Unit) : Delivery Unit where
  svc := { podServices with routeOperatorGraph := some fun _ _ => route }
  cfg := ⟨false, none, true⟩
  table := .empty
  known := fun _ _ h => by cases h
  now := ⟨0, zero_lt_dateTime⟩
  chunk ord chunk :=
    { id := 3, ord, text := chunk.1, embedding := [], symbol := none, metadata := [],
      embeddingModel := "", embeddingProvider := "", parserVersion := "", chunkerStrategy := "" }
  documentId := 5
  vectorDocumentId := 6

/-- A delivery at which the graph cannot be reached. -/
def unreachable : Delivery Unit := routed (.error ⟨.external, "neo4j"⟩)

theorem settle_samples : settle (unreachable.process pvcChange {}) = .nak ∧
    settle ((routed (.ok ())).process pvcChange (storesAfter pvcChange {} [unreachable])) = .ack ∧
    settle ((routed (.ok ())).process pvcChange {}) = .ack ∧
    ledgerHash pvcChange {} [unreachable] = (routed (.ok ())).contentHash pvcChange ∧
    ledgerHash (V := Unit) pvcChange {} [] ≠ (routed (.ok ())).contentHash pvcChange := by
  decide +kernel

theorem finallyAcked_retry : FinallyAcked pvcChange {} [unreachable] (routed (.ok ())) := by
  refine ⟨fun pre d hpre => ?_, settle_samples.2.1⟩
  have hpre' : pre ++ [d] <+: [] ++ [unreachable] := hpre
  rcases prefix_concat_iff.1 hpre' with heq | hnil
  · obtain ⟨rfl, hd⟩ := append_inj' heq rfl
    obtain rfl := singleton_inj.1 hd
    exact settle_samples.1
  · simp at hnil

/-- The graph cannot be reached at the first delivery of the claim of storage.  At the second one it
can, and the message is acknowledged, but the claim is in the graph after neither. -/
theorem pvcChange_not_lands : FinallyAcked pvcChange {} [unreachable] (routed (.ok ())) ∧
      ¬ Lands pvcChange {} ([unreachable] ++ [routed (.ok ())]) := by
  refine ⟨finallyAcked_retry, ?_⟩
  rintro ⟨pre, d, hpre, hands⟩
  rcases prefix_concat_iff.1 hpre with heq | hpre
  · obtain ⟨rfl, hd⟩ := append_inj' heq rfl
    obtain rfl := singleton_inj.1 hd
    obtain ⟨-, -, -, hother⟩ := (handsOver_iff finallyAcked_retry.2).1 hands
    rw [contentHash_after, settle_samples.2.2.2.1] at hother
    exact hother rfl
  · have hsettle := settle_of_handsOver hands
    rw [finallyAcked_retry.1 pre d hpre] at hsettle
    cases hsettle

/-- If the first delivery is acknowledged, the claim is in the graph. -/
theorem pvcChange_lands : Lands pvcChange {} ([] ++ [routed (.ok ())]) := by
  have hacked : FinallyAcked pvcChange {} [] (routed (.ok ())) :=
    ⟨fun pre d hpre => by simp at hpre, settle_samples.2.2.1⟩
  exact (lands_iff hacked).2 ⟨rfl, by decide, by decide, settle_samples.2.2.2.2⟩

end Omniscience.Ingestion
