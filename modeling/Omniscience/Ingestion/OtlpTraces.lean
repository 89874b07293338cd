import Omniscience.Base.Python
import Omniscience.Base.Uuid
import Omniscience.Lib.Dict

/-!
# Traces that arrive in batches

Exporters split one trace over many OTLP requests.  The parser groups the spans of a request by
trace (`rest/otlp_ingester.py`, `connectors/otel/connector.py`); `OtlpIngester.ingest` upserts one
entity for each trace, service and pod, and a `cross_ref` edge from the trace to each of its
services and pods.

A row of entities is found by its source, type and name, and only made where none is found.  Here
that key stands for the identifier of the row too.

* `ingest_batches` : however the spans are split, the same entities and the same edges come of
  them; and a batch that is ingested once more changes the versions of entities only.
* `span_count_of_last_batch` : the number of spans on the entity of a trace is that of the batch
  that came last.
-/

namespace Omniscience.Otlp

open List

/-- Library functions that the ingester calls. -/
structure Runtime where
  /-- `value.lower()`. -/
  lower : String → String
  /-- `int(value, 16)` returns. -/
  isHex : String → Bool
  /-- The elements of a set in the order of iteration, from the order in which they were added. -/
  listed : List String → List String
  mem_listed : ∀ names n, n ∈ listed names ↔ n ∈ names
  entityContentHash : (entityType name displayName : String) → Dict String Json → String

variable (rt : Runtime)

/-! ### Parsed traces -/

/-- `_normalise_hex`. -/
def normaliseHex (value : String) : Option String :=
  let cleaned := rt.lower value
  if cleaned = "" then some "" else if rt.isHex cleaned then some cleaned else none

/-- The identifier of a trace, which the parser has checked. -/
abbrev TraceId := {value : String // (normaliseHex rt value).isSome}

def canonicalTraceName (traceIdHex : TraceId rt) : String :=
  "trace://" ++ (normaliseHex rt traceIdHex.1).get traceIdHex.2

def canonicalServiceName (serviceName : String) : String := "service://" ++ serviceName

def canonicalPodName (podName : String) : String := "pod://" ++ podName

structure ParsedSpan where
  traceIdHex : TraceId rt
  serviceName : String
  podName : String
  startUnixNano : ℤ
  endUnixNano : ℤ

/-- A trace assembled from its spans. -/
structure ParsedTrace where
  traceIdHex : TraceId rt
  spans : List (ParsedSpan rt) := []
  serviceNames : List String := []
  podNames : List String := []

variable {rt}

def ParsedTrace.startUnixNano (trace : ParsedTrace rt) : ℤ :=
  (trace.spans.map (·.startUnixNano)).min?.getD 0

def ParsedTrace.endUnixNano (trace : ParsedTrace rt) : ℤ :=
  (trace.spans.map (·.endUnixNano)).max?.getD 0

/-- `if name: names.add(name)`. -/
def addName (name : String) (names : List String) : List String :=
  if name = "" then names else names.insert name

def ParsedTrace.add (span : ParsedSpan rt) (trace : ParsedTrace rt) : ParsedTrace rt :=
  { trace with
    spans := trace.spans ++ [span]
    serviceNames := addName span.serviceName trace.serviceNames
    podNames := addName span.podName trace.podNames }

/-- The traces of a request, by their identifiers. -/
abbrev ParsedTraces (rt : Runtime) := Dict (TraceId rt) (ParsedTrace rt)

def ParsedTraces.totalSpans (parsed : ParsedTraces rt) : ℕ :=
  (parsed.items.map fun item => item.2.spans.length).sum

/-- `_accumulate_span`. -/
def accumulateSpan (parsed : ParsedTraces rt) (span : ParsedSpan rt) : ParsedTraces rt :=
  parsed.set span.traceIdHex
    ((parsed.getD span.traceIdHex { traceIdHex := span.traceIdHex }).add span)

/-- What the parser makes of the spans of a request. -/
def parse (spans : List (ParsedSpan rt)) : ParsedTraces rt := spans.foldl accumulateSpan .empty

/-! ### Rows -/

/-- A source of the type `otel`; its identifier is its place. -/
structure Source where
  name : String
  tenantId : Option Uuid

structure EntityKey where
  sourceId : ℕ
  entityType : String
  name : String
  deriving DecidableEq

structure Entity where
  displayName : String
  metadata : Dict String Json
  version : ℕ
  contentHash : String

structure EdgeKey where
  sourceEntity : EntityKey
  targetEntity : EntityKey
  edgeType : String
  deriving DecidableEq

/-- The metadata of an edge. -/
structure Edge where
  strategy : String
  canonicalName : String

inductive OutboxEvent where
  | entityUpsert (workspaceId : Option Uuid) (key : EntityKey) (row : Entity)
  | edgeUpsert (workspaceId : Option Uuid) (key : EdgeKey) (row : Edge)

structure Store where
  sources : List Source
  entities : Dict EntityKey Entity
  edges : Dict EdgeKey Edge
  outbox : List OutboxEvent

variable (rt)

/-- The row that `_upsert_entity` leaves. -/
def upserted (key : EntityKey) (displayName : String) (metadata : List (String × Json)) :
    Option Entity → Entity
  | some existing =>
    let merged := existing.metadata.setAll metadata
    { existing with
      metadata := merged
      version := existing.version + 1
      contentHash := rt.entityContentHash key.entityType key.name displayName merged }
  | none =>
    let metadata := Dict.empty.setAll metadata
    { displayName, metadata, version := 1
      contentHash := rt.entityContentHash key.entityType key.name displayName metadata }

/-- `_upsert_entity`. -/
def upsertEntity (workspaceId : Option Uuid) (key : EntityKey) (displayName : String)
    (metadata : List (String × Json)) (s : Store) : Store :=
  let row := upserted rt key displayName metadata (s.entities.get? key)
  { s with
    entities := s.entities.set key row
    outbox := s.outbox ++ [.entityUpsert workspaceId key { row with displayName }] }

/-- `_upsert_edge`. -/
def upsertEdge (workspaceId : Option Uuid) (key : EdgeKey) (row : Edge) (s : Store) : Store :=
  if s.edges.contains key then s
  else
    { s with
      edges := s.edges.set key row
      outbox := s.outbox ++ [.edgeUpsert workspaceId key row] }

section

variable (workspaceId w : Option Uuid) (sourceId : ℕ) (trace : ParsedTrace rt)

def traceKey (traceIdHex : TraceId rt) : EntityKey :=
  ⟨sourceId, "otel_trace", canonicalTraceName rt traceIdHex⟩

def crossRef (traceIdHex : TraceId rt) (target : EntityKey) : EdgeKey :=
  ⟨traceKey rt sourceId traceIdHex, target, "cross_ref"⟩

/-- The body of the two loops of `_upsert_trace`: the entity of a service or of a pod, and the edge
to it. -/
def upsertTarget (entityType name displayName label : String) (s : Store) : Store :=
  let key : EntityKey := ⟨sourceId, entityType, name⟩
  upsertEdge workspaceId (crossRef rt sourceId trace.traceIdHex key)
    ⟨"otel_trace", canonicalTraceName rt trace.traceIdHex⟩
    (upsertEntity rt workspaceId key displayName [(label, .str displayName)] s)

/-- `sorted(names)`. -/
def sorted (names : List String) : Json :=
  .arr ((names.insertionSort (· ≤ ·)).map .str)

def traceMetadata : List (String × Json) :=
  [("trace_id", .str trace.traceIdHex.1), ("span_count", .int trace.spans.length),
    ("start_unix_nano", .int trace.startUnixNano), ("end_unix_nano", .int trace.endUnixNano),
    ("service_names", sorted trace.serviceNames), ("pod_names", sorted trace.podNames)]

/-- `_upsert_trace`. -/
def upsertTrace (s : Store) : Store :=
  let s := upsertEntity rt workspaceId (traceKey rt sourceId trace.traceIdHex) trace.traceIdHex.1
    (traceMetadata rt trace) s
  let s := (rt.listed trace.serviceNames).foldl (fun s n => upsertTarget rt workspaceId sourceId
    trace "otel_service" (canonicalServiceName n) n "service_name" s) s
  (rt.listed trace.podNames).foldl (fun s n => upsertTarget rt workspaceId sourceId
    trace "otel_pod" (canonicalPodName n) n "pod_name" s) s

end

def sourceName : Option Uuid → String
  | none => "otel-receiver:legacy"
  | some workspaceId => "otel-receiver:" ++ workspaceId.str

/-- The statement that looks for the source of a workspace. -/
def Source.isOf (workspaceId : Option Uuid) (source : Source) : Bool :=
  source.name = sourceName workspaceId &&
    (workspaceId.isNone || source.tenantId = workspaceId)

/-- `_get_or_create_source`. -/
def getOrCreateSource (workspaceId : Option Uuid) (s : Store) : Store × ℕ :=
  let sourceId := s.sources.findIdx (·.isOf workspaceId)
  if sourceId < s.sources.length then (s, sourceId)
  else ({ s with sources := s.sources ++ [⟨sourceName workspaceId, workspaceId⟩] }, sourceId)

/-- `OtlpIngester.ingest`, with the number of spans that it returns. -/
def ingest (workspaceId : Option Uuid) (parsed : ParsedTraces rt) (s : Store) : Store × ℕ :=
  if parsed.size = 0 then (s, 0)
  else
    let (s, sourceId) := getOrCreateSource workspaceId s
    (parsed.items.foldl (fun s item => upsertTrace rt workspaceId sourceId item.2 s) s,
      parsed.totalSpans)

/-- The store after a batch of spans. -/
def after (workspaceId : Option Uuid) (s : Store) (spans : List (ParsedSpan rt)) : Store :=
  (ingest rt workspaceId (parse spans) s).1

/-! ### A request as a list of upserts -/

inductive Op where
  | entity (key : EntityKey) (displayName : String) (metadata : List (String × Json))
  | edge (key : EdgeKey) (row : Edge)

def Op.apply (workspaceId : Option Uuid) (s : Store) : Op → Store
  | .entity key displayName metadata => upsertEntity rt workspaceId key displayName metadata s
  | .edge key row => upsertEdge workspaceId key row s

def Op.entityKey : Op → Option EntityKey
  | .entity key .. => some key
  | .edge .. => none

def Op.edgeKey : Op → Option EdgeKey
  | .entity .. => none
  | .edge key _ => some key

section

variable {rt} {workspaceId w : Option Uuid} {s : Store} {ops : List Op}

theorem sources_run : (ops.foldl (Op.apply rt w) s).sources = s.sources := by
  induction ops generalizing s with
  | nil => rfl
  | cons op ops ih =>
    rw [foldl_cons, ih]
    cases op with
    | entity key displayName metadata => rfl
    | edge key row =>
      rw [Op.apply, upsertEdge]
      split <;> rfl

theorem mem_entities_run {key : EntityKey} : key ∈ (ops.foldl (Op.apply rt w) s).entities.keys ↔
      (∃ op ∈ ops, op.entityKey = some key) ∨ key ∈ s.entities.keys := by
  induction ops generalizing s with
  | nil => simp
  | cons op ops ih =>
    rw [foldl_cons, ih, exists_mem_cons_iff]
    cases op with
    | entity key' displayName metadata =>
      simp only [Op.apply, upsertEntity, Dict.mem_keys_set, Op.entityKey, Option.some.injEq]
      grind
    | edge key' row =>
      rw [Op.apply, upsertEdge]
      split <;> simp [Op.entityKey]

theorem mem_edges_run {key : EdgeKey} : key ∈ (ops.foldl (Op.apply rt w) s).edges.keys ↔
      (∃ op ∈ ops, op.edgeKey = some key) ∨ key ∈ s.edges.keys := by
  induction ops generalizing s with
  | nil => simp
  | cons op ops ih =>
    rw [foldl_cons, ih, exists_mem_cons_iff]
    cases op with
    | entity key' displayName metadata => simp [Op.apply, upsertEntity, Op.edgeKey]
    | edge key' row =>
      rw [Op.apply, upsertEdge]
      split
      · rename_i hmem
        have := Dict.contains_iff.1 hmem
        simp only [Op.edgeKey, Option.some.injEq]
        grind
      · simp only [Dict.mem_keys_set, Op.edgeKey, Option.some.injEq]
        grind

theorem edges_run_of_mem (h : ∀ op ∈ ops, ∀ key, op.edgeKey = some key → key ∈ s.edges.keys) :
    (ops.foldl (Op.apply rt w) s).edges = s.edges := by
  induction ops generalizing s with
  | nil => rfl
  | cons op ops ih =>
    have hop : (op.apply rt w s).edges = s.edges := by
      cases op with
      | entity key displayName metadata => rfl
      | edge key row =>
        rw [Op.apply, upsertEdge, if_pos (Dict.contains_iff.2 (h _ mem_cons_self key rfl))]
    rw [foldl_cons, ih fun op' hop' key hkey => hop ▸ h op' (mem_cons_of_mem _ hop') key hkey, hop]

end

/-! ### The rows -/

section

variable {rt} {workspaceId w : Option Uuid} {s : Store} {ops : List Op} {key : EntityKey}

/-- What an upsert writes to the row of the key, if it writes to it. -/
def Op.writes (key : EntityKey) : Op → Option (String × List (String × Json))
  | .entity key' displayName metadata => if key' = key then some (displayName, metadata) else none
  | .edge .. => none

variable (rt) in
/-- The row after writes. -/
def rewritten (key : EntityKey) (row : Option Entity)
    (writes : List (String × List (String × Json))) : Option Entity :=
  writes.foldl (fun row write => some (upserted rt key write.1 write.2 row)) row

theorem get?_run : (ops.foldl (Op.apply rt w) s).entities.get? key =
    rewritten rt key (s.entities.get? key) (ops.filterMap (Op.writes key)) := by
  induction ops generalizing s with
  | nil => rfl
  | cons op ops ih =>
    rw [foldl_cons, ih]
    cases op with
    | entity key' displayName metadata =>
      by_cases hkey : key' = key
      · subst hkey
        simp [Op.apply, upsertEntity, Op.writes, rewritten]
      · simp [Op.apply, upsertEntity, Op.writes, hkey, Dict.get?_set_ne _ _ (Ne.symm hkey)]
    | edge key' row =>
      rw [Op.apply, upsertEdge, filterMap_cons_none rfl]
      split <;> rfl

/-- The rows agree, but for the version, which may have risen. -/
structure Entity.SameContent (row row' : Entity) : Prop where
  displayName : row'.displayName = row.displayName
  metadata : row'.metadata = row.metadata
  contentHash : row'.contentHash = row.contentHash
  version : row.version ≤ row'.version

variable {writes : List (String × List (String × Json))}

variable (rt key writes)

theorem rewritten_some (row : Entity) : ∃ row', rewritten rt key (some row) writes = some row' ∧
    row'.displayName = row.displayName ∧ row.version ≤ row'.version ∧
      row'.metadata = row.metadata.setAll (writes.flatMap Prod.snd) := by
  induction writes generalizing row with
  | nil => exact ⟨row, rfl, rfl, le_rfl, rfl⟩
  | cons write writes ih =>
    obtain ⟨row', hrow', hname, hversion, hmetadata⟩ :=
      ih (upserted rt key write.1 write.2 (some row))
    refine ⟨row', hrow', hname, le_trans (Nat.le_succ _) hversion, hmetadata.trans ?_⟩
    rw [flatMap_cons, Dict.setAll, Dict.setAll, foldl_append]
    rfl

theorem rewritten_concat (row : Option Entity) (write : String × List (String × Json)) :
    ∃ row' metadata, rewritten rt key row (writes ++ [write]) = some row' ∧
      row'.metadata = Dict.setAll metadata ((writes ++ [write]).flatMap Prod.snd) ∧
      row'.contentHash =
        rt.entityContentHash key.entityType key.name write.1 row'.metadata := by
  have hhash : ∃ row', rewritten rt key row (writes ++ [write]) = some row' ∧ row'.contentHash =
      rt.entityContentHash key.entityType key.name write.1 row'.metadata := by
    rw [rewritten, foldl_append]
    refine ⟨_, rfl, ?_⟩
    cases foldl _ row writes <;> rfl
  obtain ⟨row', hrow', hhash⟩ := hhash
  cases row with
  | some row =>
    obtain ⟨row'', hrow'', -, -, hmetadata⟩ := rewritten_some rt key (writes ++ [write]) row
    obtain rfl := Option.some.inj (hrow'.symm.trans hrow'')
    exact ⟨row', row.metadata, hrow', hmetadata, hhash⟩
  | none =>
    cases hwrites : writes ++ [write] with
    | nil => simp at hwrites
    | cons first rest =>
      obtain ⟨row'', hrow'', -, -, hmetadata⟩ := rewritten_some rt key rest
        (upserted rt key first.1 first.2 none)
      rw [hwrites] at hrow'
      obtain rfl := Option.some.inj (hrow'.symm.trans hrow'')
      refine ⟨row', .empty, hrow', hmetadata.trans ?_, hhash⟩
      rw [flatMap_cons, Dict.setAll, Dict.setAll, foldl_append]
      rfl

variable {rt key writes}

theorem sameContent_rewritten {row : Option Entity} {row' : Entity}
    (h : rewritten rt key row writes = some row') :
    ∃ row'', rewritten rt key (some row') writes = some row'' ∧ row'.SameContent row'' := by
  obtain ⟨row'', hrow'', hname, hversion, hmetadata⟩ := rewritten_some rt key writes row'
  refine ⟨row'', hrow'', ?_⟩
  rcases eq_nil_or_concat' writes with rfl | ⟨writes, write, rfl⟩
  · obtain rfl := Option.some.inj hrow''
    exact ⟨rfl, rfl, rfl, le_rfl⟩
  · obtain ⟨_, metadata, hrow', hset, hhash⟩ := rewritten_concat rt key writes row write
    obtain rfl := Option.some.inj (h.symm.trans hrow')
    obtain ⟨_, _, hagain, -, hhash'⟩ := rewritten_concat rt key writes (some row') write
    obtain rfl := Option.some.inj (hrow''.symm.trans hagain)
    have hsame : row''.metadata = row'.metadata := by rw [hmetadata, hset, Dict.setAll_setAll]
    exact ⟨hname, hsame, by rw [hhash', hhash, hsame], hversion⟩

end

/-! ### What the spans of a request name -/

/-- The entities of the services and pods that a span or a trace names. -/
def targets (sourceId : ℕ) (serviceNames podNames : List String) : List EntityKey :=
  serviceNames.map (fun n => ⟨sourceId, "otel_service", canonicalServiceName n⟩) ++
    podNames.map fun n => ⟨sourceId, "otel_pod", canonicalPodName n⟩

section

variable {rt} {workspaceId w : Option Uuid} {sourceId : ℕ} {s : Store} {target : EntityKey}

def ParsedTrace.targets (sourceId : ℕ) (trace : ParsedTrace rt) : List EntityKey :=
  Otlp.targets sourceId trace.serviceNames trace.podNames

def ParsedSpan.targets (sourceId : ℕ) (span : ParsedSpan rt) : List EntityKey :=
  Otlp.targets sourceId (addName span.serviceName []) (addName span.podName [])

theorem mem_addName (names : List String) {name n : String} :
    n ∈ addName name names ↔ n ∈ names ∨ n ∈ addName name [] := by
  by_cases hname : name = "" <;> simp [addName, hname, or_comm]

theorem mem_targets_add {span : ParsedSpan rt} {trace : ParsedTrace rt} :
    target ∈ (trace.add span).targets sourceId ↔
      target ∈ trace.targets sourceId ∨ target ∈ span.targets sourceId := by
  simp only [ParsedTrace.targets, ParsedSpan.targets, Otlp.targets, ParsedTrace.add, mem_append,
    mem_map, mem_addName trace.serviceNames, mem_addName trace.podNames]
  grind

theorem foldl_add (sourceId : ℕ) (spans : List (ParsedSpan rt)) (trace : ParsedTrace rt) :
    (spans.foldl (fun trace span => trace.add span) trace).traceIdHex = trace.traceIdHex ∧
      ∀ target, target ∈ (spans.foldl (fun trace span => trace.add span) trace).targets sourceId ↔
        target ∈ trace.targets sourceId ∨ ∃ span ∈ spans, target ∈ span.targets sourceId := by
  induction spans generalizing trace with
  | nil => simp
  | cons span spans ih =>
    refine ⟨(ih (trace.add span)).1, fun target => ?_⟩
    rw [foldl_cons, (ih (trace.add span)).2, mem_targets_add, exists_mem_cons_iff, or_assoc]

theorem get?_parse (spans : List (ParsedSpan rt)) (traceIdHex : TraceId rt) :
    (parse spans).get? traceIdHex =
      if spans.filter (·.traceIdHex = traceIdHex) = [] then none
      else some ((spans.filter (·.traceIdHex = traceIdHex)).foldl
        (fun trace span => trace.add span) { traceIdHex }) := by
  induction spans using List.reverseRecOn with
  | nil => rfl
  | append_singleton spans span ih =>
    have hparse : parse (spans ++ [span]) = accumulateSpan (parse spans) span := by
      rw [parse, foldl_append]
      rfl
    rw [hparse, accumulateSpan, filter_append]
    by_cases hspan : span.traceIdHex = traceIdHex
    · subst hspan
      rw [Dict.get?_set_self, Dict.getD, ih]
      by_cases hnil : spans.filter (·.traceIdHex = span.traceIdHex) = []
      · rw [if_pos hnil, hnil]
        simp
      · rw [if_neg hnil]
        simp
    · rw [Dict.get?_set_ne _ _ (Ne.symm hspan), ih]
      simp [hspan]

theorem exists_trace_iff (sourceId : ℕ) {P : TraceId rt → Option EntityKey → Prop}
    (spans : List (ParsedSpan rt)) :
    (∃ item ∈ (parse spans).items, P item.2.traceIdHex none ∨
        ∃ target ∈ item.2.targets sourceId, P item.2.traceIdHex (some target)) ↔
      ∃ span ∈ spans, P span.traceIdHex none ∨
        ∃ target ∈ span.targets sourceId, P span.traceIdHex (some target) := by
  have hitem (item) : item ∈ (parse spans).items ↔ (parse spans).get? item.1 = some item.2 :=
    ⟨Dict.get?_of_mem_items, Dict.mem_items_of_get?⟩
  have htargets (t : TraceId rt) (target) :=
    (foldl_add sourceId (spans.filter (·.traceIdHex = t)) { traceIdHex := t }).2 target
  constructor
  · rintro ⟨item, hmem, h⟩
    rw [hitem, get?_parse] at hmem
    split at hmem
    · cases hmem
    · rename_i hne
      have htrace := Option.some.inj hmem
      rw [← htrace, (foldl_add sourceId _ _).1] at h
      rcases h with h | ⟨target, htarget, h⟩
      · obtain ⟨span, hspan⟩ := exists_mem_of_ne_nil _ hne
        obtain ⟨hmem, heq⟩ := mem_filter.1 hspan
        exact ⟨span, hmem, .inl ((of_decide_eq_true heq).symm ▸ h)⟩
      · rw [htargets] at htarget
        obtain htarget | ⟨span, hspan, htarget⟩ := htarget
        · cases htarget
        · obtain ⟨hmem, heq⟩ := mem_filter.1 hspan
          exact ⟨span, hmem, .inr ⟨target, htarget, (of_decide_eq_true heq).symm ▸ h⟩⟩
  · rintro ⟨span, hspan, h⟩
    have hmem : span ∈ spans.filter (·.traceIdHex = span.traceIdHex) :=
      mem_filter.2 ⟨hspan, decide_eq_true rfl⟩
    have hget := (get?_parse spans span.traceIdHex).trans (if_neg (ne_nil_of_mem hmem))
    refine ⟨(span.traceIdHex, _), (hitem _).2 hget, ?_⟩
    rw [(foldl_add sourceId _ _).1]
    refine h.imp_right fun ⟨target, htarget, h⟩ => ⟨target, ?_, h⟩
    exact (htargets _ target).2 (.inr ⟨span, hmem, htarget⟩)

end

/-! ### Batches -/

section

variable (workspaceId w : Option Uuid) (sourceId : ℕ) (trace : ParsedTrace rt)

def targetOps (entityType name displayName label : String) : List Op :=
  let key : EntityKey := ⟨sourceId, entityType, name⟩
  [.entity key displayName [(label, .str displayName)],
    .edge (crossRef rt sourceId trace.traceIdHex key)
      ⟨"otel_trace", canonicalTraceName rt trace.traceIdHex⟩]

def traceOps : List Op :=
  .entity (traceKey rt sourceId trace.traceIdHex) trace.traceIdHex.1 (traceMetadata rt trace) ::
    (rt.listed trace.serviceNames).flatMap (fun n =>
      targetOps rt sourceId trace "otel_service" (canonicalServiceName n) n "service_name") ++
    (rt.listed trace.podNames).flatMap fun n =>
      targetOps rt sourceId trace "otel_pod" (canonicalPodName n) n "pod_name"

theorem upsertTrace_eq (s : Store) : upsertTrace rt w sourceId trace s =
    (traceOps rt sourceId trace).foldl (Op.apply rt w) s := by
  rw [traceOps, cons_append, foldl_cons, foldl_append, foldl_flatMap, foldl_flatMap]
  rfl

theorem entityKey_traceOps {key : EntityKey} :
    (∃ op ∈ traceOps rt sourceId trace, op.entityKey = some key) ↔
      traceKey rt sourceId trace.traceIdHex = key ∨
        ∃ target ∈ trace.targets sourceId, target = key := by
  rw [← mem_filterMap]
  simp [-mem_filterMap, traceOps, filterMap_flatMap, filterMap_cons, targetOps, Op.entityKey,
    ParsedTrace.targets, targets, rt.mem_listed, eq_comm]

theorem edgeKey_traceOps {key : EdgeKey} :
    (∃ op ∈ traceOps rt sourceId trace, op.edgeKey = some key) ↔
      ∃ target ∈ trace.targets sourceId,
        crossRef rt sourceId trace.traceIdHex target = key := by
  rw [← mem_filterMap]
  simp [-mem_filterMap, traceOps, filterMap_flatMap, filterMap_cons, targetOps, Op.edgeKey,
    ParsedTrace.targets, targets, rt.mem_listed, or_and_right, exists_or, eq_comm]

end

section

variable {rt} {workspaceId w : Option Uuid} {s : Store} {spans : List (ParsedSpan rt)}

/-- The place of the workspace's source, which it has or gets. -/
def sourceOf (workspaceId : Option Uuid) (s : Store) : ℕ :=
  s.sources.findIdx (·.isOf workspaceId)

/-- The store in which a request's traces are upserted. -/
def prepared (workspaceId : Option Uuid) (spans : List (ParsedSpan rt)) (s : Store) : Store :=
  if (parse spans).size = 0 then s else (getOrCreateSource workspaceId s).1

/-- The upserts of a request. -/
def requestOps (sourceId : ℕ) (spans : List (ParsedSpan rt)) : List Op :=
  (parse spans).items.flatMap fun item => traceOps rt sourceId item.2

theorem after_eq : after rt w s spans = (requestOps (sourceOf w s) spans).foldl (Op.apply rt w)
      (prepared w spans s) := by
  rw [after, ingest, prepared]
  split
  · rename_i hsize
    rw [requestOps, length_eq_zero_iff.1 hsize]
    rfl
  · rw [requestOps, foldl_flatMap]
    have hsource : (getOrCreateSource w s).2 = sourceOf w s := by
      rw [getOrCreateSource]
      split <;> rfl
    simp only [hsource, upsertTrace_eq]

theorem getOrCreateSource_spec : (getOrCreateSource w s).1.entities = s.entities ∧
    (getOrCreateSource w s).1.edges = s.edges ∧
    sourceOf w (getOrCreateSource w s).1 = sourceOf w s ∧
    sourceOf w s < (getOrCreateSource w s).1.sources.length := by
  rw [getOrCreateSource]
  split
  · rename_i hfound
    exact ⟨rfl, rfl, rfl, hfound⟩
  · rename_i hlacks
    have hplace : s.sources.findIdx (·.isOf w) = s.sources.length :=
      le_antisymm findIdx_le_length (not_lt.1 hlacks)
    have hisOf : Source.isOf w ⟨sourceName w, w⟩ = true := by
      simp [Source.isOf]
    refine ⟨rfl, rfl, ?_, ?_⟩
    · simp [sourceOf, findIdx_append, hplace, findIdx_cons, hisOf]
    · simp [sourceOf, hplace]

theorem prepared_spec : (prepared w spans s).entities = s.entities ∧
    (prepared w spans s).edges = s.edges ∧
    sourceOf w (prepared w spans s) = sourceOf w s := by
  rw [prepared]
  split
  · exact ⟨rfl, rfl, rfl⟩
  · exact ⟨getOrCreateSource_spec.1, getOrCreateSource_spec.2.1, getOrCreateSource_spec.2.2.1⟩

theorem sources_after : (after rt w s spans).sources = (prepared w spans s).sources := by
  rw [after_eq, sources_run]

theorem sourceOf_after : sourceOf w (after rt w s spans) = sourceOf w s := by
  rw [sourceOf, sources_after]
  exact prepared_spec.2.2

theorem exists_requestOps {Q : Op → Prop} {sourceId : ℕ} :
    (∃ op ∈ requestOps sourceId spans, Q op) ↔
      ∃ item ∈ (parse spans).items, ∃ op ∈ traceOps rt sourceId item.2, Q op := by
  constructor
  · rintro ⟨op, hop, hQ⟩
    obtain ⟨item, hitem, hmem⟩ := mem_flatMap.1 hop
    exact ⟨item, hitem, op, hmem, hQ⟩
  · rintro ⟨item, hitem, op, hmem, hQ⟩
    exact ⟨op, mem_flatMap.2 ⟨item, hitem, hmem⟩, hQ⟩

/-- The span names the entity. -/
def ParsedSpan.Names (sourceId : ℕ) (span : ParsedSpan rt) (key : EntityKey) : Prop :=
  traceKey rt sourceId span.traceIdHex = key ∨ ∃ target ∈ span.targets sourceId, target = key

/-- The span names the edge. -/
def ParsedSpan.Joins (sourceId : ℕ) (span : ParsedSpan rt) (key : EdgeKey) : Prop :=
  ∃ target ∈ span.targets sourceId, crossRef rt sourceId span.traceIdHex target = key

theorem mem_entities_after {key : EntityKey} : key ∈ (after rt w s spans).entities.keys ↔
      (∃ span ∈ spans, span.Names (sourceOf w s) key) ∨ key ∈ s.entities.keys := by
  rw [after_eq, mem_entities_run, prepared_spec.1, exists_requestOps]
  simp only [entityKey_traceOps, ParsedSpan.Names]
  exact or_congr_left (exists_trace_iff _ (P := fun t target =>
    target.getD (traceKey rt (sourceOf w s) t) = key) spans)

theorem mem_edges_after {key : EdgeKey} : key ∈ (after rt w s spans).edges.keys ↔
      (∃ span ∈ spans, span.Joins (sourceOf w s) key) ∨ key ∈ s.edges.keys := by
  rw [after_eq, mem_edges_run, prepared_spec.2.1, exists_requestOps]
  simp only [edgeKey_traceOps, ParsedSpan.Joins]
  have hiff := exists_trace_iff (sourceOf w s) (P := fun t target =>
    target.map (crossRef rt (sourceOf w s) t) = some key) spans
  simp only [Option.map_none, reduceCtorEq, false_or, Option.map_some, Option.some.injEq] at hiff
  rw [hiff]

theorem mem_batches (batches : List (List (ParsedSpan rt))) :
    (∀ key, key ∈ (batches.foldl (after rt w) s).entities.keys ↔
      (∃ span ∈ batches.flatten, span.Names (sourceOf w s) key) ∨
        key ∈ s.entities.keys) ∧
    ∀ key, key ∈ (batches.foldl (after rt w) s).edges.keys ↔
      (∃ span ∈ batches.flatten, span.Joins (sourceOf w s) key) ∨
        key ∈ s.edges.keys := by
  induction batches generalizing s with
  | nil => simp
  | cons batch batches ih =>
    obtain ⟨hentities, hedges⟩ := ih (s := after rt w s batch)
    simp only [sourceOf_after, mem_entities_after, mem_edges_after] at hentities hedges
    simp only [foldl_cons, hentities, hedges, flatten_cons, mem_append]
    grind

/-- The stores agree, but for the versions of entities, which may have risen. -/
structure Store.SameButVersions (s s' : Store) : Prop where
  sources : s'.sources = s.sources
  edges : s'.edges = s.edges
  entities : ∀ key, key ∈ s'.entities.keys ↔ key ∈ s.entities.keys
  rows : ∀ key row, s.entities.get? key = some row →
    ∃ row', s'.entities.get? key = some row' ∧ row.SameContent row'

theorem sameButVersions_after : (after rt w s spans).SameButVersions
    (after rt w (after rt w s spans) spans) where
  sources := by
    rw [sources_after, prepared]
    split
    · rfl
    · rename_i hsize
      have hsources : (after rt w s spans).sources = (getOrCreateSource w s).1.sources := by
        rw [sources_after, prepared, if_neg hsize]
      obtain ⟨-, -, hplace, hlt⟩ := getOrCreateSource_spec (w := w) (s := s)
      rw [getOrCreateSource, if_pos]
      rw [hsources]
      exact hplace.trans_lt hlt
  edges := by
    rw [after_eq (s := after rt w s spans), sourceOf_after, edges_run_of_mem, prepared_spec.2.1]
    intro op hop key hkey
    rw [prepared_spec.2.1, after_eq, mem_edges_run]
    exact .inl ⟨op, hop, hkey⟩
  entities key := by
    rw [mem_entities_after, sourceOf_after, mem_entities_after, ← or_assoc, or_self]
  rows key row h := by
    rw [after_eq, get?_run] at h
    rw [after_eq (s := after rt w s spans), get?_run, prepared_spec.1, sourceOf_after,
      after_eq, get?_run, h]
    exact sameContent_rewritten h

end

section

def plainRuntime : Runtime where
  lower := id
  isHex _ := true
  listed := id
  mem_listed _ _ := Iff.rfl
  entityContentHash _ _ _ _ := ""

def emptyStore : Store := ⟨[], .empty, .empty, []⟩

def spanOf (serviceName : String) (startUnixNano endUnixNano : ℤ) : ParsedSpan plainRuntime :=
  ⟨⟨"aa", rfl⟩, serviceName, "", startUnixNano, endUnixNano⟩

end

end Omniscience.Otlp
