import Omniscience.Audit.Fingerprint

/-!
# Responses of the replayable tools

`search`, `get_entity`, `get_related_entities` and `resolve_incident` build a response from what the
stores answer, from the requested `as_of`, and from the clocks that are read on the way.  The answer
has the hits and the graph; the clocks give `duration_ms`, the age of a hit, the recency of a similar
incident, and `effective_as_of` where no `as_of` was requested.
-/

namespace Omniscience.Audit

open JsonText

/-- `DEGRADED_PRE_HISTORY`. -/
def degradedPreHistory : String := "as_of_before_recorded_history"

/-- A JSON document. -/
structure JsonDoc where
  members : Metadata
  isFloatText : AllFloats IsFloatText (.obj members)

/-- `None`, or a value. -/
def optional {α : Type} (dump : α → Json) : Option α → Json
  | none => .null
  | some a => dump a

/-- The clocks that an execution reads. -/
structure Clock where
  /-- `time.monotonic()` at the start of the search, in seconds. -/
  started : ℚ
  /-- `time.monotonic()` at its end. -/
  stopped : ℚ
  /-- `datetime.now(UTC)` when the hit at a place of the response was built. -/
  hitNow : ℕ → Time
  /-- `datetime.now(UTC)` when the similar incidents were ranked. -/
  similarNow : Time
  /-- `datetime.now(UTC)` when the response was finished. -/
  now : Time

/-- `resolve_effective_as_of`. -/
def resolveEffectiveAsOf (asOf : Option Time) (now : Time) : Time := asOf.getD now

/-- `timedelta.total_seconds()`. -/
def totalSeconds (delta : Time) : ℚ := delta / 1000000

/-- `max(0.0, (now - recorded_at).total_seconds())`. -/
def computeStaleness (recordedAt : Option Time) (now : Time) : Option ℚ :=
  recordedAt.map fun recordedAt => max 0 (totalSeconds (now - recordedAt))

variable (rt : Runtime)

/-- A float. -/
def float (q : ℚ) : Json := .float (rt.floatRepr q)

/-! ### `search` -/

/-- `SourceInfo`. -/
structure SourceInfo where
  id : Uuid
  name : String
  type : String

/-- `ChunkLineage`. -/
structure ChunkLineage where
  ingestionRunId : Option Uuid
  embeddingModel : String
  embeddingProvider : String
  parserVersion : String
  chunkerStrategy : String

/-- What a hit says, without its staleness.  `recordedAt` is from the payload of the point. -/
structure SearchHit where
  chunkId : Uuid
  documentId : Uuid
  score : ℚ
  text : String
  source : SourceInfo
  uri : String
  title : Option String
  recordedAt : Option Time
  docVersion : ℤ
  lineage : ChunkLineage
  metadata : JsonDoc
  sourceInstance : Option String
  confidence : Option ℚ
  scoreType : Option String
  impact : Option ℚ
  appliedVersion : Option ℤ

/-- `_parse_datetime`: a missing timestamp is the present. -/
def parseDatetime (raw : Option Time) (now : Time) : Time := raw.getD now

/-- `SourceInfo.model_dump`. -/
def SourceInfo.dump (source : SourceInfo) : Json :=
  .obj [("id", .str source.id.str), ("name", .str source.name), ("type", .str source.type)]

/-- `Citation.model_dump`. -/
def SearchHit.citation (hit : SearchHit) (now : Time) : Json :=
  .obj [("uri", .str hit.uri), ("title", optional .str hit.title),
    ("indexed_at", .str (rt.dumpDatetime (parseDatetime hit.recordedAt now))),
    ("doc_version", .int hit.docVersion)]

/-- `ChunkLineage.model_dump`. -/
def ChunkLineage.dump (lineage : ChunkLineage) : Json :=
  .obj [("ingestion_run_id", optional (fun id : Uuid => .str id.str) lineage.ingestionRunId),
    ("embedding_model", .str lineage.embeddingModel),
    ("embedding_provider", .str lineage.embeddingProvider),
    ("parser_version", .str lineage.parserVersion),
    ("chunker_strategy", .str lineage.chunkerStrategy)]

/-- `SearchHit.model_dump`, of a hit that was built at `now`. -/
def SearchHit.dump (hit : SearchHit) (now : Time) : Json :=
  .obj [("chunk_id", .str hit.chunkId.str), ("document_id", .str hit.documentId.str),
    ("score", float rt hit.score), ("text", .str hit.text), ("source", hit.source.dump),
    ("citation", hit.citation rt now), ("lineage", hit.lineage.dump),
    ("metadata", .obj hit.metadata.members), ("source_instance", optional .str hit.sourceInstance),
    ("confidence", optional (float rt) hit.confidence),
    ("score_type", optional .str hit.scoreType), ("impact", optional (float rt) hit.impact),
    ("staleness", optional (float rt) (computeStaleness hit.recordedAt now)),
    ("applied_version", optional .int hit.appliedVersion)]

/-- What a search finds. -/
structure SearchAnswer where
  hits : List SearchHit
  totalMatchesBeforeFilters : ℕ
  vectorMatches : ℤ
  textMatches : ℕ
  anchorRequested : Bool
  anchorHit : Bool
  minAppliedVersion : Option ℤ
  /-- From the global reconciler: the stores that lag, by how many versions, and the watermark. -/
  convergenceDegraded : List String
  convergenceStaleness : Option ℚ
  minWatermark : Option ℤ
  nextCursor : Option String

/-- `degraded`: a historical search whose anchor was not found, without hits. -/
def SearchAnswer.degraded (answer : SearchAnswer) (asOf : Option Time) : Bool :=
  asOf.isSome && answer.anchorRequested && !answer.anchorHit && answer.hits.isEmpty

/-- `meta` of a response. -/
def metaOf (degraded : Bool) : Json :=
  if degraded then .obj [("degraded_response", .str degradedPreHistory)] else .null

/-- `QueryStats.model_dump`. -/
def SearchAnswer.queryStats (answer : SearchAnswer) (clock : Clock) : Json :=
  .obj [("total_matches_before_filters", .int answer.totalMatchesBeforeFilters),
    ("vector_matches", .int answer.vectorMatches), ("text_matches", .int answer.textMatches),
    ("duration_ms", float rt ((clock.stopped - clock.started) * 1000))]

/-- `mcp_search`: `SearchResult.model_dump` after `_stamp_envelope`. -/
def mcpSearch (answer : SearchAnswer) (asOf : Option Time) (clock : Clock) : Json :=
  .obj [("hits", .arr (answer.hits.mapIdx fun i hit => hit.dump rt (clock.hitNow i))),
    ("query_stats", answer.queryStats rt clock),
    ("effective_as_of", .str (rt.dumpDatetime (resolveEffectiveAsOf asOf clock.now))),
    ("meta", metaOf (answer.degraded asOf)),
    ("min_applied_version", optional .int answer.minAppliedVersion),
    ("degraded_subsystems", .arr (answer.convergenceDegraded.map .str)),
    ("staleness_seconds", if answer.convergenceDegraded = [] then .null
      else optional (float rt) answer.convergenceStaleness),
    ("pinned_watermark", optional .int answer.minWatermark), ("snapshot_id", .null),
    ("next_cursor", optional .str answer.nextCursor)]

/-! ### `get_entity` and `get_related_entities` -/

/-- `EntityNodeView`. -/
structure EntityNodeView where
  name : String
  kind : String
  source : String
  chunkText : Option String
  depth : ℕ
  edgeType : Option String
  validFrom : Option Time
  validTo : Option Time
  recordedAt : Option Time
  version : Option ℤ

/-- `GraphEdgeView`. -/
structure GraphEdgeView where
  fromEntity : String
  toEntity : String
  edgeType : String

/-- `GraphResultView`. -/
structure GraphResultView where
  seed : EntityNodeView
  related : List EntityNodeView
  edges : List GraphEdgeView

/-- `_entity_view_to_dict`. -/
def entityViewToDict (node : EntityNodeView) : Json :=
  let isoformat := optional fun t => Json.str (rt.isoformat t)
  .obj [("name", .str node.name), ("kind", .str node.kind), ("source", .str node.source),
    ("chunk_text", optional .str node.chunkText), ("valid_from", isoformat node.validFrom),
    ("valid_to", isoformat node.validTo), ("recorded_at", isoformat node.recordedAt)]

/-- `mcp_get_entity`. -/
def mcpGetEntity (node : Option EntityNodeView) (asOf : Option Time) (clock : Clock) : Json :=
  .obj [("entity", optional (entityViewToDict rt) node),
    ("effective_as_of", .str (rt.isoformat (resolveEffectiveAsOf asOf clock.now))),
    ("meta", metaOf (node.isNone && asOf.isSome))]

/-- `stats` of a traversal. -/
def traversalStats (entitiesFound edgesTraversed depthReached : ℕ) : Json :=
  .obj [("entities_found", .int entitiesFound), ("edges_traversed", .int edgesTraversed),
    ("depth_reached", .int depthReached)]

/-- `_empty_graph_payload` of a degraded response. -/
def emptyGraphPayload (entityName : String) (asOf : Option Time) (clock : Clock) : Json :=
  .obj [("seed", .obj [("name", .str entityName), ("kind", .null), ("source", .null),
      ("chunk_text", .null)]), ("related", .arr []), ("edges", .arr []),
    ("stats", traversalStats 0 0 0),
    ("effective_as_of", .str (rt.isoformat (resolveEffectiveAsOf asOf clock.now))),
    ("meta", metaOf true)]

/-- A node of `_graph_view_to_dict`, by the members that every node has. -/
def nodeMembers (node : EntityNodeView) : Metadata :=
  [("name", .str node.name), ("kind", .str node.kind), ("source", .str node.source),
    ("chunk_text", optional .str node.chunkText)]

/-- `_graph_view_to_dict`. -/
def graphViewToDict (result : GraphResultView) : Metadata :=
  [("seed", .obj (nodeMembers result.seed)),
    ("related", .arr (result.related.map fun n => .obj (nodeMembers n ++
      [("depth", .int n.depth), ("edge_type", optional .str n.edgeType)]))),
    ("edges", .arr (result.edges.map fun e => .obj [("from", .str e.fromEntity),
      ("to", .str e.toEntity), ("type", .str e.edgeType)])),
    ("stats", traversalStats (1 + result.related.length) result.edges.length
      ((result.related.map EntityNodeView.depth).foldl max 0))]

/-- The text of a missing seed. -/
def isEntityNotFound (exc : Exc) : Bool :=
  exc.kind = .valueError && "entity_not_found:".toList.isPrefixOf exc.text.toList

/-- `mcp_get_related_entities`: an unknown seed is an error only of a current read. -/
def mcpGetRelatedEntities (entityName : String) (result : Except Exc GraphResultView)
    (asOf : Option Time) (clock : Clock) : Except Exc Json :=
  match result with
  | .ok result => .ok (.obj (graphViewToDict result ++
      [("effective_as_of", .str (rt.isoformat (resolveEffectiveAsOf asOf clock.now)))]))
  | .error exc =>
    if asOf.isSome && isEntityNotFound exc then .ok (emptyGraphPayload rt entityName asOf clock)
    else .error exc

/-! ### `resolve_incident` -/

/-- `DEFAULT_SINCE_DAYS`. -/
def defaultSinceDays : ℤ := 90

/-- `recency_multiplier`. -/
def recencyMultiplier (firedAt : Option Time) (now : Time) (sinceDays : ℤ) : ℚ :=
  match firedAt with
  | none => 1
  | some firedAt =>
    if sinceDays ≤ 0 then 1
    else
      let ageSeconds := totalSeconds (now - firedAt)
      if ageSeconds ≤ 0 then 1
      else
        let decay := rt.exp (-(ageSeconds / 86400) / sinceDays)
        if decay < 0 then 0 else if 1 < decay then 1 else decay

/-- What a match of `SimilarIncident` says, without its recency and the score that this gives. -/
structure SimilarIncident where
  incidentId : String
  signature : String
  alertType : String
  service : Option String
  summary : Option String
  firedAt : Option Time
  signatureMatch : Bool
  alertTypeMatch : ℚ
  serviceMatch : ℚ
  symptomCosine : ℚ

/-- `score` of `score_similarity`. -/
def SimilarIncident.score (m : SimilarIncident) (decay : ℚ) : ℚ :=
  let raw := 0.40 * m.alertTypeMatch + 0.30 * m.serviceMatch + 0.30 * m.symptomCosine
  let final := raw * decay + if m.signatureMatch then 0.20 else 0
  if 1 < final then 1 else if final < 0 then 0 else final

/-- `SimilarIncident.model_dump`. -/
def SimilarIncident.dump (m : SimilarIncident) (now : Time) : Json :=
  let decay := recencyMultiplier rt m.firedAt now defaultSinceDays
  .obj [("incident_id", .str m.incidentId), ("score", float rt (m.score decay)),
    ("signature", .str m.signature), ("alert_type", .str m.alertType),
    ("service", optional .str m.service), ("summary", optional .str m.summary),
    ("fired_at", optional (fun t => .str (rt.dumpDatetime t)) m.firedAt),
    ("signature_match", .bool m.signatureMatch), ("alert_type_match", float rt m.alertTypeMatch),
    ("service_match", float rt m.serviceMatch), ("symptom_cosine", float rt m.symptomCosine),
    ("recency_multiplier", float rt decay)]

/-- What the graph and the scoring say of an incident. -/
structure Resolution where
  alert : EntityNodeView
  targetResource : Option EntityNodeView
  responsiblePr : Option EntityNodeView
  slackThreads : List EntityNodeView
  rawConfidence : ℚ
  confidenceThreshold : ℚ
  isProvisional : Bool
  isCalibrated : Bool
  similarPast : List SimilarIncident

/-- `_score_to_band`. -/
def scoreToBand (score : ℚ) : String :=
  if 0.55 ≤ score then "high" else if 0.25 ≤ score then "medium" else "low"

/-- `build_meta`. -/
def buildMeta (r : Resolution) : Json :=
  let below : Metadata := if r.rawConfidence < r.confidenceThreshold then
    [("below_trust_threshold", .bool true), ("confidence_threshold", float rt r.confidenceThreshold)]
    else []
  let provisional : Metadata := if r.isProvisional then [("is_provisional", .bool true)] else []
  if below ++ provisional = [] then .null else .obj (below ++ provisional)

/-- The last two members of every summary. -/
def projectionMembers (node : EntityNodeView) (now : Time) : Metadata :=
  [("staleness", optional (float rt) (computeStaleness node.recordedAt now)),
    ("applied_version", optional .int node.version)]

/-- `AlertSummary`. -/
def alertSummary (node : EntityNodeView) (now : Time) : Json :=
  .obj ([("name", .str node.name), ("kind", .str node.kind), ("source", .str node.source),
    ("chunk_text", optional .str node.chunkText),
    ("valid_from", optional (fun t => .str (rt.dumpDatetime t)) node.validFrom)] ++
    projectionMembers rt node now)

/-- `_summarise_resource`. -/
def summariseResource (now : Time) (node : EntityNodeView) : Json :=
  .obj ([("name", .str node.name), ("kind", .str node.kind), ("source", .str node.source),
    ("edge_type", optional .str node.edgeType)] ++ projectionMembers rt node now)

/-- `_summarise_pr`. -/
def summarisePr (now : Time) (node : EntityNodeView) : Json :=
  .obj ([("name", .str node.name), ("kind", .str node.kind), ("source", .str node.source),
    ("edge_type", optional .str node.edgeType),
    ("merged_at", optional (fun t => .str (rt.dumpDatetime t)) node.validFrom)] ++
    projectionMembers rt node now)

/-- `_summarise_thread`. -/
def summariseThread (now : Time) (node : EntityNodeView) : Json :=
  .obj ([("name", .str node.name), ("kind", .str node.kind), ("source", .str node.source),
    ("chunk_text", optional .str node.chunkText), ("edge_type", optional .str node.edgeType)] ++
    projectionMembers rt node now)

/-- `min_applied_version`: the least version of the evidence. -/
def Resolution.minAppliedVersion (r : Resolution) : Option ℤ :=
  ((r.alert :: r.targetResource.toList ++ r.responsiblePr.toList ++ r.slackThreads).filterMap
    EntityNodeView.version).min?

/-- `mcp_resolve_incident`.  The ages of the evidence are those at `effective_as_of`. -/
def mcpResolveIncident (r : Resolution) (asOf : Option Time) (clock : Clock) : Json :=
  let now := resolveEffectiveAsOf asOf clock.now
  .obj [("alert", alertSummary rt r.alert now),
    ("target_resource", optional (summariseResource rt now) r.targetResource),
    ("responsible_pr", optional (summarisePr rt now) r.responsiblePr),
    ("slack_threads", .arr (r.slackThreads.map (summariseThread rt now))),
    ("resolution_confidence", if r.isCalibrated then float rt r.rawConfidence else .null),
    ("evidence_recency", float rt 1), ("inferential_confidence", float rt 1),
    ("uncalibrated", .bool r.isProvisional), ("calibrated", .bool r.isCalibrated),
    ("confidence_band", if r.isCalibrated then .null else .str (scoreToBand r.rawConfidence)),
    ("degraded_subsystems", .arr []), ("snapshot_id", .null),
    ("effective_as_of", .str (rt.dumpDatetime now)), ("meta", buildMeta rt r),
    ("similar_past", .arr (r.similarPast.map fun m => m.dump rt clock.similarNow)),
    ("min_applied_version", optional .int r.minAppliedVersion)]

end Omniscience.Audit
