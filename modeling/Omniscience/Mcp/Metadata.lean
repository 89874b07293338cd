import Omniscience.Base.Mapping
import Omniscience.Base.Uuid
import Omniscience.Lib.Dict
import Mathlib.Data.Rat.Floor

/-!
# Response metadata

`build_response_meta` says of every answer of a tool how fresh its sources are (`_freshness`),
whether the projections were level with the authority (`_consistency`), which contract it follows,
and whether the consumer has to fall back to the sources themselves.

The sources of an answer are read off its payload: `_collect_lineage` walks the whole value and takes
the identifiers under its explicit keys (`mem_extractUsedSourceIds`).

* `fallback_evidence` : an answer without fallback has lineage, a fresh and healthy snapshot of every
  source of it, no degraded subsystem, no lag and a pinnable commit.

The lag counts only as an integer, which is what the contract asks for: any other value is no
evidence, and a positive float next to a watermark does not make the consumer fall back
(`float_lag_no_fallback`).

Times are instants in microseconds; ages are taken as exact.
-/

namespace Omniscience.Mcp

open Mapping List

/-- A `datetime`: what the clock shows, in microseconds, and the offset of an aware one. -/
structure Datetime where
  /-- The time shown. -/
  wall : ℤ
  /-- `tzinfo.utcoffset`, in microseconds. -/
  offset : Option ℤ
  deriving DecidableEq, Repr

/-- `_utc`: a naive time is taken as one of the universal time. -/
def utc (value : Datetime) : ℤ :=
  match value.offset with
  | none => value.wall
  | some offset => value.wall - offset

/-- `(later - earlier).total_seconds()`. -/
def totalSeconds (later earlier : ℤ) : ℚ := (later - earlier : ℤ) / 1000000

/-- `SourceSnapshot`. -/
structure SourceSnapshot where
  sourceId : Uuid
  lastSyncAt : Option Datetime
  freshnessSlaSeconds : Option ℤ
  status : String

/-- What the functions below need of the process: the runtime, the text of an instant, the clock, the
packaged contract and the release provenance. -/
structure Process where
  /-- The runtime. -/
  py : Py
  /-- `_wire_time`. -/
  wireTime : ℤ → String
  /-- `datetime.now(UTC)`. -/
  clock : Datetime
  /-- `tool_schema_sha256`, read from the packaged contract. -/
  toolSchemaSha256 : String → Except Exc String
  /-- `resolve_source_commit()`. -/
  resolveSourceCommit : Except Exc String

/-! ### Lineage -/

/-- `_as_uuid`. -/
def asUuid (py : Py) (value : Json) : Option Uuid := Uuid.parse (py.str value)

/-- `collected.add(parsed)`, if there is one. -/
def addParsed (parsed : Option Uuid) (collected : List Uuid) : List Uuid :=
  match parsed with
  | none => collected
  | some u => collected.insert u

/-- `item.get("id") if isinstance(item, dict) else item`. -/
def candidate : Json → Json
  | .obj members => Mapping.get members "id"
  | item => item

mutual

/-- `_collect_lineage`. -/
def collectLineage (py : Py) (collected : List Uuid) : Json → List Uuid
  | .arr items => collectItems py collected items
  | .obj members => collectMembers py collected members
  | _ => collected

/-- The loop over the items of a list. -/
def collectItems (py : Py) (collected : List Uuid) : List Json → List Uuid
  | [] => collected
  | item :: rest => collectItems py (collectLineage py collected item) rest

/-- The loop over the members of a dictionary. -/
def collectMembers (py : Py) (collected : List Uuid) : List (String × Json) → List Uuid
  | [] => collected
  | (key, item) :: rest =>
    if key = "source_id" then collectMembers py (addParsed (asUuid py item) collected) rest
    else if key = "source" then
      let collected := addParsed (asUuid py (candidate item)) collected
      match item with
      | .obj members => collectMembers py (collectMembers py collected members) rest
      | _ => collectMembers py collected rest
    else collectMembers py (collectLineage py collected item) rest

end

/-- The roots of the lineage in the payload of a tool. -/
def roots : String → List String
  | "search" => ["hits"]
  | "get_document" => ["document"]
  | "get_entity" => ["entity"]
  | "get_related_entities" => ["seed", "related"]
  | "list_entities" => ["entities"]
  | "list_sources" => ["sources"]
  | "source_stats" => ["id"]
  | "resolve_incident" =>
    ["alert", "target_resource", "responsible_pr", "slack_threads", "similar_past"]
  | "incident_timeline" => ["events", "incident"]
  | "blast_radius" => ["seed", "impacts"]
  | "replay_context" => ["response", "replay"]
  | "suggest_runbook" => ["suggestions"]
  | "find_similar_incidents" => ["incident", "matches"]
  | "generate_postmortem" => ["report", "timeline", "evidence"]
  | _ => []

/-- `for source in value`: the items of a list; iterating over the keys of a dictionary or over a
text gives texts, and other values cannot be iterated. -/
def iterate : Json → Except Exc (List Json)
  | .arr items => .ok items
  | .obj members => .ok (members.map fun member => .str member.1)
  | .str text => .ok (text.toList.map fun c => .str (String.singleton c))
  | value => .error ⟨.typeError, "'" ++ value.typeName ++ "' object is not iterable"⟩

/-- The loop of `list_sources` over the sources of the payload. -/
def collectSources (py : Py) (collected : List Uuid) : List Json → List Uuid
  | [] => collected
  | .obj source :: rest =>
    collectSources py (addParsed (asUuid py (Mapping.get source "id")) collected) rest
  | _ :: rest => collectSources py collected rest

/-- `extract_used_source_ids`. -/
def extractUsedSourceIds (py : Py) (toolName : String) (payload : Metadata) :
    Except Exc (List Uuid) :=
  if toolName = "list_sources" then
    (iterate (getD payload "sources" (.arr []))).map (collectSources py [])
  else
    .ok ((roots toolName).foldl (fun collected root =>
      if root = "id" ∧ toolName = "source_stats" then
        addParsed ((asUuid py (Mapping.get payload root)).orElse fun _ =>
          asUuid py (Mapping.get payload "source_id")) collected
      else collectLineage py collected (Mapping.get payload root)) [])

/-! ### Freshness -/

/-- The lists that the loop over the sources fills. -/
structure Classes where
  neverSynced : List Uuid := []
  unknownSla : List Uuid := []
  stale : List Uuid := []
  degraded : List Uuid := []
  postBoundary : List Uuid := []
  ages : List ℚ := []

/-- One turn of the loop. -/
def classify (snapshots : Dict Uuid SourceSnapshot) (evidenceBoundary : ℤ) (c : Classes)
    (sourceId : Uuid) : Classes :=
  match snapshots.get? sourceId with
  | none => c
  | some snapshot =>
    let c := if snapshot.status = "error" then { c with degraded := c.degraded ++ [sourceId] } else c
    match snapshot.lastSyncAt with
    | none => { c with neverSynced := c.neverSynced ++ [sourceId] }
    | some lastSyncAt =>
      let syncedAt := utc lastSyncAt
      if evidenceBoundary < syncedAt then { c with postBoundary := c.postBoundary ++ [sourceId] }
      else
        let age := max 0 (totalSeconds evidenceBoundary syncedAt)
        let c := { c with ages := c.ages ++ [age] }
        match snapshot.freshnessSlaSeconds with
        | none => { c with unknownSla := c.unknownSla ++ [sourceId] }
        | some sla => if (sla : ℚ) < age then { c with stale := c.stale ++ [sourceId] } else c

/-- The `freshness` block. -/
structure Freshness where
  status : String
  evaluatedAt : String
  oldestSourceAgeSeconds : Option ℤ
  staleSourceIds : List String
  /-- `degraded_source_ids`, which is left out where there are none. -/
  degradedSourceIds : List String := []
  reason : Option String

/-- The status and the reason that the classes come to. -/
def verdict (missing : List Uuid) (c : Classes) : String × Option String :=
  if c.degraded ≠ [] then ("degraded", some "source_degraded")
  else if c.stale ≠ [] then ("stale", some "stale_source")
  else if c.neverSynced ≠ [] then ("unknown", some "never_synced")
  else if missing ≠ [] ∨ c.postBoundary ≠ [] ∨ c.unknownSla ≠ [] then
    ("unknown", some (if missing ≠ [] ∨ c.postBoundary ≠ [] then "missing_lineage"
      else "freshness_sla_unknown"))
  else ("fresh", none)

/-- The boundary of the evidence: the time asked for, or that of the evaluation. -/
def evidenceBoundary (now : Datetime) (effectiveAt : Option Datetime) : ℤ :=
  match effectiveAt with
  | some t => utc t
  | none => utc now

/-- `_freshness`. -/
def freshness (p : Process) (sourceIds : List Uuid) (snapshots : Dict Uuid SourceSnapshot)
    (now : Datetime) (effectiveAt : Option Datetime) : Freshness × Option String :=
  if sourceIds = [] then
    (⟨"unknown", p.wireTime (utc now), none, [], [], some "missing_lineage"⟩,
      some "missing_lineage")
  else
    let missing := sourceIds.filter fun u => !snapshots.contains u
    let c := (sourceIds.insertionSort fun u v => u.str ≤ v.str).foldl
      (classify snapshots (evidenceBoundary now effectiveAt)) {}
    let (status, reason) := verdict missing c
    (⟨status, p.wireTime (utc now), c.ages.max?.map Int.ceil, c.stale.map Uuid.str,
      c.degraded.map Uuid.str, reason⟩, reason)

/-! ### Consistency -/

/-- The nested `meta` of a payload, where it is a dictionary. -/
def nestedMeta (payload : Metadata) : Metadata :=
  match Mapping.get payload "meta" with
  | .obj nested => nested
  | _ => []

/-- The list of degraded subsystems that the payload names, at the top or in its `meta`. -/
def degradedValue (payload : Metadata) : Json :=
  getD payload "degraded_subsystems"
    (getD (nestedMeta payload) "degraded_subsystems" (.arr []))

/-- The lag that the payload names, at the top or in its `meta`. -/
def lagValue (payload : Metadata) : Json :=
  getD payload "projection_lag_versions"
    (Mapping.get (nestedMeta payload) "projection_lag_versions")

/-- The texts of a list of texts that are not empty; `none` if there is another item. -/
def nonEmptyTexts : List Json → Option (List String)
  | [] => some []
  | .str text :: rest => if text = "" then none else (nonEmptyTexts rest).map (text :: ·)
  | _ :: _ => none

/-- `NO_PROJECTION_READ_TOOLS`. -/
def noProjectionReadTools : List String := ["get_document", "list_sources", "source_stats"]

/-- The `consistency` block. -/
structure Consistency where
  status : String
  degradedSubsystems : List String
  projectionLagVersions : ℤ

/-- `degraded`: the subsystems of a list of texts, sorted; any other value names none. -/
def degradedSubsystems (payload : Metadata) : List String :=
  match degradedValue payload with
  | .arr items =>
    match nonEmptyTexts items with
    | some texts => texts.dedup.insertionSort (· ≤ ·)
    | none => []
  | _ => []

/-- The lag, where the payload has evidence of it: an integer that is not negative. -/
def lagEvidence (payload : Metadata) : Option ℤ :=
  match lagValue payload with
  | .int n => if 0 ≤ n then some n else none
  | _ => none

/-- `has_watermark_evidence`. -/
def hasWatermarkEvidence (payload : Metadata) : Bool :=
  match Mapping.get payload "pinned_watermark" with
  | .null => false
  | _ => true

/-- `_consistency`. -/
def consistency (toolName : String) (payload : Metadata) : Consistency × Option String :=
  let degraded := degradedSubsystems payload
  let lag := (lagEvidence payload).getD 0
  if degraded ≠ [] ∨ 0 < lag then
    (⟨"degraded", degraded, lag⟩, some "projection_divergence")
  else if (lagEvidence payload).isSome ∨ hasWatermarkEvidence payload ∨
      toolName ∈ noProjectionReadTools then
    (⟨"converged", [], 0⟩, none)
  else (⟨"unknown", [], 0⟩, some "consistency_unknown")

/-! ### The metadata of a response -/

/-- `CONTRACT_VERSION`. -/
def contractVersion : String := "1.0.0"

/-- `_DEVELOPMENT_COMMIT`. -/
def developmentCommit : String := String.ofList (List.replicate 40 '0')

/-- `is_pinnable_source_commit`: forty lower-case hexadecimal digits that are not all zero. -/
def isPinnableSourceCommit (commit : String) : Bool :=
  commit.toList.length = 40 ∧
    commit.toList.all (fun c => '0' ≤ c ∧ c ≤ '9' ∨ 'a' ≤ c ∧ c ≤ 'f') ∧
    commit ≠ developmentCommit

/-- The `contract` block. -/
structure ContractBlock where
  version : String
  commit : String
  schemaSha256 : String

/-- The `fallback` block. -/
structure Fallback where
  required : Bool
  reason : Option String

/-- What `build_response_meta` returns. -/
structure ResponseMeta where
  contract : ContractBlock
  workspaceId : String
  generatedAt : String
  effectiveAsOf : String
  freshness : Freshness
  consistency : Consistency
  fallback : Fallback

/-- The arguments of `build_response_meta`. -/
structure Response where
  toolName : String
  payload : Metadata
  workspaceId : Uuid
  sourceSnapshots : Dict Uuid SourceSnapshot
  now : Option Datetime := none
  effectiveAsOf : Option Datetime := none
  sourceCommit : Option String := none
  contractMatch : Bool := true

/-- `now or datetime.now(UTC)`. -/
def Response.generated (r : Response) (p : Process) : Datetime := r.now.getD p.clock

/-- `source_commit or resolve_source_commit()`. -/
def Response.commit (r : Response) (p : Process) : Except Exc String :=
  match r.sourceCommit with
  | some commit => if commit = "" then p.resolveSourceCommit else .ok commit
  | none => p.resolveSourceCommit

/-- `build_response_meta`. -/
def buildResponseMeta (p : Process) (r : Response) : Except Exc ResponseMeta := do
  let generated := r.generated p
  let sourceIds ← extractUsedSourceIds p.py r.toolName r.payload
  let (freshness, freshnessReason) :=
    freshness p sourceIds r.sourceSnapshots generated r.effectiveAsOf
  let (consistency, consistencyReason) := consistency r.toolName r.payload
  let commit ← r.commit p
  let reason := freshnessReason.orElse fun _ => consistencyReason
  let reason :=
    if !r.contractMatch || !isPinnableSourceCommit commit then some "contract_mismatch" else reason
  let schemaSha256 ← p.toolSchemaSha256 r.toolName
  return {
    contract := ⟨contractVersion, commit, schemaSha256⟩
    workspaceId := r.workspaceId.str
    generatedAt := p.wireTime (utc generated)
    effectiveAsOf := p.wireTime (utc (r.effectiveAsOf.getD generated))
    freshness := freshness
    consistency := consistency
    fallback := ⟨reason.isSome, reason⟩ }

/-! ### What the lineage of a payload is -/

/-- An identifier under an explicit lineage key of a value: a `source_id`, a `source`, or the `id` of
a `source`; what is under a `source_id` is not looked into. -/
inductive Lineage (py : Py) (u : Uuid) : Json → Prop
  | item {items : List Json} {v : Json} (h : v ∈ items) (hv : Lineage py u v) :
    Lineage py u (.arr items)
  | sourceId {members : List (String × Json)} {v : Json} (h : ("source_id", v) ∈ members)
    (hv : asUuid py v = some u) : Lineage py u (.obj members)
  | source {members : List (String × Json)} {v : Json} (h : ("source", v) ∈ members)
    (hv : asUuid py (candidate v) = some u) : Lineage py u (.obj members)
  | inSource {members inner : List (String × Json)} (h : ("source", .obj inner) ∈ members)
    (hv : Lineage py u (.obj inner)) : Lineage py u (.obj members)
  | member {members : List (String × Json)} {key : String} {v : Json} (h : (key, v) ∈ members)
    (hid : key ≠ "source_id") (hsource : key ≠ "source") (hv : Lineage py u v) :
    Lineage py u (.obj members)

variable {py : Py} {u : Uuid} {collected : List Uuid}

theorem mem_addParsed {parsed : Option Uuid} :
    u ∈ addParsed parsed collected ↔ u ∈ collected ∨ parsed = some u := by
  cases parsed with
  | none => simp [addParsed]
  | some v => simp [addParsed, mem_insert_iff, or_comm, eq_comm]

theorem lineage_arr_cons {v : Json} {rest : List Json} :
    Lineage py u (.arr (v :: rest)) ↔ Lineage py u v ∨ Lineage py u (.arr rest) := by
  constructor
  · rintro (@⟨_, w, h, hw⟩)
    rcases mem_cons.1 h with rfl | h
    · exact .inl hw
    · exact .inr (.item h hw)
  · rintro (h | @⟨_, w, h, hw⟩)
    · exact .item mem_cons_self h
    · exact .item (mem_cons_of_mem _ h) hw

/-- What the first member of a dictionary adds. -/
def HeadLineage (py : Py) (u : Uuid) (key : String) (v : Json) : Prop :=
  if key = "source_id" then asUuid py v = some u
  else if key = "source" then
    asUuid py (candidate v) = some u ∨ ∃ inner, v = .obj inner ∧ Lineage py u (.obj inner)
  else Lineage py u v

theorem lineage_obj_iff {members : List (String × Json)} :
    Lineage py u (.obj members) ↔ ∃ m ∈ members, HeadLineage py u m.1 m.2 := by
  constructor
  · intro h
    generalize hobj : Json.obj members = w at h
    cases h with
    | item h hv => cases hobj
    | sourceId h hv =>
      cases hobj
      exact ⟨_, h, hv⟩
    | source h hv =>
      cases hobj
      exact ⟨_, h, .inl hv⟩
    | inSource h hv =>
      cases hobj
      exact ⟨_, h, .inr ⟨_, rfl, hv⟩⟩
    | member h hid hsource hv =>
      cases hobj
      refine ⟨_, h, ?_⟩
      rw [HeadLineage, if_neg hid, if_neg hsource]
      exact hv
  · rintro ⟨⟨key, v⟩, hmem, h⟩
    unfold HeadLineage at h
    split at h
    · rename_i hkey
      obtain rfl : key = "source_id" := hkey
      exact .sourceId hmem h
    · rename_i hid
      split at h
      · rename_i hkey
        obtain rfl : key = "source" := hkey
        rcases h with h | ⟨inner, hinner, h⟩
        · exact .source hmem h
        · obtain rfl : v = .obj inner := hinner
          exact .inSource hmem h
      · rename_i hsource
        exact .member hmem hid hsource h

theorem lineage_obj_cons {key : String} {v : Json} {rest : List (String × Json)} :
    Lineage py u (.obj ((key, v) :: rest)) ↔ HeadLineage py u key v ∨ Lineage py u (.obj rest) := by
  rw [lineage_obj_iff, lineage_obj_iff, exists_mem_cons_iff]

theorem not_lineage_nil : ¬ Lineage py u (.obj []) := by
  rw [lineage_obj_iff]
  rintro ⟨m, hm, -⟩
  cases hm

theorem not_lineage_arr_nil : ¬ Lineage py u (.arr []) := by
  rintro (@⟨_, w, h, -⟩)
  cases h

mutual

/-- **What is collected from a value is its lineage.** -/
theorem mem_collectLineage : ∀ (v : Json) (collected : List Uuid),
    u ∈ collectLineage py collected v ↔ u ∈ collected ∨ Lineage py u v
  | .arr items, collected => mem_collectItems items collected
  | .obj members, collected => mem_collectMembers members collected
  | .null, _ => ⟨.inl, fun h => h.elim id nofun⟩
  | .bool _, _ => ⟨.inl, fun h => h.elim id nofun⟩
  | .int _, _ => ⟨.inl, fun h => h.elim id nofun⟩
  | .float _, _ => ⟨.inl, fun h => h.elim id nofun⟩
  | .str _, _ => ⟨.inl, fun h => h.elim id nofun⟩

theorem mem_collectItems : ∀ (items : List Json) (collected : List Uuid),
    u ∈ collectItems py collected items ↔ u ∈ collected ∨ Lineage py u (.arr items)
  | [], collected => ⟨.inl, fun h => h.elim id fun hn => absurd hn not_lineage_arr_nil⟩
  | item :: rest, collected => by
    rw [collectItems, mem_collectItems rest, mem_collectLineage item, lineage_arr_cons, or_assoc]

theorem mem_collectMembers : ∀ (members : List (String × Json)) (collected : List Uuid),
    u ∈ collectMembers py collected members ↔ u ∈ collected ∨ Lineage py u (.obj members)
  | [], collected => ⟨.inl, fun h => h.elim id fun hn => absurd hn not_lineage_nil⟩
  | (key, item) :: rest, collected => by
    rw [collectMembers, lineage_obj_cons, HeadLineage]
    split
    · rw [mem_collectMembers rest, mem_addParsed, or_assoc]
    · split
      · cases item with
        | obj members =>
          dsimp only
          rw [mem_collectMembers rest, mem_collectMembers members, mem_addParsed]
          simp [or_assoc]
        | _ =>
          dsimp only
          rw [mem_collectMembers rest, mem_addParsed]
          simp [or_assoc]
      · rw [mem_collectMembers rest, mem_collectLineage item, or_assoc]

end

/-- The sources that an answer of a tool is about. -/
def Used (py : Py) (toolName : String) (payload : Metadata) (u : Uuid) : Prop :=
  if toolName = "list_sources" then
    ∃ items source, iterate (getD payload "sources" (.arr [])) = .ok items ∧
      .obj source ∈ items ∧ asUuid py (Mapping.get source "id") = some u
  else if toolName = "source_stats" then
    ((asUuid py (Mapping.get payload "id")).orElse fun _ =>
      asUuid py (Mapping.get payload "source_id")) = some u
  else ∃ root ∈ roots toolName, Lineage py u (Mapping.get payload root)

theorem mem_collectSources {items : List Json} : u ∈ collectSources py collected items ↔
    u ∈ collected ∨
      ∃ source, .obj source ∈ items ∧ asUuid py (Mapping.get source "id") = some u := by
  induction items generalizing collected with
  | nil => simp [collectSources]
  | cons item rest ih =>
    cases item with
    | obj source => simp [collectSources, ih, mem_addParsed, or_and_right, exists_or, or_assoc]
    | _ => simp [collectSources, ih]

/-- **The sources of an answer** are those under its explicit lineage keys, whatever its shape. -/
theorem mem_extractUsedSourceIds {toolName : String} {payload : Metadata} {ids : List Uuid}
    (h : extractUsedSourceIds py toolName payload = .ok ids) :
    u ∈ ids ↔ Used py toolName payload u := by
  unfold extractUsedSourceIds at h
  unfold Used
  split at h
  · rename_i htool
    cases hitems : iterate (getD payload "sources" (.arr [])) with
    | error e =>
      rw [hitems] at h
      cases h
    | ok items =>
      rw [hitems] at h
      cases h
      rw [if_pos htool, mem_collectSources]
      simp
  · rename_i htool
    cases h
    rw [if_neg htool]
    split
    · rename_i hstats
      obtain rfl : toolName = "source_stats" := hstats
      have hroots : roots "source_stats" = ["id"] := by decide
      simp [hroots, mem_addParsed]
    · rename_i hstats
      have hfold : ∀ (names : List String) (collected : List Uuid),
          u ∈ names.foldl (fun collected root =>
            collectLineage py collected (Mapping.get payload root)) collected ↔
              u ∈ collected ∨ ∃ root ∈ names, Lineage py u (Mapping.get payload root) := by
        intro names
        induction names with
        | nil => simp
        | cons root names ih => simp [ih, mem_collectLineage, or_assoc]
      simp only [hstats, and_false, if_false]
      simp [hfold]

theorem mem_extractUsedSourceIds_search :
    let hit (u : Uuid) (rest : Metadata) : Json := .obj (("source_id", .str u.str) :: rest)
    let payload : Metadata := [("hits", .arr [hit 1 [("inner", hit 2 [])]])]
    (2 : Uuid) ∈ [2, 1] ↔ Used Py.sample "search" payload 2 := by
  intro hit payload
  have hids : extractUsedSourceIds Py.sample "search" payload = .ok [2, 1] := by decide +kernel
  exact mem_extractUsedSourceIds hids

/-! ### What a response without fallback rests on -/

/-- The evidence of one source: a snapshot without error, synchronised at or before the boundary and
not older there than the declared bound. -/
def Evident (snapshots : Dict Uuid SourceSnapshot) (boundary : ℤ) (u : Uuid) : Prop :=
  ∃ snapshot synced sla, snapshots.get? u = some snapshot ∧ snapshot.status ≠ "error" ∧
    snapshot.lastSyncAt = some synced ∧ snapshot.freshnessSlaSeconds = some sla ∧
    utc synced ≤ boundary ∧ totalSeconds boundary (utc synced) ≤ sla

/-- The loop has found nothing against the sources it has seen. -/
structure Classes.Clean (c : Classes) : Prop where
  neverSynced : c.neverSynced = []
  unknownSla : c.unknownSla = []
  stale : c.stale = []
  degraded : c.degraded = []
  postBoundary : c.postBoundary = []

variable {snapshots : Dict Uuid SourceSnapshot} {boundary : ℤ} {c : Classes}

theorem classify_clean (h : (classify snapshots boundary c u).Clean) :
    c.Clean ∧ (snapshots.get? u ≠ none → Evident snapshots boundary u) := by
  unfold classify at h
  split at h
  · rename_i hnone
    exact ⟨h, fun hsome => absurd hnone hsome⟩
  · rename_i snapshot hsnapshot
    by_cases hstatus : snapshot.status = "error"
    · -- the source is in the list of the degraded ones, whatever follows
      have hdegraded := h.degraded
      simp only [if_pos hstatus] at hdegraded
      repeat' split at hdegraded
      all_goals simp at hdegraded
    · rw [if_neg hstatus] at h
      cases hsync : snapshot.lastSyncAt with
      | none =>
        rw [hsync] at h
        exact absurd h.neverSynced (by simp)
      | some synced =>
        rw [hsync] at h
        dsimp only at h
        split at h
        · exact absurd h.postBoundary (by simp)
        rename_i hbefore
        cases hsla : snapshot.freshnessSlaSeconds with
        | none =>
          rw [hsla] at h
          exact absurd h.unknownSla (by simp)
        | some sla =>
          rw [hsla] at h
          dsimp only at h
          split at h
          · exact absurd h.stale (by simp)
          rename_i hage
          exact ⟨⟨h.neverSynced, h.unknownSla, h.stale, h.degraded, h.postBoundary⟩, fun _ =>
            ⟨snapshot, synced, sla, hsnapshot, hstatus, hsync, hsla, not_lt.1 hbefore,
              (le_max_right _ _).trans (not_lt.1 hage)⟩⟩

theorem classify_foldl_clean {l : List Uuid} (h : (l.foldl (classify snapshots boundary) c).Clean) :
    c.Clean ∧ ∀ u ∈ l, snapshots.get? u ≠ none → Evident snapshots boundary u := by
  induction l generalizing c with
  | nil => exact ⟨h, nofun⟩
  | cons v rest ih =>
    obtain ⟨hstep, hrest⟩ := ih h
    obtain ⟨hclean, hevident⟩ := classify_clean hstep
    refine ⟨hclean, fun u hu => ?_⟩
    rcases mem_cons.1 hu with rfl | hu
    · exact hevident
    · exact hrest u hu

theorem verdict_none {missing : List Uuid} (h : (verdict missing c).2 = none) :
    missing = [] ∧ c.Clean := by
  unfold verdict at h
  split at h
  · cases h
  rename_i hdegraded
  split at h
  · cases h
  rename_i hstale
  split at h
  · cases h
  rename_i hnever
  split at h
  · cases h
  rename_i hrest
  simp only [not_or, not_not] at hdegraded hstale hnever hrest
  exact ⟨hrest.1, hnever, hrest.2.2, hstale, hdegraded, hrest.2.1⟩

/-- **Freshness without a reason**: there is lineage, and every source of it is evident. -/
theorem freshness_none {p : Process} {sourceIds : List Uuid} {now : Datetime}
    {effectiveAt : Option Datetime}
    (h : (freshness p sourceIds snapshots now effectiveAt).2 = none) :
    sourceIds ≠ [] ∧
      ∀ u ∈ sourceIds, Evident snapshots (evidenceBoundary now effectiveAt) u := by
  unfold freshness at h
  split at h
  · cases h
  rename_i hne
  obtain ⟨hmissing, hclean⟩ := verdict_none h
  refine ⟨hne, fun u hu => ?_⟩
  refine (classify_foldl_clean hclean).2 u ((mem_insertionSort _).2 hu) fun hnone => ?_
  have hcontains := filter_eq_nil_iff.1 hmissing u hu
  simp [Dict.contains, hnone] at hcontains

/-- A list of texts that are not empty. -/
def NonEmptyTexts (items : List Json) : Prop := ∀ v ∈ items, ∃ text, v = .str text ∧ text ≠ ""

theorem nonEmptyTexts_eq {items : List Json} (h : NonEmptyTexts items) :
    ∃ texts, nonEmptyTexts items = some texts ∧ texts.length = items.length := by
  induction items with
  | nil => exact ⟨[], rfl, rfl⟩
  | cons v rest ih =>
    obtain ⟨text, rfl, htext⟩ := h v mem_cons_self
    obtain ⟨texts, heq, hlength⟩ := ih fun w hw => h w (mem_cons_of_mem _ hw)
    exact ⟨text :: texts, by rw [nonEmptyTexts, if_neg htext, heq, Option.map_some],
      by rw [length_cons, hlength, length_cons]⟩

theorem degradedSubsystems_eq_nil {payload : Metadata} (h : degradedSubsystems payload = [])
    {items : List Json} (hitems : degradedValue payload = .arr items)
    (htexts : NonEmptyTexts items) : items = [] := by
  obtain ⟨texts, heq, hlength⟩ := nonEmptyTexts_eq htexts
  unfold degradedSubsystems at h
  simp only [hitems, heq] at h
  have hdedup : texts.dedup = [] := by
    have hperm := perm_insertionSort (fun s t : String => s ≤ t) texts.dedup
    rw [h] at hperm
    exact hperm.symm.eq_nil
  rw [dedup_eq_nil] at hdedup
  rw [hdedup] at hlength
  exact length_eq_zero_iff.1 hlength.symm

/-- **Consistency without a reason**: no subsystem in a list of texts, and no positive integer as the
lag. -/
theorem consistency_none {toolName : String} {payload : Metadata}
    (h : (consistency toolName payload).2 = none) :
    (∀ items, degradedValue payload = .arr items → NonEmptyTexts items → items = []) ∧
      ∀ n, lagValue payload = .int n → n ≤ 0 := by
  unfold consistency at h
  dsimp only at h
  split at h
  · cases h
  rename_i hclear
  rw [not_or, not_not, not_lt] at hclear
  refine ⟨fun items => degradedSubsystems_eq_nil hclear.1, fun n hn => ?_⟩
  have hlag := hclear.2
  rw [lagEvidence, hn] at hlag
  dsimp only at hlag
  by_cases hneg : 0 ≤ n
  · rw [if_pos hneg] at hlag
    exact hlag
  · exact (not_le.1 hneg).le

theorem orElse_eq_none {α : Type} {a b : Option α} (h : (a.orElse fun _ => b) = none) :
    a = none ∧ b = none := by
  cases a with
  | none => exact ⟨rfl, h⟩
  | some x => cases h

/-- The evidence behind a response: the lineage of its payload, the snapshots of all its sources, the
consistency of the projections and the commit of the contract. -/
structure Evidence (p : Process) (r : Response) (m : ResponseMeta) : Prop where
  /-- There is lineage, and every source of it is evident at the boundary. -/
  lineage : ∃ sourceIds, extractUsedSourceIds p.py r.toolName r.payload = .ok sourceIds ∧
    sourceIds ≠ [] ∧ ∀ u ∈ sourceIds,
      Evident r.sourceSnapshots (evidenceBoundary (r.generated p) r.effectiveAsOf) u
  /-- The payload names no degraded subsystem: at the top no item, and below no list of texts. -/
  degraded : (∀ v, r.payload.lookup "degraded_subsystems" = some v → v = .arr []) ∧
    ∀ items, degradedValue r.payload = .arr items → NonEmptyTexts items → items = []
  /-- The lag is no positive integer. -/
  lag : ∀ n, lagValue r.payload = .int n → n ≤ 0
  /-- The commit is pinnable and the contract matches. -/
  contract : isPinnableSourceCommit m.contract.commit = true ∧ r.contractMatch = true

/-- **No fallback without evidence.** -/
theorem fallback_evidence {p : Process} {r : Response} {m : ResponseMeta}
    (hdegraded : ∀ v, r.payload.lookup "degraded_subsystems" = some v →
      ∃ items, v = .arr items ∧ NonEmptyTexts items)
    (h : buildResponseMeta p r = .ok m) (hfallback : m.fallback.required = false) :
    Evidence p r m := by
  unfold buildResponseMeta at h
  obtain ⟨sourceIds, hsources, h⟩ := bind_eq_ok_iff.1 h
  obtain ⟨commit, hcommit, h⟩ := bind_eq_ok_iff.1 h
  obtain ⟨schemaSha256, hschema, h⟩ := bind_eq_ok_iff.1 h
  cases h
  have hreason := Option.isSome_eq_false_iff.1 hfallback
  rw [Option.isNone_iff_eq_none] at hreason
  split at hreason
  · cases hreason
  rename_i hmatch
  simp only [Bool.or_eq_true, Bool.not_eq_true', not_or, Bool.not_eq_false] at hmatch
  obtain ⟨hfresh, hconsistent⟩ := orElse_eq_none hreason
  obtain ⟨hitems, hlag⟩ := consistency_none hconsistent
  refine ⟨⟨sourceIds, hsources, freshness_none hfresh⟩, ⟨fun v hv => ?_, hitems⟩, hlag,
    hmatch.2, hmatch.1⟩
  obtain ⟨items, rfl, htexts⟩ := hdegraded v hv
  rw [hitems items (getD_of_lookup hv _) htexts]

/-! ### A lag that is no integer -/

/-- A source of the answers below. -/
def sampleSource : Uuid := 1#128

/-- A process with the packaged contract and a release commit. -/
def sampleProcess : Process where
  py := Py.sample
  wireTime _ := "1970-01-01T00:00:00Z"
  clock := ⟨0, none⟩
  toolSchemaSha256 _ := .ok ""
  resolveSourceCommit := .ok (String.ofList (List.replicate 40 'a'))

/-- An answer of `source_stats` with some further fields, the source synchronised a second ago. -/
def sampleResponse (fields : Metadata) : Response where
  toolName := "source_stats"
  payload := ("id", .str sampleSource.str) :: fields
  workspaceId := 2#128
  sourceSnapshots :=
    Dict.empty.set sampleSource ⟨sampleSource, some ⟨-1000000, none⟩, some 60, "active"⟩

/-- The answer is built, and it needs no fallback. -/
def needsNoFallback (p : Process) (r : Response) : Bool :=
  match buildResponseMeta p r with
  | .ok m => !m.fallback.required
  | .error _ => false

theorem needsNoFallback_iff {p : Process} {r : Response} : needsNoFallback p r = true ↔
      ∃ m, buildResponseMeta p r = .ok m ∧ m.fallback.required = false := by
  unfold needsNoFallback
  cases buildResponseMeta p r with
  | error exc => simp
  | ok m => simp

/-- An answer without fallback has its evidence. -/
theorem fallback_evidence_sample :
    ∃ m, buildResponseMeta sampleProcess (sampleResponse []) = .ok m ∧
      Evidence sampleProcess (sampleResponse []) m := by
  have hnone : needsNoFallback sampleProcess (sampleResponse []) = true := by decide +kernel
  obtain ⟨m, hm, hfallback⟩ := needsNoFallback_iff.1 hnone
  refine ⟨m, hm, fallback_evidence ?_ hm hfallback⟩
  intro v hv
  cases hv

/-- A lag of two and a half versions does not make the consumer fall back. -/
theorem float_lag_no_fallback : ∃ m, buildResponseMeta sampleProcess
        (sampleResponse [("projection_lag_versions", .float "2.5")]) = .ok m ∧
      m.fallback.required = false ∧
      (sampleResponse [("projection_lag_versions", .float "2.5")]).payload.lookup
        "degraded_subsystems" = none ∧
      lagValue (sampleResponse [("projection_lag_versions", .float "2.5")]).payload =
        .float "2.5" := by
  have hnone : needsNoFallback sampleProcess
      (sampleResponse [("projection_lag_versions", .float "2.5")]) = true := by decide +kernel
  obtain ⟨m, hm, hfallback⟩ := needsNoFallback_iff.1 hnone
  exact ⟨m, hm, hfallback, by decide, rfl⟩

end Omniscience.Mcp
