import Omniscience.Stores.PostgresOnly

/-!
# The GraphRAG composer

`GraphRAGComposer` (`omniscience_retrieval/graph_rag.py`) answers a search in stages: an anchor
entity that the request names is looked up in the graph, the sources of the traversed nodes become
the candidates, the vector store is searched with a widened request, and the hits are scored
again, cut to a page and checked against Postgres.

The widened request carries the candidates *instead of* the sources of the caller.  So the source
filter of a request holds for its hits when the anchor stage yields no candidates; otherwise the
hits are confined to the candidates.  Floats are rational numbers here.

* `hits_confined` : where the hits of the composer and of the Lite store come from.
-/

namespace Omniscience.GraphRag

open Retrieval Ledger List

def maxAnchorDepth : ℕ := 2

def candidateExpansionFactor : ℕ := 3

def maxAnchorCandidates : ℕ := 32

def mergeAlpha : ℚ := 25 / 100

def graphAffinityBase : ℚ := 1

def anchorFilterKey : String := "graphrag_anchor"

def degradedPreHistory : String := "as_of_before_recorded_history"

def graphragBudgetChars : ℕ := 24000

/-! ### The anchor -/

/-- `c.isspace()`. -/
def isSpace (c : Char) : Bool :=
  let n := c.toNat
  (9 ≤ n && n ≤ 13) || (28 ≤ n && n ≤ 32) || n == 0x85 || n == 0xA0 || n == 0x1680 ||
    (0x2000 ≤ n && n ≤ 0x200A) || n == 0x2028 || n == 0x2029 || n == 0x202F || n == 0x205F ||
    n == 0x3000

/-- `text.strip()`. -/
def strip (text : String) : String :=
  String.ofList ((text.toList.dropWhile isSpace).rdropWhile isSpace)

/-- `_extract_anchor`. -/
def extractAnchor (request : SearchRequest) : String :=
  match (request.filters.getD []).lookup anchorFilterKey with
  | some (.str text) => strip text
  | _ => ""

/-- `_strip_anchor_filter`. -/
def stripAnchorFilter (filters : Option Metadata) : Option Metadata :=
  match filters with
  | none => none
  | some members =>
    if anchorFilterKey ∈ members.map Prod.fst then
      let cleaned := members.filter fun p => p.1 ≠ anchorFilterKey
      if cleaned = [] then none else some cleaned
    else some members

/-- A candidate source, with the depth and the flag of the node that it comes from. -/
structure Candidate where
  source : String
  depth : ℕ
  parked : Bool
  deriving DecidableEq, Repr

/-- The number of ends of edges at an entity. -/
def degree (edges : List GraphEdgeView) (name : String) : ℕ :=
  (edges.map GraphEdgeView.fromEntity).count name + (edges.map GraphEdgeView.toEntity).count name

/-- The key order of the related nodes: higher degrees first, then smaller depths. -/
def before (edges : List GraphEdgeView) (a b : EntityNodeView) : Prop :=
  degree edges b.name < degree edges a.name ∨
    degree edges a.name = degree edges b.name ∧ a.depth ≤ b.depth

instance (edges : List GraphEdgeView) : DecidableRel (before edges) := fun _ _ =>
  inferInstanceAs (Decidable (_ ∨ _))

/-- The loop over the sorted nodes: one candidate for each new source, up to the limit. -/
def collect : List EntityNodeView → List Candidate → List Candidate
  | [], acc => acc
  | node :: rest, acc =>
    if node.source ∈ acc.map Candidate.source then collect rest acc
    else
      let acc := acc ++ [⟨node.source, node.depth, node.isParked⟩]
      if maxAnchorCandidates ≤ acc.length then acc else collect rest acc

/-- The highest degree among the nodes of each source. -/
def centralities (edges : List GraphEdgeView) (nodes : List EntityNodeView) : Dict String ℕ :=
  nodes.foldl
    (fun d node => d.set node.source (max (d.getD node.source 0) (degree edges node.name))) .empty

/-- `_collect_candidates`. -/
def collectCandidates (graph : GraphResultView) : List Candidate × Dict String ℕ :=
  let sorted := graph.related.insertionSort (before graph.edges)
  (collect sorted [⟨graph.seed.source, 0, graph.seed.isParked⟩],
    centralities graph.edges (sorted ++ [graph.seed]))

/-- `_AnchorStageResult`. -/
structure AnchorStageResult where
  candidates : List Candidate := []
  candidateCentralities : Dict String ℕ := .empty
  anchorName : String := ""
  anchorHit : Bool := false
  anchorRequested : Bool := false

/-! ### The collaborators -/

/-- A row of `entities`, as far as it is read. -/
structure EntityRow where
  name : String
  sourceId : Uuid
  chunkId : Option Uuid := none

/-- The database that hits and entities are checked against. -/
structure Database where
  tables : Tables := {}
  entities : List EntityRow := []

/-- What `wait_for_convergence` returns. -/
structure Convergence where
  degraded : List String := []
  staleness : Option ℚ := none
  minWatermark : Option ℤ := none
  perSourceWatermark : Watermarks := .empty

/-- What a composer is made of.  `graphragActive` says that the pair of stores is one of the two
that the composer knows; `confidence` and `impact` are the functions of `probabilistic_scoring`, and
`int` is the constructor of integers from text. -/
structure Composer where
  graphragActive : Bool := true
  traverse : String → Uuid → Option DateTime → ℕ → Except Exc GraphResultView
  vectorSearch : Search
  legacySearch : SearchRequest → Except Exc SearchResult
  database : Option Database := none
  globalReconciler : Option (Uuid → Except Exc Convergence) := none
  isEntityParked : Option (Uuid → Bool) := none
  strictEpoch : Bool := true
  confidence : String → ℕ → ℕ → Option DateTime → Bool → ℚ
  impact : String → ℕ → ℕ → ℕ → Option DateTime → ℚ
  int : String → Option ℤ

/-- The source is active and belongs to the workspace. -/
def Source.serves (source : Source) (workspaceId : Uuid) : Bool :=
  decide (source.tenantId = some workspaceId) && decide (source.status = .active)

/-- The document of a chunk. -/
def Database.documentOf (db : Database) (chunkId : Uuid) : Option (Key × Document) :=
  db.tables.documents.items.find? fun p => decide (chunkId ∈ p.2.chunks.map Chunk.id)

/-- `_validate_entities`. -/
def validateEntities (db : Option Database) (names : List String) (workspaceId : Uuid) :
    List String :=
  match db with
  | none => names
  | some db =>
    (db.entities.filter fun e =>
      decide (e.name ∈ names) &&
        (db.tables.sources.any fun source =>
          decide (source.id = e.sourceId) && Source.serves source workspaceId) &&
        ((e.chunkId.bind db.documentOf).all fun p => p.2.tombstonedAt.isNone)).map EntityRow.name

/-- The chunk is one of a document that is not tombstoned, in an active source of the workspace. -/
def validChunk (db : Database) (workspaceId chunkId : Uuid) : Bool :=
  (db.documentOf chunkId).any fun p =>
    p.2.tombstonedAt.isNone && db.tables.sources.any fun source =>
      decide (source.id = p.1.1) && Source.serves source workspaceId

/-- `_validate_hits`. -/
def validateHits (db : Option Database) (hits : List SearchHit) (workspaceId : Uuid) :
    List SearchHit :=
  match db with
  | none => hits
  | some db => hits.filter fun hit => validChunk db workspaceId hit.chunkId

/-! ### The stages -/

/-- The nodes with their parked flags. -/
def markParked (isEntityParked : Option (Uuid → Bool)) (graph : GraphResultView) :
    GraphResultView :=
  match isEntityParked with
  | none => graph
  | some parked =>
    let mark (node : EntityNodeView) : EntityNodeView := { node with isParked := parked node.id }
    { graph with seed := mark graph.seed, related := graph.related.map mark }

/-- The traversal cut to the watermarks; `none` if its seed was excluded.  An empty map is no map
here. -/
def pinGraph (strictEpoch : Bool) (watermarks : Option Watermarks) (graph : GraphResultView) :
    Option GraphResultView :=
  match watermarks with
  | none => some graph
  | some watermarks =>
    if watermarks.items = [] then some graph
    else
      let (pinned, seedExcluded) := applyGraphWatermarkFilter graph watermarks strictEpoch
      if seedExcluded then none else some pinned

/-- What follows the traversal: the pin, the check against the database, and the candidates. -/
def anchorOf (c : Composer) (workspaceId : Uuid) (watermarks : Option Watermarks)
    (anchorName : String) (graph : GraphResultView) : AnchorStageResult :=
  let miss : AnchorStageResult := { anchorRequested := true, anchorName := anchorName }
  match pinGraph c.strictEpoch watermarks graph with
  | none => miss
  | some graph =>
    let valid := validateEntities c.database
      (graph.seed.name :: graph.related.map EntityNodeView.name) workspaceId
    if graph.seed.name ∈ valid then
      let graph := markParked c.isEntityParked
        { graph with related := graph.related.filter fun n => decide (n.name ∈ valid) }
      let (candidates, centralities) := collectCandidates graph
      { miss with
        anchorHit := true
        candidates := candidates
        candidateCentralities := centralities }
    else miss

/-- `_run_anchor_stage`: a `ValueError` of the traversal is a miss, every other error is raised. -/
def runAnchorStage (c : Composer) (request : SearchRequest) (workspaceId : Uuid)
    (asOf : Option DateTime) (watermarks : Option Watermarks) : Except Exc AnchorStageResult :=
  let anchorName := extractAnchor request
  if anchorName = "" then .ok {}
  else
    match c.traverse anchorName workspaceId asOf maxAnchorDepth with
    | .ok graph => .ok (anchorOf c workspaceId watermarks anchorName graph)
    | .error e =>
      if e.kind = .valueError then .ok { anchorRequested := true, anchorName := anchorName }
      else .error e

/-- `_widen_request`. -/
def widenRequest (request : SearchRequest) (anchor : AnchorStageResult) : SearchRequest :=
  { request with
    topK := request.topK * candidateExpansionFactor
    sources :=
      if anchor.candidates = [] then request.sources
      else some (anchor.candidates.map Candidate.source)
    filters := stripAnchorFilter request.filters
    topK_range := by
      have := request.topK_range
      unfold candidateExpansionFactor
      omega }

/-- A scored hit with its place among the hits of the vector store. -/
structure Scored where
  score : ℚ
  confidence : ℚ
  impact : ℚ
  index : ℕ
  hit : SearchHit

/-- `_build_affinity_map`. -/
def buildAffinityMap (anchor : AnchorStageResult) : Dict String ℚ :=
  .ofList (anchor.candidates.map fun c =>
    (c.source, graphAffinityBase / 2 ^ (max 1 c.depth - 1)))

/-- `_linear_blend`. -/
def linearBlend (vectorScore graphAffinity : ℚ) : ℚ :=
  (1 - mergeAlpha) * vectorScore + mergeAlpha * graphAffinity

/-- The scores of a hit. -/
def scoreHit (c : Composer) (anchor : AnchorStageResult) (asOf : Option DateTime) (index : ℕ)
    (hit : SearchHit) : Scored :=
  let source := hit.sourceId.str
  let depths : Dict String ℕ := .ofList (anchor.candidates.map fun c => (c.source, c.depth))
  let parked : Dict String Bool := .ofList (anchor.candidates.map fun c => (c.source, c.parked))
  let depth := depths.getD source 3
  { score := linearBlend hit.score ((buildAffinityMap anchor).getD source 0)
    confidence := c.confidence hit.sourceType hit.indexedAt depth asOf (parked.getD source false)
    impact := c.impact hit.sourceType hit.indexedAt depth
      (anchor.candidateCentralities.getD source 0) asOf
    index := index
    hit := hit }

/-- The loop over the hits: the first hit of each chunk is scored. -/
def scoreHits (c : Composer) (anchor : AnchorStageResult) (asOf : Option DateTime) :
    ℕ → List Uuid → List SearchHit → List Scored
  | _, _, [] => []
  | index, seen, hit :: hits =>
    if hit.chunkId ∈ seen then scoreHits c anchor asOf (index + 1) seen hits
    else
      scoreHit c anchor asOf index hit ::
        scoreHits c anchor asOf (index + 1) (hit.chunkId :: seen) hits

/-- The sort key: descending scores, then the places. -/
def ranks (a b : Scored) : Prop := b.score < a.score ∨ a.score = b.score ∧ a.index ≤ b.index

instance : DecidableRel ranks := fun _ _ => inferInstanceAs (Decidable (_ ∨ _))

/-- `l[start:]`; a negative start counts from the end. -/
def sliceFrom {α : Type} (start : ℤ) (l : List α) : List α :=
  if 0 ≤ start then l.drop start.toNat else l.drop (l.length - (-start).toNat)

/-- The hit with its new scores. -/
def Scored.toHit (s : Scored) : SearchHit :=
  { s.hit with
    score := s.score
    confidence := some s.confidence
    scoreType := some "calibrated"
    impact := some s.impact }

/-- The loop that fills a page: the hits, and whether it stopped early. -/
def fillPage (topK : ℕ) : List Scored → List SearchHit → ℕ → List SearchHit × Bool
  | [], page, _ => (page, false)
  | s :: rest, page, chars =>
    if topK ≤ page.length then (page, true)
    else if graphragBudgetChars < chars + s.hit.text.length ∧ 0 < page.length then (page, true)
    else fillPage topK rest (page ++ [s.toHit]) (chars + s.hit.text.length)

/-- Where the page starts; a cursor that is no number is ignored. -/
def startOf (c : Composer) (request : SearchRequest) : ℤ :=
  match request.cursor with
  | none => 0
  | some cursor => if cursor = "" then 0 else (c.int cursor).getD 0

/-- `_run_merge_stage`. -/
def runMergeStage (c : Composer) (request : SearchRequest) (vectorResult : SearchResult)
    (anchor : AnchorStageResult) (asOf : Option DateTime) (watermarks : Option Watermarks) :
    SearchResult :=
  let filtered := applyWatermarkFilter vectorResult.hits watermarks c.strictEpoch
  let scored := (scoreHits c anchor asOf 0 [] filtered).insertionSort ranks
  let start := startOf c request
  let (page, stopped) := fillPage request.topK (sliceFrom start scored) [] 0
  { hits := page
    queryStats := vectorResult.queryStats
    minAppliedVersion := minAppliedVersion page
    nextCursor := if stopped then some (toString (start + page.length)) else none }

/-- `_stamp_envelope`. -/
def stampEnvelope (result : SearchResult) (asOf : Option DateTime) (now : DateTime)
    (degraded : Bool) (degradedSubsystems : List String) (stalenessSeconds : Option ℚ)
    (minWatermark : Option ℤ) : SearchResult :=
  let stamped := { result with
    effectiveAsOf := some (asOf.getD now)
    degradedResponse := if degraded then some degradedPreHistory else none
    pinnedWatermark := minWatermark }
  if degradedSubsystems = [] then stamped
  else
    { stamped with
      degradedSubsystems := degradedSubsystems
      stalenessSeconds := stalenessSeconds }

/-- The convergence report; without a reconciler there is no map. -/
def convergence (c : Composer) (workspaceId : Uuid) :
    Except Exc (Convergence × Option Watermarks) :=
  match c.globalReconciler with
  | none => .ok ({}, none)
  | some wait => do
    let report ← wait workspaceId
    .ok (report, some report.perSourceWatermark)

/-- The staged pipeline. -/
def compose (c : Composer) (request : SearchRequest) (workspaceId : Uuid)
    (asOf : Option DateTime) (now : DateTime) : Except Exc SearchResult := do
  let (report, watermarks) ← convergence c workspaceId
  let anchor ← runAnchorStage c request workspaceId asOf watermarks
  let vectorResult ← c.vectorSearch (widenRequest request anchor) workspaceId asOf
  let merged := runMergeStage c request vectorResult anchor asOf watermarks
  let merged := { merged with hits := validateHits c.database merged.hits workspaceId }
  let degraded := asOf.isSome && anchor.anchorRequested && !anchor.anchorHit && merged.hits.isEmpty
  .ok (stampEnvelope merged asOf now degraded report.degraded report.staleness report.minWatermark)

/-- `GraphRAGComposer.search`: the keyword `as_of` wins over the field of the request. -/
def Composer.search (c : Composer) (request : SearchRequest) (workspaceId : Uuid)
    (asOf : Option DateTime) (now : DateTime) : Except Exc SearchResult :=
  let effective := asOf.or request.asOf
  if c.graphragActive then compose c request workspaceId effective now
  else do
    let legacy ← c.legacySearch request
    .ok (stampEnvelope legacy effective now false [] none none)

/-! ### Where the hits come from -/

section Stages

variable {c : Composer} {request : SearchRequest} {workspaceId w : Uuid} {asOf : Option DateTime}

theorem fillPage_subset {topK chars : ℕ} {scored : List Scored} {page : List SearchHit}
    {hit : SearchHit} (h : hit ∈ (fillPage topK scored page chars).1) :
    hit ∈ page ∨ ∃ s ∈ scored, hit = s.toHit := by
  induction scored generalizing page chars with
  | nil => exact .inl h
  | cons s rest ih =>
    rw [fillPage] at h
    split_ifs at h with hfull hbudget
    · exact .inl h
    · exact .inl h
    · rcases ih h with hpage | ⟨s', hs', rfl⟩
      · rcases mem_append.1 hpage with hpage | hpage
        · exact .inl hpage
        · exact .inr ⟨s, mem_cons_self, mem_singleton.1 hpage⟩
      · exact .inr ⟨s', mem_cons_of_mem _ hs', rfl⟩

variable {anchor : AnchorStageResult}

theorem hit_of_mem_scoreHits {index : ℕ} {seen : List Uuid} {hits : List SearchHit} {s : Scored}
    (h : s ∈ scoreHits c anchor asOf index seen hits) : s.hit ∈ hits := by
  induction hits generalizing index seen with
  | nil => simp [scoreHits] at h
  | cons hit hits ih =>
    rw [scoreHits] at h
    split_ifs at h with hseen
    · exact mem_cons_of_mem _ (ih h)
    · rcases mem_cons.1 h with rfl | h
      · exact mem_cons_self
      · exact mem_cons_of_mem _ (ih h)

variable {watermarks : Option Watermarks}

theorem applyWatermarkFilter_subset {hits : List SearchHit} {strictEpoch : Bool} :
    applyWatermarkFilter hits watermarks strictEpoch ⊆ hits := by
  cases watermarks with
  | none => exact List.Subset.refl hits
  | some watermarks => exact filter_subset_self hits

theorem sliceFrom_subset {α : Type} {start : ℤ} {l : List α} : sliceFrom start l ⊆ l := by
  unfold sliceFrom
  split_ifs <;> exact drop_subset _ _

theorem source_of_mem_merge {vectorResult : SearchResult} {hit : SearchHit}
    (h : hit ∈ (runMergeStage c request vectorResult anchor asOf watermarks).hits) :
    ∃ hit' ∈ vectorResult.hits, hit'.sourceId = hit.sourceId := by
  obtain hnil | ⟨s, hs, rfl⟩ := fillPage_subset h
  · simp at hnil
  · have hscored := (mem_insertionSort ranks).1 (sliceFrom_subset hs)
    exact ⟨s.hit, applyWatermarkFilter_subset (hit_of_mem_scoreHits hscored), rfl⟩

theorem validateHits_subset {db : Option Database} {hits : List SearchHit} :
    validateHits db hits w ⊆ hits := by
  cases db with
  | none => exact List.Subset.refl hits
  | some db => exact filter_subset_self hits

@[simp] theorem hits_stampEnvelope (result : SearchResult) (now : DateTime) (degraded : Bool)
    (degradedSubsystems : List String) (stalenessSeconds : Option ℚ) (minWatermark : Option ℤ) :
    (stampEnvelope result asOf now degraded degradedSubsystems stalenessSeconds
      minWatermark).hits = result.hits := by
  unfold stampEnvelope
  dsimp only
  split_ifs <;> rfl

/-- The anchor stage of a search. -/
def anchorStage (c : Composer) (request : SearchRequest) (workspaceId : Uuid)
    (asOf : Option DateTime) : Except Exc AnchorStageResult := do
  let (_, watermarks) ← convergence c workspaceId
  runAnchorStage c request workspaceId asOf watermarks

theorem source_of_mem_compose {now : DateTime} {result : SearchResult}
    (h : compose c request w asOf now = .ok result) :
    ∃ anchor vectorResult, anchorStage c request w asOf = .ok anchor ∧
      c.vectorSearch (widenRequest request anchor) w asOf = .ok vectorResult ∧
      ∀ hit ∈ result.hits, ∃ hit' ∈ vectorResult.hits, hit'.sourceId = hit.sourceId := by
  unfold compose at h
  obtain ⟨⟨report, watermarks⟩, hreport, h⟩ := bind_eq_ok_iff.1 h
  obtain ⟨anchor, hanchor, h⟩ := bind_eq_ok_iff.1 h
  obtain ⟨vectorResult, hvector, h⟩ := bind_eq_ok_iff.1 h
  cases h
  refine ⟨anchor, vectorResult, ?_, hvector, fun hit hhit => ?_⟩
  · rw [anchorStage, hreport]
    exact hanchor
  · rw [hits_stampEnvelope] at hhit
    exact source_of_mem_merge (validateHits_subset hhit)

/-! ### The candidates -/

theorem mem_collect {nodes : List EntityNodeView} {acc : List Candidate} {candidate : Candidate}
    (h : candidate ∈ collect nodes acc) :
    candidate ∈ acc ∨ ∃ node ∈ nodes, candidate.source = node.source := by
  induction nodes generalizing acc with
  | nil => exact .inl h
  | cons node rest ih =>
    have hnew : candidate ∈ acc ++ [⟨node.source, node.depth, node.isParked⟩] →
        candidate ∈ acc ∨ ∃ n ∈ node :: rest, candidate.source = n.source := by
      intro hmem
      rcases mem_append.1 hmem with hmem | hmem
      · exact .inl hmem
      · rw [mem_singleton.1 hmem]
        exact .inr ⟨node, mem_cons_self, rfl⟩
    simp only [collect] at h
    split_ifs at h with hseen hfull
    · exact (ih h).imp_right fun ⟨n, hn, hsource⟩ => ⟨n, mem_cons_of_mem _ hn, hsource⟩
    · exact hnew h
    · rcases ih h with hmem | ⟨n, hn, hsource⟩
      · exact hnew hmem
      · exact .inr ⟨n, mem_cons_of_mem _ hn, hsource⟩

/-- The sources of the entities of a traversal. -/
def sourcesOf (graph : GraphResultView) : List String :=
  graph.seed.source :: graph.related.map EntityNodeView.source

theorem source_mem_of_collectCandidates {graph : GraphResultView} {candidate : Candidate}
    (h : candidate ∈ (collectCandidates graph).1) : candidate.source ∈ sourcesOf graph := by
  rcases mem_collect h with hmem | ⟨node, hnode, hsource⟩
  · rw [mem_singleton.1 hmem]
    exact mem_cons_self
  · rw [hsource]
    refine mem_cons_of_mem _ (mem_map_of_mem ?_)
    exact (mem_insertionSort _).1 hnode

theorem sourcesOf_markParked (isEntityParked : Option (Uuid → Bool)) (graph : GraphResultView) :
    sourcesOf (markParked isEntityParked graph) = sourcesOf graph := by
  cases isEntityParked with
  | none => rfl
  | some parked => simp [markParked, sourcesOf, Function.comp_def]

theorem sourcesOf_pinGraph {strictEpoch : Bool} {graph graph' : GraphResultView}
    (h : pinGraph strictEpoch watermarks graph = some graph') :
    graph'.seed = graph.seed ∧ graph'.related ⊆ graph.related := by
  cases watermarks with
  | none =>
    cases h
    exact ⟨rfl, List.Subset.refl _⟩
  | some watermarks =>
    simp only [pinGraph] at h
    split_ifs at h with hempty hexcluded
    · cases h
      exact ⟨rfl, List.Subset.refl _⟩
    · cases h
      have hfilter : applyGraphWatermarkFilter graph watermarks strictEpoch =
          ((applyGraphWatermarkFilter graph watermarks strictEpoch).1, false) :=
        Prod.ext rfl (by simpa using hexcluded)
      exact ⟨(seed_of_filter hfilter).1, related_of_filter hfilter⟩

theorem candidate_of_traverse {candidate : Candidate}
    (h : runAnchorStage c request w asOf watermarks = .ok anchor)
    (hmem : candidate ∈ anchor.candidates) :
    ∃ graph, c.traverse (extractAnchor request) w asOf maxAnchorDepth = .ok graph ∧
      candidate.source ∈ sourcesOf graph := by
  simp only [runAnchorStage] at h
  split_ifs at h with hname
  · cases h
    simp at hmem
  cases htraverse : c.traverse (extractAnchor request) w asOf maxAnchorDepth with
  | error e =>
    simp only [htraverse] at h
    split_ifs at h with hkind
    cases h
    simp at hmem
  | ok graph =>
    simp only [htraverse, Except.ok.injEq] at h
    subst h
    refine ⟨graph, rfl, ?_⟩
    simp only [anchorOf] at hmem
    cases hpin : pinGraph c.strictEpoch watermarks graph with
    | none => simp [hpin] at hmem
    | some pinned =>
      simp only [hpin] at hmem
      split_ifs at hmem with hvalid
      · -- validation and the flags change no source
        have hsource := source_mem_of_collectCandidates hmem
        rw [sourcesOf_markParked] at hsource
        obtain ⟨hseed, hrelated⟩ := sourcesOf_pinGraph hpin
        rcases mem_cons.1 hsource with hsource | hsource
        · rw [hsource, sourcesOf, ← hseed]
          exact mem_cons_self
        · obtain ⟨node, hnode, hnodeSource⟩ := mem_map.1 hsource
          rw [← hnodeSource]
          refine mem_cons_of_mem _ (mem_map_of_mem (hrelated ?_))
          exact (mem_filter.1 hnode).1
      · simp at hmem

end Stages

/-! ### The source filter -/

/-- The strings that the hits of a search are confined to: those of the caller, or the candidates
if the anchor stage yields any. -/
def scope (c : Composer) (request : SearchRequest) (workspaceId : Uuid) (asOf : Option DateTime)
    (sources : List String) : Except Exc (List String) :=
  if c.graphragActive then do
    let anchor ← anchorStage c request workspaceId asOf
    .ok (if anchor.candidates = [] then sources else anchor.candidates.map Candidate.source)
  else .ok sources

theorem scope_cases {c : Composer} {request : SearchRequest} {w : Uuid}
    {asOf : Option DateTime} {sources strings : List String}
    (h : scope c request w asOf sources = .ok strings) :
    strings = sources ∨
      ∃ graph, c.traverse (extractAnchor request) w asOf maxAnchorDepth = .ok graph ∧
        strings ⊆ sourcesOf graph := by
  unfold scope at h
  split_ifs at h with hactive
  · obtain ⟨anchor, hanchor, h⟩ := bind_eq_ok_iff.1 h
    cases h
    obtain ⟨⟨report, watermarks⟩, -, hstage⟩ := bind_eq_ok_iff.1 hanchor
    cases hcandidates : anchor.candidates with
    | nil => exact .inl rfl
    | cons first rest =>
      have hfirst : first ∈ anchor.candidates := by simp [hcandidates]
      obtain ⟨graph, hgraph, -⟩ := candidate_of_traverse hstage hfirst
      refine .inr ⟨graph, hgraph, fun s hs => ?_⟩
      obtain ⟨candidate, hcandidate, rfl⟩ := mem_map.1 hs
      rw [← hcandidates] at hcandidate
      obtain ⟨graph', hgraph', hmem⟩ := candidate_of_traverse hstage hcandidate
      rw [hgraph] at hgraph'
      cases hgraph'
      exact hmem
  · exact .inl (Except.ok.inj h).symm

theorem inSources_of_mem_composer {c : Composer} (hvector : AppliesSources c.vectorSearch)
    (hlegacy : AppliesSources fun request _ _ => c.legacySearch request) {request : SearchRequest}
    {sources : List String} (hsources : request.sources = some sources) (hne : sources ≠ [])
    {w : Uuid} {asOf : Option DateTime} {now : DateTime} {result : SearchResult}
    (h : c.search request w asOf now = .ok result) :
    ∃ strings, scope c request w (asOf.or request.asOf) sources = .ok strings ∧
      ∀ hit ∈ result.hits, InSources strings hit.sourceId := by
  unfold Composer.search at h
  unfold scope
  split_ifs at h with hactive
  · obtain ⟨anchor, vectorResult, hanchor, hsearch, hhits⟩ := source_of_mem_compose h
    refine ⟨if anchor.candidates = [] then sources else anchor.candidates.map Candidate.source,
      by rw [if_pos hactive, hanchor]; rfl, fun hit hhit => ?_⟩
    obtain ⟨hit', hmem, hsource⟩ := hhits hit hhit
    rw [← hsource]
    -- the widened request carries exactly these strings
    refine hvector _ _ _ _ _ ?_ ?_ hsearch hit' hmem
    · simp only [widenRequest, hsources]
      split_ifs <;> rfl
    · split_ifs with hcandidates
      · exact hne
      · simpa using hcandidates
  · obtain ⟨legacy, hsearch, h⟩ := bind_eq_ok_iff.1 h
    cases h
    refine ⟨sources, if_neg hactive, fun hit hhit => ?_⟩
    rw [hits_stampEnvelope] at hhit
    exact hlegacy request w asOf legacy sources hsources hne hsearch hit hhit

/-- A hit of a composer whose searches apply the list of sources belongs to one of them, or, if the
anchor stage yields candidates, to one of these, each the source of an entity of the traversal; a
hit of the Lite store belongs to one of the list, if one of its strings is a UUID. -/
theorem hits_confined (request : SearchRequest) (sources : List String)
    (hsources : request.sources = some sources) (hne : sources ≠ []) :
    (∀ c : Composer, AppliesSources c.vectorSearch →
      (AppliesSources fun request _ _ => c.legacySearch request) →
        ∀ workspaceId asOf now result, c.search request workspaceId asOf now = .ok result →
          ∃ strings, scope c request workspaceId (asOf.or request.asOf) sources = .ok strings ∧
            (strings = sources ∨ ∃ graph, c.traverse (extractAnchor request) workspaceId
              (asOf.or request.asOf) maxAnchorDepth = .ok graph ∧ strings ⊆ sourcesOf graph) ∧
            ∀ hit ∈ result.hits, InSources strings hit.sourceId) ∧
    ((∃ s ∈ sources, (Uuid.parse s).isSome) → ∀ cfg tables now workspaceId asOf result,
      PostgresOnly.search cfg tables now request workspaceId asOf = .ok result →
        ∀ hit ∈ result.hits, InSources sources hit.sourceId) := by
  constructor
  · intro c hvector hlegacy workspaceId asOf now result h
    obtain ⟨strings, hscope, hhits⟩ := inSources_of_mem_composer hvector hlegacy hsources hne h
    exact ⟨strings, hscope, scope_cases hscope, hhits⟩
  · intro huuid cfg tables now workspaceId asOf result h hit hhit
    exact PostgresOnly.inSources_of_mem_search hsources huuid h hhit

/-- A hit of a source. -/
def sampleHit (chunkId sourceId : Uuid) : SearchHit where
  chunkId := chunkId
  sourceId := sourceId
  sourceType := "git"
  text := "text"
  indexedAt := 0
  score := 1

/-- A vector store with a hit in each of two sources, which applies the filter. -/
def sampleSearch : Search := fun request _ _ =>
  .ok
    { hits := [sampleHit 10 1, sampleHit 20 2].filter fun hit =>
        request.sources.all fun sources => decide (sources = [] ∨ InSources sources hit.sourceId)
      queryStats := ⟨2, 2, 0⟩ }

theorem appliesSources_sampleSearch : AppliesSources sampleSearch := by
  intro request w asOf result sources hsources hne h hit hhit
  cases h
  have htest := (mem_filter.1 hhit).2
  simp only [hsources, Option.all_some, decide_eq_true_eq] at htest
  exact htest.resolve_left hne

/-- A composer over this store, whose graph knows one entity of the second source. -/
def sampleComposer : Composer where
  traverse _ _ _ _ := .ok ⟨⟨1, "svc", Uuid.str 2, 0, false, none⟩, [], []⟩
  vectorSearch := sampleSearch
  legacySearch _ := .error ⟨.notImplementedError, "legacy"⟩
  confidence _ _ _ _ _ := 1
  impact _ _ _ _ _ := 0
  int _ := none

theorem appliesSources_sampleComposer :
    AppliesSources fun request _ _ => sampleComposer.legacySearch request := by
  rintro request w asOf result sources - - ⟨⟩

/-- A request for the first source. -/
def sampleRequest (filters : Option Metadata) : SearchRequest where
  query := "q"
  sources := some [Uuid.str 1]
  filters := filters

/-- The sources of the hits of a search. -/
def hitSources (x : Except Exc SearchResult) : Except Exc (List Uuid) :=
  x.map fun result => result.hits.map SearchHit.sourceId

/-- A request for the first source that names the entity is answered from the second one. -/
theorem caller_filter_replaced : ¬ ∀ (c : Composer), AppliesSources c.vectorSearch →
      (AppliesSources fun request _ _ => c.legacySearch request) →
        ∀ request sources, request.sources = some sources → sources ≠ [] →
          ∀ workspaceId asOf now result, c.search request workspaceId asOf now = .ok result →
            ∀ hit ∈ result.hits, InSources sources hit.sourceId := by
  intro h
  have hsearch : hitSources (sampleComposer.search
      (sampleRequest (some [("graphrag_anchor", .str "svc")])) 7 none 0) = .ok [2] := by
    decide +kernel
  cases hresult : sampleComposer.search
      (sampleRequest (some [("graphrag_anchor", .str "svc")])) 7 none 0 with
  | error e =>
    rw [hresult] at hsearch
    cases hsearch
  | ok result =>
    rw [hresult] at hsearch
    have hsearch : result.hits.map SearchHit.sourceId = [2] := Except.ok.inj hsearch
    obtain ⟨hit, hhit, hsource⟩ := mem_map.1 (hsearch ▸ mem_singleton_self (2 : Uuid))
    have hin := h sampleComposer appliesSources_sampleSearch appliesSources_sampleComposer _
      [Uuid.str 1] rfl (by simp) 7 none 0 result hresult hit hhit
    rw [hsource] at hin
    simp [InSources, Uuid.parse_str] at hin

/-- Without an anchor, the request is answered from the source that it names. -/
theorem hits_confined_sample :
    hitSources (sampleComposer.search (sampleRequest none) 7 none 0) = .ok [1] ∧
      ∀ result, sampleComposer.search (sampleRequest none) 7 none 0 = .ok result →
        ∃ strings, scope sampleComposer (sampleRequest none) 7 none [Uuid.str 1] = .ok strings ∧
          ∀ hit ∈ result.hits, InSources strings hit.sourceId := by
  refine ⟨by decide +kernel, fun result h => ?_⟩
  obtain ⟨strings, hscope, -, hhits⟩ := (hits_confined (sampleRequest none) [Uuid.str 1] rfl
    (by simp)).1 sampleComposer appliesSources_sampleSearch appliesSources_sampleComposer 7 none 0
    result h
  exact ⟨strings, hscope, hhits⟩

end Omniscience.GraphRag
