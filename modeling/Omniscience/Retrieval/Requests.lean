import Omniscience.Ingestion.Dedup
import Omniscience.Retrieval.Epoch

/-!
# Search requests and their answers

The models of `omniscience_retrieval/models.py` that the stores and the composer exchange, and what
it means that a search applies the source filter of its request.  The strings in
`SearchRequest.sources` name sources by their ids; a string that is not a UUID names none.
-/

namespace Omniscience.Retrieval

/-- `SearchRequest.retrieval_strategy`. -/
inductive RetrievalStrategy where
  | hybrid
  | keyword
  | structural
  | auto
  deriving DecidableEq, Repr

/-- `SearchRequest` with its lower bounds.  The upper bound of `top_k` is checked for requests from
outside only; the composer widens a request without a check. -/
structure SearchRequest where
  query : String
  topK : ℕ := 10
  sources : Option (List String) := none
  types : Option (List String) := none
  maxAgeSeconds : Option ℕ := none
  filters : Option Metadata := none
  includeTombstoned : Bool := false
  retrievalStrategy : RetrievalStrategy := .hybrid
  asOf : Option DateTime := none
  cursor : Option String := none
  topK_range : 1 ≤ topK := by decide
  maxAge_pos : ∀ n, maxAgeSeconds = some n → 1 ≤ n := by simp

/-- `QueryStats`, without the duration. -/
structure QueryStats where
  totalMatchesBeforeFilters : ℕ
  vectorMatches : ℕ
  textMatches : ℕ
  deriving DecidableEq, Repr

/-- `SearchResult`; `degradedResponse` is the entry of the `meta` block. -/
structure SearchResult where
  hits : List SearchHit
  queryStats : QueryStats
  effectiveAsOf : Option DateTime := none
  degradedResponse : Option String := none
  minAppliedVersion : Option ℤ := none
  degradedSubsystems : List String := []
  stalenessSeconds : Option ℚ := none
  pinnedWatermark : Option ℤ := none
  nextCursor : Option String := none

/-- The smallest of the versions that the hits have. -/
def minAppliedVersion (hits : List SearchHit) : Option ℤ :=
  (hits.filterMap SearchHit.appliedVersion).min?

/-- The source is one of those that the strings name. -/
def InSources (sources : List String) (id : Uuid) : Prop := id ∈ sources.filterMap Uuid.parse

instance (sources : List String) (id : Uuid) : Decidable (InSources sources id) :=
  inferInstanceAs (Decidable (id ∈ _))

/-- A search of a store, for a workspace and a moment. -/
abbrev Search := SearchRequest → Uuid → Option DateTime → Except Exc SearchResult

/-- The search answers a request with a list of sources with hits of these sources only. -/
def AppliesSources (search : Search) : Prop :=
  ∀ request workspaceId asOf result sources, request.sources = some sources → sources ≠ [] →
    search request workspaceId asOf = .ok result →
      ∀ hit ∈ result.hits, InSources sources hit.sourceId

end Omniscience.Retrieval
