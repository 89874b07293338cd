import Omniscience.Lib.FirstBy
import Omniscience.Retrieval.Requests

/-!
# Federated search

`FederatedSearch.search` asks the local instance and the enabled peers, leaves out the peers that
failed, and merges what is left: the hits of all results, sorted by score and by the priority of
their peer, the first of every chunk.  What the local search and the peers answer is an input.

* `Honours` : what the merged result owes to the request.
* `honours_iff` : it does, exactly if the results hold no more chunks than the request asks for.
* `Visible` : what the merged result owes to a client that looks for degraded parts.
* `visible_iff` : it does, exactly if there are none.

The hits are not cut at `top_k`, and the result is rebuilt without the fields that disclose a
degraded part.
-/

namespace Omniscience.Retrieval

open List

/-! ### The configuration -/

/-- `FederatedInstance`, without what the request to it is made of. -/
structure FederatedInstance where
  name : String
  enabled : Bool := true
  priority : ℤ := 0

/-- `FederationConfig`. -/
structure FederationConfig where
  instances : List FederatedInstance := []

/-- `FederationConfig.enabled_instances`. -/
def FederationConfig.enabledInstances (config : FederationConfig) : List FederatedInstance :=
  config.instances.filter (·.enabled)

/-- `priority_map`: the priorities of the peers by their names. -/
def FederationConfig.priorityMap (config : FederationConfig) : Dict String ℤ :=
  config.instances.foldl (fun d inst => d.set inst.name inst.priority) Dict.empty

/-! ### The merge -/

/-- A hit with the priority of the instance it comes from and the name of that instance. -/
structure Annotated where
  priority : ℤ
  hit : SearchHit
  sourceInstance : Option String
  deriving DecidableEq

/-- A `SearchResult` with the `source_instance` of each hit, in the order of the hits. -/
structure FederatedResult extends SearchResult where
  sourceInstances : List (Option String)

/-- The hits of a result, annotated. -/
def annotate (priority : ℤ) (sourceInstance : Option String) (result : SearchResult) :
    List Annotated :=
  result.hits.map fun hit => ⟨priority, hit, sourceInstance⟩

/-- `annotated`: the local hits, then those of the peers. -/
def annotated (config : FederationConfig) (localResult : SearchResult)
    (remotes : List (String × SearchResult)) : List Annotated :=
  annotate (-1) none localResult ++ remotes.flatMap fun remote =>
    annotate (config.priorityMap.getD remote.1 0) (some remote.1) remote.2

/-- The order of the keys `(-score, priority)`. -/
def Annotated.before (a b : Annotated) : Prop :=
  b.hit.score < a.hit.score ∨ a.hit.score = b.hit.score ∧ a.priority ≤ b.priority

instance : DecidableRel Annotated.before :=
  fun _ _ => inferInstanceAs (Decidable (_ ∨ _))

/-- `str(hit.chunk_id)`. -/
def Annotated.key (a : Annotated) : String := a.hit.chunkId.str

/-- `deduped`: the hits in their order, the first of every chunk. -/
def deduped (hits : List Annotated) : List Annotated :=
  firstBy Annotated.key [] (hits.insertionSort Annotated.before)

/-- The sum of the statistics. -/
def sumStats (stats : List QueryStats) : QueryStats where
  totalMatchesBeforeFilters := (stats.map QueryStats.totalMatchesBeforeFilters).sum
  vectorMatches := (stats.map QueryStats.vectorMatches).sum
  textMatches := (stats.map QueryStats.textMatches).sum

/-- The results that are merged. -/
def allResults (localResult : SearchResult) (remotes : List (String × SearchResult)) :
    List SearchResult :=
  localResult :: remotes.map Prod.snd

/-- `_merge_results`. -/
def mergeResults (config : FederationConfig) (localResult : SearchResult)
    (remotes : List (String × SearchResult)) : FederatedResult :=
  let merged := deduped (annotated config localResult remotes)
  let hits := merged.map Annotated.hit
  { hits := hits
    queryStats := sumStats ((allResults localResult remotes).map SearchResult.queryStats)
    minAppliedVersion := minAppliedVersion hits
    sourceInstances := merged.map Annotated.sourceInstance }

variable {E : Type*}

/-- The peers that answered, with their names. -/
def successfulRemotes (config : FederationConfig) (outcomes : List (Except E SearchResult)) :
    List (String × SearchResult) :=
  ((config.enabledInstances.map FederatedInstance.name).zip outcomes).filterMap fun outcome =>
    match outcome.2 with
    | .ok result => some (outcome.1, result)
    | .error _ => none

/-- `FederatedSearch.search`, from the outcome of the local search and those of the enabled
peers. -/
def federatedSearch (config : FederationConfig) (localOutcome : Except E SearchResult)
    (outcomes : List (Except E SearchResult)) : Except E FederatedResult :=
  match localOutcome with
  | .error exc => .error exc
  | .ok localResult => .ok (mergeResults config localResult (successfulRemotes config outcomes))

/-! ### What is owed to the request -/

/-- **The merged result honours the request.** -/
structure Honours (request : SearchRequest) (results : List SearchResult) (merged : SearchResult) :
    Prop where
  bounded : merged.hits.length ≤ request.topK
  sorted : merged.hits.Pairwise fun a b => b.score ≤ a.score
  nodup : (merged.hits.map SearchHit.chunkId).Nodup
  /-- A chunk is left out only for `top_k` hits with at least its score. -/
  complete : ∀ result ∈ results, ∀ hit ∈ result.hits,
    hit.chunkId ∉ merged.hits.map SearchHit.chunkId →
      request.topK ≤ (merged.hits.filter fun other => hit.score ≤ other.score).length

/-- The chunks of all results. -/
def allChunks (results : List SearchResult) : List Uuid :=
  (results.flatMap SearchResult.hits).map SearchHit.chunkId

/-- **The merged result shows what is degraded.** -/
structure Visible (results : List SearchResult) (merged : SearchResult) : Prop where
  subsystems : (∃ result ∈ results, result.degradedSubsystems ≠ []) →
    merged.degradedSubsystems ≠ []
  hint : (∃ result ∈ results, result.degradedResponse ≠ none) → merged.degradedResponse ≠ none
  staleness : ∀ result ∈ results, ∀ seconds, result.stalenessSeconds = some seconds →
    ∃ most, merged.stalenessSeconds = some most ∧ seconds ≤ most

/-- A result that discloses nothing. -/
structure Clean (result : SearchResult) : Prop where
  subsystems : result.degradedSubsystems = []
  hint : result.degradedResponse = none
  staleness : result.stalenessSeconds = none

/-! ### The merged hits -/

instance : Std.Total Annotated.before where
  total a b := by
    rcases lt_trichotomy a.hit.score b.hit.score with h | h | h
    · exact .inr (.inl h)
    · rcases le_total a.priority b.priority with hp | hp
      · exact .inl (.inr ⟨h, hp⟩)
      · exact .inr (.inr ⟨h.symm, hp⟩)
    · exact .inl (.inl h)

instance : IsTrans Annotated Annotated.before where
  trans a b c := by
    rintro (hab | ⟨hab, hp⟩) (hbc | ⟨hbc, hq⟩)
    · exact .inl (hbc.trans hab)
    · exact .inl (hbc ▸ hab)
    · exact .inl (hab ▸ hbc)
    · exact .inr ⟨hab.trans hbc, hp.trans hq⟩

theorem Annotated.before.score_le {a b : Annotated} (h : a.before b) :
    b.hit.score ≤ a.hit.score := by
  rcases h with h | ⟨h, -⟩
  · exact h.le
  · exact h.ge

variable {config : FederationConfig} {localResult : SearchResult}
  {remotes : List (String × SearchResult)}

theorem map_hit_annotated : (annotated config localResult remotes).map Annotated.hit =
      (allResults localResult remotes).flatMap SearchResult.hits := by
  have hone : ∀ priority sourceInstance (result : SearchResult),
      (annotate priority sourceInstance result).map Annotated.hit = result.hits := by
    intro priority sourceInstance result
    rw [annotate, map_map]
    exact map_id _
  rw [annotated, map_append, hone, map_flatMap, allResults, flatMap_cons, flatMap_map]
  congr 1
  exact congrArg (fun f => remotes.flatMap f) (funext fun remote => hone _ _ _)

theorem mem_allHits {hit : SearchHit} :
    hit ∈ (annotated config localResult remotes).map Annotated.hit ↔
      ∃ result ∈ allResults localResult remotes, hit ∈ result.hits := by
  rw [map_hit_annotated, mem_flatMap]

theorem map_key (hits : List Annotated) :
    hits.map Annotated.key = ((hits.map Annotated.hit).map SearchHit.chunkId).map Uuid.str := by
  rw [map_map, map_map]
  rfl

theorem pairwise_deduped (hits : List Annotated) : (deduped hits).Pairwise Annotated.before :=
  (pairwise_insertionSort Annotated.before hits).sublist (firstBy_sublist _ _)

theorem exists_deduped {hits : List Annotated} {a : Annotated} (h : a ∈ hits) :
    ∃ b ∈ deduped hits, b.hit.chunkId = a.hit.chunkId ∧ a.hit.score ≤ b.hit.score := by
  obtain ⟨b, hb, hkey, hbefore⟩ : ∃ b ∈ deduped hits, b.key = a.key ∧ b.before a :=
    firstBy_first (fun a => .inr ⟨rfl, le_rfl⟩) (pairwise_insertionSort Annotated.before hits)
      ((mem_insertionSort _).2 h) not_mem_nil
  exact ⟨b, hb, Uuid.str_injective hkey, hbefore.score_le⟩

theorem length_deduped (hits : List Annotated) :
    (deduped hits).length = ((hits.map Annotated.hit).map SearchHit.chunkId).dedup.length := by
  have hperm : (hits.insertionSort Annotated.before).Perm hits := perm_insertionSort _ _
  rw [deduped, length_firstBy, ((hperm.map Annotated.key).dedup).length_eq, map_key,
    dedup_map_of_injective Uuid.str_injective, length_map]

/-- **The merge keeps every chunk once, the best first.** -/
theorem mergeResults_spec (config : FederationConfig) (localResult : SearchResult)
    (remotes : List (String × SearchResult)) :
    let merged := mergeResults config localResult remotes
    (merged.hits.Pairwise fun a b => b.score ≤ a.score) ∧
      (merged.hits.map SearchHit.chunkId).Nodup ∧
      (∀ result ∈ allResults localResult remotes, ∀ hit ∈ result.hits,
        hit.chunkId ∈ merged.hits.map SearchHit.chunkId) ∧
      merged.hits.length = (allChunks (allResults localResult remotes)).dedup.length := by
  refine ⟨?_, ?_, ?_, ?_⟩
  · exact pairwise_map.2 ((pairwise_deduped _).imp fun h => h.score_le)
  · have hkeys : ((deduped (annotated config localResult remotes)).map Annotated.key).Nodup :=
      nodup_firstBy
    rw [map_key] at hkeys
    exact hkeys.of_map _
  · intro result hresult hit hhit
    have hmem : hit ∈ (annotated config localResult remotes).map Annotated.hit :=
      mem_allHits.2 ⟨result, hresult, hhit⟩
    obtain ⟨a, ha, rfl⟩ := mem_map.1 hmem
    obtain ⟨b, hb, hchunk, -⟩ := exists_deduped ha
    rw [← hchunk]
    exact mem_map_of_mem (mem_map_of_mem hb)
  · show ((deduped (annotated config localResult remotes)).map Annotated.hit).length = _
    rw [length_map, length_deduped, map_hit_annotated]
    rfl

theorem honours_merge_iff (request : SearchRequest) :
    Honours request (allResults localResult remotes)
        (mergeResults config localResult remotes).toSearchResult ↔
      (allChunks (allResults localResult remotes)).dedup.length ≤ request.topK := by
  obtain ⟨hsorted, hnodup, hcomplete, hlength⟩ := mergeResults_spec config localResult remotes
  constructor
  · intro h
    rw [← hlength]
    exact h.bounded
  · intro h
    refine ⟨hlength.trans_le h, hsorted, hnodup, ?_⟩
    intro result hresult hit hhit hmissing
    exact absurd (hcomplete result hresult hit hhit) hmissing

theorem clean_mergeResults : Clean (mergeResults config localResult remotes).toSearchResult :=
  ⟨rfl, rfl, rfl⟩

theorem visible_iff_of_clean {results : List SearchResult} {merged : SearchResult}
    (hmerged : Clean merged) : Visible results merged ↔ ∀ result ∈ results, Clean result := by
  constructor
  · intro h result hresult
    refine ⟨?_, ?_, ?_⟩
    · by_contra hne
      exact h.subsystems ⟨result, hresult, hne⟩ hmerged.subsystems
    · by_contra hne
      exact h.hint ⟨result, hresult, hne⟩ hmerged.hint
    · rw [Option.eq_none_iff_forall_ne_some]
      intro seconds hseconds
      obtain ⟨most, hmost, -⟩ := h.staleness result hresult seconds hseconds
      rw [hmerged.staleness] at hmost
      cases hmost
  · intro h
    refine ⟨?_, ?_, ?_⟩
    · rintro ⟨result, hresult, hne⟩
      exact absurd (h result hresult).subsystems hne
    · rintro ⟨result, hresult, hne⟩
      exact absurd (h result hresult).hint hne
    · intro result hresult seconds hseconds
      rw [(h result hresult).staleness] at hseconds
      cases hseconds

/-! ### The search -/

theorem exists_federatedSearch_iff {P : FederatedResult → Prop} {localResult : SearchResult}
    {outcomes : List (Except E SearchResult)} :
    (∃ merged, federatedSearch config (.ok localResult) outcomes = .ok merged ∧ P merged) ↔
      P (mergeResults config localResult (successfulRemotes config outcomes)) := by
  constructor
  · rintro ⟨merged, hmerged, h⟩
    cases hmerged
    exact h
  · exact fun h => ⟨_, rfl, h⟩

/-- **When the search honours the request**: the results that are merged hold no more different
chunks than it asks for. -/
theorem honours_iff (request : SearchRequest) (config : FederationConfig)
    (localResult : SearchResult) (outcomes : List (Except E SearchResult)) :
    (∃ merged, federatedSearch config (.ok localResult) outcomes = .ok merged ∧
        Honours request (allResults localResult (successfulRemotes config outcomes))
          merged.toSearchResult) ↔
      (allChunks (allResults localResult (successfulRemotes config outcomes))).dedup.length ≤
        request.topK := by
  rw [exists_federatedSearch_iff]
  exact honours_merge_iff request

/-- **When the search shows what is degraded**: nothing is. -/
theorem visible_iff (config : FederationConfig) (localResult : SearchResult)
    (outcomes : List (Except E SearchResult)) :
    (∃ merged, federatedSearch config (.ok localResult) outcomes = .ok merged ∧
        Visible (allResults localResult (successfulRemotes config outcomes))
          merged.toSearchResult) ↔
      ∀ result ∈ allResults localResult (successfulRemotes config outcomes), Clean result := by
  rw [exists_federatedSearch_iff]
  exact visible_iff_of_clean clean_mergeResults

/-! ### A peer with a chunk of its own -/

/-- A hit on a chunk. -/
def chunkHit (chunk : Fin (2 ^ 128)) : SearchHit where
  chunkId := ⟨chunk⟩
  sourceId := ⟨0⟩
  sourceType := "git"
  text := "text"
  indexedAt := 0
  score := 1 / 2

/-- A result with one hit, composed while a store was behind. -/
def chunkResult (chunk : Fin (2 ^ 128)) : SearchResult where
  hits := [chunkHit chunk]
  queryStats := ⟨1, 1, 0⟩
  degradedSubsystems := ["neo4j"]
  stalenessSeconds := some 30

/-- One peer. -/
def onePeer : FederationConfig where
  instances := [{ name := "peer" }]

/-- One hit was asked for, and two are returned. -/
theorem more_than_asked_for :
    ¬ ∀ (request : SearchRequest) (config : FederationConfig) (localResult : SearchResult)
      (outcomes : List (Except String SearchResult)),
      ∃ merged, federatedSearch config (.ok localResult) outcomes = .ok merged ∧
        Honours request (allResults localResult (successfulRemotes config outcomes))
          merged.toSearchResult := by
  intro hall
  have hmerged := exists_federatedSearch_iff.1
    (hall { query := "q", topK := 1 } onePeer (chunkResult 1) [.ok (chunkResult 2)])
  have hlength := (honours_merge_iff _).1 hmerged
  revert hlength
  decide

/-- Both results are degraded, and the merged one is not. -/
theorem degradation_is_lost : ¬ ∀ (config : FederationConfig) (localResult : SearchResult)
      (outcomes : List (Except String SearchResult)),
      ∃ merged, federatedSearch config (.ok localResult) outcomes = .ok merged ∧
        Visible (allResults localResult (successfulRemotes config outcomes))
          merged.toSearchResult := by
  intro hall
  have hmerged := exists_federatedSearch_iff.1 (hall onePeer (chunkResult 1) [.ok (chunkResult 2)])
  refine hmerged.subsystems ⟨chunkResult 1, mem_cons_self, ?_⟩ rfl
  exact cons_ne_nil _ _

end Omniscience.Retrieval
