import Mathlib.Algebra.Order.Ring.Rat
import Mathlib.Data.Rat.Lemmas
import Omniscience.Base.Python
import Omniscience.Lib.Dict
import Omniscience.Lib.StableRank

/-!
# Reciprocal rank fusion

`_rrf_merge` (`omniscience_index/stores/qdrant_store.py`) merges the dense and the sparse hits of a
hybrid search.  Scores and payloads are accumulated by the id, list after list; the ids are sorted
by their scores, cut, and joined with the hits again.

* `rrfMerge_exact` : what is returned, for hit lists without repeated ids.
-/

namespace Omniscience.RankFusion

open StableRank (ranked)
open Dict
open List hiding contains getD

/-- A point id: a number, or the text of a UUID. -/
inductive PointId where
  | num (n : ℕ)
  | uuid (text : String)

/-- `str(id)`. -/
def PointId.str : PointId → String
  | .num n => toString n
  | .uuid text => text

/-- `ScoredPoint`, without its vector; a score is rational here. -/
structure ScoredPoint where
  id : PointId
  version : ℤ
  score : ℚ
  payload : Option Metadata

/-- The id as the key of the maps. -/
def ScoredPoint.key (sp : ScoredPoint) : String := sp.id.str

/-- `bool(sp.payload)`. -/
def ScoredPoint.hasPayload (sp : ScoredPoint) : Bool := sp.payload.any fun payload => !payload.isEmpty

/-- `RRF_K`. -/
def rrfK : ℕ := 60

/-- The maps that are accumulated. -/
structure Fusion where
  scores : Dict String ℚ
  payloads : Dict String Metadata

/-- One turn of `_accumulate`. -/
def accumulateHit (s : Fusion) (hit : ScoredPoint × ℕ) : Fusion where
  scores := s.scores.set hit.1.key (s.scores.getD hit.1.key 0 + 1 / (rrfK + hit.2 : ℕ))
  payloads := match hit.1.payload with
    | some payload =>
      if s.payloads.contains hit.1.key ∨ payload.isEmpty then s.payloads
      else s.payloads.set hit.1.key payload
    | none => s.payloads

/-- `_accumulate`, with ranks from 1. -/
def accumulate (hits : List ScoredPoint) (s : Fusion) : Fusion := (hits.zipIdx 1).foldl accumulateHit s

/-- The maps of both lists. -/
def fuse (dense sparse : List ScoredPoint) : Fusion :=
  accumulate sparse (accumulate dense ⟨.empty, .empty⟩)

/-- The hit with an id, rather the dense one. -/
def template (dense sparse : List ScoredPoint) (pid : String) : Option ScoredPoint :=
  (dense.find? fun sp => sp.key = pid).or (sparse.find? fun sp => sp.key = pid)

/-- The point that is returned for an id. -/
def fusedPoint (dense sparse : List ScoredPoint) (pid : String) : Option ScoredPoint :=
  (template dense sparse pid).map fun sp =>
    { id := sp.id
      version := sp.version
      score := (fuse dense sparse).scores.getD pid 0
      payload := ((fuse dense sparse).payloads.get? pid).or sp.payload }

/-- `_rrf_merge`. -/
def rrfMerge (dense sparse : List ScoredPoint) (topK : ℕ) : List ScoredPoint :=
  let scores := (fuse dense sparse).scores
  ((ranked (fun pid => scores.getD pid 0) scores.keys).take topK).filterMap
    (fusedPoint dense sparse)

/-! ### What the maps hold -/

/-- The share of a list in the score of an id: `1 / (60 + rank)`, if it has the id. -/
def share (hits : List ScoredPoint) (pid : String) : ℚ :=
  match hits.findIdx? fun sp => sp.key = pid with
  | some i => 1 / (rrfK + (i + 1) : ℕ)
  | none => 0

/-- The ids in order of first appearance, each once. -/
def appearing (dense sparse : List ScoredPoint) : List String :=
  dense.map ScoredPoint.key ++
    (sparse.map ScoredPoint.key).filter fun pid => pid ∉ dense.map ScoredPoint.key

variable {hits dense sparse : List ScoredPoint} {pid : String}

theorem keys_accumulateHit (s : Fusion) (hit : ScoredPoint × ℕ) :
    (accumulateHit s hit).scores.keys =
      s.scores.keys ++ if hit.1.key ∈ s.scores.keys then [] else [hit.1.key] := by
  rw [accumulateHit]
  split_ifs with h
  · rw [keys_set_of_mem h, append_nil]
  · rw [keys_set_of_not_mem h]

theorem getD_accumulateHit (s : Fusion) (hit : ScoredPoint × ℕ) (pid : String) :
    (accumulateHit s hit).scores.getD pid 0 =
      s.scores.getD pid 0 + if hit.1.key = pid then 1 / ((rrfK + hit.2 : ℕ) : ℚ) else 0 := by
  rw [accumulateHit]
  split_ifs with h
  · rw [h, getD_set_self]
  · rw [getD, get?_set_ne _ _ (Ne.symm h), add_zero, getD]

theorem payload_accumulateHit (s : Fusion) (hit : ScoredPoint × ℕ) (pid : String) :
    (accumulateHit s hit).payloads.get? pid = (s.payloads.get? pid).or
      (if hit.1.key = pid ∧ hit.1.hasPayload then hit.1.payload else none) := by
  rw [accumulateHit, ScoredPoint.hasPayload]
  cases hpayload : hit.1.payload with
  | none => simp
  | some payload =>
    dsimp only [Option.any_some]
    by_cases hkey : hit.1.key = pid
    · subst hkey
      rw [contains]
      cases hget : s.payloads.get? hit.1.key with
      | some other => simp [hget]
      | none =>
        cases payload with
        | nil => simp [hget]
        | cons entry payload => simp
    · have hnone : (if hit.1.key = pid ∧ (!payload.isEmpty) = true then some payload else none) =
          none := if_neg fun h => hkey h.1
      rw [hnone, Option.or_none]
      split_ifs
      · rfl
      · exact get?_set_ne _ _ (Ne.symm hkey)

theorem foldl_accumulateHit (hnodup : (hits.map ScoredPoint.key).Nodup) (s : Fusion) (k : ℕ) :
    let s' := (hits.zipIdx k).foldl accumulateHit s
    s'.scores.keys = s.scores.keys ++
      (hits.map ScoredPoint.key).filter (fun pid => pid ∉ s.scores.keys) ∧
    (∀ pid, s'.scores.getD pid 0 = s.scores.getD pid 0 +
      match hits.findIdx? fun sp => sp.key = pid with
      | some i => 1 / ((rrfK + (i + k) : ℕ) : ℚ)
      | none => 0) ∧
    ∀ pid, s'.payloads.get? pid = (s.payloads.get? pid).or
      ((hits.find? fun sp => sp.key = pid ∧ sp.hasPayload).bind ScoredPoint.payload) := by
  induction hits generalizing s k with
  | nil => simp
  | cons sp hits ih =>
    rw [map_cons, nodup_cons] at hnodup
    obtain ⟨hkeys, hscores, hpayloads⟩ := ih hnodup.2 (accumulateHit s (sp, k)) (k + 1)
    rw [zipIdx_cons, foldl_cons]
    refine ⟨?_, fun pid => ?_, fun pid => ?_⟩
    · rw [hkeys, keys_accumulateHit, map_cons, filter_cons]
      -- the new key is not in the rest of the list
      have hrest : (hits.map ScoredPoint.key).filter (fun pid => pid ∉ s.scores.keys ++
          if sp.key ∈ s.scores.keys then [] else [sp.key]) =
            (hits.map ScoredPoint.key).filter fun pid => pid ∉ s.scores.keys := by
        refine filter_congr fun pid hpid => ?_
        have hne : pid ≠ sp.key := fun h => hnodup.1 (h ▸ hpid)
        split_ifs <;> simp [hne]
      rw [hrest]
      by_cases hmem : sp.key ∈ s.scores.keys
      · rw [if_pos hmem, append_nil, if_neg (by simpa using hmem)]
      · rw [if_neg hmem, if_pos (by simpa using hmem), append_assoc, singleton_append]
    · rw [hscores, getD_accumulateHit, List.findIdx?_cons]
      by_cases hkey : sp.key = pid
      · have hnone : hits.findIdx? (fun sp => sp.key = pid) = none := by
          rw [List.findIdx?_eq_none_iff]
          intro other hother
          rw [decide_eq_false_iff_not]
          exact fun h => hnodup.1 (hkey.trans h.symm ▸ mem_map_of_mem hother)
        rw [hnone, if_pos hkey, if_pos (decide_eq_true hkey)]
        dsimp only
        rw [add_zero, Nat.zero_add]
      · rw [if_neg hkey, if_neg (by simpa using hkey), add_zero]
        cases hits.findIdx? (fun sp => sp.key = pid) with
        | none => rfl
        | some i =>
          dsimp only [Option.map_some]
          rw [Nat.add_assoc, Nat.add_comm 1 k]
    · rw [hpayloads, payload_accumulateHit, List.find?_cons, Option.or_assoc]
      congr 1
      split_ifs with h
      · rw [decide_eq_true h]
        obtain ⟨payload, hpayload, -⟩ := (Option.any_eq_true _ _).1 h.2
        rw [hpayload, Option.some_or]
        exact hpayload.symm
      · rw [decide_eq_false h, Option.none_or]

/-! ### What is returned -/

section

variable (hdense : (dense.map ScoredPoint.key).Nodup) (hsparse : (sparse.map ScoredPoint.key).Nodup)

include hdense hsparse

theorem keys_fuse : (fuse dense sparse).scores.keys = appearing dense sparse := by
  rw [fuse, accumulate, (foldl_accumulateHit hsparse _ 1).1, accumulate,
    (foldl_accumulateHit hdense _ 1).1, keys_empty, nil_append,
    filter_eq_self.2 (by simp), appearing]

theorem getD_fuse (pid : String) :
    (fuse dense sparse).scores.getD pid 0 = share dense pid + share sparse pid := by
  rw [fuse, accumulate, (foldl_accumulateHit hsparse _ 1).2.1, accumulate,
    (foldl_accumulateHit hdense _ 1).2.1, getD, get?_empty, Option.getD_none, zero_add]
  rfl

theorem payload_fuse (pid : String) : (fuse dense sparse).payloads.get? pid =
    ((dense.find? fun sp => sp.key = pid ∧ sp.hasPayload).bind ScoredPoint.payload).or
      ((sparse.find? fun sp => sp.key = pid ∧ sp.hasPayload).bind ScoredPoint.payload) := by
  rw [fuse, accumulate, (foldl_accumulateHit hsparse _ 1).2.2, accumulate,
    (foldl_accumulateHit hdense _ 1).2.2, get?_empty, Option.none_or]

end

theorem nodup_appearing (hdense : (dense.map ScoredPoint.key).Nodup)
    (hsparse : (sparse.map ScoredPoint.key).Nodup) : (appearing dense sparse).Nodup := by
  refine nodup_append'.2 ⟨hdense, hsparse.filter _, fun pid hpid hpid' => ?_⟩
  exact of_decide_eq_true (mem_filter.1 hpid').2 hpid

theorem exists_fusedPoint (h : pid ∈ appearing dense sparse) :
    ∃ sp, fusedPoint dense sparse pid = some sp ∧ sp.key = pid := by
  have htemplate : ∃ sp, template dense sparse pid = some sp ∧ sp.key = pid := by
    rw [template]
    cases hfind : dense.find? fun sp => sp.key = pid with
    | some sp => exact ⟨sp, rfl, by simpa using List.find?_some hfind⟩
    | none =>
      have hnot : pid ∉ dense.map ScoredPoint.key := by
        intro hmem
        obtain ⟨sp, hsp, hkey⟩ := mem_map.1 hmem
        exact absurd (decide_eq_true hkey) (by simpa using List.find?_eq_none.1 hfind sp hsp)
      have hmem := (mem_filter.1 ((mem_append.1 h).resolve_left hnot)).1
      obtain ⟨sp, hsp, hkey⟩ := mem_map.1 hmem
      cases hfind' : sparse.find? fun sp => sp.key = pid with
      | some sp => exact ⟨sp, rfl, by simpa using List.find?_some hfind'⟩
      | none =>
        exact absurd (decide_eq_true hkey) (by simpa using List.find?_eq_none.1 hfind' sp hsp)
  obtain ⟨sp, hsp, hkey⟩ := htemplate
  rw [fusedPoint, hsp]
  exact ⟨_, rfl, hkey⟩

theorem score_fusedPoint {sp : ScoredPoint} (h : fusedPoint dense sparse pid = some sp) :
    sp.score = (fuse dense sparse).scores.getD pid 0 := by
  obtain ⟨_, -, rfl⟩ := Option.map_eq_some_iff.1 h
  rfl

theorem map_key_rrfMerge (hdense : (dense.map ScoredPoint.key).Nodup)
    (hsparse : (sparse.map ScoredPoint.key).Nodup) (topK : ℕ) :
    (rrfMerge dense sparse topK).map ScoredPoint.key =
      (ranked (fun pid => share dense pid + share sparse pid) (appearing dense sparse)).take
        topK := by
  have hall : ∀ pid ∈ (ranked (fun pid => share dense pid + share sparse pid)
      (appearing dense sparse)).take topK, pid ∈ appearing dense sparse :=
    fun pid hpid => StableRank.mem_ranked.1 (mem_of_mem_take hpid)
  rw [rrfMerge, keys_fuse hdense hsparse]
  simp only [getD_fuse hdense hsparse]
  generalize (ranked (fun pid => share dense pid + share sparse pid)
    (appearing dense sparse)).take topK = pids at hall ⊢
  induction pids with
  | nil => rfl
  | cons pid pids ih =>
    obtain ⟨hpid, hpids⟩ := forall_mem_cons.1 hall
    obtain ⟨sp, hsp, hkey⟩ := exists_fusedPoint hpid
    rw [filterMap_cons, hsp]
    exact congrArg₂ List.cons hkey (ih hpids)

theorem score_of_mem (hdense : (dense.map ScoredPoint.key).Nodup)
    (hsparse : (sparse.map ScoredPoint.key).Nodup) {topK : ℕ} {sp : ScoredPoint}
    (h : sp ∈ rrfMerge dense sparse topK) :
    fusedPoint dense sparse sp.key = some sp ∧
      sp.score = share dense sp.key + share sparse sp.key := by
  obtain ⟨pid, hpid, hsp⟩ := mem_filterMap.1 h
  have hmem : pid ∈ appearing dense sparse := by
    rw [← keys_fuse hdense hsparse]
    exact StableRank.mem_ranked.1 (mem_of_mem_take hpid)
  obtain ⟨sp', hsp', hkey⟩ := exists_fusedPoint hmem
  rw [hsp] at hsp'
  cases hsp'
  subst hkey
  exact ⟨hsp, by rw [score_fusedPoint hsp, getD_fuse hdense hsparse]⟩

/-- The merged points are the `topK` best ids, each once with the sum of its shares, in descending
order with ties in order of first appearance, and with the payload of the dense hit if it has one.
-/
theorem rrfMerge_exact (hdense : (dense.map ScoredPoint.key).Nodup)
    (hsparse : (sparse.map ScoredPoint.key).Nodup) (topK : ℕ) :
    (rrfMerge dense sparse topK).length = min topK (appearing dense sparse).length ∧
    ((rrfMerge dense sparse topK).map ScoredPoint.key).Nodup ∧
    (∀ sp ∈ rrfMerge dense sparse topK, sp.key ∈ appearing dense sparse ∧
      sp.score = share dense sp.key + share sparse sp.key) ∧
    (rrfMerge dense sparse topK).Pairwise (fun sp sp' => sp'.score < sp.score ∨
      sp.score = sp'.score ∧ [sp.key, sp'.key].Sublist (appearing dense sparse)) ∧
    (∀ pid ∈ appearing dense sparse, pid ∉ (rrfMerge dense sparse topK).map ScoredPoint.key →
      ∀ sp ∈ rrfMerge dense sparse topK, share dense pid + share sparse pid ≤ sp.score) ∧
    ∀ sp ∈ rrfMerge dense sparse topK, ∀ hit ∈ dense, hit.key = sp.key → hit.hasPayload →
      sp.payload = hit.payload := by
  have hkeys := map_key_rrfMerge hdense hsparse topK
  have hnodup := nodup_appearing hdense hsparse
  have hmem {sp : ScoredPoint} (hsp : sp ∈ rrfMerge dense sparse topK) :
      sp.key ∈ (ranked (fun pid => share dense pid + share sparse pid)
        (appearing dense sparse)).take topK := by
    rw [← hkeys]
    exact mem_map_of_mem hsp
  refine ⟨?_, ?_, fun sp hsp => ?_, ?_, fun pid hpid hnot sp hsp => ?_,
    fun sp hsp hit hhit hkey hpayload => ?_⟩
  · rw [← length_map ScoredPoint.key, hkeys, length_take, StableRank.length_ranked]
  · rw [hkeys]
    exact ((StableRank.ranked_perm _ _).nodup_iff.2 hnodup).sublist (take_sublist _ _)
  · exact ⟨StableRank.mem_ranked.1 (mem_of_mem_take (hmem hsp)),
      (score_of_mem hdense hsparse hsp).2⟩
  · have hpairs : ((ranked (fun pid => share dense pid + share sparse pid)
        (appearing dense sparse)).take topK).Pairwise _ :=
      (StableRank.pairwise_ranked hnodup).sublist (take_sublist topK _)
    rw [← hkeys, pairwise_map] at hpairs
    refine hpairs.imp_of_mem fun {sp sp'} hsp hsp' h => ?_
    rwa [(score_of_mem hdense hsparse hsp).2, (score_of_mem hdense hsparse hsp').2]
  · rw [(score_of_mem hdense hsparse hsp).2]
    rw [hkeys] at hnot
    exact StableRank.le_of_not_mem_take (hmem hsp) hpid hnot
  · obtain ⟨hfused, -⟩ := score_of_mem hdense hsparse hsp
    obtain ⟨sp', -, hsp'⟩ := Option.map_eq_some_iff.1 hfused
    have hfind : dense.find? (fun hit => hit.key = sp.key ∧ hit.hasPayload) = some hit := by
      cases hfind : dense.find? (fun hit => hit.key = sp.key ∧ hit.hasPayload) with
      | none =>
        exact absurd (decide_eq_true ⟨hkey, hpayload⟩) (List.find?_eq_none.1 hfind hit hhit)
      | some other =>
        have hother : other.key = sp.key ∧ other.hasPayload = true := by
          simpa using List.find?_some hfind
        rw [inj_on_of_nodup_map hdense (List.mem_of_find?_eq_some hfind) hhit
          (hother.1.trans hkey.symm)]
    obtain ⟨payload, hsome, -⟩ := (Option.any_eq_true _ _).1 hpayload
    rw [← hsp', payload_fuse hdense hsparse]
    dsimp only
    rw [hfind, Option.bind_some, hsome]
    rfl

/-! ### Two lists with one id in common -/

def denseHits : List ScoredPoint :=
  [⟨.uuid "a", 1, 9 / 10, some [("text", .str "dense a")]⟩, ⟨.uuid "b", 1, 8 / 10, none⟩]

def sparseHits : List ScoredPoint :=
  [⟨.uuid "b", 2, 7, some [("text", .str "sparse b")]⟩, ⟨.uuid "c", 1, 6, none⟩]

/-- The id of both lists comes first. -/
theorem rrfMerge_exact_sample : (rrfMerge denseHits sparseHits 2).length = 2 ∧
    ∀ sp ∈ rrfMerge denseHits sparseHits 2,
      sp.score = share denseHits sp.key + share sparseHits sp.key := by
  have h := rrfMerge_exact (by decide : (denseHits.map ScoredPoint.key).Nodup)
    (by decide : (sparseHits.map ScoredPoint.key).Nodup) 2
  exact ⟨h.1, fun sp hsp => (h.2.2.1 sp hsp).2⟩

end Omniscience.RankFusion
