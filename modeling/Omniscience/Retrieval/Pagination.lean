import Omniscience.Retrieval.GraphRag

/-!
# Following the cursor

A page of the composer ends when it is full, or when the next hit would exceed the budget of
characters, and its cursor is the place of the first hit that is not on it.  A page of a result
that is not exhausted has at least one hit, over-size or not, so that following the cursors comes
to an end.

* `pages_partition` : the pages of a request list every chunk that passes the watermark filter
  once, in the order of the scores, and each of them keeps to the limits.
-/

namespace Omniscience.GraphRag

open Retrieval List

/-- The answers to a request, from a cursor until there is none. -/
inductive Pages (answer : Option String → SearchResult) : Option String → List SearchResult → Prop
  | last {cursor : Option String} (h : (answer cursor).nextCursor = none) :
    Pages answer cursor [answer cursor]
  | next {cursor : Option String} {following : String} {rest : List SearchResult}
    (h : (answer cursor).nextCursor = some following) (hrest : Pages answer (some following) rest) :
    Pages answer cursor (answer cursor :: rest)

/-! ### One page -/

/-- The characters of the hits are within the budget, unless there is a single over-size hit. -/
def WithinBudget (hits : List SearchHit) : Prop :=
  (hits.map fun hit => hit.text.length).sum ≤ graphragBudgetChars ∨
    ∃ hit, hits = [hit] ∧ graphragBudgetChars < hit.text.length

theorem withinBudget_singleton (hit : SearchHit) : WithinBudget [hit] := by
  by_cases h : graphragBudgetChars < hit.text.length
  · exact .inr ⟨hit, rfl, h⟩
  · exact .inl (by simpa using h)

theorem fillPage_spec (topK : ℕ) (scored : List Scored) (page : List SearchHit) (chars : ℕ)
    (hlength : page.length ≤ topK) (hchars : chars = (page.map fun hit => hit.text.length).sum)
    (hbudget : WithinBudget page) :
    ∃ n, fillPage topK scored page chars =
        (page ++ (scored.take n).map Scored.toHit, decide (n < scored.length)) ∧
      page.length + (scored.take n).length ≤ topK ∧
      WithinBudget (page ++ (scored.take n).map Scored.toHit) ∧
      (page = [] → 0 < topK → scored ≠ [] → 0 < n) := by
  induction scored generalizing page chars with
  | nil => exact ⟨0, by simp [fillPage], by simpa using hlength, by simpa using hbudget, by simp⟩
  | cons s rest ih =>
    rw [fillPage]
    split_ifs with hfull hover
    · refine ⟨0, by simp, by simpa using hlength, by simpa using hbudget, fun hpage htop _ => ?_⟩
      rw [hpage, length_nil] at hfull
      omega
    · refine ⟨0, by simp, by simpa using hlength, by simpa using hbudget, fun hpage _ _ => ?_⟩
      rw [hpage, length_nil] at hover
      exact absurd hover.2 (lt_irrefl 0)
    · -- the hit is taken: it fits, or it is the first one
      have hbudget' : WithinBudget (page ++ [s.toHit]) := by
        rcases Nat.eq_zero_or_pos page.length with hzero | hpos
        · rw [length_eq_zero_iff.1 hzero]
          exact withinBudget_singleton s.toHit
        · have hfits : ¬ graphragBudgetChars < chars + s.hit.text.length := fun h =>
            hover ⟨h, hpos⟩
          left
          rw [map_append, sum_append, ← hchars]
          simpa [Scored.toHit] using not_lt.1 hfits
      obtain ⟨n, heq, hle, hwithin, -⟩ := ih (page ++ [s.toHit]) (chars + s.hit.text.length)
        (by simp; omega) (by simp [hchars, Scored.toHit]) hbudget'
      refine ⟨n + 1, ?_, ?_, ?_, fun _ _ _ => Nat.succ_pos n⟩
      · rw [heq]
        simp
      · simpa [add_assoc, add_comm, add_left_comm] using hle
      · simpa using hwithin

/-! ### All pages -/

section Pages

variable (c : Composer) (request : SearchRequest) (vectorResult : SearchResult)
  (anchor : AnchorStageResult) (asOf : Option DateTime) (watermarks : Option Watermarks)

/-- The answer of the merge stage for a cursor. -/
def answer (cursor : Option String) : SearchResult :=
  runMergeStage c { request with cursor := cursor } vectorResult anchor asOf watermarks

/-- The hits that pass the watermark filter. -/
def passing : List SearchHit := applyWatermarkFilter vectorResult.hits watermarks c.strictEpoch

/-- The scored hits in their order. -/
def ranking : List Scored :=
  (scoreHits c anchor asOf 0 [] (passing c vectorResult watermarks)).insertionSort ranks

theorem answer_spec {cursor : Option String} {k : ℕ}
    (hstart : startOf c { request with cursor := cursor } = k) :
    let remaining := (ranking c vectorResult anchor asOf watermarks).drop k
    let page := answer c request vectorResult anchor asOf watermarks cursor
    ∃ n, page.hits = (remaining.take n).map Scored.toHit ∧ page.hits.length ≤ request.topK ∧
      WithinBudget page.hits ∧ (remaining ≠ [] → 0 < n) ∧
      page.nextCursor =
        if n < remaining.length then some (toString ((k + n : ℕ) : ℤ)) else none := by
  intro remaining page
  obtain ⟨n, heq, hle, hwithin, hpos⟩ := fillPage_spec request.topK remaining [] 0
    (Nat.zero_le _) rfl (.inl (Nat.zero_le _))
  have hslice : sliceFrom (k : ℤ) (ranking c vectorResult anchor asOf watermarks) = remaining := by
    simp [sliceFrom, remaining]
  have hpage : page.hits = (remaining.take n).map Scored.toHit ∧ page.nextCursor =
      if decide (n < remaining.length) = true then
        some (toString ((k : ℤ) + ((remaining.take n).map Scored.toHit).length)) else none := by
    have hfill : fillPage request.topK (sliceFrom (startOf c { request with cursor := cursor })
        (ranking c vectorResult anchor asOf watermarks)) [] 0 =
          ((remaining.take n).map Scored.toHit, decide (n < remaining.length)) := by
      rw [hstart, hslice, heq, nil_append]
    simp only [page, answer, runMergeStage]
    unfold ranking passing at hfill
    rw [hfill, hstart]
    exact ⟨rfl, rfl⟩
  refine ⟨n, hpage.1, ?_, ?_, hpos rfl request.topK_range, ?_⟩
  · rw [hpage.1]
    simpa using hle
  · rw [hpage.1]
    simpa using hwithin
  · rw [hpage.2]
    by_cases hn : n < remaining.length
    · rw [if_pos (decide_eq_true hn), if_pos hn, length_map, length_take,
        min_eq_left hn.le, Nat.cast_add]
    · rw [if_neg (by simpa using hn), if_neg hn]

variable {c request} in
theorem startOf_toString (hint : ∀ n : ℕ, c.int (toString n) = some (n : ℤ)) (k : ℕ) :
    startOf c { request with cursor := some (toString (k : ℤ)) } = k := by
  have hne : toString (k : ℤ) ≠ "" := Nat.repr_ne_empty
  have hread : c.int (toString (k : ℤ)) = some (k : ℤ) := hint k
  simp only [startOf, hne, ↓reduceIte, hread, Option.getD_some]

theorem exists_pages (hint : ∀ n : ℕ, c.int (toString n) = some (n : ℤ))
    {cursor : Option String} {k : ℕ} (hstart : startOf c { request with cursor := cursor } = k) :
    ∃ pages, Pages (answer c request vectorResult anchor asOf watermarks) cursor pages ∧
      pages.flatMap SearchResult.hits =
        ((ranking c vectorResult anchor asOf watermarks).drop k).map Scored.toHit ∧
      ∀ page ∈ pages, page.hits.length ≤ request.topK ∧ WithinBudget page.hits := by
  -- the induction is on how much of the ranking remains
  induction hm : (ranking c vectorResult anchor asOf watermarks).length - k using
    Nat.strong_induction_on generalizing cursor k with
  | _ m ih =>
    obtain ⟨n, hhits, hlength, hwithin, hpos, hcursor⟩ :=
      answer_spec c request vectorResult anchor asOf watermarks hstart
    by_cases hn : n < ((ranking c vectorResult anchor asOf watermarks).drop k).length
    · rw [if_pos hn] at hcursor
      have hn' := hn
      rw [length_drop] at hn'
      have hnpos : 0 < n := hpos fun hnil => by simp [hnil] at hn
      obtain ⟨pages, hpages, hflat, hall⟩ := ih _ (by omega) (startOf_toString hint (k + n)) rfl
      refine ⟨_, .next hcursor hpages, ?_, ?_⟩
      · rw [flatMap_cons, hflat, hhits, ← map_append, ← drop_drop, take_append_drop]
      · simp only [mem_cons, forall_eq_or_imp]
        exact ⟨⟨hlength, hwithin⟩, hall⟩
    · rw [if_neg hn] at hcursor
      refine ⟨_, .last hcursor, ?_, ?_⟩
      · rw [flatMap_singleton, hhits, take_of_length_le (not_lt.1 hn)]
      · simp only [mem_singleton, forall_eq]
        exact ⟨hlength, hwithin⟩

variable {c request vectorResult anchor asOf watermarks}

/-! ### The ranking -/

theorem eq_of_mem_scoreHits {hits : List SearchHit} {index : ℕ} {seen : List Uuid} {s : Scored}
    (h : s ∈ scoreHits c anchor asOf index seen hits) :
    s.hit.chunkId ∉ seen ∧
      ∃ i, i = (hits.map SearchHit.chunkId).idxOf s.hit.chunkId ∧ hits[i]? = some s.hit ∧
        s = scoreHit c anchor asOf (index + i) s.hit := by
  induction hits generalizing index seen with
  | nil => simp [scoreHits] at h
  | cons hit hits ih =>
    rw [scoreHits] at h
    -- a later hit has another chunk, so that its place is one further
    have hlater {seen' : List Uuid} (h : s ∈ scoreHits c anchor asOf (index + 1) seen' hits)
        (hne : hit.chunkId ≠ s.hit.chunkId) :
        ∃ i, i = ((hit :: hits).map SearchHit.chunkId).idxOf s.hit.chunkId ∧
          (hit :: hits)[i]? = some s.hit ∧ s = scoreHit c anchor asOf (index + i) s.hit := by
      obtain ⟨-, i, hi, hget, heq⟩ := ih h
      refine ⟨i + 1, ?_, hget, ?_⟩
      · rw [map_cons, idxOf_cons_ne _ hne, ← hi]
      · rw [heq, add_assoc, add_comm 1 i]
        rfl
    split_ifs at h with hseen
    · obtain ⟨hnot, -⟩ := ih h
      exact ⟨hnot, hlater h fun heq => hnot (heq ▸ hseen)⟩
    · rcases mem_cons.1 h with rfl | h
      · exact ⟨hseen, 0, by simp [scoreHit], rfl, rfl⟩
      · obtain ⟨hnot, -⟩ := ih h
        rw [mem_cons, not_or] at hnot
        exact ⟨hnot.2, hlater h (Ne.symm hnot.1)⟩

theorem chunkIds_scoreHits (c : Composer) (anchor : AnchorStageResult) (asOf : Option DateTime)
    (index : ℕ) (seen : List Uuid) (hits : List SearchHit) :
    ((scoreHits c anchor asOf index seen hits).map fun s => s.hit.chunkId).Nodup ∧
      ∀ id, (id ∈ (scoreHits c anchor asOf index seen hits).map fun s => s.hit.chunkId) ↔
        id ∈ hits.map SearchHit.chunkId ∧ id ∉ seen := by
  induction hits generalizing index seen with
  | nil => simp [scoreHits]
  | cons hit hits ih =>
    rw [scoreHits]
    split_ifs with hseen
    · obtain ⟨hnodup, hmem⟩ := ih (index + 1) seen
      refine ⟨hnodup, fun id => ?_⟩
      rw [hmem, map_cons, mem_cons]
      constructor
      · exact fun h => ⟨.inr h.1, h.2⟩
      · rintro ⟨rfl | h, hnot⟩
        · exact absurd hseen hnot
        · exact ⟨h, hnot⟩
    · obtain ⟨hnodup, hmem⟩ := ih (index + 1) (hit.chunkId :: seen)
      have hhead : (scoreHit c anchor asOf index hit).hit.chunkId = hit.chunkId := rfl
      refine ⟨?_, fun id => ?_⟩
      · rw [map_cons, nodup_cons, hmem, hhead]
        exact ⟨fun h => h.2 mem_cons_self, hnodup⟩
      · rw [map_cons, mem_cons, hmem, hhead, map_cons, mem_cons, mem_cons]
        by_cases hid : id = hit.chunkId
        · simp [hid, hseen]
        · simp [hid]

instance : Std.Total ranks := by
  refine ⟨fun a b => ?_⟩
  unfold ranks
  rcases lt_trichotomy a.score b.score with h | h | h
  · exact .inr (.inl h)
  · rcases le_total a.index b.index with hle | hle
    · exact .inl (.inr ⟨h, hle⟩)
    · exact .inr (.inr ⟨h.symm, hle⟩)
  · exact .inl (.inl h)

instance : IsTrans Scored ranks := by
  refine ⟨fun a b d hab hbd => ?_⟩
  unfold ranks at *
  rcases hab with hab | ⟨hab, hle⟩
  · rcases hbd with hbd | ⟨hbd, -⟩
    · exact .inl (hbd.trans hab)
    · exact .inl (hbd ▸ hab)
  · rcases hbd with hbd | ⟨hbd, hle'⟩
    · exact .inl (hab ▸ hbd)
    · exact .inr ⟨hab.trans hbd, hle.trans hle'⟩

variable (c vectorResult watermarks) in
/-- The place of the first hit of a chunk, among the hits that pass the watermark filter. -/
def place (id : Uuid) : ℕ := ((passing c vectorResult watermarks).map SearchHit.chunkId).idxOf id

theorem eq_of_mem_ranking {s : Scored} (h : s ∈ ranking c vectorResult anchor asOf watermarks) :
    (passing c vectorResult watermarks)[place c vectorResult watermarks s.hit.chunkId]? =
        some s.hit ∧
      s = scoreHit c anchor asOf (place c vectorResult watermarks s.hit.chunkId) s.hit := by
  obtain ⟨-, i, rfl, hget, heq⟩ := eq_of_mem_scoreHits ((mem_insertionSort ranks).1 h)
  rw [zero_add] at heq
  exact ⟨hget, heq⟩

theorem chunkIds_ranking (c : Composer) (vectorResult : SearchResult) (anchor : AnchorStageResult)
    (asOf : Option DateTime) (watermarks : Option Watermarks) :
    ((ranking c vectorResult anchor asOf watermarks).map fun s => s.hit.chunkId).Nodup ∧
      ∀ id, (id ∈ (ranking c vectorResult anchor asOf watermarks).map fun s => s.hit.chunkId) ↔
        id ∈ (passing c vectorResult watermarks).map SearchHit.chunkId := by
  obtain ⟨hnodup, hmem⟩ := chunkIds_scoreHits c anchor asOf 0 [] (passing c vectorResult watermarks)
  have hperm : (ranking c vectorResult anchor asOf watermarks).Perm _ :=
    perm_insertionSort ranks _
  have hperm := hperm.map fun s => s.hit.chunkId
  refine ⟨hperm.nodup_iff.2 hnodup, fun id => ?_⟩
  rw [hperm.mem_iff, hmem]
  exact and_iff_left not_mem_nil

theorem pairwise_ranking : (ranking c vectorResult anchor asOf watermarks).Pairwise fun a b =>
    b.score < a.score ∨ a.score = b.score ∧
      place c vectorResult watermarks a.hit.chunkId <
        place c vectorResult watermarks b.hit.chunkId := by
  have hranks : (ranking c vectorResult anchor asOf watermarks).Pairwise ranks :=
    pairwise_insertionSort ranks _
  have hnodup := (chunkIds_ranking c vectorResult anchor asOf watermarks).1
  rw [List.Nodup, pairwise_map] at hnodup
  refine (hranks.and hnodup).imp_of_mem fun {a b} ha hb hab => ?_
  obtain ⟨hranked | ⟨hscore, hle⟩, hne⟩ := hab
  · exact .inl hranked
  · refine .inr ⟨hscore, ?_⟩
    obtain ⟨hgeta, heqa⟩ := eq_of_mem_ranking ha
    obtain ⟨hgetb, heqb⟩ := eq_of_mem_ranking hb
    have hindexa : a.index = place c vectorResult watermarks a.hit.chunkId := by
      rw [heqa]
      rfl
    have hindexb : b.index = place c vectorResult watermarks b.hit.chunkId := by
      rw [heqb]
      rfl
    rw [hindexa, hindexb] at hle
    refine lt_of_le_of_ne hle fun heq => hne ?_
    rw [heq, hgetb] at hgeta
    rw [Option.some.inj hgeta]

end Pages

/-- **The pages of a request** come to an end.  They list every chunk that passes the watermark
filter once, with the scores of its first hit, in descending order of the scores and then of the
places. No page exceeds `top_k`, or the budget of characters with more than one hit. -/
theorem pages_partition (c : Composer) (request : SearchRequest) (vectorResult : SearchResult)
    (anchor : AnchorStageResult) (asOf : Option DateTime) (watermarks : Option Watermarks)
    (hint : ∀ n : ℕ, c.int (toString n) = some (n : ℤ)) :
    ∃ pages, Pages (answer c request vectorResult anchor asOf watermarks) none pages ∧
      (∀ page ∈ pages, page.hits.length ≤ request.topK ∧ WithinBudget page.hits) ∧
      let hits := pages.flatMap SearchResult.hits
      let passing := passing c vectorResult watermarks
      let place (hit : SearchHit) := place c vectorResult watermarks hit.chunkId
      (hits.map SearchHit.chunkId).Nodup ∧
        (∀ id, id ∈ hits.map SearchHit.chunkId ↔ id ∈ passing.map SearchHit.chunkId) ∧
        (∀ hit ∈ hits, ∃ original, passing[place hit]? = some original ∧
          hit = (scoreHit c anchor asOf (place hit) original).toHit) ∧
        hits.Pairwise fun a b => b.score < a.score ∨ a.score = b.score ∧ place a < place b := by
  have hstart : startOf c { request with cursor := none } = (0 : ℕ) := rfl
  obtain ⟨pages, hpages, hflat, hall⟩ :=
    exists_pages c request vectorResult anchor asOf watermarks hint hstart
  rw [drop_zero] at hflat
  refine ⟨pages, hpages, hall, ?_⟩
  dsimp only
  rw [hflat]
  have hids : ((ranking c vectorResult anchor asOf watermarks).map Scored.toHit).map
      SearchHit.chunkId =
        (ranking c vectorResult anchor asOf watermarks).map fun s => s.hit.chunkId := by
    rw [map_map]
    rfl
  refine ⟨?_, fun id => ?_, fun hit hhit => ?_, ?_⟩
  · rw [hids]
    exact (chunkIds_ranking c vectorResult anchor asOf watermarks).1
  · rw [hids]
    exact (chunkIds_ranking c vectorResult anchor asOf watermarks).2 id
  · obtain ⟨s, hs, rfl⟩ := mem_map.1 hhit
    obtain ⟨hget, heq⟩ := eq_of_mem_ranking hs
    exact ⟨s.hit, hget, congrArg Scored.toHit heq⟩
  · exact pairwise_map.2 pairwise_ranking

/-- `int(text)` of a text of decimal digits. -/
def readDigits (text : String) : Option ℤ :=
  if text ≠ "" ∧ text.toList.all Char.isDigit then some (Nat.ofDigitChars 10 text.toList 0)
  else none

theorem readDigits_toString (n : ℕ) : readDigits (toString n) = some (n : ℤ) := by
  have hlist : (toString n).toList = Nat.toDigits 10 n := Nat.toList_repr
  have hdigits : (Nat.toDigits 10 n).all Char.isDigit = true :=
    all_eq_true.2 fun d hd => Nat.isDigit_of_mem_toDigits (by decide) (by decide) hd
  have hne : toString n ≠ "" := Nat.repr_ne_empty
  rw [readDigits, hlist, if_pos ⟨hne, hdigits⟩, Nat.ofDigitChars_ten_toDigits]

/-- Three hits in two chunks, on pages of one hit. -/
theorem pages_partition_sample :
    ∃ pages, Pages (answer { sampleComposer with int := readDigits }
        { sampleRequest none with topK := 1, topK_range := Nat.one_pos }
        { hits := [sampleHit 10 1, sampleHit 10 1, sampleHit 20 2], queryStats := ⟨3, 3, 0⟩ } {}
        none none) none pages ∧
      (∀ page ∈ pages, page.hits.length ≤ 1) ∧
        ((pages.flatMap SearchResult.hits).map SearchHit.chunkId).Nodup := by
  obtain ⟨pages, hpages, hall, hnodup, -⟩ := pages_partition
    { sampleComposer with int := readDigits }
    { sampleRequest none with topK := 1, topK_range := Nat.one_pos }
    { hits := [sampleHit 10 1, sampleHit 10 1, sampleHit 20 2], queryStats := ⟨3, 3, 0⟩ } {}
    none none readDigits_toString
  exact ⟨pages, hpages, fun page hpage => (hall page hpage).1, hnodup⟩

end Omniscience.GraphRag
