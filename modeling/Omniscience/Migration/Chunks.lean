import Omniscience.Migration.Runner

/-!
# The chunks that arrive

The runner hands the chunks of a document to `upsert_chunks` in batches, each with the content hash
of the whole document.  The first batch makes the document, and the vector store takes every other
batch for a repetition of it: the hash is that of the current generation.

So a document arrives as a whole exactly if it has no more chunks than a batch, whatever the report
of the run counts (`first_batch_arrives`).
-/

namespace Omniscience.Migration

open Outbox Coro List Qdrant

/-- The arguments of an `upsert_chunks` call. -/
def Call.chunks? : Call → Option ChunksUpsert
  | .upsertChunks args => some args
  | _ => none

/-- The arguments of the `upsert_chunks` calls of a run, in order. -/
def uploads (es : List (Event iface)) : List ChunksUpsert := es.filterMap fun e => e.1.chunks?

/-- The document in the vector store. -/
def Document.key (workspaceId sourceId : Uuid) (d : Document) : DocumentKey :=
  ⟨workspaceId, sourceId, d.externalId⟩

section

variable {w : Uuid} {c : Collection} {u : Upsert} {args : ChunksUpsert}

/-- A document whose current points carry the hash of a write is not written again. -/
theorem apply_of_current (hws : extractWorkspaceId u.args.metadata = .ok w)
    (hsome : ∃ p ∈ c.points, p.isCurrent (keyOf w u.args) = true)
    (hhash : ∀ p ∈ c.points, p.isCurrent (keyOf w u.args) = true →
      p.contentHash = some u.args.contentHash) : u.apply c = c := by
  obtain ⟨-, h⟩ | ⟨hwritten, -⟩ := apply_cases (c := c) hws
  · exact h
  · refine absurd ?_ hwritten.2
    show (findDocument (keyOf w u.args).workspaceId (keyOf w u.args).sourceId
      (keyOf w u.args).externalId c).map _ = _
    rw [findDocument_eq]
    obtain ⟨p, hp, hcurrent⟩ := hsome
    cases hfilter : c.points.filter (Point.isCurrent (keyOf w u.args)) with
    | nil => exact absurd hcurrent (filter_eq_nil_iff.1 hfilter p hp)
    | cons first rest =>
      have hfirst : first ∈ c.points.filter (Point.isCurrent (keyOf w u.args)) :=
        hfilter ▸ mem_cons_self
      simp [recordFromPoints, hhash first (mem_filter.1 hfirst).1 (mem_filter.1 hfirst).2]

/-- A document without current points is written, and its points carry the hash of the write. -/
theorem apply_of_absent (hws : extractWorkspaceId u.args.metadata = .ok w)
    (hversion : u.args.version = none) (hfresh : u.draw.Fresh u.args c.points)
    (habsent : currentChunks (keyOf w u.args) c.points = []) :
    (currentChunks (keyOf w u.args) (u.apply c).points).Perm u.args.chunks ∧
      ∀ p ∈ (u.apply c).points, p.isCurrent (keyOf w u.args) = true →
        p.contentHash = some u.args.contentHash := by
  have hnone : c.points.filter (Point.isCurrent (keyOf w u.args)) = [] := map_eq_nil_iff.1 habsent
  have hwritten : Written c w u.args := by
    refine ⟨by rw [skips, hversion], ?_⟩
    show (findDocument (keyOf w u.args).workspaceId (keyOf w u.args).sourceId
      (keyOf w u.args).externalId c).map _ ≠ _
    rw [findDocument_eq, hnone]
    exact fun h => by cases h
  obtain ⟨hnot, -⟩ | ⟨-, happly⟩ := apply_cases (c := c) hws
  · exact absurd hwritten hnot
  rw [happly]
  refine ⟨currentChunks_writeDocument hfresh, fun p hp hcurrent => ?_⟩
  rcases mem_addPoints hp with hp | hp
  · rw [← map_uncurry_zip_eq_zipWith] at hp
    obtain ⟨x, -, rfl⟩ := mem_map.1 hp
    rfl
  · have hclosed := closeDocument_findDocument (keyOf w u.args) u.now c
    have hp' : p ∈ c.points.map fun p =>
        if p.isCurrent (keyOf w u.args) then p.close u.now else p := hclosed ▸ hp
    obtain ⟨q, hq, rfl⟩ := mem_map.1 hp'
    rw [if_neg (filter_eq_nil_iff.1 hnone q hq)] at hcurrent
    exact absurd hcurrent (filter_eq_nil_iff.1 hnone q hq)

end

section

variable {w sourceId : Uuid} {d : Document} {c : Collection} {calls : List Upsert}

/-- The ids of each call are new when it is made. -/
def AllFresh (c : Collection) (calls : List Upsert) : Prop :=
  ∀ pre u, pre ++ [u] <+: calls → u.draw.Fresh u.args (Qdrant.after c pre).points

theorem AllFresh.append {calls' : List Upsert} (h : AllFresh c (calls ++ calls')) :
    AllFresh c calls ∧ AllFresh (Qdrant.after c calls) calls' := by
  refine ⟨fun pre u hpre => h pre u (hpre.trans (prefix_append _ _)), fun pre u hpre => ?_⟩
  have hfresh := h (calls ++ pre) u (by
    rw [append_assoc]
    exact (prefix_append_right_inj _).2 hpre)
  rwa [Qdrant.after, foldl_append] at hfresh

/-- Writes of other documents leave the chunks of a document. -/
theorem currentChunks_after_ne {k : DocumentKey} (hfresh : AllFresh c calls)
    (hws : ∀ u ∈ calls, extractWorkspaceId u.args.metadata = .ok w)
    (hne : ∀ u ∈ calls, k ≠ keyOf w u.args) :
    (currentChunks k (Qdrant.after c calls).points).Perm (currentChunks k c.points) := by
  induction calls using reverseRecOn with
  | nil => exact .refl _
  | append_singleton calls u ih =>
    rw [Qdrant.after_concat]
    refine (currentChunks_apply_ne (hws u (by simp)) (hfresh calls u (prefix_refl _))
      (hne u (by simp))).trans (ih hfresh.append.1 (fun v hv => hws v (mem_append_left _ hv))
        fun v hv => hne v (mem_append_left _ hv))

theorem extractWorkspaceId_upsert (batch : List Chunk) :
    extractWorkspaceId (d.upsert sourceId w batch).metadata = .ok w := by
  simp only [extractWorkspaceId, Document.upsert, buildDocumentMetadata, Metadata.lookup_set,
    uuidOf_str]

theorem chunked_eq_cons {α : Type} {items : List α} (h : items ≠ []) {size : ℕ} (hsize : 1 ≤ size) :
    ∃ rest, chunked items size = items.take size :: rest := by
  have hlength : 0 < items.length := length_pos_iff.2 h
  obtain ⟨n, hn⟩ : ∃ n, (items.length + size - 1) / size = n + 1 :=
    Nat.exists_eq_succ_of_ne_zero (Nat.div_pos (by omega) hsize).ne'
  rw [chunked, hn, range_succ_eq_map, map_cons, Nat.zero_mul, drop_zero]
  exact ⟨_, rfl⟩

/-- **One document**: of its batches the first one arrives. -/
theorem document_arrives {size : ℕ} (hsize : 1 ≤ size) (hfresh : AllFresh c calls)
    (hcalls : calls.map Upsert.args = (chunked d.chunks size).map (d.upsert sourceId w))
    (habsent : currentChunks (d.key w sourceId) c.points = []) :
    (currentChunks (d.key w sourceId) (Qdrant.after c calls).points).Perm
      ((d.chunks.take size).map chunkToPayload) := by
  by_cases hchunks : d.chunks = []
  · have hsize' : (size - 1) / size = 0 := Nat.div_eq_of_lt (by omega)
    have hnil : calls = [] := by simpa [chunked, hchunks, hsize'] using hcalls
    rw [hnil, hchunks, take_nil]
    exact List.Perm.of_eq habsent
  obtain ⟨rest, hrest⟩ := chunked_eq_cons hchunks hsize
  rw [hrest, map_cons] at hcalls
  obtain ⟨u, others, rfl, hu, hothers⟩ := map_eq_cons_iff.1 hcalls
  have hkey : keyOf w u.args = d.key w sourceId := by rw [hu]; rfl
  have hws : extractWorkspaceId u.args.metadata = .ok w := hu ▸ extractWorkspaceId_upsert _
  have hnew : u.draw.Fresh u.args c.points := hfresh [] u (prefix_append [u] others)
  obtain ⟨hperm, hhash⟩ := apply_of_absent hws (hu ▸ rfl) hnew (hkey.symm ▸ habsent)
  rw [hkey] at hperm hhash
  have hfirst : u.args.chunks = (d.chunks.take size).map chunkToPayload := by rw [hu]; rfl
  rw [hfirst] at hperm
  -- the document has current points now, so that the other batches are repetitions to the store
  have hsome : ∃ p ∈ (u.apply c).points, p.isCurrent (d.key w sourceId) = true := by
    have hne : currentChunks (d.key w sourceId) (u.apply c).points ≠ [] := by
      intro hnil
      rw [hnil] at hperm
      have htake := map_eq_nil_iff.1 hperm.nil_eq.symm
      rcases take_eq_nil_iff.1 htake with h | h
      · omega
      · exact hchunks h
    obtain ⟨chunk, hchunk⟩ := exists_mem_of_ne_nil _ hne
    obtain ⟨p, hp, -⟩ := mem_map.1 hchunk
    exact ⟨p, (mem_filter.1 hp).1, (mem_filter.1 hp).2⟩
  have hsame : ∀ v ∈ others, v.apply (u.apply c) = u.apply c := by
    intro v hv
    obtain ⟨batch, -, hbatch⟩ := mem_map.1 (hothers ▸ mem_map_of_mem hv)
    refine apply_of_current (hbatch ▸ extractWorkspaceId_upsert batch) ?_ ?_
    · rw [← hbatch]
      exact hsome
    · rw [← hbatch]
      intro p hp hcurrent
      rw [hhash p hp hcurrent, hu]
      rfl
  have hafter : ∀ l ⊆ others, Qdrant.after (u.apply c) l = u.apply c := by
    intro l hl
    induction l with
    | nil => rfl
    | cons v l ih =>
      obtain ⟨hv, hl⟩ := cons_subset.1 hl
      show Qdrant.after (v.apply (u.apply c)) l = _
      rw [hsame v hv]
      exact ih hl
  show (currentChunks _ (Qdrant.after (u.apply c) others).points).Perm _
  rw [hafter others (List.Subset.refl _)]
  exact hperm

/-- **The documents of a source.** -/
theorem documents_arrive {size : ℕ} (hsize : 1 ≤ size) {docs : List Document}
    (hnodup : (docs.map Document.externalId).Nodup) (hfresh : AllFresh c calls)
    (hcalls : calls.map Upsert.args = docs.flatMap fun d =>
      (chunked d.chunks size).map (d.upsert sourceId w)) (hd : d ∈ docs)
    (habsent : currentChunks (d.key w sourceId) c.points = []) :
    (currentChunks (d.key w sourceId) (Qdrant.after c calls).points).Perm
      ((d.chunks.take size).map chunkToPayload) := by
  obtain ⟨docs₁, docs₂, rfl⟩ := append_of_mem hd
  rw [flatMap_append, flatMap_cons] at hcalls
  obtain ⟨before, rest, rfl, hbefore, hrest⟩ := map_eq_append_iff.1 hcalls
  obtain ⟨own, later, rfl, hown, hlater⟩ := map_eq_append_iff.1 hrest
  obtain ⟨hfresh₁, hfresh₂⟩ := hfresh.append
  obtain ⟨hfreshOwn, hfresh₃⟩ := hfresh₂.append
  -- the other calls are about other documents
  have hother : ∀ {l : List Document} {us : List Upsert}, (∀ d' ∈ l, d'.externalId ≠ d.externalId) →
      (us.map Upsert.args = l.flatMap fun d => (chunked d.chunks size).map (d.upsert sourceId w)) →
      ∀ u ∈ us, extractWorkspaceId u.args.metadata = .ok w ∧ d.key w sourceId ≠ keyOf w u.args := by
    intro l us hl hus u hu
    obtain ⟨d', hd', hu'⟩ := mem_flatMap.1 (hus ▸ mem_map_of_mem hu)
    obtain ⟨batch, -, hbatch⟩ := mem_map.1 hu'
    rw [← hbatch]
    refine ⟨extractWorkspaceId_upsert batch, fun hkey => hl d' hd' ?_⟩
    exact (congrArg DocumentKey.externalId hkey).symm
  rw [map_append, map_cons, nodup_append'] at hnodup
  have h₁ := hother (fun d' hd' heq => hnodup.2.2 (mem_map_of_mem hd') (heq ▸ mem_cons_self)) hbefore
  have h₂ := hother (fun d' hd' heq => (nodup_cons.1 hnodup.2.1).1 (heq ▸ mem_map_of_mem hd')) hlater
  have hafter : Qdrant.after c (before ++ (own ++ later)) =
      Qdrant.after (Qdrant.after (Qdrant.after c before) own) later := by
    rw [Qdrant.after, foldl_append, foldl_append]
    rfl
  rw [hafter]
  refine (currentChunks_after_ne hfresh₃ (fun u hu => (h₂ u hu).1) fun u hu => (h₂ u hu).2).trans ?_
  refine document_arrives hsize hfreshOwn hown ?_
  have hbefore' := currentChunks_after_ne hfresh₁ (fun u hu => (h₁ u hu).1) fun u hu => (h₁ u hu).2
  rw [habsent] at hbefore'
  exact hbefore'.eq_nil

end

/-- **What arrives of a source**: the report has counted every chunk, and a vector store that did
not have the documents has the first batch of each, so that a document has all its chunks there
exactly if it has no more of them than a batch. -/
theorem first_batch_arrives (config : MigrationConfig) (db : Database) (env : Env iface)
    (henv : Leaves env) (source : Source) (w : Uuid) (report report' : SourceReport) (s : State)
    (hdocs : ((iterDocumentChunks db source.id).map Document.externalId).Nodup)
    (hreturns : (exec env (migrateSourceChunks config db source w report) [] s).result = .ok report')
    (c : Collection)
    (habsent : ∀ d ∈ iterDocumentChunks db source.id,
      currentChunks (d.key w source.id) c.points = []) (calls : List Upsert)
    (hcalls : calls.map Upsert.args =
      uploads (exec env (migrateSourceChunks config db source w report) [] s).trace)
    (hfresh : AllFresh c calls) :
    report'.chunksCopied = report.chunksCopied +
        ((iterDocumentChunks db source.id).map fun d => d.chunks.length).sum ∧
      ∀ d ∈ iterDocumentChunks db source.id,
        (currentChunks (d.key w source.id) (Qdrant.after c calls).points).Perm
            ((d.chunks.take config.batchSize).map chunkToPayload) ∧
          ((currentChunks (d.key w source.id) (Qdrant.after c calls).points).length =
            d.chunks.length ↔ d.chunks.length ≤ config.batchSize) := by
  obtain ⟨report'', hcount, hmakes⟩ := makes_migrateSourceChunks config db henv source w report
  obtain ⟨es, htrace, -, hdone⟩ := hmakes [] s
  rw [hreturns] at hdone
  obtain ⟨rfl, hdone⟩ := hdone
  refine ⟨hcount, fun d hd => ?_⟩
  have huploads : uploads es = chunkWrites config db source w := by
    have hargs : uploads es = (es.map Sigma.fst).filterMap Call.chunks? := by
      rw [uploads, filterMap_map]
      rfl
    rw [hargs, hdone.1, filterMap_map]
    exact filterMap_some
  rw [htrace, nil_append, huploads] at hcalls
  have hperm := documents_arrive config.batchSize_pos hdocs hfresh hcalls hd (habsent d hd)
  refine ⟨hperm, ?_⟩
  rw [hperm.length_eq, length_map, length_take]
  omega

/-- The calls of the sample, with ids for their chunks. -/
def sampleCalls : List Upsert :=
  Database.sample.documents.flatMap fun d => d.chunks.map fun chunk =>
    ⟨d.upsert 0 0 [chunk], ⟨0, [BitVec.ofNat 128 chunk.ord]⟩, 0⟩

/-- Two chunks in batches of one: the second chunk is counted, and does not arrive. -/
theorem first_batch_arrives_half :
    (currentChunks ⟨0, 0, "d"⟩ (Qdrant.after .empty sampleCalls).points).map ChunkPayload.text =
      ["x"] := by
  let report : SourceReport := { sourceId := 0, sourceName := "a", workspaceId := 0 }
  have hfresh : AllFresh .empty sampleCalls := by
    rintro pre u ⟨rest, h⟩
    rcases pre with _ | ⟨v, _ | ⟨v', pre⟩⟩
    · cases h
      exact ⟨by decide, rfl, fun _ hp => absurd hp not_mem_nil⟩
    · cases h
      exact ⟨by decide, rfl, by decide +kernel⟩
    · have hlength := congrArg length h
      simp [sampleCalls, Database.sample] at hlength
  have h := first_batch_arrives .sample .sample calm (fun _ _ _ => rfl) ⟨0, "a", some 0⟩ 0 report
    { report with chunksCopied := 2, documentsScanned := 1 } ⟨0, none⟩ (by decide) rfl .empty
    (fun _ _ => rfl) sampleCalls rfl hfresh
  have hpayload := perm_singleton.1 (h.2 _ mem_cons_self).1
  exact congrArg (map ChunkPayload.text) hpayload

end Omniscience.Migration
