import Omniscience.Stores.Bitemporal
import Omniscience.Stores.LiteGraph

/-!
# The documents of one source

Without bitemporal mode `upsert_graph` writes the batch of one document, and before it deletes what
the graph has of the document's *source*.  `PostgresOnlyStore` does the same.  The staleness guard of
the call is keyed on the document, so that the documents of a source are meant to live side by side.

`AllPresent` says that they do: what the last call of every document wrote is there.  `Spares` is the
condition on a call, that the clean-up reaches nothing of another document.  In the graph store that
leaves documents without entities; in the Lite mode, where a batch without entities is not applied,
it leaves a source with a single document.
-/

namespace Omniscience

open List

namespace Neo4j

open Outbox Dict

variable (cfg : GraphConfig) (workspaceId w : Uuid)

/-! ### What a call wrote -/

/-- The graph after a call. -/
def Return.after (c : Return) : Graph :=
  match upsertGraph cfg c.args c.now c.before with
  | .ok (g', _) => g'
  | .error _ => c.before

/-- What the batch says about the entity with the id: the last one with it counts. -/
def GraphUpsert.entityWith (u : GraphUpsert) (id : Uuid) : Option EntityUpsert :=
  u.entities.reverse.find? (·.id = id)

/-- The relationship has the workspace, the ends and the type of the other. -/
def Rel.isLike (r r' : Rel) : Bool :=
  r.workspaceId = r'.workspaceId && r.source = r'.source && r.target = r'.target &&
    r.relType = r'.relType

/-- The relationship is the one of an edge of the batch, whose target was found by id or by name. -/
def Return.HasEdge (c : Return) (r : Rel) : Prop :=
  r ∈ (c.after cfg).rels ∧ ∃ edge ∈ c.args.edges, ∃ source,
    edge.sourceEntityId = some source ∧ r.workspaceId = workspaceId ∧
      r.source = (workspaceId, source) ∧ r.relType = edge.edgeType ∧
      ((∃ params, edgeToParams c.args edge = .ok (some params) ∧
          r.target = (workspaceId, params.targetIdEnt)) ∨
        ∃ name n, edge.targetName = some name ∧ (c.after cfg).nodes.get? r.target = some n ∧
          n.name = some name)

/-- The entities of the call are in the graph, as they were written. -/
def Return.EntitiesIn (c : Return) (g : Graph) : Prop :=
  ∀ id entity, c.args.entityWith id = some entity →
    ∃ n, g.nodes.get? (workspaceId, id) = some n ∧
      n.content = some (contentOf cfg.py (c.args.adopt entity))

/-- The edges of the call are in the graph. -/
def Return.EdgesIn (c : Return) (g : Graph) : Prop :=
  ∀ r, c.HasEdge cfg workspaceId r → g.rels.any (·.isLike r) = true

/-- The last call of every document: what it wrote is in the graph. -/
def AllPresent (calls : List Return) (g : Graph) : Prop :=
  ∀ c, IsLast (·.args.documentId) calls c →
    c.EntitiesIn cfg workspaceId g ∧ c.EdgesIn cfg workspaceId g

/-- Applied calls for documents of one source, where no two documents share an entity. -/
structure OfSource (sourceId : Uuid) (calls : List Return) : Prop where
  applied : ∀ c ∈ calls, c.result.applied = true
  workspace : ∀ c ∈ calls, c.args.workspace cfg.py = .ok workspaceId
  source : ∀ c ∈ calls, c.args.sourceId = sourceId
  disjoint : ∀ c ∈ calls, ∀ c' ∈ calls, c.args.documentId ≠ c'.args.documentId →
    ∀ entity ∈ c.args.entities, ∀ entity' ∈ c'.args.entities, entity.id ≠ entity'.id

/-- The clean-up of the call reaches nothing of another document: its last batch had no entities,
and none of its edges is at a node of the source. -/
def Spares (sourceId : Uuid) (pre : List Return) (c : Return) : Prop :=
  ∀ c', IsLast (·.args.documentId) pre c' → c.args.documentId ≠ c'.args.documentId →
    c'.args.entities = [] ∧ ∀ r, c'.HasEdge cfg workspaceId r →
      c.before.isIncident workspaceId sourceId.str r = false

/-! ### What the stages keep -/

section

variable {cfg} {w} {u : GraphUpsert} {now : ℕ} {g g' : Graph} {key : NodeKey}

theorem Rel.isLike_trans {r r' r'' : Rel} (h : r.isLike r' = true) (h' : r'.isLike r'' = true) :
    r.isLike r'' = true := by
  simp only [Rel.isLike, Bool.and_eq_true, decide_eq_true_eq] at h h' ⊢
  obtain ⟨⟨⟨hws, hsource⟩, htarget⟩, htype⟩ := h
  rw [hws, hsource, htarget, htype]
  exact h'

@[simp] theorem Rel.isLike_self (r : Rel) : r.isLike r = true := by simp [Rel.isLike]

theorem any_isLike_map {f : Rel → Rel} {rels : List Rel} {r : Rel} (hf : ∀ r, (f r).isLike r = true)
    (h : rels.any (·.isLike r) = true) : (rels.map f).any (·.isLike r) = true := by
  obtain ⟨r', hr', hlike⟩ := any_eq_true.1 h
  exact any_eq_true.2 ⟨f r', mem_map_of_mem hr', Rel.isLike_trans (hf r') hlike⟩

theorem any_isLike_append {rels rels' : List Rel} {r : Rel} (h : rels.any (·.isLike r) = true) :
    (rels ++ rels').any (·.isLike r) = true := by
  rw [any_append, h, Bool.true_or]

theorem any_isLike_mergeEdge {params : EdgeParams} {rels : List Rel} {r : Rel}
    (h : rels.any (·.isLike r) = true) :
    (mergeEdge cfg.toConfig params w now rels).any (·.isLike r) = true := by
  rw [mergeEdge]
  split
  · refine any_isLike_map (fun r => ?_) h
    split
    · simp [Rel.isLike]
    · exact r.isLike_self
  · exact any_isLike_append h

theorem any_isLike_writeBatchEdge (hlegacy : cfg.bitemporal = false) {edge : BatchEdge} {r : Rel}
    (hstep : writeBatchEdge cfg u w now g edge = .ok g')
    (h : g.rels.any (·.isLike r) = true) : g'.rels.any (·.isLike r) = true := by
  obtain ⟨-, rfl⟩ | ⟨params, -, rfl⟩ | ⟨source, name, -, -, -, rfl⟩ := writeBatchEdge_cases hstep
  · exact h
  · rw [writeEdge]
    split
    · simp only [hlegacy, Bool.false_eq_true, ↓reduceIte]
      exact any_isLike_mergeEdge h
    · exact h
  · unfold upsertEdgeByName
    split
    · exact h
    · dsimp only
      split
      · refine any_isLike_map (fun r => ?_) h
        split
        · simp [Rel.isLike]
        · exact r.isLike_self
      · exact any_isLike_append h

theorem get?_nodes_writeBatchEdge {edge : BatchEdge}
    (hstep : writeBatchEdge cfg u w now g edge = .ok g') (key : NodeKey) :
    g'.nodes.get? key = g.nodes.get? key ∨
      (g.nodes.get? key = none ∧ ∃ n, g'.nodes.get? key = some n ∧ n.content = none) := by
  obtain ⟨-, rfl⟩ | ⟨params, -, rfl⟩ | ⟨source, name, -, -, -, rfl⟩ := writeBatchEdge_cases hstep
  · exact .inl rfl
  · exact .inl (by rw [nodes_writeEdge])
  · unfold upsertEdgeByName
    split
    · exact .inl rfl
    · dsimp only
      rw [setDefault]
      split
      · exact .inl rfl
      · rename_i hfree
        by_cases hkey : key = (w, (findByName w name g).getD (cfg.stubEntityId w name))
        · subst hkey
          rw [get?_set_self, get?_eq_none_iff, ← Dict.contains_iff]
          exact .inr ⟨hfree, _, rfl, rfl⟩
        · exact .inl (get?_set_ne _ _ hkey)

theorem get?_nodes_writeEntity (hlegacy : cfg.bitemporal = false) {entity : EntityUpsert}
    (hstep : writeEntity cfg u w now g entity = .ok g') (key : NodeKey) :
    (key ≠ (w, entity.id) → g'.nodes.get? key = g.nodes.get? key) ∧
      (∃ n, g'.nodes.get? (w, entity.id) = some n ∧
        n.content = some (contentOf cfg.py (u.adopt entity))) ∧ g'.rels = g.rels := by
  simp only [writeEntity, hlegacy, Bool.false_eq_true, ↓reduceIte, Except.ok.injEq] at hstep
  subst hstep
  refine ⟨fun hne => get?_set_ne _ _ hne, ⟨_, get?_set_self _ _ _, ?_⟩, rfl⟩
  dsimp only
  split
  · rfl
  · rfl

theorem get?_nodes_deleteBySource {sourceId : String} {n : Node}
    (hws : key.1 = w) (hn : g.nodes.get? key = some n) (hsource : n.sourceId = some sourceId) :
    (deleteBySource w sourceId g).nodes.get? key = none := by
  rw [deleteBySource, get?_eq_none_iff, mem_keys_filter]
  rintro ⟨-, hkept⟩
  rw [Bool.not_eq_true', ← Bool.not_eq_true, isOfSource_iff] at hkept
  exact hkept ⟨hws, n, hn, hsource⟩

end

/-! ### What a call does to the batches -/

section

variable {cfg} {w} {u : GraphUpsert} {now : ℕ} {g g' : Graph}
  (hlegacy : cfg.bitemporal = false) (h : Applies cfg u w now g g')

include hlegacy

theorem retire_eq (u : GraphUpsert) (g : Graph) :
    (retire cfg u w g).1 = deleteBySource w u.sourceId.str g := by
  simp [retire, hlegacy]

include h

theorem Applies.entitiesIn {c : Return} (hargs : c.args = u) : c.EntitiesIn cfg w g' := by
  obtain ⟨merged, hentities, hedges⟩ := h
  intro id entity hwith
  rw [hargs] at hwith ⊢
  refine Fold.foldlM_keeps hedges (fun g => ∃ n, g.nodes.get? (w, id) = some n ∧
    n.content = some (contentOf cfg.py (u.adopt entity))) ?_ ?_
  · refine Fold.foldlM_induction hentities (fun pre g => ∀ entity,
      pre.reverse.find? (·.id = id) = some entity → ∃ n, g.nodes.get? (w, id) = some n ∧
          n.content = some (contentOf cfg.py (u.adopt entity))) (fun _ h => by simp at h) ?_
      entity hwith
    intro pre a post c c' _ hpre hstep e he
    obtain ⟨hother, hown, -⟩ := get?_nodes_writeEntity hlegacy hstep (w, id)
    rw [reverse_append, reverse_singleton, singleton_append] at he
    by_cases hid : a.id = id
    · rw [find?_cons_of_pos (by simpa using hid)] at he
      obtain rfl := Option.some.inj he
      rw [← hid]
      exact hown
    · rw [find?_cons_of_neg (by simpa using hid)] at he
      rw [hother fun heq => hid (congrArg Prod.snd heq).symm]
      exact hpre e he
  · rintro edge - c c' ⟨n, hn, hcontent⟩ hstep
    rcases get?_nodes_writeBatchEdge hstep (w, id) with heq | ⟨hnone, -⟩
    · exact ⟨n, heq.trans hn, hcontent⟩
    · rw [hnone] at hn
      cases hn

/-- **What a call erases**: a node of the source that is none of the batch has no content any
more. -/
theorem Applies.content_gone {id : Uuid} {n : Node}
    (hn : g.nodes.get? (w, id) = some n) (hsource : n.sourceId = some u.sourceId.str)
    (hids : ∀ entity ∈ u.entities, entity.id ≠ id) {n' : Node}
    (hn' : g'.nodes.get? (w, id) = some n') : n'.content = none := by
  obtain ⟨merged, hentities, hedges⟩ := h
  have hgone : merged.nodes.get? (w, id) = none := by
    refine Fold.foldlM_keeps hentities (fun g => g.nodes.get? (w, id) = none) ?_ ?_
    · rw [retire_eq hlegacy]
      refine get?_nodes_deleteBySource rfl ?_ hsource
      rw [nodes_advance]
      exact hn
    · intro entity hentity c c' hc hstep
      have hne : (w, id) ≠ (w, entity.id) := fun heq =>
        hids entity hentity (congrArg Prod.snd heq).symm
      rw [(get?_nodes_writeEntity hlegacy hstep _).1 hne, hc]
  -- an edge may bring back a stub, which has no content
  refine Fold.foldlM_keeps hedges (fun g => ∀ n, g.nodes.get? (w, id) = some n →
    n.content = none) (fun n hn => by rw [hgone] at hn; cases hn) ?_ n' hn'
  intro edge _ c c' hc hstep n hn
  rcases get?_nodes_writeBatchEdge hstep (w, id) with heq | ⟨-, m, hm, hcontent⟩
  · exact hc n (heq.symm.trans hn)
  · rw [hm] at hn
    cases hn
    exact hcontent

/-- **What a call keeps**: an edge that is not at a node of the source stays. -/
theorem Applies.any_isLike {r : Rel} (hr : g.rels.any (·.isLike r) = true)
    (hspared : g.isIncident w u.sourceId.str r = false) :
    g'.rels.any (·.isLike r) = true := by
  obtain ⟨merged, hentities, hedges⟩ := h
  refine Fold.foldlM_keeps hedges (fun g => g.rels.any (·.isLike r) = true) ?_
    fun edge _ c c' hc hstep => any_isLike_writeBatchEdge hlegacy hstep hc
  have hrels : merged.rels = (deleteBySource w u.sourceId.str (u.advance w g)).rels := by
    rw [← retire_eq hlegacy]
    exact Fold.foldlM_frame hentities Graph.rels fun entity _ c c' hstep =>
      (get?_nodes_writeEntity hlegacy hstep (w, entity.id)).2.2
  rw [hrels]
  obtain ⟨r', hr', hlike⟩ := any_eq_true.1 hr
  refine any_eq_true.2 ⟨r', mem_filter.2 ⟨?_, ?_⟩, hlike⟩
  · rw [rels_advance]
    exact hr'
  · simp only [Rel.isLike, Bool.and_eq_true, decide_eq_true_eq] at hlike
    simp only [Graph.isIncident, Graph.isOfSource, nodes_advance, hlike.1.1.2, hlike.1.2,
      Bool.not_eq_true'] at hspared ⊢
    exact hspared

end

/-! ### Runs -/

section

variable {cfg} {w} {sourceId : Uuid} {g₀ g : Graph} {calls pre : List Return} {c : Return}

theorem Return.after_eq {result : GraphWriteResult}
    (h : upsertGraph cfg c.args c.now c.before = .ok (g, result)) : c.after cfg = g := by
  rw [Return.after, h]

theorem OfSource.applies (h : OfSource cfg w sourceId calls)
    (hpre : pre ++ [c] <+: calls) (hrun : Run cfg g₀ (pre ++ [c]) g) :
    Applies cfg c.args w c.now c.before g ∧ c.args.sourceId = sourceId ∧
      c.after cfg = g := by
  have hmem : c ∈ calls := hpre.subset (mem_append_right _ mem_cons_self)
  obtain ⟨-, hcall⟩ := hrun.of_concat
  exact ⟨applies_of_applied hcall (h.applied c hmem) (h.workspace c hmem), h.source c hmem,
    Return.after_eq hcall⟩

theorem prefix_of_concat (hpre : pre ++ [c] <+: calls) : pre <+: calls :=
  (prefix_append pre [c]).trans hpre

/-- **Sparing calls keep everything**: what the last call of every document wrote is there. -/
theorem allPresent_of_spares (hlegacy : cfg.bitemporal = false) (h : OfSource cfg w sourceId calls)
    (hspares : ∀ pre c, pre ++ [c] <+: calls → Spares cfg w sourceId pre c)
    (hpre : pre <+: calls) (hrun : Run cfg g₀ pre g) : AllPresent cfg w pre g := by
  intro c hlast
  refine IsLast.rule (P := fun l c => ∀ g, l <+: calls → Run cfg g₀ l g →
    c.EntitiesIn cfg w g ∧ c.EdgesIn cfg w g) ?_ ?_ hlast g hpre hrun
  · intro l c g hpre hrun
    obtain ⟨happlies, -, hafter⟩ := h.applies hpre hrun
    refine ⟨happlies.entitiesIn hlegacy rfl, fun r hr => ?_⟩
    exact any_eq_true.2 ⟨r, hafter ▸ hr.1, r.isLike_self⟩
  · intro l c' c hlast hne ih g hpre hrun
    obtain ⟨happlies, hsource, -⟩ := h.applies hpre hrun
    obtain ⟨hempty, hedges⟩ := hspares l c hpre c' hlast hne
    obtain ⟨-, hkept⟩ := ih c.before (prefix_of_concat hpre) hrun.of_concat.1
    refine ⟨fun id entity hwith => ?_, fun r hr => ?_⟩
    · rw [GraphUpsert.entityWith, hempty] at hwith
      cases hwith
    · refine happlies.any_isLike hlegacy (hkept r hr) ?_
      rw [hsource]
      exact hedges r hr

/-- **A call erases the entities of the other documents**: if those of every document are there
after each call, then no call follows one of another document that has entities. -/
theorem entities_eq_nil_of_present (hlegacy : cfg.bitemporal = false)
    (h : OfSource cfg w sourceId calls)
    (hpresent : ∀ pre g, pre <+: calls → Run cfg g₀ pre g →
      ∀ c, IsLast (·.args.documentId) pre c → c.EntitiesIn cfg w g)
    (hrun : Run cfg g₀ calls g) (hpre : pre ++ [c] <+: calls) {c' : Return}
    (hlast : IsLast (·.args.documentId) pre c')
    (hne : c.args.documentId ≠ c'.args.documentId) : c'.args.entities = [] := by
  refine eq_nil_iff_forall_not_mem.2 fun entity hentity => ?_
  obtain ⟨g', hrun'⟩ := hrun.of_prefix hpre
  obtain ⟨happlies, hsource, -⟩ := h.applies hpre hrun'
  have hmem : c ∈ calls := hpre.subset (mem_append_right _ mem_cons_self)
  have hmem' : c' ∈ calls := (prefix_of_concat hpre).subset hlast.mem
  obtain ⟨e, he⟩ : ∃ e, c'.args.entityWith entity.id = some e := by
    refine Option.isSome_iff_exists.1 (find?_isSome.2 ⟨entity, ?_, by simp⟩)
    exact mem_reverse.2 hentity
  -- before the call the entity is a node of the source, and after it the node has no content
  obtain ⟨n, hn, hcontent⟩ := hpresent pre c.before (prefix_of_concat hpre) hrun'.of_concat.1 c'
    hlast entity.id e he
  obtain ⟨n', hn', hcontent'⟩ := hpresent (pre ++ [c]) g' hpre hrun' c' (hlast.append hne)
    entity.id e he
  have hof : n.sourceId = some c.args.sourceId.str := by
    rw [hsource, ← h.source c' hmem']
    simp only [Node.content, Option.bind_eq_bind, Option.bind_eq_some_iff] at hcontent
    obtain ⟨s, hs, k, -, m, -, d, -, j, -, heq⟩ := hcontent
    rw [hs]
    exact congrArg some (congrArg EntityContent.sourceId (Option.some.inj heq))
  have hgone := happlies.content_gone hlegacy hn hof
    (fun e he => h.disjoint c hmem c' hmem' hne e he entity hentity) hn'
  rw [hgone] at hcontent'
  cases hcontent'

theorem entitiesIn_of_entities_eq_nil (hlegacy : cfg.bitemporal = false)
    (h : OfSource cfg w sourceId calls)
    (hnil : ∀ pre c, pre ++ [c] <+: calls → ∀ c', IsLast (·.args.documentId) pre c' →
      c.args.documentId ≠ c'.args.documentId → c'.args.entities = [])
    (hpre : pre <+: calls) (hrun : Run cfg g₀ pre g) (hlast : IsLast (·.args.documentId) pre c) :
    c.EntitiesIn cfg w g := by
  induction pre using reverseRecOn with
  | nil => exact absurd hlast IsLast.not_nil
  | append_singleton pre b _ =>
    rcases hlast.concat_cases with rfl | ⟨hne, hlast'⟩
    · exact (h.applies hpre hrun).1.entitiesIn hlegacy rfl
    · intro id entity hwith
      rw [GraphUpsert.entityWith, hnil pre b hpre c hlast' hne] at hwith
      cases hwith

end

end Neo4j

namespace PostgresOnly

open Outbox

variable (cfg : GraphConfig)

/-! ### The same in the Lite mode -/

/-- The tables after a call. -/
def Return.after (c : Return) : GraphTables :=
  match upsertGraph cfg c.args c.before with
  | .ok (t, _) => t
  | .error _ => c.before

/-- The entities and the edges of the call are in the tables, as they were inserted. -/
def Return.IsIn (c : Return) (t : GraphTables) : Prop :=
  (∀ ent ∈ c.args.entities,
    t.entities.get? ent.id = some (entityRow cfg c.args.sourceId ent)) ∧
  ∀ edge ∈ c.args.edges, ∀ row, (c.after cfg).edges.get? edge.rowId = some row →
    t.edges.get? edge.rowId = some row

/-- The last call of every document: what it wrote is in the tables. -/
def AllPresent (calls : List Return) (t : GraphTables) : Prop :=
  ∀ c, IsLast (·.args.documentId) calls c → c.IsIn cfg t

/-- Applied calls for documents of one source, where no two documents share an entity, and no key
that is drawn for a stub is that of an entity. -/
structure OfSource (sourceId : Uuid) (calls : List Return) : Prop where
  applied : ∀ c ∈ calls, c.result.applied = true
  source : ∀ c ∈ calls, c.args.sourceId = sourceId
  disjoint : ∀ c ∈ calls, ∀ c' ∈ calls, c.args.documentId ≠ c'.args.documentId →
    ∀ ent ∈ c.args.entities, ∀ ent' ∈ c'.args.entities, ent.id ≠ ent'.id
  drawn : ∀ c ∈ calls, ∀ c' ∈ calls, ∀ edge ∈ c.args.edges, ∀ ent ∈ c'.args.entities,
    edge.stubId ≠ ent.id

section

variable {cfg} {sourceId : Uuid} {t₀ t : GraphTables} {calls pre : List Return} {c : Return}

theorem OfSource.applies (h : OfSource sourceId calls) (hpre : pre ++ [c] <+: calls)
    (hrun : Run cfg t₀ (pre ++ [c]) t) :
    c.args.entities ≠ [] ∧ Applies cfg c.args c.before t ∧ c.after cfg = t := by
  obtain ⟨-, hcall⟩ := hrun.of_concat
  obtain ⟨hne, happlies⟩ := applies_of_applied hcall
    (h.applied c (hpre.subset (mem_append_right _ mem_cons_self)))
  refine ⟨hne, happlies, ?_⟩
  rw [Return.after, hcall]

theorem allPresent_of_single (h : OfSource sourceId calls)
    (hsingle : ∀ c ∈ calls, ∀ c' ∈ calls, c.args.documentId = c'.args.documentId)
    (hpre : pre <+: calls) (hrun : Run cfg t₀ pre t) : AllPresent cfg pre t := by
  intro c hlast
  induction pre using reverseRecOn with
  | nil => exact absurd hlast IsLast.not_nil
  | append_singleton pre b _ =>
    rcases hlast.concat_cases with rfl | ⟨hne, hlast'⟩
    · obtain ⟨-, happlies, hafter⟩ := h.applies hpre hrun
      refine ⟨fun ent hent => happlies.entities_get? hent, fun edge _ row hrow => ?_⟩
      rw [← hafter]
      exact hrow
    · exact absurd (hsingle b (hpre.subset (mem_append_right _ mem_cons_self)) c
        (hpre.subset hlast.mem)) hne

theorem documentId_eq_of_allPresent (h : OfSource sourceId calls)
    (hpresent : ∀ pre t, pre <+: calls → Run cfg t₀ pre t → AllPresent cfg pre t)
    (hrun : Run cfg t₀ calls t) (hpre : pre ++ [c] <+: calls) {c' : Return} (hc' : c' ∈ pre) :
    c.args.documentId = c'.args.documentId := by
  by_contra hne
  obtain ⟨b, hlast, hkey⟩ : ∃ b, IsLast (fun c : Return => c.args.documentId) pre b ∧
      b.args.documentId = c'.args.documentId := IsLast.exists_of_mem hc'
  rw [← hkey] at hne
  obtain ⟨t', hrun'⟩ := hrun.of_prefix hpre
  obtain ⟨-, happlies, -⟩ := h.applies hpre hrun'
  have hmem : c ∈ calls := hpre.subset (mem_append_right _ mem_cons_self)
  have hpre' : pre <+: calls := (prefix_append pre [c]).trans hpre
  have hb : b ∈ calls := hpre'.subset hlast.mem
  -- the other document has an entity, since its call was applied
  obtain ⟨ent, hent⟩ : ∃ ent, ent ∈ b.args.entities := by
    obtain ⟨l, post, rfl, -⟩ := hlast
    have hupto : l ++ [b] <+: calls := by
      refine List.IsPrefix.trans ?_ hpre'
      exact ⟨post, by rw [append_assoc, singleton_append]⟩
    obtain ⟨u, hu⟩ := hrun.of_prefix hupto
    exact exists_mem_of_ne_nil _ (h.applies hupto hu).1
  have hbefore := (hpresent pre c.before hpre' hrun'.of_concat.1 b hlast).1 ent hent
  have hafter := (hpresent (pre ++ [c]) t' hpre hrun' b (hlast.append hne)).1 ent hent
  have hgone := happlies.entities_gone hbefore ((h.source b hb).trans (h.source c hmem).symm)
    (fun e he => h.disjoint c hmem b hb hne e he ent hent)
    fun edge hedge => h.drawn c hmem b hb edge hedge ent hent
  rw [hgone] at hafter
  cases hafter

end

end PostgresOnly

namespace SharedSource

open Outbox

/-! ### Both stores -/

/-- The store without bitemporal mode. -/
def legacyConfig : Neo4j.GraphConfig where
  toConfig := .source .sample false
  stubEntityId _ name := BitVec.ofNat 128 name.length

/-- A call for a document of source 3. -/
def documentCall (documentId : Uuid) (entities : List EntityUpsert) : Neo4j.GraphUpsert where
  sourceId := 3
  documentId := documentId
  entities := entities
  workspaceId := some 7

/-- The entity of a document. -/
def documentEntity (id : Uuid) : EntityUpsert where
  id := id
  sourceId := 3
  entityType := "service"
  name := "api"
  displayName := "API"
  metadata := [("workspace_id", .str (Uuid.str 7))]

theorem exists_emptyDocument (documentId : Uuid) (g : Neo4j.Graph) :
    ∃ g', Neo4j.upsertGraph legacyConfig (documentCall documentId []) 1 g =
      .ok (g', { applied := true }) :=
  ⟨_, rfl⟩

theorem exists_document (documentId id : Uuid) (now : ℕ) (g : Neo4j.Graph) :
    ∃ g', Neo4j.upsertGraph legacyConfig (documentCall documentId [documentEntity id]) now g =
      .ok (g', { applied := true, entitiesSubmitted := 1 }) :=
  ⟨_, rfl⟩

theorem exists_liteDocument : ∃ t, PostgresOnly.upsertGraph ⟨.sample, fun _ _ _ _ => ""⟩
      ⟨3, 5, [documentEntity 1], []⟩ {} = .ok (t, { applied := true }) := by
  have hws : Neo4j.workspaceFromEntities .sample [documentEntity 1] = .ok 7 := by
    simp only [Neo4j.workspaceFromEntities, documentEntity, lookup_cons_self, Py.str,
      Uuid.parse_str]
  simp only [PostgresOnly.upsertGraph, hws, ok_bind]
  exact ⟨_, rfl⟩

end SharedSource

end Omniscience
