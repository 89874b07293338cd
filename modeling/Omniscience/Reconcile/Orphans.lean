import Omniscience.Reconcile.Worker

/-!
# Orphan cleanup

A pass over a workspace takes the sources that have no active document for orphans, deletes their
points from Qdrant and closes their entities in Neo4j.  The active sources come from the document
table alone, but a source may also be fed entity by entity, without a document: the same pass
treats the rows of its entities as the truth that the stores have to follow.

`sparesLive_iff` says which databases are safe from that: those where every source with an entity
has an active document too.
-/

namespace Omniscience.Reconcile

open Queue Outbox Coro Uuid List

/-! ### The tables -/

/-- A row of the source table. -/
structure SourceRow where
  id : Uuid
  tenantId : Option Uuid

/-- A row of the document table. -/
structure DocumentRow where
  sourceId : Uuid
  tombstonedAt : Option ℕ := none

/-- The tables of Postgres that a pass reads about sources. -/
structure Tables where
  sources : List SourceRow := []
  documents : List DocumentRow := []
  entities : List EntityRow := []

namespace Tables

variable (db : Tables)

/-- The source belongs to the workspace. -/
def belongs (workspaceId sourceId : Uuid) : Bool :=
  db.sources.any fun source => source.id = sourceId ∧ source.tenantId = some workspaceId

/-- The select of `_load_active_source_ids`. -/
def activeSourceIds (workspaceId : Uuid) : List Uuid :=
  ((db.documents.filter fun doc =>
    db.belongs workspaceId doc.sourceId ∧ doc.tombstonedAt.isNone).map
      DocumentRow.sourceId).dedup

/-- The select of `_check_entity_drift`. -/
def entitiesOf (workspaceId : Uuid) : List EntityRow :=
  db.entities.filter fun row => db.belongs workspaceId row.sourceId

/-- The source has a document in the workspace that is not tombstoned. -/
def LiveDocument (workspaceId sourceId : Uuid) : Prop :=
  ∃ doc ∈ db.documents, doc.sourceId = sourceId ∧ doc.tombstonedAt = none ∧
    db.belongs workspaceId sourceId = true

/-- The source has an entity in the workspace; rows of entities are never tombstoned. -/
def LiveEntity (workspaceId sourceId : Uuid) : Prop :=
  ∃ row ∈ db.entities, row.sourceId = sourceId ∧ db.belongs workspaceId sourceId = true

/-- Postgres holds nothing live of the source. -/
def Dead (workspaceId sourceId : Uuid) : Prop :=
  ¬ db.LiveDocument workspaceId sourceId ∧ ¬ db.LiveEntity workspaceId sourceId

theorem mem_activeSourceIds {ws sourceId : Uuid} :
    sourceId ∈ db.activeSourceIds ws ↔ db.LiveDocument ws sourceId := by
  simp only [activeSourceIds, mem_dedup, mem_map, mem_filter, decide_eq_true_eq,
    Option.isNone_iff_eq_none, LiveDocument]
  constructor
  · rintro ⟨doc, ⟨hdoc, hbelongs, hlive⟩, rfl⟩
    exact ⟨doc, hdoc, rfl, hlive, hbelongs⟩
  · rintro ⟨doc, hdoc, rfl, hlive, hbelongs⟩
    exact ⟨doc, ⟨hdoc, hbelongs, hlive⟩, rfl⟩

/-- Postgres answers from its tables, or not at all; the stores answer anything. -/
def answers : Contract iface where
  yields _ _ _ := True
  resumes
    | _, .loadActiveSourceIds workspaceId, _, .ok ids, _ =>
      ∀ id, id ∈ ids ↔ id ∈ db.activeSourceIds workspaceId
    | _, .selectEntities workspaceId, _, .ok rows, _ => rows = db.entitiesOf workspaceId
    | _, .selectEntitiesOf workspaceId sourceIds, _, .ok rows, _ =>
      rows = (db.entitiesOf workspaceId).filter (·.sourceId ∈ sourceIds)
    | _, _, _, _, _ => True

end Tables

/-! ### What a pass takes out of the stores -/

/-- The event deletes points. -/
def IsDelete (ev : Event iface) : Prop := ∃ pointIds r, ev = ⟨.deletePoints pointIds, r⟩

/-- `a` lists points of a source that Postgres holds nothing live of, and `b` deletes them. -/
def DeletesDead (db : Tables) (a b : Event iface) : Prop :=
  ∃ workspaceId sourceId limit pointIds r, a = ⟨.scrollPoints workspaceId sourceId limit,
    .ok pointIds⟩ ∧ b = ⟨.deletePoints pointIds, r⟩ ∧ db.Dead workspaceId sourceId

/-- Only points and entities of sources that Postgres holds nothing live of were taken out. -/
structure SparesLive (db : Tables) (t : List (Event iface)) : Prop where
  points : EachAfter IsDelete (DeletesDead db) t
  entities : ∀ workspaceId source nowIso r,
    (⟨.endDateSourceOrphans workspaceId source nowIso, r⟩ : Event iface) ∈ t →
      ∀ sourceId, parse source = some sourceId → db.Dead workspaceId sourceId

section

variable {db : Tables} {t : List (Event iface)}

theorem sparesLive_nil : SparesLive db [] := ⟨eachAfter_nil, by rintro _ _ _ _ ⟨⟩⟩

theorem SparesLive.concat (h : SparesLive db t) {q : Call} {r : Except Exc q.Resp}
    (hdelete : ∀ pointIds, q ≠ .deletePoints pointIds)
    (hend : ∀ ws source nowIso, q ≠ .endDateSourceOrphans ws source nowIso) :
    SparesLive db (t ++ [(⟨q, r⟩ : Event iface)]) := by
  refine ⟨eachAfter_concat.2 ⟨h.points, ?_⟩, ?_⟩
  · rintro ⟨pointIds, r', heq⟩
    exact absurd (congrArg Sigma.fst heq) (hdelete pointIds)
  · intro ws source nowIso r' hmem
    rcases mem_append.1 hmem with hmem | hmem
    · exact h.entities ws source nowIso r' hmem
    · have heq := mem_singleton.1 hmem
      exact absurd (congrArg Sigma.fst heq).symm (hend ws source nowIso)

theorem SparesLive.concat_delete (h : SparesLive db t) {ws sourceId : Uuid} {limit : ℕ}
    {pointIds : List String} {r : Except Exc Unit} (hdead : db.Dead ws sourceId) :
    SparesLive db (t ++ [(⟨.scrollPoints ws sourceId limit, .ok pointIds⟩ : Event iface)]
      ++ [⟨.deletePoints pointIds, r⟩]) := by
  have hscroll := h.concat (q := .scrollPoints ws sourceId limit) (r := .ok pointIds)
    (by rintro _ ⟨⟩) (by rintro _ _ _ ⟨⟩)
  refine ⟨eachAfter_concat.2 ⟨hscroll.points, fun _ => ?_⟩, ?_⟩
  · exact ⟨t, _, rfl, _, _, _, _, _, rfl, rfl, hdead⟩
  · intro workspaceId' source nowIso r' hmem
    rcases mem_append.1 hmem with hmem | hmem
    · exact hscroll.entities _ _ _ _ hmem
    · cases mem_singleton.1 hmem

theorem SparesLive.concat_endDate (h : SparesLive db t) {ws : Uuid}
    {source nowIso : String} {r : Except Exc ℕ}
    (hdead : ∀ sourceId, parse source = some sourceId → db.Dead ws sourceId) :
    SparesLive db
      (t ++ [(⟨.endDateSourceOrphans ws source nowIso, r⟩ : Event iface)]) := by
  refine ⟨eachAfter_concat.2 ⟨h.points, ?_⟩, ?_⟩
  · rintro ⟨_, _, ⟨⟩⟩
  · intro workspaceId' source' nowIso' r' hmem
    rcases mem_append.1 hmem with hmem | hmem
    · exact h.entities _ _ _ _ hmem
    · cases mem_singleton.1 hmem
      exact hdead

end

theorem not_mem_of_mem_orphanSources {sourceIds : List Uuid} {histogram : Dict String ℕ}
    {source : String} (h : source ∈ orphanSources sourceIds histogram) {sourceId : Uuid}
    (hparse : parse source = some sourceId) : sourceId ∉ sourceIds := by
  obtain ⟨⟨source', count⟩, hmem, rfl⟩ := mem_map.1 h
  have horphan := (of_decide_eq_true (mem_filter.1 hmem).2).2
  simpa [isOrphan, hparse] using horphan

namespace ReconcileWorker

variable (w : ReconcileWorker) {db : Tables} {workspaceId ws : Uuid}

/-! ### Databases that are safe -/

theorem respects_sparesLive (q : Call) (hq : Plain q) :
    Respects db.answers (fun t _ => SparesLive db t) q := by
  refine ⟨fun _ _ _ => trivial, fun t s r s' h _ => h.concat ?_ ?_⟩
  · rintro _ rfl
    exact hq
  · rintro _ _ _ rfl
    exact hq

theorem keeps_emit (rows : List NewEvent) :
    Keeps db.answers (fun t _ => SparesLive db t) (emit rows) := by
  refine Keeps.bind (keeps_call ⟨fun _ _ _ => trivial, ?_⟩) fun _ => keeps_modify ?_
  · exact fun _ _ _ _ h _ => h.concat (by rintro _ ⟨⟩) (by rintro _ _ _ ⟨⟩)
  · exact fun _ _ h => h

theorem keeps_checkEdgeDrift_sparesLive :
    Keeps db.answers (fun t _ => SparesLive db t) (w.checkEdgeDrift ws) := by
  refine keeps_get.bind fun s => ?_
  split
  · exact keeps_pure _
  · refine (keeps_call (respects_sparesLive _ (by trivial))).bind fun edges => ?_
    split
    · exact keeps_pure _
    · refine Keeps.bind (keeps_call ⟨fun _ _ _ => trivial, ?_⟩) fun versions => ?_
      · exact fun _ _ _ _ h _ => h.concat (by rintro _ ⟨⟩) (by rintro _ _ _ ⟨⟩)
      dsimp only
      split
      · exact keeps_pure _
      · exact keeps_emit _

theorem keeps_deleteQdrantOrphanSource {sourceId : Uuid} (hdead : db.Dead ws sourceId)
    (limit : ℕ) : Keeps db.answers (fun t _ => SparesLive db t)
      (deleteQdrantOrphanSource ws sourceId limit) := by
  refine (keeps_call (respects_sparesLive _ (by trivial))).bind fun count => ?_
  split
  · exact keeps_pure _
  · -- the two calls go together, so that they are followed one by one
    refine ⟨fun t s h => ⟨trivial, fun r s' _ => ?_⟩⟩
    have hscroll : ∀ r, SparesLive db (t ++
        [(⟨.scrollPoints ws sourceId (min count limit), r⟩ : Event iface)]) := fun r =>
      h.concat (by rintro _ ⟨⟩) (by rintro _ _ _ ⟨⟩)
    cases r with
    | error e => exact hscroll _
    | ok pointIds =>
      show Coro.wp _ (if pointIds.isEmpty then _ else _) _ _ _
      split
      · exact hscroll _
      · refine ⟨trivial, fun r s'' _ => ?_⟩
        cases r with
        | error e => exact h.concat_delete hdead
        | ok u => exact h.concat_delete hdead

section

variable {sourceIds : List Uuid}
  (hdead : ∀ sourceId, sourceId ∉ sourceIds → db.Dead ws sourceId)
include hdead

theorem keeps_checkQdrantOrphans : Keeps db.answers (fun t _ => SparesLive db t)
      (w.checkQdrantOrphans ws sourceIds) := by
  refine (keeps_call (respects_sparesLive _ (by trivial))).bind fun histogram => ?_
  refine Keeps.bind ⟨fun t s h => ?_⟩ fun _ => keeps_pure _
  -- the loop runs over orphans only
  refine wp_fold (fun rest _ t _ => rest ⊆ orphanSources sourceIds histogram ∧
    SparesLive db t) (fun _ _ _ h => h.2) ?_ ⟨List.Subset.refl _, h⟩
  rintro source rest ⟨total, budget⟩ t s ⟨hsub, h⟩
  have hrest : rest ⊆ orphanSources sourceIds histogram :=
    fun x hx => hsub (mem_cons_of_mem _ hx)
  dsimp only
  split
  · exact ⟨hrest, h⟩
  · split
    · exact ⟨hrest, h⟩
    · rename_i sourceId hparse
      have hnot := not_mem_of_mem_orphanSources (hsub mem_cons_self) hparse
      have hkeeps := keeps_deleteQdrantOrphanSource (hdead sourceId hnot) budget
      refine wp_seq (hkeeps.run t s h) (fun _ _ _ h => ⟨hrest, h⟩) fun _ _ _ h => h

theorem keeps_checkNeo4jOrphans : Keeps db.answers (fun t _ => SparesLive db t)
      (w.checkNeo4jOrphans ws sourceIds) := by
  refine (keeps_call (respects_sparesLive _ (by trivial))).bind fun histogram => ?_
  refine keeps_get.bind fun s₀ => Keeps.bind ⟨fun t s h => ?_⟩ fun _ => keeps_pure _
  refine wp_forEach h fun source hsource t s h => ?_
  refine ⟨trivial, fun r s' _ => ?_⟩
  have hclosed : ∀ r, SparesLive db (t ++ [(⟨.endDateSourceOrphans ws source
      (w.py.isoformat s₀.clock), r⟩ : Event iface)]) := fun r =>
    h.concat_endDate fun sourceId hparse =>
      hdead sourceId (not_mem_of_mem_orphanSources hsource hparse)
  cases r with
  | error e => exact hclosed _
  | ok n => exact hclosed _

end

theorem keeps_reconcileWorkspace_sparesLive
    (hdocument : ∀ sourceId, db.LiveEntity workspaceId sourceId →
      db.LiveDocument workspaceId sourceId) :
    Keeps db.answers (fun t _ => SparesLive db t) (w.reconcileWorkspace workspaceId) := by
  refine ⟨fun t s h => ⟨trivial, fun r s' hr => ?_⟩⟩
  have hload : SparesLive db (t ++ [(⟨.loadActiveSourceIds workspaceId, r⟩ : Event iface)]) :=
    h.concat (by rintro _ ⟨⟩) (by rintro _ _ _ ⟨⟩)
  cases r with
  | error e => exact hload
  | ok sourceIds =>
    -- a source that is not active has no document, and so no entity
    have hdead : ∀ sourceId, sourceId ∉ sourceIds → db.Dead workspaceId sourceId := by
      intro sourceId hnot
      have hnone : ¬ db.LiveDocument workspaceId sourceId := fun hlive =>
        hnot ((hr sourceId).2 (db.mem_activeSourceIds.2 hlive))
      exact ⟨hnone, fun hentity => hnone (hdocument sourceId hentity)⟩
    have hemit : ∀ (ws : Uuid) (rows : List EntityRow), Keeps db.answers
        (fun t _ => SparesLive db t) (emit (rows.map (entityEvent ws))) :=
      fun _ _ => keeps_emit _
    refine Keeps.run ?_ _ s' hload
    refine (w.keeps_checkPgMissingQdrant respects_sparesLive hemit workspaceId sourceIds).bind
      fun missing => ?_
    refine (w.keeps_checkQdrantOrphans hdead).bind fun qdrantOrphans => ?_
    refine (w.keeps_checkNeo4jOrphans hdead).bind fun neo4jOrphans => ?_
    refine (w.keeps_checkEntityDrift respects_sparesLive hemit workspaceId).bind fun _ => ?_
    exact w.keeps_checkEdgeDrift_sparesLive.bind fun _ => keeps_pure _

/-! ### Databases that are not -/

/-- Qdrant is empty, and Neo4j has an entity of the source; nothing fails. -/
def fedByEntities (db : Tables) (sourceId : Uuid) : Env iface
  | _, .loadWorkspaceIds, s => (.ok [], s)
  | _, .loadActiveSourceIds workspaceId, s => (.ok (db.activeSourceIds workspaceId), s)
  | _, .selectEntities workspaceId, s => (.ok (db.entitiesOf workspaceId), s)
  | _, .selectEntitiesOf workspaceId sourceIds, s =>
    (.ok ((db.entitiesOf workspaceId).filter (·.sourceId ∈ sourceIds)), s)
  | _, .selectEdges _, s | _, .scrollPoints .., s => (.ok [], s)
  | _, .selectOkRun _, s => (.ok none, s)
  | _, .markRunPartial _, s | _, .insertEvents _, s | _, .deletePoints _, s | _, .sleep, s =>
    (.ok (), s)
  | _, .countPoints .., s => (.ok 0, s)
  | _, .endDateSourceOrphans .., s => (.ok 1, s)
  | _, .countEntitiesBySource _, s => (.ok (Dict.empty.set sourceId.str 1), s)
  | _, .countChunksBySource _, s | _, .qdrantEntityVersions _, s | _, .neo4jEntityVersions _, s
  | _, .qdrantContentHashes _, s | _, .neo4jContentHashes _, s | _, .neo4jEdgeVersions _, s =>
    (.ok .empty, s)

theorem obeys_fedByEntities (db : Tables) (sourceId : Uuid) :
    Obeys (fedByEntities db sourceId) db.answers := by
  intro t q s _
  cases q with
  | loadActiveSourceIds ws => exact fun _ => Iff.rfl
  | selectEntities ws => exact rfl
  | selectEntitiesOf ws sourceIds => exact rfl
  | _ => trivial

theorem wp_checkPgMissingQdrant (db : Tables) (ws sourceId : Uuid) (sourceIds : List Uuid)
    (t : List (Event iface)) (s : Memory) :
    Coro.wp (.only (fedByEntities db sourceId)) (w.checkPgMissingQdrant ws sourceIds)
      (fun _ r _ => ∃ missing, r = .ok missing) t s := by
  -- marking the runs of the missing sources, none of which has one
  have hmark : ∀ (missing : List Uuid) t s, Coro.wp (.only (fedByEntities db sourceId)) (do
      forEach missing markIngestionRunPartial
      return missing) (fun _ r _ => ∃ missing, r = .ok missing) t s := by
    intro missing t s
    refine wp_seq (P := fun _ r _ => r = .ok ()) (wp_forEach rfl ?_)
      (fun _ _ _ _ => ⟨missing, rfl⟩) (by rintro _ _ _ ⟨⟩)
    rintro source - t s -
    refine ⟨trivial, ?_⟩
    rintro _ _ ⟨⟩
    rfl
  have hreemit : ∀ (missing : List Uuid) t s, Coro.wp (.only (fedByEntities db sourceId))
      (w.reemitEntitiesForMissingSources ws missing) (fun _ r _ => r = .ok ()) t s := by
    intro missing t s
    refine Coro.wp_get_bind.2 ?_
    split
    · exact rfl
    · refine wp_seq (P := fun _ r _ => ∃ rows, r = .ok rows)
        (wp_call.2 ⟨trivial, ?_⟩) (fun entities t s _ => ?_) (by rintro _ _ _ ⟨_, ⟨⟩⟩)
      · rintro _ _ ⟨⟩
        exact ⟨_, rfl⟩
      · split
        · exact rfl
        · refine ⟨trivial, ?_⟩
          rintro _ _ ⟨⟩
          rfl
  rw [checkPgMissingQdrant]
  split
  · exact ⟨[], rfl⟩
  · refine wp_seq (P := fun _ r _ => r = .ok .empty) (wp_call.2 ⟨trivial, ?_⟩) ?_
      (by rintro _ _ _ ⟨⟩)
    · rintro _ _ ⟨⟩
      rfl
    rintro _ t s ⟨⟩
    refine wp_seq (P := fun _ r _ => r = .ok []) (Coro.wp_lift.2 rfl) ?_ (by rintro _ _ _ ⟨⟩)
    rintro _ t s ⟨⟩
    dsimp only
    split
    · exact wp_seq (hreemit _ t s) (fun _ t s _ => hmark _ t s) (by rintro _ _ _ ⟨⟩)
    · exact hmark _ t s

theorem wp_reconcileWorkspace_fedByEntities {sourceId : Uuid}
    (hnot : sourceId ∉ db.activeSourceIds ws) (s : Memory) :
    Coro.wp (.only (fedByEntities db sourceId)) (w.reconcileWorkspace ws)
      (fun t _ _ => ∃ nowIso, (⟨.endDateSourceOrphans ws sourceId.str nowIso, .ok 1⟩ :
        Event iface) ∈ t) [] s := by
  have horphan : orphanSources (db.activeSourceIds ws)
      (Dict.empty.set sourceId.str 1) = [sourceId.str] := by
    have horphan : isOrphan (db.activeSourceIds ws) sourceId.str = true := by
      simp [isOrphan, parse_str, hnot]
    simp [orphanSources, Dict.set, Dict.empty, horphan]
  refine wp_seq (P := fun _ r _ => r = .ok (db.activeSourceIds ws))
    (wp_call.2 ⟨trivial, ?_⟩) ?_ (by rintro _ _ _ ⟨⟩)
  · rintro _ _ ⟨⟩
    rfl
  rintro _ t s ⟨⟩
  refine wp_seq (w.wp_checkPgMissingQdrant db ws sourceId _ t s)
    (fun missing t s _ => ?_) (by rintro _ _ _ ⟨_, ⟨⟩⟩)
  refine wp_seq (P := fun _ r _ => r = .ok ([], 0)) ?_ ?_ (by rintro _ _ _ ⟨⟩)
  · refine ⟨trivial, ?_⟩
    rintro _ _ ⟨⟩
    rfl
  rintro _ t s ⟨⟩
  refine wp_seq (P := fun t _ _ => ∃ nowIso, (⟨.endDateSourceOrphans ws sourceId.str
    nowIso, .ok 1⟩ : Event iface) ∈ t) ?_ ?_ fun _ _ _ h => h
  · refine wp_seq (P := fun _ r _ => r = .ok (Dict.empty.set sourceId.str 1))
      (wp_call.2 ⟨trivial, ?_⟩) ?_ (by rintro _ _ _ ⟨⟩)
    · rintro _ _ ⟨⟩
      rfl
    rintro _ t s ⟨⟩
    refine Coro.wp_get_bind.2 ?_
    rw [horphan]
    refine ⟨trivial, ?_⟩
    rintro _ _ ⟨⟩
    exact ⟨_, mem_append_right _ mem_cons_self⟩
  · -- what follows only adds to the trace
    rintro _ t s ⟨nowIso, hmem⟩
    exact wp_mono ((keeps_mem (fun _ _ _ => trivial) _ _).run t s hmem)
      fun _ _ _ h => ⟨nowIso, h⟩

/-- **The safe databases**: a pass over the workspace takes out only points and entities of sources
that Postgres holds nothing live of, if and only if every source that has an entity in the workspace
has an active document there as well. -/
theorem sparesLive_iff (w : ReconcileWorker) (db : Tables) (workspaceId : Uuid) :
    (∀ env, Obeys env db.answers → ∀ s : Memory,
      SparesLive db (Coro.exec env (w.reconcileWorkspace workspaceId) [] s).trace) ↔
    ∀ sourceId, db.LiveEntity workspaceId sourceId → db.LiveDocument workspaceId sourceId := by
  constructor
  · intro h sourceId hentity
    by_contra hdocument
    have hnot : sourceId ∉ db.activeSourceIds workspaceId := fun hmem =>
      hdocument (db.mem_activeSourceIds.1 hmem)
    obtain ⟨nowIso, hmem⟩ := exec_of_wp (obeys_only (fedByEntities db sourceId))
      (w.wp_reconcileWorkspace_fedByEntities hnot {})
    have hspares := h _ (obeys_fedByEntities db sourceId) {}
    exact (hspares.entities _ _ _ _ hmem sourceId (parse_str sourceId)).2 hentity
  · intro hdocument env henv s
    exact exec_of_wp henv
      ((w.keeps_reconcileWorkspace_sparesLive hdocument).run [] s sparesLive_nil)

/-- A source that is fed entity by entity, as the one of a telemetry collector: it has an entity
and no document. -/
def telemetry : Tables where
  sources := [⟨3, some 7⟩]
  entities := [⟨5, 3, "otel_service", "checkout", "checkout", [], 1, none⟩]

/-- A pass closes its entities. -/
theorem telemetry_closed :
    ¬ ∀ (w : ReconcileWorker) (db : Tables) (workspaceId : Uuid) (env : Env iface),
      Obeys env db.answers → ∀ s : Memory,
        SparesLive db (Coro.exec env (w.reconcileWorkspace workspaceId) [] s).trace := by
  intro h
  have hspares := h { py := .sample } telemetry 7 (fedByEntities telemetry 3)
    (obeys_fedByEntities telemetry 3) {}
  have hnot : 3 ∉ telemetry.activeSourceIds 7 := not_mem_nil
  obtain ⟨nowIso, hmem⟩ := exec_of_wp (obeys_only (fedByEntities telemetry 3))
    (wp_reconcileWorkspace_fedByEntities { py := .sample } hnot {})
  have hdead := hspares.entities 7 (Uuid.str 3) nowIso (.ok 1) hmem 3 (parse_str 3)
  exact hdead.2 ⟨_, mem_cons_self, rfl, rfl⟩

end ReconcileWorker

end Omniscience.Reconcile
