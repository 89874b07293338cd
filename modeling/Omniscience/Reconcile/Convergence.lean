import Omniscience.Outbox.Effects
import Omniscience.Outbox.Settlement
import Omniscience.Reconcile.Worker

/-!
# Does reconciliation converge?

A drift pass of the reconcile worker reads both stores, compares them with Postgres and writes
outbox rows; the outbox worker publishes them, and the outbox consumer applies them to the stores.
The round converges if the next pass flags nothing that was emitted again.

`converges_iff` says when it does.  An edge that was emitted is always flagged again, since no
write sets the version of a relationship.  An entity is flagged again in two cases that have
nothing to do with the event: a store may skip the write, because of the checkpoint of the source
or because the document has the same hash, and the version that Qdrant shows counts generations, so
that one write need not bring it up to the version of Postgres.
-/

namespace Omniscience.Reconcile

open Queue Outbox Qdrant Neo4j List

/-! ### Postgres and the stores -/

/-- The entities and the edges of each workspace. -/
structure Postgres where
  entities : Uuid → List EntityRow
  edges : Uuid → List EdgeRow
  /-- `id` is the primary key. -/
  nodup : ∀ ws, ((entities ws).map EntityRow.id).Nodup

/-- What the stores hold about the entities of a workspace. -/
def projections (workspaceId : Uuid) (S : Stores) : Projections where
  qdrantVersions := getEntityVersions workspaceId S.chunks
  neo4jVersions := getEntityVersions workspaceId S.graph
  qdrantHashes := getEntityContentHashes workspaceId S.chunks
  neo4jHashes := getEntityContentHashes workspaceId S.graph

/-- The entities that a pass over the workspace flags. -/
def flaggedEntities (pg : Postgres) (workspaceId : Uuid) (S : Stores) : List EntityRow :=
  (projections workspaceId S).driftedEntities (pg.entities workspaceId)

/-- The edges that a pass over the workspace flags. -/
def flaggedEdges (pg : Postgres) (workspaceId : Uuid) (S : Stores) : List EdgeRow :=
  driftedEdges (getEdgeVersions workspaceId S.graph) (pg.edges workspaceId)

/-- Postgres and the stores answer the calls of a pass; it makes no others. -/
def answers (pg : Postgres) (S : Stores) : Env iface
  | _, .selectEntities ws, s => (.ok (pg.entities ws), s)
  | _, .selectEdges ws, s => (.ok (pg.edges ws), s)
  | _, .qdrantEntityVersions ws, s => (.ok (projections ws S).qdrantVersions, s)
  | _, .qdrantContentHashes ws, s => (.ok (projections ws S).qdrantHashes, s)
  | _, .neo4jEntityVersions ws, s => (.ok (projections ws S).neo4jVersions, s)
  | _, .neo4jContentHashes ws, s => (.ok (projections ws S).neo4jHashes, s)
  | _, .neo4jEdgeVersions ws, s => (.ok (getEdgeVersions ws S.graph), s)
  | _, .insertEvents _, s => (.ok (), s)
  | _, _, s => (.error ⟨.external, "not part of a drift pass"⟩, s)

/-- The entity-drift and the edge-drift pass over a workspace. -/
def driftPass (w : ReconcileWorker) (workspaceId : Uuid) : Co Unit := do
  w.checkEntityDrift workspaceId
  w.checkEdgeDrift workspaceId

/-- The rows that were written. -/
def inserted (t : List (Event iface)) : List NewEvent :=
  t.flatMap fun
    | ⟨.insertEvents rows, .ok _⟩ => rows
    | _ => []

/-- The rows that a pass writes. -/
def emitted (w : ReconcileWorker) (pg : Postgres) (workspaceId : Uuid) (s : Memory) (S : Stores) :
    List NewEvent :=
  inserted (Coro.exec (answers pg S) (driftPass w workspaceId) [] s).trace

theorem inserted_concat (t : List (Event iface)) (ev : Event iface) :
    inserted (t ++ [ev]) = inserted t ++ inserted [ev] :=
  flatMap_append

section

variable (w : ReconcileWorker) (pg : Postgres) (workspaceId ws : Uuid) (S : Stores)

/-- A part of a pass writes rows and counts them. -/
structure Writes (rows : List NewEvent) (t : List (Event iface)) (s : Memory)
    (o : Outcome iface Unit) : Prop where
  inserted : inserted o.trace = inserted t ++ rows
  result : o.result = .ok ()
  cursor : o.state.reemitCursor = s.reemitCursor + rows.length

variable {t t' : List (Event iface)}

theorem writes_nothing {s : Memory} (h : inserted t' = inserted t) :
    Writes [] t s ⟨t', .ok (), s⟩ :=
  ⟨by rw [h, append_nil], rfl, rfl⟩

theorem writes_emit {rows : List NewEvent} {s : Memory} (h : inserted t' = inserted t) :
    Writes rows t s (Coro.exec (answers pg S) (ReconcileWorker.emit rows) t' s) := by
  refine ⟨?_, rfl, rfl⟩
  change inserted (t' ++ [(⟨.insertEvents rows, .ok ()⟩ : Event iface)]) = _
  rw [inserted_concat, h]
  simp [inserted]

theorem writes_backfill {ι : Type} (flagged : List ι) (n : ℕ) (event : ι → NewEvent) {s : Memory}
    (h : inserted t' = inserted t) :
    Writes ((flagged.take n).map event) t s (Coro.exec (answers pg S)
      (if flagged.isEmpty then pure () else ReconcileWorker.emit ((flagged.take n).map event))
      t' s) := by
  by_cases hempty : flagged.isEmpty = true
  · rw [if_pos hempty, isEmpty_iff.1 hempty, take_nil]
    exact writes_nothing h
  · rw [if_neg hempty]
    exact writes_emit pg S h

theorem writes_checkEntityDrift (t : List (Event iface)) (s : Memory) :
    Writes (((flaggedEntities pg ws S).take (w.reemitCap - s.reemitCursor)).map
      (entityEvent ws)) t s
      (Coro.exec (answers pg S) (w.checkEntityDrift ws) t s) := by
  change Writes _ t s (Coro.exec _ (if w.reemitCap ≤ s.reemitCursor then _ else _) t s)
  by_cases hcap : w.reemitCap ≤ s.reemitCursor
  · rw [if_pos hcap, Nat.sub_eq_zero_of_le hcap]
    exact writes_nothing rfl
  · rw [if_neg hcap]
    -- five reads
    change Writes _ t s (Coro.exec (S := iface) _
      (if (flaggedEntities pg ws S).isEmpty then _ else _) (t ++ _ ++ _ ++ _ ++ _ ++ _) s)
    refine writes_backfill pg S _ _ _ ?_
    simp only [inserted_concat]
    simp [inserted]

theorem writes_checkEdgeDrift (t : List (Event iface)) (s : Memory) :
    Writes (((flaggedEdges pg ws S).take (w.reemitCap - s.reemitCursor)).map
      (edgeEvent ws)) t s
      (Coro.exec (answers pg S) (w.checkEdgeDrift ws) t s) := by
  change Writes _ t s (Coro.exec _ (if w.reemitCap ≤ s.reemitCursor then _ else _) t s)
  by_cases hcap : w.reemitCap ≤ s.reemitCursor
  · rw [if_pos hcap, Nat.sub_eq_zero_of_le hcap]
    exact writes_nothing rfl
  · rw [if_neg hcap]
    change Writes _ t s (Coro.exec (S := iface) _
      (if (pg.edges ws).isEmpty then _ else _) (t ++ _) s)
    by_cases hnone : (pg.edges ws).isEmpty = true
    · have hnil : flaggedEdges pg ws S = [] := by
        rw [flaggedEdges, isEmpty_iff.1 hnone]
        rfl
      rw [if_pos hnone, hnil, take_nil]
      refine writes_nothing ?_
      simp only [inserted_concat]
      simp [inserted]
    · rw [if_neg hnone]
      change Writes _ t s (Coro.exec (S := iface) _
        (if (flaggedEdges pg ws S).isEmpty then _ else _) (t ++ _ ++ _) s)
      refine writes_backfill pg S _ _ _ ?_
      simp only [inserted_concat]
      simp [inserted]

/-- **What a pass emits**: entities first, then as many edges as the bound leaves room for. -/
theorem emitted_eq (s : Memory) : emitted w pg ws s S =
      ((flaggedEntities pg ws S).take (w.reemitCap - s.reemitCursor)).map
        (entityEvent ws) ++
      ((flaggedEdges pg ws S).take (w.reemitCap - s.reemitCursor -
        (flaggedEntities pg ws S).length)).map (edgeEvent ws) := by
  have hentities := writes_checkEntityDrift w pg ws S [] s
  rw [emitted, driftPass, Coro.bind_eq, Coro.exec_bind]
  generalize Coro.exec (answers pg S) (w.checkEntityDrift ws) [] s = o at hentities
  obtain ⟨t, result, s'⟩ := o
  obtain ⟨hinserted, rfl, hcursor⟩ := hentities
  simp only at hinserted hcursor
  have hedges := writes_checkEdgeDrift w pg ws S t s'
  have hleft : w.reemitCap - s'.reemitCursor =
      w.reemitCap - s.reemitCursor - (flaggedEntities pg ws S).length := by
    rw [hcursor, length_map, length_take]
    omega
  rw [hedges.inserted, hinserted, hleft]
  rfl

end

/-! ### What is flagged -/

theorem entitiesById_items {rows : List EntityRow} (h : (rows.map EntityRow.id).Nodup) :
    (entitiesById rows).items = rows.map fun row => (row.id, row) := by
  induction rows using List.reverseRecOn with
  | nil => rfl
  | append_singleton rows row ih =>
    rw [map_append, nodup_append] at h
    obtain ⟨hrows, -, hdisjoint⟩ := h
    have hitems := ih hrows
    have hnew : row.id ∉ (entitiesById rows).keys := by
      rw [Dict.keys, hitems, map_map]
      intro hmem
      exact hdisjoint _ hmem row.id mem_cons_self rfl
    rw [entitiesById, foldl_append, ← entitiesById]
    simp [Dict.items_set_of_not_mem hnew, hitems]

section

variable {w : ReconcileWorker} {pg : Postgres} {workspaceId ws : Uuid} {S : Stores} {s : Memory}

theorem mem_flaggedEntities {row : EntityRow} : row ∈ flaggedEntities pg ws S ↔
      row ∈ pg.entities ws ∧ (projections ws S).entityDrift row = true := by
  rw [flaggedEntities, Projections.driftedEntities, entitiesById_items (pg.nodup ws)]
  simp

theorem mem_flaggedEdges {edge : EdgeRow} : edge ∈ flaggedEdges pg ws S ↔ edge ∈ pg.edges ws ∧
      (getEdgeVersions ws S.graph).getD (edgeKey edge) 0 < edge.version := by
  simp [flaggedEdges, driftedEdges]

theorem Postgres.eq_of_id_eq {row row' : EntityRow} (h : row ∈ pg.entities ws)
    (h' : row' ∈ pg.entities ws) (hid : row.id = row'.id) : row = row' :=
  inj_on_of_nodup_map (pg.nodup ws) h h' hid

theorem entityEvent_mem_emitted {row : EntityRow} (hrow : row ∈ pg.entities ws) :
    entityEvent ws row ∈ emitted w pg ws s S ↔
      row ∈ (flaggedEntities pg ws S).take (w.reemitCap - s.reemitCursor) := by
  rw [emitted_eq, mem_append, mem_map, mem_map]
  constructor
  · rintro (⟨row', hmem, heq⟩ | ⟨edge, -, heq⟩)
    · have hid : row'.id = row.id := Option.some.inj (congrArg NewEvent.entityId heq)
      have hrow' := (mem_flaggedEntities.1 (mem_of_mem_take hmem)).1
      rwa [← pg.eq_of_id_eq hrow' hrow hid]
    · have htype := congrArg NewEvent.eventType heq
      simp [edgeEvent, entityEvent] at htype
  · exact fun h => .inl ⟨row, h, rfl⟩

theorem edgeEvent_mem_emitted {edge : EdgeRow} : edgeEvent ws edge ∈ emitted w pg ws s S ↔
      ∃ edge' ∈ (flaggedEdges pg ws S).take (w.reemitCap - s.reemitCursor -
        (flaggedEntities pg ws S).length),
        edgeEvent ws edge' = edgeEvent ws edge := by
  rw [emitted_eq, mem_append, mem_map, mem_map]
  refine or_iff_right ?_
  rintro ⟨row, -, heq⟩
  have htype := congrArg NewEvent.eventType heq
  simp [edgeEvent, entityEvent] at htype

end

/-! ### What the stores show of an entity -/

/-- The version and the hash that the vector store shows of an entity. -/
def chunkReading (workspaceId id : Uuid) (S : Stores) : Option ℤ × Option String :=
  (shown Point.docVersion workspaceId id S.chunks.points,
    shown Point.contentHash workspaceId id S.chunks.points)

/-- The version and the hash of the node of an entity. -/
def nodeReading (workspaceId id : Uuid) (S : Stores) : Option ℤ × Option String :=
  ((S.graph.nodes.get? (workspaceId, id)).bind Node.version,
    (S.graph.nodes.get? (workspaceId, id)).bind Node.contentHash)

/-- A version that is not behind that of the row; a missing one counts as zero. -/
def VersionInStep (row : EntityRow) (version : Option ℤ) : Prop := row.version ≤ version.getD 0

/-- A hash that does not differ from that of the row. -/
def HashInStep (row : EntityRow) (contentHash : Option String) : Prop :=
  ∀ h, row.contentHash = some h → ∀ h', contentHash = some h' → h' = h

def InStep (row : EntityRow) (reading : Option ℤ × Option String) : Prop :=
  VersionInStep row reading.1 ∧ HashInStep row reading.2

theorem hashDiffers_eq_false_iff {found : Option String} {h : String} :
    hashDiffers found h = false ↔ ∀ h', found = some h' → h' = h := by
  cases found with
  | none => simp [hashDiffers]
  | some h' => simp [hashDiffers]

variable {row : EntityRow}

theorem entityDrift_eq_false_iff {ws : Uuid} {S : Stores} :
    (projections ws S).entityDrift row = false ↔
      InStep row (chunkReading ws row.id S) ∧
        InStep row (nodeReading ws row.id S) := by
  have hqv : (projections ws S).qdrantVersions.get? row.id =
      (chunkReading ws row.id S).1 := get?_readPoints _ _ _ _
  have hqh : (projections ws S).qdrantHashes.get? row.id =
      (chunkReading ws row.id S).2 := get?_readPoints _ _ _ _
  have hnv : (projections ws S).neo4jVersions.get? row.id =
      (nodeReading ws row.id S).1 := get?_readNodes _ _ _ _
  have hnh : (projections ws S).neo4jHashes.get? row.id =
      (nodeReading ws row.id S).2 := get?_readNodes _ _ _ _
  unfold Projections.entityDrift
  simp only [Dict.getD, hqv, hqh, hnv, hnh, Bool.or_eq_false_iff, decide_eq_false_iff_not, not_or,
    not_lt]
  cases hrow : row.contentHash with
  | none =>
    simp [InStep, VersionInStep, HashInStep, hrow]
  | some h =>
    simp only [Bool.or_eq_false_iff, hashDiffers_eq_false_iff, InStep, VersionInStep, HashInStep,
      hrow, Option.some.injEq, forall_eq']
    exact and_and_and_comm

theorem entityDrift_congr {ws : Uuid} {S S' : Stores}
    (hchunks : chunkReading ws row.id S' = chunkReading ws row.id S)
    (hnodes : nodeReading ws row.id S' = nodeReading ws row.id S) :
    (projections ws S').entityDrift row = false ↔
      (projections ws S).entityDrift row = false := by
  rw [entityDrift_eq_false_iff, entityDrift_eq_false_iff, hchunks, hnodes]

/-! ### A delivered entity -/

section

variable (deps : Deps) (workspaceId ws w : Uuid)

/-- The event of a row, as the consumer receives it. -/
def deliveredEvent (row : EntityRow) : EntityUpsertEvent :=
  (row.backfillEvent (some workspaceId)).asDelivered

/-- The arguments of the chunk write for a row; whether it is skipped does not depend on the
embedding. -/
def chunkWrite (row : EntityRow) : ChunksUpsert :=
  entityChunks deps (deliveredEvent workspaceId row) workspaceId row.sourceId []

/-- The current generation of the document of a row. -/
def currentDocument (S : Stores) (row : EntityRow) : Option DocumentRecord :=
  findDocument workspaceId row.sourceId ("entity:" ++ row.id.str) S.chunks

/-- The chunk write for the row will be seen by a reader of the property. -/
def Visible {β : Type} (prop : Point → Option β) (S : Stores) (row : EntityRow)
    (pointId : Uuid) : Prop :=
  Written S.chunks workspaceId (chunkWrite deps workspaceId row) ∧
    OnTop prop workspaceId row.id pointId S.chunks.points

/-- The stores, as they are before the event of the row is applied, are such that it brings them in
step: a write that is skipped, or not seen, finds them in step, and one that starts a new generation
in Qdrant reaches the version of the row by counting. -/
structure Heals (S : Stores) (row : EntityRow) (pointId : Uuid) : Prop where
  graph : Skipped S.graph workspaceId row.sourceId.str row.id (wireInt row.version) →
    InStep row (nodeReading workspaceId row.id S)
  version : Visible deps workspaceId Point.docVersion S row pointId →
    row.version ≤ nextVersion (currentDocument workspaceId S row)
  version_hidden : ¬ Visible deps workspaceId Point.docVersion S row pointId →
    VersionInStep row (chunkReading workspaceId row.id S).1
  contentHash : Visible deps workspaceId Point.contentHash S row pointId →
    HashInStep row (some (chunkWrite deps workspaceId row).contentHash)
  contentHash_hidden : ¬ Visible deps workspaceId Point.contentHash S row pointId →
    HashInStep row (chunkReading workspaceId row.id S).2

end

section

variable {deps : Deps} {cfg : Config} {workspaceId ws w : Uuid} {S S' : Stores} {raw : Raw}
  {documentId pointId : Uuid} {row : EntityRow}

/-- The data of the message is what the outbox worker publishes for the row. -/
def Publishes (deps : Deps) (row : NewEvent) (data : Bytes) : Prop :=
  ∃ id createdAt subject payload,
    OutboxWorker.publication { py := deps.py, pyd := deps.pyd } (row.stored id createdAt) =
      .ok (some (subject, payload)) ∧ publishData deps.py deps.pyd payload = .ok data

theorem Publishes.data (h : Publishes deps (entityEvent ws row) raw.data) :
    publishData deps.py deps.pyd (.entity (row.backfillEvent (some ws))) =
      .ok raw.data := by
  obtain ⟨id, createdAt, subject, payload, hpublication, hdata⟩ := h
  rw [publication_entityEvent] at hpublication
  cases hpublication
  exact hdata

variable (hpublished : Publishes deps (entityEvent ws row) raw.data)
  (hjson : deps.py.RoundTrips row.entityMetadata)
  (happlies : AppliesEntity deps cfg S raw ⟨documentId, [pointId]⟩ S')

include hpublished hjson happlies

theorem applied_eq : ∃ embedding now₁ now₂ c, (∀ p ∈ S.chunks.points, p.id ≠ pointId) ∧
    upsertChunks (entityChunks deps (deliveredEvent ws row) ws row.sourceId
      embedding) ⟨documentId, [pointId]⟩ now₂ S.chunks = .ok c ∧
    S' = ⟨upsertEntity cfg (entityUpsert (deliveredEvent ws row) row.id row.sourceId)
      ws now₁ S.graph, c⟩ := by
  obtain ⟨embedding, pointId', now₁, now₂, c, hdraw, hfresh, hc, rfl⟩ :=
    happlies.spec hpublished.data hjson (uuidOf_str row.id) (workspaceOf_str ws)
      (uuidOf_str row.sourceId)
  obtain rfl : pointId = pointId' := head_eq_of_cons_eq hdraw
  exact ⟨embedding, now₁, now₂, c, hfresh, hc, rfl⟩

omit hpublished hjson happlies in
theorem entityWrite_chunks (deps : Deps) (ws documentId pointId : Uuid) (row : EntityRow)
    (embedding : Embedding) :
    EntityWrite (entityChunks deps (deliveredEvent ws row) ws row.sourceId
      embedding) ws row.id ⟨documentId, [pointId]⟩ pointId where
  workspace := uuidOf_str ws
  external := rfl
  chunk := ⟨_, rfl, rfl⟩
  drawn := rfl

/-- **The frame of an applied event**: what the stores show of other entities stays, and so do the
versions of the edges. -/
theorem applied_frame :
    (∀ id ≠ row.id, chunkReading ws id S' = chunkReading ws id S ∧
      nodeReading ws id S' = nodeReading ws id S) ∧
    getEdgeVersions ws S'.graph = getEdgeVersions ws S.graph := by
  obtain ⟨embedding, now₁, now₂, c, hfresh, hc, rfl⟩ := applied_eq hpublished hjson happlies
  have hwrite := entityWrite_chunks deps ws documentId pointId row embedding
  constructor
  · intro id hid
    have hkey : (ws, id) ≠ (ws, row.id) := fun h => hid (Prod.mk.inj h).2
    refine ⟨Prod.ext ?_ ?_, ?_⟩
    · exact shown_upsertChunks_ne hwrite hfresh lasting_docVersion hc hkey
    · exact shown_upsertChunks_ne hwrite hfresh lasting_contentHash hc hkey
    · simp only [nodeReading]
      rw [get?_nodes_upsertEntity_ne hkey]
  · simp only [getEdgeVersions, rels_upsertEntity]

theorem node_inStep_iff : InStep row (nodeReading ws row.id S') ↔
      (Skipped S.graph ws row.sourceId.str row.id (wireInt row.version) →
        InStep row (nodeReading ws row.id S)) := by
  obtain ⟨embedding, now₁, now₂, c, -, -, hS'⟩ := applied_eq hpublished hjson happlies
  by_cases hskip : Skipped S.graph ws row.sourceId.str row.id (wireInt row.version)
  · have hreading : nodeReading ws row.id S' = nodeReading ws row.id S := by
      rw [hS', nodeReading, nodeReading, Prod.mk.injEq]
      exact node_upsertEntity_skipped rfl rfl rfl rfl hskip
    rw [hreading]
    exact ⟨fun h _ => h, fun h => h hskip⟩
  · -- the version of the event is not below that of the row, and the write removes the hash
    have hreading : nodeReading ws row.id S' = (some (wireInt row.version : ℤ), none) := by
      rw [hS', nodeReading, Prod.mk.injEq]
      exact node_upsertEntity rfl rfl rfl rfl hskip
    rw [hreading]
    refine iff_of_true ⟨le_wireInt row.version, ?_⟩ fun h => absurd h hskip
    rintro _ _ _ ⟨⟩

theorem shown_applied_iff {β : Type} {prop : Point → Option β} (hprop : Lasting prop)
    {v : β} (hv : ∀ p : Point,
      p.docVersion = some (nextVersion (currentDocument ws S row)) →
      p.contentHash = some (chunkWrite deps ws row).contentHash → prop p = some v)
    (P : Option β → Prop) :
    P (shown prop ws row.id S'.chunks.points) ↔
      (Visible deps ws prop S row pointId → P (some v)) ∧
        (¬ Visible deps ws prop S row pointId →
          P (shown prop ws row.id S.chunks.points)) := by
  obtain ⟨embedding, now₁, now₂, c, hfresh, hc, rfl⟩ := applied_eq hpublished hjson happlies
  have hwrite := entityWrite_chunks deps ws documentId pointId row embedding
  by_cases hvisible : Visible deps ws prop S row pointId
  · obtain ⟨p, hversion, hhash, hshown⟩ :=
      shown_upsertChunks_visible hwrite hfresh hprop hc hvisible.1 hvisible.2
    rw [hshown v (hv p hversion hhash)]
    exact ⟨fun h => ⟨fun _ => h, absurd hvisible⟩, fun h => h.1 hvisible⟩
  · rw [shown_upsertChunks_hidden hwrite hfresh hprop hc hvisible]
    exact ⟨fun h => ⟨fun h' => absurd h' hvisible, fun _ => h⟩, fun h => h.2 hvisible⟩

/-- **One step**: the entity is not flagged after its event, if and only if the stores before it
were such that the event heals. -/
theorem applied_iff_heals : (projections ws S').entityDrift row = false ↔
      Heals deps ws S row pointId := by
  have hversion := shown_applied_iff hpublished hjson happlies lasting_docVersion
    (fun _ h _ => h) (VersionInStep row)
  have hhash := shown_applied_iff hpublished hjson happlies lasting_contentHash
    (fun _ _ h => h) (HashInStep row)
  rw [entityDrift_eq_false_iff, node_inStep_iff hpublished hjson happlies, InStep, chunkReading,
    hversion, hhash]
  constructor
  · rintro ⟨⟨⟨hshown, hhidden⟩, hshown', hhidden'⟩, hgraph⟩
    exact ⟨hgraph, hshown, hhidden, hshown', hhidden'⟩
  · intro h
    exact ⟨⟨⟨h.version, h.version_hidden⟩, h.contentHash, h.contentHash_hidden⟩, h.graph⟩

end

/-! ### The round -/

/-- A delivery: an entity event, with the stores before it and the id drawn for its point, or an
edge event. -/
inductive Step where
  | entity (before : Stores) (row : EntityRow) (pointId : Uuid)
  | edge

/-- Deliveries take the stores from one state to another.  Entity events are those of `rows` whose
outbox row is among `events`; edge events may be any. -/
inductive Run (deps : Deps) (cfg : Config) (workspaceId : Uuid) (rows : List EntityRow)
    (events : List NewEvent) : Stores → List Step → Stores → Prop
  | nil (S : Stores) : Run deps cfg workspaceId rows events S [] S
  | entity {S S₁ S' : Stores} {steps : List Step} {row : EntityRow} {raw : Raw}
    {documentId pointId : Uuid} (hrow : row ∈ rows) (hevent : entityEvent workspaceId row ∈ events)
    (hpublished : Publishes deps (entityEvent workspaceId row) raw.data)
    (happlies : AppliesEntity deps cfg S raw ⟨documentId, [pointId]⟩ S₁)
    (hrest : Run deps cfg workspaceId rows events S₁ steps S') :
    Run deps cfg workspaceId rows events S (.entity S row pointId :: steps) S'
  | edge {S S₁ S' : Stores} {steps : List Step} {raw : Raw}
    (happlies : AppliesEdge deps cfg S raw S₁)
    (hrest : Run deps cfg workspaceId rows events S₁ steps S') :
    Run deps cfg workspaceId rows events S (.edge :: steps) S'

/-- The delivery, if it is one of the entity. -/
def Step.ofEntity (id : Uuid) : Step → Option (Stores × Uuid)
  | .entity before row pointId => if row.id = id then some (before, pointId) else none
  | .edge => none

/-- The last delivery of an entity: the stores before it, and the id drawn for its point. -/
def lastDelivery (id : Uuid) (steps : List Step) : Option (Stores × Uuid) :=
  (steps.filterMap (Step.ofEntity id)).getLast?

theorem lastDelivery_cons_self {id : Uuid} {before : Stores} {pointId : Uuid} (h : row.id = id)
    (steps : List Step) :
    lastDelivery id (.entity before row pointId :: steps) =
      some ((lastDelivery id steps).getD (before, pointId)) := by
  simp [lastDelivery, Step.ofEntity, h, List.getLast?_cons]

theorem lastDelivery_cons_ne {id : Uuid} {before : Stores} {pointId : Uuid} (h : row.id ≠ id)
    (steps : List Step) :
    lastDelivery id (.entity before row pointId :: steps) = lastDelivery id steps := by
  simp [lastDelivery, Step.ofEntity, h]

theorem lastDelivery_edge (id : Uuid) (steps : List Step) :
    lastDelivery id (.edge :: steps) = lastDelivery id steps :=
  rfl

theorem exists_lastDelivery {before : Stores} {pointId : Uuid} {steps : List Step}
    (h : Step.entity before row pointId ∈ steps) :
    ∃ last, lastDelivery row.id steps = some last := by
  have hmem : (before, pointId) ∈ steps.filterMap (Step.ofEntity row.id) := by
    refine mem_filterMap.2 ⟨_, h, ?_⟩
    simp [Step.ofEntity]
  exact ⟨_, List.getLast?_eq_some_getLast (ne_nil_of_mem hmem)⟩

section

variable {deps : Deps} {cfg : Config} {workspaceId ws w : Uuid} {pg : Postgres}
  {events : List NewEvent} {S S' : Stores} {steps : List Step}

theorem Run.edgeVersions (hrun : Run deps cfg ws (pg.entities ws) events S steps S')
    (hjson : ∀ row ∈ pg.entities ws, deps.py.RoundTrips row.entityMetadata) :
    getEdgeVersions ws S'.graph = getEdgeVersions ws S.graph := by
  induction hrun with
  | nil S => rfl
  | entity hrow _ hpublished happlies _ ih =>
    exact ih.trans (applied_frame hpublished (hjson _ hrow) happlies).2
  | edge happlies _ ih => exact ih.trans (happlies.sameReadings.edgeVersions ws)

/-- **A run of deliveries**: an entity that was delivered is not flagged afterwards, if and only if
its last delivery heals. -/
theorem Run.entityDrift_iff (hrun : Run deps cfg ws (pg.entities ws) events S steps S')
    (hjson : ∀ row ∈ pg.entities ws, deps.py.RoundTrips row.entityMetadata)
    {row : EntityRow} (hrow : row ∈ pg.entities ws) : (projections ws S').entityDrift row = false ↔
      match lastDelivery row.id steps with
      | none => (projections ws S).entityDrift row = false
      | some last => Heals deps ws last.1 row last.2 := by
  induction hrun with
  | nil S => exact Iff.rfl
  | @entity S S₁ S' steps row' raw documentId pointId hrow' _ hpublished happlies _ ih =>
    -- by the last delivery: a later one of the same entity decides, else this one
    by_cases hid : row'.id = row.id
    · obtain rfl := pg.eq_of_id_eq hrow' hrow hid
      rw [ih, lastDelivery_cons_self rfl]
      cases lastDelivery row'.id steps with
      | none => exact applied_iff_heals hpublished (hjson row' hrow') happlies
      | some last => exact Iff.rfl
    · have hframe := (applied_frame hpublished (hjson row' hrow') happlies).1 row.id (Ne.symm hid)
      rw [ih, lastDelivery_cons_ne hid, entityDrift_congr hframe.1 hframe.2]
  | @edge S S₁ S' steps raw happlies _ ih =>
    have hsame := happlies.sameReadings
    have hchunks : chunkReading ws row.id S₁ = chunkReading ws row.id S := by
      rw [chunkReading, hsame.chunks, ← chunkReading]
    have hnodes : nodeReading ws row.id S₁ = nodeReading ws row.id S := by
      rw [nodeReading, hsame.nodes, ← nodeReading]
    rw [ih, lastDelivery_edge, entityDrift_congr hchunks hnodes]

/-- The next pass flags nothing that the first one emitted. -/
structure Converges (w : ReconcileWorker) (pg : Postgres) (workspaceId : Uuid) (s : Memory)
    (S S' : Stores) : Prop where
  entities : ∀ row ∈ pg.entities workspaceId,
    entityEvent workspaceId row ∈ emitted w pg workspaceId s S →
      row ∉ flaggedEntities pg workspaceId S'
  edges : ∀ edge ∈ pg.edges workspaceId,
    edgeEvent workspaceId edge ∈ emitted w pg workspaceId s S →
      edge ∉ flaggedEdges pg workspaceId S'

theorem not_mem_flaggedEntities {row : EntityRow} (hrow : row ∈ pg.entities ws) :
    row ∉ flaggedEntities pg ws S ↔
      (projections ws S).entityDrift row = false := by
  rw [mem_flaggedEntities, and_iff_right hrow, Bool.not_eq_true]

theorem edges_not_flagged_iff {w : ReconcileWorker} {s : Memory} :
    (∀ edge ∈ pg.edges ws, edgeEvent ws edge ∈ emitted w pg ws s S →
        edge ∉ flaggedEdges pg ws S) ↔
      flaggedEdges pg ws S = [] ∨
        w.reemitCap ≤ s.reemitCursor + (flaggedEntities pg ws S).length := by
  simp only [edgeEvent_mem_emitted]
  constructor
  · intro h
    by_contra hnot
    rw [not_or, not_le] at hnot
    obtain ⟨hne, hroom⟩ := hnot
    obtain ⟨edge, edges, hcons⟩ := exists_cons_of_ne_nil hne
    have hmem : edge ∈ flaggedEdges pg ws S := by simp [hcons]
    refine h edge (mem_flaggedEdges.1 hmem).1 ⟨edge, ?_, rfl⟩ hmem
    obtain ⟨n, hn⟩ : ∃ n, w.reemitCap - s.reemitCursor - (flaggedEntities pg ws S).length = n + 1 :=
      Nat.exists_eq_add_one_of_ne_zero (by omega)
    simp [hcons, hn]
  · rintro (hnil | hfull) edge - ⟨edge', hedge', -⟩
    · simp [hnil] at hedge'
    · have hzero : w.reemitCap - s.reemitCursor - (flaggedEntities pg ws S).length = 0 := by
        omega
      simp [hzero] at hedge'

/-- **Convergence of a round.**  The next pass flags nothing that was emitted if and only if the
first one had no edge to emit, or no room for one, and each entity's last delivery found the stores
in a state that it heals. -/
theorem converges_iff (deps : Deps) (cfg : Config) (w : ReconcileWorker) (pg : Postgres)
    (workspaceId : Uuid) (s : Memory) (S S' : Stores) (steps : List Step)
    (hjson : ∀ row ∈ pg.entities workspaceId, deps.py.RoundTrips row.entityMetadata)
    (hrun : Run deps cfg workspaceId (pg.entities workspaceId) (emitted w pg workspaceId s S) S
      steps S')
    (hdelivered : ∀ row ∈ pg.entities workspaceId,
      entityEvent workspaceId row ∈ emitted w pg workspaceId s S →
        ∃ before pointId, Step.entity before row pointId ∈ steps) :
    Converges w pg workspaceId s S S' ↔
      (flaggedEdges pg workspaceId S = [] ∨
        w.reemitCap ≤ s.reemitCursor + (flaggedEntities pg workspaceId S).length) ∧
      ∀ row ∈ pg.entities workspaceId, entityEvent workspaceId row ∈ emitted w pg workspaceId s S →
        ∀ before pointId, lastDelivery row.id steps = some (before, pointId) →
          Heals deps workspaceId before row pointId := by
  -- edges: the versions in Neo4j are what they were, so that the same edges are flagged
  have hversions := hrun.edgeVersions hjson
  have hflagged : flaggedEdges pg workspaceId S' = flaggedEdges pg workspaceId S := by
    rw [flaggedEdges, flaggedEdges, hversions]
  -- entities: each one was delivered, so that its last delivery decides
  have hentity : ∀ row ∈ pg.entities workspaceId,
      entityEvent workspaceId row ∈ emitted w pg workspaceId s S →
        (row ∉ flaggedEntities pg workspaceId S' ↔ ∀ before pointId,
          lastDelivery row.id steps = some (before, pointId) →
            Heals deps workspaceId before row pointId) := by
    intro row hrow hevent
    obtain ⟨before, pointId, hstep⟩ := hdelivered row hrow hevent
    obtain ⟨last, hlast⟩ := exists_lastDelivery hstep
    have hdrift := hrun.entityDrift_iff hjson hrow
    rw [hlast] at hdrift
    rw [not_mem_flaggedEntities hrow, hdrift, hlast]
    constructor
    · rintro h _ _ ⟨⟩
      exact h
    · exact fun h => h last.1 last.2 rfl
  constructor
  · intro h
    refine ⟨edges_not_flagged_iff.1 ?_, fun row hrow hevent => ?_⟩
    · rw [← hflagged]
      exact h.edges
    · exact (hentity row hrow hevent).1 (h.entities row hrow hevent)
  · rintro ⟨hedges, hheals⟩
    refine ⟨fun row hrow hevent => (hentity row hrow hevent).2 (hheals row hrow hevent), ?_⟩
    rw [hflagged]
    exact edges_not_flagged_iff.2 hedges

end

/-! ### New entities -/

theorem trace_accepting (deps : Deps) (msg : Message EntityUpsertEvent)
    {entityId ws sourceId : Uuid} (hid : uuidOf msg.payload.id = .ok entityId)
    (hws : workspaceOf msg.payload.workspaceId = .ok ws)
    (hsource : uuidOf msg.payload.sourceId = .ok sourceId)
    (hmark : msg.payload.isBackfill = false) :
    (Coro.exec accepting (consumeEntity deps none msg) [] {}).trace =
      [⟨.service (.upsertEntity (entityUpsert msg.payload entityId sourceId) ws), .ok ()⟩,
        ⟨.service (.embed [entityText deps msg.payload]), .ok [[]]⟩,
        ⟨.service (.upsertChunks (entityChunks deps msg.payload ws sourceId [])), .ok ()⟩,
        ⟨.ack msg.delivery, .ok ()⟩] := by
  rw [consumeEntity, hid]
  simp only [processEntity, writeEntity, hws, hsource, hmark]
  rfl

theorem exists_applies (deps : Deps) (cfg : Config) (ws : Uuid) (row : EntityRow)
    (hjson : deps.py.RoundTrips row.entityMetadata) (S : Stores) (documentId pointId : Uuid)
    (hfresh : ∀ p ∈ S.chunks.points, p.id ≠ pointId) :
    ∃ raw S', Publishes deps (entityEvent ws row) raw.data ∧
      AppliesEntity deps cfg S raw ⟨documentId, [pointId]⟩ S' := by
  let raw : Raw :=
    ⟨0, "outbox.entity.upsert",
      serializeEntityUpsertEvent deps.py (row.backfillEvent (some ws)), none⟩
  have hyield : yielded (consumers deps).entity raw = some (deliveredEvent ws row) :=
    yielded_eq_some (show 1 < 5 by decide) (decodeEntity_serialize _ _ hjson)
  have hws : workspaceOf (deliveredEvent ws row).workspaceId = .ok ws :=
    (workspaceOf_asDelivered (row.backfillEvent (some ws))).trans (workspaceOf_str ws)
  -- every call is answered, and the worker has nothing parked
  obtain ⟨c, hc⟩ := exists_upsertChunks
    (entityWrite_chunks deps ws documentId pointId row []).workspace
    ⟨documentId, [pointId]⟩ 0 S.chunks
  refine ⟨raw, ⟨upsertEntity cfg (entityUpsert (deliveredEvent ws row) row.id
    row.sourceId) ws 0 S.graph, c⟩, ?_, accepting, {}, none, ?_⟩
  · exact ⟨0, 0, _, _, publication_entityEvent _ ws row 0 0, publishData_entity _ _ _⟩
  · have htrace := trace_accepting deps ⟨0, raw.subject, deliveredEvent ws row⟩
      (uuidOf_str row.id) hws (uuidOf_str row.sourceId) rfl
    dsimp only
    rw [deliver_of_yielded _ _ _ _ hyield, htrace]
    refine ⟨⟨.ok (), by simp [raw]⟩, ?_⟩
    refine .cons (.upsertEntity S _ _ 0) (.cons (.other _ rfl) (.cons ?_ (.cons (.other _ rfl)
      (.nil _))))
    refine .upsertChunks rfl ?_ hc
    intro id hid p hp
    rw [mem_singleton.1 hid]
    exact hfresh p hp

/-- An entity without a hash. -/
def newEntity (version : ℤ) : EntityRow where
  id := 2
  sourceId := 4
  entityType := "service"
  name := "api"
  displayName := "API"
  entityMetadata := []
  version := version
  contentHash := none

/-- A database with one entity. -/
def oneEntity (version : ℤ) : Postgres where
  entities _ := [newEntity version]
  edges _ := []
  nodup _ := nodup_singleton _

/-- A graph store without history, for the instances of the general results. -/
def graphConfig : Config where
  py := .sample
  entityFingerprint _ := ""
  edgeFingerprint _ _ _ := ""

/-- Empty stores. -/
def emptyStores : Stores := ⟨{}, {}⟩

section

variable {version : ℤ}

theorem newEntity_emitted (h : 0 < version) : entityEvent 7 (newEntity version) ∈
      emitted { py := .sample } (oneEntity version) 7 {} emptyStores := by
  have hrow : newEntity version ∈ (oneEntity version).entities 7 := mem_singleton_self _
  have hflagged : newEntity version ∈ flaggedEntities (oneEntity version) 7 emptyStores := by
    by_contra hnot
    have hstep := entityDrift_eq_false_iff.1 ((not_mem_flaggedEntities hrow).1 hnot)
    exact absurd hstep.1.1 (not_le.2 h)
  have hlength : (flaggedEntities (oneEntity version) 7 emptyStores).length ≤ 1 :=
    length_filter_le _ _
  rw [entityEvent_mem_emitted hrow, take_of_length_le]
  · exact hflagged
  · exact hlength.trans (by decide)

theorem newEntity_run (h : 0 < version) :
    ∃ S', Run .sample graphConfig 7 ((oneEntity version).entities 7)
      (emitted { py := .sample } (oneEntity version) 7 {} emptyStores) emptyStores
      [.entity emptyStores (newEntity version) 9] S' := by
  obtain ⟨raw, S', hpublished, happlies⟩ := exists_applies .sample graphConfig 7 (newEntity version)
    Py.sample_roundTrips emptyStores 8 9 (by rintro _ ⟨⟩)
  refine ⟨S', .entity (mem_singleton_self _) ?_ hpublished happlies (.nil S')⟩
  exact newEntity_emitted h

theorem newEntity_json :
    ∀ row ∈ (oneEntity version).entities 7, Deps.sample.py.RoundTrips row.entityMetadata := by
  intro row hrow
  rw [mem_singleton.1 hrow]
  exact Py.sample_roundTrips

theorem newEntity_delivered : ∀ row ∈ (oneEntity version).entities 7,
      entityEvent 7 row ∈ emitted { py := .sample } (oneEntity version) 7 {} emptyStores →
        ∃ before pointId, Step.entity before row pointId ∈
          [Step.entity emptyStores (newEntity version) 9] := by
  intro row hrow _
  rw [mem_singleton.1 hrow]
  exact ⟨_, _, mem_singleton_self _⟩

theorem newEntity_visible {β : Type} (prop : Point → Option β) :
    Visible .sample 7 prop emptyStores (newEntity version) 9 :=
  ⟨⟨rfl, by rintro ⟨⟩⟩, by rintro _ ⟨⟩⟩

end

/-- The first version of a new entity heals. -/
theorem newEntity_converges :
    ∃ S', Converges { py := .sample } (oneEntity 1) 7 {} emptyStores S' := by
  obtain ⟨S', hrun⟩ := newEntity_run one_pos
  refine ⟨S', (converges_iff .sample graphConfig { py := .sample } (oneEntity 1) 7 {} emptyStores S'
    _ newEntity_json hrun newEntity_delivered).2 ⟨.inl rfl, ?_⟩⟩
  rintro row hrow - before pointId hlast
  rw [mem_singleton.1 hrow] at hlast ⊢
  cases hlast
  refine ⟨?_, fun _ => le_rfl, fun h => absurd (newEntity_visible _) h, ?_, ?_⟩
  · -- neither a checkpoint nor a node that could be ahead
    rintro (⟨applied, ⟨⟩, -⟩ | hnode)
    exact absurd hnode (by decide)
  · rintro _ _ ⟨⟩
  · rintro _ _ ⟨⟩

/-- The second version of an entity that no store has is flagged again: Qdrant counts from one. -/
theorem newEntity_flagged_again :
    ¬ ∀ (deps : Deps) (cfg : Config) (w : ReconcileWorker) (pg : Postgres)
      (workspaceId : Uuid) (s : Memory) (S S' : Stores) (steps : List Step),
      (∀ row ∈ pg.entities workspaceId, deps.py.RoundTrips row.entityMetadata) →
      Run deps cfg workspaceId (pg.entities workspaceId) (emitted w pg workspaceId s S) S steps S' →
      (∀ row ∈ pg.entities workspaceId,
        entityEvent workspaceId row ∈ emitted w pg workspaceId s S →
          ∃ before pointId, Step.entity before row pointId ∈ steps) →
      Converges w pg workspaceId s S S' := by
  intro hclaim
  obtain ⟨S', hrun⟩ := newEntity_run (show (0 : ℤ) < 2 by decide)
  have hconv := hclaim .sample graphConfig { py := .sample } (oneEntity 2) 7 {} emptyStores S' _
    newEntity_json hrun newEntity_delivered
  have hrow : newEntity 2 ∈ (oneEntity 2).entities 7 := mem_singleton_self _
  have hnot := hconv.entities _ hrow (newEntity_emitted (by decide))
  rw [not_mem_flaggedEntities hrow, hrun.entityDrift_iff newEntity_json hrow] at hnot
  have hheals : Heals .sample 7 emptyStores (newEntity 2) 9 := hnot
  exact absurd (hheals.version (newEntity_visible _)) (by decide)

end Omniscience.Reconcile
