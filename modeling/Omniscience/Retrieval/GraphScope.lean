import Omniscience.Retrieval.GraphQuery

/-!
# What a graph query depends on

A traversal for a workspace depends on the part of the database that is in its scope: the sources of
the workspace and of none, their entities, the edges between these, and the chunks these refer to.

* `getRelated_scope` : the answer is that of the database which has nothing else.
* `getRelated_eq_of_agree` : databases that agree on the scope of a workspace give it one answer.
-/

namespace Omniscience.GraphQuery

open Function List

variable {rank : Uuid → ℕ} {db db' : Database rank} {workspaceId w : Uuid}

/-- The entity is one of a source of the workspace or of none. -/
def InScope (db : Database rank) (workspaceId : Uuid) (entity : Entity) : Prop :=
  entity ∈ db.entities.rows ∧ ∃ source ∈ db.sources.rows, source.id = entity.sourceId ∧
    (source.tenantId = some workspaceId ∨ source.tenantId = none)

/-- Two databases agree on what is in the scope of a workspace. -/
structure AgreeOn (workspaceId : Uuid) (db db' : Database rank) : Prop where
  sources : ∀ source : Source, source.tenantId = some workspaceId ∨ source.tenantId = none →
    (source ∈ db.sources.rows ↔ source ∈ db'.sources.rows)
  entities : ∀ source ∈ db.sources.rows,
    source.tenantId = some workspaceId ∨ source.tenantId = none →
    ∀ entity : Entity, entity.sourceId = source.id →
      (entity ∈ db.entities.rows ↔ entity ∈ db'.entities.rows)
  edges : ∀ a b, InScope db workspaceId a → InScope db workspaceId b → ∀ edge : Edge,
    edge.sourceEntityId = a.id → edge.targetEntityId = b.id →
      (edge ∈ db.edges.rows ↔ edge ∈ db'.edges.rows)
  chunks : ∀ entity, InScope db workspaceId entity → ∀ chunk : Chunk,
    entity.chunkId = some chunk.id → (chunk ∈ db.chunks.rows ↔ chunk ∈ db'.chunks.rows)

/-! ### The part in scope -/

/-- The entities in scope. -/
def scopedEntities (db : Database rank) (workspaceId : Uuid) : List Entity :=
  db.entities.rows.filter (joinsSource db (workspacePredicate workspaceId))

/-- The id is that of an entity in scope. -/
def isScoped (db : Database rank) (workspaceId : Uuid) (entityId : Uuid) : Bool :=
  (scopedEntities db workspaceId).any fun entity => entity.id = entityId

/-- The database without what is out of scope. -/
def scope (db : Database rank) (workspaceId : Uuid) : Database rank where
  sources := db.sources.filter (workspacePredicate workspaceId)
  entities := db.entities.filter (joinsSource db (workspacePredicate workspaceId))
  edges := db.edges.filter fun edge =>
    isScoped db workspaceId edge.sourceEntityId && isScoped db workspaceId edge.targetEntityId
  chunks := db.chunks.filter fun chunk =>
    (scopedEntities db workspaceId).any fun entity => entity.chunkId = some chunk.id

theorem mem_scopedEntities_iff {entity : Entity} :
    entity ∈ scopedEntities db w ↔ InScope db w entity := by
  simp [scopedEntities, InScope, joinsSource, workspacePredicate]

theorem isScoped_iff {entityId : Uuid} : isScoped db w entityId = true ↔
      ∃ entity, InScope db w entity ∧ entity.id = entityId := by
  simp [isScoped, mem_scopedEntities_iff]

theorem scope_eq_of_agree (h : AgreeOn w db db') : scope db w = scope db' w := by
  have hin : ∀ entity, InScope db w entity ↔ InScope db' w entity := by
    intro entity
    constructor
    · rintro ⟨hmem, source, hsource, hid, htenant⟩
      exact ⟨(h.entities source hsource htenant entity hid.symm).1 hmem, source,
        (h.sources source htenant).1 hsource, hid, htenant⟩
    · rintro ⟨hmem, source, hsource, hid, htenant⟩
      have hsource' := (h.sources source htenant).2 hsource
      exact ⟨(h.entities source hsource' htenant entity hid.symm).2 hmem, source, hsource', hid,
        htenant⟩
  have hscoped : ∀ entityId, isScoped db w entityId = isScoped db' w entityId :=
    fun entityId => Bool.eq_iff_iff.2 (by simp only [isScoped_iff, hin])
  have hsources : db.sources.filter (workspacePredicate w) =
      db'.sources.filter (workspacePredicate w) :=
    Table.filter_eq fun source => by
      refine and_congr_left fun htenant => h.sources source ?_
      simpa [workspacePredicate] using htenant
  have hentities : db.entities.filter (joinsSource db (workspacePredicate w)) =
      db'.entities.filter (joinsSource db' (workspacePredicate w)) :=
    Table.filter_eq fun entity => by
      have hentity := hin entity
      rw [← mem_scopedEntities_iff, ← mem_scopedEntities_iff] at hentity
      simpa [scopedEntities] using hentity
  have hedges : (scope db w).edges = (scope db' w).edges :=
    Table.filter_eq fun edge => by
      rw [hscoped, hscoped]
      refine and_congr_left fun hends => ?_
      rw [Bool.and_eq_true, ← hscoped, ← hscoped, isScoped_iff, isScoped_iff] at hends
      obtain ⟨⟨a, ha, hsource⟩, b, hb, htarget⟩ := hends
      exact h.edges a b ha hb edge hsource.symm htarget.symm
  have hchunks : (scope db w).chunks = (scope db' w).chunks :=
    Table.filter_eq fun chunk => by
      simp only [any_eq_true, mem_scopedEntities_iff, ← hin, decide_eq_true_eq]
      refine and_congr_left fun hreferred => ?_
      obtain ⟨entity, hentity, hchunk⟩ := hreferred
      exact h.chunks entity hentity chunk hchunk
  show Database.mk _ _ _ _ = Database.mk _ _ _ _
  rw [hsources, hentities]
  exact congrArg₂ (Database.mk _ _) hedges hchunks

/-! ### The queries read the scope only -/

theorem joinsSource_scope : joinsSource (scope db w) (workspacePredicate w) =
      joinsSource db (workspacePredicate w) := by
  funext entity
  simp only [joinsSource, scope, Table.rows_filter, any_filter]
  congr 1
  funext source
  cases workspacePredicate w source <;> simp

theorem filter_entities_scope (condition : Entity → Bool) :
    ((scope db w).entities.rows.filter fun entity => condition entity &&
        joinsSource (scope db w) (workspacePredicate w) entity) =
      db.entities.rows.filter fun entity => condition entity &&
        joinsSource db (workspacePredicate w) entity := by
  rw [joinsSource_scope]
  simp only [scope, Table.rows_filter, filter_filter]
  refine filter_congr fun entity _ => ?_
  cases joinsSource db (workspacePredicate w) entity <;> simp

theorem fetchEntityByName_scope (name : String) : fetchEntityByName (scope db w) w name =
      fetchEntityByName db w name :=
  congrArg List.head? (filter_entities_scope fun entity => decide (entity.name = name))

theorem fetchEntityById_scope (entityId : Uuid) : fetchEntityById (scope db w) w entityId =
      fetchEntityById db w entityId :=
  congrArg List.head? (filter_entities_scope fun entity => decide (entity.id = entityId))

theorem fetchChunkText_scope {entity : Entity} (h : InScope db w entity) :
    fetchChunkText (scope db w) entity.chunkId = fetchChunkText db entity.chunkId := by
  cases hchunk : entity.chunkId with
  | none => rfl
  | some id =>
    have hrows : ((scope db w).chunks.rows.filter fun chunk => chunk.id = id) =
        db.chunks.rows.filter fun chunk => chunk.id = id := by
      simp only [scope, Table.rows_filter, filter_filter]
      refine filter_congr fun chunk _ => ?_
      by_cases hid : chunk.id = id
      · have hreferred : (scopedEntities db w).any (fun e => e.chunkId = some chunk.id) = true :=
          any_eq_true.2 ⟨entity, mem_scopedEntities_iff.2 h, by simp [hchunk, hid]⟩
        rw [hreferred, Bool.and_true]
      · simp [hid]
    show ((_ : List Chunk).head?).map Chunk.text = ((_ : List Chunk).head?).map Chunk.text
    rw [hrows]

theorem entityNode_scope {entity : Entity} (h : InScope db w entity) (depth : ℕ)
    (edgeType : Option String) :
    entityNode (scope db w) entity depth edgeType =
      entityNode db entity depth edgeType := by
  unfold entityNode
  rw [fetchChunkText_scope h]

theorem flatMap_filter_of_nil {α β : Type*} {p : α → Bool} {f : α → List β} {l : List α}
    (h : ∀ a ∈ l, p a = false → f a = []) : (l.filter p).flatMap f = l.flatMap f := by
  induction l with
  | nil => rfl
  | cons a l ih =>
    have ih := ih fun b hb => h b (mem_cons_of_mem _ hb)
    cases hp : p a with
    | true => simp [hp, ih]
    | false => simp [hp, ih, h a mem_cons_self hp]

theorem joinFar_scope {edgeTypes : Option (List String)} {near far : Edge → Uuid} {entityId : Uuid}
    (hends : ∀ edge, isScoped db w (near edge) = true →
      isScoped db w (far edge) = true →
      isScoped db w edge.sourceEntityId = true ∧
        isScoped db w edge.targetEntityId = true)
    (hentity : isScoped db w entityId = true) :
    joinFar (scope db w) (workspacePredicate w) edgeTypes near far entityId =
      joinFar db (workspacePredicate w) edgeTypes near far entityId := by
  unfold joinFar
  simp only [filter_entities_scope]
  simp only [scope, Table.rows_filter]
  rw [filter_comm]
  refine flatMap_filter_of_nil fun edge hedge hout => ?_
  rw [map_eq_nil_iff, filter_eq_nil_iff]
  intro entity hmem hjoin
  -- an entity at the far end would put the edge into the scope
  simp only [mem_filter, Bool.and_eq_true, decide_eq_true_eq] at hedge hjoin
  have hfar : isScoped db w (far edge) = true :=
    any_eq_true.2 ⟨entity, mem_filter.2 ⟨hmem, hjoin.2⟩, by simp [hjoin.1]⟩
  obtain ⟨hsource, htarget⟩ := hends edge (hedge.2.1 ▸ hentity) hfar
  rw [hsource, htarget] at hout
  exact absurd hout (by decide)

theorem fetchAdjacent_scope {edgeTypes : Option (List String)} {entityId : Uuid}
    (h : isScoped db w entityId = true) :
    fetchAdjacent (scope db w) w edgeTypes entityId =
      fetchAdjacent db w edgeTypes entityId := by
  unfold fetchAdjacent
  rw [joinFar_scope (fun _ hs ht => ⟨hs, ht⟩) h, joinFar_scope (fun _ ht hs => ⟨hs, ht⟩) h]

/-! ### The loop stays in scope -/

/-- The ids in the frontier are those of entities in scope. -/
def FrontierScoped (db : Database rank) (workspaceId : Uuid) (t : Traversal) : Prop :=
  ∀ x ∈ t.frontier, isScoped db workspaceId x.1 = true

variable {edgeTypes : Option (List String)} {depth : ℕ} {t : Traversal}

theorem visitHop_scope (depth : ℕ) {hop : Edge × Entity} (hhop : InScope db w hop.2)
    (h : FrontierScoped db w t) :
    visitHop (scope db w) w depth t hop =
        visitHop db w depth t hop ∧
      FrontierScoped db w (visitHop db w depth t hop) := by
  unfold visitHop
  rw [fetchEntityById_scope, fetchEntityById_scope]
  cases fetchEntityById db w hop.1.sourceEntityId with
  | none => exact ⟨rfl, h⟩
  | some source =>
    cases fetchEntityById db w hop.1.targetEntityId with
    | none => exact ⟨rfl, h⟩
    | some target =>
      simp only [visitNeighbor, entityNode_scope hhop]
      refine ⟨trivial, fun x hx => ?_⟩
      split_ifs at hx with hvisited
      · exact h x hx
      · obtain hx | hx := mem_append.1 hx
        · exact h x hx
        · rw [mem_singleton.1 hx]
          exact isScoped_iff.2 ⟨hop.2, hhop, rfl⟩

theorem foldl_visitHop_scope {hops : List (Edge × Entity)}
    (hhops : ∀ hop ∈ hops, InScope db w hop.2) (h : FrontierScoped db w t) :
    hops.foldl (visitHop (scope db w) w depth) t =
        hops.foldl (visitHop db w depth) t ∧
      FrontierScoped db w (hops.foldl (visitHop db w depth) t) := by
  induction hops generalizing t with
  | nil => exact ⟨rfl, h⟩
  | cons hop hops ih =>
    obtain ⟨heq, hscoped⟩ := visitHop_scope depth (hhops hop mem_cons_self) h
    rw [foldl_cons, foldl_cons, heq]
    exact ih (fun x hx => hhops x (mem_cons_of_mem _ hx)) hscoped

theorem turn_scope (maxDepth : ℕ) (edgeTypes : Option (List String)) (h : FrontierScoped db w t) :
    turn (scope db w) w maxDepth edgeTypes t =
        turn db w maxDepth edgeTypes t ∧
      FrontierScoped db w (turn db w maxDepth edgeTypes t) := by
  cases hfrontier : t.frontier with
  | nil =>
    rw [turn_nil hfrontier, turn_nil hfrontier]
    exact ⟨rfl, h⟩
  | cons x rest =>
    have hrest : FrontierScoped db w { t with frontier := rest } := fun y hy =>
      h y (by rw [hfrontier]; exact mem_cons_of_mem _ hy)
    by_cases hk : maxDepth ≤ x.2.1
    · rw [turn_of_le hfrontier hk, turn_of_le hfrontier hk]
      exact ⟨rfl, hrest⟩
    · rw [turn_of_lt hfrontier (not_le.1 hk), turn_of_lt hfrontier (not_le.1 hk),
        fetchAdjacent_scope (h x (by rw [hfrontier]; exact mem_cons_self))]
      refine foldl_visitHop_scope (fun hop hhop => ?_) hrest
      exact mem_scopedEntities_iff.1 (mem_filter.2 (mem_of_mem_fetchAdjacent hhop))

theorem iterate_turn_scope (maxDepth n : ℕ) (h : FrontierScoped db w t) :
    (turn (scope db w) w maxDepth edgeTypes)^[n] t =
      (turn db w maxDepth edgeTypes)^[n] t := by
  induction n generalizing t with
  | zero => rfl
  | succ n ih =>
    obtain ⟨heq, hscoped⟩ := turn_scope maxDepth edgeTypes h
    rw [iterate_succ_apply, iterate_succ_apply, heq]
    exact ih hscoped

theorem traverse_scope (maxDepth : ℕ) {seed : Entity} (h : InScope db w seed) :
    traverse (scope db w) w maxDepth edgeTypes seed =
      traverse db w maxDepth edgeTypes seed := by
  have hmem : seed ∈ (scope db w).entities.rows := mem_scopedEntities_iff.2 h
  have hend : (traverse (scope db w) w maxDepth edgeTypes seed).frontier = [] :=
    frontier_traverse hmem
  have hle : (scope db w).entities.rows.length + 1 ≤ db.entities.rows.length + 1 :=
    Nat.succ_le_succ (length_filter_le _ _)
  have hscoped : FrontierScoped db w (initial seed) := fun x hx => by
    rw [mem_singleton.1 hx]
    exact isScoped_iff.2 ⟨seed, h, rfl⟩
  obtain ⟨k, hk⟩ := Nat.exists_eq_add_of_le' hle
  calc traverse (scope db w) w maxDepth edgeTypes seed
      = (turn (scope db w) w maxDepth edgeTypes)^[k]
          (traverse (scope db w) w maxDepth edgeTypes seed) :=
        (iterate_fixed (turn_nil hend) k).symm
    _ = (turn (scope db w) w maxDepth edgeTypes)^[db.entities.rows.length + 1]
          (initial seed) := by rw [hk, iterate_add_apply]; rfl
    _ = traverse db w maxDepth edgeTypes seed :=
        iterate_turn_scope _ _ hscoped

theorem getRelated_scope (entityName : String) (maxDepth : ℤ) :
    getRelated (scope db w) entityName w maxDepth edgeTypes =
      getRelated db entityName w maxDepth edgeTypes := by
  unfold getRelated
  rw [fetchEntityByName_scope]
  cases hseed : fetchEntityByName db w entityName with
  | none => rfl
  | some seed =>
    have hmem := mem_filter.1 (List.mem_of_mem_head? hseed)
    rw [Bool.and_eq_true] at hmem
    have hscope : InScope db w seed :=
      mem_scopedEntities_iff.1 (mem_filter.2 ⟨hmem.1, hmem.2.2⟩)
    simp only [traverse_scope _ hscope, entityNode_scope hscope]

/-- Graph queries do not leak: databases that agree on the scope of a workspace give it the same
answer, or the same error. -/
theorem getRelated_eq_of_agree (h : AgreeOn workspaceId db db') (entityName : String)
    (maxDepth : ℤ) (edgeTypes : Option (List String)) :
    getRelated db entityName workspaceId maxDepth edgeTypes =
      getRelated db' entityName workspaceId maxDepth edgeTypes := by
  calc getRelated db entityName workspaceId maxDepth edgeTypes
      = getRelated (scope db workspaceId) entityName workspaceId maxDepth edgeTypes :=
        (getRelated_scope entityName maxDepth).symm
    _ = getRelated (scope db' workspaceId) entityName workspaceId maxDepth edgeTypes := by
        rw [scope_eq_of_agree h]
    _ = getRelated db' entityName workspaceId maxDepth edgeTypes :=
        getRelated_scope entityName maxDepth

/-- Two entities of the workspace `1` with an edge between them. -/
def ownRows : Database BitVec.toNat where
  sources := ⟨[⟨1, some 1⟩], by decide⟩
  entities := ⟨[⟨1, 1, "service", "api", "API", some 1⟩,
    ⟨2, 1, "service", "db", "DB", none⟩], by decide⟩
  edges := ⟨[⟨1, 1, 2, "calls"⟩], by decide⟩
  chunks := ⟨[⟨1, "class Api"⟩], by decide⟩

/-- The same with an entity of the workspace `2`, and edges planted between the two. -/
def plantedRows : Database BitVec.toNat where
  sources := ⟨[⟨1, some 1⟩, ⟨2, some 2⟩], by decide⟩
  entities := ⟨[⟨1, 1, "service", "api", "API", some 1⟩,
    ⟨2, 1, "service", "db", "DB", none⟩,
    ⟨3, 2, "service", "api", "API", some 2⟩], by decide⟩
  edges := ⟨[⟨1, 1, 2, "calls"⟩, ⟨2, 2, 3, "calls"⟩, ⟨3, 3, 1, "calls"⟩], by decide⟩
  chunks := ⟨[⟨1, "class Api"⟩, ⟨2, "secret"⟩], by decide⟩

theorem scopedEntities_planted : scopedEntities plantedRows 1 = ownRows.entities.rows := by decide

theorem agreeOn_planted : AgreeOn 1 plantedRows ownRows where
  sources source htenant := by
    show source ∈ ownRows.sources.rows ++ [⟨2, some 2⟩] ↔ source ∈ ownRows.sources.rows
    rw [mem_append]
    refine or_iff_left fun h => ?_
    obtain rfl := mem_singleton.1 h
    exact absurd htenant (by decide)
  entities source hsource htenant entity hid := by
    show entity ∈ ownRows.entities.rows ++ [⟨3, 2, "service", "api", "API", some 2⟩] ↔
      entity ∈ ownRows.entities.rows
    rw [mem_append]
    refine or_iff_left fun h => ?_
    obtain rfl := mem_singleton.1 h
    have hforeign : ∀ s ∈ plantedRows.sources.rows, s.tenantId = some 1 ∨ s.tenantId = none →
        (2 : Uuid) ≠ s.id := by decide
    exact hforeign source hsource htenant hid
  edges a b ha hb edge hsource htarget := by
    rw [← mem_scopedEntities_iff, scopedEntities_planted] at ha hb
    show edge ∈ ownRows.edges.rows ++ [⟨2, 2, 3, "calls"⟩, ⟨3, 3, 1, "calls"⟩] ↔
      edge ∈ ownRows.edges.rows
    rw [mem_append]
    refine or_iff_left fun h => ?_
    have hown : ∀ c ∈ ownRows.entities.rows, c.id ≠ 3 := by decide
    have hplanted : ∀ e ∈ ([⟨2, 2, 3, "calls"⟩, ⟨3, 3, 1, "calls"⟩] : List Edge),
        e.sourceEntityId = 3 ∨ e.targetEntityId = 3 := by decide
    obtain h3 | h3 := hplanted edge h
    · exact hown a ha (hsource.symm.trans h3)
    · exact hown b hb (htarget.symm.trans h3)
  chunks entity hentity chunk hchunk := by
    rw [← mem_scopedEntities_iff, scopedEntities_planted] at hentity
    show chunk ∈ ownRows.chunks.rows ++ [⟨2, "secret"⟩] ↔ chunk ∈ ownRows.chunks.rows
    rw [mem_append]
    refine or_iff_left fun h => ?_
    obtain rfl := mem_singleton.1 h
    have hown : ∀ c ∈ ownRows.entities.rows, c.chunkId ≠ some 2 := by decide
    exact hown entity hentity hchunk

theorem getRelated_eq_of_agree_planted : AgreeOn 1 plantedRows ownRows ∧
      getRelated plantedRows "api" 1 3 none = getRelated ownRows "api" 1 3 none :=
  ⟨agreeOn_planted, getRelated_eq_of_agree agreeOn_planted "api" 3 none⟩

end Omniscience.GraphQuery
