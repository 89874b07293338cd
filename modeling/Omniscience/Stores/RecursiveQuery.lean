import Omniscience.Retrieval.GraphQuery

/-!
# The recursive query of the Lite mode

`PostgresOnlyStore.traverse` (`stores/postgres_only_store.py`) walks the edges with a recursive
query.  Each turn joins the rows of the last one with the edges that leave them; `UNION ALL` keeps an
entity at every depth that it is reached at, and `DISTINCT ON` the least of these.

* `reports_traverse` : the answer reports the walks along outgoing edges.
-/

namespace Omniscience.RecursiveQuery

open GraphQuery List

/-! ### What the graph stores answer -/

/-- An entity as a traversal shows it. -/
structure EntityNodeView where
  id : Uuid
  name : String
  kind : String
  source : String
  chunkText : Option String
  depth : ℕ := 0
  edgeType : Option String := none
  displayName : Option String := none
  deriving DecidableEq

structure GraphEdgeView where
  fromEntity : String
  toEntity : String
  edgeType : String
  deriving DecidableEq

structure GraphResultView where
  seed : EntityNodeView
  related : List EntityNodeView
  edges : List GraphEdgeView
  deriving DecidableEq

/-- The entities that a result reports, each with its depth. -/
def GraphResultView.report (result : GraphResultView) : List (Uuid × ℕ) :=
  result.related.map fun node => (node.id, node.depth)

variable {rank : Uuid → ℕ}

/-! ### The statement -/

/-- `tenant_id = :workspace_id`, which null does not satisfy. -/
def isTenant (workspaceId : Uuid) (source : Source) : Bool := source.tenantId = some workspaceId

/-- `WITH RECURSIVE … UNION ALL`: the rows of all turns, of which there are `n` at most. -/
def recursiveUnion {R : Type*} (step : List R → List R) : ℕ → List R → List R
  | 0, _ => []
  | n + 1, working => working ++ recursiveUnion step n (step working)

/-- The recursive member of `traverse_cte`. -/
def traverseStep (db : Database rank) (workspaceId : Uuid) (maxDepth : ℤ)
    (edgeTypes : Option (List String)) (working : List (Entity × ℕ)) : List (Entity × ℕ) :=
  (working.filter fun tc => (tc.2 : ℤ) < maxDepth).flatMap fun tc =>
    (joinFar db (isTenant workspaceId) edgeTypes Edge.sourceEntityId Edge.targetEntityId
      tc.1.id).map fun hop => (hop.2, tc.2 + 1)

/-- `traverse_cte`.  No row is deeper than `maxDepth`, so that its turns are over after that. -/
def traverseCte (db : Database rank) (workspaceId : Uuid) (maxDepth : ℤ)
    (edgeTypes : Option (List String)) (seedId : Uuid) : List (Entity × ℕ) :=
  recursiveUnion (traverseStep db workspaceId maxDepth edgeTypes) (maxDepth.toNat + 1)
    ((db.entities.rows.filter fun entity => entity.id = seedId).map fun entity => (entity, 0))

/-- `DISTINCT ON`: the first row with each key. -/
def distinctOn {R K : Type*} [DecidableEq K] (key : R → K) : List R → List R
  | [] => []
  | row :: rows => row :: (distinctOn key rows).filter fun other => key other ≠ key row

/-- `ORDER BY id, depth ASC`. -/
def byIdAndDepth (a b : Entity × ℕ) : Prop :=
  a.1.id.toNat < b.1.id.toNat ∨ a.1.id.toNat = b.1.id.toNat ∧ a.2 ≤ b.2

instance : DecidableRel byIdAndDepth := fun a b =>
  inferInstanceAs (Decidable (a.1.id.toNat < b.1.id.toNat ∨
    a.1.id.toNat = b.1.id.toNat ∧ a.2 ≤ b.2))

/-- The rows of the first statement. -/
def selectNodes (db : Database rank) (workspaceId : Uuid) (maxDepth : ℤ)
    (edgeTypes : Option (List String)) (seedId : Uuid) : List (Entity × ℕ) :=
  distinctOn (fun row => row.1.id)
    ((traverseCte db workspaceId maxDepth edgeTypes seedId).insertionSort byIdAndDepth)

/-- The edges between the nodes, with the names of their ends. -/
def selectEdges (db : Database rank) (nodeIds : List Uuid) : List GraphEdgeView :=
  (db.edges.rows.filter fun edge => nodeIds.contains edge.sourceEntityId &&
    nodeIds.contains edge.targetEntityId).flatMap fun edge =>
      (db.entities.rows.filter fun src => src.id = edge.sourceEntityId).flatMap fun src =>
        (db.entities.rows.filter fun tgt => tgt.id = edge.targetEntityId).map fun tgt =>
          ⟨src.name, tgt.name, edge.edgeType⟩

/-- The view of a row. -/
def nodeView (db : Database rank) (row : Entity × ℕ) : EntityNodeView where
  id := row.1.id
  name := row.1.name
  kind := row.1.entityType
  source := row.1.sourceId.str
  chunkText := fetchChunkText db row.1.chunkId
  depth := row.2
  displayName := some row.1.displayName

/-- The first entity of the workspace with the name. -/
def findSeed (db : Database rank) (workspaceId : Uuid) (entityName : String) : Option Entity :=
  (db.entities.rows.filter fun entity => entity.name = entityName &&
    joinsSource db (isTenant workspaceId) entity).head?

/-- `PostgresOnlyStore.traverse`; the error is the text of the `ValueError`. -/
def traverse (db : Database rank) (entityName : String) (workspaceId : Uuid) (maxDepth : ℤ)
    (edgeTypes : Option (List String)) : Except String GraphResultView :=
  match findSeed db workspaceId entityName with
  | none => .error ("entity_not_found:" ++ entityName)
  | some seed =>
    let rows := (selectNodes db workspaceId maxDepth edgeTypes seed.id).filter fun row =>
      row.1.id ≠ seed.id
    .ok ⟨nodeView db (seed, 0), rows.map (nodeView db),
      selectEdges db (seed.id :: rows.map fun row => row.1.id)⟩

/-! ### Its rows -/

theorem mem_recursiveUnion_iff {R : Type*} {step : List R → List R} {n : ℕ} {working : List R}
    {row : R} : row ∈ recursiveUnion step n working ↔ ∃ m < n, row ∈ step^[m] working := by
  induction n generalizing working with
  | zero => simp [recursiveUnion]
  | succ n ih =>
    rw [recursiveUnion, mem_append, ih]
    constructor
    · rintro (h | ⟨m, hm, h⟩)
      · exact ⟨0, Nat.succ_pos n, h⟩
      · exact ⟨m + 1, Nat.succ_lt_succ hm, h⟩
    · rintro ⟨m, hm, h⟩
      cases m with
      | zero => exact .inl h
      | succ m => exact .inr ⟨m, Nat.lt_of_succ_lt_succ hm, h⟩

theorem exists_mem_distinctOn {R K : Type*} [DecidableEq K] (key : R → K) {before : R → R → Prop}
    (hrefl : ∀ row, before row row) {rows : List R} (hsorted : rows.Pairwise before) {row : R}
    (h : row ∈ rows) : ∃ kept ∈ distinctOn key rows, key kept = key row ∧ before kept row := by
  induction rows with
  | nil => exact absurd h not_mem_nil
  | cons first rows ih =>
    rw [distinctOn]
    by_cases hkey : key row = key first
    · obtain rfl | hin := mem_cons.1 h
      · exact ⟨row, mem_cons_self, rfl, hrefl row⟩
      · exact ⟨first, mem_cons_self, hkey.symm, rel_of_pairwise_cons hsorted hin⟩
    · have hin : row ∈ rows := (mem_cons.1 h).resolve_left fun heq => hkey (heq ▸ rfl)
      obtain ⟨kept, hkept, heq, hbefore⟩ := ih hsorted.of_cons hin
      refine ⟨kept, mem_cons_of_mem _ (mem_filter.2 ⟨hkept, ?_⟩), heq, hbefore⟩
      exact decide_eq_true (heq ▸ hkey)

theorem mem_of_mem_distinctOn {R K : Type*} [DecidableEq K] {key : R → K} {rows : List R} {row : R}
    (h : row ∈ distinctOn key rows) : row ∈ rows := by
  induction rows with
  | nil => exact absurd h not_mem_nil
  | cons first rows ih =>
    obtain rfl | h := mem_cons.1 h
    · exact mem_cons_self
    · exact mem_cons_of_mem _ (ih (mem_filter.1 h).1)

instance : Std.Total byIdAndDepth := ⟨fun a b => by
  obtain h | h | h := lt_trichotomy a.1.id.toNat b.1.id.toNat
  · exact .inl (.inl h)
  · exact (le_total a.2 b.2).imp (fun hle => .inr ⟨h, hle⟩) fun hle => .inr ⟨h.symm, hle⟩
  · exact .inr (.inl h)⟩

instance : IsTrans (Entity × ℕ) byIdAndDepth := ⟨fun a b c hab hbc => by
  obtain hab | ⟨hab, hle⟩ := hab
  · obtain hbc | ⟨hbc, -⟩ := hbc
    · exact .inl (lt_trans hab hbc)
    · exact .inl (hbc ▸ hab)
  · obtain hbc | ⟨hbc, hle'⟩ := hbc
    · exact .inl (hab ▸ hbc)
    · exact .inr ⟨hab.trans hbc, hle.trans hle'⟩⟩

variable {db : Database rank} {workspaceId w : Uuid} {maxDepth : ℤ} {edgeTypes : Option (List String)}
  {seedId : Uuid}

/-- An edge leads from one id to an entity of the workspace with the other. -/
def Outgoing (db : Database rank) (workspaceId : Uuid) (edgeTypes : Option (List String))
    (a b : Uuid) : Prop :=
  ∃ hop ∈ joinFar db (isTenant workspaceId) edgeTypes Edge.sourceEntityId Edge.targetEntityId a,
    hop.2.id = b

theorem mem_traverseStep_iff {working : List (Entity × ℕ)} {entity : Entity} {depth : ℕ} :
    (entity, depth) ∈ traverseStep db w maxDepth edgeTypes working ↔
      ∃ tc ∈ working, (tc.2 : ℤ) < maxDepth ∧ depth = tc.2 + 1 ∧ ∃ edge, (edge, entity) ∈
        joinFar db (isTenant w) edgeTypes Edge.sourceEntityId Edge.targetEntityId
          tc.1.id := by
  simp only [traverseStep, mem_flatMap, mem_filter, decide_eq_true_eq, mem_map, Prod.mk.injEq]
  constructor
  · rintro ⟨tc, ⟨htc, hlt⟩, hop, hhop, rfl, rfl⟩
    exact ⟨tc, htc, hlt, rfl, hop.1, hhop⟩
  · rintro ⟨tc, htc, hlt, rfl, edge, hhop⟩
    exact ⟨tc, ⟨htc, hlt⟩, (edge, entity), hhop, rfl, rfl⟩

/-- The rows of the first member. -/
def seedRows (db : Database rank) (seedId : Uuid) : List (Entity × ℕ) :=
  (db.entities.rows.filter fun entity => entity.id = seedId).map fun entity => (entity, 0)

theorem mem_seedRows_iff {entity : Entity} {depth : ℕ} : (entity, depth) ∈ seedRows db seedId ↔
      entity ∈ db.entities.rows ∧ entity.id = seedId ∧ depth = 0 := by
  simp only [seedRows, mem_map, mem_filter, decide_eq_true_eq, Prod.mk.injEq]
  constructor
  · rintro ⟨e, ⟨hmem, hid⟩, rfl, rfl⟩
    exact ⟨hmem, hid, rfl⟩
  · rintro ⟨hmem, hid, rfl⟩
    exact ⟨entity, ⟨hmem, hid⟩, rfl, rfl⟩

theorem walk_of_mem_iterate {m : ℕ} {entity : Entity} {depth : ℕ}
    (h : (entity, depth) ∈
      (traverseStep db w maxDepth edgeTypes)^[m] (seedRows db seedId)) :
    depth = m ∧ m ≤ maxDepth.toNat ∧
      Walk (Outgoing db w edgeTypes) seedId m entity.id := by
  induction m generalizing entity depth with
  | zero =>
    obtain ⟨-, rfl, rfl⟩ := mem_seedRows_iff.1 h
    exact ⟨rfl, Nat.zero_le _, .nil⟩
  | succ m ih =>
    rw [Function.iterate_succ_apply'] at h
    obtain ⟨⟨e, d⟩, htc, hlt, rfl, edge, hhop⟩ := mem_traverseStep_iff.1 h
    obtain ⟨rfl, -, hwalk⟩ := ih htc
    exact ⟨rfl, by omega, hwalk.snoc ⟨(edge, entity), hhop, rfl⟩⟩

theorem exists_mem_iterate {m : ℕ} {v : Uuid} (hseed : ∃ e ∈ db.entities.rows, e.id = seedId)
    (hwalk : Walk (Outgoing db w edgeTypes) seedId m v) (hm : m ≤ maxDepth.toNat) :
    ∃ entity : Entity, entity.id = v ∧ (entity, m) ∈
      (traverseStep db w maxDepth edgeTypes)^[m] (seedRows db seedId) := by
  induction hwalk with
  | nil =>
    obtain ⟨e, hmem, hid⟩ := hseed
    exact ⟨e, hid, mem_seedRows_iff.2 ⟨hmem, hid, rfl⟩⟩
  | @snoc m u v _ hstep ih =>
    obtain ⟨e, rfl, htc⟩ := ih (by omega)
    obtain ⟨⟨edge, entity⟩, hhop, rfl⟩ := hstep
    refine ⟨entity, rfl, ?_⟩
    rw [Function.iterate_succ_apply']
    exact mem_traverseStep_iff.2 ⟨(e, m), htc, by omega, rfl, edge, hhop⟩

theorem walk_of_mem_traverseCte {entity : Entity} {depth : ℕ}
    (h : (entity, depth) ∈ traverseCte db w maxDepth edgeTypes seedId) :
    depth ≤ maxDepth.toNat ∧
      Walk (Outgoing db w edgeTypes) seedId depth entity.id := by
  obtain ⟨m, -, hmem⟩ := mem_recursiveUnion_iff.1 h
  obtain ⟨rfl, hle, hwalk⟩ := walk_of_mem_iterate hmem
  exact ⟨hle, hwalk⟩

theorem exists_mem_traverseCte {m : ℕ} {v : Uuid} (hseed : ∃ e ∈ db.entities.rows, e.id = seedId)
    (hwalk : Walk (Outgoing db w edgeTypes) seedId m v) (hm : m ≤ maxDepth.toNat) :
    ∃ entity : Entity, entity.id = v ∧
      (entity, m) ∈ traverseCte db w maxDepth edgeTypes seedId := by
  obtain ⟨entity, hid, hmem⟩ := exists_mem_iterate hseed hwalk hm
  exact ⟨entity, hid, mem_recursiveUnion_iff.2 ⟨m, Nat.lt_succ_of_le hm, hmem⟩⟩

theorem reports_traverse {entityName : String} {seed : Entity}
    (hseed : findSeed db w entityName = some seed) :
    ∃ result, traverse db entityName w maxDepth edgeTypes = .ok result ∧
      Reports (Outgoing db w edgeTypes) seed.id maxDepth.toNat (fun _ => True)
        result.report := by
  have hmem : ∃ e ∈ db.entities.rows, e.id = seed.id :=
    ⟨seed, (mem_filter.1 (List.mem_of_mem_head? hseed)).1, rfl⟩
  unfold traverse
  rw [hseed]
  refine ⟨_, rfl, fun v n hreport => ?_, fun v k hne _ hk hleast => ?_⟩
  · obtain ⟨node, hnode, heq⟩ := mem_map.1 hreport
    obtain ⟨⟨entity, depth⟩, hrow, rfl⟩ := mem_map.1 hnode
    obtain ⟨rfl, rfl⟩ := Prod.mk.inj heq
    obtain ⟨hselect, hother⟩ := mem_filter.1 hrow
    obtain ⟨hle, hwalk⟩ := walk_of_mem_traverseCte
      ((mem_insertionSort byIdAndDepth).1 (mem_of_mem_distinctOn hselect))
    exact ⟨of_decide_eq_true hother, trivial, hle, hwalk⟩
  · obtain ⟨entity, rfl, hcte⟩ := exists_mem_traverseCte hmem hleast.1 hk
    obtain ⟨⟨kept, depth⟩, hkept, hid, hbefore⟩ :=
      exists_mem_distinctOn (fun row : Entity × ℕ => row.1.id) (fun row => .inr ⟨rfl, le_rfl⟩)
        (pairwise_insertionSort byIdAndDepth _) ((mem_insertionSort byIdAndDepth).2 hcte)
    simp only at hid
    have hdepth : depth ≤ k := by
      obtain hlt | ⟨-, hle⟩ := hbefore
      · rw [hid] at hlt
        exact absurd hlt (lt_irrefl _)
      · exact hle
    obtain ⟨-, hwalk⟩ := walk_of_mem_traverseCte
      ((mem_insertionSort byIdAndDepth).1 (mem_of_mem_distinctOn hkept))
    obtain rfl : depth = k := le_antisymm hdepth (hleast.2 (hid ▸ hwalk))
    refine mem_map.2 ⟨nodeView db (kept, depth), mem_map_of_mem (mem_filter.2
      ⟨hkept, decide_eq_true (hid ▸ hne)⟩), ?_⟩
    exact Prod.ext hid rfl

end Omniscience.RecursiveQuery
