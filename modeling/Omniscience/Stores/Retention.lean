import Omniscience.Stores.Cypher
import Omniscience.Stores.VectorRetention

/-!
# The retention statements

The graph side of `RetentionWorker`.  `mark_hot_to_warm` tags the closed states and relationships
that were recorded before the hot cutoff, `move_hot_to_warm` turns what is tagged into daily
snapshots, one for each entity and day and one for each edge and day, and the archive phase reads
and deletes the snapshots of a day.

Several states of an entity on one day collapse into one snapshot.  The statement that does it
assigns nine properties under the condition that the new state starts later than the snapshot, and
the first of the nine is the start.  From the second on the condition is false.  So the snapshot
has the latest start and everything else from the state that came first, and an edge snapshot, which
has no such branch, is the first relationship (`snapshotFields_moveStates`, `moveEdges_spec`).
-/

namespace Omniscience.Cypher

open Qdrant (dayOf)
open List
open PropertyGraph

/-! ### Comparing times -/

/-- How the server evaluates `<` and `=` of two times: whether the result is true. -/
structure Engine where
  lt : Time → Time → Bool
  eq : Time → Time → Bool

/-- Cypher's own comparison, which is never true between a temporal value and a text. -/
def Engine.typed : Engine where
  lt
    | .text a, .text b => a < b
    | .datetime a, .datetime b => a < b
    | .dateText a, .dateText b => a < b
    | .date a, .date b => a < b
    | _, _ => false
  eq a b := a = b

/-- `date(datetime(t))`. -/
def Time.day : Time → ℕ
  | .text moment => dayOf moment
  | .datetime moment => dayOf moment
  | .dateText day => day
  | .date day => day

variable (engine : Engine)

/-! ### Mark -/

/-- The state is closed, was recorded before the cutoff and is not tagged. -/
def Node.isMarkable (n : Node) (workspaceId : Uuid) (cutoff : Time) : Bool :=
  n.isIn .entityState workspaceId && n.recordedAt.any (engine.lt · cutoff) && n.validTo.isSome &&
    !n.tierPending

/-- `_MARK_HOT_TO_WARM_ENTITY_STATE`. -/
def markStates (workspaceId : Uuid) (cutoff : Time) (batchSize : ℕ) (g : Graph) :
    Option (Graph × ℕ) :=
  let batch := (g.refs (·.isMarkable engine workspaceId cutoff)).take batchSize
  some (g.setNodes fun i n => if i ∈ batch then { n with tierPending := true } else n, batch.length)

/-- The same for a relationship. -/
def Rel.isMarkable (r : Rel) (workspaceId : Uuid) (cutoff : Time) : Bool :=
  r.workspaceId = some workspaceId && r.recordedAt.any (engine.lt · cutoff) && r.validTo.isSome &&
    !r.tierPending

/-- `_MARK_HOT_TO_WARM_EDGE`. -/
def markEdges (workspaceId : Uuid) (cutoff : Time) (batchSize : ℕ) (g : Graph) :
    Option (Graph × ℕ) :=
  some (g.setFirstRels (·.data.isMarkable engine workspaceId cutoff)
    (fun r => { r.data with tierPending := true }) batchSize,
    min batchSize (g.rels.countP fun r => r.data.isMarkable engine workspaceId cutoff))

/-- `Neo4jGraphStore.mark_hot_to_warm`; the parameter is the text of the cutoff. -/
def markHotToWarm (workspaceId : Uuid) (hotCutoff batchSize fuel : ℕ) (g : Graph) : Graph × Bool :=
  loopAll [markStates engine workspaceId (.text hotCutoff) batchSize,
    markEdges engine workspaceId (.text hotCutoff) batchSize] fuel g

/-! ### Move -/

/-- The snapshot of the entity on the day. -/
def Node.isEntitySnapshot (n : Node) (workspaceId id : Uuid) (day : ℕ) : Bool :=
  n.isIn .entitySnapshot workspaceId && n.id = some id && n.snapshotDate = some (.date day)

/-- The snapshot that a state makes. -/
def Node.snapshot (s : Node) (day : ℕ) : Node where
  label := .entitySnapshot
  workspaceId := s.workspaceId
  id := s.id
  snapshotDate := some (.date day)
  validFrom := s.validFrom
  validTo := s.validTo
  recordedAt := s.recordedAt
  kind := s.kind
  name := s.name
  displayName := s.displayName
  sourceId := s.sourceId
  chunkId := s.chunkId
  metadata := s.metadata

/-- `a > b`, which is not true of a null. -/
def isAfter (a b : Option Time) : Bool :=
  match a, b with
  | some a, some b => engine.lt b a
  | _, _ => false

/-- `s.valid_from > snap.valid_from`. -/
def startsAfter (s snap : Node) : Bool := isAfter engine s.validFrom snap.validFrom

/-- The `ON MATCH SET` of `_MOVE_HOT_TO_WARM_ENTITY_STATE`: the items are assigned one by one, and
each condition reads the snapshot as the items before it have left it. -/
def Node.collapse (s snap : Node) : Node :=
  let snap := { snap with
    validFrom := if startsAfter engine s snap then s.validFrom else snap.validFrom }
  let snap := { snap with validTo := if startsAfter engine s snap then s.validTo else snap.validTo }
  let snap := { snap with
    recordedAt := if startsAfter engine s snap then s.recordedAt else snap.recordedAt }
  let snap := { snap with kind := if startsAfter engine s snap then s.kind else snap.kind }
  let snap := { snap with name := if startsAfter engine s snap then s.name else snap.name }
  let snap := { snap with
    displayName := if startsAfter engine s snap then s.displayName else snap.displayName }
  let snap := { snap with
    sourceId := if startsAfter engine s snap then s.sourceId else snap.sourceId }
  let snap := { snap with chunkId := if startsAfter engine s snap then s.chunkId else snap.chunkId }
  { snap with metadata := if startsAfter engine s snap then s.metadata else snap.metadata }

/-- The row of `_MOVE_HOT_TO_WARM_ENTITY_STATE` for a state, up to its deletion; `MERGE` raises
where a property of its key is null. -/
def moveState (g : Graph) (i : ℕ) : Option Graph := do
  let s ← g.nodes.get? i
  let workspaceId ← s.workspaceId
  let id ← s.id
  let recordedAt ← s.recordedAt
  return g.mergeNode (·.isEntitySnapshot workspaceId id recordedAt.day)
    (s.snapshot recordedAt.day) (s.collapse engine)

/-- The state is tagged. -/
def Node.isPending (n : Node) (workspaceId : Uuid) : Bool :=
  n.isIn .entityState workspaceId && n.tierPending

/-- `_MOVE_HOT_TO_WARM_ENTITY_STATE`. -/
def moveStates (workspaceId : Uuid) (batchSize : ℕ) (g : Graph) : Option (Graph × ℕ) := do
  let batch := (g.refs (·.isPending workspaceId)).take batchSize
  let moved ← batch.foldlM (moveState engine) g
  return (moved.detachDelete (· ∈ batch), batch.length)

/-- The snapshot of the edge on the day. -/
def Node.isRelationshipSnapshot (n : Node) (workspaceId source target : Uuid) (edgeType : String)
    (day : ℕ) : Bool :=
  n.isIn .relationshipSnapshot workspaceId && n.sourceEntityId = some source &&
    n.targetEntityId = some target && n.edgeType = some edgeType &&
    n.snapshotDate = some (.date day)

/-- The snapshot that a relationship makes. -/
def Rel.snapshot (r : Rel) (source target : Uuid) (day : ℕ) : Node where
  label := .relationshipSnapshot
  workspaceId := r.workspaceId
  sourceEntityId := some source
  targetEntityId := some target
  edgeType := r.edgeType
  snapshotDate := some (.date day)
  validFrom := r.validFrom
  validTo := r.validTo
  recordedAt := r.recordedAt
  sourceId := r.sourceId
  metadata := r.metadata

/-- The row of `_MOVE_HOT_TO_WARM_EDGE` for a relationship, up to its deletion. -/
def moveEdge (g : Graph) (r : Arc Rel) : Option Graph := do
  let workspaceId ← r.data.workspaceId
  let source ← (← g.nodes.get? r.source).id
  let target ← (← g.nodes.get? r.target).id
  let edgeType ← r.data.edgeType
  let recordedAt ← r.data.recordedAt
  return g.mergeNode (·.isRelationshipSnapshot workspaceId source target edgeType recordedAt.day)
    (r.data.snapshot source target recordedAt.day) fun snap => snap

/-- The node is an entity, of whatever workspace. -/
def Node.isAnyEntity (n : Node) : Bool := n.label = .entity

/-- The relationship is tagged and joins two entities. -/
def isPendingEdge (g : Graph) (workspaceId : Uuid) (r : Arc Rel) : Bool :=
  r.data.workspaceId = some workspaceId && r.data.tierPending && g.has Node.isAnyEntity r.source &&
    g.has Node.isAnyEntity r.target

/-- `_MOVE_HOT_TO_WARM_EDGE`. -/
def moveEdges (workspaceId : Uuid) (batchSize : ℕ) (g : Graph) : Option (Graph × ℕ) := do
  let batch := (g.rels.filter (isPendingEdge g workspaceId)).take batchSize
  let moved ← batch.foldlM moveEdge g
  return (moved.deleteFirstRels (isPendingEdge g workspaceId) batchSize, batch.length)

/-- `Neo4jGraphStore.move_hot_to_warm`. -/
def moveHotToWarm (workspaceId : Uuid) (batchSize fuel : ℕ) (g : Graph) : Graph × Bool :=
  loopAll [moveStates engine workspaceId batchSize, moveEdges workspaceId batchSize] fuel g

/-! ### Archive -/

/-- `list_warm_to_archive_dates`: the days of the entity snapshots before the cutoff, in order; the
parameter is the text of the cutoff. -/
def listWarmToArchiveDates (workspaceId : Uuid) (warmCutoffDate limit : ℕ) (g : Graph) : List ℕ :=
  let days := g.nodes.items.filterMap fun item =>
    if item.2.isIn .entitySnapshot workspaceId &&
        item.2.snapshotDate.any (engine.lt · (.dateText warmCutoffDate)) then
      item.2.snapshotDate.map Time.day
    else none
  (days.dedup.mergeSort (· ≤ ·)).take limit

/-- The node is a snapshot of the kind that the `$snapshot_date` of a statement matches; the
parameter is a text. -/
def Node.isWarmRow (n : Node) (label : Label) (workspaceId : Uuid) (day : ℕ) : Bool :=
  n.isIn label workspaceId && n.snapshotDate.any (engine.eq · (.dateText day))

/-- `fetch_warm_snapshot_rows`, the nodes behind the rows: entities and relationships. -/
def fetchWarmSnapshotRows (workspaceId : Uuid) (day : ℕ) (g : Graph) : List Node × List Node :=
  let rows (label : Label) :=
    (g.nodes.items.filter fun item => item.2.isWarmRow engine label workspaceId day).map Prod.snd
  (rows .entitySnapshot, rows .relationshipSnapshot)

/-- `_DELETE_WARM_ENTITY_SNAPSHOT`. -/
def deleteWarmEntitySnapshot (workspaceId : Uuid) (day : ℕ) (g : Graph) : Graph :=
  g.detachDelete (g.has (·.isWarmRow engine .entitySnapshot workspaceId day))

/-- `_DELETE_WARM_RELATIONSHIP_SNAPSHOT`, which does not detach: it raises if a relationship holds
one of the nodes. -/
def deleteWarmRelationshipSnapshot (workspaceId : Uuid) (day : ℕ) (g : Graph) : Option Graph :=
  let doomed := g.has (·.isWarmRow engine .relationshipSnapshot workspaceId day)
  if g.rels.any fun r => doomed r.source || doomed r.target then none
  else some (g.detachDelete doomed)

/-! ### What a state does to the snapshots -/

/-- The engine does not put a time before itself. -/
def Engine.IsIrrefl : Prop := ∀ t, engine.lt t t = false

theorem isIrrefl_typed : Engine.typed.IsIrrefl := by
  intro t
  cases t with
  | text m => exact decide_eq_false (lt_irrefl m)
  | datetime m => exact decide_eq_false (lt_irrefl m)
  | dateText d => exact decide_eq_false (lt_irrefl d)
  | date d => exact decide_eq_false (lt_irrefl d)

variable {engine}

theorem collapse_eq (h : engine.IsIrrefl) (s snap : Node) :
    s.collapse engine snap = { snap with
      validFrom := if startsAfter engine s snap then s.validFrom else snap.validFrom } := by
  by_cases hafter : startsAfter engine s snap = true
  · have hself : ∀ snap' : Node, snap'.validFrom = s.validFrom →
        startsAfter engine s snap' = false := by
      intro snap' hsnap'
      rw [startsAfter, hsnap']
      cases s.validFrom with
      | none => rfl
      | some start => exact h start
    simp [Node.collapse, hafter, hself]
  · rw [Bool.not_eq_true] at hafter
    simp [Node.collapse, hafter]

variable (engine) in
/-- The later of two starts. -/
def laterStart (start : Option Time) (s : Node) : Option Time :=
  if isAfter engine s.validFrom start then s.validFrom else start

theorem foldl_collapse (h : engine.IsIrrefl) (states : List Node) (snap : Node) :
    states.foldl (fun snap s => s.collapse engine snap) snap =
      { snap with validFrom := states.foldl (laterStart engine) snap.validFrom } := by
  induction states generalizing snap with
  | nil => rfl
  | cons s states ih =>
    rw [foldl_cons, ih, collapse_eq h, foldl_cons]
    rfl

/-- The snapshot that a state makes, with the day of its `recorded_at`. -/
def Node.asSnapshot (s : Node) : Node :=
  { s.snapshot 0 with snapshotDate := s.recordedAt.map fun t => .date t.day }

/-- The entity and the day of a state. -/
def Node.stateKey (s : Node) : Option Uuid × Option Time :=
  (s.id, s.recordedAt.map fun t => .date t.day)

/-- The entity and the day of a snapshot. -/
def Node.snapshotKey (snap : Node) : Option Uuid × Option Time := (snap.id, snap.snapshotDate)

variable (engine) in
/-- The snapshots after the states were moved, one after the other. -/
def collapseAll (states snapshots : List Node) : List Node :=
  mergeAll Node.stateKey Node.snapshotKey Node.asSnapshot (Node.collapse engine) states
    snapshots

theorem snapshotKey_asSnapshot (s : Node) : s.asSnapshot.snapshotKey = s.stateKey := rfl

theorem snapshotKey_collapse (h : engine.IsIrrefl) (s snap : Node) :
    (s.collapse engine snap).snapshotKey = snap.snapshotKey := by
  rw [collapse_eq h]
  rfl

/-- The node is no snapshot of an entity. -/
def Node.isNoSnapshot (n : Node) : Bool := n.label ≠ .entitySnapshot

/-- The snapshots of the entities of a workspace. -/
def snapshots (workspaceId : Uuid) (g : Graph) : List Node :=
  g.values (·.isIn .entitySnapshot workspaceId)

/-- The states of a workspace that wait to be moved. -/
def pendingStates (workspaceId : Uuid) (g : Graph) : List Node := g.values (·.isPending workspaceId)

variable {g g' : Graph}

theorem moveState_cases {i : ℕ} {s : Node} (hs : g.nodes.get? i = some s)
    (h : moveState engine g i = some g') :
    ∃ w id recordedAt, s.workspaceId = some w ∧ s.id = some id ∧
      s.recordedAt = some recordedAt ∧
      g' = g.mergeNode (·.isEntitySnapshot w id recordedAt.day)
        (s.snapshot recordedAt.day) (s.collapse engine) := by
  simp only [moveState, hs, Option.pure_def, Option.bind_eq_bind, Option.bind_some,
    Option.bind_eq_some_iff] at h
  obtain ⟨w, hws, id, hid, recordedAt, hrecorded, hg'⟩ := h
  exact ⟨w, id, recordedAt, hws, hid, hrecorded, (Option.some.inj hg').symm⟩

theorem mergeInto_congr {test test' : Node → Bool} {new : Node} {onMatch : Node → Node}
    {l : List Node} (h : ∀ n ∈ l, test n = test' n) :
    mergeInto test new onMatch l = mergeInto test' new onMatch l := by
  rw [mergeInto, mergeInto]
  have hany : l.any test = l.any test' := by
    rw [Bool.eq_iff_iff, any_eq_true, any_eq_true]
    exact exists_congr fun n => and_congr_right fun hn => by rw [h n hn]
  have hmap : (l.map fun n => if test n then onMatch n else n) =
      l.map fun n => if test' n then onMatch n else n :=
    map_congr_left fun n hn => by rw [h n hn]
  rw [hany, hmap]

section

variable {g g' : Graph} {i : ℕ} {s : Node} (hs : g.nodes.get? i = some s)
  (h : moveState engine g i = some g')

include hs h

theorem agree_moveState (hirrefl : engine.IsIrrefl) :
    Agree Node.isNoSnapshot (fun _ => true) g g' := by
  obtain ⟨w, id, recordedAt, -, -, -, rfl⟩ := moveState_cases hs h
  refine agree_mergeNode rfl (fun n hn => ?_) g
  have hlabel : n.label = .entitySnapshot := by
    simp only [Node.isEntitySnapshot, Node.isIn, Bool.and_eq_true, decide_eq_true_eq] at hn
    exact hn.1.1.1
  rw [collapse_eq hirrefl]
  simp [Node.isNoSnapshot, hlabel]

theorem snapshots_moveState (hirrefl : engine.IsIrrefl) {w : Uuid} (hws : s.workspaceId = some w) :
    snapshots w g' = collapseAll engine [s] (snapshots w g) := by
  obtain ⟨workspaceId', id, recordedAt, hws', hid, hrecorded, rfl⟩ := moveState_cases hs h
  obtain rfl : workspaceId' = w := Option.some.inj (hws'.symm.trans hws)
  have hnew : s.snapshot recordedAt.day = s.asSnapshot := by
    simp [Node.asSnapshot, Node.snapshot, hrecorded]
  rw [snapshots, values_mergeNode, hnew]
  · refine mergeInto_congr fun n hn => ?_
    obtain ⟨j, -, hin⟩ := mem_values.1 hn
    simp [Node.isEntitySnapshot, hin, Node.snapshotKey, Node.stateKey, hid, hrecorded]
  · simp [Node.isIn, Node.snapshot, hws']
  · intro n hn
    simp only [Node.isEntitySnapshot, Bool.and_eq_true] at hn
    refine ⟨hn.1.1, ?_⟩
    rw [collapse_eq hirrefl]
    exact hn.1.1

end

theorem collapseAll_append (states states' snapshots : List Node) :
    collapseAll engine (states ++ states') snapshots =
      collapseAll engine states' (collapseAll engine states snapshots) :=
  foldl_append

variable {workspaceId w : Uuid}

theorem isNoSnapshot_of_isPending {s : Node} (h : s.isPending w = true) :
    s.isNoSnapshot = true := by
  simp only [Node.isPending, Node.isIn, Bool.and_eq_true, decide_eq_true_eq] at h
  simp [Node.isNoSnapshot, h.1.1]

theorem foldlM_moveState (hirrefl : engine.IsIrrefl) {batch : List (ℕ × Node)}
    (hpending : ∀ item ∈ batch, item.2.isPending w = true)
    (hget : ∀ item ∈ batch, g.nodes.get? item.1 = some item.2)
    (h : (batch.map Prod.fst).foldlM (moveState engine) g = some g') :
    Agree Node.isNoSnapshot (fun _ => true) g g' ∧
      snapshots w g' =
        collapseAll engine (batch.map Prod.snd) (snapshots w g) ∧
      ∀ item ∈ batch, item.2.id.isSome = true ∧ item.2.recordedAt.isSome = true := by
  induction batch generalizing g with
  | nil =>
    cases h
    exact ⟨.refl _, rfl, by simp⟩
  | cons item batch ih =>
    rw [map_cons, foldlM_cons, Option.bind_eq_bind, Option.bind_eq_some_iff] at h
    obtain ⟨g₁, h₁, hrest⟩ := h
    have hs := hget item mem_cons_self
    have hagree := agree_moveState hs h₁ hirrefl
    -- the states of the other rows are still there
    obtain ⟨hagree', hsnapshots, hsome⟩ := ih
      (fun item' hitem' => hpending item' (mem_cons_of_mem _ hitem'))
      (fun item' hitem' => (hagree.get?_iff (isNoSnapshot_of_isPending
        (hpending item' (mem_cons_of_mem _ hitem')))).2
          (hget item' (mem_cons_of_mem _ hitem'))) hrest
    have hws : item.2.workspaceId = some w := by
      have hitem := hpending item mem_cons_self
      simp only [Node.isPending, Node.isIn, Bool.and_eq_true, decide_eq_true_eq] at hitem
      exact hitem.1.2
    refine ⟨hagree.trans hagree', ?_, fun item' hitem' => ?_⟩
    · rw [hsnapshots, snapshots_moveState hs h₁ hirrefl hws, map_cons]
      exact (collapseAll_append [item.2] (batch.map Prod.snd) _).symm
    · rcases mem_cons.1 hitem' with rfl | hitem'
      · obtain ⟨_, id, recordedAt, -, hid, hrecorded, -⟩ := moveState_cases hs h₁
        rw [hid, hrecorded]
        exact ⟨rfl, rfl⟩
      · exact hsome item' hitem'

/-- The relationship joins two entities. -/
def joinsEntities (g : Graph) (r : Arc Rel) : Bool :=
  g.has Node.isAnyEntity r.source && g.has Node.isAnyEntity r.target

/-- The node is neither a snapshot of an entity nor a state that waits to be moved. -/
def Node.isSettled (n : Node) (workspaceId : Uuid) : Bool :=
  n.isNoSnapshot && !n.isPending workspaceId

variable (engine) in
/-- The states have gone into snapshots, and nothing else has changed. -/
structure MovesStates (workspaceId : Uuid) (states : List Node) (g g' : Graph) : Prop where
  snapshots : snapshots workspaceId g' = collapseAll engine states (snapshots workspaceId g)
  settled : g'.matching (·.isSettled workspaceId) = g.matching (·.isSettled workspaceId)
  edges : g'.rels.filter (joinsEntities g') = g.rels.filter (joinsEntities g)
  dated : ∀ s ∈ states, s.id.isSome = true ∧ s.recordedAt.isSome = true

theorem MovesStates.trans {states states' : List Node} {g g' g'' : Graph}
    (h : MovesStates engine w states g g') (h' : MovesStates engine w states' g' g'') :
    MovesStates engine w (states ++ states') g g'' where
  snapshots := by rw [h'.snapshots, h.snapshots, collapseAll_append]
  settled := h'.settled.trans h.settled
  edges := h'.edges.trans h.edges
  dated s hs := (mem_append.1 hs).elim (h.dated s) (h'.dated s)

theorem isSettled_of_isAnyEntity {n : Node} (h : n.isAnyEntity = true) (w : Uuid) :
    n.isSettled w = true := by
  rw [Node.isAnyEntity, decide_eq_true_eq] at h
  simp [Node.isSettled, Node.isNoSnapshot, Node.isPending, Node.isIn, h]

theorem has_isAnyEntity_congr (h : g'.matching (·.isSettled w) = g.matching (·.isSettled w)) :
    g'.has Node.isAnyEntity = g.has Node.isAnyEntity := by
  have hagree : Agree (·.isSettled w) (fun _ => false) g g' := ⟨h, by simp⟩
  funext i
  rw [Bool.eq_iff_iff, ← mem_refs, ← mem_refs, refs,
    refs, hagree.matching_eq fun n hn => isSettled_of_isAnyEntity hn w]

theorem rels_of_statesGone {g moved : Graph} {doomed : ℕ → Bool}
    (hagree : Agree Node.isNoSnapshot (fun _ => true) g moved)
    (hsettled : (moved.detachDelete doomed).matching (·.isSettled w) = g.matching (·.isSettled w))
    (hdoomed : ∀ i, doomed i = true → g.has (·.isPending w) i = true) :
    (moved.detachDelete doomed).rels.filter (joinsEntities (moved.detachDelete doomed)) =
      g.rels.filter (joinsEntities g) := by
  have hrels : moved.rels = g.rels := by simpa using hagree.rels
  have hentity : ∀ i, doomed i = true → g.has Node.isAnyEntity i = false := by
    intro i hi
    obtain ⟨s, hget, hpending⟩ := has_iff.1 (hdoomed i hi)
    simp only [Node.isPending, Node.isIn, Bool.and_eq_true, decide_eq_true_eq] at hpending
    simp [has, hget, Node.isAnyEntity, hpending.1.1]
  have hjoins : joinsEntities (moved.detachDelete doomed) = joinsEntities g := by
    funext r
    rw [joinsEntities, joinsEntities, has_isAnyEntity_congr hsettled]
  rw [hjoins, rels_detachDelete, hrels]
  refine filter_filter_of_off fun r _ hr => ?_
  rw [Bool.and_eq_false_iff, Bool.not_eq_false', Bool.not_eq_false'] at hr
  rcases hr with hr | hr
  · rw [joinsEntities, hentity _ hr, Bool.false_and]
  · rw [joinsEntities, hentity _ hr, Bool.and_false]

theorem moveStates_spec (hirrefl : engine.IsIrrefl) {k n : ℕ}
    (h : moveStates engine w k g = some (g', n)) :
    n = min k (pendingStates w g).length ∧
      pendingStates w g' = (pendingStates w g).drop k ∧
      MovesStates engine w ((pendingStates w g).take k) g g' := by
  rw [moveStates, Option.bind_eq_bind, Option.bind_eq_some_iff] at h
  obtain ⟨moved, hmoved, hg'⟩ := h
  set batch := (g.matching (·.isPending w)).take k with hbatch
  have hrefs : (g.refs (·.isPending w)).take k = batch.map Prod.fst := by
    rw [refs, hbatch, map_take]
  have hvalues : (pendingStates w g).take k = batch.map Prod.snd := by
    rw [pendingStates, values, hbatch, map_take]
  have hmem : ∀ item ∈ batch, item ∈ g.matching (·.isPending w) :=
    fun item hitem => mem_of_mem_take hitem
  rw [hrefs] at hmoved hg'
  obtain ⟨hagree, hsnapshots, hsome⟩ := foldlM_moveState hirrefl
    (fun item hitem => (mem_filter.1 (hmem item hitem)).2)
    (fun item hitem => get?_of_mem_matching (hmem item hitem)) hmoved
  obtain ⟨rfl, rfl⟩ := Prod.mk.inj (Option.some.inj hg')
  have hpending : moved.matching (·.isPending w) = g.matching (·.isPending w) :=
    hagree.matching_eq fun n hn => isNoSnapshot_of_isPending hn
  -- what goes is a pending state, before the rows and after them
  have hdoomed : ∀ i, decide (i ∈ batch.map Prod.fst) = true →
      moved.has (·.isPending w) i = true ∧ g.has (·.isPending w) i = true := by
    intro i hi
    rw [decide_eq_true_eq, ← hrefs] at hi
    rw [← mem_refs, ← mem_refs, refs, hpending]
    exact ⟨mem_of_mem_take hi, mem_of_mem_take hi⟩
  have hsettled : (moved.detachDelete fun i => decide (i ∈ batch.map Prod.fst)).matching
      (·.isSettled w) = g.matching (·.isSettled w) := by
    rw [matching_detachDelete_of_disjoint fun i hi => (hdoomed i hi).1]
    · exact hagree.matching_eq fun n hn => (Bool.and_eq_true_iff.1 hn).1
    · exact fun n hn => by simpa using (Bool.and_eq_true_iff.1 hn).2
  refine ⟨?_, ?_, ?_, hsettled, ?_, ?_⟩
  · rw [length_map, hbatch, length_take, pendingStates, values, length_map]
  · rw [pendingStates, values, matching_detachDelete, hpending, ← hrefs,
      filter_notMem_take, map_drop]
    rfl
  · rw [snapshots, values, matching_detachDelete_of_disjoint fun i hi => (hdoomed i hi).1, ← values,
      ← snapshots, hsnapshots, hvalues]
    intro n hn
    rw [Node.isIn, Bool.and_eq_true, decide_eq_true_eq] at hn
    simp [Node.isPending, Node.isIn, hn.1]
  · exact rels_of_statesGone hagree hsettled fun i hi => (hdoomed i hi).2
  · intro s hs
    rw [hvalues] at hs
    obtain ⟨item, hitem, rfl⟩ := mem_map.1 hs
    exact hsome item hitem

theorem loopCount_drains {α : Type} {pass : Graph → Option (Graph × ℕ)} {k : ℕ} (hk : 0 < k)
    {pending : Graph → List α} {Moves : List α → Graph → Graph → Prop}
    (hpass : ∀ {g g' n}, pass g = some (g', n) → n = min k (pending g).length ∧ pending g' = (pending g).drop k ∧ Moves ((pending g).take k) g g')
    (htrans : ∀ {l l' g g' g''}, Moves l g g' → Moves l' g' g'' → Moves (l ++ l') g g'') {fuel : ℕ}
    (h : loopCount pass fuel g = (g', true)) : pending g' = [] ∧ Moves (pending g) g g' := by
  induction fuel generalizing g with
  | zero => cases h
  | succ fuel ih =>
    rw [loopCount] at h
    split at h
    · cases h
    · rename_i g₁ h₁
      cases h
      -- the last pass found nothing
      obtain ⟨hn, hpending, hmoves⟩ := hpass h₁
      have hnil : pending g = [] := by
        rw [← length_eq_zero_iff]
        omega
      rw [hnil, drop_nil] at hpending
      rw [hnil, take_nil] at hmoves
      rw [hnil]
      exact ⟨hpending, hmoves⟩
    · rename_i g₁ n h₁
      obtain ⟨-, hpending, hmoves⟩ := hpass h₁
      obtain ⟨hend, hrest⟩ := ih h
      rw [hpending] at hrest
      refine ⟨hend, ?_⟩
      rw [← take_append_drop k (pending g)]
      exact htrans hmoves hrest

/-! ### What a relationship does to the snapshots -/

/-- The node is no snapshot of a relationship. -/
def Node.isNoEdgeSnapshot (n : Node) : Bool := n.label ≠ .relationshipSnapshot

/-- The snapshot that a relationship makes. -/
def edgeSnapshot (g : Graph) (r : Arc Rel) : Node :=
  { r.data.snapshot 0 0 0 with
    sourceEntityId := (g.nodes.get? r.source).bind Node.id
    targetEntityId := (g.nodes.get? r.target).bind Node.id
    snapshotDate := r.data.recordedAt.map fun t => .date t.day }

/-- The edge and the day of a snapshot. -/
def Node.edgeKey (snap : Node) : Option Uuid × Option Uuid × Option String × Option Time :=
  (snap.sourceEntityId, snap.targetEntityId, snap.edgeType, snap.snapshotDate)

/-- The snapshots of the relationships of a workspace. -/
def edgeSnapshots (workspaceId : Uuid) (g : Graph) : List Node :=
  g.values (·.isIn .relationshipSnapshot workspaceId)

/-- The snapshots that the relationships which wait to be moved make. -/
def pendingEdges (workspaceId : Uuid) (g : Graph) : List Node :=
  (g.rels.filter (isPendingEdge g workspaceId)).map (edgeSnapshot g)

/-- The snapshots after the relationships were moved: of several with one key, the first stays. -/
def keepFirst (rows snapshots : List Node) : List Node :=
  mergeAll Node.edgeKey Node.edgeKey (fun row => row) (fun _ snap => snap) rows
    snapshots

theorem moveEdge_cases {r : Arc Rel} (h : moveEdge g r = some g') :
    ∃ w source target edgeType recordedAt, r.data.workspaceId = some w ∧
      (g.nodes.get? r.source).bind Node.id = some source ∧
      (g.nodes.get? r.target).bind Node.id = some target ∧ r.data.edgeType = some edgeType ∧
      r.data.recordedAt = some recordedAt ∧
      g' = g.mergeNode
        (·.isRelationshipSnapshot w source target edgeType recordedAt.day)
        (r.data.snapshot source target recordedAt.day) fun snap => snap := by
  simp only [moveEdge, Option.pure_def, Option.bind_eq_bind, Option.bind_eq_some_iff] at h
  obtain ⟨w, hws, a, ha, source, hsource, b, hb, target, htarget, edgeType, hedgeType,
    recordedAt, hrecorded, hg'⟩ := h
  refine ⟨w, source, target, edgeType, recordedAt, hws, ?_, ?_, hedgeType, hrecorded,
    (Option.some.inj hg').symm⟩
  · rw [ha]
    exact hsource
  · rw [hb]
    exact htarget

section

variable {g g' : Graph} {r : Arc Rel} (h : moveEdge g r = some g')

include h

theorem agree_moveEdge : Agree Node.isNoEdgeSnapshot (fun _ => true) g g' := by
  obtain ⟨w, source, target, edgeType, recordedAt, -, -, -, -, -, rfl⟩ := moveEdge_cases h
  refine agree_mergeNode rfl (fun n hn => ?_) g
  simp only [Node.isRelationshipSnapshot, Node.isIn, Bool.and_eq_true, decide_eq_true_eq] at hn
  simp [Node.isNoEdgeSnapshot, hn.1.1.1.1.1]

theorem edgeSnapshots_moveEdge {w : Uuid} (hws : r.data.workspaceId = some w) :
    edgeSnapshots w g' = keepFirst [edgeSnapshot g r] (edgeSnapshots w g) := by
  obtain ⟨workspaceId', source, target, edgeType, recordedAt, hws', hsource, htarget, hedgeType,
    hrecorded, rfl⟩ := moveEdge_cases h
  obtain rfl : workspaceId' = w := Option.some.inj (hws'.symm.trans hws)
  have hnew : r.data.snapshot source target recordedAt.day = edgeSnapshot g r := by
    simp [edgeSnapshot, Rel.snapshot, hrecorded, hsource, htarget]
  rw [edgeSnapshots, values_mergeNode, hnew]
  · refine mergeInto_congr fun n hn => ?_
    obtain ⟨j, -, hin⟩ := mem_values.1 hn
    simp [Node.isRelationshipSnapshot, hin, Node.edgeKey, edgeSnapshot, Rel.snapshot, hsource,
      htarget, hedgeType, hrecorded, Bool.and_assoc]
  · simp [Node.isIn, Rel.snapshot, hws']
  · intro n hn
    simp only [Node.isRelationshipSnapshot, Bool.and_eq_true] at hn
    exact ⟨hn.1.1.1.1, hn.1.1.1.1⟩

end

theorem keepFirst_append (rows rows' snapshots : List Node) :
    keepFirst (rows ++ rows') snapshots = keepFirst rows' (keepFirst rows snapshots) :=
  foldl_append

/-- The rows are complete: each has a value for every property of the key. -/
def Node.IsKeyed (snap : Node) : Prop :=
  snap.sourceEntityId.isSome = true ∧ snap.targetEntityId.isSome = true ∧
    snap.edgeType.isSome = true ∧ snap.snapshotDate.isSome = true

/-- The relationships have gone into snapshots, and nothing else has changed. -/
structure MovesEdges (workspaceId : Uuid) (rows : List Node) (g g' : Graph) : Prop where
  snapshots : edgeSnapshots workspaceId g' = keepFirst rows (edgeSnapshots workspaceId g)
  nodes : g'.matching Node.isNoEdgeSnapshot = g.matching Node.isNoEdgeSnapshot
  rels : (g'.rels.filter fun r => !isPendingEdge g' workspaceId r) =
    g.rels.filter fun r => !isPendingEdge g workspaceId r
  keyed : ∀ row ∈ rows, row.IsKeyed

theorem MovesEdges.trans {rows rows' : List Node} {g g' g'' : Graph}
    (h : MovesEdges w rows g g') (h' : MovesEdges w rows' g' g'') :
    MovesEdges w (rows ++ rows') g g'' where
  snapshots := by rw [h'.snapshots, h.snapshots, keepFirst_append]
  nodes := h'.nodes.trans h.nodes
  rels := h'.rels.trans h.rels
  keyed row hrow := (mem_append.1 hrow).elim (h.keyed row) (h'.keyed row)

section

variable {g g' : Graph} (h : g'.matching Node.isNoEdgeSnapshot = g.matching Node.isNoEdgeSnapshot)

include h

theorem agree_of_nodes : Agree Node.isNoEdgeSnapshot (fun _ => false) g g' :=
  ⟨h, by simp⟩

theorem has_isAnyEntity_of_nodes : g'.has Node.isAnyEntity = g.has Node.isAnyEntity := by
  funext i
  have hentities := (agree_of_nodes h).matching_eq fun n (hn : n.isAnyEntity = true) => by
    rw [Node.isAnyEntity, decide_eq_true_eq] at hn
    simp [Node.isNoEdgeSnapshot, hn]
  rw [Bool.eq_iff_iff, ← mem_refs, ← mem_refs, refs, refs, hentities]

theorem isPendingEdge_of_nodes (w : Uuid) : isPendingEdge g' w = isPendingEdge g w := by
  funext r
  rw [isPendingEdge, isPendingEdge, has_isAnyEntity_of_nodes h]

theorem edgeSnapshot_of_nodes {r : Arc Rel} (hr : joinsEntities g r = true) :
    edgeSnapshot g' r = edgeSnapshot g r := by
  have hid : ∀ i, g.has Node.isAnyEntity i = true →
      (g'.nodes.get? i).bind Node.id = (g.nodes.get? i).bind Node.id := by
    intro i hi
    obtain ⟨n, hn, hentity⟩ := has_iff.1 hi
    rw [Node.isAnyEntity, decide_eq_true_eq] at hentity
    rw [hn, ((agree_of_nodes h).get?_iff (by simp [Node.isNoEdgeSnapshot, hentity])).2 hn]
  rw [joinsEntities, Bool.and_eq_true] at hr
  rw [edgeSnapshot, edgeSnapshot, hid _ hr.1, hid _ hr.2]

end

theorem joinsEntities_of_isPendingEdge {g : Graph} {r : Arc Rel} (h : isPendingEdge g w r = true) :
    r.data.workspaceId = some w ∧ joinsEntities g r = true := by
  simp only [isPendingEdge, Bool.and_eq_true, decide_eq_true_eq] at h
  rw [joinsEntities, Bool.and_eq_true]
  exact ⟨h.1.1.1, h.1.2, h.2⟩

theorem foldlM_moveEdge {batch : List (Arc Rel)} (hbatch : ∀ r ∈ batch, isPendingEdge g w r = true)
    (h : batch.foldlM moveEdge g = some g') :
    Agree Node.isNoEdgeSnapshot (fun _ => true) g g' ∧
      edgeSnapshots w g' =
        keepFirst (batch.map (edgeSnapshot g)) (edgeSnapshots w g) ∧
      ∀ row ∈ batch.map (edgeSnapshot g), row.IsKeyed := by
  induction batch generalizing g with
  | nil =>
    cases h
    exact ⟨.refl _, rfl, by simp⟩
  | cons r batch ih =>
    rw [foldlM_cons, Option.bind_eq_bind, Option.bind_eq_some_iff] at h
    obtain ⟨g₁, h₁, hrest⟩ := h
    have hagree := agree_moveEdge h₁
    have hpending := isPendingEdge_of_nodes hagree.nodes w
    obtain ⟨hagree', hsnapshots, hkeyed⟩ := ih
      (fun r' hr' => by rw [hpending]; exact hbatch r' (mem_cons_of_mem _ hr')) hrest
    have hrows : batch.map (edgeSnapshot g₁) = batch.map (edgeSnapshot g) :=
      map_congr_left fun r' hr' => edgeSnapshot_of_nodes hagree.nodes
        (joinsEntities_of_isPendingEdge (hbatch r' (mem_cons_of_mem _ hr'))).2
    rw [hrows] at hsnapshots hkeyed
    obtain ⟨hws, -⟩ := joinsEntities_of_isPendingEdge (hbatch r mem_cons_self)
    refine ⟨hagree.trans hagree', ?_, fun row hrow => ?_⟩
    · rw [hsnapshots, edgeSnapshots_moveEdge h₁ hws, map_cons]
      exact (keepFirst_append [edgeSnapshot g r] (batch.map (edgeSnapshot g)) _).symm
    · rw [map_cons] at hrow
      rcases mem_cons.1 hrow with rfl | hrow
      · obtain ⟨_, source, target, edgeType, recordedAt, -, hsource, htarget, hedgeType, hrecorded,
          -⟩ := moveEdge_cases h₁
        simp [Node.IsKeyed, edgeSnapshot, Rel.snapshot, hsource, htarget, hedgeType, hrecorded]
      · exact hkeyed row hrow

theorem moveEdges_spec {k n : ℕ} (h : moveEdges w k g = some (g', n)) :
    n = min k (pendingEdges w g).length ∧
      pendingEdges w g' = (pendingEdges w g).drop k ∧
      MovesEdges w ((pendingEdges w g).take k) g g' := by
  rw [moveEdges, Option.bind_eq_bind, Option.bind_eq_some_iff] at h
  obtain ⟨moved, hmoved, hg'⟩ := h
  obtain ⟨rfl, rfl⟩ := Prod.mk.inj (Option.some.inj hg')
  set batch := (g.rels.filter (isPendingEdge g w)).take k with hbatch
  have hrows : (pendingEdges w g).take k = batch.map (edgeSnapshot g) := by
    rw [pendingEdges, hbatch, map_take]
  obtain ⟨hagree, hsnapshots, hkeyed⟩ := foldlM_moveEdge
    (fun r hr => (mem_filter.1 (mem_of_mem_take hr)).2) hmoved
  have hrels : moved.rels = g.rels := by simpa using hagree.rels
  have hnodes : (moved.deleteFirstRels (isPendingEdge g w) k).matching
      Node.isNoEdgeSnapshot = g.matching Node.isNoEdgeSnapshot := hagree.nodes
  have hpending := isPendingEdge_of_nodes hnodes w
  have hleft : (moved.deleteFirstRels (isPendingEdge g w) k).rels =
      eraseFirst (isPendingEdge g w) k g.rels := by
    rw [← hrels]
    rfl
  refine ⟨?_, ?_, ?_, hnodes, ?_, ?_⟩
  · rw [hbatch, length_take, pendingEdges, length_map]
  · rw [pendingEdges, hpending, hleft, filter_eraseFirst, pendingEdges, ← map_drop]
    refine map_congr_left fun r hr => edgeSnapshot_of_nodes hnodes ?_
    exact (joinsEntities_of_isPendingEdge (mem_filter.1 (mem_of_mem_drop hr)).2).2
  · rw [hrows]
    exact hsnapshots
  · rw [hpending, hleft]
    exact filter_eraseFirst_of_off k fun r _ hr => by rw [hr]; rfl
  · rw [hrows]
    exact hkeyed

/-! ### A whole move -/

theorem loopAll_pair {p q : Graph → Option (Graph × ℕ)} {fuel : ℕ}
    (h : loopAll [p, q] fuel g = (g', true)) :
    ∃ mid, loopCount p fuel g = (mid, true) ∧ loopCount q fuel mid = (g', true) := by
  simp only [loopAll, foldl_cons, foldl_nil, if_true] at h
  cases hp : loopCount p fuel g with
  | mk mid ended =>
    rw [hp] at h
    cases ended with
    | true => exact ⟨mid, rfl, h⟩
    | false => cases h

theorem pendingEdges_of_movesStates {states : List Node} (h : MovesStates engine w states g g') :
    pendingEdges w g' = pendingEdges w g := by
  have hfilter : ∀ g : Graph, g.rels.filter (isPendingEdge g w) =
      (g.rels.filter (joinsEntities g)).filter
        fun r => r.data.workspaceId = some w && r.data.tierPending := by
    intro g
    rw [filter_filter]
    refine filter_congr fun r _ => ?_
    rw [isPendingEdge, joinsEntities, Bool.and_assoc]
  have hagree : Agree (·.isSettled w) (fun _ => false) g g' :=
    ⟨h.settled, by simp⟩
  have hid : ∀ i, g.has Node.isAnyEntity i = true →
      (g'.nodes.get? i).bind Node.id = (g.nodes.get? i).bind Node.id := by
    intro i hi
    obtain ⟨n, hn, hentity⟩ := has_iff.1 hi
    rw [hn, (hagree.get?_iff (isSettled_of_isAnyEntity hentity w)).2 hn]
  rw [pendingEdges, pendingEdges, hfilter, h.edges, ← hfilter]
  refine map_congr_left fun r hr => ?_
  have hjoins := (joinsEntities_of_isPendingEdge (mem_filter.1 hr).2).2
  rw [joinsEntities, Bool.and_eq_true] at hjoins
  rw [edgeSnapshot, edgeSnapshot, hid _ hjoins.1, hid _ hjoins.2]

/-- **What a whole move does**: the states that wait collapse into the snapshots of entities, the
relationships that wait go into those of relationships. -/
theorem moveHotToWarm_spec (hirrefl : engine.IsIrrefl) {k fuel : ℕ} (hk : 0 < k)
    (h : moveHotToWarm engine w k fuel g = (g', true)) :
    ∃ mid, pendingStates w mid = [] ∧
      MovesStates engine w (pendingStates w g) g mid ∧
      pendingEdges w g' = [] ∧
      MovesEdges w (pendingEdges w g) mid g' := by
  obtain ⟨mid, hstates, hedges⟩ := loopAll_pair h
  obtain ⟨hnone, hmoves⟩ := loopCount_drains hk (moveStates_spec hirrefl) MovesStates.trans hstates
  obtain ⟨hnone', hmoves'⟩ := loopCount_drains hk moveEdges_spec MovesEdges.trans hedges
  rw [pendingEdges_of_movesStates hmoves] at hmoves'
  exact ⟨mid, hnone, hmoves, hnone', hmoves'⟩

section

variable {workspaceId w : Uuid} {k fuel : ℕ} {g g' : Graph} (hk : 0 < k)
  (h : moveHotToWarm engine w k fuel g = (g', true))

include hk h

theorem snapshots_moveHotToWarm (hirrefl : engine.IsIrrefl) : snapshots w g' =
      collapseAll engine (pendingStates w g) (snapshots w g) := by
  obtain ⟨mid, -, hstates, -, hedges⟩ := moveHotToWarm_spec hirrefl hk h
  have hsame := (agree_of_nodes hedges.nodes).matching_eq
    fun n (hn : n.isIn .entitySnapshot w = true) => by
      rw [Node.isIn, Bool.and_eq_true, decide_eq_true_eq] at hn
      simp [Node.isNoEdgeSnapshot, hn.1]
  rw [snapshots, values, hsame]
  exact hstates.snapshots

theorem edgeSnapshots_moveHotToWarm (hirrefl : engine.IsIrrefl) : edgeSnapshots w g' =
      keepFirst (pendingEdges w g) (edgeSnapshots w g) := by
  obtain ⟨mid, -, hstates, -, hedges⟩ := moveHotToWarm_spec hirrefl hk h
  have hagree : Agree (·.isSettled w) (fun _ => false) g mid :=
    ⟨hstates.settled, by simp⟩
  have hsame := hagree.matching_eq fun n (hn : n.isIn .relationshipSnapshot w = true) => by
      rw [Node.isIn, Bool.and_eq_true, decide_eq_true_eq] at hn
      simp [Node.isSettled, Node.isNoSnapshot, Node.isPending, Node.isIn, hn.1]
  rw [hedges.snapshots, edgeSnapshots, edgeSnapshots, values, hsame]
  rfl

end

/-! ### The latest version of a day -/

/-- The moment of a time. -/
def Time.moment : Time → ℕ
  | .text moment => moment
  | .datetime moment => moment
  | .dateText day => day * Qdrant.microsecondsPerDay
  | .date day => day * Qdrant.microsecondsPerDay

/-- The times have one type. -/
def Time.sameType : Time → Time → Bool
  | .text _, .text _ => true
  | .datetime _, .datetime _ => true
  | .dateText _, .dateText _ => true
  | .date _, .date _ => true
  | _, _ => false

attribute [grind =] Time.sameType

theorem lt_typed_iff {a b : Time} :
    Engine.typed.lt a b = true ↔ a.sameType b = true ∧ a.moment < b.moment := by
  have hday : ∀ d e : ℕ, d * Qdrant.microsecondsPerDay < e * Qdrant.microsecondsPerDay ↔ d < e := by
    intro d e
    rw [Qdrant.microsecondsPerDay]
    omega
  cases a <;> cases b <;> simp [Engine.typed, Time.sameType, Time.moment, hday]

theorem eq_of_sameType {a b : Time} (h : a.sameType b = true) (hmoment : a.moment = b.moment) :
    a = b := by
  have hday : Qdrant.microsecondsPerDay ≠ 0 := by decide
  cases a <;> cases b <;> simp_all [Time.sameType, Time.moment]

theorem sameType_refl (a : Time) : a.sameType a = true := by
  cases a <;> rfl

theorem sameType_trans {a b c : Time} (h : a.sameType b = true) (h' : b.sameType c = true) :
    a.sameType c = true := by
  cases a <;> cases b <;> cases c <;> simp_all [Time.sameType]

theorem sameType_symm {a b : Time} (h : a.sameType b = true) : b.sameType a = true := by
  cases a <;> cases b <;> simp_all [Time.sameType]

/-- The version starts last among those of the list. -/
def IsLatest (s : Node) (versions : List Node) : Prop :=
  s ∈ versions ∧ ∃ start, s.validFrom = some start ∧
    ∀ t ∈ versions, ∀ other, t.validFrom = some other → other.moment ≤ start.moment

theorem foldl_laterStart (versions : List Node) (first : Time) :
    ∃ last, versions.foldl (laterStart .typed) (some first) = some last ∧
      first.sameType last = true ∧ first.moment ≤ last.moment ∧
      (last = first ∨ ∃ t ∈ versions, t.validFrom = some last) ∧
      ∀ t ∈ versions, ∀ other, t.validFrom = some other → first.sameType other = true →
        other.moment ≤ last.moment := by
  induction versions generalizing first with
  | nil => exact ⟨first, rfl, sameType_refl first, le_rfl, .inl rfl, by simp⟩
  | cons s versions ih =>
    rw [foldl_cons, laterStart]
    by_cases hafter : isAfter .typed s.validFrom (some first) = true
    · -- the new start has the type of the first, and is later
      cases hs : s.validFrom with
      | none => simp [isAfter, hs] at hafter
      | some start =>
        rw [hs, isAfter, lt_typed_iff] at hafter
        obtain ⟨last, hlast, htype, hle, hfrom, hmax⟩ := ih start
        rw [if_pos (by rw [isAfter, lt_typed_iff]; exact hafter)]
        refine ⟨last, hlast, sameType_trans hafter.1 htype, hafter.2.le.trans hle, .inr ?_, ?_⟩
        · rcases hfrom with rfl | ⟨t, ht, hstart⟩
          · exact ⟨s, mem_cons_self, hs⟩
          · exact ⟨t, mem_cons_of_mem _ ht, hstart⟩
        · intro t ht other hother hsame
          rcases mem_cons.1 ht with rfl | ht
          · rw [hs, Option.some.injEq] at hother
            exact hother ▸ hle
          · exact hmax t ht other hother (sameType_trans (sameType_symm hafter.1) hsame)
    · obtain ⟨last, hlast, htype, hle, hfrom, hmax⟩ := ih first
      rw [if_neg hafter]
      refine ⟨last, hlast, htype, hle, ?_, ?_⟩
      · refine hfrom.imp_right ?_
        rintro ⟨t, ht, hstart⟩
        exact ⟨t, mem_cons_of_mem _ ht, hstart⟩
      · intro t ht other hother hsame
        rcases mem_cons.1 ht with rfl | ht
        · -- it is not after the first, and the first is not after the last
          rw [hother, isAfter, lt_typed_iff, not_and] at hafter
          exact (not_lt.1 (hafter hsame)).trans hle
        · exact hmax t ht other hother hsame

/-- The two are present and have one type. -/
def sameTypeOpt : Option Time → Option Time → Bool
  | some a, some b => a.sameType b
  | _, _ => false

theorem foldl_laterStart_eq_iff {first s : Node} {rest : List Node}
    (h : IsLatest s (first :: rest)) :
    rest.foldl (laterStart .typed) first.validFrom = s.validFrom ↔
      sameTypeOpt first.validFrom s.validFrom = true := by
  obtain ⟨hs, start, hstart, hlatest⟩ := h
  rw [hstart]
  cases hfirst : first.validFrom with
  | none =>
    -- nothing is after a null
    have hnone : rest.foldl (laterStart .typed) none = none := by
      clear hs hlatest
      induction rest with
      | nil => rfl
      | cons t rest ih =>
        have hstep : laterStart .typed none t = none := by
          cases ht : t.validFrom <;> simp [laterStart, isAfter, ht]
        rw [foldl_cons, hstep]
        exact ih
    simp [hnone, sameTypeOpt]
  | some f =>
    obtain ⟨last, hlast, htype, hle, hfrom, hmax⟩ := foldl_laterStart rest f
    rw [hlast, Option.some.injEq]
    constructor
    · rintro rfl
      exact htype
    · intro hsame
      refine eq_of_sameType (sameType_trans (sameType_symm htype) hsame) (le_antisymm ?_ ?_)
      · rcases hfrom with rfl | ⟨t, ht, hlastStart⟩
        · exact hlatest first mem_cons_self _ hfirst
        · exact hlatest t (mem_cons_of_mem _ ht) _ hlastStart
      · rcases mem_cons.1 hs with rfl | hs
        · rw [hfirst, Option.some.injEq] at hstart
          exact hstart ▸ hle
        · exact hmax s hs start hstart hsame

section

variable {workspaceId w : Uuid} {k fuel : ℕ} {g g' : Graph} (hk : 0 < k)
  (hwarm : snapshots w g = [] ∧ edgeSnapshots w g = [])
  (h : moveHotToWarm .typed w k fuel g = (g', true))

include hk hwarm h

theorem snapshots_of_stateKey {key : Option Uuid × Option Time} {first : Node} {rest : List Node}
    (hclass : (pendingStates w g).filter (·.stateKey = key) = first :: rest) :
    (snapshots w g').filter (·.snapshotKey = key) =
      [{ first.asSnapshot with
        validFrom := rest.foldl (laterStart .typed) first.validFrom }] := by
  rw [snapshots_moveHotToWarm hk h isIrrefl_typed, hwarm.1, collapseAll,
    filter_mergeAll_nil snapshotKey_asSnapshot (snapshotKey_collapse isIrrefl_typed) rfl hclass,
    foldl_collapse isIrrefl_typed]
  rfl

theorem edgeSnapshots_of_edgeKey
    {key : Option Uuid × Option Uuid × Option String × Option Time} {first : Node}
    {rest : List Node} (hclass : (pendingEdges w g).filter (·.edgeKey = key) = first :: rest) :
    (edgeSnapshots w g').filter (·.edgeKey = key) = [first] := by
  have hconst : ∀ rest : List Node, rest.foldl (fun (b : Node) _ => b) first = first := by
    intro rest
    induction rest with
    | nil => rfl
    | cons _ rest ih => exact ih
  rw [edgeSnapshots_moveHotToWarm hk h isIrrefl_typed, hwarm.2, keepFirst,
    filter_mergeAll_nil (fun _ => rfl) (fun _ _ => rfl) rfl hclass, hconst]

end

theorem forall_isLatest_iff {κ : Type} {versions : κ → List Node} {P : κ → Node → Prop}
    {Q : Node → Node → Prop}
    (h : ∀ key first rest s, versions key = first :: rest → IsLatest s (first :: rest) →
      (P key s ↔ Q first s)) :
    (∀ key s, IsLatest s (versions key) → P key s) ↔
      ∀ key first rest, versions key = first :: rest →
        ∀ s, IsLatest s (first :: rest) → Q first s := by
  constructor
  · intro hP key first rest hclass s hs
    exact (h key first rest s hclass hs).1 (hP key s (hclass ▸ hs))
  · intro hQ key s hs
    cases hclass : versions key with
    | nil =>
      rw [hclass] at hs
      exact absurd hs.1 not_mem_nil
    | cons first rest =>
      rw [hclass] at hs
      exact (h key first rest s hclass hs).2 (hQ key first rest hclass s hs)

theorem validFrom_asSnapshot (s : Node) : s.asSnapshot.validFrom = s.validFrom := rfl

/-- **The collapse gives the latest version of each day iff the first version that it meets is like
the latest one**, a state in everything but its start, which has to be of the same type. -/
theorem moveHotToWarm_latest_iff {workspaceId : Uuid} {k fuel : ℕ} {g g' : Graph} (hk : 0 < k)
    (hwarm : snapshots workspaceId g = [] ∧ edgeSnapshots workspaceId g = [])
    (h : moveHotToWarm .typed workspaceId k fuel g = (g', true)) :
    ((∀ key s, IsLatest s ((pendingStates workspaceId g).filter (·.stateKey = key)) →
        (snapshots workspaceId g').filter (·.snapshotKey = key) = [s.asSnapshot]) ∧
      ∀ key row, IsLatest row ((pendingEdges workspaceId g).filter (·.edgeKey = key)) →
        (edgeSnapshots workspaceId g').filter (·.edgeKey = key) = [row]) ↔
      (∀ key first rest, (pendingStates workspaceId g).filter (·.stateKey = key) = first :: rest →
        ∀ s, IsLatest s (first :: rest) → sameTypeOpt first.validFrom s.validFrom = true ∧
          { first.asSnapshot with validFrom := s.validFrom } = s.asSnapshot) ∧
      ∀ key first rest, (pendingEdges workspaceId g).filter (·.edgeKey = key) = first :: rest →
        ∀ row, IsLatest row (first :: rest) → first = row := by
  refine and_congr (forall_isLatest_iff fun key first rest s hclass hs => ?_)
    (forall_isLatest_iff fun key first rest row hclass _ => ?_)
  · rw [snapshots_of_stateKey hk hwarm h hclass, singleton_inj, ← foldl_laterStart_eq_iff hs]
    constructor
    · intro heq
      have hstart := congrArg Node.validFrom heq
      rw [validFrom_asSnapshot] at hstart
      refine ⟨hstart, ?_⟩
      rw [← heq, ← hstart]
    · rintro ⟨hstart, heq⟩
      rw [hstart]
      exact heq
  · rw [edgeSnapshots_of_edgeKey hk hwarm h hclass]
    exact singleton_inj

/-- A closed state of an entity that waits to be moved. -/
def closedVersion (start : ℕ) (name : String) : Node where
  label := .entityState
  workspaceId := some 7
  id := some 1
  name := some name
  validFrom := some (.datetime start)
  validTo := some (.datetime (start + 1))
  recordedAt := some (.datetime start)
  tierPending := true

/-- An entity that was renamed on one day. -/
def renamedEntity : Graph :=
  (empty.create (closedVersion 1 "a")).create (closedVersion 2 "b")

theorem moveHotToWarm_renamedEntity : ∃ g', moveHotToWarm .typed 7 1 3 renamedEntity = (g', true) :=
  ⟨_, Prod.ext rfl rfl⟩

theorem pendingStates_renamedEntity :
    (pendingStates 7 renamedEntity).filter (·.stateKey = (closedVersion 2 "b").stateKey) =
      [closedVersion 1 "a", closedVersion 2 "b"] := by
  rfl

theorem isLatest_renamedEntity :
    IsLatest (closedVersion 2 "b") [closedVersion 1 "a", closedVersion 2 "b"] := by
  refine ⟨by simp, .datetime 2, rfl, fun t ht other hother => ?_⟩
  simp only [mem_cons, not_mem_nil, or_false] at ht
  rcases ht with rfl | rfl
  · cases hother
    decide
  · cases hother
    decide

/-- The equivalence, for the two versions of a renamed entity. -/
theorem renamedEntity_latest_iff : ∃ g', moveHotToWarm .typed 7 1 3 renamedEntity = (g', true) ∧
      (((∀ key s, IsLatest s ((pendingStates 7 renamedEntity).filter (·.stateKey = key)) →
        (snapshots 7 g').filter (·.snapshotKey = key) = [s.asSnapshot]) ∧
      ∀ key row, IsLatest row ((pendingEdges 7 renamedEntity).filter (·.edgeKey = key)) →
        (edgeSnapshots 7 g').filter (·.edgeKey = key) = [row]) ↔
      (∀ key first rest, (pendingStates 7 renamedEntity).filter (·.stateKey = key) = first :: rest →
        ∀ s, IsLatest s (first :: rest) → sameTypeOpt first.validFrom s.validFrom = true ∧
          { first.asSnapshot with validFrom := s.validFrom } = s.asSnapshot) ∧
      ∀ key first rest, (pendingEdges 7 renamedEntity).filter (·.edgeKey = key) = first :: rest →
        ∀ row, IsLatest row (first :: rest) → first = row) := by
  obtain ⟨g', hg'⟩ := moveHotToWarm_renamedEntity
  exact ⟨g', hg', moveHotToWarm_latest_iff (by decide) ⟨rfl, rfl⟩ hg'⟩

/-- Its snapshot has the start of the second version and the name of the first. -/
theorem renamedEntity_stale : ¬ ∀ (workspaceId : Uuid) (k fuel : ℕ) (g g' : Graph), 0 < k →
      snapshots workspaceId g = [] ∧ edgeSnapshots workspaceId g = [] →
      moveHotToWarm .typed workspaceId k fuel g = (g', true) →
      ((∀ key s, IsLatest s ((pendingStates workspaceId g).filter (·.stateKey = key)) →
        (snapshots workspaceId g').filter (·.snapshotKey = key) = [s.asSnapshot]) ∧
      ∀ key row, IsLatest row ((pendingEdges workspaceId g).filter (·.edgeKey = key)) →
        (edgeSnapshots workspaceId g').filter (·.edgeKey = key) = [row]) := by
  intro h
  obtain ⟨g', hg'⟩ := moveHotToWarm_renamedEntity
  have hlatest := (h 7 1 3 renamedEntity g' (by decide) ⟨rfl, rfl⟩ hg').1
    (closedVersion 2 "b").stateKey (closedVersion 2 "b")
    (by rw [pendingStates_renamedEntity]; exact isLatest_renamedEntity)
  rw [snapshots_of_stateKey (by decide) ⟨rfl, rfl⟩ hg' pendingStates_renamedEntity,
    singleton_inj] at hlatest
  have hname := congrArg Node.name hlatest
  exact absurd hname (by decide)

end Omniscience.Cypher
