import Omniscience.Stores.Cypher

/-!
# Merging and splitting entities

`merge_nodes` links an entity to another one and moves its relationships there, each marked with the
id it was moved from; `unmerge_node` moves the marked ones back.  Both read the relationships first,
with the id of the node at the other end, and then create each one again by that id.

The node is looked up without its label.  The states and the snapshots of an entity have its
workspace and its id too, so the copy of a relationship is drawn from each of them.  A relationship
of the two entities becomes a loop, which is read once in either direction, and a loop of the merged
entity is drawn at the entity itself, where the deletion that follows takes it.  The mark is a
single id, which a second merge overwrites.
-/

namespace Omniscience.Cypher

open PropertyGraph List

/-- The type of the relationship from a merged entity to the one it is merged into. -/
def mergedInto : String := "MERGED_INTO"

/-- The relationship is one that a merge moves. -/
def Rel.isMovable (r : Rel) (workspaceId : Uuid) : Bool :=
  r.workspaceId = some workspaceId && r.relType ≠ mergedInto && r.relType ≠ hadState

/-- The relationship was moved away from the entity. -/
def Rel.isMoved (r : Rel) (workspaceId id : Uuid) : Bool :=
  r.workspaceId = some workspaceId && r.originalNodeId = some id

/-- The node has the workspace and the id; its label is not asked for. -/
def Node.hasKey (n : Node) (workspaceId : Uuid) (id : Option Uuid) : Bool :=
  n.workspaceId = some workspaceId && n.id.isSome && n.id = id

/-- The id of the node. -/
def idOf (g : Graph) (i : ℕ) : Option Uuid := (g.nodes.get? i).bind Node.id

/-- A relationship as a transaction reads it: its type and properties, and the id of the node at its
other end. -/
structure RelRow where
  data : Rel
  otherId : Option Uuid

/-- The rows of the relationships to the entity. -/
def incoming (test : Rel → Bool) (workspaceId id : Uuid) (g : Graph) : List RelRow :=
  (g.rels.filter fun r => g.has (·.isEntity workspaceId id) r.target && test r.data).map
    fun r => ⟨r.data, idOf g r.source⟩

/-- The rows of the relationships from the entity. -/
def outgoing (test : Rel → Bool) (workspaceId id : Uuid) (g : Graph) : List RelRow :=
  (g.rels.filter fun r => g.has (·.isEntity workspaceId id) r.source && test r.data).map
    fun r => ⟨r.data, idOf g r.target⟩

/-- The relationships that `redirect_inc_cypher` and `restore_inc_cypher` create for a row. -/
def arcsTo (workspaceId id : Uuid) (g : Graph) (row : RelRow) : List (Arc Rel) :=
  (g.refs (·.hasKey workspaceId row.otherId)).flatMap fun x =>
    (g.refs (·.isEntity workspaceId id)).map fun b => ⟨x, b, row.data⟩

/-- The relationships that `redirect_out_cypher` and `restore_out_cypher` create for a row. -/
def arcsFrom (workspaceId id : Uuid) (g : Graph) (row : RelRow) : List (Arc Rel) :=
  (g.refs (·.isEntity workspaceId id)).flatMap fun b =>
    (g.refs (·.hasKey workspaceId row.otherId)).map fun y => ⟨b, y, row.data⟩

/-- Create the relationships of the rows at the entity. -/
def redraw (workspaceId id : Uuid) (inc out : List RelRow) (g : Graph) : Graph :=
  let drawn := inc.foldl (fun g row => g.connectAll (arcsTo workspaceId id g row)) g
  out.foldl (fun g row => g.connectAll (arcsFrom workspaceId id g row)) drawn

/-- The row with the mark of the entity that it is moved from. -/
def RelRow.mark (row : RelRow) (id : Uuid) : RelRow :=
  { row with data := { row.data with originalNodeId := some id } }

/-- The row without a mark. -/
def RelRow.unmark (row : RelRow) : RelRow :=
  { row with data := { row.data with originalNodeId := none } }

/-- `merge_rel_cypher`. -/
def link (workspaceId sourceId targetId : Uuid) (g : Graph) : Graph :=
  let pairs := (g.refs (·.isEntity workspaceId sourceId)).flatMap fun a =>
    (g.refs (·.isEntity workspaceId targetId)).map fun b => (a, b)
  (pairs.foldl (fun g pair => g.mergeRel pair.1 pair.2 (·.isOf mergedInto workspaceId)
    { relType := mergedInto, workspaceId := some workspaceId } fun r => r) g).setNodes fun _ n =>
      if n.isEntity workspaceId sourceId then
        { n with isMerged := some true, mergedInto := some targetId }
      else n

/-- The relationship starts or ends at the entity. -/
def isAt (g : Graph) (workspaceId id : Uuid) (r : Arc Rel) : Bool :=
  g.has (·.isEntity workspaceId id) r.source || g.has (·.isEntity workspaceId id) r.target

/-- `Neo4jGraphStore.merge_nodes`. -/
def mergeNodes (workspaceId sourceId targetId : Uuid) (g : Graph) : Graph × Bool :=
  if (g.refs (·.isEntity workspaceId sourceId)).isEmpty ||
      (g.refs (·.isEntity workspaceId targetId)).isEmpty then (g, false)
  else
    let linked := link workspaceId sourceId targetId g
    let inc := incoming (·.isMovable workspaceId) workspaceId sourceId linked
    let out := outgoing (·.isMovable workspaceId) workspaceId sourceId linked
    let redirected := redraw workspaceId targetId (inc.map (·.mark sourceId))
      (out.map (·.mark sourceId)) linked
    (redirected.deleteRels fun r =>
      isAt redirected workspaceId sourceId r && r.data.isMovable workspaceId, true)

/-- The body of the transaction of `unmerge_node`. -/
def split (workspaceId mergedNodeId targetId : Uuid) (g : Graph) : Graph :=
  let inc := incoming (·.isMoved workspaceId mergedNodeId) workspaceId targetId g
  let out := outgoing (·.isMoved workspaceId mergedNodeId) workspaceId targetId g
  let restored := redraw workspaceId mergedNodeId (inc.map RelRow.unmark) (out.map RelRow.unmark) g
  let cleared := restored.deleteRels fun r =>
    isAt restored workspaceId targetId r && r.data.isMoved workspaceId mergedNodeId
  let unlinked := cleared.deleteRels fun r =>
    cleared.has (·.isEntity workspaceId mergedNodeId) r.source &&
      cleared.has (·.isEntity workspaceId targetId) r.target && r.data.relType = mergedInto
  unlinked.setNodes fun _ n =>
    if n.isEntity workspaceId mergedNodeId then { n with isMerged := none, mergedInto := none }
    else n

/-- `Neo4jGraphStore.unmerge_node`. -/
def unmergeNode (workspaceId mergedNodeId : Uuid) (g : Graph) : Graph × Bool :=
  match g.values fun n => n.isEntity workspaceId mergedNodeId && n.isMerged = some true with
  | [] => (g, false)
  | n :: _ =>
    match n.mergedInto with
    | none => (g, false)
    | some targetId => (split workspaceId mergedNodeId targetId g, true)

/-! ### What is drawn -/

variable {workspaceId w : Uuid}

/-- The nodes that the id of a node finds. -/
def namesakes (workspaceId : Uuid) (g : Graph) (i : ℕ) : List ℕ :=
  g.refs (·.hasKey workspaceId (idOf g i))

/-- A relationship to a node, redrawn to another node. -/
def drawnTo (workspaceId : Uuid) (j : ℕ) (f : Rel → Rel) (g : Graph) (r : Arc Rel) :
    List (Arc Rel) :=
  (namesakes workspaceId g r.source).map fun x => ⟨x, j, f r.data⟩

/-- A relationship from a node, redrawn from another node. -/
def drawnFrom (workspaceId : Uuid) (j : ℕ) (f : Rel → Rel) (g : Graph) (r : Arc Rel) :
    List (Arc Rel) :=
  (namesakes workspaceId g r.target).map fun y => ⟨j, y, f r.data⟩

/-- The relationships to a node that satisfy the test. -/
def into (test : Rel → Bool) (i : ℕ) (l : List (Arc Rel)) : List (Arc Rel) :=
  l.filter fun r => r.target = i && test r.data

/-- The relationships from a node that satisfy the test. -/
def outOf (test : Rel → Bool) (i : ℕ) (l : List (Arc Rel)) : List (Arc Rel) :=
  l.filter fun r => r.source = i && test r.data

section

variable {id : Uuid} {g g' : Graph}

theorem arcsTo_congr (h : g'.nodes = g.nodes) : arcsTo w id g' = arcsTo w id g := by
  funext row
  rw [arcsTo, arcsTo, refs_congr h, refs_congr h]

theorem arcsFrom_congr (h : g'.nodes = g.nodes) : arcsFrom w id g' = arcsFrom w id g := by
  funext row
  rw [arcsFrom, arcsFrom, refs_congr h, refs_congr h]

theorem ends_arcsTo (row : RelRow) : ∀ r ∈ arcsTo w id g row,
    r.source ∈ g.nodes.keys ∧ r.target ∈ g.nodes.keys := by
  intro r hr
  simp only [arcsTo, mem_flatMap, mem_map] at hr
  obtain ⟨x, hx, b, hb, rfl⟩ := hr
  exact ⟨mem_keys_of_mem_refs hx, mem_keys_of_mem_refs hb⟩

theorem ends_arcsFrom (row : RelRow) : ∀ r ∈ arcsFrom w id g row,
    r.source ∈ g.nodes.keys ∧ r.target ∈ g.nodes.keys := by
  intro r hr
  simp only [arcsFrom, mem_flatMap, mem_map] at hr
  obtain ⟨b, hb, y, hy, rfl⟩ := hr
  exact ⟨mem_keys_of_mem_refs hb, mem_keys_of_mem_refs hy⟩

theorem nodes_redraw (inc out : List RelRow) : (redraw w id inc out g).nodes = g.nodes := by
  have hto := foldl_connectAll (arcsTo w id) (fun g => ends_arcsTo)
    arcsTo_congr inc g
  exact (foldl_connectAll (arcsFrom w id) (fun g => ends_arcsFrom)
    arcsFrom_congr out _).1.trans hto.1

theorem rels_redraw (inc out : List RelRow) : (redraw w id inc out g).rels =
    g.rels ++ inc.flatMap (arcsTo w id g) ++ out.flatMap (arcsFrom w id g) := by
  have hto := foldl_connectAll (arcsTo w id) (fun g => ends_arcsTo)
    arcsTo_congr inc g
  have hfrom := (foldl_connectAll (arcsFrom w id) (fun g => ends_arcsFrom)
    arcsFrom_congr out (inc.foldl (fun g row => g.connectAll (arcsTo w id g row)) g)).2
  rw [redraw, hfrom, hto.2, arcsFrom_congr hto.1]

end

section

variable {readId drawId : Uuid} {i j : ℕ} {g : Graph}
  (hread : g.refs (·.isEntity w readId) = [i])
  (hdraw : g.refs (·.isEntity w drawId) = [j])

include hread in
theorem incoming_eq (test : Rel → Bool) : incoming test w readId g =
    (into test i g.rels).map fun r => ⟨r.data, idOf g r.source⟩ := by
  rw [incoming, into]
  simp only [has_of_refs hread]

include hread in
theorem outgoing_eq (test : Rel → Bool) : outgoing test w readId g =
    (outOf test i g.rels).map fun r => ⟨r.data, idOf g r.target⟩ := by
  rw [outgoing, outOf]
  simp only [has_of_refs hread]

include hread in
theorem isAt_of_refs (r : Arc Rel) :
    isAt g w readId r = (decide (r.source = i) || decide (r.target = i)) := by
  rw [isAt, has_of_refs hread, has_of_refs hread]

include hread hdraw

theorem rels_redraw_read (test : Rel → Bool) (f : Rel → Rel) :
    (redraw w drawId
      ((incoming test w readId g).map fun row => { row with data := f row.data })
      ((outgoing test w readId g).map fun row => { row with data := f row.data })
      g).rels =
      g.rels ++ (into test i g.rels).flatMap (drawnTo w j f g) ++
        (outOf test i g.rels).flatMap (drawnFrom w j f g) := by
  rw [rels_redraw, incoming_eq hread, outgoing_eq hread, map_map, map_map, flatMap_map, flatMap_map]
  have hto : (fun r : Arc Rel => arcsTo w drawId g ⟨f r.data, idOf g r.source⟩) =
      drawnTo w j f g := by
    funext r
    rw [arcsTo, hdraw, drawnTo, namesakes, map_eq_flatMap]
    rfl
  have hfrom : (fun r : Arc Rel => arcsFrom w drawId g ⟨f r.data, idOf g r.target⟩) =
      drawnFrom w j f g := by
    funext r
    rw [arcsFrom, hdraw, drawnFrom, namesakes, flatMap_singleton]
  rw [← hto, ← hfrom]
  rfl

end

/-! ### The two operations -/

/-- The flags of a merged entity are set or removed. -/
def Node.flag (workspaceId id : Uuid) (isMerged : Option Bool) (mergedInto : Option Uuid) (_ : ℕ)
    (n : Node) : Node :=
  if n.isEntity workspaceId id then { n with isMerged := isMerged, mergedInto := mergedInto } else n

section

variable {id : Uuid} {isMerged : Option Bool} {target : Option Uuid} {g g' : Graph}

theorem isEntity_flag (i : ℕ) (n : Node) (id' : Uuid) :
    (n.flag w id isMerged target i).isEntity w id' =
      n.isEntity w id' := by
  rw [Node.flag]
  split
  · rfl
  · rfl

theorem hasKey_flag (i : ℕ) (n : Node) (key : Option Uuid) :
    (n.flag w id isMerged target i).hasKey w key =
      n.hasKey w key := by
  rw [Node.flag]
  split
  · rfl
  · rfl

theorem refs_isEntity_of_flag
    (h : g'.nodes = g.nodes.map (Node.flag w id isMerged target)) (id' : Uuid) :
    g'.refs (·.isEntity w id') = g.refs (·.isEntity w id') := by
  have hset : g'.refs (·.isEntity w id') =
      (g.setNodes (Node.flag w id isMerged target)).refs (·.isEntity w id') :=
    refs_congr h _
  rw [hset]
  exact refs_setNodes (fun i n => isEntity_flag i n id') g

theorem namesakes_of_flag (h : g'.nodes = g.nodes.map (Node.flag w id isMerged target)) :
    namesakes w g' = namesakes w g := by
  have hid : ∀ i, idOf g' i = idOf g i := by
    intro i
    rw [idOf, idOf, h, Dict.get?_map]
    cases g.nodes.get? i with
    | none => rfl
    | some n =>
      rw [Option.map_some, Option.bind_some, Option.bind_some, Node.flag]
      split
      · rfl
      · rfl
  funext i
  have hset : ∀ key, g'.refs (·.hasKey w key) =
      (g.setNodes (Node.flag w id isMerged target)).refs (·.hasKey w key) :=
    fun key => refs_congr h _
  rw [namesakes, namesakes, hid, hset]
  exact refs_setNodes (fun i n => hasKey_flag i n _) g

theorem drawnTo_of_flag (h : g'.nodes = g.nodes.map (Node.flag w id isMerged target)) (j : ℕ)
    (f : Rel → Rel) : drawnTo w j f g' = drawnTo w j f g := by
  funext r
  rw [drawnTo, drawnTo, namesakes_of_flag h]

theorem drawnFrom_of_flag (h : g'.nodes = g.nodes.map (Node.flag w id isMerged target)) (j : ℕ)
    (f : Rel → Rel) : drawnFrom w j f g' = drawnFrom w j f g := by
  funext r
  rw [drawnFrom, drawnFrom, namesakes_of_flag h]

end

/-- The relationship starts or ends at the node and satisfies the test. -/
def isTestedAt (test : Rel → Bool) (i : ℕ) (r : Arc Rel) : Bool :=
  (r.source = i || r.target = i) && test r.data

/-- The relationship from a merged entity. -/
def mergeArc (workspaceId : Uuid) (i j : ℕ) : Arc Rel :=
  ⟨i, j, { relType := mergedInto, workspaceId := some workspaceId }⟩

/-- The mark of a relationship that is moved away from the entity. -/
def Rel.mark (id : Uuid) (r : Rel) : Rel := { r with originalNodeId := some id }

/-- The relationship without a mark. -/
def Rel.unmark (r : Rel) : Rel := { r with originalNodeId := none }

/-- There is no trace of a merge of the entity. -/
structure IsUnmerged (workspaceId id : Uuid) (i : ℕ) (g : Graph) : Prop where
  unflagged : ∀ n, g.nodes.get? i = some n → n.isMerged = none ∧ n.mergedInto = none
  unlinked : ∀ r ∈ g.rels, r.source = i → r.data.relType ≠ mergedInto
  unmarked : ∀ r ∈ g.rels, r.data.isMoved workspaceId id = false

section

variable {a b : Uuid} {i j : ℕ} {g : Graph}
  (ha : g.refs (·.isEntity w a) = [i]) (hb : g.refs (·.isEntity w b) = [j])

include ha hb

theorem nodes_link : (link w a b g).nodes = g.nodes.map (Node.flag w a (some true) (some b)) := by
  have hrel : ∀ g : Graph, (g.mergeRel i j (·.isOf mergedInto w)
      { relType := mergedInto, workspaceId := some w } fun r => r).nodes = g.nodes := by
    intro g
    rw [mergeRel]
    split
    · rfl
    · exact nodes_connect _ g
  rw [link, ha, hb]
  simp only [flatMap_cons, map_cons, map_nil, flatMap_nil, append_nil,
    foldl_cons, foldl_nil, setNodes, hrel]
  rfl

theorem rels_link (hunlinked : ∀ r ∈ g.rels, r.source = i → r.data.relType ≠ mergedInto) :
    (link w a b g).rels = g.rels ++ [mergeArc w i j] := by
  have hi : i ∈ g.nodes.keys := mem_keys_of_mem_refs (ha ▸ mem_singleton_self i)
  have hj : j ∈ g.nodes.keys := mem_keys_of_mem_refs (hb ▸ mem_singleton_self j)
  have hnone : (g.rels.any fun r => r.source = i && r.target = j &&
      r.data.isOf mergedInto w) = false := by
    rw [any_eq_false]
    intro r hr hmatch
    simp only [Bool.and_eq_true, decide_eq_true_eq, Rel.isOf] at hmatch
    exact hunlinked r hr hmatch.1.1 hmatch.2.1
  rw [link, ha, hb]
  simp only [flatMap_cons, map_cons, map_nil, flatMap_nil, append_nil,
    foldl_cons, foldl_nil, setNodes, mergeRel, hnone]
  rw [if_neg (by simp), connect, dif_pos ⟨hi, hj⟩]
  rfl

theorem mergeNodes_accepted : (mergeNodes w a b g).2 = true := by
  rw [mergeNodes, ha, hb]
  rfl

theorem nodes_mergeNodes : (mergeNodes w a b g).1.nodes =
    g.nodes.map (Node.flag w a (some true) (some b)) := by
  rw [mergeNodes, if_neg (by simp [ha, hb])]
  exact (nodes_redraw _ _).trans (nodes_link ha hb)

theorem rels_mergeNodes (hunlinked : ∀ r ∈ g.rels, r.source = i → r.data.relType ≠ mergedInto) :
    (mergeNodes w a b g).1.rels =
      (g.rels ++ [mergeArc w i j] ++
        (into (·.isMovable w) i g.rels).flatMap
          (drawnTo w j (Rel.mark a) g) ++
        (outOf (·.isMovable w) i g.rels).flatMap
          (drawnFrom w j (Rel.mark a) g)).filter
        fun r => !isTestedAt (·.isMovable w) i r := by
  have hnodes := nodes_link ha hb
  have hrels := rels_link ha hb hunlinked
  have ha' := (refs_isEntity_of_flag hnodes a).trans ha
  have hb' := (refs_isEntity_of_flag hnodes b).trans hb
  have hdrawn := rels_redraw_read ha' hb' (·.isMovable w) (Rel.mark a)
  rw [drawnTo_of_flag hnodes, drawnFrom_of_flag hnodes, hrels] at hdrawn
  have hinto : into (·.isMovable w) i (g.rels ++ [mergeArc w i j]) =
      into (·.isMovable w) i g.rels := by
    simp [into, mergeArc, Rel.isMovable]
  have houtOf : outOf (·.isMovable w) i (g.rels ++ [mergeArc w i j]) =
      outOf (·.isMovable w) i g.rels := by
    simp [outOf, mergeArc, Rel.isMovable]
  rw [hinto, houtOf] at hdrawn
  rw [← hdrawn, mergeNodes, if_neg (by simp [ha, hb])]
  refine filter_congr fun r _ => ?_
  beta_reduce
  rw [isAt_of_refs ((refs_congr (nodes_redraw _ _) _).trans ha')]
  rfl

omit ha hb in
theorem nodes_split : (split w a b g).nodes = g.nodes.map (Node.flag w a none none) := by
  rw [split]
  simp only [setNodes, deleteRels]
  rw [nodes_redraw]
  rfl

/-- The relationship says that the first node is merged into the second. -/
def isLink (i j : ℕ) (r : Arc Rel) : Bool :=
  r.source = i && r.target = j && r.data.relType = mergedInto

theorem rels_split : (split w a b g).rels =
    ((g.rels ++
      (into (·.isMoved w a) j g.rels).flatMap (drawnTo w i Rel.unmark g) ++
      (outOf (·.isMoved w a) j g.rels).flatMap
        (drawnFrom w i Rel.unmark g)).filter
        fun r => !isTestedAt (·.isMoved w a) j r).filter fun r => !isLink i j r := by
  have hdrawn := rels_redraw_read hb ha (·.isMoved w a) Rel.unmark
  rw [← hdrawn, split]
  refine (filter_congr fun r _ => ?_).trans (congrArg (List.filter _)
    (filter_congr fun r _ => ?_))
  · beta_reduce
    rw [has_deleteRels, has_deleteRels, has_of_refs ((refs_congr (nodes_redraw _ _) _).trans ha),
      has_of_refs ((refs_congr (nodes_redraw _ _) _).trans hb)]
    rfl
  · beta_reduce
    rw [isAt_of_refs ((refs_congr (nodes_redraw _ _) _).trans hb)]
    rfl

omit hb in
theorem unmergeNode_eq {n : Node} (hn : g.nodes.get? i = some n) (hmerged : n.isMerged = some true)
    (htarget : n.mergedInto = some b) :
    unmergeNode w a g = (split w a b g, true) := by
  have hmatching : ∃ n, g.matching (·.isEntity w a) = [(i, n)] := by
    rw [refs] at ha
    obtain ⟨item, hitem, hfst⟩ := map_eq_singleton_iff.1 ha
    exact ⟨item.2, by rw [hitem, ← hfst]⟩
  obtain ⟨n', hmatching⟩ := hmatching
  have hn' : g.nodes.get? i = some n' :=
    get?_of_mem_matching (hmatching ▸ mem_singleton_self (i, n'))
  obtain rfl : n = n' := Option.some.inj (hn.symm.trans hn')
  have hvalues : (g.values fun n => n.isEntity w a && n.isMerged = some true) = [n] := by
    have hboth : (g.matching fun n => n.isEntity w a && n.isMerged = some true) =
        (g.matching (·.isEntity w a)).filter fun item => item.2.isMerged = some true := by
      rw [matching, matching, filter_filter]
      exact filter_congr fun item _ => Bool.and_comm _ _
    rw [values, hboth, hmatching]
    simp [hmerged]
  rw [unmergeNode, hvalues]
  simp only [htarget]

end

/-! ### There and back -/

/-- The relationships that a merge draws at the target and leaves there. -/
def moved (workspaceId a : Uuid) (i j : ℕ) (g : Graph) : List (Arc Rel) :=
  ((into (·.isMovable workspaceId) i g.rels).flatMap (drawnTo workspaceId j (Rel.mark a) g) ++
    (outOf (·.isMovable workspaceId) i g.rels).flatMap
      (drawnFrom workspaceId j (Rel.mark a) g)).filter
    fun r => !(decide (r.source = i) || decide (r.target = i))

/-- The relationships that a merge does not touch. -/
def kept (workspaceId : Uuid) (i : ℕ) (g : Graph) : List (Arc Rel) :=
  g.rels.filter fun r => !isTestedAt (·.isMovable workspaceId) i r

/-- What a split draws for the relationships that a merge has moved. -/
def back (workspaceId a : Uuid) (i j : ℕ) (g : Graph) : List (Arc Rel) :=
  ((moved workspaceId a i j g).filter fun r => r.target = j).flatMap
      (drawnTo workspaceId i Rel.unmark g) ++
    ((moved workspaceId a i j g).filter fun r => r.source = j).flatMap
      (drawnFrom workspaceId i Rel.unmark g)

theorem mem_drawnTo {j : ℕ} {f : Rel → Rel} {g : Graph} {r c : Arc Rel} : c ∈ drawnTo w j f g r ↔
      c.source ∈ namesakes w g r.source ∧ c.target = j ∧ c.data = f r.data := by
  rw [drawnTo, mem_map]
  constructor
  · rintro ⟨x, hx, rfl⟩
    exact ⟨hx, rfl, rfl⟩
  · rintro ⟨hx, rfl, hdata⟩
    exact ⟨c.source, hx, by rw [← hdata]⟩

theorem mem_drawnFrom {j : ℕ} {f : Rel → Rel} {g : Graph} {r c : Arc Rel} :
    c ∈ drawnFrom w j f g r ↔
      c.source = j ∧ c.target ∈ namesakes w g r.target ∧ c.data = f r.data := by
  rw [drawnFrom, mem_map]
  constructor
  · rintro ⟨y, hy, rfl⟩
    exact ⟨rfl, hy, rfl⟩
  · rintro ⟨rfl, hy, hdata⟩
    exact ⟨c.target, hy, by rw [← hdata]⟩

theorem mem_moved {a : Uuid} {i j : ℕ} {g : Graph} {c : Arc Rel} (h : c ∈ moved w a i j g) :
    (c.source ≠ i ∧ c.target ≠ i) ∧ ∃ r ∈ g.rels, r.data.isMovable w = true ∧
      c.data = r.data.mark a ∧
      ((r.target = i ∧ c.source ∈ namesakes w g r.source ∧ c.target = j) ∨
        (r.source = i ∧ c.source = j ∧ c.target ∈ namesakes w g r.target)) := by
  rw [moved, mem_filter, mem_append, mem_flatMap, mem_flatMap] at h
  obtain ⟨hdrawn, hoff⟩ := h
  refine ⟨by simpa using hoff, ?_⟩
  rcases hdrawn with ⟨r, hr, hc⟩ | ⟨r, hr, hc⟩
  · rw [into, mem_filter, Bool.and_eq_true, decide_eq_true_eq] at hr
    obtain ⟨hsource, htarget, hdata⟩ := mem_drawnTo.1 hc
    exact ⟨r, hr.1, hr.2.2, hdata, .inl ⟨hr.2.1, hsource, htarget⟩⟩
  · rw [outOf, mem_filter, Bool.and_eq_true, decide_eq_true_eq] at hr
    obtain ⟨hsource, htarget, hdata⟩ := mem_drawnFrom.1 hc
    exact ⟨r, hr.1, hr.2.2, hdata, .inr ⟨hr.2.1, hsource, htarget⟩⟩

theorem isMovable_mark (a : Uuid) (r : Rel) : (r.mark a).isMovable w = r.isMovable w := rfl

theorem isMoved_mark {a : Uuid} {r : Rel} (h : r.isMovable w = true) :
    (r.mark a).isMoved w a = true := by
  simp only [Rel.isMovable, Bool.and_eq_true, decide_eq_true_eq] at h
  simp [Rel.isMoved, Rel.mark, h.1.1]

theorem isMoved_of_mem_moved {a : Uuid} {i j : ℕ} {g : Graph} {c : Arc Rel}
    (h : c ∈ moved w a i j g) : c.data.isMoved w a = true := by
  obtain ⟨-, r, -, hmovable, hdata, -⟩ := mem_moved h
  rw [hdata]
  exact isMoved_mark hmovable

section

variable {a b : Uuid} {i j : ℕ} {g : Graph}
  (ha : g.refs (·.isEntity w a) = [i]) (hb : g.refs (·.isEntity w b) = [j])
  (hunmerged : IsUnmerged w a i g)

include ha hb hunmerged

/-- **What a merge leaves**: what it does not touch, the link, and what it has drawn. -/
theorem rels_mergeNodes_eq : (mergeNodes w a b g).1.rels =
    kept w i g ++ [mergeArc w i j] ++ moved w a i j g := by
  rw [rels_mergeNodes ha hb hunmerged.unlinked, append_assoc, filter_append,
    filter_append, kept, moved]
  have hlink : ([mergeArc w i j].filter fun r =>
      !isTestedAt (·.isMovable w) i r) = [mergeArc w i j] := by
    simp [isTestedAt, mergeArc, Rel.isMovable]
  rw [hlink]
  congr 1
  refine filter_congr fun c hc => ?_
  have hmovable : c.data.isMovable w = true := by
    rcases mem_append.1 hc with hc | hc
    · obtain ⟨r, hr, hc⟩ := mem_flatMap.1 hc
      rw [into, mem_filter, Bool.and_eq_true] at hr
      rw [(mem_drawnTo.1 hc).2.2, isMovable_mark]
      exact hr.2.2
    · obtain ⟨r, hr, hc⟩ := mem_flatMap.1 hc
      rw [outOf, mem_filter, Bool.and_eq_true] at hr
      rw [(mem_drawnFrom.1 hc).2.2, isMovable_mark]
      exact hr.2.2
  rw [isTestedAt, hmovable, Bool.and_true]

theorem filter_isMoved_mergeNodes (test : Arc Rel → Bool) :
    ((mergeNodes w a b g).1.rels.filter fun r =>
      test r && r.data.isMoved w a) = (moved w a i j g).filter test := by
  rw [rels_mergeNodes_eq ha hb hunmerged, filter_append, filter_append]
  have hkept : ((kept w i g).filter fun r => test r && r.data.isMoved w a) =
      [] := by
    rw [filter_eq_nil_iff]
    intro r hr
    simp [hunmerged.unmarked r (mem_filter.1 hr).1]
  have hlink : ([mergeArc w i j].filter fun r =>
      test r && r.data.isMoved w a) = [] := by
    simp [mergeArc, Rel.isMoved]
  rw [hkept, hlink, nil_append, nil_append]
  refine filter_congr fun c hc => ?_
  rw [isMoved_of_mem_moved hc, Bool.and_true]

/-- **What a merge and a split leave**: what the merge does not touch, and what the split has drawn
for what the merge had drawn. -/
theorem rels_split_mergeNodes : (split w a b (mergeNodes w a b g).1).rels =
      kept w i g ++ back w a i j g := by
  have hnodes := nodes_mergeNodes ha hb
  rw [rels_split ((refs_isEntity_of_flag hnodes a).trans ha)
    ((refs_isEntity_of_flag hnodes b).trans hb), drawnTo_of_flag hnodes, drawnFrom_of_flag hnodes,
    into, outOf, filter_isMoved_mergeNodes ha hb hunmerged,
    filter_isMoved_mergeNodes ha hb hunmerged, rels_mergeNodes_eq ha hb hunmerged,
    append_assoc, ← back, filter_filter, filter_append, filter_append,
    filter_append]
  have hkept : ((kept w i g).filter fun r =>
      (!isLink i j r && !isTestedAt (·.isMoved w a) j r)) = kept w i g := by
    rw [filter_eq_self]
    intro r hr
    have hmem := (mem_filter.1 hr).1
    have hlink : isLink i j r = false := by
      rw [← Bool.not_eq_true]
      intro h
      simp only [isLink, Bool.and_eq_true, decide_eq_true_eq] at h
      exact hunmerged.unlinked r hmem h.1.1 h.2
    rw [hlink, isTestedAt, hunmerged.unmarked r hmem, Bool.and_false]
    rfl
  have hlink : ([mergeArc w i j].filter fun r =>
      (!isLink i j r && !isTestedAt (·.isMoved w a) j r)) = [] := by
    simp [isLink, mergeArc]
  have hmoved : ((moved w a i j g).filter fun r =>
      (!isLink i j r && !isTestedAt (·.isMoved w a) j r)) = [] := by
    rw [filter_eq_nil_iff]
    intro c hc
    have hat : (decide (c.source = j) || decide (c.target = j)) = true := by
      obtain ⟨-, r, -, -, -, h⟩ := mem_moved hc
      rcases h with ⟨-, -, h⟩ | ⟨-, h, -⟩
      · simp [h]
      · simp [h]
    rw [isTestedAt, isMoved_of_mem_moved hc, hat]
    simp
  have hback : ((back w a i j g).filter fun r =>
      (!isLink i j r && !isTestedAt (·.isMoved w a) j r)) =
      back w a i j g := by
    rw [filter_eq_self]
    intro r hr
    obtain ⟨c, hc, hdata⟩ : ∃ c ∈ moved w a i j g, r.data = c.data.unmark := by
      rw [back, mem_append, mem_flatMap, mem_flatMap] at hr
      rcases hr with ⟨c, hc, hr⟩ | ⟨c, hc, hr⟩
      · exact ⟨c, (mem_filter.1 hc).1, (mem_drawnTo.1 hr).2.2⟩
      · exact ⟨c, (mem_filter.1 hc).1, (mem_drawnFrom.1 hr).2.2⟩
    obtain ⟨-, r₀, -, hmovable, hmark, -⟩ := mem_moved hc
    simp only [Rel.isMovable, Bool.and_eq_true, decide_eq_true_eq] at hmovable
    simp [isLink, isTestedAt, hdata, hmark, Rel.isMoved, Rel.unmark, Rel.mark, hmovable.1.2]
  rw [hkept, hlink, hmoved, hback, append_nil, append_nil]

end

/-! ### When everything comes back -/

variable {α β : Type*} {f : α → List β}

theorem length_le_length_flatMap {l : List α} {x : α} (hx : x ∈ l) :
    (f x).length ≤ (l.flatMap f).length := by
  induction l with
  | nil => exact absurd hx not_mem_nil
  | cons y l ih =>
    rw [flatMap_cons, length_append]
    rcases mem_cons.1 hx with rfl | hx
    · exact Nat.le_add_right _ _
    · exact (ih hx).trans (Nat.le_add_left _ _)

theorem length_le_of_ne_nil {l : List α} (h : ∀ x ∈ l, 1 ≤ (f x).length) :
    l.length ≤ (l.flatMap f).length := by
  induction l with
  | nil => exact Nat.zero_le _
  | cons x l ih =>
    have hx := h x mem_cons_self
    have hl := ih fun y hy => h y (mem_cons_of_mem _ hy)
    rw [flatMap_cons, length_append, length_cons]
    omega

theorem length_eq_one_of_flatMap {l : List α} (h : ∀ x ∈ l, 1 ≤ (f x).length)
    (hle : (l.flatMap f).length ≤ l.length) : ∀ x ∈ l, (f x).length = 1 := by
  induction l with
  | nil => exact fun x hx => absurd hx not_mem_nil
  | cons x l ih =>
    have hx := h x mem_cons_self
    have htail := length_le_of_ne_nil fun y hy => h y (mem_cons_of_mem _ hy)
    rw [flatMap_cons, length_append, length_cons] at hle
    intro y hy
    rcases mem_cons.1 hy with rfl | hy
    · omega
    · exact ih (fun z hz => h z (mem_cons_of_mem _ hz)) (by omega) y hy

theorem length_flatMap_filters (l : List α) (p q : α → Bool) (f h : α → List β) :
    ((l.filter p).flatMap f ++ (l.filter q).flatMap h).length =
      (l.flatMap fun x => (if p x then f x else []) ++ if q x then h x else []).length := by
  induction l with
  | nil => rfl
  | cons x l ih =>
    rw [length_append] at ih ⊢
    rw [flatMap_cons, length_append, length_append, ← ih]
    by_cases hp : p x = true
    · by_cases hq : q x = true
      · simp only [hp, hq, filter_cons_of_pos, flatMap_cons, length_append, if_true]
        omega
      · simp only [hp, hq, filter_cons_of_pos, filter_cons_of_neg, flatMap_cons, length_append,
          if_true, not_false_eq_true, length_nil, Bool.false_eq_true, if_false]
        omega
    · by_cases hq : q x = true
      · simp only [hp, hq, filter_cons_of_pos, filter_cons_of_neg, flatMap_cons, length_append,
          if_true, not_false_eq_true, length_nil, Bool.false_eq_true, if_false]
        omega
      · simp only [hp, hq, filter_cons_of_neg, not_false_eq_true, length_nil,
          Bool.false_eq_true, if_false]
        omega

theorem length_filter_or_le {α : Type*} (l : List α) (p q : α → Bool) :
    (l.filter fun x => p x || q x).length ≤ (l.filter p).length + (l.filter q).length := by
  induction l with
  | nil => exact Nat.zero_le _
  | cons x l ih =>
    cases hp : p x <;> cases hq : q x <;> simp only [filter_cons, hp, hq, Bool.or_false,
      Bool.or_true, if_true, if_false, length_cons, Bool.false_eq_true] <;> omega

section

variable {g : Graph} {x y : ℕ}

theorem mem_namesakes : x ∈ namesakes w g y ↔
    ∃ n, g.nodes.get? x = some n ∧ n.workspaceId = some w ∧ n.id.isSome = true ∧
      n.id = idOf g y := by
  rw [namesakes, mem_refs, has_iff]
  refine exists_congr fun n => and_congr_right fun _ => ?_
  simp [Node.hasKey, and_assoc]

theorem namesakes_eq_of_mem (h : x ∈ namesakes w g y) : namesakes w g x = namesakes w g y := by
  obtain ⟨n, hn, -, -, hid⟩ := mem_namesakes.1 h
  have hx : idOf g x = n.id := by rw [idOf, hn, Option.bind_some]
  rw [namesakes, namesakes, hx, hid]

theorem mem_namesakes_self (h : x ∈ namesakes w g y) : x ∈ namesakes w g x := by
  rw [namesakes_eq_of_mem h]
  exact h

theorem mem_namesakes_of_entity {a : Uuid} {i : ℕ}
    (ha : g.refs (·.isEntity w a) = [i]) : i ∈ namesakes w g i := by
  have hi : g.has (·.isEntity w a) i = true := by
    rw [has_of_refs ha, decide_eq_true_eq]
  obtain ⟨n, hn, hentity⟩ := has_iff.1 hi
  simp only [Node.isEntity, Node.isIn, Bool.and_eq_true, decide_eq_true_eq] at hentity
  refine mem_namesakes.2 ⟨n, hn, hentity.1.2, by rw [hentity.2]; rfl, ?_⟩
  rw [idOf, hn, Option.bind_some]

end

/-- The relationship carries no mark and joins the merged entity to a third node, which its own id
finds and nothing else. -/
def ComesBack (workspaceId : Uuid) (g : Graph) (i j : ℕ) (r : Arc Rel) : Prop :=
  r.data.originalNodeId = none ∧
    ∀ x, (r.source = x ∧ r.target = i) ∨ (r.source = i ∧ r.target = x) →
      x ≠ i ∧ x ≠ j ∧ namesakes workspaceId g x = [x]

/-- Every relationship that a merge moves comes back. -/
def IsReversible (workspaceId : Uuid) (g : Graph) (i j : ℕ) : Prop :=
  ∀ r ∈ g.rels, isTestedAt (·.isMovable workspaceId) i r = true → ComesBack workspaceId g i j r

theorem flatMap_eq_map {l : List α} {h : α → β} (hf : ∀ x ∈ l, f x = [h x]) :
    l.flatMap f = l.map h := by
  rw [map_eq_flatMap]
  exact flatMap_congr hf

section

variable {a : Uuid} {i j : ℕ} {g : Graph}

variable {r : Arc Rel}

theorem mem_into {test : Rel → Bool} :
    r ∈ into test i g.rels ↔ r ∈ g.rels ∧ r.target = i ∧ test r.data = true := by
  rw [into, mem_filter, Bool.and_eq_true, decide_eq_true_eq]

theorem mem_outOf {test : Rel → Bool} :
    r ∈ outOf test i g.rels ↔ r ∈ g.rels ∧ r.source = i ∧ test r.data = true := by
  rw [outOf, mem_filter, Bool.and_eq_true, decide_eq_true_eq]

theorem comesBack_of_mem_into (h : IsReversible w g i j) (hr : r ∈ into (·.isMovable w) i g.rels) :
    r.data.originalNodeId = none ∧ r.source ≠ i ∧ r.source ≠ j ∧
      namesakes w g r.source = [r.source] := by
  obtain ⟨hmem, htarget, hmovable⟩ := mem_into.1 hr
  obtain ⟨hmark, hother⟩ := h r hmem (by simp [isTestedAt, htarget, hmovable])
  exact ⟨hmark, hother r.source (.inl ⟨rfl, htarget⟩)⟩

theorem comesBack_of_mem_outOf (h : IsReversible w g i j)
    (hr : r ∈ outOf (·.isMovable w) i g.rels) :
    r.data.originalNodeId = none ∧ r.target ≠ i ∧ r.target ≠ j ∧
      namesakes w g r.target = [r.target] := by
  obtain ⟨hmem, hsource, hmovable⟩ := mem_outOf.1 hr
  obtain ⟨hmark, hother⟩ := h r hmem (by simp [isTestedAt, hsource, hmovable])
  exact ⟨hmark, hother r.target (.inr ⟨hsource, rfl⟩)⟩

theorem moved_of_isReversible (hij : i ≠ j) (h : IsReversible w g i j) : moved w a i j g =
      ((into (·.isMovable w) i g.rels).map fun r => ⟨r.source, j, r.data.mark a⟩) ++
        (outOf (·.isMovable w) i g.rels).map fun r => ⟨j, r.target, r.data.mark a⟩ := by
  have hinto : (into (·.isMovable w) i g.rels).flatMap (drawnTo w j (Rel.mark a) g) =
      (into (·.isMovable w) i g.rels).map fun r => ⟨r.source, j, r.data.mark a⟩ := by
    refine flatMap_eq_map fun r hr => ?_
    rw [drawnTo, (comesBack_of_mem_into h hr).2.2.2]
    rfl
  have houtOf : (outOf (·.isMovable w) i g.rels).flatMap (drawnFrom w j (Rel.mark a) g) =
      (outOf (·.isMovable w) i g.rels).map fun r => ⟨j, r.target, r.data.mark a⟩ := by
    refine flatMap_eq_map fun r hr => ?_
    rw [drawnFrom, (comesBack_of_mem_outOf h hr).2.2.2]
    rfl
  rw [moved, hinto, houtOf, filter_eq_self]
  intro c hc
  rcases mem_append.1 hc with hc | hc
  · obtain ⟨r, hr, rfl⟩ := mem_map.1 hc
    simp [(comesBack_of_mem_into h hr).2.1, hij.symm]
  · obtain ⟨r, hr, rfl⟩ := mem_map.1 hc
    simp [(comesBack_of_mem_outOf h hr).2.1, hij.symm]

theorem back_of_isReversible (hij : i ≠ j) (h : IsReversible w g i j) :
    back w a i j g = into (·.isMovable w) i g.rels ++
      outOf (·.isMovable w) i g.rels := by
  have hunmark : ∀ r : Rel, r.originalNodeId = none → (r.mark a).unmark = r := by
    intro r hr
    rw [Rel.unmark, Rel.mark, ← hr]
  rw [back, moved_of_isReversible hij h, filter_append, filter_append]
  congr 1
  · -- the relationships from the target do not end there
    have houtOf : (((outOf (·.isMovable w) i g.rels).map fun r =>
        (⟨j, r.target, r.data.mark a⟩ : Arc Rel)).filter fun r => r.target = j) = [] := by
      rw [filter_eq_nil_iff]
      intro c hc
      obtain ⟨r, hr, rfl⟩ := mem_map.1 hc
      simp [(comesBack_of_mem_outOf h hr).2.2.1]
    have hinto : (((into (·.isMovable w) i g.rels).map fun r =>
        (⟨r.source, j, r.data.mark a⟩ : Arc Rel)).filter fun r => r.target = j) =
        (into (·.isMovable w) i g.rels).map fun r => ⟨r.source, j, r.data.mark a⟩ := by
      rw [filter_eq_self]
      intro c hc
      obtain ⟨r, hr, rfl⟩ := mem_map.1 hc
      simp
    rw [houtOf, hinto, append_nil, flatMap_map]
    refine (flatMap_eq_map fun r hr => ?_).trans (map_id _)
    obtain ⟨hmark, -, -, hself⟩ := comesBack_of_mem_into h hr
    rw [drawnTo, hself, map_cons, map_nil, hunmark _ hmark, ← (mem_into.1 hr).2.1]
    rfl
  · have hinto : (((into (·.isMovable w) i g.rels).map fun r =>
        (⟨r.source, j, r.data.mark a⟩ : Arc Rel)).filter fun r => r.source = j) = [] := by
      rw [filter_eq_nil_iff]
      intro c hc
      obtain ⟨r, hr, rfl⟩ := mem_map.1 hc
      simp [(comesBack_of_mem_into h hr).2.2.1]
    have houtOf : (((outOf (·.isMovable w) i g.rels).map fun r =>
        (⟨j, r.target, r.data.mark a⟩ : Arc Rel)).filter fun r => r.source = j) =
        (outOf (·.isMovable w) i g.rels).map fun r => ⟨j, r.target, r.data.mark a⟩ := by
      rw [filter_eq_self]
      intro c hc
      obtain ⟨r, hr, rfl⟩ := mem_map.1 hc
      simp
    rw [hinto, houtOf, nil_append, flatMap_map]
    refine (flatMap_eq_map fun r hr => ?_).trans (map_id _)
    obtain ⟨hmark, -, -, hself⟩ := comesBack_of_mem_outOf h hr
    rw [drawnFrom, hself, map_cons, map_nil, hunmark _ hmark, ← (mem_outOf.1 hr).2.1]
    rfl

theorem perm_of_isReversible (h : IsReversible w g i j) :
    (into (·.isMovable w) i g.rels ++ outOf (·.isMovable w) i g.rels).Perm
      (g.rels.filter (isTestedAt (·.isMovable w) i)) := by
  have hinto : into (·.isMovable w) i g.rels =
      (g.rels.filter (isTestedAt (·.isMovable w) i)).filter fun r => r.target = i := by
    rw [into, filter_filter]
    refine filter_congr fun r _ => ?_
    by_cases hr : r.target = i <;> simp [isTestedAt, hr]
  have houtOf : outOf (·.isMovable w) i g.rels =
      (g.rels.filter (isTestedAt (·.isMovable w) i)).filter fun r => !decide (r.target = i) := by
    rw [outOf, filter_filter]
    refine filter_congr fun r hr => ?_
    by_cases htarget : r.target = i
    · by_cases hboth : r.source = i ∧ r.data.isMovable w = true
      · exact absurd htarget (comesBack_of_mem_outOf h (mem_outOf.2 ⟨hr, hboth⟩)).2.1
      · rw [not_and] at hboth
        by_cases hsource : r.source = i
        · simp [hsource, htarget, hboth hsource]
        · simp [hsource, htarget]
    · simp [isTestedAt, htarget]
  rw [hinto, houtOf]
  exact filter_append_perm _ _

/-- What a split draws for one relationship. -/
def backOf (workspaceId : Uuid) (i j : ℕ) (g : Graph) (c : Arc Rel) : List (Arc Rel) :=
  (if c.target = j then drawnTo workspaceId i Rel.unmark g c else []) ++
    if c.source = j then drawnFrom workspaceId i Rel.unmark g c else []

/-- What comes back for a relationship to the merged entity. -/
def backInto (workspaceId a : Uuid) (i j : ℕ) (g : Graph) (r : Arc Rel) : List (Arc Rel) :=
  ((drawnTo workspaceId j (Rel.mark a) g r).filter fun c =>
    !(decide (c.source = i) || decide (c.target = i))).flatMap (backOf workspaceId i j g)

/-- What comes back for a relationship from the merged entity. -/
def backOutOf (workspaceId a : Uuid) (i j : ℕ) (g : Graph) (r : Arc Rel) : List (Arc Rel) :=
  ((drawnFrom workspaceId j (Rel.mark a) g r).filter fun c =>
    !(decide (c.source = i) || decide (c.target = i))).flatMap (backOf workspaceId i j g)

theorem length_back : (back w a i j g).length =
    ((into (·.isMovable w) i g.rels).flatMap (backInto w a i j g)).length +
      ((outOf (·.isMovable w) i g.rels).flatMap
        (backOutOf w a i j g)).length := by
  have hflat : (moved w a i j g).flatMap (backOf w i j g) =
      (into (·.isMovable w) i g.rels).flatMap (backInto w a i j g) ++
        (outOf (·.isMovable w) i g.rels).flatMap (backOutOf w a i j g) := by
    rw [moved, filter_append, filter_flatMap, filter_flatMap, flatMap_append,
      flatMap_assoc, flatMap_assoc]
    rfl
  rw [← length_append, ← hflat, back, length_flatMap_filters]
  simp only [decide_eq_true_eq]
  rfl

section

variable {r : Arc Rel} {x : ℕ}

theorem sole_of_length {y l : ℕ} (hx : x ∈ namesakes w g y) (hxi : x ≠ i)
    (hle : (namesakes w g y).length +
      (if x = j then namesakes w g j else []).length ≤ l) :
    1 ≤ l ∧ (y ∈ namesakes w g y → l = 1 →
      y ≠ i ∧ y ≠ j ∧ namesakes w g y = [y]) := by
  have hpos : 1 ≤ (namesakes w g y).length := length_pos_of_mem hx
  refine ⟨by omega, fun hself hone => ?_⟩
  have hsingle : namesakes w g y = [y] := by
    obtain ⟨z, hz⟩ := length_eq_one_iff.1 (by omega : (namesakes w g y).length = 1)
    rw [hz, mem_singleton] at hself
    rw [hz, ← hself]
  have hxy : x = y := by
    rw [hsingle, mem_singleton] at hx
    exact hx
  refine ⟨hxy ▸ hxi, fun hj => ?_, hsingle⟩
  -- a relationship of the two entities is read in both directions
  rw [if_pos (hxy.trans hj), ← hj] at hle
  omega

theorem backInto_length (hx : x ∈ namesakes w g r.source) (hxi : x ≠ i) (hij : i ≠ j) :
    1 ≤ (backInto w a i j g r).length ∧
      (r.source ∈ namesakes w g r.source →
        (backInto w a i j g r).length = 1 →
        r.source ≠ i ∧ r.source ≠ j ∧ namesakes w g r.source = [r.source]) := by
  have hc : (⟨x, j, r.data.mark a⟩ : Arc Rel) ∈ (drawnTo w j (Rel.mark a) g r).filter fun c =>
        !(decide (c.source = i) || decide (c.target = i)) := by
    rw [mem_filter]
    exact ⟨mem_drawnTo.2 ⟨hx, rfl, rfl⟩, by simp [hxi, hij.symm]⟩
  have hle : (backOf w i j g ⟨x, j, r.data.mark a⟩).length ≤
      (backInto w a i j g r).length := length_le_length_flatMap hc
  refine sole_of_length hx hxi (le_trans (le_of_eq ?_) hle)
  rw [backOf, if_pos rfl, length_append, drawnTo, length_map, namesakes_eq_of_mem hx]
  split
  · rw [drawnFrom, length_map]
  · rfl

theorem backOutOf_length (hx : x ∈ namesakes w g r.target) (hxi : x ≠ i) (hij : i ≠ j) :
    1 ≤ (backOutOf w a i j g r).length ∧
      (r.target ∈ namesakes w g r.target →
        (backOutOf w a i j g r).length = 1 →
        r.target ≠ i ∧ r.target ≠ j ∧ namesakes w g r.target = [r.target]) := by
  have hc : (⟨j, x, r.data.mark a⟩ : Arc Rel) ∈ (drawnFrom w j (Rel.mark a) g r).filter fun c =>
        !(decide (c.source = i) || decide (c.target = i)) := by
    rw [mem_filter]
    exact ⟨mem_drawnFrom.2 ⟨rfl, hx, rfl⟩, by simp [hxi, hij.symm]⟩
  have hle : (backOf w i j g ⟨j, x, r.data.mark a⟩).length ≤
      (backOutOf w a i j g r).length := length_le_length_flatMap hc
  refine sole_of_length hx hxi (le_trans (le_of_eq ?_) hle)
  rw [backOf, if_pos (c := (⟨j, x, r.data.mark a⟩ : Arc Rel).source = j) rfl, length_append,
    drawnFrom, length_map, namesakes_eq_of_mem hx, Nat.add_comm]
  split
  · rw [drawnTo, length_map]
  · rfl

end

theorem spare_of_mem_back {b : Uuid} (hb : g.refs (·.isEntity w b) = [j])
    (hr : r ∈ back w a i j g) :
    r.data.originalNodeId = none ∧
      ((r.target = i ∧ r.source ∈ namesakes w g r.source ∧
          ∃ x ∈ namesakes w g r.source, x ≠ i) ∨
        (r.source = i ∧ r.target ∈ namesakes w g r.target ∧
          ∃ x ∈ namesakes w g r.target, x ≠ i)) := by
  have hj := mem_namesakes_of_entity hb
  rw [back, mem_append, mem_flatMap, mem_flatMap] at hr
  rcases hr with ⟨c, hc, hr⟩ | ⟨c, hc, hr⟩
  · obtain ⟨hsource, htarget, hdata⟩ := mem_drawnTo.1 hr
    obtain ⟨⟨hci, -⟩, r₀, -, -, -, hfrom⟩ := mem_moved (mem_filter.1 hc).1
    refine ⟨by rw [hdata]; rfl, .inl ⟨htarget, mem_namesakes_self hsource, c.source, ?_, hci⟩⟩
    rw [namesakes_eq_of_mem hsource]
    rcases hfrom with ⟨-, hself, -⟩ | ⟨-, hself, -⟩
    · exact mem_namesakes_self hself
    · exact hself ▸ hj
  · obtain ⟨hsource, htarget, hdata⟩ := mem_drawnFrom.1 hr
    obtain ⟨⟨-, hci⟩, r₀, -, -, -, hfrom⟩ := mem_moved (mem_filter.1 hc).1
    refine ⟨by rw [hdata]; rfl, .inr ⟨hsource, mem_namesakes_self htarget, c.target, ?_, hci⟩⟩
    rw [namesakes_eq_of_mem htarget]
    rcases hfrom with ⟨-, -, hself⟩ | ⟨-, -, hself⟩
    · exact hself ▸ hj
    · exact mem_namesakes_self hself

theorem isReversible_of_perm {b : Uuid} (hb : g.refs (·.isEntity w b) = [j])
    (hij : i ≠ j) (h : (back w a i j g).Perm
      (g.rels.filter (isTestedAt (·.isMovable w) i))) :
    IsReversible w g i j := by
  have hspare : ∀ r ∈ g.rels, isTestedAt (·.isMovable w) i r = true → r ∈ back w a i j g :=
    fun r hr htest => h.mem_iff.2 (mem_filter.2 ⟨hr, htest⟩)
  -- the other end of each has a namesake, so each comes back at least once
  have hinto : ∀ r ∈ into (·.isMovable w) i g.rels, r.source ∈ namesakes w g r.source ∧
        ∃ x ∈ namesakes w g r.source, x ≠ i := by
    intro r hr
    obtain ⟨hmem, htarget, hmovable⟩ := mem_into.1 hr
    rcases (spare_of_mem_back hb (hspare r hmem (by simp [isTestedAt, htarget, hmovable]))).2 with
      ⟨-, hself⟩ | ⟨hsource, hself⟩
    · exact hself
    · rw [hsource, ← htarget]
      exact htarget.symm ▸ hself
  have houtOf : ∀ r ∈ outOf (·.isMovable w) i g.rels, r.target ∈ namesakes w g r.target ∧
        ∃ x ∈ namesakes w g r.target, x ≠ i := by
    intro r hr
    obtain ⟨hmem, hsource, hmovable⟩ := mem_outOf.1 hr
    rcases (spare_of_mem_back hb (hspare r hmem (by simp [isTestedAt, hsource, hmovable]))).2 with
      ⟨htarget, hself⟩ | ⟨-, hself⟩
    · rw [htarget, ← hsource]
      exact hsource.symm ▸ hself
    · exact hself
  have hposInto : ∀ r ∈ into (·.isMovable w) i g.rels, 1 ≤ (backInto w a i j g r).length := by
    intro r hr
    obtain ⟨-, x, hx, hxi⟩ := hinto r hr
    exact (backInto_length hx hxi hij).1
  have hposOutOf : ∀ r ∈ outOf (·.isMovable w) i g.rels, 1 ≤ (backOutOf w a i j g r).length := by
    intro r hr
    obtain ⟨-, x, hx, hxi⟩ := houtOf r hr
    exact (backOutOf_length hx hxi hij).1
  -- no more come back than there were, so each comes back once
  have htotal := h.length_eq
  have hbound : (g.rels.filter (isTestedAt (·.isMovable w) i)).length ≤
      (into (·.isMovable w) i g.rels).length + (outOf (·.isMovable w) i g.rels).length := by
    have hor := length_filter_or_le g.rels (fun r => decide (r.target = i) && r.data.isMovable w)
      (fun r => decide (r.source = i) && r.data.isMovable w)
    refine le_trans (le_of_eq ?_) hor
    congr 1
    refine filter_congr fun r _ => ?_
    rw [isTestedAt, Bool.and_or_distrib_right, Bool.or_comm]
  rw [length_back] at htotal
  have hleInto := length_le_of_ne_nil hposInto
  have hleOutOf := length_le_of_ne_nil hposOutOf
  have honeInto := length_eq_one_of_flatMap hposInto (by omega)
  have honeOutOf := length_eq_one_of_flatMap hposOutOf (by omega)
  intro r hr htest
  refine ⟨(spare_of_mem_back hb (hspare r hr htest)).1, ?_⟩
  rw [isTestedAt, Bool.and_eq_true] at htest
  rintro x (⟨rfl, htarget⟩ | ⟨hsource, rfl⟩)
  · have hmem : r ∈ into (·.isMovable w) i g.rels := mem_into.2 ⟨hr, htarget, htest.2⟩
    obtain ⟨hself, x, hx, hxi⟩ := hinto r hmem
    exact (backInto_length hx hxi hij).2 hself (honeInto r hmem)
  · have hmem : r ∈ outOf (·.isMovable w) i g.rels := mem_outOf.2 ⟨hr, hsource, htest.2⟩
    obtain ⟨hself, x, hx, hxi⟩ := houtOf r hmem
    exact (backOutOf_length hx hxi hij).2 hself (honeOutOf r hmem)

theorem back_perm_iff {b : Uuid} (hb : g.refs (·.isEntity w b) = [j]) (hij : i ≠ j) :
    (back w a i j g).Perm (g.rels.filter (isTestedAt (·.isMovable w) i)) ↔
      IsReversible w g i j := by
  refine ⟨isReversible_of_perm hb hij, fun h => ?_⟩
  rw [back_of_isReversible hij h]
  exact perm_of_isReversible h

end

/-- The graph is as it was: the same nodes, and the same relationships as often. -/
structure Restored (g g' : Graph) : Prop where
  nodes : g'.nodes = g.nodes
  rels : g'.rels.Perm g.rels

section

variable {a b : Uuid} {i j : ℕ} {g : Graph}

theorem ne_of_refs (hab : a ≠ b) (ha : g.refs (·.isEntity w a) = [i])
    (hb : g.refs (·.isEntity w b) = [j]) : i ≠ j := by
  rintro rfl
  have hhas : ∀ id, g.refs (·.isEntity w id) = [i] → idOf g i = some id := by
    intro id hid
    have hi : g.has (·.isEntity w id) i = true := by
      rw [has_of_refs hid, decide_eq_true_eq]
    obtain ⟨n, hn, hentity⟩ := has_iff.1 hi
    simp only [Node.isEntity, Bool.and_eq_true, decide_eq_true_eq] at hentity
    rw [idOf, hn, Option.bind_some]
    exact hentity.2
  exact hab (Option.some.inj ((hhas a ha).symm.trans (hhas b hb)))

theorem flag_flag (ha : g.refs (·.isEntity w a) = [i]) (hunmerged : IsUnmerged w a i g) :
    (g.nodes.map (Node.flag w a (some true) (some b))).map
      (Node.flag w a none none) = g.nodes := by
  have hitems : ∀ item ∈ g.nodes.items,
      ((item.2.flag w a (some true) (some b) item.1).flag w a none none item.1) = item.2 := by
    intro item hitem
    by_cases hentity : item.2.isEntity w a = true
    · have hi : item.1 = i := by
        have hmem : item.1 ∈ g.refs (·.isEntity w a) :=
          mem_map_of_mem (mem_filter.2 ⟨hitem, hentity⟩)
        rwa [ha, mem_singleton] at hmem
      obtain ⟨hmerged, htarget⟩ := hunmerged.unflagged item.2 (hi ▸ Dict.get?_of_mem_items hitem)
      rw [Node.flag, isEntity_flag, if_pos hentity, Node.flag, if_pos hentity, ← hmerged, ← htarget]
    · rw [Node.flag, isEntity_flag, if_neg hentity, Node.flag, if_neg hentity]
  have heq : ((g.nodes.map (Node.flag w a (some true) (some b))).map
      (Node.flag w a none none)).items = g.nodes.items := by
    simp only [Dict.map, map_map]
    refine (map_congr_left fun item hitem => ?_).trans (map_id _)
    exact Prod.ext rfl (hitems item hitem)
  cases hd : g.nodes with
  | mk items nodup =>
    rw [hd] at heq
    simp only [Dict.map] at heq ⊢
    congr 1

theorem unmergeNode_of_flag {g' : Graph}
    (hnodes : g'.nodes = g.nodes.map (Node.flag w a (some true) (some b)))
    (ha : g.refs (·.isEntity w a) = [i]) :
    unmergeNode w a g' = (split w a b g', true) := by
  have hi : g.has (·.isEntity w a) i = true := by
    rw [has_of_refs ha, decide_eq_true_eq]
  obtain ⟨n, hn, hentity⟩ := has_iff.1 hi
  have hn' : g'.nodes.get? i = some (n.flag w a (some true) (some b) i) := by
    rw [hnodes, Dict.get?_map, hn]
    rfl
  refine unmergeNode_eq ((refs_isEntity_of_flag hnodes a).trans ha) hn' ?_ ?_
  · rw [Node.flag, if_pos hentity]
  · rw [Node.flag, if_pos hentity]

theorem restored_iff (hab : a ≠ b) (ha : g.refs (·.isEntity w a) = [i])
    (hb : g.refs (·.isEntity w b) = [j]) (hunmerged : IsUnmerged w a i g) :
    Restored g (unmergeNode w a (mergeNodes w a b g).1).1 ↔
      IsReversible w g i j := by
  rw [unmergeNode_of_flag (nodes_mergeNodes ha hb) ha,
    ← back_perm_iff (a := a) hb (ne_of_refs hab ha hb)]
  have hperm : g.rels.Perm (kept w i g ++ g.rels.filter (isTestedAt (·.isMovable w) i)) :=
    ((filter_append_perm (isTestedAt (·.isMovable w) i) g.rels).symm.trans perm_append_comm)
  constructor
  · intro h
    have hrels := h.rels
    rw [rels_split_mergeNodes ha hb hunmerged] at hrels
    exact (perm_append_left_iff _).1 (hrels.trans hperm)
  · intro h
    refine ⟨?_, ?_⟩
    · rw [nodes_split, nodes_mergeNodes ha hb, flag_flag ha hunmerged]
    · rw [rels_split_mergeNodes ha hb hunmerged]
      exact ((perm_append_left_iff _).2 h).trans hperm.symm

end

end Omniscience.Cypher
