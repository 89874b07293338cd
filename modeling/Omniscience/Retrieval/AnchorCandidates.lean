import Omniscience.Retrieval.GraphRag
import Omniscience.Retrieval.Reachability

/-!
# The candidates of an anchor

The anchor stage drops related entities twice: those beyond the watermark of their source, whose
edges go with them and whose neighbours have to be reached in another way, and those that the
database does not know as valid, which go alone.  The candidates are taken from what is left, and
ranked by degrees in all the edges.

`grounded_iff` says for which edges and valid names the second filter does what the first one does.
-/

namespace Omniscience.GraphRag

open Retrieval List

/-- The names that the database validates of a traversal. -/
def validNames (c : Composer) (workspaceId : Uuid) (graph : GraphResultView) : List String :=
  validateEntities c.database (graph.seed.name :: graph.related.map EntityNodeView.name) workspaceId

/-- The edges between validated entities. -/
def validEdges (valid : List String) (edges : List GraphEdgeView) : List GraphEdgeView :=
  edges.filter fun e => decide (e.fromEntity ∈ valid ∧ e.toEntity ∈ valid)

/-- What `traverse` returns: the related nodes are at the ends of paths of returned edges. -/
def Traversed (graph : GraphResultView) : Prop :=
  ∀ node ∈ graph.related, Connected graph.edges graph.seed.name node.name

/-- The seed, or a validated related entity. -/
def Validated (valid : List String) (graph : GraphResultView) (node : EntityNodeView) : Prop :=
  (node = graph.seed ∨ node ∈ graph.related) ∧ node.name ∈ valid

/-- **The candidates stand on validated entities**: each is the source of a validated entity that is
connected with the seed through validated ones, and the degrees that rank them count the edges
between validated entities only. -/
structure Grounded (valid : List String) (graph : GraphResultView) (candidates : List Candidate) :
    Prop where
  candidates : ∀ candidate ∈ candidates, ∃ node, Validated valid graph node ∧
    node.source = candidate.source ∧
      Connected (validEdges valid graph.edges) graph.seed.name node.name
  degrees : ∀ node, Validated valid graph node →
    degree graph.edges node.name = degree (validEdges valid graph.edges) node.name

/-- The stage passes on grounded candidates, if it comes to collect any: `graph` is what the pin
leaves of the traversal. -/
def PassesGrounded (c : Composer) (workspaceId : Uuid) (watermarks : Option Watermarks)
    (anchorName : String) (traversed : GraphResultView) : Prop :=
  ∀ graph, pinGraph c.strictEpoch watermarks traversed = some graph →
    graph.seed.name ∈ validNames c workspaceId graph →
      Grounded (validNames c workspaceId graph) graph
        (anchorOf c workspaceId watermarks anchorName traversed).candidates

/-- No edge that the pin leaves joins a validated entity with one that is not. -/
def Separated (c : Composer) (workspaceId : Uuid) (watermarks : Option Watermarks)
    (traversed : GraphResultView) : Prop :=
  ∀ graph, pinGraph c.strictEpoch watermarks traversed = some graph →
    graph.seed.name ∈ validNames c workspaceId graph → ∀ e ∈ graph.edges,
      (e.fromEntity ∈ validNames c workspaceId graph ↔ e.toEntity ∈ validNames c workspaceId graph)

/-! ### Degrees -/

section

variable {valid : List String} {edges : List GraphEdgeView} {name : String}

theorem degree_cons (e : GraphEdgeView) (edges : List GraphEdgeView) (name : String) :
    degree (e :: edges) name = degree edges name +
      ((if e.fromEntity = name then 1 else 0) + if e.toEntity = name then 1 else 0) := by
  simp only [degree, map_cons, count_cons, beq_iff_eq]
  omega

theorem degree_validEdges_le : degree (validEdges valid edges) name ≤ degree edges name := by
  rw [validEdges]
  exact Nat.add_le_add ((filter_sublist.map _).count_le name) ((filter_sublist.map _).count_le name)

theorem degree_validEdges_eq_iff : degree edges name = degree (validEdges valid edges) name ↔
    ∀ e ∈ edges, e.fromEntity = name ∨ e.toEntity = name →
      e.fromEntity ∈ valid ∧ e.toEntity ∈ valid := by
  induction edges with
  | nil => exact iff_of_true rfl (by rintro _ ⟨⟩)
  | cons e edges ih =>
    have hle : degree (validEdges valid edges) name ≤ degree edges name := degree_validEdges_le
    rw [forall_mem_cons, ← ih, degree_cons]
    by_cases hvalid : e.fromEntity ∈ valid ∧ e.toEntity ∈ valid
    · have hcons : validEdges valid (e :: edges) = e :: validEdges valid edges :=
        filter_cons_of_pos (decide_eq_true hvalid)
      rw [hcons, degree_cons, Nat.add_right_cancel_iff]
      exact (and_iff_right fun _ => hvalid).symm
    · have hcons : validEdges valid (e :: edges) = validEdges valid edges :=
        filter_cons_of_neg (by simpa using hvalid)
      rw [hcons]
      by_cases hend : e.fromEntity = name ∨ e.toEntity = name
      · -- an edge at the entity that is not counted
        refine iff_of_false (fun heq => ?_) fun h => hvalid (h.1 hend)
        rcases hend with hend | hend
        · rw [if_pos hend] at heq
          omega
        · rw [if_pos hend] at heq
          omega
      · rw [not_or] at hend
        rw [if_neg hend.1, if_neg hend.2, Nat.add_zero]
        exact (and_iff_right fun h => absurd h (not_or.2 hend)).symm

end

/-! ### Paths -/

section

variable {valid : List String} {graph : GraphResultView}

theorem connected_validEdges (hseed : graph.seed.name ∈ valid)
    (hedges : ∀ e ∈ graph.edges, e.fromEntity ∈ valid ↔ e.toEntity ∈ valid) {name : String}
    (h : Connected graph.edges graph.seed.name name) :
    name ∈ valid ∧ Connected (validEdges valid graph.edges) graph.seed.name name := by
  induction h with
  | refl => exact ⟨hseed, .refl⟩
  | tail _ hstep ih =>
    obtain ⟨hvalid, hpath⟩ := ih
    obtain ⟨e, he, ⟨rfl, rfl⟩ | ⟨rfl, rfl⟩⟩ := mem_neighbours_iff.1 hstep
    · have hto := (hedges e he).1 hvalid
      have hmem : e ∈ validEdges valid graph.edges :=
        mem_filter.2 ⟨he, decide_eq_true ⟨hvalid, hto⟩⟩
      exact ⟨hto, hpath.tail (mem_neighbours_iff.2 ⟨e, hmem, .inl ⟨rfl, rfl⟩⟩)⟩
    · have hfrom := (hedges e he).2 hvalid
      have hmem : e ∈ validEdges valid graph.edges :=
        mem_filter.2 ⟨he, decide_eq_true ⟨hfrom, hvalid⟩⟩
      exact ⟨hfrom, hpath.tail (mem_neighbours_iff.2 ⟨e, hmem, .inr ⟨rfl, rfl⟩⟩)⟩

theorem Traversed.pinGraph {strictEpoch : Bool} {watermarks : Option Watermarks}
    {traversed : GraphResultView} (h : Traversed traversed)
    (hpin : GraphRag.pinGraph strictEpoch watermarks traversed = some graph) : Traversed graph := by
  cases watermarks with
  | none =>
    cases hpin
    exact h
  | some watermarks =>
    simp only [GraphRag.pinGraph] at hpin
    split_ifs at hpin with hempty hexcluded
    · cases hpin
      exact h
    · cases hpin
      have hseed : seedAhead watermarks traversed.seed = false := by
        by_contra hahead
        rw [Bool.not_eq_false] at hahead
        simp [applyGraphWatermarkFilter, hahead] at hexcluded
      by_cases hnames : excludedNames watermarks strictEpoch traversed = []
      · rw [(filter_of_nil hseed hnames).1]
        exact h
      · obtain ⟨hsame, hedges, hrelated⟩ := filter_of_ne_nil hseed hnames
        intro node hnode
        rw [hsame, hedges]
        exact ((hrelated node).1 hnode).2.2

end

/-! ### The stage -/

section

variable {c : Composer} {workspaceId w : Uuid} {watermarks : Option Watermarks} {anchorName : String}
  {traversed graph : GraphResultView}

theorem exists_validated {name : String} (h : name ∈ validNames c w graph) :
    ∃ node, Validated (validNames c w graph) graph node ∧ node.name = name := by
  have hname : name ∈ graph.seed.name :: graph.related.map EntityNodeView.name := by
    have hmem := h
    rw [validNames] at hmem
    cases hdb : c.database with
    | none =>
      rw [hdb] at hmem
      exact hmem
    | some db =>
      rw [hdb] at hmem
      obtain ⟨row, hrow, rfl⟩ := mem_map.1 hmem
      have htest := (mem_filter.1 hrow).2
      simp only [Bool.and_eq_true, decide_eq_true_eq] at htest
      exact htest.1.1
  rcases mem_cons.1 hname with rfl | hname
  · exact ⟨graph.seed, ⟨.inl rfl, h⟩, rfl⟩
  · obtain ⟨node, hnode, rfl⟩ := mem_map.1 hname
    exact ⟨node, ⟨.inr hnode, h⟩, rfl⟩

theorem exists_validated_of_candidate
    (hpin : GraphRag.pinGraph c.strictEpoch watermarks traversed = some graph)
    (hseed : graph.seed.name ∈ validNames c w graph) {candidate : Candidate}
    (h : candidate ∈ (anchorOf c w watermarks anchorName traversed).candidates) :
    ∃ node, Validated (validNames c w graph) graph node ∧
      node.source = candidate.source := by
  have hvalid : graph.seed.name ∈ validateEntities c.database
      (graph.seed.name :: graph.related.map EntityNodeView.name) w := hseed
  simp only [anchorOf, hpin, if_pos hvalid] at h
  have hsource := source_mem_of_collectCandidates h
  rw [sourcesOf_markParked] at hsource
  rcases mem_cons.1 hsource with hsource | hsource
  · exact ⟨graph.seed, ⟨.inl rfl, hseed⟩, hsource.symm⟩
  · obtain ⟨node, hnode, hnodeSource⟩ := mem_map.1 hsource
    obtain ⟨hmem, htest⟩ := mem_filter.1 hnode
    exact ⟨node, ⟨.inr hmem, of_decide_eq_true htest⟩, hnodeSource⟩

theorem degrees_iff : (∀ node, Validated (validNames c w graph) graph node →
      degree graph.edges node.name =
        degree (validEdges (validNames c w graph) graph.edges) node.name) ↔
    ∀ e ∈ graph.edges,
      (e.fromEntity ∈ validNames c w graph ↔
        e.toEntity ∈ validNames c w graph) := by
  constructor
  · intro h e he
    constructor
    · intro hfrom
      obtain ⟨node, hnode, hname⟩ := exists_validated hfrom
      exact (degree_validEdges_eq_iff.1 (h node hnode) e he (.inl hname.symm)).2
    · intro hto
      obtain ⟨node, hnode, hname⟩ := exists_validated hto
      exact (degree_validEdges_eq_iff.1 (h node hnode) e he (.inr hname.symm)).1
  · rintro h node ⟨-, hvalid⟩
    refine degree_validEdges_eq_iff.2 fun e he hend => ?_
    rcases hend with hend | hend
    · rw [← hend] at hvalid
      exact ⟨hvalid, (h e he).1 hvalid⟩
    · rw [← hend] at hvalid
      exact ⟨(h e he).2 hvalid, hvalid⟩

/-- **When the candidates stand on validated entities**: for every database, if and only if no edge
that the pin leaves joins a validated entity with one that is not. -/
theorem grounded_iff (htraversed : Traversed traversed) :
    PassesGrounded c workspaceId watermarks anchorName traversed ↔
      Separated c workspaceId watermarks traversed := by
  refine forall₃_congr fun graph hpin hseed => ?_
  rw [← degrees_iff]
  constructor
  · exact Grounded.degrees
  · intro hdegrees
    refine ⟨fun candidate hcandidate => ?_, hdegrees⟩
    obtain ⟨node, hnode, hsource⟩ := exists_validated_of_candidate hpin hseed hcandidate
    have hconnected : Connected graph.edges graph.seed.name node.name := by
      rcases hnode.1 with rfl | hrelated
      · exact .refl
      · exact htraversed.pinGraph hpin node hrelated
    exact ⟨node, hnode, hsource, (connected_validEdges hseed (degrees_iff.1 hdegrees) hconnected).2⟩

end

/-! ### A chain -/

/-- Three entities of three sources, one behind the other. -/
def sourceChain : GraphResultView where
  seed := ⟨1, "a", "s", 0, false, none⟩
  related := [⟨2, "b", "t", 1, false, none⟩, ⟨3, "c", "u", 2, false, none⟩]
  edges := [⟨"a", "b", "calls"⟩, ⟨"b", "c", "calls"⟩]

theorem traversed_sourceChain : Traversed sourceChain := by
  have hb : Connected sourceChain.edges "a" "b" := .tail .refl (by decide)
  have hc : Connected sourceChain.edges "a" "c" := hb.tail (by decide)
  intro node hnode
  rcases mem_cons.1 hnode with rfl | hnode
  · exact hb
  · rw [mem_singleton.1 hnode]
    exact hc

/-- A composer whose database has these entities, in an active source. -/
def composerOf (names : List String) : Composer :=
  { sampleComposer with
    database := some {
      tables := { sources := [⟨5, "src", "git", .active, some 7⟩] }
      entities := names.map fun name => ⟨name, 5, none⟩ } }

/-- With all three of them valid the candidates are grounded. -/
theorem grounded_sourceChain : Traversed sourceChain ∧
    PassesGrounded (composerOf ["a", "b", "c"]) 7 none "a" sourceChain := by
  refine ⟨traversed_sourceChain, (grounded_iff traversed_sourceChain).2 ?_⟩
  rintro graph ⟨⟩ -
  decide

/-- Without the one in the middle the last one is still a candidate. -/
theorem candidate_behind_dropped :
    ¬ ∀ (c : Composer) (workspaceId : Uuid) (watermarks : Option Watermarks) (anchorName : String)
      (traversed : GraphResultView), Traversed traversed →
        PassesGrounded c workspaceId watermarks anchorName traversed := by
  intro h
  have hvalid : validNames (composerOf ["a", "c"]) 7 sourceChain = ["a", "c"] := by decide
  have hcandidates : (anchorOf (composerOf ["a", "c"]) 7 none "a" sourceChain).candidates =
      [⟨"s", 0, false⟩, ⟨"u", 2, false⟩] := by decide
  obtain ⟨hgrounded, -⟩ := h (composerOf ["a", "c"]) 7 none "a" sourceChain traversed_sourceChain
    sourceChain rfl (by rw [hvalid]; decide)
  rw [hcandidates, hvalid] at hgrounded
  obtain ⟨node, ⟨hnode, -⟩, hsource, hpath⟩ := hgrounded ⟨"u", 2, false⟩ (by decide)
  have hname : node.name ≠ "a" := by
    rcases hnode with rfl | hnode
    · exact absurd hsource (by decide)
    · rcases mem_cons.1 hnode with rfl | hnode
      · decide
      · rw [mem_singleton.1 hnode]
        decide
  -- no edge joins two valid entities
  have hnone : validEdges ["a", "c"] sourceChain.edges = [] := by decide
  rw [hnone] at hpath
  rcases hpath.cases_tail with heq | ⟨x, -, hstep⟩
  · exact hname heq
  · cases hstep

end Omniscience.GraphRag
