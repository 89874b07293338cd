import Omniscience.Retrieval.Epoch

/-!
# Reachability after the epoch pin

`_apply_graph_watermark_filter` drops the nodes that are ahead of their watermark, with the edges at
their names, and then the nodes that no remaining edge connects with the seed.  It looks for those
only if it has dropped a node, and the edges between them stay.

* `exactlyReachable_iff` : when what remains is what is reachable from the seed.
-/

namespace Omniscience.Retrieval

variable {watermarks : Watermarks} {strictEpoch : Bool} {graph : GraphResultView}

/-- The names of the related nodes that the filter excludes. -/
def excludedNames (watermarks : Watermarks) (strictEpoch : Bool) (graph : GraphResultView) :
    List String :=
  (graph.related.filter fun n => !keepsNode watermarks strictEpoch n).map EntityNodeView.name

/-- The edges that touch no excluded name. -/
def survivingEdges (watermarks : Watermarks) (strictEpoch : Bool) (graph : GraphResultView) :
    List GraphEdgeView :=
  graph.edges.filter fun e => decide (e.fromEntity ∉ excludedNames watermarks strictEpoch graph ∧
    e.toEntity ∉ excludedNames watermarks strictEpoch graph)

/-- The seed or a related node of the result has the name. -/
def Names (graph : GraphResultView) (name : String) : Prop :=
  name = graph.seed.name ∨ ∃ node ∈ graph.related, node.name = name

/-- **What remains is what is reachable**: the related nodes are those that are not excluded and
connected with the seed by what remains of the edges, and each of these joins two nodes that
remain. -/
structure ExactlyReachable (watermarks : Watermarks) (strictEpoch : Bool)
    (graph graph' : GraphResultView) : Prop where
  related : ∀ node, node ∈ graph'.related ↔ node ∈ graph.related ∧
    keepsNode watermarks strictEpoch node = true ∧
      Connected graph'.edges graph.seed.name node.name
  edges : ∀ e ∈ graph'.edges, Names graph' e.fromEntity ∧ Names graph' e.toEntity

/-- The name is that of the seed or of a related node that is not excluded. -/
def KeptName (watermarks : Watermarks) (strictEpoch : Bool) (graph : GraphResultView)
    (name : String) : Prop :=
  name = graph.seed.name ∨
    ∃ node ∈ graph.related, keepsNode watermarks strictEpoch node = true ∧ node.name = name

/-- Every edge that touches no excluded name joins nodes that are not excluded, in the part around
the seed; and without an exclusion every related node is in that part. -/
structure AroundSeed (watermarks : Watermarks) (strictEpoch : Bool) (graph : GraphResultView) :
    Prop where
  edges : ∀ e ∈ survivingEdges watermarks strictEpoch graph,
    KeptName watermarks strictEpoch graph e.fromEntity ∧
    KeptName watermarks strictEpoch graph e.toEntity ∧
    Connected (survivingEdges watermarks strictEpoch graph) graph.seed.name e.fromEntity
  related : (∀ node ∈ graph.related, keepsNode watermarks strictEpoch node = true) →
    ∀ node ∈ graph.related,
      Connected (survivingEdges watermarks strictEpoch graph) graph.seed.name node.name

/-! ### What the filter returns -/

theorem excludedNames_eq_nil_iff : excludedNames watermarks strictEpoch graph = [] ↔
    ∀ node ∈ graph.related, keepsNode watermarks strictEpoch node = true := by
  simp [excludedNames, List.filter_eq_nil_iff]

theorem filter_of_nil (hseed : seedAhead watermarks graph.seed = false)
    (h : excludedNames watermarks strictEpoch graph = []) :
    (applyGraphWatermarkFilter graph watermarks strictEpoch).1 = graph ∧
      survivingEdges watermarks strictEpoch graph = graph.edges := by
  have hall := excludedNames_eq_nil_iff.1 h
  have hrelated : graph.related.filter (keepsNode watermarks strictEpoch) = graph.related :=
    List.filter_eq_self.2 hall
  constructor
  · unfold excludedNames at h
    simp [applyGraphWatermarkFilter, hseed, h, hrelated]
  · simp [survivingEdges, h]

theorem filter_of_ne_nil (hseed : seedAhead watermarks graph.seed = false)
    (h : excludedNames watermarks strictEpoch graph ≠ []) :
    let graph' := (applyGraphWatermarkFilter graph watermarks strictEpoch).1
    graph'.seed = graph.seed ∧ graph'.edges = survivingEdges watermarks strictEpoch graph ∧
      ∀ node, node ∈ graph'.related ↔ node ∈ graph.related ∧
        keepsNode watermarks strictEpoch node = true ∧
          Connected (survivingEdges watermarks strictEpoch graph) graph.seed.name node.name := by
  have hfilter : (applyGraphWatermarkFilter graph watermarks strictEpoch).1 =
      recomputeReachability { graph with
          related := graph.related.filter (keepsNode watermarks strictEpoch)
          edges := survivingEdges watermarks strictEpoch graph } := by
    unfold excludedNames at h
    simp only [applyGraphWatermarkFilter, hseed, Bool.false_eq_true, if_false, if_neg h]
    rfl
  simp only [hfilter]
  refine ⟨seed_recomputeReachability, ?_, fun node => ?_⟩
  · unfold recomputeReachability
    split_ifs <;> rfl
  · rw [mem_related_recomputeReachability_iff, List.mem_filter, and_assoc]

theorem Connected.of_edge {edges : List GraphEdgeView} {a : String} {e : GraphEdgeView}
    (h : Connected edges a e.fromEntity) (he : e ∈ edges) : Connected edges a e.toEntity :=
  h.tail (mem_neighbours_iff.2 ⟨e, he, .inl ⟨rfl, rfl⟩⟩)

/-- When the filter leaves exactly what is reachable from the seed that it has kept. -/
theorem exactlyReachable_iff (hseed : seedAhead watermarks graph.seed = false) :
    ExactlyReachable watermarks strictEpoch graph
        (applyGraphWatermarkFilter graph watermarks strictEpoch).1 ↔
      AroundSeed watermarks strictEpoch graph := by
  by_cases h : excludedNames watermarks strictEpoch graph = []
  · obtain ⟨hgraph, hedges⟩ := filter_of_nil hseed h
    have hall := excludedNames_eq_nil_iff.1 h
    have hnames : ∀ name, KeptName watermarks strictEpoch graph name ↔ Names graph name := by
      intro name
      refine or_congr_right (exists_congr fun node => and_congr_right fun hnode => ?_)
      exact and_iff_right (hall node hnode)
    rw [hgraph]
    constructor
    · intro hexact
      have hconnected : ∀ name, Names graph name → Connected graph.edges graph.seed.name name := by
        rintro name (rfl | ⟨node, hnode, rfl⟩)
        · exact .refl
        · exact ((hexact.related node).1 hnode).2.2
      refine ⟨fun e he => ?_, fun _ node hnode => ?_⟩
      · rw [hedges] at he ⊢
        obtain ⟨hfrom, hto⟩ := hexact.edges e he
        exact ⟨(hnames _).2 hfrom, (hnames _).2 hto, hconnected _ hfrom⟩
      · rw [hedges]
        exact hconnected _ (.inr ⟨node, hnode, rfl⟩)
    · rintro ⟨haround, hrelated⟩
      rw [hedges] at haround hrelated
      refine ⟨fun node => ⟨fun hnode => ⟨hnode, hall node hnode, hrelated hall node hnode⟩,
        fun hnode => hnode.1⟩, fun e he => ?_⟩
      obtain ⟨hfrom, hto, -⟩ := haround e he
      exact ⟨(hnames _).1 hfrom, (hnames _).1 hto⟩
  · obtain ⟨hseed', hedges, hrelated⟩ := filter_of_ne_nil hseed h
    have hnames : ∀ name, Connected (survivingEdges watermarks strictEpoch graph) graph.seed.name
        name → (KeptName watermarks strictEpoch graph name ↔
          Names (applyGraphWatermarkFilter graph watermarks strictEpoch).1 name) := by
      intro name hconnected
      unfold Names KeptName
      rw [hseed']
      refine or_congr_right (exists_congr fun node => ?_)
      rw [hrelated node]
      constructor
      · rintro ⟨hnode, hkeeps, rfl⟩
        exact ⟨⟨hnode, hkeeps, hconnected⟩, rfl⟩
      · rintro ⟨⟨hnode, hkeeps, -⟩, rfl⟩
        exact ⟨hnode, hkeeps, rfl⟩
    constructor
    · intro hexact
      refine ⟨fun e he => ?_, fun hall => absurd (excludedNames_eq_nil_iff.2 hall) h⟩
      obtain ⟨hfrom, hto⟩ := hexact.edges e (hedges ▸ he)
      have hconnected : Connected (survivingEdges watermarks strictEpoch graph) graph.seed.name
          e.fromEntity := by
        obtain heq | ⟨node, hnode, heq⟩ := hfrom
        · rw [heq, hseed']
          exact .refl
        · exact heq ▸ ((hrelated node).1 hnode).2.2
      exact ⟨(hnames _ hconnected).2 hfrom, (hnames _ (hconnected.of_edge he)).2 hto, hconnected⟩
    · rintro ⟨haround, -⟩
      refine ⟨fun node => by rw [hrelated, hedges], fun e he => ?_⟩
      obtain ⟨hfrom, hto, hconnected⟩ := haround e (hedges ▸ he)
      exact ⟨(hnames _ hconnected).1 hfrom, (hnames _ (hconnected.of_edge (hedges ▸ he))).1 hto⟩

/-- A chain from the seed whose first node is ahead of its watermark. -/
def chainGraph : GraphResultView :=
  ⟨⟨1, "a", "s", 0, false, some 1⟩,
    [⟨2, "b", "s", 1, false, some 9⟩, ⟨3, "c", "s", 2, false, some 1⟩,
      ⟨4, "d", "s", 3, false, some 1⟩],
    [⟨"a", "b", "calls"⟩, ⟨"b", "c", "calls"⟩, ⟨"c", "d", "calls"⟩]⟩

/-- The watermark of their source. -/
def chainWatermarks : Watermarks := Dict.empty.set "s" 5

/-- The last edge stays, although its nodes are dropped. -/
theorem edge_outlives_its_nodes : ¬ ExactlyReachable chainWatermarks true chainGraph
      (applyGraphWatermarkFilter chainGraph chainWatermarks true).1 := by
  intro hexact
  have hmem : (⟨"c", "d", "calls"⟩ : GraphEdgeView) ∈
      (applyGraphWatermarkFilter chainGraph chainWatermarks true).1.edges := by decide
  have hnames : ∀ node ∈ (applyGraphWatermarkFilter chainGraph chainWatermarks true).1.related,
      node.name ≠ "c" := by decide
  obtain hseed | ⟨node, hnode, hname⟩ := (hexact.edges _ hmem).1
  · exact absurd hseed (by decide)
  · exact hnames node hnode hname

theorem exactlyReachable_chain : seedAhead chainWatermarks chainGraph.seed = false ∧
    (ExactlyReachable chainWatermarks true chainGraph
        (applyGraphWatermarkFilter chainGraph chainWatermarks true).1 ↔
      AroundSeed chainWatermarks true chainGraph) :=
  ⟨by decide, exactlyReachable_iff (by decide)⟩

end Omniscience.Retrieval
