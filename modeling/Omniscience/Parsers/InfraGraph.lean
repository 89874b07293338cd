import Omniscience.Parsers.TfState

/-!
# The infrastructure graph

`extract_infra_graph` (`omniscience_parsers/infra/graph.py`) turns the sections of a Terraform,
Kubernetes or state document into entities and edges.  It reads what the parsers have put into the
metadata; a value that is no list where one is iterated, or that cannot be the key of a mapping,
raises an exception.
-/

namespace Omniscience.Parsers

open Mapping List

/-- `EntityData`: a node of the graph. -/
structure EntityData where
  symbol : String
  kind : String
  name : Json
  ns : Json
  labels : Metadata
  extra : Metadata

/-- `EdgeData`. -/
structure EdgeData where
  fromSymbol : String
  toSymbol : String
  edgeType : String
  extra : Metadata

/-- `section.symbol`, if it is given and not empty. -/
def Section.symbol? (sec : Section) : Option String := sec.symbol.filter (· ≠ "")

/-- `text.rsplit(".", 1)[-1]`. -/
def lastPart (text : String) : String :=
  String.ofList (text.toList.rtakeWhile (· ≠ '.'))

/-- `str(value).strip()` of each value, where it is not empty. -/
def strippedTexts (py : ParserPy) (l : List Json) : List String :=
  (l.map fun v => GraphRag.strip (py.str v)).filter (· ≠ "")

/-! ### Terraform -/

/-- `kind_map`. -/
def kindMap : List (String × String) :=
  [("resource", "terraform_resource"), ("data", "terraform_data_source"),
    ("module", "terraform_module"), ("variable", "terraform_variable"),
    ("output", "terraform_output"), ("provider", "terraform_provider")]

/-- `kind_map.get(block_type, "terraform_block")`. -/
def entityKind : Json → Except Exc String
  | .str blockType => .ok ((kindMap.lookup blockType).getD "terraform_block")
  | .arr _ => .error ⟨.typeError, "unhashable type: 'list'"⟩
  | .obj _ => .error ⟨.typeError, "unhashable type: 'dict'"⟩
  | _ => .ok "terraform_block"

/-- `_tf_entity_from_section`. -/
def tfEntityFromSection (sec : Section) : Except Exc (Option EntityData) :=
  match sec.symbol? with
  | none => .ok none
  | some symbol => do
    let blockType := getD sec.metadata "block_type" (.str "")
    let kind ← entityKind blockType
    .ok (some
      { symbol := symbol
        kind := kind
        name := .str (lastPart symbol)
        ns := .str ""
        labels := []
        extra := [("block_type", blockType),
          ("resource_type", getD sec.metadata "resource_type" (.str ""))] })

/-- `_tf_edges_from_section`. -/
def tfEdgesFromSection (py : ParserPy) (sec : Section) : Except Exc (List EdgeData) :=
  match sec.symbol? with
  | none => .ok []
  | some symbol => do
    let deps ← iterate (getD sec.metadata "depends_on" (.arr []))
    let refs ← iterate (getD sec.metadata "refs" (.arr []))
    .ok (((strippedTexts py deps).map fun dep => ⟨symbol, dep, "depends_on", []⟩) ++
      ((strippedTexts py refs).filter (· ≠ symbol)).map fun ref => ⟨symbol, ref, "references", []⟩)

/-! ### Kubernetes -/

/-- `dict(value or {})` of a mapping. -/
def toDict : Json → Except Exc Metadata
  | .obj members => .ok members
  | v =>
    if v.truthy then .error ⟨.typeError, "'" ++ v.typeName ++ "' object is not a mapping"⟩
    else .ok []

/-- `_k8s_entity_from_section`. -/
def k8sEntityFromSection (sec : Section) : Except Exc (Option EntityData) :=
  match sec.symbol? with
  | none => .ok none
  | some symbol => do
    let labels ← toDict (getD sec.metadata "labels" (.obj []))
    .ok (some
      { symbol := symbol
        kind := "k8s_resource"
        name := getD sec.metadata "name" (.str "")
        ns := getD sec.metadata "namespace" (.str "")
        labels := labels
        extra := [("k8s_kind", getD sec.metadata "kind" (.str ""))] })

/-- An edge to the pods that a selector selects. -/
def selectsEdges (symbol : String) (selector : Json) : List EdgeData :=
  if selector.truthy then [⟨symbol, "pods", "selects", [("selector", selector)]⟩] else []

/-- `_k8s_edges_from_section`. -/
def k8sEdgesFromSection (py : ParserPy) (sec : Section) : Except Exc (List EdgeData) :=
  match sec.symbol? with
  | none => .ok []
  | some symbol => do
    let owners ← iterate (getD sec.metadata "owner_refs" (.arr []))
    let volumes ← iterate (getD sec.metadata "volume_refs" (.arr []))
    .ok (((strippedTexts py owners).map fun owner => ⟨owner, symbol, "owns", []⟩) ++
      selectsEdges symbol (getD sec.metadata "selectors" (.obj [])) ++
      selectsEdges symbol (getD sec.metadata "service_selector" (.obj [])) ++
      (strippedTexts py volumes).map fun volume => ⟨symbol, volume, "mounts", []⟩)

/-! ### Terraform state -/

/-- `_tfstate_entity_from_section`. -/
def tfstateEntityFromSection (sec : Section) : Option EntityData :=
  sec.symbol?.map fun symbol =>
    let resourceName := getD sec.metadata "resource_name" (.str "")
    { symbol := symbol
      kind := "tfstate_instance"
      name := if resourceName.truthy then resourceName else .str (lastPart symbol)
      ns := .str ""
      labels := []
      extra := (["arn", "id", "region", "account", "provider"].map fun key =>
          (key, getD sec.metadata key (.str ""))) ++
        [("mode", getD sec.metadata "mode" (.str "managed")),
          ("resource_type", getD sec.metadata "resource_type" (.str ""))] }

/-- The configuration address of an instance, `config_symbol` of `_tfstate_edges_from_section`. -/
def configSymbol (py : ParserPy) (sec : Section) : Option String :=
  let resourceType := getD sec.metadata "resource_type" (.str "")
  let resourceName := getD sec.metadata "resource_name" (.str "")
  if resourceType.truthy && resourceName.truthy then
    match getD sec.metadata "mode" (.str "managed") with
    | .str "data" => some ("data." ++ py.str resourceType ++ "." ++ py.str resourceName)
    | _ => some ("resource." ++ py.str resourceType ++ "." ++ py.str resourceName)
  else none

/-- `_tfstate_edges_from_section`. -/
def tfstateEdgesFromSection (py : ParserPy) (sec : Section) : List EdgeData :=
  match sec.symbol?, configSymbol py sec with
  | some symbol, some address => [⟨symbol, address, "tfstate_of", []⟩]
  | _, _ => []

/-- `extract_tfstate_graph`. -/
def extractTfstateGraph (py : ParserPy) (parsed : ParsedDocument) :
    List EntityData × List EdgeData :=
  if parsed.contentType ≠ "application/x-tfstate" then ([], [])
  else (parsed.sections.filterMap tfstateEntityFromSection,
    parsed.sections.flatMap (tfstateEdgesFromSection py))

/-! ### Documents -/

def isTerraformDoc (doc : ParsedDocument) : Bool :=
  doc.contentType ∈ ["application/x-terraform", "text/x-terraform", "application/hcl"]

def isKubernetesDoc (doc : ParsedDocument) : Bool :=
  doc.contentType ∈ ["application/x-kubernetes", "text/x-kubernetes"]

def isTfstateDoc (doc : ParsedDocument) : Bool := doc.contentType = "application/x-tfstate"

/-- The loop over the sections of a document. -/
def extractSections (entity : Section → Except Exc (Option EntityData))
    (edges : Section → Except Exc (List EdgeData)) :
    List Section → Except Exc (List EntityData × List EdgeData)
  | [] => .ok ([], [])
  | sec :: rest => do
    let e ← entity sec
    let es ← edges sec
    let graph ← extractSections entity edges rest
    .ok (e.toList ++ graph.1, es ++ graph.2)

/-- `extract_infra_graph`. -/
def extractInfraGraph (py : ParserPy) (parsed : ParsedDocument) :
    Except Exc (List EntityData × List EdgeData) :=
  if isTerraformDoc parsed then
    extractSections tfEntityFromSection (tfEdgesFromSection py) parsed.sections
  else if isKubernetesDoc parsed then
    extractSections k8sEntityFromSection (k8sEdgesFromSection py) parsed.sections
  else if isTfstateDoc parsed then .ok (extractTfstateGraph py parsed)
  else .ok ([], [])

/-- The graphs of several documents, one after the other. -/
def extractAll (py : ParserPy) : List ParsedDocument → Except Exc (List EntityData × List EdgeData)
  | [] => .ok ([], [])
  | doc :: docs => do
    let graph ← extractInfraGraph py doc
    let rest ← extractAll py docs
    .ok (graph.1 ++ rest.1, graph.2 ++ rest.2)

/-! ### Where entities and edges come from -/

variable {py : ParserPy} {graph : List EntityData × List EdgeData}

theorem mem_extractSections {entity : Section → Except Exc (Option EntityData)}
    {edges : Section → Except Exc (List EdgeData)} {secs : List Section}
    (h : extractSections entity edges secs = .ok graph) :
    (∀ e, e ∈ graph.1 ↔ ∃ sec ∈ secs, entity sec = .ok (some e)) ∧
      ∀ e, e ∈ graph.2 ↔ ∃ sec ∈ secs, ∃ es, edges sec = .ok es ∧ e ∈ es := by
  induction secs generalizing graph with
  | nil =>
    cases h
    simp
  | cons sec rest ih =>
    obtain ⟨e, he, h⟩ := bind_eq_ok_iff.1 h
    obtain ⟨es, hes, h⟩ := bind_eq_ok_iff.1 h
    obtain ⟨graph', hgraph', h⟩ := bind_eq_ok_iff.1 h
    cases h
    obtain ⟨ihEntities, ihEdges⟩ := ih hgraph'
    constructor
    · intro a
      simp [ihEntities, he, Option.mem_toList]
    · intro a
      simp [ihEdges, hes]

theorem mem_extractAll {docs : List ParsedDocument} (h : extractAll py docs = .ok graph) :
    (∀ e, e ∈ graph.1 ↔ ∃ doc ∈ docs, ∃ g, extractInfraGraph py doc = .ok g ∧ e ∈ g.1) ∧
      ∀ e, e ∈ graph.2 ↔ ∃ doc ∈ docs, ∃ g, extractInfraGraph py doc = .ok g ∧ e ∈ g.2 := by
  induction docs generalizing graph with
  | nil =>
    cases h
    simp
  | cons doc rest ih =>
    obtain ⟨g, hg, h⟩ := bind_eq_ok_iff.1 h
    obtain ⟨graph', hgraph', h⟩ := bind_eq_ok_iff.1 h
    cases h
    obtain ⟨ihEntities, ihEdges⟩ := ih hgraph'
    have hdoc {p : List EntityData × List EdgeData → Prop} :
        (∃ g', extractInfraGraph py doc = .ok g' ∧ p g') ↔ p g := by
      rw [hg]
      constructor
      · rintro ⟨g', hg', hp⟩
        cases hg'
        exact hp
      · exact fun hp => ⟨g, rfl, hp⟩
    constructor
    · intro a
      rw [mem_append, ihEntities, exists_mem_cons_iff, hdoc (p := fun g => a ∈ g.1)]
    · intro a
      rw [mem_append, ihEdges, exists_mem_cons_iff, hdoc (p := fun g => a ∈ g.2)]

theorem exists_of_extractAll {docs : List ParsedDocument} (h : extractAll py docs = .ok graph)
    {doc : ParsedDocument} (hdoc : doc ∈ docs) : ∃ g, extractInfraGraph py doc = .ok g := by
  induction docs generalizing graph with
  | nil => exact absurd hdoc not_mem_nil
  | cons d rest ih =>
    obtain ⟨g, hg, h⟩ := bind_eq_ok_iff.1 h
    obtain ⟨graph', hgraph', -⟩ := bind_eq_ok_iff.1 h
    rcases mem_cons.1 hdoc with rfl | hdoc
    · exact ⟨g, hg⟩
    · exact ih hgraph' hdoc

variable {sec : Section}

theorem symbol?_eq_some_iff {symbol : String} :
    sec.symbol? = some symbol ↔ sec.symbol = some symbol ∧ symbol ≠ "" := by
  rw [Section.symbol?, Option.filter_eq_some_iff, decide_eq_true_iff]

theorem tfEntity_of_blockType {symbol blockType : String} (hsymbol : sec.symbol? = some symbol)
    (htype : sec.metadata.lookup "block_type" = some (.str blockType)) :
    ∃ e, tfEntityFromSection sec = .ok (some e) ∧ e.symbol = symbol ∧
      e.kind = (kindMap.lookup blockType).getD "terraform_block" := by
  rw [tfEntityFromSection, hsymbol]
  dsimp only
  rw [getD_of_lookup htype]
  exact ⟨_, rfl, rfl, rfl⟩

theorem tfEntity_spec {e : EntityData} (h : tfEntityFromSection sec = .ok (some e)) :
    sec.symbol? = some e.symbol ∧
      entityKind (getD sec.metadata "block_type" (.str "")) = .ok e.kind ∧
      Mapping.get e.extra "attributes" = .null := by
  rw [tfEntityFromSection] at h
  split at h
  · cases h
  · rename_i symbol hsymbol
    obtain ⟨kind, hkind, h⟩ := bind_eq_ok_iff.1 h
    cases h
    exact ⟨hsymbol, hkind, rfl⟩

theorem tfEdges_spec {es : List EdgeData} (h : tfEdgesFromSection py sec = .ok es) {e : EdgeData}
    (he : e ∈ es) :
    sec.symbol? = some e.fromSymbol ∧ (e.edgeType = "depends_on" ∨ e.edgeType = "references") := by
  rw [tfEdgesFromSection] at h
  split at h
  · cases h
    exact absurd he not_mem_nil
  · rename_i symbol hsymbol
    obtain ⟨deps, -, h⟩ := bind_eq_ok_iff.1 h
    obtain ⟨refs, -, h⟩ := bind_eq_ok_iff.1 h
    cases h
    rcases mem_append.1 he with he | he
    · obtain ⟨dep, -, rfl⟩ := mem_map.1 he
      exact ⟨hsymbol, .inl rfl⟩
    · obtain ⟨ref, -, rfl⟩ := mem_map.1 he
      exact ⟨hsymbol, .inr rfl⟩

theorem mem_tfstateEdges {e : EdgeData} :
    e ∈ tfstateEdgesFromSection py sec ↔ ∃ symbol address, sec.symbol? = some symbol ∧
      configSymbol py sec = some address ∧ e = ⟨symbol, address, "tfstate_of", []⟩ := by
  rw [tfstateEdgesFromSection]
  cases hsymbol : sec.symbol? with
  | none => simp
  | some symbol =>
    cases haddress : configSymbol py sec with
    | none => simp
    | some address => simp

end Omniscience.Parsers
