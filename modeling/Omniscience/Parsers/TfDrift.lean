import Omniscience.Parsers.InfraGraph

/-!
# Terraform drift

`compute_tf_drift` (`omniscience_parsers/infra/drift.py`) compares what the configuration declares
with what the state file has.  It looks for the configuration of an instance among the *resources*
of the graph only, though the edge of a data source leads to its data block.

* `drift_exact_iff` : the report is exact as long as no data source of the state is declared.
-/

namespace Omniscience.Parsers

open Operator (sortStrings)
open Terraform
open Mapping
open Dict
open List hiding contains_iff

structure AttributeDivergence where
  configSymbol : String
  stateSymbol : String
  attributeName : String
  configValue : String
  stateValue : String
  deriving DecidableEq, Repr

structure DriftReport where
  stateNotInConfig : List String
  configNotInState : List String
  attributeDivergences : List AttributeDivergence
  deriving DecidableEq, Repr

/-- `_attributes_of`. -/
def attributesOf (py : ParserPy) (entity : EntityData) : Dict String String :=
  match Mapping.get entity.extra "attributes" with
  | .obj raw => ofList (raw.map fun p => (p.1, py.str p.2))
  | _ => .empty

/-- `_diff_attributes`. -/
def diffAttributes (configSymbol stateSymbol : String)
    (configAttrs stateAttrs : Dict String String) : List AttributeDivergence :=
  let shared := configAttrs.keys.filter fun attr => stateAttrs.contains attr
  (sortStrings shared).filterMap fun attr =>
    match configAttrs.get? attr, stateAttrs.get? attr with
    | some cfg, some sta =>
      if cfg ≠ sta then some ⟨configSymbol, stateSymbol, attr, cfg, sta⟩ else none
    | _, _ => none

/-- The entities of a kind, by their symbols. -/
def bySymbol (kind : String) (entities : List EntityData) : Dict String EntityData :=
  ofList ((entities.filter (·.kind = kind)).map fun e => (e.symbol, e))

def terraformResourceKind : String := "terraform_resource"

def tfstateInstanceKind : String := "tfstate_instance"

def tfstateOfEdge : String := "tfstate_of"

/-- `state_to_config`: only edges from a known instance count. -/
def stateToConfig (entities : List EntityData) (edges : List EdgeData) : Dict String String :=
  ofList ((edges.filter fun edge => edge.edgeType = tfstateOfEdge &&
    (bySymbol tfstateInstanceKind entities).contains edge.fromSymbol).map fun edge =>
      (edge.fromSymbol, edge.toSymbol))

/-- The resource that an instance is matched with in the loop of `compute_tf_drift`. -/
def matchedConfig (entities : List EntityData) (edges : List EdgeData) (stateSymbol : String) :
    Option String :=
  ((stateToConfig entities edges).get? stateSymbol).filter
    (bySymbol terraformResourceKind entities).contains

/-- The divergences of a matched instance. -/
def divergencesOf (py : ParserPy) (entities : List EntityData) (edges : List EdgeData)
    (stateSymbol : String) : List AttributeDivergence :=
  match matchedConfig entities edges stateSymbol with
  | none => []
  | some configSymbol =>
    match (bySymbol terraformResourceKind entities).get? configSymbol,
      (bySymbol tfstateInstanceKind entities).get? stateSymbol with
    | some config, some state =>
      diffAttributes configSymbol stateSymbol (attributesOf py config) (attributesOf py state)
    | _, _ => []

/-- The order of `sorted(..., key=lambda d: (d.config_symbol, d.attribute))`. -/
def AttributeDivergence.before (d d' : AttributeDivergence) : Prop :=
  d.configSymbol < d'.configSymbol ∨
    d.configSymbol = d'.configSymbol ∧ d.attributeName ≤ d'.attributeName

instance : DecidableRel AttributeDivergence.before := fun _ _ =>
  inferInstanceAs (Decidable (_ ∨ _ ∧ _))

/-- `compute_tf_drift`. -/
def computeTfDrift (py : ParserPy) (entities : List EntityData) (edges : List EdgeData) :
    DriftReport :=
  let states := (bySymbol tfstateInstanceKind entities).keys
  let matched := states.filterMap (matchedConfig entities edges)
  { stateNotInConfig :=
      sortStrings (states.filter fun s => (matchedConfig entities edges s).isNone)
    configNotInState :=
      sortStrings ((bySymbol terraformResourceKind entities).keys.filter (· ∉ matched))
    attributeDivergences :=
      (states.flatMap (divergencesOf py entities edges)).insertionSort AttributeDivergence.before }

/-! ### What the report should say -/

/-- A block declares a resource or a data source under an address. -/
def Section.Declares (sec : Section) (address : String) : Prop :=
  sec.symbol? = some address ∧
    (HasBlockType sec "resource" ∨ HasBlockType sec "data")

/-- The instance is one of a data source. -/
def Section.IsData (sec : Section) : Prop :=
  getD sec.metadata "mode" (.str "managed") = .str "data"

/-- The report lists the instances that no block declares and the resources that no instance
belongs to, in whatever order the graph comes. -/
structure DriftExact (py : ParserPy) (configs : List Section) (states : List Section)
    (entities : List EntityData) (edges : List EdgeData) : Prop where
  stateNotInConfig : ∀ s ∈ states, ∀ symbol, s.symbol? = some symbol →
    (symbol ∈ (computeTfDrift py entities edges).stateNotInConfig ↔
      ¬∃ address, configSymbol py s = some address ∧ ∃ c ∈ configs, c.Declares address)
  configNotInState : ∀ c ∈ configs, HasBlockType c "resource" → ∀ symbol,
    c.symbol? = some symbol →
      (symbol ∈ (computeTfDrift py entities edges).configNotInState ↔
        ¬∃ s ∈ states, configSymbol py s = some symbol)
  perm : ∀ entities' edges', entities'.Perm entities → edges'.Perm edges →
    computeTfDrift py entities' edges' = computeTfDrift py entities edges

/-! ### The report, whatever the order -/

section

variable {py : ParserPy} {entities entities' : List EntityData} {edges edges' : List EdgeData}
  {kind symbol : String}

theorem mem_sortStrings {l : List String} {a : String} : a ∈ sortStrings l ↔ a ∈ l :=
  mem_insertionSort _

theorem sortStrings_congr {l l' : List String} (h : l.Perm l') :
    sortStrings l = sortStrings l' := by
  have hperm : (sortStrings l).Perm (sortStrings l') :=
    (perm_insertionSort _ l).trans (h.trans (perm_insertionSort _ l').symm)
  exact hperm.eq_of_pairwise' (pairwise_insertionSort _ l) (pairwise_insertionSort _ l')

theorem mem_keys_bySymbol :
    symbol ∈ (bySymbol kind entities).keys ↔ ∃ e ∈ entities, e.kind = kind ∧ e.symbol = symbol := by
  rw [bySymbol, mem_keys_ofList, map_map, mem_map]
  constructor
  · rintro ⟨e, he, rfl⟩
    obtain ⟨hmem, hkind⟩ := mem_filter.1 he
    exact ⟨e, hmem, of_decide_eq_true hkind, rfl⟩
  · rintro ⟨e, he, hkind, rfl⟩
    exact ⟨e, mem_filter.2 ⟨he, decide_eq_true hkind⟩, rfl⟩

theorem perm_keys_bySymbol (h : entities'.Perm entities) :
    (bySymbol kind entities').keys.Perm (bySymbol kind entities).keys := by
  refine (perm_ext_iff_of_nodup (nodup_keys _) (nodup_keys _)).2 fun symbol => ?_
  rw [mem_keys_bySymbol, mem_keys_bySymbol]
  simp only [h.mem_iff]

/-- What the edges say about the configuration of an instance: one address at most. -/
def Functional (edges : List EdgeData) : Prop :=
  ∀ e ∈ edges, ∀ e' ∈ edges, e.edgeType = tfstateOfEdge → e'.edgeType = tfstateOfEdge →
    e.fromSymbol = e'.fromSymbol → e.toSymbol = e'.toSymbol

theorem get?_stateToConfig_iff (h : Functional edges) {address : String} :
    (stateToConfig entities edges).get? symbol = some address ↔
      symbol ∈ (bySymbol tfstateInstanceKind entities).keys ∧
        ∃ e ∈ edges, e.edgeType = tfstateOfEdge ∧ e.fromSymbol = symbol ∧ e.toSymbol = address := by
  set pairs := ((edges.filter fun edge => edge.edgeType = tfstateOfEdge &&
    (bySymbol tfstateInstanceKind entities).contains edge.fromSymbol).map fun edge =>
      (edge.fromSymbol, edge.toSymbol)).filter fun p => decide (p.1 = symbol) with hpairs
  have hget : (stateToConfig entities edges).get? symbol = pairs.getLast?.map Prod.snd := by
    rw [stateToConfig, get?_ofList]
  have hmem : ∀ p ∈ pairs, symbol ∈ (bySymbol tfstateInstanceKind entities).keys ∧
      ∃ e ∈ edges, e.edgeType = tfstateOfEdge ∧ e.fromSymbol = symbol ∧ e.toSymbol = p.2 := by
    intro p hp
    obtain ⟨hp, hsymbol⟩ := mem_filter.1 hp
    obtain ⟨e, he, rfl⟩ := mem_map.1 hp
    obtain ⟨he, htest⟩ := mem_filter.1 he
    rw [Bool.and_eq_true, contains_iff] at htest
    have hsymbol : e.fromSymbol = symbol := of_decide_eq_true hsymbol
    exact ⟨hsymbol ▸ htest.2, e, he, of_decide_eq_true htest.1, hsymbol, rfl⟩
  rw [hget, Option.map_eq_some_iff]
  constructor
  · rintro ⟨p, hp, rfl⟩
    exact hmem p (List.mem_of_getLast? hp)
  · rintro ⟨hsymbol, e, he, htype, hfrom, rfl⟩
    have hin : (e.fromSymbol, e.toSymbol) ∈ pairs := by
      refine mem_filter.2 ⟨mem_map.2 ⟨e, mem_filter.2 ⟨he, ?_⟩, rfl⟩,
        decide_eq_true hfrom⟩
      rw [Bool.and_eq_true, contains_iff, hfrom]
      exact ⟨decide_eq_true htype, hsymbol⟩
    -- whatever edge of the instance comes last, it leads to the same address
    cases hlast : pairs.getLast? with
    | none =>
      rw [List.getLast?_eq_none_iff.1 hlast] at hin
      exact absurd hin not_mem_nil
    | some p =>
      obtain ⟨-, e', he', htype', hfrom', hto⟩ := hmem p (List.mem_of_getLast? hlast)
      exact ⟨p, rfl, by rw [← hto, h e' he' e he htype' htype (hfrom'.trans hfrom.symm)]⟩

theorem matchedConfig_iff (h : Functional edges) {address : String} :
    matchedConfig entities edges symbol = some address ↔
      symbol ∈ (bySymbol tfstateInstanceKind entities).keys ∧
        (∃ e ∈ edges, e.edgeType = tfstateOfEdge ∧ e.fromSymbol = symbol ∧
          e.toSymbol = address) ∧
        address ∈ (bySymbol terraformResourceKind entities).keys := by
  rw [matchedConfig, Option.filter_eq_some_iff, get?_stateToConfig_iff h, contains_iff, and_assoc]

theorem matchedConfig_congr (hedges : Functional edges) (hentities : entities'.Perm entities)
    (hperm : edges'.Perm edges) :
    matchedConfig entities' edges' symbol = matchedConfig entities edges symbol := by
  have hedges' : Functional edges' := fun e he e' he' =>
    hedges e (hperm.mem_iff.1 he) e' (hperm.mem_iff.1 he')
  refine Option.ext fun address => ?_
  rw [matchedConfig_iff hedges', matchedConfig_iff hedges, (perm_keys_bySymbol hentities).mem_iff,
    (perm_keys_bySymbol hentities).mem_iff]
  simp only [hperm.mem_iff]

theorem divergencesOf_eq_nil (h : ∀ e ∈ entities, Mapping.get e.extra "attributes" = .null)
    (edges : List EdgeData) (symbol : String) : divergencesOf py entities edges symbol = [] := by
  rw [divergencesOf]
  split
  · rfl
  · split
    · rename_i config state hconfig hstate
      have hmem : config ∈ entities := by
        obtain ⟨e, he, heq⟩ := mem_map.1 (mem_of_get?_ofList hconfig)
        rw [← (Prod.mk.inj heq).2]
        exact (mem_filter.1 he).1
      rw [diffAttributes, attributesOf, h config hmem]
      rfl
    · rfl

/-- **The report does not depend on the order of the graph**, if every instance has one address
at most and no attributes are given. -/
theorem computeTfDrift_perm (hedges : Functional edges)
    (hattributes : ∀ e ∈ entities, Mapping.get e.extra "attributes" = .null)
    (hentities : entities'.Perm entities) (hperm : edges'.Perm edges) :
    computeTfDrift py entities' edges' = computeTfDrift py entities edges := by
  have hattributes' : ∀ e ∈ entities', Mapping.get e.extra "attributes" = .null := fun e he =>
    hattributes e (hentities.mem_iff.1 he)
  have hmatched : matchedConfig entities' edges' = matchedConfig entities edges := by
    funext symbol
    exact matchedConfig_congr hedges hentities hperm
  have hdiv : ∀ {es : List EntityData} {ed : List EdgeData},
      (∀ e ∈ es, Mapping.get e.extra "attributes" = .null) →
        ((bySymbol tfstateInstanceKind es).keys.flatMap (divergencesOf py es ed)) = [] := by
    intro es ed hnone
    refine flatMap_eq_nil_iff.2 fun symbol _ => divergencesOf_eq_nil hnone ed symbol
  have hmem : ∀ symbol, symbol ∉ (bySymbol tfstateInstanceKind entities').keys.filterMap
          (matchedConfig entities edges) ↔
        symbol ∉ (bySymbol tfstateInstanceKind entities).keys.filterMap
          (matchedConfig entities edges) := fun symbol =>
    not_congr ((perm_keys_bySymbol hentities).filterMap _).mem_iff
  unfold computeTfDrift
  dsimp only
  rw [hdiv hattributes, hdiv hattributes', hmatched]
  congr 1
  · exact sortStrings_congr ((perm_keys_bySymbol hentities).filter _)
  · simp only [hmem]
    exact sortStrings_congr ((perm_keys_bySymbol hentities).filter _)

end

/-! ### Parsed documents -/

/-! ### The graph of parsed documents -/

section

variable {py : ParserPy} {configs : List (Bytes × String)} {state : Bytes}
  {graph : List EntityData × List EdgeData}

/-- The blocks of the configuration files. -/
def configBlocks (py : ParserPy) (configs : List (Bytes × String)) : List Section :=
  configs.flatMap fun c => (parse py c.1 c.2).sections

/-- The graph of the configuration files and the state file. -/
def driftGraph (py : ParserPy) (configs : List (Bytes × String)) (state : Bytes) :
    Except Exc (List EntityData × List EdgeData) :=
  extractAll py ((configs.map fun c => parse py c.1 c.2) ++ [TfState.parse py state])

theorem extract_config (content : Bytes) (filePath : String) :
    extractInfraGraph py (parse py content filePath) =
      extractSections tfEntityFromSection (tfEdgesFromSection py)
        (parse py content filePath).sections := by
  have hdoc : isTerraformDoc (parse py content filePath) = true := by
    rw [isTerraformDoc, contentType_parse]
    decide
  rw [extractInfraGraph, if_pos hdoc]

theorem extract_state (content : Bytes) : extractInfraGraph py (TfState.parse py content) =
      .ok ((TfState.parse py content).sections.filterMap tfstateEntityFromSection,
        (TfState.parse py content).sections.flatMap (tfstateEdgesFromSection py)) := by
  have hterraform : ¬isTerraformDoc (TfState.parse py content) = true := by
    rw [isTerraformDoc, TfState.contentType_parse]
    decide
  have hkubernetes : ¬isKubernetesDoc (TfState.parse py content) = true := by
    rw [isKubernetesDoc, TfState.contentType_parse]
    decide
  have htfstate : isTfstateDoc (TfState.parse py content) = true := by
    rw [isTfstateDoc, TfState.contentType_parse]
    decide
  have htype : ¬(TfState.parse py content).contentType ≠ "application/x-tfstate" := by
    rw [TfState.contentType_parse]
    decide
  rw [extractInfraGraph, if_neg hterraform, if_neg hkubernetes, if_pos htfstate,
    extractTfstateGraph, if_neg htype]

theorem mem_driftEntities (h : driftGraph py configs state = .ok graph) {e : EntityData} :
    e ∈ graph.1 ↔ (∃ c ∈ configBlocks py configs, tfEntityFromSection c = .ok (some e)) ∨
      ∃ s ∈ (TfState.parse py state).sections, tfstateEntityFromSection s = some e := by
  rw [(mem_extractAll h).1]
  constructor
  · rintro ⟨doc, hdoc, g, hg, he⟩
    rcases mem_append.1 hdoc with hdoc | hdoc
    · obtain ⟨c, hc, rfl⟩ := mem_map.1 hdoc
      rw [extract_config] at hg
      obtain ⟨sec, hsec, hentity⟩ := ((mem_extractSections hg).1 e).1 he
      exact .inl ⟨sec, mem_flatMap.2 ⟨c, hc, hsec⟩, hentity⟩
    · rw [mem_singleton.1 hdoc, extract_state] at hg
      cases hg
      exact .inr (mem_filterMap.1 he)
  · rintro (⟨sec, hsec, hentity⟩ | hstate)
    · obtain ⟨c, hc, hsec⟩ := mem_flatMap.1 hsec
      have hdoc := mem_append_left [TfState.parse py state]
        (mem_map_of_mem (f := fun c => parse py c.1 c.2) hc)
      obtain ⟨g, hg⟩ := exists_of_extractAll h hdoc
      refine ⟨_, hdoc, g, hg, ?_⟩
      rw [extract_config] at hg
      exact ((mem_extractSections hg).1 e).2 ⟨sec, hsec, hentity⟩
    · exact ⟨_, mem_append_right _ (mem_singleton_self _), _, extract_state state,
        mem_filterMap.2 hstate⟩

theorem mem_driftEdges (h : driftGraph py configs state = .ok graph) {e : EdgeData} :
    e ∈ graph.2 ∧ e.edgeType = tfstateOfEdge ↔
      ∃ s ∈ (TfState.parse py state).sections, e ∈ tfstateEdgesFromSection py s := by
  rw [(mem_extractAll h).2]
  constructor
  · rintro ⟨⟨doc, hdoc, g, hg, he⟩, htype⟩
    rcases mem_append.1 hdoc with hdoc | hdoc
    · obtain ⟨c, hc, rfl⟩ := mem_map.1 hdoc
      rw [extract_config] at hg
      obtain ⟨sec, -, es, hes, he⟩ := ((mem_extractSections hg).2 e).1 he
      rcases (tfEdges_spec hes he).2 with hother | hother
      · rw [hother] at htype
        exact absurd htype (by decide)
      · rw [hother] at htype
        exact absurd htype (by decide)
    · rw [mem_singleton.1 hdoc, extract_state] at hg
      cases hg
      exact mem_flatMap.1 he
  · rintro ⟨s, hs, he⟩
    obtain ⟨symbol, address, -, -, rfl⟩ := mem_tfstateEdges.1 he
    exact ⟨⟨_, mem_append_right _ (mem_singleton_self _), _, extract_state state,
      mem_flatMap.2 ⟨s, hs, he⟩⟩, rfl⟩

theorem attributes_driftEntities (h : driftGraph py configs state = .ok graph) :
    ∀ e ∈ graph.1, Mapping.get e.extra "attributes" = .null := by
  intro e he
  rcases (mem_driftEntities h).1 he with ⟨c, -, hentity⟩ | ⟨s, -, hentity⟩
  · exact (tfEntity_spec hentity).2.2
  · obtain ⟨symbol, -, rfl⟩ := Option.map_eq_some_iff.1 hentity
    rfl

theorem lookup_kindMap (blockType : String) :
    (blockType, (kindMap.lookup blockType).getD "terraform_block") ∈ kindMap ∨
      (kindMap.lookup blockType).getD "terraform_block" = "terraform_block" := by
  cases h : kindMap.lookup blockType with
  | none => exact .inr rfl
  | some kind =>
    obtain ⟨l, r, hsplit, -⟩ := lookup_eq_some_iff.1 h
    left
    rw [hsplit]
    exact mem_append_right _ mem_cons_self

theorem eq_resource_of_kind {blockType : String}
    (h : (kindMap.lookup blockType).getD "terraform_block" = terraformResourceKind) :
    blockType = "resource" := by
  have hmem := lookup_kindMap blockType
  rw [h] at hmem
  rcases hmem with hmem | hdefault
  · simpa [kindMap, terraformResourceKind] using hmem
  · exact absurd hdefault (by decide)

theorem kind_ne_instance (blockType : String) :
    (kindMap.lookup blockType).getD "terraform_block" ≠ tfstateInstanceKind := by
  intro h
  have hmem := lookup_kindMap blockType
  rw [h] at hmem
  rcases hmem with hmem | hdefault
  · simp [kindMap, tfstateInstanceKind] at hmem
  · exact absurd hdefault (by decide)

theorem mem_keys_config (h : driftGraph py configs state = .ok graph) {symbol : String} :
    symbol ∈ (bySymbol terraformResourceKind graph.1).keys ↔
      ∃ c ∈ configBlocks py configs, c.symbol? = some symbol ∧
        HasBlockType c "resource" := by
  rw [mem_keys_bySymbol]
  constructor
  · rintro ⟨e, he, hkind, rfl⟩
    rcases (mem_driftEntities h).1 he with ⟨c, hc, hentity⟩ | ⟨s, -, hentity⟩
    · obtain ⟨content, hcontent, hsec⟩ := mem_flatMap.1 hc
      obtain ⟨blockType, rest, htype, hsymbol⟩ := blockType_of_mem_parse hsec
      obtain ⟨hsymbol', hkind', -⟩ := tfEntity_spec hentity
      rw [getD_of_lookup htype, entityKind, hkind] at hkind'
      rw [eq_resource_of_kind (Except.ok.inj hkind')] at htype
      exact ⟨c, hc, hsymbol', htype⟩
    · obtain ⟨symbol, -, rfl⟩ := Option.map_eq_some_iff.1 hentity
      have hne : tfstateInstanceKind ≠ terraformResourceKind := by decide
      exact absurd hkind hne
  · rintro ⟨c, hc, hsymbol, htype⟩
    obtain ⟨e, hentity, hsymbol', hkind⟩ := tfEntity_of_blockType hsymbol htype
    exact ⟨e, (mem_driftEntities h).2 (.inl ⟨c, hc, hentity⟩), hkind.trans (by decide), hsymbol'⟩

theorem mem_keys_state (h : driftGraph py configs state = .ok graph) {symbol : String} :
    symbol ∈ (bySymbol tfstateInstanceKind graph.1).keys ↔
      ∃ s ∈ (TfState.parse py state).sections, s.symbol? = some symbol := by
  rw [mem_keys_bySymbol]
  constructor
  · rintro ⟨e, he, hkind, rfl⟩
    rcases (mem_driftEntities h).1 he with ⟨c, hc, hentity⟩ | ⟨s, hs, hentity⟩
    · obtain ⟨content, hcontent, hsec⟩ := mem_flatMap.1 hc
      obtain ⟨blockType, rest, htype, hsymbol⟩ := blockType_of_mem_parse hsec
      obtain ⟨hsymbol', hkind', -⟩ := tfEntity_spec hentity
      rw [getD_of_lookup htype, entityKind, hkind] at hkind'
      exact absurd (Except.ok.inj hkind') (kind_ne_instance blockType)
    · obtain ⟨symbol, hsymbol, rfl⟩ := Option.map_eq_some_iff.1 hentity
      exact ⟨s, hs, hsymbol⟩
  · rintro ⟨s, hs, hsymbol⟩
    have hentity : ∃ e, tfstateEntityFromSection s = some e ∧ e.kind = tfstateInstanceKind ∧
        e.symbol = symbol := by
      rw [tfstateEntityFromSection, hsymbol]
      exact ⟨_, rfl, rfl, rfl⟩
    obtain ⟨e, he, hkind, hsymbol'⟩ := hentity
    exact ⟨e, (mem_driftEntities h).2 (.inr ⟨s, hs, he⟩), hkind, hsymbol'⟩

/-! ### When the report is exact -/

theorem configSymbol_cases {s : Section} {address : String} (h : configSymbol py s = some address) :
    (s.IsData ∧ ∃ rest, address = "data." ++ rest) ∨
      (¬s.IsData ∧ ∃ rest, address = "resource." ++ rest) := by
  unfold configSymbol at h
  dsimp only at h
  split_ifs at h
  split at h
  · rename_i hmode
    refine .inl ⟨hmode, py.str (getD s.metadata "resource_type" (.str "")) ++ ("." ++
      py.str (getD s.metadata "resource_name" (.str ""))), ?_⟩
    rw [← Option.some.inj h, String.append_assoc, String.append_assoc]
  · rename_i hmode
    refine .inr ⟨hmode, py.str (getD s.metadata "resource_type" (.str "")) ++ ("." ++
      py.str (getD s.metadata "resource_name" (.str ""))), ?_⟩
    rw [← Option.some.inj h, String.append_assoc, String.append_assoc]

theorem data_ne_resource (rest rest' : String) : "data" ++ rest ≠ "resource" ++ rest' := by
  intro h
  have := congrArg String.toList h
  simp [String.toList_append] at this

theorem symbol_of_blockType {c : Section} (hc : c ∈ configBlocks py configs)
    {blockType symbol : String} (htype : HasBlockType c blockType)
    (hsymbol : c.symbol? = some symbol) : ∃ rest, symbol = blockType ++ rest := by
  obtain ⟨content, -, hsec⟩ := mem_flatMap.1 hc
  obtain ⟨blockType', rest, htype', hsymbol'⟩ := blockType_of_mem_parse hsec
  have heq : blockType' = blockType := by
    rw [HasBlockType, htype'] at htype
    simpa using htype
  rw [(symbol?_eq_some_iff.1 hsymbol).1] at hsymbol'
  exact ⟨rest, by rw [Option.some.inj hsymbol', heq]⟩

theorem declares_resource_iff {c : Section} (hc : c ∈ configBlocks py configs) {rest : String} :
    c.Declares ("resource." ++ rest) ↔
      c.symbol? = some ("resource." ++ rest) ∧ HasBlockType c "resource" := by
  refine and_congr_right fun hsymbol => or_iff_left fun hdata => ?_
  obtain ⟨rest', heq⟩ := symbol_of_blockType hc hdata hsymbol
  exact data_ne_resource rest' ("." ++ rest) (by rw [← heq, ← String.append_assoc]; rfl)

theorem not_resource_of_data {c : Section} (hc : c ∈ configBlocks py configs) {rest : String}
    (hsymbol : c.symbol? = some ("data." ++ rest)) : ¬HasBlockType c "resource" := by
  intro htype
  obtain ⟨rest', heq⟩ := symbol_of_blockType hc htype hsymbol
  exact data_ne_resource ("." ++ rest) rest' (by rw [← heq, ← String.append_assoc]; rfl)

variable (hunique : ((TfState.parse py state).sections.map Section.symbol).Nodup)

include hunique in
theorem functional_driftEdges (h : driftGraph py configs state = .ok graph) :
    Functional graph.2 := by
  intro e he e' he' htype htype' hfrom
  obtain ⟨s, hs, hmem⟩ := (mem_driftEdges h).1 ⟨he, htype⟩
  obtain ⟨s', hs', hmem'⟩ := (mem_driftEdges h).1 ⟨he', htype'⟩
  obtain ⟨symbol, address, hsymbol, haddress, rfl⟩ := mem_tfstateEdges.1 hmem
  obtain ⟨symbol', address', hsymbol', haddress', rfl⟩ := mem_tfstateEdges.1 hmem'
  have hsame : s = s' := by
    refine inj_on_of_nodup_map hunique hs hs' ?_
    rw [(symbol?_eq_some_iff.1 hsymbol).1, (symbol?_eq_some_iff.1 hsymbol').1]
    exact congrArg some hfrom
  rw [hsame, haddress'] at haddress
  exact (Option.some.inj haddress).symm

include hunique in
theorem matchedConfig_drift (h : driftGraph py configs state = .ok graph) {s : Section}
    (hs : s ∈ (TfState.parse py state).sections) {symbol address : String}
    (hsymbol : s.symbol? = some symbol) :
    matchedConfig graph.1 graph.2 symbol = some address ↔
      configSymbol py s = some address ∧ ∃ c ∈ configBlocks py configs,
        c.symbol? = some address ∧ HasBlockType c "resource" := by
  rw [matchedConfig_iff (functional_driftEdges hunique h), mem_keys_state h, mem_keys_config h]
  constructor
  · rintro ⟨-, ⟨e, he, htype, rfl, rfl⟩, hdeclared⟩
    obtain ⟨s', hs', hmem⟩ := (mem_driftEdges h).1 ⟨he, htype⟩
    obtain ⟨symbol, address, hsymbol', haddress, rfl⟩ := mem_tfstateEdges.1 hmem
    have hsame : s' = s := by
      refine inj_on_of_nodup_map hunique hs' hs ?_
      rw [(symbol?_eq_some_iff.1 hsymbol').1, (symbol?_eq_some_iff.1 hsymbol).1]
    exact ⟨hsame ▸ haddress, hdeclared⟩
  · rintro ⟨haddress, hdeclared⟩
    have hmem : (⟨symbol, address, "tfstate_of", []⟩ : EdgeData) ∈ tfstateEdgesFromSection py s :=
      mem_tfstateEdges.2 ⟨symbol, address, hsymbol, haddress, rfl⟩
    obtain ⟨hedge, htype⟩ := (mem_driftEdges h).2 ⟨s, hs, hmem⟩
    exact ⟨⟨s, hs, hsymbol⟩, ⟨_, hedge, htype, rfl, rfl⟩, hdeclared⟩

/-- **The report is exact as long as no block declares the data source of an instance**: the
entities of data blocks are not looked at, so a data source of the state is listed even if it is
declared. -/
theorem drift_exact_iff (py : ParserPy) (configs : List (Bytes × String)) (state : Bytes)
    (hunique : ((TfState.parse py state).sections.map Section.symbol).Nodup)
    {graph : List EntityData × List EdgeData} (h : driftGraph py configs state = .ok graph) :
    DriftExact py (configBlocks py configs) (TfState.parse py state).sections graph.1 graph.2 ↔
      ∀ s ∈ (TfState.parse py state).sections, s.IsData → ∀ address,
        configSymbol py s = some address → ∀ c ∈ configBlocks py configs, ¬c.Declares address := by
  -- an instance is listed exactly if it is not matched
  have hlisted : ∀ s ∈ (TfState.parse py state).sections, ∀ symbol, s.symbol? = some symbol →
      (symbol ∈ (computeTfDrift py graph.1 graph.2).stateNotInConfig ↔
        ¬∃ address, configSymbol py s = some address ∧ ∃ c ∈ configBlocks py configs,
          c.symbol? = some address ∧ HasBlockType c "resource") := by
    intro s hs symbol hsymbol
    have hkeys := (mem_keys_state h).2 ⟨s, hs, hsymbol⟩
    rw [computeTfDrift, mem_sortStrings, mem_filter, and_iff_right hkeys,
      Option.isNone_iff_eq_none, Option.eq_none_iff_forall_ne_some]
    simp only [ne_eq, matchedConfig_drift hunique h hs hsymbol, not_exists]
  constructor
  · intro hexact s hs hdata address haddress c hc hdeclares
    obtain ⟨symbol, hsymbol, hne⟩ :=
      TfState.symbol_of_isInstance (TfState.isInstance_of_mem_parse hs)
    have hsymbol? : s.symbol? = some symbol := symbol?_eq_some_iff.2 ⟨hsymbol, hne⟩
    refine (hexact.stateNotInConfig s hs symbol hsymbol?).1 ?_ ⟨address, haddress, c, hc, hdeclares⟩
    rw [hlisted s hs symbol hsymbol?]
    rintro ⟨address', haddress', c', hc', hsymbol', htype'⟩
    rcases configSymbol_cases haddress' with ⟨-, rest, rfl⟩ | ⟨hnot, -⟩
    · exact not_resource_of_data hc' hsymbol' htype'
    · exact hnot hdata
  · intro hcond
    refine ⟨fun s hs symbol hsymbol => ?_, fun c hc htype symbol hsymbol => ?_, ?_⟩
    · rw [hlisted s hs symbol hsymbol, not_iff_not]
      refine exists_congr fun address => and_congr_right fun haddress => ?_
      rcases configSymbol_cases haddress with ⟨hdata, rest, rfl⟩ | ⟨-, rest, rfl⟩
      · constructor
        · rintro ⟨c, hc, hsymbol', htype⟩
          exact absurd htype (not_resource_of_data hc hsymbol')
        · rintro ⟨c, hc, hdeclares⟩
          exact absurd hdeclares (hcond s hs hdata _ haddress c hc)
      · exact exists_congr fun c => and_congr_right fun hc => (declares_resource_iff hc).symm
    · have hkeys := (mem_keys_config h).2 ⟨c, hc, hsymbol, htype⟩
      rw [computeTfDrift, mem_sortStrings, mem_filter, and_iff_right hkeys,
        decide_eq_true_iff, not_iff_not, mem_filterMap]
      constructor
      · rintro ⟨stateSymbol, hmem, hmatched⟩
        obtain ⟨s, hs, hstate⟩ := (mem_keys_state h).1 hmem
        exact ⟨s, hs, ((matchedConfig_drift hunique h hs hstate).1 hmatched).1⟩
      · rintro ⟨s, hs, haddress⟩
        obtain ⟨stateSymbol, hstate, hne⟩ :=
          TfState.symbol_of_isInstance (TfState.isInstance_of_mem_parse hs)
        have hstate? : s.symbol? = some stateSymbol := symbol?_eq_some_iff.2 ⟨hstate, hne⟩
        exact ⟨stateSymbol, (mem_keys_state h).2 ⟨s, hs, hstate?⟩,
          (matchedConfig_drift hunique h hs hstate?).2 ⟨haddress, c, hc, hsymbol, htype⟩⟩
    · intro entities' edges' hentities hedges
      exact computeTfDrift_perm (functional_driftEdges hunique h) (attributes_driftEntities h)
        hentities hedges

end

/-- A configuration with a bucket and an image that is looked up. -/
def sampleConfigText : String :=
  "\x7b\"resource\":\x7b\"s3\":\x7b\"log\":\x7b\x7d\x7d\x7d," ++
    "\"data\":\x7b\"ami\":\x7b\"web\":\x7b\x7d\x7d\x7d\x7d"

def sampleConfigJson : Json :=
  .obj [("resource", .obj [("s3", .obj [("log", .obj [])])]),
    ("data", .obj [("ami", .obj [("web", .obj [])])])]

/-- The state after the bucket was made. -/
def bucketStateText : String :=
  "\x7b\"version\":4,\"resources\":[" ++
    "\x7b\"type\":\"s3\",\"name\":\"log\",\"instances\":[\x7b\x7d]\x7d]\x7d"

def bucketStateJson : Json :=
  .obj [("version", .int 4), ("resources", .arr [.obj [("type", .str "s3"),
    ("name", .str "log"), ("instances", .arr [.obj []])]])]

/-- The state after the image was looked up. -/
def imageStateText : String :=
  "\x7b\"version\":4,\"resources\":[\x7b\"mode\":\"data\",\"type\":\"ami\",\"name\":\"web\"," ++
    "\"instances\":[\x7b\"index_key\":0\x7d]\x7d]\x7d"

def imageStateJson : Json :=
  .obj [("version", .int 4), ("resources", .arr [.obj [("mode", .str "data"),
    ("type", .str "ami"), ("name", .str "web"),
    ("instances", .arr [.obj [("index_key", .int 0)]])]])]

def samplePy : ParserPy := ParserPy.sample [(sampleConfigText, sampleConfigJson),
  (bucketStateText, bucketStateJson), (imageStateText, imageStateJson)]

def sampleConfigs : List (Bytes × String) := [(asciiBytes sampleConfigText, "main.tf.json")]

theorem asciiBytes_append (l l' : List Char) :
    asciiBytes (String.ofList l ++ String.ofList l') =
      (l ++ l').map fun c => UInt8.ofNat c.toNat := by
  rw [← String.ofList_append, asciiBytes_ofList]

/-- The configuration and the state agree. -/
theorem drift_exact_iff_bucket : ∃ graph,
    driftGraph samplePy sampleConfigs (asciiBytes bucketStateText) = .ok graph ∧
      DriftExact samplePy (configBlocks samplePy sampleConfigs)
        (TfState.parse samplePy (asciiBytes bucketStateText)).sections graph.1 graph.2 := by
  have hconfig : asciiBytes sampleConfigText = _ := asciiBytes_append _ _
  have hstate : asciiBytes bucketStateText = _ := asciiBytes_append _ _
  have hok : (driftGraph samplePy sampleConfigs (asciiBytes bucketStateText)).toBool = true := by
    rw [sampleConfigs, hconfig, hstate]
    decide
  have hunique : ((TfState.parse samplePy (asciiBytes bucketStateText)).sections.map
      Section.symbol).Nodup := by
    rw [hstate]
    decide
  have haddress : ∀ s ∈ (TfState.parse samplePy (asciiBytes bucketStateText)).sections,
      configSymbol samplePy s = some "resource.s3.log" := by
    rw [hstate]
    decide
  cases h : driftGraph samplePy sampleConfigs (asciiBytes bucketStateText) with
  | error exc =>
    rw [h] at hok
    cases hok
  | ok graph =>
    refine ⟨graph, rfl, (drift_exact_iff samplePy sampleConfigs _ hunique h).2 ?_⟩
    intro s hs hdata
    rcases configSymbol_cases (haddress s hs) with ⟨-, rest, heq⟩ | ⟨hnot, -⟩
    · have hhead := congrArg (fun text : String => text.toList.head?) heq
      simp [String.toList_append] at hhead
    · exact absurd hdata hnot

def declaresText (text : String) : Json → Bool
  | .str s => s = text
  | _ => false

theorem eq_of_declaresText {text : String} {value : Json} (h : declaresText text value = true) :
    value = .str text := by
  cases value with
  | str s => rw [of_decide_eq_true h]
  | _ => cases h

/-- The image is declared, but its instance is listed. -/
theorem not_driftExact_image : ∃ graph,
    driftGraph samplePy sampleConfigs (asciiBytes imageStateText) = .ok graph ∧
      (graph.1.map EntityData.symbol).Nodup ∧
      ¬DriftExact samplePy (configBlocks samplePy sampleConfigs)
        (TfState.parse samplePy (asciiBytes imageStateText)).sections graph.1 graph.2 := by
  have hconfigBytes : asciiBytes sampleConfigText = _ := asciiBytes_append _ _
  have hstateBytes : asciiBytes imageStateText = _ := asciiBytes_append _ _
  have hgraph : (match driftGraph samplePy sampleConfigs (asciiBytes imageStateText) with
      | .error _ => false
      | .ok graph => decide ((graph.1.map EntityData.symbol).Nodup ∧ "data.ami.web[0]" ∈
          (computeTfDrift samplePy graph.1 graph.2).stateNotInConfig)) = true := by
    rw [sampleConfigs, hconfigBytes, hstateBytes]
    decide
  have hconfig : (configBlocks samplePy sampleConfigs).any (fun c =>
      c.symbol? = some "data.ami.web" &&
        (c.metadata.lookup "block_type").any (declaresText "data")) = true := by
    rw [sampleConfigs, hconfigBytes]
    decide
  have hstate : (TfState.parse samplePy (asciiBytes imageStateText)).sections.any (fun s =>
      s.symbol? = some "data.ami.web[0]" &&
        configSymbol samplePy s = some "data.ami.web") = true := by
    rw [hstateBytes]
    decide
  cases h : driftGraph samplePy sampleConfigs (asciiBytes imageStateText) with
  | error exc =>
    rw [h] at hgraph
    cases hgraph
  | ok graph =>
    rw [h] at hgraph
    obtain ⟨hnodup, hlisted⟩ := of_decide_eq_true hgraph
    obtain ⟨c, hc, hdeclares⟩ := any_eq_true.1 hconfig
    obtain ⟨s, hs, haddress⟩ := any_eq_true.1 hstate
    simp only [Bool.and_eq_true, decide_eq_true_eq] at hdeclares haddress
    refine ⟨graph, rfl, hnodup, fun hexact => ?_⟩
    refine (hexact.stateNotInConfig s hs _ haddress.1).1 hlisted ⟨_, haddress.2, c, hc,
      hdeclares.1, .inr ?_⟩
    cases hlookup : c.metadata.lookup "block_type" with
    | none => simp [hlookup] at hdeclares
    | some value =>
      rw [hlookup] at hdeclares
      rw [HasBlockType, hlookup, eq_of_declaresText hdeclares.2]

end Omniscience.Parsers
