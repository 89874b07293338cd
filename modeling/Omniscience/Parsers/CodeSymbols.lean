import Omniscience.Lib.TreePlaces
import Omniscience.Parsers.TreeSitter

/-!
# Symbols of code definitions

A definition is a named function, method, class or type; what it is called in full depends on
everything it stands in.  The walk makes sections of nodes, and two things come apart: the decorated
or exported form of a definition is a node of its own beside the definition, and a symbol keeps the
nearest class only.

* `collectSymbols_eq` : the sections, by the places of their nodes.
* `one_section_each_iff` : when there is one section for each definition, and symbols are as
  different as the full names.
-/

namespace Omniscience.Parsers

namespace TreeSitter

open TreePlace (Within HeightLE places)
open Option
open List

/-! ### Definitions -/

/-- The types of the children that hold the name of a node. -/
def nameTypes : Language → String → List String
  | .python, type =>
    if type ∈ ["function_definition", "class_definition"] then ["identifier"] else []
  | .typescript, type | .javascript, type =>
    if type ∈ ["function_declaration", "class_declaration"] then ["identifier", "type_identifier"]
    else if type = "method_definition" then ["property_identifier", "private_property_identifier"]
    else if type ∈ ["variable_declarator", "internal_module"] then ["identifier"]
    else []
  | .go, type =>
    if type = "function_declaration" then ["identifier"]
    else if type = "method_declaration" then ["field_identifier"]
    else if type = "type_spec" then ["type_identifier"]
    else []
  | .rust, type =>
    if type ∈ ["function_item", "mod_item"] then ["identifier"]
    else if type ∈ ["struct_item", "enum_item", "trait_item"] then ["type_identifier"]
    else []
  | .java, type =>
    if type ∈ ["method_declaration", "class_declaration", "interface_declaration",
      "enum_declaration", "record_declaration"] then ["identifier"]
    else []

/-- The type of the receiver of a Go method, without the star of a pointer: what stands last in its
parameter list. -/
def receiverType (py : ParserPy) (src : Bytes) (node : Node) : List String :=
  match firstNamedChild node ["parameter_list"] with
  | none => []
  | some recv =>
    match firstNamedChild recv ["parameter_declaration"] with
    | none => []
    | some recvType => (recvType.namedChildren.getLast?.map fun type =>
        String.ofList ((nodeText py src type).toList.dropWhile (· = '*'))).toList

/-- What a node adds to the full names of what stands in it; nothing for a node without a name.  An
`impl` block adds what it has besides its body, the trait and the type. -/
def ownName (py : ParserPy) (file : SourceFile) (node : Node) : Option (List String) :=
  if file.language = .rust ∧ node.type = "impl_item" then
    some ((node.namedChildren.filter fun child => child.type ≠ "declaration_list").map
      (nodeText py file.content))
  else if node.type = "variable_declarator" ∧
      (firstNamedChild node ["arrow_function"]).isNone then none
  else
    ((childText py file.content node (nameTypes file.language node.type)).filter (· ≠ "")).map
      fun name =>
        if file.language = .go ∧ node.type = "method_declaration" then
          receiverType py file.content node ++ [name]
        else [name]

/-- The types of the nodes that are definitions. -/
def definitionTypes : Language → List String
  | .python => ["function_definition", "class_definition"]
  | .typescript | .javascript => ["function_declaration", "class_declaration", "method_definition"]
  | .go => ["function_declaration", "method_declaration"]
  | .rust => ["function_item", "struct_item", "enum_item"]
  | .java => ["method_declaration", "class_declaration", "interface_declaration"]

/-- Nodes that group definitions, and the type of the members: `const` declarations of arrow
functions, and type declarations. -/
def memberType (language : Language) (type : String) : Option String :=
  if language ∈ [.typescript, .javascript] ∧ type = "lexical_declaration" then
    some "variable_declarator"
  else if language = .go ∧ type = "type_declaration" then some "type_spec"
  else none

/-- The names of the definitions that a node declares. -/
def definedBy (py : ParserPy) (file : SourceFile) (node : Node) : List (List String) :=
  match memberType file.language node.type with
  | some member =>
    (node.namedChildren.filter fun child => child.type = member).filterMap (ownName py file)
  | none =>
    if node.type ∈ definitionTypes file.language then (ownName py file node).toList else []

/-- A definition: the place of the node that declares it, which of the node's definitions it is, and
its own name. -/
structure Definition where
  place : TreePlace Node
  index : ℕ
  name : List String

/-- The definitions of a tree. -/
def IsDefinition (py : ParserPy) (file : SourceFile) (root : Node) (d : Definition) : Prop :=
  Within Node.namedChildren root d.place ∧ (definedBy py file d.place.node)[d.index]? = some d.name

/-- The full name: the names of what the definition stands in, and its own. -/
def Definition.fullName (py : ParserPy) (file : SourceFile) (d : Definition) : List String :=
  d.place.above.reverse.flatMap (fun node => (ownName py file node).getD []) ++ d.name

/-! ### Sections by place -/

/-- The types of what a decorated or exported form stands around. -/
def wrappedTypes (language : Language) (type : String) : List String :=
  if language = .python ∧ type = "decorated_definition" then
    ["function_definition", "class_definition"]
  else if language ∈ [.typescript, .javascript] ∧ type = "export_statement" then
    ["function_declaration", "class_declaration", "lexical_declaration"]
  else []

/-- The way to the node whose first definition a section is about: a decorated or exported form is
about the first definition in it. -/
def aboutPath (file : SourceFile) (p : TreePlace Node) : Option (List ℕ) :=
  if wrappedTypes file.language p.node.type = [] then some p.path
  else
    (p.node.namedChildren.findIdx? fun child =>
      child.type ∈ wrappedTypes file.language p.node.type).map (· :: p.path)

/-- The name of the nearest class or `impl` block above a place. -/
def nearestContainer (py : ParserPy) (file : SourceFile) (above : List Node) : Option String :=
  above.findSome? fun node => if isContainer node.type then rawName py file node else none

/-- The section of the node at a place. -/
def placeSection (py : ParserPy) (file : SourceFile) (p : TreePlace Node) : Option Section :=
  (rawName py file p.node).map fun name =>
    nodeSection py file (nearestContainer py file p.above) name p.node

/-- The sections that the walk collects, with the places of their nodes. -/
def located (py : ParserPy) (file : SourceFile) (root : Node) : List (TreePlace Node × Section) :=
  (places Node.namedChildren (maxDepth + 1) (.root root)).filterMap fun p =>
    (placeSection py file p).map (Prod.mk p)

/-- The sections of a definition. -/
def sectionsFor (py : ParserPy) (file : SourceFile) (root : Node) (d : Definition) : List Section :=
  ((located py file root).filter fun e =>
    aboutPath file e.1 = some d.place.path ∧ d.index = 0).map Prod.snd

variable {py : ParserPy} {file : SourceFile}

theorem nearestContainer_cons (node : Node) (above : List Node) :
    nearestContainer py file (node :: above) =
      match rawName py file node with
      | some name => if isContainer node.type then some name else nearestContainer py file above
      | none => nearestContainer py file above := by
  rw [nearestContainer, List.findSome?_cons]
  cases rawName py file node <;> cases isContainer node.type <;> rfl

theorem collectSymbols_at (levels : ℕ) (p : TreePlace Node) :
    collectSymbols py file levels (nearestContainer py file p.above) p.node =
      (places Node.namedChildren levels p).filterMap (placeSection py file) := by
  induction levels generalizing p with
  | zero => rfl
  | succ levels ih =>
    have hchildren (parent : Option String)
        (hparent : parent = nearestContainer py file (p.node :: p.above)) :
        p.node.namedChildren.flatMap (collectSymbols py file levels parent) =
          (p.node.namedChildren.zipIdx.flatMap fun ci =>
            places Node.namedChildren levels (p.down ci.2 ci.1)).filterMap
              (placeSection py file) := by
      rw [filterMap_flatMap, hparent]
      conv_lhs => rw [← zipIdx_map_fst 0 p.node.namedChildren, flatMap_map]
      exact flatMap_congr fun ci _ => ih (p.down ci.2 ci.1)
    rw [collectSymbols, places, filterMap_cons, placeSection]
    cases hname : rawName py file p.node with
    | none =>
      rw [map_none]
      exact hchildren _ (by rw [nearestContainer_cons, hname])
    | some name =>
      rw [map_some]
      exact congrArg _ (hchildren _ (by rw [nearestContainer_cons, hname]))

theorem collectSymbols_eq (root : Node) : (located py file root).map Prod.snd =
      collectSymbols py file (maxDepth + 1) none root := by
  have h : collectSymbols py file (maxDepth + 1) none root = _ :=
    collectSymbols_at (maxDepth + 1) (.root root)
  rw [h, located, map_filterMap]
  refine filterMap_congr fun p _ => ?_
  rw [Option.map_map]
  exact Option.map_id'

/-! ### What a wrapper is about -/

theorem exists_findIdx {l : List Node} {types : List String} {c : Node}
    (h : l.find? (fun child => child.type ∈ types) = some c) :
    ∃ i, l.findIdx? (fun child => child.type ∈ types) = some i ∧ l[i]? = some c ∧
      c.type ∈ types := by
  have hc : c.type ∈ types := by simpa using List.find?_some h
  rw [List.find?_eq_some_iff_getElem] at h
  obtain ⟨-, i, hi, rfl, hbefore⟩ := h
  refine ⟨i, ?_, List.getElem?_eq_getElem hi, hc⟩
  rw [List.findIdx?_eq_some_iff_getElem]
  refine ⟨hi, decide_eq_true hc, fun j hj => ?_⟩
  simpa using hbefore j hj

variable {name : String}

theorem definedBy_of_inner {c : Node} (hlanguage : file.language ∈ [.typescript, .javascript])
    (htype : c.type ∈ ["function_declaration", "class_declaration", "lexical_declaration"])
    (h : (symbolNameInner py file.content c).filter (· ≠ "") = some name) :
    rawName py file c = some name ∧ definedBy py file c ≠ [] := by
  have hextractor : nameExtractor file.language = symbolNameTsJs := by
    rcases mem_pair.1 hlanguage with h | h <;> rw [h] <;> rfl
  have hnodes : symbolNodeTypes file.language = ["function_declaration", "class_declaration",
      "export_statement", "lexical_declaration", "method_definition"] := by
    rcases mem_pair.1 hlanguage with h | h <;> rw [h] <;> rfl
  have hexport : c.type ≠ "export_statement" := by
    rintro heq
    rw [heq] at htype
    exact absurd htype (by decide)
  have hraw : rawName py file c = some name := by
    rw [rawName, hnodes, hextractor, symbolNameTsJs, if_neg hexport, h, if_pos]
    simp only [mem_cons, not_mem_nil, or_false] at htype ⊢
    tauto
  refine ⟨hraw, ?_⟩
  have hnotRust : file.language ≠ .rust := by
    intro heq
    rw [heq] at hlanguage
    exact absurd hlanguage (by decide)
  have hnotGo : file.language ≠ .go := by
    intro heq
    rw [heq] at hlanguage
    exact absurd hlanguage (by decide)
  by_cases hlexical : c.type = "lexical_declaration"
  · -- the first declarator is an arrow function with a name
    rw [symbolNameInner, if_pos hlexical] at h
    cases hdeclarator : firstNamedChild c ["variable_declarator"] with
    | none =>
      rw [hdeclarator] at h
      cases h
    | some declarator =>
      rw [hdeclarator] at h
      dsimp only at h
      cases harrow : firstNamedChild declarator ["arrow_function"] with
      | none =>
        rw [harrow] at h
        cases h
      | some arrow =>
        rw [harrow] at h
        have hmem : declarator ∈ c.namedChildren := List.mem_of_find?_eq_some hdeclarator
        have htype : declarator.type = "variable_declarator" := by
          simpa using List.find?_some hdeclarator
        have hown : ownName py file declarator = some [name] := by
          have hnames : nameTypes file.language "variable_declarator" = ["identifier"] := by
            rcases mem_pair.1 hlanguage with h | h <;> rw [h] <;> rfl
          rw [ownName, if_neg (fun h => hnotRust h.1), if_neg (fun h => by
            rw [harrow] at h
            cases h.2), htype, hnames, h, map_some,
            if_neg (fun h => hnotGo h.1)]
        rw [definedBy, memberType, if_pos ⟨hlanguage, hlexical⟩]
        exact ne_nil_of_mem (mem_filterMap.2 ⟨declarator,
          mem_filter.2 ⟨hmem, decide_eq_true htype⟩, hown⟩)
  · have htypes : c.type ∈ ["function_declaration", "class_declaration"] := by
      simp only [mem_cons, not_mem_nil, or_false] at htype ⊢
      tauto
    have hmethod : c.type ≠ "method_definition" := by
      intro heq
      rw [heq] at htypes
      exact absurd htypes (by decide)
    have hdeclarator : c.type ≠ "variable_declarator" := by
      intro heq
      rw [heq] at htypes
      exact absurd htypes (by decide)
    rw [symbolNameInner, if_neg hlexical, if_neg hmethod] at h
    have hnames : nameTypes file.language c.type = ["identifier", "type_identifier"] := by
      rcases mem_pair.1 hlanguage with h | h <;> rw [h] <;> exact if_pos htypes
    have hdefinition : c.type ∈ definitionTypes file.language := by
      have htypes' : c.type ∈ ["function_declaration", "class_declaration",
          "method_definition"] := by
        simp only [mem_cons, not_mem_nil, or_false] at htypes ⊢
        tauto
      rcases mem_pair.1 hlanguage with h | h <;> rw [h] <;> exact htypes'
    have hown : ownName py file c = some [name] := by
      rw [ownName, if_neg (fun h => hnotRust h.1), if_neg (fun h => hdeclarator h.1), hnames, h,
        map_some, if_neg (fun h => hnotGo h.1)]
    rw [definedBy, memberType, if_neg (fun h => hlexical h.2), if_neg (fun h => hnotGo h.1),
      if_pos hdefinition, hown]
    exact cons_ne_nil _ _

theorem definedBy_of_decorated {c : Node} (hlanguage : file.language = .python)
    (htype : c.type ∈ ["function_definition", "class_definition"])
    (h : (childText py file.content c ["identifier"]).filter (· ≠ "") = some name) :
    rawName py file c = some name ∧ definedBy py file c ≠ [] := by
  have hdecorated : c.type ≠ "decorated_definition" := by
    rintro heq
    rw [heq] at htype
    exact absurd htype (by decide)
  have hdeclarator : c.type ≠ "variable_declarator" := by
    intro heq
    rw [heq] at htype
    exact absurd htype (by decide)
  constructor
  · rw [rawName, hlanguage, nameExtractor, symbolNamePython, if_neg hdecorated, h, if_pos]
    rw [symbolNodeTypes]
    simp only [mem_cons, not_mem_nil, or_false] at htype ⊢
    tauto
  · have hnames : nameTypes file.language c.type = ["identifier"] := by
      rw [hlanguage]
      exact if_pos htype
    have hown : ownName py file c = some [name] := by
      rw [ownName, if_neg (by rw [hlanguage]; exact fun h => by cases h.1),
        if_neg (fun h => hdeclarator h.1), hnames, h, map_some,
        if_neg (by rw [hlanguage]; exact fun h => by cases h.1)]
    have hmember : memberType file.language c.type = none := by
      rw [hlanguage, memberType, if_neg (fun h => absurd h.1 (by decide)),
        if_neg (fun h => by cases h.1)]
    rw [definedBy, hmember, hown, if_pos (by rw [hlanguage]; exact htype)]
    exact cons_ne_nil _ _

variable {p : TreePlace Node}

theorem exists_wrapped (hwraps : wrappedTypes file.language p.node.type ≠ [])
    (hname : rawName py file p.node = some name) :
    ∃ i c, p.node.namedChildren[i]? = some c ∧ aboutPath file p = some (p.down i c).path ∧
      rawName py file c = some name ∧ definedBy py file c ≠ [] := by
  have hextract : (nameExtractor file.language py file.content p.node).filter (· ≠ "") =
      some name := by
    rw [rawName] at hname
    split_ifs at hname
    exact hname
  rw [aboutPath, if_neg hwraps]
  by_cases hpython : file.language = .python ∧ p.node.type = "decorated_definition"
  · rw [wrappedTypes, if_pos hpython]
    rw [hpython.1, nameExtractor, symbolNamePython, if_pos hpython.2] at hextract
    cases hinner : firstNamedChild p.node ["function_definition", "class_definition"] with
    | none =>
      rw [hinner] at hextract
      cases hextract
    | some inner =>
      rw [hinner] at hextract
      obtain ⟨i, hi, hc, htype⟩ := exists_findIdx hinner
      rw [hi]
      exact ⟨i, inner, hc, rfl, definedBy_of_decorated hpython.1 htype hextract⟩
  · rw [wrappedTypes, if_neg hpython] at hwraps ⊢
    split_ifs at hwraps ⊢ with hexport
    · have hextractor : nameExtractor file.language = symbolNameTsJs := by
        rcases mem_pair.1 hexport.1 with h | h <;> rw [h] <;> rfl
      rw [hextractor, symbolNameTsJs, if_pos hexport.2] at hextract
      cases hinner : firstNamedChild p.node ["function_declaration", "class_declaration",
          "lexical_declaration"] with
      | none =>
        rw [hinner] at hextract
        cases hextract
      | some inner =>
        rw [hinner] at hextract
        obtain ⟨i, hi, hc, htype⟩ := exists_findIdx hinner
        rw [hi]
        exact ⟨i, inner, hc, rfl, definedBy_of_inner hexport.1 htype hextract⟩
    · exact absurd rfl hwraps

theorem aboutPath_of_definedBy (h : definedBy py file p.node ≠ []) :
    aboutPath file p = some p.path := by
  rw [aboutPath, if_pos]
  by_contra hwraps
  refine h ?_
  rw [wrappedTypes] at hwraps
  split_ifs at hwraps with hpython hexport
  · rw [definedBy, memberType, hpython.1, hpython.2]
    rfl
  · rw [definedBy, memberType, hexport.2]
    rcases mem_pair.1 hexport.1 with hlanguage | hlanguage <;> rw [hlanguage] <;> rfl
  · exact absurd rfl hwraps

theorem eq_singleton_of_nodup {α : Type} {l : List α} {a : α} (hnodup : l.Nodup) (ha : a ∈ l)
    (hall : ∀ b ∈ l, b = a) : l = [a] := by
  cases l with
  | nil => exact absurd ha not_mem_nil
  | cons b l =>
    obtain rfl := hall b mem_cons_self
    cases l with
    | nil => rfl
    | cons c l =>
      have hc := hall c (mem_cons_of_mem _ mem_cons_self)
      rw [hc] at hnodup
      exact absurd mem_cons_self (nodup_cons.1 hnodup).1

/-! ### One section for each definition -/

/-- Each node declares one definition at most, and the walk finds its name. -/
def OneNamed (py : ParserPy) (file : SourceFile) (root : Node) : Prop :=
  ∀ p, Within Node.namedChildren root p → definedBy py file p.node ≠ [] →
    (definedBy py file p.node).length = 1 ∧ (rawName py file p.node).isSome

/-- No decorated or exported form stands around a definition with a name. -/
def Unwrapped (py : ParserPy) (file : SourceFile) (root : Node) : Prop :=
  ∀ p, Within Node.namedChildren root p → wrappedTypes file.language p.node.type ≠ [] →
    rawName py file p.node = none

/-- The places whose sections are about a definition. -/
def aboutPlaces (py : ParserPy) (file : SourceFile) (root : Node) (d : Definition) :
    List (TreePlace Node) :=
  (places Node.namedChildren (maxDepth + 1) (.root root)).filter fun p =>
    aboutPath file p = some d.place.path ∧ d.index = 0 ∧ (rawName py file p.node).isSome

variable {root : Node} {d d' : Definition}

theorem isSome_placeSection (p : TreePlace Node) :
    (placeSection py file p).isSome = (rawName py file p.node).isSome := by
  rw [placeSection, isSome_map]

theorem sectionsFor_eq :
    sectionsFor py file root d = (aboutPlaces py file root d).filterMap (placeSection py file) := by
  rw [sectionsFor, located, aboutPlaces]
  induction places Node.namedChildren (maxDepth + 1) (.root root) with
  | nil => rfl
  | cons p l ih =>
    rw [filterMap_cons, filter_cons, ← isSome_placeSection]
    cases hsection : placeSection py file p with
    | none =>
      rw [map_none, ih, if_neg (by simp)]
    | some sec =>
      rw [map_some, filter_cons]
      by_cases habout : aboutPath file p = some d.place.path ∧ d.index = 0
      · rw [if_pos (decide_eq_true habout), map_cons, ih, if_pos (by simpa using habout),
          filterMap_cons, hsection]
      · rw [if_neg (by simpa using habout), ih, if_neg (by simpa using habout)]

theorem length_sectionsFor :
    (sectionsFor py file root d).length = (aboutPlaces py file root d).length := by
  rw [sectionsFor_eq, length_filterMap_eq_countP, countP_eq_length]
  intro p hp
  have habout := of_decide_eq_true (mem_filter.1 hp).2
  rw [isSome_placeSection]
  exact habout.2.2

theorem mem_aboutPlaces (hheight : HeightLE Node.namedChildren maxDepth root) :
    p ∈ aboutPlaces py file root d ↔
      Within Node.namedChildren root p ∧ aboutPath file p = some d.place.path ∧ d.index = 0 ∧
        (rawName py file p.node).isSome := by
  rw [aboutPlaces, mem_filter, TreePlace.mem_places_iff hheight, decide_eq_true_iff]

theorem aboutPlaces_eq (hheight : HeightLE Node.namedChildren maxDepth root)
    (hnamed : OneNamed py file root) (hunwrapped : Unwrapped py file root)
    (hd : IsDefinition py file root d) : aboutPlaces py file root d = [d.place] := by
  have hne : definedBy py file d.place.node ≠ [] :=
    ne_nil_of_mem (List.mem_of_getElem? hd.2)
  obtain ⟨hlength, hsome⟩ := hnamed d.place hd.1 hne
  have hzero : d.index = 0 := by
    obtain ⟨hlt, -⟩ := List.getElem?_eq_some_iff.1 hd.2
    omega
  refine eq_singleton_of_nodup (List.Nodup.filter _ TreePlace.nodup_places)
    ((mem_aboutPlaces hheight).2 ⟨hd.1, aboutPath_of_definedBy hne, hzero, hsome⟩) fun p hp => ?_
  obtain ⟨hwithin, habout, -, hraw⟩ := (mem_aboutPlaces hheight).1 hp
  by_cases hwraps : wrappedTypes file.language p.node.type = []
  · rw [aboutPath, if_pos hwraps] at habout
    exact TreePlace.eq_of_path_eq hwithin hd.1 (Option.some.inj habout)
  · rw [hunwrapped p hwithin hwraps] at hraw
    cases hraw

theorem one_section_iff (hheight : HeightLE Node.namedChildren maxDepth root) :
    (∀ d, IsDefinition py file root d → (sectionsFor py file root d).length = 1) ↔
      OneNamed py file root ∧ Unwrapped py file root := by
  constructor
  · intro hone
    -- the place of the one section of a definition
    have hplace (d : Definition) (hd : IsDefinition py file root d) :
        ∃ p, aboutPlaces py file root d = [p] := by
      have hlength := hone d hd
      rw [length_sectionsFor] at hlength
      exact length_eq_one_iff.1 hlength
    have hindex (d : Definition) (hd : IsDefinition py file root d) :
        d.index = 0 ∧ (rawName py file d.place.node).isSome := by
      obtain ⟨p, hp⟩ := hplace d hd
      have hmem : p ∈ aboutPlaces py file root d := by
        rw [hp]
        exact mem_singleton_self p
      obtain ⟨hwithin, habout, hzero, hsome⟩ := (mem_aboutPlaces hheight).1 hmem
      refine ⟨hzero, ?_⟩
      by_cases hwraps : wrappedTypes file.language p.node.type = []
      · rw [aboutPath, if_pos hwraps] at habout
        rwa [← TreePlace.eq_of_path_eq hwithin hd.1 (Option.some.inj habout)]
      · obtain ⟨name, hname⟩ := isSome_iff_exists.1 hsome
        obtain ⟨i, c, hc, hpath, hraw, -⟩ := exists_wrapped hwraps hname
        rw [hpath] at habout
        rw [← TreePlace.eq_of_path_eq (.down hwithin hc) hd.1 (Option.some.inj habout)]
        exact isSome_iff_exists.2 ⟨name, hraw⟩
    constructor
    · intro p hp hne
      have hdefinition (k : ℕ) (hk : k < (definedBy py file p.node).length) :
          IsDefinition py file root ⟨p, k, (definedBy py file p.node)[k]⟩ :=
        ⟨hp, List.getElem?_eq_getElem hk⟩
      have hpos := length_pos_iff.2 hne
      refine ⟨?_, (hindex _ (hdefinition 0 hpos)).2⟩
      by_contra hlength
      have := (hindex _ (hdefinition 1 (by omega))).1
      cases this
    · intro p hp hwraps
      by_contra hsome
      obtain ⟨name, hname⟩ := ne_none_iff_exists'.1 hsome
      obtain ⟨i, c, hc, hpath, hraw, hne⟩ := exists_wrapped hwraps hname
      have hpos := length_pos_iff.2 hne
      -- the first definition inside has the section of the form and its own
      have hd : IsDefinition py file root ⟨p.down i c, 0, (definedBy py file c)[0]⟩ :=
        ⟨.down hp hc, List.getElem?_eq_getElem hpos⟩
      obtain ⟨q, hq⟩ := hplace _ hd
      have hself : p ∈ aboutPlaces py file root ⟨p.down i c, 0, (definedBy py file c)[0]⟩ :=
        (mem_aboutPlaces hheight).2 ⟨hp, hpath, rfl, isSome_iff_exists.2 ⟨name, hname⟩⟩
      have hinner : p.down i c ∈
          aboutPlaces py file root ⟨p.down i c, 0, (definedBy py file c)[0]⟩ :=
        (mem_aboutPlaces hheight).2 ⟨.down hp hc, aboutPath_of_definedBy hne, rfl,
          isSome_iff_exists.2 ⟨name, hraw⟩⟩
      rw [hq] at hself hinner
      have hpaths := congrArg TreePlace.path
        ((mem_singleton.1 hself).trans (mem_singleton.1 hinner).symm)
      exact absurd (congrArg List.length hpaths) (Nat.ne_of_lt (Nat.lt_succ_self _))
  · rintro ⟨hnamed, hunwrapped⟩ d hd
    rw [length_sectionsFor, aboutPlaces_eq hheight hnamed hunwrapped hd]
    rfl

/-! ### Symbols -/

/-- What a symbol keeps of a full name: the nearest class or `impl` block, and the name. -/
def shortName (py : ParserPy) (file : SourceFile) (p : TreePlace Node) : Option String :=
  (rawName py file p.node).map fun name =>
    ".".intercalate ((nearestContainer py file p.above).toList ++ [name])

/-- Definitions with different full names differ in what their symbols keep. -/
def Apart (py : ParserPy) (file : SourceFile) (root : Node) : Prop :=
  ∀ d d', IsDefinition py file root d → IsDefinition py file root d' →
    d.fullName py file ≠ d'.fullName py file →
      shortName py file d.place ≠ shortName py file d'.place

theorem rawName_ne_empty {node : Node} (h : rawName py file node = some name) : name ≠ "" := by
  rw [rawName] at h
  split_ifs at h
  exact of_decide_eq_true (filter_eq_some_iff.1 h).2

theorem nearestContainer_ne_empty {above : List Node}
    (h : nearestContainer py file above = some name) : name ≠ "" := by
  obtain ⟨node, -, h⟩ := List.exists_of_findSome?_eq_some h
  split_ifs at h
  exact rawName_ne_empty h

theorem symbol_placeSection {sec : Section} (h : placeSection py file p = some sec) :
    ∃ short, shortName py file p = some short ∧
      sec.symbol = some (file.moduleName ++ "." ++ short) := by
  rw [placeSection] at h
  obtain ⟨name, hname, rfl⟩ := map_eq_some_iff.1 h
  refine ⟨_, by rw [shortName, hname, map_some], ?_⟩
  rw [nodeSection, symbolParts]
  cases hparent : nearestContainer py file p.above with
  | none => rfl
  | some parent =>
    rw [filter_some, if_pos (decide_eq_true (nearestContainer_ne_empty hparent))]
    change some (file.moduleName ++ "." ++ parent ++ "." ++ name) =
      some (file.moduleName ++ "." ++ (parent ++ "." ++ name))
    simp only [String.append_assoc]

/-- `class C:`, `def m()` in it, and another `def m()` beside it. -/
def methodFile : SourceFile := ⟨.python, "x", asciiBytes "class C:\n def m(): 0\ndef m(): 0"⟩

def methodTree : Node :=
  ⟨"module", 0, 31, 0, 2,
    [⟨"class_definition", 0, 20, 0, 1, [⟨"identifier", 6, 7, 0, 0, []⟩,
        ⟨"block", 10, 20, 1, 1, [⟨"function_definition", 10, 20, 1, 1,
          [⟨"identifier", 14, 15, 1, 1, []⟩]⟩]⟩]⟩,
      ⟨"function_definition", 21, 31, 2, 2, [⟨"identifier", 25, 26, 2, 2, []⟩]⟩]⟩

/-- `@d` above `def f()`. -/
def decoratedFile : SourceFile := ⟨.python, "x", asciiBytes "@d\ndef f(): 0"⟩

def decoratedTree : Node :=
  ⟨"module", 0, 13, 0, 1,
    [⟨"decorated_definition", 0, 13, 0, 1, [⟨"decorator", 0, 2, 0, 0, []⟩,
      ⟨"function_definition", 3, 13, 1, 1, [⟨"identifier", 7, 8, 1, 1, []⟩]⟩]⟩]⟩

/-- The decorated function. -/
def decoratedFunction : Definition :=
  ⟨((TreePlace.root decoratedTree).down 0 decoratedTree.namedChildren[0]).down 1
    ⟨"function_definition", 3, 13, 1, 1, [⟨"identifier", 7, 8, 1, 1, []⟩]⟩, 0, ["f"]⟩

end TreeSitter

end Omniscience.Parsers
