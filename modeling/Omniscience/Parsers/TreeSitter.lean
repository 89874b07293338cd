import Omniscience.Parsers.Kubernetes

/-!
# Code parser

`TreeSitterParser` (`omniscience_parsers/code/treesitter.py`) walks the syntax tree of a source file
and makes a section of each node of certain types that has a name.  The symbol of a section consists
of the module, the nearest enclosing class or `impl` block, and the name.
-/

namespace Omniscience.Parsers

namespace TreeSitter

/-- A node of a syntax tree, with its position and its named children. -/
structure Node where
  type : String
  startByte : ℕ
  endByte : ℕ
  startRow : ℕ
  endRow : ℕ
  namedChildren : List Node

/-- The supported languages. -/
inductive Language where
  | python
  | typescript
  | javascript
  | go
  | rust
  | java
  deriving DecidableEq

def Language.name : Language → String
  | .python => "python"
  | .typescript => "typescript"
  | .javascript => "javascript"
  | .go => "go"
  | .rust => "rust"
  | .java => "java"

/-- `_EXT_TO_LANG`. -/
def extToLang : List (String × Language) :=
  [(".py", .python), (".ts", .typescript), (".tsx", .typescript), (".js", .javascript),
    (".jsx", .javascript), (".mjs", .javascript), (".cjs", .javascript), (".go", .go),
    (".rs", .rust), (".java", .java)]

/-- `_CODE_CONTENT_TYPES`. -/
def codeContentTypes : List String :=
  ["text/x-python", "application/typescript", "text/typescript", "application/javascript",
    "text/javascript", "text/x-go", "text/x-rustsrc", "text/x-java-source"]

/-- `_SYMBOL_NODE_TYPES`. -/
def symbolNodeTypes : Language → List String
  | .python => ["function_definition", "class_definition", "decorated_definition"]
  | .typescript | .javascript => ["function_declaration", "class_declaration", "export_statement",
      "lexical_declaration", "method_definition"]
  | .go => ["function_declaration", "method_declaration", "type_declaration"]
  | .rust => ["function_item", "impl_item", "struct_item", "enum_item"]
  | .java => ["method_declaration", "class_declaration", "interface_declaration"]

/-! ### Names -/

/-- The first child whose type is among the given ones. -/
def firstNamedChild (node : Node) (types : List String) : Option Node :=
  node.namedChildren.find? fun child => child.type ∈ types

/-- `_node_text`. -/
def nodeText (py : ParserPy) (src : Bytes) (node : Node) : String :=
  py.decodeReplace ((src.take node.endByte).drop node.startByte)

/-- The text of the first child of the given types. -/
def childText (py : ParserPy) (src : Bytes) (node : Node) (types : List String) : Option String :=
  (firstNamedChild node types).map (nodeText py src)

/-- `_symbol_name_python`. -/
def symbolNamePython (py : ParserPy) (src : Bytes) (node : Node) : Option String :=
  if node.type = "decorated_definition" then
    match firstNamedChild node ["function_definition", "class_definition"] with
    | none => none
    | some inner => childText py src inner ["identifier"]
  else childText py src node ["identifier"]

/-- The rest of `_symbol_name_ts_js`, for the node inside an export. -/
def symbolNameInner (py : ParserPy) (src : Bytes) (node : Node) : Option String :=
  if node.type = "lexical_declaration" then
    match firstNamedChild node ["variable_declarator"] with
    | none => none
    | some declarator =>
      match firstNamedChild declarator ["arrow_function"] with
      | none => none
      | some _ => childText py src declarator ["identifier"]
  else if node.type = "method_definition" then childText py src node ["property_identifier"]
  else childText py src node ["identifier", "type_identifier"]

/-- `_symbol_name_ts_js`. -/
def symbolNameTsJs (py : ParserPy) (src : Bytes) (node : Node) : Option String :=
  if node.type = "export_statement" then
    match firstNamedChild node ["function_declaration", "class_declaration",
        "lexical_declaration"] with
    | none => none
    | some inner => symbolNameInner py src inner
  else symbolNameInner py src node

/-- `_symbol_name_go`. -/
def symbolNameGo (py : ParserPy) (src : Bytes) (node : Node) : Option String :=
  if node.type = "type_declaration" then
    match firstNamedChild node ["type_spec"] with
    | none => none
    | some spec => childText py src spec ["type_identifier"]
  else if node.type = "method_declaration" then
    let methodName := childText py src node ["field_identifier"]
    match firstNamedChild node ["parameter_list"], methodName with
    | some recv, some name =>
      if name = "" then methodName
      else
        match firstNamedChild recv ["parameter_declaration"] with
        | none => methodName
        | some recvType =>
          match firstNamedChild recvType ["type_identifier"] with
          | none => methodName
          | some typeId => some (nodeText py src typeId ++ "." ++ name)
    | _, _ => methodName
  else childText py src node ["identifier"]

/-- `_symbol_name_rust`. -/
def symbolNameRust (py : ParserPy) (src : Bytes) (node : Node) : Option String :=
  if node.type = "impl_item" then childText py src node ["type_identifier"]
  else childText py src node ["identifier", "type_identifier"]

/-- `_symbol_name_java`. -/
def symbolNameJava (py : ParserPy) (src : Bytes) (node : Node) : Option String :=
  childText py src node ["identifier"]

/-- `_NAME_EXTRACTORS`. -/
def nameExtractor : Language → ParserPy → Bytes → Node → Option String
  | .python => symbolNamePython
  | .typescript | .javascript => symbolNameTsJs
  | .go => symbolNameGo
  | .rust => symbolNameRust
  | .java => symbolNameJava

/-! ### The walk -/

/-- A source file. -/
structure SourceFile where
  language : Language
  moduleName : String
  content : Bytes

/-- The name of a node of a target type, if it is not empty. -/
def rawName (py : ParserPy) (file : SourceFile) (node : Node) : Option String :=
  if node.type ∈ symbolNodeTypes file.language then
    (nameExtractor file.language py file.content node).filter (· ≠ "")
  else none

/-- `"class" in node.type or "impl" in node.type`. -/
def isContainer (type : String) : Bool :=
  "class".toList <:+: type.toList || "impl".toList <:+: type.toList

/-- `symbol_parts`, which are the heading path as well. -/
def symbolParts (moduleName : String) (parentName : Option String) (name : String) : List String :=
  match parentName.filter (· ≠ "") with
  | some parent => [moduleName, parent, name]
  | none => [moduleName, name]

/-- The section of a node with a name. -/
def nodeSection (py : ParserPy) (file : SourceFile) (parentName : Option String) (name : String)
    (node : Node) : Section where
  headingPath := symbolParts file.moduleName parentName name
  text := nodeText py file.content node
  lineStart := node.startRow + 1
  lineEnd := node.endRow + 1
  symbol := some (".".intercalate (symbolParts file.moduleName parentName name))
  metadata := []

/-- `depth > 8` ends the walk. -/
def maxDepth : ℕ := 8

/-- `_collect_symbols`, with the levels that are left. -/
def collectSymbols (py : ParserPy) (file : SourceFile) : ℕ → Option String → Node → List Section
  | 0, _, _ => []
  | levels + 1, parentName, node =>
    match rawName py file node with
    | some name =>
      let nextParent := if isContainer node.type then some name else parentName
      nodeSection py file parentName name node ::
        node.namedChildren.flatMap (collectSymbols py file levels nextParent)
    | none => node.namedChildren.flatMap (collectSymbols py file levels parentName)

/-! ### Files -/

/-- What the library makes of a text: the root of the tree, and whether there are errors in it. -/
structure Tree where
  rootNode : Node
  hasError : Bool

/-- `_fallback`: one section with the whole text. -/
def fallback (py : ParserPy) (content : Bytes) (language : Option Language) (extraMeta : Metadata) :
    ParsedDocument :=
  let doc := plainTextParse (py.decodeReplace content)
  if language.isSome ∨ extraMeta ≠ [] then
    { doc with language := language.map Language.name, metadata := extraMeta }
  else doc

/-- `_parse_language`; loading a language or parsing a text may raise. -/
def parseLanguage (py : ParserPy) (treeSitter : Language → Bytes → Except String Tree)
    (file : SourceFile) : ParsedDocument :=
  match treeSitter file.language file.content with
  | .error text => fallback py file.content (some file.language) [("parse_error", .str text)]
  | .ok tree =>
    let docMeta : Metadata := if tree.hasError then
      [("parse_warning", .str "Tree-sitter reported syntax errors; result may be partial")] else []
    let sections := collectSymbols py file (maxDepth + 1) none tree.rootNode
    if sections = [] then fallback py file.content (some file.language) docMeta
    else
      { title := none
        sections := sections
        metadata := docMeta
        contentType := "text/x-source"
        language := some file.language.name }

/-- `TreeSitterParser.parse`, of a file with a stem and a lower-case extension. -/
def parse (py : ParserPy) (treeSitter : Language → Bytes → Except String Tree) (content : Bytes)
    (stem ext : String) : ParsedDocument :=
  match extToLang.lookup ext with
  | none => fallback py content none []
  | some language =>
    parseLanguage py treeSitter ⟨language, if stem = "" then "module" else stem, content⟩

/-- `TreeSitterParser.can_handle`. -/
def canHandle (lower : String → String) (contentType fileExtension : String) : Bool :=
  contentType ∈ codeContentTypes || (extToLang.lookup (lower fileExtension)).isSome

end TreeSitter

end Omniscience.Parsers
