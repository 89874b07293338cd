import Omniscience.Lib.Regex
import Omniscience.Operator.Mappers
import Omniscience.Parsers.Sections

/-!
# Terraform configuration

`TerraformParser` (`omniscience_parsers/infra/terraform.py`) finds the blocks of an HCL file with
patterns and counts braces to find their ends; a JSON file is read by its structure.  Each block
becomes a section with its symbol, its dependencies and the references in its body.
-/

namespace Omniscience.Parsers

open GraphRag (isSpace)
open List
open Regex (Place lit chr sat edge group plus opt alts seqs)

/-- The section list of a document that could not be parsed, with the error. -/
def ParsedDocument.failed (contentType language error : String) : ParsedDocument where
  title := none
  sections := []
  metadata := [("parse_error", .str error)]
  contentType := contentType
  language := some language

/-- `text.startswith(start)`. -/
def startsWith (text start : String) : Bool := start.toList.isPrefixOf text.toList

/-- `text.endswith(tail)`. -/
def endsWith (text tail : String) : Bool := tail.toList.isSuffixOf text.toList

/-- `text.count("\n")`. -/
def countNewlines (text : List Char) : ℕ := text.count '\n'

/-! ### Patterns -/

/-- `\s`. -/
def space : Regex Char := sat isSpace

/-- `^` of a multi-line pattern. -/
def lineStart : Regex Char := edge fun before _ => before.all (· = '\n')

/-- `$` of a multi-line pattern. -/
def lineEnd : Regex Char := edge fun _ after => after.all (· = '\n')

/-- `\b`. -/
def wordEdge (py : ParserPy) : Regex Char :=
  edge fun before after => before.any py.isWordChar != after.any py.isWordChar

/-- `"[^"]+"`, with a name. -/
def label (name : String) : Regex Char :=
  seqs [plus space, chr '"', group name (plus (sat (· ≠ '"'))), chr '"']

namespace Terraform

def tfExtensions : List String := [".tf", ".tf.json"]

def tfContentTypes : List String :=
  ["application/x-terraform", "text/x-terraform", "application/hcl"]

/-- The block types of the header pattern. -/
def blockTypes : List String :=
  ["resource", "data", "module", "variable", "output", "locals", "terraform", "provider"]

/-- `_BLOCK_HEADER`. -/
def blockHeader : Regex Char :=
  seqs [lineStart, group "block_type" (alts (blockTypes.map fun t => lit t.toList)),
    opt (label "label1"), opt (label "label2"), Regex.star space, chr '\x7b']

/-- `_INTERPOLATION_REF`. -/
def interpolationRef : Regex Char :=
  seqs [chr '$', chr '\x7b', group "expr" (plus (sat (· ≠ '\x7d'))), chr '\x7d']

/-- `_DEPENDS_ON`. -/
def dependsOn : Regex Char :=
  seqs [lit "depends_on".toList, Regex.star space, chr '=', Regex.star space, chr '[',
    group "items" (Regex.star (sat (· ≠ ']'))), chr ']']

/-- `[a-z]`. -/
def isLower (c : Char) : Bool := 'a' ≤ c && c ≤ 'z'

/-- `[a-z0-9_]`. -/
def isNameChar (c : Char) : Bool := isLower c || ('0' ≤ c && c ≤ '9') || c = '_'

/-- `[a-z][a-z0-9_]+`. -/
def name : Regex Char := seqs [sat isLower, plus (sat isNameChar)]

/-- `[a-z][a-z0-9_-]+`. -/
def dashedName : Regex Char := seqs [sat isLower, plus (sat fun c => isNameChar c || c = '-')]

/-- `_PLAIN_REF`. -/
def plainRef (py : ParserPy) : Regex Char :=
  seqs [wordEdge py,
    opt (group "kind" (seqs [alts [lit "resource".toList, lit "data".toList, lit "module".toList],
      chr '.'])),
    group "rtype" name, chr '.', group "rname" dashedName,
    Regex.star (seqs [chr '.', name]), wordEdge py]

/-- `"[^"\\]*(?:\\.[^"\\]*)*"`, where the dot is not a line break. -/
def quoted : Regex Char :=
  let plain := Regex.star (sat fun c => c ≠ '"' && c ≠ '\\')
  seqs [chr '"', plain, Regex.star (seqs [chr '\\', sat (· ≠ '\n'), plain]), chr '"']

/-! ### Bodies of blocks -/

/-- The loop of `_extract_block_content`: how far the closing brace is. -/
def scanBlock : ℤ → Bool → Bool → List Char → Option ℕ
  | _, _, _, [] => none
  | depth, inString, escape, ch :: l =>
    if escape then (scanBlock depth inString false l).map (· + 1)
    else if ch = '\\' ∧ inString then (scanBlock depth inString true l).map (· + 1)
    else if ch = '"' then (scanBlock depth (!inString) false l).map (· + 1)
    else if inString then (scanBlock depth inString false l).map (· + 1)
    else if ch = '\x7b' then (scanBlock (depth + 1) inString false l).map (· + 1)
    else if ch = '\x7d' then
      if depth - 1 = 0 then some 0 else (scanBlock (depth - 1) inString false l).map (· + 1)
    else (scanBlock depth inString false l).map (· + 1)

/-- `_extract_block_content`: the content and the index of its end. -/
def extractBlockContent (src : List Char) (startBrace : ℕ) : List Char × ℕ :=
  match scanBlock 0 false false (src.drop startBrace) with
  | some n => ((src.take (startBrace + n)).drop (startBrace + 1), startBrace + n)
  | none => (src.drop (startBrace + 1), src.length - 1)

/-- `item.strip('"')`. -/
def stripQuotes (item : List Char) : List Char :=
  (item.dropWhile (· = '"')).rdropWhile (· = '"')

/-- `_extract_depends_on`: pieces between commas and white space; empty pieces are left out. -/
def extractDependsOn (blockBody : List Char) : List String :=
  match Regex.search dependsOn blockBody with
  | none => []
  | some (_, q) =>
    let items := (q.group? "items").getD []
    (((Words.words (fun c => c = ',' || isSpace c) items).map stripQuotes).filter
      (· ≠ [])).map String.ofList

/-- `f"{rtype}.{rname}"`. -/
def candidate (q : Place Char) : String :=
  String.ofList ((q.group? "rtype").getD [] ++ '.' :: (q.group? "rname").getD [])

/-- The first parts of references that name no block. -/
def falsePositives : List String :=
  ["var", "local", "locals", "path", "self", "each", "count", "terraform"]

/-- The references in interpolations. -/
def interpolatedRefs (py : ParserPy) (blockBody : List Char) : List String :=
  (Regex.findAll interpolationRef blockBody).flatMap fun m =>
    (Regex.findAll (plainRef py) ((m.2.group? "expr").getD [])).map fun r => candidate r.2

/-- `re.sub(quoted, " STRING ", block_body)`. -/
def withoutStrings (blockBody : List Char) : List Char :=
  List.intercalate " STRING ".toList (Regex.split quoted blockBody)

/-- The references outside of strings. -/
def bareRefs (py : ParserPy) (blockBody : List Char) : List String :=
  ((Regex.findAll (plainRef py) (withoutStrings blockBody)).filter fun r =>
    String.ofList ((r.2.group? "rtype").getD []) ∉ falsePositives).map fun r => candidate r.2

/-- `_extract_implicit_refs`. -/
def extractImplicitRefs (py : ParserPy) (blockBody : List Char) : List String :=
  Operator.sortStrings ((interpolatedRefs py blockBody ++ bareRefs py blockBody).dedup)

/-- `bool(label)` of an optional label. -/
def given (label : Option String) : Option String := label.filter (· ≠ "")

/-- `_symbol_for_block`. -/
def symbolForBlock (blockType : String) (label1 label2 : Option String) : String :=
  match given label1, given label2 with
  | some l1, some l2 =>
    if blockType = "resource" ∨ blockType = "data" then blockType ++ "." ++ l1 ++ "." ++ l2
    else if blockType ∈ ["module", "variable", "output", "provider"] then blockType ++ "." ++ l1
    else blockType
  | some l1, none =>
    if blockType ∈ ["module", "variable", "output", "provider"] then blockType ++ "." ++ l1
    else blockType
  | none, _ => blockType

/-- `_heading_path_for_block`. -/
def headingPathForBlock (blockType : String) (label1 label2 : Option String) : List String :=
  blockType :: ((given label1).toList ++ (given label2).toList)

/-- The names of a block in its metadata. -/
def labelMetadata (blockType : String) (label1 label2 : Option String) : Metadata :=
  match given label1 with
  | none => []
  | some l1 =>
    if blockType = "resource" ∨ blockType = "data" then
      ("resource_type", .str l1) ::
        ((given label2).map fun l2 => ("resource_name", Json.str l2)).toList
    else if blockType = "module" then [("module_name", .str l1)]
    else if blockType = "variable" then [("variable_name", .str l1)]
    else []

/-! ### HCL files -/

/-- The text of a group. -/
def groupText (q : Place Char) (name : String) : Option String :=
  (q.group? name).map String.ofList

/-- The body of the loop of `_parse_tf_hcl`. -/
def hclSection (py : ParserPy) (src : List Char) (m : Place Char × Place Char) : Section :=
  let blockType := (groupText m.2 "block_type").getD ""
  let label1 := groupText m.2 "label1"
  let label2 := groupText m.2 "label2"
  let bracePos := m.1.offset + (src.drop m.1.offset).idxOf '\x7b'
  let content := extractBlockContent src bracePos
  { headingPath := headingPathForBlock blockType label1 label2
    text := String.ofList ((src.take (content.2 + 1)).drop m.1.offset)
    lineStart := countNewlines (src.take m.1.offset) + 1
    lineEnd := countNewlines (src.take content.2) + 1
    symbol := some (symbolForBlock blockType label1 label2)
    metadata := [("block_type", .str blockType),
      ("depends_on", .arr ((extractDependsOn content.1).map .str)),
      ("refs", .arr ((extractImplicitRefs py content.1).map .str))] ++
        labelMetadata blockType label1 label2 }

/-- `_parse_tf_hcl`. -/
def parseTfHcl (py : ParserPy) (content : Bytes) : ParsedDocument :=
  let src := (py.decodeReplace content).toList
  { title := none
    sections := (Regex.findAll blockHeader src).map (hclSection py src)
    metadata := [("source_lines", .int (splitlines src).length)]
    contentType := "application/x-terraform"
    language := some "terraform" }

/-! ### JSON files -/

/-- A block of a JSON file: its symbol, the name and the value that are its text, and the rest of
its metadata. -/
structure JsonBlock where
  headingPath : List String
  symbol : String
  name : String
  body : Json
  metadata : Metadata

/-- `body.get("depends_on", []) if isinstance(body, dict) else []`. -/
def jsonDependsOn : Json → Json
  | .obj members => Mapping.getD members "depends_on" (.arr [])
  | _ => .arr []

/-- A resource or data block. -/
def resourceBlock (blockType rtype rname : String) (body : Json) : JsonBlock where
  headingPath := [blockType, rtype, rname]
  symbol := blockType ++ "." ++ rtype ++ "." ++ rname
  name := rname
  body := body
  metadata := [("block_type", .str blockType), ("resource_type", .str rtype),
    ("resource_name", .str rname), ("depends_on", jsonDependsOn body), ("refs", .arr [])]

/-- A module or variable block. -/
def namedBlock (blockType name : String) (body : Json) : JsonBlock where
  headingPath := [blockType, name]
  symbol := blockType ++ "." ++ name
  name := name
  body := body
  metadata := [("block_type", .str blockType), ("depends_on", .arr []), ("refs", .arr [])]

/-- The blocks of one member of a JSON file. -/
def jsonBlocks : String × Json → List JsonBlock
  | (blockType, .obj members) =>
    if blockType = "resource" ∨ blockType = "data" then
      members.flatMap fun (rtype, instances) =>
        match instances with
        | .obj instances => instances.map fun (rname, body) =>
          resourceBlock blockType rtype rname body
        | _ => []
    else if blockType = "module" ∨ blockType = "variable" then
      members.map fun (name, body) => namedBlock blockType name body
    else []
  | _ => []

/-- The sections of the blocks, which are laid out one below the other from a line on. -/
def jsonSections (py : ParserPy) : ℤ → List JsonBlock → List Section
  | _, [] => []
  | lineCursor, block :: blocks =>
    let text := py.dumpsIndent (.obj [(block.name, block.body)])
    let lineCount : ℤ := countNewlines text.toList + 1
    { headingPath := block.headingPath
      text := text
      lineStart := lineCursor
      lineEnd := lineCursor + lineCount - 1
      symbol := some block.symbol
      metadata := block.metadata } :: jsonSections py (lineCursor + lineCount) blocks

/-- `_parse_tf_json`; a value that is no object has no `items`. -/
def parseTfJson (py : ParserPy) (content : Bytes) : Except Exc ParsedDocument :=
  match py.loadsText (py.decodeReplace content) with
  | .error text => .ok (.failed "application/x-terraform" "terraform" text)
  | .ok (.obj members) => .ok
    { title := none
      sections := jsonSections py 1 (members.flatMap jsonBlocks)
      metadata := []
      contentType := "application/x-terraform"
      language := some "terraform" }
  | .ok v =>
    .error ⟨.attributeError, "'" ++ v.typeName ++ "' object has no attribute 'items'"⟩

/-- `content.strip().startswith(b"{")`. -/
def startsWithBrace (content : Bytes) : Bool :=
  (content.dropWhile fun b => (9 ≤ b && b ≤ 13) || b == 32).head? = some 0x7b

/-- `TerraformParser.can_handle`. -/
def canHandle (lower : String → String) (contentType fileExtension : String) : Bool :=
  let ext := lower fileExtension
  contentType ∈ tfContentTypes || ext ∈ tfExtensions || ext = ".tf"

/-- `TerraformParser.parse`. -/
def parse (py : ParserPy) (content : Bytes) (filePath : String) : ParsedDocument :=
  let isJson := endsWith filePath ".tf.json" ||
    (!endsWith filePath ".tf" && startsWithBrace content)
  if isJson then
    match parseTfJson py content with
    | .ok doc => doc
    | .error exc => .failed "application/x-terraform" "terraform" exc.text
  else parseTfHcl py content

/-! ### The types of blocks -/

/-- The type of a block. -/
def HasBlockType (sec : Section) (blockType : String) : Prop :=
  sec.metadata.lookup "block_type" = some (.str blockType)

theorem exists_symbolForBlock (blockType : String) (label1 label2 : Option String) :
    ∃ rest, symbolForBlock blockType label1 label2 = blockType ++ rest := by
  unfold symbolForBlock
  split
  · rename_i l1 l2 _ _
    split_ifs
    · exact ⟨"." ++ l1 ++ "." ++ l2, by simp only [String.append_assoc]⟩
    · exact ⟨"." ++ _, String.append_assoc⟩
    · exact ⟨"", String.append_empty.symm⟩
  · split_ifs
    · exact ⟨"." ++ _, String.append_assoc⟩
    · exact ⟨"", String.append_empty.symm⟩
  · exact ⟨"", String.append_empty.symm⟩

theorem blockType_of_mem_jsonBlocks {member : String × Json} {block : JsonBlock}
    (h : block ∈ jsonBlocks member) :
    ∃ blockType rest, block.metadata.lookup "block_type" = some (.str blockType) ∧
      block.symbol = blockType ++ rest := by
  unfold jsonBlocks at h
  split at h
  · split_ifs at h
    · obtain ⟨⟨rtype, instances⟩, -, h⟩ := mem_flatMap.1 h
      dsimp only at h
      split at h
      · obtain ⟨⟨rname, body⟩, -, rfl⟩ := mem_map.1 h
        exact ⟨_, "." ++ rtype ++ "." ++ rname, rfl, by
          simp only [resourceBlock, String.append_assoc]⟩
      · exact absurd h not_mem_nil
    · obtain ⟨⟨name, body⟩, -, rfl⟩ := mem_map.1 h
      exact ⟨_, "." ++ name, rfl, String.append_assoc⟩
    · exact absurd h not_mem_nil
  · exact absurd h not_mem_nil

theorem exists_of_mem_jsonSections {py : ParserPy} {lineCursor : ℤ} {blocks : List JsonBlock}
    {sec : Section} (h : sec ∈ jsonSections py lineCursor blocks) :
    ∃ block ∈ blocks, sec.metadata = block.metadata ∧ sec.symbol = some block.symbol := by
  induction blocks generalizing lineCursor with
  | nil => exact absurd h not_mem_nil
  | cons block blocks ih =>
    rw [jsonSections] at h
    rcases mem_cons.1 h with rfl | h
    · exact ⟨block, mem_cons_self, rfl, rfl⟩
    · obtain ⟨block', hmem, hblock'⟩ := ih h
      exact ⟨block', mem_cons_of_mem _ hmem, hblock'⟩

/-- **Every section of a Terraform file has a block type, and its symbol begins with it.** -/
theorem blockType_of_mem_parse {py : ParserPy} {content : Bytes} {filePath : String}
    {sec : Section} (h : sec ∈ (parse py content filePath).sections) :
    ∃ blockType rest, HasBlockType sec blockType ∧ sec.symbol = some (blockType ++ rest) := by
  unfold parse at h
  dsimp only at h
  split_ifs at h
  · cases hjson : parseTfJson py content with
    | error exc =>
      rw [hjson] at h
      exact absurd h not_mem_nil
    | ok doc =>
      rw [hjson] at h
      unfold parseTfJson at hjson
      split at hjson
      · cases hjson
        exact absurd h not_mem_nil
      · cases hjson
        obtain ⟨block, hblock, hmeta, hsymbol⟩ := exists_of_mem_jsonSections h
        obtain ⟨member, -, hmember⟩ := mem_flatMap.1 hblock
        obtain ⟨blockType, rest, htype, hrest⟩ := blockType_of_mem_jsonBlocks hmember
        exact ⟨blockType, rest, by rw [HasBlockType, hmeta, htype], by rw [hsymbol, hrest]⟩
      · cases hjson
  · obtain ⟨m, -, rfl⟩ := mem_map.1 h
    obtain ⟨rest, hrest⟩ := exists_symbolForBlock ((groupText m.2 "block_type").getD "")
      (groupText m.2 "label1") (groupText m.2 "label2")
    exact ⟨_, rest, rfl, congrArg some hrest⟩

theorem contentType_parse (py : ParserPy) (content : Bytes) (filePath : String) :
    (parse py content filePath).contentType = "application/x-terraform" := by
  unfold parse
  dsimp only
  split_ifs
  · unfold parseTfJson
    cases py.loadsText (py.decodeReplace content) with
    | error text => rfl
    | ok v => cases v <;> rfl
  · rfl

end Terraform

end Omniscience.Parsers
