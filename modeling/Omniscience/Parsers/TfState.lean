import Omniscience.Parsers.Terraform

/-!
# Terraform state

`TfStateParser` (`omniscience_parsers/infra/tfstate.py`) reads a state file of format version 4;
each instance of a resource becomes a section under its address.
-/

namespace Omniscience.Parsers

namespace TfState

open List

def supportedVersion : ℤ := 4

def tfstateContentType : String := "application/x-tfstate"

def arnKeys : List String :=
  ["arn", "bucket_arn", "role_arn", "function_arn", "topic_arn", "queue_arn"]

def regionKeys : List String := ["region", "availability_zone"]

def accountKeys : List String := ["account_id", "owner_id"]

/-- `_pick`: the first text that is not empty. -/
def pick (attrs : Metadata) (keys : List String) : String :=
  (keys.findSome? fun k =>
    match Mapping.get attrs k with
    | .str val => if val ≠ "" then some val else none
    | _ => none).getD ""

/-- `_normalise_module`. -/
def normaliseModule (moduleAddress : String) : String :=
  let addr := GraphRag.strip moduleAddress
  if addr = "" ∨ addr = "root" then "" else addr

/-- The index of an instance in its address. -/
def indexSuffix (py : ParserPy) : Json → String
  | .null => ""
  | .str index => if index = "" then "" else "[\"" ++ index ++ "\"]"
  | index => "[" ++ py.str index ++ "]"

/-- `_resource_address`. -/
def resourceAddress (py : ParserPy) (moduleAddress : String) (resourceMode : Json)
    (resourceType resourceName instanceIndex : Json) : String :=
  let typeAndName :=
    (match resourceMode with
      | .str "data" => "data." ++ py.str resourceType ++ "." ++ py.str resourceName
      | _ => py.str resourceType ++ "." ++ py.str resourceName) ++ indexSuffix py instanceIndex
  if moduleAddress ≠ "" then moduleAddress ++ "." ++ typeAndName else typeAndName

/-- What an instance is listed under. -/
structure Resource where
  mode : Json
  type : Json
  name : Json
  moduleAddress : String
  provider : Json

/-- The attributes of an instance: `instance.get("attributes", {}) or {}`, which is read as a
mapping. -/
def attributes (inst : Metadata) : Except Exc Metadata :=
  match Mapping.get inst "attributes" with
  | .obj attrs => .ok attrs
  | v =>
    if v.truthy then
      .error ⟨.attributeError, "'" ++ v.typeName ++ "' object has no attribute 'get'"⟩
    else .ok []

/-- A text where `Section` demands one. -/
def asText (field : String) : Json → Except Exc String
  | .str s => .ok s
  | _ => .error ⟨.validationError, field ++ ": Input should be a valid string"⟩

/-- The section of an instance, from a line on.  Type and name of the resource are in the heading
path, so they must be texts. -/
def instanceSection (py : ParserPy) (resource : Resource) (inst : Metadata) (lineCursor : ℤ) :
    Except Exc Section := do
  let attrs ← attributes inst
  let text := py.dumpsIndent (.obj attrs)
  let lineCount : ℤ := countNewlines text.toList + 1
  let type ← asText "heading_path" resource.type
  let name ← asText "heading_path" resource.name
  .ok
    { headingPath := (if resource.moduleAddress ≠ "" then [resource.moduleAddress] else []) ++
        [type, name]
      text := text
      lineStart := lineCursor
      lineEnd := lineCursor + lineCount - 1
      symbol := some (resourceAddress py resource.moduleAddress resource.mode resource.type
        resource.name (Mapping.get inst "index_key"))
      metadata :=
        [("arn", .str (pick attrs arnKeys)),
          ("id", .str (match Mapping.get attrs "id" with
            | .null => ""
            | v => py.str v)),
          ("region", .str (pick attrs regionKeys)),
          ("account", .str (pick attrs accountKeys)),
          ("provider", resource.provider),
          ("mode", resource.mode),
          ("resource_type", resource.type),
          ("resource_name", resource.name)] }

/-- The inner loop of `_parse_v4`: what is no mapping is passed over. -/
def parseInstances (py : ParserPy) (resource : Resource) :
    List Json → List Section → ℤ → Except Exc (List Section × ℤ)
  | [], sections, lineCursor => .ok (sections, lineCursor)
  | .obj inst :: rest, sections, lineCursor => do
    let sec ← instanceSection py resource inst lineCursor
    parseInstances py resource rest (sections ++ [sec]) (sec.lineEnd + 1)
  | _ :: rest, sections, lineCursor => parseInstances py resource rest sections lineCursor

/-- `resource.get("module", "")`, on which `strip` is called. -/
def moduleOf (resource : Metadata) : Except Exc String :=
  match Mapping.getD resource "module" (.str "") with
  | .str s => .ok (normaliseModule s)
  | v => .error ⟨.attributeError, "'" ++ v.typeName ++ "' object has no attribute 'strip'"⟩

/-- The outer loop of `_parse_v4`: a resource without type or name is skipped. -/
def parseResources (py : ParserPy) :
    List Json → List Section → ℤ → Except Exc (List Section)
  | [], sections, _ => .ok sections
  | .obj resource :: rest, sections, lineCursor => do
    let moduleAddress ← moduleOf resource
    let named : Resource :=
      { mode := Mapping.getD resource "mode" (.str "managed")
        type := Mapping.getD resource "type" (.str "")
        name := Mapping.getD resource "name" (.str "")
        moduleAddress := moduleAddress
        provider := Mapping.getD resource "provider" (.str "") }
    if !named.type.truthy || !named.name.truthy then
      parseResources py rest sections lineCursor
    else
      let instances ← iterate (Mapping.getD resource "instances" (.arr []))
      let (sections, lineCursor) ← parseInstances py named instances sections lineCursor
      parseResources py rest sections lineCursor
  | _ :: rest, sections, lineCursor => parseResources py rest sections lineCursor

/-- `_parse_v4`. -/
def parseV4 (py : ParserPy) (data : Metadata) : Except Exc (List Section) := do
  parseResources py (← iterate (Mapping.getD data "resources" (.arr []))) [] 1

/-- `version == 4`; a boolean is an integer, and a float equals one. -/
def isSupported : Json → Bool
  | .int n => n = supportedVersion
  | .float text => text = "4.0"
  | _ => false

/-- `TfStateParser.can_handle`. -/
def canHandle (lower : String → String) (contentType fileExtension : String) : Bool :=
  lower fileExtension = ".tfstate" || contentType = tfstateContentType

/-- `TfStateParser.parse`. -/
def parse (py : ParserPy) (content : Bytes) : ParsedDocument :=
  match py.loadsText (py.decodeReplace content) with
  | .error text => .failed tfstateContentType "json" ("JSON decode error: " ++ text)
  | .ok (.obj data) =>
    let version := Mapping.get data "version"
    if !isSupported version then
      .failed tfstateContentType "json" ("Unsupported state format version: " ++
        py.repr version ++ " (only version 4 is supported)")
    else
      match parseV4 py data with
      | .error exc => .failed tfstateContentType "json" exc.text
      | .ok sections =>
        { title := none
          sections := sections
          metadata := [("terraform_version", Mapping.getD data "terraform_version" (.str "")),
            ("serial", Mapping.get data "serial"),
            ("lineage", Mapping.getD data "lineage" (.str ""))]
          contentType := tfstateContentType
          language := some "json" }
  | .ok _ => .failed tfstateContentType "json" "State file root is not a JSON object"

/-! ### Where the sections come from -/

/-- A section of a resource that has a type and a name. -/
def IsInstance (py : ParserPy) (sec : Section) : Prop :=
  ∃ resource inst lineCursor, resource.type.truthy = true ∧ resource.name.truthy = true ∧
    instanceSection py resource inst lineCursor = .ok sec

variable {py : ParserPy}

theorem isInstance_of_parseInstances {resource : Resource} (htype : resource.type.truthy = true)
    (hname : resource.name.truthy = true) {insts : List Json} {secs : List Section}
    {lineCursor : ℤ} {result : List Section × ℤ}
    (h : parseInstances py resource insts secs lineCursor = .ok result)
    (hsecs : ∀ sec ∈ secs, IsInstance py sec) : ∀ sec ∈ result.1, IsInstance py sec := by
  induction insts generalizing secs lineCursor with
  | nil =>
    cases h
    exact hsecs
  | cons inst insts ih =>
    unfold parseInstances at h
    split at h
    · cases ‹_ = []›
    · rename_i rest inst' _ _ heq
      cases heq
      obtain ⟨sec, hsec, h⟩ := bind_eq_ok_iff.1 h
      refine ih h fun sec' hsec' => ?_
      rcases mem_append.1 hsec' with hsec' | hsec'
      · exact hsecs sec' hsec'
      · rw [mem_singleton.1 hsec']
        exact ⟨resource, _, _, htype, hname, hsec⟩
    · rename_i heq
      cases heq
      exact ih h hsecs

theorem isInstance_of_parseResources {resources : List Json} {secs result : List Section}
    {lineCursor : ℤ} (h : parseResources py resources secs lineCursor = .ok result)
    (hsecs : ∀ sec ∈ secs, IsInstance py sec) : ∀ sec ∈ result, IsInstance py sec := by
  induction resources generalizing secs lineCursor with
  | nil =>
    cases h
    exact hsecs
  | cons resource resources ih =>
    unfold parseResources at h
    split at h
    · cases ‹_ = []›
    · rename_i heq
      cases heq
      obtain ⟨moduleAddress, -, h⟩ := bind_eq_ok_iff.1 h
      dsimp only at h
      split_ifs at h with hskip
      · exact ih h hsecs
      · simp only [Bool.or_eq_true, Bool.not_eq_true', not_or, Bool.not_eq_false] at hskip
        obtain ⟨insts, -, h⟩ := bind_eq_ok_iff.1 h
        obtain ⟨⟨secs', lineCursor'⟩, hinsts, h⟩ := bind_eq_ok_iff.1 h
        exact ih h (isInstance_of_parseInstances hskip.1 hskip.2 hinsts hsecs)
    · rename_i heq
      cases heq
      exact ih h hsecs

/-- **Every section of a state file is an instance of a resource with a type and a name.** -/
theorem isInstance_of_mem_parse {content : Bytes} {sec : Section}
    (h : sec ∈ (parse py content).sections) : IsInstance py sec := by
  unfold parse at h
  split at h
  · exact absurd h not_mem_nil
  · dsimp only at h
    split_ifs at h
    · exact absurd h not_mem_nil
    · split at h
      · exact absurd h not_mem_nil
      · rename_i sections hsections
        obtain ⟨resources, -, hresources⟩ := bind_eq_ok_iff.1 hsections
        exact isInstance_of_parseResources hresources (fun _ hmem => absurd hmem not_mem_nil) sec h
  · exact absurd h not_mem_nil

theorem contentType_parse (py : ParserPy) (content : Bytes) :
    (parse py content).contentType = tfstateContentType := by
  unfold parse
  split
  · rfl
  · dsimp only
    split_ifs
    · rfl
    · split
      · rfl
      · rfl
  · rfl

theorem symbol_of_isInstance {sec : Section} (h : IsInstance py sec) :
    ∃ symbol, sec.symbol = some symbol ∧ symbol ≠ "" := by
  obtain ⟨resource, inst, lineCursor, -, -, h⟩ := h
  obtain ⟨attrs, -, h⟩ := bind_eq_ok_iff.1 h
  obtain ⟨type, -, h⟩ := bind_eq_ok_iff.1 h
  obtain ⟨name, -, h⟩ := bind_eq_ok_iff.1 h
  cases h
  refine ⟨_, rfl, fun hempty => ?_⟩
  have hdot : '.' ∈ (resourceAddress py resource.moduleAddress resource.mode resource.type
      resource.name (Mapping.get inst "index_key")).toList := by
    unfold resourceAddress
    dsimp only
    split_ifs <;> split <;> simp [String.toList_append]
  rw [hempty] at hdot
  exact absurd hdot not_mem_nil

end TfState

end Omniscience.Parsers
