import Omniscience.Parsers.InfraGraph
import Omniscience.Parsers.Yaml

/-!
# Kubernetes manifests

`KubernetesParser` (`omniscience_parsers/infra/kubernetes.py`) cuts a YAML file at its separator
lines, loads each document on its own and turns each resource into a section with its symbol
`kind/namespace/name`, its labels and selectors, and the symbols that it refers to.
-/

namespace Omniscience.Parsers

open GraphRag (isSpace)
open Regex (chr lit seqs plus)

/-- `PlainTextParser.parse`. -/
def plainTextParse (text : String) : ParsedDocument where
  title := none
  sections := [
    { headingPath := []
      text := text
      lineStart := 1
      lineEnd := if (splitlines text.toList).length = 0 then 1 else (splitlines text.toList).length
      symbol := none
      metadata := [] }]
  metadata := []
  contentType := "text/plain"
  language := none

namespace Kubernetes

open Yaml

def k8sContentTypes : List String := ["application/x-kubernetes", "text/x-kubernetes"]

def yamlExtensions : List String := [".yaml", ".yml"]

/-- `_KIND_RE`. -/
def kindRe : Regex Char :=
  seqs [lineStart, .star space, lit "kind".toList, .star space, chr ':']

/-- `_symbol`. -/
def symbol (kind ns name : String) : String :=
  kind ++ "/" ++ (if ns = "" then "cluster" else ns) ++ "/" ++ name

/-! ### References -/

/-- The namespace as the references read it: `_safe_str(metadata.get("namespace", ""))`. -/
def refNamespace (py : YamlPy) (metaBlock : Members) : String :=
  py.safeStr (getD metaBlock "namespace" (.str ""))

/-- `resource.get("metadata", {})`, on which `get` is called. -/
def metadataOf (resource : Members) : Except Exc Members :=
  asMapping "get" (getD resource "metadata" (.map []))

/-- The reference of an owner; what is no mapping or lacks kind or name is passed over. -/
def ownerRef (py : YamlPy) (ns : String) : Yaml → List String
  | .map ref =>
    let kind := py.safeStr (getD ref "kind" (.str ""))
    let name := py.safeStr (getD ref "name" (.str ""))
    if kind ≠ "" ∧ name ≠ "" then [symbol kind ns name] else []
  | _ => []

/-- `_extract_owner_refs`. -/
def extractOwnerRefs (py : YamlPy) (resource : Members) : Except Exc (List String) := do
  let metaBlock ← metadataOf resource
  let ownerRefs ← Yaml.iterate (orElse (getD metaBlock "ownerReferences" (.seq [])) (.seq []))
  .ok (ownerRefs.flatMap (ownerRef py (refNamespace py metaBlock)))

/-- `if field in container` and the source has a name: the symbol of the source. -/
def sourceRef (py : YamlPy) (kind ns field nameField : String) (container : Members) :
    List String :=
  match lookup container field with
  | some (.map source) =>
    match lookup source nameField with
    | some name => if name.truthy then [symbol kind ns (py.safeStr name)] else []
    | none => []
  | _ => []

/-- The sources of a volume. -/
def volumeRefs (py : YamlPy) (ns : String) : Yaml → List String
  | .map vol => sourceRef py "ConfigMap" ns "configMap" "name" vol ++
      sourceRef py "Secret" ns "secret" "secretName" vol
  | _ => []

/-- The sources of an `envFrom` item. -/
def envFromRefs (py : YamlPy) (ns : String) : Yaml → List String
  | .map env => sourceRef py "ConfigMap" ns "configMapRef" "name" env ++
      sourceRef py "Secret" ns "secretRef" "name" env
  | _ => []

/-- The `envFrom` items of a container. -/
def containerRefs (py : YamlPy) (ns : String) : Yaml → Except Exc (List String)
  | .map container => do
    let items ← Yaml.iterate (orElse (getD container "envFrom" (.seq [])) (.seq []))
    .ok (items.flatMap (envFromRefs py ns))
  | _ => .ok []

/-- The containers under a key of a specification. -/
def containersRefs (py : YamlPy) (ns : String) (spec : Members) (containerKey : String) :
    Except Exc (List String) := do
  let containers ← Yaml.iterate (orElse (getD spec containerKey (.seq [])) (.seq []))
  let refs ← containers.mapM (containerRefs py ns)
  .ok refs.flatten

/-- `_scan_spec`. -/
def scanSpec (py : YamlPy) (ns : String) : Yaml → Except Exc (List String)
  | .map spec => do
    let volumes ← Yaml.iterate (orElse (getD spec "volumes" (.seq [])) (.seq []))
    let containers ← containersRefs py ns spec "containers"
    let initContainers ← containersRefs py ns spec "initContainers"
    .ok (volumes.flatMap (volumeRefs py ns) ++ containers ++ initContainers)
  | _ => .ok []

/-- `resource.get("spec", {}) or {}`, which is read as a mapping. -/
def specOf (resource : Members) : Except Exc Members :=
  asMapping "get" (orElse (getD resource "spec" (.map [])) (.map []))

/-- `_extract_volume_config_refs`: the specification itself and the one of its template. -/
def extractVolumeConfigRefs (py : YamlPy) (resource : Members) : Except Exc (List String) := do
  let metaBlock ← metadataOf resource
  let ns := refNamespace py metaBlock
  let spec := orElse (getD resource "spec" (.map [])) (.map [])
  let refs ← scanSpec py ns spec
  let specMap ← asMapping "get" spec
  match getD specMap "template" (.map []) with
  | .map template => do
    let templateRefs ← scanSpec py ns (getD template "spec" (.map []))
    .ok (refs ++ templateRefs)
  | _ => .ok refs

/-! ### Labels and selectors -/

/-- `{_safe_str(k): _safe_str(v) for k, v in members}`. -/
def textDict (py : YamlPy) (members : Members) : Metadata :=
  (Dict.ofList (members.map fun p => (py.safeStr p.1, py.safeStr p.2))).items.map fun p =>
    (p.1, .str p.2)

/-- `_extract_label_selector`. -/
def extractLabelSelector (py : YamlPy) : Yaml → Metadata
  | .map selector =>
    match lookup selector "matchLabels" with
    | some (.map matchLabels) => textDict py matchLabels
    | _ => textDict py (selector.filter fun p => !isText "matchExpressions" p.1)
  | _ => []

/-- `_extract_pod_template_selector`. -/
def extractPodTemplateSelector (py : YamlPy) (resource : Members) : Except Exc Metadata := do
  let spec ← specOf resource
  .ok (extractLabelSelector py (getD spec "selector" (.map [])))

/-- `_extract_service_selector`. -/
def extractServiceSelector (py : YamlPy) (resource : Members) : Except Exc Metadata := do
  let spec ← specOf resource
  match getD spec "selector" (.map []) with
  | .map rawSelector => .ok (textDict py rawSelector)
  | _ => .ok []

/-- `_extract_service_selector(resource) if kind == "Service" else {}`. -/
def serviceSelectorOf (py : YamlPy) (kind : String) (resource : Members) : Except Exc Metadata :=
  if kind = "Service" then extractServiceSelector py resource else .ok []

/-! ### Sections -/

/-- `_safe_str(resource.get("kind", ""))`. -/
def kindOf (py : YamlPy) (resource : Members) : String :=
  py.safeStr (getD resource "kind" (.str ""))

/-- `resource.get("metadata", {}) or {}`. -/
def metaBlockOf (resource : Members) : Yaml :=
  orElse (getD resource "metadata" (.map [])) (.map [])

/-- The rest of `_resource_to_section`, for a resource with a kind and a name. -/
def namedSection (py : YamlPy) (resource metaBlock : Members) (labels : Metadata)
    (rawText : String) (lineStart lineEnd : ℤ) : Except Exc Section := do
  let kind := kindOf py resource
  let name := py.safeStr (getD metaBlock "name" (.str ""))
  let ns := py.safeStr (getD metaBlock "namespace" (.str "default"))
  let ownerRefs ← extractOwnerRefs py resource
  let selectors ← extractPodTemplateSelector py resource
  let serviceSelector ← serviceSelectorOf py kind resource
  let volumeRefs ← extractVolumeConfigRefs py resource
  .ok
    { headingPath := [kind, ns, name]
      text := rawText
      lineStart := lineStart
      lineEnd := lineEnd
      symbol := some (symbol kind ns name)
      metadata := [("kind", .str kind), ("namespace", .str ns), ("name", .str name),
        ("labels", .obj labels), ("owner_refs", .arr (ownerRefs.map .str)),
        ("selectors", .obj selectors), ("service_selector", .obj serviceSelector),
        ("volume_refs", .arr (volumeRefs.map .str))] }

/-- `_resource_to_section`. -/
def resourceToSection (py : YamlPy) (resource : Members) (rawText : String)
    (lineStart lineEnd : ℤ) : Except Exc (Option Section) := do
  let metaBlock ← asMapping "get" (metaBlockOf resource)
  let labels ← asMapping "items" (orElse (getD metaBlock "labels" .null) (.map []))
  if kindOf py resource = "" ∨ py.safeStr (getD metaBlock "name" (.str "")) = "" then .ok none
  else do
    let sec ← namedSection py resource metaBlock (textDict py labels) rawText lineStart lineEnd
    .ok (some sec)

/-! ### Files -/

/-- `^---\s*$`. -/
def docSeparator : Regex Char := seqs [lineStart, lit "---".toList, .star space, lineEnd]

/-- `_split_yaml_docs`: the documents between the separators, without blank ones. -/
def splitYamlDocs (text : List Char) : List (List Char) :=
  (Regex.split docSeparator text).filter fun p => p.any fun c => !isSpace c

/-- `_is_kubernetes_content`. -/
def isKubernetesContent (text : List Char) : Bool := (Regex.search kindRe text).isSome

/-- The loop over the documents: the sections and the warnings. -/
def parseDocs (py : YamlPy) : List (List Char) → ℤ → Except Exc (List Section × List String)
  | [], _ => .ok ([], [])
  | docText :: docs, lineCursor =>
    let docLineEnd := lineCursor + (splitlines docText).length - 1
    match py.safeLoad (String.ofList docText) with
    | .raised exc => .error exc
    | .yamlError text => do
      let rest ← parseDocs py docs (docLineEnd + 1)
      .ok (rest.1, ("yaml_parse_error at line " ++ toString lineCursor ++ ": " ++ text) :: rest.2)
    | .value (.map resource) => do
      let sec ← resourceToSection py resource (String.ofList docText) lineCursor docLineEnd
      let rest ← parseDocs py docs (docLineEnd + 1)
      .ok (sec.toList ++ rest.1, rest.2)
    | .value _ => parseDocs py docs (docLineEnd + 1)

/-- `KubernetesParser.parse`, of the decoded text. -/
def parseText (py : YamlPy) (text : List Char) : Except Exc ParsedDocument :=
  if !isKubernetesContent text then .ok (plainTextParse (String.ofList text))
  else do
    let parsed ← parseDocs py (splitYamlDocs text) 1
    .ok
      { title := none
        sections := parsed.1
        metadata := if parsed.2 = [] then []
          else [("parse_warnings", .arr (parsed.2.map .str))]
        contentType := "application/x-kubernetes"
        language := some "yaml" }

/-- `KubernetesParser.parse`. -/
def parse (py : YamlPy) (content : Bytes) : Except Exc ParsedDocument :=
  parseText py (py.decodeReplace content).toList

/-- `KubernetesParser.can_handle`. -/
def canHandle (lower : String → String) (contentType fileExtension : String) : Bool :=
  contentType ∈ k8sContentTypes || lower fileExtension ∈ yamlExtensions

end Kubernetes

end Omniscience.Parsers
