import Omniscience.Parsers.Kubernetes

/-!
# References between Kubernetes resources

A resource names its owners, and the sources of its volumes and of its environment.  The parser
spells the symbols of what is named with the namespace of the naming resource, and the graph has
edges to these symbols.

The two sides spell a missing namespace differently: the symbol of a resource has `default`, a
reference has `cluster`.  Besides, only some places of a manifest are scanned, and edges lose the
white space around a symbol.

* `refs_resolve_iff` : which references lead to the entity of the resource they name.
-/

namespace Omniscience.Parsers

namespace Kubernetes

open GraphRag (isSpace strip)
open Yaml
open List hiding getD

/-! ### Identity of a resource -/

/-- The metadata of a resource, empty if it is no mapping. -/
def metaMap (resource : Members) : Members :=
  match metaBlockOf resource with
  | .map metaBlock => metaBlock
  | _ => []

def nameOf (py : YamlPy) (resource : Members) : String :=
  py.safeStr (getD (metaMap resource) "name" (.str ""))

/-- The value of `metadata.namespace`, if it is given. -/
def namespaceOf (resource : Members) : Option Yaml := lookup (metaMap resource) "namespace"

/-- The symbol of a resource. -/
def symbolOf (py : YamlPy) (resource : Members) : String :=
  symbol (kindOf py resource) (py.safeStr ((namespaceOf resource).getD (.str "default")))
    (nameOf py resource)

/-- A section of the resource, among the sections of the documents. -/
def HasSection (py : YamlPy) (docs : List ParsedDocument) (resource : Members) (sec : Section) :
    Prop :=
  ∃ doc ∈ docs, sec ∈ doc.sections ∧ ∃ text lineStart lineEnd,
    resourceToSection py resource text lineStart lineEnd = .ok (some sec)

/-! ### What a resource names -/

/-- The items under a key; what cannot be iterated has none. -/
def listed (m : Members) (key : String) : List Yaml :=
  match orElse (getD m key (.seq [])) (.seq []) with
  | .seq l => l
  | .set l => l
  | .str s => s.toList.map fun c => .str (String.singleton c)
  | .map members => members.map Prod.fst
  | _ => []

/-- The name under a field of a source, if it is given. -/
def sourceName (py : YamlPy) (field nameField : String) : Yaml → List String
  | .map container =>
    match lookup container field with
    | some (.map source) =>
      match lookup source nameField with
      | some name => if name.truthy then [py.safeStr name] else []
      | none => []
    | _ => []
  | _ => []

/-- The config maps and secrets of the volumes and of the `envFrom` items, by kind and name. -/
def scannedSources (py : YamlPy) : Yaml → List (String × String)
  | .map spec =>
    ((listed spec "volumes").flatMap fun vol =>
      (sourceName py "configMap" "name" vol).map (Prod.mk "ConfigMap") ++
        (sourceName py "secret" "secretName" vol).map (Prod.mk "Secret")) ++
    ["containers", "initContainers"].flatMap fun containerKey =>
      (listed spec containerKey).flatMap fun
        | .map container => (listed container "envFrom").flatMap fun env =>
          (sourceName py "configMapRef" "name" env).map (Prod.mk "ConfigMap") ++
            (sourceName py "secretRef" "name" env).map (Prod.mk "Secret")
        | _ => []
  | _ => []

/-- The other sources of volumes: claims, and the parts of a projected volume. -/
def otherSources (py : YamlPy) : Yaml → List (String × String)
  | .map spec =>
    (listed spec "volumes").flatMap fun vol =>
      (sourceName py "persistentVolumeClaim" "claimName" vol).map
          (Prod.mk "PersistentVolumeClaim") ++
        match vol with
        | .map volume =>
          match lookup volume "projected" with
          | some (.map projected) => (listed projected "sources").flatMap fun part =>
            (sourceName py "configMap" "name" part).map (Prod.mk "ConfigMap") ++
              (sourceName py "secret" "name" part).map (Prod.mk "Secret")
          | _ => []
        | _ => []
  | _ => []

/-- A member of a mapping; anything else has none. -/
def member (key : String) : Yaml → Yaml
  | .map m => getD m key (.map [])
  | _ => .map []

/-- `spec`, with nothing for a missing one. -/
def specValue (resource : Members) : Yaml := orElse (getD resource "spec" (.map [])) (.map [])

/-- `spec.template.spec`. -/
def templateSpec (spec : Yaml) : Yaml := member "spec" (member "template" spec)

/-- The specifications of pods in a resource: of a pod, of a workload with a pod template, and of a
cron job, whose job has the template. -/
def podSpecs (resource : Members) : List Yaml :=
  [specValue resource, templateSpec (specValue resource),
    templateSpec (member "spec" (member "jobTemplate" (specValue resource)))]

/-- The sources that the volumes and environments of a resource name. -/
def NamesSource (py : YamlPy) (resource : Members) (kind name : String) : Prop :=
  ∃ spec ∈ podSpecs resource, (kind, name) ∈ scannedSources py spec ++ otherSources py spec

/-- The owners that a resource names. -/
def NamesOwner (py : YamlPy) (resource : Members) (kind name : String) : Prop :=
  ∃ ref, .map ref ∈ listed (metaMap resource) "ownerReferences" ∧
    py.safeStr (getD ref "kind" (.str "")) = kind ∧ py.safeStr (getD ref "name" (.str "")) = name

/-! ### Reading the references -/

variable {py : YamlPy} {ns : String}

theorem iterate_eq_listed {m : Members} {key : String} {l : List Yaml}
    (h : Yaml.iterate (orElse (getD m key (.seq [])) (.seq [])) = .ok l) : l = listed m key := by
  unfold listed
  cases hv : orElse (getD m key (.seq [])) (.seq []) with
  | seq items | set items | str items | map items =>
    rw [hv] at h
    exact (Except.ok.inj h).symm
  | null | bool _ | int _ | float _ | other _ _ =>
    rw [hv] at h
    cases h

theorem mapM_ok_eq_map {α β ε : Type} {f : α → Except ε β} {g : α → β}
    (hfg : ∀ a b, f a = .ok b → b = g a) {l : List α} {r : List β} (h : l.mapM f = .ok r) :
    r = l.map g := by
  induction l generalizing r with
  | nil =>
    cases h
    rfl
  | cons a l ih =>
    rw [mapM_cons] at h
    obtain ⟨b, hb, h⟩ := bind_eq_ok_iff.1 h
    obtain ⟨bs, hbs, h⟩ := bind_eq_ok_iff.1 h
    cases h
    rw [map_cons, hfg a b hb, ih hbs]

theorem sourceRef_eq (kind field nameField : String) (container : Members) :
    sourceRef py kind ns field nameField container =
      (sourceName py field nameField (.map container)).map (symbol kind ns) := by
  unfold sourceRef sourceName
  dsimp only
  cases lookup container field with
  | none => rfl
  | some source =>
    cases source with
    | map source =>
      dsimp only
      cases lookup source nameField with
      | none => rfl
      | some name =>
        dsimp only
        split_ifs <;> rfl
    | _ => rfl

/-- The symbol of a source, by kind and name. -/
def sourceSymbol (ns : String) (p : String × String) : String := symbol p.1 ns p.2

theorem volumeRefs_eq (vol : Yaml) :
    volumeRefs py ns vol = ((sourceName py "configMap" "name" vol).map (Prod.mk "ConfigMap") ++
      (sourceName py "secret" "secretName" vol).map (Prod.mk "Secret")).map (sourceSymbol ns) := by
  cases vol with
  | map vol =>
    rw [volumeRefs, sourceRef_eq, sourceRef_eq, map_append, map_map, map_map]
    rfl
  | _ => rfl

theorem envFromRefs_eq (env : Yaml) :
    envFromRefs py ns env = ((sourceName py "configMapRef" "name" env).map (Prod.mk "ConfigMap") ++
      (sourceName py "secretRef" "name" env).map (Prod.mk "Secret")).map (sourceSymbol ns) := by
  cases env with
  | map env =>
    rw [envFromRefs, sourceRef_eq, sourceRef_eq, map_append, map_map, map_map]
    rfl
  | _ => rfl

theorem scanSpec_eq {spec : Yaml} {refs : List String} (h : scanSpec py ns spec = .ok refs) :
    refs = (scannedSources py spec).map (sourceSymbol ns) := by
  cases spec with
  | map spec =>
    have hcontainers {key : String} {refs : List String}
        (h : containersRefs py ns spec key = .ok refs) :
        refs = ((listed spec key).flatMap fun
          | .map container => (listed container "envFrom").flatMap fun env =>
            (sourceName py "configMapRef" "name" env).map (Prod.mk "ConfigMap") ++
              (sourceName py "secretRef" "name" env).map (Prod.mk "Secret")
          | _ => []).map (sourceSymbol ns) := by
      obtain ⟨containers, hitems, h⟩ := bind_eq_ok_iff.1 h
      obtain ⟨lists, hlists, h⟩ := bind_eq_ok_iff.1 h
      cases h
      rw [mapM_ok_eq_map (g := fun container => (match container with
        | .map container => (listed container "envFrom").flatMap fun env =>
          (sourceName py "configMapRef" "name" env).map (Prod.mk "ConfigMap") ++
            (sourceName py "secretRef" "name" env).map (Prod.mk "Secret")
        | _ => []).map (sourceSymbol ns)) ?_ hlists, iterate_eq_listed hitems, map_flatMap]
      · rfl
      · intro container refs hrefs
        cases container with
        | map container =>
          obtain ⟨items, hitems, hrefs⟩ := bind_eq_ok_iff.1 hrefs
          cases hrefs
          rw [iterate_eq_listed hitems, map_flatMap]
          exact flatMap_congr fun env _ => envFromRefs_eq env
        | _ =>
          cases hrefs
          rfl
    obtain ⟨volumes, hvolumes, h⟩ := bind_eq_ok_iff.1 h
    obtain ⟨containers, hcon, h⟩ := bind_eq_ok_iff.1 h
    obtain ⟨initContainers, hinit, h⟩ := bind_eq_ok_iff.1 h
    cases h
    rw [hcontainers hcon, hcontainers hinit, iterate_eq_listed hvolumes, scannedSources, map_append,
      flatMap_cons, flatMap_cons, flatMap_nil, append_nil, map_append, append_assoc]
    congr 1
    rw [map_flatMap]
    exact flatMap_congr fun vol _ => volumeRefs_eq vol
  | _ =>
    cases h
    rfl

/-! ### Sections and their edges -/

theorem asMapping_ok_iff {method : String} {v : Yaml} {m : Members} :
    asMapping method v = .ok m ↔ v = .map m := by
  cases v <;> simp [asMapping]

variable {resource : Members}

theorem metadataOf_eq {metaBlock : Members} (hmeta : metaBlockOf resource = .map metaBlock)
    (hname : py.safeStr (getD metaBlock "name" (.str "")) ≠ "") :
    metadataOf resource = .ok metaBlock := by
  rw [metadataOf, asMapping_ok_iff]
  unfold metaBlockOf orElse at hmeta
  split_ifs at hmeta with htruthy
  · exact hmeta
  · cases hmeta
    exact absurd rfl hname

/-- What is known of the section of a resource. -/
structure SectionOf (py : YamlPy) (resource : Members) (sec : Section)
    (owners volumes : List String) : Prop where
  symbol : sec.symbol = some (symbolOf py resource)
  owners_eq : owners = (listed (metaMap resource) "ownerReferences").flatMap
    (ownerRef py (refNamespace py (metaMap resource)))
  volumes_eq : volumes = (scannedSources py (specValue resource) ++
    scannedSources py (templateSpec (specValue resource))).map
      (sourceSymbol (refNamespace py (metaMap resource)))
  ownerRefs : Mapping.getD sec.metadata "owner_refs" (.arr []) = .arr (owners.map .str)
  volumeRefs : Mapping.getD sec.metadata "volume_refs" (.arr []) = .arr (volumes.map .str)
  labels : ∃ labels, Mapping.getD sec.metadata "labels" (.obj []) = .obj labels
  kind_ne : kindOf py resource ≠ ""
  name_ne : nameOf py resource ≠ ""

theorem ownerRefs_eq {resource metaBlock : Members} (hmeta : metadataOf resource = .ok metaBlock)
    {owners : List String} (h : extractOwnerRefs py resource = .ok owners) :
    owners = (listed metaBlock "ownerReferences").flatMap
      (ownerRef py (refNamespace py metaBlock)) := by
  rw [extractOwnerRefs, hmeta, ok_bind] at h
  obtain ⟨items, hitems, h⟩ := bind_eq_ok_iff.1 h
  cases h
  rw [iterate_eq_listed hitems]

theorem scannedSources_empty : scannedSources py (.map []) = [] := rfl

theorem volumeConfigRefs_eq {resource metaBlock : Members}
    (hmeta : metadataOf resource = .ok metaBlock) {volumes : List String}
    (h : extractVolumeConfigRefs py resource = .ok volumes) :
    volumes = (scannedSources py (specValue resource) ++
      scannedSources py (templateSpec (specValue resource))).map
        (sourceSymbol (refNamespace py metaBlock)) := by
  rw [extractVolumeConfigRefs, hmeta, ok_bind] at h
  obtain ⟨refs, hrefs, h⟩ := bind_eq_ok_iff.1 h
  obtain ⟨spec, hspec, h⟩ := bind_eq_ok_iff.1 h
  have hspec : specValue resource = .map spec := asMapping_ok_iff.1 hspec
  have hrefs := scanSpec_eq hrefs
  rw [templateSpec, hspec, member]
  change refs = (scannedSources py (specValue resource)).map _ at hrefs
  rw [hspec] at hrefs
  split at h
  · rename_i template htemplate
    obtain ⟨templateRefs, htemplateRefs, h⟩ := bind_eq_ok_iff.1 h
    cases h
    rw [htemplate, hrefs, scanSpec_eq htemplateRefs, map_append]
    rfl
  · rename_i hother
    cases h
    have hnone : member "spec" (getD spec "template" (.map [])) = .map [] := by
      unfold member
      split
      · rename_i template htemplate
        exact absurd htemplate (hother template)
      · rfl
    rw [hnone, scannedSources_empty, append_nil, hrefs]

variable {sec : Section}

theorem sectionOf_spec {text : String} {l₁ l₂ : ℤ}
    (h : resourceToSection py resource text l₁ l₂ = .ok (some sec)) :
    ∃ owners volumes, SectionOf py resource sec owners volumes := by
  obtain ⟨metaBlock, hmeta, h⟩ := bind_eq_ok_iff.1 h
  obtain ⟨labels, -, h⟩ := bind_eq_ok_iff.1 h
  have hmeta := asMapping_ok_iff.1 hmeta
  have hmap : metaMap resource = metaBlock := by
    rw [metaMap, hmeta]
  split_ifs at h with hnone
  · cases h
  · obtain ⟨sec', hsec, h⟩ := bind_eq_ok_iff.1 h
    cases h
    rw [not_or] at hnone
    have hmetadata := metadataOf_eq hmeta hnone.2
    obtain ⟨owners, howners, hsec⟩ := bind_eq_ok_iff.1 hsec
    obtain ⟨selectors, -, hsec⟩ := bind_eq_ok_iff.1 hsec
    obtain ⟨serviceSelector, -, hsec⟩ := bind_eq_ok_iff.1 hsec
    obtain ⟨volumes, hvolumes, hsec⟩ := bind_eq_ok_iff.1 hsec
    cases hsec
    refine ⟨owners, volumes, ?_, ?_, ?_, rfl, rfl, ⟨_, rfl⟩, hnone.1, ?_⟩
    · rw [symbolOf, nameOf, namespaceOf, hmap]
      rfl
    · rw [hmap]
      exact ownerRefs_eq hmetadata howners
    · rw [hmap]
      exact volumeConfigRefs_eq hmetadata hvolumes
    · rw [nameOf, hmap]
      exact hnone.2

/-- An edge that a section yields. -/
def YieldsEdge (py : YamlPy) (sec : Section) (e : EdgeData) : Prop :=
  ∃ es, k8sEdgesFromSection py.toParserPy sec = .ok es ∧ e ∈ es

theorem symbolOf_ne_empty (resource : Members) : symbolOf py resource ≠ "" := by
  intro h
  have hslash : '/' ∈ (symbolOf py resource).toList := by
    simp [symbolOf, symbol, String.toList_append]
  rw [h] at hslash
  exact absurd hslash not_mem_nil

theorem strippedTexts_str (l : List String) :
    strippedTexts py.toParserPy (l.map .str) = (l.map strip).filter (· ≠ "") := by
  rw [strippedTexts, map_map]
  rfl

theorem exists_edges {owners volumes : List String} (h : SectionOf py resource sec owners volumes) :
    ∃ selects, k8sEdgesFromSection py.toParserPy sec = .ok
        ((((owners.map strip).filter (· ≠ "")).map fun owner =>
            ⟨owner, symbolOf py resource, "owns", []⟩) ++ selects ++
          ((volumes.map strip).filter (· ≠ "")).map fun volume =>
            ⟨symbolOf py resource, volume, "mounts", []⟩) ∧
      ∀ e ∈ selects, e.edgeType = "selects" := by
  have hsymbol : sec.symbol? = some (symbolOf py resource) :=
    symbol?_eq_some_iff.2 ⟨h.symbol, symbolOf_ne_empty resource⟩
  have hselects {v : Json} {e : EdgeData} (he : e ∈ selectsEdges (symbolOf py resource) v) :
      e.edgeType = "selects" := by
    unfold selectsEdges at he
    split_ifs at he
    · rw [mem_singleton.1 he]
    · exact absurd he not_mem_nil
  refine ⟨selectsEdges (symbolOf py resource) (Mapping.getD sec.metadata "selectors" (.obj [])) ++
    selectsEdges (symbolOf py resource)
      (Mapping.getD sec.metadata "service_selector" (.obj [])), ?_, fun e he => ?_⟩
  · rw [k8sEdgesFromSection, hsymbol]
    dsimp only
    rw [h.ownerRefs, h.volumeRefs, iterate, iterate, ok_bind, ok_bind, strippedTexts_str,
      strippedTexts_str, append_assoc _ (selectsEdges _ _) (selectsEdges _ _)]
  · exact (mem_append.1 he).elim hselects hselects

theorem yieldsEdge_iff {owners volumes : List String} (h : SectionOf py resource sec owners volumes)
    {target : String} (htarget : target ≠ "") :
    ((∃ e, YieldsEdge py sec e ∧ e.edgeType = "owns" ∧ e.fromSymbol = target) ↔
        ∃ ref ∈ owners, strip ref = target) ∧
      ((∃ e, YieldsEdge py sec e ∧ e.edgeType = "mounts" ∧ e.toSymbol = target) ↔
        ∃ ref ∈ volumes, strip ref = target) := by
  have hmem (l : List String) : target ∈ (l.map strip).filter (· ≠ "") ↔
      ∃ ref ∈ l, strip ref = target := by
    rw [mem_filter, decide_eq_true_iff, and_iff_left htarget, mem_map]
  obtain ⟨selects, hedges, hselects⟩ := exists_edges h
  rw [← hmem, ← hmem]
  constructor
  · constructor
    · rintro ⟨e, ⟨es, hes, he⟩, htype, rfl⟩
      cases hedges.symm.trans hes
      rcases mem_append.1 he with he | he
      · rcases mem_append.1 he with he | he
        · obtain ⟨owner, howner, rfl⟩ := mem_map.1 he
          exact howner
        · exact absurd ((hselects e he).symm.trans htype) (by decide)
      · obtain ⟨volume, -, rfl⟩ := mem_map.1 he
        have hne : "mounts" ≠ "owns" := by decide
        exact absurd htype hne
    · intro hin
      exact ⟨_, ⟨_, hedges, mem_append_left _ (mem_append_left _ (mem_map_of_mem hin))⟩, rfl, rfl⟩
  · constructor
    · rintro ⟨e, ⟨es, hes, he⟩, htype, rfl⟩
      cases hedges.symm.trans hes
      rcases mem_append.1 he with he | he
      · rcases mem_append.1 he with he | he
        · obtain ⟨owner, -, rfl⟩ := mem_map.1 he
          have hne : "owns" ≠ "mounts" := by decide
          exact absurd htype hne
        · exact absurd ((hselects e he).symm.trans htype) (by decide)
      · obtain ⟨volume, hvolume, rfl⟩ := mem_map.1 he
        exact hvolume
    · intro hin
      exact ⟨_, ⟨_, hedges, mem_append_right _ (mem_map_of_mem hin)⟩, rfl, rfl⟩

/-! ### Spelling of symbols -/

/-- The symbol of a resource is not touched when an edge is made. -/
def IsTight (text : String) : Prop := strip text = text

instance (text : String) : Decidable (IsTight text) := inferInstanceAs (Decidable (_ = _))

theorem toList_strip (text : String) :
    (strip text).toList = (text.toList.dropWhile isSpace).rdropWhile isSpace := String.toList_ofList

theorem toList_strip_append {init rest : String} {c d : Char} {l m : List Char}
    (hc : isSpace c = false) (hd : isSpace d = false) (hfirst : init.toList = c :: l)
    (hlast : init.toList = m ++ [d]) :
    (strip (init ++ rest)).toList = init.toList ++ rest.toList.rdropWhile isSpace := by
  have hdrop : (init ++ rest).toList.dropWhile isSpace = init.toList ++ rest.toList := by
    rw [String.toList_append, hfirst, cons_append, dropWhile_cons_of_neg (by simp [hc])]
  rw [toList_strip, hdrop]
  induction rest.toList using List.reverseRecOn with
  | nil =>
    rw [append_nil, rdropWhile_nil, append_nil, hlast, rdropWhile_concat_neg _ _ _ (by simp [hd])]
  | append_singleton rest e ih =>
    rw [← append_assoc]
    by_cases he : isSpace e = true
    · rw [rdropWhile_concat_pos _ _ _ he, rdropWhile_concat_pos _ _ _ he, ih]
    · rw [rdropWhile_concat_neg _ _ _ he, rdropWhile_concat_neg _ _ _ he, append_assoc]

theorem isTight_strip (text : String) : IsTight (strip text) := by
  refine String.toList_inj.1 ?_
  rw [toList_strip, toList_strip]
  set l := text.toList.dropWhile isSpace with hl
  have hhead : (l.rdropWhile isSpace).dropWhile isSpace = l.rdropWhile isSpace := by
    obtain ⟨rest, hrest⟩ := rdropWhile_prefix (p := isSpace) l
    cases hr : l.rdropWhile isSpace with
    | nil => rfl
    | cons c r =>
      rw [hr, cons_append] at hrest
      have hnot := List.head?_dropWhile_not isSpace text.toList
      rw [← hl, ← hrest, List.head?_cons] at hnot
      exact dropWhile_cons_of_neg (by simpa using hnot)
  rw [hhead, rdropWhile_idempotent]

/-! ### Which references resolve -/

/-- The parser spells the symbol of the owner as the owner does: the namespace is given, and the
symbol has no white space around it.  Without a namespace it takes an owner whose kind or name has
slashes, so that `cluster` is read as something else. -/
def OwnerResolves (py : YamlPy) (a b : Members) : Prop :=
  ((namespaceOf a).isSome ∧ IsTight (symbolOf py b)) ∨
    (namespaceOf a = none ∧ ∃ kind name, kind ≠ "" ∧ name ≠ "" ∧ NamesOwner py a kind name ∧
      strip (symbol kind "cluster" name) = symbolOf py b)

/-- The namespace is given, and the source is a config map or secret in a place that is scanned,
under its name or one that differs by white space at its end. -/
def SourceResolves (py : YamlPy) (a b : Members) : Prop :=
  (namespaceOf a).isSome ∧ ∃ name,
    (kindOf py b, name) ∈ scannedSources py (specValue a) ++
      scannedSources py (templateSpec (specValue a)) ∧
    strip (symbol (kindOf py b) (refNamespace py (metaMap a)) name) = symbolOf py b

theorem symbolOf_of_given {a b : Members} (hns : namespaceOf a = namespaceOf b)
    (hgiven : (namespaceOf a).isSome) :
    symbolOf py b = symbol (kindOf py b) (refNamespace py (metaMap a)) (nameOf py b) := by
  obtain ⟨v, hv⟩ := Option.isSome_iff_exists.1 hgiven
  have hb : namespaceOf b = some v := hns ▸ hv
  have ha : lookup (metaMap a) "namespace" = some v := hv
  rw [symbolOf, hb, refNamespace, getD, ha]
  rfl

theorem refNamespace_of_none {a : Members} (hnone : namespaceOf a = none) :
    refNamespace py (metaMap a) = "" := by
  have ha : lookup (metaMap a) "namespace" = none := hnone
  rw [refNamespace, getD, ha]
  rfl

theorem symbolOf_of_none {b : Members} (hnone : namespaceOf b = none) :
    symbolOf py b = symbol (kindOf py b) "default" (nameOf py b) := by
  rw [symbolOf, hnone]
  rfl

theorem mem_ownerRefs_iff {a : Members} {ref : String} :
    ref ∈ (listed (metaMap a) "ownerReferences").flatMap (ownerRef py ns) ↔
      ∃ kind name, kind ≠ "" ∧ name ≠ "" ∧ NamesOwner py a kind name ∧
        ref = symbol kind ns name := by
  rw [mem_flatMap]
  constructor
  · rintro ⟨v, hv, href⟩
    cases v with
    | map m =>
      rw [ownerRef] at href
      split_ifs at href with hgiven
      · exact ⟨_, _, hgiven.1, hgiven.2, ⟨m, hv, rfl, rfl⟩, mem_singleton.1 href⟩
      · exact absurd href not_mem_nil
    | _ => exact absurd href not_mem_nil
  · rintro ⟨kind, name, hkind, hname, ⟨m, hm, rfl, rfl⟩, rfl⟩
    refine ⟨.map m, hm, ?_⟩
    rw [ownerRef, if_pos ⟨hkind, hname⟩]
    exact mem_singleton_self _

theorem owner_resolves_iff {a b : Members} (hns : namespaceOf a = namespaceOf b)
    (hkind : kindOf py b ≠ "") (hname : nameOf py b ≠ "")
    (hnames : NamesOwner py a (kindOf py b) (nameOf py b)) :
    (∃ ref ∈ (listed (metaMap a) "ownerReferences").flatMap
        (ownerRef py (refNamespace py (metaMap a))), strip ref = symbolOf py b) ↔
      OwnerResolves py a b := by
  simp only [mem_ownerRefs_iff]
  cases hgiven : namespaceOf a with
  | some v =>
    have hsome : (namespaceOf a).isSome := by
      rw [hgiven]
      rfl
    constructor
    · rintro ⟨ref, -, href⟩
      exact .inl ⟨hsome, href ▸ isTight_strip ref⟩
    · rintro (⟨-, htight⟩ | ⟨hnone, -⟩)
      · refine ⟨_, ⟨_, _, hkind, hname, hnames, rfl⟩, ?_⟩
        rw [← symbolOf_of_given hns hsome]
        exact htight
      · rw [hgiven] at hnone
        cases hnone
  | none =>
    rw [refNamespace_of_none hgiven]
    constructor
    · rintro ⟨ref, ⟨kind, name, hk, hn, hmem, rfl⟩, href⟩
      exact .inr ⟨hgiven, kind, name, hk, hn, hmem, href⟩
    · rintro (⟨hsome, -⟩ | ⟨-, kind, name, hk, hn, hmem, href⟩)
      · rw [hgiven] at hsome
        cases hsome
      · exact ⟨_, ⟨kind, name, hk, hn, hmem, rfl⟩, href⟩

theorem kind_of_scanned {spec : Yaml} {p : String × String} (h : p ∈ scannedSources py spec) :
    p.1 = "ConfigMap" ∨ p.1 = "Secret" := by
  have hpair {l l' : List String}
      (h : p ∈ l.map (Prod.mk "ConfigMap") ++ l'.map (Prod.mk "Secret")) :
      p.1 = "ConfigMap" ∨ p.1 = "Secret" := by
    rcases mem_append.1 h with h | h
    · obtain ⟨name, -, rfl⟩ := mem_map.1 h
      exact .inl rfl
    · obtain ⟨name, -, rfl⟩ := mem_map.1 h
      exact .inr rfl
  cases spec with
  | map spec =>
    rcases mem_append.1 h with h | h
    · obtain ⟨vol, -, h⟩ := mem_flatMap.1 h
      exact hpair h
    · obtain ⟨key, -, h⟩ := mem_flatMap.1 h
      obtain ⟨container, -, h⟩ := mem_flatMap.1 h
      split at h
      · obtain ⟨env, -, h⟩ := mem_flatMap.1 h
        exact hpair h
      · exact absurd h not_mem_nil
  | _ => exact absurd h not_mem_nil

theorem kind_of_other {spec : Yaml} {p : String × String} (h : p ∈ otherSources py spec) :
    p.1 = "PersistentVolumeClaim" ∨ p.1 = "ConfigMap" ∨ p.1 = "Secret" := by
  cases spec with
  | map spec =>
    obtain ⟨vol, -, h⟩ := mem_flatMap.1 h
    rcases mem_append.1 h with h | h
    · obtain ⟨name, -, rfl⟩ := mem_map.1 h
      exact .inl rfl
    · split at h
      · split at h
        · obtain ⟨part, -, h⟩ := mem_flatMap.1 h
          rcases mem_append.1 h with h | h
          · obtain ⟨name, -, rfl⟩ := mem_map.1 h
            exact .inr (.inl rfl)
          · obtain ⟨name, -, rfl⟩ := mem_map.1 h
            exact .inr (.inr rfl)
        · exact absurd h not_mem_nil
      · exact absurd h not_mem_nil
  | _ => exact absurd h not_mem_nil

theorem kind_of_named {a : Members} {kind name : String} (h : NamesSource py a kind name) :
    kind = "PersistentVolumeClaim" ∨ kind = "ConfigMap" ∨ kind = "Secret" := by
  obtain ⟨spec, -, h⟩ := h
  rcases mem_append.1 h with h | h
  · exact .inr (kind_of_scanned h)
  · exact kind_of_other h

theorem toList_strip_symbol {kind : String}
    (hkind : kind = "PersistentVolumeClaim" ∨ kind = "ConfigMap" ∨ kind = "Secret")
    (ns name : String) : (strip (symbol kind ns name)).toList =
      kind.toList ++ '/' :: ((if ns = "" then "cluster" else ns).toList ++
        '/' :: name.toList.rdropWhile isSpace) := by
  set shown := if ns = "" then "cluster" else ns with hshown
  have hsplit : symbol kind ns name = (kind ++ "/" ++ shown ++ "/") ++ name := by
    simp only [symbol, ← hshown, String.append_assoc]
  have hinit : (kind ++ "/" ++ shown ++ "/").toList =
      (kind.toList ++ '/' :: shown.toList) ++ ['/'] := by
    simp [String.toList_append]
  have hstrip (c : Char) (l : List Char) (hc : isSpace c = false) (hfirst : kind.toList = c :: l) :
      (strip (symbol kind ns name)).toList =
        kind.toList ++ '/' :: (shown.toList ++ '/' :: name.toList.rdropWhile isSpace) := by
    rw [hsplit, toList_strip_append hc (by decide) (by rw [hinit, hfirst]; rfl) hinit, hinit]
    simp
  rcases hkind with rfl | rfl | rfl
  · exact hstrip 'P' _ (by decide) rfl
  · exact hstrip 'C' _ (by decide) rfl
  · exact hstrip 'S' _ (by decide) rfl

theorem toList_symbol (kind ns name : String) : (symbol kind ns name).toList =
      kind.toList ++ '/' :: ((if ns = "" then "cluster" else ns).toList ++ '/' :: name.toList) := by
  simp [symbol, String.toList_append]

theorem kind_of_strip_symbol {kind kind' ns ns' name name' : String}
    (hkind : kind = "PersistentVolumeClaim" ∨ kind = "ConfigMap" ∨ kind = "Secret")
    (hkind' : kind' = "PersistentVolumeClaim" ∨ kind' = "ConfigMap" ∨ kind' = "Secret")
    (h : strip (symbol kind ns name) = symbol kind' ns' name') : kind = kind' := by
  have hlist := congrArg String.toList h
  rw [toList_strip_symbol hkind, toList_symbol] at hlist
  have hhead := congrArg List.head? hlist
  rcases hkind with rfl | rfl | rfl <;> rcases hkind' with rfl | rfl | rfl <;>
    first
    | rfl
    | exact absurd hhead (by simp)

theorem strip_cluster_ne_default {kind name name' : String}
    (hkind : kind = "PersistentVolumeClaim" ∨ kind = "ConfigMap" ∨ kind = "Secret") :
    strip (symbol kind "" name) ≠ symbol kind "default" name' := by
  intro h
  have hlist := congrArg String.toList h
  rw [toList_strip_symbol hkind, toList_symbol] at hlist
  have hrest := (List.cons.inj (append_cancel_left hlist)).2
  simp at hrest

theorem source_resolves_iff {a b : Members} (hns : namespaceOf a = namespaceOf b)
    (hnames : NamesSource py a (kindOf py b) (nameOf py b)) :
    (∃ ref ∈ (scannedSources py (specValue a) ++
        scannedSources py (templateSpec (specValue a))).map
          (sourceSymbol (refNamespace py (metaMap a))), strip ref = symbolOf py b) ↔
      SourceResolves py a b := by
  have hb := kind_of_named hnames
  have hscanned : ∀ p ∈ scannedSources py (specValue a) ++
      scannedSources py (templateSpec (specValue a)), p.1 = "ConfigMap" ∨ p.1 = "Secret" :=
    fun p hp => (mem_append.1 hp).elim kind_of_scanned kind_of_scanned
  constructor
  · rintro ⟨ref, href, hstrip⟩
    obtain ⟨⟨kind, name⟩, hmem, rfl⟩ := mem_map.1 href
    have hkind := hscanned _ hmem
    have hsame : kind = kindOf py b := kind_of_strip_symbol (.inr hkind) hb hstrip
    subst hsame
    refine ⟨?_, name, hmem, hstrip⟩
    -- without a namespace, the reference has `cluster` where the symbol has `default`
    rw [Option.isSome_iff_ne_none]
    intro hnone
    rw [sourceSymbol, refNamespace_of_none hnone, symbolOf_of_none (hns ▸ hnone)] at hstrip
    exact strip_cluster_ne_default hb hstrip
  · rintro ⟨-, name, hmem, hstrip⟩
    exact ⟨_, mem_map_of_mem hmem, hstrip⟩

/-! ### The graph -/

variable {docs : List ParsedDocument} {graph : List EntityData × List EdgeData}

/-- The documents are parsed manifests. -/
def AreParsed (py : YamlPy) (docs : List ParsedDocument) : Prop :=
  ∀ doc ∈ docs, ∃ content, parse py content = .ok doc

/-- The graph has the entity of a symbol, and an `owns` edge from it that the section yields. -/
def OwnsEdge (py : YamlPy) (graph : List EntityData × List EdgeData) (sec : Section)
    (target : String) : Prop :=
  (∃ entity ∈ graph.1, entity.symbol = target) ∧
    ∃ e ∈ graph.2, YieldsEdge py sec e ∧ e.edgeType = "owns" ∧ e.fromSymbol = target

/-- The graph has the entity of a symbol, and a `mounts` edge to it that the section yields. -/
def MountsEdge (py : YamlPy) (graph : List EntityData × List EdgeData) (sec : Section)
    (target : String) : Prop :=
  (∃ entity ∈ graph.1, entity.symbol = target) ∧
    ∃ e ∈ graph.2, YieldsEdge py sec e ∧ e.edgeType = "mounts" ∧ e.toSymbol = target

theorem exists_section_of_loaded {texts : List (List Char)} {lineCursor : ℤ}
    {parsed : List Section × List String} (h : parseDocs py texts lineCursor = .ok parsed)
    {text : List Char} (htext : text ∈ texts)
    (hload : py.safeLoad (String.ofList text) = .value (.map resource)) :
    ∃ l₁ l₂ sec, resourceToSection py resource (String.ofList text) l₁ l₂ = .ok sec ∧
      ∀ s ∈ sec, s ∈ parsed.1 := by
  induction texts generalizing lineCursor parsed with
  | nil => exact absurd htext not_mem_nil
  | cons t texts ih =>
    unfold parseDocs at h
    dsimp only at h
    rcases mem_cons.1 htext with rfl | htext
    · rw [hload] at h
      obtain ⟨sec, hsec, h⟩ := bind_eq_ok_iff.1 h
      obtain ⟨rest, -, h⟩ := bind_eq_ok_iff.1 h
      cases h
      exact ⟨_, _, sec, hsec, fun s hs => mem_append_left _ (Option.mem_toList.2 hs)⟩
    · split at h
      · cases h
      · obtain ⟨rest, hrest, h⟩ := bind_eq_ok_iff.1 h
        cases h
        obtain ⟨l₁, l₂, sec, hsec, hmem⟩ := ih hrest htext
        exact ⟨l₁, l₂, sec, hsec, hmem⟩
      · obtain ⟨sec, -, h⟩ := bind_eq_ok_iff.1 h
        obtain ⟨rest, hrest, h⟩ := bind_eq_ok_iff.1 h
        cases h
        obtain ⟨l₁, l₂, sec, hsec, hmem⟩ := ih hrest htext
        exact ⟨l₁, l₂, sec, hsec, fun s hs => mem_append_right _ (hmem s hs)⟩
      · exact ih h htext

theorem ne_of_section_none {text : String} {l₁ l₂ : ℤ}
    (h : resourceToSection py resource text l₁ l₂ = .ok none) :
    kindOf py resource = "" ∨ nameOf py resource = "" := by
  obtain ⟨metaBlock, hmeta, h⟩ := bind_eq_ok_iff.1 h
  obtain ⟨labels, -, h⟩ := bind_eq_ok_iff.1 h
  split_ifs at h with hnone
  · rw [nameOf, metaMap, asMapping_ok_iff.1 hmeta]
    exact hnone
  · obtain ⟨sec, -, h⟩ := bind_eq_ok_iff.1 h
    cases h

theorem hasSection_of_parse {content : Bytes} {doc : ParsedDocument} (hdoc : doc ∈ docs)
    (h : parse py content = .ok doc)
    (hkubernetes : isKubernetesContent (py.decodeReplace content).toList = true) {text : List Char}
    (htext : text ∈ splitYamlDocs (py.decodeReplace content).toList)
    (hload : py.safeLoad (String.ofList text) = .value (.map resource))
    (hkind : kindOf py resource ≠ "") (hname : nameOf py resource ≠ "") :
    ∃ sec, HasSection py docs resource sec := by
  unfold parse parseText at h
  rw [hkubernetes] at h
  obtain ⟨parsed, hparsed, h⟩ := bind_eq_ok_iff.1 h
  cases h
  obtain ⟨l₁, l₂, sec, hsec, hmem⟩ := exists_section_of_loaded hparsed htext hload
  cases sec with
  | none => exact absurd (ne_of_section_none hsec) (not_or.2 ⟨hkind, hname⟩)
  | some sec => exact ⟨sec, _, hdoc, hmem sec rfl, _, l₁, l₂, hsec⟩

theorem extract_kubernetes {content : Bytes} {doc : ParsedDocument} (h : parse py content = .ok doc)
    (hsec : sec ∈ doc.sections) {symbol : String} (hsymbol : sec.symbol = some symbol) :
    extractInfraGraph py.toParserPy doc =
      extractSections k8sEntityFromSection (k8sEdgesFromSection py.toParserPy) doc.sections := by
  unfold parse parseText at h
  split_ifs at h
  · cases h
    rw [mem_singleton.1 hsec] at hsymbol
    cases hsymbol
  · obtain ⟨parsed, -, h⟩ := bind_eq_ok_iff.1 h
    cases h
    rfl

theorem mem_graph_of_section (hdocs : AreParsed py docs)
    (hgraph : extractAll py.toParserPy docs = .ok graph) (h : HasSection py docs resource sec) :
    (∃ entity ∈ graph.1, entity.symbol = symbolOf py resource) ∧
      ∀ e, YieldsEdge py sec e → e ∈ graph.2 := by
  obtain ⟨doc, hdoc, hsec, text, l₁, l₂, hresource⟩ := h
  obtain ⟨owners, volumes, hspec⟩ := sectionOf_spec hresource
  obtain ⟨content, hcontent⟩ := hdocs doc hdoc
  obtain ⟨g, hg⟩ := exists_of_extractAll hgraph hdoc
  have hg' := hg
  rw [extract_kubernetes hcontent hsec hspec.symbol] at hg'
  have hsymbol : sec.symbol? = some (symbolOf py resource) :=
    symbol?_eq_some_iff.2 ⟨hspec.symbol, symbolOf_ne_empty resource⟩
  obtain ⟨labels, hlabels⟩ := hspec.labels
  constructor
  · have hentity : ∃ entity, k8sEntityFromSection sec = .ok (some entity) ∧
        entity.symbol = symbolOf py resource := by
      rw [k8sEntityFromSection, hsymbol]
      dsimp only
      rw [hlabels, toDict, ok_bind]
      exact ⟨_, rfl, rfl⟩
    obtain ⟨entity, hentity, heq⟩ := hentity
    exact ⟨entity, ((mem_extractAll hgraph).1 entity).2 ⟨doc, hdoc, g, hg,
      ((mem_extractSections hg').1 entity).2 ⟨sec, hsec, hentity⟩⟩, heq⟩
  · intro e he
    exact ((mem_extractAll hgraph).2 e).2 ⟨doc, hdoc, g, hg,
      ((mem_extractSections hg').2 e).2 ⟨sec, hsec, he⟩⟩

/-- **A reference leads to the entity of the resource it names exactly if the naming resource gives
its namespace, the symbol has no white space around it, and the source is in a place that is
scanned.** -/
theorem refs_resolve_iff (py : YamlPy) {docs : List ParsedDocument} (hdocs : AreParsed py docs)
    {graph : List EntityData × List EdgeData}
    (hgraph : extractAll py.toParserPy docs = .ok graph) {a b : Members} {secA secB : Section}
    (ha : HasSection py docs a secA) (hb : HasSection py docs b secB)
    (hns : namespaceOf a = namespaceOf b) :
    (NamesOwner py a (kindOf py b) (nameOf py b) →
        (OwnsEdge py graph secA (symbolOf py b) ↔ OwnerResolves py a b)) ∧
      (NamesSource py a (kindOf py b) (nameOf py b) →
        (MountsEdge py graph secA (symbolOf py b) ↔ SourceResolves py a b)) := by
  have hentity := (mem_graph_of_section hdocs hgraph hb).1
  have hedges := (mem_graph_of_section hdocs hgraph ha).2
  obtain ⟨_, _, _, _, _, _, hresource⟩ := ha
  obtain ⟨_, _, _, _, _, _, hresource'⟩ := hb
  obtain ⟨owners, volumes, hspec⟩ := sectionOf_spec hresource
  obtain ⟨_, _, hspec'⟩ := sectionOf_spec hresource'
  obtain ⟨howns, hmounts⟩ := yieldsEdge_iff hspec (symbolOf_ne_empty b)
  constructor
  · intro hnames
    rw [← owner_resolves_iff hns hspec'.kind_ne hspec'.name_ne hnames, ← hspec.owners_eq, ← howns]
    constructor
    · rintro ⟨-, e, -, he⟩
      exact ⟨e, he⟩
    · rintro ⟨e, he⟩
      exact ⟨hentity, e, hedges e he.1, he⟩
  · intro hnames
    rw [← source_resolves_iff hns hnames, ← hspec.volumes_eq, ← hmounts]
    constructor
    · rintro ⟨-, e, -, he⟩
      exact ⟨e, he⟩
    · rintro ⟨e, he⟩
      exact ⟨hentity, e, hedges e he.1, he⟩

/-! ### Manifests of a pod and its environment -/

def configMapText : String := "kind: ConfigMap\nmetadata: \x7bname: c, namespace: n\x7d\n"

def configMapResource : Members :=
  [(.str "kind", .str "ConfigMap"),
    (.str "metadata", .map [(.str "name", .str "c"), (.str "namespace", .str "n")])]

def podText : String :=
  "kind: Pod\nmetadata: \x7bname: p, namespace: n\x7d\n" ++
    "spec: \x7bvolumes: [\x7bconfigMap: \x7bname: c\x7d\x7d]\x7d\n"

def podSpec : Yaml := .map [(.str "volumes", .seq [.map [(.str "configMap",
  .map [(.str "name", .str "c")])]])]

def podResource : Members :=
  [(.str "kind", .str "Pod"),
    (.str "metadata", .map [(.str "name", .str "p"), (.str "namespace", .str "n")]),
    (.str "spec", podSpec)]

def bareConfigMapText : String := "kind: ConfigMap\nmetadata: \x7bname: c\x7d\n"

def bareConfigMapResource : Members :=
  [(.str "kind", .str "ConfigMap"), (.str "metadata", .map [(.str "name", .str "c")])]

def barePodText : String :=
  "kind: Pod\nmetadata: \x7bname: p\x7d\n" ++
    "spec: \x7bvolumes: [\x7bconfigMap: \x7bname: c\x7d\x7d]\x7d\n"

def barePodResource : Members :=
  [(.str "kind", .str "Pod"), (.str "metadata", .map [(.str "name", .str "p")]),
    (.str "spec", podSpec)]

/-- A runtime that loads these manifests. -/
def sampleYamlPy : YamlPy where
  toParserPy := ParserPy.sample []
  safeLoad text :=
    match [(configMapText, configMapResource), (podText, podResource),
      (bareConfigMapText, bareConfigMapResource), (barePodText, barePodResource)].lookup text with
    | some resource => .value (.map resource)
    | none => .yamlError "expected a manifest"
  shown _ := "..."

/-- The graph of two files. -/
def graphOf (py : YamlPy) (text text' : String) : Except Exc (List EntityData × List EdgeData) :=
  parse py (asciiBytes text) >>= fun doc => parse py (asciiBytes text') >>= fun doc' =>
    extractAll py.toParserPy [doc, doc']

/-- A file with one manifest, as the parser reads it. -/
structure IsFile (py : YamlPy) (text : String) (resource : Members) : Prop where
  decoded : py.decodeReplace (asciiBytes text) = text
  probed : isKubernetesContent text.toList = true
  whole : splitYamlDocs text.toList = [text.toList]
  loaded : py.safeLoad text = .value (.map resource)
  named : kindOf py resource ≠ "" ∧ nameOf py resource ≠ ""

theorem IsFile.hasSection {text : String} (h : IsFile py text resource) {doc : ParsedDocument}
    (hdoc : doc ∈ docs) (hparse : parse py (asciiBytes text) = .ok doc) :
    ∃ sec, HasSection py docs resource sec := by
  have hload : py.safeLoad (String.ofList text.toList) = .value (.map resource) := by
    rw [String.ofList_toList, h.loaded]
  refine hasSection_of_parse hdoc hparse ?_ (?_ : text.toList ∈ _) hload h.named.1 h.named.2
  · rw [h.decoded, h.probed]
  · rw [h.decoded, h.whole]
    exact mem_singleton_self _

theorem exists_graph {text text' : String} {resource resource' : Members}
    (h : IsFile py text resource) (h' : IsFile py text' resource')
    (hgraph : (graphOf py text text').toBool = true) :
    ∃ docs graph sec sec', AreParsed py docs ∧ extractAll py.toParserPy docs = .ok graph ∧
      HasSection py docs resource sec ∧ HasSection py docs resource' sec' := by
  cases heq : graphOf py text text' with
  | error exc =>
    rw [heq] at hgraph
    cases hgraph
  | ok graph =>
    obtain ⟨doc, hdoc, heq⟩ := bind_eq_ok_iff.1 heq
    obtain ⟨doc', hdoc', heq⟩ := bind_eq_ok_iff.1 heq
    obtain ⟨sec, hsec⟩ : ∃ sec, HasSection py [doc, doc'] resource sec :=
      h.hasSection mem_cons_self hdoc
    obtain ⟨sec', hsec'⟩ : ∃ sec', HasSection py [doc, doc'] resource' sec' :=
      h'.hasSection (mem_cons_of_mem _ (mem_singleton_self _)) hdoc'
    refine ⟨[doc, doc'], graph, sec, sec', fun d hd => ?_, heq, hsec, hsec'⟩
    rcases mem_cons.1 hd with rfl | hd
    · exact ⟨_, hdoc⟩
    · rw [mem_singleton.1 hd]
      exact ⟨_, hdoc'⟩

theorem parse_ofList (hpy : py.toParserPy = .sample []) (text : String) {l : List Char}
    (htext : text = String.ofList l) (hascii : l.all (·.toNat < 256) = true) :
    parse py (asciiBytes text) = parseText py l := by
  rw [parse, hpy, htext, decodeReplace_asciiBytes [] hascii, String.toList_ofList]

theorem isFile_ofList (hpy : py.toParserPy = .sample []) {text : String} {l : List Char}
    (htext : text = String.ofList l) (hascii : l.all (·.toNat < 256) = true)
    (hprobed : isKubernetesContent l = true) (hwhole : splitYamlDocs l = [l])
    (hload : py.safeLoad text = .value (.map resource))
    (hnamed : kindOf py resource ≠ "" ∧ nameOf py resource ≠ "") : IsFile py text resource := by
  have hlist : text.toList = l := by rw [htext, String.toList_ofList]
  refine ⟨?_, hlist ▸ hprobed, hlist ▸ hwhole, hload, hnamed⟩
  rw [hpy, htext, decodeReplace_asciiBytes [] hascii]

theorem graphOf_ofList {text text' : String} {resource resource' : Members} {l l' : List Char}
    (h : IsFile py text resource) (htext : text = String.ofList l)
    (h' : IsFile py text' resource') (htext' : text' = String.ofList l') :
    graphOf py text text' = parseText py l >>= fun doc => parseText py l' >>= fun doc' =>
      extractAll py.toParserPy [doc, doc'] := by
  rw [graphOf, parse, parse, h.decoded, h'.decoded, htext, htext', String.toList_ofList,
    String.toList_ofList]

theorem isFile_configMap : IsFile sampleYamlPy configMapText configMapResource := by
  refine isFile_ofList rfl rfl ?_ ?_ ?_ rfl (by decide)
  all_goals decide

theorem isFile_pod : IsFile sampleYamlPy podText podResource := by
  refine isFile_ofList rfl String.ofList_append.symm ?_ ?_ ?_ rfl (by decide)
  all_goals decide

theorem isFile_bareConfigMap : IsFile sampleYamlPy bareConfigMapText bareConfigMapResource := by
  refine isFile_ofList rfl rfl ?_ ?_ ?_ rfl (by decide)
  all_goals decide

theorem isFile_barePod : IsFile sampleYamlPy barePodText barePodResource := by
  refine isFile_ofList rfl String.ofList_append.symm ?_ ?_ ?_ rfl (by decide)
  all_goals decide

theorem namesSource_pods : NamesSource sampleYamlPy podResource "ConfigMap" "c" ∧
    NamesSource sampleYamlPy barePodResource "ConfigMap" "c" := by
  refine ⟨⟨_, mem_cons_self, ?_⟩, _, mem_cons_self, ?_⟩ <;> decide

/-- With their namespace given, the pod is connected to its config map. -/
theorem refs_resolve_iff_pod : ∃ docs graph sec, AreParsed sampleYamlPy docs ∧
    extractAll sampleYamlPy.toParserPy docs = .ok graph ∧
      HasSection sampleYamlPy docs podResource sec ∧
      MountsEdge sampleYamlPy graph sec (symbolOf sampleYamlPy configMapResource) := by
  have hok : (graphOf sampleYamlPy podText configMapText).toBool = true := by
    rw [graphOf_ofList isFile_pod String.ofList_append.symm isFile_configMap rfl]
    decide
  obtain ⟨docs, graph, sec, sec', hdocs, hgraph, hsec, hsec'⟩ :=
    exists_graph isFile_pod isFile_configMap hok
  refine ⟨docs, graph, sec, hdocs, hgraph, hsec, ?_⟩
  refine ((refs_resolve_iff sampleYamlPy hdocs hgraph hsec hsec' rfl).2 namesSource_pods.1).2 ?_
  exact ⟨rfl, "c", by decide, by decide⟩

/-- Without a namespace on either side, the pod is not connected to the config map it mounts. -/
theorem not_mountsEdge_barePod : ∃ docs graph sec sec', AreParsed sampleYamlPy docs ∧
    extractAll sampleYamlPy.toParserPy docs = .ok graph ∧
      HasSection sampleYamlPy docs barePodResource sec ∧
      HasSection sampleYamlPy docs bareConfigMapResource sec' ∧
      namespaceOf barePodResource = namespaceOf bareConfigMapResource ∧
      NamesSource sampleYamlPy barePodResource (kindOf sampleYamlPy bareConfigMapResource)
        (nameOf sampleYamlPy bareConfigMapResource) ∧
      ¬MountsEdge sampleYamlPy graph sec (symbolOf sampleYamlPy bareConfigMapResource) := by
  have hok : (graphOf sampleYamlPy barePodText bareConfigMapText).toBool = true := by
    rw [graphOf_ofList isFile_barePod String.ofList_append.symm isFile_bareConfigMap rfl]
    decide
  obtain ⟨docs, graph, sec, sec', hdocs, hgraph, hsec, hsec'⟩ :=
    exists_graph isFile_barePod isFile_bareConfigMap hok
  refine ⟨docs, graph, sec, sec', hdocs, hgraph, hsec, hsec', rfl, namesSource_pods.2, ?_⟩
  rintro ⟨-, e, -, hyields, htype, hto⟩
  obtain ⟨_, _, _, _, _, _, hresource⟩ := hsec
  obtain ⟨owners, volumes, hspec⟩ := sectionOf_spec hresource
  obtain ⟨ref, href, hstrip⟩ :=
    ((yieldsEdge_iff hspec (symbolOf_ne_empty _)).2).1 ⟨e, hyields, htype, hto⟩
  -- the reference is spelt `ConfigMap/cluster/c`
  rw [hspec.volumes_eq] at href
  have hrefs : ∀ r ∈ (scannedSources sampleYamlPy (specValue barePodResource) ++
      scannedSources sampleYamlPy (templateSpec (specValue barePodResource))).map
        (sourceSymbol (refNamespace sampleYamlPy (metaMap barePodResource))),
      strip r ≠ symbolOf sampleYamlPy bareConfigMapResource := by
    decide
  exact hrefs ref href hstrip

end Kubernetes

end Omniscience.Parsers
