import Omniscience.Parsers.KubernetesDocuments
import Omniscience.Parsers.KubernetesRefs

/-!
# Isolation of Kubernetes documents

Each document of a file is loaded and read on its own, but only syntax errors are caught: a document
whose `metadata`, `labels` or `spec` is of another type than the source expects raises, and takes
the whole file with it.

* `resourceToSection_isOk_iff` : which resources are read.
* `manifests_isolated_iff` : when parsing joined manifests comes to parsing each manifest alone.
-/

namespace Omniscience.Parsers

namespace Kubernetes

open GraphRag (isSpace)
open List
open Regex (Place)
open Yaml

/-! ### What can be read -/

/-- The value is a mapping. -/
def IsMapping : Yaml → Prop
  | .map _ => True
  | _ => False

/-- The value can be iterated. -/
def IsIterable : Yaml → Prop
  | .seq _ | .set _ | .str _ | .map _ => True
  | _ => False

/-- The items under a key can be iterated; a missing or empty value has none. -/
def HasItems (m : Members) (key : String) : Prop :=
  IsIterable (orElse (getD m key (.seq [])) (.seq []))

/-- The specification of a pod can be scanned. -/
def PodReadable : Yaml → Prop
  | .map spec => HasItems spec "volumes" ∧ ∀ key ∈ ["containers", "initContainers"],
      HasItems spec key ∧ ∀ container, .map container ∈ listed spec key →
        HasItems container "envFrom"
  | _ => True

/-- A resource that can be read. -/
structure Readable (py : YamlPy) (resource : Members) : Prop where
  metadata : IsMapping (metaBlockOf resource)
  labels : IsMapping (orElse (getD (metaMap resource) "labels" .null) (.map []))
  named : kindOf py resource ≠ "" → nameOf py resource ≠ "" →
    HasItems (metaMap resource) "ownerReferences" ∧ IsMapping (specValue resource) ∧
      PodReadable (specValue resource) ∧ PodReadable (templateSpec (specValue resource))

/-- A document that is read: a syntax error, a value that is no mapping, or a readable resource. -/
def Loads (py : YamlPy) (text : List Char) : Prop :=
  match py.safeLoad (String.ofList text) with
  | .raised _ => False
  | .value (.map resource) => Readable py resource
  | _ => True

/-- A document that is read and yields no section. -/
def Silent (py : YamlPy) (text : List Char) : Prop :=
  match py.safeLoad (String.ofList text) with
  | .raised _ => False
  | .value (.map resource) =>
    Readable py resource ∧ (kindOf py resource = "" ∨ nameOf py resource = "")
  | _ => True

/-! ### Reading a resource -/

variable {py : YamlPy}

theorem exists_asMapping_iff (method : String) {v : Yaml} :
    (∃ m, asMapping method v = .ok m) ↔ IsMapping v := by
  cases v <;> simp [asMapping, IsMapping]

theorem exists_iterate_iff {v : Yaml} : (∃ l, Yaml.iterate v = .ok l) ↔ IsIterable v := by
  cases v <;> simp [Yaml.iterate, IsIterable]

theorem exists_mapM_iff {α β ε : Type} {f : α → Except ε β} {l : List α} :
    (∃ r, l.mapM f = .ok r) ↔ ∀ a ∈ l, ∃ b, f a = .ok b := by
  induction l with
  | nil => exact ⟨fun _ a ha => absurd ha not_mem_nil, fun _ => ⟨[], rfl⟩⟩
  | cons a l ih =>
    rw [mapM_cons, forall_mem_cons, ← ih]
    constructor
    · rintro ⟨r, h⟩
      obtain ⟨b, hb, h⟩ := bind_eq_ok_iff.1 h
      obtain ⟨bs, hbs, -⟩ := bind_eq_ok_iff.1 h
      exact ⟨⟨b, hb⟩, ⟨bs, hbs⟩⟩
    · rintro ⟨⟨b, hb⟩, ⟨bs, hbs⟩⟩
      exact ⟨b :: bs, by rw [hb, hbs]; rfl⟩

theorem iterate_items {m : Members} {key : String} (h : HasItems m key) :
    Yaml.iterate (orElse (getD m key (.seq [])) (.seq [])) = .ok (listed m key) := by
  obtain ⟨l, hl⟩ := exists_iterate_iff.2 h
  rw [hl, iterate_eq_listed hl]

theorem exists_containersRefs_iff (py : YamlPy) (ns : String) {spec : Members} {key : String} :
    (∃ refs, containersRefs py ns spec key = .ok refs) ↔
      HasItems spec key ∧ ∀ container, .map container ∈ listed spec key →
        HasItems container "envFrom" := by
  have hcontainer {container : Yaml} : (∃ refs, containerRefs py ns container = .ok refs) ↔
      ∀ m, container = .map m → HasItems m "envFrom" := by
    cases container with
    | map container =>
      constructor
      · rintro ⟨refs, h⟩ m hm
        cases hm
        obtain ⟨items, hitems, -⟩ := bind_eq_ok_iff.1 h
        exact exists_iterate_iff.1 ⟨items, hitems⟩
      · intro h
        rw [containerRefs, iterate_items (h container rfl)]
        exact ⟨_, rfl⟩
    | _ => exact ⟨fun _ m hm => (by cases hm), fun _ => ⟨[], rfl⟩⟩
  constructor
  · rintro ⟨refs, h⟩
    obtain ⟨containers, hitems, h⟩ := bind_eq_ok_iff.1 h
    obtain ⟨lists, hlists, -⟩ := bind_eq_ok_iff.1 h
    refine ⟨exists_iterate_iff.1 ⟨_, hitems⟩, fun container hmem => ?_⟩
    rw [← iterate_eq_listed hitems] at hmem
    exact hcontainer.1 (exists_mapM_iff.1 ⟨lists, hlists⟩ _ hmem) container rfl
  · rintro ⟨hitems, henv⟩
    rw [containersRefs, iterate_items hitems, ok_bind]
    obtain ⟨lists, hlists⟩ := exists_mapM_iff.2 fun container hmem =>
      hcontainer.2 fun m hm => henv m (hm ▸ hmem)
    rw [hlists]
    exact ⟨_, rfl⟩

theorem exists_scanSpec_iff (py : YamlPy) (ns : String) {spec : Yaml} :
    (∃ refs, scanSpec py ns spec = .ok refs) ↔ PodReadable spec := by
  cases spec with
  | map spec =>
    rw [PodReadable, forall_mem_cons, forall_mem_singleton, ← exists_containersRefs_iff py ns,
      ← exists_containersRefs_iff py ns]
    constructor
    · rintro ⟨refs, h⟩
      obtain ⟨volumes, hvolumes, h⟩ := bind_eq_ok_iff.1 h
      obtain ⟨containers, hcontainers, h⟩ := bind_eq_ok_iff.1 h
      obtain ⟨initContainers, hinit, -⟩ := bind_eq_ok_iff.1 h
      exact ⟨exists_iterate_iff.1 ⟨_, hvolumes⟩, ⟨_, hcontainers⟩, ⟨_, hinit⟩⟩
    · rintro ⟨hvolumes, ⟨containers, hcontainers⟩, ⟨initContainers, hinit⟩⟩
      rw [scanSpec, iterate_items hvolumes, ok_bind, hcontainers, ok_bind, hinit]
      exact ⟨_, rfl⟩
  | _ => exact ⟨fun _ => trivial, fun _ => ⟨[], rfl⟩⟩

theorem podReadable_empty (py : YamlPy) : PodReadable (.map []) :=
  (exists_scanSpec_iff py "").1 ⟨[], rfl⟩

theorem exists_extractVolumeConfigRefs_iff (py : YamlPy) {resource metaBlock : Members}
    (hmeta : metadataOf resource = .ok metaBlock) :
    (∃ refs, extractVolumeConfigRefs py resource = .ok refs) ↔
      IsMapping (specValue resource) ∧ PodReadable (specValue resource) ∧
        PodReadable (templateSpec (specValue resource)) := by
  have htemplate (spec : Members) : (∃ template, getD spec "template" (.map []) = .map template ∧
      templateSpec (.map spec) = getD template "spec" (.map [])) ∨
      (∀ template, getD spec "template" (.map []) ≠ .map template) ∧
        templateSpec (.map spec) = .map [] := by
    rw [templateSpec, member]
    cases getD spec "template" (.map []) with
    | map template => exact .inl ⟨template, rfl, rfl⟩
    | _ => exact .inr ⟨fun template h => (by cases h), rfl⟩
  rw [extractVolumeConfigRefs, hmeta, ok_bind]
  change (∃ refs, (scanSpec py _ (specValue resource) >>= fun _ => _) = Except.ok refs) ↔ _
  constructor
  · rintro ⟨refs, h⟩
    obtain ⟨specRefs, hspecRefs, h⟩ := bind_eq_ok_iff.1 h
    obtain ⟨spec, hspec, h⟩ := bind_eq_ok_iff.1 h
    refine ⟨(exists_asMapping_iff _).1 ⟨spec, hspec⟩, (exists_scanSpec_iff py _).1 ⟨_, hspecRefs⟩, ?_⟩
    rw [show specValue resource = .map spec from asMapping_ok_iff.1 hspec]
    rcases htemplate spec with ⟨template, heq, htemplate⟩ | ⟨-, hnone⟩
    · rw [heq] at h
      obtain ⟨templateRefs, htemplateRefs, -⟩ := bind_eq_ok_iff.1 h
      rw [htemplate]
      exact (exists_scanSpec_iff py _).1 ⟨_, htemplateRefs⟩
    · rw [hnone]
      exact podReadable_empty py
  · rintro ⟨hmapping, hspec, htemplateSpec⟩
    obtain ⟨specRefs, hspecRefs⟩ :=
      (exists_scanSpec_iff py (refNamespace py metaBlock)).2 hspec
    obtain ⟨spec, hmap⟩ := (exists_asMapping_iff "get").2 hmapping
    change ∃ refs, (scanSpec py (refNamespace py metaBlock) (specValue resource) >>=
      fun refs => asMapping "get" (specValue resource) >>= _) = Except.ok refs
    rw [hspecRefs, ok_bind, hmap, ok_bind]
    rw [asMapping_ok_iff.1 hmap] at htemplateSpec
    rcases htemplate spec with ⟨template, heq, htemplate⟩ | ⟨hother, -⟩
    · rw [htemplate] at htemplateSpec
      obtain ⟨templateRefs, htemplateRefs⟩ :=
        (exists_scanSpec_iff py (refNamespace py metaBlock)).2 htemplateSpec
      rw [heq]
      change ∃ refs, (scanSpec py (refNamespace py metaBlock) (getD template "spec" (.map [])) >>=
        _) = Except.ok refs
      rw [htemplateRefs]
      exact ⟨_, rfl⟩
    · split
      · rename_i template heq
        exact absurd heq (hother template)
      · exact ⟨_, rfl⟩

theorem exists_serviceSelectorOf (py : YamlPy) (kind : String) {resource : Members}
    (h : IsMapping (specValue resource)) :
    ∃ selector, serviceSelectorOf py kind resource = .ok selector := by
  rw [serviceSelectorOf]
  split_ifs
  · obtain ⟨spec, hspec⟩ := (exists_asMapping_iff "get").2 h
    have hspec : specOf resource = .ok spec := hspec
    rw [extractServiceSelector, hspec, ok_bind]
    split <;> exact ⟨_, rfl⟩
  · exact ⟨_, rfl⟩

theorem exists_namedSection_iff {resource metaBlock : Members} {labels : Metadata}
    {text : String} {l₁ l₂ : ℤ} (hmeta : metadataOf resource = .ok metaBlock) :
    (∃ sec, namedSection py resource metaBlock labels text l₁ l₂ = .ok sec) ↔
      HasItems metaBlock "ownerReferences" ∧ IsMapping (specValue resource) ∧
        PodReadable (specValue resource) ∧ PodReadable (templateSpec (specValue resource)) := by
  rw [← exists_extractVolumeConfigRefs_iff py hmeta]
  constructor
  · rintro ⟨sec, h⟩
    obtain ⟨owners, howners, h⟩ := bind_eq_ok_iff.1 h
    obtain ⟨selectors, -, h⟩ := bind_eq_ok_iff.1 h
    obtain ⟨serviceSelector, -, h⟩ := bind_eq_ok_iff.1 h
    obtain ⟨volumes, hvolumes, -⟩ := bind_eq_ok_iff.1 h
    rw [extractOwnerRefs, hmeta, ok_bind] at howners
    obtain ⟨items, hitems, -⟩ := bind_eq_ok_iff.1 howners
    exact ⟨exists_iterate_iff.1 ⟨items, hitems⟩, volumes, hvolumes⟩
  · rintro ⟨howners, volumes, hvolumes⟩
    have hmapping := ((exists_extractVolumeConfigRefs_iff py hmeta).1 ⟨volumes, hvolumes⟩).1
    obtain ⟨spec, hspec⟩ := (exists_asMapping_iff "get").2 hmapping
    have hspec : specOf resource = .ok spec := hspec
    obtain ⟨serviceSelector, hservice⟩ :=
      exists_serviceSelectorOf py (kindOf py resource) hmapping
    have hownerRefs : ∃ owners, extractOwnerRefs py resource = .ok owners := by
      rw [extractOwnerRefs, hmeta, ok_bind, iterate_items howners]
      exact ⟨_, rfl⟩
    obtain ⟨owners, hownerRefs⟩ := hownerRefs
    rw [namedSection, hownerRefs, ok_bind, extractPodTemplateSelector, hspec, ok_bind, ok_bind,
      hservice, ok_bind, hvolumes]
    exact ⟨_, rfl⟩

theorem resourceToSection_isOk_iff {resource : Members} (text : String) (l₁ l₂ : ℤ) :
    (∃ sec, resourceToSection py resource text l₁ l₂ = .ok sec) ↔ Readable py resource := by
  constructor
  · rintro ⟨sec, h⟩
    obtain ⟨metaBlock, hmeta, h⟩ := bind_eq_ok_iff.1 h
    obtain ⟨labels, hlabels, h⟩ := bind_eq_ok_iff.1 h
    have hmap : metaMap resource = metaBlock := by
      rw [metaMap, asMapping_ok_iff.1 hmeta]
    refine ⟨(exists_asMapping_iff _).1 ⟨_, hmeta⟩, ?_, fun hkind hname => ?_⟩
    · rw [hmap]
      exact (exists_asMapping_iff _).1 ⟨_, hlabels⟩
    · rw [nameOf, hmap] at hname
      rw [if_neg (not_or.2 ⟨hkind, hname⟩)] at h
      obtain ⟨sec', hsec, -⟩ := bind_eq_ok_iff.1 h
      rw [hmap]
      exact (exists_namedSection_iff
        (metadataOf_eq (asMapping_ok_iff.1 hmeta) hname)).1 ⟨sec', hsec⟩
  · intro h
    obtain ⟨metaBlock, hmeta⟩ := (exists_asMapping_iff "get").2 h.metadata
    have hmap : metaMap resource = metaBlock := by
      rw [metaMap, asMapping_ok_iff.1 hmeta]
    obtain ⟨labels, hlabels⟩ := (exists_asMapping_iff "items").2 h.labels
    rw [hmap] at hlabels
    rw [resourceToSection, hmeta, ok_bind, hlabels, ok_bind]
    split_ifs with hnone
    · exact ⟨none, rfl⟩
    · rw [not_or] at hnone
      have hname : nameOf py resource ≠ "" := by
        rw [nameOf, hmap]
        exact hnone.2
      have hnamed := h.named hnone.1 hname
      rw [hmap] at hnamed
      obtain ⟨sec, hsec⟩ := (exists_namedSection_iff
        (metadataOf_eq (asMapping_ok_iff.1 hmeta) hnone.2)).2 hnamed
      rw [hsec]
      exact ⟨some sec, rfl⟩

/-! ### Sections of a document -/

/-- A section without its lines. -/
def eraseLines (sec : Section) : Section := { sec with lineStart := 0, lineEnd := 0 }

/-- The sections of a document that is read, without their lines. -/
def sectionsOf (py : YamlPy) (text : List Char) : List Section :=
  match py.safeLoad (String.ofList text) with
  | .value (.map resource) =>
    match resourceToSection py resource (String.ofList text) 0 0 with
    | .ok sec => sec.toList
    | .error _ => []
  | _ => []

theorem map_bind {ε α β γ : Type} (x : Except ε α) (f : α → Except ε β) (g : β → γ) :
    (x >>= f).map g = x >>= fun a => (f a).map g := by
  cases x <;> rfl

theorem bind_map {ε α β γ : Type} (x : Except ε α) (f : α → β) (g : β → Except ε γ) :
    (x.map f >>= g) = x >>= fun a => g (f a) := by
  cases x <;> rfl

theorem resourceToSection_erased (resource : Members) (text : String) (l₁ l₂ : ℤ) :
    (resourceToSection py resource text l₁ l₂).map (Option.map eraseLines) =
      resourceToSection py resource text 0 0 := by
  have hnamed (metaBlock : Members) (labels : Metadata) :
      (namedSection py resource metaBlock labels text l₁ l₂).map eraseLines =
        namedSection py resource metaBlock labels text 0 0 := by
    simp only [namedSection, map_bind]
    rfl
  rw [resourceToSection, resourceToSection, map_bind]
  refine bind_congr fun metaBlock => ?_
  rw [map_bind]
  refine bind_congr fun labels => ?_
  split_ifs
  · rfl
  · rw [← hnamed, map_bind, bind_map]
    rfl

theorem parseDocs_of_loads {docs : List (List Char)} (h : ∀ doc ∈ docs, Loads py doc) (l : ℤ) :
    ∃ parsed, parseDocs py docs l = .ok parsed ∧
      parsed.1.map eraseLines = docs.flatMap (sectionsOf py) := by
  induction docs generalizing l with
  | nil => exact ⟨_, rfl, rfl⟩
  | cons doc docs ih =>
    obtain ⟨hdoc, hdocs⟩ := forall_mem_cons.1 h
    obtain ⟨rest, hrest, hsections⟩ := ih hdocs (l + (splitlines doc).length - 1 + 1)
    rw [Loads] at hdoc
    rw [parseDocs, flatMap_cons, sectionsOf]
    cases hload : py.safeLoad (String.ofList doc) with
    | raised exc =>
      rw [hload] at hdoc
      exact hdoc.elim
    | yamlError text =>
      dsimp only
      rw [hrest]
      exact ⟨_, rfl, hsections⟩
    | value v =>
      cases v with
      | map resource =>
        rw [hload] at hdoc
        obtain ⟨sec, hsec⟩ := (resourceToSection_isOk_iff _ _ _).2 hdoc
        dsimp only
        rw [← resourceToSection_erased, hsec, ok_bind, hrest]
        refine ⟨_, rfl, ?_⟩
        rw [map_append, hsections]
        cases sec <;> rfl
      | _ => exact ⟨_, hrest, hsections⟩

theorem loads_of_parseDocs {docs : List (List Char)} {l : ℤ} {parsed : List Section × List String}
    (h : parseDocs py docs l = .ok parsed) : ∀ doc ∈ docs, Loads py doc := by
  induction docs generalizing l parsed with
  | nil => exact fun doc hdoc => absurd hdoc not_mem_nil
  | cons doc docs ih =>
    rw [parseDocs] at h
    rw [forall_mem_cons, Loads]
    cases hload : py.safeLoad (String.ofList doc) with
    | raised exc =>
      rw [hload] at h
      cases h
    | yamlError text =>
      rw [hload] at h
      obtain ⟨rest, hrest, -⟩ := bind_eq_ok_iff.1 h
      exact ⟨trivial, ih hrest⟩
    | value v =>
      rw [hload] at h
      cases v with
      | map resource =>
        obtain ⟨sec, hsec, h⟩ := bind_eq_ok_iff.1 h
        obtain ⟨rest, hrest, -⟩ := bind_eq_ok_iff.1 h
        exact ⟨(resourceToSection_isOk_iff _ _ _).1 ⟨sec, hsec⟩, ih hrest⟩
      | _ => exact ⟨trivial, ih h⟩

theorem sectionsOf_cases (py : YamlPy) (text : List Char) :
    sectionsOf py text = [] ∨ ∃ sec, sectionsOf py text = [sec] ∧ sec.text = String.ofList text ∧
      sec.headingPath ≠ [] := by
  rw [sectionsOf]
  split
  · split
    · rename_i resource _ sec hsec
      cases sec with
      | none => exact .inl rfl
      | some sec =>
        right
        obtain ⟨metaBlock, -, h⟩ := bind_eq_ok_iff.1 hsec
        obtain ⟨labels, -, h⟩ := bind_eq_ok_iff.1 h
        split_ifs at h
        · cases h
        · obtain ⟨sec', hnamed, h⟩ := bind_eq_ok_iff.1 h
          cases h
          obtain ⟨_, -, hnamed⟩ := bind_eq_ok_iff.1 hnamed
          obtain ⟨_, -, hnamed⟩ := bind_eq_ok_iff.1 hnamed
          obtain ⟨_, -, hnamed⟩ := bind_eq_ok_iff.1 hnamed
          obtain ⟨_, -, hnamed⟩ := bind_eq_ok_iff.1 hnamed
          cases hnamed
          exact ⟨_, rfl, rfl, cons_ne_nil _ _⟩
    · exact .inl rfl
  · exact .inl rfl

variable {text : List Char}

theorem silent_iff : Silent py text ↔ Loads py text ∧ sectionsOf py text = [] := by
  rw [Silent, Loads, sectionsOf]
  cases py.safeLoad (String.ofList text) with
  | raised exc => exact ⟨False.elim, And.left⟩
  | yamlError _ => exact ⟨fun _ => ⟨trivial, rfl⟩, fun _ => trivial⟩
  | value v =>
    cases v with
    | map resource =>
      refine and_congr_right fun hreadable => ?_
      obtain ⟨sec, hsec⟩ := (resourceToSection_isOk_iff (String.ofList text) 0 0).2 hreadable
      dsimp only
      rw [hsec]
      cases sec with
      | none => exact ⟨fun _ => rfl, fun _ => ne_of_section_none hsec⟩
      | some sec =>
        obtain ⟨_, _, hspec⟩ := sectionOf_spec hsec
        constructor
        · rintro (hkind | hname)
          · exact absurd hkind hspec.kind_ne
          · exact absurd hname hspec.name_ne
        · exact fun h => absurd h (cons_ne_nil _ _)
    | _ => exact ⟨fun _ => ⟨trivial, rfl⟩, fun _ => trivial⟩

/-! ### Recognised manifests -/

/-- The text goes on with the key `kind`. -/
def AtKind (l : List Char) : Prop :=
  ∃ w w' rest, l = w ++ ("kind".toList ++ (w' ++ ':' :: rest)) ∧ (∀ c ∈ w, isSpace c = true) ∧
    ∀ c ∈ w', isSpace c = true

theorem length_lt_of_kind {p q : Place Char} (hq : q ∈ Regex.run kindRe p) :
    q.after.length < p.after.length ∧ p.before.head?.all (· = '\n') = true ∧ AtKind p.after := by
  obtain ⟨p₁, h₁, hq⟩ := Regex.mem_run_seq.1 hq
  obtain ⟨p₂, h₂, hq⟩ := Regex.mem_run_seq.1 hq
  obtain ⟨p₃, h₃, hq⟩ := Regex.mem_run_seq.1 hq
  obtain ⟨p₄, h₄, hq⟩ := Regex.mem_run_seq.1 hq
  obtain ⟨hstart, rfl⟩ := Regex.mem_run_edge.1 h₁
  obtain ⟨w, rest₂, hw, hspace, rfl⟩ := Regex.mem_run_star_sat.1 h₂
  obtain ⟨rest₃, hkind, rfl⟩ := Regex.mem_run_lit.1 h₃
  obtain ⟨w', rest₄, hw', hspace', rfl⟩ := Regex.mem_run_star_sat.1 h₄
  obtain ⟨c, rest, hcolon, hc, rfl⟩ := Regex.mem_run_sat.1 hq
  obtain rfl := of_decide_eq_true hc
  change rest₂ = _ at hkind
  change rest₃ = _ at hw'
  change rest₄ = _ at hcolon
  subst hcolon hw' hkind
  refine ⟨?_, hstart, w, w', rest, hw, hspace, hspace'⟩
  rw [hw]
  simp only [Place.move, length_append, length_cons]
  omega

theorem exists_run_kind {p : Place Char} (hstart : p.before.head?.all (· = '\n') = true)
    (h : AtKind p.after) : ∃ q, q ∈ Regex.run kindRe p := by
  obtain ⟨w, w', rest, hafter, hw, hw'⟩ := h
  refine ⟨(((p.move w _).move "kind".toList _).move w' _).move [':'] rest,
    Regex.mem_run_seq.2 ⟨p, Regex.mem_run_edge.2 ⟨hstart, rfl⟩, Regex.mem_run_seq.2
      ⟨_, Regex.mem_run_star_sat.2 ⟨w, _, hafter, hw, rfl⟩, Regex.mem_run_seq.2
        ⟨_, Regex.mem_run_lit.2 ⟨_, rfl, rfl⟩, Regex.mem_run_seq.2
          ⟨_, Regex.mem_run_star_sat.2 ⟨w', _, rfl, hw', rfl⟩,
            Regex.mem_run_sat.2 ⟨':', rest, rfl, by simp, rfl⟩⟩⟩⟩⟩⟩

theorem isKubernetesContent_iff {l : List Char} : isKubernetesContent l = true ↔
      ∃ u v, l = u ++ v ∧ u.getLast?.all (· = '\n') = true ∧ AtKind v := by
  rw [isKubernetesContent, Regex.search_isSome_iff]
  constructor
  · rintro ⟨u, v, hsplit, -, hmatch⟩
    obtain ⟨q, hq⟩ := Option.isSome_iff_exists.1 hmatch
    obtain ⟨-, hstart, hkind⟩ := length_lt_of_kind (Regex.matchAt_eq_some_imp hq).1
    rw [List.head?_reverse] at hstart
    exact ⟨u, v, hsplit, hstart, hkind⟩
  · rintro ⟨u, v, hsplit, hstart, hkind⟩
    rw [← List.head?_reverse] at hstart
    obtain ⟨q, hq⟩ := exists_run_kind (p := ⟨u.reverse, v, []⟩) hstart hkind
    refine ⟨u, v, hsplit, ?_, Regex.matchAt_isSome (fun q hq => (length_lt_of_kind hq).1) hq⟩
    rintro rfl
    exact absurd (length_lt_of_kind hq).1 (Nat.not_lt_zero _)

variable {ms : List (List Char)} {m : List Char}

theorem exists_joinDocs_eq (hm : m ∈ ms) : ∃ before after, joinDocs ms = before ++ (m ++ after) ∧
      before.getLast?.all (· = '\n') = true := by
  cases ms with
  | nil => exact absurd hm not_mem_nil
  | cons m₀ ms =>
    rw [joinDocs]
    rcases mem_cons.1 hm with rfl | hm
    · exact ⟨[], _, rfl, rfl⟩
    · obtain ⟨ms₁, ms₂, rfl⟩ := append_of_mem hm
      refine ⟨m₀ ++ ms₁.flatMap (['-', '-', '-', '\n'] ++ ·) ++ ['-', '-', '-'] ++ ['\n'],
        ms₂.flatMap (['-', '-', '-', '\n'] ++ ·), by simp, ?_⟩
      rw [List.getLast?_append]
      rfl

theorem isKubernetesContent_joinDocs (hm : m ∈ ms) (h : isKubernetesContent m = true) :
    isKubernetesContent (joinDocs ms) = true := by
  obtain ⟨u, v, rfl, hstart, w, w', rest, rfl, hw, hw'⟩ := isKubernetesContent_iff.1 h
  obtain ⟨before, after, hjoin, hbefore⟩ := exists_joinDocs_eq hm
  refine isKubernetesContent_iff.2 ⟨before ++ u, w ++ ("kind".toList ++ (w' ++ ':' :: (rest ++
    after))), by rw [hjoin]; simp, ?_, w, w', rest ++ after, rfl, hw, hw'⟩
  rw [List.getLast?_append]
  cases hlast : u.getLast? with
  | none => exact hbefore
  | some c => rwa [hlast] at hstart

/-! ### Isolation -/

/-- Parsing the joined manifests comes to parsing each of them alone, up to lines. -/
def Isolated (py : YamlPy) (ms : List (List Char)) : Prop :=
  ∃ doc docs, parseText py (joinDocs ms) = .ok doc ∧ ms.mapM (parseText py) = .ok docs ∧
    doc.sections.map eraseLines = docs.flatMap fun d => d.sections.map eraseLines

/-- The sections of a parsed file, without their lines. -/
def fileSections (py : YamlPy) (text : List Char) : List Section :=
  if isKubernetesContent text then (splitYamlDocs text).flatMap (sectionsOf py)
  else (plainTextParse (String.ofList text)).sections.map eraseLines

theorem parseText_isOk_iff : (∃ doc, parseText py text = .ok doc) ↔
      isKubernetesContent text = false ∨ ∀ doc ∈ splitYamlDocs text, Loads py doc := by
  rw [parseText]
  cases isKubernetesContent text with
  | false => exact ⟨fun _ => .inl rfl, fun _ => ⟨_, rfl⟩⟩
  | true =>
    constructor
    · rintro ⟨doc, h⟩
      obtain ⟨parsed, hparsed, -⟩ := bind_eq_ok_iff.1 h
      exact .inr (loads_of_parseDocs hparsed)
    · rintro (h | h)
      · cases h
      · obtain ⟨parsed, hparsed, -⟩ := parseDocs_of_loads h 1
        rw [hparsed]
        exact ⟨_, rfl⟩

theorem sections_of_parseText {doc : ParsedDocument} (h : parseText py text = .ok doc) :
    doc.sections.map eraseLines = fileSections py text := by
  rw [parseText] at h
  rw [fileSections]
  cases hkind : isKubernetesContent text with
  | false =>
    rw [hkind] at h
    cases h
    rfl
  | true =>
    rw [hkind] at h
    obtain ⟨parsed, hparsed, h⟩ := bind_eq_ok_iff.1 h
    cases h
    obtain ⟨parsed', hparsed', hsections⟩ := parseDocs_of_loads (loads_of_parseDocs hparsed) 1
    rw [hparsed] at hparsed'
    cases hparsed'
    exact hsections

theorem isolated_iff_sections : Isolated py ms ↔ (∃ doc, parseText py (joinDocs ms) = .ok doc) ∧
      (∀ m ∈ ms, ∃ doc, parseText py m = .ok doc) ∧
        fileSections py (joinDocs ms) = ms.flatMap (fileSections py) := by
  have hsections {docs : List ParsedDocument} {ms : List (List Char)}
      (h : ms.mapM (parseText py) = .ok docs) :
      docs.flatMap (fun d => d.sections.map eraseLines) = ms.flatMap (fileSections py) := by
    induction ms generalizing docs with
    | nil =>
      cases h
      rfl
    | cons m ms ih =>
      rw [mapM_cons] at h
      obtain ⟨doc, hdoc, h⟩ := bind_eq_ok_iff.1 h
      obtain ⟨docs, hdocs, h⟩ := bind_eq_ok_iff.1 h
      cases h
      rw [flatMap_cons, flatMap_cons, ih hdocs, sections_of_parseText hdoc]
  constructor
  · rintro ⟨doc, docs, hdoc, hdocs, heq⟩
    rw [sections_of_parseText hdoc, hsections hdocs] at heq
    exact ⟨⟨doc, hdoc⟩, exists_mapM_iff.1 ⟨docs, hdocs⟩, heq⟩
  · rintro ⟨⟨doc, hdoc⟩, hms, heq⟩
    obtain ⟨docs, hdocs⟩ := exists_mapM_iff.2 hms
    refine ⟨doc, docs, hdoc, hdocs, ?_⟩
    rw [sections_of_parseText hdoc, hsections hdocs, heq]

theorem length_eq_of_flatMap {α β : Type} {f g : α → List β} {l : List α}
    (hle : ∀ a ∈ l, (f a).length ≤ (g a).length) (h : (l.flatMap g).length ≤ (l.flatMap f).length) :
    ∀ a ∈ l, (f a).length = (g a).length := by
  have hsum (l : List α) (hle : ∀ a ∈ l, (f a).length ≤ (g a).length) :
      (l.flatMap f).length ≤ (l.flatMap g).length := by
    induction l with
    | nil => exact Nat.le_refl _
    | cons a l ih =>
      obtain ⟨ha, hl⟩ := forall_mem_cons.1 hle
      rw [flatMap_cons, flatMap_cons, length_append, length_append]
      exact Nat.add_le_add ha (ih hl)
  induction l with
  | nil => exact fun a ha => absurd ha not_mem_nil
  | cons a l ih =>
    obtain ⟨ha, hl⟩ := forall_mem_cons.1 hle
    have hrest := hsum l hl
    rw [flatMap_cons, flatMap_cons, length_append, length_append] at h
    exact forall_mem_cons.2 ⟨by omega, ih hl (by omega)⟩

theorem kept_of_flatMap_eq
    (h : (ms.map behind).flatMap (sectionsOf py) = ms.flatMap (sectionsOf py)) :
    ∀ m ∈ ms, behind m = m ∨ sectionsOf py m = [] ∧ sectionsOf py (behind m) = [] := by
  -- the section of a document is that of some document behind a separator line
  have hfixed : ∀ m ∈ ms, sectionsOf py m ≠ [] → behind m = m := by
    intro m hm hne
    obtain ⟨sec, hsec, htext, -⟩ := (sectionsOf_cases py m).resolve_left hne
    have hmem : sec ∈ (ms.map behind).flatMap (sectionsOf py) := by
      rw [h]
      exact mem_flatMap.2 ⟨m, hm, by rw [hsec]; exact mem_singleton_self _⟩
    obtain ⟨t, ht, hmem⟩ := mem_flatMap.1 hmem
    obtain ⟨m', -, rfl⟩ := mem_map.1 ht
    rcases sectionsOf_cases py (behind m') with hnone | ⟨sec', hsec', htext', -⟩
    · rw [hnone] at hmem
      exact absurd hmem not_mem_nil
    · rw [hsec'] at hmem
      obtain rfl := mem_singleton.1 hmem
      have hm' : m = behind m' := by
        rw [← String.toList_ofList (l := m), ← htext, htext', String.toList_ofList]
      rw [hm', behind_behind]
  rw [flatMap_map] at h
  have hlength := length_eq_of_flatMap (f := sectionsOf py) (g := sectionsOf py ∘ behind) (l := ms)
    (fun m hm => ?_) (Nat.le_of_eq (congrArg List.length h))
  · intro m hm
    by_cases hnone : sectionsOf py m = []
    · have := hlength m hm
      rw [hnone] at this
      exact .inr ⟨hnone, length_eq_zero_iff.1 this.symm⟩
    · exact .inl (hfixed m hm hnone)
  · by_cases hnone : sectionsOf py m = []
    · rw [hnone]
      exact Nat.zero_le _
    · exact Nat.le_of_eq (congrArg (fun t => (sectionsOf py t).length) (hfixed m hm hnone).symm)

theorem joinDocs_singleton (m : List Char) : joinDocs [m] = m := append_nil m

theorem splitYamlDocs_manifest (hm : IsManifest m) : splitYamlDocs m = [m] := by
  have h : splitYamlDocs (joinDocs [m]) = [m] :=
    splitYamlDocs_joined (forall_mem_singleton.2 hm)
  rwa [joinDocs_singleton] at h

theorem parseText_manifest_iff (hm : IsManifest m) :
    (∃ doc, parseText py m = .ok doc) ↔ (isKubernetesContent m = true → Loads py m) := by
  rw [parseText_isOk_iff, splitYamlDocs_manifest hm, forall_mem_singleton]
  cases isKubernetesContent m <;> simp

theorem fileSections_manifest (hm : IsManifest m) (h : isKubernetesContent m = true) :
    fileSections py m = sectionsOf py m := by
  rw [fileSections, if_pos h, splitYamlDocs_manifest hm, flatMap_singleton]

theorem fileSections_joined (hms : ∀ x ∈ m :: ms, IsManifest x)
    (h : isKubernetesContent (joinDocs (m :: ms)) = true) :
    fileSections py (joinDocs (m :: ms)) =
      sectionsOf py m ++ (ms.map behind).flatMap (sectionsOf py) := by
  rw [fileSections, if_pos h, splitYamlDocs_joined hms, flatMap_cons]

theorem fileSections_plain (py : YamlPy) (h : isKubernetesContent text = false) :
    ∃ sec, fileSections py text = [sec] ∧ sec.headingPath = [] := by
  rw [fileSections, h]
  exact ⟨_, rfl, rfl⟩

theorem recognised_of_sections_eq (hms : ∀ x ∈ m :: ms, IsManifest x) (hne : ms ≠ [])
    (h : fileSections py (joinDocs (m :: ms)) = (m :: ms).flatMap (fileSections py)) :
    ∀ x ∈ m :: ms, isKubernetesContent x = true := by
  by_contra hnone
  push Not at hnone
  obtain ⟨x, hx, hplain⟩ := hnone
  rw [ne_eq, Bool.not_eq_true] at hplain
  cases hjoin : isKubernetesContent (joinDocs (m :: ms)) with
  | false =>
    -- one section on the left, at least two on the right
    have hall : ∀ y ∈ m :: ms, (fileSections py y).length = 1 := by
      intro y hy
      have hy : isKubernetesContent y = false := by
        by_contra htrue
        rw [Bool.not_eq_false] at htrue
        rw [isKubernetesContent_joinDocs hy htrue] at hjoin
        cases hjoin
      obtain ⟨sec, hsec, -⟩ := fileSections_plain py hy
      rw [hsec]
      rfl
    obtain ⟨sec, hsec, -⟩ := fileSections_plain py hjoin
    have hlength := congrArg List.length h
    obtain ⟨m', ms', rfl⟩ := exists_cons_of_ne_nil hne
    rw [hsec, flatMap_cons, flatMap_cons, length_append, length_append,
      hall m mem_cons_self, hall m' (mem_cons_of_mem _ mem_cons_self)] at hlength
    simp only [length_cons, length_nil] at hlength
    omega
  | true =>
    -- the plain section has no headings
    obtain ⟨sec, hsec, hpath⟩ := fileSections_plain py hplain
    have hmem : sec ∈ (m :: ms).flatMap (fileSections py) :=
      mem_flatMap.2 ⟨x, hx, by rw [hsec]; exact mem_singleton_self _⟩
    rw [← h, fileSections_joined hms hjoin, ← flatMap_cons] at hmem
    obtain ⟨text, -, hmem⟩ := mem_flatMap.1 hmem
    rcases sectionsOf_cases py text with hnone | ⟨sec', hsec', -, hpath'⟩
    · rw [hnone] at hmem
      exact absurd hmem not_mem_nil
    · rw [hsec'] at hmem
      obtain rfl := mem_singleton.1 hmem
      exact hpath' hpath

theorem isolated_cons_iff (hms : ∀ x ∈ m :: ms, IsManifest x)
    (hkind : ∀ x ∈ m :: ms, isKubernetesContent x = true) (hloads : ∀ x ∈ m :: ms, Loads py x) :
    Isolated py (m :: ms) ↔
      ∀ x ∈ ms, behind x = x ∨ Silent py x ∧ Silent py (behind x) := by
  have hjoin : isKubernetesContent (joinDocs (m :: ms)) = true :=
    isKubernetesContent_joinDocs mem_cons_self (hkind m mem_cons_self)
  have hsections : (m :: ms).flatMap (fileSections py) = sectionsOf py m ++
      ms.flatMap (sectionsOf py) := by
    rw [← flatMap_cons]
    exact flatMap_congr fun x hx => fileSections_manifest (hms x hx) (hkind x hx)
  rw [isolated_iff_sections, parseText_isOk_iff, hjoin, splitYamlDocs_joined hms,
    fileSections_joined hms hjoin, hsections, append_cancel_left_eq, forall_mem_cons,
    forall_mem_map]
  constructor
  · rintro ⟨hok, -, heq⟩ x hx
    obtain ⟨-, hbehind⟩ := hok.resolve_left (by simp)
    refine (kept_of_flatMap_eq heq x hx).imp_right fun hnone => ?_
    exact ⟨silent_iff.2 ⟨hloads x (mem_cons_of_mem _ hx), hnone.1⟩,
      silent_iff.2 ⟨hbehind x hx, hnone.2⟩⟩
  · intro h
    refine ⟨.inr ⟨hloads m mem_cons_self, fun x hx => ?_⟩, fun x hx => ?_, ?_⟩
    · rcases h x hx with hself | ⟨-, hsilent⟩
      · rw [hself]
        exact hloads x (mem_cons_of_mem _ hx)
      · exact (silent_iff.1 hsilent).1
    · exact (parseText_manifest_iff (hms x hx)).2 fun _ => hloads x hx
    · rw [flatMap_map]
      refine flatMap_congr fun x hx => ?_
      rcases h x hx with hself | ⟨hsilent, hsilent'⟩
      · rw [hself]
      · rw [(silent_iff.1 hsilent).2, (silent_iff.1 hsilent').2]

def malformedText : String := "kind: Pod\nmetadata: [p]\n"

def malformedResource : Members := [(.str "kind", .str "Pod"), (.str "metadata", .seq [.str "p"])]

/-- A runtime that loads these manifests, also behind blank lines. -/
def manifestYamlPy : YamlPy where
  toParserPy := ParserPy.sample []
  safeLoad text :=
    match [(configMapText.toList, configMapResource), (malformedText.toList,
      malformedResource)].lookup (text.toList.dropWhile isSpace) with
    | some resource => .value (.map resource)
    | none => .yamlError "expected a manifest"
  shown _ := "..."

end Kubernetes

end Omniscience.Parsers
