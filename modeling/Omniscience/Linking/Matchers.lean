import Omniscience.Base.Mapping
import Omniscience.Retrieval.GraphRag

/-!
# The matchers of the entity linker

`omniscience_index/matchers.py` compares two entities of different sources: by their normalised
names, by the ARN, the service, pod or trace they name, by their tags, and by the tokens that the
name of a Terraform resource shares with that of a Kubernetes resource.  A score is a rational
number here.

Every matcher is symmetric (the `_comm` lemmas).  One of them can fail: to compare two lists of
tags, `tags_match` puts the items of each into a set, and an item that is a list or a dictionary
cannot be hashed (`tagsMatch_eq_error_iff`).
-/

namespace Omniscience.Linking

/-- What the interpreter knows about text: its case table, its word characters, and the value that
a finite float of a given text has (`none` for the infinities and for NaN). -/
structure Text where
  /-- `text.lower()`. -/
  lower : String → String
  /-- `\w` of a pattern. -/
  isWord : Char → Bool
  /-- `float(text)`. -/
  floatValue : String → Option ℚ

/-- `EntityNodeView`: what the linker reads of an entity. -/
structure EntityNodeView where
  id : Uuid
  name : String
  kind : String
  source : String
  chunkText : Option String
  displayName : Option String
  metadata : Metadata

variable (py : Py) (text : Text)

/-! ### Names -/

/-- `_STRIP_PREFIXES`. -/
def stripPrefixes : List String :=
  ["aws_", "azurerm_", "azure_", "google_", "gcp_", "gke_", "k8s_", "tf_", "var_", "data_"]

/-- `_K8S_SUFFIXES`. -/
def k8sSuffixes : List String :=
  ["deployment", "service", "configmap", "secret", "pod", "replicaset", "statefulset"]

/-- One round of the loop of `normalize_entity_name`; `none` when no known prefix is left. -/
def stripOne (name : List Char) : Option (List Char) :=
  (stripPrefixes.find? fun p => p.toList.isPrefixOf name).map fun p => name.drop p.toList.length

/-- The loop of `normalize_entity_name`.  A round that goes on shortens the name. -/
def stripAll : ℕ → List Char → List Char
  | 0, name => name
  | fuel + 1, name =>
    match stripOne name with
    | some rest => stripAll fuel rest
    | none => name

/-- A character of `_RE_SEPARATORS`. -/
def isSeparator (c : Char) : Bool := ['-', '.', '/', ':', ' '].contains c

/-- `_RE_SEPARATORS.sub("_", name)`: a run of separators becomes one underscore.  The flag says
that the character before was a separator. -/
def subSeparators : Bool → List Char → List Char
  | _, [] => []
  | inRun, c :: cs =>
    if isSeparator c then
      if inRun then subSeparators true cs else '_' :: subSeparators true cs
    else c :: subSeparators false cs

/-- `normalize_entity_name`. -/
def normalizeEntityName (name : String) : String :=
  let lowered := (text.lower name).toList
  let result := subSeparators false (stripAll lowered.length lowered)
  String.ofList ((result.dropWhile (· == '_')).rdropWhile (· == '_'))

/-- `exact_name_match`. -/
def exactNameMatch (nameA nameB : String) : ℚ :=
  if nameA = "" ∨ nameB = "" then 0
  else if normalizeEntityName text nameA = normalizeEntityName text nameB then 1 else 0

/-- `_meaningful_tokens`. -/
def meaningfulTokens (normalised : String) : Finset String :=
  (((normalised.toList.splitOn '_').map String.ofList).filter fun t =>
    1 < t.length ∧ t ∉ k8sSuffixes).toFinset

/-- `resource_name_match`. -/
def resourceNameMatch (tfResource k8sResource : String) : ℚ :=
  if tfResource = "" ∨ k8sResource = "" then 0
  else
    let normA := normalizeEntityName text tfResource
    let normB := normalizeEntityName text k8sResource
    if normA = normB then 1
    else
      let tokensA := meaningfulTokens normA
      let tokensB := meaningfulTokens normB
      if tokensA = ∅ ∧ tokensB = ∅ then 0
      else 2 * (tokensA ∩ tokensB).card / (tokensA.card + tokensB.card)

/-! ### Metadata -/

/-- `a or b`. -/
def orElse (a b : Json) : Json := if a.truthy then a else b

/-- `str(value).strip().lower()`. -/
def folded (v : Json) : String := text.lower (GraphRag.strip (py.str v))

/-- `a and b and str(a).strip().lower() == str(b).strip().lower()`. -/
def sameFolded (a b : Json) : Bool := a.truthy && b.truthy && folded py text a == folded py text b

/-- `meta.get("arn") or meta.get("ARN")`. -/
def arnOf (e : EntityNodeView) : Json :=
  orElse (Mapping.get e.metadata "arn") (Mapping.get e.metadata "ARN")

/-- `arn_match`. -/
def arnMatch (entA entB : EntityNodeView) : ℚ :=
  if sameFolded py text (arnOf entA) (arnOf entB) then 1 else 0

/-- `meta.get(key) or (ent.name if ent.kind == kind else None)`. -/
def otelName (key kind : String) (e : EntityNodeView) : Json :=
  orElse (Mapping.get e.metadata key) (if e.kind = kind then .str e.name else .null)

/-- `otel_match`. -/
def otelMatch (entA entB : EntityNodeView) : ℚ :=
  let svc := otelName "service_name" "otel_service"
  let pod := otelName "pod_name" "otel_pod"
  let trace (e : EntityNodeView) := Mapping.get e.metadata "trace_id"
  if sameFolded py text (svc entA) (svc entB) then 1
  else if sameFolded py text (pod entA) (pod entB) then 1
  else if sameFolded py text (trace entA) (trace entB) then 1
  else 0

/-! ### Tags -/

/-- A value that has a hash. -/
def isHashable : Json → Bool
  | .arr _ | .obj _ => false
  | _ => true

/-- The number a value is equal to: `True` is one and `False` is zero. -/
def numberOf : Json → Option ℚ
  | .bool b => some (if b then 1 else 0)
  | .int n => some n
  | .float s => text.floatValue s
  | _ => none

/-- `a == b` of two hashable values that were decoded apart.  NaN is equal to nothing. -/
def hashableEq (a b : Json) : Bool :=
  match numberOf text a, numberOf text b with
  | some m, some n => m = n
  | none, none =>
    match a, b with
    | .null, .null => true
    | .str s, .str t => s = t
    | .float s, .float t => s = t ∧ s ≠ "nan"
    | _, _ => false
  | _, _ => false

/-- `set(items)`: the items, unless one of them has no hash. -/
def setOf (items : List Json) : Except Exc (List Json) :=
  match items.find? fun v => !isHashable v with
  | some v => .error ⟨.typeError, "unhashable type: '" ++ v.typeName ++ "'"⟩
  | none => .ok items

/-- `a == b` of two sets. -/
def setEq (a b : List Json) : Bool :=
  (a.all fun v => b.any (hashableEq text v)) && b.all fun v => a.any (hashableEq text v)

/-- `meta.get("tags") or meta.get("labels")`. -/
def tagsOf (e : EntityNodeView) : Json :=
  orElse (Mapping.get e.metadata "tags") (Mapping.get e.metadata "labels")

/-- The keys that two dictionaries share. -/
def commonKeys (a b : Metadata) : List String :=
  (a.map Prod.fst).filter fun k => b.any fun member => member.1 == k

/-- Two dictionaries share a key, and agree at every key they share. -/
def tagsAgree (a b : Metadata) : Bool :=
  !(commonKeys a b).isEmpty && (commonKeys a b).all fun k =>
    folded py text (Mapping.get a k) == folded py text (Mapping.get b k)

/-- `tags_match`. -/
def tagsMatch (entA entB : EntityNodeView) : Except Exc ℚ :=
  match tagsOf entA, tagsOf entB with
  | .obj tagsA, .obj tagsB =>
    .ok (if tagsAgree py text tagsA tagsB then 1 else 0)
  | .arr tagsA, .arr tagsB =>
    if tagsA.isEmpty || tagsB.isEmpty then .ok 0
    else do
      let setA ← setOf tagsA
      let setB ← setOf tagsB
      return if setEq text setA setB then 1 else 0
  | _, _ => .ok 0

/-! ### The prefix loop ends -/

theorem length_stripOne {name rest : List Char} (h : stripOne name = some rest) :
    rest.length < name.length := by
  obtain ⟨p, hp, rfl⟩ := Option.map_eq_some_iff.1 h
  have hmem : p ∈ stripPrefixes := List.mem_of_find?_eq_some hp
  have hprefix : p.toList <+: name := by simpa using List.find?_some hp
  have hpos : 0 < p.toList.length := by
    have : ∀ q ∈ stripPrefixes, 0 < q.toList.length := by decide
    exact this p hmem
  have hle := hprefix.length_le
  simp only [List.length_drop]
  omega

theorem stripOne_stripAll {fuel : ℕ} {name : List Char} (h : name.length ≤ fuel) :
    stripOne (stripAll fuel name) = none := by
  induction fuel generalizing name with
  | zero =>
    obtain rfl : name = [] := List.length_eq_zero_iff.1 (Nat.le_zero.1 h)
    decide
  | succ fuel ih =>
    rw [stripAll]
    split
    · next rest hrest =>
      have := length_stripOne hrest
      exact ih (by omega)
    · next hnone => exact hnone

/-! ### Symmetry -/

theorem exactNameMatch_comm (nameA nameB : String) :
    exactNameMatch text nameA nameB = exactNameMatch text nameB nameA := by
  simp only [exactNameMatch, or_comm (a := nameA = ""), eq_comm (a := normalizeEntityName text nameA)]

theorem resourceNameMatch_comm (tfResource k8sResource : String) :
    resourceNameMatch text tfResource k8sResource =
      resourceNameMatch text k8sResource tfResource := by
  simp only [resourceNameMatch, or_comm (a := tfResource = ""),
    eq_comm (a := normalizeEntityName text tfResource),
    and_comm (a := meaningfulTokens (normalizeEntityName text tfResource) = ∅),
    Finset.inter_comm (meaningfulTokens (normalizeEntityName text tfResource)),
    add_comm ((meaningfulTokens (normalizeEntityName text tfResource)).card : ℚ)]

theorem sameFolded_comm (a b : Json) : sameFolded py text a b = sameFolded py text b a := by
  rw [sameFolded, sameFolded, Bool.and_comm a.truthy, BEq.comm]

variable (entA entB : EntityNodeView)

theorem arnMatch_comm : arnMatch py text entA entB = arnMatch py text entB entA := by
  rw [arnMatch, arnMatch, sameFolded_comm]

theorem otelMatch_comm : otelMatch py text entA entB = otelMatch py text entB entA := by
  simp only [otelMatch, sameFolded_comm py text _ (otelName _ _ entB),
    sameFolded_comm py text _ (Mapping.get entB.metadata _)]

theorem setEq_comm (a b : List Json) : setEq text a b = setEq text b a := by
  rw [setEq, setEq, Bool.and_comm]

theorem setOf_of_hashable {items : List Json} (h : ∀ v ∈ items, isHashable v = true) :
    setOf items = .ok items := by
  have : items.find? (fun v => !isHashable v) = none := by simpa using h
  rw [setOf, this]

theorem setOf_eq_ok_iff {items set : List Json} :
    setOf items = .ok set ↔ set = items ∧ ∀ v ∈ items, isHashable v = true := by
  constructor
  · intro h
    by_cases hall : ∀ v ∈ items, isHashable v = true
    · rw [setOf_of_hashable hall] at h
      cases h
      exact ⟨rfl, hall⟩
    · obtain ⟨v, hv⟩ : ∃ v, items.find? (fun v => !isHashable v) = some v := by
        rw [← Option.isSome_iff_exists]
        simpa using hall
      rw [setOf, hv] at h
      cases h
  · rintro ⟨rfl, h⟩
    exact setOf_of_hashable h

theorem mem_commonKeys {a b : Metadata} {k : String} :
    k ∈ commonKeys a b ↔ k ∈ a.map Prod.fst ∧ k ∈ b.map Prod.fst := by
  simp [commonKeys]

/-- `tags_match` has to put lists of tags into sets, and an item of one of them has no hash. -/
def HasUnhashableTags (entA entB : EntityNodeView) : Prop :=
  ∃ tagsA tagsB, tagsOf entA = .arr tagsA ∧ tagsOf entB = .arr tagsB ∧ tagsA ≠ [] ∧ tagsB ≠ [] ∧
    ∃ v, (v ∈ tagsA ∨ v ∈ tagsB) ∧ isHashable v = false

variable {entA entB}

theorem tagsAgree_comm (a b : Metadata) : tagsAgree py text a b = tagsAgree py text b a := by
  have hmem (k : String) : k ∈ commonKeys a b ↔ k ∈ commonKeys b a := by
    rw [mem_commonKeys, mem_commonKeys, and_comm]
  have hempty : commonKeys a b = [] ↔ commonKeys b a = [] := by
    simp only [List.eq_nil_iff_forall_not_mem, hmem]
  rw [tagsAgree, tagsAgree, Bool.eq_iff_iff]
  simp only [Bool.and_eq_true, Bool.not_eq_true', List.isEmpty_eq_false_iff, List.all_eq_true,
    beq_iff_eq, ne_eq, hempty, hmem]
  exact and_congr_right fun _ => forall₂_congr fun _ _ => eq_comm

theorem tagsMatch_symm {score : ℚ} (h : tagsMatch py text entA entB = .ok score) :
    tagsMatch py text entB entA = .ok score := by
  unfold tagsMatch at h ⊢
  cases hA : tagsOf entA <;> cases hB : tagsOf entB <;> rw [hA, hB] at h <;> try exact h
  case obj.obj tagsA tagsB =>
    dsimp only at h ⊢
    rw [tagsAgree_comm, h]
  case arr.arr tagsA tagsB =>
    dsimp only at h ⊢
    by_cases hempty : (tagsA.isEmpty || tagsB.isEmpty) = true
    · rw [if_pos hempty] at h
      rw [if_pos (by rwa [Bool.or_comm]), h]
    · rw [if_neg hempty] at h
      obtain ⟨setA, hsetA, h⟩ := bind_eq_ok_iff.1 h
      obtain ⟨setB, hsetB, h⟩ := bind_eq_ok_iff.1 h
      rw [if_neg (by rwa [Bool.or_comm]), hsetB, ok_bind, hsetA, ok_bind, setEq_comm, h]

theorem tagsMatch_returns_iff :
    (∃ score, tagsMatch py text entA entB = .ok score) ↔ ¬ HasUnhashableTags entA entB := by
  constructor
  · rintro ⟨score, h⟩ ⟨tagsA, tagsB, hA, hB, hneA, hneB, v, hv, hhash⟩
    unfold tagsMatch at h
    rw [hA, hB] at h
    dsimp only at h
    rw [if_neg (by simp [hneA, hneB])] at h
    obtain ⟨setA, hsetA, h⟩ := bind_eq_ok_iff.1 h
    obtain ⟨setB, hsetB, -⟩ := bind_eq_ok_iff.1 h
    rcases hv with hv | hv
    · simp [(setOf_eq_ok_iff.1 hsetA).2 v hv] at hhash
    · simp [(setOf_eq_ok_iff.1 hsetB).2 v hv] at hhash
  · intro h
    unfold tagsMatch
    cases hA : tagsOf entA <;> cases hB : tagsOf entB <;> try exact ⟨_, rfl⟩
    case arr.arr tagsA tagsB =>
      dsimp only
      by_cases hempty : (tagsA.isEmpty || tagsB.isEmpty) = true
      · exact ⟨0, if_pos hempty⟩
      · have hne : tagsA ≠ [] ∧ tagsB ≠ [] := by simpa using hempty
        have hhash : ∀ v, v ∈ tagsA ∨ v ∈ tagsB → isHashable v = true := by
          intro v hv
          by_contra hno
          exact h ⟨tagsA, tagsB, hA, hB, hne.1, hne.2, v, hv, by simpa using hno⟩
        rw [if_neg hempty, setOf_of_hashable fun v hv => hhash v (.inl hv), ok_bind,
          setOf_of_hashable fun v hv => hhash v (.inr hv), ok_bind]
        exact ⟨_, rfl⟩

end Omniscience.Linking
