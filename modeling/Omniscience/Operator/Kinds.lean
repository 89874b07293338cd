import Omniscience.Operator.Listing
import Omniscience.Operator.Mappers

/-!
# The kinds of the reconciler

`operator/internal/reconciler/kinds.go` has a handler for each kind: it lists the resources of the
cluster under their external ids, and it turns an external id back into the event of a deletion.
The formats of the ids are written out a second time there, beside those of the mappers.

`Kind` has what the handlers of the source differ in; `listInCluster`, `emitDeleted` and the
`reconcile` of the watchers are written once for all of them.

* `Kind.Lawful` : the mapper of a kind gives its resources the id under which they are listed.
* `namesAlike_iff` : listing, watching and parsing agree on every resource, and the event of a
  deletion has the id it was asked for unless that id is the one of another cluster.
-/

namespace Omniscience.Operator

open List

/-! ### Formats -/

/-- `namespacedExternalID`. -/
def namespacedExternalID (clusterID : Uuid) (kind ns name : String) : String :=
  let ns := if ns = "" then "default" else ns
  entityKindPrefix ++ "/" ++ clusterID.str ++ "/" ++ kind ++ "/" ++ ns ++ "/" ++ name

/-- `clusterScopedExternalID`. -/
def clusterScopedExternalID (clusterID : Uuid) (kind name : String) : String :=
  entityKindPrefix ++ "/" ++ clusterID.str ++ "/" ++ kind ++ "/" ++ name

/-- `strings.Split(text, "/")`. -/
def split (text : String) : List String := (text.toList.splitOn '/').map String.ofList

/-- `parseNamespacedExternalID`. -/
def parseNamespacedExternalID (externalID expectedKind : String) :
    Except Exc (String × String) :=
  match split externalID with
  | [pre, _, kind, ns, name] =>
    if pre ≠ entityKindPrefix then
      .error ⟨.valueError, "reconciler: external_id has unexpected prefix " ++ pre⟩
    else if kind ≠ expectedKind then
      .error ⟨.valueError, "reconciler: external_id kind " ++ kind ++
        " does not match expected " ++ expectedKind⟩
    else if ns = "" ∨ name = "" then
      .error ⟨.valueError, "reconciler: external_id missing namespace or name: " ++ externalID⟩
    else .ok (ns, name)
  | _ => .error ⟨.valueError, "reconciler: malformed namespaced external_id " ++ externalID⟩

/-- `parseClusterScopedExternalID`. -/
def parseClusterScopedExternalID (externalID expectedKind : String) : Except Exc String :=
  match split externalID with
  | [pre, _, kind, name] =>
    if pre ≠ entityKindPrefix then
      .error ⟨.valueError, "reconciler: external_id has unexpected prefix " ++ pre⟩
    else if kind ≠ expectedKind then
      .error ⟨.valueError, "reconciler: external_id kind " ++ kind ++
        " does not match expected " ++ expectedKind⟩
    else if name = "" then
      .error ⟨.valueError, "reconciler: external_id missing name: " ++ externalID⟩
    else .ok name
  | _ => .error ⟨.valueError, "reconciler: malformed cluster-scoped external_id " ++ externalID⟩

/-! ### Handlers -/

/-- Whether the resources of a kind live in a namespace. -/
inductive Scope where
  | namespaced
  | clusterScoped
  deriving DecidableEq

/-- What a kind is made of: its resources, a resource with nothing but a namespace and a name, and
its mapper. -/
structure Kind (go : Go) where
  Obj : Type
  name : String
  scope : Scope
  objectMeta : Obj → ObjectMeta
  stub : ObjectMeta → Obj
  toEvent : Obj → Stamp go → Event go

/-- `EventBuilder`: an event on demand; its arguments are the workspace, the cluster with its name,
and the time. -/
abbrev EventBuilder (go : Go) := Uuid → Uuid → String → go.Time → Event go

/-- `KindHandler` over the resources that the client lists. -/
structure KindHandler (go : Go) (Obj : Type) where
  name : String
  listInCluster : List Obj → Uuid → Dict String (EventBuilder go)
  emitDeleted : String → Uuid → Uuid → String → go.Time → Except Exc (Event go)

variable {go : Go}

namespace Kind

variable (K : Kind go)

/-- The id under which a resource is listed. -/
def listedAs (clusterID : Uuid) (obj : K.Obj) : String :=
  match K.scope with
  | .namespaced =>
    namespacedExternalID clusterID K.name (K.objectMeta obj).ns (K.objectMeta obj).name
  | .clusterScoped => clusterScopedExternalID clusterID K.name (K.objectMeta obj).name

/-- The event of a resource that is in the cluster. -/
def created (obj : K.Obj) : EventBuilder go := fun workspaceID clusterID clusterName now =>
  K.toEvent obj ⟨actionCreated, workspaceID, clusterID, clusterName, now⟩

/-- `ListInCluster`. -/
def listInCluster (items : List K.Obj) (clusterID : Uuid) : Dict String (EventBuilder go) :=
  .ofList (items.map fun obj => (K.listedAs clusterID obj, K.created obj))

/-- The parser of the ids of the kind, with an empty namespace for a cluster-scoped kind. -/
def parse (externalID : String) : Except Exc (String × String) :=
  match K.scope with
  | .namespaced => parseNamespacedExternalID externalID K.name
  | .clusterScoped => (parseClusterScopedExternalID externalID K.name).map fun name => ("", name)

/-- `namespacedDeleter` and `clusterScopedDeleter`. -/
def emitDeleted (externalID : String) (workspaceID clusterID : Uuid) (clusterName : String)
    (now : go.Time) : Except Exc (Event go) := do
  let (ns, name) ← K.parse externalID
  return K.toEvent (K.stub { ns, name })
    ⟨actionDeleted, workspaceID, clusterID, clusterName, now⟩

/-- The handler of the kind. -/
def handler : KindHandler go K.Obj := ⟨K.name, K.listInCluster, K.emitDeleted⟩

end Kind

/-- `newPodHandler`. -/
def podKind : Kind go :=
  ⟨Pod, "Pod", .namespaced, (·.objectMeta), ({ objectMeta := · }), podToEvent⟩

/-- A workload kind. -/
def workloadKind (name : String) (toEvent : Workload → Stamp go → Event go) : Kind go :=
  ⟨Workload, name, .namespaced, (·.objectMeta), ({ objectMeta := · }), toEvent⟩

/-- `newDeploymentHandler`. -/
def deploymentKind : Kind go := workloadKind "Deployment" deploymentToEvent

/-- `newReplicaSetHandler`. -/
def replicaSetKind : Kind go := workloadKind "ReplicaSet" replicaSetToEvent

/-- `newStatefulSetHandler`. -/
def statefulSetKind : Kind go := workloadKind "StatefulSet" statefulSetToEvent

/-- `newDaemonSetHandler`. -/
def daemonSetKind : Kind go := workloadKind "DaemonSet" daemonSetToEvent

/-- `newJobHandler`. -/
def jobKind : Kind go := workloadKind "Job" jobToEvent

/-- `newServiceHandler`. -/
def serviceKind : Kind go :=
  ⟨Service, "Service", .namespaced, (·.objectMeta), ({ objectMeta := · }), serviceToEvent⟩

/-- `newEndpointsHandler`. -/
def endpointsKind : Kind go :=
  ⟨Endpoints, "Endpoints", .namespaced, (·.objectMeta), ({ objectMeta := · }), endpointsToEvent⟩

/-- `newIngressHandler`. -/
def ingressKind : Kind go :=
  ⟨Ingress, "Ingress", .namespaced, (·.objectMeta), ({ objectMeta := · }), ingressToEvent⟩

/-- `newNetworkPolicyHandler`. -/
def networkPolicyKind : Kind go :=
  ⟨NetworkPolicy, "NetworkPolicy", .namespaced, (·.objectMeta), ({ objectMeta := · }),
    networkPolicyToEvent⟩

/-- `newConfigMapHandler`. -/
def configMapKind : Kind go :=
  ⟨ConfigMap, "ConfigMap", .namespaced, (·.objectMeta), ({ objectMeta := · }), configMapToEvent⟩

/-- `newSecretHandler`. -/
def secretKind : Kind go :=
  ⟨Secret, "Secret", .namespaced, (·.objectMeta), ({ objectMeta := · }), secretToEvent⟩

/-- `newNodeHandler`. -/
def nodeKind : Kind go :=
  ⟨Node, "Node", .clusterScoped, (·.objectMeta), ({ objectMeta := · }), nodeToEvent⟩

/-- `newNamespaceHandler`. -/
def namespaceKind : Kind go :=
  ⟨Namespace, "Namespace", .clusterScoped, (·.objectMeta), ({ objectMeta := · }),
    namespaceToEvent⟩

/-- `newPersistentVolumeHandler`. -/
def persistentVolumeKind : Kind go :=
  ⟨PersistentVolume, "PersistentVolume", .clusterScoped, (·.objectMeta), ({ objectMeta := · }),
    persistentVolumeToEvent⟩

/-- `newStorageClassHandler`. -/
def storageClassKind : Kind go :=
  ⟨StorageClass, "StorageClass", .clusterScoped, (·.objectMeta), ({ objectMeta := · }),
    storageClassToEvent⟩

/-- `kindRegistry`. -/
def kindRegistry (go : Go) : List (Kind go) :=
  [podKind, deploymentKind, replicaSetKind, statefulSetKind, daemonSetKind, jobKind, serviceKind,
    endpointsKind, ingressKind, networkPolicyKind, configMapKind, secretKind, nodeKind,
    namespaceKind, persistentVolumeKind, storageClassKind]

/-! ### Watching -/

/-- The answer of the API server to `Get`. -/
inductive GetAnswer (Obj : Type) where
  | found (obj : Obj)
  | notFound
  | failed (text : String)

/-- The `Reconcile` of the watcher of a kind: the event that it publishes for a request. -/
def Kind.reconcile (K : Kind go) (workspaceID clusterID : Uuid) (clusterName : String)
    (now : go.Time) (ns name : String) : GetAnswer K.Obj → Except Exc (Event go)
  | .found obj => .ok (K.toEvent obj ⟨actionUpdated, workspaceID, clusterID, clusterName, now⟩)
  | .notFound => .ok (K.toEvent (K.stub { ns, name })
      ⟨actionDeleted, workspaceID, clusterID, clusterName, now⟩)
  | .failed text => .error ⟨.external, text⟩

/-! ### The law of a kind -/

/-- The mapper gives every resource the id under which it is listed, a stub is what it was made of,
and the name of the kind is a segment. -/
structure Kind.Lawful (K : Kind go) : Prop where
  externalID : ∀ obj s, (K.toEvent obj s).externalID = K.listedAs s.clusterID obj
  stub : ∀ m, K.objectMeta (K.stub m) = m
  name : '/' ∉ K.name.toList

/-- The names of the kinds of the registry. -/
def kindNames : List String :=
  ["Pod", "Deployment", "ReplicaSet", "StatefulSet", "DaemonSet", "Job", "Service", "Endpoints",
    "Ingress", "NetworkPolicy", "ConfigMap", "Secret", "Node", "Namespace", "PersistentVolume",
    "StorageClass"]

theorem name_mem_kindNames {K : Kind go} (h : K ∈ kindRegistry go) : K.name ∈ kindNames :=
  mem_map.2 ⟨K, h, rfl⟩

/-- **Every kind of the registry is lawful**: the two copies of the formats agree. -/
theorem lawful_of_mem_kindRegistry {K : Kind go} (h : K ∈ kindRegistry go) : K.Lawful := by
  have hnames : ∀ name ∈ kindNames, '/' ∉ name.toList := by decide
  have hname := hnames _ (name_mem_kindNames h)
  simp only [kindRegistry, mem_cons, not_mem_nil, or_false] at h
  rcases h with rfl | rfl | rfl | rfl | rfl | rfl | rfl | rfl | rfl | rfl | rfl | rfl | rfl | rfl |
    rfl | rfl
  all_goals exact ⟨fun _ _ => rfl, fun _ => rfl, hname⟩

/-! ### Splitting ids -/

theorem split_intercalate {parts : List String} (hne : parts ≠ [])
    (h : ∀ part ∈ parts, '/' ∉ part.toList) : split ("/".intercalate parts) = parts := by
  have hslash : ∀ l ∈ parts.map String.toList, '/' ∉ l := by
    intro l hl
    obtain ⟨part, hpart, rfl⟩ := mem_map.1 hl
    exact h part hpart
  have hsplit := splitOn_intercalate '/' hslash (by simpa using hne)
  rw [split, String.toList_intercalate, show ("/" : String).toList = ['/'] from rfl, hsplit,
    map_map]
  simp [Function.comp_def, String.ofList_toList]

theorem intercalate_split (text : String) : "/".intercalate (split text) = text := by
  refine String.toList_inj.1 ?_
  rw [String.toList_intercalate, split, map_map]
  simp only [Function.comp_def, String.toList_ofList, map_id']
  exact intercalate_splitOn '/'

theorem namespacedExternalID_eq (clusterID : Uuid) (kind ns name : String) :
    namespacedExternalID clusterID kind ns name = "/".intercalate
      [entityKindPrefix, clusterID.str, kind, if ns = "" then "default" else ns, name] := by
  refine String.toList_inj.1 ?_
  rw [String.toList_intercalate]
  simp [namespacedExternalID, List.intercalate]

theorem clusterScopedExternalID_eq (clusterID : Uuid) (kind name : String) :
    clusterScopedExternalID clusterID kind name =
      "/".intercalate [entityKindPrefix, clusterID.str, kind, name] := by
  refine String.toList_inj.1 ?_
  rw [String.toList_intercalate]
  simp [clusterScopedExternalID, List.intercalate]

theorem slash_not_mem_str (u : Uuid) : '/' ∉ u.str.toList := by
  have hdigits : ∀ d < 16, '/' ≠ Nat.digitChar d := by decide
  intro h
  rcases Uuid.mem_toList_str h with h | ⟨d, hd, h⟩
  · exact absurd h (by decide)
  · exact hdigits d hd h

theorem intercalate_second_inj {first second second' : String} {rest : List String} :
    "/".intercalate (first :: second :: rest) = "/".intercalate (first :: second' :: rest) ↔
      second = second' := by
  refine ⟨fun h => ?_, fun h => h ▸ rfl⟩
  have hlist := congrArg String.toList h
  simp only [String.toList_intercalate, map_cons] at hlist
  refine String.toList_inj.1 ?_
  cases rest with
  | nil => simpa [List.intercalate] using hlist
  | cons third rest => simpa [List.intercalate] using hlist

theorem parseNamespacedExternalID_eq_ok {externalID kind ns name : String} :
    parseNamespacedExternalID externalID kind = .ok (ns, name) ↔
      (∃ cluster, split externalID = [entityKindPrefix, cluster, kind, ns, name]) ∧ ns ≠ "" ∧
        name ≠ "" := by
  unfold parseNamespacedExternalID
  split
  · rename_i pre cluster kind' ns' name' hsplit
    rw [hsplit]
    split_ifs with h₁ h₂ h₃
    · simp [h₁]
    · simp [h₂]
    · simp only [List.cons.injEq, and_true, exists_and_left, exists_and_right, exists_eq',
        true_and, false_iff]
      grind
    · simp only [Except.ok.injEq, Prod.mk.injEq, List.cons.injEq, and_true]
      grind
  · rename_i hsplit
    simp only [reduceCtorEq, false_iff]
    rintro ⟨⟨cluster, h⟩, -⟩
    exact hsplit _ _ _ _ _ h

theorem parseClusterScopedExternalID_eq_ok {externalID kind name : String} :
    parseClusterScopedExternalID externalID kind = .ok name ↔
      (∃ cluster, split externalID = [entityKindPrefix, cluster, kind, name]) ∧ name ≠ "" := by
  unfold parseClusterScopedExternalID
  split
  · rename_i pre cluster kind' name' hsplit
    rw [hsplit]
    split_ifs with h₁ h₂ h₃
    · simp [h₁]
    · simp [h₂]
    · simp only [false_iff, List.cons.injEq, and_true]
      grind
    · simp only [Except.ok.injEq, List.cons.injEq, and_true]
      grind
  · rename_i hsplit
    simp only [reduceCtorEq, false_iff]
    rintro ⟨⟨cluster, h⟩, -⟩
    exact hsplit _ _ _ _ h

/-! ### One name for a resource -/

namespace Kind

variable {K : Kind go}

/-- The name of a resource, and its namespace if it has one, is not empty and has no slash. -/
def WellNamed (K : Kind go) (obj : K.Obj) : Prop :=
  (K.objectMeta obj).name ≠ "" ∧ '/' ∉ (K.objectMeta obj).name.toList ∧
    (K.scope = .namespaced → (K.objectMeta obj).ns ≠ "" ∧ '/' ∉ (K.objectMeta obj).ns.toList)

/-- The namespace that an id of the kind tells. -/
def namespaceOf (K : Kind go) (obj : K.Obj) : String :=
  match K.scope with
  | .namespaced => (K.objectMeta obj).ns
  | .clusterScoped => ""

theorem get?_listInCluster {items : List K.Obj} {obj : K.Obj} (hobj : obj ∈ items)
    (clusterID : Uuid) :
    ∃ other, K.listedAs clusterID other = K.listedAs clusterID obj ∧
      (K.listInCluster items clusterID).get? (K.listedAs clusterID obj) =
        some (K.created other) := by
  rw [listInCluster, Dict.get?_ofList, filter_map, List.getLast?_map]
  set found := items.filter
    ((fun p : String × EventBuilder go => decide (p.1 = K.listedAs clusterID obj)) ∘
      fun other => (K.listedAs clusterID other, K.created other)) with hfound
  have hmem : obj ∈ found := mem_filter.2 ⟨hobj, by simp⟩
  cases hlast : found.getLast? with
  | none => exact absurd (List.getLast?_eq_none_iff.1 hlast) (ne_nil_of_mem hmem)
  | some other =>
    have hother := (mem_filter.1 (List.mem_of_getLast? hlast)).2
    exact ⟨other, of_decide_eq_true hother, rfl⟩

theorem parse_listedAs (hK : K.Lawful) {obj : K.Obj} (h : K.WellNamed obj) (clusterID : Uuid) :
    K.parse (K.listedAs clusterID obj) = .ok (K.namespaceOf obj, (K.objectMeta obj).name) := by
  obtain ⟨hname, hslash, hns⟩ := h
  unfold parse listedAs namespaceOf
  have hpre : '/' ∉ entityKindPrefix.toList := by decide
  cases hscope : K.scope with
  | namespaced =>
    obtain ⟨hne, hnsSlash⟩ := hns hscope
    simp only
    rw [parseNamespacedExternalID_eq_ok, namespacedExternalID_eq, if_neg hne]
    refine ⟨⟨clusterID.str, split_intercalate (by simp) ?_⟩, hne, hname⟩
    simp [hpre, slash_not_mem_str, hK.name, hnsSlash, hslash]
  | clusterScoped =>
    have hparse : parseClusterScopedExternalID
        (clusterScopedExternalID clusterID K.name (K.objectMeta obj).name) K.name =
          .ok (K.objectMeta obj).name := by
      rw [parseClusterScopedExternalID_eq_ok, clusterScopedExternalID_eq]
      refine ⟨⟨clusterID.str, split_intercalate (by simp) ?_⟩, hname⟩
      simp [hpre, slash_not_mem_str, hK.name, hslash]
    simp only [hparse]
    rfl

theorem exists_of_parse {text ns name : String} (h : K.parse text = .ok (ns, name)) :
    ∃ cluster, (split text)[1]? = some cluster ∧
      ∀ clusterID : Uuid, ∀ obj : K.Obj, (K.objectMeta obj).ns = ns →
        (K.objectMeta obj).name = name →
          (K.listedAs clusterID obj = text ↔ cluster = clusterID.str) := by
  unfold parse at h
  unfold listedAs
  cases hscope : K.scope with
  | namespaced =>
    simp only [hscope] at h
    obtain ⟨⟨cluster, hsplit⟩, hne, -⟩ := parseNamespacedExternalID_eq_ok.1 h
    refine ⟨cluster, by rw [hsplit]; rfl, fun clusterID obj hns hname => ?_⟩
    simp only [hns, hname]
    rw [namespacedExternalID_eq, if_neg hne, ← intercalate_split text, hsplit,
      intercalate_second_inj, eq_comm]
  | clusterScoped =>
    simp only [hscope] at h
    cases hparse : parseClusterScopedExternalID text K.name with
    | error e =>
      rw [hparse] at h
      cases h
    | ok name' =>
      rw [hparse] at h
      cases h
      obtain ⟨⟨cluster, hsplit⟩, -⟩ := parseClusterScopedExternalID_eq_ok.1 hparse
      refine ⟨cluster, by rw [hsplit]; rfl, fun clusterID obj hns hname => ?_⟩
      simp only [hname]
      rw [clusterScopedExternalID_eq, ← intercalate_split text, hsplit, intercalate_second_inj,
        eq_comm]

theorem exists_emitDeleted {text : String} {parsed : String × String}
    (h : K.parse text = .ok parsed) (workspaceID clusterID : Uuid) (clusterName : String)
    (now : go.Time) : ∃ ev, K.emitDeleted text workspaceID clusterID clusterName now = .ok ev := by
  rw [emitDeleted, h]
  exact ⟨_, rfl⟩

theorem externalID_of_emitDeleted (hK : K.Lawful) {text clusterName : String}
    {workspaceID clusterID : Uuid} {now : go.Time} {ev : Event go}
    (h : K.emitDeleted text workspaceID clusterID clusterName now = .ok ev) :
    ev.externalID = text ↔ (split text)[1]? = some clusterID.str := by
  obtain ⟨⟨ns, name⟩, hparse, hev⟩ := bind_eq_ok_iff.1 h
  obtain ⟨cluster, hsecond, hid⟩ := exists_of_parse hparse
  cases hev
  rw [hK.externalID, hsecond, Option.some.injEq]
  exact hid clusterID _ (by rw [hK.stub]) (by rw [hK.stub])

end Kind

/-- Listing, watching and parsing agree on the name of every resource of the kind, and the event of
a deletion that is emitted for an id has that id. -/
def NamesAlike (K : Kind go) (workspaceID clusterID : Uuid) (clusterName text : String) : Prop :=
  (∀ items : List K.Obj, ∀ obj ∈ items, K.WellNamed obj → ∀ now,
    (∃ build, (K.listInCluster items clusterID).get? (K.listedAs clusterID obj) = some build ∧
      (build workspaceID clusterID clusterName now).externalID = K.listedAs clusterID obj) ∧
    (∃ ev, K.reconcile workspaceID clusterID clusterName now (K.objectMeta obj).ns
        (K.objectMeta obj).name (.found obj) = .ok ev ∧
      ev.externalID = K.listedAs clusterID obj) ∧
    K.parse (K.listedAs clusterID obj) =
      .ok (K.namespaceOf obj, (K.objectMeta obj).name)) ∧
  ∀ now ev, K.emitDeleted text workspaceID clusterID clusterName now = .ok ev →
    ev.externalID = text

/-- **When the reconciler and the watchers name resources alike.** -/
theorem namesAlike_iff {K : Kind go} (h : K ∈ kindRegistry go) (workspaceID clusterID : Uuid)
    (clusterName text : String) (now : go.Time) :
    NamesAlike K workspaceID clusterID clusterName text ↔
      (∃ e, K.parse text = .error e) ∨ (split text)[1]? = some clusterID.str := by
  have hK := lawful_of_mem_kindRegistry h
  have hlisted : ∀ items : List K.Obj, ∀ obj ∈ items, K.WellNamed obj → ∀ now,
      (∃ build, (K.listInCluster items clusterID).get? (K.listedAs clusterID obj) = some build ∧
        (build workspaceID clusterID clusterName now).externalID = K.listedAs clusterID obj) ∧
      (∃ ev, K.reconcile workspaceID clusterID clusterName now (K.objectMeta obj).ns
          (K.objectMeta obj).name (.found obj) = .ok ev ∧
        ev.externalID = K.listedAs clusterID obj) ∧
      K.parse (K.listedAs clusterID obj) = .ok (K.namespaceOf obj, (K.objectMeta obj).name) := by
    intro items obj hobj hname now
    obtain ⟨other, hother, hget⟩ := Kind.get?_listInCluster hobj clusterID
    refine ⟨⟨_, hget, ?_⟩, ⟨_, rfl, hK.externalID _ _⟩, Kind.parse_listedAs hK hname clusterID⟩
    rw [Kind.created, hK.externalID, hother]
  rw [NamesAlike, and_iff_right hlisted]
  cases hparse : K.parse text with
  | error e =>
    refine iff_of_true (fun now ev hev => ?_) (.inl ⟨e, rfl⟩)
    rw [Kind.emitDeleted, hparse] at hev
    cases hev
  | ok parsed =>
    constructor
    · intro hall
      obtain ⟨ev, hev⟩ := Kind.exists_emitDeleted hparse workspaceID clusterID clusterName now
      exact .inr ((Kind.externalID_of_emitDeleted hK hev).1 (hall now ev hev))
    · rintro (⟨e, he⟩ | hsecond) now ev hev
      · cases he
      · exact (Kind.externalID_of_emitDeleted hK hev).2 hsecond

/-- A pod of another cluster. -/
def foreignPod : String := "/".intercalate ["k8s_resource", "0a-1f", "Pod", "default", "web"]

theorem split_foreignPod : split foreignPod = ["k8s_resource", "0a-1f", "Pod", "default", "web"] :=
  split_intercalate (by simp) (by decide)

theorem parse_foreignPod : (podKind : Kind Go.sample).parse foreignPod = .ok ("default", "web") :=
  parseNamespacedExternalID_eq_ok.2 ⟨⟨"0a-1f", split_foreignPod⟩, by decide, by decide⟩

/-- Asked to delete the pod of another cluster, the reconciler makes the event that deletes its own
pod of that name. -/
theorem foreignPod_not_namesAlike :
    ¬ NamesAlike (podKind : Kind Go.sample) 7 9 "prod" foreignPod := by
  rintro ⟨-, h⟩
  obtain ⟨ev, hev⟩ := Kind.exists_emitDeleted parse_foreignPod 7 9 "prod" ()
  have hsecond := (Kind.externalID_of_emitDeleted
    (lawful_of_mem_kindRegistry mem_cons_self) hev).1 (h () ev hev)
  have hcluster : (split foreignPod)[1]? = some "0a-1f" := by
    rw [split_foreignPod]
    rfl
  rw [hcluster, Option.some.injEq] at hsecond
  have hlen := congrArg String.length hsecond
  rw [length_str] at hlen
  exact absurd hlen (by decide)

theorem ownPod_namesAlike : NamesAlike (podKind : Kind Go.sample) 7 9 "prod"
      (namespacedExternalID 9 "Pod" "default" "web") := by
  refine (namesAlike_iff mem_cons_self 7 9 "prod" _ ()).2 (.inr ?_)
  rw [namespacedExternalID_eq, split_intercalate (by simp)]
  · rfl
  · simp only [mem_cons, not_mem_nil, or_false, forall_eq_or_imp, forall_eq]
    exact ⟨by decide, slash_not_mem_str 9, by decide, by decide, by decide⟩

end Omniscience.Operator
