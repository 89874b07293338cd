import Omniscience.Operator.Publisher

/-!
# From a resource to its event

The mappers of `operator/internal/entity`: each takes a resource of one kind and makes the event
that the operator publishes about it.  Of a resource only the fields that its mapper reads are kept.

Whatever a mapper reads, the identifier of its event is the one of the kind, the namespace and the
name.
-/

namespace Omniscience.Operator

/-! ### Resources -/

/-- `metav1.OwnerReference`. -/
structure OwnerReference where
  kind : String
  name : String
  uid : String

/-- `metav1.ObjectMeta`. -/
structure ObjectMeta where
  ns : String
  name : String
  ownerReferences : List OwnerReference := []
  annotations : StringMap := .empty

/-- `corev1.Pod`. -/
structure Pod where
  objectMeta : ObjectMeta
  nodeName : String := ""
  phase : String := ""

/-- A workload with its two replica counts: the first is a pointer for all kinds but a
`DaemonSet`. -/
structure Workload where
  objectMeta : ObjectMeta
  replicas : Option ℤ := none
  availableReplicas : ℤ := 0

/-- `corev1.Service`. -/
structure Service where
  objectMeta : ObjectMeta
  type : String := ""
  clusterIP : String := ""
  selector : StringMap := .empty
  ports : ℕ := 0

/-- `corev1.EndpointAddress` with its `TargetRef`: a kind, a namespace and a name. -/
structure EndpointAddress where
  targetRef : Option (String × String × String)

/-- `corev1.EndpointSubset`. -/
structure EndpointSubset where
  addresses : List EndpointAddress
  notReadyAddresses : List EndpointAddress

/-- `corev1.Endpoints`. -/
structure Endpoints where
  objectMeta : ObjectMeta
  subsets : List EndpointSubset := []

/-- `networkingv1.Ingress`: the service names of its default backend and of the paths of its rules;
a rule without HTTP has no paths. -/
structure Ingress where
  objectMeta : ObjectMeta
  className : Option String := none
  defaultBackend : Option String := none
  rules : List (List (Option String)) := []
  tls : ℕ := 0

/-- `metav1.LabelSelectorRequirement`. -/
structure SelectorRequirement where
  key : String
  operator : String
  values : List String

/-- `networkingv1.NetworkPolicy`. -/
structure NetworkPolicy where
  objectMeta : ObjectMeta
  matchLabels : StringMap := .empty
  matchExpressions : List SelectorRequirement := []
  ingress : ℕ := 0
  egress : ℕ := 0
  policyTypes : List String := []

/-- `corev1.ConfigMap`: its texts and the keys of its binary data. -/
structure ConfigMap where
  objectMeta : ObjectMeta
  data : StringMap := .empty
  binaryKeys : List String := []

/-- `corev1.Secret`: its type and its keys. -/
structure Secret where
  objectMeta : ObjectMeta
  type : String := ""
  dataKeys : List String := []
  stringDataKeys : List String := []

/-- `corev1.Node`: its conditions as pairs of a type and a status. -/
structure Node where
  objectMeta : ObjectMeta
  conditions : List (String × String) := []
  kubeletVersion : String := ""
  osImage : String := ""
  architecture : String := ""

/-- `corev1.Namespace`. -/
structure Namespace where
  objectMeta : ObjectMeta
  phase : String := ""

/-- `corev1.PersistentVolume`; `storage` is the text of its capacity. -/
structure PersistentVolume where
  objectMeta : ObjectMeta
  phase : String := ""
  storage : Option String := none
  accessModes : List String := []
  reclaimPolicy : String := ""
  storageClassName : String := ""

/-- `storagev1.StorageClass`. -/
structure StorageClass where
  objectMeta : ObjectMeta
  provisioner : String := ""
  reclaimPolicy : Option String := none

/-! ### Events -/

/-- The arguments that every mapper takes besides the resource. -/
structure Stamp (go : Go) where
  action : Action
  workspaceID : Uuid
  clusterID : Uuid
  clusterName : String
  now : go.Time

variable {go : Go} (s : Stamp go)

/-- The event of a namespaced resource. -/
def namespacedEvent (kind ns name : String) (metadata : StringMap)
    (topologyEdges : List EdgeRef) : Event go where
  sourceID := deriveSourceID go s.workspaceID s.clusterName
  sourceType := sourceTypeOperator
  externalID := externalID s.clusterID kind ns name
  uri := resourceURI s.clusterName ns kind name
  action := s.action
  workspaceID := s.workspaceID
  emittedAt := go.utc s.now
  metadata := some metadata
  topologyEdges

/-- The event of a cluster-scoped resource. -/
def clusterEvent (kind name : String) (metadata : StringMap) (topologyEdges : List EdgeRef) :
    Event go where
  sourceID := deriveSourceID go s.workspaceID s.clusterName
  sourceType := sourceTypeOperator
  externalID := externalIDClusterScoped s.clusterID kind name
  uri := "kube://" ++ s.clusterName ++ "/" ++ kind ++ "/" ++ name
  action := s.action
  workspaceID := s.workspaceID
  emittedAt := go.utc s.now
  metadata := some metadata
  topologyEdges

/-- `sortedKeys`. -/
def sortStrings (texts : List String) : List String := texts.insertionSort (· ≤ ·)

/-- `strings.Join(sortedKeys, ",")`, with `joinSorted` and `renderPolicyTypes`. -/
def joinSorted (texts : List String) : String := ",".intercalate (sortStrings texts)

/-- `renderStringMapSorted`. -/
def renderStringMapSorted (m : StringMap) : String :=
  ",".intercalate ((m.items.insertionSort fun p q => p.1 ≤ q.1).map fun p => p.1 ++ "=" ++ p.2)

/-- `formatLabelSelector`. -/
def formatLabelSelector (matchLabels : StringMap) (exprs : List SelectorRequirement) : String :=
  exprs.foldl (fun out expr =>
    (if out = "" then out else out ++ ",") ++ expr.key ++ " " ++ expr.operator ++
      (if expr.values = [] then "" else " (" ++ joinSorted expr.values ++ ")"))
    (renderStringMapSorted matchLabels)

/-- `ownerEdges`. -/
def ownerEdges (clusterID : Uuid) (refs : List OwnerReference)
    (childNamespace childExternalID : String) : List OwnerEdge :=
  (refs.filter fun ref => ref.kind ≠ "" ∧ ref.name ≠ "").map fun ref =>
    { relation := "OWNS"
      fromExternalID := externalID clusterID ref.kind childNamespace ref.name
      toExternalID := childExternalID
      fromKind := ref.kind
      fromUID := ref.uid }

/-- `inClusterEdge`. -/
def inClusterEdge (clusterID : Uuid) (clusterName : String) : EdgeRef :=
  ⟨"in_cluster", clusterExternalID clusterID clusterName⟩

/-- `newWorkloadEvent`. -/
def newWorkloadEvent (kind ns name : String) : Event go :=
  let ns := defaultedNamespace ns
  namespacedEvent s kind ns name (baseMetadata s.clusterID s.clusterName ns kind name) []

/-! ### Workloads -/

/-- `PodToEvent`. -/
def podToEvent (pod : Pod) (s : Stamp go) : Event go :=
  let ns := if pod.objectMeta.ns = "" then "default" else pod.objectMeta.ns
  namespacedEvent s "Pod" ns pod.objectMeta.name
    (.ofList [("cluster", s.clusterName), ("cluster_id", s.clusterID.str), ("namespace", ns),
      ("name", pod.objectMeta.name), ("kind", "Pod"), ("node", pod.nodeName), ("phase", pod.phase),
      ("emitter", "k8s-operator")]) []

/-- The mapper of a workload kind: the replica counts and the edges from its owners. -/
def workloadToEvent (kind : String) (w : Workload) (s : Stamp go) : Event go :=
  let ev := newWorkloadEvent s kind w.objectMeta.ns w.objectMeta.name
  let metadata := ev.metadata.getD .empty
  let metadata := match w.replicas with
    | some n => metadata.set "replicas" (toString n)
    | none => metadata
  { ev with
    metadata := some (metadata.set "available_replicas" (toString w.availableReplicas))
    edges := ownerEdges s.clusterID w.objectMeta.ownerReferences
      (defaultedNamespace w.objectMeta.ns) ev.externalID }

/-- `DeploymentToEvent`. -/
def deploymentToEvent : Workload → Stamp go → Event go := workloadToEvent "Deployment"

/-- `ReplicaSetToEvent`. -/
def replicaSetToEvent : Workload → Stamp go → Event go := workloadToEvent "ReplicaSet"

/-- `StatefulSetToEvent`. -/
def statefulSetToEvent : Workload → Stamp go → Event go := workloadToEvent "StatefulSet"

/-- `DaemonSetToEvent`: the count of the scheduled pods is not a pointer and always written. -/
def daemonSetToEvent (w : Workload) (s : Stamp go) : Event go :=
  workloadToEvent "DaemonSet" { w with replicas := some (w.replicas.getD 0) } s

/-- `JobToEvent`. -/
def jobToEvent : Workload → Stamp go → Event go := workloadToEvent "Job"

/-! ### Networking and configuration -/

/-- The event of a namespaced resource with the shared metadata and some more. -/
def configEvent (kind : String) (objectMeta : ObjectMeta) (more : List (String × String))
    (topologyEdges : List EdgeRef) (s : Stamp go) : Event go :=
  let ns := defaultedNamespace objectMeta.ns
  namespacedEvent s kind ns objectMeta.name
    (more.foldl (fun m p => m.set p.1 p.2)
      (baseMetadata s.clusterID s.clusterName ns kind objectMeta.name)) topologyEdges

/-- `ServiceToEvent`. -/
def serviceToEvent (svc : Service) (s : Stamp go) : Event go :=
  configEvent "Service" svc.objectMeta
    [("service_type", svc.type), ("cluster_ip", svc.clusterIP),
      ("selector", renderStringMapSorted svc.selector), ("port_count", toString svc.ports)] [] s

/-- `appendPodEdges`. -/
def podEdges (clusterID : Uuid) (addrs : List EndpointAddress) (fallbackNamespace : String) :
    List EdgeRef :=
  addrs.filterMap fun addr =>
    match addr.targetRef with
    | none => none
    | some (kind, ns, name) =>
      if kind ≠ "Pod" ∨ name = "" then none
      else some ⟨"SELECTS", externalID clusterID "Pod"
        (if ns = "" then fallbackNamespace else ns) name⟩

/-- `buildSelectsEdges`. -/
def buildSelectsEdges (clusterID : Uuid) (ep : Endpoints) (ns : String) : List EdgeRef :=
  ep.subsets.flatMap fun sub =>
    podEdges clusterID sub.addresses ns ++ podEdges clusterID sub.notReadyAddresses ns

/-- `countEndpointAddresses`. -/
def countEndpointAddresses (ep : Endpoints) : ℕ :=
  (ep.subsets.map fun sub => sub.addresses.length + sub.notReadyAddresses.length).sum

/-- `EndpointsToEvent`. -/
def endpointsToEvent (ep : Endpoints) (s : Stamp go) : Event go :=
  configEvent "Endpoints" ep.objectMeta
    [("subset_count", toString ep.subsets.length),
      ("address_count", toString (countEndpointAddresses ep))]
    (buildSelectsEdges s.clusterID ep (defaultedNamespace ep.objectMeta.ns)) s

/-- `buildRoutesToEdges`: one edge to each service that is named. -/
def buildRoutesToEdges (clusterID : Uuid) (ing : Ingress) (ns : String) : List EdgeRef :=
  let named := (ing.defaultBackend.toList ++ ing.rules.flatten.reduceOption).filter (· ≠ "")
  let targets := named.map (externalID clusterID "Service" ns)
  (targets.foldl (fun seen t => if t ∈ seen then seen else seen ++ [t]) []).map
    fun t => ⟨"ROUTES_TO", t⟩

/-- `IngressToEvent`. -/
def ingressToEvent (ing : Ingress) (s : Stamp go) : Event go :=
  configEvent "Ingress" ing.objectMeta
    [("ingress_class", ing.className.getD ""), ("rule_count", toString ing.rules.length),
      ("tls_count", toString ing.tls)]
    (buildRoutesToEdges s.clusterID ing (defaultedNamespace ing.objectMeta.ns)) s

/-- `NetworkPolicyToEvent`. -/
def networkPolicyToEvent (np : NetworkPolicy) (s : Stamp go) : Event go :=
  configEvent "NetworkPolicy" np.objectMeta
    [("pod_selector", formatLabelSelector np.matchLabels np.matchExpressions),
      ("ingress_rule_count", toString np.ingress), ("egress_rule_count", toString np.egress),
      ("policy_types", joinSorted np.policyTypes)] [] s

/-- `isIndexDataOptIn`. -/
def isIndexDataOptIn (annotations : StringMap) : Bool :=
  annotations.get? "omniscience.io/index-data" = some "true"

/-- `ConfigMapToEvent`. -/
def configMapToEvent (cm : ConfigMap) (s : Stamp go) : Event go :=
  let keys := (cm.data.keys ++ cm.binaryKeys).dedup
  let indexed := isIndexDataOptIn cm.objectMeta.annotations
  configEvent "ConfigMap" cm.objectMeta
    ([("data_keys", joinSorted keys), ("data_count", toString keys.length),
      ("indexed", toString indexed)] ++
      if indexed ∧ 0 < cm.data.size then [("data_values_json", marshalMap (some cm.data))]
      else []) [] s

/-- `SecretToEvent`. -/
def secretToEvent (sec : Secret) (s : Stamp go) : Event go :=
  let keys := (sec.dataKeys ++ sec.stringDataKeys).dedup
  configEvent "Secret" sec.objectMeta
    [("secret_type", sec.type), ("data_keys", joinSorted keys),
      ("data_count", toString keys.length)] [] s

/-! ### Cluster-scoped resources -/

/-- The metadata of a cluster-scoped resource. -/
def clusterMetadata (kind name : String) (more : List (String × String)) : StringMap :=
  .ofList ([("cluster", s.clusterName), ("cluster_id", s.clusterID.str), ("name", name),
    ("kind", kind)] ++ more ++ [("emitter", "k8s-operator")])

/-- The items whose text is not empty. -/
def populated (items : List (String × String)) : List (String × String) :=
  items.filter fun p => p.2 ≠ ""

/-- `nodeIsReady`. -/
def nodeIsReady (node : Node) : Bool :=
  (node.conditions.find? fun c => c.1 = "Ready").any fun c => c.2 = "True"

/-- `NodeToEvent`. -/
def nodeToEvent (node : Node) (s : Stamp go) : Event go :=
  clusterEvent s "Node" node.objectMeta.name
    (clusterMetadata s "Node" node.objectMeta.name
      ([("ready", toString (nodeIsReady node))] ++
        populated [("kubelet_version", node.kubeletVersion), ("os_image", node.osImage),
          ("arch", node.architecture)]))
    [inClusterEdge s.clusterID s.clusterName]

/-- `NamespaceToEvent`. -/
def namespaceToEvent (ns : Namespace) (s : Stamp go) : Event go :=
  clusterEvent s "Namespace" ns.objectMeta.name
    (clusterMetadata s "Namespace" ns.objectMeta.name [("phase", ns.phase)])
    [inClusterEdge s.clusterID s.clusterName]

/-- `PersistentVolumeToEvent`. -/
def persistentVolumeToEvent (pv : PersistentVolume) (s : Stamp go) : Event go :=
  clusterEvent s "PersistentVolume" pv.objectMeta.name
    (clusterMetadata s "PersistentVolume" pv.objectMeta.name
      ([("phase", pv.phase)] ++ (pv.storage.toList.map fun text => ("capacity", text)) ++
        (if pv.accessModes = [] then [] else [("access_modes", joinSorted pv.accessModes)]) ++
        populated [("reclaim_policy", pv.reclaimPolicy), ("storage_class", pv.storageClassName)]))
    (inClusterEdge s.clusterID s.clusterName ::
      if pv.storageClassName = "" then []
      else
        [⟨"of_class", externalIDClusterScoped s.clusterID "StorageClass" pv.storageClassName⟩])

/-- `StorageClassToEvent`. -/
def storageClassToEvent (sc : StorageClass) (s : Stamp go) : Event go :=
  clusterEvent s "StorageClass" sc.objectMeta.name
    (clusterMetadata s "StorageClass" sc.objectMeta.name
      ([("provisioner", sc.provisioner)] ++
        (sc.reclaimPolicy.toList.map fun text => ("reclaim_policy", text))))
    [inClusterEdge s.clusterID s.clusterName]

end Omniscience.Operator
