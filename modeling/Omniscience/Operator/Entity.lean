import Omniscience.Base.Python
import Omniscience.Base.Uuid
import Omniscience.Lib.Dict

/-!
# The events of the operator

The operator is a Go program inside the cluster.  `Event` (`operator/internal/entity/entity.go`) is
what it publishes about a resource, `externalID` and `externalIDClusterScoped` (`common.go`) are the
identifiers that a resource has in the graph.

A Go map is a dictionary here and `nil` is `none`; a slice that is `nil` and one that is empty are
the same list, which nothing in the operator tells apart.
-/

namespace Omniscience.Operator

/-- Library functions of Go that the models do not unfold. -/
structure Go where
  /-- `time.Time`. -/
  Time : Type
  /-- `t.UTC()`. -/
  utc : Time → Time
  /-- The text of `t.MarshalJSON()`; `none` is the error for a year out of range. -/
  marshalTime : Time → Option String
  /-- `uuid.NewSHA1`. -/
  newSHA1 : Uuid → Bytes → Uuid

/-- `map[string]string`. -/
abbrev StringMap := Dict String String

/-- `entity.Action`. -/
abbrev Action := String

/-- `ActionCreated`. -/
def actionCreated : Action := "created"

/-- `ActionUpdated`. -/
def actionUpdated : Action := "updated"

/-- `ActionDeleted`. -/
def actionDeleted : Action := "deleted"

/-- `SourceType`. -/
def sourceTypeOperator : String := "k8s-operator"

/-- `EntityKindPrefix`, with its aliases `EntityKindPod` and `EntityKindK8sResource`. -/
def entityKindPrefix : String := "k8s_resource"

/-- `EmitterLabel`. -/
def emitterLabel : String := "k8s-operator"

/-- `OwnerEdge`. -/
structure OwnerEdge where
  relation : String
  fromExternalID : String
  toExternalID : String
  fromKind : String
  fromUID : String
  deriving DecidableEq

/-- `EdgeRef`. -/
structure EdgeRef where
  kind : String
  targetExternalID : String
  deriving DecidableEq

/-- `Event`. -/
structure Event (go : Go) where
  sourceID : Uuid
  sourceType : String
  externalID : String
  uri : String
  action : Action
  workspaceID : Uuid
  emittedAt : go.Time
  metadata : Option StringMap
  edges : List OwnerEdge := []
  topologyEdges : List EdgeRef := []

/-! ### Identifiers -/

/-- `externalID`, with its alias `externalIDFor`. -/
def externalID (clusterID : Uuid) (kind ns name : String) : String :=
  entityKindPrefix ++ "/" ++ clusterID.str ++ "/" ++ kind ++ "/" ++ ns ++ "/" ++ name

/-- `externalIDClusterScoped`, with its alias `externalIDForClusterScoped`. -/
def externalIDClusterScoped (clusterID : Uuid) (kind name : String) : String :=
  entityKindPrefix ++ "/" ++ clusterID.str ++ "/" ++ kind ++ "/" ++ name

/-- `ClusterExternalID`. -/
def clusterExternalID (clusterID : Uuid) (clusterName : String) : String :=
  entityKindPrefix ++ "/" ++ clusterID.str ++ "/Cluster/" ++ clusterName

/-- `resourceURI`, with its alias `uriFor`. -/
def resourceURI (clusterName ns kind name : String) : String :=
  "kube://" ++ clusterName ++ "/" ++ ns ++ "/" ++ kind ++ "/" ++ name

/-- `defaultedNamespace`, with its alias `resolveNamespace`. -/
def defaultedNamespace (ns : String) : String := if ns = "" then "default" else ns

/-- `nsOmniscienceOperator`: `d6c4a5b1-3e7f-4a92-9c2d-7e1f8b6c4a5b`. -/
def nsOmniscienceOperator : Uuid := 0xd6c4a5b13e7f4a929c2d7e1f8b6c4a5b

/-- `deriveSourceID`, with its alias `DeriveSourceID`. -/
def deriveSourceID (go : Go) (workspaceID : Uuid) (clusterName : String) : Uuid :=
  go.newSHA1 nsOmniscienceOperator (encodeUtf8 (workspaceID.str ++ "/" ++ clusterName))

/-- `baseMetadata`. -/
def baseMetadata (clusterID : Uuid) (clusterName ns kind name : String) : StringMap :=
  .ofList [("cluster", clusterName), ("cluster_id", clusterID.str), ("namespace", ns),
    ("name", name), ("kind", kind), ("emitter", emitterLabel)]

end Omniscience.Operator
