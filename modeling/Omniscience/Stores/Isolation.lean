import Omniscience.Stores.Confinement

/-!
# Isolation of the workspaces

The operations of the graph store, each called for a workspace, over the graphs in which no
relationship crosses from one workspace to another.  The operations keep it so, and leave every
other workspace as it is.

The exception is `_DELETE_TOMBSTONED_CYPHER`, which has no workspace: without bitemporal mode the
call for one workspace deletes the tombstoned entities of all of them.
-/

namespace Omniscience.Cypher

open Outbox PropertyGraph
open Neo4j (GraphConfig GraphUpsert)

/-! ### The operations -/

/-- A write of the graph store, called for a workspace. -/
inductive Operation (gcfg : GraphConfig) (workspaceId : Uuid) where
  | upsertGraph (u : GraphUpsert) (now : ℕ) (h : u.workspace gcfg.py = .ok workspaceId)
  | upsertEntity (entity : EntityUpsert) (now : ℕ)
  | upsertEdge (edge : EdgeUpsert) (now : ℕ)
  | upsertEdgeByName (source : Uuid) (targetName edgeType : String) (metadata : Metadata) (now : ℕ)
  | deleteTombstoned (now : ℕ)
  | backfillBitemporal (batchSize fuel : ℕ)
  | markHotToWarm (hotCutoff batchSize fuel : ℕ)
  | moveHotToWarm (batchSize fuel : ℕ)
  | deleteWarmEntitySnapshot (day : ℕ)
  | deleteWarmRelationshipSnapshot (day : ℕ)
  | resolvePendingStubs (fuel : ℕ)
  | mergeNodes (sourceId targetId : Uuid)
  | unmergeNode (mergedNodeId : Uuid)

variable {gcfg : GraphConfig} {w : Uuid} {g g' : Graph} (engine : Engine)

/-- The graph after the operation; a transaction that raises is rolled back. -/
def Operation.apply (op : Operation gcfg w) (g : Graph) : Graph :=
  match op with
  | .upsertGraph u now _ => committed (Cypher.upsertGraph gcfg u now g) g
  | .upsertEntity entity now => committed (Cypher.upsertEntity gcfg.toConfig entity w now g) g
  | .upsertEdge edge now => committed (Cypher.upsertEdge gcfg.toConfig edge w now g) g
  | .upsertEdgeByName source targetName edgeType metadata now =>
    committed (Cypher.upsertEdgeByName gcfg source targetName edgeType metadata w now g) g
  | .deleteTombstoned now => Cypher.deleteTombstoned gcfg.toConfig w now g
  | .backfillBitemporal batchSize fuel => (Cypher.backfillBitemporal w batchSize fuel g).1
  | .markHotToWarm hotCutoff batchSize fuel =>
    (Cypher.markHotToWarm engine w hotCutoff batchSize fuel g).1
  | .moveHotToWarm batchSize fuel => (Cypher.moveHotToWarm engine w batchSize fuel g).1
  | .deleteWarmEntitySnapshot day => Cypher.deleteWarmEntitySnapshot engine w day g
  | .deleteWarmRelationshipSnapshot day =>
    (Cypher.deleteWarmRelationshipSnapshot engine w day g).getD g
  | .resolvePendingStubs fuel => (Cypher.resolvePendingStubs w fuel g).1
  | .mergeNodes sourceId targetId => (Cypher.mergeNodes w sourceId targetId g).1
  | .unmergeNode mergedNodeId => (Cypher.unmergeNode w mergedNodeId g).1

/-- The node is an entity that is tombstoned. -/
def Node.isTombstoned (n : Node) : Bool := n.label = .entity && n.tombstonedAt.isSome

/-- The operation is `delete_tombstoned` without bitemporal mode, whose statement has no
workspace. -/
def Operation.isUnscoped : Operation gcfg w → Bool
  | .deleteTombstoned _ => !gcfg.bitemporal
  | _ => false

/-- A tombstoned entity is not of the workspace. -/
def hasForeignTombstone (workspaceId : Uuid) (g : Graph) : Bool :=
  g.nodes.items.any fun item => item.2.isTombstoned && item.2.workspaceId ≠ some workspaceId

theorem committed_confined {result : Except Exc Graph}
    (h : ∀ g', result = .ok g' → Confined w g g') : Confined w g (committed result g) := by
  cases hresult : result with
  | ok g' => exact h g' hresult
  | error _ => exact .refl

/-- **Every operation but one is confined to its workspace.** -/
theorem Operation.confined (op : Operation gcfg w) (hg : Separated w g)
    (hscoped : op.isUnscoped = false) : Confined w g (op.apply engine g) := by
  cases op with
  | upsertGraph u now h => exact committed_confined fun _ => confined_upsertGraph h hg
  | upsertEntity entity now => exact committed_confined fun _ => confined_upsertEntity hg
  | upsertEdge edge now => exact committed_confined fun _ => confined_upsertEdge
  | upsertEdgeByName source targetName edgeType metadata now =>
    exact committed_confined fun _ => confined_upsertEdgeByName
  | deleteTombstoned now =>
    have hmode : gcfg.bitemporal = true := by
      simpa only [isUnscoped, Bool.not_eq_false'] using hscoped
    rw [apply, Cypher.deleteTombstoned, if_pos hmode]
    exact confined_endDateTombstoned hg now
  | backfillBitemporal batchSize fuel => exact confined_backfillBitemporal batchSize fuel g
  | markHotToWarm hotCutoff batchSize fuel =>
    exact confined_markHotToWarm engine hotCutoff batchSize fuel g
  | moveHotToWarm batchSize fuel => exact confined_moveHotToWarm engine batchSize fuel g
  | deleteWarmEntitySnapshot day => exact confined_deleteWarmEntitySnapshot engine day g
  | deleteWarmRelationshipSnapshot day =>
    rw [apply]
    cases hdeleted : Cypher.deleteWarmRelationshipSnapshot engine w day g with
    | none => exact .refl
    | some g' => exact confined_deleteWarmRelationshipSnapshot engine hdeleted
  | resolvePendingStubs fuel => exact confined_resolvePendingStubs hg fuel
  | mergeNodes sourceId targetId => exact confined_mergeNodes sourceId targetId g
  | unmergeNode mergedNodeId => exact confined_unmergeNode mergedNodeId g

theorem Operation.apply_of_isUnscoped {op : Operation gcfg w} (h : op.isUnscoped = true) :
    op.apply engine g = g.detachDelete (g.has Node.isTombstoned) := by
  cases op with
  | deleteTombstoned now =>
    have hmode : gcfg.bitemporal = false := by simpa only [isUnscoped, Bool.not_eq_true'] using h
    rw [apply, Cypher.deleteTombstoned, hmode]
    rfl
  | _ => cases h

/-! ### The graphs of the store -/

/-- Every relationship joins nodes of one workspace, and carries no other one. -/
abbrev WellLabelled (g : Graph) : Prop := g.WellLabelled Node.workspaceId Rel.workspaceId

/-- A graph of the store. -/
structure StoreGraph where
  graph : Graph
  wellLabelled : WellLabelled graph

theorem Operation.wellLabelled (op : Operation gcfg w) (hg : WellLabelled g) :
    WellLabelled (op.apply engine g) := by
  cases hscoped : op.isUnscoped with
  | true =>
    rw [op.apply_of_isUnscoped engine hscoped]
    exact fun label => (hg label).detachDelete _
  | false => exact fun label => (op.confined engine (hg w) hscoped).separated (hg label)

/-- The operation, on the graphs of the store. -/
def Operation.run (op : Operation gcfg w) (g : StoreGraph) : StoreGraph where
  graph := op.apply engine g.graph
  wellLabelled := op.wellLabelled engine g.wellLabelled

/-! ### Isolation -/

/-- The workspace of a relationship: the one that it carries, or else that of the node at its
start.  Only the `HAD_STATE` of a backfill carries none. -/
def workspaceOf (g : Graph) (r : Arc Rel) : Option Uuid :=
  r.data.workspaceId.or ((g.nodes.get? r.source).bind Node.workspaceId)

/-- Every node and every relationship that is not of the workspace is the same. -/
structure Isolated (workspaceId : Uuid) (g g' : Graph) : Prop where
  nodes : (g'.matching fun n => n.workspaceId ≠ some workspaceId) =
    g.matching fun n => n.workspaceId ≠ some workspaceId
  rels : (g'.rels.filter fun r => workspaceOf g' r ≠ some workspaceId) =
    g.rels.filter fun r => workspaceOf g r ≠ some workspaceId

theorem workspaceOf_eq_iff (hg : Separated w g) {r : Arc Rel} (hr : r ∈ g.rels) :
    workspaceOf g r = some w ↔ isWithin w g r = true := by
  obtain ⟨n, hn⟩ := exists_source hr
  constructor
  · intro h
    rw [workspaceOf, hn, Option.bind_some, Option.or_eq_some_iff] at h
    rcases h with hlabel | ⟨-, hsource⟩
    · exact isWithin_of_rel hlabel
    · exact isWithin_of_source (has_iff.2 ⟨n, hn, carries_iff.2 hsource⟩)
  · intro h
    have hinner := hg r hr h
    rw [workspaceOf, hn, Option.bind_some, Option.or_eq_some_iff]
    rcases hinner.label with hnone | hsome
    · exact .inr ⟨hnone, workspaceId_of_has hn hinner.source⟩
    · exact .inl hsome

theorem filter_workspaceOf (hg : Separated w g) :
    (g.rels.filter fun r => workspaceOf g r ≠ some w) =
      g.rels.filter fun r => !isWithin w g r := by
  refine List.filter_congr fun r hr => ?_
  rw [Bool.eq_iff_iff, decide_eq_true_eq, Ne, workspaceOf_eq_iff hg hr, Bool.not_eq_true',
    Bool.not_eq_true]

theorem isolated_of_confined (hg : Separated w g) (h : Confined w g g') : Isolated w g g' := by
  have hsame := h.sameOutside
  have hnodes : (fun n : Node => decide (n.workspaceId ≠ some w)) = fun n => !inWorkspace w n := by
    funext n
    exact decide_not
  refine ⟨?_, ?_⟩
  · rw [hnodes]
    exact hsame.nodes
  · rw [filter_workspaceOf hg, filter_workspaceOf (h.separated hg)]
    exact hsame.rels

/-- A tombstoned entity of the workspace 2. -/
def foreignTombstone : Graph :=
  empty.create
    { bareEntity 2 5 with
      name := some "payments"
      tombstonedAt := some (.text 3) }

/-- A store without bitemporal mode. -/
def legacyStore : GraphConfig := { GraphConfig.sample with bitemporal := false }

end Omniscience.Cypher
