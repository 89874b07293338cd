import Omniscience.Lib.Confined
import Omniscience.Stores.Merging
import Omniscience.Stores.Stubs
import Omniscience.Stores.Writes

/-!
# What the statements of the graph store reach

Every write of the graph store is called for a workspace.  Its statements match nodes and
relationships of that workspace, and some go on from there: to the states of an entity, to the other
end of a relationship, to whatever hangs on a node that is deleted.  Each of them is confined to the
workspace in the sense of `Lib.Confined`; those that follow relationships are so in a graph where
none crosses from the workspace to another one.
-/

namespace Omniscience.Cypher

open Outbox PropertyGraph List
open Neo4j (GraphConfig GraphUpsert BatchEdge EdgeParams)

/-! ### The part of a workspace -/

/-- The node is of the workspace. -/
abbrev inWorkspace (workspaceId : Uuid) : Node → Bool :=
  carries Node.workspaceId workspaceId

/-- The graphs differ in the workspace only. -/
abbrev Confined (workspaceId : Uuid) : Graph → Graph → Prop :=
  PropertyGraph.Confined Node.workspaceId Rel.workspaceId workspaceId

/-- No relationship crosses from the workspace to another one. -/
abbrev Separated (workspaceId : Uuid) (g : Graph) : Prop :=
  g.Separated Node.workspaceId Rel.workspaceId workspaceId

/-- The relationship carries the workspace, or is at a node of it. -/
abbrev isWithin (workspaceId : Uuid) (g : Graph) (r : Arc Rel) : Bool :=
  g.isWithin Node.workspaceId Rel.workspaceId workspaceId r

/-- The relationship joins nodes of the workspace and carries no other one. -/
abbrev IsInner (workspaceId : Uuid) (g : Graph) (r : Arc Rel) : Prop :=
  g.IsInner Node.workspaceId Rel.workspaceId workspaceId r

section

variable {w : Uuid} {g g' : Graph}

theorem workspaceId_of_isIn {n : Node} {label : Label} (h : n.isIn label w = true) :
    n.workspaceId = some w := by
  rw [Node.isIn, Bool.and_eq_true, decide_eq_true_eq, decide_eq_true_eq] at h
  exact h.2

variable {id : Uuid}

theorem workspaceId_of_isEntity {n : Node} (h : n.isEntity w id = true) :
    n.workspaceId = some w := by
  rw [Node.isEntity, Bool.and_eq_true] at h
  exact workspaceId_of_isIn h.1

theorem workspaceId_of_isOf {r : Rel} {relType : String} (h : r.isOf relType w = true) :
    r.workspaceId = some w := by
  rw [Rel.isOf, Bool.and_eq_true, decide_eq_true_eq, decide_eq_true_eq] at h
  exact h.2

theorem has_inWorkspace {test : Node → Bool} (htest : ∀ n, test n = true → n.workspaceId = some w)
    {i : ℕ} (h : g.has test i = true) : g.has (inWorkspace w) i = true := by
  obtain ⟨n, hn, hi⟩ := has_iff.1 h
  exact has_iff.2 ⟨n, hn, carries_iff.2 (htest n hi)⟩

theorem workspaceId_of_has {i : ℕ} {n : Node} (hn : g.nodes.get? i = some n)
    (h : g.has (inWorkspace w) i = true) : n.workspaceId = some w := by
  obtain ⟨n', hn', hlabel⟩ := has_iff.1 h
  rw [hn, Option.some.injEq] at hn'
  exact hn' ▸ carries_iff.1 hlabel

theorem has_target (hg : Separated w g) {r : Arc Rel} (hr : r ∈ g.rels)
    (h : g.has (inWorkspace w) r.source = true) : g.has (inWorkspace w) r.target = true :=
  (hg r hr (isWithin_of_source h)).target

/-- The nodes of the workspace of the first graph are nodes of it in the second. -/
def KeepsNodes (w : Uuid) (g g' : Graph) : Prop :=
  ∀ i, g.has (inWorkspace w) i = true → g'.has (inWorkspace w) i = true

/-! ### Entities -/

theorem confined_advanceSourceCheckpoint (sourceId : String) (version : ℤ) (epoch : Option ℤ)
    (forced : Bool) (now : ℕ) (g : Graph) :
    Confined w g (advanceSourceCheckpoint w sourceId version epoch forced now g) := by
  refine confined_mergeNode ?_ (fun n hn => ?_) g
  · rfl
  · rw [Node.isStoreCheckpoint, Bool.and_eq_true] at hn
    have hws := workspaceId_of_isIn hn.1
    exact ⟨hws, hws⟩

theorem confined_advanceDocumentCheckpoint (sourceId : String) (documentId : Uuid) (version : ℤ)
    (epoch : Option ℤ) (now : ℕ) (g : Graph) :
    Confined w g (advanceDocumentCheckpoint w sourceId documentId version epoch now g) := by
  refine confined_mergeNode ?_ (fun n hn => ?_) g
  · rfl
  · rw [Node.isDocumentCheckpoint, Bool.and_eq_true, Bool.and_eq_true] at hn
    have hws := workspaceId_of_isIn hn.1.1
    exact ⟨hws, hws⟩

variable (cfg : Neo4j.Config)

theorem confined_mergeEntity (entity : EntityUpsert) (now : ℕ) (g : Graph) :
    Confined w g (mergeEntity cfg entity w now g) := by
  refine confined_mergeNode ?_ (fun n hn => ?_) g
  · rfl
  · have hws := workspaceId_of_isEntity hn
    exact ⟨hws, hws⟩

theorem workspaceId_casNode (entity : EntityUpsert) (version : ℤ) (now : ℕ) (n : Node) :
    (casNode cfg entity version now n).workspaceId = n.workspaceId := by
  simp only [casNode]
  split
  · split
    · rfl
    · rfl
  · rfl

theorem confined_casEntity (entity : EntityUpsert) (version : ℤ) (now : ℕ) (g : Graph) :
    Confined w g (casEntity cfg entity w version now g) := by
  refine confined_mergeNode ?_ (fun n hn => ?_) g
  · exact workspaceId_casNode cfg entity version now _
  · have hws := workspaceId_of_isEntity hn
    exact ⟨hws, (workspaceId_casNode cfg entity version now n).trans hws⟩

theorem confined_closeStates (hg : Separated w g) {selected : ℕ → Bool}
    (hselected : ∀ i, selected i = true → g.has (inWorkspace w) i = true) (now : ℕ) :
    Confined w g (closeStates selected now g) := by
  have hsource : ∀ r, holdsOpenState g selected r = true →
      g.has (inWorkspace w) r.source = true := by
    intro r hr
    simp only [holdsOpenState, Bool.and_eq_true] at hr
    exact hselected r.source hr.1.1.1
  have hrels : Confined w g (g.setRels fun r =>
      if holdsOpenState g selected r then { r.data with validTo := some (.datetime now) }
      else r.data) := by
    refine .single (.setRels fun r _ => ?_)
    by_cases hr : holdsOpenState g selected r = true
    · rw [if_pos hr]
      exact .inr ⟨isWithin_of_source (hsource r hr), rfl⟩
    · exact .inl (if_neg hr)
  refine hrels.tail (.setNodes fun i n hn => ?_)
  by_cases hany : (g.rels.any fun r => holdsOpenState g selected r && r.target = i) = true
  · obtain ⟨r, hr, hopen⟩ := any_eq_true.1 hany
    rw [Bool.and_eq_true, decide_eq_true_eq] at hopen
    have hget : g.nodes.get? r.target = some n := hopen.2 ▸ hn
    have hws := workspaceId_of_has hget (has_target hg hr (hsource r hopen.1))
    rw [if_pos hany]
    exact .inr ⟨hws, hws⟩
  · exact .inl (if_neg hany)

theorem keepsNodes_closeStates (selected : ℕ → Bool) (now : ℕ) (g : Graph) :
    KeepsNodes w g (closeStates selected now g) := by
  intro i hi
  rw [closeStates, has_setNodes _ fun j n _ => ?_]
  · exact hi
  · split
    · rfl
    · rfl

variable {entity : EntityUpsert}

theorem confined_versionEntity {cfg : Neo4j.Config} {now i : ℕ} (hg : Separated w g)
    (hi : g.has (inWorkspace w) i = true) (hg' : versionEntity cfg entity w now g i = .ok g') :
    Confined w g g' ∧ KeepsNodes w g g' := by
  obtain ⟨written, hwritten, hstep⟩ := versionEntity_cases hg'
  have hfirst : Confined w g written ∧ KeepsNodes w g written := by
    rcases hwritten with rfl | rfl
    · exact ⟨.refl, fun _ hj => hj⟩
    · set stamped := g.setNodes fun j n =>
        if j = i then
          (n.withContent (Neo4j.contentOf cfg.py entity) now).stamp (cfg.entityFingerprint entity)
            now
        else n with hstamped
      have hwrite : Confined w g stamped := by
        refine .single (.setNodes fun j n hn => ?_)
        by_cases hj : j = i
        · have hws := workspaceId_of_has (hj ▸ hn) hi
          rw [if_pos hj]
          exact .inr ⟨hws, hws⟩
        · exact .inl (if_neg hj)
      have hkeeps : KeepsNodes w g stamped := by
        intro j hj
        rw [hstamped, has_setNodes _ fun k n _ => ?_]
        · exact hj
        · split
          · rfl
          · rfl
      refine ⟨hwrite.trans (confined_closeStates (hwrite.separated hg) (fun j hj => ?_) now),
        fun j hj => keepsNodes_closeStates _ now stamped j (hkeeps j hj)⟩
      rw [of_decide_eq_true hj]
      exact hkeeps i hi
  rcases hstep with rfl | hadd
  · exact hfirst
  · obtain rfl := addState_eq hadd
    have hcreate : Confined w written (written.create (newState cfg entity w now)) :=
      .single (.create rfl)
    refine ⟨hfirst.1.trans (hcreate.tail (.connect ⟨?_, ?_, .inr rfl⟩)), fun j hj => ?_⟩
    · exact has_create_of_has _ (hfirst.2 i hi)
    · exact has_fresh_create (carries_iff.2 rfl)
    · rw [has_connect]
      exact has_create_of_has _ (hfirst.2 j hj)

variable {now : ℕ}

theorem confined_mergeEntityBitemporal {cfg : Neo4j.Config} (hg : Separated w g)
    (hg' : mergeEntityBitemporal cfg entity w now g = .ok g') : Confined w g g' := by
  have hmerged : Confined w g (g.mergeNode (·.isEntity w entity.id)
      { ((bareEntity w entity.id).withContent (Neo4j.contentOf cfg.py entity) now).stamp
          (cfg.entityFingerprint entity) now with
        createdAt := some (.text now) } fun n => n) := by
    refine confined_mergeNode ?_ (fun n hn => ?_) g
    · rfl
    · exact ⟨workspaceId_of_isEntity hn, workspaceId_of_isEntity hn⟩
  -- the nodes of the loop stay nodes of the workspace
  refine (Fold.foldlM_keeps hg' (fun c => Confined w g c ∧ KeepsNodes w _ c)
    ⟨hmerged, fun _ hi => hi⟩ fun i hi c c' hc hstep => ?_).1
  have hin := has_inWorkspace (fun n hn => workspaceId_of_isEntity hn) (mem_refs.1 hi)
  obtain ⟨hconfined, hkeeps⟩ := confined_versionEntity (hc.1.separated hg) (hc.2 i hin) hstep
  exact ⟨hc.1.trans hconfined, fun j hj => hkeeps j (hc.2 j hj)⟩

theorem confined_upsertEntity {cfg : Neo4j.Config} (hg : Separated w g)
    (hg' : upsertEntity cfg entity w now g = .ok g') : Confined w g g' := by
  simp only [upsertEntity] at hg'
  split at hg'
  · split at hg'
    · cases hg'
      exact .refl
    · cases hg'
      exact (confined_advanceSourceCheckpoint _ _ _ _ _ g).trans (confined_casEntity _ _ _ _ _)
  · split at hg'
    · exact confined_mergeEntityBitemporal hg hg'
    · cases hg'
      exact confined_mergeEntity _ _ _ g

/-! ### Edges -/

theorem has_of_isEntity {i : ℕ} (h : i ∈ g.refs (·.isEntity w id)) :
    g.has (inWorkspace w) i = true :=
  has_inWorkspace (fun _ hn => workspaceId_of_isEntity hn) (mem_refs.1 h)

theorem mem_endsOf {params : EdgeParams} {pair : ℕ × ℕ} (h : pair ∈ endsOf params w g) :
    g.has (inWorkspace w) pair.1 = true ∧ g.has (inWorkspace w) pair.2 = true := by
  simp only [endsOf, mem_flatMap, mem_map] at h
  obtain ⟨a, ha, b, hb, rfl⟩ := h
  exact ⟨has_of_isEntity ha, has_of_isEntity hb⟩

variable {test : Rel → Bool} {onMatch : Rel → Rel}

theorem nodes_mergePairs {new : Rel} (l : List (ℕ × ℕ)) (g : Graph) :
    (l.foldl (fun g pair => g.mergeRel pair.1 pair.2 test new onMatch) g).nodes = g.nodes :=
  foldl_keeps (I := fun c : Graph => c.nodes = g.nodes)
    (fun c _ _ hc => by rw [nodes_mergeRel, hc]) rfl

theorem confined_mergePairs {new : Rel} {l : List (ℕ × ℕ)}
    (hl : ∀ pair ∈ l, g.has (inWorkspace w) pair.1 = true ∧ g.has (inWorkspace w) pair.2 = true)
    (hnew : new.workspaceId = none ∨ new.workspaceId = some w)
    (hmatch : ∀ d, (onMatch d).workspaceId = d.workspaceId) :
    Confined w g (l.foldl (fun g pair => g.mergeRel pair.1 pair.2 test new onMatch) g) := by
  refine confined_foldl (I := fun c => c.nodes = g.nodes)
    (fun c pair hpair hc => ⟨?_, ?_⟩) rfl
  · obtain ⟨ha, hb⟩ := hl pair hpair
    rw [← has_of_nodes hc] at ha hb
    exact confined_mergeRel ⟨ha, hb, hnew⟩ fun d _ => hmatch d
  · rw [nodes_mergeRel, hc]

theorem confined_mergeEdge (params : EdgeParams) (now : ℕ) (g : Graph) :
    Confined w g (mergeEdge cfg params w now g) :=
  confined_mergePairs (fun _ => mem_endsOf) (.inr rfl) fun _ => rfl

theorem confined_versionEdge {cfg : Neo4j.Config} {params : EdgeParams} {pair : ℕ × ℕ}
    (ha : g.has (inWorkspace w) pair.1 = true) (hb : g.has (inWorkspace w) pair.2 = true) :
    Confined w g (versionEdge cfg params w now g pair) ∧
      (versionEdge cfg params w now g pair).nodes = g.nodes := by
  simp only [versionEdge]
  split
  · refine ⟨?_, ?_⟩
    · refine Relation.ReflTransGen.trans (.single (.setRels fun r _ => ?_))
        (confined_foldl (I := fun c => c.nodes = g.nodes)
          (fun c r _ hc => ⟨.single (.connect ⟨?_, ?_, ?_⟩), ?_⟩) rfl)
      · split
        · rename_i hsuperseded
          rw [Bool.and_eq_true, isOpenBetween, Bool.and_eq_true, Bool.and_eq_true] at hsuperseded
          exact .inr ⟨isWithin_of_rel (workspaceId_of_isOf hsuperseded.1.1.2), rfl⟩
        · exact .inl rfl
      · rw [has_of_nodes hc]
        exact ha
      · rw [has_of_nodes hc]
        exact hb
      · exact .inr rfl
      · rw [nodes_connect, hc]
    · exact foldl_keeps (I := fun c : Graph => c.nodes = g.nodes)
        (fun c r _ hc => by rw [nodes_connect, hc]) rfl
  · exact ⟨.single (.connect ⟨ha, hb, .inr rfl⟩), nodes_connect _ g⟩

theorem confined_writeEdge (params : EdgeParams) (now : ℕ) (g : Graph) :
    Confined w g (writeEdge cfg params w now g) := by
  rw [writeEdge]
  split
  · refine confined_foldl (I := fun c => c.nodes = g.nodes)
      (fun c pair hpair hc => ?_) rfl
    obtain ⟨ha, hb⟩ := mem_endsOf hpair
    rw [← has_of_nodes hc] at ha hb
    obtain ⟨hconfined, hnodes⟩ := confined_versionEdge ha hb
    exact ⟨hconfined, hnodes.trans hc⟩
  · exact confined_mergeEdge cfg params now g

theorem confined_upsertEdge {cfg : Neo4j.Config} {edge : EdgeUpsert}
    (hg' : upsertEdge cfg edge w now g = .ok g') : Confined w g g' := by
  simp only [upsertEdge] at hg'
  split at hg'
  · cases hg'
  · split at hg'
    · split at hg'
      · cases hg'
        exact .refl
      · cases hg'
        exact (confined_advanceSourceCheckpoint _ _ _ _ _ g).trans (confined_writeEdge _ _ _ _)
    · cases hg'
      exact confined_writeEdge _ _ _ g

theorem foldl_mergeRel_eq (a : ℕ) (test : Rel → Bool) (new : Rel) (onMatch : Rel → Rel)
    (l : List ℕ) (g : Graph) :
    l.foldl (fun g b => g.mergeRel a b test new onMatch) g =
      (l.map fun b => (a, b)).foldl
        (fun g pair => g.mergeRel pair.1 pair.2 test new onMatch) g := by
  rw [foldl_map]

theorem nodes_mergeFrom {a : ℕ} {new : Rel} {l : List ℕ} (g : Graph) :
    (l.foldl (fun g b => g.mergeRel a b test new onMatch) g).nodes = g.nodes := by
  rw [foldl_mergeRel_eq]
  exact nodes_mergePairs _ g

theorem confined_mergeFrom {a : ℕ} {new : Rel} {l : List ℕ} (ha : g.has (inWorkspace w) a = true)
    (hl : ∀ b ∈ l, g.has (inWorkspace w) b = true)
    (hnew : new.workspaceId = none ∨ new.workspaceId = some w)
    (hmatch : ∀ d, (onMatch d).workspaceId = d.workspaceId) :
    Confined w g (l.foldl (fun g b => g.mergeRel a b test new onMatch) g) := by
  rw [foldl_mergeRel_eq]
  refine confined_mergePairs (fun pair hpair => ?_) hnew hmatch
  obtain ⟨b, hb, rfl⟩ := mem_map.1 hpair
  exact ⟨ha, hl b hb⟩

theorem confined_mergeEdgeByName (gcfg : GraphConfig) (source : Uuid) (targetName edgeType : String)
    (sourceId : Option String) (metadata : Metadata) (now : ℕ) (g : Graph) :
    Confined w g (mergeEdgeByName gcfg source targetName edgeType sourceId metadata w now g) := by
  refine confined_foldl (I := KeepsNodes w g) (fun c a ha hc => ?_) fun _ hi => hi
  set target := (findByName w targetName c).getD (gcfg.stubEntityId w targetName)
  set merged := c.mergeNode (·.isEntity w target) { bareEntity w target with
      name := some targetName
      isStub := some true
      createdAt := some (.text now) } (fun n => n) with hmerged
  have hkeeps : KeepsNodes w c merged := fun i hi =>
    has_mergeNode (fun n _ hn => hn) hi
  have hnode : Confined w c merged := by
    refine confined_mergeNode ?_ (fun n hn => ?_) c
    · rfl
    · exact ⟨workspaceId_of_isEntity hn, workspaceId_of_isEntity hn⟩
  have hsource := hkeeps a (hc a (has_of_isEntity ha))
  refine ⟨hnode.trans (confined_mergeFrom hsource (fun b hb => has_of_isEntity hb)
    (.inr rfl) fun d => ?_), fun i hi => ?_⟩
  · rfl
  · rw [has_of_nodes (nodes_mergeFrom merged)]
    exact hkeeps i (hc i hi)

variable {gcfg : GraphConfig}

theorem confined_upsertEdgeByName {source : Uuid} {targetName edgeType : String}
    {metadata : Metadata}
    (hg' : upsertEdgeByName gcfg source targetName edgeType metadata w now g = .ok g') :
    Confined w g g' := by
  unfold upsertEdgeByName at hg'
  split at hg'
  · cases hg'
  · cases hg'
    exact confined_mergeEdgeByName _ _ _ _ _ _ _ g

/-! ### Batches and tombstones -/

theorem keepsNodes_setNodes {f : ℕ → Node → Node}
    (h : ∀ i n, (f i n).workspaceId = n.workspaceId) : KeepsNodes w g (g.setNodes f) := by
  intro i hi
  rw [has_setNodes _ fun j n _ => carries_congr (h j n)]
  exact hi

theorem confined_setNodes {f : ℕ → Node → Node} (selected : ℕ → Bool)
    (hselected : ∀ i, selected i = true → g.has (inWorkspace w) i = true)
    (h : ∀ i n, (f i n).workspaceId = n.workspaceId)
    (hother : ∀ i n, selected i = false → f i n = n) : Confined w g (g.setNodes f) := by
  refine .single (.setNodes fun i n hn => ?_)
  cases hi : selected i with
  | true =>
    have hws := workspaceId_of_has hn (hselected i hi)
    exact .inr ⟨hws, (h i n).trans hws⟩
  | false => exact .inl (hother i n hi)

theorem confined_detachDelete {doomed : ℕ → Bool}
    (h : ∀ i, doomed i = true → g.has (inWorkspace w) i = true) :
    Confined w g (g.detachDelete doomed) :=
  .single (.detachDelete fun i _ hn hdoomed => workspaceId_of_has hn (h i hdoomed))

theorem workspaceId_of_isOfSource {n : Node} {sourceId : String}
    (h : n.isOfSource w sourceId = true) : n.workspaceId = some w := by
  rw [Node.isOfSource, Bool.and_eq_true] at h
  exact workspaceId_of_isIn h.1

theorem confined_deleteBySource (sourceId : String) (g : Graph) :
    Confined w g (deleteBySource w sourceId g) :=
  confined_detachDelete fun _ => has_inWorkspace fun _ => workspaceId_of_isOfSource

theorem confined_endDateNodes (hg : Separated w g) {selected : ℕ → Bool}
    (hselected : ∀ i, selected i = true → g.has (inWorkspace w) i = true) (now : ℕ) :
    Confined w g (endDateNodes selected now g) := by
  have hkeeps : ∀ i n, (if selected i then
      { n with validTo := some (.datetime now), updatedAt := some (.text now) }
    else n : Node).workspaceId = n.workspaceId := by
    intro i n
    split
    · rfl
    · rfl
  have hended := confined_setNodes selected hselected hkeeps fun i n hi => by rw [hi]; rfl
  exact hended.trans (confined_closeStates (hended.separated hg)
    (fun i hi => keepsNodes_setNodes hkeeps i (hselected i hi)) now)

theorem confined_endDateRels (selected : ℕ → Bool) (now : ℕ) (g : Graph) :
    Confined w g (endDateRels selected w now g) := by
  refine .single (.setRels fun r _ => ?_)
  split
  · rename_i hr
    rw [Bool.and_eq_true, Bool.and_eq_true, decide_eq_true_eq] at hr
    exact .inr ⟨isWithin_of_rel hr.1.2, rfl⟩
  · exact .inl rfl

theorem confined_endDateBySource (hg : Separated w g) (sourceId : String)
    (batchEntityIds : List Uuid) (now : ℕ) :
    Confined w g (endDateBySource w sourceId batchEntityIds now g) := by
  refine (confined_endDateNodes hg (fun i hi => ?_) now).trans (confined_endDateRels _ now _)
  refine has_inWorkspace (fun n hn => ?_) hi
  rw [Bool.and_eq_true, Bool.and_eq_true] at hn
  exact workspaceId_of_isOfSource hn.1.1

theorem confined_retire (gcfg : GraphConfig) (u : GraphUpsert) (hg : Separated w g) :
    Confined w g (retire gcfg u w g) := by
  rw [retire]
  split
  · exact confined_deleteBySource _ g
  · split
    · exact confined_endDateBySource hg _ _ _
    · exact .refl

variable {u : GraphUpsert}

theorem confined_writeEntity (hg : Separated w g) (hg' : writeEntity gcfg u w now g entity = .ok g') :
    Confined w g g' := by
  simp only [writeEntity] at hg'
  split at hg'
  · exact confined_mergeEntityBitemporal hg hg'
  · cases hg'
    exact confined_mergeEntity _ _ _ g

theorem confined_writeBatchEdge {edge : BatchEdge}
    (hg' : writeBatchEdge gcfg u w now g edge = .ok g') : Confined w g g' := by
  unfold writeBatchEdge at hg'
  split at hg'
  · cases hg'
  · cases hg'
    exact confined_writeEdge _ _ _ g
  · split at hg'
    · cases hg'
      exact .refl
    · split at hg'
      · cases hg'
        exact .refl
      · split at hg'
        · cases hg'
        · split at hg'
          · cases hg'
            exact .refl
          · cases hg'
            exact confined_mergeEdgeByName _ _ _ _ _ _ _ g

theorem confined_passGuard (hg' : passGuard u w now g = some g') : Confined w g g' := by
  simp only [passGuard] at hg'
  split at hg'
  · cases hg'
    exact .refl
  · split at hg'
    · cases hg'
    · cases hg'
      exact (confined_advanceDocumentCheckpoint _ _ _ _ _ g).trans
        (confined_advanceSourceCheckpoint _ _ _ _ _ _)

theorem confined_upsertGraph (hws : u.workspace gcfg.py = .ok w) (hg : Separated w g)
    (hg' : upsertGraph gcfg u now g = .ok g') : Confined w g g' := by
  obtain ⟨workspaceId, hws', hcases⟩ := upsertGraph_cases hg'
  rw [hws, Except.ok.injEq] at hws'
  subst hws'
  rcases hcases with rfl | ⟨guarded, merged, hguarded, hmerged, hedges⟩
  · exact .refl
  have hfirst := confined_passGuard hguarded
  have hretired := hfirst.trans (confined_retire gcfg u (hfirst.separated hg))
  have hentities := Fold.foldlM_keeps hmerged (Confined w g) hretired
    fun _ _ _ _ hc hstep => hc.trans (confined_writeEntity (hc.separated hg) hstep)
  exact Fold.foldlM_keeps hedges (Confined w g) hentities
    fun _ _ _ _ hc hstep => hc.trans (confined_writeBatchEdge hstep)

theorem confined_endDateTombstoned (hg : Separated w g) (now : ℕ) :
    Confined w g (endDateTombstoned w now g) := by
  refine (confined_endDateNodes hg (fun i hi => ?_) now).trans (confined_endDateRels _ now _)
  refine has_inWorkspace (fun n hn => ?_) hi
  rw [Bool.and_eq_true, Bool.and_eq_true] at hn
  exact workspaceId_of_isIn hn.1.1

/-! ### Backfill -/

theorem confined_backfillEntityProps {k n : ℕ}
    (hg' : backfillEntityProps w k g = some (g', n)) : Confined w g g' := by
  cases hg'
  set batch := (g.refs fun n => n.isIn .entity w && n.validFrom.isNone).take k with hbatch
  refine confined_setNodes (fun i => decide (i ∈ batch)) (fun i hi => ?_)
    (fun i n => ?_) fun i n hi => if_neg (of_decide_eq_false hi)
  · refine has_inWorkspace (fun n hn => ?_)
      (mem_refs.1 (mem_of_mem_take (of_decide_eq_true hi)))
    rw [Bool.and_eq_true] at hn
    exact workspaceId_of_isIn hn.1
  · split
    · rfl
    · rfl

theorem workspaceId_of_isState {n : Node} {validFrom : Time} (h : n.isState w id validFrom = true) :
    n.workspaceId = some w := by
  rw [Node.isState, Bool.and_eq_true, Bool.and_eq_true] at h
  exact workspaceId_of_isIn h.1.1

theorem confined_backfillState {acc acc' : Graph × ℕ} {i : ℕ}
    (hi : acc.1.has (inWorkspace w) i = true) (h : backfillState acc i = some acc') :
    Confined w acc.1 acc'.1 ∧ KeepsNodes w acc.1 acc'.1 := by
  obtain ⟨n, workspaceId, id, validFrom, hn, hws, -, -, hacc'⟩ := backfillState_cases h
  rw [workspaceId_of_has hn hi, Option.some.injEq] at hws
  subst hws
  set merged := acc.1.mergeNode (·.isState w id validFrom) n.mirror fun s => s
  have hkeeps : KeepsNodes w acc.1 merged := fun j hj =>
    has_mergeNode (fun _ _ hown => hown) hj
  have hmerged : Confined w acc.1 merged := by
    refine confined_mergeNode ?_ (fun s hs => ?_) acc.1
    · have hmirror : n.mirror.workspaceId = n.workspaceId := rfl
      exact hmirror.trans (workspaceId_of_has hn hi)
    · exact ⟨workspaceId_of_isState hs, workspaceId_of_isState hs⟩
  rw [hacc']
  refine ⟨hmerged.trans (confined_mergeFrom (hkeeps i hi) (fun s hs => ?_) (.inl rfl)
    fun _ => rfl), fun j hj => ?_⟩
  · exact has_inWorkspace (fun _ => workspaceId_of_isState) (mem_refs.1 hs)
  · rw [has_of_nodes (nodes_mergeFrom merged)]
    exact hkeeps j hj

theorem confined_backfillEntityStateNodes {k n : ℕ}
    (hg' : backfillEntityStateNodes w k g = some (g', n)) : Confined w g g' := by
  refine (foldlM_keeps (I := fun acc => Confined w g acc.1 ∧ KeepsNodes w g acc.1)
    (fun i hi c c' hc hstep => ?_) ⟨.refl, fun _ hj => hj⟩ hg').1
  have hin : g.has (inWorkspace w) i = true := by
    refine has_inWorkspace (fun n hn => ?_)
      (mem_refs.1 (mem_filter.1 (mem_of_mem_take hi)).1)
    rw [Bool.and_eq_true] at hn
    exact workspaceId_of_isIn hn.1
  obtain ⟨hconfined, hkeeps⟩ := confined_backfillState (hc.2 i hin) hstep
  exact ⟨hc.1.trans hconfined, fun j hj => hkeeps j (hc.2 j hj)⟩

theorem confined_backfillEdgeProps {k n : ℕ} (hg' : backfillEdgeProps w k g = some (g', n)) :
    Confined w g g' := by
  cases hg'
  refine .single (.setFirstRels fun r _ hr => ?_)
  rw [Rel.isUntimed, Bool.and_eq_true, decide_eq_true_eq] at hr
  exact ⟨isWithin_of_rel hr.1, rfl⟩

theorem confined_backfillBitemporal (k fuel : ℕ) (g : Graph) :
    Confined w g (backfillBitemporal w k fuel g).1 := by
  rw [backfillBitemporal]
  split
  · exact .refl
  · refine loopAll_preserves (fun pass hpass c c' n hc hstep => hc.trans ?_) fuel .refl
    simp only [mem_cons, not_mem_nil, or_false] at hpass
    rcases hpass with rfl | rfl | rfl
    · exact confined_backfillEntityProps hstep
    · exact confined_backfillEntityStateNodes hstep
    · exact confined_backfillEdgeProps hstep

/-! ### Retention -/

section

variable (engine : Engine)

theorem confined_markStates {cutoff : Time} {k n : ℕ}
    (hg' : markStates engine w cutoff k g = some (g', n)) : Confined w g g' := by
  cases hg'
  set batch := (g.refs (·.isMarkable engine w cutoff)).take k with hbatch
  refine confined_setNodes (fun i => decide (i ∈ batch)) (fun i hi => ?_)
    (fun i n => ?_) fun i n hi => if_neg (of_decide_eq_false hi)
  · refine has_inWorkspace (fun n hn => ?_)
      (mem_refs.1 (mem_of_mem_take (of_decide_eq_true hi)))
    rw [Node.isMarkable, Bool.and_eq_true, Bool.and_eq_true, Bool.and_eq_true] at hn
    exact workspaceId_of_isIn hn.1.1.1
  · split
    · rfl
    · rfl

theorem confined_markEdges {cutoff : Time} {k n : ℕ}
    (hg' : markEdges engine w cutoff k g = some (g', n)) : Confined w g g' := by
  cases hg'
  refine .single (.setFirstRels fun r _ hr => ?_)
  rw [Rel.isMarkable, Bool.and_eq_true, Bool.and_eq_true, Bool.and_eq_true, decide_eq_true_eq] at hr
  exact ⟨isWithin_of_rel hr.1.1.1, rfl⟩

theorem confined_markHotToWarm (hotCutoff k fuel : ℕ) (g : Graph) :
    Confined w g (markHotToWarm engine w hotCutoff k fuel g).1 := by
  refine loopAll_preserves (fun pass hpass c c' n hc hstep => hc.trans ?_) fuel .refl
  simp only [mem_cons, not_mem_nil, or_false] at hpass
  rcases hpass with rfl | rfl
  · exact confined_markStates engine hstep
  · exact confined_markEdges engine hstep

theorem confined_moveState {i : ℕ} (hi : g.has (inWorkspace w) i = true)
    (h : moveState engine g i = some g') : Confined w g g' ∧ KeepsNodes w g g' := by
  obtain ⟨s, hs, -⟩ := has_iff.1 hi
  have hof := workspaceId_of_has hs hi
  obtain ⟨workspaceId, id, recordedAt, hws, -, -, rfl⟩ := moveState_cases hs h
  rw [hof, Option.some.injEq] at hws
  subst hws
  have hnew : (s.snapshot recordedAt.day).workspaceId = some w := hof
  refine ⟨confined_mergeNode hnew (fun snap hsnap => ?_) g, fun j hj => ?_⟩
  · rw [Node.isEntitySnapshot, Bool.and_eq_true, Bool.and_eq_true] at hsnap
    have hin := workspaceId_of_isIn hsnap.1.1
    exact ⟨hin, hin⟩
  · refine has_mergeNode (fun snap _ hsnap => ?_) hj
    exact hsnap

theorem confined_moveStates {k n : ℕ} (hg' : moveStates engine w k g = some (g', n)) :
    Confined w g g' := by
  rw [moveStates, Option.bind_eq_bind, Option.bind_eq_some_iff] at hg'
  obtain ⟨moved, hmoved, hg'⟩ := hg'
  cases hg'
  have hbatch : ∀ i ∈ (g.refs (·.isPending w)).take k, g.has (inWorkspace w) i = true := by
    intro i hi
    refine has_inWorkspace (fun n hn => ?_) (mem_refs.1 (mem_of_mem_take hi))
    rw [Node.isPending, Bool.and_eq_true] at hn
    exact workspaceId_of_isIn hn.1
  obtain ⟨hconfined, hkeeps⟩ : Confined w g moved ∧ KeepsNodes w g moved := by
    refine foldlM_keeps (I := fun c => Confined w g c ∧ KeepsNodes w g c)
      (fun i hi c c' hc hstep => ?_) ⟨.refl, fun _ hj => hj⟩ hmoved
    obtain ⟨hstep', hkept⟩ := confined_moveState engine (hc.2 i (hbatch i hi)) hstep
    exact ⟨hc.1.trans hstep', fun j hj => hkept j (hc.2 j hj)⟩
  exact hconfined.trans (confined_detachDelete fun i hi =>
    hkeeps i (hbatch i (of_decide_eq_true hi)))

theorem confined_moveEdge {r : Arc Rel} (hr : r.data.workspaceId = some w)
    (h : moveEdge g r = some g') : Confined w g g' := by
  obtain ⟨workspaceId, source, target, edgeType, recordedAt, hws, -, -, -, -, rfl⟩ :=
    moveEdge_cases h
  rw [hr, Option.some.injEq] at hws
  subst hws
  have hnew : (r.data.snapshot source target recordedAt.day).workspaceId = some w := hr
  refine confined_mergeNode hnew (fun snap hsnap => ?_) g
  simp only [Node.isRelationshipSnapshot, Bool.and_eq_true] at hsnap
  have hin := workspaceId_of_isIn hsnap.1.1.1.1
  exact ⟨hin, hin⟩

theorem workspaceId_of_isPendingEdge {r : Arc Rel} (h : isPendingEdge g w r = true) :
    r.data.workspaceId = some w := by
  rw [isPendingEdge, Bool.and_eq_true, Bool.and_eq_true, Bool.and_eq_true, decide_eq_true_eq] at h
  exact h.1.1.1

theorem confined_moveEdges {k n : ℕ} (hg' : moveEdges w k g = some (g', n)) : Confined w g g' := by
  rw [moveEdges, Option.bind_eq_bind, Option.bind_eq_some_iff] at hg'
  obtain ⟨moved, hmoved, hg'⟩ := hg'
  cases hg'
  have hconfined : Confined w g moved := by
    refine foldlM_keeps (fun r hr c c' hc hstep => ?_) .refl hmoved
    have hpending := (mem_filter.1 (mem_of_mem_take hr)).2
    exact hc.trans (confined_moveEdge (workspaceId_of_isPendingEdge hpending) hstep)
  exact hconfined.tail (.deleteFirstRels fun r _ hr =>
    isWithin_of_rel (workspaceId_of_isPendingEdge hr))

theorem confined_moveHotToWarm (k fuel : ℕ) (g : Graph) :
    Confined w g (moveHotToWarm engine w k fuel g).1 := by
  refine loopAll_preserves (fun pass hpass c c' n hc hstep => hc.trans ?_) fuel .refl
  simp only [mem_cons, not_mem_nil, or_false] at hpass
  rcases hpass with rfl | rfl
  · exact confined_moveStates engine hstep
  · exact confined_moveEdges hstep

theorem workspaceId_of_isWarmRow {n : Node} {label : Label} {day : ℕ}
    (h : n.isWarmRow engine label w day = true) : n.workspaceId = some w := by
  rw [Node.isWarmRow, Bool.and_eq_true] at h
  exact workspaceId_of_isIn h.1

theorem confined_deleteWarmEntitySnapshot (day : ℕ) (g : Graph) :
    Confined w g (deleteWarmEntitySnapshot engine w day g) :=
  confined_detachDelete fun _ => has_inWorkspace fun _ => workspaceId_of_isWarmRow engine

theorem confined_deleteWarmRelationshipSnapshot {day : ℕ}
    (hg' : deleteWarmRelationshipSnapshot engine w day g = some g') : Confined w g g' := by
  simp only [deleteWarmRelationshipSnapshot] at hg'
  split at hg'
  · cases hg'
  · cases hg'
    exact confined_detachDelete fun _ => has_inWorkspace fun _ => workspaceId_of_isWarmRow engine

end

/-! ### Stubs -/

theorem mem_stubPairs_inWorkspace {pair : ℕ × ℕ} (h : pair ∈ stubPairs w g) :
    g.has (inWorkspace w) pair.2 = true := by
  obtain ⟨n, -, -, hreal⟩ := mem_stubPairs.1 h
  obtain ⟨item, hitem, heq⟩ := Option.map_eq_some_iff.1 hreal
  have hmem := argmin_mem hitem
  have hitem' := (mem_filter.1 hmem).2
  simp only [Node.isRealNamed, Bool.and_eq_true] at hitem'
  rw [← heq]
  exact has_iff.2 ⟨item.2, get?_of_mem_matching hmem,
    carries_iff.2 (workspaceId_of_isIn hitem'.1.1.1)⟩

theorem isInner_of_isOf (hg : Separated w g) {r : Arc Rel} (hr : r ∈ g.rels) {relType : String}
    (h : r.data.isOf relType w = true) : isWithin w g r = true ∧ IsInner w g r := by
  have hwithin : isWithin w g r = true := isWithin_of_rel (workspaceId_of_isOf h)
  exact ⟨hwithin, hg r hr hwithin⟩

theorem confined_rowsAt (hg : Separated w g) (inward : Bool) (k : ℕ) (relType : String) :
    Confined w g (g.relocate Rel.isMergeable
      (rowsAt inward w relType ((stubPairs w g).take k) g)) := by
  refine confined_relocate fun row hrow => ?_
  obtain ⟨pair, hpair, hr, -, -, hof, hnew⟩ := (mem_rowsAt _).1 hrow
  obtain ⟨hwithin, hinner⟩ := isInner_of_isOf hg hr hof
  have hkey := mem_stubPairs_inWorkspace (mem_of_mem_take hpair)
  rw [hnew]
  cases inward
  · exact ⟨hwithin, hkey, hinner.target, hinner.label⟩
  · exact ⟨hwithin, hinner.source, hkey, hinner.label⟩

theorem confined_relocateType (hg : Separated w g) (k : ℕ) (relType : String) :
    Confined w g (relocateType w k g relType) :=
  have hinward := confined_rowsAt hg true k relType
  hinward.trans (confined_rowsAt (hinward.separated hg) false k relType)

theorem confined_deleteStubs (k : ℕ) (g : Graph) : Confined w g (deleteStubs w k g).1 := by
  refine confined_detachDelete fun i hi => ?_
  have hmem := (mem_filter.1 (of_decide_eq_true hi)).1
  obtain ⟨pair, hpair, rfl⟩ := mem_map.1 hmem
  obtain ⟨n, hn, hstub, -⟩ := mem_stubPairs.1 (mem_of_mem_take hpair)
  rw [Node.isStubIn, Bool.and_eq_true] at hstub
  exact has_iff.2 ⟨n, hn, carries_iff.2 (workspaceId_of_isIn hstub.1)⟩

theorem confined_resolvePass {k n : ℕ} (hg : Separated w g)
    (hg' : resolvePass w k g = some (g', n)) : Confined w g g' := by
  simp only [resolvePass] at hg'
  split at hg'
  · cases hg'
  · cases hg'
    have hmoved : Confined w g (((listStubRelationshipTypes w g).filter (· ≠ hadState)).foldl
        (relocateType w k) g) := by
      refine confined_foldl (I := Separated w) (fun c relType _ hc => ?_) hg
      have hstep := confined_relocateType hc k relType
      exact ⟨hstep, hstep.separated hc⟩
    exact hmoved.trans (confined_deleteStubs k _)

theorem confined_resolvePendingStubs (hg : Separated w g) (fuel : ℕ) :
    Confined w g (resolvePendingStubs w fuel g).1 :=
  loopCount_preserves (fun hc hstep => hc.trans (confined_resolvePass (hc.separated hg) hstep))
    fuel .refl

/-! ### Merging -/

theorem has_of_hasKey {id : Option Uuid} {i : ℕ} (h : i ∈ g.refs (·.hasKey w id)) :
    g.has (inWorkspace w) i = true := by
  refine has_inWorkspace (fun n hn => ?_) (mem_refs.1 h)
  rw [Node.hasKey, Bool.and_eq_true, Bool.and_eq_true, decide_eq_true_eq] at hn
  exact hn.1.1

theorem confined_connectAll {l : List (Arc Rel)} (h : ∀ a ∈ l, IsInner w g a) :
    Confined w g (g.connectAll l) := by
  refine confined_foldl (I := fun c => c.nodes = g.nodes) (fun c a ha hc => ?_) rfl
  exact ⟨.single (.connect ((h a ha).of_nodes hc)), (nodes_connect a c).trans hc⟩

theorem confined_arcsTo {row : RelRow} (hrow : row.data.workspaceId = some w) (g : Graph) :
    Confined w g (g.connectAll (arcsTo w id g row)) := by
  refine confined_connectAll fun a ha => ?_
  simp only [arcsTo, mem_flatMap, mem_map] at ha
  obtain ⟨x, hx, b, hb, rfl⟩ := ha
  exact ⟨has_of_hasKey hx, has_of_isEntity hb, .inr hrow⟩

theorem confined_arcsFrom {row : RelRow} (hrow : row.data.workspaceId = some w) (g : Graph) :
    Confined w g (g.connectAll (arcsFrom w id g row)) := by
  refine confined_connectAll fun a ha => ?_
  simp only [arcsFrom, mem_flatMap, mem_map] at ha
  obtain ⟨b, hb, y, hy, rfl⟩ := ha
  exact ⟨has_of_isEntity hb, has_of_hasKey hy, .inr hrow⟩

theorem confined_redraw {inc out : List RelRow} (hinc : ∀ row ∈ inc, row.data.workspaceId = some w)
    (hout : ∀ row ∈ out, row.data.workspaceId = some w) (g : Graph) :
    Confined w g (redraw w id inc out g) :=
  (confined_foldl (I := fun _ => True)
    (fun c row hrow _ => ⟨confined_arcsTo (hinc row hrow) c, trivial⟩) trivial).trans
    (confined_foldl (I := fun _ => True)
      (fun c row hrow _ => ⟨confined_arcsFrom (hout row hrow) c, trivial⟩) trivial)

theorem workspaceId_of_isMovable {r : Rel} (h : r.isMovable w = true) : r.workspaceId = some w := by
  rw [Rel.isMovable, Bool.and_eq_true, Bool.and_eq_true, decide_eq_true_eq] at h
  exact h.1.1

theorem workspaceId_of_isMoved {r : Rel} (h : r.isMoved w id = true) : r.workspaceId = some w := by
  rw [Rel.isMoved, Bool.and_eq_true, decide_eq_true_eq] at h
  exact h.1

theorem workspaceId_of_mem_rows (htest : ∀ r, test r = true → r.workspaceId = some w) (id : Uuid)
    {f : RelRow → RelRow} (hf : ∀ row, (f row).data.workspaceId = row.data.workspaceId) :
    (∀ row ∈ (incoming test w id g).map f, row.data.workspaceId = some w) ∧
      ∀ row ∈ (outgoing test w id g).map f, row.data.workspaceId = some w := by
  refine ⟨fun row hrow => ?_, fun row hrow => ?_⟩
  · obtain ⟨row₀, hrow₀, rfl⟩ := mem_map.1 hrow
    obtain ⟨r, hr, rfl⟩ := mem_map.1 hrow₀
    have hdata := (mem_filter.1 hr).2
    rw [Bool.and_eq_true] at hdata
    exact (hf _).trans (htest r.data hdata.2)
  · obtain ⟨row₀, hrow₀, rfl⟩ := mem_map.1 hrow
    obtain ⟨r, hr, rfl⟩ := mem_map.1 hrow₀
    have hdata := (mem_filter.1 hr).2
    rw [Bool.and_eq_true] at hdata
    exact (hf _).trans (htest r.data hdata.2)

theorem confined_setEntity {f : Node → Node} (hf : ∀ n, (f n).workspaceId = n.workspaceId)
    (g : Graph) : Confined w g (g.setNodes fun _ n => if n.isEntity w id then f n else n) := by
  refine .single (.setNodes fun i n _ => ?_)
  by_cases hn : n.isEntity w id = true
  · rw [if_pos hn]
    exact .inr ⟨workspaceId_of_isEntity hn, (hf n).trans (workspaceId_of_isEntity hn)⟩
  · exact .inl (if_neg hn)

theorem confined_link (sourceId targetId : Uuid) (g : Graph) :
    Confined w g (link w sourceId targetId g) := by
  rw [link]
  refine Relation.ReflTransGen.trans ?_ (confined_setEntity (fun n => ?_) _)
  · refine confined_mergePairs (fun pair hpair => ?_) (.inr rfl) fun _ => rfl
    simp only [mem_flatMap, mem_map] at hpair
    obtain ⟨a, ha, b, hb, rfl⟩ := hpair
    exact ⟨has_of_isEntity ha, has_of_isEntity hb⟩
  · rfl

theorem confined_mergeNodes (sourceId targetId : Uuid) (g : Graph) :
    Confined w g (mergeNodes w sourceId targetId g).1 := by
  rw [mergeNodes]
  split
  · exact .refl
  · have hrows := workspaceId_of_mem_rows (w := w) (g := link w sourceId targetId g)
      (fun _ => workspaceId_of_isMovable) sourceId (f := (·.mark sourceId)) fun _ => rfl
    refine ((confined_link sourceId targetId g).trans (confined_redraw hrows.1 hrows.2 _)).tail
      (.deleteRels fun r _ hr => ?_)
    rw [Bool.and_eq_true] at hr
    exact isWithin_of_rel (workspaceId_of_isMovable hr.2)

theorem confined_split (mergedNodeId targetId : Uuid) (g : Graph) :
    Confined w g (split w mergedNodeId targetId g) := by
  have hmoved : ∀ r : Rel, r.isMoved w mergedNodeId = true → r.workspaceId = some w :=
    fun _ => workspaceId_of_isMoved
  have hrows := workspaceId_of_mem_rows (g := g) hmoved targetId (f := RelRow.unmark) fun _ => rfl
  rw [split]
  refine Relation.ReflTransGen.trans ?_ (confined_setEntity (fun n => ?_) _)
  on_goal 2 => rfl
  refine ((confined_redraw hrows.1 hrows.2 g).tail (.deleteRels fun r _ hr => ?_)).tail
    (.deleteRels fun r _ hr => ?_)
  · rw [Bool.and_eq_true] at hr
    exact isWithin_of_rel (workspaceId_of_isMoved hr.2)
  · rw [Bool.and_eq_true, Bool.and_eq_true] at hr
    exact isWithin_of_source (has_inWorkspace (fun _ => workspaceId_of_isEntity) hr.1.1)

theorem confined_unmergeNode (mergedNodeId : Uuid) (g : Graph) :
    Confined w g (unmergeNode w mergedNodeId g).1 := by
  unfold unmergeNode
  split
  · exact .refl
  · split
    · exact .refl
    · exact confined_split mergedNodeId _ g

end

end Omniscience.Cypher
