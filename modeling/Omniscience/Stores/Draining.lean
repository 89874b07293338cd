import Omniscience.Stores.Archive
import Omniscience.Stores.Bitemporal
import Omniscience.Stores.Writes

/-!
# What a run drains

A run of the retention worker on a server with Cypher's own comparison, where nothing is before a
value of another type.  The writers keep `recorded_at` as a temporal value and the backfill as a
text, the move writes `snapshot_date` as a temporal value, and every parameter is a text.  So a run
moves what the backfill has written and a later write has closed, and nothing else, and it never
archives a day.
-/

namespace Omniscience.Cypher

open Outbox PropertyGraph List
open Neo4j (GraphConfig)
open Qdrant (dayOf archiveDatesPerRun)

/-! ### Marking everything -/

section

variable {α : Type*} {mark : α → Bool} {tag : α → α}

/-- The second list is the first with some of the elements that can be marked tagged. -/
def Tagged (mark : α → Bool) (tag : α → α) : List α → List α → Prop :=
  List.Forall₂ fun a b => b = a ∨ mark a = true ∧ b = tag a

theorem Tagged.refl (l : List α) : Tagged mark tag l l :=
  forall₂_same.2 fun _ _ => .inl rfl

theorem Tagged.trans (htag : ∀ a, mark (tag a) = false) {l l' l'' : List α}
    (h : Tagged mark tag l l') (h' : Tagged mark tag l' l'') : Tagged mark tag l l'' := by
  induction h generalizing l'' with
  | nil => exact h'
  | cons hab _ ih =>
    cases h' with
    | cons hbc hrest =>
      refine List.Forall₂.cons ?_ (ih hrest)
      rcases hab with rfl | ⟨ha, rfl⟩
      · exact hbc
      · -- what is tagged is not marked again
        rcases hbc with rfl | ⟨hb, -⟩
        · exact .inr ⟨ha, rfl⟩
        · rw [htag] at hb
          cases hb

theorem Tagged.eq_map {l l' : List α} (h : Tagged mark tag l l')
    (hnone : ∀ b ∈ l', mark b = false) : l' = l.map fun a => if mark a then tag a else a := by
  induction h with
  | nil => rfl
  | cons hab _ ih =>
    rename_i a b l l' _
    rw [map_cons, ← ih fun c hc => hnone c (mem_cons_of_mem _ hc)]
    rcases hab with rfl | ⟨ha, rfl⟩
    · rw [if_neg (by simp [hnone b mem_cons_self])]
    · rw [if_pos ha]

theorem Tagged.eq_self {l l' : List α} (h : Tagged mark tag l l')
    (hnone : ∀ a ∈ l, mark a = false) : l' = l := by
  induction h with
  | nil => rfl
  | cons hab _ ih =>
    rename_i a b l l' _
    rw [ih fun c hc => hnone c (mem_cons_of_mem _ hc)]
    rcases hab with rfl | ⟨ha, -⟩
    · rfl
    · rw [hnone a mem_cons_self] at ha
      cases ha

theorem tagged_map {f : α → α} (l : List α)
    (h : ∀ a ∈ l, f a = a ∨ mark a = true ∧ f a = tag a) : Tagged mark tag l (l.map f) := by
  induction l with
  | nil => exact List.Forall₂.nil
  | cons a l ih =>
    exact List.Forall₂.cons (h a mem_cons_self) (ih fun b hb => h b (mem_cons_of_mem _ hb))

theorem tagged_mapFirst (k : ℕ) (l : List α) : Tagged mark tag l (mapFirst mark tag k l) := by
  induction l generalizing k with
  | nil =>
    rw [mapFirst_nil]
    exact .refl _
  | cons a l ih =>
    cases k with
    | zero => exact .refl _
    | succ k =>
      rw [mapFirst]
      split
      · rename_i ha
        exact List.Forall₂.cons (.inr ⟨ha, rfl⟩) (ih k)
      · exact List.Forall₂.cons (.inl rfl) (ih (k + 1))

end

variable {engine : Engine}

/-- The state with its tag, if it is due. -/
def Node.marked (engine : Engine) (workspaceId : Uuid) (cutoff : Time) (n : Node) : Node :=
  if n.isMarkable engine workspaceId cutoff then { n with tierPending := true } else n

/-- The relationship with its tag, if it is due. -/
def Rel.marked (engine : Engine) (workspaceId : Uuid) (cutoff : Time) (r : Rel) : Rel :=
  if r.isMarkable engine workspaceId cutoff then { r with tierPending := true } else r

variable {g g' : Graph}

theorem loopCount_tags {α β : Type} (view : Graph → List α) (rest : Graph → β) {mark : α → Bool}
    {tag : α → α} (htag : ∀ a, mark (tag a) = false) {pass : Graph → Option (Graph × ℕ)}
    (hpass : ∀ {g g' n}, pass g = some (g', n) → rest g' = rest g ∧ Tagged mark tag (view g) (view g') ∧ (n = 0 → ∀ a ∈ view g, mark a = false))
    {fuel : ℕ} (h : loopCount pass fuel g = (g', true)) :
    rest g' = rest g ∧ view g' = (view g).map fun a => if mark a then tag a else a := by
  have hkept : rest g' = rest g ∧ Tagged mark tag (view g) (view g') := by
    have hloop : (loopCount pass fuel g).1 = g' := congrArg Prod.fst h
    rw [← hloop]
    refine loopCount_preserves (P := fun g' => rest g' = rest g ∧ Tagged mark tag (view g) (view g'))
      (fun hg hg' => ?_) fuel ⟨rfl, .refl _⟩
    obtain ⟨hrest, htagged, -⟩ := hpass hg'
    exact ⟨hrest.trans hg.1, hg.2.trans htag htagged⟩
  -- the last pass has found nothing
  obtain ⟨g₁, hlast⟩ := loopCount_last h
  obtain ⟨-, htagged, hnone⟩ := hpass hlast
  refine ⟨hkept.1, hkept.2.eq_map ?_⟩
  rw [htagged.eq_self (hnone rfl)]
  exact hnone rfl

variable {workspaceId w : Uuid}

theorem markStates_tags {cutoff : Time} {k n : ℕ} (hk : 0 < k)
    (h : markStates engine w cutoff k g = some (g', n)) :
    g'.rels = g.rels ∧
      Tagged (fun item : ℕ × Node => item.2.isMarkable engine w cutoff)
        (fun item => (item.1, { item.2 with tierPending := true })) g.nodes.items g'.nodes.items ∧
      (n = 0 → ∀ item ∈ g.nodes.items, item.2.isMarkable engine w cutoff = false) := by
  cases h
  refine ⟨rfl, tagged_map _ fun item hitem => ?_, fun hn item hitem => ?_⟩
  · by_cases hbatch : item.1 ∈ (g.refs (·.isMarkable engine w cutoff)).take k
    · obtain ⟨n, hn, htest⟩ := has_iff.1 (mem_refs.1 (mem_of_mem_take hbatch))
      rw [Dict.get?_of_mem_items hitem, Option.some.injEq] at hn
      exact .inr ⟨hn ▸ htest, Prod.ext rfl (if_pos hbatch)⟩
    · exact .inl (Prod.ext rfl (if_neg hbatch))
  · rw [length_take, refs, length_map] at hn
    have hnil : g.matching (·.isMarkable engine w cutoff) = [] :=
      length_eq_zero_iff.1 (by omega)
    exact Bool.eq_false_iff.2 (filter_eq_nil_iff.1 hnil item hitem)

theorem markStates_loop {cutoff : Time} {k fuel : ℕ} (hk : 0 < k)
    (h : loopCount (markStates engine w cutoff k) fuel g = (g', true)) :
    g' = g.setNodes fun _ n => n.marked engine w cutoff := by
  obtain ⟨hrels, hitems⟩ := loopCount_tags (fun g => g.nodes.items) rels
    (fun item => by simp [Node.isMarkable]) (markStates_tags hk) h
  refine PropertyGraph.ext (Dict.eq_of_items (hitems.trans ?_)) hrels
  refine map_congr_left fun item _ => ?_
  simp only [Node.marked]
  split
  · rfl
  · rfl

theorem markEdges_tags {cutoff : Time} {k n : ℕ} (hk : 0 < k)
    (h : markEdges engine w cutoff k g = some (g', n)) :
    g'.nodes = g.nodes ∧
      Tagged (fun r : Arc Rel => r.data.isMarkable engine w cutoff)
        (fun r => { r with data := { r.data with tierPending := true } }) g.rels g'.rels ∧
      (n = 0 → ∀ r ∈ g.rels, r.data.isMarkable engine w cutoff = false) := by
  cases h
  refine ⟨rfl, tagged_mapFirst k g.rels, fun hn r hr => ?_⟩
  have hcount : g.rels.countP (fun r => r.data.isMarkable engine w cutoff) = 0 := by
    omega
  exact Bool.eq_false_iff.2 (countP_eq_zero.1 hcount r hr)

theorem markEdges_loop {cutoff : Time} {k fuel : ℕ} (hk : 0 < k)
    (h : loopCount (markEdges engine w cutoff k) fuel g = (g', true)) :
    g' = g.setRels fun r => r.data.marked engine w cutoff := by
  obtain ⟨hnodes, hrels⟩ := loopCount_tags rels nodes
    (fun r => by simp [Rel.isMarkable]) (markEdges_tags hk) h
  refine PropertyGraph.ext hnodes (hrels.trans ?_)
  refine map_congr_left fun r _ => ?_
  simp only [Rel.marked]
  split
  · rfl
  · rfl

/-- **A whole mark** tags every state and every relationship that is due. -/
theorem markHotToWarm_eq {hotCutoff k fuel : ℕ} (hk : 0 < k)
    (h : markHotToWarm engine w hotCutoff k fuel g = (g', true)) :
    g' = (g.setNodes fun _ n => n.marked engine w (.text hotCutoff)).setRels
      fun r => r.data.marked engine w (.text hotCutoff) := by
  obtain ⟨mid, hstates, hedges⟩ := loopAll_pair h
  rw [markEdges_loop hk hedges, markStates_loop hk hstates]

/-! ### What is hot -/

/-- The states of a workspace. -/
def states (workspaceId : Uuid) (g : Graph) : List Node := g.values (·.isIn .entityState workspaceId)

/-- The relationships of a workspace between entities. -/
def edges (workspaceId : Uuid) (g : Graph) : List Rel :=
  (g.rels.filter fun r => joinsEntities g r && r.data.workspaceId = some workspaceId).map Arc.data

theorem filter_states (w : Uuid) (g : Graph) :
    (states w g).filter (·.tierPending) = pendingStates w g := by
  rw [states, pendingStates, values_eq, values_eq, filter_filter]
  refine filter_congr fun n _ => ?_
  rw [Node.isPending, Bool.and_comm]

theorem edges_eq_filter (w : Uuid) (g : Graph) : edges w g =
      ((g.rels.filter (joinsEntities g)).filter
        fun r => r.data.workspaceId = some w).map Arc.data := by
  rw [edges, filter_filter]
  congr 1
  refine filter_congr fun r _ => ?_
  rw [Bool.and_comm]

/-- The graph with everything tagged that is due. -/
def tagAll (engine : Engine) (workspaceId : Uuid) (cutoff : Time) (g : Graph) : Graph :=
  (g.setNodes fun _ n => n.marked engine workspaceId cutoff).setRels
    fun r => r.data.marked engine workspaceId cutoff

section

variable (engine : Engine) (workspaceId w : Uuid) (cutoff : Time)

theorem Node.marked_eq (n : Node) :
    ∃ pending, n.marked engine w cutoff = { n with tierPending := pending } := by
  rw [Node.marked]
  split
  · exact ⟨true, rfl⟩
  · exact ⟨n.tierPending, rfl⟩

theorem Rel.marked_eq (r : Rel) :
    ∃ pending, r.marked engine w cutoff = { r with tierPending := pending } := by
  rw [Rel.marked]
  split
  · exact ⟨true, rfl⟩
  · exact ⟨r.tierPending, rfl⟩

theorem isIn_marked (n : Node) (label : Label) (workspaceId' : Uuid) :
    (n.marked engine w cutoff).isIn label workspaceId' = n.isIn label workspaceId' := by
  obtain ⟨pending, h⟩ := n.marked_eq engine w cutoff
  rw [h]
  rfl

theorem values_tagAll {test : Node → Bool}
    (htest : ∀ n : Node, test (n.marked engine w cutoff) = test n) (g : Graph) :
    (tagAll engine w cutoff g).values test =
      (g.values test).map (Node.marked engine w cutoff) := by
  have hitems : (tagAll engine w cutoff g).nodes.items.map Prod.snd =
      (g.nodes.items.map Prod.snd).map (Node.marked engine w cutoff) := by
    rw [map_map]
    exact map_map
  rw [values_eq, values_eq, hitems, filter_map]
  congr 1
  exact filter_congr fun n _ => htest n

theorem states_tagAll (g : Graph) : states w (tagAll engine w cutoff g) =
    (states w g).map (Node.marked engine w cutoff) :=
  values_tagAll engine w cutoff (fun n => isIn_marked engine w cutoff n .entityState w) g

theorem values_tagAll_of_label {label : Label} (hlabel : label ≠ .entityState) (g : Graph) :
    (tagAll engine w cutoff g).values (·.isIn label w) =
      g.values (·.isIn label w) := by
  rw [values_tagAll engine w cutoff fun n => isIn_marked engine w cutoff n label w]
  refine (map_congr_left fun n hn => ?_).trans (map_id _)
  obtain ⟨i, -, hin⟩ := mem_values.1 hn
  rw [Node.isIn, Bool.and_eq_true, decide_eq_true_eq] at hin
  rw [Node.marked, if_neg (by simp [Node.isMarkable, Node.isIn, hin.1, hlabel])]
  rfl

theorem get?_tagAll (g : Graph) (i : ℕ) : (tagAll engine w cutoff g).nodes.get? i =
      (g.nodes.get? i).map (Node.marked engine w cutoff) :=
  Dict.get?_map _ g.nodes i

theorem joinsEntities_tagAll (g : Graph) :
    joinsEntities (tagAll engine w cutoff g) = joinsEntities g := by
  have hentity : (tagAll engine w cutoff g).has Node.isAnyEntity = g.has Node.isAnyEntity := by
    funext i
    rw [has, has, get?_tagAll, Option.any_map]
    congr 1
    funext n
    obtain ⟨pending, h⟩ := n.marked_eq engine w cutoff
    show (n.marked engine w cutoff).isAnyEntity = n.isAnyEntity
    rw [h]
    rfl
  funext r
  rw [joinsEntities, joinsEntities, hentity]

theorem rels_tagAll (g : Graph) : (tagAll engine w cutoff g).rels =
    g.rels.map fun r => { r with data := r.data.marked engine w cutoff } := rfl

theorem workspaceId_marked (r : Rel) : (r.marked engine w cutoff).workspaceId = r.workspaceId := by
  obtain ⟨pending, h⟩ := r.marked_eq engine w cutoff
  rw [h]

theorem edges_tagAll (g : Graph) : edges w (tagAll engine w cutoff g) =
    (edges w g).map (Rel.marked engine w cutoff) := by
  rw [edges, joinsEntities_tagAll, rels_tagAll, filter_map, map_map, edges, map_map]
  have htest : ((fun r : Arc Rel => joinsEntities g r && r.data.workspaceId = some w) ∘
      fun r => { r with data := r.data.marked engine w cutoff }) =
      fun r => joinsEntities g r && r.data.workspaceId = some w := by
    funext r
    simp only [Function.comp, workspaceId_marked]
    rfl
  rw [htest]
  rfl

end

/-! ### What a move leaves -/

section

variable {workspaceId w : Uuid} {k fuel : ℕ} {g g' : Graph}

theorem filter_not_of_filter_nil {α : Type*} {test : α → Bool} {l : List α}
    (h : l.filter test = []) : (l.filter fun a => !test a) = l := by
  rw [filter_eq_self]
  intro a ha
  rw [Bool.not_eq_true', ← Bool.not_eq_true]
  exact filter_eq_nil_iff.1 h a ha

theorem states_moveHotToWarm (hirrefl : engine.IsIrrefl) (hk : 0 < k)
    (h : moveHotToWarm engine w k fuel g = (g', true)) :
    states w g' = (states w g).filter fun s => !s.tierPending := by
  obtain ⟨mid, hnone, hstates, -, hedges⟩ := moveHotToWarm_spec hirrefl hk h
  have hmid : (states w mid).filter (fun s => !s.tierPending) =
      (states w g).filter fun s => !s.tierPending := by
    have hsettled : ∀ n : Node, (n.isIn .entityState w && !n.tierPending) = true →
        n.isSettled w = true := by
      intro n hn
      simp only [Bool.and_eq_true, Node.isIn, decide_eq_true_eq, Bool.not_eq_true'] at hn
      simp [Node.isSettled, Node.isNoSnapshot, Node.isPending, hn.1.1, hn.2]
    have hagree : Agree (·.isSettled w) (fun _ => false) g mid :=
      ⟨hstates.settled, by simp⟩
    have hvalues : ∀ g : Graph, (states w g).filter (fun s => !s.tierPending) =
        g.values fun n => n.isIn .entityState w && !n.tierPending := by
      intro g
      rw [states, values_eq, values_eq, filter_filter]
      exact filter_congr fun n _ => Bool.and_comm _ _
    rw [hvalues, hvalues, values, hagree.matching_eq hsettled]
    rfl
  have hlast : states w g' = states w mid := by
    rw [states, values, (agree_of_nodes hedges.nodes).matching_eq
      fun n (hn : n.isIn .entityState w = true) => by
        rw [Node.isIn, Bool.and_eq_true, decide_eq_true_eq] at hn
        simp [Node.isNoEdgeSnapshot, hn.1]]
    rfl
  rw [hlast, ← hmid, filter_not_of_filter_nil]
  rw [filter_states]
  exact hnone

theorem edges_moveHotToWarm (hirrefl : engine.IsIrrefl) (hk : 0 < k)
    (h : moveHotToWarm engine w k fuel g = (g', true)) :
    edges w g' = (edges w g).filter fun r => !r.tierPending := by
  obtain ⟨mid, -, hstates, hnone, hedges⟩ := moveHotToWarm_spec hirrefl hk h
  have hmid : edges w mid = edges w g := by
    rw [edges_eq_filter, edges_eq_filter, hstates.edges]
  have hpending := isPendingEdge_of_nodes hedges.nodes w
  have hrels : g'.rels = mid.rels.filter fun r => !isPendingEdge mid w r := by
    rw [← hedges.rels]
    refine (filter_not_of_filter_nil ?_).symm
    rw [pendingEdges, map_eq_nil_iff] at hnone
    exact hnone
  have hjoins : joinsEntities g' = joinsEntities mid := by
    funext r
    rw [joinsEntities, joinsEntities, has_isAnyEntity_of_nodes hedges.nodes]
  rw [← hmid, edges, hjoins, hrels, edges, filter_filter, filter_map, filter_filter]
  congr 1
  refine filter_congr fun r _ => ?_
  simp only [isPendingEdge, joinsEntities, Function.comp]
  generalize mid.has Node.isAnyEntity r.source = a
  generalize mid.has Node.isAnyEntity r.target = b
  generalize decide (r.data.workspaceId = some w) = c
  generalize r.data.tierPending = d
  revert a b c d
  decide

/-- The states of a workspace and its relationships between entities are not tagged. -/
def IsUntagged (workspaceId : Uuid) (g : Graph) : Prop :=
  (∀ s ∈ states workspaceId g, s.tierPending = false) ∧
    ∀ r ∈ edges workspaceId g, r.tierPending = false

theorem filter_marked {α : Type*} {mark pending : α → Bool} {marked : α → α} {l : List α}
    (hpending : ∀ a ∈ l, pending a = false) (hmark : ∀ a ∈ l, pending (marked a) = mark a)
    (hsame : ∀ a ∈ l, mark a = false → marked a = a) :
    ((l.map marked).filter fun a => !pending a) = l.filter fun a => !mark a := by
  induction l with
  | nil => rfl
  | cons a l ih =>
    have hrest := ih (fun b hb => hpending b (mem_cons_of_mem _ hb))
      (fun b hb => hmark b (mem_cons_of_mem _ hb))
      (fun b hb => hsame b (mem_cons_of_mem _ hb))
    have ha := hmark a mem_cons_self
    rw [map_cons]
    cases hm : mark a with
    | true => rw [filter_cons_of_neg (by simp [ha, hm]), filter_cons_of_neg (by simp [hm]),
        hrest]
    | false => rw [filter_cons_of_pos (by simp [ha, hm]), filter_cons_of_pos (by simp [hm]),
        hrest, hsame a mem_cons_self hm]

theorem tierPending_nodeMarked (cutoff : Time) {n : Node} (h : n.tierPending = false) :
    (n.marked engine w cutoff).tierPending = n.isMarkable engine w cutoff := by
  rw [Node.marked]
  split
  · rename_i hmark
    exact hmark.symm
  · rename_i hmark
    rw [h, Bool.eq_false_iff.2 hmark]

theorem tierPending_relMarked (cutoff : Time) {r : Rel} (h : r.tierPending = false) :
    (r.marked engine w cutoff).tierPending = r.isMarkable engine w cutoff := by
  rw [Rel.marked]
  split
  · rename_i hmark
    exact hmark.symm
  · rename_i hmark
    rw [h, Bool.eq_false_iff.2 hmark]

variable (engine) in
/-- The days that the rows which are due go to. -/
def dueDates (workspaceId : Uuid) (cutoff : Time) (g : Graph) : List (Option Time) :=
  ((states workspaceId g).filter (·.isMarkable engine workspaceId cutoff)).map
      (fun s => s.recordedAt.map fun t => .date t.day) ++
    ((edges workspaceId g).filter (·.isMarkable engine workspaceId cutoff)).map
      fun r => r.recordedAt.map fun t => .date t.day

/-- The days of the snapshots of a workspace. -/
def warmDates (workspaceId : Uuid) (g : Graph) : List (Option Time) :=
  (snapshots workspaceId g).map Node.snapshotDate ++
    (edgeSnapshots workspaceId g).map Node.snapshotDate

variable (engine) in
/-- What is due has gone to the snapshots of its day, and the rest is as it was. -/
structure Evicts (workspaceId : Uuid) (cutoff : Time) (g g' : Graph) : Prop where
  states : states workspaceId g' =
    (states workspaceId g).filter fun s => !s.isMarkable engine workspaceId cutoff
  edges : edges workspaceId g' =
    (edges workspaceId g).filter fun r => !r.isMarkable engine workspaceId cutoff
  dates : ∀ date, date ∈ warmDates workspaceId g' ↔
    date ∈ warmDates workspaceId g ∨ date ∈ dueDates engine workspaceId cutoff g

theorem mem_dates_mergeAll {α κ : Type} [DecidableEq κ] (day : κ → Option Time) {key : α → κ}
    {slot : Node → κ} {new : α → Node} {update : α → Node → Node}
    (hnew : ∀ x, slot (new x) = key x) (hupdate : ∀ x b, slot (update x b) = slot b)
    (hday : ∀ n, day (slot n) = n.snapshotDate) {l : List α} {acc : List Node}
    {date : Option Time} :
    date ∈ (mergeAll key slot new update l acc).map Node.snapshotDate ↔
      date ∈ acc.map Node.snapshotDate ∨ date ∈ l.map fun x => day (key x) := by
  have hdates : ∀ l : List Node, l.map Node.snapshotDate = (l.map slot).map day := by
    intro l
    rw [map_map]
    exact map_congr_left fun n _ => (hday n).symm
  have hkeys : (l.map fun x => day (key x)) = (l.map key).map day := map_map.symm
  rw [hdates, hdates, hkeys, mem_map, mem_map, mem_map, ← exists_or]
  refine exists_congr fun k => ?_
  rw [mem_slots_mergeAll hnew hupdate, or_and_right]

theorem snapshotDates_moveHotToWarm (hirrefl : engine.IsIrrefl) (hk : 0 < k)
    (h : moveHotToWarm engine w k fuel g = (g', true)) (date : Option Time) :
    date ∈ (snapshots w g').map Node.snapshotDate ↔
      date ∈ (snapshots w g).map Node.snapshotDate ∨
        date ∈ (pendingStates w g).map fun s => s.recordedAt.map fun t => .date t.day := by
  rw [snapshots_moveHotToWarm hk h hirrefl]
  exact mem_dates_mergeAll Prod.snd snapshotKey_asSnapshot
    (snapshotKey_collapse hirrefl) fun _ => rfl

theorem edgeSnapshotDates_moveHotToWarm (hirrefl : engine.IsIrrefl) (hk : 0 < k)
    (h : moveHotToWarm engine w k fuel g = (g', true)) (date : Option Time) :
    date ∈ (edgeSnapshots w g').map Node.snapshotDate ↔
      date ∈ (edgeSnapshots w g).map Node.snapshotDate ∨
        date ∈ (pendingEdges w g).map Node.snapshotDate := by
  rw [edgeSnapshots_moveHotToWarm hk h hirrefl]
  exact mem_dates_mergeAll
    (fun key : Option Uuid × Option Uuid × Option String × Option Time => key.2.2.2)
    (fun _ => rfl) (fun _ _ => rfl) fun _ => rfl

theorem pendingEdges_dates (g : Graph) : (pendingEdges w g).map Node.snapshotDate =
    ((edges w g).filter (·.tierPending)).map
      fun r => r.recordedAt.map fun t => .date t.day := by
  rw [pendingEdges, edges, map_map, filter_map, map_map, filter_filter]
  congr 1
  refine filter_congr fun r _ => ?_
  simp only [isPendingEdge, joinsEntities, Function.comp]
  generalize g.has Node.isAnyEntity r.source = a
  generalize g.has Node.isAnyEntity r.target = b
  generalize decide (r.data.workspaceId = some w) = c
  generalize r.data.tierPending = d
  revert a b c d
  decide

theorem map_filter_marked {α : Type*} {mark pending : α → Bool} {marked : α → α}
    {day : α → Option Time} {l : List α} (hmark : ∀ a ∈ l, pending (marked a) = mark a)
    (hday : ∀ a, day (marked a) = day a) :
    ((l.map marked).filter pending).map day = (l.filter mark).map day := by
  rw [filter_map, map_map]
  have hfilter : l.filter (pending ∘ marked) = l.filter mark :=
    filter_congr fun a ha => hmark a ha
  rw [hfilter]
  exact map_congr_left fun a _ => hday a

/-- **What a whole eviction does.** -/
theorem evicts_of_moveHotToWarm (hirrefl : engine.IsIrrefl) (hk : 0 < k) {cutoff : Time}
    (huntagged : IsUntagged w g)
    (h : moveHotToWarm engine w k fuel (tagAll engine w cutoff g) = (g', true)) :
    Evicts engine w cutoff g g' where
  states := by
    rw [states_moveHotToWarm hirrefl hk h, states_tagAll]
    refine filter_marked huntagged.1 (fun s hs => tierPending_nodeMarked cutoff (huntagged.1 s hs))
      fun s _ hs => ?_
    rw [Node.marked, if_neg (by simp [hs])]
  edges := by
    rw [edges_moveHotToWarm hirrefl hk h, edges_tagAll]
    refine filter_marked huntagged.2 (fun r hr => tierPending_relMarked cutoff (huntagged.2 r hr))
      fun r _ hr => ?_
    rw [Rel.marked, if_neg (by simp [hr])]
  dates date := by
    have hsnapshots : snapshots w (tagAll engine w cutoff g) =
        snapshots w g := values_tagAll_of_label engine w cutoff (by decide) g
    have hedgeSnapshots : edgeSnapshots w (tagAll engine w cutoff g) =
        edgeSnapshots w g := values_tagAll_of_label engine w cutoff (by decide) g
    have hstates : ((pendingStates w (tagAll engine w cutoff g)).map
        fun s => s.recordedAt.map fun t => Time.date t.day) =
        ((states w g).filter (·.isMarkable engine w cutoff)).map
          fun s => s.recordedAt.map fun t => .date t.day := by
      rw [← filter_states, states_tagAll]
      refine map_filter_marked
        (fun s hs => tierPending_nodeMarked cutoff (huntagged.1 s hs)) fun s => ?_
      obtain ⟨pending, heq⟩ := s.marked_eq engine w cutoff
      rw [heq]
    have hedges : (pendingEdges w (tagAll engine w cutoff g)).map
        Node.snapshotDate = ((edges w g).filter (·.isMarkable engine w cutoff)).map
            fun r => r.recordedAt.map fun t => .date t.day := by
      rw [pendingEdges_dates, edges_tagAll]
      refine map_filter_marked
        (fun r hr => tierPending_relMarked cutoff (huntagged.2 r hr)) fun r => ?_
      obtain ⟨pending, heq⟩ := r.marked_eq engine w cutoff
      rw [heq]
    rw [warmDates, mem_append, snapshotDates_moveHotToWarm hirrefl hk h,
      edgeSnapshotDates_moveHotToWarm hirrefl hk h, hsnapshots, hedgeSnapshots, hstates, hedges,
      warmDates, dueDates, mem_append, mem_append]
    tauto

theorem isUntagged_of_evicts {cutoff : Time} (h : Evicts engine w cutoff g g')
    (huntagged : IsUntagged w g) : IsUntagged w g' := by
  refine ⟨fun s hs => ?_, fun r hr => ?_⟩
  · rw [h.states] at hs
    exact huntagged.1 s (mem_filter.1 hs).1
  · rw [h.edges] at hr
    exact huntagged.2 r (mem_filter.1 hr).1

theorem Evicts.again {cutoff : Time} {g'' : Graph} (h : Evicts engine w cutoff g g')
    (h' : Evicts engine w cutoff g' g'') : Evicts engine w cutoff g g'' where
  states := by
    rw [h'.states, h.states, filter_filter]
    exact filter_congr fun s _ => Bool.and_self _
  edges := by
    rw [h'.edges, h.edges, filter_filter]
    exact filter_congr fun r _ => Bool.and_self _
  dates date := by
    have hnone : dueDates engine w cutoff g' = [] := by
      rw [dueDates, h.states, h.edges, filter_filter, filter_filter]
      simp
    rw [h'.dates, hnone, ← h.dates]
    simp

end

/-! ### Two runs -/

/-- It has ended, and was recorded before the cutoff. -/
def isOverdue (hotCutoff : ℕ) (validTo recordedAt : Option Time) : Bool :=
  validTo.isSome && recordedAt.any (·.moment < hotCutoff)

/-- The tiers of a workspace are drained: what has ended and was recorded before the hot cutoff is
not hot any more, and no snapshot of a day before the warm cutoff is warm. -/
structure IsDrained (workspaceId : Uuid) (hotCutoff warmCutoffDate : ℕ) (g : Graph) : Prop where
  states : ∀ s ∈ states workspaceId g, isOverdue hotCutoff s.validTo s.recordedAt = false
  edges : ∀ r ∈ edges workspaceId g, isOverdue hotCutoff r.validTo r.recordedAt = false
  snapshots : ∀ t, some t ∈ warmDates workspaceId g → warmCutoffDate ≤ t.day

/-- The time is a text, of a day that is not archived yet. -/
def isMovable (warmCutoffDate : ℕ) : Option Time → Bool
  | some (.text moment) => warmCutoffDate ≤ dayOf moment
  | _ => false

/-- What the tiers are drained of goes to snapshots, and is not too old for them. -/
structure IsDrainable (workspaceId : Uuid) (hotCutoff warmCutoffDate : ℕ) (g : Graph) : Prop where
  states : ∀ s ∈ states workspaceId g, isOverdue hotCutoff s.validTo s.recordedAt = true →
    isMovable warmCutoffDate s.recordedAt = true
  edges : ∀ r ∈ edges workspaceId g, isOverdue hotCutoff r.validTo r.recordedAt = true →
    isMovable warmCutoffDate r.recordedAt = true

/-- The time is written as a text. -/
def Time.isText : Time → Bool
  | .text _ => true
  | _ => false

theorem any_lt_typed (recordedAt : Option Time) (hotCutoff : ℕ) :
    recordedAt.any (Engine.typed.lt · (.text hotCutoff)) =
      (recordedAt.any (·.moment < hotCutoff) && recordedAt.any Time.isText) := by
  cases recordedAt with
  | none => rfl
  | some t =>
    cases t with
    | text moment => exact (Bool.and_true _).symm
    | datetime moment => exact (Bool.and_false _).symm
    | dateText day => exact (Bool.and_false _).symm
    | date day => exact (Bool.and_false _).symm

section

variable {workspaceId w : Uuid} {hotCutoff warmCutoffDate : ℕ} {g g' : Graph}

theorem isMarkable_state_iff (hotCutoff : ℕ) {s : Node} (hs : s ∈ states w g)
    (huntagged : s.tierPending = false) :
    s.isMarkable .typed w (.text hotCutoff) =
      (isOverdue hotCutoff s.validTo s.recordedAt && s.recordedAt.any Time.isText) := by
  obtain ⟨i, -, hin⟩ := mem_values.1 hs
  rw [Node.isMarkable, hin, any_lt_typed, huntagged, isOverdue]
  generalize s.recordedAt.any Time.isText = a
  generalize (s.recordedAt.any fun t => t.moment < hotCutoff) = b
  generalize s.validTo.isSome = c
  revert a b c
  decide

theorem isMarkable_edge_iff (hotCutoff : ℕ) {r : Rel} (hr : r ∈ edges w g)
    (huntagged : r.tierPending = false) :
    r.isMarkable .typed w (.text hotCutoff) =
      (isOverdue hotCutoff r.validTo r.recordedAt && r.recordedAt.any Time.isText) := by
  obtain ⟨a, ha, rfl⟩ := mem_map.1 hr
  have hws := (Bool.and_eq_true_iff.1 (mem_filter.1 ha).2).2
  rw [Rel.isMarkable, any_lt_typed, huntagged, isOverdue, hws]
  generalize a.data.recordedAt.any Time.isText = b
  generalize (a.data.recordedAt.any fun t => t.moment < hotCutoff) = c
  generalize a.data.validTo.isSome = d
  revert b c d
  decide

theorem isMovable_iff (warmCutoffDate : ℕ) (recordedAt : Option Time) :
    isMovable warmCutoffDate recordedAt = true ↔
      recordedAt.any Time.isText = true ∧
        ∀ t, (recordedAt.map fun t => Time.date t.day) = some t → warmCutoffDate ≤ t.day := by
  cases recordedAt with
  | none => simp [isMovable]
  | some t => cases t <;> simp [isMovable, Time.isText, Time.day]

theorem drained_rows_iff {α : Type*} (hotCutoff warmCutoffDate : ℕ) {l : List α} {validTo recordedAt : α → Option Time}
    {mark : α → Bool} (hmark : ∀ a ∈ l, mark a =
      (isOverdue hotCutoff (validTo a) (recordedAt a) && (recordedAt a).any Time.isText)) :
    ((∀ a ∈ l.filter fun a => !mark a, isOverdue hotCutoff (validTo a) (recordedAt a) = false) ∧
      ∀ t, some t ∈ ((l.filter mark).map fun a => (recordedAt a).map fun t => Time.date t.day) →
        warmCutoffDate ≤ t.day) ↔
      ∀ a ∈ l, isOverdue hotCutoff (validTo a) (recordedAt a) = true →
        isMovable warmCutoffDate (recordedAt a) = true := by
  constructor
  · rintro ⟨hleft, hdays⟩ a ha hoverdue
    have htext : (recordedAt a).any Time.isText = true := by
      -- otherwise it would stay
      by_contra htext
      have hstays := hleft a (mem_filter.2 ⟨ha, by simp [hmark a ha, htext]⟩)
      rw [hoverdue] at hstays
      cases hstays
    refine (isMovable_iff _ _).2 ⟨htext, fun t ht => hdays t ?_⟩
    exact mem_map.2 ⟨a, mem_filter.2 ⟨ha, by rw [hmark a ha, hoverdue, htext]; rfl⟩, ht⟩
  · intro hmovable
    refine ⟨fun a ha => ?_, fun t ht => ?_⟩
    · obtain ⟨hmem, hstays⟩ := mem_filter.1 ha
      rw [Bool.eq_false_iff]
      intro hoverdue
      have htext := ((isMovable_iff _ _).1 (hmovable a hmem hoverdue)).1
      simp [hmark a hmem, hoverdue, htext] at hstays
    · obtain ⟨a, ha, hday⟩ := mem_map.1 ht
      obtain ⟨hmem, hgone⟩ := mem_filter.1 ha
      rw [hmark a hmem, Bool.and_eq_true] at hgone
      exact ((isMovable_iff _ _).1 (hmovable a hmem hgone.1)).2 t hday

/-- **One eviction with typed comparison drains iff everything overdue can be moved.** -/
theorem isDrained_iff_of_evicts (huntagged : IsUntagged w g) (hwarm : warmDates w g = [])
    (h : Evicts .typed w (.text hotCutoff) g g') :
    IsDrained w hotCutoff warmCutoffDate g' ↔
      IsDrainable w hotCutoff warmCutoffDate g := by
  have hstates := drained_rows_iff hotCutoff warmCutoffDate fun s hs =>
    isMarkable_state_iff hotCutoff hs (huntagged.1 s hs)
  have hedges := drained_rows_iff hotCutoff warmCutoffDate fun r hr =>
    isMarkable_edge_iff hotCutoff hr (huntagged.2 r hr)
  have hdates : ∀ t, some t ∈ warmDates w g' ↔ some t ∈ dueDates .typed w (.text hotCutoff) g := by
    intro t
    rw [h.dates, hwarm]
    simp
  constructor
  · rintro ⟨hs, hr, hw⟩
    rw [h.states] at hs
    rw [h.edges] at hr
    exact ⟨hstates.1 ⟨hs, fun t ht => hw t ((hdates t).2 (mem_append_left _ ht))⟩,
      hedges.1 ⟨hr, fun t ht => hw t ((hdates t).2 (mem_append_right _ ht))⟩⟩
  · rintro ⟨hs, hr⟩
    obtain ⟨hs, hs'⟩ := hstates.2 hs
    obtain ⟨hr, hr'⟩ := hedges.2 hr
    rw [← h.states] at hs
    rw [← h.edges] at hr
    exact ⟨hs, hr, fun t ht => (mem_append.1 ((hdates t).1 ht)).elim (hs' t) (hr' t)⟩

theorem listWarmToArchiveDates_typed (limit : ℕ)
    (hdates : ∀ t, some t ∈ warmDates w g → ∃ d, t = .date d) :
    listWarmToArchiveDates .typed w warmCutoffDate limit g = [] := by
  have hnone : (g.nodes.items.filterMap fun item =>
      if item.2.isIn .entitySnapshot w &&
          item.2.snapshotDate.any (Engine.typed.lt · (.dateText warmCutoffDate)) then
        item.2.snapshotDate.map Time.day
      else none) = [] := by
    rw [filterMap_eq_nil_iff]
    intro item hitem
    refine if_neg ?_
    rw [Bool.and_eq_true, not_and]
    intro hin hlt
    obtain ⟨t, ht, hlt⟩ := (Option.any_eq_true _ _).1 hlt
    have hmem : item.2 ∈ snapshots w g :=
      mem_values.2 ⟨item.1, Dict.get?_of_mem_items hitem, hin⟩
    obtain ⟨d, rfl⟩ := hdates t (mem_append_left _ (ht ▸ mem_map_of_mem hmem))
    cases hlt
  rw [listWarmToArchiveDates, hnone]
  simp

/-- **A run with typed comparison** evicts what is due and archives nothing. -/
theorem evicts_of_processWorkspace {worker : Worker} (htyped : worker.engine = .typed)
    (hlive : worker.settings.dryRun = false) (hk : 0 < worker.batchSize) {run : WorkspaceRun}
    {s s' : Tiers} (huntagged : IsUntagged run.workspaceId s.graph)
    (hdates : ∀ t, some t ∈ warmDates run.workspaceId s.graph → ∃ d, t = .date d)
    (h : processWorkspace worker run s = (s', true)) :
    Evicts .typed run.workspaceId (.text (run.hotCutoff worker)) s.graph s'.graph := by
  have hevict : ∃ g, run.evict worker s.graph = (g, true) ∧ s'.graph = g := by
    simp only [processWorkspace, hlive, htyped, listWarmToArchiveDates_typed _ hdates,
      archiveDates, ite_self, Bool.false_eq_true, if_false] at h
    cases hrun : run.evict worker s.graph with
    | mk g ended =>
      rw [hrun] at h
      cases ended with
      | false => cases h
      | true =>
        cases h
        exact ⟨g, rfl, rfl⟩
  obtain ⟨g, hg, rfl⟩ := hevict
  rw [WorkspaceRun.evict, htyped] at hg
  cases hmark : markHotToWarm .typed run.workspaceId (run.hotCutoff worker) worker.batchSize
      run.markPasses s.graph with
  | mk marked ended =>
    rw [hmark] at hg
    cases ended with
    | false => cases hg
    | true =>
      have hmarked : marked = tagAll .typed run.workspaceId (.text (run.hotCutoff worker)) s.graph :=
        markHotToWarm_eq hk hmark
      rw [hmarked] at hg
      exact evicts_of_moveHotToWarm isIrrefl_typed hk huntagged hg

end

theorem isUntagged_of_isHot {g : Graph} (h : IsHot g) (w : Uuid) : IsUntagged w g := by
  refine ⟨fun s hs => ?_, fun r hr => ?_⟩
  · obtain ⟨i, hi, -⟩ := mem_values.1 hs
    exact (h.nodes i s hi).2
  · obtain ⟨a, ha, rfl⟩ := mem_map.1 hr
    exact h.rels a (mem_filter.1 ha).1

theorem warmDates_of_isHot {g : Graph} (h : IsHot g) (w : Uuid) : warmDates w g = [] := by
  have hnone : ∀ label : Label, label.isDaily = true → g.values (·.isIn label w) = [] := by
    intro label hlabel
    rw [eq_nil_iff_forall_not_mem]
    intro n hn
    obtain ⟨i, hi, hin⟩ := mem_values.1 hn
    rw [Node.isIn, Bool.and_eq_true, decide_eq_true_eq] at hin
    have hhot := (h.nodes i n hi).1
    rw [hin.1, hlabel] at hhot
    cases hhot
  rw [warmDates, snapshots, edgeSnapshots, hnone .entitySnapshot rfl, hnone .relationshipSnapshot rfl]
  rfl

/-- **Two runs over what the writers have produced drain the tiers iff everything that has ended and
is old enough was recorded as a text, on a day that is not to be archived yet.** -/
theorem isDrained_iff_isDrainable (gcfg : GraphConfig) (writes : List GraphWrite) {worker : Worker}
    (htyped : worker.engine = .typed)
    (hsettings : worker.settings.dryRun = false ∧ worker.settings.hasBucket = true)
    (hk : 0 < worker.batchSize) {run again : WorkspaceRun}
    (hsame : again.workspaceId = run.workspaceId ∧ again.now = run.now) {s s' s'' : Tiers}
    (hs : s.graph = producedBy gcfg writes) (h : processWorkspace worker run s = (s', true))
    (h' : processWorkspace worker again s' = (s'', true)) :
    IsDrained run.workspaceId (run.hotCutoff worker) (run.warmCutoffDate worker) s''.graph ↔
      IsDrainable run.workspaceId (run.hotCutoff worker) (run.warmCutoffDate worker) s.graph := by
  have hhot : IsHot s.graph := hs ▸ isHot_producedBy gcfg writes
  have huntagged := isUntagged_of_isHot hhot run.workspaceId
  have hwarm := warmDates_of_isHot hhot run.workspaceId
  have hfirst := evicts_of_processWorkspace htyped hsettings.1 hk huntagged (by simp [hwarm]) h
  have hdates : ∀ t, some t ∈ warmDates again.workspaceId s'.graph → ∃ d, t = .date d := by
    intro t ht
    rw [hsame.1, hfirst.dates, hwarm] at ht
    have hday : ∀ recordedAt : Option Time,
        (recordedAt.map fun t => Time.date t.day) = some t → ∃ d, t = .date d := by
      intro recordedAt heq
      obtain ⟨t₀, -, rfl⟩ := Option.map_eq_some_iff.1 heq
      exact ⟨_, rfl⟩
    rcases ht with ht | ht
    · exact absurd ht not_mem_nil
    · rcases mem_append.1 ht with ht | ht
      · obtain ⟨n, -, heq⟩ := mem_map.1 ht
        exact hday _ heq
      · obtain ⟨r, -, heq⟩ := mem_map.1 ht
        exact hday _ heq
  have hagain := evicts_of_processWorkspace htyped hsettings.1 hk
    (hsame.1 ▸ isUntagged_of_evicts hfirst huntagged) hdates h'
  have hcutoff : again.hotCutoff worker = run.hotCutoff worker := by
    rw [WorkspaceRun.hotCutoff, WorkspaceRun.hotCutoff, hsame.2]
  rw [hsame.1, hcutoff] at hagain
  exact isDrained_iff_of_evicts huntagged hwarm (hfirst.again hagain)


open Neo4j (sourceCall service)

/-- A service is written with a version, gets its state from the backfill, and is gone from the next
listing of its source. -/
def retiredService : List GraphWrite :=
  [.entity { service "api" with version := some 1 } 7 5, .backfill 7 10 4,
    .graph (sourceCall [] (some 9)) 9]

theorem states_retiredService : (states 7 (producedBy .sample retiredService)).map
    (fun s => (s.validTo, s.recordedAt)) = [(some (.datetime 9), some (.datetime 5))] := by
  rfl

/-- A worker on a server with Cypher's own comparison. -/
def typedWorker : Worker := { valueWorker with engine := .typed }

theorem evict_retiredService : lateRun.evict typedWorker (producedBy .sample retiredService) =
    (producedBy .sample retiredService, true) := by
  rfl

theorem processWorkspace_retiredService :
    processWorkspace typedWorker lateRun ⟨producedBy .sample retiredService, .empty, [], []⟩ =
      (⟨producedBy .sample retiredService, .empty, [], []⟩, true) := by
  have hwarm := warmDates_of_isHot (isHot_producedBy .sample retiredService) lateRun.workspaceId
  have hdates : ∀ t, some t ∈ warmDates lateRun.workspaceId (producedBy .sample retiredService) →
      ∃ d, t = .date d := by
    intro t ht
    rw [hwarm] at ht
    exact absurd ht not_mem_nil
  exact processWorkspace_noDay typedWorker lateRun rfl (listWarmToArchiveDates_typed _ hdates)
    evict_retiredService

/-- The equivalence, for the service. -/
theorem retiredService_isDrained_iff :
    IsDrained 7 (lateRun.hotCutoff typedWorker) (lateRun.warmCutoffDate typedWorker)
        (producedBy .sample retiredService) ↔
      IsDrainable 7 (lateRun.hotCutoff typedWorker) (lateRun.warmCutoffDate typedWorker)
        (producedBy .sample retiredService) :=
  isDrained_iff_isDrainable .sample retiredService rfl ⟨rfl, rfl⟩ (by decide) ⟨rfl, rfl⟩ rfl
    processWorkspace_retiredService processWorkspace_retiredService

/-- Its state stays hot for good. -/
theorem retiredService_not_drained :
    ¬ ∀ (gcfg : GraphConfig) (writes : List GraphWrite) (worker : Worker),
      worker.engine = .typed →
      worker.settings.dryRun = false ∧ worker.settings.hasBucket = true → 0 < worker.batchSize →
      ∀ run again : WorkspaceRun, again.workspaceId = run.workspaceId ∧ again.now = run.now →
      ∀ s s' s'' : Tiers, s.graph = producedBy gcfg writes →
      processWorkspace worker run s = (s', true) → processWorkspace worker again s' = (s'', true) →
      IsDrained run.workspaceId (run.hotCutoff worker) (run.warmCutoffDate worker) s''.graph := by
  intro h
  have hdrained := h .sample retiredService typedWorker rfl ⟨rfl, rfl⟩ (by decide) lateRun lateRun
    ⟨rfl, rfl⟩ _ _ _ rfl processWorkspace_retiredService processWorkspace_retiredService
  have hmem : (some (Time.datetime 9), some (Time.datetime 5)) ∈
      (states 7 (producedBy .sample retiredService)).map fun s => (s.validTo, s.recordedAt) := by
    rw [states_retiredService]
    exact mem_singleton_self _
  obtain ⟨s, hs, heq⟩ := mem_map.1 hmem
  obtain ⟨hto, hrecorded⟩ := Prod.mk.inj heq
  have hstays := hdrained.states s hs
  rw [hto, hrecorded] at hstays
  exact absurd hstays (by decide)

end Omniscience.Cypher
