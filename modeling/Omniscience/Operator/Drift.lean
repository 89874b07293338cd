import Omniscience.Operator.Kinds

/-!
# The drift worker

`runKind` (`operator/internal/reconciler/reconciler.go`) lists the resources of a kind in the
cluster, then those in the graph, and publishes a created event for what only the cluster has and a
deleted event for what only the graph has.  Each request and each publication is a step of the
worker, and between two of them resources are created and deleted and the graph changes.

The cluster is listed first.  A resource that is created right after that and reaches the graph
before the worker asks for it looks like one that is gone (`not_deletesOnlyGone_race`).

* `Worker.work` : what the worker does next.
* `deletesOnlyGone` : in a run without such a resource the worker deletes only what was absent from
  the cluster since it began to list the graph.
-/

namespace Omniscience.Operator

open Ledger List

variable {go : Go}

/-- `Diff`, in the order of the ids. -/
def diff (inCluster inGraph : List String) : List String × List String :=
  let cluster := inCluster.dedup.filter (· ≠ "")
  let graph := inGraph.dedup.filter (· ≠ "")
  ((cluster.filter (· ∉ graph)).insertionSort (· ≤ ·),
    (graph.filter (· ∉ cluster)).insertionSort (· ≤ ·))

theorem mem_diff_snd {inCluster inGraph : List String} {x : String}
    (h : x ∈ (diff inCluster inGraph).2) : x ∈ inGraph ∧ x ∉ inCluster := by
  rw [diff, mem_insertionSort, mem_filter, mem_filter, mem_dedup] at h
  obtain ⟨⟨hgraph, hne⟩, hcluster⟩ := h
  refine ⟨hgraph, fun hmem => ?_⟩
  simp only [decide_eq_true_eq] at hne hcluster
  exact hcluster (mem_filter.2 ⟨mem_dedup.2 hmem, decide_eq_true hne⟩)

/-! ### The worker and the world around it -/

/-- The settings of `Worker`, with the page size of its client and the prefix of its publisher. -/
structure Worker where
  workspaceID : Uuid
  clusterID : Uuid
  clusterName : String
  dryRun : Bool := false
  pageLimit : ℕ := 500
  subjectPrefix : String := "ingest.changes.k8s"

/-- `publishOne`, for an event that the publisher accepts or not. -/
def Worker.publishOne (w : Worker) (ev : Event go) : Except Exc Publication :=
  if ev.workspaceID ≠ w.workspaceID then
    .error ⟨.valueError, "reconciler: refusing to publish event with workspace mismatch: ev=" ++
      ev.workspaceID.str ++ " want=" ++ w.workspaceID.str⟩
  else publish w.subjectPrefix (some ev)

/-- How far `runKind` is. -/
inductive Phase (go : Go) where
  /-- Nothing is listed. -/
  | start
  /-- The cluster is listed. -/
  | listed (inCluster : Dict String (EventBuilder go))
  /-- Some pages of the graph are read; so many may follow. -/
  | paging (inCluster : Dict String (EventBuilder go)) (pages : ℕ) (graphIDs : List String)
    (cursor : String)
  /-- The events that are still to be published. -/
  | emitting (inCluster : Dict String (EventBuilder go)) (now : go.Time)
    (missingInGraph missingInCluster : List String)
  | done

/-- The worker has begun to list the graph. -/
def Phase.IsReading : Phase go → Prop
  | .paging .. => True
  | .emitting .. => True
  | _ => False

/-- The cluster, the graph behind the endpoint, the worker and what it has published. -/
structure World (K : Kind go) where
  cluster : List K.Obj
  graph : Database
  phase : Phase go
  published : List (Event go)

/-- How the outside answers a step of the worker: whether the request or the publication succeeds,
and the time. -/
structure Answer (go : Go) where
  ok : Bool
  now : go.Time

/-- A step of the world. -/
inductive Step (K : Kind go) where
  /-- A resource is created. -/
  | create (obj : K.Obj)
  /-- The resource of a namespace and a name is deleted. -/
  | delete (ns name : String)
  /-- The graph changes. -/
  | watch (graph : Database)
  /-- The worker takes its next step. -/
  | work (answer : Answer go)

section

variable (w : Worker) (K : Kind go)

/-- An event is published, or the failure is counted. -/
def Worker.emit (ok : Bool) (ev : Except Exc (Event go)) (published : List (Event go)) :
    List (Event go) :=
  match ev with
  | .error _ => published
  | .ok ev =>
    match w.publishOne ev with
    | .error _ => published
    | .ok _ => if ok then published ++ [ev] else published

/-- The phase after the listing of the graph. -/
def Worker.compare (inCluster : Dict String (EventBuilder go)) (graphIDs : List String)
    (now : go.Time) : Phase go :=
  if w.dryRun then .done
  else
    let missing := diff inCluster.keys graphIDs
    .emitting inCluster now missing.1 missing.2

/-- The request for a page of the graph. -/
def Worker.fetch (graph : Database) (cursor : String) : Except Exc EntitiesPage :=
  (clientOf graph w.workspaceID w.pageLimit).fetchPage w.workspaceID w.clusterID K.name cursor

/-- One turn of the loop of `ListExternalIDs`. -/
def Worker.turn (graph : Database) (inCluster : Dict String (EventBuilder go))
    (graphIDs : List String) (cursor : String) (answer : Answer go) : ℕ → Phase go
  | 0 => .done
  | pages + 1 =>
    if answer.ok = false then .done
    else
      match w.fetch K graph cursor with
      | .error _ => .done
      | .ok page =>
        let graphIDs := graphIDs ++ page.externalIds
        if page.nextCursor = "" then w.compare inCluster graphIDs answer.now
        else .paging inCluster pages graphIDs page.nextCursor

/-- The next step of `runKind`. -/
def Worker.work (s : World K) (answer : Answer go) : World K :=
  match s.phase with
  | .start =>
    { s with phase :=
        if answer.ok then .listed (K.listInCluster s.cluster w.clusterID) else .done }
  | .listed inCluster =>
    { s with phase :=
        if K.name = "" then .done else w.turn K s.graph inCluster [] "" answer 1000 }
  | .paging inCluster pages graphIDs cursor =>
    { s with phase := w.turn K s.graph inCluster graphIDs cursor answer pages }
  | .emitting inCluster now (ext :: missingInGraph) missingInCluster =>
    { s with
      phase := .emitting inCluster now missingInGraph missingInCluster
      published :=
        match inCluster.get? ext with
        | none => s.published
        | some build =>
          w.emit answer.ok (.ok (build w.workspaceID w.clusterID w.clusterName now)) s.published }
  | .emitting inCluster now [] (ext :: missingInCluster) =>
    { s with
      phase := .emitting inCluster now [] missingInCluster
      published := w.emit answer.ok
        (K.emitDeleted ext w.workspaceID w.clusterID w.clusterName now) s.published }
  | .emitting _ _ [] [] => { s with phase := .done }
  | .done => s

/-- A step of the world. -/
def Worker.step (s : World K) : Step K → World K
  | .create obj => { s with cluster := s.cluster ++ [obj] }
  | .delete ns name =>
    { s with cluster := s.cluster.filter fun obj =>
        ¬ ((K.objectMeta obj).ns = ns ∧ (K.objectMeta obj).name = name) }
  | .watch graph => { s with graph }
  | .work answer => w.work K s answer

/-- The world after some steps. -/
def Worker.after (s₀ : World K) (steps : List (Step K)) : World K := steps.foldl (w.step K) s₀

/-- `runKind` has not begun. -/
def World.Fresh {K : Kind go} (s : World K) : Prop := s.phase = .start ∧ s.published = []

/-! ### What happened in a run -/

variable (s₀ : World K) (steps : List (Step K)) (x : String)

/-- No resource of the cluster has the id. -/
def Absent (s : World K) : Prop := ∀ obj ∈ s.cluster, K.listedAs w.clusterID obj ≠ x

/-- At some moment since the worker began to list the graph, the id was absent from the cluster. -/
def AbsentSeen : Prop :=
  ∃ pre, pre <+: steps ∧ (w.after K s₀ pre).phase.IsReading ∧ Absent w K x (w.after K s₀ pre)

/-- A resource that the worker has not listed was created before the worker began to list the
graph. -/
def CreatedUnseen : Prop :=
  ∃ pre obj, pre ++ [.create obj] <+: steps ∧ K.listedAs w.clusterID obj = x ∧
    ∃ inCluster, (w.after K s₀ pre).phase = .listed inCluster ∧ x ∉ inCluster.keys

/-- The ids of the page that the worker asks for next. -/
def World.nextPage {K : Kind go} (w : Worker) (s : World K) : List String :=
  let ids (cursor : String) := match w.fetch K s.graph cursor with
    | .error _ => []
    | .ok page => page.externalIds
  match s.phase with
  | .listed _ => ids ""
  | .paging _ _ _ cursor => ids cursor
  | _ => []

/-- The id was on a page that the worker read. -/
def OnPage : Prop :=
  ∃ pre answer, pre ++ [.work answer] <+: steps ∧ x ∈ (w.after K s₀ pre).nextPage w

/-- The worker deletes only what is gone. -/
def DeletesOnlyGone : Prop :=
  ∀ ev ∈ (w.after K s₀ steps).published, ev.action = actionDeleted →
    AbsentSeen w K s₀ steps ev.externalID

end

/-! ### The ids of a page -/

theorem split_of_startsWith {text kind : String} {clusterID : Uuid}
    (h : StartsWith text (idPrefix clusterID kind)) : (split text)[1]? = some clusterID.str := by
  obtain ⟨rest, hrest⟩ := h
  have hhead : "k8s_resource/".toList = "k8s_resource".toList ++ ['/'] := rfl
  have hslash : "/".toList = ['/'] := rfl
  have htext : text.toList = "k8s_resource".toList ++
      '/' :: (clusterID.str.toList ++ '/' :: (kind.toList ++ '/' :: rest)) := by
    rw [← hrest, idPrefix_eq]
    simp only [String.toList_append, hhead, hslash, append_assoc, cons_append, nil_append]
  rw [split, htext, splitOn_append_cons_self_of_not_mem (by decide),
    splitOn_append_cons_self_of_not_mem (slash_not_mem_str clusterID)]
  simp

variable {K : Kind go}

theorem startsWith_of_parse {text : String} {parsed : String × String}
    (h : K.parse text = .ok parsed) : StartsWith text "k8s_resource/" := by
  obtain ⟨second, rest, hsplit⟩ :
      ∃ second rest, split text = entityKindPrefix :: second :: rest := by
    unfold Kind.parse at h
    cases hscope : K.scope with
    | namespaced =>
      simp only [hscope] at h
      obtain ⟨⟨cluster, hsplit⟩, -⟩ := parseNamespacedExternalID_eq_ok.1 h
      exact ⟨_, _, hsplit⟩
    | clusterScoped =>
      simp only [hscope] at h
      cases hparse : parseClusterScopedExternalID text K.name with
      | error e =>
        rw [hparse] at h
        cases h
      | ok name =>
        obtain ⟨⟨cluster, hsplit⟩, -⟩ := parseClusterScopedExternalID_eq_ok.1 hparse
        exact ⟨_, _, hsplit⟩
  refine ⟨("/".intercalate (second :: rest)).toList, ?_⟩
  rw [← intercalate_split text, hsplit, ← String.toList_append]
  refine String.toList_inj.2 ?_
  simp [String.intercalate_cons_cons, entityKindPrefix]

theorem like_of_fetch {w : Worker} {graph : Database} {cursor : String} {page : EntitiesPage}
    (h : w.fetch K graph cursor = .ok page) {x : String} (hx : x ∈ page.externalIds) :
    Sql.like (buildExternalIdPrefix w.clusterID K.name).toList x.toList = true := by
  obtain ⟨row, hrow, rfl⟩ := exists_of_mem_fetchPage h hx
  exact (mem_filter.1 ((perm_insertionSort _ _).mem_iff.1 hrow)).2

theorem isPlain_of_mem_kindRegistry (h : K ∈ kindRegistry go) :
    ∀ c ∈ K.name.toList, Sql.IsPlain c := by
  have hplain : ∀ name ∈ kindNames, (name.toList.all fun c => decide (Sql.IsPlain c)) = true := by
    decide
  exact Sql.isPlain_of_all (hplain _ (name_mem_kindNames h))

theorem externalID_of_like (hK : K ∈ kindRegistry go) {w : Worker} {x : String}
    (hlike : Sql.like (buildExternalIdPrefix w.clusterID K.name).toList x.toList = true)
    {now : go.Time} {ev : Event go}
    (hev : K.emitDeleted x w.workspaceID w.clusterID w.clusterName now = .ok ev) :
    ev.externalID = x := by
  obtain ⟨parsed, hparse, -⟩ := bind_eq_ok_iff.1 hev
  have hstarts := (like_iff_startsWith (isPlain_of_mem_kindRegistry hK)
    (startsWith_of_parse hparse)).1 hlike
  exact (Kind.externalID_of_emitDeleted (lawful_of_mem_kindRegistry hK) hev).2
    (split_of_startsWith hstarts)

theorem action_created (hK : K ∈ kindRegistry go) (obj : K.Obj) (workspaceID clusterID : Uuid)
    (clusterName : String) (now : go.Time) :
    (K.created obj workspaceID clusterID clusterName now).action = actionCreated := by
  simp only [kindRegistry, mem_cons, not_mem_nil, or_false] at hK
  rcases hK with rfl | rfl | rfl | rfl | rfl | rfl | rfl | rfl | rfl | rfl | rfl | rfl | rfl |
    rfl | rfl | rfl
  all_goals rfl

/-! ### The past of a run -/

section

variable {w : Worker} {K : Kind go} {s₀ : World K} {steps : List (Step K)} {x : String}

theorem after_concat (step : Step K) :
    w.after K s₀ (steps ++ [step]) = w.step K (w.after K s₀ steps) step := by
  simp only [Worker.after, foldl_append, foldl_cons, foldl_nil]

theorem AbsentSeen.concat (h : AbsentSeen w K s₀ steps x) (step : Step K) :
    AbsentSeen w K s₀ (steps ++ [step]) x := by
  obtain ⟨pre, hpre, hseen⟩ := h
  exact ⟨pre, hpre.trans (prefix_append _ _), hseen⟩

theorem CreatedUnseen.concat (h : CreatedUnseen w K s₀ steps x) (step : Step K) :
    CreatedUnseen w K s₀ (steps ++ [step]) x := by
  obtain ⟨pre, obj, hpre, hrest⟩ := h
  exact ⟨pre, obj, hpre.trans (prefix_append _ _), hrest⟩

theorem OnPage.concat (h : OnPage w K s₀ steps x) (step : Step K) :
    OnPage w K s₀ (steps ++ [step]) x := by
  obtain ⟨pre, answer, hpre, hx⟩ := h
  exact ⟨pre, answer, hpre.trans (prefix_append _ _), hx⟩

theorem absentSeen_self (hphase : (w.after K s₀ steps).phase.IsReading)
    (h : Absent w K x (w.after K s₀ steps)) : AbsentSeen w K s₀ steps x :=
  ⟨steps, prefix_rfl, hphase, h⟩

theorem createdUnseen_self {obj : K.Obj} {inCluster : Dict String (EventBuilder go)}
    (hphase : (w.after K s₀ steps).phase = .listed inCluster)
    (hx : K.listedAs w.clusterID obj ∉ inCluster.keys) :
    CreatedUnseen w K s₀ (steps ++ [.create obj]) (K.listedAs w.clusterID obj) :=
  ⟨steps, obj, prefix_rfl, rfl, inCluster, hphase, hx⟩

theorem onPage_self (answer : Answer go) (hx : x ∈ (w.after K s₀ steps).nextPage w) :
    OnPage w K s₀ (steps ++ [.work answer]) x :=
  ⟨steps, answer, prefix_rfl, hx⟩

theorem like_of_onPage (h : OnPage w K s₀ steps x) :
    Sql.like (buildExternalIdPrefix w.clusterID K.name).toList x.toList = true := by
  obtain ⟨pre, answer, -, hx⟩ := h
  have hids : ∀ graph cursor, x ∈ (match w.fetch K graph cursor with
      | .error _ => []
      | .ok page => page.externalIds) →
      Sql.like (buildExternalIdPrefix w.clusterID K.name).toList x.toList = true := by
    intro graph cursor hx
    split at hx
    · cases hx
    · rename_i page hpage
      exact like_of_fetch hpage hx
  unfold World.nextPage at hx
  simp only at hx
  split at hx
  · exact hids _ _ hx
  · exact hids _ _ hx
  · cases hx

/-! ### The invariant of a run -/

/-- Why an id may look gone: it is gone, or the worker has missed its creation. -/
def LooksGone (w : Worker) (K : Kind go) (s₀ : World K) (steps : List (Step K)) (x : String) :
    Prop :=
  CreatedUnseen w K s₀ steps x ∨ AbsentSeen w K s₀ steps x

theorem LooksGone.concat (h : LooksGone w K s₀ steps x) (step : Step K) :
    LooksGone w K s₀ (steps ++ [step]) x :=
  h.imp (·.concat step) (·.concat step)

/-- The builders make the events of resources. -/
def IsListing (K : Kind go) (inCluster : Dict String (EventBuilder go)) : Prop :=
  ∀ ext build, inCluster.get? ext = some build → ∃ obj, build = K.created obj

/-- What the phase of the worker tells about the run. -/
def Tells (w : Worker) (K : Kind go) (s₀ : World K) (steps : List (Step K)) : Phase go → Prop
  | .start => True
  | .listed inCluster => IsListing K inCluster ∧
      ∀ x ∉ inCluster.keys, CreatedUnseen w K s₀ steps x ∨ Absent w K x (w.after K s₀ steps)
  | .paging inCluster _ graphIDs _ => IsListing K inCluster ∧
      (∀ x ∉ inCluster.keys, LooksGone w K s₀ steps x) ∧ ∀ x ∈ graphIDs, OnPage w K s₀ steps x
  | .emitting inCluster _ _ missingInCluster => IsListing K inCluster ∧
      ∀ x ∈ missingInCluster, LooksGone w K s₀ steps x ∧ OnPage w K s₀ steps x
  | .done => True

/-- What is published as deleted looked gone and was on a page. -/
def Accounts (w : Worker) (K : Kind go) (s₀ : World K) (steps : List (Step K))
    (published : List (Event go)) : Prop :=
  ∀ ev ∈ published, ev.action = actionDeleted →
    LooksGone w K s₀ steps ev.externalID ∧ OnPage w K s₀ steps ev.externalID

theorem Accounts.concat {published : List (Event go)} (h : Accounts w K s₀ steps published)
    (step : Step K) : Accounts w K s₀ (steps ++ [step]) published := fun ev hev hdel =>
  (h ev hev hdel).imp (·.concat step) (·.concat step)

theorem isListing_listInCluster (items : List K.Obj) (clusterID : Uuid) :
    IsListing K (K.listInCluster items clusterID) := by
  intro ext build h
  rw [Kind.listInCluster, Dict.get?_ofList, filter_map, List.getLast?_map] at h
  obtain ⟨p, hp, rfl⟩ := Option.map_eq_some_iff.1 h
  obtain ⟨obj, -, rfl⟩ := Option.map_eq_some_iff.1 hp
  exact ⟨_, rfl⟩

theorem absent_of_not_mem_keys {s : World K}
    (hx : x ∉ (K.listInCluster s.cluster w.clusterID).keys) : Absent w K x s := by
  rintro obj hobj rfl
  obtain ⟨other, -, hget⟩ := Kind.get?_listInCluster hobj w.clusterID
  exact hx (Dict.contains_iff.1 (by rw [Dict.contains, hget]; rfl))

theorem turn_cases (graph : Database) (inCluster : Dict String (EventBuilder go))
    (graphIDs : List String) (cursor : String) (answer : Answer go) (pages : ℕ) :
    w.turn K graph inCluster graphIDs cursor answer pages = .done ∨
      ∃ page, w.fetch K graph cursor = .ok page ∧
        (w.turn K graph inCluster graphIDs cursor answer pages =
            .emitting inCluster answer.now
              (diff inCluster.keys (graphIDs ++ page.externalIds)).1
              (diff inCluster.keys (graphIDs ++ page.externalIds)).2 ∨
          ∃ pages', w.turn K graph inCluster graphIDs cursor answer pages =
            .paging inCluster pages' (graphIDs ++ page.externalIds) page.nextCursor) := by
  cases pages with
  | zero => exact .inl rfl
  | succ pages =>
    rw [Worker.turn]
    split_ifs
    · exact .inl rfl
    · cases hfetch : w.fetch K graph cursor with
      | error e => exact .inl rfl
      | ok page =>
        simp only
        split_ifs
        · unfold Worker.compare
          split_ifs
          · exact .inl rfl
          · exact .inr ⟨page, rfl, .inl rfl⟩
        · exact .inr ⟨page, rfl, .inr ⟨pages, rfl⟩⟩

theorem tells_turn {inCluster : Dict String (EventBuilder go)} {graphIDs : List String}
    {cursor : String} {answer : Answer go} {pages : ℕ} (hlisting : IsListing K inCluster)
    (hcluster : (w.after K s₀ (steps ++ [.work answer])).cluster = (w.after K s₀ steps).cluster)
    (hphase : (w.after K s₀ (steps ++ [.work answer])).phase =
      w.turn K (w.after K s₀ steps).graph inCluster graphIDs cursor answer pages)
    (hgone : ∀ x ∉ inCluster.keys, CreatedUnseen w K s₀ steps x ∨ AbsentSeen w K s₀ steps x ∨
      Absent w K x (w.after K s₀ steps))
    (hids : ∀ x ∈ graphIDs, OnPage w K s₀ steps x)
    (hpage : ∀ page, w.fetch K (w.after K s₀ steps).graph cursor = .ok page →
      ∀ x ∈ page.externalIds, x ∈ (w.after K s₀ steps).nextPage w) :
    Tells w K s₀ (steps ++ [.work answer]) (w.after K s₀ (steps ++ [.work answer])).phase := by
  set graph := (w.after K s₀ steps).graph with hgraph
  -- the cluster is the same before and after the turn
  have hgone' : (w.turn K graph inCluster graphIDs cursor answer pages).IsReading →
      ∀ x ∉ inCluster.keys, LooksGone w K s₀ (steps ++ [.work answer]) x := by
    intro hreading x hx
    rcases hgone x hx with hcreated | hseen | habsent
    · exact .inl (hcreated.concat _)
    · exact .inr (hseen.concat _)
    · refine .inr (absentSeen_self ?_ ?_)
      · rw [hphase]
        exact hreading
      · rw [Absent, hcluster]
        exact habsent
  have hids' : ∀ page, w.fetch K graph cursor = .ok page → ∀ x ∈ graphIDs ++ page.externalIds,
      OnPage w K s₀ (steps ++ [.work answer]) x := by
    intro page hfetch x hx
    rcases mem_append.1 hx with hx | hx
    · exact (hids x hx).concat _
    · exact onPage_self answer (hpage page hfetch x hx)
  rw [hphase]
  rcases turn_cases (w := w) (K := K) graph inCluster graphIDs cursor answer pages with
    hdone | ⟨page, hfetch, hemit | ⟨pages', hmore⟩⟩
  · rw [hdone]
    trivial
  · rw [hemit] at hgone' ⊢
    refine ⟨hlisting, fun x hx => ?_⟩
    obtain ⟨hgraphIDs, hcluster⟩ := mem_diff_snd hx
    exact ⟨hgone' trivial x hcluster, hids' page hfetch x hgraphIDs⟩
  · rw [hmore] at hgone' ⊢
    exact ⟨hlisting, hgone' trivial, hids' page hfetch⟩

theorem tells_environment {step : Step K}
    (hphase : (w.after K s₀ (steps ++ [step])).phase = (w.after K s₀ steps).phase)
    (hlisted : ∀ inCluster, (w.after K s₀ steps).phase = .listed inCluster →
      ∀ x ∉ inCluster.keys, Absent w K x (w.after K s₀ steps) →
        CreatedUnseen w K s₀ (steps ++ [step]) x ∨ Absent w K x (w.after K s₀ (steps ++ [step])))
    (h : Tells w K s₀ steps (w.after K s₀ steps).phase) :
    Tells w K s₀ (steps ++ [step]) (w.after K s₀ (steps ++ [step])).phase := by
  rw [hphase]
  cases hp : (w.after K s₀ steps).phase with
  | start => trivial
  | listed inCluster =>
    rw [hp] at h
    obtain ⟨hlisting, hgone⟩ := h
    refine ⟨hlisting, fun x hx => ?_⟩
    rcases hgone x hx with hcreated | habsent
    · exact .inl (hcreated.concat step)
    · exact hlisted inCluster hp x hx habsent
  | paging inCluster pages graphIDs cursor =>
    rw [hp] at h
    obtain ⟨hlisting, hgone, hids⟩ := h
    exact ⟨hlisting, fun x hx => (hgone x hx).concat step, fun x hx => (hids x hx).concat step⟩
  | emitting inCluster now missingInGraph missingInCluster =>
    rw [hp] at h
    obtain ⟨hlisting, hmissing⟩ := h
    exact ⟨hlisting, fun x hx => (hmissing x hx).imp (·.concat step) (·.concat step)⟩
  | done => trivial

theorem mem_emit {ok : Bool} {ev : Except Exc (Event go)} {published : List (Event go)}
    {ev' : Event go} (h : ev' ∈ w.emit ok ev published) : ev' ∈ published ∨ ev = .ok ev' := by
  unfold Worker.emit at h
  split at h
  · exact .inl h
  · split at h
    · exact .inl h
    · split_ifs at h
      · rcases mem_append.1 h with h | h
        · exact .inl h
        · exact .inr (by rw [mem_singleton.1 h])
      · exact .inl h

theorem cluster_work (s : World K) (answer : Answer go) :
    (w.work K s answer).cluster = s.cluster := by
  unfold Worker.work
  split <;> rfl

theorem mem_published_work {s : World K} {answer : Answer go} {ev : Event go}
    (h : ev ∈ (w.work K s answer).published) :
    ev ∈ s.published ∨ ∃ inCluster now missingInGraph missingInCluster,
      s.phase = .emitting inCluster now missingInGraph missingInCluster ∧
        ((∃ ext build, inCluster.get? ext = some build ∧
            ev = build w.workspaceID w.clusterID w.clusterName now) ∨
          ∃ ext ∈ missingInCluster,
            K.emitDeleted ext w.workspaceID w.clusterID w.clusterName now = .ok ev) := by
  unfold Worker.work at h
  split at h
  · exact .inl h
  · exact .inl h
  · exact .inl h
  · rename_i inCluster now ext missingInGraph missingInCluster hphase
    simp only at h
    split at h
    · exact .inl h
    · rename_i build hbuild
      refine (mem_emit h).imp_right fun hev => ?_
      exact ⟨_, _, _, _, hphase, .inl ⟨ext, build, hbuild, (Except.ok.inj hev).symm⟩⟩
  · rename_i inCluster now ext missingInCluster hphase
    refine (mem_emit h).imp_right fun hev => ?_
    exact ⟨_, _, _, _, hphase, .inr ⟨ext, mem_cons_self, hev⟩⟩
  · exact .inl h
  · exact .inl h

theorem tells_work (answer : Answer go) (h : Tells w K s₀ steps (w.after K s₀ steps).phase) :
    Tells w K s₀ (steps ++ [.work answer]) (w.after K s₀ (steps ++ [.work answer])).phase := by
  have hafter : w.after K s₀ (steps ++ [.work answer]) = w.work K (w.after K s₀ steps) answer :=
    after_concat _
  have hcluster : (w.after K s₀ (steps ++ [.work answer])).cluster =
      (w.after K s₀ steps).cluster := by rw [hafter, cluster_work]
  have hphase : (w.after K s₀ (steps ++ [.work answer])).phase =
      (w.work K (w.after K s₀ steps) answer).phase := by rw [hafter]
  unfold Worker.work at hphase
  split at hphase
  · -- the cluster is listed
    rw [hphase]
    simp only
    split_ifs
    · refine ⟨isListing_listInCluster _ _, fun x hx => .inr ?_⟩
      rw [Absent, hcluster]
      exact absent_of_not_mem_keys hx
    · trivial
  · -- the first page
    rename_i inCluster hp
    rw [hp] at h
    obtain ⟨hlisting, hgone⟩ := h
    simp only at hphase
    split_ifs at hphase
    · rw [hphase]
      trivial
    · refine tells_turn hlisting hcluster hphase (fun x hx => (hgone x hx).imp_right .inr)
        (fun x hx => absurd hx not_mem_nil) fun page hfetch x hx => ?_
      rw [World.nextPage, hp]
      simp only [hfetch]
      exact hx
  · -- another page
    rename_i inCluster pages graphIDs cursor hp
    rw [hp] at h
    obtain ⟨hlisting, hgone, hids⟩ := h
    refine tells_turn hlisting hcluster hphase (fun x hx => (hgone x hx).imp_right .inl) hids
      fun page hfetch x hx => ?_
    rw [World.nextPage, hp]
    simp only [hfetch]
    exact hx
  · -- a created event
    rename_i inCluster now ext missingInGraph missingInCluster hp
    rw [hp] at h
    obtain ⟨hlisting, hmissing⟩ := h
    rw [hphase]
    exact ⟨hlisting, fun x hx => (hmissing x hx).imp (·.concat _) (·.concat _)⟩
  · -- a deleted event
    rename_i inCluster now ext missingInCluster hp
    rw [hp] at h
    obtain ⟨hlisting, hmissing⟩ := h
    rw [hphase]
    exact ⟨hlisting, fun x hx =>
      (hmissing x (mem_cons_of_mem _ hx)).imp (·.concat _) (·.concat _)⟩
  · rw [hphase]
    trivial
  · rename_i hp
    rw [hphase, hp]
    trivial

theorem accounts_work (hK : K ∈ kindRegistry go) (answer : Answer go)
    (htells : Tells w K s₀ steps (w.after K s₀ steps).phase)
    (h : Accounts w K s₀ steps (w.after K s₀ steps).published) :
    Accounts w K s₀ (steps ++ [.work answer])
      (w.after K s₀ (steps ++ [.work answer])).published := by
  refine Accounts.concat (fun ev hev hdel => ?_) _
  rw [after_concat] at hev
  rcases mem_published_work hev with hev | ⟨inCluster, now, missingInGraph, missingInCluster,
    hp, ⟨ext, build, hbuild, rfl⟩ | ⟨ext, hext, hemit⟩⟩
  · exact h ev hev hdel
  · rw [hp] at htells
    obtain ⟨obj, rfl⟩ := htells.1 ext build hbuild
    rw [action_created hK] at hdel
    exact absurd hdel (by decide)
  · rw [hp] at htells
    obtain ⟨hgone, hpage⟩ := htells.2 ext hext
    rw [externalID_of_like hK (like_of_onPage hpage) hemit]
    exact ⟨hgone, hpage⟩

/-- **The invariant of a run.** -/
theorem run_invariant (hK : K ∈ kindRegistry go) (hs₀ : s₀.Fresh) (steps : List (Step K)) :
    Tells w K s₀ steps (w.after K s₀ steps).phase ∧
      Accounts w K s₀ steps (w.after K s₀ steps).published := by
  induction steps using List.reverseRecOn with
  | nil =>
    obtain ⟨hphase, hpublished⟩ := hs₀
    refine ⟨?_, fun ev hev => ?_⟩
    · rw [Worker.after, foldl_nil, hphase]
      trivial
    · rw [Worker.after, foldl_nil, hpublished] at hev
      cases hev
  | append_singleton steps step ih =>
    obtain ⟨htells, haccounts⟩ := ih
    cases step with
    | create obj =>
      refine ⟨tells_environment (by rw [after_concat]; rfl) ?_ htells, ?_⟩
      · intro inCluster hp x hx habsent
        by_cases hobj : K.listedAs w.clusterID obj = x
        · subst hobj
          exact .inl (createdUnseen_self hp hx)
        · refine .inr ?_
          rw [after_concat]
          intro other hother
          rcases mem_append.1 hother with hother | hother
          · exact habsent other hother
          · rwa [mem_singleton.1 hother]
      · rw [after_concat]
        exact haccounts.concat _
    | delete ns name =>
      refine ⟨tells_environment (by rw [after_concat]; rfl) ?_ htells, ?_⟩
      · intro inCluster hp x hx habsent
        refine .inr ?_
        rw [after_concat]
        intro other hother
        exact habsent other (mem_of_mem_filter hother)
      · rw [after_concat]
        exact haccounts.concat _
    | watch graph =>
      refine ⟨tells_environment (by rw [after_concat]; rfl) ?_ htells, ?_⟩
      · intro inCluster hp x hx habsent
        refine .inr ?_
        rw [after_concat]
        exact habsent
      · rw [after_concat]
        exact haccounts.concat _
    | work answer =>
      exact ⟨tells_work answer htells, accounts_work hK answer htells haccounts⟩

/-- **The drift worker deletes only what is gone.** -/
theorem deletesOnlyGone (hK : K ∈ kindRegistry go) (hs₀ : s₀.Fresh)
    (h : ∀ x, CreatedUnseen w K s₀ steps x → ¬ OnPage w K s₀ steps x) :
    DeletesOnlyGone w K s₀ steps := by
  intro ev hev hdel
  obtain ⟨hgone, hpage⟩ := (run_invariant hK hs₀ steps).2 ev hev hdel
  rcases hgone with hcreated | hseen
  · exact absurd hpage (h _ hcreated)
  · exact hseen

end

/-! ### A pod that is created while the worker lists -/

/-- The pod `web` of the namespace `default`. -/
def web : Pod := { objectMeta := { ns := "default", name := "web" } }

/-- Its id. -/
def webID : String := (podKind : Kind Go.sample).listedAs 9 web

theorem webID_eq : webID = namespacedExternalID 9 "Pod" "default" "web" := rfl

theorem webID_startsWith : StartsWith webID (idPrefix 9 "Pod") := by
  refine ⟨"default/web".toList, ?_⟩
  have htail : "default/web".toList = "default".toList ++ ("/".toList ++ "web".toList) := by decide
  have hhead : "k8s_resource/".toList = "k8s_resource".toList ++ "/".toList := by decide
  rw [webID_eq, namespacedExternalID, if_neg (by decide), idPrefix_eq, entityKindPrefix]
  simp only [String.toList_append, htail, hhead, append_assoc]

theorem webID_ne_empty : webID ≠ "" := by
  intro h
  obtain ⟨rest, hrest⟩ := webID_startsWith
  rw [h, idPrefix_eq] at hrest
  simp at hrest

/-- The row of the pod. -/
def webRow : Row :=
  ((1, webID),
    { id := 1, uri := "", title := none, contentHash := "", metadata := [],
      indexedAt := ⟨0, zero_lt_dateTime⟩ })

/-- The graph with nothing but the pod. -/
def webDatabase : Database where
  sources := [⟨1, "operator", "k8s_operator", .active, some 7⟩]
  documents := ⟨[webRow], nodup_singleton _⟩
  sources_nodup := nodup_operatorSource
  documents_nodup := nodup_singleton _

theorem matching_webDatabase : webDatabase.matching 7 9 "Pod" = [webRow] := by
  have hrows : webDatabase.operatorRows 7 = [webRow] := rfl
  have hids : webDatabase.IsPrefixed 7 := by
    intro row hrow
    rw [hrows, mem_singleton] at hrow
    subst hrow
    refine List.IsPrefix.trans ?_ webID_startsWith
    simp only [idPrefix_eq, String.toList_append, append_assoc]
    exact prefix_append _ _
  have hlisted : webDatabase.listed 7 9 "Pod" = [webRow] := by
    rw [Database.listed, hrows]
    exact filter_eq_self.2 fun row hrow => by
      rw [mem_singleton.1 hrow]
      exact decide_eq_true webID_startsWith
  have hperm : (webDatabase.matching 7 9 "Pod").Perm (webDatabase.listed 7 9 "Pod") :=
    matching_perm_listed (Sql.isPlain_of_all (by decide)) hids
  rw [hlisted] at hperm
  exact perm_singleton.1 hperm

/-- The worker of the cluster. -/
def webWorker : Worker := { workspaceID := 7, clusterID := 9, clusterName := "prod" }

/-- An empty cluster and an empty graph. -/
def emptyWorld : World (podKind : Kind Go.sample) := ⟨[], podDatabase 0 (by decide), .start, []⟩

/-- A request that is answered. -/
def answered : Step (podKind : Kind Go.sample) := .work ⟨true, ()⟩

theorem fetch_webDatabase :
    webWorker.fetch (podKind : Kind Go.sample) webDatabase "" = .ok ⟨[webID], ""⟩ := by
  have hfetch := fetchPage_cursorText webDatabase 7 9 "Pod" 500 (by decide) (by decide) none
  simp only [matching_webDatabase] at hfetch
  exact hfetch

theorem diff_webID : diff [] [webID] = ([], [webID]) := by
  simp [diff, webID_ne_empty]

theorem emitDeleted_webID : ∃ ev,
    (podKind : Kind Go.sample).emitDeleted webID 7 9 "prod" () = .ok ev ∧
      ev.externalID = webID ∧ ev.action = actionDeleted ∧ ev.workspaceID = 7 := by
  have hK : (podKind : Kind Go.sample) ∈ kindRegistry Go.sample := mem_cons_self
  have hname : (podKind : Kind Go.sample).WellNamed web := by
    unfold Kind.WellNamed
    decide
  have hparse := Kind.parse_listedAs (lawful_of_mem_kindRegistry hK) hname 9
  obtain ⟨ev, hev⟩ := Kind.exists_emitDeleted hparse 7 9 "prod" ()
  refine ⟨ev, hev, (Kind.externalID_of_emitDeleted (lawful_of_mem_kindRegistry hK) hev).2
    (split_of_startsWith webID_startsWith), ?_⟩
  obtain ⟨⟨ns, name⟩, -, hevent⟩ := bind_eq_ok_iff.1 hev
  cases hevent
  exact ⟨rfl, rfl⟩

theorem emit_webID {ev : Event Go.sample} (hws : ev.workspaceID = 7) :
    webWorker.emit true (.ok ev) [] = [ev] := by
  have hne : ev.workspaceID.str ≠ "00000000-0000-0000-0000-000000000000" := by
    rw [hws]
    decide
  obtain ⟨p, hp⟩ := exists_publish webWorker.subjectPrefix hne rfl
  have hone : webWorker.publishOne ev = .ok p := by
    rw [Worker.publishOne, if_neg (by rw [hws]; decide), hp]
  rw [Worker.emit]
  simp only [hone]
  rfl

/-- The run: the pod is created after the worker has listed the cluster, and it is in the graph
when the worker asks for it. -/
def race : List (Step (podKind : Kind Go.sample)) :=
  [answered, .create web, .watch webDatabase, answered, answered]

/-- The pod is in the cluster and in the graph, and its deletion is next. -/
def condemned : World (podKind : Kind Go.sample) :=
  ⟨[web], webDatabase, .emitting .empty () [] [webID], []⟩

theorem after_listed :
    webWorker.after podKind emptyWorld [answered, .create web, .watch webDatabase] =
      ⟨[web], webDatabase, .listed .empty, []⟩ := rfl

theorem compare_webID : webWorker.compare .empty [webID] () =
      (.emitting .empty () [] [webID] : Phase Go.sample) := by
  unfold Worker.compare
  rw [if_neg (by decide), Dict.keys_empty, diff_webID]

theorem after_paged :
    webWorker.after podKind emptyWorld [answered, .create web, .watch webDatabase, answered] =
      condemned := by
  have hturn : webWorker.turn (podKind : Kind Go.sample) webDatabase .empty [] "" ⟨true, ()⟩ 1000 =
      .emitting .empty () [] [webID] := by
    rw [Worker.turn, if_neg (by decide), fetch_webDatabase]
    simp only [nil_append, if_true]
    exact compare_webID
  have happend : [answered, .create web, .watch webDatabase, answered] =
      [answered, .create web, .watch webDatabase] ++ [answered] := rfl
  rw [happend, after_concat, after_listed]
  unfold Worker.step answered Worker.work condemned
  simp only [World.mk.injEq, true_and, and_true]
  rw [if_neg (by decide), hturn]

theorem after_race : ∃ ev, ev.externalID = webID ∧ ev.action = actionDeleted ∧
    webWorker.after podKind emptyWorld race =
      ⟨[web], webDatabase, .emitting .empty () [] [], [ev]⟩ := by
  obtain ⟨ev, hev, hid, haction, hws⟩ := emitDeleted_webID
  refine ⟨ev, hid, haction, ?_⟩
  have happend : race = [answered, .create web, .watch webDatabase, answered] ++ [answered] := rfl
  rw [happend, after_concat, after_paged]
  unfold Worker.step answered Worker.work condemned
  have hemit : webWorker.emit true ((podKind : Kind Go.sample).emitDeleted webID
      webWorker.workspaceID webWorker.clusterID webWorker.clusterName ()) [] = [ev] := by
    rw [show (podKind : Kind Go.sample).emitDeleted webID webWorker.workspaceID
      webWorker.clusterID webWorker.clusterName () = .ok ev from hev, emit_webID hws]
  simp only [hemit]

/-- **The race**: the worker deletes a pod that was never absent since it began to list the
graph. -/
theorem not_deletesOnlyGone_race :
    ¬ DeletesOnlyGone webWorker (podKind : Kind Go.sample) emptyWorld race := by
  intro h
  obtain ⟨ev, hid, haction, hafter⟩ := after_race
  obtain ⟨pre, hpre, hreading, habsent⟩ := h ev (by rw [hafter]; exact mem_singleton_self _)
    haction
  have hcluster : (webWorker.after podKind emptyWorld pre).cluster = [web] := by
    rw [← mem_inits] at hpre
    have hinits : race.inits = [[], [answered], [answered, .create web],
      [answered, .create web, .watch webDatabase],
      [answered, .create web, .watch webDatabase, answered], race] := rfl
    rw [hinits] at hpre
    simp only [mem_cons, not_mem_nil, or_false] at hpre
    rcases hpre with rfl | rfl | rfl | rfl | rfl | rfl
    · exact hreading.elim
    · exact hreading.elim
    · exact hreading.elim
    · exact hreading.elim
    · rw [after_paged]
      rfl
    · rw [hafter]
      rfl
  exact habsent web (by rw [hcluster]; exact mem_singleton_self _) hid.symm

/-- Without the creation the id of the pod is gone. -/
def goneRun : List (Step (podKind : Kind Go.sample)) :=
  [answered, .watch webDatabase, answered, answered]

theorem goneRun_deletesOnlyGone :
    DeletesOnlyGone webWorker (podKind : Kind Go.sample) emptyWorld goneRun := by
  refine deletesOnlyGone mem_cons_self ⟨rfl, rfl⟩ ?_
  rintro x ⟨pre, obj, hpre, -⟩
  have hmem : Step.create obj ∈ goneRun := hpre.subset (mem_append_right _ (by simp))
  simp [goneRun, answered] at hmem

end Omniscience.Operator
