import Omniscience.Reconcile.Worker

/-!
# The budget of a reconcile run

A run of the reconcile worker writes rows in three places, each bounded by what the cursor leaves
of `reemit_cap`.  The cursor is moved after the transaction of a place, so what bounds the whole
run is that the places never overlap: nothing but the run itself moves the cursor (`alone`).

`Spends` says of a part of a run what it writes and what it leaves of the budget.  It composes
(`Spends.bind`), so that the rows of a run come out as passes over the workspaces, the entity rows
of a pass before its edge rows (`runOnce_bounded`).
-/

namespace Omniscience.Reconcile

open Queue Outbox Coro List

/-- The rows of a call, whether or not its transaction went through. -/
def rowsOf : Event iface → List NewEvent
  | ⟨.insertEvents rows, _⟩ => rows
  | _ => []

/-- The rows that a run asked to be written, oldest first. -/
def written (t : List (Event iface)) : List NewEvent := t.flatMap rowsOf

theorem written_concat (t : List (Event iface)) (ev : Event iface) :
    written (t ++ [ev]) = written t ++ rowsOf ev := by
  simp [written]

/-- Nobody but the run moves the cursor: a worker makes one run at a time. -/
def alone : Contract iface where
  yields _ _ _ := True
  resumes _ _ s _ s' := s'.reemitCursor = s.reemitCursor

/-! ### Parts of a run -/

/-- From a cursor at `c`, the part `x` writes rows with the property `P` within the budget that is
left, and moves the cursor by their number if it does not raise. -/
def Spends {α : Type} (cap c : ℕ) (P : List NewEvent → Prop) (x : Co α) : Prop :=
  ∀ t s, s.reemitCursor = c →
    Coro.wp alone x (fun t' r s' => ∃ new, P new ∧ written t' = written t ++ new ∧
      new.length ≤ cap - c ∧ ∀ a, r = .ok a → s'.reemitCursor = c + new.length) t s

section Spends

variable {α β : Type} {cap c : ℕ} {P Q R : List NewEvent → Prop}

theorem spends_pure (hP : P []) (a : α) : Spends cap c P (pure a : Co α) := by
  intro t s hs
  exact ⟨[], hP, (append_nil _).symm, Nat.zero_le _, fun _ _ => hs⟩

theorem spends_lift (hP : P []) (a : Except Exc α) : Spends cap c P (lift (S := iface) a) := by
  intro t s hs
  rw [Coro.wp_lift]
  exact ⟨[], hP, (append_nil _).symm, Nat.zero_le _, fun _ _ => hs⟩

/-- **Sequences**: the second part goes on with what the first one left. -/
theorem Spends.bind {x : Co α} {f : α → Co β} (hx : Spends cap c P x)
    (hf : ∀ a c', Spends cap c' Q (f a)) (hraise : ∀ l, P l → R l)
    (happend : ∀ l l', P l → Q l' → R (l ++ l')) : Spends cap c R (x >>= f) := by
  intro t s hs
  refine wp_seq (hx t s hs) (fun a t₁ s₁ h => ?_) fun e t₁ s₁ h => ?_
  · obtain ⟨new, hP, hw, hlen, hcursor⟩ := h
    refine wp_mono (hf a _ t₁ s₁ (hcursor a rfl)) fun t₂ r s₂ h₂ => ?_
    obtain ⟨new', hQ, hw', hlen', hcursor'⟩ := h₂
    refine ⟨new ++ new', happend _ _ hP hQ, ?_, ?_, fun b hb => ?_⟩
    · rw [hw', hw, append_assoc]
    · rw [length_append]
      omega
    · rw [hcursor' b hb, length_append, Nat.add_assoc]
  · obtain ⟨new, hP, hw, hlen, -⟩ := h
    exact ⟨new, hraise _ hP, hw, hlen, by rintro _ ⟨⟩⟩

theorem spends_get {f : Memory → Co α} (hf : ∀ s, s.reemitCursor = c → Spends cap c P (f s)) :
    Spends cap c P (Coro.get (S := iface) >>= f) :=
  fun t s hs => hf s hs t s hs

theorem spends_call {q : Call} (hq : ∀ r, rowsOf ⟨q, r⟩ = []) (hP : P [])
    {f : q.Resp → Co α} (hf : ∀ a, Spends cap c P (f a)) : Spends cap c P (call q >>= f) := by
  intro t s hs
  refine wp_seq (P := fun t' _ s' => written t' = written t ∧ s'.reemitCursor = c)
    (wp_call.2 ⟨trivial, fun r s' hs' => ⟨?_, hs'.trans hs⟩⟩) (fun a t₁ s₁ h => ?_)
    fun e t₁ s₁ h => ?_
  · rw [written_concat, hq, append_nil]
  · refine wp_mono (hf a t₁ s₁ h.2) fun t₂ r s₂ h₂ => ?_
    rw [← h.1]
    exact h₂
  · exact ⟨[], hP, by rw [h.1, append_nil], Nat.zero_le _, by rintro _ ⟨⟩⟩

theorem spends_reads {A : Call → Prop} {x : Co α} (hx : x.Reads A) (hP : P [])
    (hA : ∀ q, A q → ∀ r, rowsOf ⟨q, r⟩ = []) : Spends cap c P x := by
  intro t s hs
  have hkeeps : Keeps alone (fun t' s' => written t' = written t ∧ s'.reemitCursor = c) x := by
    refine hx.keeps fun q hq => ⟨fun _ _ _ => trivial, fun t' s' r s'' h hs' => ⟨?_, ?_⟩⟩
    · rw [written_concat, hA q hq, append_nil, h.1]
    · exact hs'.trans h.2
  refine wp_mono (hkeeps.run t s ⟨rfl, hs⟩) fun t' r s' h => ?_
  exact ⟨[], hP, by rw [h.1, append_nil], Nat.zero_le _, fun _ _ => h.2⟩

theorem spends_emit {rows : List NewEvent} (hP : P rows) (hlen : rows.length ≤ cap - c) :
    Spends cap c P (ReconcileWorker.emit rows) := by
  intro t s hs
  refine wp_seq (P := fun t' _ s' => written t' = written t ++ rows ∧ s'.reemitCursor = c)
    (wp_call.2 ⟨trivial, fun r s' hs' => ⟨written_concat _ _, hs'.trans hs⟩⟩)
    (fun a t₁ s₁ h => ?_) fun e t₁ s₁ h => ?_
  · exact ⟨rows, hP, h.1, hlen, fun _ _ => congrArg (· + rows.length) h.2⟩
  · exact ⟨rows, hP, h.1, hlen, by rintro _ ⟨⟩⟩

/-- **Loops**, for a property that holds of nothing and of what two rounds write. -/
theorem spends_fold {L : Type} {body : L → β → Co L} (hnil : P [])
    (happend : ∀ l l', P l → P l' → P (l ++ l')) (hbody : ∀ l b c, Spends cap c P (body l b))
    (l : L) (bs : List β) : Spends cap c P (fold body l bs) := by
  induction bs generalizing l c with
  | nil => exact spends_pure hnil l
  | cons b bs ih => exact (hbody l b c).bind (fun l c' => ih l) (fun _ h => h) happend

end Spends

/-! ### The rows of a pass -/

/-- What a pass over a workspace writes. -/
structure Pass where
  workspaceId : Uuid
  entities : List EntityRow
  edges : List EdgeRow

/-- The rows of a pass: the entity rows, then the edge rows. -/
def Pass.rows (p : Pass) : List NewEvent :=
  p.entities.map (entityEvent p.workspaceId) ++ p.edges.map (edgeEvent p.workspaceId)

/-- Rows made from items of one kind. -/
def MadeBy {ι : Type} (f : ι → NewEvent) (rows : List NewEvent) : Prop :=
  ∃ items : List ι, rows = items.map f

section MadeBy

variable {ι : Type} (f : ι → NewEvent)

theorem madeBy_nil : MadeBy f [] := ⟨[], rfl⟩

theorem madeBy_append (l l' : List NewEvent) (h : MadeBy f l) (h' : MadeBy f l') :
    MadeBy f (l ++ l') := by
  obtain ⟨items, rfl⟩ := h
  obtain ⟨items', rfl⟩ := h'
  exact ⟨items ++ items', (map_append ..).symm⟩

theorem spends_emit_take {cap c : ℕ} (items : List ι) :
    Spends cap c (MadeBy f) (ReconcileWorker.emit ((items.take (cap - c)).map f)) := by
  refine spends_emit ⟨_, rfl⟩ ?_
  rw [length_map]
  exact length_take_le _ _

theorem spends_backfill {cap c : ℕ} (items : List ι) : Spends cap c (MadeBy f)
    (if items.isEmpty then pure () else ReconcileWorker.emit ((items.take (cap - c)).map f)) := by
  split
  · exact spends_pure (madeBy_nil f) ()
  · exact spends_emit_take f items

end MadeBy

/-- The rows of passes over the first of the workspaces. -/
def PassesOver (workspaceIds : List Uuid) (rows : List NewEvent) : Prop :=
  ∃ passes : List Pass, rows = passes.flatMap Pass.rows ∧
    passes.map Pass.workspaceId <+: workspaceIds

namespace ReconcileWorker

theorem rowsOf_orphans {q : Call} (hq : Orphans q) (r : Except Exc q.Resp) :
    rowsOf ⟨q, r⟩ = [] := by
  obtain hplain | ⟨_, rfl⟩ | ⟨_, _, _, rfl⟩ := hq
  · cases q with
    | insertEvents rows => exact hplain.elim
    | _ => rfl
  · rfl
  · rfl

variable (w : ReconcileWorker) {c : ℕ} (workspaceId ws : Uuid)

theorem spends_reemitEntitiesForMissingSources (missing : List Uuid) :
    Spends w.reemitCap c (MadeBy (entityEvent ws))
      (w.reemitEntitiesForMissingSources ws missing) := by
  refine spends_get fun s hs => ?_
  split
  · exact spends_pure (madeBy_nil _) ()
  · refine spends_call (fun _ => rfl) (madeBy_nil _) fun entities => ?_
    rw [hs]
    exact spends_backfill _ entities

theorem spends_checkPgMissingQdrant (sourceIds : List Uuid) :
    Spends w.reemitCap c (MadeBy (entityEvent ws))
      (w.checkPgMissingQdrant ws sourceIds) := by
  have hnil := madeBy_nil (entityEvent ws)
  have happend := madeBy_append (entityEvent ws)
  rw [checkPgMissingQdrant]
  split
  · exact spends_pure hnil _
  · refine spends_call (fun _ => rfl) hnil fun histogram => ?_
    refine (spends_lift hnil _).bind (fun present c => ?_) (fun _ h => h) happend
    -- the runs of the missing sources are marked, however many rows were written before
    have hrest : ∀ (missing : List Uuid) (c : ℕ), Spends w.reemitCap c (MadeBy (entityEvent ws)) (do
          forEach missing markIngestionRunPartial
          return missing) := fun missing c =>
      (spends_fold hnil happend (fun _ sourceId c => spends_reads
        (reads_markIngestionRunPartial sourceId) hnil fun q hq => rowsOf_orphans (.inl hq))
        () missing).bind (fun _ c => spends_pure hnil missing) (fun _ h => h) happend
    dsimp only
    split
    · exact (w.spends_reemitEntitiesForMissingSources ws _).bind
        (fun _ c => hrest _ c) (fun _ h => h) happend
    · exact hrest _ c

theorem spends_checkEntityDrift :
    Spends w.reemitCap c (MadeBy (entityEvent ws)) (w.checkEntityDrift ws) := by
  have hnil := madeBy_nil (entityEvent ws)
  refine spends_get fun s hs => ?_
  split
  · exact spends_pure hnil ()
  · refine spends_call (fun _ => rfl) hnil fun rows => ?_
    refine spends_call (fun _ => rfl) hnil fun qdrantVersions => ?_
    refine spends_call (fun _ => rfl) hnil fun neo4jVersions => ?_
    refine spends_call (fun _ => rfl) hnil fun qdrantHashes => ?_
    refine spends_call (fun _ => rfl) hnil fun neo4jHashes => ?_
    rw [hs]
    exact spends_backfill _ _

theorem spends_checkEdgeDrift :
    Spends w.reemitCap c (MadeBy (edgeEvent ws)) (w.checkEdgeDrift ws) := by
  have hnil := madeBy_nil (edgeEvent ws)
  refine spends_get fun s hs => ?_
  split
  · exact spends_pure hnil ()
  · refine spends_call (fun _ => rfl) hnil fun edges => ?_
    split
    · exact spends_pure hnil ()
    · refine spends_call (fun _ => rfl) hnil fun versions => ?_
      rw [hs]
      exact spends_backfill _ _

/-- **One pass**: entity rows, then edge rows, all within the budget. -/
theorem spends_reconcileWorkspace :
    Spends w.reemitCap c (fun rows => ∃ p : Pass, p.workspaceId = ws ∧ rows = p.rows)
      (w.reconcileWorkspace ws) := by
  have hnil := madeBy_nil (entityEvent ws)
  have happend := madeBy_append (entityEvent ws)
  -- a pass that has not come to the edges, and one that has
  have hentities : ∀ l, MadeBy (entityEvent ws) l →
      ∃ p : Pass, p.workspaceId = ws ∧ l = p.rows := by
    rintro _ ⟨entities, rfl⟩
    exact ⟨⟨ws, entities, []⟩, rfl, (append_nil _).symm⟩
  have hedges : ∀ l l', MadeBy (entityEvent ws) l → MadeBy (edgeEvent ws) l' →
      ∃ p : Pass, p.workspaceId = ws ∧ l ++ l' = p.rows := by
    rintro _ _ ⟨entities, rfl⟩ ⟨edges, rfl⟩
    exact ⟨⟨ws, entities, edges⟩, rfl, rfl⟩
  have hlast : ∀ (report : WorkspaceReconcileReport) (c : ℕ), Spends w.reemitCap c
      (fun rows => ∃ p : Pass, p.workspaceId = ws ∧ rows = p.rows) (do
        w.checkEntityDrift ws
        w.checkEdgeDrift ws
        return report) := by
    intro report c
    refine (w.spends_checkEntityDrift ws).bind (fun _ c => ?_) hentities hedges
    refine (w.spends_checkEdgeDrift ws).bind
      (fun _ c => spends_pure (P := (· = [])) rfl report) (fun _ h => h) ?_
    rintro l _ hl rfl
    rwa [append_nil]
  have hjoin : ∀ l l', MadeBy (entityEvent ws) l → (∃ p : Pass, p.workspaceId = ws ∧ l' = p.rows) →
      ∃ p : Pass, p.workspaceId = ws ∧ l ++ l' = p.rows := by
    rintro _ _ ⟨entities, rfl⟩ ⟨p, rfl, rfl⟩
    refine ⟨⟨p.workspaceId, entities ++ p.entities, p.edges⟩, rfl, ?_⟩
    rw [Pass.rows, Pass.rows, map_append, append_assoc]
  refine spends_call (fun _ => rfl) (hentities _ hnil) fun sourceIds => ?_
  refine (w.spends_checkPgMissingQdrant ws sourceIds).bind (fun missing c => ?_)
    hentities hjoin
  refine (spends_reads (w.reads_checkQdrantOrphans ws sourceIds) hnil
    fun q => rowsOf_orphans).bind (fun orphans c => ?_) hentities hjoin
  exact (spends_reads (w.reads_checkNeo4jOrphans ws sourceIds) hnil
    fun q => rowsOf_orphans).bind (fun orphans c => hlast _ c) hentities hjoin

theorem spends_workspaces (reports : List WorkspaceReconcileReport) (workspaceIds : List Uuid) :
    Spends w.reemitCap c (PassesOver workspaceIds) (fold (fun reports ws => do
      let report ← w.reconcileWorkspace ws
      return reports ++ [report]) reports workspaceIds) := by
  induction workspaceIds generalizing reports c with
  | nil => exact spends_pure ⟨[], rfl, nil_prefix⟩ reports
  | cons ws workspaceIds ih =>
    have hbody : Spends w.reemitCap c
        (fun rows => ∃ p : Pass, p.workspaceId = ws ∧ rows = p.rows) (do
          let report ← w.reconcileWorkspace ws
          return reports ++ [report]) := by
      refine (w.spends_reconcileWorkspace ws).bind
        (fun report c => spends_pure (P := (· = [])) rfl _) (fun _ h => h) ?_
      rintro l _ hl rfl
      rwa [append_nil]
    refine hbody.bind (fun reports c => ih reports) ?_ ?_
    · rintro _ ⟨p, rfl, rfl⟩
      exact ⟨[p], by simp, by simp⟩
    · rintro _ _ ⟨p, rfl, rfl⟩ ⟨passes, rfl, hprefix⟩
      refine ⟨p :: passes, rfl, ?_⟩
      exact prefix_cons_inj _ |>.2 hprefix

/-- The workspaces that a run is told about. -/
def workspacesOf (env : Env iface) (s : Memory) : List Uuid :=
  match (env [] .loadWorkspaceIds { s with reemitCursor := 0 }).1 with
  | .ok workspaceIds => workspaceIds
  | .error _ => []

/-- **The budget and the order of a run**: all rows together, the ones of a failed transaction
included, are at most `reemitCap`.  They are those of one pass for each workspace, in order, up to
the one where the run raised, and in a pass every entity row comes before every edge row. -/
theorem runOnce_bounded (env : Env iface) (halone : Coro.Obeys env alone) (s : Memory) :
    let rows := written (Coro.exec env w.runOnce [] s).trace
    rows.length ≤ w.reemitCap ∧ PassesOver (workspacesOf env s) rows := by
  rw [workspacesOf]
  have hexec : Coro.exec env w.runOnce [] s =
      Coro.exec env (Coro.bind (call .loadWorkspaceIds) fun workspaceIds =>
        fold (fun reports workspaceId => do
          let report ← w.reconcileWorkspace workspaceId
          return reports ++ [report]) [] workspaceIds) [] { s with reemitCursor := 0 } := rfl
  have hcursor := halone [] .loadWorkspaceIds { s with reemitCursor := 0 } trivial
  rw [hexec]
  simp only [call, Coro.call, Coro.bind, Coro.exec]
  generalize env [] .loadWorkspaceIds { s with reemitCursor := 0 } = answer at hcursor ⊢
  obtain ⟨r, s₁⟩ := answer
  cases r with
  | error e => exact ⟨Nat.zero_le _, [], rfl, nil_prefix⟩
  | ok workspaceIds =>
    have hwp := w.spends_workspaces [] workspaceIds
      ([] ++ [⟨.loadWorkspaceIds, .ok workspaceIds⟩]) s₁ hcursor
    obtain ⟨new, hpasses, hw, hlen, -⟩ := Coro.exec_of_wp halone hwp
    simp only [Coro.bind]
    rw [hw, written_concat]
    exact ⟨hlen, hpasses⟩

theorem obeys_oneEdge : Coro.Obeys oneEdge alone := by
  intro t q s _
  cases q <;> rfl

/-- A run with a budget of one row, over a workspace with one edge. -/
theorem runOnce_bounded_oneEdge : let w : ReconcileWorker := { py := .sample, reemitCap := 1 }
    let rows := written (Coro.exec oneEdge w.runOnce [] {}).trace
    Coro.Obeys oneEdge alone ∧ rows = [edgeEvent 7 missingEdge] ∧ rows.length ≤ 1 ∧
      PassesOver [7] rows :=
  ⟨obeys_oneEdge, rfl, runOnce_bounded _ oneEdge obeys_oneEdge {}⟩

end ReconcileWorker

end Omniscience.Reconcile
