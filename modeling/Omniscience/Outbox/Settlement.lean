import Omniscience.Outbox.Consumer

/-!
# Settlement: one answer for every message

A message that the broker delivers has to be answered once: acknowledged, handed back or
terminated.  `Settled` counts the answers in the trace of a run.

The consume loops give one answer to every message as long as two things do not happen.

* The edge loop must not meet a message with a proper id but an improper end before its local
  variables are bound: its `except` block reads `source_entity_id` and `target_entity_id` after a
  test of `edge_id` alone (`FirstEdgeBinds` excludes this).
* In the entity loop, the un-parking of edges must not fail: it runs after the acknowledgement,
  and its failure sends the message into the retry path (`UnparkSucceeds` excludes this).

`settled_once` is about every run with neither; `edge_loop_stops` and `acked_then_nacked` are the
two ways to fail.
-/

namespace Omniscience.Outbox

open List

open Queue Coro Deps

/-- The call answers the delivery `d`. -/
def settles (d : ℕ) : Call Service → Bool
  | .ack d' | .nak d' _ | .term d' => d' = d
  | _ => false

/-- The number of answers to the delivery `d` in a trace. -/
def settleCount (d : ℕ) (t : List (Event (iface Worker Service.Resp))) : ℕ :=
  t.countP fun ev => settles d ev.1

/-- The call returned. -/
def Answered {α : Type} (r : Except Exc α) : Prop := ∃ a, r = .ok a

/-- What the loops rely on: messages arrive, the first answer to a delivery is accepted, and the
dead letter producer that `start` created stays. -/
structure Cooperates (t : List (Event (iface Worker Service.Resp))) (q : Call Service)
    (s : Worker) (r : Except Exc (Call.Resp Service.Resp q)) (s' : Worker) : Prop where
  fetch : q = .fetch → Answered r
  settle : ∀ d, settles d q → settleCount d t = 0 → Answered r
  dlqProducer : s'.dlqProducer = s.dlqProducer

/-- The contract of the loops; the calls that satisfy `safe` do not fail. -/
def cooperative (safe : Call Service → Prop) : Contract (iface Worker Service.Resp) where
  yields _ _ _ := True
  resumes t q s r s' := Cooperates t q s r s' ∧ (safe q → Answered r)

/-- The delivery `d` has had `n` answers since the trace `t₀`, and no other delivery any. -/
structure Pending (d : ℕ) (t₀ : List (Event (iface Worker Service.Resp))) (n : ℕ)
    (t : List (Event (iface Worker Service.Resp))) (s : Worker) : Prop where
  count : settleCount d t = n
  others : ∀ d', d' ≠ d → settleCount d' t = settleCount d' t₀
  dlqProducer : s.dlqProducer = true

/-- The run returned and its delivery was answered once. -/
def Settled {α : Type} (d : ℕ) (t₀ : List (Event (iface Worker Service.Resp))) :
    Post (iface Worker Service.Resp) α :=
  fun t r s => Answered r ∧ Pending d t₀ 1 t s

/-- The run returned and its delivery was answered once, or it raised and left it unanswered. -/
def SettledUnlessRaised {α : Type} (d : ℕ) (t₀ : List (Event (iface Worker Service.Resp))) :
    Post (iface Worker Service.Resp) α :=
  fun t r s => match r with
    | .ok _ => Pending d t₀ 1 t s
    | .error _ => Pending d t₀ 0 t s

section

variable {safe : Call Service → Prop} {d : ℕ} {t₀ t : List (Event (iface Worker Service.Resp))}
  {s : Worker} {n : ℕ}

theorem settleCount_concat (d : ℕ) (t : List (Event (iface Worker Service.Resp)))
    (ev : Event (iface Worker Service.Resp)) :
    settleCount d (t ++ [ev]) = settleCount d t + if settles d ev.1 then 1 else 0 := by
  simp [settleCount, countP_append, countP_singleton]

theorem Settled.unlessRaised {α : Type} {r : Except Exc α} (h : Settled d t₀ t r s) :
    SettledUnlessRaised d t₀ t r s := by
  obtain ⟨⟨a, rfl⟩, hp⟩ := h
  exact hp

variable {s' : Worker}

theorem Pending.other (h : Pending d t₀ n t s) {q : Call Service} (hq : ∀ d', settles d' q = false)
    {r : Except Exc (Call.Resp Service.Resp q)} (hr : Cooperates t q s r s') :
    Pending d t₀ n (t ++ [⟨q, r⟩]) s' where
  count := by rw [settleCount_concat, hq, h.count]; rfl
  others d' hd' := by rw [settleCount_concat, hq, h.others d' hd']; rfl
  dlqProducer := hr.dlqProducer.trans h.dlqProducer

theorem Pending.settle (h : Pending d t₀ 0 t s) {q : Call Service}
    (hq : ∀ d', settles d' q = decide (d' = d)) {r : Except Exc (Call.Resp Service.Resp q)}
    (hr : Cooperates t q s r s') : Answered r ∧ Pending d t₀ 1 (t ++ [⟨q, r⟩]) s' := by
  refine ⟨hr.settle d (by rw [hq]; exact decide_eq_true rfl) h.count, ?_, fun d' hd' => ?_,
    hr.dlqProducer.trans h.dlqProducer⟩
  · rw [settleCount_concat, hq, h.count]
    simp
  · rw [settleCount_concat, hq, h.others d' hd']
    simp [hd']

theorem Pending.upd (h : Pending d t₀ n t s) (hs : s'.dlqProducer = s.dlqProducer) :
    Pending d t₀ n t s' :=
  ⟨h.count, h.others, hs.trans h.dlqProducer⟩

theorem wp_nak (h : Pending d t₀ 0 t s) (delay : Option ℕ) :
    Coro.wp (cooperative safe) (nak d delay : Co Unit) (Settled d t₀) t s := by
  refine wp_call.2 ⟨trivial, fun r s' hr => ?_⟩
  exact h.settle (fun d' => by simp [settles, eq_comm]) hr.1

theorem wp_term (h : Pending d t₀ 0 t s) :
    Coro.wp (cooperative safe) (term d : Co Unit) (Settled d t₀) t s := by
  refine wp_call.2 ⟨trivial, fun r s' hr => ?_⟩
  exact h.settle (fun d' => by simp [settles, eq_comm]) hr.1

theorem wp_ack (h : Pending d t₀ 0 t s) :
    Coro.wp (cooperative safe) (ack d : Co Unit) (Settled d t₀) t s := by
  refine wp_call.2 ⟨trivial, fun r s' hr => ?_⟩
  exact h.settle (fun d' => by simp [settles, eq_comm]) hr.1

theorem wp_service (h : Pending d t₀ n t s) (c : Service) : Coro.wp (cooperative safe) (service c)
      (fun t r s => (safe (.service c) → Answered r) ∧ Pending d t₀ n t s) t s := by
  refine wp_call.2 ⟨trivial, fun r s' hr => ⟨hr.2, ?_⟩⟩
  exact h.other (fun _ => rfl) hr.1

theorem wp_lift {α : Type} {a : Except Exc α} (h : Pending d t₀ n t s) :
    Coro.wp (cooperative safe) (Coro.lift a : Co α) (fun t _ s => Pending d t₀ n t s) t s :=
  Coro.wp_lift.2 h

variable (deps : Deps)

theorem wp_publish (h : Pending d t₀ n t s) (subject : String) (payload : Published) :
    Coro.wp (cooperative safe) (publish deps.py deps.pyd subject payload : Co Unit)
      (fun t _ s => Pending d t₀ n t s) t s := by
  refine Coro.wp_seq (wp_lift h) (fun data _ _ h => ?_) fun _ _ _ h => h
  exact wp_call.2 ⟨trivial, fun r s' hr => h.other (fun _ => rfl) hr.1⟩

theorem wp_routeToDlq {α : Type} {msg : Message α} (h : Pending msg.delivery t₀ 0 t s)
    (payload : Metadata) (dlqSubject errorMsg : String) :
    Coro.wp (cooperative safe) (routeToDlq deps msg payload dlqSubject errorMsg)
      (Settled msg.delivery t₀) t s := by
  rw [routeToDlq, wp_get_bind, if_pos h.dlqProducer]
  refine Coro.wp_try (P := SettledUnlessRaised msg.delivery t₀) ?_ (fun _ _ _ h => ⟨⟨_, rfl⟩, h⟩)
    fun _ _ _ h => wp_nak h none
  refine Coro.wp_seq (wp_publish deps h _ _) (fun _ _ _ h => ?_) fun _ _ _ h => h
  exact wp_mono (wp_term h) fun _ _ _ h => Settled.unlessRaised h

variable {msg : Message EntityUpsertEvent}

theorem wp_handleEntityFailure (h : Pending msg.delivery t₀ 0 t s) (entityId : Uuid) (exc : Exc) :
    Coro.wp (cooperative safe) (handleEntityFailure deps entityId msg exc)
      (Settled msg.delivery t₀) t s := by
  rw [handleEntityFailure, wp_get_bind, wp_modify_bind]
  split
  · apply wp_nak
    exact h.upd rfl
  · rw [wp_modify_bind]
    apply wp_routeToDlq
    exact h.upd rfl

theorem wp_handleEdgeFailure {msg : Message EdgeUpsertEvent} (h : Pending msg.delivery t₀ 0 t s)
    (edgeId sourceEntityId targetEntityId : Uuid) (exc : Exc) :
    Coro.wp (cooperative safe)
      (handleEdgeFailure deps edgeId sourceEntityId targetEntityId msg exc)
      (Settled msg.delivery t₀) t s := by
  rw [handleEdgeFailure, wp_get_bind, wp_modify_bind]
  split
  · apply wp_nak
    exact h.upd rfl
  · rw [wp_modify_bind]
    apply wp_routeToDlq
    exact h.upd rfl

/-- The calls of `_auto_unpark_edges`: the query and the publishes of the backfill events. -/
def IsUnparkCall (q : Call Service) : Prop :=
  (∃ ids, q = .service (.selectEdges ids)) ∨ ∃ data, q = .publish "outbox.edge.upsert" data

theorem wp_autoUnparkEdges (h : Pending d t₀ 1 t s) (resolvedEntityId : Uuid) :
    Coro.wp (cooperative IsUnparkCall) (autoUnparkEdges deps resolvedEntityId)
      (Settled d t₀) t s := by
  have hdone : Settled d t₀ t (.ok () : Except Exc Unit) s := ⟨⟨_, rfl⟩, h⟩
  rw [autoUnparkEdges, wp_get_bind]
  split
  · dsimp only
    split
    · refine Coro.wp_seq (wp_service h _) (fun rows t s hq => ?_) ?_
      · refine wp_forEach (Q := Settled d t₀) ⟨⟨_, rfl⟩, hq.2⟩ fun row _ t s hs => ?_
        rw [publish, publishData_edge]
        refine Coro.wp_seq (P := Settled d t₀) (wp_call.2 ⟨trivial, fun r s' hr => ?_⟩)
          (fun _ _ _ h => ⟨⟨_, rfl⟩, h.2.upd rfl⟩) fun e _ _ h => ⟨?_, h.2⟩
        · exact ⟨hr.2 (.inr ⟨_, rfl⟩), hs.2.other (fun _ => rfl) hr.1⟩
        · obtain ⟨⟨_, ha⟩, -⟩ := h
          cases ha
      · rintro e t s ⟨ha, -⟩
        obtain ⟨_, ha⟩ := ha (.inl ⟨_, rfl⟩)
        cases ha
    · exact hdone
  · exact hdone

theorem wp_writeEntity (h : Pending msg.delivery t₀ 0 t s) (entityId : Uuid) :
    Coro.wp (cooperative IsUnparkCall) (writeEntity deps entityId msg)
      (SettledUnlessRaised msg.delivery t₀) t s := by
  rw [writeEntity]
  refine Coro.wp_seq (wp_lift h) (fun _ _ _ h => ?_) fun _ _ _ h => h
  refine Coro.wp_seq (wp_lift h) (fun _ _ _ h => ?_) fun _ _ _ h => h
  refine Coro.wp_seq (wp_service h _) (fun _ _ _ h => ?_) fun _ _ _ h => h.2
  refine Coro.wp_seq (wp_service h.2 _) (fun _ _ _ h => ?_) fun _ _ _ h => h.2
  refine Coro.wp_seq (wp_lift h.2) (fun _ _ _ h => ?_) fun _ _ _ h => h
  refine Coro.wp_seq (wp_service h _) (fun _ _ _ h => ?_) fun _ _ _ h => h.2
  rw [wp_modify_bind]
  refine Coro.wp_seq (wp_ack (h.2.upd rfl)) (fun _ _ _ h => ?_)
    fun _ _ _ h => Settled.unlessRaised h
  exact wp_mono (wp_autoUnparkEdges deps h.2 entityId) fun _ _ _ h => Settled.unlessRaised h

theorem wp_exceptEntity (h : Pending msg.delivery t₀ 0 t s) (entityId : Option Uuid) (exc : Exc) :
    Coro.wp (cooperative safe) (exceptEntity deps entityId msg exc)
      (Settled msg.delivery t₀) t s := by
  cases entityId with
  | none => exact wp_nak h none
  | some entityId => exact wp_handleEntityFailure deps h entityId exc

theorem wp_processEntity (h : Pending msg.delivery t₀ 0 t s) (entityId : Uuid) :
    Coro.wp (cooperative IsUnparkCall) (processEntity deps entityId msg)
      (SettledUnlessRaised msg.delivery t₀) t s := by
  have h' : Pending msg.delivery t₀ 0 t
      (if msg.payload.isBackfill then s.clearEntity entityId else s) := by
    split
    · exact h.upd rfl
    · exact h
  rw [processEntity, wp_modify_bind, wp_get_bind]
  generalize (if msg.payload.isBackfill then s.clearEntity entityId else s) = s' at h' ⊢
  split
  · exact wp_mono (wp_routeToDlq deps h' _ _ _) fun _ _ _ h => Settled.unlessRaised h
  · exact wp_writeEntity deps h' entityId

/-- **One iteration of the entity loop** answers its message once. -/
theorem wp_consumeEntity (h : Pending msg.delivery t₀ 0 t s) (entityId : Option Uuid) :
    Coro.wp (cooperative IsUnparkCall) (consumeEntity deps entityId msg)
      (Settled msg.delivery t₀) t s := by
  have hret : ∀ (l : Option Uuid) (x : Unit) t s,
      Settled msg.delivery t₀ t (.ok x : Except Exc Unit) s →
      Coro.wp (cooperative IsUnparkCall) (pure l : Co (Option Uuid)) (Settled msg.delivery t₀)
        t s :=
    fun _ _ _ _ h => ⟨⟨_, rfl⟩, h.2⟩
  have hraise : ∀ (e : Exc) t s, Settled msg.delivery t₀ t (.error e : Except Exc Unit) s →
      Settled msg.delivery t₀ t (.error e : Except Exc (Option Uuid)) s := by
    rintro e t s ⟨⟨_, ha⟩, -⟩
    cases ha
  rw [consumeEntity]
  split
  · exact Coro.wp_seq (wp_exceptEntity deps h entityId _) (hret _) hraise
  · refine Coro.wp_seq ?_ (hret _) hraise
    exact Coro.wp_try (wp_processEntity deps h _) (fun _ _ _ h => ⟨⟨_, rfl⟩, h⟩)
      fun exc _ _ h => wp_exceptEntity deps h _ exc

/-! ### Edges -/

/-- All three variables are bound. -/
structure EdgeLocals.Bound (l : EdgeLocals) : Prop where
  edgeId : l.edgeId.isSome
  sourceEntityId : l.sourceEntityId.isSome
  targetEntityId : l.targetEntityId.isSome

/-- The `except` block finds the variables it reads. -/
def EdgeLocals.Ready (l : EdgeLocals) : Prop := l.edgeId = none ∨ l.Bound

theorem EdgeLocals.assign_cases {l : EdgeLocals} (event : EdgeUpsertEvent)
    (h : l.Bound ∨ ∀ u, uuidOf event.id = .ok u →
      Answered (uuidOf event.sourceEntityId) ∧ Answered (uuidOf event.targetEntityId)) :
    (l.assign event).1.Bound ∨
      (l.assign event).1 = l ∧ (∃ exc, uuidOf event.id = .error exc) ∧
        ∃ exc, (l.assign event).2 = .error exc := by
  rw [EdgeLocals.assign]
  split
  · rename_i exc hid
    exact Or.inr ⟨rfl, ⟨exc, hid⟩, exc, rfl⟩
  · rename_i edgeId hid
    left
    dsimp only
    split
    · rename_i exc hsrc
      rcases h with h | h
      · exact ⟨rfl, h.sourceEntityId, h.targetEntityId⟩
      · obtain ⟨⟨_, hok⟩, -⟩ := h edgeId hid
        rw [hsrc] at hok
        cases hok
    · split
      · rename_i exc htgt
        rcases h with h | h
        · exact ⟨rfl, rfl, h.targetEntityId⟩
        · obtain ⟨-, _, hok⟩ := h edgeId hid
          rw [htgt] at hok
          cases hok
      · exact ⟨rfl, rfl, rfl⟩

theorem wp_exceptEdge {l : EdgeLocals} (hl : l.Ready) {msg : Message EdgeUpsertEvent}
    (h : Pending msg.delivery t₀ 0 t s) (exc : Exc) :
    Coro.wp (cooperative safe) (l.exceptEdge deps msg exc) (Settled msg.delivery t₀) t s := by
  rw [EdgeLocals.exceptEdge]
  rcases hl with hl | ⟨he, hs, ht⟩
  · rw [hl]
    exact wp_nak h none
  · obtain ⟨edgeId, he⟩ := Option.isSome_iff_exists.1 he
    obtain ⟨sourceEntityId, hs⟩ := Option.isSome_iff_exists.1 hs
    obtain ⟨targetEntityId, ht⟩ := Option.isSome_iff_exists.1 ht
    rw [he, hs, ht]
    exact wp_handleEdgeFailure deps h _ _ _ exc

theorem wp_processEdge {msg : Message EdgeUpsertEvent} (h : Pending msg.delivery t₀ 0 t s)
    (edgeId sourceEntityId targetEntityId : Uuid) :
    Coro.wp (cooperative safe) (processEdge deps edgeId sourceEntityId targetEntityId msg)
      (SettledUnlessRaised msg.delivery t₀) t s := by
  have h' : Pending msg.delivery t₀ 0 t
      (if msg.payload.isBackfill then s.clearEdge edgeId else s) := by
    split
    · exact h.upd rfl
    · exact h
  rw [processEdge, wp_modify_bind, wp_get_bind]
  generalize (if msg.payload.isBackfill then s.clearEdge edgeId else s) = s' at h' ⊢
  split
  · exact wp_mono (wp_routeToDlq deps h' _ _ _) fun _ _ _ h => Settled.unlessRaised h
  · split
    · rw [wp_modify_bind]
      refine wp_mono (wp_routeToDlq deps ?_ _ _ _) fun _ _ _ h => Settled.unlessRaised h
      exact h'.upd rfl
    · rw [writeEdge]
      refine Coro.wp_seq (wp_lift h') (fun _ _ _ h => ?_) fun _ _ _ h => h
      refine Coro.wp_seq (wp_service h _) (fun _ _ _ h => ?_) fun _ _ _ h => h.2
      rw [wp_modify_bind]
      refine wp_mono (wp_ack ?_) fun _ _ _ h => Settled.unlessRaised h
      exact h.2.upd rfl

/-- **One iteration of the edge loop** answers its message once, if its `except` block finds the
variables it reads. -/
theorem wp_consumeEdge {l : EdgeLocals} {msg : Message EdgeUpsertEvent}
    (hl : (l.assign msg.payload).1.Ready) (h : Pending msg.delivery t₀ 0 t s) :
    Coro.wp (cooperative safe) (consumeEdge deps l msg)
      (fun t r s => r = .ok (l.assign msg.payload).1 ∧ Pending msg.delivery t₀ 1 t s) t s := by
  have hraise : ∀ (e : Exc) t s, Settled msg.delivery t₀ t (.error e : Except Exc Unit) s →
      (.error e : Except Exc EdgeLocals) = .ok (l.assign msg.payload).1 ∧
        Pending msg.delivery t₀ 1 t s := by
    rintro e t s ⟨⟨_, ha⟩, -⟩
    cases ha
  rw [consumeEdge]
  split
  · rename_i l' exc heq
    rw [heq] at hl hraise
    rw [heq]
    exact Coro.wp_seq (wp_exceptEdge deps hl h exc) (fun _ _ _ h => ⟨rfl, h.2⟩) hraise
  · rename_i l' edgeId sourceEntityId targetEntityId heq
    rw [heq] at hl hraise
    rw [heq]
    refine Coro.wp_seq ?_ (fun _ _ _ h => ⟨rfl, h.2⟩) hraise
    exact Coro.wp_try (wp_processEdge deps h _ _ _) (fun _ _ _ h => ⟨⟨_, rfl⟩, h⟩)
      fun exc _ _ h => wp_exceptEdge deps hl h exc

/-! ### The loops -/

theorem wp_processRaw_settled {α : Type} (c : QueueConsumer α) {raw : Raw}
    (h : Pending raw.delivery t₀ 0 t s) :
    Coro.wp (cooperative safe)
      (processRaw deps.py deps.pyd Worker.clock c raw : Co (Option (Message α)))
      (fun t' r s' =>
        (r = .ok none ∧ yielded c raw = none ∧ Pending raw.delivery t₀ 1 t' s') ∨
        ∃ payload, r = .ok (some ⟨raw.delivery, raw.subject, payload⟩) ∧
          yielded c raw = some payload ∧ t' = t ∧ s' = s) t s := by
  rw [processRaw, yielded]
  split
  · -- given up: whatever the broker says to the dead letter, the message is terminated
    refine Coro.wp_seq (P := Settled raw.delivery t₀) ?_ ?_ ?_
    · rw [QueueConsumer.routeToDlq, Coro.wp_get_bind]
      refine Coro.wp_seq (P := fun t r s => Answered r ∧ Pending raw.delivery t₀ 0 t s) ?_
        (fun _ _ _ h => wp_term h.2) ?_
      · exact Coro.wp_try (wp_publish deps h _ _) (fun _ _ _ h => ⟨⟨_, rfl⟩, h⟩)
          fun _ _ _ h => ⟨⟨_, rfl⟩, h⟩
      · rintro e t s ⟨⟨_, ha⟩, -⟩
        cases ha
    · rintro _ t s ⟨-, h⟩
      exact Or.inl ⟨rfl, rfl, h⟩
    · rintro e t s ⟨⟨_, ha⟩, -⟩
      cases ha
  · split
    · rename_i exc hdec
      refine Coro.wp_seq (wp_nak h none) ?_ ?_
      · rintro _ t s ⟨-, h⟩
        exact Or.inl ⟨rfl, by rw [hdec]; rfl, h⟩
      · rintro e t s ⟨⟨_, ha⟩, -⟩
        cases ha
    · rename_i payload hdec
      exact Or.inr ⟨payload, rfl, by rw [hdec]; rfl, rfl, rfl⟩

theorem wp_deliver {α L : Type} {c : QueueConsumer α} {body : L → Message α → Co L} {l : L}
    {raw : Raw} {Q : Post (iface Worker Service.Resp) L} (h : Pending raw.delivery t₀ 0 t s)
    (hnone : yielded c raw = none → ∀ t s, Pending raw.delivery t₀ 1 t s → Q t (.ok l) s)
    (hsome : ∀ payload, yielded c raw = some payload →
      Coro.wp (cooperative safe) (body l ⟨raw.delivery, raw.subject, payload⟩) Q t s) :
    Coro.wp (cooperative safe) (deliver deps.py deps.pyd Worker.clock c body l raw) Q t s := by
  refine Coro.wp_seq (wp_processRaw_settled deps c h) ?_ ?_
  · rintro msg t' s' (⟨hr, hy, hp⟩ | ⟨payload, hr, hy, rfl, rfl⟩)
    · cases hr
      exact hnone hy t' s' hp
    · cases hr
      exact hsome payload hy
  · rintro e t' s' (⟨hr, -⟩ | ⟨_, hr, -⟩) <;> cases hr

/-- What is known before the raw messages `rest`: they are unanswered, and the messages `done`
before them have one answer each. -/
structure Progress (done rest : List Raw) (t : List (Event (iface Worker Service.Resp)))
    (s : Worker) : Prop where
  nodup : ((done ++ rest).map Raw.delivery).Nodup
  done : ∀ raw ∈ done, settleCount raw.delivery t = 1
  rest : ∀ raw ∈ rest, settleCount raw.delivery t = 0
  dlqProducer : s.dlqProducer = true

theorem Progress.pending {done rest : List Raw} {raw : Raw}
    (h : Progress done (raw :: rest) t s) : Pending raw.delivery t 0 t s :=
  ⟨h.rest raw mem_cons_self, fun _ _ => rfl, h.dlqProducer⟩

theorem Progress.next {done rest : List Raw} {raw : Raw} (h : Progress done (raw :: rest) t₀ s)
    (hp : Pending raw.delivery t₀ 1 t s') : Progress (done ++ [raw]) rest t s' := by
  have hnodup := h.nodup
  rw [map_append, map_cons, nodup_middle, nodup_cons, mem_append,
    not_or] at hnodup
  obtain ⟨⟨hdone, hrest⟩, -⟩ := hnodup
  -- the deliveries are distinct, so the answer to this one is no answer to another
  refine ⟨by simpa using h.nodup, fun raw' hraw' => ?_, fun raw' hraw' => ?_, hp.dlqProducer⟩
  · rcases mem_append.1 hraw' with hraw' | hraw'
    · have hne : raw'.delivery ≠ raw.delivery :=
        fun he => hdone (he ▸ mem_map_of_mem hraw')
      rw [hp.others _ hne]
      exact h.done raw' hraw'
    · rw [mem_singleton.1 hraw']
      exact hp.count
  · have hne : raw'.delivery ≠ raw.delivery :=
      fun he => hrest (he ▸ mem_map_of_mem hraw')
    rw [hp.others _ hne]
    exact h.rest raw' (mem_cons_of_mem _ hraw')

theorem Progress.fetched {done rest : List Raw} (h : Progress done rest t s) {r : Except Exc Unit}
    (hr : Cooperates t .fetch s r s') : Progress done rest (t ++ [⟨.fetch, r⟩]) s' := by
  have hcount : ∀ d, settleCount d (t ++ [⟨.fetch, r⟩]) = settleCount d t := by
    intro d
    rw [settleCount_concat]
    rfl
  exact ⟨h.nodup, fun raw hraw => (hcount _).trans (h.done raw hraw),
    fun raw hraw => (hcount _).trans (h.rest raw hraw), hr.dlqProducer.trans h.dlqProducer⟩

/-- **The rule for a consume loop**: it answers every message once if every iteration answers its
own, where `I` is what the iterations keep of the local variables. -/
theorem wp_iter_settled {α L : Type} {c : QueueConsumer α} {body : L → Message α → Co L}
    (I : List Raw → L → Prop)
    (hnone : ∀ raw rest l, I (raw :: rest) l → yielded c raw = none → I rest l)
    (hsome : ∀ raw rest l payload t s, I (raw :: rest) l → yielded c raw = some payload →
      Pending raw.delivery t 0 t s →
      Coro.wp (cooperative safe) (body l ⟨raw.delivery, raw.subject, payload⟩)
        (fun t' r s' => (∃ l', r = .ok l' ∧ I rest l') ∧ Pending raw.delivery t 1 t' s') t s)
    {batches : List (List Raw)} (hnodup : (batches.flatten.map Raw.delivery).Nodup) {l : L}
    (hl : I batches.flatten l) {s : Worker} (hs : s.dlqProducer = true) :
    Coro.wp (cooperative safe) (iter deps.py deps.pyd Worker.clock c body l batches)
      (fun t r _ => Answered r ∧ ∀ raw ∈ batches.flatten, settleCount raw.delivery t = 1) [] s := by
  -- `done` are the messages settled so far; the rest has not been touched
  refine wp_iter deps.py deps.pyd Worker.clock c
    (fun rest l t s => I rest l ∧ ∃ done, done ++ rest = batches.flatten ∧ Progress done rest t s)
    ?_ ?_ ?_ ⟨hl, [], rfl, hnodup, by rintro _ ⟨⟩, fun _ _ => rfl, hs⟩
  · rintro l t s ⟨-, done, hall, h⟩
    rw [append_nil] at hall
    exact ⟨⟨_, rfl⟩, hall ▸ h.done⟩
  · rintro batch rest l t s ⟨hI, done, hall, h⟩
    refine ⟨trivial, fun r s' hr => ?_⟩
    obtain ⟨_, rfl⟩ := hr.1.fetch rfl
    exact ⟨hI, done, hall, h.fetched hr.1⟩
  · rintro raw rest l t s ⟨hI, done, hall, h⟩
    have hall' : (done ++ [raw]) ++ rest = batches.flatten := by simpa using hall
    refine wp_deliver deps h.pending (fun hy t' s' hp => ?_) fun payload hy => ?_
    · exact ⟨hnone raw rest l hI hy, _, hall', h.next hp⟩
    · refine wp_mono (hsome raw rest l payload t s hI hy h.pending) fun t' r s' hr => ?_
      obtain ⟨⟨l', rfl, hI'⟩, hp⟩ := hr
      exact ⟨hI', _, hall', h.next hp⟩

/-! ### Every run -/

/-- The first message of the edge loop whose id is a UUID has UUIDs for its ends. -/
def FirstEdgeBinds (c : QueueConsumer EdgeUpsertEvent) : List Raw → Prop
  | [] => True
  | raw :: rest =>
    match yielded c raw with
    | none => FirstEdgeBinds c rest
    | some event =>
      match uuidOf event.id with
      | .error _ => FirstEdgeBinds c rest
      | .ok _ => Answered (uuidOf event.sourceEntityId) ∧ Answered (uuidOf event.targetEntityId)

/-- The un-parking of edges does not fail. -/
def UnparkSucceeds (env : Env (iface Worker Service.Resp)) : Prop :=
  ∀ t q s, IsUnparkCall q → Answered (env t q s).1

/-- **Every message is answered once**: the loop goes through, and every message it was given is
acknowledged, handed back or terminated exactly once, whatever the stores, the dead letter queue and
the other tasks do. -/
theorem settled_once (cs : Consumers) (env : Env (iface Worker Service.Resp))
    (henv : ∀ t q s, Cooperates t q s (env t q s).1 (env t q s).2) (batches : List (List Raw))
    (hnodup : (batches.flatten.map Raw.delivery).Nodup) (s : Worker) (hs : s.dlqProducer = true) :
    (UnparkSucceeds env →
      let o := Coro.exec env
        (iter deps.py deps.pyd Worker.clock cs.entity (consumeEntity deps) none batches) [] s
      Answered o.result ∧ ∀ raw ∈ batches.flatten, settleCount raw.delivery o.trace = 1) ∧
    (FirstEdgeBinds cs.edge batches.flatten →
      let o := Coro.exec env
        (iter deps.py deps.pyd Worker.clock cs.edge (consumeEdge deps) {} batches) [] s
      Answered o.result ∧ ∀ raw ∈ batches.flatten, settleCount raw.delivery o.trace = 1) := by
  constructor
  · intro hunpark
    have hobeys : Obeys env (cooperative IsUnparkCall) :=
      fun t q s _ => ⟨henv t q s, hunpark t q s⟩
    refine exec_of_wp hobeys (wp_iter_settled deps (fun _ _ => True) (fun _ _ _ _ _ => trivial)
      ?_ hnodup trivial hs)
    intro raw rest l payload t s _ _ hp
    refine wp_mono (wp_consumeEntity deps hp l) fun t' r s' h => ?_
    obtain ⟨⟨l', rfl⟩, hp'⟩ := h
    exact ⟨⟨l', rfl, trivial⟩, hp'⟩
  · intro hfirst
    have hobeys : Obeys env (cooperative fun _ => False) :=
      fun t q s _ => ⟨henv t q s, False.elim⟩
    -- the variables are bound, or the first proper message will bind them
    refine exec_of_wp hobeys (wp_iter_settled deps
      (fun rest l => l.Bound ∨ l.edgeId = none ∧ FirstEdgeBinds cs.edge rest)
      ?_ ?_ hnodup (Or.inr ⟨rfl, hfirst⟩) hs)
    · rintro raw rest l (hl | ⟨hl, hf⟩) hy
      · exact Or.inl hl
      · rw [FirstEdgeBinds, hy] at hf
        exact Or.inr ⟨hl, hf⟩
    · intro raw rest l event t s hl hy hp
      have hassign : (l.assign event).1.Bound ∨
          (l.assign event).1.edgeId = none ∧ FirstEdgeBinds cs.edge rest := by
        rcases hl with hl | ⟨hl, hf⟩
        · rcases EdgeLocals.assign_cases event (Or.inl hl) with h | ⟨h, -⟩
          · exact Or.inl h
          · rw [h]
            exact Or.inl hl
        · rw [FirstEdgeBinds, hy] at hf
          rcases EdgeLocals.assign_cases (l := l) event
            (Or.inr fun u hu => by simpa only [hu] using hf) with h | ⟨h, ⟨exc, hid⟩, -⟩
          · exact Or.inl h
          · simp only [hid] at hf
            rw [h]
            exact Or.inr ⟨hl, hf⟩
      have hready : (l.assign event).1.Ready := hassign.elim Or.inr fun h => Or.inl h.1
      refine wp_mono (wp_consumeEdge deps hready hp) fun t' r s' h => ?_
      exact ⟨⟨_, h.1, hassign⟩, h.2⟩

end

/-! ### The two ways to fail -/

/-- An outside in which every call succeeds. -/
def accepting : Env (iface Worker Service.Resp)
  | _, .fetch, s => (.ok (), s)
  | _, .ack _, s => (.ok (), s)
  | _, .nak _ _, s => (.ok (), s)
  | _, .term _, s => (.ok (), s)
  | _, .publish _ _, s => (.ok (), s)
  | _, .service (.upsertEntity _ _), s => (.ok (), s)
  | _, .service (.upsertEdge _ _), s => (.ok (), s)
  | _, .service (.mergeNodes _ _ _), s => (.ok true, s)
  | _, .service (.unmergeNode _ _), s => (.ok true, s)
  | _, .service (.embed _), s => (.ok [[]], s)
  | _, .service (.upsertChunks _), s => (.ok (), s)
  | _, .service (.selectEntities _), s => (.ok [], s)
  | _, .service (.selectEdges _), s => (.ok [], s)
  | _, .service .sleep, s => (.ok (), s)

theorem accepting_cooperates (t : List (Event (iface Worker Service.Resp))) (q : Call Service)
    (s : Worker) : Cooperates t q s (accepting t q s).1 (accepting t q s).2 := by
  have hok : Answered (accepting t q s).1 ∧ (accepting t q s).2 = s := by
    rcases q with _ | _ | ⟨_, _⟩ | _ | ⟨_, _⟩ | c
    case service => cases c <;> exact ⟨⟨_, rfl⟩, rfl⟩
    all_goals exact ⟨⟨_, rfl⟩, rfl⟩
  exact ⟨fun _ => hok.1, fun _ _ _ => hok.1, by rw [hok.2]⟩

/-- An edge event of the operator graph whose target is unknown. -/
def danglingEdge : EdgeUpsertEvent where
  id := Uuid.str 1
  sourceEntityId := Uuid.str 2
  targetEntityId := ""
  edgeType := "DEPENDS_ON"

/-- The first delivery of an edge event. -/
def edgeRaw (event : EdgeUpsertEvent) : Raw where
  delivery := 7
  subject := "outbox.edge.upsert"
  data := serializeEdgeUpsertEvent Py.sample event
  numDelivered := some 1

theorem uuidOf_empty : ∃ exc, uuidOf "" = .error exc := by
  have h : Uuid.parse "" = none := by decide +kernel
  rw [uuidOf, h]
  exact ⟨_, rfl⟩

theorem yielded_edgeRaw {event : EdgeUpsertEvent} (hm : Py.sample.RoundTrips event.metadata) :
    yielded (consumers sample).edge (edgeRaw event) = some event.asDelivered := by
  refine yielded_eq_some ?_ (decodeEdge_serialize _ _ hm)
  show 1 < 5
  decide

theorem edge_loop_stops :
    let o := Coro.exec accepting (iter Py.sample Pydantic.strict Worker.clock
      (consumers sample).edge (consumeEdge sample) {} [[edgeRaw danglingEdge]]) [] {}
    o.result = .error (unboundLocal "target_entity_id") ∧ settleCount 7 o.trace = 0 := by
  obtain ⟨exc, hempty⟩ := uuidOf_empty
  have hassign : EdgeLocals.assign {} danglingEdge.asDelivered =
      ({ edgeId := some 1, sourceEntityId := some 2 }, .error exc) := by
    simp only [EdgeLocals.assign, danglingEdge, EdgeUpsertEvent.asDelivered, uuidOf_str, hempty]
  have hrun : deliver Py.sample Pydantic.strict Worker.clock (consumers sample).edge
      (consumeEdge sample) {} (edgeRaw danglingEdge) =
        .raise (unboundLocal "target_entity_id") := by
    rw [deliver_of_yielded _ _ _ _ (yielded_edgeRaw Py.sample_roundTrips), consumeEdge, hassign]
    rfl
  simp only [Queue.iter, fold, hrun]
  exact ⟨rfl, rfl⟩

/-- The first delivery of an entity event. -/
def entityRaw (event : EntityUpsertEvent) : Raw where
  delivery := 7
  subject := "outbox.entity.upsert"
  data := serializeEntityUpsertEvent Py.sample event
  numDelivered := some 1

theorem yielded_entityRaw {event : EntityUpsertEvent} (hm : Py.sample.RoundTrips event.metadata) :
    yielded (consumers sample).entity (entityRaw event) = some event.asDelivered := by
  refine yielded_eq_some ?_ (decodeEntity_serialize _ _ hm)
  show 1 < 5
  decide

/-- An entity event. -/
def plainEntity : EntityUpsertEvent where
  id := Uuid.str 2
  sourceId := Uuid.str 4
  entityType := "service"
  name := "api"
  displayName := "API"

/-- An edge from the entity 2 to the entity 3 is parked. -/
def withParkedEdge : Worker where
  parkedEdges := Dict.empty.set 1 0
  edgeDeps := Dict.empty.set 1 (2, 3)

/-- An outside in which only the query for edges fails. -/
def withoutEdges : Env (iface Worker Service.Resp)
  | _, .service (.selectEdges _), s => (.error ⟨.external, "connection refused"⟩, s)
  | t, q, s => accepting t q s

theorem acked_then_nacked :
    settleCount 7 (Coro.exec withoutEdges (iter Py.sample Pydantic.strict Worker.clock
      (consumers sample).entity (consumeEntity sample) none [[entityRaw plainEntity]])
      [] withParkedEdge).trace = 2 := by
  have hid : uuidOf plainEntity.asDelivered.id = .ok 2 := uuidOf_str 2
  have hsource : uuidOf plainEntity.asDelivered.sourceId = .ok 4 := uuidOf_str 4
  have hy : yielded (consumers sample).entity (entityRaw plainEntity) = _ :=
    yielded_entityRaw Py.sample_roundTrips
  simp only [Queue.iter, fold, deliver_of_yielded _ _ _ _ hy, consumeEntity, hid, processEntity,
    writeEntity, hsource]
  rfl

theorem withoutEdges_cooperates (t : List (Event (iface Worker Service.Resp))) (q : Call Service)
    (s : Worker) : Cooperates t q s (withoutEdges t q s).1 (withoutEdges t q s).2 := by
  rcases q with _ | _ | ⟨_, _⟩ | _ | ⟨_, _⟩ | c
  case service =>
    cases c
    case selectEdges => exact ⟨by rintro ⟨⟩, by rintro d ⟨⟩, rfl⟩
    all_goals exact accepting_cooperates t _ s
  all_goals exact accepting_cooperates t _ s

/-- Neither loop answers every message once in every run. -/
theorem not_always_settled_once :
    (¬ ∀ env, (∀ t q s, Cooperates t q s (env t q s).1 (env t q s).2) →
      ∀ (batches : List (List Raw)) (s : Worker), (batches.flatten.map Raw.delivery).Nodup →
      s.dlqProducer = true → ∀ raw ∈ batches.flatten, settleCount raw.delivery
        (Coro.exec env (iter Py.sample Pydantic.strict Worker.clock (consumers sample).entity
          (consumeEntity sample) none batches) [] s).trace = 1) ∧
    ¬ ∀ env, (∀ t q s, Cooperates t q s (env t q s).1 (env t q s).2) →
      ∀ batches : List (List Raw), (batches.flatten.map Raw.delivery).Nodup →
      Answered (Coro.exec env (iter Py.sample Pydantic.strict Worker.clock
        (consumers sample).edge (consumeEdge sample) {} batches) [] {}).result := by
  refine ⟨fun h => ?_, fun h => ?_⟩
  · have hone := h withoutEdges withoutEdges_cooperates [[entityRaw plainEntity]] withParkedEdge
      (nodup_singleton _) rfl _ (mem_singleton_self _)
    have htwo := acked_then_nacked.symm.trans hone
    cases htwo
  · obtain ⟨l, hl⟩ := h accepting accepting_cooperates [[edgeRaw danglingEdge]]
      (nodup_singleton _)
    have herr := edge_loop_stops.1.symm.trans hl
    cases herr

/-- An edge event with proper ends. -/
def properEdge : EdgeUpsertEvent := { danglingEdge with targetEntityId := Uuid.str 3 }

theorem settled_once_properEdge :
    settleCount 7 (Coro.exec accepting (iter Py.sample Pydantic.strict Worker.clock
      (consumers sample).edge (consumeEdge sample) {} [[edgeRaw properEdge]]) [] {}).trace =
        1 := by
  have hfirst : FirstEdgeBinds (consumers sample).edge [edgeRaw properEdge] := by
    have hy : yielded (consumers sample).edge (edgeRaw properEdge) = _ :=
      yielded_edgeRaw Py.sample_roundTrips
    rw [FirstEdgeBinds, hy]
    simp only [properEdge, danglingEdge, EdgeUpsertEvent.asDelivered, uuidOf_str]
    exact ⟨⟨_, rfl⟩, _, rfl⟩
  exact ((settled_once sample (consumers sample) accepting accepting_cooperates
    [[edgeRaw properEdge]] (nodup_singleton _) {} rfl).2 hfirst).2 _
      (mem_singleton_self _)

end Omniscience.Outbox
