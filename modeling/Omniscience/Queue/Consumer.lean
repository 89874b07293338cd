import Omniscience.Lib.Coro
import Omniscience.Queue.Wire

/-!
# The queue consumer

`QueueConsumer` pulls raw messages from the broker and yields typed ones.  A raw message that was
delivered too often goes to the dead letter queue and is terminated, one that cannot be decoded is
handed back to the broker, every other one is yielded.

The coroutines here await the broker (`Call`); the calls of the services that the caller of the
consumer awaits are a parameter, so that the same consumer runs inside every worker.

* `processRaw`, `routeToDlq` and `iter` follow the source.
* `term_after_publish_iff`: whether every message that the consumer terminates has its entry in
  the dead letter queue depends on the broker alone.  `_route_to_dlq` terminates the message in
  its `finally` clause, so one refused publish is one lost message.
-/

namespace Omniscience.Queue

open Coro

/-- A call to the broker, or to one of the services of the worker.  A delivered message is
referred to by the number of its delivery. -/
inductive Call (C : Type) where
  | fetch
  | ack (delivery : ℕ)
  | nak (delivery : ℕ) (delay : Option ℕ)
  | term (delivery : ℕ)
  | publish (subject : String) (data : Bytes)
  | service (c : C)

/-- The answer to a call. -/
@[reducible] def Call.Resp {C : Type} (R : C → Type) : Call C → Type
  | .service c => R c
  | _ => Unit

/-- The interface of a worker with state `σ` and services `C`. -/
abbrev iface (σ : Type) {C : Type} (R : C → Type) : Iface where
  State := σ
  Exc := Exc
  Call := Call C
  Resp := Call.Resp R

/-- A message as the broker delivers it; the delivery count may be missing. -/
structure Raw where
  delivery : ℕ
  subject : String
  data : Bytes
  numDelivered : Option ℕ

/-- `Message[T]`: a decoded message. -/
structure Message (α : Type) where
  delivery : ℕ
  subject : String
  payload : α

/-- The configuration of a `QueueConsumer`; `decode` stands for the branches of `_process_raw`
that select the decoder by the payload type. -/
structure QueueConsumer (α : Type) where
  subject : String
  dlqSubject : String
  decode : Bytes → Except Exc α
  maxDeliver : ℕ := 5

/-- `_get_num_delivered`. -/
def getNumDelivered (raw : Raw) : ℕ := raw.numDelivered.getD 1

section

variable {σ C : Type} {R : C → Type}

/-- `await psub.fetch(...)`. -/
def fetch : Coro (iface σ R) Unit := .call (S := iface σ R) .fetch

/-- `await raw.ack()`. -/
def ack (delivery : ℕ) : Coro (iface σ R) Unit := .call (S := iface σ R) (.ack delivery)

/-- `await raw.nak(delay)`. -/
def nak (delivery : ℕ) (delay : Option ℕ) : Coro (iface σ R) Unit :=
  .call (S := iface σ R) (.nak delivery delay)

/-- `await raw.term()`. -/
def term (delivery : ℕ) : Coro (iface σ R) Unit := .call (S := iface σ R) (.term delivery)

variable (py : Py) (pyd : Pydantic)

/-- `QueueProducer.publish`. -/
def publish (subject : String) (payload : Published) : Coro (iface σ R) Unit := do
  let data ← lift (publishData py pyd payload)
  Coro.call (S := iface σ R) (.publish subject data)

variable (now : σ → ℕ) {α : Type} (c : QueueConsumer α)

/-- The dead letter of a raw message that is given up at time `failedAt`. -/
def deadLetter (raw : Raw) (failedAt : ℕ) : DLQMessage where
  originalSubject := raw.subject
  originalPayload := py.decodeReplace raw.data
  error := "Exceeded max_deliver=" ++ toString c.maxDeliver
  attemptCount := getNumDelivered raw
  failedAt := failedAt

/-- `QueueConsumer._route_to_dlq`.  The message is terminated in the `finally` clause, after a
failed publish as well. -/
def QueueConsumer.routeToDlq (raw : Raw) : Coro (iface σ R) Unit := do
  let s ← Coro.get
  (publish py pyd c.dlqSubject (.dlq (deadLetter py c raw (now s)))).tryCatch fun _ => .ret ()
  term raw.delivery

/-- `QueueConsumer._process_raw`. -/
def processRaw (raw : Raw) : Coro (iface σ R) (Option (Message α)) :=
  if c.maxDeliver ≤ getNumDelivered raw then do
    c.routeToDlq py pyd now raw
    return none
  else
    match c.decode raw.data with
    | .error _ => do
      nak raw.delivery none
      return none
    | .ok payload => return some ⟨raw.delivery, raw.subject, payload⟩

/-- One raw message of a batch, with the body of the caller's `async for` and the local variables
of the caller. -/
def deliver {L : Type} (body : L → Message α → Coro (iface σ R) L) (l : L) (raw : Raw) :
    Coro (iface σ R) L := do
  match ← processRaw py pyd now c raw with
  | none => return l
  | some msg => body l msg

/-- The payload that the consumer yields for a raw message, if it yields it. -/
def yielded (raw : Raw) : Option α :=
  if c.maxDeliver ≤ getNumDelivered raw then none else (c.decode raw.data).toOption

variable {c} in
theorem yielded_eq_some {raw : Raw} {payload : α} (hfew : getNumDelivered raw < c.maxDeliver)
    (hdecode : c.decode raw.data = .ok payload) : yielded c raw = some payload := by
  rw [yielded, if_neg (Nat.not_le.2 hfew), hdecode]
  rfl

theorem deliver_of_yielded {L : Type} {body : L → Message α → Coro (iface σ R) L} {l : L}
    {raw : Raw} {payload : α} (h : yielded c raw = some payload) :
    deliver py pyd now c body l raw = body l ⟨raw.delivery, raw.subject, payload⟩ := by
  rw [yielded] at h
  split at h
  · cases h
  · rename_i hfew
    rw [deliver, processRaw, if_neg hfew]
    cases hdecode : c.decode raw.data with
    | error e =>
      rw [hdecode] at h
      cases h
    | ok a =>
      rw [hdecode] at h
      cases h
      rfl

theorem deliver_of_error {L : Type} {body : L → Message α → Coro (iface σ R) L} {l : L}
    {raw : Raw} {e : Exc} (hfew : getNumDelivered raw < c.maxDeliver)
    (hdecode : c.decode raw.data = .error e) :
    deliver py pyd now c body l raw = (do nak raw.delivery none; return l) := by
  rw [deliver, processRaw, if_neg (Nat.not_le.2 hfew), hdecode]
  simp only [bind_eq, bind_assoc]
  rfl

theorem deliver_of_exhausted {L : Type} {body : L → Message α → Coro (iface σ R) L} {l : L}
    {raw : Raw} (hmany : c.maxDeliver ≤ getNumDelivered raw) :
    deliver py pyd now c body l raw = (do c.routeToDlq py pyd now raw; return l) := by
  rw [deliver, processRaw, if_pos hmany]
  simp only [bind_eq, bind_assoc]
  rfl

/-- `QueueConsumer._iter` over the batches that the broker delivers.  A failed fetch is logged and
repeated. -/
def iter {L : Type} (body : L → Message α → Coro (iface σ R) L) (l : L)
    (batches : List (List Raw)) : Coro (iface σ R) L :=
  fold (fun l raws => do
    let fetched ← (do fetch; return true : Coro (iface σ R) Bool).tryCatch fun _ => .ret false
    if fetched then fold (deliver py pyd now c body) l raws else return l) l batches

theorem iter_append {L : Type} (body : L → Message α → Coro (iface σ R) L) (l : L)
    (batches batches' : List (List Raw)) :
    iter py pyd now c body l (batches ++ batches') =
      (iter py pyd now c body l batches).bind fun l => iter py pyd now c body l batches' :=
  fold_append _ _ _ _

/-- **The rule for a consumer**: what holds before a raw message, given the messages still to
come, holds before the next one; a failed fetch drops the messages of its batch. -/
theorem wp_iter {L : Type} {body : L → Message α → Coro (iface σ R) L}
    {K : Contract (iface σ R)} {Q : Post (iface σ R) L}
    (I : List Raw → L → List (Event (iface σ R)) → σ → Prop)
    (hend : ∀ l t s, I [] l t s → Q t (.ok l) s)
    (hfetch : ∀ batch rest l t s, I (batch ++ rest) l t s →
      K.yields t .fetch s ∧ ∀ r s', K.resumes t .fetch s r s' →
        match r with
        | .ok _ => I (batch ++ rest) l (t ++ [⟨.fetch, r⟩]) s'
        | .error _ => I rest l (t ++ [⟨.fetch, r⟩]) s')
    (hraw : ∀ raw rest l t s, I (raw :: rest) l t s →
      Coro.wp K (deliver py pyd now c body l raw) (fun t r s => match r with
        | .ok l => I rest l t s
        | .error e => Q t (.error e) s) t s)
    {batches : List (List Raw)} {l : L} {t : List (Event (iface σ R))} {s : σ}
    (h : I batches.flatten l t s) :
    Coro.wp K (iter py pyd now c body l batches) Q t s := by
  refine wp_fold (fun rest l t s => I rest.flatten l t s) hend ?_ h
  intro batch rest l t s h
  obtain ⟨hy, hr⟩ := hfetch batch rest.flatten l t s h
  refine ⟨hy, fun r s' hres => ?_⟩
  -- a failed fetch drops its batch, a successful one starts the inner loop
  have hI := hr r s' hres
  cases r with
  | error e => exact hI
  | ok u =>
    refine wp_fold (fun raws l t s => I (raws ++ rest.flatten) l t s) (fun _ _ _ h => h) ?_ hI
    intro raw raws l t s h
    refine wp_mono (hraw raw _ l t s h) fun t r s h => ?_
    cases r <;> exact h

/-! ### Termination and the dead letter queue -/

/-- The event is the termination of a message. -/
def IsTerm (ev : Event (iface σ R)) : Prop := ∃ d, ev.1 = .term d

/-- `a` is the accepted publish of the dead letter of the message that `b` terminates. -/
def DeadLettered (raws : List Raw) (a b : Event (iface σ R)) : Prop :=
  ∃ raw ∈ raws, ∃ failedAt, b.1 = .term raw.delivery ∧
    a = ⟨.publish c.dlqSubject (serializeDlqMessage py (deadLetter py c raw failedAt)), .ok ()⟩

/-- Every message that was terminated had its dead letter accepted by the broker before. -/
def TermAfterPublish (raws : List Raw) (t : List (Event (iface σ R))) : Prop :=
  EachAfter IsTerm (DeadLettered py c raws) t

/-- No publish was refused. -/
def NoPublishRefused (t : List (Event (iface σ R))) : Prop :=
  ∀ subject data r, (⟨.publish subject data, r⟩ : Event (iface σ R)) ∈ t → r = .ok ()

variable {py c} {raws : List Raw} {t : List (Event (iface σ R))}

theorem noPublishRefused_concat {ev : Event (iface σ R)} : NoPublishRefused (t ++ [ev]) ↔
      NoPublishRefused t ∧ ∀ subject data r, ev = ⟨.publish subject data, r⟩ → r = .ok () := by
  simp only [NoPublishRefused, List.mem_append, List.mem_singleton, or_imp, forall_and]
  simp only [eq_comm]

theorem termAfterPublish_concat_of_not_term {ev : Event (iface σ R)} (h : ∀ d, ev.1 ≠ .term d) :
    TermAfterPublish py c raws (t ++ [ev]) ↔ TermAfterPublish py c raws t := by
  refine eachAfter_concat.trans (and_iff_left ?_)
  rintro ⟨d, hd⟩
  exact absurd hd (h d)

theorem publish_answer_inj {subject subject' : String} {data data' : Bytes} {r r' : Except Exc Unit}
    (h : (⟨.publish subject data, r⟩ : Event (iface σ R)) = ⟨.publish subject' data', r'⟩) :
    r = r' := by
  cases h
  rfl

theorem termAfterPublish_concat_pair {raw : Raw} (hraw : raw ∈ raws) {failedAt : ℕ}
    {r r' : Except Exc Unit} :
    TermAfterPublish py c raws (t ++ [(⟨.publish c.dlqSubject
        (serializeDlqMessage py (deadLetter py c raw failedAt)), r⟩ : Event (iface σ R))] ++
        [⟨.term raw.delivery, r'⟩]) ↔
      TermAfterPublish py c raws t ∧ r = .ok () := by
  refine eachAfter_concat.trans (and_congr ?_ ⟨fun h => ?_, fun hr _ => ?_⟩)
  · exact termAfterPublish_concat_of_not_term (by rintro d ⟨⟩)
  · obtain ⟨pre, a, hpre, raw', _, failedAt', _, ha⟩ := h ⟨_, rfl⟩
    have hlast := (List.append_inj' hpre rfl).2
    rw [ha] at hlast
    exact publish_answer_inj (List.cons.inj hlast).1
  · exact ⟨t, _, rfl, raw, hraw, failedAt, rfl, by rw [hr]⟩

theorem wp_processRaw {raw : Raw} (hraw : raw ∈ raws) {s : σ}
    (h : TermAfterPublish py c raws t ↔ NoPublishRefused t) :
    Coro.wp .free (processRaw py pyd now c raw)
      (fun t _ _ => TermAfterPublish py c raws t ↔ NoPublishRefused t) t s := by
  rw [processRaw]
  split
  · -- both answers of the broker lead to the termination
    rw [QueueConsumer.routeToDlq]
    refine ⟨trivial, fun r s' _ => ?_⟩
    have hpair : ∀ r' : Except Exc Unit, TermAfterPublish py c raws (t ++ [(⟨.publish c.dlqSubject
          (serializeDlqMessage py (deadLetter py c raw (now s))), r⟩ : Event (iface σ R))] ++
          [⟨.term raw.delivery, r'⟩]) ↔
        NoPublishRefused (t ++ [(⟨.publish c.dlqSubject
          (serializeDlqMessage py (deadLetter py c raw (now s))), r⟩ : Event (iface σ R))] ++
          [⟨.term raw.delivery, r'⟩]) := by
      intro r'
      rw [termAfterPublish_concat_pair hraw, h, noPublishRefused_concat, noPublishRefused_concat]
      constructor
      · rintro ⟨ht, rfl⟩
        refine ⟨⟨ht, ?_⟩, ?_⟩
        · rintro _ _ _ ⟨⟩
          rfl
        · rintro _ _ _ ⟨⟩
      · rintro ⟨⟨ht, hr⟩, -⟩
        exact ⟨ht, hr _ _ _ rfl⟩
    cases r with
    | ok u =>
      refine ⟨trivial, fun r' s' _ => ?_⟩
      cases r' <;> exact hpair _
    | error e =>
      refine ⟨trivial, fun r' s' _ => ?_⟩
      cases r' <;> exact hpair _
  · split
    · -- a message that cannot be decoded is handed back, which neither side counts
      refine ⟨trivial, fun r s' _ => ?_⟩
      have hnak : TermAfterPublish py c raws (t ++ [(⟨.nak raw.delivery none, r⟩ :
          Event (iface σ R))]) ↔ NoPublishRefused (t ++ [(⟨.nak raw.delivery none, r⟩ :
          Event (iface σ R))]) := by
        rw [termAfterPublish_concat_of_not_term (by rintro d ⟨⟩), h, noPublishRefused_concat,
          and_iff_left]
        rintro _ _ _ ⟨⟩
      cases r <;> exact hnak
    · exact h

/-- **The dead letter path of the consumer**: every terminated message had its dead letter accepted
before if and only if the broker refused no publish. -/
theorem term_after_publish_iff (env : Env (iface σ R)) (batches : List (List Raw)) (s : σ) :
    TermAfterPublish py c batches.flatten
        (Coro.exec env (iter py pyd now c (fun _ _ => .ret ()) () batches) [] s).trace ↔
      NoPublishRefused
        (Coro.exec env (iter py pyd now c (fun _ _ => .ret ()) () batches) [] s).trace := by
  set raws := batches.flatten with hraws
  -- the invariant of the loop is the equivalence itself
  let Q (t : List (Event (iface σ R))) : Prop := TermAfterPublish py c raws t ↔ NoPublishRefused t
  have hnil : Q [] := iff_of_true eachAfter_nil (by rintro _ _ _ ⟨⟩)
  refine exec_of_wp (obeys_free env) (Q := fun t _ _ => Q t) ?_
  refine wp_iter py pyd now c (fun rest _ t _ => rest ⊆ raws ∧ Q t) (fun _ _ _ h => h.2) ?_ ?_
    ⟨List.Subset.refl _, hnil⟩
  · rintro batch rest ⟨⟩ t s ⟨hsub, hQ⟩
    refine ⟨trivial, fun r s' _ => ?_⟩
    have hfetch : Q (t ++ [⟨.fetch, r⟩]) := by
      refine (termAfterPublish_concat_of_not_term (by rintro d ⟨⟩)).trans (hQ.trans ?_)
      rw [noPublishRefused_concat, and_iff_left]
      rintro _ _ _ ⟨⟩
    cases r with
    | ok u => exact ⟨hsub, hfetch⟩
    | error e => exact ⟨fun raw h => hsub (List.mem_append_right _ h), hfetch⟩
  · rintro raw rest ⟨⟩ t s ⟨hsub, hQ⟩
    rw [deliver, wp_bind]
    refine wp_mono (wp_processRaw pyd now (hsub List.mem_cons_self) hQ) fun t r s h => ?_
    have hrest : rest ⊆ raws := fun raw h => hsub (List.mem_cons_of_mem _ h)
    rcases r with e | _ | msg
    · exact h
    · exact ⟨hrest, h⟩
    · exact ⟨hrest, h⟩

end

/-- A message at its last delivery. -/
def lastDelivery : Raw where
  delivery := 0
  subject := "outbox.edge.upsert"
  data := []
  numDelivered := some 5

/-- A broker that refuses every publish and accepts everything else. -/
def refusing : Env (iface Unit (fun c : Empty => nomatch c))
  | _, .publish _ _, s => (.error ⟨.external, "no response from stream"⟩, s)
  | _, .fetch, s => (.ok (), s)
  | _, .ack _, s => (.ok (), s)
  | _, .nak _ _, s => (.ok (), s)
  | _, .term _, s => (.ok (), s)

theorem terminated_without_dead_letter : ∃ c : QueueConsumer EdgeUpsertEvent,
      ¬ TermAfterPublish Py.sample c [lastDelivery]
        (Coro.exec refusing (iter Py.sample .strict (fun _ => 0) c (fun _ _ => .ret ()) ()
          [[lastDelivery]]) [] ()).trace := by
  refine ⟨{ subject := "outbox.edge.upsert", dlqSubject := "ingest.dlq.outbox_edge",
            decode := decodeEdge Py.sample .strict }, fun h => ?_⟩
  have hpair := termAfterPublish_concat_pair (t := [⟨.fetch, .ok ()⟩])
    (List.mem_singleton_self lastDelivery) |>.1 h
  cases hpair.2

end Omniscience.Queue
