import Omniscience.Outbox.Frames
import Omniscience.Outbox.Settlement
import Omniscience.Queue.Stream

/-!
# Dead letters without a failure

The three queue consumers of the worker read one stream.  The consumer of merges listens on
`outbox.entity.*`, so that it is handed the entity upserts as well, and it decodes every message
as a merge before anyone looks at the subject.  An entity upsert is no JSON: the consumer hands it
back until it has been delivered too often, and sends it to the dead letter queue.

`no_dead_letters_iff`: when every event is well formed for its own type and every call succeeds,
no interleaving of the tasks writes a dead letter if and only if no entity upsert is published.
-/

namespace Omniscience.Outbox

open Queue Coro Deps

/-! ### The events and the outside -/

/-- The identifiers of the event are UUIDs, and its metadata can be read back. -/
structure EntityFormed (deps : Deps) (e : EntityUpsertEvent) : Prop where
  id : ∃ u, uuidOf e.id = .ok u
  sourceId : ∃ u, uuidOf e.sourceId = .ok u
  workspaceId : ∃ u, workspaceOf e.workspaceId = .ok u
  metadata : deps.py.RoundTrips e.metadata

structure EdgeFormed (deps : Deps) (e : EdgeUpsertEvent) : Prop where
  id : ∃ u, uuidOf e.id = .ok u
  sourceEntityId : ∃ u, uuidOf e.sourceEntityId = .ok u
  targetEntityId : ∃ u, uuidOf e.targetEntityId = .ok u
  workspaceId : ∃ u, workspaceOf e.workspaceId = .ok u
  metadata : deps.py.RoundTrips e.metadata

/-- The workspace is a UUID, and the event can be read back from its JSON text. -/
structure MergeFormed (deps : Deps) (e : EntityMergeEvent) : Prop where
  workspaceId : ∃ u, uuidOf e.workspaceId = .ok u
  json : deps.pyd.fromJson (e.modelDumpJson deps.pyd) = some (.obj e.modelDump)

/-- An optional identifier that is present and a UUID. -/
def IsUuid (text : Option String) : Prop := ∃ t u, text = some t ∧ uuidOf t = .ok u

/-- The event is well formed for its own type; the first component is the subject on which the
outbox worker publishes it. -/
inductive WellFormed (deps : Deps) : String × Published → Prop
  | entity {e : EntityUpsertEvent} (h : EntityFormed deps e) :
      WellFormed deps ("outbox.entity.upsert", .entity e)
  | edge {e : EdgeUpsertEvent} (h : EdgeFormed deps e) :
      WellFormed deps ("outbox.edge.upsert", .edge e)
  | merge {e : EntityMergeEvent} (h : MergeFormed deps e) (hsource : IsUuid e.sourceId)
      (htarget : IsUuid e.targetId) : WellFormed deps ("outbox.entity.merge", .merge e)
  | unmerge {e : EntityMergeEvent} (h : MergeFormed deps e) (hmerged : IsUuid e.mergedNodeId) :
      WellFormed deps ("outbox.entity.unmerge", .merge e)

/-- The call is answered without an error; an embedding provider returns a vector. -/
def Succeeds : (q : Call Service) → Except Exc (Call.Resp Service.Resp q) → Prop
  | .service (.embed _), r => ∃ embedding rest, r = .ok (embedding :: rest)
  | _, r => ∃ a, r = .ok a

variable (deps : Deps) (events : Set (String × Published))

/-- The outside of the worker when every call succeeds: the broker delivers the messages of the
stream, in any order, time passes, and `events` are published. -/
def storesUp : World (loop deps (consumers deps)) where
  Out := Stream TaskKind
  accepts
    | .entity, raw, x, x' => x'.1 = x.1 ∧ Stream.Delivers (consumers deps).entity.subject
        (consumers deps).entity.maxDeliver .entity raw x.2 x'.2
    | .edge, raw, x, x' => x'.1 = x.1 ∧ Stream.Delivers (consumers deps).edge.subject
        (consumers deps).edge.maxDeliver .edge raw x.2 x'.2
    | .merge, raw, x, x' => x'.1 = x.1 ∧ Stream.Delivers (consumers deps).merge.subject
        (consumers deps).merge.maxDeliver .merge raw x.2 x'.2
    | .unpark, _, x, x' => x' = x
  answers k q x r x' := x'.1 = x.1 ∧ x'.2 = x.2.answer "outbox.>" k q ∧ Succeeds q r
  drifts x x' :=
    (∃ now, x.1.clock ≤ now ∧ x' = ({ x.1 with clock := now }, x.2)) ∨
    ∃ subject payload data, (subject, payload) ∈ events ∧
      publishData deps.py deps.pyd payload = .ok data ∧ x' = (x.1, x.2.append subject data)

/-- The subjects of the dead letter queue. -/
def dlqSubjects : List String :=
  ["ingest.dlq.outbox_entity", "ingest.dlq.outbox_edge", "ingest.dlq.outbox_merge"]

/-- No interleaving of the tasks sends a message to the dead letter queue. -/
def NoDeadLetters (sessionFactory : Bool) : Prop :=
  ∀ p : Pool (storesUp deps events),
    p.Reachable ({ sessionFactory := sessionFactory } : Worker) ({} : Stream TaskKind) →
    ∀ k subject data, (k, .publish subject data) ∈ p.calls → subject ∉ dlqSubjects

/-! ### Without entity upserts -/

/-- Nothing is parked. -/
def Calm (s : Worker) : Prop := s.parkedEntities = .empty ∧ s.parkedEdges = .empty

/-- No message was handed back, and every message of the stream is one of the events. -/
def Regular (st : Stream TaskKind) : Prop :=
  st.NeverBack ∧ ∀ m ∈ st.messages, ∃ payload, (m.1, payload) ∈ events ∧
    publishData deps.py deps.pyd payload = .ok m.2

/-- The call neither publishes nor hands a message back nor gives it up. -/
def Harmless : Call Service → Prop
  | .publish _ _ | .nak _ _ | .term _ => False
  | _ => True

/-- The contract of a task while all is calm. -/
abbrev calmly (k : TaskKind) : Contract (iface Worker Service.Resp) :=
  Pool.contract (storesUp deps events) Calm (Regular deps events) (fun _ => Harmless) k

variable {deps events}

variable {t : List (Event (iface Worker Service.Resp))}

theorem of_resumes {k : TaskKind} {q : Call Service} {s s' : Worker}
    {r : Except Exc (Call.Resp Service.Resp q)} (h : (calmly deps events k).resumes t q s r s') :
    Calm s' ∧ Succeeds q r := by
  obtain ⟨s₀, o, o', hcalm, -, hs, -, hr⟩ := h
  simp only at hs
  rw [hs]
  exact ⟨hcalm, hr⟩

variable {s : Worker}

theorem wp_call_bind {k : TaskKind} {q : Call Service} (hq : Harmless q) {α : Type}
    {f : Call.Resp Service.Resp q → Co α} {Q : Post (iface Worker Service.Resp) α} (hs : Calm s)
    (h : ∀ a t s, Calm s → Succeeds q (.ok a) → Coro.wp (calmly deps events k) (f a) Q t s) :
    Coro.wp (calmly deps events k) (Coro.call (S := iface Worker Service.Resp) q >>= f) Q t s := by
  rw [wp_bind, wp_call]
  refine ⟨⟨hs, hq⟩, fun r s' hr => ?_⟩
  obtain ⟨hcalm, hsucc⟩ := of_resumes hr
  cases r with
  | ok a => exact h a _ s' hcalm hsucc
  | error e =>
    exfalso
    cases q with
    | service c => cases c <;> simp [Succeeds] at hsucc
    | _ => simp [Succeeds] at hsucc

theorem wp_ack_calm {k : TaskKind} {n : ℕ} {Q : Post (iface Worker Service.Resp) Unit} (hs : Calm s)
    (h : ∀ t s, Calm s → Q t (.ok ()) s) :
    Coro.wp (calmly deps events k) (ack n : Co Unit) Q t s := by
  refine wp_call.2 ⟨⟨hs, trivial⟩, fun r s' hr => ?_⟩
  obtain ⟨hcalm, ⟨⟩, rfl⟩ := of_resumes hr
  exact h _ s' hcalm

theorem wp_consumeEdge_calm {e : EdgeUpsertEvent} (hwf : EdgeFormed deps e) (l : EdgeLocals) (n : ℕ)
    (subject : String) (hs : Calm s) :
    Coro.wp (calmly deps events .edge) (consumeEdge deps l ⟨n, subject, e.asDelivered⟩)
      (fun _ _ s => Calm s) t s := by
  obtain ⟨⟨id, hid⟩, ⟨source, hsource⟩, ⟨target, htarget⟩, ⟨workspaceId, hworkspace⟩, -⟩ := hwf
  have hassign : l.assign e.asDelivered =
      (⟨some id, some source, some target⟩, .ok (id, source, target)) := by
    simp only [EdgeLocals.assign, EdgeUpsertEvent.asDelivered, hid, hsource, htarget]
  have hws : workspaceOf e.asDelivered.workspaceId = .ok workspaceId :=
    (workspaceOf_nonEmpty _).trans hworkspace
  have hback : e.asDelivered.isBackfill = false := rfl
  have hprocess : Coro.wp (calmly deps events .edge)
      (processEdge deps id source target ⟨n, subject, e.asDelivered⟩)
      (fun _ r s => r = .ok () ∧ Calm s) t s := by
    rw [processEdge, wp_modify_bind, wp_get_bind]
    -- nothing is parked, so that both tests of the source fail
    simp only [hback, Bool.false_eq_true, ↓reduceIte]
    rw [hs.1, hs.2]
    simp only [Dict.contains, Dict.get?_empty, Option.isSome_none, Bool.false_eq_true, or_self,
      ↓reduceIte]
    simp only [writeEdge, hws]
    refine wp_call_bind (q := .service (.upsertEdge _ _)) trivial hs fun _ t s hs _ => ?_
    rw [wp_modify_bind]
    exact wp_ack_calm hs fun t s hs => ⟨rfl, hs⟩
  rw [consumeEdge, hassign]
  refine wp_seq (P := fun _ r (s : Worker) => r = .ok () ∧ Calm s)
    (wp_try hprocess (fun _ _ _ h => h) ?_) (fun _ _ _ h => h.2) fun _ _ _ h => h.2
  rintro exc t s ⟨h, -⟩
  cases h

theorem decodeMerge_modelDumpJson {pyd : Pydantic} {e : EntityMergeEvent}
    (h : pyd.fromJson (e.modelDumpJson pyd) = some (.obj e.modelDump)) :
    decodeMerge pyd (e.modelDumpJson pyd) = .ok e := by
  rw [decodeMerge, EntityMergeEvent.modelValidateJson, h]
  exact EntityMergeEvent.modelValidate_modelDump pyd e

theorem wp_consumeMerge_calm {subject : String} {e : EntityMergeEvent}
    (hwf : WellFormed deps (subject, .merge e)) (n : ℕ) (hs : Calm s) :
    Coro.wp (calmly deps events .merge) (consumeMerge deps ⟨n, subject, e⟩)
      (fun _ _ s => Calm s) t s := by
  have hprocess : Coro.wp (calmly deps events .merge) (processMerge ⟨n, subject, e⟩)
      (fun _ r s => r = .ok () ∧ Calm s) t s := by
    cases hwf with
    | merge h hsource htarget =>
      obtain ⟨⟨workspaceId, hworkspace⟩, -⟩ := h
      obtain ⟨source, sourceId, hsome, hsource⟩ := hsource
      obtain ⟨target, targetId, htsome, htarget⟩ := htarget
      have hsubject : ("outbox.entity.merge").endsWith "entity.merge" = true := by decide +kernel
      simp only [processMerge, hworkspace, hsubject, hsome, htsome, hsource, htarget, ↓reduceIte]
      refine wp_call_bind (q := .service (.mergeNodes _ _ _)) trivial hs fun _ t s hs _ => ?_
      exact wp_ack_calm hs fun t s hs => ⟨rfl, hs⟩
    | unmerge h hmerged =>
      obtain ⟨⟨workspaceId, hworkspace⟩, -⟩ := h
      obtain ⟨merged, mergedNodeId, hsome, hmerged⟩ := hmerged
      have hmerge : ("outbox.entity.unmerge").endsWith "entity.merge" = false := by decide +kernel
      have hunmerge : ("outbox.entity.unmerge").endsWith "entity.unmerge" = true := by
        decide +kernel
      simp only [processMerge, hworkspace, hmerge, hunmerge, hsome, hmerged, ↓reduceIte,
        Bool.false_eq_true]
      refine wp_call_bind (q := .service (.unmergeNode _ _)) trivial hs fun _ t s hs _ => ?_
      exact wp_ack_calm hs fun t s hs => ⟨rfl, hs⟩
  refine wp_try hprocess (fun _ _ _ h => h.2) ?_
  rintro exc t s ⟨h, -⟩
  cases h

theorem wp_unparkRound_calm (hs : Calm s) :
    Coro.wp (calmly deps events .unpark) (unparkRound deps) (fun _ _ s => Calm s) t s := by
  have hround : Coro.wp (calmly deps events .unpark) (do
      let s ← get
      backfillEntities deps (staleIds s.parkedEntities s.clock)
      backfillEdges deps (staleIds s.parkedEdges s.clock))
      (fun _ r s => r = .ok () ∧ Calm s) t s := by
    rw [wp_get_bind, hs.1, hs.2]
    exact ⟨rfl, hs⟩
  refine wp_seq (P := fun _ r (s : Worker) => r = .ok () ∧ Calm s)
    (wp_try hround (fun _ _ _ h => h) ?_) ?_ fun _ _ _ h => h.2
  · rintro exc t s ⟨h, -⟩
    cases h
  · rintro _ t s ⟨-, hs⟩
    exact wp_call.2 ⟨⟨hs, trivial⟩, fun r s' hr => (of_resumes hr).1⟩

theorem Regular.of_delivers {filter : String} {maxDeliver : ℕ} {k : TaskKind} {raw : Raw}
    {st st' : Stream TaskKind} (hreg : Regular deps events st)
    (h : st.Delivers filter maxDeliver k raw st') :
    Regular deps events st' ∧ getNumDelivered raw = 1 ∧
      ∃ payload, (raw.subject, payload) ∈ events ∧
        publishData deps.py deps.pyd payload = .ok raw.data := by
  obtain ⟨hmem, -, hready, -, hcount, rfl⟩ := h
  refine ⟨⟨hreg.1.set (by rintro ⟨⟩), hreg.2⟩, ?_, hreg.2 _ (List.mem_of_getElem? hmem)⟩
  rw [getNumDelivered, hcount, hreg.1 _ _ hready]
  rfl

theorem subjectMatches_entity : subjectMatches "outbox.entity.upsert" "outbox.edge.upsert" = false ∧
      subjectMatches "outbox.entity.upsert" "outbox.entity.merge" = false ∧
      subjectMatches "outbox.entity.upsert" "outbox.entity.unmerge" = false := by
  decide

theorem subjectMatches_edge : subjectMatches "outbox.edge.upsert" "outbox.entity.merge" = false ∧
      subjectMatches "outbox.edge.upsert" "outbox.entity.unmerge" = false := by
  decide

theorem subjectMatches_merge : subjectMatches "outbox.entity.*" "outbox.edge.upsert" = false := by
  decide

section

variable (hwf : ∀ ev ∈ events, WellFormed deps ev)
  (hno : ∀ subject e, (subject, .entity e) ∉ events)

include hwf hno

theorem wp_edge_calm {st st' : Stream TaskKind} (hreg : Regular deps events st) {raw : Raw}
    (h : st.Delivers "outbox.edge.upsert" 5 .edge raw st') (l : EdgeLocals) {s : Worker}
    (hs : Calm s) :
    Coro.wp (calmly deps events .edge) (deliver deps.py deps.pyd Worker.clock
      (consumers deps).edge (consumeEdge deps) l raw) (fun _ _ s => Calm s) [] s := by
  obtain ⟨-, hfirst, payload, hmem, hdata⟩ := hreg.of_delivers h
  have hsubject := h.2.1
  obtain ⟨n, subject, data, count⟩ := raw
  -- the subject decides which of the well-formed events this is
  cases hwf _ hmem with
  | entity => exact absurd hmem (hno _ _)
  | @edge e hedge =>
    have hy : yielded (consumers deps).edge ⟨n, "outbox.edge.upsert", data, count⟩ =
        some e.asDelivered := by
      refine yielded_eq_some ?_ ?_
      · rw [hfirst]
        show 1 < 5
        decide
      · rw [publishData_edge, Except.ok.injEq] at hdata
        rw [← hdata]
        exact decodeEdge_serialize _ _ hedge.metadata
    rw [deliver_of_yielded _ _ _ _ hy]
    exact wp_consumeEdge_calm hedge l _ _ hs
  | merge => exact absurd (hsubject.symm.trans subjectMatches_edge.1) (by decide)
  | unmerge => exact absurd (hsubject.symm.trans subjectMatches_edge.2) (by decide)

theorem wp_merge_calm {st st' : Stream TaskKind} (hreg : Regular deps events st) {raw : Raw}
    (h : st.Delivers "outbox.entity.*" 5 .merge raw st') {s : Worker} (hs : Calm s) :
    Coro.wp (calmly deps events .merge) (deliver deps.py deps.pyd Worker.clock
      (consumers deps).merge (fun _ => consumeMerge deps) () raw) (fun _ _ s => Calm s) [] s := by
  obtain ⟨-, hfirst, payload, hmem, hdata⟩ := hreg.of_delivers h
  have hsubject := h.2.1
  have hformed := hwf _ hmem
  have hmerge : ∀ e, payload = .merge e → MergeFormed deps e →
      yielded (consumers deps).merge raw = some e := by
    rintro e rfl hm
    refine yielded_eq_some ?_ ?_
    · rw [hfirst]
      show 1 < 5
      decide
    · rw [publishData_merge, Except.ok.injEq] at hdata
      rw [← hdata]
      exact decodeMerge_modelDumpJson hm.json
  obtain ⟨n, subject, data, count⟩ := raw
  cases hformed with
  | entity => exact absurd hmem (hno _ _)
  | edge => exact absurd (hsubject.symm.trans subjectMatches_merge) (by decide)
  | merge hm hsource htarget =>
    rw [deliver_of_yielded _ _ _ _ (hmerge _ rfl hm)]
    exact wp_consumeMerge_calm (hwf _ hmem) n hs
  | unmerge hm hmerged =>
    rw [deliver_of_yielded _ _ _ _ (hmerge _ rfl hm)]
    exact wp_consumeMerge_calm (hwf _ hmem) n hs

theorem storesUp_obligations :
    Pool.Obligations (storesUp deps events) Calm (Regular deps events) (fun _ => Harmless) where
  body := by
    intro k l a s o s' o' hs hreg hacc
    cases k with
    | entity =>
      -- none of the events reaches the entity consumer
      obtain ⟨-, h⟩ := hacc
      exfalso
      obtain ⟨-, -, payload, hmem, -⟩ := hreg.of_delivers h
      have hsubject := h.2.1
      obtain ⟨n, subject, data, count⟩ := a
      cases hwf _ hmem with
      | entity => exact hno _ _ hmem
      | edge => exact absurd (hsubject.symm.trans subjectMatches_entity.1) (by decide)
      | merge => exact absurd (hsubject.symm.trans subjectMatches_entity.2.1) (by decide)
      | unmerge => exact absurd (hsubject.symm.trans subjectMatches_entity.2.2) (by decide)
    | edge =>
      obtain ⟨hsame, h⟩ := hacc
      simp only at hsame h
      subst hsame
      exact ⟨(hreg.of_delivers h).1, wp_edge_calm hwf hno hreg h l hs⟩
    | merge =>
      obtain ⟨hsame, h⟩ := hacc
      simp only at hsame h
      subst hsame
      exact ⟨(hreg.of_delivers h).1, wp_merge_calm hwf hno hreg h hs⟩
    | unpark =>
      cases hacc
      exact ⟨hreg, wp_unparkRound_calm hs⟩
  answers := by
    intro k q s o r s' o' hs hreg hq h
    obtain ⟨-, ho, -⟩ := h
    simp only at ho
    subst ho
    cases q with
    | ack n => exact ⟨hreg.1.set (by rintro ⟨⟩), hreg.2⟩
    | fetch => exact hreg
    | service c => exact hreg
    | nak n delay => exact absurd hq id
    | term n => exact absurd hq id
    | publish subject data => exact absurd hq id
  drifts := by
    rintro s o s' o' hs hreg (⟨now, -, h⟩ | ⟨subject, payload, data, hmem, hdata, h⟩)
    · cases h
      exact ⟨hs, hreg⟩
    · cases h
      refine ⟨hs, hreg.1, fun m hm => ?_⟩
      rcases List.mem_append.1 hm with hm | hm
      · exact hreg.2 m hm
      · obtain rfl := List.mem_singleton.1 hm
        exact ⟨payload, hmem, hdata⟩

theorem noDeadLetters_of_no_entity (sessionFactory : Bool) :
    NoDeadLetters deps events sessionFactory := by
  intro p hp k subject data hcall
  have hinit : Regular deps events {} := ⟨fun _ _ _ => rfl, by rintro _ ⟨⟩⟩
  obtain ⟨-, -, hcalls⟩ := Pool.invariant_of_wp (storesUp_obligations hwf hno) ⟨rfl, rfl⟩ hinit hp
  exact absurd (hcalls _ hcall) id

end

/-! ### With an entity upsert -/

theorem ne_empty_of_uuidOf {text : String} {u : Uuid} (h : uuidOf text = .ok u) : text ≠ "" := by
  rintro rfl
  obtain ⟨exc, hempty⟩ := uuidOf_empty
  rw [hempty] at h
  cases h

theorem mem_serializeEntityUpsertEvent (py : Py) {e : EntityUpsertEvent} (h : e.id ≠ "") :
    (0x12 : UInt8) ∈ serializeEntityUpsertEvent py e := by
  have hid : (0x12 : UInt8) ∈ encodeString 2 (some e.id) := by
    rw [encodeString, if_neg h]
    exact List.mem_append_left _ (by decide +kernel)
  simp only [serializeEntityUpsertEvent, List.mem_append]
  exact .inl (.inl (.inl (.inl (.inl (.inl (.inr hid))))))

section

variable {e : EntityUpsertEvent} (hmem : ("outbox.entity.upsert", .entity e) ∈ events)
  (hreject : deps.pyd.fromJson (serializeEntityUpsertEvent deps.py e) = none)
  (sessionFactory : Bool)

/-- The message of the event, at a delivery to the consumer of merges. -/
def upsertRaw (deps : Deps) (e : EntityUpsertEvent) (count : ℕ) : Raw where
  delivery := 0
  subject := "outbox.entity.upsert"
  data := serializeEntityUpsertEvent deps.py e
  numDelivered := some (count + 1)

/-- The pool after the event was handed back `count` times by the consumer of merges. -/
structure HandedBack (deps : Deps) (events : Set (String × Published)) (e : EntityUpsertEvent)
    (count : ℕ) (p : Pool (storesUp deps events)) : Prop where
  idle : p.tasks .merge = .idle ()
  messages : p.out.messages = [("outbox.entity.upsert", serializeEntityUpsertEvent deps.py e)]
  delivery : p.out.deliveries .merge 0 = ⟨count, .ready⟩

variable {p : Pool (storesUp deps events)}

theorem HandedBack.delivers {count : ℕ} (h : HandedBack deps events e count p) (hlt : count < 5) :
    (storesUp deps events).accepts .merge (upsertRaw deps e count) (p.state, p.out)
      (p.state, p.out.set .merge 0 ⟨count + 1, .inFlight⟩) := by
  refine ⟨rfl, ?_, ?_, ?_, ?_, ?_, ?_⟩
  · show p.out.messages[0]? = _
    rw [h.messages]
    rfl
  · show subjectMatches "outbox.entity.*" "outbox.entity.upsert" = true
    decide
  · show (p.out.deliveries .merge 0).standing = _
    rw [h.delivery]
  · show (p.out.deliveries .merge 0).count < 5
    rw [h.delivery]
    exact hlt
  · show some (count + 1) = some ((p.out.deliveries .merge 0).count + 1)
    rw [h.delivery]
  · show _ = p.out.set .merge 0 ⟨(p.out.deliveries .merge 0).count + 1, .inFlight⟩
    rw [h.delivery]

theorem loop_merge_body (raw : Raw) : (loop deps (consumers deps) .merge).body () raw =
      deliver deps.py deps.pyd Worker.clock (consumers deps).merge
        (fun _ => consumeMerge deps) () raw :=
  rfl

include hreject in
theorem HandedBack.step {count : ℕ} (h : HandedBack deps events e count p) (hlt : count + 1 < 5) :
    ∃ p', Relation.ReflTransGen Pool.Step p p' ∧ HandedBack deps events e (count + 1) p' := by
  have hdecode : (consumers deps).merge.decode (upsertRaw deps e count).data =
      .error ⟨.validationError, "Invalid JSON"⟩ := by
    show decodeMerge deps.pyd _ = _
    rw [decodeMerge, EntityMergeEvent.modelValidateJson, upsertRaw, hreject]
  -- fewer than five deliveries, so that the message is handed back and not given up
  have hbody : (loop deps (consumers deps) .merge).body () (upsertRaw deps e count) =
      (do nak 0 none; return ()) := by
    have hfew : getNumDelivered (upsertRaw deps e count) < (consumers deps).merge.maxDeliver := hlt
    rw [loop_merge_body, deliver_of_error _ _ _ _ hfew hdecode]
    rfl
  -- the task suspends on the `nak`, and ends when it is answered
  obtain ⟨k, hadvance, hk⟩ : ∃ k, ((loop deps (consumers deps) .merge).body ()
      (upsertRaw deps e count)).advance p.state = (.blocked (.nak 0 none) k, p.state) ∧
      k (.ok ()) = .ret () := by
    rw [hbody]
    exact ⟨_, rfl, rfl⟩
  have hdone : (k (.ok ())).advance p.state = (.done (), p.state) := by
    rw [hk]
    rfl
  have hanswer : (storesUp deps events).answers .merge (.nak 0 none)
      (p.state, p.out.set .merge 0 ⟨count + 1, .inFlight⟩) (.ok ())
      (p.state, (p.out.set .merge 0 ⟨count + 1, .inFlight⟩).answer "outbox.>" .merge
        (.nak 0 none : Call Service)) :=
    ⟨rfl, rfl, (), rfl⟩
  refine ⟨_, Pool.steps_of_blocked_done h.idle (h.delivers (by omega)) hadvance hanswer hdone,
    ?_, h.messages, ?_⟩
  · show Function.update p.tasks TaskKind.merge (.idle ()) TaskKind.merge = .idle ()
    exact Function.update_self _ _ _
  · exact Stream.deliveries_answer_nak (C := Service) "outbox.>" p.out _ _ _ none

theorem HandedBack.dead (h : HandedBack deps events e 4 p) : ∃ p' data, Pool.Step p p' ∧
      (TaskKind.merge, Call.publish "ingest.dlq.outbox_merge" data) ∈ p'.calls := by
  have hbody : (loop deps (consumers deps) .merge).body () (upsertRaw deps e 4) =
      (do (consumers deps).merge.routeToDlq deps.py deps.pyd Worker.clock (upsertRaw deps e 4)
          return ()) := by
    have hmany : (consumers deps).merge.maxDeliver ≤ getNumDelivered (upsertRaw deps e 4) :=
      le_rfl (a := 5)
    rw [loop_merge_body, deliver_of_exhausted _ _ _ _ hmany]
  obtain ⟨data, k, hadvance⟩ : ∃ data, ∃ k, ((loop deps (consumers deps) .merge).body ()
      (upsertRaw deps e 4)).advance p.state =
        (.blocked (.publish "ingest.dlq.outbox_merge" data) k, p.state) := by
    rw [hbody]
    exact ⟨_, _, rfl⟩
  exact ⟨_, data, Pool.step_of_blocked h.idle (h.delivers (by omega)) hadvance,
    List.mem_append_right _ (List.mem_singleton_self _)⟩

include hmem hreject in
theorem exists_dead_letter : ∃ p : Pool (storesUp deps events),
      p.Reachable ({ sessionFactory := sessionFactory } : Worker) ({} : Stream TaskKind) ∧
      ∃ data, (TaskKind.merge, Call.publish "ingest.dlq.outbox_merge" data) ∈ p.calls := by
  have hback : ∀ count ≤ 4, ∃ p : Pool (storesUp deps events),
      p.Reachable ({ sessionFactory := sessionFactory } : Worker) ({} : Stream TaskKind) ∧
      HandedBack deps events e count p := by
    intro count
    induction count with
    | zero =>
      intro _
      have hpublish : (storesUp deps events).drifts
          (({ sessionFactory := sessionFactory } : Worker), ({} : Stream TaskKind)) _ :=
        .inr ⟨_, _, _, hmem, publishData_entity _ _ e, rfl⟩
      exact ⟨_, .single (.drift hpublish), rfl, rfl, rfl⟩
    | succ count ih =>
      intro hle
      obtain ⟨p, hp, h⟩ := ih (by omega)
      obtain ⟨p', hp', h'⟩ := h.step hreject (by omega)
      exact ⟨p', hp.trans hp', h'⟩
  obtain ⟨p, hp, h⟩ := hback 4 le_rfl
  obtain ⟨p', data, hstep, hcall⟩ := h.dead
  exact ⟨p', hp.tail hstep, data, hcall⟩

end

/-- **Spurious dead letters**: let every event that is published be well formed for its own type
and every call succeed, with a JSON parser that rejects control characters.  No interleaving of
the tasks writes a dead letter if and only if no entity upsert is published. -/
theorem no_dead_letters_iff (deps : Deps) (events : Set (String × Published))
    (sessionFactory : Bool) (hwf : ∀ ev ∈ events, WellFormed deps ev)
    (hjson : ∀ data : Bytes, (0x12 : UInt8) ∈ data → deps.pyd.fromJson data = none) :
    NoDeadLetters deps events sessionFactory ↔ ∀ subject e, (subject, .entity e) ∉ events := by
  constructor
  · intro hnone subject e hmem
    cases hwf _ hmem with
    | entity h =>
      obtain ⟨u, hid⟩ := h.id
      have hreject := hjson _ (mem_serializeEntityUpsertEvent deps.py (ne_empty_of_uuidOf hid))
      obtain ⟨p, hp, data, hcall⟩ := exists_dead_letter hmem hreject sessionFactory
      exact hnone p hp _ _ _ hcall (by decide)
  · exact fun hno => noDeadLetters_of_no_entity hwf hno sessionFactory

theorem wellFormed_properEdge : WellFormed sample ("outbox.edge.upsert", .edge properEdge) :=
  .edge ⟨⟨1, uuidOf_str 1⟩, ⟨2, uuidOf_str 2⟩, ⟨3, uuidOf_str 3⟩, ⟨0, rfl⟩, Py.sample_roundTrips⟩

theorem wellFormed_plainEntity : WellFormed sample ("outbox.entity.upsert", .entity plainEntity) :=
  .entity ⟨⟨2, uuidOf_str 2⟩, ⟨4, uuidOf_str 4⟩, ⟨0, rfl⟩, Py.sample_roundTrips⟩

/-- One edge is published. -/
theorem no_dead_letters_properEdge :
    NoDeadLetters sample {("outbox.edge.upsert", .edge properEdge)} true := by
  refine (no_dead_letters_iff sample _ true ?_ fun _ _ => rfl).2 ?_
  · rintro ev rfl
    exact wellFormed_properEdge
  · rintro subject e ⟨⟩

/-- One entity is published. -/
theorem dead_letter_of_plainEntity :
    ¬ ∀ events : Set (String × Published), (∀ ev ∈ events, WellFormed sample ev) →
      NoDeadLetters sample events true := by
  intro h
  have hwf : ∀ ev ∈ ({("outbox.entity.upsert", .entity plainEntity)} : Set (String × Published)),
      WellFormed sample ev := by
    rintro ev rfl
    exact wellFormed_plainEntity
  have hreject : sample.pyd.fromJson
      (serializeEntityUpsertEvent sample.py plainEntity) = none := rfl
  obtain ⟨p, hp, data, hcall⟩ := exists_dead_letter (Set.mem_singleton _) hreject true
  exact h _ hwf p hp _ _ _ hcall (by decide)

end Omniscience.Outbox
