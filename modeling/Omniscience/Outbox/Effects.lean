import Omniscience.Outbox.Frames
import Omniscience.Stores.Neo4j
import Omniscience.Stores.Qdrant

/-!
# What the consumer does to the stores

The loops of the outbox consumer reach the stores through their calls.  `Effects` follows the calls
of a run through both stores.  `AppliesEntity` and `AppliesEdge` say that a delivered message was
applied, and the results here are what that means for the stores: an entity message that is
acknowledged has been written once to each of them, in the order of the source, and an edge message
changes neither a node nor a chunk.
-/

namespace Omniscience.Outbox

open Queue Coro Qdrant Neo4j List

/-- The two stores. -/
structure Stores where
  graph : Graph
  chunks : Collection

/-- Does the call write to a store? -/
def isWrite : Call Service → Bool
  | .service (.upsertEntity ..) | .service (.upsertEdge ..) | .service (.upsertChunks _)
  | .service (.mergeNodes ..) | .service (.unmergeNode ..) => true
  | _ => false

/-- The writes of a run. -/
def writes (t : List (Event (iface Worker Service.Resp))) :
    List (Event (iface Worker Service.Resp)) :=
  t.filter fun ev => isWrite ev.1

/-- What a call does to the stores.  `draw` are the ids that `uuid.uuid4()` returns, which no point
has.  There is no rule for a write that fails. -/
inductive Effect (cfg : Config) (draw : Draw) :
    Stores → Event (iface Worker Service.Resp) → Stores → Prop
  | upsertEntity (S : Stores) (entity : EntityUpsert) (workspaceId : Uuid) (now : ℕ) :
    Effect cfg draw S ⟨.service (.upsertEntity entity workspaceId), .ok ()⟩
      { S with graph := upsertEntity cfg entity workspaceId now S.graph }
  | upsertEdge {S : Stores} {edge : EdgeUpsert} {workspaceId : Uuid} {now : ℕ} {g : Graph}
    (h : upsertEdge cfg edge workspaceId now S.graph = .ok g) :
    Effect cfg draw S ⟨.service (.upsertEdge edge workspaceId), .ok ()⟩ { S with graph := g }
  | upsertChunks {S : Stores} {args : ChunksUpsert} {now : ℕ} {c : Collection}
    (hlength : draw.pointIds.length = args.chunks.length)
    (hfresh : ∀ id ∈ draw.pointIds, ∀ p ∈ S.chunks.points, p.id ≠ id)
    (h : upsertChunks args draw now S.chunks = .ok c) :
    Effect cfg draw S ⟨.service (.upsertChunks args), .ok ()⟩ { S with chunks := c }
  | other (S : Stores) {ev : Event (iface Worker Service.Resp)} (h : isWrite ev.1 = false) :
    Effect cfg draw S ev S

/-- What a run does to the stores. -/
inductive Effects (cfg : Config) (draw : Draw) :
    Stores → List (Event (iface Worker Service.Resp)) → Stores → Prop
  | nil (S : Stores) : Effects cfg draw S [] S
  | cons {S S₁ S' : Stores} {ev : Event (iface Worker Service.Resp)}
    {t : List (Event (iface Worker Service.Resp))} (hev : Effect cfg draw S ev S₁)
    (ht : Effects cfg draw S₁ t S') : Effects cfg draw S (ev :: t) S'

section

variable {cfg : Config} {draw : Draw} {S S' : Stores}

theorem Effects.writes {t : List (Event (iface Worker Service.Resp))}
    (h : Effects cfg draw S t S') : Effects cfg draw S (writes t) S' := by
  induction h with
  | nil S => exact .nil S
  | cons hev _ ih =>
    cases hev with
    | other hno =>
      rw [Outbox.writes, filter_cons_of_neg (by simp [hno])]
      exact ih
    | upsertEntity entity w now =>
      exact .cons (.upsertEntity _ entity w now) ih
    | upsertEdge h => exact .cons (.upsertEdge h) ih
    | upsertChunks hlength hfresh h => exact .cons (.upsertChunks hlength hfresh h) ih

end

/-! ### Entity messages -/

/-- The message was acknowledged. -/
def Acked (t : List (Event (iface Worker Service.Resp))) (delivery : ℕ) : Prop :=
  ∃ r, (⟨.ack delivery, r⟩ : Event (iface Worker Service.Resp)) ∈ t

/-- A run of the entity loop on a raw message acknowledges it, and takes the stores from `S` to
`S'`. -/
def AppliesEntity (deps : Deps) (cfg : Config) (S : Stores) (raw : Raw) (draw : Draw)
    (S' : Stores) : Prop :=
  ∃ (env : Env (iface Worker Service.Resp)) (s : Worker) (l : Option Uuid),
    let o := Coro.exec env (deliver deps.py deps.pyd Worker.clock (consumers deps).entity
      (consumeEntity deps) l raw) [] s
    Acked o.trace raw.delivery ∧ Effects cfg draw S o.trace S'

section

variable (deps : Deps) {event : EntityUpsertEvent} {entityId workspaceId sourceId w : Uuid}

/-- The writes of an applied message. -/
def entityWrites (event : EntityUpsertEvent) (entityId workspaceId sourceId : Uuid)
    (embedding : Embedding) : List (Event (iface Worker Service.Resp)) :=
  [⟨.service (.upsertEntity (entityUpsert event entityId sourceId) workspaceId), .ok ()⟩,
    ⟨.service (.upsertChunks (entityChunks deps event workspaceId sourceId embedding)), .ok ()⟩]

/-- Nothing was acknowledged yet, or both writes were made. -/
def WrittenOrNotAcked (event : EntityUpsertEvent) (entityId workspaceId sourceId : Uuid)
    (t : List (Event (iface Worker Service.Resp))) : Prop :=
  (∀ ev ∈ t, ∀ n, ev.1 ≠ .ack n) ∨
    ∃ embedding, writes t = entityWrites deps event entityId workspaceId sourceId embedding

theorem respects_writtenOrNotAcked {q : Call Service} (hwrite : isWrite q = false)
    (hack : ∀ n, q ≠ .ack n) :
    Respects (.free : Contract (iface Worker Service.Resp))
      (fun t _ => WrittenOrNotAcked deps event entityId w sourceId t) q where
  yields _ _ _ := trivial
  resumes t s r s' h _ := by
    rcases h with hno | ⟨embedding, hwrites⟩
    · left
      intro ev hev n
      rcases mem_append.1 hev with hev | hev
      · exact hno ev hev n
      · rw [mem_singleton.1 hev]
        exact hack n
    · right
      refine ⟨embedding, ?_⟩
      rw [writes, filter_append, ← writes, hwrites]
      simp [hwrite]

theorem respects_handsBack {q : Call Service} (hq : HandsBack q) :
    Respects (.free : Contract (iface Worker Service.Resp))
      (fun t _ => WrittenOrNotAcked deps event entityId w sourceId t) q := by
  refine respects_writtenOrNotAcked deps ?_ ?_
  · cases q
    case service => exact hq.elim
    all_goals rfl
  · rintro n rfl
    exact hq

variable (hws : workspaceOf event.workspaceId = .ok w)
  (hsource : uuidOf event.sourceId = .ok sourceId)

include hws hsource

theorem wp_writeEntity_writes {msg : Message EntityUpsertEvent} (hmsg : msg.payload = event)
    (s : Worker) :
    Coro.wp .free (writeEntity deps entityId msg)
      (fun t _ _ => WrittenOrNotAcked deps event entityId w sourceId t) [] s := by
  have hnone : ∀ {t : List (Event (iface Worker Service.Resp))}, (∀ ev ∈ t, ∀ n, ev.1 ≠ .ack n) →
        WrittenOrNotAcked deps event entityId w sourceId t := .inl
  subst hmsg
  rw [writeEntity, hws, hsource]
  refine ⟨trivial, fun r s₁ _ => ?_⟩
  cases r with
  | error e => exact hnone (by simp)
  | ok _ =>
    refine ⟨trivial, fun r s₂ _ => ?_⟩
    cases r with
    | error e => exact hnone (by simp)
    | ok embeddings =>
      cases embeddings with
      | nil => exact hnone (by simp)
      | cons embedding embeddings =>
        refine ⟨trivial, fun r s₃ _ => ?_⟩
        cases r with
        | error e => exact hnone (by simp)
        | ok _ =>
          refine ⟨trivial, fun r s₄ _ => ?_⟩
          -- from here on the writes are made, whatever the broker answers
          cases r with
          | error e => exact .inr ⟨embedding, rfl⟩
          | ok _ =>
            refine (keeps_autoUnparkEdges deps (fun q hq => respects_handsBack deps hq)
              (fun ids => ?_) (fun _ _ _ h => h) entityId).run _ _ (.inr ⟨embedding, rfl⟩)
            exact respects_writtenOrNotAcked deps rfl (by rintro _ ⟨⟩)

theorem wp_consumeEntity_writes {msg : Message EntityUpsertEvent} (hmsg : msg.payload = event)
    (hid : uuidOf event.id = .ok entityId) (l : Option Uuid) (s : Worker) :
    Coro.wp .free (consumeEntity deps l msg)
      (fun t _ _ => WrittenOrNotAcked deps event entityId w sourceId t) [] s := by
  have hB : ∀ q, HandsBack q → Respects (.free : Contract (iface Worker Service.Resp))
      (fun t _ => WrittenOrNotAcked deps event entityId w sourceId t) q :=
    fun q hq => respects_handsBack deps hq
  have hprocess : Coro.wp .free (processEntity deps entityId msg)
      (fun t _ _ => WrittenOrNotAcked deps event entityId w sourceId t) [] s := by
    rw [processEntity, wp_modify_bind, wp_get_bind]
    generalize (if msg.payload.isBackfill then s.clearEntity entityId else s) = s₁
    split
    · exact (keeps_routeToDlq deps hB msg _ _ _).run _ _ (.inl (by simp))
    · exact wp_writeEntity_writes deps hws hsource hmsg _
  rw [consumeEntity, hmsg, hid]
  refine wp_seq (P := fun t _ _ =>
    WrittenOrNotAcked deps event entityId w sourceId t) ?_ (fun _ _ _ h => h)
    fun _ _ _ h => h
  refine wp_try hprocess (fun _ _ _ h => h) fun exc t s h => ?_
  exact (keeps_handleEntityFailure deps hB (fun _ _ _ h => h) (fun _ _ h => h) msg exc).run t s h

end

theorem workspaceOf_asDelivered (event : EntityUpsertEvent) :
    workspaceOf event.asDelivered.workspaceId = workspaceOf event.workspaceId :=
  workspaceOf_nonEmpty _

variable {cfg : Config}

/-- **An applied entity message** has been written once to each store. -/
theorem AppliesEntity.spec {deps : Deps} {S S' : Stores} {raw : Raw} {draw : Draw}
    (h : AppliesEntity deps cfg S raw draw S') {event : EntityUpsertEvent}
    (hdata : publishData deps.py deps.pyd (.entity event) = .ok raw.data)
    (hmeta : deps.py.RoundTrips event.metadata) {entityId w sourceId : Uuid}
    (hid : uuidOf event.id = .ok entityId) (hws : workspaceOf event.workspaceId = .ok w)
    (hsource : uuidOf event.sourceId = .ok sourceId) :
    ∃ embedding pointId now₁ now₂ c, draw.pointIds = [pointId] ∧
      (∀ p ∈ S.chunks.points, p.id ≠ pointId) ∧
      upsertChunks (entityChunks deps event.asDelivered w sourceId embedding) draw
        now₂ S.chunks = .ok c ∧
      S' = ⟨upsertEntity cfg (entityUpsert event.asDelivered entityId sourceId) w
        now₁ S.graph, c⟩ := by
  obtain ⟨env, s, l, hack, heffects⟩ := h
  rw [publishData_entity, Except.ok.injEq] at hdata
  have hdecode : (consumers deps).entity.decode raw.data = .ok event.asDelivered := by
    rw [← hdata]
    exact decodeEntity_serialize _ _ hmeta
  have hws' := (workspaceOf_asDelivered event).trans hws
  have hwp : Coro.wp .free (deliver deps.py deps.pyd Worker.clock (consumers deps).entity
      (consumeEntity deps) l raw) (fun t _ _ =>
        WrittenOrNotAcked deps event.asDelivered entityId w sourceId t) [] s := by
    by_cases hmany : (consumers deps).entity.maxDeliver ≤ getNumDelivered raw
    · rw [deliver_of_exhausted _ _ _ _ hmany]
      refine ((keeps_giveUp deps (fun q hq => respects_handsBack deps hq) _ raw).bind
        fun _ => keeps_pure _).run _ _ (.inl (by simp))
    · rw [deliver_of_yielded _ _ _ _ (yielded_eq_some (Nat.not_le.1 hmany) hdecode)]
      exact wp_consumeEntity_writes deps hws' hsource rfl hid l s
  have hpost := exec_of_wp (obeys_free env) hwp
  rcases hpost with hno | ⟨embedding, hwrites⟩
  · obtain ⟨r, hr⟩ := hack
    exact absurd rfl (hno _ hr _)
  · have heffects := heffects.writes
    rw [hwrites] at heffects
    -- the two writes, one after the other
    obtain _ | ⟨hgraph, hrest⟩ := heffects
    obtain _ | ⟨hchunks, hnil⟩ := hrest
    cases hnil
    cases hgraph with
    | other hno => cases hno
    | upsertEntity _ _ now₁ =>
      cases hchunks with
      | other hno => cases hno
      | upsertChunks hlength hfresh hc =>
        obtain ⟨pointId, hpoint⟩ := length_eq_one_iff.1 hlength
        refine ⟨embedding, pointId, now₁, _, _, hpoint, fun p hp => ?_, hc, rfl⟩
        exact hfresh pointId (hpoint ▸ mem_singleton_self pointId) p hp

/-! ### Edge messages -/

/-- A run of the edge loop on a raw message takes the stores from `S` to `S'`. -/
def AppliesEdge (deps : Deps) (cfg : Config) (S : Stores) (raw : Raw) (S' : Stores) : Prop :=
  ∃ (env : Env (iface Worker Service.Resp)) (s : Worker) (l : EdgeLocals) (draw : Draw),
    Effects cfg draw S (Coro.exec env (deliver deps.py deps.pyd Worker.clock (consumers deps).edge
      (consumeEdge deps) l raw) [] s).trace S'

theorem respects_madeForEdges {q : Call Service} (hq : MadeForEdges q) :
    Respects (.free : Contract (iface Worker Service.Resp))
      (fun t _ => ∀ ev ∈ t, MadeForEdges ev.1) q where
  yields _ _ _ := trivial
  resumes t s r s' h _ := by
    intro ev hev
    rcases mem_append.1 hev with hev | hev
    · exact h ev hev
    · rw [mem_singleton.1 hev]
      exact hq

/-- What the reconcile worker reads is the same in both states, but for the checkpoints. -/
structure SameReadings (S S' : Stores) : Prop where
  chunks : S'.chunks = S.chunks
  nodes : S'.graph.nodes = S.graph.nodes
  edgeVersions : ∀ ws, getEdgeVersions ws S'.graph = getEdgeVersions ws S.graph

theorem SameReadings.refl (S : Stores) : SameReadings S S := ⟨rfl, rfl, fun _ => rfl⟩

theorem SameReadings.trans {S S₁ S₂ : Stores} (h : SameReadings S S₁) (h' : SameReadings S₁ S₂) :
    SameReadings S S₂ :=
  ⟨h'.chunks.trans h.chunks, h'.nodes.trans h.nodes,
    fun ws => (h'.edgeVersions ws).trans (h.edgeVersions ws)⟩

theorem Effect.sameReadings {draw : Draw} {S S' : Stores}
    {ev : Event (iface Worker Service.Resp)} (h : Effect cfg draw S ev S') (hev : MadeForEdges ev.1) :
    SameReadings S S' := by
  cases h with
  | upsertEntity => cases hev
  | upsertEdge h =>
    exact ⟨rfl, (upsertEdge_cases h).1, fun ws => getEdgeVersions_upsertEdge h ws⟩
  | upsertChunks => cases hev
  | other => exact .refl S

theorem Effects.sameReadings {draw : Draw} {S S' : Stores}
    {t : List (Event (iface Worker Service.Resp))} (h : Effects cfg draw S t S')
    (ht : ∀ ev ∈ t, MadeForEdges ev.1) : SameReadings S S' := by
  induction h with
  | nil S => exact .refl S
  | cons hev _ ih =>
    have hfirst := hev.sameReadings (ht _ mem_cons_self)
    exact hfirst.trans (ih fun ev h => ht ev (mem_cons_of_mem _ h))

/-- **An edge message**, applied or not, changes nothing that the reconcile worker reads. -/
theorem AppliesEdge.sameReadings {deps : Deps} {S S' : Stores} {raw : Raw}
    (h : AppliesEdge deps cfg S raw S') : SameReadings S S' := by
  obtain ⟨env, s, l, draw, heffects⟩ := h
  have hkeeps : Keeps (.free : Contract (iface Worker Service.Resp))
      (fun t _ => ∀ ev ∈ t, MadeForEdges ev.1) (deliver deps.py deps.pyd Worker.clock
        (consumers deps).edge (consumeEdge deps) l raw) := by
    refine keeps_deliver deps (fun q hq => respects_madeForEdges hq.madeForEdges) _ _
      fun msg _ => ?_
    exact keeps_consumeEdge deps (fun q hq => respects_madeForEdges hq) (fun _ _ _ h => h)
      (fun _ _ _ h => h) (fun _ _ _ _ _ h => h) l msg
  exact heffects.sameReadings (exec_of_wp (obeys_free env) (hkeeps.run [] s (by simp)))

end Omniscience.Outbox
