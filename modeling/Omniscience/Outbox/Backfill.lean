import Omniscience.Outbox.Frames
import Omniscience.Outbox.Settlement

/-!
# Backfill events and parked entities

The reconciler and the un-park loop emit events with `is_backfill=True` to clear the parked status
of an entity, and so it would in memory.  On the wire the mark is lost, so what reaches the entity
loop is an ordinary event for a parked entity, and the loop routes it to the dead letter queue
before it looks at the stores: `backfill_not_healing` says that this is what happens to every
backfill event that travels through the broker.
-/

namespace Omniscience.Outbox

open Queue Coro Deps

/-- Nobody but the entity loop touches the entities while it is suspended. -/
def PrivateEntities (env : Env (iface Worker Service.Resp)) : Prop :=
  ∀ t q s, (env t q s).2.parkedEntities = s.parkedEntities ∧
    (env t q s).2.entityAttempts = s.entityAttempts

/-- The contract of the entity loop for results about the entities. -/
def entitiesPrivate : Contract (iface Worker Service.Resp) where
  yields _ _ _ := True
  resumes _ _ s _ s' :=
    s'.parkedEntities = s.parkedEntities ∧ s'.entityAttempts = s.entityAttempts

theorem PrivateEntities.obeys {env : Env (iface Worker Service.Resp)} (h : PrivateEntities env) :
    Obeys env entitiesPrivate :=
  fun t q s _ => h t q s

/-! ### Through the broker -/

/-- The parked entities are as in `parked`, and no store was called. -/
def Untouched (parked : Dict Uuid ℕ) (t : List (Event (iface Worker Service.Resp)))
    (s : Worker) : Prop :=
  s.parkedEntities = parked ∧ ∀ ev ∈ t, IsBroker ev.1

section

variable {parked : Dict Uuid ℕ}

theorem respects_untouched {q : Call Service} (hq : IsBroker q) :
    Respects entitiesPrivate (Untouched parked) q where
  yields _ _ _ := trivial
  resumes t s r s' h hr := by
    refine ⟨hr.1.trans h.1, fun ev hev => ?_⟩
    rcases List.mem_append.1 hev with hev | hev
    · exact h.2 ev hev
    · rw [List.mem_singleton.1 hev]
      exact hq

theorem parkEntity_of_mem {s : Worker} {entityId : Uuid} (h : entityId ∈ s.parkedEntities.keys)
    (hsize : s.parkedEntities.size ≤ maxParkedItems) : s.parkEntity entityId = s := by
  have hset : s.parkedEntities.setDefault entityId s.clock = s.parkedEntities := by
    rw [Dict.setDefault, if_pos (Dict.contains_iff.2 h)]
  rw [Worker.parkEntity, park, hset, evictOldest, if_neg (Nat.not_lt.2 hsize)]

variable {x : Uuid} (hx : x ∈ parked.keys) (hsize : parked.size ≤ maxParkedItems) (deps : Deps)

include hx hsize

theorem keeps_consumeEntity_of_parked {msg : Message EntityUpsertEvent}
    (hid : uuidOf msg.payload.id = .ok x) (hmark : msg.payload.isBackfill = false)
    (l : Option Uuid) :
    Keeps entitiesPrivate (Untouched parked) (consumeEntity deps l msg) := by
  have hB : ∀ q, HandsBack q → Respects entitiesPrivate (Untouched parked) q :=
    fun q hq => respects_untouched hq.isBroker
  rw [consumeEntity, hid]
  refine Keeps.bind (Keeps.tryCatch ?_ fun exc => ?_) fun _ => keeps_pure _
  · refine ⟨fun t s h => ?_⟩
    rw [processEntity, wp_modify_bind, wp_get_bind, hmark, if_neg Bool.false_ne_true,
      if_pos (Dict.contains_iff.2 (h.1 ▸ hx))]
    exact (keeps_routeToDlq deps hB msg _ _ _).run t s h
  · -- reached only when the answer to the broker fails as well
    refine keeps_handleEntityFailure deps hB (fun _ _ _ h => h) (fun t s h => ?_) msg exc
    rw [parkEntity_of_mem (h.1 ▸ hx) (h.1 ▸ hsize)]
    exact h

end

/-- **Backfill does not heal a parked entity.**  An event for a parked entity that was published and
delivered leaves it parked, and neither store is called, whether it was marked as backfill or
not. -/
theorem backfill_not_healing (deps : Deps) (env : Env (iface Worker Service.Resp))
    (henv : PrivateEntities env) (s : Worker) (hsize : s.parkedEntities.size ≤ maxParkedItems)
    (x : Uuid) (hx : x ∈ s.parkedEntities.keys) (event : EntityUpsertEvent)
    (hid : uuidOf event.id = .ok x) (hmeta : deps.py.RoundTrips event.metadata) (raw : Raw)
    (hdata : publishData deps.py deps.pyd (.entity event) = .ok raw.data) (l : Option Uuid) :
    let o := Coro.exec env (deliver deps.py deps.pyd Worker.clock (consumers deps).entity
      (consumeEntity deps) l raw) [] s
    x ∈ o.state.parkedEntities.keys ∧ ∀ ev ∈ o.trace, IsBroker ev.1 := by
  rw [publishData_entity, Except.ok.injEq] at hdata
  have hdecode : (consumers deps).entity.decode raw.data = .ok event.asDelivered := by
    rw [← hdata]
    exact decodeEntity_serialize _ _ hmeta
  have hkeeps : Keeps entitiesPrivate (Untouched s.parkedEntities)
      (deliver deps.py deps.pyd Worker.clock (consumers deps).entity (consumeEntity deps) l
        raw) := by
    refine keeps_deliver deps (fun q hq => respects_untouched hq.isBroker) _ _ fun msg hmsg => ?_
    -- the mark was lost on the wire
    have hpayload : msg.payload = event.asDelivered := Except.ok.inj (hmsg.symm.trans hdecode)
    refine keeps_consumeEntity_of_parked hx hsize deps ?_ ?_ l
    · rw [hpayload]
      exact hid
    · rw [hpayload]
      rfl
  have hend := exec_of_wp henv.obeys (hkeeps.run [] s ⟨rfl, by rintro _ ⟨⟩⟩)
  exact ⟨hend.1 ▸ hx, hend.2⟩

/-- The entity 2 is parked. -/
def withParkedEntity : Worker where
  parkedEntities := Dict.empty.set 2 0

/-- The backfill event for the entity 2. -/
def backfillEntity : EntityUpsertEvent := { plainEntity with isBackfill := true }

theorem accepting_private : PrivateEntities accepting := by
  intro t q s
  rcases q with _ | _ | ⟨_, _⟩ | _ | ⟨_, _⟩ | c
  case service => cases c <;> exact ⟨rfl, rfl⟩
  all_goals exact ⟨rfl, rfl⟩

theorem backfill_not_healing_sample :
    2 ∈ (Coro.exec accepting (deliver Py.sample Pydantic.strict Worker.clock
      (consumers sample).entity (consumeEntity sample) none (entityRaw backfillEntity))
      [] withParkedEntity).state.parkedEntities.keys :=
  (backfill_not_healing sample accepting accepting_private withParkedEntity (by decide) 2
    (by decide) backfillEntity (uuidOf_str 2) Py.sample_roundTrips (entityRaw backfillEntity)
    (publishData_entity _ _ _) none).1

/-- The entity stays parked although every call succeeds. -/
theorem backfilled_entity_stays_parked :
    ¬ ∀ (s : Worker) (x : Uuid) (event : EntityUpsertEvent), x ∈ s.parkedEntities.keys →
      uuidOf event.id = .ok x → event.isBackfill = true → Py.sample.RoundTrips event.metadata →
      x ∉ (Coro.exec accepting (deliver Py.sample Pydantic.strict Worker.clock
        (consumers sample).entity (consumeEntity sample) none (entityRaw event))
        [] s).state.parkedEntities.keys := by
  intro h
  have hid : uuidOf backfillEntity.asDelivered.id = .ok 2 := uuidOf_str 2
  refine h withParkedEntity 2 backfillEntity (by decide) hid rfl Py.sample_roundTrips ?_
  rw [deliver_of_yielded _ _ _ _ (yielded_entityRaw Py.sample_roundTrips), consumeEntity, hid]
  exact List.mem_singleton_self _

end Omniscience.Outbox
