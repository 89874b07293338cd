import Omniscience.Outbox.Backfill
import Omniscience.Outbox.Parking

/-!
# Which entity a failure is charged to

A message that fails counts against its entity: the retry counter of the entity goes up, and after
the last retry the entity is parked.  `failure_attributed` says that a message with a proper id
changes nothing for any other entity, except that parking the entity in a full lot evicts the
oldest one.  The exception is real: `other_entity_evicted` follows a run of failing messages from
the start of the worker until the lot overflows.

A message whose id is not a UUID is charged to the entity of an earlier message, whose id the loop
still has in its local variable; no statement is made about such a message.
-/

namespace Omniscience.Outbox

open List

open Queue Coro Dict Deps

/-- Nothing has changed for the entities other than `x`. -/
def SameElsewhere (x : Uuid) (s₀ s : Worker) : Prop :=
  ∀ y, y ≠ x → s.entityAttempts.get? y = s₀.entityAttempts.get? y ∧
    s.parkedEntities.get? y = s₀.parkedEntities.get? y

/-- Parking `x` made the lot overfull, and `y` was evicted from it. -/
def Evicted (x y : Uuid) (s₀ s : Worker) : Prop :=
  s.parkedEntities.get? y = none ∧
    ∃ lot : Dict Uuid ℕ, (∀ z, z ≠ x → lot.get? z = s₀.parkedEntities.get? z) ∧ x ∈ lot.keys ∧
      maxParkedItems < lot.size ∧ lot.oldest = some y

/-- The retry counters and the parked entities have changed for `x` only, and for the entity that
`x` drove out of the lot. -/
def Attributed (x : Uuid) (s₀ s : Worker) : Prop :=
  ∀ y, y ≠ x → s.entityAttempts.get? y = s₀.entityAttempts.get? y ∧
    (s.parkedEntities.get? y = s₀.parkedEntities.get? y ∨ Evicted x y s₀ s)

section

variable {x : Uuid} {s₀ : Worker}

theorem SameElsewhere.refl (x : Uuid) (s : Worker) : SameElsewhere x s s := fun _ _ => ⟨rfl, rfl⟩

theorem SameElsewhere.attributed {s : Worker} (h : SameElsewhere x s₀ s) : Attributed x s₀ s :=
  fun y hy => ⟨(h y hy).1, Or.inl (h y hy).2⟩

theorem SameElsewhere.clearEntity {s : Worker} (h : SameElsewhere x s₀ s) :
    SameElsewhere x s₀ (s.clearEntity x) := fun y hy =>
  ⟨(get?_pop_ne _ hy).trans (h y hy).1, (get?_pop_ne _ hy).trans (h y hy).2⟩

theorem SameElsewhere.popAttempts {s : Worker} (h : SameElsewhere x s₀ s) :
    SameElsewhere x s₀ { s with entityAttempts := s.entityAttempts.pop x } := fun y hy =>
  ⟨(get?_pop_ne _ hy).trans (h y hy).1, (h y hy).2⟩

theorem SameElsewhere.setAttempts {s : Worker} (h : SameElsewhere x s₀ s) (n : ℕ) :
    SameElsewhere x s₀ { s with entityAttempts := s.entityAttempts.set x n } := fun y hy =>
  ⟨(get?_set_ne _ _ hy).trans (h y hy).1, (h y hy).2⟩

theorem SameElsewhere.parkEntity {s : Worker} (h : SameElsewhere x s₀ s) :
    Attributed x s₀ (s.parkEntity x) := by
  intro y hy
  refine ⟨(h y hy).1, ?_⟩
  have hlot : ∀ z, z ≠ x → (s.parkedEntities.setDefault x s.clock).get? z =
      s₀.parkedEntities.get? z :=
    fun z hz => (get?_setDefault_ne _ _ hz).trans (h z hz).2
  rcases evictOldest_cases (s.parkedEntities.setDefault x s.clock) with
    ⟨-, he⟩ | ⟨oldest, hfull, hold, he⟩
  · left
    rw [Worker.parkEntity, park, he]
    exact hlot y hy
  · by_cases hyo : y = oldest
    · right
      refine ⟨?_, _, hlot, mem_keys_setDefault.2 (Or.inl rfl), hfull, hyo ▸ hold⟩
      rw [Worker.parkEntity, park, he, hyo]
      exact get?_pop_self _ _
    · left
      rw [Worker.parkEntity, park, he]
      exact (get?_pop_ne _ hyo).trans (hlot y hy)

theorem Attributed.congr {s s' : Worker} (h : Attributed x s₀ s)
    (hp : s'.parkedEntities = s.parkedEntities) (ha : s'.entityAttempts = s.entityAttempts) :
    Attributed x s₀ s' := by
  intro y hy
  rw [Evicted, hp, ha]
  exact h y hy

theorem respects_sameElsewhere (q : Call Service) :
    Respects entitiesPrivate (fun _ s => SameElsewhere x s₀ s) q where
  yields _ _ _ := trivial
  resumes t s r s' h hr := fun y hy => by
    rw [hr.1, hr.2]
    exact h y hy

theorem respects_attributed (q : Call Service) :
    Respects entitiesPrivate (fun _ s => Attributed x s₀ s) q where
  yields _ _ _ := trivial
  resumes _ _ _ _ h hr := h.congr hr.1 hr.2

variable (deps : Deps)

theorem wp_handleEntityFailure_attributed {s : Worker} (h : SameElsewhere x s₀ s)
    (msg : Message EntityUpsertEvent) (exc : Exc) (t : List (Event (iface Worker Service.Resp))) :
    Coro.wp entitiesPrivate (handleEntityFailure deps x msg exc)
      (fun _ _ s => Attributed x s₀ s) t s := by
  rw [handleEntityFailure, wp_get_bind, wp_modify_bind]
  split
  · exact (keeps_nak (respects_attributed _)).run _ _ (h.setAttempts _).attributed
  · rw [wp_modify_bind]
    refine (keeps_routeToDlq deps (fun q _ => respects_attributed q) _ _ _ _).run _ _ ?_
    exact (h.setAttempts _).parkEntity

/-- **One iteration of the entity loop** on a message with a proper id. -/
theorem wp_consumeEntity_attributed {msg : Message EntityUpsertEvent}
    (hid : uuidOf msg.payload.id = .ok x) (l : Option Uuid)
    (t : List (Event (iface Worker Service.Resp))) {s : Worker} (h : SameElsewhere x s₀ s) :
    Coro.wp entitiesPrivate (consumeEntity deps l msg) (fun _ _ s => Attributed x s₀ s) t s := by
  have hprocess := keeps_processEntity deps (I := fun _ s => SameElsewhere x s₀ s)
    respects_sameElsewhere (fun _ _ h => h.clearEntity) (fun _ _ h => h.popAttempts)
    (fun _ _ _ h => h) msg
  rw [consumeEntity, hid]
  refine wp_seq (P := fun _ _ (s : Worker) => Attributed x s₀ s) ?_ (fun _ _ _ h => h)
    fun _ _ _ h => h
  refine wp_try (hprocess.run t s h) (fun _ _ _ h => h.attributed) fun exc t s h => ?_
  exact wp_handleEntityFailure_attributed deps h msg exc t

theorem wp_iter_attributed {c : QueueConsumer EntityUpsertEvent} {raw : Raw}
    {event : EntityUpsertEvent} (hy : yielded c raw = some event) (hid : uuidOf event.id = .ok x)
    (l : Option Uuid) (t : List (Event (iface Worker Service.Resp))) (s : Worker) :
    Coro.wp entitiesPrivate
      (iter deps.py deps.pyd Worker.clock c (consumeEntity deps) l [[raw]])
      (fun _ _ s' => Attributed x s s') t s := by
  -- before the message only `x` may have changed, after it one eviction as well
  refine wp_iter deps.py deps.pyd Worker.clock c
    (fun rest _ _ s' => rest = [raw] ∧ SameElsewhere x s s' ∨ rest = [] ∧ Attributed x s s')
    ?_ ?_ ?_ (Or.inl ⟨rfl, .refl x s⟩)
  · rintro l t s' (⟨⟨⟩, -⟩ | ⟨-, h⟩)
    exact h
  · rintro batch rest l t s' h
    refine ⟨trivial, fun r s'' hr => ?_⟩
    rcases h with ⟨hrest, h⟩ | ⟨hrest, h⟩
    · have h' : SameElsewhere x s s'' := (respects_sameElsewhere .fetch).resumes t _ r _ h hr
      cases r with
      | ok u => exact Or.inl ⟨hrest, h'⟩
      | error e =>
        rcases append_eq_singleton_iff.1 hrest with ⟨-, hrest⟩ | ⟨-, hrest⟩
        · exact Or.inl ⟨hrest, h'⟩
        · exact Or.inr ⟨hrest, h'.attributed⟩
    · have h' : Attributed x s s'' := h.congr hr.1 hr.2
      cases r with
      | ok u => exact Or.inr ⟨hrest, h'⟩
      | error e => exact Or.inr ⟨(append_eq_nil_iff.1 hrest).2, h'⟩
  · rintro raw' rest l t s' (⟨hrest, h⟩ | ⟨⟨⟩, -⟩)
    obtain ⟨rfl, rfl⟩ := cons.inj hrest
    rw [deliver_of_yielded _ _ _ _ hy]
    refine wp_mono (wp_consumeEntity_attributed deps hid l t h) fun t r s'' h => ?_
    cases r with
    | ok l => exact Or.inr ⟨rfl, h⟩
    | error e => exact h

end

/-- **Attribution of failures**: the step that handles a message with a proper id changes the retry
counter and the parked status of that entity only, and of the entity that it drives out of a full
lot. -/
theorem failure_attributed (deps : Deps) (cs : Consumers) (env : Env (iface Worker Service.Resp))
    (henv : PrivateEntities env) (s : Worker) (batches : List (List Raw)) (raw : Raw)
    (event : EntityUpsertEvent) (hy : yielded cs.entity raw = some event) (x : Uuid)
    (hid : uuidOf event.id = .ok x) :
    let run := fun batches => Coro.exec env
      (iter deps.py deps.pyd Worker.clock cs.entity (consumeEntity deps) none batches) [] s
    Attributed x (run batches).state (run (batches ++ [[raw]])).state := by
  intro run
  simp only [run, iter_append, Coro.exec_bind]
  rcases Coro.exec env (iter deps.py deps.pyd Worker.clock cs.entity (consumeEntity deps) none
    batches) [] s with ⟨t', e | l, s'⟩
  · exact (SameElsewhere.refl x s').attributed
  · exact exec_of_wp henv.obeys (wp_iter_attributed deps hy hid l t' s')

/-- An outside in which only the writes of entities to the graph fail. -/
def rejecting : Env (iface Worker Service.Resp)
  | _, .service (.upsertEntity _ _), s => (.error ⟨.external, "write failed"⟩, s)
  | t, q, s => accepting t q s

theorem rejecting_private : PrivateEntities rejecting := by
  intro t q s
  rcases q with _ | _ | ⟨_, _⟩ | _ | ⟨_, _⟩ | c
  case service => cases c <;> exact ⟨rfl, rfl⟩
  all_goals exact ⟨rfl, rfl⟩

theorem failure_attributed_sample :
    Attributed 2 {} (Coro.exec rejecting (iter Py.sample Pydantic.strict Worker.clock
      (consumers sample).entity (consumeEntity sample) none
      ([] ++ [[entityRaw plainEntity]])) [] {}).state :=
  failure_attributed sample (consumers sample) rejecting rejecting_private {} []
    (entityRaw plainEntity) plainEntity.asDelivered (yielded_entityRaw Py.sample_roundTrips) 2
    (uuidOf_str 2)

/-! ### A run that overflows the lot -/

/-- The state after one more failure of an entity. -/
def charge (s : Worker) (x : Uuid) : Worker :=
  let n := s.entityAttempts.getD x 0 + 1
  let s := { s with entityAttempts := s.entityAttempts.set x n }
  if n ≤ maxRetriesBeforePark then s else s.parkEntity x

/-- The event of the entity `x`. -/
def eventOf (x : Uuid) : EntityUpsertEvent := { plainEntity with id := x.str }

/-- The message of the entity `x`, as the consumer yields it. -/
def messageOf (x : Uuid) : Message EntityUpsertEvent :=
  ⟨7, "outbox.entity.upsert", (eventOf x).asDelivered⟩

variable {s : Worker} {x : Uuid}

theorem exec_rejecting_process (hx : x ∉ s.parkedEntities.keys)
    (t : List (Event (iface Worker Service.Resp))) :
    ∃ t', Coro.exec rejecting (processEntity sample x (messageOf x)) t s =
      ⟨t', .error ⟨.external, "write failed"⟩, s⟩ := by
  have hsource : uuidOf (messageOf x).payload.sourceId = .ok 4 := uuidOf_str 4
  have hparked : ¬ s.parkedEntities.contains x = true :=
    fun h => hx (contains_iff.1 h)
  rw [processEntity, writeEntity, hsource]
  change ∃ t', Coro.exec rejecting (if s.parkedEntities.contains x then _ else _) t s = _
  rw [if_neg hparked]
  exact ⟨_, rfl⟩

theorem exec_rejecting_handle (hdlq : s.dlqProducer = true) (exc : Exc)
    (t : List (Event (iface Worker Service.Resp))) :
    ∃ t', Coro.exec rejecting (handleEntityFailure sample x (messageOf x) exc) t s =
      ⟨t', .ok (), charge s x⟩ := by
  rw [handleEntityFailure, charge]
  change ∃ t', Coro.exec rejecting
    (if s.entityAttempts.getD x 0 + 1 ≤ maxRetriesBeforePark then _ else _) t _ = _
  split
  · exact ⟨_, rfl⟩
  · rw [routeToDlq]
    change ∃ t', Coro.exec rejecting (if s.dlqProducer then _ else _) t _ = _
    rw [if_pos hdlq]
    exact ⟨_, rfl⟩

theorem exec_rejecting (hx : x ∉ s.parkedEntities.keys) (hdlq : s.dlqProducer = true)
    (l : Option Uuid) (t : List (Event (iface Worker Service.Resp))) :
    ∃ t', Coro.exec rejecting (deliver Py.sample Pydantic.strict Worker.clock
      (consumers sample).entity (consumeEntity sample) l (entityRaw (eventOf x))) t s =
        ⟨t', .ok (some x), charge s x⟩ := by
  have hid : uuidOf (eventOf x).asDelivered.id = .ok x := uuidOf_str x
  obtain ⟨t₁, h₁⟩ := exec_rejecting_process hx t
  obtain ⟨t₂, h₂⟩ := exec_rejecting_handle (x := x) hdlq ⟨.external, "write failed"⟩ t₁
  refine ⟨t₂, ?_⟩
  rw [deliver_of_yielded _ _ _ _ (yielded_entityRaw Py.sample_roundTrips), consumeEntity, hid]
  change Coro.exec rejecting (Coro.bind (Coro.tryCatch (processEntity sample x (messageOf x))
    (handleEntityFailure sample x (messageOf x))) _) t s = _
  rw [Coro.exec_bind, Coro.exec_tryCatch, h₁]
  simp only
  rw [h₂]
  rfl

/-- The run of the entity loop over `batches`, with all graph writes failing. -/
def failingRun (l : Option Uuid) (batches : List (List Raw))
    (t : List (Event (iface Worker Service.Resp))) (s : Worker) :
    Outcome (iface Worker Service.Resp) (Option Uuid) :=
  Coro.exec rejecting (iter Py.sample Pydantic.strict Worker.clock (consumers sample).entity
    (consumeEntity sample) l batches) t s

/-- The failing run over `batches` leads from `s` to `s'`. -/
def Leads (s : Worker) (batches : List (List Raw)) (s' : Worker) : Prop :=
  ∀ l t, ∃ t' l', failingRun l batches t s = ⟨t', .ok l', s'⟩

theorem Leads.nil (s : Worker) : Leads s [] s := fun l t => ⟨t, l, rfl⟩

theorem Leads.append {s s' s'' : Worker} {batches batches' : List (List Raw)}
    (h : Leads s batches s') (h' : Leads s' batches' s'') : Leads s (batches ++ batches') s'' := by
  intro l t
  obtain ⟨t₁, l₁, h₁⟩ := h l t
  obtain ⟨t₂, l₂, h₂⟩ := h' l₁ t₁
  refine ⟨t₂, l₂, ?_⟩
  rw [failingRun] at h₁
  rw [failingRun, iter_append, Coro.exec_bind, h₁]
  exact h₂

theorem leads_charge (hx : x ∉ s.parkedEntities.keys) (hdlq : s.dlqProducer = true) :
    Leads s [[entityRaw (eventOf x)]] (charge s x) := by
  intro l t
  obtain ⟨t', h⟩ := exec_rejecting hx hdlq l (t ++ [⟨.fetch, .ok ()⟩])
  refine ⟨t', some x, ?_⟩
  change Coro.exec rejecting (Coro.bind (Coro.bind (deliver Py.sample Pydantic.strict Worker.clock
    (consumers sample).entity (consumeEntity sample) l (entityRaw (eventOf x))) _) _)
    (t ++ [⟨.fetch, .ok ()⟩]) s = _
  rw [Coro.exec_bind, Coro.exec_bind, h]
  rfl

theorem charge_dlqProducer (s : Worker) (x : Uuid) : (charge s x).dlqProducer = s.dlqProducer := by
  rw [charge]
  split <;> rfl

theorem charge_clock (s : Worker) (x : Uuid) : (charge s x).clock = s.clock := by
  rw [charge]
  split <;> rfl

theorem charge_entityAttempts (s : Worker) (x : Uuid) :
    (charge s x).entityAttempts = s.entityAttempts.set x (s.entityAttempts.getD x 0 + 1) := by
  rw [charge]
  split <;> rfl

theorem charge_of_retry (h : s.entityAttempts.getD x 0 < 3) :
    (charge s x).parkedEntities = s.parkedEntities := by
  rw [charge]
  rw [if_pos]
  exact h

theorem charge_of_last (h : s.entityAttempts.getD x 0 = 3) :
    (charge s x).parkedEntities = (park s.parkedEntities x s.clock).1 := by
  rw [charge]
  rw [h, if_neg (by decide)]
  rfl

theorem leads_retries (hx : x ∉ s.parkedEntities.keys) (hnew : s.entityAttempts.get? x = none)
    (hdlq : s.dlqProducer = true) :
    ∃ s', Leads s (replicate 3 [entityRaw (eventOf x)]) s' ∧
      s'.parkedEntities = s.parkedEntities ∧ s'.entityAttempts.getD x 0 = 3 ∧
      (∀ y, y ≠ x → s'.entityAttempts.get? y = s.entityAttempts.get? y) ∧
      s'.dlqProducer = true ∧ s'.clock = s.clock := by
  have hstep : ∀ (n : ℕ) (s' : Worker), n < 3 → s'.parkedEntities = s.parkedEntities →
      s'.entityAttempts.getD x 0 = n → s'.dlqProducer = true →
      Leads s' [[entityRaw (eventOf x)]] (charge s' x) ∧
        (charge s' x).parkedEntities = s.parkedEntities ∧
        (charge s' x).entityAttempts.getD x 0 = n + 1 ∧ (charge s' x).dlqProducer = true := by
    intro n s' hn hp ha hd
    refine ⟨leads_charge (hp ▸ hx) hd, ?_, ?_, (charge_dlqProducer s' x).trans hd⟩
    · exact (charge_of_retry (by omega)).trans hp
    · rw [charge_entityAttempts, Dict.getD, get?_set_self, ha]
      rfl
  have hzero : s.entityAttempts.getD x 0 = 0 := by rw [Dict.getD, hnew]; rfl
  obtain ⟨h₁, hp₁, ha₁, hd₁⟩ := hstep 0 s (by decide) rfl hzero hdlq
  obtain ⟨h₂, hp₂, ha₂, hd₂⟩ := hstep 1 _ (by decide) hp₁ ha₁ hd₁
  obtain ⟨h₃, hp₃, ha₃, hd₃⟩ := hstep 2 _ (by decide) hp₂ ha₂ hd₂
  refine ⟨_, (h₁.append h₂).append h₃, hp₃, ha₃, fun y hy => ?_, hd₃, ?_⟩
  · simp only [charge_entityAttempts, get?_set_ne _ _ hy]
  · simp only [charge_clock]

/-- The `i`-th entity. -/
def nthEntity (i : ℕ) : Uuid := BitVec.ofNat 128 i

theorem nthEntity_inj {i j : ℕ} (hi : i ≤ maxParkedItems) (hj : j ≤ maxParkedItems)
    (h : nthEntity i = nthEntity j) : i = j := by
  have hmax : maxParkedItems < 2 ^ 128 := by decide
  have := congrArg BitVec.toNat h
  rwa [nthEntity, nthEntity, BitVec.toNat_ofNat, BitVec.toNat_ofNat, Nat.mod_eq_of_lt (by omega),
    Nat.mod_eq_of_lt (by omega)] at this

/-- The first `n` entities are parked, in their order and all at the same time, and the others
have not failed yet. -/
structure Filled (n : ℕ) (s : Worker) : Prop where
  items : s.parkedEntities.items = (range n).map fun i => (nthEntity i, 0)
  fresh : ∀ i, n ≤ i → i ≤ maxParkedItems → s.entityAttempts.get? (nthEntity i) = none
  dlqProducer : s.dlqProducer = true
  clock : s.clock = 0

theorem Filled.not_mem {n : ℕ} (h : Filled n s) (hn : n ≤ maxParkedItems) :
    nthEntity n ∉ s.parkedEntities.keys := by
  rw [Dict.keys, h.items, map_map]
  intro hmem
  obtain ⟨i, hi, he⟩ := mem_map.1 hmem
  have hlt := mem_range.1 hi
  have := nthEntity_inj (by omega) hn he
  omega

theorem Filled.items_setDefault {n : ℕ} (h : Filled n s) (hn : n ≤ maxParkedItems) :
    (s.parkedEntities.setDefault (nthEntity n) 0).items =
      (range (n + 1)).map fun i => (nthEntity i, 0) := by
  have hc : ¬ s.parkedEntities.contains (nthEntity n) = true :=
    fun hc => h.not_mem hn (contains_iff.1 hc)
  have hmem : nthEntity n ∉ s.parkedEntities.items.map Prod.fst := h.not_mem hn
  rw [setDefault, if_neg hc, Dict.set, dif_neg hmem, range_succ, map_append]
  exact congrArg (· ++ _) h.items

theorem Filled.succ {n : ℕ} (h : Filled n s) (hn : n < maxParkedItems) :
    ∃ s', Leads s (replicate 4 [entityRaw (eventOf (nthEntity n))]) s' ∧
      Filled (n + 1) s' := by
  obtain ⟨s', hleads, hp, ha, hother, hd, hc⟩ :=
    leads_retries (h.not_mem hn.le) (h.fresh n le_rfl hn.le) h.dlqProducer
  have hlast := leads_charge (x := nthEntity n) (hp ▸ h.not_mem hn.le) hd
  refine ⟨_, hleads.append hlast, ?_, fun i hi hi' => ?_, ?_, ?_⟩
  · have hsize : (s.parkedEntities.setDefault (nthEntity n) 0).size ≤ maxParkedItems := by
      rw [size, h.items_setDefault hn.le, length_map, length_range]
      exact hn
    rw [charge_of_last ha, hp, hc, h.clock, park, evictOldest, if_neg (Nat.not_lt.2 hsize)]
    exact h.items_setDefault hn.le
  · have hne : nthEntity i ≠ nthEntity n :=
      fun he => absurd (nthEntity_inj hi' hn.le he) (by omega)
    rw [charge_entityAttempts, get?_set_ne _ _ hne, hother _ hne]
    exact h.fresh i (by omega) hi'
  · exact (charge_dlqProducer _ _).trans hd
  · exact (charge_clock _ _).trans (hc.trans h.clock)

theorem exists_filled : ∀ n, n ≤ maxParkedItems → ∃ batches s, Leads {} batches s ∧ Filled n s
  | 0, _ => ⟨[], {}, .nil _, rfl, fun _ _ _ => rfl, rfl, rfl⟩
  | n + 1, hn => by
    obtain ⟨batches, s, hleads, hs⟩ := exists_filled n (by omega)
    obtain ⟨s', hleads', hs'⟩ := hs.succ hn
    exact ⟨_, s', hleads.append hleads', hs'⟩

/-- A message for one entity drives another entity out of the lot. -/
theorem other_entity_evicted :
    ¬ ∀ (batches : List (List Raw)) (raw : Raw) (event : EntityUpsertEvent) (x : Uuid),
      yielded (consumers sample).entity raw = some event → uuidOf event.id = .ok x →
      ∀ y, y ≠ x →
        (failingRun none (batches ++ [[raw]]) [] {}).state.parkedEntities.get? y =
          (failingRun none batches [] {}).state.parkedEntities.get? y := by
  intro hclaim
  obtain ⟨batches, s, hleads, hs⟩ := exists_filled maxParkedItems le_rfl
  obtain ⟨s', hleads', hp, ha, -, hd, hc⟩ :=
    leads_retries (hs.not_mem le_rfl) (hs.fresh _ le_rfl le_rfl) hs.dlqProducer
  have hbefore := hleads.append hleads'
  have hafter := hbefore.append (leads_charge (x := nthEntity maxParkedItems)
    (hp ▸ hs.not_mem le_rfl) hd)
  obtain ⟨t₁, l₁, h₁⟩ := hbefore none []
  obtain ⟨t₂, l₂, h₂⟩ := hafter none []
  have hne : nthEntity 0 ≠ nthEntity maxParkedItems :=
    fun he => absurd (nthEntity_inj (Nat.zero_le _) le_rfl he) (by decide)
  have hsame := hclaim
    (batches ++ replicate 3 [entityRaw (eventOf (nthEntity maxParkedItems))])
    (entityRaw (eventOf (nthEntity maxParkedItems))) _ _
    (yielded_entityRaw Py.sample_roundTrips) (uuidOf_str (nthEntity maxParkedItems))
    (nthEntity 0) hne
  rw [h₁, h₂] at hsame
  -- before the message, the first entity is still in the lot; after it, it is not
  have hfirst : nthEntity 0 ∈ s'.parkedEntities.keys := by
    rw [hp, Dict.keys, hs.items, map_map]
    exact mem_map.2 ⟨0, mem_range.2 (by decide), rfl⟩
  have hevicted : (charge s' (nthEntity maxParkedItems)).parkedEntities.get? (nthEntity 0) =
      none := by
    have hitems := hs.items_setDefault le_rfl
    have hfull : maxParkedItems <
        (s.parkedEntities.setDefault (nthEntity maxParkedItems) 0).size := by
      rw [size, hitems, length_map, length_range]
      exact Nat.lt_succ_self _
    have hold : (s.parkedEntities.setDefault (nthEntity maxParkedItems) 0).oldest =
        some (nthEntity 0) := by
      rw [range_succ_eq_map, map_cons] at hitems
      exact oldest_eq_head hitems fun q _ => Nat.zero_le _
    rw [charge_of_last ha, hp, hc, hs.clock, park, evictOldest, if_pos hfull, hold]
    exact get?_pop_self _ _
  exact get?_eq_none_iff.1 (hsame.symm.trans hevicted) hfirst

end Omniscience.Outbox
