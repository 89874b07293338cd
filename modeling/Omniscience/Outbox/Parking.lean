import Omniscience.Outbox.Frames

/-!
# The parking lot

Four tasks add to the dictionaries of the worker and remove from them: a failed message parks its
entity or edge, an edge at a parked entity is parked with it, an overfull lot evicts its oldest
entry, a backfill event clears an entry, and an entity that lands un-parks the edges that waited
for it.  `Parking` is what all of them keep: exactly the parked edges have their ends on record,
and neither lot grows beyond its capacity.

The tasks lose control at their awaits only, so an insertion and the eviction that it causes are
one step.  `parking_of_reachable` is about every interleaving of any number of tasks.
-/

namespace Omniscience.Outbox

open Queue Coro Dict

/-! ### Parking and eviction -/

theorem evictOldest_cases (parked : Dict Uuid ℕ) :
    (parked.size ≤ maxParkedItems ∧ evictOldest parked = (parked, none)) ∨
      ∃ oldest, maxParkedItems < parked.size ∧ parked.oldest = some oldest ∧
        evictOldest parked = (parked.pop oldest, some oldest) := by
  rw [evictOldest]
  split
  · rename_i hfull
    obtain ⟨oldest, hold⟩ := oldest_isSome (Nat.zero_lt_of_lt hfull)
    exact Or.inr ⟨oldest, hfull, hold, by rw [hold]⟩
  · rename_i hfits
    exact Or.inl ⟨Nat.le_of_not_lt hfits, rfl⟩

theorem mem_keys_park {parked : Dict Uuid ℕ} {id k : Uuid} {now : ℕ} :
    k ∈ (park parked id now).1.keys ↔
      (k = id ∨ k ∈ parked.keys) ∧ (park parked id now).2 ≠ some k := by
  rw [← mem_keys_setDefault (v := now), park]
  rcases evictOldest_cases (parked.setDefault id now) with ⟨-, h⟩ | ⟨oldest, -, -, h⟩
  · simp [h]
  · rw [h, mem_keys_pop, ne_eq, ne_eq, Option.some.injEq, eq_comm (a := k)]

theorem park_size_le {parked : Dict Uuid ℕ} (h : parked.size ≤ maxParkedItems) (id : Uuid)
    (now : ℕ) : (park parked id now).1.size ≤ maxParkedItems := by
  have hadd := size_setDefault_le parked id now
  rw [park]
  rcases evictOldest_cases (parked.setDefault id now) with ⟨hle, he⟩ | ⟨oldest, -, hold, he⟩
  · rw [he]
    exact hle
  · have hpop := size_pop_of_mem (oldest_mem_keys hold)
    rw [he]
    simp only
    omega

/-! ### The invariant -/

/-- Exactly the parked edges have their ends on record, and the lots are within capacity. -/
structure Parking (s : Worker) : Prop where
  mem_edgeDeps_iff : ∀ k, k ∈ s.edgeDeps.keys ↔ k ∈ s.parkedEdges.keys
  entities_le : s.parkedEntities.size ≤ maxParkedItems
  edges_le : s.parkedEdges.size ≤ maxParkedItems

namespace Parking

variable {s : Worker}

theorem clearEntity (h : Parking s) (entityId : Uuid) : Parking (s.clearEntity entityId) :=
  ⟨h.mem_edgeDeps_iff, (size_pop_le _ _).trans h.entities_le, h.edges_le⟩

theorem unparkEdge (h : Parking s) (edgeId : Uuid) : Parking (s.unparkEdge edgeId) := by
  refine ⟨fun k => ?_, h.entities_le, (size_pop_le _ _).trans h.edges_le⟩
  simp only [Worker.unparkEdge, mem_keys_pop, h.mem_edgeDeps_iff]

theorem clearEdge (h : Parking s) (edgeId : Uuid) : Parking (s.clearEdge edgeId) := by
  obtain ⟨hdeps, hents, hedges⟩ := h.unparkEdge edgeId
  exact ⟨hdeps, hents, hedges⟩

theorem parkEntity (h : Parking s) (entityId : Uuid) : Parking (s.parkEntity entityId) :=
  ⟨h.mem_edgeDeps_iff, park_size_le h.entities_le _ _, h.edges_le⟩

theorem parkEdge (h : Parking s) (edgeId sourceEntityId targetEntityId : Uuid) :
    Parking (s.parkEdge edgeId sourceEntityId targetEntityId) := by
  refine ⟨fun k => ?_, h.entities_le, park_size_le h.edges_le _ _⟩
  -- the ends are recorded under the same condition under which the edge is added to the lot
  have hadd : ∀ j, j ∈ (if s.parkedEdges.contains edgeId then s.edgeDeps
      else s.edgeDeps.set edgeId (sourceEntityId, targetEntityId)).keys ↔
        j = edgeId ∨ j ∈ s.parkedEdges.keys := by
    intro j
    split
    · rename_i hc
      rw [h.mem_edgeDeps_iff]
      refine ⟨Or.inr, ?_⟩
      rintro (rfl | hj)
      · exact contains_iff.1 hc
      · exact hj
    · rw [mem_keys_set, h.mem_edgeDeps_iff]
  simp only [Worker.parkEdge]
  rw [mem_keys_park, ← hadd]
  split
  · rename_i oldest hold
    rw [mem_keys_pop, hold, ne_eq, ne_eq, Option.some.injEq, eq_comm (a := k)]
  · rename_i hnone
    simp [hnone]

theorem entityAttempts (h : Parking s) (attempts : Dict Uuid ℕ) :
    Parking { s with entityAttempts := attempts } :=
  ⟨h.mem_edgeDeps_iff, h.entities_le, h.edges_le⟩

theorem edgeAttempts (h : Parking s) (attempts : Dict Uuid ℕ) :
    Parking { s with edgeAttempts := attempts } :=
  ⟨h.mem_edgeDeps_iff, h.entities_le, h.edges_le⟩

theorem clock (h : Parking s) (now : ℕ) : Parking { s with clock := now } :=
  ⟨h.mem_edgeDeps_iff, h.entities_le, h.edges_le⟩

end Parking

/-! ### Every task keeps the invariant -/

theorem keeps_consumeEntity_parking {K : Contract (iface Worker Service.Resp)}
    (hK : ∀ q, Respects K (fun _ s => Parking s) q) (deps : Deps) (entityId : Option Uuid)
    (msg : Message EntityUpsertEvent) :
    Keeps K (fun _ s => Parking s) (consumeEntity deps entityId msg) := by
  have hexcept : ∀ entityId exc,
      Keeps K (fun _ s => Parking s) (exceptEntity deps entityId msg exc) := by
    intro entityId exc
    cases entityId with
    | none => exact keeps_nak (hK _)
    | some entityId =>
      exact keeps_handleEntityFailure deps (fun q _ => hK q) (fun _ _ _ h => h.entityAttempts _)
        (fun _ _ h => h.parkEntity _) msg exc
  rw [consumeEntity]
  split
  · exact (hexcept _ _).bind fun _ => keeps_pure _
  · refine Keeps.bind ?_ fun _ => keeps_pure _
    refine Keeps.tryCatch ?_ fun exc => hexcept _ exc
    exact keeps_processEntity deps hK (fun _ _ h => h.clearEntity _)
      (fun _ _ h => h.entityAttempts _) (fun _ _ _ h => h.unparkEdge _) msg

theorem keeps_loop {K : Contract (iface Worker Service.Resp)}
    (hK : ∀ q, Respects K (fun _ s => Parking s) q) (deps : Deps) (cs : Consumers)
    (k : TaskKind) (l : (loop deps cs k).Local) (a : (loop deps cs k).Input) :
    Keeps K (fun _ s => Parking s) ((loop deps cs k).body l a) := by
  have hB := fun q (_ : HandsBack q) => hK q
  cases k with
  | entity =>
    exact keeps_deliver deps hB cs.entity (consumeEntity deps) fun msg _ =>
      keeps_consumeEntity_parking hK deps l msg
  | edge =>
    exact keeps_deliver deps hB cs.edge (consumeEdge deps) fun msg _ =>
      keeps_consumeEdge deps (fun q _ => hK q) (fun _ _ _ h => h.clearEdge _)
        (fun _ _ _ h => h.edgeAttempts _) (fun _ _ _ _ _ h => h.parkEdge _ _ _) l msg
  | merge =>
    exact keeps_deliver deps hB cs.merge (fun _ => consumeMerge deps) fun msg _ =>
      keeps_consumeMerge deps hK msg
  | unpark => exact keeps_unparkRound deps hK

/-! ### Every interleaving -/

/-- The outside of the worker: any message may arrive, any call may be answered in any way, and
time passes. -/
def anyWorld {ι : Type} (loops : ι → Loop (iface Worker Service.Resp)) : World loops where
  Out := Unit
  accepts _ _ s s' := s' = s
  answers _ _ s _ s' := s' = s
  drifts s s' := ∃ now, s.1.clock ≤ now ∧ s'.1 = { s.1 with clock := now }

theorem anyWorld_obligations (deps : Deps) (cs : Consumers) {ι : Type} (kind : ι → TaskKind) :
    Pool.Obligations (anyWorld fun i => loop deps cs (kind i)) Parking (fun _ => True)
      (fun _ _ => True) where
  body := by
    rintro i l a s o _ _ hs - ⟨⟩
    have hK : ∀ q, Respects (Pool.contract (anyWorld fun i => loop deps cs (kind i)) Parking
        (fun _ => True) (fun _ _ => True) i) (fun _ s => Parking s) q := by
      refine fun q => ⟨fun _ _ h => ⟨h, trivial⟩, ?_⟩
      rintro _ _ _ _ - ⟨_, _, _, h, -, ⟨⟩⟩
      exact h
    exact ⟨trivial, (keeps_loop hK deps cs (kind i) l a).run [] _ hs⟩
  answers _ _ _ _ _ _ _ _ _ _ _ := trivial
  drifts := by
    rintro s o s' o' hs - ⟨now, -, h⟩
    simp only at h
    rw [h]
    exact ⟨hs.clock now, trivial⟩

/-- **The parking lot**: in every reachable state, the edges with recorded ends are exactly the
parked edges, and neither lot holds more than `maxParkedItems` entries. -/
theorem parking_of_reachable (deps : Deps) (cs : Consumers) {ι : Type} [DecidableEq ι]
    (kind : ι → TaskKind) (sessionFactory : Bool)
    (p : Pool (anyWorld fun i => loop deps cs (kind i)))
    (hp : p.Reachable ({ sessionFactory := sessionFactory } : Worker) ()) :
    (∀ k, k ∈ p.state.edgeDeps.keys ↔ k ∈ p.state.parkedEdges.keys) ∧
      p.state.parkedEntities.size ≤ maxParkedItems ∧
      p.state.parkedEdges.size ≤ maxParkedItems := by
  have hinit : Parking { sessionFactory := sessionFactory } :=
    ⟨fun _ => Iff.rfl, Nat.zero_le _, Nat.zero_le _⟩
  obtain ⟨h, -⟩ := Pool.invariant_of_wp (anyWorld_obligations deps cs kind) hinit trivial hp
  exact ⟨h.mem_edgeDeps_iff, h.entities_le, h.edges_le⟩

/-- The lot after the edge task has taken up its first message. -/
theorem parking_of_first_message : let deps := Deps.sample
    let W := anyWorld fun k : TaskKind => loop deps (consumers deps) k
    let p := (Pool.start W ({ sessionFactory := true } : Worker) ()).put .edge
      (((loop deps (consumers deps) .edge).body {} lastDelivery).advance {}) ()
    p.calls.length = 1 ∧ p.state.parkedEdges.size ≤ maxParkedItems :=
  ⟨rfl, (parking_of_reachable Deps.sample (consumers Deps.sample) id true _
    (.single (.start rfl rfl))).2.2⟩

end Omniscience.Outbox
