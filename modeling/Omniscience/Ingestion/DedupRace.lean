import Omniscience.Ingestion.Dedup

/-!
# Two calls of the gate at once

`_evaluate_in_session` reads the row with `SELECT ... FOR UPDATE`, decides in Python, and executes
one statement.  The lock makes calls for one pair wait for each other once the row exists.  While it
does not exist there is nothing to lock: two first calls both find no row and both answer that they
have established the authority, although the guard of the second insertion leaves the row of the
first.

A `Race` is one call of the operator and one of the agentic connector for the same pair.
`Race.exclusive_iff` says which interleavings of their transactions, from no row, keep the answers
true and the operator's claim respected.
-/

namespace Omniscience.Dedup

open RowTxn

/-- The call comes to the table: it is not answered before, and its cutoff is a date. -/
def opensSession (cfg : DedupConfig) (call : Call) : Bool :=
  (cfg.agenticAllowed || call.event.sourceType != emitterAgentic) && cfg.enabled &&
    isK8sEmitter call.event.sourceType && (cutoff cfg call.now).isOk

/-- The transaction of a call of `evaluate`.  `FOR UPDATE` locks the row if there is one. -/
def transaction (cfg : DedupConfig) (call : Call) :
    Txn (Option EmitterRow) (Except Exc DedupDecision) where
  locks row := opensSession cfg call && row.isSome
  plan row :=
    let kind := parseKindFromExternalId call.event.externalId
    let sourceType := call.event.sourceType
    if !cfg.agenticAllowed && sourceType == emitterAgentic then
      (.ok ⟨.drop, .agenticFlagDisabled, emitterOperator, kind⟩, none)
    else if !cfg.enabled then (.ok ⟨.accept, .dedupDisabled, sourceType, kind⟩, none)
    else if !isK8sEmitter sourceType then
      (.ok ⟨.accept, .nonK8sBypass, sourceType, kind⟩, none)
    else
      match cutoff cfg call.now with
      | .error e => (.error e, none)
      | .ok limit =>
        let decided := plan sourceType kind call.now limit row
        (.ok decided.1, decided.2)

/-- The two callers. -/
inductive Side where
  | operator
  | agentic
  deriving DecidableEq, Repr

/-- One call of each emitter for the same pair. -/
structure Race where
  cfg : DedupConfig
  enabled : cfg.enabled = true
  call : Side → Call
  operator : (call .operator).event.sourceType = emitterOperator
  agentic : (call .agentic).event.sourceType = emitterAgentic
  key : (call .operator).key = (call .agentic).key

/-- The transactions of the two calls. -/
def Race.txn (race : Race) (side : Side) : Txn (Option EmitterRow) (Except Exc DedupDecision) :=
  transaction race.cfg (race.call side)

/-- The emitter of a side. -/
def Side.emitter : Side → String
  | .operator => emitterOperator
  | .agentic => emitterAgentic

/-- The log of two calls in which the gate has been exclusive. -/
structure Exclusive (log : List (Side × Except Exc DedupDecision × Option EmitterRow)) : Prop where
  /-- An accepting answer names the authority that is persisted after the transaction. -/
  authority : ∀ side d row, (side, .ok d, row) ∈ log → d.action = .accept →
    row.map EmitterRow.authorityEmitter = some d.authorityEmitter
  /-- The agentic connector is not accepted after the operator's claim has been committed. -/
  claim : ∀ before d row later, log = before ++ (.agentic, .ok d, row) :: later →
    (∃ result claimed, (Side.operator, result, some claimed) ∈ before ∧
      claimed.authorityEmitter = emitterOperator) → d.action ≠ .accept

/-- The call comes to the table (the gate is on). -/
def Race.Opens (race : Race) (side : Side) : Prop :=
  (side = .agentic → race.cfg.agenticAllowed = true) ∧
    race.cfg.Representable (race.call side).now

/-- The operator's claim has outlived the time to live when the agentic connector calls. -/
def Race.Expired (race : Race) : Prop :=
  ∃ seconds, race.cfg.ttlSeconds = some seconds ∧
    ((race.call .operator).now.val : ℤ) <
      (race.call .agentic).now.val - roundHalfEven (seconds * 1000000)

section Race

variable {race : Race} {side : Side} {events : List (Side × Action)}
  {db : Db Side (Option EmitterRow) (Except Exc DedupDecision)}

theorem Race.sourceType (race : Race) (side : Side) :
    (race.call side).event.sourceType = side.emitter := by
  cases side with
  | operator => exact race.operator
  | agentic => exact race.agentic

theorem isK8sEmitter_emitter (side : Side) : isK8sEmitter side.emitter = true := by
  cases side <;> decide

theorem Race.plan_of_opens (h : race.Opens side) (row : Option EmitterRow) :
    ∃ kind limit, cutoff race.cfg (race.call side).now = .ok limit ∧ (race.txn side).plan row =
      (.ok (plan side.emitter kind (race.call side).now limit row).1,
        (plan side.emitter kind (race.call side).now limit row).2) := by
  obtain ⟨hallowed, hrep⟩ := h
  obtain ⟨limit, hlimit⟩ := cutoff_ok_iff.2 hrep
  have hflag : (!race.cfg.agenticAllowed && side.emitter == emitterAgentic) = false := by
    cases side with
    | operator => simp [Side.emitter, operator_ne_agentic]
    | agentic => simp [hallowed rfl]
  refine ⟨parseKindFromExternalId (race.call side).event.externalId, limit, hlimit, ?_⟩
  simp only [Race.txn, transaction, race.sourceType, race.enabled, isK8sEmitter_emitter, hflag,
    hlimit, Bool.not_true, Bool.false_eq_true, ↓reduceIte]

theorem Race.plan_of_not_opens (h : ¬ race.Opens side) (row : Option EmitterRow) :
    ((race.txn side).plan row).2 = none ∧
      ∀ d, ((race.txn side).plan row).1 = .ok d → d.action = .drop := by
  simp only [Race.txn, transaction, race.sourceType, race.enabled, isK8sEmitter_emitter,
    Bool.not_true, Bool.false_eq_true, ↓reduceIte]
  split_ifs with hflag
  · exact ⟨rfl, fun d hd => Except.ok.inj hd ▸ rfl⟩
  · have hallowed : side = .agentic → race.cfg.agenticAllowed = true := by
      rintro rfl
      simpa [Side.emitter] using hflag
    cases hlimit : cutoff race.cfg (race.call side).now with
    | error e => simp
    | ok limit => exact absurd ⟨hallowed, cutoff_ok_iff.1 ⟨limit, hlimit⟩⟩ h

/-- The row that a first call of the side inserts. -/
def Race.own (race : Race) (side : Side) : EmitterRow :=
  ⟨side.emitter, (race.call side).now, none⟩

theorem Race.plan_none (h : race.Opens side) : ∃ kind, ((race.txn side).plan none).1 =
        .ok ⟨.accept, .firstAuthorityAssigned, side.emitter, kind⟩ ∧
      ((race.txn side).plan none).2 = some (insertFirst side.emitter (race.call side).now) := by
  obtain ⟨kind, limit, -, hplan⟩ := Race.plan_of_opens h none
  exact ⟨kind, by rw [hplan]; rfl, by rw [hplan]; rfl⟩

theorem emitter_ne {i j : Side} (h : i ≠ j) : i.emitter ≠ j.emitter := by
  cases i <;> cases j <;> first | exact absurd rfl h | decide

theorem Race.apply_none (h : race.Opens side) :
    apply ((race.txn side).plan none) none = some (race.own side) := by
  obtain ⟨kind, -, hstmt⟩ := Race.plan_none h
  simp [apply, hstmt, insertFirst, Race.own]

theorem Race.apply_none_crossed {i j : Side} (hij : i ≠ j) (h : race.Opens j) :
    apply ((race.txn j).plan none) (some (race.own i)) = some (race.own i) := by
  obtain ⟨kind, -, hstmt⟩ := Race.plan_none h
  simp [apply, hstmt, insertFirst, Race.own, emitter_ne hij]

theorem Race.plan_operator_second (h : race.Opens .operator) :
    (∃ d, ((race.txn .operator).plan (some (race.own .agentic))).1 = .ok d ∧
      d.authorityEmitter = emitterOperator) ∧
    ∃ r, apply ((race.txn .operator).plan (some (race.own .agentic)))
        (some (race.own .agentic)) = some r ∧ r.authorityEmitter = emitterOperator := by
  obtain ⟨kind, limit, -, hplan⟩ := Race.plan_of_opens h (some (race.own .agentic))
  rw [hplan]
  simp [plan, apply, takeover, Race.own, Side.emitter, operator_ne_agentic.symm]

theorem Race.expired_iff {limit : Option DateTime}
    (hlimit : cutoff race.cfg (race.call .agentic).now = .ok limit) :
    race.Expired ↔ ∃ moment, ttlExpired limit (race.own .operator) = some moment := by
  simp only [ttlExpired_eq_some_iff]
  obtain ⟨hnone, rfl⟩ | ⟨seconds, moment, hseconds, rfl, hmoment⟩ := cutoff_cases hlimit
  · simp [Race.Expired, hnone]
  · simp only [Race.Expired, hseconds, Option.some.injEq, exists_eq_left', ← hmoment, Race.own,
      Fin.lt_def, Nat.cast_lt]

theorem Race.plan_agentic_second (h : race.Opens .agentic) :
    (race.Expired ∧
      (∃ d, ((race.txn .agentic).plan (some (race.own .operator))).1 = .ok d ∧
        d.action = .accept ∧ d.authorityEmitter = emitterAgentic) ∧
      ∃ r, apply ((race.txn .agentic).plan (some (race.own .operator)))
        (some (race.own .operator)) = some r ∧ r.authorityEmitter = emitterAgentic) ∨
    (¬ race.Expired ∧ ∃ d, ((race.txn .agentic).plan (some (race.own .operator))).1 = .ok d ∧
      d.action = .drop) := by
  obtain ⟨kind, limit, hlimit, hplan⟩ := Race.plan_of_opens h (some (race.own .operator))
  have hauth : (race.own .operator).authorityEmitter = emitterOperator := rfl
  rw [hplan]
  cases hexpired : ttlExpired limit (race.own .operator) with
  | some moment =>
    left
    obtain ⟨-, hlt⟩ := ttlExpired_eq_some_iff.1 hexpired
    refine ⟨(Race.expired_iff hlimit).2 ⟨moment, hexpired⟩, ?_⟩
    simp [plan, apply, reassign, hauth, Side.emitter, operator_ne_agentic, hexpired, hlt]
  | none =>
    right
    refine ⟨by simp [Race.expired_iff hlimit, hexpired], ?_⟩
    simp [plan, hauth, Side.emitter, operator_ne_agentic, hexpired]

theorem exclusive_pair_iff {i j : Side} {r r' : Except Exc DedupDecision}
    {row row' : Option EmitterRow} :
    Exclusive [(i, r, row), (j, r', row')] ↔
      (∀ d, r = .ok d → d.action = .accept →
        row.map EmitterRow.authorityEmitter = some d.authorityEmitter) ∧
      (∀ d, r' = .ok d → d.action = .accept →
        row'.map EmitterRow.authorityEmitter = some d.authorityEmitter) ∧
      (i = .operator → j = .agentic → (∃ c, row = some c ∧ c.authorityEmitter = emitterOperator) →
        ∀ d, r' = .ok d → d.action ≠ .accept) := by
  constructor
  · intro h
    refine ⟨fun d hd => h.authority i d row (by simp [hd]),
      fun d hd => h.authority j d row' (by simp [hd]), ?_⟩
    rintro rfl rfl ⟨c, rfl, hc⟩ d rfl
    exact h.claim [_] d row' [] rfl ⟨r, c, by simp, hc⟩
  · rintro ⟨hfirst, hsecond, hclaim⟩
    refine ⟨fun side d row₀ hmem haccept => ?_, fun before d row₀ later heq hbefore => ?_⟩
    · simp only [List.mem_cons, Prod.mk.injEq, List.not_mem_nil, or_false] at hmem
      obtain ⟨-, hd, rfl⟩ | ⟨-, hd, rfl⟩ := hmem
      · exact hfirst d hd.symm haccept
      · exact hsecond d hd.symm haccept
    · obtain ⟨result, c, hmem, hc⟩ := hbefore
      match before with
      | [] => simp at hmem
      | [x] =>
        simp only [List.singleton_append, List.cons.injEq, Prod.mk.injEq] at heq
        obtain ⟨rfl, ⟨rfl, hd, -⟩, -⟩ := heq
        simp only [List.mem_singleton, Prod.mk.injEq] at hmem
        exact hclaim hmem.1.symm rfl ⟨c, hmem.2.2.symm, hc⟩ d hd
      | x :: y :: before => simp at heq

theorem Race.log_cases (h : Run race.txn none events db) (hcomplete : db.Complete) :
    (Serial events ∧ ends events = [.operator, .agentic] ∧
      db.log = trace race.txn none [.operator, .agentic]) ∨
    (Serial events ∧ ends events = [.agentic, .operator] ∧
      db.log = trace race.txn none [.agentic, .operator]) ∨
    (¬ Serial events ∧ (db.log = crossed race.txn none .operator .agentic ∨
      db.log = crossed race.txn none .agentic .operator)) := by
  by_cases hs : Serial events
  · obtain ⟨order, horder⟩ := h.serial hs
    have hends : order = ends events := by
      rw [← h.map_fst_log, horder.log, map_fst_trace]
    have hmem (side : Side) : side ∈ order := by
      rw [hends, mem_ends_iff]
      exact h.hasReturned_iff.1 (hcomplete side)
    have hnodup : order.Nodup := hends ▸ h.nodup_ends
    have hperm : order.Perm [.operator, .agentic] := by
      refine (List.perm_ext_iff_of_nodup hnodup (by decide)).2 fun side => ?_
      cases side <;> simp [hmem]
    obtain ⟨a, b, rfl⟩ := List.length_eq_two.1 hperm.length_eq
    rw [← hends]
    cases a <;> cases b
    · simp at hnodup
    · exact .inl ⟨hs, rfl, horder.log⟩
    · exact .inr (.inl ⟨hs, rfl, horder.log⟩)
    · simp at hnodup
  · have hcover : ∀ side, side = Side.operator ∨ side = Side.agentic := by
      intro side
      cases side <;> simp
    exact .inr (.inr ⟨hs, h.pair (by decide) hcover hcomplete hs⟩)

theorem Race.not_exclusive_crossed {i j : Side} (hij : i ≠ j) (hi : race.Opens i)
    (hj : race.Opens j) : ¬ Exclusive (crossed race.txn none i j) := by
  obtain ⟨kind, hresult, -⟩ := Race.plan_none hj
  simp only [crossed, Race.apply_none hi, Race.apply_none_crossed hij hj, exclusive_pair_iff]
  rintro ⟨-, hauthority, -⟩
  have := hauthority _ hresult rfl
  exact emitter_ne hij (by simpa [Race.own] using this)

theorem Race.authority_none (side : Side) {d : DedupDecision}
    (hd : ((race.txn side).plan none).1 = .ok d) (haccept : d.action = .accept) :
    (apply ((race.txn side).plan none) none).map EmitterRow.authorityEmitter =
      some d.authorityEmitter := by
  by_cases h : race.Opens side
  · obtain ⟨kind, hresult, -⟩ := Race.plan_none h
    rw [hresult] at hd
    cases hd
    rw [Race.apply_none h]
    rfl
  · rw [(Race.plan_of_not_opens h none).2 d hd] at haccept
    cases haccept

theorem Race.exclusive_of_alone {i j : Side} (h : ¬ race.Opens i ∨ ¬ race.Opens j) :
    Exclusive (trace race.txn none [i, j]) ∧ Exclusive (crossed race.txn none i j) := by
  simp only [trace, crossed, exclusive_pair_iff]
  by_cases hi : race.Opens i
  · -- the second call does not come to the table
    have hj := h.resolve_left (not_not_intro hi)
    have hdrop (row : Option EmitterRow) (d : DedupDecision)
        (hd : ((race.txn j).plan row).1 = .ok d) : d.action ≠ .accept := by
      rw [(Race.plan_of_not_opens hj row).2 d hd]
      decide
    exact ⟨⟨fun d hd => Race.authority_none i hd,
        fun d hd haccept => absurd haccept (hdrop _ d hd), fun _ _ _ d hd => hdrop _ d hd⟩,
      fun d hd => Race.authority_none i hd,
        fun d hd haccept => absurd haccept (hdrop _ d hd), fun _ _ _ d hd => hdrop _ d hd⟩
  · have hrow : apply ((race.txn i).plan none) none = none := by
      simp [apply, (Race.plan_of_not_opens hi none).1]
    rw [hrow]
    have hfirst (d : DedupDecision) (hd : ((race.txn i).plan none).1 = .ok d)
        (haccept : d.action = .accept) :
        (none : Option EmitterRow).map EmitterRow.authorityEmitter = some d.authorityEmitter :=
      hrow ▸ Race.authority_none i hd haccept
    exact ⟨⟨hfirst, fun d hd => Race.authority_none j hd, by simp⟩,
      hfirst, fun d hd => Race.authority_none j hd, by simp⟩

theorem Race.exclusive_agentic_first (hop : race.Opens .operator) (hag : race.Opens .agentic) :
    Exclusive (trace race.txn none [.agentic, .operator]) := by
  obtain ⟨⟨d, hd, hauth⟩, r, hr, hrauth⟩ := Race.plan_operator_second hop
  simp only [trace, exclusive_pair_iff, Race.apply_none hag, hd, hr]
  refine ⟨fun d hd haccept => ?_, ?_, by simp⟩
  · rw [← Race.apply_none hag]
    exact Race.authority_none .agentic hd haccept
  · intro d' hd' _
    cases hd'
    simp [hrauth, hauth]

theorem Race.exclusive_operator_first_iff (hop : race.Opens .operator) (hag : race.Opens .agentic) :
    Exclusive (trace race.txn none [.operator, .agentic]) ↔ ¬ race.Expired := by
  simp only [trace, Race.apply_none hop]
  rw [exclusive_pair_iff]
  have hfirst (d : DedupDecision) (hd : ((race.txn .operator).plan none).1 = .ok d)
      (haccept : d.action = .accept) :
      (some (race.own .operator)).map EmitterRow.authorityEmitter = some d.authorityEmitter := by
    rw [← Race.apply_none hop]
    exact Race.authority_none .operator hd haccept
  obtain ⟨hexpired, ⟨d, hd, haccept, -⟩, -⟩ | ⟨hexpired, d, hd, hdrop⟩ :=
    Race.plan_agentic_second hag
  · refine iff_of_false ?_ (not_not_intro hexpired)
    rintro ⟨-, -, hclaim⟩
    exact hclaim rfl rfl ⟨_, rfl, rfl⟩ d hd haccept
  · refine iff_of_true ⟨hfirst, ?_, ?_⟩ hexpired
    · intro d' hd' haccept
      rw [hd] at hd'
      cases hd'
      rw [hdrop] at haccept
      cases haccept
    · intro _ _ _ d' hd'
      rw [hd] at hd'
      cases hd'
      rw [hdrop]
      decide

/-- The interleavings of an operator call and an agentic call from no row under which the gate is
exclusive: one of the calls does not come to the table, or they run one after the other and the
agentic call does not come after the operator's claim has expired. -/
theorem Race.exclusive_iff (h : Run race.txn none events db) (hcomplete : db.Complete) :
    Exclusive db.log ↔ (¬ race.Opens .operator ∨ ¬ race.Opens .agentic) ∨
      (Serial events ∧ (ends events = [.operator, .agentic] → ¬ race.Expired)) := by
  by_cases hopens : race.Opens .operator ∧ race.Opens .agentic
  · obtain ⟨hop, hag⟩ := hopens
    simp only [hop, hag, not_true_eq_false, or_self, false_or]
    obtain ⟨hs, hends, hlog⟩ | ⟨hs, hends, hlog⟩ | ⟨hs, hlog⟩ := Race.log_cases h hcomplete
    · rw [hlog, Race.exclusive_operator_first_iff hop hag]
      simp [hs, hends]
    · rw [hlog]
      simp [hs, hends, Race.exclusive_agentic_first hop hag]
    · simp only [hs, false_and, iff_false]
      obtain hlog | hlog := hlog
      · rw [hlog]
        exact Race.not_exclusive_crossed (by decide) hop hag
      · rw [hlog]
        exact Race.not_exclusive_crossed (by decide) hag hop
  · have halone := not_and_or.1 hopens
    refine iff_of_true ?_ (.inl halone)
    obtain ⟨-, -, hlog⟩ | ⟨-, -, hlog⟩ | ⟨-, hlog | hlog⟩ := Race.log_cases h hcomplete
    · exact hlog ▸ (Race.exclusive_of_alone halone).1
    · exact hlog ▸ (Race.exclusive_of_alone halone.symm).1
    · exact hlog ▸ (Race.exclusive_of_alone halone).2
    · exact hlog ▸ (Race.exclusive_of_alone halone.symm).2

/-- One event of each emitter for one pod at the same moment; the operator's authority is
sticky. -/
def podRace : Race where
  cfg := ⟨true, none, true⟩
  enabled := rfl
  call side := ⟨7, podEvent side.emitter, newYear⟩
  operator := rfl
  agentic := rfl
  key := rfl

/-- Both calls look for the row before either inserts it. -/
def bothLook : List (Side × Action) :=
  [(.operator, .read), (.agentic, .read), (.operator, .write), (.operator, .finish),
    (.agentic, .write), (.agentic, .finish)]

/-- The agentic call comes after the operator's. -/
def operatorThenAgentic : List (Side × Action) :=
  [(.operator, .read), (.operator, .write), (.operator, .finish), (.agentic, .read),
    (.agentic, .finish)]

/-- When both calls look for the row before either inserts it, the agentic event is accepted after
the operator's claim has been committed, and with an authority that is not the persisted one. -/
theorem both_accepted :
    ∃ db, Run podRace.txn none bothLook db ∧ db.Complete ∧ ¬ Exclusive db.log := by
  have hrun : Run podRace.txn none bothLook _ := Run.of_foldlM _ rfl
  refine ⟨_, hrun, ?_, ?_⟩
  · intro side
    cases side <;> exact ⟨_, rfl⟩
  · intro h
    have := h.authority .agentic _ _ (.tail _ (.head _)) rfl
    exact absurd this (by decide)

/-- One after the other, the agentic event is dropped. -/
theorem exclusive_in_turn : ∃ db, Run podRace.txn none operatorThenAgentic db ∧ db.Complete ∧
      (Exclusive db.log ↔ (¬ podRace.Opens .operator ∨ ¬ podRace.Opens .agentic) ∨
        (Serial operatorThenAgentic ∧
          (ends operatorThenAgentic = [.operator, .agentic] → ¬ podRace.Expired))) := by
  have hrun : Run podRace.txn none operatorThenAgentic _ := Run.of_foldlM _ rfl
  refine ⟨_, hrun, ?_, Race.exclusive_iff hrun ?_⟩
  all_goals
    intro side
    cases side <;> exact ⟨_, rfl⟩

end Race

end Omniscience.Dedup
