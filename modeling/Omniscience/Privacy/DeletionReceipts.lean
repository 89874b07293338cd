import Omniscience.Lib.Dict
import Omniscience.Lib.JsonText

/-!
# What a deletion receipt binds

`build_deletion_receipt` derives the disposition of a deletion from the states of the stores and
signs the evidence with a digest.  The payload of the digest, the record and the published dictionary
list the fields separately.

* `Honest` : the disposition and the two lists of stores are what the states say.
* `Bound` : receipts with one digest agree on everything else that is published.
* `deletion_receipts_bound_iff` : every receipt is honest; two of them are bound unless they are
  about the same evidence and differ in the workspace or in the subject, which are published but
  not digested.
-/

namespace Omniscience.Privacy

namespace Lifecycle

open JsonText List

/-- `TERMINAL_COMPLETE_DISPOSITIONS`. -/
def terminalCompleteDispositions : List String := ["complete", "excluded"]

/-- `BLOCKING_DISPOSITION_SEVERITY`. -/
def blockingDispositionSeverity : List String :=
  ["unavailable", "failed", "backup_pending", "immutable_retention", "pending"]

/-- `state[key]`. -/
def item (state : Dict String String) (key : String) : Except Exc String :=
  match state.get? key with
  | some value => .ok value
  | none => .error ⟨.keyError, "'" ++ key ++ "'"⟩

/-- `aggregate_lifecycle`. -/
def aggregateLifecycle (storeStates : List (Dict String String)) : Except Exc String :=
  if storeStates.isEmpty then .ok "unavailable"
  else do
    let dispositions ← storeStates.mapM (item · "disposition")
    let allTerminal := dispositions.all (· ∈ terminalCompleteDispositions)
    if allTerminal && "complete" ∈ dispositions then return "complete"
    return (blockingDispositionSeverity.find? (· ∈ dispositions)).getD "unavailable"

/-- `state["store"] for state in store_states if test(state["disposition"])`. -/
def storesWhere (test : String → Bool) : List (Dict String String) → Except Exc (List String)
  | [] => .ok []
  | state :: rest => do
    let disposition ← item state "disposition"
    if test disposition then
      let store ← item state "store"
      let stores ← storesWhere test rest
      return store :: stores
    else storesWhere test rest

/-- The arguments of `build_deletion_receipt`. -/
structure Request where
  requestId : String
  tenantId : String
  policyRevision : String
  storeClass : String
  storeStates : List (Dict String String)
  producedAt : String
  producer : String
  workspaceId : Option String
  subjectRef : Option String

/-- `DeletionReceipt`. -/
structure DeletionReceipt where
  requestId : String
  tenantId : String
  policyRevision : String
  storeClass : String
  coveredArtifacts : List String
  excludedOrPending : List String
  disposition : String
  storeStates : List (Dict String String)
  producedAt : String
  producer : String
  integrity : Dict String String
  workspaceId : Option String
  subjectRef : Option String

/-- A dictionary of texts. -/
def textDict (d : Dict String String) : Json := .obj (d.items.map fun m => (m.1, .str m.2))

/-- A list of texts. -/
def texts (l : List String) : Json := .arr (l.map .str)

/-- A member that is left out when there is no value. -/
def optional (key : String) (value : Option String) : Metadata :=
  (value.map fun v => (key, .str v)).toList

/-- `DeletionReceipt.to_schema_dict`. -/
def DeletionReceipt.toSchemaDict (r : DeletionReceipt) : Metadata :=
  [("request_id", .str r.requestId), ("tenant_id", .str r.tenantId),
    ("policy_revision", .str r.policyRevision), ("store_class", .str r.storeClass),
    ("covered_artifacts", texts r.coveredArtifacts),
    ("excluded_or_pending", texts r.excludedOrPending), ("disposition", .str r.disposition),
    ("store_states", .arr (r.storeStates.map textDict)), ("produced_at", .str r.producedAt),
    ("producer", .str r.producer), ("integrity", textDict r.integrity)] ++
  optional "workspace_id" r.workspaceId ++ optional "subject_ref" r.subjectRef

/-- `compute_integrity`. -/
def computeIntegrity (py : Py) (payload : Metadata) : Dict String String :=
  .ofList [("algorithm", "sha256"), ("digest", py.sha256 (py.dumpsSorted (.obj payload)))]

/-- `base_payload`. -/
def basePayload (q : Request) (disposition : String) (covered pending : List String) : Metadata :=
  [("request_id", .str q.requestId), ("tenant_id", .str q.tenantId),
    ("policy_revision", .str q.policyRevision), ("store_class", .str q.storeClass),
    ("covered_artifacts", texts covered), ("excluded_or_pending", texts pending),
    ("disposition", .str disposition), ("store_states", .arr (q.storeStates.map textDict)),
    ("produced_at", .str q.producedAt), ("producer", .str q.producer)]

/-- The receipt before it is validated. -/
def receipt (py : Py) (q : Request) (disposition : String) (covered pending : List String) :
    DeletionReceipt where
  requestId := q.requestId
  tenantId := q.tenantId
  policyRevision := q.policyRevision
  storeClass := q.storeClass
  coveredArtifacts := covered
  excludedOrPending := pending
  disposition := disposition
  storeStates := q.storeStates
  producedAt := q.producedAt
  producer := q.producer
  integrity := computeIntegrity py (basePayload q disposition covered pending)
  workspaceId := q.workspaceId
  subjectRef := q.subjectRef

section

variable (py : Py) (validateAgainstSchema : Metadata → List String)

/-- `build_deletion_receipt`. -/
def buildDeletionReceipt (q : Request) : Except Exc DeletionReceipt := do
  let disposition ← aggregateLifecycle q.storeStates
  let covered ← storesWhere (· ∈ terminalCompleteDispositions) q.storeStates
  let pending ← storesWhere (· ∉ terminalCompleteDispositions) q.storeStates
  let r := receipt py q disposition covered pending
  let errors := validateAgainstSchema r.toSchemaDict
  if errors ≠ [] then .error ⟨.valueError, "; ".intercalate errors⟩
  else .ok r

/-! ### Honest and bound receipts -/

/-- The state is complete or excluded. -/
def isTerminal (state : Dict String String) : Bool :=
  (state.get? "disposition").any (· ∈ terminalCompleteDispositions)

/-- **Honesty**: complete exactly when every store is complete or excluded and one is complete; the
stores are listed as covered or as pending by their states. -/
structure Honest (states : List (Dict String String)) (r : DeletionReceipt) : Prop where
  disposition : r.disposition = "complete" ↔ (∀ s ∈ states, isTerminal s = true) ∧
    ∃ s ∈ states, s.get? "disposition" = some "complete"
  covered : r.coveredArtifacts.map some = (states.filter isTerminal).map (·.get? "store")
  pending : r.excludedOrPending.map some = (states.filter (!isTerminal ·)).map (·.get? "store")

/-- **Binding**: receipts with one digest have equal values in every other published field. -/
def Bound (r r' : DeletionReceipt) : Prop :=
  r.integrity.get? "digest" = r'.integrity.get? "digest" → ∀ key, key ≠ "integrity" →
    (r.toSchemaDict.lookup key).map sorted = (r'.toSchemaDict.lookup key).map sorted

/-- The requests give the same evidence; their states are equal as dictionaries. -/
structure SameEvidence (q q' : Request) : Prop where
  requestId : q.requestId = q'.requestId
  tenantId : q.tenantId = q'.tenantId
  policyRevision : q.policyRevision = q'.policyRevision
  storeClass : q.storeClass = q'.storeClass
  storeStates : sorted (.arr (q.storeStates.map textDict)) =
    sorted (.arr (q'.storeStates.map textDict))
  producedAt : q.producedAt = q'.producedAt
  producer : q.producer = q'.producer

/-- The digest of the canonical text has no collisions: it is that of the value, up to the order of
members. -/
def CollisionFree : Prop :=
  ∀ v w, AllFloats IsFloatText v → AllFloats IsFloatText w →
    (py.sha256 (py.dumpsSorted v) = py.sha256 (py.dumpsSorted w) ↔ sorted v = sorted w)

end

variable {py : Py} {validate : Metadata → List String} {q q' : Request} {r r' : DeletionReceipt}

/-! ### Honesty -/

theorem item_eq_ok_iff {s : Dict String String} {key v : String} :
    item s key = .ok v ↔ s.get? key = some v := by
  rw [item]
  cases s.get? key <;> simp

theorem mapM_item {states : List (Dict String String)} {key : String} {vs : List String}
    (h : states.mapM (item · key) = .ok vs) : states.map (·.get? key) = vs.map some := by
  induction states generalizing vs with
  | nil =>
    cases h
    rfl
  | cons s states ih =>
    rw [mapM_cons] at h
    obtain ⟨v, hv, h⟩ := bind_eq_ok_iff.1 h
    obtain ⟨vs', hvs', h⟩ := bind_eq_ok_iff.1 h
    cases h
    rw [map_cons, map_cons, item_eq_ok_iff.1 hv, ih hvs']

theorem storesWhere_spec {test : String → Bool} {p : Dict String String → Bool}
    (hp : ∀ s d, s.get? "disposition" = some d → p s = test d)
    {states : List (Dict String String)} {stores : List String}
    (h : storesWhere test states = .ok stores) :
    stores.map some = (states.filter p).map (·.get? "store") := by
  induction states generalizing stores with
  | nil =>
    cases h
    rfl
  | cons s states ih =>
    rw [storesWhere] at h
    obtain ⟨d, hd, h⟩ := bind_eq_ok_iff.1 h
    rw [filter_cons, hp s d (item_eq_ok_iff.1 hd)]
    split_ifs at h ⊢ with htest
    · obtain ⟨store, hstore, h⟩ := bind_eq_ok_iff.1 h
      obtain ⟨rest, hrest, h⟩ := bind_eq_ok_iff.1 h
      cases h
      rw [map_cons, map_cons, ih hrest, item_eq_ok_iff.1 hstore]
    · exact ih h

theorem aggregateLifecycle_complete {states : List (Dict String String)} {disposition : String}
    (h : aggregateLifecycle states = .ok disposition) :
    disposition = "complete" ↔ (∀ s ∈ states, isTerminal s = true) ∧
      ∃ s ∈ states, s.get? "disposition" = some "complete" := by
  rw [aggregateLifecycle] at h
  split_ifs at h with hnil
  · cases h
    simp [isEmpty_iff.1 hnil]
  obtain ⟨ds, hds, h⟩ := bind_eq_ok_iff.1 h
  have hmap := mapM_item hds
  have hmem (d : String) : d ∈ ds ↔ ∃ s ∈ states, s.get? "disposition" = some d := by
    rw [← mem_map, hmap]
    simp
  have hall : (ds.all (· ∈ terminalCompleteDispositions)) = true ↔
      ∀ s ∈ states, isTerminal s = true := by
    rw [all_eq_true]
    constructor
    · intro hds s hs
      have hs' := mem_map_of_mem (f := (·.get? "disposition")) hs
      rw [hmap] at hs'
      obtain ⟨d, hd, hget⟩ := mem_map.1 hs'
      rw [isTerminal, ← hget]
      exact hds d hd
    · intro hstates d hd
      obtain ⟨s, hs, hget⟩ := (hmem d).1 hd
      have := hstates s hs
      rwa [isTerminal, hget] at this
  dsimp only at h
  rw [← hall, ← hmem]
  split_ifs at h with hcomplete
  · cases h
    simpa using hcomplete
  · cases h
    -- No severity that blocks is called complete.
    refine iff_of_false (fun hfound => ?_) (by simpa using hcomplete)
    cases hfind : blockingDispositionSeverity.find? (· ∈ ds) with
    | none =>
      rw [hfind] at hfound
      exact absurd hfound (by decide)
    | some d =>
      rw [hfind] at hfound
      obtain rfl : d = "complete" := hfound
      exact absurd (List.mem_of_find?_eq_some hfind) (by decide)

/-- The payload that is digested for a receipt. -/
def payload (q : Request) (r : DeletionReceipt) : Metadata :=
  basePayload q r.disposition r.coveredArtifacts r.excludedOrPending

theorem buildDeletionReceipt_eq_ok (h : buildDeletionReceipt py validate q = .ok r) :
    aggregateLifecycle q.storeStates = .ok r.disposition ∧
      storesWhere (· ∈ terminalCompleteDispositions) q.storeStates = .ok r.coveredArtifacts ∧
      storesWhere (· ∉ terminalCompleteDispositions) q.storeStates = .ok r.excludedOrPending ∧
      r = receipt py q r.disposition r.coveredArtifacts r.excludedOrPending := by
  obtain ⟨disposition, hdisposition, h⟩ := bind_eq_ok_iff.1 h
  obtain ⟨covered, hcovered, h⟩ := bind_eq_ok_iff.1 h
  obtain ⟨pending, hpending, h⟩ := bind_eq_ok_iff.1 h
  dsimp only at h
  split_ifs at h
  cases h
  exact ⟨hdisposition, hcovered, hpending, rfl⟩

theorem honest_of_build (h : buildDeletionReceipt py validate q = .ok r) :
    Honest q.storeStates r := by
  obtain ⟨hdisposition, hcovered, hpending, -⟩ := buildDeletionReceipt_eq_ok h
  exact ⟨aggregateLifecycle_complete hdisposition,
    storesWhere_spec (fun s d hd => by simp [isTerminal, hd]) hcovered,
    storesWhere_spec (fun s d hd => by simp [isTerminal, hd]) hpending⟩

/-! ### Binding -/

theorem sorted_str_inj {s t : String} (h : sorted (.str s) = sorted (.str t)) : s = t :=
  Json.str.inj h

theorem get?_of_sorted {s s' : Dict String String}
    (h : sorted (textDict s) = sorted (textDict s')) (key : String) : s.get? key = s'.get? key := by
  have hlookup (d : Dict String String) :
      (sortedMembers (d.items.map fun m => (m.1, .str m.2))).lookup key =
        (d.get? key).map fun v => sorted (.str v) := by
    rw [lookup_sortedMembers, Dict.lookup_map_snd fun _ => Json.str, Option.map_map]
    rfl
  have hmembers := Json.obj.inj h
  refine Option.map_injective (fun _ _ => sorted_str_inj) ?_
  rw [← hlookup, hmembers, hlookup]

theorem allFloats_textDict {P : String → Prop} (d : Dict String String) :
    AllFloats P (textDict d) := by
  rw [textDict, AllFloats]
  induction d.items with
  | nil => trivial
  | cons m l ih => exact ⟨trivial, ih⟩

theorem computed_congr {states states' : List (Dict String String)}
    (h : sorted (.arr (states.map textDict)) = sorted (.arr (states'.map textDict))) :
    aggregateLifecycle states = aggregateLifecycle states' ∧
      ∀ test, storesWhere test states = storesWhere test states' := by
  have hmap := sorted_items h
  rw [map_map, map_map] at hmap
  have hall : List.Forall₂ (fun s s' : Dict String String => ∀ key, item s key = item s' key)
      states states' := by
    rw [← forall₂_eq_eq_eq, forall₂_map_left_iff, forall₂_map_right_iff] at hmap
    refine hmap.imp fun s s' hs key => ?_
    rw [item, item, get?_of_sorted hs]
  clear h hmap
  have hmapM : states.mapM (item · "disposition") = states'.mapM (item · "disposition") := by
    induction hall with
    | nil => rfl
    | cons hs _ ih => rw [mapM_cons, mapM_cons, hs, ih]
  constructor
  · rw [aggregateLifecycle, aggregateLifecycle, hmapM]
    cases hall <;> rfl
  · intro test
    clear hmapM
    induction hall with
    | nil => rfl
    | cons hs _ ih => simp only [storesWhere, hs, ih]

theorem payload_eq_iff (h : buildDeletionReceipt py validate q = .ok r)
    (h' : buildDeletionReceipt py validate q' = .ok r') :
    sorted (.obj (payload q r)) = sorted (.obj (payload q' r')) ↔ SameEvidence q q' := by
  constructor
  · intro hsorted
    have htext {k s t : String} (hs : (payload q r).lookup k = some (.str s))
        (ht : (payload q' r').lookup k = some (.str t)) : s = t :=
      sorted_str_inj (sorted_member hsorted hs ht)
    exact ⟨htext (k := "request_id") rfl rfl, htext (k := "tenant_id") rfl rfl,
      htext (k := "policy_revision") rfl rfl, htext (k := "store_class") rfl rfl,
      sorted_member hsorted (k := "store_states") rfl rfl,
      htext (k := "produced_at") rfl rfl, htext (k := "producer") rfl rfl⟩
  · intro hsame
    obtain ⟨hdisposition, hcovered, hpending, -⟩ := buildDeletionReceipt_eq_ok h
    obtain ⟨hdisposition', hcovered', hpending', -⟩ := buildDeletionReceipt_eq_ok h'
    obtain ⟨haggregate, hstores⟩ := computed_congr hsame.storeStates
    have hd := Except.ok.inj (hdisposition.symm.trans (haggregate.trans hdisposition'))
    have hc := Except.ok.inj (hcovered.symm.trans ((hstores _).trans hcovered'))
    have hp := Except.ok.inj (hpending.symm.trans ((hstores _).trans hpending'))
    simp only [payload, basePayload, sorted.eq_2, sortedMembers, hsame.requestId, hsame.tenantId,
      hsame.policyRevision, hsame.storeClass, hsame.storeStates, hsame.producedAt,
      hsame.producer, hd, hc, hp]

theorem digest_eq_iff (hfree : CollisionFree py) (h : buildDeletionReceipt py validate q = .ok r)
    (h' : buildDeletionReceipt py validate q' = .ok r') :
    r.integrity.get? "digest" = r'.integrity.get? "digest" ↔ SameEvidence q q' := by
  have hfloats (q : Request) (r : DeletionReceipt) :
      AllFloats IsFloatText (.obj (payload q r)) := by
    have htexts (l : List String) : AllFloats IsFloatText (texts l) :=
      allFloatsItems_of_forall fun v hv => by
        obtain ⟨s, -, rfl⟩ := mem_map.1 hv
        trivial
    have hstates : AllFloats IsFloatText (.arr (q.storeStates.map textDict)) :=
      allFloatsItems_of_forall fun v hv => by
        obtain ⟨s, -, rfl⟩ := mem_map.1 hv
        exact allFloats_textDict s
    exact ⟨trivial, trivial, trivial, trivial, htexts _, htexts _, trivial, hstates, trivial,
      trivial, trivial⟩
  have hdigest {q : Request} {r : DeletionReceipt}
      (h : buildDeletionReceipt py validate q = .ok r) : r.integrity.get? "digest" =
        some (py.sha256 (py.dumpsSorted (.obj (payload q r)))) := by
    rw [(buildDeletionReceipt_eq_ok h).2.2.2, receipt, computeIntegrity, Dict.get?_ofList]
    rfl
  rw [hdigest h, hdigest h', Option.some.injEq, hfree _ _ (hfloats ..) (hfloats ..),
    payload_eq_iff h h']

/-- The members that are published but not digested. -/
def undigested (q : Request) : Metadata :=
  optional "workspace_id" q.workspaceId ++ optional "subject_ref" q.subjectRef

theorem lookup_undigested (q : Request) :
    (undigested q).lookup "workspace_id" = q.workspaceId.map .str ∧
      (undigested q).lookup "subject_ref" = q.subjectRef.map .str := by
  rw [undigested]
  cases q.workspaceId <;> cases q.subjectRef <;> exact ⟨rfl, rfl⟩

theorem lookup_toSchemaDict (h : buildDeletionReceipt py validate q = .ok r) {key : String}
    (hkey : key ≠ "integrity") :
    r.toSchemaDict.lookup key =
      ((payload q r).lookup key).or ((undigested q).lookup key) := by
  have hsplit : r.toSchemaDict =
      payload q r ++ ("integrity", textDict r.integrity) :: undigested q := by
    rw [(buildDeletionReceipt_eq_ok h).2.2.2]
    simp [DeletionReceipt.toSchemaDict, receipt, payload, basePayload, undigested]
  rw [hsplit, lookup_append, Dict.lookup_cons_ne _ hkey]

theorem bound_iff (hfree : CollisionFree py) (h : buildDeletionReceipt py validate q = .ok r)
    (h' : buildDeletionReceipt py validate q' = .ok r') :
    Bound r r' ↔ (SameEvidence q q' → q.workspaceId = q'.workspaceId ∧
      q.subjectRef = q'.subjectRef) := by
  rw [Bound, digest_eq_iff hfree h h']
  refine imp_congr_right fun hsame => ⟨fun hall => ?_, ?_⟩
  · have hstr : Function.Injective (Option.map (sorted ∘ Json.str)) :=
      Option.map_injective fun _ _ => sorted_str_inj
    have hextra (key : String) (hkey : key ≠ "integrity")
        (hnone : (payload q r).lookup key = none) (hnone' : (payload q' r').lookup key = none) :
        ((undigested q).lookup key).map sorted = ((undigested q').lookup key).map sorted := by
      have hlookup := hall key hkey
      rwa [lookup_toSchemaDict h hkey, lookup_toSchemaDict h' hkey, hnone, hnone', Option.none_or,
        Option.none_or] at hlookup
    have hws := hextra "workspace_id" (by decide) rfl rfl
    have hsubject := hextra "subject_ref" (by decide) rfl rfl
    rw [(lookup_undigested q).1, (lookup_undigested q').1, Option.map_map, Option.map_map] at hws
    rw [(lookup_undigested q).2, (lookup_undigested q').2, Option.map_map, Option.map_map]
      at hsubject
    exact ⟨hstr hws, hstr hsubject⟩
  · rintro ⟨hws, hsubject⟩ key hkey
    have hsorted := Json.obj.inj ((payload_eq_iff h h').2 hsame)
    rw [lookup_toSchemaDict h hkey, lookup_toSchemaDict h' hkey, Option.map_or, Option.map_or,
      ← lookup_sortedMembers, hsorted, lookup_sortedMembers, undigested, hws, hsubject, undigested]

/-- **Deletion receipts.**  Every receipt is honest.  Two receipts are bound unless they are about
the same evidence and differ in the workspace or in the subject. -/
theorem deletion_receipts_bound_iff (validate : Metadata → List String) (hfree : CollisionFree py) :
    (∀ q r, buildDeletionReceipt py validate q = .ok r → Honest q.storeStates r) ∧
    ∀ q q' r r', buildDeletionReceipt py validate q = .ok r →
      buildDeletionReceipt py validate q' = .ok r' →
      (Bound r r' ↔ (SameEvidence q q' → q.workspaceId = q'.workspaceId ∧
        q.subjectRef = q'.subjectRef)) :=
  ⟨fun _ _ h => honest_of_build h, fun _ _ _ _ h h' => bound_iff hfree h h'⟩

/-! ### Two subjects -/

/-- A runtime with the canonical text, which is its own digest. -/
def plainPy : Py := { Py.sample with dumpsSorted := dumps }

/-- A deletion in one store for a subject. -/
def subjectRequest (subjectRef : String) : Request where
  requestId := "req-1"
  tenantId := "tenant-1"
  policyRevision := "1"
  storeClass := "vector"
  storeStates := [.ofList [("store", "qdrant"), ("disposition", "complete")]]
  producedAt := "2026-01-01T00:00:00Z"
  producer := "omniscience"
  workspaceId := none
  subjectRef := some subjectRef

/-- The receipt of that deletion. -/
def subjectReceipt (subjectRef : String) : DeletionReceipt :=
  receipt plainPy (subjectRequest subjectRef) "complete" ["qdrant"] []

theorem build_subjectRequest (subjectRef : String) :
    buildDeletionReceipt plainPy (fun _ => []) (subjectRequest subjectRef) =
      .ok (subjectReceipt subjectRef) :=
  rfl

/-- The receipt for one subject has the digest of the receipt for another. -/
theorem subject_not_bound : ¬ ∀ q q' r r', buildDeletionReceipt plainPy (fun _ => []) q = .ok r →
      buildDeletionReceipt plainPy (fun _ => []) q' = .ok r' → Bound r r' := by
  intro h
  have hbound := h _ _ _ _ (build_subjectRequest "subject:a") (build_subjectRequest "subject:b")
    rfl "subject_ref" (by decide)
  exact absurd (sorted_str_inj (Option.some.inj hbound)) (by decide)

theorem deletion_receipts_bound_iff_plain :
    Honest (subjectRequest "subject:a").storeStates (subjectReceipt "subject:a") ∧
      ¬ Bound (subjectReceipt "subject:a") (subjectReceipt "subject:b") := by
  have hfree : CollisionFree plainPy :=
    fun v w hv hw => ⟨dumps_injective hv hw, fun h => by simp only [plainPy, dumps, h]⟩
  have h := deletion_receipts_bound_iff (fun _ => []) hfree
  refine ⟨h.1 _ _ (build_subjectRequest "subject:a"), fun hbound => ?_⟩
  have hsame := (h.2 _ _ _ _ (build_subjectRequest "subject:a")
    (build_subjectRequest "subject:b")).1 hbound ⟨rfl, rfl, rfl, rfl, rfl, rfl, rfl⟩
  exact absurd hsame.2 (by decide)

end Lifecycle

end Omniscience.Privacy
