import Mathlib.Order.Bounds.Basic
import Omniscience.Stores.Neo4j

/-!
# Versions of an entity

An entity is written by `upsert_entity` calls that carry a version, in any order and any number of
times.  The node keeps the greatest version that reaches it, with its content: what is stored
belongs to the stored version, and a call changes it only if its version is greater.

In front of the node stands the checkpoint of the source, which the writes of all the entities of
the source share.  A version that it stops never reaches the node, so that the node converges to
the greatest version only if a delivery of that version finds the checkpoint behind it
(`casConverges_iff`).
-/

namespace Omniscience.Neo4j

open Outbox List

/-- A call of `upsert_entity`. -/
structure Delivery where
  entity : EntityUpsert
  workspaceId : Uuid
  now : ℕ

namespace Delivery

/-- The node that the call is for. -/
def key (d : Delivery) : NodeKey := (d.workspaceId, d.entity.id)

/-- The checkpoint of the source stops the call. -/
def isStaleIn (d : Delivery) (version : ℤ) (g : Graph) : Bool :=
  let applied := readCheckpoint g d.workspaceId d.entity.sourceId.str
  isStale version d.entity.epoch applied.1 applied.2 d.entity.bypassSourceCheckpoint

end Delivery

variable (cfg : Config)

/-- The graph after the calls. -/
def deliverAll (deliveries : List Delivery) (g : Graph) : Graph :=
  deliveries.foldl (fun g d => upsertEntity cfg d.entity d.workspaceId d.now g) g

/-- The calls have a version and are not forced. -/
def Versioned (deliveries : List Delivery) : Prop :=
  ∀ d ∈ deliveries, d.entity.version.isSome ∧ d.entity.forcedReplay = false

/-- The node has the content of the upsert. -/
def Node.Carries (n : Node) (py : Py) (entity : EntityUpsert) : Prop :=
  n.content = some (contentOf py entity) ∧ n.contentHash = entity.contentHash

/-- Calls for one entity with equal versions carry the same. -/
def Consistent (py : Py) (deliveries : List Delivery) : Prop :=
  ∀ d ∈ deliveries, ∀ d' ∈ deliveries, d.key = d'.key → d.entity.version = d'.entity.version →
    contentOf py d.entity = contentOf py d'.entity ∧ d.entity.contentHash = d'.entity.contentHash

/-- The versions that are delivered for a node. -/
def versionsFor (deliveries : List Delivery) (key : NodeKey) : Set ℤ :=
  {version | ∃ d ∈ deliveries, d.key = key ∧ d.entity.version = some version}

/-- The node has the greatest version that was delivered for it, and its content. -/
def Converged (deliveries : List Delivery) (g : Graph) (key : NodeKey) : Prop :=
  ∀ version, IsGreatest (versionsFor deliveries key) version →
    (g.nodes.getD key {}).version = some version ∧
      ∀ d ∈ deliveries, d.key = key → d.entity.version = some version →
        (g.nodes.getD key {}).Carries cfg.py d.entity

/-- A delivery of the version passes the checkpoint of its source. -/
def Passes (deliveries : List Delivery) (g₀ : Graph) (key : NodeKey) (version : ℤ) : Prop :=
  ∃ pre d post, deliveries = pre ++ d :: post ∧ d.key = key ∧ d.entity.version = some version ∧
    d.isStaleIn version (deliverAll cfg pre g₀) = false

section

variable {cfg} {g g₀ : Graph} {key : NodeKey} {deliveries : List Delivery} {d : Delivery}
  {version v : ℤ}

theorem deliverAll_concat (deliveries : List Delivery) (d : Delivery) (g : Graph) :
    deliverAll cfg (deliveries ++ [d]) g =
      upsertEntity cfg d.entity d.workspaceId d.now (deliverAll cfg deliveries g) := by
  rw [deliverAll, foldl_append]
  rfl

theorem getD_upsertEntity (key : NodeKey) (hversion : d.entity.version = some version)
    (hforced : d.entity.forcedReplay = false) :
    (upsertEntity cfg d.entity d.workspaceId d.now g).nodes.getD key {} =
      if d.key = key ∧ d.isStaleIn version g = false then
        casNode cfg d.entity version d.now (g.nodes.getD key {})
      else g.nodes.getD key {} := by
  by_cases hkey : d.key = key
  · subst hkey
    rw [upsertEntity, hversion, hforced, Bool.false_or]
    dsimp only
    change (if d.isStaleIn version g then _ else _ : Graph).nodes.getD _ _ = _
    cases hstale : d.isStaleIn version g with
    | true => simp
    | false =>
      simp only [Bool.false_eq_true, ↓reduceIte, and_self]
      rw [nodes_casEntity, nodes_advanceCheckpoint]
      exact Dict.getD_set_self _ _ _ _
  · rw [if_neg fun h => hkey h.1, Dict.getD, Dict.getD]
    obtain ⟨ws, id⟩ := key
    rw [get?_nodes_upsertEntity_ne (Ne.symm hkey)]

theorem passes_concat : Passes cfg (deliveries ++ [d]) g₀ key v ↔ Passes cfg deliveries g₀ key v ∨
      (d.key = key ∧ d.entity.version = some v ∧
        d.isStaleIn v (deliverAll cfg deliveries g₀) = false) := by
  constructor
  · rintro ⟨pre, d', post, hsplit, hkey, hversion, hpasses⟩
    obtain rfl | ⟨post, last, rfl⟩ := eq_nil_or_concat post
    · -- the last call
      obtain ⟨rfl, hd⟩ := append_inj' hsplit rfl
      cases hd
      exact .inr ⟨hkey, hversion, hpasses⟩
    · rw [concat_eq_append, ← cons_append, ← append_assoc] at hsplit
      obtain ⟨rfl, -⟩ := append_inj' hsplit rfl
      exact .inl ⟨pre, d', post, rfl, hkey, hversion, hpasses⟩
  · rintro (⟨pre, d', post, rfl, hkey, hversion, hpasses⟩ | ⟨hkey, hversion, hpasses⟩)
    · exact ⟨pre, d', post ++ [d], by simp, hkey, hversion, hpasses⟩
    · exact ⟨deliveries, d, [], rfl, hkey, hversion, hpasses⟩

/-- The node is at a version that passed, with its content, and at no lower one than any that
did.  Versions below zero are never written: the guard takes a missing version for `-1`. -/
structure Holds (cfg : Config) (deliveries : List Delivery) (g₀ : Graph) (key : NodeKey)
    (n : Node) : Prop where
  stored : ∀ version, n.version = some version → 0 ≤ version ∧
    Passes cfg deliveries g₀ key version ∧ ∃ d ∈ deliveries, d.key = key ∧
      d.entity.version = some version ∧ n.Carries cfg.py d.entity
  passed : ∀ version, 0 ≤ version → Passes cfg deliveries g₀ key version →
    version ≤ n.version.getD (-1)

theorem Holds.keep {n : Node} (h : Holds cfg deliveries g₀ key n)
    (hkeep : ∀ v, d.key = key → d.entity.version = some v →
      d.isStaleIn v (deliverAll cfg deliveries g₀) = false → v ≤ n.version.getD (-1)) :
    Holds cfg (deliveries ++ [d]) g₀ key n := by
  constructor
  · intro v hv
    obtain ⟨hpos, hpasses, d', hd', hcarries⟩ := h.stored v hv
    exact ⟨hpos, passes_concat.2 (.inl hpasses), d', mem_append_left _ hd', hcarries⟩
  · intro v hpos hpasses
    obtain hpasses | ⟨hkey, hv, hstale⟩ := passes_concat.1 hpasses
    · exact h.passed v hpos hpasses
    · exact hkeep v hkey hv hstale

theorem Holds.write {n : Node} (h : Holds cfg deliveries g₀ key n) (hkey : d.key = key)
    (hversion : d.entity.version = some version) (hforced : d.entity.forcedReplay = false)
    (hstale : d.isStaleIn version (deliverAll cfg deliveries g₀) = false) :
    Holds cfg (deliveries ++ [d]) g₀ key (casNode cfg d.entity version d.now n) := by
  have hpassed : Passes cfg (deliveries ++ [d]) g₀ key version :=
    passes_concat.2 (.inr ⟨hkey, hversion, hstale⟩)
  have hlast : ∀ v, Passes cfg (deliveries ++ [d]) g₀ key v →
      Passes cfg deliveries g₀ key v ∨ v = version := by
    intro v hv
    obtain hv | ⟨-, hv, -⟩ := passes_concat.1 hv
    · exact .inl hv
    · rw [hversion] at hv
      exact .inr (Option.some.inj hv).symm
  have hnode : -1 ≤ n.version.getD (-1) := by
    cases hn : n.version with
    | none => exact le_rfl
    | some v =>
      have := (h.stored v hn).1
      simp only [Option.getD_some]
      omega
  by_cases hlt : n.version.getD (-1) < version
  · -- the node is written
    obtain ⟨hv, hcontent, hhash⟩ := casNode_of_lt cfg d.entity d.now hlt
    constructor
    · intro v hv'
      rw [hv] at hv'
      cases hv'
      exact ⟨by omega, hpassed, d, mem_append_right _ mem_cons_self, hkey, hversion,
        hcontent, hhash⟩
    · intro v hpos hpasses
      rw [hv, Option.getD_some]
      obtain hpasses | rfl := hlast v hpasses
      · have := h.passed v hpos hpasses
        omega
      · exact le_rfl
  · rw [casNode_of_le hforced (not_lt.1 hlt)]
    refine h.keep fun v _ hv _ => ?_
    rw [hversion] at hv
    cases hv
    exact not_lt.1 hlt

/-- **The node holds the greatest version that passed**, after any calls. -/
theorem holds_deliverAll (cfg : Config) (hversioned : Versioned deliveries)
    (hnew : (g₀.nodes.getD key {}).version = none) :
    Holds cfg deliveries g₀ key ((deliverAll cfg deliveries g₀).nodes.getD key {}) := by
  induction deliveries using List.reverseRecOn with
  | nil =>
    constructor
    · intro v hv
      rw [deliverAll, foldl_nil, hnew] at hv
      cases hv
    · rintro v - ⟨pre, d, post, hsplit, -⟩
      simp at hsplit
  | append_singleton deliveries d ih =>
    have hholds := ih fun d' hd' => hversioned d' (mem_append_left _ hd')
    obtain ⟨hsome, hforced⟩ := hversioned d (mem_append_right _ mem_cons_self)
    obtain ⟨version, hversion⟩ := Option.isSome_iff_exists.1 hsome
    rw [deliverAll_concat, getD_upsertEntity key hversion hforced]
    split
    · rename_i hpasses
      exact hholds.write hpasses.1 hversion hforced hpasses.2
    · rename_i hskip
      refine hholds.keep fun v hkey hv hstale => ?_
      rw [hversion] at hv
      cases hv
      exact absurd ⟨hkey, hstale⟩ hskip

/-- **When an entity converges**: its node ends with the greatest version that was delivered, and
with its content, if and only if this version is not negative and one of its deliveries finds the
checkpoint of the source behind it. -/
theorem casConverges_iff (cfg : Config) (deliveries : List Delivery) (g₀ : Graph) (key : NodeKey)
    (hversioned : Versioned deliveries) (hconsistent : Consistent cfg.py deliveries)
    (hnew : (g₀.nodes.getD key {}).version = none) :
    Converged cfg deliveries (deliverAll cfg deliveries g₀) key ↔
      ∀ version, IsGreatest (versionsFor deliveries key) version →
        0 ≤ version ∧ Passes cfg deliveries g₀ key version := by
  have hholds := holds_deliverAll cfg hversioned hnew
  constructor
  · intro hconverged version hgreatest
    obtain ⟨hpos, hpasses, -⟩ := hholds.stored version (hconverged version hgreatest).1
    exact ⟨hpos, hpasses⟩
  · intro hpasses version hgreatest
    obtain ⟨hpos, hpassed⟩ := hpasses version hgreatest
    have hle := hholds.passed version hpos hpassed
    -- the node is at a version that was delivered, which is not above the greatest
    cases hn : ((deliverAll cfg deliveries g₀).nodes.getD key {}).version with
    | none =>
      rw [hn, Option.getD_none] at hle
      omega
    | some v =>
      rw [hn, Option.getD_some] at hle
      obtain ⟨-, -, d, hd, hkey, hv, hcarries⟩ := hholds.stored v hn
      have hge : v ≤ version := hgreatest.2 ⟨d, hd, hkey, hv⟩
      obtain rfl : v = version := le_antisymm hge hle
      refine ⟨rfl, fun d' hd' hkey' hv' => ?_⟩
      obtain ⟨hcontent, hhash⟩ :=
        hconsistent d hd d' hd' (hkey.trans hkey'.symm) (hv.trans hv'.symm)
      exact ⟨hcontent ▸ hcarries.1, hhash ▸ hcarries.2⟩

/-- A write of an entity of source 3. -/
def serviceWrite (id : Uuid) (version : ℤ) : Delivery where
  entity :=
    { id := id
      sourceId := 3
      entityType := "service"
      name := "api"
      displayName := "API"
      version := some version }
  workspaceId := 7
  now := 1

theorem isStaleIn_serviceWrite (cfg : Config) (id id' : Uuid) (version version' : ℤ) :
    (serviceWrite id' version').isStaleIn version'
        (deliverAll cfg [serviceWrite id version] {}) = decide (version' ≤ version) := by
  have hcheckpoints : (deliverAll cfg [serviceWrite id version] {}).checkpoints =
      [⟨7, Uuid.str 3, some version, none⟩] :=
    rfl
  simp only [Delivery.isStaleIn, readCheckpoint, hcheckpoints]
  simp [serviceWrite, foldRecords, maxOf, isStale, exceeds]

theorem consistent_serviceWrites (py : Py) {deliveries : List Delivery}
    (h : ∀ d ∈ deliveries, ∃ id version, d = serviceWrite id version) :
    Consistent py deliveries := by
  intro d hd d' hd' _ _
  obtain ⟨id, version, rfl⟩ := h d hd
  obtain ⟨id', version', rfl⟩ := h d' hd'
  exact ⟨rfl, rfl⟩

theorem versioned_serviceWrites {deliveries : List Delivery}
    (h : ∀ d ∈ deliveries, ∃ id version, d = serviceWrite id version) : Versioned deliveries := by
  intro d hd
  obtain ⟨id, version, rfl⟩ := h d hd
  exact ⟨rfl, rfl⟩

theorem serviceWrite_pair (version version' : ℤ) :
    ∀ d ∈ [serviceWrite 1 version, serviceWrite 2 version'],
      ∃ id version, d = serviceWrite id version := by
  simp

theorem isGreatest_second (version version' : ℤ) :
    IsGreatest (versionsFor [serviceWrite 1 version, serviceWrite 2 version'] (7, 2)) version' := by
  refine ⟨⟨serviceWrite 2 version', by simp, rfl, rfl⟩, ?_⟩
  rintro v ⟨d, hd, hkey, hv⟩
  simp only [mem_cons, not_mem_nil, or_false] at hd
  obtain rfl | rfl := hd
  · have hid : (1 : Uuid) = 2 := congrArg Prod.snd hkey
    exact absurd hid (by decide)
  · cases hv
    exact le_rfl

/-- A second entity of the source with a higher version converges. -/
theorem casConverges_higher : Converged (.source .sample true) [serviceWrite 1 1, serviceWrite 2 2]
      (deliverAll (.source .sample true) [serviceWrite 1 1, serviceWrite 2 2] {}) (7, 2) := by
  have hwrites := serviceWrite_pair 1 2
  refine (casConverges_iff _ _ {} (7, 2) (versioned_serviceWrites hwrites)
    (consistent_serviceWrites _ hwrites) rfl).2 fun version hgreatest => ?_
  obtain rfl := hgreatest.unique (isGreatest_second 1 2)
  refine ⟨by decide, [serviceWrite 1 1], serviceWrite 2 2, [], rfl, rfl, rfl, ?_⟩
  rw [isStaleIn_serviceWrite]
  decide

/-- With the same version it is never written: the checkpoint of the source is at it already. -/
theorem second_entity_dropped :
    ¬ ∀ (cfg : Config) (deliveries : List Delivery) (g₀ : Graph), Versioned deliveries →
      Consistent cfg.py deliveries → (∀ key, (g₀.nodes.getD key {}).version = none) →
        ∀ key, Converged cfg deliveries (deliverAll cfg deliveries g₀) key := by
  intro h
  have hwrites := serviceWrite_pair 1 1
  have hconverged := h (.source .sample true) _ {} (versioned_serviceWrites hwrites)
    (consistent_serviceWrites _ hwrites) (fun _ => rfl) (7, 2) 1 (isGreatest_second 1 1)
  have hstored := hconverged.1
  have hstale := isStaleIn_serviceWrite (.source .sample true) 1 2 1 1
  rw [show [serviceWrite 1 1, serviceWrite 2 1] = [serviceWrite 1 1] ++ [serviceWrite 2 1] from rfl,
    deliverAll_concat, getD_upsertEntity (7, 2) rfl rfl, hstale] at hstored
  simp only [le_refl, decide_true, Bool.true_eq_false, and_false, ↓reduceIte] at hstored
  -- nothing else writes the node
  rw [deliverAll, foldl_cons, foldl_nil, getD_upsertEntity (7, 2) rfl rfl,
    if_neg (fun hkey => absurd hkey.1 (by decide))] at hstored
  cases hstored

end

end Omniscience.Neo4j
