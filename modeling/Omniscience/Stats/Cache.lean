import Omniscience.Lib.Dict
import Mathlib.Tactic.Linarith

/-!
# The cache of the statistics

`TTLCache` keeps computed values under a workspace and the name of a method.  A call that finds no
live entry awaits its factory without the lock and stores what it returns; other calls run in the
meantime.  Neither the lookup nor the store awaits anything inside the lock, so each is one step, and
so is an invalidation, which takes no lock.

The steps are numbered.  A computation and the value it leaves carry the number of the step in which
the computation began, an invalidation and a returned value are recorded with theirs; nothing of it
is read by the cache.

* `Final` : no call that starts after an invalidation returns a value that was being computed
  before it.
* `final_of_undisturbed` : this holds in every run in which no computation that an invalidation
  overtook returns.
* `not_final_of_overtaken` : one that does can be read by the next call.
-/

namespace Omniscience.Stats

open Dict List

/-! ### The entries -/

/-- What is kept under a key: `(expires_at, value)`, and the step in which the computation of the
value began. -/
structure Entry (T : Type*) where
  expiresAt : ℚ
  value : T
  began : ℕ

section Entries

variable {K V : Type*} [DecidableEq K]

/-- `OrderedDict.move_to_end`, of a key that has an entry. -/
def moveToEnd (d : Dict K V) (k : K) : Dict K V :=
  match d.get? k with
  | some v => (d.pop k).set k v
  | none => d

/-- `popitem(last=False)` while there are too many items. -/
def evictItems (maxEntries : ℕ) : List (K × V) → List (K × V)
  | [] => []
  | p :: rest =>
    if (p :: rest).length > maxEntries then evictItems maxEntries rest else p :: rest

omit [DecidableEq K] in
theorem evictItems_sublist (maxEntries : ℕ) (items : List (K × V)) :
    (evictItems maxEntries items).Sublist items := by
  induction items with
  | nil => exact List.Sublist.refl _
  | cons p rest ih =>
    rw [evictItems]
    split
    · exact ih.cons p
    · exact List.Sublist.refl _

omit [DecidableEq K] in
theorem evictItems_append_singleton {maxEntries : ℕ} (hmax : 0 < maxEntries) (items : List (K × V))
    (p : K × V) : p ∈ evictItems maxEntries (items ++ [p]) := by
  induction items with
  | nil =>
    have hfits : ¬ [p].length > maxEntries := by
      simp only [length_singleton]
      omega
    rw [nil_append, evictItems, if_neg hfits]
    exact mem_singleton_self p
  | cons q rest ih =>
    rw [cons_append, evictItems]
    split
    · exact ih
    · exact mem_cons_of_mem _ (mem_append_right _ (mem_singleton_self p))

/-- The entries that are left after the eviction. -/
def evict (maxEntries : ℕ) (d : Dict K V) : Dict K V :=
  ⟨evictItems maxEntries d.items, d.nodup.sublist ((evictItems_sublist _ _).map _)⟩

theorem get?_moveToEnd (d : Dict K V) (k j : K) : (moveToEnd d k).get? j = d.get? j := by
  unfold moveToEnd
  cases hk : d.get? k with
  | none => rfl
  | some v =>
    by_cases hj : j = k
    · rw [hj, get?_set_self, hk]
    · rw [get?_set_ne _ _ hj, get?_pop_ne _ hj]

theorem get?_of_evict {maxEntries : ℕ} {d : Dict K V} {k : K} {v : V}
    (h : (evict maxEntries d).get? k = some v) : d.get? k = some v :=
  get?_of_mem_items ((evictItems_sublist _ _).subset (mem_items_of_get? h))

theorem get?_foldl_pop {keys : List K} {d : Dict K V} {k : K} :
    (keys.foldl Dict.pop d).get? k = if k ∈ keys then none else d.get? k := by
  induction keys generalizing d with
  | nil => simp
  | cons j rest ih =>
    rw [foldl_cons, ih]
    by_cases hrest : k ∈ rest
    · simp [hrest]
    · by_cases hj : k = j
      · simp [hj]
      · simp [hrest, hj, get?_pop_ne d hj]

end Entries

/-! ### The operations -/

variable {W M T : Type*} [DecidableEq W] [DecidableEq M]

/-- The first half of `get_or_compute`: a live entry is moved to the end and returned, a stale one
is dropped. -/
def lookup (entries : Dict (W × M) (Entry T)) (key : W × M) (now : ℚ) :
    Dict (W × M) (Entry T) × Option (Entry T) :=
  match entries.get? key with
  | some existing =>
    if existing.expiresAt > now then (moveToEnd entries key, some existing)
    else (entries.pop key, none)
  | none => (entries, none)

/-- The second half: the value is stored, and the least recently used entries make room. -/
def store (maxEntries : ℕ) (entries : Dict (W × M) (Entry T)) (key : W × M) (entry : Entry T) :
    Dict (W × M) (Entry T) :=
  evict maxEntries (moveToEnd (entries.set key entry) key)

/-- `invalidate`. -/
def invalidate (entries : Dict (W × M) (Entry T)) (workspace : W) : Dict (W × M) (Entry T) :=
  (entries.keys.filter fun k => k.1 = workspace).foldl Dict.pop entries

/-! ### The runs -/

/-- A call of `get_or_compute` that awaits its factory. -/
structure Call (W M : Type*) where
  workspace : W
  method : M
  /-- The clock as the call read it when it started. -/
  now : ℚ
  /-- The step in which the call and its computation began. -/
  began : ℕ

/-- A value returned to a caller. -/
structure Returned (W T : Type*) where
  workspace : W
  value : T
  started : ℕ
  /-- The step in which the computation of the value began. -/
  began : ℕ

/-- The cache, the calls that await their factory, and what happened so far. -/
structure State (W M T : Type*) where
  entries : Dict (W × M) (Entry T)
  inFlight : List (Call W M)
  time : ℕ
  invalidated : List (W × ℕ)
  returned : List (Returned W T)

/-- The steps. -/
inductive Action (W M T : Type*) where
  /-- A call starts, and reads the clock. -/
  | get (workspace : W) (method : M) (now : ℚ)
  | finish (i : ℕ) (value : T)
  /-- The factory of a call raises, or the call is cancelled. -/
  | fail (i : ℕ)
  | invalidate (workspace : W)
  | clear

/-- The cache as it is made. -/
def initial : State W M T := ⟨Dict.empty, [], 0, [], []⟩

variable (ttl : ℚ) (maxEntries : ℕ)

/-- One step. -/
def step (s : State W M T) : Action W M T → State W M T
  | .get workspace method now =>
    match lookup s.entries (workspace, method) now with
    | (entries, some existing) =>
      { s with
        entries := entries, time := s.time + 1
        returned := ⟨workspace, existing.value, s.time, existing.began⟩ :: s.returned }
    | (entries, none) =>
      { s with
        entries := entries, time := s.time + 1
        inFlight := s.inFlight ++ [⟨workspace, method, now, s.time⟩] }
  | .finish i value =>
    match s.inFlight[i]? with
    | some call =>
      { s with
        entries := store maxEntries s.entries (call.workspace, call.method)
          ⟨call.now + ttl, value, call.began⟩
        inFlight := s.inFlight.eraseIdx i, time := s.time + 1
        returned := ⟨call.workspace, value, call.began, call.began⟩ :: s.returned }
    | none => { s with time := s.time + 1 }
  | .fail i => { s with inFlight := s.inFlight.eraseIdx i, time := s.time + 1 }
  | .invalidate workspace =>
    { s with
      entries := invalidate s.entries workspace, time := s.time + 1
      invalidated := (workspace, s.time) :: s.invalidated }
  | .clear => { s with entries := Dict.empty, time := s.time + 1 }

/-- A run of the cache. -/
def run (s : State W M T) (actions : List (Action W M T)) : State W M T :=
  actions.foldl (step ttl maxEntries) s

/-! ### What invalidation is for -/

/-- **Invalidation is final**: a call that starts after an invalidation of its workspace does not
return a value whose computation began before. -/
def Final (s : State W M T) : Prop :=
  ∀ r ∈ s.returned, ∀ i, (r.workspace, i) ∈ s.invalidated → i < r.started → ¬ r.began < i

/-- An invalidation of its workspace fell into the computation. -/
def Overtaken (s : State W M T) (call : Call W M) : Prop :=
  ∃ i, (call.workspace, i) ∈ s.invalidated ∧ call.began < i

/-- The step does not store the value of a computation that an invalidation overtook. -/
def StoresFresh (s : State W M T) : Action W M T → Prop
  | .finish i _ => ∀ call, s.inFlight[i]? = some call → ¬ Overtaken s call
  | _ => True

/-- No step of the run does. -/
def Undisturbed (s : State W M T) : List (Action W M T) → Prop
  | [] => True
  | action :: rest => StoresFresh s action ∧ Undisturbed (step ttl maxEntries s action) rest

/-- What the steps keep: the entries are younger than every invalidation of their workspace. -/
structure Inv (s : State W M T) : Prop where
  fresh : ∀ k entry, s.entries.get? k = some entry →
    ∀ i, (k.1, i) ∈ s.invalidated → ¬ entry.began < i
  past : ∀ w i, (w, i) ∈ s.invalidated → i < s.time
  started : ∀ r ∈ s.returned, r.started < s.time
  began : ∀ call ∈ s.inFlight, call.began < s.time
  final : Final s

variable {ttl maxEntries} {s : State W M T}

/-! ### One step -/

variable {entry : Entry T} {now : ℚ}

theorem step_get_hit {workspace : W} {method : M}
    (h : (lookup s.entries (workspace, method) now).2 = some entry) :
    step ttl maxEntries s (.get workspace method now) =
      { s with
        entries := (lookup s.entries (workspace, method) now).1, time := s.time + 1
        returned := ⟨workspace, entry.value, s.time, entry.began⟩ :: s.returned } := by
  rcases hlookup : lookup s.entries (workspace, method) now with ⟨entries, existing⟩
  rw [hlookup] at h
  obtain rfl : existing = some entry := h
  simp only [step, hlookup]

theorem step_get_miss {workspace : W} {method : M}
    (h : (lookup s.entries (workspace, method) now).2 = none) :
    step ttl maxEntries s (.get workspace method now) =
      { s with
        entries := (lookup s.entries (workspace, method) now).1, time := s.time + 1
        inFlight := s.inFlight ++ [⟨workspace, method, now, s.time⟩] } := by
  rcases hlookup : lookup s.entries (workspace, method) now with ⟨entries, existing⟩
  rw [hlookup] at h
  obtain rfl : existing = none := h
  simp only [step, hlookup]

theorem step_finish {i : ℕ} {call : Call W M} (h : s.inFlight[i]? = some call) (value : T) :
    step ttl maxEntries s (.finish i value) =
      { s with
        entries := store maxEntries s.entries (call.workspace, call.method)
          ⟨call.now + ttl, value, call.began⟩
        inFlight := s.inFlight.eraseIdx i, time := s.time + 1
        returned := ⟨call.workspace, value, call.began, call.began⟩ :: s.returned } := by
  simp only [step, h]

theorem step_finish_none {i : ℕ} (h : s.inFlight[i]? = none) (value : T) :
    step ttl maxEntries s (.finish i value) = { s with time := s.time + 1 } := by
  simp only [step, h]

variable {entries : Dict (W × M) (Entry T)}

theorem get?_of_lookup {key k : W × M} (h : (lookup entries key now).1.get? k = some entry) :
    entries.get? k = some entry := by
  unfold lookup at h
  split at h
  · split at h
    · rwa [get?_moveToEnd] at h
    · by_cases hk : k = key
      · rw [hk, get?_pop_self] at h
        cases h
      · rwa [get?_pop_ne _ hk] at h
  · exact h

theorem get?_of_lookup_some {key : W × M} (h : (lookup entries key now).2 = some entry) :
    entries.get? key = some entry := by
  unfold lookup at h
  split at h
  · rename_i existing hexisting
    split at h
    · cases h
      exact hexisting
    · cases h
  · cases h

theorem get?_of_store {key k : W × M} {new entry : Entry T}
    (h : (store maxEntries entries key new).get? k = some entry) :
    (k = key ∧ entry = new) ∨ entries.get? k = some entry := by
  have hset := get?_of_evict h
  rw [get?_moveToEnd] at hset
  by_cases hk : k = key
  · rw [hk, get?_set_self] at hset
    exact .inl ⟨hk, (Option.some.inj hset).symm⟩
  · rw [get?_set_ne _ _ hk] at hset
    exact .inr hset

theorem get?_of_invalidate {workspace : W} {k : W × M}
    (h : (invalidate entries workspace).get? k = some entry) :
    k.1 ≠ workspace ∧ entries.get? k = some entry := by
  rw [invalidate, get?_foldl_pop] at h
  split at h
  · cases h
  · rename_i hkeys
    refine ⟨fun hk => hkeys ?_, h⟩
    have hmem : k ∈ entries.keys := by
      by_contra hnot
      rw [get?_eq_none_iff.2 hnot] at h
      cases h
    simpa using ⟨hmem, hk⟩

theorem Inv.final_of_later (h : Inv s) {r : Returned W T} (hr : r ∈ s.returned) {i : ℕ}
    (hi : (r.workspace, i) ∈ s.invalidated ∨ i = s.time) (hlt : i < r.started) : ¬ r.began < i := by
  rcases hi with hi | rfl
  · exact h.final r hr i hi hlt
  · exact absurd (h.started r hr) (not_lt.2 hlt.le)

theorem Inv.get (h : Inv s) (workspace : W) (method : M) (now : ℚ) :
    Inv (step ttl maxEntries s (.get workspace method now)) := by
  have hentries : ∀ k entry, (lookup s.entries (workspace, method) now).1.get? k = some entry →
      ∀ i, (k.1, i) ∈ s.invalidated → ¬ entry.began < i :=
    fun k entry hk => h.fresh k entry (get?_of_lookup hk)
  have hhit : ∀ entry, (lookup s.entries (workspace, method) now).2 = some entry →
      ∀ i, (workspace, i) ∈ s.invalidated → ¬ entry.began < i :=
    fun entry hentry => h.fresh (workspace, method) entry (get?_of_lookup_some hentry)
  have hpast : ∀ w i, (w, i) ∈ s.invalidated → i < s.time + 1 :=
    fun w i hi => (h.past w i hi).trans (Nat.lt_succ_self _)
  have hstarted : ∀ r ∈ s.returned, r.started < s.time + 1 :=
    fun r hr => (h.started r hr).trans (Nat.lt_succ_self _)
  have hbegan : ∀ call ∈ s.inFlight, call.began < s.time + 1 :=
    fun call hcall => (h.began call hcall).trans (Nat.lt_succ_self _)
  cases hlookup : (lookup s.entries (workspace, method) now).2 with
  | some existing =>
    rw [step_get_hit hlookup]
    refine ⟨hentries, hpast, ?_, hbegan, ?_⟩
    · rintro r (_ | ⟨_, hr⟩)
      · exact Nat.lt_succ_self _
      · exact hstarted r hr
    · rintro r (_ | ⟨_, hr⟩) i hi hlt
      · exact hhit existing hlookup i hi
      · exact h.final r hr i hi hlt
  | none =>
    rw [step_get_miss hlookup]
    refine ⟨hentries, hpast, hstarted, ?_, h.final⟩
    intro call hcall
    rcases mem_append.1 hcall with hcall | hcall
    · exact hbegan call hcall
    · rw [mem_singleton.1 hcall]
      exact Nat.lt_succ_self _

theorem Inv.finish (h : Inv s) (i : ℕ) (value : T) (hfresh : StoresFresh s (.finish i value)) :
    Inv (step ttl maxEntries s (.finish i value)) := by
  have hpast : ∀ w j, (w, j) ∈ s.invalidated → j < s.time + 1 :=
    fun w j hj => (h.past w j hj).trans (Nat.lt_succ_self _)
  have hstarted : ∀ r ∈ s.returned, r.started < s.time + 1 :=
    fun r hr => (h.started r hr).trans (Nat.lt_succ_self _)
  have hbegan : ∀ call ∈ s.inFlight, call.began < s.time + 1 :=
    fun call hcall => (h.began call hcall).trans (Nat.lt_succ_self _)
  cases hcall : s.inFlight[i]? with
  | none =>
    rw [step_finish_none hcall]
    exact ⟨h.fresh, hpast, hstarted, hbegan, h.final⟩
  | some call =>
    rw [step_finish hcall]
    refine ⟨?_, hpast, ?_, ?_, ?_⟩
    · intro k entry hk j hj
      rcases get?_of_store hk with ⟨rfl, rfl⟩ | hk
      · exact fun hlt => hfresh call hcall ⟨j, hj, hlt⟩
      · exact h.fresh k entry hk j hj
    · rintro r (_ | ⟨_, hr⟩)
      · exact hbegan call (List.mem_of_getElem? hcall)
      · exact hstarted r hr
    · exact fun other hother => hbegan other (mem_of_mem_eraseIdx hother)
    · -- The call itself returns the value whose computation it began.
      rintro r (_ | ⟨_, hr⟩) j hj hlt
      · exact not_lt.2 hlt.le
      · exact h.final r hr j hj hlt

theorem Inv.invalidate (h : Inv s) (workspace : W) :
    Inv (step ttl maxEntries s (.invalidate workspace)) where
  fresh k entry hk i hi := by
    obtain ⟨hne, hget⟩ := get?_of_invalidate hk
    rcases mem_cons.1 hi with heq | hi
    · exact absurd (congrArg Prod.fst heq) hne
    · exact h.fresh k entry hget i hi
  past w i hi := by
    rcases mem_cons.1 hi with heq | hi
    · cases heq
      exact Nat.lt_succ_self _
    · exact (h.past w i hi).trans (Nat.lt_succ_self _)
  started r hr := (h.started r hr).trans (Nat.lt_succ_self _)
  began call hcall := (h.began call hcall).trans (Nat.lt_succ_self _)
  final r hr i hi hlt := by
    refine h.final_of_later hr ?_ hlt
    rcases mem_cons.1 hi with heq | hi
    · exact .inr (congrArg Prod.snd heq)
    · exact .inl hi

/-- **What a step keeps.** -/
theorem Inv.step (h : Inv s) (action : Action W M T) (hfresh : StoresFresh s action) :
    Inv (step ttl maxEntries s action) := by
  cases action with
  | get workspace method now => exact h.get workspace method now
  | finish i value => exact h.finish i value hfresh
  | fail i =>
    exact
      { fresh := h.fresh
        past := fun w j hj => (h.past w j hj).trans (Nat.lt_succ_self _)
        started := fun r hr => (h.started r hr).trans (Nat.lt_succ_self _)
        began := fun call hcall =>
          (h.began call (mem_of_mem_eraseIdx hcall)).trans (Nat.lt_succ_self _)
        final := h.final }
  | invalidate workspace => exact h.invalidate workspace
  | clear =>
    exact
      { fresh := nofun
        past := fun w j hj => (h.past w j hj).trans (Nat.lt_succ_self _)
        started := fun r hr => (h.started r hr).trans (Nat.lt_succ_self _)
        began := fun call hcall => (h.began call hcall).trans (Nat.lt_succ_self _)
        final := h.final }

theorem inv_initial : Inv (initial : State W M T) :=
  ⟨nofun, nofun, nofun, nofun, nofun⟩

/-! ### Whole runs -/

theorem Inv.run {actions : List (Action W M T)} (h : Inv s)
    (hundisturbed : Undisturbed ttl maxEntries s actions) : Inv (run ttl maxEntries s actions) := by
  induction actions generalizing s with
  | nil => exact h
  | cons action rest ih => exact ih (h.step action hundisturbed.1) hundisturbed.2

theorem Undisturbed.of_append {done rest : List (Action W M T)}
    (h : Undisturbed ttl maxEntries s (done ++ rest)) : Undisturbed ttl maxEntries s done := by
  induction done generalizing s with
  | nil => trivial
  | cons action done ih => exact ⟨h.1, ih h.2⟩

/-- **Invalidation is final in every state that an undisturbed run reaches.** -/
theorem final_of_undisturbed (actions : List (Action W M T))
    (h : Undisturbed ttl maxEntries initial actions) :
    ∀ done, done <+: actions → Final (run ttl maxEntries initial done) := by
  rintro done ⟨rest, rfl⟩
  exact (inv_initial.run h.of_append).final

/-! ### A run that is disturbed -/

theorem lookup_store {key : W × M} (hmax : 0 < maxEntries) (hnow : now < entry.expiresAt) :
    (lookup (store maxEntries entries key entry) key now).2 = some entry := by
  have hget : (store maxEntries entries key entry).get? key = some entry := by
    suffices hmem : (key, entry) ∈ (store maxEntries entries key entry).items from
      get?_of_mem_items hmem
    have hitems : (moveToEnd (entries.set key entry) key).items =
        ((entries.set key entry).pop key).items ++ [(key, entry)] := by
      rw [moveToEnd, get?_set_self]
      exact items_set_of_not_mem (fun hk => (mem_keys_pop.1 hk).2 rfl) _
    show (key, entry) ∈ evictItems maxEntries (moveToEnd (entries.set key entry) key).items
    rw [hitems]
    exact evictItems_append_singleton hmax _ _
  rw [lookup, hget]
  dsimp only
  rw [if_pos hnow]

/-- **A value that an invalidation overtook is returned to the next call**, if that reads the clock
while the entry is live. -/
theorem not_final_of_overtaken (hmax : 0 < maxEntries)
    (hpast : ∀ w i, (w, i) ∈ s.invalidated → i < s.time) {i : ℕ} {call : Call W M}
    (hcall : s.inFlight[i]? = some call) (hovertaken : Overtaken s call) (value : T)
    (hnow : now < call.now + ttl) :
    ¬ Final (run ttl maxEntries s [.finish i value, .get call.workspace call.method now]) := by
  obtain ⟨j, hj, hlt⟩ := hovertaken
  have hhit : (lookup (step ttl maxEntries s (.finish i value)).entries
      (call.workspace, call.method) now).2 = some ⟨call.now + ttl, value, call.began⟩ := by
    rw [step_finish hcall]
    exact lookup_store hmax hnow
  show ¬ Final (step ttl maxEntries (step ttl maxEntries s (.finish i value))
    (.get call.workspace call.method now))
  rw [step_get_hit hhit, step_finish hcall]
  intro hfinal
  exact hfinal _ mem_cons_self j hj ((hpast _ j hj).trans (Nat.lt_succ_self _)) hlt

/-- A call computes; its workspace is invalidated; the call stores what it has computed; the next
call reads it. -/
def overtakenRun : List (Action ℕ String ℕ) :=
  [.get 0 "overview" 0, .invalidate 0, .finish 0 7, .get 0 "overview" 1]

/-- The second call starts after the invalidation and returns the value from before. -/
theorem overtakenRun_not_final :
    ¬ ∀ actions : List (Action ℕ String ℕ), Final (run 10 256 initial actions) := by
  intro hfinal
  -- The state in which the computation is overtaken.
  have hpast : ∀ w i, (w, i) ∈ (run 10 256 (initial : State ℕ String ℕ)
      [.get 0 "overview" 0, .invalidate 0]).invalidated → i < 2 := by
    intro w i hi
    rcases mem_cons.1 hi with heq | hi
    · cases heq
      decide
    · cases hi
  have hovertaken : Overtaken (run 10 256 (initial : State ℕ String ℕ)
      [.get 0 "overview" 0, .invalidate 0]) ⟨0, "overview", 0, 0⟩ :=
    ⟨1, mem_cons_self, by decide⟩
  have hnow : (1 : ℚ) < 0 + 10 := by norm_num
  exact not_final_of_overtaken (by decide) hpast rfl hovertaken 7 hnow (hfinal overtakenRun)

/-- Without the second half of the first call the invalidation is final. -/
theorem final_of_failed_call :
    Final (run 10 256 initial ([.get 0 "overview" 0, .invalidate 0, .fail 0,
      .get 0 "overview" 1] : List (Action ℕ String ℕ))) :=
  have hrun : Undisturbed 10 256 (initial : State ℕ String ℕ)
      [.get 0 "overview" 0, .invalidate 0, .fail 0, .get 0 "overview" 1] :=
    ⟨trivial, trivial, trivial, trivial, trivial⟩
  final_of_undisturbed _ hrun _ prefix_rfl

end Omniscience.Stats
