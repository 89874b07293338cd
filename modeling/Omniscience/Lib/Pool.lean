import Mathlib.Logic.Relation
import Mathlib.Logic.Function.Basic
import Omniscience.Lib.Coro

/-!
# Pools of looping coroutines

Several tasks run on one event loop.  A task repeats a coroutine: it waits for an input, runs the
body on it and on the local state that the previous round left, and waits again.  Control passes
from one task to another only where a body awaits a call, and what a task does in between is one
step.  The outside of the pool has a state of its own.

* `Pool.Step` is the step relation: a task starts a round or is resumed with the answer to its
  call, it is cancelled, or the state drifts without any task.  `World` says which inputs, answers
  and drifts are possible.
* `Pool.invariant_of_wp` is the invariant rule.  To show that a property of the shared state and
  one of the outside hold in every reachable pool, and that every call made is an allowed one, it
  is enough to look at the bodies one by one, from await to await.
-/

namespace Omniscience

open Function

/-- Where a coroutine gives up control. -/
inductive Halt (S : Iface) (α : Type) where
  | done (a : α)
  | failed (e : S.Exc)
  | blocked (q : S.Call) (k : Except S.Exc (S.Resp q) → Coro S α)

/-- Run a coroutine up to its first await. -/
def Coro.advance {S : Iface} {α : Type} : Coro S α → S.State → Halt S α × S.State
  | .ret a, s => (.done a, s)
  | .raise e, s => (.failed e, s)
  | .upd f k, s => (k s).advance (f s)
  | .await q k, s => (.blocked q k, s)

/-- A task that repeats `body`. -/
structure Loop (S : Iface) where
  Local : Type
  Input : Type
  init : Local
  body : Local → Input → Coro S Local

/-- What a task is doing; a task that raised or was cancelled stays `stopped`. -/
inductive Task {S : Iface} (L : Loop S) where
  | idle (l : L.Local)
  | waiting (q : S.Call) (k : Except S.Exc (S.Resp q) → Coro S L.Local)
  | stopped

/-- The outside of a pool: its state, and how it hands an input to a task, answers a call, or
changes the shared state by itself. -/
structure World {S : Iface} {ι : Type} (loops : ι → Loop S) where
  Out : Type
  accepts : (i : ι) → (loops i).Input → S.State × Out → S.State × Out → Prop
  answers : (i : ι) → (q : S.Call) → S.State × Out → Except S.Exc (S.Resp q) → S.State × Out → Prop
  drifts : S.State × Out → S.State × Out → Prop

/-- The shared state, the state of the outside, the tasks and the calls made so far. -/
structure Pool {S : Iface} {ι : Type} {loops : ι → Loop S} (W : World loops) where
  state : S.State
  out : W.Out
  tasks : ∀ i, Task (loops i)
  calls : List (ι × S.Call)

namespace Pool

variable {S : Iface} {ι : Type} {loops : ι → Loop S} {W : World loops}

/-- A pool before its first step. -/
def start (W : World loops) (s : S.State) (o : W.Out) : Pool W :=
  ⟨s, o, fun i => .idle (loops i).init, []⟩

section

variable [DecidableEq ι]

/-- The pool after task `i` has run up to a halt. -/
def put (p : Pool W) (i : ι) (x : Halt S (loops i).Local × S.State) (o : W.Out) : Pool W :=
  match x with
  | (.done l, s) => ⟨s, o, update p.tasks i (.idle l), p.calls⟩
  | (.failed _, s) => ⟨s, o, update p.tasks i .stopped, p.calls⟩
  | (.blocked q k, s) => ⟨s, o, update p.tasks i (.waiting q k), p.calls ++ [(i, q)]⟩

/-- One step of a pool. -/
inductive Step : Pool W → Pool W → Prop
  | start {p : Pool W} {i : ι} {l : (loops i).Local} {a : (loops i).Input} {s : S.State}
      {o : W.Out} (hi : p.tasks i = .idle l) (ha : W.accepts i a (p.state, p.out) (s, o)) :
      Step p (p.put i (((loops i).body l a).advance s) o)
  | resume {p : Pool W} {i : ι} {q : S.Call}
      {k : Except S.Exc (S.Resp q) → Coro S (loops i).Local} {r : Except S.Exc (S.Resp q)}
      {s : S.State} {o : W.Out} (hi : p.tasks i = .waiting q k)
      (hr : W.answers i q (p.state, p.out) r (s, o)) :
      Step p (p.put i ((k r).advance s) o)
  | cancel {p : Pool W} (i : ι) :
      Step p { p with tasks := update p.tasks i .stopped }
  | drift {p : Pool W} {s : S.State} {o : W.Out} (hs : W.drifts (p.state, p.out) (s, o)) :
      Step p { p with state := s, out := o }

/-- The pools that can be reached from the state `s` of the tasks and `o` of the outside. -/
def Reachable (s : S.State) (o : W.Out) (p : Pool W) : Prop :=
  Relation.ReflTransGen Step (start W s o) p

theorem step_of_blocked {p : Pool W} {i : ι} {l : (loops i).Local} {a : (loops i).Input}
    {s s₁ : S.State} {o : W.Out} {q : S.Call} {k : Except S.Exc (S.Resp q) → Coro S (loops i).Local}
    (hi : p.tasks i = .idle l) (ha : W.accepts i a (p.state, p.out) (s, o))
    (hx : ((loops i).body l a).advance s = (.blocked q k, s₁)) :
    Step p ⟨s₁, o, update p.tasks i (.waiting q k), p.calls ++ [(i, q)]⟩ := by
  have h := Step.start hi ha
  rw [hx] at h
  exact h

theorem steps_of_blocked_done {p : Pool W} {i : ι} {l l' : (loops i).Local} {a : (loops i).Input}
    {s s₁ s₂ s₃ : S.State} {o o₂ : W.Out} {q : S.Call}
    {k : Except S.Exc (S.Resp q) → Coro S (loops i).Local} {r : Except S.Exc (S.Resp q)}
    (hi : p.tasks i = .idle l) (ha : W.accepts i a (p.state, p.out) (s, o))
    (hx : ((loops i).body l a).advance s = (.blocked q k, s₁))
    (hr : W.answers i q (s₁, o) r (s₂, o₂)) (hk : (k r).advance s₂ = (.done l', s₃)) :
    Relation.ReflTransGen Step p
      ⟨s₃, o₂, update p.tasks i (.idle l'), p.calls ++ [(i, q)]⟩ := by
  have hresume := Step.resume (p := ⟨s₁, o, update p.tasks i (.waiting q k),
    p.calls ++ [(i, q)]⟩) (update_self i _ _) hr
  rw [hk] at hresume
  simp only [put, update_idem] at hresume
  exact .tail (.single (step_of_blocked hi ha hx)) hresume

end

/-! ### The invariant rule -/

/-- The contract of the bodies of task `i`: the invariant `I` holds at every await, and only calls
that `Y` allows are made. -/
def contract (W : World loops) (I : S.State → Prop) (J : W.Out → Prop) (Y : ι → S.Call → Prop)
    (i : ι) : Contract S where
  yields _ q s := I s ∧ Y i q
  resumes _ q _ r s' := ∃ s o o', I s ∧ J o ∧ W.answers i q (s, o) r (s', o')

/-- What is known at a halt of a coroutine with a weakest precondition. -/
def AtHalt {α : Type} (K : Contract S) (Q : Post S α) (t : List (Event S)) :
    Halt S α × S.State → Prop
  | (.done a, s) => Q t (.ok a) s
  | (.failed e, s) => Q t (.error e) s
  | (.blocked q k, s) =>
    K.yields t q s ∧ ∀ r s', K.resumes t q s r s' → Coro.wp K (k r) Q (t ++ [⟨q, r⟩]) s'

theorem atHalt_of_wp {α : Type} {K : Contract S} {Q : Post S α} {x : Coro S α}
    {t : List (Event S)} {s : S.State} (h : Coro.wp K x Q t s) : AtHalt K Q t (x.advance s) := by
  induction x generalizing s with
  | ret a => exact h
  | raise e => exact h
  | upd f k ih => exact ih _ h
  | await q k ih => exact h

variable [DecidableEq ι] {I : S.State → Prop} {J : W.Out → Prop} {Y : ι → S.Call → Prop}

/-- A suspended body has made an allowed call, and keeps to its contract however it is resumed. -/
def Resumable (W : World loops) (I : S.State → Prop) (J : W.Out → Prop) (Y : ι → S.Call → Prop)
    (i : ι) (q : S.Call) (k : Except S.Exc (S.Resp q) → Coro S (loops i).Local) : Prop :=
  Y i q ∧ ∀ r s, (∃ s' o o', I s' ∧ J o ∧ W.answers i q (s', o) r (s, o')) →
    ∃ t, Coro.wp (contract W I J Y i) (k r) (fun _ _ s => I s) t s

/-- The invariant of a pool: the shared state satisfies `I` and the outside `J`, every call was
allowed, and the suspended tasks keep to their contracts. -/
structure Sound (I : S.State → Prop) (J : W.Out → Prop) (Y : ι → S.Call → Prop) (p : Pool W) :
    Prop where
  state : I p.state
  out : J p.out
  calls : ∀ c ∈ p.calls, Y c.1 c.2
  waiting : ∀ i q k, p.tasks i = .waiting q k → Resumable W I J Y i q k

theorem Sound.waiting_update {p : Pool W} (h : Sound I J Y p) {i : ι} {τ : Task (loops i)}
    (hτ : ∀ q k, τ = .waiting q k → Resumable W I J Y i q k) :
    ∀ j q k, update p.tasks i τ j = .waiting q k → Resumable W I J Y j q k := by
  intro j q k hw
  by_cases hj : j = i
  · subst hj
    rw [update_self] at hw
    exact hτ q k hw
  · rw [update_of_ne hj] at hw
    exact h.waiting j q k hw

theorem Sound.put {p : Pool W} (h : Sound I J Y p) {i : ι} {t : List (Event S)}
    {x : Halt S (loops i).Local × S.State} {o : W.Out}
    (hx : AtHalt (contract W I J Y i) (fun _ _ s => I s) t x) (ho : J o) :
    Sound I J Y (p.put i x o) := by
  obtain ⟨halt, s⟩ := x
  cases halt with
  | done l => exact ⟨hx, ho, h.calls, h.waiting_update (by rintro _ _ ⟨⟩)⟩
  | failed e => exact ⟨hx, ho, h.calls, h.waiting_update (by rintro _ _ ⟨⟩)⟩
  | blocked q k =>
    obtain ⟨⟨hI, hY⟩, hk⟩ := hx
    refine ⟨hI, ho, fun c hc => ?_, h.waiting_update ?_⟩
    · rcases List.mem_append.1 hc with hc | hc
      · exact h.calls c hc
      · rw [List.mem_singleton.1 hc]
        exact hY
    · rintro _ _ ⟨⟩
      exact ⟨hY, fun r s' hr => ⟨_, hk r s' hr⟩⟩

/-- What has to be shown of the bodies and of the outside for `invariant_of_wp`. -/
structure Obligations (W : World loops) (I : S.State → Prop) (J : W.Out → Prop)
    (Y : ι → S.Call → Prop) : Prop where
  /-- A body that starts on an accepted input keeps to its contract. -/
  body : ∀ i l a s o s' o', I s → J o → W.accepts i a (s, o) (s', o') →
    J o' ∧ Coro.wp (contract W I J Y i) ((loops i).body l a) (fun _ _ s => I s) [] s'
  /-- The answer to an allowed call keeps the invariant of the outside. -/
  answers : ∀ i q s o r s' o', I s → J o → Y i q → W.answers i q (s, o) r (s', o') → J o'
  drifts : ∀ s o s' o', I s → J o → W.drifts (s, o) (s', o') → I s' ∧ J o'

theorem Sound.step (hW : Obligations W I J Y) {p p' : Pool W} (h : Sound I J Y p)
    (hstep : Step p p') : Sound I J Y p' := by
  cases hstep with
  | start hi ha =>
    obtain ⟨ho, hwp⟩ := hW.body _ _ _ _ _ _ _ h.state h.out ha
    exact h.put (atHalt_of_wp hwp) ho
  | resume hi hr =>
    obtain ⟨hY, hk⟩ := h.waiting _ _ _ hi
    obtain ⟨t, ht⟩ := hk _ _ ⟨_, _, _, h.state, h.out, hr⟩
    exact h.put (atHalt_of_wp ht) (hW.answers _ _ _ _ _ _ _ h.state h.out hY hr)
  | cancel i => exact ⟨h.state, h.out, h.calls, h.waiting_update (by rintro _ _ ⟨⟩)⟩
  | drift hs =>
    obtain ⟨hI, hJ⟩ := hW.drifts _ _ _ _ h.state h.out hs
    exact ⟨hI, hJ, h.calls, h.waiting⟩

/-- **The invariant rule**: if every body keeps `I` from await to await and makes only calls that
`Y` allows, and the outside keeps `J`, then both hold in every reachable pool and all calls are
allowed. -/
theorem invariant_of_wp (hW : Obligations W I J Y) {s : S.State} {o : W.Out} (hs : I s) (ho : J o)
    {p : Pool W} (hp : Reachable s o p) :
    I p.state ∧ J p.out ∧ ∀ c ∈ p.calls, Y c.1 c.2 := by
  have hsound : Sound I J Y p := by
    induction hp with
    | refl => exact ⟨hs, ho, by rintro _ ⟨⟩, by rintro _ _ _ ⟨⟩⟩
    | tail _ hstep ih => exact ih.step hW hstep
  exact ⟨hsound.state, hsound.out, hsound.calls⟩

end Pool

end Omniscience
