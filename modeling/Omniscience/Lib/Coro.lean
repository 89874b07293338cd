import Mathlib.Logic.Basic

/-!
# Cooperative coroutines

A coroutine runs on a shared state, awaits *calls* to the outside and may raise.  Between two
awaits it runs without interruption, so a state update is atomic however many statements of the
source it stands for; at an await it is suspended, the outside answers the call (with a value or
with an exception) and may have changed the shared state meanwhile.

* `Coro S α` is the syntax: return, raise, update the state, await a call.
* `Coro.exec` runs a coroutine against an environment `Env S`, which answers every call and
  stands for everything that happens while the coroutine is suspended.  It is a function, so a
  statement about every run is a statement about every environment.
* `Coro.wp` is the weakest precondition of a coroutine under a `Contract`: what it has to
  establish whenever it suspends (`yields`) and what it may assume when it is resumed
  (`resumes`).  `Coro.exec_of_wp` turns a weakest precondition into a statement about runs, and
  the rules `wp_bind`, `wp_tryCatch` and `wp_mono` are how one is proved.
-/

namespace Omniscience

open List

/-- What a family of coroutines works on: the shared state, the exceptions, the calls to the
outside and the type of the answer to each call. -/
structure Iface where
  State : Type
  Exc : Type
  Call : Type
  Resp : Call → Type

/-- A coroutine with result `α`. -/
inductive Coro (S : Iface) (α : Type) where
  | ret (a : α)
  | raise (e : S.Exc)
  /-- Update the shared state with `f` and go on with the state as it was before. -/
  | upd (f : S.State → S.State) (k : S.State → Coro S α)
  /-- Suspend until the call `q` is answered. -/
  | await (q : S.Call) (k : Except S.Exc (S.Resp q) → Coro S α)

/-- An answered call. -/
abbrev Event (S : Iface) := (q : S.Call) × Except S.Exc (S.Resp q)

/-- The outside: it answers a call, given the calls answered so far and the state at the
suspension, and leaves the state in which the coroutine is resumed. -/
abbrev Env (S : Iface) :=
  List (Event S) → (q : S.Call) → S.State → Except S.Exc (S.Resp q) × S.State

/-- How a run ended: the calls it made, oldest first, its result and the state it left. -/
structure Outcome (S : Iface) (α : Type) where
  trace : List (Event S)
  result : Except S.Exc α
  state : S.State

namespace Coro

variable {S : Iface} {α β : Type}

/-- Run `x`, then `f` on its value. -/
protected def bind : Coro S α → (α → Coro S β) → Coro S β
  | .ret a, f => f a
  | .raise e, _ => .raise e
  | .upd g k, f => .upd g fun s => (k s).bind f
  | .await q k, f => .await q fun r => (k r).bind f

/-- Run `x`; if it raises, run the handler. -/
def tryCatch : Coro S α → (S.Exc → Coro S α) → Coro S α
  | .ret a, _ => .ret a
  | .raise e, h => h e
  | .upd g k, h => .upd g fun s => (k s).tryCatch h
  | .await q k, h => .await q fun r => (k r).tryCatch h

instance : Monad (Coro S) where
  pure := .ret
  bind := Coro.bind

/-- Read the shared state. -/
def get : Coro S S.State := .upd id .ret

/-- Update the shared state. -/
def modify (f : S.State → S.State) : Coro S Unit := .upd f fun _ => .ret ()

/-- Await a call; an exception of the callee is raised here. -/
def call (q : S.Call) : Coro S (S.Resp q) :=
  .await q fun
    | .ok r => .ret r
    | .error e => .raise e

/-- A pure computation that may raise. -/
def lift : Except S.Exc α → Coro S α
  | .ok a => .ret a
  | .error e => .raise e

/-- Run the body on every element of a list, in order, and hand the result of each round to the
next; the first exception ends the loop. -/
def fold {L : Type} (body : L → β → Coro S L) : L → List β → Coro S L
  | l, [] => .ret l
  | l, b :: bs => do
    let l ← body l b
    fold body l bs

/-- `fold` for a body without a result. -/
def forEach (bs : List β) (body : β → Coro S Unit) : Coro S Unit :=
  fold (fun _ => body) () bs

@[simp] theorem pure_eq (a : α) : (pure a : Coro S α) = .ret a := rfl

@[simp] theorem bind_eq (x : Coro S α) (f : α → Coro S β) : x >>= f = x.bind f := rfl

/-! ### Runs -/

/-- Run a coroutine against the environment `env`, from the state `s` after the calls `t`. -/
def exec (env : Env S) : Coro S α → List (Event S) → S.State → Outcome S α
  | .ret a, t, s => ⟨t, .ok a, s⟩
  | .raise e, t, s => ⟨t, .error e, s⟩
  | .upd f k, t, s => exec env (k s) t (f s)
  | .await q k, t, s =>
    exec env (k (env t q s).1) (t ++ [⟨q, (env t q s).1⟩]) (env t q s).2

theorem bind_assoc {γ : Type} (x : Coro S α) (f : α → Coro S β) (g : β → Coro S γ) :
    (x.bind f).bind g = x.bind fun a => (f a).bind g := by
  induction x with
  | ret a => rfl
  | raise e => rfl
  | upd h k ih => exact congrArg (Coro.upd h) (funext ih)
  | await q k ih => exact congrArg (Coro.await q) (funext ih)

theorem fold_append {L : Type} (body : L → β → Coro S L) (l : L) (bs bs' : List β) :
    fold body l (bs ++ bs') = (fold body l bs).bind fun l => fold body l bs' := by
  induction bs generalizing l with
  | nil => rfl
  | cons b bs ih =>
    rw [cons_append, fold, fold, bind_eq, bind_eq, bind_assoc]
    simp only [ih]

variable (env : Env S) (t : List (Event S)) (s : S.State)

theorem exec_bind (x : Coro S α) (f : α → Coro S β) : exec env (x.bind f) t s =
      match exec env x t s with
      | ⟨t', .ok a, s'⟩ => exec env (f a) t' s'
      | ⟨t', .error e, s'⟩ => ⟨t', .error e, s'⟩ := by
  induction x generalizing t s with
  | ret a => rfl
  | raise e => rfl
  | upd g k ih => exact ih _ _ _
  | await q k ih => exact ih _ _ _

theorem exec_tryCatch (x : Coro S α) (h : S.Exc → Coro S α) : exec env (x.tryCatch h) t s =
      match exec env x t s with
      | ⟨t', .ok a, s'⟩ => ⟨t', .ok a, s'⟩
      | ⟨t', .error e, s'⟩ => exec env (h e) t' s' := by
  induction x generalizing t s with
  | ret a => rfl
  | raise e => rfl
  | upd g k ih => exact ih _ _ _
  | await q k ih => exact ih _ _ _

end Coro

/-! ### Weakest preconditions -/

/-- The two sides of a suspension. -/
structure Contract (S : Iface) where
  /-- What a coroutine establishes when it suspends on a call, given the calls so far. -/
  yields : List (Event S) → S.Call → S.State → Prop
  /-- What it may assume when it is resumed: `resumes t q s r s'` relates the state `s` of the
  suspension to the answer `r` and the state `s'` of the resumption. -/
  resumes : List (Event S) → (q : S.Call) → S.State → Except S.Exc (S.Resp q) → S.State → Prop

/-- The contract of a run that relies on nothing and owes nothing. -/
def Contract.free {S : Iface} : Contract S := ⟨fun _ _ _ => True, fun _ _ _ _ _ => True⟩

/-- The contract of a run against one environment. -/
def Contract.only {S : Iface} (env : Env S) : Contract S :=
  ⟨fun _ _ _ => True, fun t q s r s' => env t q s = (r, s')⟩

/-- What a run has to end with, given its calls, its result and its final state. -/
abbrev Post (S : Iface) (α : Type) := List (Event S) → Except S.Exc α → S.State → Prop

namespace Coro

variable {S : Iface} {α β : Type} (K : Contract S)

/-- The weakest precondition of a coroutine under a contract. -/
def wp : Coro S α → Post S α → List (Event S) → S.State → Prop
  | .ret a, Q, t, s => Q t (.ok a) s
  | .raise e, Q, t, s => Q t (.error e) s
  | .upd f k, Q, t, s => wp (k s) Q t (f s)
  | .await q k, Q, t, s =>
    K.yields t q s ∧ ∀ r s', K.resumes t q s r s' → wp (k r) Q (t ++ [⟨q, r⟩]) s'

variable {K}

variable {Q : Post S α}

@[simp] theorem wp_ret {a : α} {t s} : wp K (.ret a) Q t s ↔ Q t (.ok a) s :=
  Iff.rfl

@[simp] theorem wp_lift {a : Except S.Exc α} {t s} : wp K (lift a) Q t s ↔ Q t a s := by
  cases a <;> exact Iff.rfl

variable {x : Coro S α}

theorem wp_mono {Q Q' : Post S α} {t s} (h : wp K x Q t s) (hQ : ∀ t r s, Q t r s → Q' t r s) :
    wp K x Q' t s := by
  induction x generalizing t s with
  | ret a => exact hQ _ _ _ h
  | raise e => exact hQ _ _ _ h
  | upd f k ih => exact ih _ h
  | await q k ih => exact ⟨h.1, fun r s' hr => ih r (h.2 r s' hr)⟩

theorem wp_bind {f : α → Coro S β} {Q : Post S β} {t s} : wp K (x >>= f) Q t s ↔
      wp K x (fun t r s => match r with
        | .ok a => wp K (f a) Q t s
        | .error e => Q t (.error e) s) t s := by
  induction x generalizing t s with
  | ret a => exact Iff.rfl
  | raise e => exact Iff.rfl
  | upd g k ih => exact ih _
  | await q k ih => exact and_congr_right fun _ => forall₃_congr fun r _ _ => ih r

theorem wp_tryCatch {h : S.Exc → Coro S α} {t s} : wp K (x.tryCatch h) Q t s ↔
      wp K x (fun t r s => match r with
        | .ok a => Q t (.ok a) s
        | .error e => wp K (h e) Q t s) t s := by
  induction x generalizing t s with
  | ret a => exact Iff.rfl
  | raise e => exact Iff.rfl
  | upd g k ih => exact ih _
  | await q k ih => exact and_congr_right fun _ => forall₃_congr fun r _ _ => ih r

theorem wp_get_bind {f : S.State → Coro S α} {t s} : wp K (get >>= f) Q t s ↔ wp K (f s) Q t s :=
  Iff.rfl

theorem wp_modify_bind {g : S.State → S.State} {f : Unit → Coro S α} {t s} :
    wp K (modify g >>= f) Q t s ↔ wp K (f ()) Q t (g s) :=
  Iff.rfl

theorem wp_seq {f : α → Coro S β} {P : Post S α} {Q : Post S β} {t s} (hx : wp K x P t s)
    (hok : ∀ a t s, P t (.ok a) s → wp K (f a) Q t s)
    (herror : ∀ e t s, P t (.error e) s → Q t (.error e) s) : wp K (x >>= f) Q t s := by
  refine wp_bind.2 (wp_mono hx fun t r s h => ?_)
  cases r with
  | ok a => exact hok a t s h
  | error e => exact herror e t s h

theorem wp_try {f : S.Exc → Coro S α} {P Q : Post S α} {t s} (hx : wp K x P t s)
    (hok : ∀ a t s, P t (.ok a) s → Q t (.ok a) s)
    (herror : ∀ e t s, P t (.error e) s → wp K (f e) Q t s) : wp K (x.tryCatch f) Q t s := by
  refine wp_tryCatch.2 (wp_mono hx fun t r s h => ?_)
  cases r with
  | ok a => exact hok a t s h
  | error e => exact herror e t s h

theorem wp_call {q : S.Call} {Q : Post S (S.Resp q)} {t s} : wp K (call q) Q t s ↔
      K.yields t q s ∧ ∀ r s', K.resumes t q s r s' → Q (t ++ [⟨q, r⟩]) r s' := by
  refine and_congr_right fun _ => forall₃_congr fun r s' _ => ?_
  cases r <;> exact Iff.rfl

/-- **The loop rule**: what holds before a round, given the elements still to come, holds before
the next one. -/
theorem wp_fold {L : Type} {body : L → β → Coro S L} {Q : Post S L}
    (I : List β → L → List (Event S) → S.State → Prop) (hend : ∀ l t s, I [] l t s → Q t (.ok l) s)
    (hbody : ∀ b bs l t s, I (b :: bs) l t s →
      wp K (body l b) (fun t r s => match r with
        | .ok l => I bs l t s
        | .error e => Q t (.error e) s) t s)
    {bs : List β} {l : L} {t s} (h : I bs l t s) : wp K (fold body l bs) Q t s := by
  induction bs generalizing l t s with
  | nil => exact hend _ _ _ h
  | cons b bs ih =>
    rw [fold, wp_bind]
    refine wp_mono (hbody b bs l t s h) fun t r s hr => ?_
    cases r with
    | error e => exact hr
    | ok l => exact ih hr

theorem wp_forEach {bs : List β} {body : β → Coro S Unit} {Q : Post S Unit} {t s}
    (hQ : Q t (.ok ()) s) (hbody : ∀ b ∈ bs, ∀ t s, Q t (.ok ()) s → wp K (body b) Q t s) :
    wp K (forEach bs body) Q t s := by
  refine wp_fold (fun bs' _ t s => bs' ⊆ bs ∧ Q t (.ok ()) s) (fun _ _ _ h => h.2) ?_
    ⟨List.Subset.refl bs, hQ⟩
  rintro b bs' - t s ⟨hsub, hQ⟩
  refine wp_mono (hbody b (hsub mem_cons_self) t s hQ) fun t r s h => ?_
  cases r with
  | error e => exact h
  | ok u => exact ⟨fun x hx => hsub (mem_cons_of_mem _ hx), h⟩

/-! ### Coroutines that keep an invariant -/

/-- Where `I` holds the call `q` may be made, and its answer hands `I` back. -/
structure Respects (K : Contract S) (I : List (Event S) → S.State → Prop) (q : S.Call) :
    Prop where
  yields : ∀ t s, I t s → K.yields t q s
  resumes : ∀ t s r s', I t s → K.resumes t q s r s' → I (t ++ [⟨q, r⟩]) s'

/-- The coroutine keeps `I`: from await to await, and to its end, however it ends. -/
structure Keeps (K : Contract S) (I : List (Event S) → S.State → Prop) (x : Coro S α) : Prop where
  run : ∀ t s, I t s → wp K x (fun t _ s => I t s) t s

section Keeps

variable {I : List (Event S) → S.State → Prop}

theorem keeps_ret (a : α) : Keeps K I (.ret a : Coro S α) := ⟨fun _ _ h => h⟩

theorem keeps_pure (a : α) : Keeps K I (pure a : Coro S α) := ⟨fun _ _ h => h⟩

theorem keeps_raise (e : S.Exc) : Keeps K I (.raise e : Coro S α) := ⟨fun _ _ h => h⟩

theorem keeps_lift (a : Except S.Exc α) : Keeps K I (lift a) := by
  cases a <;> exact ⟨fun _ _ h => h⟩

theorem keeps_get : Keeps K I get := ⟨fun _ _ h => h⟩

theorem keeps_modify {f : S.State → S.State} (hf : ∀ t s, I t s → I t (f s)) :
    Keeps K I (modify f) :=
  ⟨fun t s h => hf t s h⟩

theorem keeps_call {q : S.Call} (hq : Respects K I q) : Keeps K I (call q) := by
  refine ⟨fun t s h => wp_call.2 ⟨hq.yields t s h, fun r s' hr => ?_⟩⟩
  exact hq.resumes t s r s' h hr

theorem Keeps.bind {x : Coro S α} {f : α → Coro S β} (hx : Keeps K I x)
    (hf : ∀ a, Keeps K I (f a)) : Keeps K I (x >>= f) :=
  ⟨fun t s h => wp_seq (hx.run t s h) (fun a t s h => (hf a).run t s h) fun _ _ _ h => h⟩

theorem Keeps.tryCatch {x : Coro S α} {f : S.Exc → Coro S α} (hx : Keeps K I x)
    (hf : ∀ e, Keeps K I (f e)) : Keeps K I (x.tryCatch f) :=
  ⟨fun t s h => wp_try (hx.run t s h) (fun _ _ _ h => h) fun e t s h => (hf e).run t s h⟩

theorem keeps_fold {L : Type} {body : L → β → Coro S L} (h : ∀ l b, Keeps K I (body l b)) {l : L}
    {bs : List β} : Keeps K I (fold body l bs) := by
  refine ⟨fun t s hs => wp_fold (fun _ _ t s => I t s) (fun _ _ _ h => h) ?_ hs⟩
  intro b bs l t s hs
  refine wp_mono ((h l b).run t s hs) fun t r s h => ?_
  cases r <;> exact h

theorem keeps_forEach {bs : List β} {body : β → Coro S Unit} (h : ∀ b, Keeps K I (body b)) :
    Keeps K I (forEach bs body) :=
  keeps_fold fun _ b => h b

theorem keeps_mem (hK : ∀ t q s, K.yields t q s) (ev : Event S) (x : Coro S α) :
    Keeps K (fun t _ => ev ∈ t) x := by
  refine ⟨fun t s h => ?_⟩
  induction x generalizing t s with
  | ret a => exact h
  | raise e => exact h
  | upd f k ih => exact ih s t (f s) h
  | await q k ih => exact ⟨hK t q s, fun r s' _ => ih r _ s' (mem_append_left _ h)⟩

end Keeps

/-! ### Coroutines that only make some calls -/

/-- The coroutine leaves the state alone and makes only calls in `A`. -/
def Reads (A : S.Call → Prop) : Coro S α → Prop
  | .ret _ | .raise _ => True
  | .upd f k => f = id ∧ ∀ s, (k s).Reads A
  | .await q k => A q ∧ ∀ r, (k r).Reads A

section Reads

variable {A : S.Call → Prop}

theorem reads_pure (a : α) : (pure a : Coro S α).Reads A := trivial

theorem reads_get : (get : Coro S S.State).Reads A := ⟨rfl, fun _ => trivial⟩

theorem reads_call {q : S.Call} (hq : A q) : (call q).Reads A := by
  refine ⟨hq, fun r => ?_⟩
  cases r <;> trivial

theorem Reads.bind {x : Coro S α} {f : α → Coro S β} (hx : x.Reads A) (hf : ∀ a, (f a).Reads A) :
    (x >>= f).Reads A := by
  induction x with
  | ret a => exact hf a
  | raise e => trivial
  | upd g k ih => exact ⟨hx.1, fun s => ih s (hx.2 s)⟩
  | await q k ih => exact ⟨hx.1, fun r => ih r (hx.2 r)⟩

theorem reads_fold {L : Type} {body : L → β → Coro S L} (h : ∀ l b, (body l b).Reads A) (l : L)
    (bs : List β) : (fold body l bs).Reads A := by
  induction bs generalizing l with
  | nil => trivial
  | cons b bs ih => exact (h l b).bind ih

theorem Reads.keeps {I : List (Event S) → S.State → Prop} {x : Coro S α} (hx : x.Reads A)
    (hA : ∀ q, A q → Respects K I q) : Keeps K I x := by
  refine ⟨fun t s h => ?_⟩
  induction x generalizing t s with
  | ret a => exact h
  | raise e => exact h
  | upd f k ih =>
    obtain ⟨rfl, hk⟩ := hx
    exact ih s (hk s) t s h
  | await q k ih =>
    refine ⟨(hA q hx.1).yields t s h, fun r s' hr => ?_⟩
    exact ih r (hx.2 r) _ s' ((hA q hx.1).resumes t s r s' h hr)

end Reads

/-- The environment keeps its side of the contract. -/
def Obeys (env : Env S) (K : Contract S) : Prop :=
  ∀ t q s, K.yields t q s → K.resumes t q s (env t q s).1 (env t q s).2

/-- **Adequacy**: a run against an environment that obeys the contract ends as the weakest
precondition says. -/
theorem exec_of_wp {env : Env S} (henv : Obeys env K) {t s} (h : wp K x Q t s) :
    Q (exec env x t s).trace (exec env x t s).result (exec env x t s).state := by
  induction x generalizing t s with
  | ret a => exact h
  | raise e => exact h
  | upd f k ih => exact ih _ h
  | await q k ih => exact ih _ (h.2 _ _ (henv t q s h.1))

theorem obeys_free (env : Env S) : Obeys env .free := fun _ _ _ _ => trivial

theorem obeys_only (env : Env S) : Obeys env (.only env) := fun _ _ _ _ => rfl

end Coro

/-! ### Properties of traces -/

/-- Every element of `l` that satisfies `P` stands right after one that it is related to. -/
def EachAfter {E : Type} (P : E → Prop) (R : E → E → Prop) (l : List E) : Prop :=
  ∀ pre b post, l = pre ++ b :: post → P b → ∃ pre' a, pre = pre' ++ [a] ∧ R a b

theorem eachAfter_nil {E : Type} {P : E → Prop} {R : E → E → Prop} : EachAfter P R [] := by
  intro pre b post h
  cases pre <;> cases h

theorem eachAfter_concat {E : Type} {P : E → Prop} {R : E → E → Prop} {l : List E} {b : E} :
    EachAfter P R (l ++ [b]) ↔
      EachAfter P R l ∧ (P b → ∃ pre a, l = pre ++ [a] ∧ R a b) := by
  constructor
  · intro h
    refine ⟨fun pre b' post hl => ?_, h l b [] rfl⟩
    exact h pre b' (post ++ [b]) (by rw [hl, append_assoc, cons_append])
  · rintro ⟨hl, hb⟩ pre b' post h hP
    -- the element in question is the last one, or it lies in `l`
    rcases eq_nil_or_concat post with rfl | ⟨post', c, rfl⟩
    · obtain ⟨rfl, hbb⟩ := append_inj' h rfl
      cases hbb
      exact hb hP
    · have h' : l ++ [b] = (pre ++ b' :: post') ++ [c] := by
        rw [h, append_assoc, cons_append, concat_eq_append]
      obtain ⟨rfl, -⟩ := append_inj' h' rfl
      exact hl pre b' post' rfl hP

end Omniscience
