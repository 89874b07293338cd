import Omniscience.Lib.Coro

/-!
# Straight-line coroutines

A coroutine that ignores the answers to its calls makes a list of calls that is known in advance,
and ends early only where one of them fails.  `Makes` says so of a run from any point, together
with a part of the state that the run leaves alone; it composes (`Makes.bind`, `makes_fold`).
-/

namespace Omniscience

open List

namespace Coro

variable {S : Iface} {α β γ : Type}

/-- The calls `qs` were made in this order, and every one of them returned. -/
def Done (es : List (Event S)) (qs : List S.Call) : Prop :=
  es.map Sigma.fst = qs ∧ ∀ e ∈ es, e.2.isOk = true

/-- From any point the coroutine makes the calls `qs` and returns `a`, or it raises after an
initial part of these calls; what `view` shows of the state stays as it is. -/
def Makes (env : Env S) (view : S.State → γ) (x : Coro S α) (qs : List S.Call) (a : α) : Prop :=
  ∀ t s, ∃ es, (exec env x t s).trace = t ++ es ∧ view (exec env x t s).state = view s ∧
    match (exec env x t s).result with
    | .ok b => b = a ∧ Done es qs
    | .error _ => es.map Sigma.fst <+: qs

theorem done_nil : Done ([] : List (Event S)) [] := ⟨rfl, fun _ h => absurd h not_mem_nil⟩

theorem Done.append {es es' : List (Event S)} {qs qs' : List S.Call} (h : Done es qs)
    (h' : Done es' qs') : Done (es ++ es') (qs ++ qs') := by
  refine ⟨by rw [map_append, h.1, h'.1], fun e he => ?_⟩
  rcases mem_append.1 he with he | he
  · exact h.2 e he
  · exact h'.2 e he

variable {env : Env S} {view : S.State → γ}

theorem makes_ret (a : α) : Makes env view (.ret a) [] a :=
  fun t _ => ⟨[], (append_nil t).symm, rfl, rfl, done_nil⟩

theorem makes_call {q : S.Call} [Subsingleton (S.Resp q)] (a : S.Resp q)
    (henv : ∀ t s, view (env t q s).2 = view s) : Makes env view (call q) [q] a := by
  intro t s
  have hview := henv t s
  refine ⟨[⟨q, (env t q s).1⟩], ?_⟩
  unfold call exec
  generalize env t q s = answer at hview ⊢
  obtain ⟨r, s'⟩ := answer
  cases r with
  | error e => exact ⟨rfl, hview, prefix_refl _⟩
  | ok b => exact ⟨rfl, hview, Subsingleton.elim b a, rfl, by simp [Except.isOk, Except.toBool]⟩

theorem Makes.exec_bind {x : Coro S α} {qs : List S.Call} {a : α} (hx : Makes env view x qs a)
    (f : α → Coro S β) (t : List (Event S)) (s : S.State) :
    (∃ es s', Done es qs ∧ view s' = view s ∧
      exec env (x >>= f) t s = exec env (f a) (t ++ es) s') ∨
    ∃ es s' e, es.map Sigma.fst <+: qs ∧ view s' = view s ∧
      exec env (x >>= f) t s = ⟨t ++ es, .error e, s'⟩ := by
  obtain ⟨es, ht, hview, hr⟩ := hx t s
  rw [bind_eq, Coro.exec_bind]
  generalize exec env x t s = o at ht hview hr ⊢
  obtain ⟨t', r, s'⟩ := o
  obtain rfl : t' = t ++ es := ht
  cases r with
  | ok a' =>
    obtain ⟨rfl, hdone⟩ := hr
    exact .inl ⟨es, s', hdone, hview, rfl⟩
  | error e => exact .inr ⟨es, s', e, hr, hview, rfl⟩

theorem Makes.bind {x : Coro S α} {f : α → Coro S β} {qs qs' : List S.Call} {a : α} {b : β}
    (hx : Makes env view x qs a) (hf : Makes env view (f a) qs' b) :
    Makes env view (x >>= f) (qs ++ qs') b := by
  intro t s
  obtain ⟨es, s', hdone, hview, heq⟩ | ⟨es, s', e, hcut, hview, heq⟩ := hx.exec_bind f t s
  · obtain ⟨es', ht', hview', hr'⟩ := hf (t ++ es) s'
    rw [heq]
    refine ⟨es ++ es', by rw [ht', append_assoc], hview'.trans hview, ?_⟩
    generalize (exec env (f a) (t ++ es) s').result = r at hr' ⊢
    cases r with
    | ok b' => exact ⟨hr'.1, hdone.append hr'.2⟩
    | error e =>
      dsimp only at hr' ⊢
      rw [map_append, hdone.1]
      exact (prefix_append_right_inj _).2 hr'
  · rw [heq]
    exact ⟨es, rfl, hview, hcut.trans (prefix_append _ _)⟩

/-- **The loop rule**: a loop makes the calls of its rounds, one round after the other. -/
theorem makes_fold {L : Type} {body : L → β → Coro S L} {calls : β → List S.Call}
    {next : L → β → L} (h : ∀ l b, Makes env view (body l b) (calls b) (next l b)) (l : L)
    (bs : List β) : Makes env view (fold body l bs) (bs.flatMap calls) (bs.foldl next l) := by
  induction bs generalizing l with
  | nil => exact makes_ret l
  | cons b bs ih =>
    rw [flatMap_cons]
    exact (h l b).bind (ih (next l b))

theorem makes_forEach {body : β → Coro S Unit} {calls : β → List S.Call}
    (h : ∀ b, Makes env view (body b) (calls b) ()) (bs : List β) :
    Makes env view (forEach bs body) (bs.flatMap calls) () := by
  have hloop : Makes env view (forEach bs body) (bs.flatMap calls) (bs.foldl (fun _ _ => ()) ()) :=
    makes_fold (fun _ => h) () bs
  exact hloop

end Coro

end Omniscience
