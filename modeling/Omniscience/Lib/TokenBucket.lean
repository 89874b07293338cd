import Mathlib.Data.List.Count
import Mathlib.Tactic.Linarith
import Mathlib.Tactic.Ring
import Omniscience.Lib.OrderedField

/-!
# Token buckets

A token bucket holds at most `capacity` tokens and gains `rate` tokens a unit of time.  A request
takes a token if there is one; the first request finds the bucket full.  Times and tokens are in an
ordered field.

* `TokenBucket.countP_admitted_le` : **the bound**: in a window of length `T` at most
  `capacity + rate * T` requests are admitted, whatever came before the window.
* `TokenBucket.allowed_after_wait` : **the least wait**: the next request is admitted if and only if
  it comes at least `wait` later.
-/

namespace Omniscience.TokenBucket

open List OrderedField

variable {F : Type*} [Field F] [LinearOrder F]

/-- A bucket: what it held when it was last looked at, and when that was. -/
structure Bucket (F : Type*) where
  tokens : F
  last : F

/-- How many tokens a bucket holds at most, and how fast it gains them. -/
structure Budget (F : Type*) where
  capacity : F
  rate : F

namespace Budget

variable (b : Budget F)

/-- The tokens the bucket holds at a time. -/
def tokensAt (s : Bucket F) (now : F) : F := min b.capacity (s.tokens + (now - s.last) * b.rate)

/-- A request: the bucket it leaves, and whether it is admitted. -/
def request : Option (Bucket F) → F → Bucket F × Bool
  | none, now => (⟨b.capacity - 1, now⟩, true)
  | some s, now =>
    if 1 ≤ b.tokensAt s now then (⟨b.tokensAt s now - 1, now⟩, true)
    else (⟨b.tokensAt s now, now⟩, false)

/-- The times of the requests that are admitted. -/
def admitted (s : Option (Bucket F)) : List F → List F
  | [] => []
  | now :: rest =>
    if (b.request s now).2 then now :: admitted (some (b.request s now).1) rest
    else admitted (some (b.request s now).1) rest

/-- How long after a denied request the bucket holds a token again. -/
def wait (tokens : F) : F := (1 - tokens) / b.rate

end Budget

variable {b : Budget F}

theorem request_allowed {s : Bucket F} {now : F} (h : 1 ≤ b.tokensAt s now) :
    b.request (some s) now = (⟨b.tokensAt s now - 1, now⟩, true) :=
  if_pos h

theorem request_denied {s : Bucket F} {now : F} (h : ¬ 1 ≤ b.tokensAt s now) :
    b.request (some s) now = (⟨b.tokensAt s now, now⟩, false) :=
  if_neg h

theorem request_snd {s : Bucket F} {now : F} :
    (b.request (some s) now).2 = true ↔ 1 ≤ b.tokensAt s now := by
  by_cases h : 1 ≤ b.tokensAt s now
  · simp [request_allowed h, h]
  · simp [request_denied h, h]

variable (s : Option (Bucket F))

@[simp] theorem request_last (now : F) : (b.request s now).1.last = now := by
  cases s with
  | none => rfl
  | some s =>
    by_cases h : 1 ≤ b.tokensAt s now
    · rw [request_allowed h]
    · rw [request_denied h]

theorem admitted_sublist (l : List F) : (b.admitted s l).Sublist l := by
  induction l generalizing s with
  | nil => exact List.Sublist.refl _
  | cons now rest ih =>
    rw [Budget.admitted]
    split
    · exact (ih _).cons_cons now
    · exact (ih _).cons now

theorem tokensAt_le (s : Bucket F) (now : F) :
    b.tokensAt s now ≤ s.tokens + (now - s.last) * b.rate :=
  min_le_right _ _

theorem request_tokens_le (now : F) :
    (b.request s now).1.tokens + (if (b.request s now).2 then 1 else 0) ≤ b.capacity := by
  cases s with
  | none => simp [Budget.request]
  | some s =>
    have hle : b.tokensAt s now ≤ b.capacity := min_le_left _ _
    by_cases h : 1 ≤ b.tokensAt s now
    · rw [request_allowed h]
      simpa using hle
    · rw [request_denied h]
      simpa using hle

theorem request_tokens_le_gain (s : Bucket F) (now : F) :
    (b.request (some s) now).1.tokens + (if (b.request (some s) now).2 then 1 else 0) ≤
      s.tokens + (now - s.last) * b.rate := by
  have hle := tokensAt_le (b := b) s now
  by_cases h : 1 ≤ b.tokensAt s now
  · rw [request_allowed h]
    simpa using hle
  · rw [request_denied h]
    simpa using hle

theorem countP_admitted_cons {p : F → Bool} {now : F} (hp : p now = true) (rest : List F) :
    ((b.admitted s (now :: rest)).countP p : F) =
      (if (b.request s now).2 then 1 else 0) +
        (b.admitted (some (b.request s now).1) rest).countP p := by
  rw [Budget.admitted]
  split
  · rw [countP_cons_of_pos hp, Nat.cast_add, Nat.cast_one, add_comm]
  · rw [zero_add]

theorem countP_admitted_cons_neg {p : F → Bool} {now : F} (hp : p now = false) (rest : List F) :
    (b.admitted s (now :: rest)).countP p =
      (b.admitted (some (b.request s now).1) rest).countP p := by
  rw [Budget.admitted]
  split
  · rw [countP_cons_of_neg (by simp [hp])]
  · rfl

section Bound

variable [IsStrictOrderedRing F]

theorem tokensAt_nonneg {s : Bucket F} {now : F} (hc : 1 ≤ b.capacity) (hr : 0 ≤ b.rate)
    (hs : 0 ≤ s.tokens) (hl : s.last ≤ now) : 0 ≤ b.tokensAt s now := by
  have hgain : 0 ≤ (now - s.last) * b.rate := mul_nonneg (sub_nonneg.2 hl) hr
  exact le_min (by linarith) (by linarith)

theorem tokensAt_tokensAt (hr : 0 ≤ b.rate) (s : Bucket F) {now later : F} (h : now ≤ later) :
    b.tokensAt ⟨b.tokensAt s now, now⟩ later = b.tokensAt s later := by
  have hgain : 0 ≤ (later - now) * b.rate := mul_nonneg (sub_nonneg.2 h) hr
  have hsum : s.tokens + (now - s.last) * b.rate + (later - now) * b.rate =
      s.tokens + (later - s.last) * b.rate := by ring
  rw [Budget.tokensAt, Budget.tokensAt, Budget.tokensAt, min_add, hsum, ← min_assoc,
    min_eq_left (le_add_of_nonneg_right hgain)]

theorem request_tokens_nonneg {s : Option (Bucket F)} {now : F} (hc : 1 ≤ b.capacity)
    (hr : 0 ≤ b.rate) (hs : ∀ s' ∈ s, 0 ≤ s'.tokens ∧ s'.last ≤ now) :
    0 ≤ (b.request s now).1.tokens := by
  cases s with
  | none => exact sub_nonneg.2 hc
  | some s =>
    obtain ⟨ht, hl⟩ := hs s rfl
    by_cases h : 1 ≤ b.tokensAt s now
    · rw [request_allowed h]
      exact sub_nonneg.2 h
    · rw [request_denied h]
      exact tokensAt_nonneg hc hr ht hl

theorem countP_admitted_le_tokens (hc : 1 ≤ b.capacity) (hr : 0 ≤ b.rate) {s : Bucket F}
    {l : List F} {e : F} (hs : 0 ≤ s.tokens) (he : s.last ≤ e) (hl : ∀ t ∈ l, s.last ≤ t)
    (hsorted : l.Pairwise (· ≤ ·)) :
    ((b.admitted (some s) l).countP (· ≤ e) : F) ≤ s.tokens + (e - s.last) * b.rate := by
  induction l generalizing s with
  | nil =>
    have hgain : 0 ≤ (e - s.last) * b.rate := mul_nonneg (sub_nonneg.2 he) hr
    simp only [Budget.admitted, countP_nil, Nat.cast_zero]
    linarith
  | cons now rest ih =>
    obtain ⟨hnow, hrest⟩ := pairwise_cons.1 hsorted
    by_cases hin : now ≤ e
    · rw [countP_admitted_cons _ (by simpa using hin)]
      have hnext := ih (s := (b.request (some s) now).1)
        (request_tokens_nonneg hc hr fun s' hs' => by
          cases hs'
          exact ⟨hs, hl now mem_cons_self⟩)
        (by rwa [request_last]) (by rwa [request_last]) hrest
      have hgain := request_tokens_le_gain (b := b) s now
      rw [request_last] at hnext
      linarith
    · -- the window is over: nothing that follows is in it
      have hnone : (b.admitted (some s) (now :: rest)).countP (· ≤ e) = 0 := by
        refine countP_eq_zero.2 fun t ht => ?_
        have hle : now ≤ t := by
          rcases mem_cons.1 ((admitted_sublist _ _).subset ht) with rfl | hmem
          · exact le_rfl
          · exact hnow t hmem
        simpa using lt_of_lt_of_le (not_le.1 hin) hle
      have hgain : 0 ≤ (e - s.last) * b.rate := mul_nonneg (sub_nonneg.2 he) hr
      rw [hnone, Nat.cast_zero]
      linarith

/-- **The bound**: a window of length `T` admits at most `capacity + rate * T` requests. -/
theorem countP_admitted_le (hc : 1 ≤ b.capacity) (hr : 0 ≤ b.rate) {s : Option (Bucket F)}
    {l : List F} {a T : F} (hT : 0 ≤ T) (hs : ∀ s' ∈ s, 0 ≤ s'.tokens ∧ ∀ t ∈ l, s'.last ≤ t)
    (hsorted : l.Pairwise (· ≤ ·)) :
    ((b.admitted s l).countP (fun t => a ≤ t ∧ t ≤ a + T) : F) ≤ b.capacity + b.rate * T := by
  have hTr : 0 ≤ b.rate * T := mul_nonneg hr hT
  induction l generalizing s with
  | nil =>
    simp only [Budget.admitted, countP_nil, Nat.cast_zero]
    linarith
  | cons now rest ih =>
    obtain ⟨hnow, hrest⟩ := pairwise_cons.1 hsorted
    have hpos : 0 ≤ (b.request s now).1.tokens :=
      request_tokens_nonneg hc hr fun s' hs' => ⟨(hs s' hs').1, (hs s' hs').2 _ mem_cons_self⟩
    by_cases hin : a ≤ now ∧ now ≤ a + T
    · -- the first request in the window: the bucket is not over its capacity
      rw [countP_admitted_cons _ (by simpa using hin)]
      have hle : ((b.admitted (some (b.request s now).1) rest).countP
          (fun t => a ≤ t ∧ t ≤ a + T) : F) ≤
          (b.admitted (some (b.request s now).1) rest).countP (· ≤ a + T) := by
        refine Nat.cast_le.2 (countP_mono_left fun t _ ht => ?_)
        simp only [decide_eq_true_eq] at ht ⊢
        exact ht.2
      have hrun := countP_admitted_le_tokens (e := a + T) hc hr hpos
        (by rw [request_last]; exact hin.2) (by rwa [request_last]) hrest
      have hcap := request_tokens_le (b := b) s now
      rw [request_last] at hrun
      have hmono : (a + T - now) * b.rate ≤ b.rate * T := by
        rw [mul_comm]
        exact mul_le_mul_of_nonneg_left (by linarith [hin.1]) hr
      linarith
    · rw [countP_admitted_cons_neg _ (by simpa using hin)]
      refine ih ?_ hrest
      rintro s' ⟨⟩
      exact ⟨hpos, by rwa [request_last]⟩

/-- **The least wait**: the next request is admitted if and only if it waits for the missing part of
a token. -/
theorem allowed_after_wait (hc : 1 ≤ b.capacity) (hr : 0 < b.rate) (s : Option (Bucket F))
    (now w : F) : (b.request (some (b.request s now).1) (now + w)).2 = true ↔
      b.wait (b.request s now).1.tokens ≤ w := by
  rw [request_snd, Budget.tokensAt, request_last, le_min_iff, Budget.wait, div_le_iff₀ hr]
  constructor
  · rintro ⟨-, hge⟩
    linarith
  · intro hge
    exact ⟨hc, by linarith⟩

theorem wait_pos (hr : 0 < b.rate) {s : Option (Bucket F)} {now : F}
    (h : (b.request s now).2 = false) : 0 < b.wait (b.request s now).1.tokens := by
  cases s with
  | none => simp [Budget.request] at h
  | some s =>
    have hlt : ¬ 1 ≤ b.tokensAt s now := fun hle => by simp [request_snd.2 hle] at h
    rw [request_denied hlt]
    exact div_pos (sub_pos.2 (not_le.1 hlt)) hr

end Bound

end Omniscience.TokenBucket
