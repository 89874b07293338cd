import Mathlib.Tactic.FieldSimp
import Mathlib.Tactic.Linarith
import Mathlib.Tactic.Positivity
import Mathlib.Tactic.Ring
import Omniscience.Lib.OrderedField

/-!
# Linear interpolation

Knots are points `(t, v)` with increasing `t`; between two of them the interpolation is linear, and
outside it is constant.  If the values of the knots do not decrease, then the interpolation does not
(`interpolate_mono`), and it lies between the first and the last of them.
-/

namespace Omniscience.Interpolation

open List OrderedField

variable {K : Type*} [Field K] [LinearOrder K]

/-- The line through two knots. -/
def line (k k' : K × K) (p : K) : K := k.2 + (p - k.1) * (k'.2 - k.2) / (k'.1 - k.1)

/-- The interpolation of the knots. -/
def interpolate (p : K) : List (K × K) → K
  | [] => 0
  | [k] => k.2
  | k :: k' :: rest =>
    if p ≤ k.1 then k.2 else if p ≤ k'.1 then line k k' p else interpolate p (k' :: rest)

attribute [grind =] interpolate

/-- The knots follow each other, and their values do not decrease. -/
def Increasing (knots : List (K × K)) : Prop :=
  knots.Pairwise fun k k' => k.1 < k'.1 ∧ k.2 ≤ k'.2

variable {k k' : K × K} {knots pre : List (K × K)} {p q v : K}

theorem interpolate_of_le (h : p ≤ k.1) : interpolate p (k :: knots) = k.2 := by
  cases knots with
  | nil => rfl
  | cons k' rest => rw [interpolate, if_pos h]

theorem interpolate_between (h : k.1 < p) (h' : p ≤ k'.1) :
    interpolate p (k :: k' :: knots) = line k k' p := by
  rw [interpolate, if_neg (not_le.2 h), if_pos h']

theorem interpolate_beyond (h : k.1 < k'.1) (h' : k'.1 < p) :
    interpolate p (k :: k' :: knots) = interpolate p (k' :: knots) := by
  rw [interpolate, if_neg (not_le.2 (h.trans h')), if_neg (not_le.2 h')]

theorem line_right (h : k.1 < k'.1) [IsStrictOrderedRing K] : line k k' k'.1 = k'.2 := by
  have hne : k'.1 - k.1 ≠ 0 := (sub_pos.2 h).ne'
  rw [line, mul_comm, mul_div_assoc, div_self hne, mul_one]
  ring

variable [IsStrictOrderedRing K]

theorem line_mono (h : k.1 < k'.1) (hv : k.2 ≤ k'.2) (hpq : p ≤ q) : line k k' p ≤ line k k' q := by
  have hden : 0 < k'.1 - k.1 := sub_pos.2 h
  have hnum : (p - k.1) * (k'.2 - k.2) ≤ (q - k.1) * (k'.2 - k.2) :=
    mul_le_mul_of_nonneg_right (sub_le_sub_right hpq _) (sub_nonneg.2 hv)
  exact add_le_add_right (div_le_div_of_nonneg_right hnum hden.le) _

omit [LinearOrder K] [IsStrictOrderedRing K] in
theorem line_left : line k k' k.1 = k.2 := by simp [line]

theorem le_interpolate (h : Increasing (k :: knots)) (p : K) :
    k.2 ≤ interpolate p (k :: knots) := by
  induction knots generalizing k with
  | nil => exact le_rfl
  | cons k' rest ih =>
    obtain ⟨hk, hrest⟩ := pairwise_cons.1 h
    obtain ⟨hlt, hle⟩ := hk k' mem_cons_self
    rcases le_or_gt p k.1 with hp | hp
    · rw [interpolate_of_le hp]
    · rcases le_or_gt p k'.1 with hp' | hp'
      · have hleft : line k k' k.1 = k.2 := line_left
        rw [interpolate_between hp hp', ← hleft]
        exact line_mono hlt hle hp.le
      · rw [interpolate_beyond hlt hp']
        exact hle.trans (ih hrest)

/-- **The interpolation does not decrease.** -/
theorem interpolate_mono (h : Increasing knots) (hpq : p ≤ q) :
    interpolate p knots ≤ interpolate q knots := by
  induction knots with
  | nil => exact le_rfl
  | cons k knots ih =>
    cases knots with
    | nil => exact le_rfl
    | cons k' rest =>
      obtain ⟨hk, hrest⟩ := pairwise_cons.1 h
      obtain ⟨hlt, hle⟩ := hk k' mem_cons_self
      rcases le_or_gt p k.1 with hp | hp
      · rw [interpolate_of_le hp]
        exact le_interpolate h q
      · rcases le_or_gt q k'.1 with hq' | hq'
        · rw [interpolate_between hp (hpq.trans hq'), interpolate_between (hp.trans_le hpq) hq']
          exact line_mono hlt hle hpq
        · rw [interpolate_beyond hlt hq']
          rcases le_or_gt p k'.1 with hp' | hp'
          · rw [interpolate_between hp hp']
            refine le_trans ?_ (le_interpolate hrest q)
            rw [← line_right hlt]
            exact line_mono hlt hle hp'
          · rw [interpolate_beyond hlt hp']
            exact ih hrest

theorem interpolate_of_last_le (h : Increasing (pre ++ [k])) (hp : k.1 ≤ p) :
    interpolate p (pre ++ [k]) = k.2 := by
  induction pre with
  | nil => rfl
  | cons j pre ih =>
    obtain ⟨hj, hrest⟩ := pairwise_cons.1 h
    have hlast := (hj k (mem_append_right _ (mem_singleton_self k))).1
    cases pre with
    | nil =>
      rcases hp.eq_or_lt with heq | hlt
      · rw [cons_append, nil_append, ← heq, interpolate_between hlast le_rfl, line_right hlast]
      · exact interpolate_beyond hlast hlt
    | cons j' pre =>
      have hj' := (hj j' mem_cons_self).1
      have hbefore : j'.1 < k.1 :=
        ((pairwise_cons.1 hrest).1 k (mem_append_right _ (mem_singleton_self k))).1
      rw [cons_append, cons_append, interpolate_beyond hj' (hbefore.trans_le hp)]
      exact ih hrest

theorem interpolate_le_last (h : Increasing (pre ++ [k])) (p : K) :
    interpolate p (pre ++ [k]) ≤ k.2 := by
  rcases le_total p k.1 with hp | hp
  · exact (interpolate_mono h hp).trans_eq (interpolate_of_last_le h le_rfl)
  · exact (interpolate_of_last_le h hp).le

theorem interpolate_append (h : Increasing (pre ++ k :: knots)) (hp : k.1 ≤ p) :
    interpolate p (pre ++ k :: knots) = interpolate p (k :: knots) := by
  induction pre with
  | nil => rfl
  | cons j pre ih =>
    obtain ⟨hj, hrest⟩ := pairwise_cons.1 h
    have hk := (hj k (mem_append_right _ mem_cons_self)).1
    cases pre with
    | nil =>
      rcases hp.eq_or_lt with heq | hlt
      · rw [cons_append, nil_append, ← heq, interpolate_between hk le_rfl,
          line_right hk, interpolate_of_le le_rfl]
      · exact interpolate_beyond hk hlt
    | cons j' pre =>
      have hj' := (hj j' mem_cons_self).1
      have hbefore : j'.1 < k.1 :=
        ((pairwise_cons.1 hrest).1 k (mem_append_right _ mem_cons_self)).1
      rw [cons_append, cons_append, interpolate_beyond hj' (hbefore.trans_le hp)]
      exact ih hrest

theorem interpolate_knot (h : Increasing (pre ++ k :: knots)) :
    interpolate k.1 (pre ++ k :: knots) = k.2 := by
  rw [interpolate_append h le_rfl, interpolate_of_le le_rfl]

theorem interpolate_flat (h : Increasing (pre ++ k :: k' :: knots)) (hv : k'.2 = k.2)
    (hp : k.1 ≤ p) (hp' : p ≤ k'.1) : interpolate p (pre ++ k :: k' :: knots) = k.2 := by
  rw [interpolate_append h hp]
  rcases hp.eq_or_lt with heq | hlt
  · rw [← heq, interpolate_of_le le_rfl]
  · rw [interpolate_between hlt hp', line, hv]
    simp

end Omniscience.Interpolation
