import Mathlib.Data.Nat.Bitwise

/-!
# Base-128 numbers

A natural number is written as bytes of seven bits each, the lowest seven first, every byte but
the last with its high bit set.  `Base128.decode` reads the number at the start of a byte string
and says how many bytes it took; it fails on a string that ends inside a number.

`Base128.decode_encode` is the round trip, with anything after the number.
-/

namespace Omniscience.Base128

/-- The bytes of a number. -/
def encode (n : ℕ) : List UInt8 :=
  if n < 128 then [UInt8.ofNat n] else UInt8.ofNat (n % 128 + 128) :: encode (n / 128)
termination_by n
decreasing_by omega

attribute [grind =] encode

/-- The number at the start of a byte string, and the number of bytes it takes. -/
def decode : List UInt8 → Option (ℕ × ℕ)
  | [] => none
  | b :: bs =>
    if b.toNat < 128 then some (b.toNat, 1)
    else (decode bs).map fun r => (b.toNat % 128 + 128 * r.1, r.2 + 1)

theorem encode_of_lt {n : ℕ} (h : n < 128) : encode n = [UInt8.ofNat n] := by
  rw [encode, if_pos h]

theorem encode_ne_nil (n : ℕ) : encode n ≠ [] := by
  rw [encode]
  split <;> simp

/-- **Round trip**: the number at the start of `encode n ++ post` is `n`. -/
theorem decode_encode (n : ℕ) (post : List UInt8) :
    decode (encode n ++ post) = some (n, (encode n).length) := by
  induction n using Nat.strongRecOn with
  | ind n ih =>
    rw [encode]
    split
    · rename_i hn
      have hb : (UInt8.ofNat n).toNat = n := by
        rw [UInt8.toNat_ofNat']
        omega
      simp [decode, hb, hn]
    · rename_i hn
      have hb : (UInt8.ofNat (n % 128 + 128)).toNat = n % 128 + 128 := by
        rw [UInt8.toNat_ofNat']
        omega
      have hge : ¬ n % 128 + 128 < 128 := by omega
      simp only [List.cons_append, decode, hb, hge, ↓reduceIte, ih (n / 128) (by omega),
        Option.map_some, List.length_cons, Option.some.injEq, Prod.mk.injEq, and_true]
      omega

theorem decode_take_encode {n k : ℕ} (hk : k < (encode n).length) :
    decode ((encode n).take k) = none := by
  induction n using Nat.strongRecOn generalizing k with
  | ind n ih =>
    cases k with
    | zero => rfl
    | succ k =>
      rw [encode] at hk ⊢
      split at hk
      · simp at hk
      · rename_i hn
        have hb : (UInt8.ofNat (n % 128 + 128)).toNat = n % 128 + 128 := by
          rw [UInt8.toNat_ofNat']
          omega
        have hge : ¬ n % 128 + 128 < 128 := by omega
        simp only [List.length_cons, Nat.add_lt_add_iff_right] at hk
        rw [if_neg hn, List.take_succ_cons, decode, hb, if_neg hge, ih (n / 128) (by omega) hk]
        rfl

theorem decode_pos {bs : List UInt8} {n k : ℕ} (h : decode bs = some (n, k)) :
    0 < k ∧ k ≤ bs.length := by
  induction bs generalizing n k with
  | nil => simp [decode] at h
  | cons b bs ih =>
    rw [decode] at h
    split at h
    · simp only [Option.some.injEq, Prod.mk.injEq] at h
      simp [← h.2]
    · obtain ⟨⟨m, j⟩, hr, he⟩ := Option.map_eq_some_iff.1 h
      have := ih hr
      simp only [Prod.mk.injEq] at he
      simp only [List.length_cons]
      omega

theorem or_shiftLeft_seven {a m : ℕ} (ha : a < 128) : a ||| m <<< 7 = a + 128 * m := by
  rw [Nat.or_comm, Nat.shiftLeft_eq, mul_comm m, ← Nat.two_pow_add_eq_or_of_lt (i := 7) ha,
    add_comm]

end Omniscience.Base128
