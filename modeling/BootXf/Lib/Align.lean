import Mathlib.Algebra.GroupWithZero.Nat

/-!
# Rounding to a multiple

`roundUp n k` and `roundDown n k` are the multiples of `k` next to `n`, and the machine's ways of
computing them on 32-bit words: by a division, and for whole pages by a mask.
-/

namespace Lib

/-- The least multiple of `k` that is not below `n`. -/
def roundUp (n k : Nat) : Nat := (n + k - 1) / k * k

/-- The greatest multiple of `k` that is not above `n`. -/
def roundDown (n k : Nat) : Nat := n / k * k

section
variable {n m k : Nat}

theorem roundDown_le : roundDown n k ≤ n := Nat.div_mul_le_self n k

theorem lt_roundDown_add (hk : 0 < k) : n < roundDown n k + k := by
  have := Nat.lt_div_mul_add hk (a := n)
  exact this

theorem dvd_roundUp : k ∣ roundUp n k := Nat.dvd_mul_left ..

theorem dvd_roundDown : k ∣ roundDown n k := Nat.dvd_mul_left ..

theorem le_roundUp (hk : 0 < k) : n ≤ roundUp n k := by
  have := lt_roundDown_add hk (n := n + k - 1)
  simp only [roundDown, roundUp] at this ⊢
  omega

theorem roundUp_lt (hk : 0 < k) : roundUp n k < n + k := by
  have := roundDown_le (n := n + k - 1) (k := k)
  simp only [roundDown, roundUp] at this ⊢
  omega

theorem roundDown_mono (h : n ≤ m) : roundDown n k ≤ roundDown m k :=
  Nat.mul_le_mul_right k (Nat.div_le_div_right h)

theorem roundUp_mono (h : n ≤ m) : roundUp n k ≤ roundUp m k :=
  Nat.mul_le_mul_right k (Nat.div_le_div_right (by omega))

/-- A multiple that is not below `n` is not below `n` rounded up. -/
theorem roundUp_le (hk : 0 < k) (h : n ≤ m) (hm : k ∣ m) : roundUp n k ≤ m := by
  obtain ⟨q, rfl⟩ := hm
  have hlt := roundUp_lt hk (n := n)
  obtain ⟨r, hr⟩ := dvd_roundUp (n := n) (k := k)
  rw [hr] at hlt ⊢
  have : k * r < k * (q + 1) := by rw [Nat.mul_succ]; omega
  exact Nat.mul_le_mul_left k (Nat.le_of_lt_succ (Nat.lt_of_mul_lt_mul_left this))

/-- A multiple that is not above `n` is not above `n` rounded down. -/
theorem le_roundDown (hk : 0 < k) (h : m ≤ n) (hm : k ∣ m) : m ≤ roundDown n k := by
  obtain ⟨q, rfl⟩ := hm
  have hlt := lt_roundDown_add hk (n := n)
  obtain ⟨r, hr⟩ := dvd_roundDown (n := n) (k := k)
  rw [hr] at hlt ⊢
  have : k * q < k * (r + 1) := by rw [Nat.mul_succ]; omega
  exact Nat.mul_le_mul_left k (Nat.le_of_lt_succ (Nat.lt_of_mul_lt_mul_left this))

/-- Rounding up commutes with adding a multiple. -/
theorem roundUp_add (hk : 0 < k) (hm : k ∣ m) : roundUp (n + m) k = roundUp n k + m := by
  obtain ⟨q, rfl⟩ := hm
  have hsum : n + k * q + k - 1 = n + k - 1 + k * q := by omega
  rw [roundUp, roundUp, hsum, Nat.add_mul_div_left _ _ hk, Nat.add_mul, Nat.mul_comm q k]

/-- Rounding up adds what is missing to the next multiple. -/
theorem roundUp_eq_add (hk : 0 < k) :
    roundUp n k = if n % k > 0 then n + (k - n % k) else n := by
  have hdiv := Nat.div_add_mod n k
  have hlt := Nat.mod_lt n hk
  have hround : roundUp n k = roundUp (n % k) k + k * (n / k) := by
    rw [← roundUp_add hk (Nat.dvd_mul_right ..)]
    congr 1
    omega
  rw [hround]
  split
  · next hpos =>
    have hone : roundUp (n % k) k = k := by
      rw [roundUp, Nat.div_eq_of_lt_le (k := 1) (by omega) (by omega), Nat.one_mul]
    omega
  · next hpos =>
    have hzero : n % k = 0 := by omega
    rw [hzero, roundUp, Nat.div_eq_of_lt (by omega), Nat.zero_mul]
    omega

end

/-! ## On 32-bit words -/

section
variable {x y : UInt32}

/-- Rounding up by a division, where the sum does not wrap. -/
theorem uint32_toNat_roundUp (h : x.toNat + y.toNat ≤ 2 ^ 32) (hy : 0 < y.toNat) :
    ((x + y - 1) / y * y).toNat = roundUp x.toNat y.toNat := by
  have hx := x.toNat_lt
  have hle := roundDown_le (n := x.toNat + y.toNat - 1) (k := y.toNat)
  have hsum : (x + y - 1).toNat = x.toNat + y.toNat - 1 := by
    simp only [UInt32.toNat_sub, UInt32.toNat_add, UInt32.toNat_one]
    omega
  rw [UInt32.toNat_mul, UInt32.toNat_div, hsum]
  exact Nat.mod_eq_of_lt (by simp only [roundDown] at hle; omega)

/-- Clearing the low `i` bits rounds down to a multiple of `2 ^ i`. -/
theorem nat_and_mask {n i w : Nat} (hn : n < 2 ^ w) (hi : i ≤ w) :
    n &&& (2 ^ w - 2 ^ i) = roundDown n (2 ^ i) := by
  have hmask : 2 ^ w - 2 ^ i = (2 ^ (w - i) - 1) * 2 ^ i := by
    rw [Nat.sub_mul, ← Nat.pow_add, Nat.sub_add_cancel hi, Nat.one_mul]
  apply Nat.eq_of_testBit_eq
  intro j
  rw [Nat.testBit_and, hmask, roundDown, Nat.testBit_mul_two_pow, Nat.testBit_mul_two_pow,
    Nat.testBit_two_pow_sub_one, Nat.testBit_div_two_pow]
  rcases Nat.lt_or_ge j i with hj | hj
  · simp [Nat.not_le.mpr hj]
  · rw [Nat.sub_add_cancel hj]
    rcases Nat.lt_or_ge j w with hw | hw
    · simp only [hj, decide_true, Bool.true_and]
      rw [decide_eq_true (by omega : j - i < w - i), Bool.and_true]
    · rw [Nat.testBit_lt_two_pow (Nat.lt_of_lt_of_le hn (Nat.pow_le_pow_right (by omega) hw))]
      simp

end

end Lib
