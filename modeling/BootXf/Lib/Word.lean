import Mathlib.Algebra.GroupWithZero.Nat

/-!
# Fixed-width words as natural numbers

The usual guard `a + b < a` of unsigned arithmetic, read as a statement about natural numbers, and
what the sum is once the guard has passed.
-/

namespace Lib

section
variable {a b : UInt64}

/-- `a + b` wraps in 64 bits exactly when it comes out below `a`. -/
theorem uint64_add_lt_left : a + b < a ↔ 2 ^ 64 ≤ a.toNat + b.toNat := by
  have ha := a.toNat_lt
  have hb := b.toNat_lt
  simp only [UInt64.lt_iff_toNat_lt, UInt64.toNat_add]
  omega

/-- A 64-bit sum that does not wrap is the sum of the natural numbers. -/
theorem uint64_toNat_add (h : a.toNat + b.toNat < 2 ^ 64) : (a + b).toNat = a.toNat + b.toNat := by
  rw [UInt64.toNat_add, Nat.mod_eq_of_lt h]

/-- Subtracting a sum is subtracting twice. -/
theorem uint64_sub_add {c : UInt64} : a - (b + c) = a - b - c := by
  have ha := a.toNat_lt
  have hb := b.toNat_lt
  have hc := c.toNat_lt
  apply UInt64.toNat_inj.mp
  simp only [UInt64.toNat_sub, UInt64.toNat_add]
  omega

/-- A 64-bit word is zero when the natural number is. -/
theorem uint64_eq_zero : a = 0 ↔ a.toNat = 0 := by
  rw [← UInt64.toNat_inj]
  rfl

/-- A 32-bit word that is not positive is zero. -/
theorem uint32_eq_zero_of_not_pos {n : UInt32} (h : ¬ 0 < n) : n = 0 := by
  apply UInt32.toNat_inj.mp
  rw [UInt32.lt_iff_toNat_lt] at h
  exact Nat.le_zero.mp (Nat.le_of_not_lt h)

/-- The smaller of two 32-bit words, by the strict comparison. -/
theorem uint32_min_eq (x y : UInt32) : min x y = if x < y then x else y := by
  show (if x ≤ y then x else y) = _
  rcases Nat.lt_trichotomy x.toNat y.toNat with hlt | heq | hgt
  · rw [if_pos (UInt32.lt_iff_toNat_lt.mpr hlt), if_pos (UInt32.le_iff_toNat_le.mpr (by omega))]
  · rw [UInt32.toNat_inj.mp heq, ite_self, ite_self]
  · rw [if_neg (by rw [UInt32.le_iff_toNat_le]; omega),
      if_neg (by rw [UInt32.lt_iff_toNat_lt]; omega)]

instance idempotentOpMin : Std.IdempotentOp (min : UInt32 → UInt32 → UInt32) :=
  ⟨fun x => by rw [uint32_min_eq, ite_self]⟩

/-- The larger of two 32-bit words, by the strict comparison. -/
theorem uint32_max_eq (x y : UInt32) : max x y = if y < x then x else y := by
  show (if x ≤ y then y else x) = _
  rcases Nat.lt_or_ge y.toNat x.toNat with hlt | hge
  · rw [if_pos (UInt32.lt_iff_toNat_lt.mpr hlt), if_neg (by rw [UInt32.le_iff_toNat_le]; omega)]
  · rw [if_pos (UInt32.le_iff_toNat_le.mpr hge), if_neg (by rw [UInt32.lt_iff_toNat_lt]; omega)]

end

end Lib
