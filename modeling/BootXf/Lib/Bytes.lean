import Mathlib.Algebra.GroupWithZero.Nat

/-!
# Numbers as lists of bytes

A number spelled by a fixed number of bytes, the lowest first, and the number that a list of bytes
spells.
-/

namespace Lib

/-- `n` bytes that spell a number modulo `256 ^ n`. -/
def leBytes : Nat → Nat → List UInt8
  | 0, _ => []
  | n + 1, v => .ofNat v :: leBytes n (v / 256)

/-- The number that bytes spell. -/
def leValue : List UInt8 → Nat
  | [] => 0
  | b :: bs => b.toNat + 256 * leValue bs

@[simp] theorem length_leBytes (n v : Nat) : (leBytes n v).length = n := by
  induction n generalizing v with
  | zero => rfl
  | succ n ih => simp [leBytes, ih]

/-- **Reading back** a number that was spelled. -/
theorem leValue_leBytes (n v : Nat) : leValue (leBytes n v) = v % 256 ^ n := by
  induction n generalizing v with
  | zero => simp [leBytes, leValue, Nat.mod_one]
  | succ n ih => rw [leBytes, leValue, ih, Nat.pow_succ', Nat.mod_mul, UInt8.toNat_ofNat']

/-- A number that fits is read back. -/
theorem leValue_leBytes_of_lt {n v : Nat} (h : v < 256 ^ n) : leValue (leBytes n v) = v := by
  rw [leValue_leBytes, Nat.mod_eq_of_lt h]

/-- The first bytes spell a number as fewer bytes do. -/
theorem take_leBytes {k n : Nat} (h : k ≤ n) (v : Nat) : (leBytes n v).take k = leBytes k v := by
  induction n generalizing k v with
  | zero =>
    rw [Nat.le_zero.mp h]
    rfl
  | succ n ih =>
    cases k with
    | zero => rfl
    | succ k => rw [leBytes, List.take_succ_cons, ih (Nat.le_of_succ_le_succ h), leBytes]

end Lib
