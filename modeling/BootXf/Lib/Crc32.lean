import Mathlib.Algebra.GroupWithZero.Nat

/-!
# CRC-32

The check sum of bytes, bit by bit: the remainder is moved down by one bit, and the polynomial is
taken from it where a one has been moved out. Moving down is linear, so that eight bits can be
looked up at once (`nextByte_eq`).
-/

namespace Lib.Crc32

open List

/-- The remainder behind one bit more. -/
def nextBit (c : BitVec 32) : BitVec 32 := (c >>> 1) ^^^ if c.getLsbD 0 then 0xEDB88320#32 else 0#32

/-- The remainder behind so many bits more. -/
def nextBits : Nat → BitVec 32 → BitVec 32
  | 0, c => c
  | n + 1, c => nextBits n (nextBit c)

/-- The remainder behind one byte more. -/
def nextByte (c : BitVec 32) (b : UInt8) : BitVec 32 := nextBits 8 (c ^^^ b.toBitVec.setWidth 32)

/-- The check sum. -/
def crc32 (l : List UInt8) : UInt32 := ⟨l.foldl nextByte 0xFFFFFFFF#32 ^^^ 0xFFFFFFFF#32⟩

/-! ## A byte at once -/

theorem xor_xor_xor_comm (a b c d : BitVec 32) : a ^^^ b ^^^ (c ^^^ d) = a ^^^ c ^^^ (b ^^^ d) := by
  rw [BitVec.xor_assoc, BitVec.xor_assoc, ← BitVec.xor_assoc b, BitVec.xor_comm b c,
    BitVec.xor_assoc c]

/-- One bit is linear. -/
theorem nextBit_xor (x y : BitVec 32) : nextBit (x ^^^ y) = nextBit x ^^^ nextBit y := by
  have hpoly : (if (x ^^^ y).getLsbD 0 then 0xEDB88320#32 else 0#32) =
      (if x.getLsbD 0 then 0xEDB88320#32 else 0#32) ^^^
        if y.getLsbD 0 then 0xEDB88320#32 else 0#32 := by
    rw [BitVec.getLsbD_xor]
    cases x.getLsbD 0 <;> cases y.getLsbD 0 <;> decide
  unfold nextBit
  rw [hpoly, BitVec.ushiftRight_xor_distrib]
  exact xor_xor_xor_comm ..

theorem nextBits_xor (n : Nat) (x y : BitVec 32) :
    nextBits n (x ^^^ y) = nextBits n x ^^^ nextBits n y := by
  induction n generalizing x y with
  | zero => rfl
  | succ n ih =>
    rw [nextBits, nextBit_xor, ih]
    rfl

/-- Zeros are moved out without a change. -/
theorem nextBits_shiftLeft {n : Nat} (c : BitVec 32) :
    nextBits n (c <<< n) = (c <<< n) >>> n := by
  have hmoves : ∀ k x, (∀ i < k, BitVec.getLsbD x i = false) → nextBits k x = x >>> k := by
    intro k
    induction k with
    | zero => exact fun x _ => (BitVec.ushiftRight_zero x).symm
    | succ k ih =>
      intro x hx
      have hbit : nextBit x = x >>> 1 := by
        unfold nextBit
        rw [hx 0 (Nat.succ_pos k), if_neg Bool.false_ne_true, BitVec.xor_zero]
      rw [nextBits, hbit, ih _ fun i hi => ?_, Nat.add_comm, BitVec.shiftRight_add]
      rw [BitVec.getLsbD_ushiftRight]
      exact hx _ (by omega)
  refine hmoves n _ fun i hi => ?_
  rw [BitVec.getLsbD_shiftLeft, decide_eq_true hi]
  simp

/-- A word is its upper bits and its lowest byte. -/
theorem split_byte (c : BitVec 32) :
    c = ((c >>> 8) <<< 8) ^^^ (c.setWidth 8).setWidth 32 := by
  refine BitVec.eq_of_getLsbD_eq fun i hi => ?_
  rw [BitVec.getLsbD_xor, BitVec.getLsbD_shiftLeft, BitVec.getLsbD_ushiftRight,
    BitVec.getLsbD_setWidth, BitVec.getLsbD_setWidth]
  rcases Nat.lt_or_ge i 8 with hlow | hhigh
  · simp [hi, hlow]
  · simp [hi, Nat.not_lt.mpr hhigh, Nat.add_sub_cancel' hhigh]

/-- **A byte at once**: the upper bits move down, and the lowest byte is looked up. -/
theorem nextByte_eq (c : BitVec 32) (b : UInt8) :
    nextByte c b = (c >>> 8) ^^^ nextBits 8 ((c.setWidth 8 ^^^ b.toBitVec).setWidth 32) := by
  have hsplit : c ^^^ b.toBitVec.setWidth 32 =
      ((c >>> 8) <<< 8) ^^^ (c.setWidth 8 ^^^ b.toBitVec).setWidth 32 := by
    conv => lhs; rw [split_byte c]
    rw [BitVec.setWidth_xor, BitVec.xor_assoc]
  have hhigh : ((c >>> 8) <<< 8) >>> 8 = c >>> 8 := by
    refine BitVec.eq_of_getLsbD_eq fun i hi => ?_
    rw [BitVec.getLsbD_ushiftRight, BitVec.getLsbD_shiftLeft, Nat.add_sub_cancel_left,
      BitVec.getLsbD_ushiftRight]
    rcases Nat.lt_or_ge (8 + i) 32 with hin | hout
    · simp [hin]
    · rw [BitVec.getLsbD_of_ge c _ hout, Bool.and_false]
  unfold nextByte
  rw [hsplit, nextBits_xor, nextBits_shiftLeft, hhigh]

/-- The last byte counts, even in the lowest byte of the check sum. -/
theorem crc32_last (l : List UInt8) :
    ∃ b b', (crc32 (l ++ [b])).toNat % 256 ≠ (crc32 (l ++ [b'])).toNat % 256 := by
  have hlow : ∀ d : BitVec 8, ∃ b : UInt8,
      crc32 (l ++ [b]) = ⟨(l.foldl nextByte 0xFFFFFFFF#32 >>> 8) ^^^ nextBits 8 (d.setWidth 32) ^^^
        0xFFFFFFFF#32⟩ := fun d => by
    refine ⟨⟨(l.foldl nextByte 0xFFFFFFFF#32).setWidth 8 ^^^ d⟩, ?_⟩
    unfold crc32
    rw [foldl_append, foldl_cons, foldl_nil, nextByte_eq, ← BitVec.xor_assoc,
      BitVec.xor_self, BitVec.zero_xor]
  obtain ⟨b, hb⟩ := hlow 0
  obtain ⟨b', hb'⟩ := hlow 1
  refine ⟨b, b', fun heq => ?_⟩
  rw [hb, hb'] at heq
  have hbit := congrArg (fun n => n.testBit 1) heq
  have hmod : ∀ n : Nat, (n % 256).testBit 1 = n.testBit 1 := fun n => by
    rw [show 256 = 2 ^ 8 from rfl, Nat.testBit_mod_two_pow]
    rfl
  have hzero : nextBits 8 ((0 : BitVec 8).setWidth 32) = 0#32 := by decide
  have hone : nextBits 8 ((1 : BitVec 8).setWidth 32) = 0x77073096#32 := by decide
  rw [hmod, hmod, hzero, hone] at hbit
  change BitVec.getLsbD _ 1 = BitVec.getLsbD _ 1 at hbit
  rw [BitVec.getLsbD_xor, BitVec.getLsbD_xor, BitVec.getLsbD_xor, BitVec.getLsbD_xor] at hbit
  revert hbit
  cases (l.foldl nextByte 0xFFFFFFFF#32 >>> 8).getLsbD 1 <;> decide

end Lib.Crc32
