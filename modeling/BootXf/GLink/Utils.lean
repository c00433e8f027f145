import Mathlib.Algebra.GroupWithZero.Nat

/-!
# What the parts of GLink share

The two sides of a link, and the helpers of `glink_os_utils.h` for sizes and indices of FIFOs, on
numbers below `2 ^ 32`. A result that does not fit is ERR_FATAL, here `none`.
-/

namespace GLink

/-- The two sides of a link. -/
inductive Host
  | left | right
  deriving DecidableEq

/-- The other side. -/
def Host.other : Host → Host
  | .left => .right
  | .right => .left

@[simp] theorem Host.other_other (h : Host) : h.other.other = h := by cases h <;> rfl
@[simp] theorem Host.other_ne (h : Host) : h.other ≠ h := by cases h <;> decide
@[simp] theorem Host.ne_other (h : Host) : h ≠ h.other := by cases h <;> decide

/-! ## Sizes and indices -/

/-- `UINT_MAX`. -/
def uintMax : Nat := 0xffffffff

/-- `glink_os_roundup64`: the bits below 8 are cleared after adding 7. -/
def glinkOsRoundup64 (val : Nat) : Option Nat :=
  if val > uintMax - 7 then none else some ((val + 7) / 8 * 8)

/-- `glink_os_add`. -/
def glinkOsAdd (a b : Nat) : Option Nat := if a > uintMax - b then none else some (a + b)

/-- `glink_os_fifo_index_check`, for an alignment that is a power of two or zero. -/
def glinkOsFifoIndexCheck (fifoSize indx align : Nat) : Bool :=
  decide (indx < fifoSize) && (align == 0 || indx % align == 0)

/-- `glink_err_type`, as far as the transports' functions for sending and receiving return it. -/
inductive GlinkStatus
  | success | failure | outOfResources
  deriving DecidableEq

/-- A size that is rounded up does not wrap. -/
theorem glinkOsRoundup64_of_le {val : Nat} (h : val ≤ 0xfffffff8) :
    glinkOsRoundup64 val = some ((val + 7) / 8 * 8) :=
  if_neg (by unfold uintMax; omega)

/-- A sum that does not wrap. -/
theorem glinkOsAdd_of_lt {a b : Nat} (h : a + b < 2 ^ 32) : glinkOsAdd a b = some (a + b) :=
  if_neg (by unfold uintMax; omega)

/-- An index that passes lies inside and is aligned. -/
theorem glinkOsFifoIndexCheck_iff {fifoSize indx align : Nat} (halign : align ≠ 0) :
    glinkOsFifoIndexCheck fifoSize indx align = true ↔ indx < fifoSize ∧ indx % align = 0 := by
  simp [glinkOsFifoIndexCheck, halign]

end GLink
