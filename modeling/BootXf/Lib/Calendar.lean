import Mathlib.Algebra.GroupWithZero.Nat

/-!
# The Gregorian calendar

The days of the years and months, counted from the first day of a year zero, and the seconds of a
date and a time of day. `daysBeforeYear_eq` is the count of the days before a year in closed form.
-/

namespace Lib

/-- A year with a 29th of February. -/
def Leap (y : Nat) : Prop := y % 4 = 0 ∧ (y % 100 ≠ 0 ∨ y % 400 = 0)

instance (y : Nat) : Decidable (Leap y) := inferInstanceAs (Decidable (_ ∧ _))

/-- The days of a year. -/
def yearDays (y : Nat) : Nat := if Leap y then 366 else 365

/-- The days of a month, the first being 1. -/
def monthDays (y m : Nat) : Nat :=
  if m = 2 then (if Leap y then 29 else 28)
  else if m = 4 ∨ m = 6 ∨ m = 9 ∨ m = 11 then 30 else 31

/-- The days of all years before a year. -/
def daysBeforeYear : Nat → Nat
  | 0 => 0
  | y + 1 => daysBeforeYear y + yearDays y

/-- The days of the first months of a year. -/
def daysOfMonths (y : Nat) : Nat → Nat
  | 0 => 0
  | m + 1 => daysOfMonths y m + monthDays y (m + 1)

/-- A date and a time of day. -/
structure DateTime where
  year : Nat
  month : Nat
  day : Nat
  hour : Nat
  minute : Nat
  second : Nat

namespace DateTime

/-- There is such a date and time. -/
structure Valid (c : DateTime) : Prop where
  month_pos : 1 ≤ c.month
  month_le : c.month ≤ 12
  day_pos : 1 ≤ c.day
  day_le : c.day ≤ monthDays c.year c.month
  hour_lt : c.hour < 24
  minute_lt : c.minute < 60
  second_lt : c.second < 60

/-- The days before it. -/
def days (c : DateTime) : Nat :=
  daysBeforeYear c.year + daysOfMonths c.year (c.month - 1) + (c.day - 1)

/-- The seconds before it. -/
def seconds (c : DateTime) : Nat := ((c.days * 24 + c.hour) * 60 + c.minute) * 60 + c.second

end DateTime

theorem daysBeforeYear_eq (y : Nat) :
    daysBeforeYear y + (y + 99) / 100 = 365 * y + (y + 3) / 4 + (y + 399) / 400 := by
  induction y with
  | zero => rfl
  | succ y ih =>
    rw [daysBeforeYear, yearDays]
    split
    · next h =>
      unfold Leap at h
      omega
    · next h =>
      unfold Leap at h
      omega

theorem monthDays_congr {y y' : Nat} (h : Leap y ↔ Leap y') (m : Nat) :
    monthDays y m = monthDays y' m := by
  simp only [monthDays, h]

theorem monthDays_le (y m : Nat) : monthDays y m ≤ 31 := by
  unfold monthDays
  repeat' split
  all_goals decide

/-- The months of two leap years, or of two others, have the same days. -/
theorem daysOfMonths_congr {y y' : Nat} (h : Leap y ↔ Leap y') (m : Nat) :
    daysOfMonths y m = daysOfMonths y' m := by
  induction m with
  | zero => rfl
  | succ m ih => rw [daysOfMonths, daysOfMonths, ih, monthDays_congr h]

/-- A day of a year lies in the month that brackets it. -/
theorem DateTime.days_of_bracket {y k e hour minute second : Nat} (hk : k < 12)
    (hlow : daysOfMonths y k ≤ e) (hhigh : e < daysOfMonths y (k + 1)) (hhour : hour < 24)
    (hminute : minute < 60) (hsecond : second < 60) :
    (DateTime.mk y (k + 1) (e - daysOfMonths y k + 1) hour minute second).Valid ∧
      (DateTime.mk y (k + 1) (e - daysOfMonths y k + 1) hour minute second).days =
        daysBeforeYear y + e := by
  rw [daysOfMonths] at hhigh
  refine ⟨⟨Nat.succ_pos k, hk, Nat.succ_pos _, ?_, hhour, hminute, hsecond⟩, ?_⟩
  · show e - daysOfMonths y k + 1 ≤ monthDays y (k + 1)
    omega
  · show daysBeforeYear y + daysOfMonths y k + (e - daysOfMonths y k) = _
    omega

end Lib
