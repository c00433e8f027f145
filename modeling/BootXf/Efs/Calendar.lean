import BootXf.Lib.Calendar

/-!
# FAT dates and POSIX times

`fs_util.c` turns the seconds since 1970 into the date and time of a FAT directory entry and back,
by tables of the days of years and months. Its tables take each fourth year for a leap year; one
day is put in for the 29th of February 2100, and taken out again.

`fatTime_iff` says that every 32-bit time from 1980 on gets its Gregorian date and time, and which
pairs of words from a medium the way back has tables for.
-/

namespace Efs

open Lib List Option

/-! ## Tables -/

/-- `fs_time_julian_type`. -/
structure Julian where
  year : UInt16
  month : UInt16
  day : UInt16
  hour : UInt16
  minute : UInt16
  second : UInt16
  dayOfWeek : UInt16

/-- `FS_TIME_JUL_QUAD_YEAR`. -/
def fsTimeJulQuadYear : Nat := 366 + 3 * 365

/-- `year_tab`. -/
def yearTab : List UInt16 := [0, 366, 731, 1096, 1461]

/-- `norm_month_tab`. -/
def normMonthTab : List UInt16 := [0, 31, 59, 90, 120, 151, 181, 212, 243, 273, 304, 334, 365]

/-- `leap_month_tab`. -/
def leapMonthTab : List UInt16 := [0, 31, 60, 91, 121, 152, 182, 213, 244, 274, 305, 335, 366]

/-- `day_offset`. -/
def dayOffset : List UInt16 := [1, 3, 4, 5]

/-- An entry of a table, where the index may also be negative. -/
def entry (tab : List UInt16) (i : Int) : Option UInt16 := if 0 ≤ i then tab[i.toNat]? else none

/-- The search for the first entry above `days`, in the table without its first entry. -/
def searchTab (days : UInt16) : List UInt16 → Option Nat
  | [] => none
  | next :: tab => if days ≥ next then (searchTab days tab).map (· + 1) else some 0

/-! ## From a time -/

/-- `FS_POSIX_TIME_TO_BASE_YEAR` and `FS_TIME_FAT_DELTA`. -/
def fsPosixTimeToBaseYear : UInt32 := 315532800

/-- `FS_POSIX_TIME_TO_NON_LEAP_YEAR`. -/
def fsPosixTimeToNonLeapYear : UInt32 := 4107542399

/-- `FS_POSIX_CALENDAR_BASE_YEAR` and `FAT_BASE_YEAR`. -/
def fatBaseYear : Nat := 1980

/-- The calendar of a number of seconds since the base year. -/
def calendarFrom (secs : UInt32) : Option Julian := do
  let minutes := secs / 60
  let hours := minutes / 60
  let elapsed := hours / 24
  let days := (elapsed % .ofNat fsTimeJulQuadYear).toUInt16
  let quadYears := elapsed / .ofNat fsTimeJulQuadYear
  let i ← searchTab days yearTab.tail
  let start ← yearTab[i]?
  let days := days - start
  let offset ← dayOffset[3]?
  let yearOffset ← dayOffset[i]?
  let monthTable := if i = 0 then leapMonthTab else normMonthTab
  let month ← searchTab days monthTable.tail
  let before ← monthTable[month]?
  return {
    year := (.ofNat fatBaseYear + 4 * quadYears).toUInt16 + .ofNat i
    month := .ofNat month + 1
    day := days - before + 1
    hour := (hours % 24).toUInt16
    minute := (minutes % 60).toUInt16
    second := (secs % 60).toUInt16
    dayOfWeek :=
      ((offset.toUInt32 * quadYears + yearOffset.toUInt32 + days.toUInt32) % 7).toUInt16 }

/-- `fs_posix_time_to_calendar`. -/
def fsPosixTimeToCalendar (secs : UInt32) : Option Julian :=
  if secs < fsPosixTimeToBaseYear then some ⟨0, 0, 0, 0, 0, 0, 0⟩
  else
    let secs := secs - fsPosixTimeToBaseYear
    calendarFrom
      (if secs > fsPosixTimeToNonLeapYear - fsPosixTimeToBaseYear then secs + 60 * 60 * 24
      else secs)

/-- `fs_posix_to_fat_date`. -/
def fsPosixToFatDate (ptime : UInt32) : Option UInt16 :=
  if ptime < fsPosixTimeToBaseYear then some 0x21
  else (fsPosixTimeToCalendar ptime).map fun julian =>
    .ofNat ((julian.year.toNat - fatBaseYear) <<< 9 &&& 0xFE00 |||
      (julian.month.toNat <<< 5 &&& 0x1E0 ||| julian.day.toNat <<< 0 &&& 0x1F))

/-- `fs_posix_to_fat_time`. -/
def fsPosixToFatTime (ptime : UInt32) : UInt16 :=
  if ptime < fsPosixTimeToBaseYear then 0
  else
    let sec := (ptime % 60).toUInt16
    let ptime := ptime / 60
    let min := (ptime % 60).toUInt16
    let ptime := ptime / 60
    let hour := (ptime % 24).toUInt16
    .ofNat (hour.toNat <<< 11 &&& 0xF800 |||
      (min.toNat <<< 5 &&& 0x7E0 ||| (sec.toNat >>> 1) <<< 0 &&& 0x1F))

/-! ## To a time -/

/-- A `uint32` that is calculated with, and whether one of its values so far was not what an
integer would have been. -/
structure Watched where
  value : UInt32
  wrapped : Bool

namespace Watched

/-- The next value. -/
def next (wrapped : Bool) (x : Int) : Watched :=
  ⟨.ofInt x, wrapped || !decide (0 ≤ x ∧ x < 0x100000000)⟩

def add (t : Watched) (k : Int) : Watched := next t.wrapped (t.value.toNat + k)

def mul (t : Watched) (k : Nat) : Watched := next t.wrapped (t.value.toNat * k)

end Watched

/-- The days from the base year to the month, as `fs_calendar_to_posix_time` begins. -/
def daysToMonth (julian : Julian) : Option Watched :=
  let time := Watched.next false
    (((julian.year.toNat : Int) - fatBaseYear).tdiv 4 * fsTimeJulQuadYear)
  if julian.year &&& 3 = 0 then
    (entry leapMonthTab (julian.month.toNat - 1)).map fun days => time.add days.toNat
  else do
    let start ← yearTab[(julian.year &&& 3).toNat]?
    let days ← entry normMonthTab (julian.month.toNat - 1)
    return (time.add start.toNat).add days.toNat

/-- Its end: the day that is put in for 2100 is taken out, and the base year is added. -/
def finish (time : Watched) : Watched :=
  let time := if time.value > fsPosixTimeToNonLeapYear - fsPosixTimeToBaseYear then
    time.add (-(60 * 60 * 24)) else time
  if 0xFFFFFFFF - fsPosixTimeToBaseYear > time.value then time.add fsPosixTimeToBaseYear.toNat
  else ⟨0xFFFFFFFF, time.wrapped⟩

/-- `fs_calendar_to_posix_time`. `none` is an index beside a table. -/
def fsCalendarToPosixTime (julian : Julian) : Option Watched :=
  (daysToMonth julian).map fun time =>
    let time := time.add (julian.day.toNat - 1)
    let time := (time.mul 24).add julian.hour.toNat
    let time := (time.mul 60).add julian.minute.toNat
    let time := (time.mul 60).add julian.second.toNat
    finish time

/-- `fs_fat_to_posix_time`. -/
def fsFatToPosixTime (fatTime fatDate : UInt16) : Option Watched :=
  fsCalendarToPosixTime {
    year := (fatDate >>> 9) + .ofNat fatBaseYear
    month := (fatDate &&& 0x1E0) >>> 5
    day := (fatDate &&& 0x1F) >>> 0
    hour := (fatTime &&& 0xF800) >>> 11
    minute := (fatTime &&& 0x7E0) >>> 5
    second := ((fatTime &&& 0x1F) >>> 0) <<< 1
    dayOfWeek := 0 }

/-! ## What they shall do -/

/-- The seconds from the year zero to 1970. -/
def posixEpoch : DateTime := ⟨1970, 1, 1, 0, 0, 0⟩

/-- The word of a date in a directory entry: seven bits for the year since 1980, four for the month
and five for the day. -/
def fatDateOf (c : DateTime) : UInt16 := .ofNat ((c.year - 1980) * 512 + c.month * 32 + c.day)

/-- The word of a time of day: five bits for the hour, six for the minute and five for half the
second. -/
def fatTimeOf (c : DateTime) : UInt16 := .ofNat (c.hour * 2048 + c.minute * 32 + c.second / 2)

/-- A time from 1980 on gets the words of its Gregorian date and time, which give it back to the
last even second. -/
def Dated (ptime : UInt32) : Prop :=
  fsPosixTimeToBaseYear ≤ ptime → ∃ c : DateTime, c.Valid ∧
    c.seconds = ptime.toNat + posixEpoch.seconds ∧
    fsPosixToFatDate ptime = some (fatDateOf c) ∧ fsPosixToFatTime ptime = fatTimeOf c ∧
    ∃ time, fsFatToPosixTime (fatTimeOf c) (fatDateOf c) = some time ∧
      time.value.toNat = ptime.toNat - ptime.toNat % 2

/-- Two words are turned into a time with indices into the tables only and without a wrap. -/
def Computed (fatTime fatDate : UInt16) : Prop :=
  ∃ time, fsFatToPosixTime fatTime fatDate = some time ∧ time.wrapped = false

/-! ## Calculating without a wrap -/

namespace Watched
variable {t : Watched} {n k : Nat} {x : Int}

/-- The value is that of the integers. -/
structure Exact (t : Watched) (n : Nat) : Prop where
  value : t.value.toNat = n
  wrapped : t.wrapped = false

theorem exact_next (hx : x = n) (hn : n < 2 ^ 32) : (next false x).Exact n := by
  subst hx
  constructor
  · have hmod : ((n : Int) % 2 ^ 32).toNat = n := by omega
    rw [next, UInt32.ofInt, hmod, UInt32.toNat_ofNat_of_lt' hn]
  · rw [next, decide_eq_true (by omega)]
    rfl

theorem Exact.add (h : t.Exact n) {m : Nat} (hm : (n : Int) + x = m) (hlt : m < 2 ^ 32) :
    (t.add x).Exact m := by
  rw [Watched.add, h.value, h.wrapped]
  exact exact_next hm hlt

theorem Exact.mul (h : t.Exact n) (hlt : n * k < 2 ^ 32) : (t.mul k).Exact (n * k) := by
  rw [Watched.mul, h.value, h.wrapped]
  exact exact_next (by push_cast; rfl) hlt

/-- Once a value has wrapped it is known for ever. -/
theorem wrapped_add (h : t.wrapped = true) (x : Int) : (t.add x).wrapped = true := by
  rw [Watched.add, next, h, Bool.true_or]

theorem wrapped_mul (h : t.wrapped = true) (k : Nat) : (t.mul k).wrapped = true := by
  rw [Watched.mul, next, h, Bool.true_or]

/-- A value below zero has wrapped. -/
theorem Exact.add_wrapped (h : t.Exact n) (hx : (n : Int) + x < 0) :
    (t.add x).wrapped = true := by
  rw [Watched.add, next, h.value, decide_eq_false (by omega), Bool.not_false, Bool.or_true]

end Watched

/-- What `finish` makes of a number of seconds. -/
def finished (n : Nat) : Nat :=
  let n := if n > 3792009599 then n - 86400 else n
  if 3979434495 > n then n + 315532800 else 4294967295

theorem finish_exact {t : Watched} {n : Nat} (h : t.Exact n) : (finish t).Exact (finished n) := by
  have hlt := h.value ▸ t.value.toNat_lt
  have hcorrected : (if t.value > fsPosixTimeToNonLeapYear - fsPosixTimeToBaseYear then
      t.add (-(60 * 60 * 24)) else t).Exact (if n > 3792009599 then n - 86400 else n) := by
    have hiff : t.value > fsPosixTimeToNonLeapYear - fsPosixTimeToBaseYear ↔ n > 3792009599 := by
      rw [gt_iff_lt, UInt32.lt_iff_toNat_lt, h.value]
      exact Iff.rfl
    by_cases hlate : n > 3792009599
    · rw [if_pos (hiff.mpr hlate), if_pos hlate]
      exact h.add (by omega) (by omega)
    · rw [if_neg (mt hiff.mp hlate), if_neg hlate]
      exact h
  unfold finish finished
  dsimp only
  generalize (if t.value > fsPosixTimeToNonLeapYear - fsPosixTimeToBaseYear then
      t.add (-(60 * 60 * 24)) else t) = u at hcorrected
  generalize (if n > 3792009599 then n - 86400 else n) = m at hcorrected
  have hiff : 0xFFFFFFFF - fsPosixTimeToBaseYear > u.value ↔ 3979434495 > m := by
    rw [gt_iff_lt, UInt32.lt_iff_toNat_lt, hcorrected.value]
    exact Iff.rfl
  have hbase : fsPosixTimeToBaseYear.toNat = 315532800 := rfl
  by_cases hroom : 3979434495 > m
  · rw [if_pos (hiff.mpr hroom), if_pos hroom]
    exact hcorrected.add (by rw [hbase]; rfl) (by omega)
  · rw [if_neg (mt hiff.mp hroom), if_neg hroom]
    exact ⟨rfl, hcorrected.wrapped⟩

theorem wrapped_finish {t : Watched} (h : t.wrapped = true) : (finish t).wrapped = true := by
  have hcorrected : (if t.value > fsPosixTimeToNonLeapYear - fsPosixTimeToBaseYear then
      t.add (-(60 * 60 * 24)) else t).wrapped = true := by
    split
    · exact Watched.wrapped_add h _
    · exact h
  unfold finish
  dsimp only
  generalize (if t.value > fsPosixTimeToNonLeapYear - fsPosixTimeToBaseYear then
      t.add (-(60 * 60 * 24)) else t) = u at hcorrected
  split
  · exact Watched.wrapped_add hcorrected _
  · exact hcorrected

/-! ## To a time: which dates -/

/-- The first days of the years of four. -/
def yearStart (i : Nat) : Nat := [0, 366, 731, 1096].getD i 0

/-- The days before a month, the first being 0, in the tables for leap years and for others. -/
def monthStart (i k : Nat) : Nat := ((if i = 0 then leapMonthTab else normMonthTab).getD k 0).toNat

theorem yearStart_le {i : Nat} (hi : i < 4) : yearStart i ≤ 1096 := by
  have h : ∀ i < 4, yearStart i ≤ 1096 := by decide
  exact h i hi

theorem monthStart_le (i : Nat) {k : Nat} (hk : k ≤ 12) : monthStart i k ≤ 366 := by
  have h : ∀ k ≤ 12, monthStart 0 k ≤ 366 ∧ monthStart 1 k ≤ 366 := by decide
  unfold monthStart
  split
  · exact (h k hk).1
  · exact (h k hk).2

/-- The entries of a table of months. -/
theorem entry_months {tab : List UInt16} (hlen : tab.length = 13) (month : UInt16) :
    entry tab (month.toNat - 1) =
      if 1 ≤ month.toNat ∧ month.toNat ≤ 13 then some (tab.getD (month.toNat - 1) 0) else none := by
  unfold entry
  by_cases hpos : 1 ≤ month.toNat
  · rw [if_pos (by omega), show ((month.toNat : Int) - 1).toNat = month.toNat - 1 by omega]
    by_cases hle : month.toNat ≤ 13
    · rw [if_pos ⟨hpos, hle⟩, getD_eq_getElem?_getD, getElem?_eq_getElem (by omega)]
      rfl
    · rw [if_neg fun h => hle h.2, getElem?_eq_none (by omega)]
  · rw [if_neg (by omega), if_neg fun h => hpos h.1]

variable {y : Nat}

/-- The days to a month, of which there must be an entry. -/
theorem daysToMonth_spec {julian : Julian} (hyear : julian.year.toNat = 1980 + y) (hy : y < 128) :
    (1 ≤ julian.month.toNat ∧ julian.month.toNat ≤ 13 ∧ ∃ t, daysToMonth julian = some t ∧
      t.Exact (1461 * (y / 4) + yearStart (y % 4) + monthStart (y % 4) (julian.month.toNat - 1))) ∨
    (¬ (1 ≤ julian.month.toNat ∧ julian.month.toNat ≤ 13) ∧ daysToMonth julian = none) := by
  have hquads : (Watched.next false (((julian.year.toNat : Int) - fatBaseYear).tdiv 4 *
      fsTimeJulQuadYear)).Exact (1461 * (y / 4)) := by
    refine Watched.exact_next ?_ (by omega)
    rw [hyear, show ((1980 + y : Nat) : Int) - (fatBaseYear : Nat) = (y : Nat) by
      show ((1980 + y : Nat) : Int) - 1980 = y
      omega, show (fsTimeJulQuadYear : Int) = 1461 from rfl]
    rw [Int.tdiv_eq_ediv_of_nonneg (by omega)]
    omega
  have hrest : (julian.year &&& 3).toNat = y % 4 := by
    rw [UInt16.toNat_and, hyear, show (3 : UInt16).toNat = 2 ^ 2 - 1 from rfl,
      Nat.and_two_pow_sub_one_eq_mod]
    omega
  have hzero : julian.year &&& 3 = 0 ↔ y % 4 = 0 := by
    rw [← UInt16.toNat_inj, hrest]
    exact Iff.rfl
  have hi : y % 4 < 4 := Nat.mod_lt _ (by decide)
  have hstart := yearStart_le hi
  unfold daysToMonth
  by_cases hmonth : 1 ≤ julian.month.toNat ∧ julian.month.toNat ≤ 13
  · refine .inl ⟨hmonth.1, hmonth.2, ?_⟩
    have hle := monthStart_le (y % 4) (k := julian.month.toNat - 1) (by omega)
    by_cases hleap : y % 4 = 0
    · rw [if_pos (hzero.mpr hleap), entry_months rfl, if_pos hmonth]
      rw [monthStart, if_pos hleap] at hle ⊢
      generalize leapMonthTab.getD (julian.month.toNat - 1) 0 = days at hle
      refine ⟨_, rfl, hquads.add ?_ (by omega)⟩
      rw [hleap, show yearStart 0 = 0 from rfl]
      omega
    · have hentry : yearTab[y % 4]? = some (.ofNat (yearStart (y % 4))) := by
        have h : ∀ i < 4, yearTab[i]? = some (.ofNat (yearStart i)) := by decide
        exact h _ hi
      rw [if_neg (mt hzero.mp hleap), hrest, hentry, entry_months rfl, if_pos hmonth]
      rw [monthStart, if_neg hleap] at hle ⊢
      generalize normMonthTab.getD (julian.month.toNat - 1) 0 = days at hle
      have hsum : (Watched.add _ (UInt16.ofNat (yearStart (y % 4))).toNat).Exact
          (1461 * (y / 4) + yearStart (y % 4)) := hquads.add (by
        rw [UInt16.toNat_ofNat_of_lt' (Nat.lt_of_le_of_lt hstart (by decide))]
        omega) (by omega)
      exact ⟨_, rfl, hsum.add (by omega) (by omega)⟩
  · refine .inr ⟨hmonth, ?_⟩
    rw [entry_months rfl, if_neg hmonth, entry_months rfl, if_neg hmonth]
    split
    · rfl
    · cases yearTab[(julian.year &&& 3).toNat]? with
      | none => rfl
      | some start => rfl

/-- The days before a date. -/
def daysBefore (y month : Nat) : Nat :=
  1461 * (y / 4) + yearStart (y % 4) + monthStart (y % 4) (month - 1)

/-- **To a time**: with a month that has an entry and a day that does not lie before the base year,
nothing wraps. -/
theorem toPosixTime_exact {julian : Julian} {y d : Nat} (hyear : julian.year.toNat = 1980 + y)
    (hy : y < 128) (hmonth : 1 ≤ julian.month.toNat ∧ julian.month.toNat ≤ 13)
    (hday : d + 1 = daysBefore y julian.month.toNat + julian.day.toNat)
    (hday' : julian.day.toNat < 32)
    (hhour : julian.hour.toNat < 32) (hminute : julian.minute.toNat < 64)
    (hsecond : julian.second.toNat < 64) : ∃ t, fsCalendarToPosixTime julian = some t ∧
      t.Exact (finished (((d * 24 + julian.hour.toNat) * 60 + julian.minute.toNat) * 60 +
        julian.second.toNat)) := by
  rcases daysToMonth_spec hyear hy with ⟨-, -, t, hrun, ht⟩ | ⟨hnone, -⟩
  · rw [← daysBefore] at ht
    have hbound : daysBefore y julian.month.toNat ≤ 1461 * 31 + 1096 + 366 := by
      have hstart := yearStart_le (i := y % 4) (Nat.mod_lt _ (by decide))
      have hmonths := monthStart_le (y % 4) (k := julian.month.toNat - 1) (by omega)
      unfold daysBefore
      omega
    have hdays : (t.add (julian.day.toNat - 1)).Exact d := ht.add (by omega) (by omega)
    have hhours : (((t.add (julian.day.toNat - 1)).mul 24).add julian.hour.toNat).Exact
        (d * 24 + julian.hour.toNat) := (hdays.mul (by omega)).add (by omega) (by omega)
    have hminutes := (hhours.mul (k := 60) (by omega)).add
      (x := julian.minute.toNat) (m := (d * 24 + julian.hour.toNat) * 60 + julian.minute.toNat)
      (by omega) (by omega)
    have hseconds := (hminutes.mul (k := 60) (by omega)).add (x := julian.second.toNat)
      (m := ((d * 24 + julian.hour.toNat) * 60 + julian.minute.toNat) * 60 + julian.second.toNat)
      (by omega) (by omega)
    rw [fsCalendarToPosixTime, hrun]
    exact ⟨_, rfl, finish_exact hseconds⟩
  · exact absurd hmonth hnone

/-- Without an entry for the month there is no time. -/
theorem toPosixTime_none {julian : Julian} (hyear : julian.year.toNat = 1980 + y)
    (hy : y < 128) (hmonth : ¬ (1 ≤ julian.month.toNat ∧ julian.month.toNat ≤ 13)) :
    fsCalendarToPosixTime julian = none := by
  rcases daysToMonth_spec hyear hy with ⟨hpos, hle, -⟩ | ⟨-, hrun⟩
  · exact absurd ⟨hpos, hle⟩ hmonth
  · rw [fsCalendarToPosixTime, hrun]
    rfl

/-- The day before the first one wraps. -/
theorem toPosixTime_wraps {julian : Julian} (hyear : julian.year.toNat = 1980 + y)
    (hy : y < 128) (hdays : daysBefore y julian.month.toNat = 0) (hday : julian.day.toNat = 0)
    {t : Watched} (hrun : fsCalendarToPosixTime julian = some t) : t.wrapped = true := by
  rcases daysToMonth_spec hyear hy with ⟨-, -, u, hmonth, hu⟩ | ⟨-, hmonth⟩
  · rw [← daysBefore, hdays] at hu
    rw [fsCalendarToPosixTime, hmonth] at hrun
    cases hrun
    have hbelow : (u.add (julian.day.toNat - 1)).wrapped = true := hu.add_wrapped (by omega)
    refine wrapped_finish ?_
    refine Watched.wrapped_add (Watched.wrapped_mul ?_ _) _
    refine Watched.wrapped_add (Watched.wrapped_mul ?_ _) _
    exact Watched.wrapped_add (Watched.wrapped_mul hbelow _) _
  · rw [fsCalendarToPosixTime, hmonth] at hrun
    cases hrun

/-- Only in January 1980 there are no days before. -/
theorem daysBefore_eq_zero {y month : Nat} (hpos : 1 ≤ month) (hle : month ≤ 13) :
    daysBefore y month = 0 ↔ y = 0 ∧ month = 1 := by
  have hyears : ∀ i < 4, yearStart i = 0 → i = 0 := by decide
  have hmonths : ∀ k ≤ 12, monthStart 0 k = 0 → k = 0 := by decide
  constructor
  · intro hzero
    unfold daysBefore at hzero
    have hi := hyears (y % 4) (Nat.mod_lt _ (by decide)) (by omega)
    rw [hi] at hzero
    have hk := hmonths (month - 1) (by omega) (by omega)
    omega
  · rintro ⟨rfl, rfl⟩
    rfl

/-! ## Words of a directory entry -/

/-- The field of a word above so many bits. -/
theorem field_eq (x s w : Nat) : (x &&& (2 ^ w - 1) <<< s) >>> s = x / 2 ^ s % 2 ^ w := by
  rw [Nat.shiftRight_and_distrib, Nat.shiftLeft_shiftRight, Nat.and_two_pow_sub_one_eq_mod,
    Nat.shiftRight_eq_div_pow]

/-- The fields of a date. -/
theorem date_fields (w : UInt16) :
    ((w >>> 9) + .ofNat fatBaseYear).toNat = 1980 + w.toNat / 512 ∧
      ((w &&& 0x1E0) >>> 5).toNat = w.toNat / 32 % 16 ∧
      ((w &&& 0x1F) >>> 0).toNat = w.toNat % 32 := by
  have hlt := w.toNat_lt
  refine ⟨?_, ?_, ?_⟩
  · rw [UInt16.toNat_add, UInt16.toNat_shiftRight, show (9 : UInt16).toNat % 16 = 9 from rfl,
      Nat.shiftRight_eq_div_pow, show (UInt16.ofNat fatBaseYear).toNat = 1980 from rfl]
    omega
  · rw [UInt16.toNat_shiftRight, UInt16.toNat_and, show (5 : UInt16).toNat % 16 = 5 from rfl]
    exact field_eq w.toNat 5 4
  · rw [UInt16.toNat_shiftRight, UInt16.toNat_and, show (0 : UInt16).toNat % 16 = 0 from rfl]
    have hfield := field_eq w.toNat 0 5
    rw [Nat.pow_zero, Nat.div_one] at hfield
    exact hfield

/-- The fields of a time of day. -/
theorem time_fields (w : UInt16) : ((w &&& 0xF800) >>> 11).toNat = w.toNat / 2048 ∧
    ((w &&& 0x7E0) >>> 5).toNat = w.toNat / 32 % 64 ∧
    (((w &&& 0x1F) >>> 0) <<< 1).toNat = w.toNat % 32 * 2 := by
  have hlt := w.toNat_lt
  refine ⟨?_, ?_, ?_⟩
  · rw [UInt16.toNat_shiftRight, UInt16.toNat_and, show (11 : UInt16).toNat % 16 = 11 from rfl]
    refine (field_eq w.toNat 11 5).trans ?_
    omega
  · rw [UInt16.toNat_shiftRight, UInt16.toNat_and, show (5 : UInt16).toNat % 16 = 5 from rfl]
    exact field_eq w.toNat 5 6
  · rw [UInt16.toNat_shiftLeft, (date_fields w).2.2, show (1 : UInt16).toNat % 16 = 1 from rfl,
      Nat.shiftLeft_eq]
    omega

/-- Three fields that fit are put into one word. -/
theorem pack_eq {a b c s r : Nat} (hc : c < 2 ^ r) (hb : b < 2 ^ (s - r)) (hrs : r ≤ s)
    (ha : a < 2 ^ (16 - s)) :
    (a <<< s &&& (2 ^ (16 - s) - 1) <<< s ||| (b <<< r &&& (2 ^ (s - r) - 1) <<< r |||
      c <<< 0 &&& (2 ^ r - 1))) = a * 2 ^ s + (b * 2 ^ r + c) := by
  have hlow : b * 2 ^ r + c < 2 ^ s := by
    have hmul : (b + 1) * 2 ^ r ≤ 2 ^ (s - r) * 2 ^ r := Nat.mul_le_mul_right _ hb
    rw [← Nat.pow_add, Nat.sub_add_cancel hrs, Nat.succ_mul] at hmul
    omega
  rw [← Nat.shiftLeft_and_distrib, ← Nat.shiftLeft_and_distrib, Nat.shiftLeft_zero,
    Nat.and_two_pow_sub_one_eq_mod, Nat.and_two_pow_sub_one_eq_mod, Nat.and_two_pow_sub_one_eq_mod,
    Nat.mod_eq_of_lt ha, Nat.mod_eq_of_lt hb, Nat.mod_eq_of_lt hc,
    ← Nat.shiftLeft_add_eq_or_of_lt hc, Nat.shiftLeft_eq b, ← Nat.shiftLeft_add_eq_or_of_lt hlow,
    Nat.shiftLeft_eq]

/-- The time of two words with an entry for the month and a day before. -/
theorem fatToPosixTime_exact (fatTime fatDate : UInt16) {d : Nat}
    (hmonth : 1 ≤ fatDate.toNat / 32 % 16 ∧ fatDate.toNat / 32 % 16 ≤ 13)
    (hday : d + 1 = daysBefore (fatDate.toNat / 512) (fatDate.toNat / 32 % 16) +
      fatDate.toNat % 32) :
    ∃ time, fsFatToPosixTime fatTime fatDate = some time ∧ time.Exact (finished
      (((d * 24 + fatTime.toNat / 2048) * 60 + fatTime.toNat / 32 % 64) * 60 +
        fatTime.toNat % 32 * 2)) := by
  have hdate := fatDate.toNat_lt
  have htime := fatTime.toNat_lt
  obtain ⟨hyearField, hmonthField, hdayField⟩ := date_fields fatDate
  obtain ⟨hhourField, hminuteField, hsecondField⟩ := time_fields fatTime
  rw [← hmonthField, ← hdayField] at hday
  rw [← hmonthField] at hmonth
  rw [← hhourField, ← hminuteField, ← hsecondField]
  exact toPosixTime_exact hyearField (by omega) hmonth hday (hdayField ▸ Nat.mod_lt _ (by decide))
    (hhourField ▸ by omega) (hminuteField ▸ by omega) (hsecondField ▸ by omega)

/-! ## Which words are computed -/

/-- The time is computed when there is an entry for the month and a day before. -/
theorem toPosixTime_iff {julian : Julian} {y m d : Nat} (hyear : julian.year.toNat = 1980 + y)
    (hy : y < 128) (hmonth : julian.month.toNat = m) (hday : julian.day.toNat = d) (hd : d < 32)
    (hhour : julian.hour.toNat < 32) (hminute : julian.minute.toNat < 64)
    (hsecond : julian.second.toNat < 64) :
    (∃ t, fsCalendarToPosixTime julian = some t ∧ t.wrapped = false) ↔
      1 ≤ m ∧ m ≤ 13 ∧ ¬ (y = 0 ∧ m = 1 ∧ d = 0) := by
  subst hmonth hday
  constructor
  · rintro ⟨t, hrun, hwrapped⟩
    have hentry : 1 ≤ julian.month.toNat ∧ julian.month.toNat ≤ 13 := by
      refine Classical.byContradiction fun hnone => ?_
      rw [toPosixTime_none hyear hy hnone] at hrun
      cases hrun
    refine ⟨hentry.1, hentry.2, fun hfirst => ?_⟩
    have hdays : daysBefore y julian.month.toNat = 0 :=
      (daysBefore_eq_zero hentry.1 hentry.2).mpr ⟨hfirst.1, hfirst.2.1⟩
    rw [toPosixTime_wraps hyear hy hdays hfirst.2.2 hrun] at hwrapped
    cases hwrapped
  · rintro ⟨hpos, hle, hfirst⟩
    have hsum : daysBefore y julian.month.toNat + julian.day.toNat ≠ 0 := fun hzero => by
      obtain ⟨hbefore, hnoday⟩ := Nat.add_eq_zero_iff.mp hzero
      obtain ⟨hfirstYear, hfirstMonth⟩ := (daysBefore_eq_zero hpos hle).mp hbefore
      exact hfirst ⟨hfirstYear, hfirstMonth, hnoday⟩
    obtain ⟨d, hd'⟩ := Nat.exists_eq_succ_of_ne_zero hsum
    obtain ⟨t, hrun, ht⟩ :=
      toPosixTime_exact hyear hy ⟨hpos, hle⟩ hd'.symm hd hhour hminute hsecond
    exact ⟨t, hrun, ht.wrapped⟩

/-- The words for which a time is computed. -/
structure Computable (fatDate : UInt16) : Prop where
  month_pos : 1 ≤ fatDate.toNat / 32 % 16
  month_le : fatDate.toNat / 32 % 16 ≤ 13
  not_before : ¬ (fatDate.toNat / 512 = 0 ∧ fatDate.toNat / 32 % 16 = 1 ∧ fatDate.toNat % 32 = 0)

theorem computed_iff (fatTime fatDate : UInt16) : Computed fatTime fatDate ↔
    Computable fatDate := by
  obtain ⟨hyear, hmonth, hday⟩ := date_fields fatDate
  obtain ⟨hhour, hminute, hsecond⟩ := time_fields fatTime
  have hdate := fatDate.toNat_lt
  have htime := fatTime.toNat_lt
  have hiff : Computed fatTime fatDate ↔ _ := toPosixTime_iff hyear (by omega) hmonth hday
    (Nat.mod_lt _ (by decide)) (hhour ▸ by omega) (hminute ▸ by omega) (hsecond ▸ by omega)
  rw [hiff]
  constructor
  · rintro ⟨hpos, hle, hfirst⟩
    exact ⟨hpos, hle, hfirst⟩
  · rintro ⟨hpos, hle, hfirst⟩
    exact ⟨hpos, hle, hfirst⟩

/-! ## From a time -/

variable {days : UInt16}

/-- The search ends between two entries of the table. -/
theorem searchTab_spec (first : UInt16) (tab : List UInt16) (hlow : first ≤ days)
    (hhigh : ∃ b ∈ tab, days < b) : ∃ k, searchTab days tab = some k ∧ k < tab.length ∧
      (first :: tab).getD k 0 ≤ days ∧ days < (first :: tab).getD (k + 1) 0 := by
  induction tab generalizing first with
  | nil =>
    obtain ⟨b, hb, -⟩ := hhigh
    cases hb
  | cons next tab ih =>
    rw [searchTab]
    by_cases hnext : days ≥ next
    · obtain ⟨b, hb, hlt⟩ := hhigh
      rcases mem_cons.mp hb with rfl | hb
      · exact absurd hlt (UInt16.not_lt.mpr hnext)
      · obtain ⟨k, hk, hlen, hlo, hhi⟩ := ih next hnext ⟨b, hb, hlt⟩
        rw [if_pos hnext, hk]
        exact ⟨k + 1, rfl, Nat.succ_lt_succ hlen, hlo, hhi⟩
    · rw [if_neg hnext]
      exact ⟨0, rfl, Nat.succ_pos _, hlow, UInt16.not_le.mp hnext⟩

/-- The year of the four in which a day lies. -/
theorem search_year (h : days.toNat < 1461) :
    ∃ i, searchTab days yearTab.tail = some i ∧
    i < 4 ∧ yearTab[i]? = some (.ofNat (yearStart i)) ∧ yearStart i ≤ days.toNat ∧
    days.toNat < yearStart i + if i = 0 then 366 else 365 := by
  obtain ⟨i, hsearch, hi, hlow, hhigh⟩ := searchTab_spec 0 yearTab.tail
    (UInt16.zero_le) ⟨1461, by decide, UInt16.lt_iff_toNat_lt.mpr h⟩
  have hfacts : ∀ i < 4, yearTab[i]? = some (.ofNat (yearStart i)) ∧
      (yearTab.getD i 0).toNat = yearStart i ∧
      (yearTab.getD (i + 1) 0).toNat = yearStart i + if i = 0 then 366 else 365 := by decide
  obtain ⟨hentry, hstart, hend⟩ := hfacts i hi
  rw [UInt16.le_iff_toNat_le] at hlow
  rw [UInt16.lt_iff_toNat_lt] at hhigh
  exact ⟨i, hsearch, hi, hentry, hstart ▸ hlow, hend ▸ hhigh⟩

/-- The month in which a day of a year lies. -/
theorem search_month {i : Nat} (h : days.toNat < if i = 0 then 366 else 365) :
    ∃ k, searchTab days (if i = 0 then leapMonthTab else normMonthTab).tail = some k ∧ k < 12 ∧
      (if i = 0 then leapMonthTab else normMonthTab)[k]? = some (.ofNat (monthStart i k)) ∧
      monthStart i k ≤ days.toNat ∧ days.toNat < monthStart i (k + 1) := by
  unfold monthStart
  by_cases hi : i = 0
  · simp only [if_pos hi] at h ⊢
    obtain ⟨k, hsearch, hk, hlow, hhigh⟩ := searchTab_spec 0 leapMonthTab.tail
      UInt16.zero_le ⟨366, by decide, UInt16.lt_iff_toNat_lt.mpr h⟩
    have hentry :
        ∀ k < 12, leapMonthTab[k]? = some (.ofNat (leapMonthTab.getD k 0).toNat) := by decide
    exact ⟨k, hsearch, hk, hentry k hk, UInt16.le_iff_toNat_le.mp hlow,
      UInt16.lt_iff_toNat_lt.mp hhigh⟩
  · simp only [if_neg hi] at h ⊢
    obtain ⟨k, hsearch, hk, hlow, hhigh⟩ := searchTab_spec 0 normMonthTab.tail
      UInt16.zero_le ⟨365, by decide, UInt16.lt_iff_toNat_lt.mpr h⟩
    have hentry :
        ∀ k < 12, normMonthTab[k]? = some (.ofNat (normMonthTab.getD k 0).toNat) := by decide
    exact ⟨k, hsearch, hk, hentry k hk, UInt16.le_iff_toNat_le.mp hlow,
      UInt16.lt_iff_toNat_lt.mp hhigh⟩

/-- **The calendar by the tables**: the year `y` since the base year, the month `k` and the day
`dd` of the year at which the search comes out. -/
theorem calendarFrom_spec (secs : UInt32) : ∃ julian y k dd, calendarFrom secs = some julian ∧
    secs.toNat / 86400 = 1461 * (y / 4) + yearStart (y % 4) + dd ∧ k < 12 ∧
    monthStart (y % 4) k ≤ dd ∧ dd < monthStart (y % 4) (k + 1) ∧
    julian.year.toNat = 1980 + y ∧ julian.month.toNat = k + 1 ∧
    julian.day.toNat = dd - monthStart (y % 4) k + 1 ∧ julian.hour.toNat = secs.toNat / 3600 % 24 ∧
    julian.minute.toNat = secs.toNat / 60 % 60 ∧ julian.second.toNat = secs.toNat % 60 := by
  have hsecs := secs.toNat_lt
  have hminutes : (secs / 60).toNat = secs.toNat / 60 := UInt32.toNat_div ..
  have hhours : (secs / 60 / 60).toNat = secs.toNat / 3600 := by
    rw [UInt32.toNat_div, hminutes, Nat.div_div_eq_div_mul]
    rfl
  have helapsed : (secs / 60 / 60 / 24).toNat = secs.toNat / 86400 := by
    rw [UInt32.toNat_div, hhours, Nat.div_div_eq_div_mul]
    rfl
  have hquad : (UInt32.ofNat fsTimeJulQuadYear).toNat = 1461 := rfl
  have hdays : (secs / 60 / 60 / 24 % .ofNat fsTimeJulQuadYear).toUInt16.toNat =
      secs.toNat / 86400 % 1461 := by
    rw [UInt32.toNat_toUInt16, UInt32.toNat_mod, helapsed, hquad]
    omega
  have hquads : (secs / 60 / 60 / 24 / .ofNat fsTimeJulQuadYear).toNat = secs.toNat /
      86400 / 1461 := by
    rw [UInt32.toNat_div, helapsed, hquad]
  obtain ⟨i, hsearch, hi, hentry, hlow, hhigh⟩ :=
    search_year (hdays ▸ Nat.mod_lt _ (by decide))
  rw [hdays] at hlow hhigh
  have hstart := yearStart_le hi
  have hdayOf : ((secs / 60 / 60 / 24 % .ofNat fsTimeJulQuadYear).toUInt16 -
      .ofNat (yearStart i)).toNat = secs.toNat / 86400 % 1461 - yearStart i := by
    have hstart' : (UInt16.ofNat (yearStart i)).toNat = yearStart i :=
      UInt16.toNat_ofNat_of_lt' (Nat.lt_of_le_of_lt hstart (by decide))
    rw [UInt16.toNat_sub_of_le _ _ (by rw [UInt16.le_iff_toNat_le, hstart', hdays]; exact hlow),
      hstart',
      hdays]
  obtain ⟨k, hmonth, hk, hbefore, hlow', hhigh'⟩ := search_month (i := i) (by rw [hdayOf]; omega)
  obtain ⟨offset, hoffset⟩ : ∃ offset, dayOffset[i]? = some offset := by
    have h : ∀ i < 4, (dayOffset[i]?).isSome := by decide
    exact isSome_iff_exists.mp (h i hi)
  have hmonths := monthStart_le i (Nat.le_of_lt hk)
  rw [hdayOf] at hlow' hhigh'
  have hdiv : (4 * (secs.toNat / 86400 / 1461) + i) / 4 = secs.toNat / 86400 / 1461 := by omega
  have hmod : (4 * (secs.toNat / 86400 / 1461) + i) % 4 = i := by omega
  obtain ⟨dayOfWeek, hrun⟩ : ∃ dayOfWeek, calendarFrom secs = some {
      year :=
        (.ofNat fatBaseYear + 4 * (secs / 60 / 60 / 24 / .ofNat fsTimeJulQuadYear)).toUInt16 +
        .ofNat i
      month := .ofNat k + 1
      day := (secs / 60 / 60 / 24 % .ofNat fsTimeJulQuadYear).toUInt16 - .ofNat (yearStart i) -
        .ofNat (monthStart i k) + 1
      hour := (secs / 60 / 60 % 24).toUInt16
      minute := (secs / 60 % 60).toUInt16
      second := (secs % 60).toUInt16
      dayOfWeek } := by
    simp only [calendarFrom, hsearch, hentry, hoffset, show dayOffset[3]? = some 5 from rfl, hmonth,
      hbefore, bind_eq_bind, bind_some]
    exact ⟨_, rfl⟩
  refine ⟨_, 4 * (secs.toNat / 86400 / 1461) + i, k, secs.toNat / 86400 % 1461 - yearStart i,
    hrun, ?_, hk,
    ?_, ?_, ?_, ?_, ?_, ?_, ?_, ?_⟩
  · rw [hdiv, hmod]
    omega
  · rw [hmod]
    exact hlow'
  · rw [hmod]
    exact hhigh'
  · have hyear :
        (UInt32.ofNat fatBaseYear + 4 * (secs / 60 / 60 / 24 / .ofNat fsTimeJulQuadYear)).toNat =
        1980 + 4 * (secs.toNat / 86400 / 1461) := by
      rw [UInt32.toNat_add, UInt32.toNat_mul, hquads,
        show (UInt32.ofNat fatBaseYear).toNat = 1980 from rfl,
        show (4 : UInt32).toNat = 4 from rfl]
      omega
    show (_ + _ : UInt16).toNat = _
    rw [UInt16.toNat_add, UInt32.toNat_toUInt16, hyear, UInt16.toNat_ofNat']
    omega
  · show (_ + _ : UInt16).toNat = _
    rw [UInt16.toNat_add, UInt16.toNat_ofNat', show (1 : UInt16).toNat = 1 from rfl]
    omega
  · have hbefore' : (UInt16.ofNat (monthStart i k)).toNat = monthStart i k :=
      UInt16.toNat_ofNat_of_lt' (Nat.lt_of_le_of_lt hmonths (by decide))
    show (_ - _ + _ : UInt16).toNat = _
    rw [hmod, UInt16.toNat_add, UInt16.toNat_sub_of_le _ _ (by
      rw [UInt16.le_iff_toNat_le, hbefore', hdayOf]; exact hlow'), hbefore', hdayOf,
      show (1 : UInt16).toNat = 1 from rfl]
    omega
  · show (_ : UInt32).toUInt16.toNat = _
    rw [UInt32.toNat_toUInt16, UInt32.toNat_mod, hhours, show (24 : UInt32).toNat = 24 from rfl]
    omega
  · show (_ : UInt32).toUInt16.toNat = _
    rw [UInt32.toNat_toUInt16, UInt32.toNat_mod, hminutes, show (60 : UInt32).toNat = 60 from rfl]
    omega
  · show (_ : UInt32).toUInt16.toNat = _
    rw [UInt32.toNat_toUInt16, UInt32.toNat_mod, show (60 : UInt32).toNat = 60 from rfl]
    omega

/-! ## The Gregorian calendar -/

/-- The tables have the months of every year but 2100. -/
theorem monthStart_eq {y k : Nat} (hy : y < 128) (hcentury : y ≠ 120) (hk : k ≤ 12) :
    monthStart (y % 4) k = daysOfMonths (1980 + y) k := by
  have hleap : ∀ k ≤ 12, monthStart 0 k = daysOfMonths 2000 k := by decide
  have hnorm : ∀ i < 4, i ≠ 0 → ∀ k ≤ 12, monthStart i k = daysOfMonths 2001 k := by decide
  by_cases hrest : y % 4 = 0
  · have hiff : Leap (1980 + y) ↔ Leap 2000 := by
      unfold Leap
      omega
    rw [hrest, daysOfMonths_congr hiff]
    exact hleap k hk
  · have hiff : Leap (1980 + y) ↔ Leap 2001 := by
      unfold Leap
      omega
    rw [daysOfMonths_congr hiff]
    exact hnorm _ (Nat.mod_lt _ (by decide)) hrest k hk

/-- In 2100 they have a day too many from March on. -/
theorem monthStart_century {k : Nat} (hk : k ≤ 12) :
    monthStart 0 k = daysOfMonths 2100 k + if k ≤ 1 then 0 else 1 := by
  have h : ∀ k ≤ 12, monthStart 0 k = daysOfMonths 2100 k + if k ≤ 1 then 0 else 1 := by decide
  exact h k hk

/-- The days before a year of the tables. -/
theorem daysBeforeYear_tables (hy : y < 128) :
    daysBeforeYear (1980 + y) + (if y ≤ 120 then 0 else 1) =
      daysBeforeYear 1980 + (1461 * (y / 4) + yearStart (y % 4)) := by
  have hstarts : ∀ i < 4, yearStart i = 365 * i + (i + 3) / 4 := by decide
  have hstart := hstarts (y % 4) (Nat.mod_lt _ (by decide))
  have hbase := daysBeforeYear_eq 1980
  have hyear := daysBeforeYear_eq (1980 + y)
  split <;> omega

/-- A day by the tables is a day of the calendar, but for the 29th of February 2100. -/
theorem gregorian {y k dd : Nat} (hour minute second : Nat) (hy : y < 128) (hk : k < 12)
    (hlow : monthStart (y % 4) k ≤ dd) (hhigh : dd < monthStart (y % 4) (k + 1))
    (hgap : ¬ (y = 120 ∧ dd = 59)) (hhour : hour < 24) (hminute : minute < 60)
    (hsecond : second < 60) :
    (DateTime.mk (1980 + y) (k + 1) (dd - monthStart (y % 4) k + 1) hour minute second).Valid ∧
      (DateTime.mk (1980 + y) (k + 1) (dd - monthStart (y % 4) k + 1) hour minute second).days +
        (if 1461 * (y / 4) + yearStart (y % 4) + dd ≤ 43888 then 0 else 1) =
        daysBeforeYear 1980 + (1461 * (y / 4) + yearStart (y % 4) + dd) := by
  by_cases hcentury : y = 120
  · subst hcentury
    have hbase := daysBeforeYear_eq 1980
    have hyear := daysBeforeYear_eq 2100
    have hfirst : yearStart 0 = 0 := rfl
    simp only [show 120 % 4 = 0 from rfl, show 120 / 4 = 30 from rfl, hfirst, Nat.reduceAdd]
      at hlow hhigh ⊢
    have hstart := monthStart_century (Nat.le_of_lt hk)
    have hend : monthStart 0 (k + 1) = _ := monthStart_century hk
    by_cases hmarch : k ≤ 1
    · have hfebruary : ∀ k ≤ 1, daysOfMonths 2100 (k + 1) ≤ 59 ∧
          (k = 1 → 59 ≤ daysOfMonths 2100 (k + 1)) := by decide
      obtain ⟨hle, hge⟩ := hfebruary k hmarch
      rw [if_pos hmarch, Nat.add_zero] at hstart
      have hbefore : dd < daysOfMonths 2100 (k + 1) := by
        split at hend <;> omega
      obtain ⟨hvalid, hdays⟩ := DateTime.days_of_bracket (y := 2100) (e := dd) hk (by omega) hbefore
        hhour hminute hsecond
      rw [hstart]
      refine ⟨hvalid, ?_⟩
      rw [hdays, if_pos (by omega)]
      omega
    · have hmarchs : ∀ k ≤ 12, 2 ≤ k → 59 ≤ daysOfMonths 2100 k := by decide
      have hge := hmarchs k (Nat.le_of_lt hk) (by omega)
      rw [if_neg hmarch] at hstart
      rw [if_neg (by omega)] at hend
      obtain ⟨hvalid, hdays⟩ := DateTime.days_of_bracket (y := 2100) (e := dd - 1) hk (by omega) (by
        omega) hhour hminute hsecond
      rw [hstart, show dd - (daysOfMonths 2100 k + 1) = dd - 1 - daysOfMonths 2100 k by omega]
      refine ⟨hvalid, ?_⟩
      rw [hdays, if_neg (by omega)]
      omega
  · have hyear := daysBeforeYear_tables hy
    have hends : ∀ i < 4, ∀ k < 12, yearStart i + monthStart i (k + 1) ≤ 1461 := by decide
    have hend := hends (y % 4) (Nat.mod_lt _ (by decide)) k hk
    have hstarts : ∀ i < 4, i ≠ 0 → 366 ≤ yearStart i := by decide
    have hstart := hstarts (y % 4) (Nat.mod_lt _ (by decide))
    rw [monthStart_eq hy hcentury hk] at hhigh hend
    rw [monthStart_eq hy hcentury (Nat.le_of_lt hk)] at hlow ⊢
    obtain ⟨hvalid, hdays⟩ := DateTime.days_of_bracket hk hlow hhigh hhour hminute hsecond
    refine ⟨hvalid, ?_⟩
    rw [hdays]
    split at hyear <;> split <;> omega

/-- The seconds of the tables for a time, with the day that is put in. -/
def tableSeconds (n : Nat) : Nat :=
  if n - 315532800 > 3792009599 then n - 315532800 + 86400 else n - 315532800

/-- The day that is put in is taken out again. -/
theorem finished_tableSeconds {n : Nat} (h : 315532800 ≤ n) (hlt : n < 2 ^ 32) :
    finished (((tableSeconds n / 86400 * 24 + n / 3600 % 24) * 60 + n / 60 % 60) * 60 +
      n % 60 / 2 * 2) = n - n % 2 := by
  have hsum : ((tableSeconds n / 86400 * 24 + n / 3600 % 24) * 60 + n / 60 % 60) * 60 +
      n % 60 / 2 * 2 = tableSeconds n - n % 2 := by
    unfold tableSeconds
    split <;> omega
  rw [hsum]
  unfold finished tableSeconds
  dsimp only
  by_cases hlate : n - 315532800 > 3792009599
  · have hput : n - 315532800 + 86400 - n % 2 > 3792009599 := by omega
    rw [if_pos hlate, if_pos hput, if_pos (by omega)]
    omega
  · have hput : ¬ n - 315532800 - n % 2 > 3792009599 := by omega
    rw [if_neg hlate, if_neg hput, if_pos (by omega)]
    omega

/-- A time has a date in the calendar, which the tables give. -/
structure CalendarOf (n : Nat) (julian : Julian) (c : DateTime) : Prop where
  valid : c.Valid
  seconds : c.seconds = n + posixEpoch.seconds
  year : julian.year.toNat = c.year
  month : julian.month.toNat = c.month
  day : julian.day.toNat = c.day
  hour : c.hour = n / 3600 % 24
  minute : c.minute = n / 60 % 60
  second : c.second = n % 60
  year_ge : 1980 ≤ c.year
  year_lt : c.year < 1980 + 128
  tables : daysBefore (c.year - 1980) c.month + c.day = tableSeconds n / 86400 + 1

theorem posixEpoch_seconds : posixEpoch.seconds = daysBeforeYear 1970 * 86400 := by
  simp only [posixEpoch, DateTime.seconds, DateTime.days, daysOfMonths, Nat.add_zero, Nat.mul_assoc,
    Nat.reduceMul, Nat.sub_self]

/-- **From a time**: the calendar of a time from the base year on. -/
theorem toCalendar_spec {ptime : UInt32} (h : fsPosixTimeToBaseYear ≤ ptime) :
    ∃ julian c, fsPosixTimeToCalendar ptime = some julian ∧ CalendarOf ptime.toNat julian c := by
  have hlt := ptime.toNat_lt
  have hbase : 315532800 ≤ ptime.toNat := UInt32.le_iff_toNat_le.mp h
  have hsub : (ptime - fsPosixTimeToBaseYear).toNat = ptime.toNat - 315532800 :=
    UInt32.toNat_sub_of_le _ _ h
  have hiff : ptime - fsPosixTimeToBaseYear > fsPosixTimeToNonLeapYear - fsPosixTimeToBaseYear ↔
      ptime.toNat - 315532800 > 3792009599 := by
    rw [gt_iff_lt, UInt32.lt_iff_toNat_lt, hsub]
    exact Iff.rfl
  have hsecs :
      (if ptime - fsPosixTimeToBaseYear > fsPosixTimeToNonLeapYear - fsPosixTimeToBaseYear then
      ptime - fsPosixTimeToBaseYear + 60 * 60 * 24 else ptime - fsPosixTimeToBaseYear).toNat =
      tableSeconds ptime.toNat := by
    unfold tableSeconds
    by_cases hlate : ptime.toNat - 315532800 > 3792009599
    · rw [if_pos (hiff.mpr hlate), if_pos hlate, UInt32.toNat_add, hsub,
        show (60 * 60 * 24 : UInt32).toNat = 86400 from rfl]
      omega
    · rw [if_neg (mt hiff.mp hlate), if_neg hlate, hsub]
  obtain ⟨julian, y, k, dd, hrun, hdays, hk, hlow, hhigh, hyear, hmonth, hday, hhour,
      hminute, hsecond⟩ :=
    calendarFrom_spec (if ptime - fsPosixTimeToBaseYear >
      fsPosixTimeToNonLeapYear - fsPosixTimeToBaseYear then ptime - fsPosixTimeToBaseYear +
        60 * 60 * 24
      else ptime - fsPosixTimeToBaseYear)
  rw [hsecs] at hdays hhour hminute hsecond
  have htables : tableSeconds ptime.toNat = ptime.toNat - 315532800 ∧
        ptime.toNat - 315532800 ≤ 3792009599 ∨
      tableSeconds ptime.toNat = ptime.toNat - 315532800 + 86400 ∧
        3792009599 < ptime.toNat - 315532800 := by
    unfold tableSeconds
    split
    · next hlate => exact .inr ⟨rfl, hlate⟩
    · next hlate => exact .inl ⟨rfl, Nat.not_lt.mp hlate⟩
  have hy : y < 128 := by omega
  have hfirst : yearStart 0 = 0 := rfl
  have hgap : ¬ (y = 120 ∧ dd = 59) := by
    rintro ⟨rfl, rfl⟩
    rw [show 120 / 4 = 30 from rfl, show 120 % 4 = 0 from rfl, hfirst] at hdays
    omega
  obtain ⟨hvalid, hcount⟩ := gregorian (ptime.toNat / 3600 % 24) (ptime.toNat / 60 % 60)
    (ptime.toNat % 60) hy hk hlow hhigh hgap (Nat.mod_lt _ (by decide)) (Nat.mod_lt _ (by decide))
    (Nat.mod_lt _ (by decide))
  refine ⟨julian, _, ?_, hvalid, ?_, hyear, hmonth, hday, rfl, rfl, rfl, Nat.le_add_right _ _,
    Nat.add_lt_add_left hy _, ?_⟩
  · rw [fsPosixTimeToCalendar, if_neg (UInt32.not_lt.mpr h)]
    exact hrun
  · have hyears := daysBeforeYear_eq 1970
    have hyears' := daysBeforeYear_eq 1980
    rw [posixEpoch_seconds, DateTime.seconds]
    dsimp only
    rw [← hdays] at hcount
    split at hcount <;> omega
  · show daysBefore (1980 + y - 1980) (k + 1) + (dd - monthStart (y % 4) k + 1) = _
    rw [Nat.add_sub_cancel_left, daysBefore, Nat.add_sub_cancel, hdays]
    omega

/-! ## The words of a time -/

/-- The fields of a date, once put together. -/
theorem unpack_date {y m d : Nat} (hm : m < 16) (hd : d < 32) : (y * 512 + m * 32 + d) / 512 = y ∧
    (y * 512 + m * 32 + d) / 32 % 16 = m ∧ (y * 512 + m * 32 + d) % 32 = d := by
  refine ⟨?_, ?_, ?_⟩ <;> omega

/-- The fields of a time of day, once put together. -/
theorem unpack_time {h m s : Nat} (hm : m < 64) (hs : s < 32) : (h * 2048 + m * 32 + s) / 2048 = h ∧
    (h * 2048 + m * 32 + s) / 32 % 64 = m ∧ (h * 2048 + m * 32 + s) % 32 * 2 = s * 2 := by
  refine ⟨?_, ?_, ?_⟩ <;> omega

section Words
variable {ptime : UInt32} {julian : Julian} {c : DateTime}

/-- The word of a date holds its fields. -/
theorem fatDateOf_toNat (h : CalendarOf ptime.toNat julian c) :
    (fatDateOf c).toNat = (c.year - 1980) * 512 + c.month * 32 + c.day := by
  have hmonth := h.valid.month_le
  have hday := Nat.le_trans h.valid.day_le (monthDays_le _ _)
  have hyear := h.year_lt
  exact UInt16.toNat_ofNat_of_lt' (by
    show _ < 65536
    omega)

/-- The word of a time of day holds its fields. -/
theorem fatTimeOf_toNat (h : c.Valid) :
    (fatTimeOf c).toNat = c.hour * 2048 + c.minute * 32 + c.second / 2 := by
  have hhour := h.hour_lt
  have hminute := h.minute_lt
  have hsecond := h.second_lt
  exact UInt16.toNat_ofNat_of_lt' (by
    show _ < 65536
    omega)

theorem toFatDate_eq (h : fsPosixTimeToBaseYear ≤ ptime)
    (hrun : fsPosixTimeToCalendar ptime = some julian)
    (hc : CalendarOf ptime.toNat julian c) : fsPosixToFatDate ptime = some (fatDateOf c) := by
  have hmonth := hc.valid.month_le
  have hday := Nat.le_trans hc.valid.day_le (monthDays_le _ _)
  have hyear := hc.year_lt
  have hpack :=
    pack_eq (a := c.year - 1980) (b := c.month) (c := c.day) (s := 9) (r := 5) (by omega)
    (by omega) (by decide) (by omega)
  rw [fsPosixToFatDate, if_neg (UInt32.not_lt.mpr h), hrun, map_some, hc.year, hc.month, hc.day]
  refine congrArg (fun n => some (UInt16.ofNat n)) (hpack.trans ?_)
  omega

theorem toFatTime_eq (h : fsPosixTimeToBaseYear ≤ ptime) (hc : CalendarOf ptime.toNat julian c) :
    fsPosixToFatTime ptime = fatTimeOf c := by
  have hlt := ptime.toNat_lt
  have hhour := hc.valid.hour_lt
  have hminute := hc.valid.minute_lt
  have hsecond := hc.valid.second_lt
  have hsec : (ptime % 60).toUInt16.toNat = c.second := by
    rw [UInt32.toNat_toUInt16, UInt32.toNat_mod, hc.second, show (60 : UInt32).toNat = 60 from rfl]
    omega
  have hmin : (ptime / 60 % 60).toUInt16.toNat = c.minute := by
    rw [UInt32.toNat_toUInt16, UInt32.toNat_mod, UInt32.toNat_div, hc.minute,
      show (60 : UInt32).toNat = 60 from rfl]
    omega
  have hhours : (ptime / 60 / 60 % 24).toUInt16.toNat = c.hour := by
    rw [UInt32.toNat_toUInt16, UInt32.toNat_mod, UInt32.toNat_div, UInt32.toNat_div, hc.hour,
      show (60 : UInt32).toNat = 60 from rfl, show (24 : UInt32).toNat = 24 from rfl]
    omega
  have hpack :=
    pack_eq (a := c.hour) (b := c.minute) (c := c.second / 2) (s := 11) (r := 5) (by omega)
    (by omega) (by decide) (by omega)
  rw [fsPosixToFatTime, if_neg (UInt32.not_lt.mpr h)]
  dsimp only
  rw [hsec, hmin, hhours, Nat.shiftRight_eq_div_pow c.second, Nat.pow_one]
  refine congrArg UInt16.ofNat (hpack.trans ?_)
  omega

/-- The words give the time back to the last even second. -/
theorem toPosixTime_eq (h : fsPosixTimeToBaseYear ≤ ptime) (hc : CalendarOf ptime.toNat julian c) :
    ∃ time, fsFatToPosixTime (fatTimeOf c) (fatDateOf c) = some time ∧
      time.value.toNat = ptime.toNat - ptime.toNat % 2 := by
  obtain ⟨hyear, hmonth, hday⟩ := unpack_date (y := c.year - 1980)
    (Nat.lt_of_le_of_lt hc.valid.month_le (by decide))
    (Nat.lt_succ_of_le (Nat.le_trans hc.valid.day_le (monthDays_le _ _)))
  obtain ⟨hhour, hminute, hsecond⟩ := unpack_time (h := c.hour)
    (Nat.lt_trans hc.valid.minute_lt (by decide))
    (Nat.div_lt_of_lt_mul (Nat.lt_trans hc.valid.second_lt (by decide)) : c.second / 2 < 32)
  rw [← fatDateOf_toNat hc] at hyear hmonth hday
  rw [← fatTimeOf_toNat hc.valid] at hhour hminute hsecond
  obtain ⟨time, hrun, htime⟩ := fatToPosixTime_exact (fatTimeOf c)
    (fatDateOf c) (d := tableSeconds ptime.toNat / 86400)
    ⟨hmonth ▸ hc.valid.month_pos, hmonth ▸ Nat.le_trans hc.valid.month_le (by decide)⟩
    (by rw [hyear, hmonth, hday]; exact hc.tables.symm)
  refine ⟨time, hrun, ?_⟩
  rw [htime.value, hhour, hminute, hsecond, hc.hour, hc.minute, hc.second]
  exact finished_tableSeconds (UInt32.le_iff_toNat_le.mp h) ptime.toNat_lt

end Words

/-! ## FAT times -/

/-- A time from 1980 on, up to 2106, has the words of its Gregorian date and time, and they give it
back. -/
theorem dated (ptime : UInt32) : Dated ptime := by
  intro h
  obtain ⟨julian, c, hrun, hc⟩ := toCalendar_spec h
  exact ⟨c, hc.valid, hc.seconds, toFatDate_eq h hrun hc, toFatTime_eq h hc, toPosixTime_eq h hc⟩

/-- **FAT times**: every time from 1980 on gets the words of its Gregorian date and time, which
give it back to the last even second; and two words, whatever they hold, are turned into a time
with the entries of the tables and without a wrap when the month is at least 1 and at most 13, and
the day is not day 0 of January 1980. -/
theorem fatTime_iff (ptime : UInt32) (fatTime fatDate : UInt16) :
    Dated ptime ∧ (Computed fatTime fatDate ↔ Computable fatDate) :=
  ⟨dated ptime, computed_iff fatTime fatDate⟩

/-- A directory entry of zeros has month 0, whose days are looked up before the first entry of the
table; and day 0 of January 1980 is a time before the base year. -/
theorem fatTime_not_computed : ¬ Computed 0 0 ∧ ¬ Computed 0 0x20 := by
  constructor
  · rintro ⟨time, hrun, -⟩
    cases hrun
  · rintro ⟨time, hrun, hwrapped⟩
    cases hrun
    cases hwrapped

end Efs
