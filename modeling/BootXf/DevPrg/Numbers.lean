import BootXf.Lib.Numeral

/-!
# Numbers in commands

The attributes of a command are strings, and what they say is read by `convert_atoi`. Reading
checks the sum with each digit for overflow but not the product with the base. Counted from the end
of the device a sector is written `NUM_DISK_SECTORS-n`, and of what is behind it 20 characters are
read.

A string is the list of the characters in front of its terminating zero.
-/

namespace DevPrg

open Lib List Option

/-- What a decimal digit stands for. -/
def decDigit (v : UInt8) : Option UInt64 :=
  if v ≥ 48 ∧ v ≤ 57 then some (v - 48).toUInt64 else none

/-- What a hexadecimal digit stands for. -/
def hexDigit (v : UInt8) : Option UInt64 :=
  if v ≥ 48 ∧ v ≤ 57 then some (v - 48).toUInt64
  else if v ≥ 65 ∧ v ≤ 70 then some (v - 65 + 10).toUInt64
  else if v ≥ 97 ∧ v ≤ 102 then some (v - 97 + 10).toUInt64
  else none

/-- The loop of `dec_atoi` and of `hex_atoi`. -/
def atoiLoop (multiplier : UInt64) (digit : UInt8 → Option UInt64) :
    UInt64 → List UInt8 → Option UInt64
  | result, [] => some result
  | result, v :: ascii =>
    let result := result * multiplier
    match digit v with
    | none => none
    | some val =>
      if result > 0xFFFFFFFFFFFFFFFF - val then none
      else atoiLoop multiplier digit (result + val) ascii

/-- `dec_atoi`. -/
def decAtoi (ascii : List UInt8) : Option UInt64 :=
  if ascii = [] then none else atoiLoop 10 decDigit 0 ascii

/-- `hex_atoi`. -/
def hexAtoi (ascii : List UInt8) : Option UInt64 :=
  if ascii = [] then none else atoiLoop 16 hexDigit 0 ascii

/-- It starts with HEX. -/
def StartsHex (ascii : List UInt8) : Prop :=
  ascii.getD 0 0 = 48 ∧ (ascii.getD 1 0 = 120 ∨ ascii.getD 1 0 = 88)

instance (ascii : List UInt8) : Decidable (StartsHex ascii) := inferInstanceAs (Decidable (_ ∧ _))

/-- `convert_atoi`. -/
def convertAtoi : Option (List UInt8) → Option UInt64
  | none => none
  | some ascii => if StartsHex ascii then hexAtoi (ascii.drop 2) else decAtoi ascii

/-- `get_uint64_attr`, of the string that `devprg_xml_get_value` returns. -/
def getUint64Attr (string : Option (List UInt8)) : Option UInt64 := convertAtoi string

/-- `get_uint32_attr`. -/
def getUint32Attr (string : Option (List UInt8)) : Option UInt32 :=
  (getUint64Attr string).bind fun val64 => if val64 > 0xFFFFFFFF then none else some val64.toUInt32

/-- `get_uint8_attr`. -/
def getUint8Attr (string : Option (List UInt8)) : Option UInt8 :=
  (getUint64Attr string).bind fun val64 => if val64 > 0xFF then none else some val64.toUInt8

/-- `devprg_storage_info`, as far as it is read. -/
structure StorageInfo where
  totalBlocks : UInt64
  blockSize : UInt32
  pageSize : UInt32

/-- The sectors of a device, in what `get_sector_value` takes `devprg_storage_get_info` to have
answered. -/
def totalSectors (devInfo : Option StorageInfo) : Option UInt64 :=
  match devInfo with
  | none => none
  | some info =>
    if info.pageSize = 0 then none
    else
      let pagesPerBlock := (info.blockSize / info.pageSize).toUInt64
      if pagesPerBlock = 0 then none else some (info.totalBlocks * pagesPerBlock)

/-- `NUM_DISK_SECTORS-`. -/
def numDiskSectors : List UInt8 :=
  [78, 85, 77, 95, 68, 73, 83, 75, 95, 83, 69, 67, 84, 79, 82, 83, 45]

/-- `get_sector_value`. What `strlcpy` returns is the length of all of the rest. -/
def getSectorValue (value : List UInt8) (devInfo : Option StorageInfo) : Option UInt64 :=
  if value.take 17 = numDiskSectors then
    let rest := value.drop 17
    if rest.length > 21 then none
    else
      let sub := (rest.take 20).takeWhile fun c => c ≠ 46
      match convertAtoi (some sub), totalSectors devInfo with
      | some num, some total => if total < num then none else some (total - num)
      | _, _ => none
  else convertAtoi (some value)

/-! ## What a string says -/

/-- The digits of a string. -/
def digitsOf (digit : UInt8 → Option UInt64) (ascii : List UInt8) : Option (List Nat) :=
  ascii.mapM fun v => (digit v).map UInt64.toNat

/-- The base, what digits stand for, and where they begin. -/
def radix (ascii : List UInt8) : Nat × (UInt8 → Option UInt64) × List UInt8 :=
  if StartsHex ascii then (16, hexDigit, ascii.drop 2) else (10, decDigit, ascii)

/-- The digits of a numeral, of which there is one at least. -/
def numeralDigits (ascii : List UInt8) : Option (List Nat) :=
  if (radix ascii).2.2 = [] then none else digitsOf (radix ascii).2.1 (radix ascii).2.2

/-- The value of a numeral. -/
def numeral (ascii : List UInt8) : Option Nat :=
  (numeralDigits ascii).map fun ds => positional (radix ascii).1 ds

/-- At one of the digits of a numeral the sum with it passes a multiple of `2 ^ 64`. -/
def Crosses (ascii : List UInt8) : Prop :=
  ∃ ds, numeralDigits ascii = some ds ∧ CrossesFrom (2 ^ 64) (radix ascii).1 0 ds

instance (ascii : List UInt8) : Decidable (Crosses ascii) :=
  match h : numeralDigits ascii with
  | none => isFalse fun ⟨_, hds, _⟩ => by rw [h] at hds; cases hds
  | some ds => decidable_of_iff (CrossesFrom (2 ^ 64) (radix ascii).1 0 ds)
      ⟨fun hcross => ⟨ds, h, hcross⟩,
        fun ⟨_, hds, hcross⟩ => by rw [h] at hds; cases hds; exact hcross⟩

/-! ## Reading -/

theorem decDigit_lt {v : UInt8} {d : UInt64} (h : decDigit v = some d) : d.toNat < 10 := by
  unfold decDigit at h
  split at h
  · next hv =>
    cases h
    have hlow := UInt8.le_iff_toNat_le.mp hv.1
    have hhigh := UInt8.le_iff_toNat_le.mp hv.2
    rw [UInt8.toNat_toUInt64, UInt8.toNat_sub_of_le _ _ hv.1]
    have h48 : (48 : UInt8).toNat = 48 := rfl
    have h57 : (57 : UInt8).toNat = 57 := rfl
    omega
  · cases h

theorem hexDigit_lt : ∀ {v : UInt8} {d : UInt64}, hexDigit v = some d → d.toNat < 16 := by
  intro v d h
  unfold hexDigit at h
  have h48 : (48 : UInt8).toNat = 48 := rfl
  have h57 : (57 : UInt8).toNat = 57 := rfl
  have h65 : (65 : UInt8).toNat = 65 := rfl
  have h70 : (70 : UInt8).toNat = 70 := rfl
  have h97 : (97 : UInt8).toNat = 97 := rfl
  have h102 : (102 : UInt8).toNat = 102 := rfl
  have h10 : (10 : UInt8).toNat = 10 := rfl
  split at h
  · next hv =>
    cases h
    have hlow := UInt8.le_iff_toNat_le.mp hv.1
    have hhigh := UInt8.le_iff_toNat_le.mp hv.2
    rw [UInt8.toNat_toUInt64, UInt8.toNat_sub_of_le _ _ hv.1]
    omega
  · split at h
    · next hv =>
      cases h
      have hlow := UInt8.le_iff_toNat_le.mp hv.1
      have hhigh := UInt8.le_iff_toNat_le.mp hv.2
      rw [UInt8.toNat_toUInt64, UInt8.toNat_add, UInt8.toNat_sub_of_le _ _ hv.1]
      omega
    · split at h
      · next hv =>
        cases h
        have hlow := UInt8.le_iff_toNat_le.mp hv.1
        have hhigh := UInt8.le_iff_toNat_le.mp hv.2
        rw [UInt8.toNat_toUInt64, UInt8.toNat_add, UInt8.toNat_sub_of_le _ _ hv.1]
        omega
      · cases h

theorem digitsOf_lt {base : Nat} {digit : UInt8 → Option UInt64}
    (hdigit : ∀ v d, digit v = some d → d.toNat < base) {ascii : List UInt8} {ds : List Nat}
    (h : digitsOf digit ascii = some ds) : ∀ d ∈ ds, d < base := by
  induction ascii generalizing ds with
  | nil =>
    cases h
    exact fun d hd => absurd hd not_mem_nil
  | cons v ascii ih =>
    unfold digitsOf at h
    rw [mapM_cons] at h
    obtain ⟨d, hv, h⟩ := bind_eq_some_iff.mp h
    obtain ⟨rest, hrest, h⟩ := bind_eq_some_iff.mp h
    cases h
    obtain ⟨val, hval, rfl⟩ := map_eq_some_iff.mp hv
    rw [forall_mem_cons]
    exact ⟨hdigit v val hval, ih hrest⟩

/-- **The loop** reads the digits below `2 ^ 64`. -/
theorem atoiLoop_eq (multiplier : UInt64) (digit : UInt8 → Option UInt64) (result : UInt64)
    (ascii : List UInt8) :
    (atoiLoop multiplier digit result ascii).map UInt64.toNat =
      (digitsOf digit ascii).bind (wrapped (2 ^ 64) multiplier.toNat result.toNat) := by
  induction ascii generalizing result with
  | nil => rfl
  | cons v ascii ih =>
    unfold digitsOf atoiLoop
    rw [mapM_cons]
    cases hv : digit v with
    | none => rfl
    | some val =>
      have hval := val.toNat_lt
      have hmax : (0xFFFFFFFFFFFFFFFF : UInt64).toNat = 2 ^ 64 - 1 := rfl
      have hle : val ≤ 0xFFFFFFFFFFFFFFFF := UInt64.le_iff_toNat_le.mpr (by omega)
      have hprod : (result * multiplier).toNat = result.toNat * multiplier.toNat % 2 ^ 64 :=
        UInt64.toNat_mul ..
      have hover : result * multiplier > 0xFFFFFFFFFFFFFFFF - val ↔
          ¬ result.toNat * multiplier.toNat % 2 ^ 64 + val.toNat < 2 ^ 64 := by
        rw [gt_iff_lt, UInt64.lt_iff_toNat_lt, UInt64.toNat_sub_of_le _ _ hle, hprod, hmax]
        omega
      have hrest := ih (result * multiplier + val)
      unfold digitsOf at hrest
      simp only [map_some, bind_eq_bind, bind_some]
      by_cases hsum : result.toNat * multiplier.toNat % 2 ^ 64 + val.toNat < 2 ^ 64
      · have hnext : (result * multiplier + val).toNat =
            result.toNat * multiplier.toNat % 2 ^ 64 + val.toNat := by
          rw [UInt64.toNat_add, hprod, Nat.mod_eq_of_lt hsum]
        rw [if_neg (fun h => hover.mp h hsum), hrest, hnext]
        cases ascii.mapM fun v => (digit v).map UInt64.toNat with
        | none => rfl
        | some ds =>
          simp only [bind_some, Option.pure_def]
          rw [wrapped, if_pos hsum]
      · rw [if_pos (hover.mpr hsum)]
        cases ascii.mapM fun v => (digit v).map UInt64.toNat with
        | none => rfl
        | some ds =>
          simp only [bind_some, Option.pure_def, map_none]
          rw [wrapped, if_neg hsum]

section
variable {ascii : List UInt8} {n : Nat}

/-- What a string begins with says how it is read. -/
theorem convertAtoi_radix (ascii : List UInt8) : ∃ multiplier : UInt64,
    multiplier.toNat = (radix ascii).1 ∧ 0 < (radix ascii).1 ∧ (radix ascii).1 ≤ 16 ∧
    (∀ v d, (radix ascii).2.1 v = some d → d.toNat < (radix ascii).1) ∧
    convertAtoi (some ascii) = if (radix ascii).2.2 = [] then none
      else atoiLoop multiplier (radix ascii).2.1 0 (radix ascii).2.2 := by
  unfold convertAtoi radix
  by_cases hhex : StartsHex ascii
  · simp only [if_pos hhex]
    exact ⟨16, rfl, by decide, by decide, fun _ _ => hexDigit_lt, rfl⟩
  · simp only [if_neg hhex]
    exact ⟨10, rfl, by decide, by decide, fun _ _ => decDigit_lt, rfl⟩

/-- What is no numeral is not read. -/
theorem convertAtoi_of_none (h : numeral ascii = none) : convertAtoi (some ascii) = none := by
  obtain ⟨multiplier, -, -, -, -, hrun⟩ := convertAtoi_radix ascii
  have hnone : numeralDigits ascii = none := map_eq_none_iff.mp h
  unfold numeralDigits at hnone
  rw [hrun]
  split
  · rfl
  · next hdigits =>
    rw [if_neg hdigits] at hnone
    have hloop := atoiLoop_eq multiplier (radix ascii).2.1 0 (radix ascii).2.2
    rw [hnone, bind_none] at hloop
    exact map_eq_none_iff.mp hloop

theorem numeral_lt {ds : List Nat} (h : numeralDigits ascii = some ds) :
    ∀ d ∈ ds, d < (radix ascii).1 := by
  obtain ⟨-, -, -, -, hdigit, -⟩ := convertAtoi_radix ascii
  unfold numeralDigits at h
  split at h
  · cases h
  · exact digitsOf_lt hdigit h

/-- **What is read of a numeral.** -/
theorem convertAtoi_of_some (h : numeral ascii = some n) :
    (convertAtoi (some ascii)).map UInt64.toNat =
      if Crosses ascii then none else some (n % 2 ^ 64) := by
  obtain ⟨multiplier, hmultiplier, -, hbase, -, hrun⟩ := convertAtoi_radix ascii
  obtain ⟨ds, hds, rfl⟩ := map_eq_some_iff.mp h
  have hlt := numeral_lt hds
  have hcrosses : Crosses ascii ↔ CrossesFrom (2 ^ 64) (radix ascii).1 0 ds := by
    refine ⟨fun ⟨ds', hds', hcross⟩ => ?_, fun hcross => ⟨ds, hds, hcross⟩⟩
    rw [hds] at hds'
    cases hds'
    exact hcross
  unfold numeralDigits at hds
  rw [hrun]
  split at hds
  · cases hds
  · next hdigits =>
    have hread := @wrapped_eq (2 ^ 64) (radix ascii).1 ds (by decide) 0 fun d hd =>
      Nat.lt_of_lt_of_le (hlt d hd) (Nat.le_trans hbase (by decide))
    rw [Nat.zero_mod, foldl_eq_positional] at hread
    rw [if_neg hdigits, atoiLoop_eq, hds, bind_some, hmultiplier]
    exact hread.trans (if_congr hcrosses.symm rfl rfl)

/-- A numeral below `2 ^ 64` does not pass it. -/
theorem not_crosses_of_lt (h : numeral ascii = some n) (hlt : n < 2 ^ 64) : ¬ Crosses ascii := by
  obtain ⟨-, -, hbase, -⟩ := convertAtoi_radix ascii
  rintro ⟨ds, hds, hcross⟩
  obtain ⟨ds', hds', rfl⟩ := map_eq_some_iff.mp h
  rw [hds] at hds'
  cases hds'
  rw [← foldl_eq_positional] at hlt
  exact not_crossesFrom_of_lt hbase hlt hcross

/-- A numeral that is refused is not below `2 ^ 64`. -/
theorem convertAtoi_of_lt (h : numeral ascii = some n) (hlt : n < 2 ^ 64) :
    convertAtoi (some ascii) = some (.ofNat n) := by
  have hread := convertAtoi_of_some h
  rw [if_neg (not_crosses_of_lt h hlt), Nat.mod_eq_of_lt hlt] at hread
  obtain ⟨v, hv, rfl⟩ := map_eq_some_iff.mp hread
  rw [hv, UInt64.ofNat_toNat]

end

/-! ## Exactness -/

/-- A numeral behind `NUM_DISK_SECTORS-`, which may end with a dot. -/
def FromEnd (value t : List UInt8) : Prop :=
  value = numDiskSectors ++ t ∨ value = numDiskSectors ++ t ++ [46]

/-- A string is read as what it says, and what it says is not out of range where it is accepted. -/
structure ParsesExactly (value : List UInt8) (devInfo : Option StorageInfo) : Prop where
  convert : convertAtoi (some value) =
    (numeral value).bind fun n => if n < 2 ^ 64 then some (.ofNat n) else none
  uint32 : getUint32Attr (some value) =
    (numeral value).bind fun n => if n < 2 ^ 32 then some (.ofNat n) else none
  uint8 : getUint8Attr (some value) =
    (numeral value).bind fun n => if n < 2 ^ 8 then some (.ofNat n) else none
  sector : ∀ n, numeral value = some n → ∀ v, getSectorValue value devInfo = some v → v.toNat = n
  fromEnd : ∀ t n, FromEnd value t → numeral t = some n →
    ∀ v, getSectorValue value devInfo = some v →
    ∃ total, totalSectors devInfo = some total ∧ v.toNat + n = total.toNat

/-- Which strings are read exactly. A numeral is below `2 ^ 64`, or the sum with one of its digits
passes a multiple of it. So is one of up to 20 characters behind `NUM_DISK_SECTORS-`, unless what
is left of it is more than the device has; one of 21, of which the last is not read, is zero, or
what is read is refused. -/
structure Readable (value : List UInt8) (devInfo : Option StorageInfo) : Prop where
  plain : ∀ n, numeral value = some n → n < 2 ^ 64 ∨ Crosses value
  short : ∀ t n total, FromEnd value t → numeral t = some n → totalSectors devInfo = some total →
    t.length ≤ 20 → n < 2 ^ 64 ∨ Crosses t ∨ total.toNat < n % 2 ^ 64
  long : ∀ t n m total, value = numDiskSectors ++ t → numeral t = some n →
    totalSectors devInfo = some total → t.length = 21 → numeral (t.take 20) = some m →
    n = 0 ∨ Crosses (t.take 20) ∨ total.toNat < m % 2 ^ 64

/-! ## Behind the name of the last sector -/

section
variable {value t : List UInt8} {n : Nat} {devInfo : Option StorageInfo} {total : UInt64}

/-- A digit is no dot. -/
theorem digitsOf_ne_dot {digit : UInt8 → Option UInt64} (hdot : digit 46 = none)
    {ascii : List UInt8}
    {ds : List Nat} (h : digitsOf digit ascii = some ds) : ∀ c ∈ ascii, c ≠ 46 := by
  induction ascii generalizing ds with
  | nil => exact fun c hc => absurd hc not_mem_nil
  | cons v ascii ih =>
    unfold digitsOf at h
    rw [mapM_cons] at h
    obtain ⟨d, hv, h⟩ := bind_eq_some_iff.mp h
    obtain ⟨rest, hrest, -⟩ := bind_eq_some_iff.mp h
    rw [forall_mem_cons]
    refine ⟨fun heq => ?_, ih hrest⟩
    rw [heq, hdot] at hv
    cases hv

/-- A numeral has no dot. -/
theorem ne_dot_of_numeral (h : numeral t = some n) : ∀ c ∈ t, c ≠ 46 := by
  obtain ⟨ds, hds, -⟩ := map_eq_some_iff.mp h
  unfold numeralDigits radix at hds
  by_cases hhex : StartsHex t
  · simp only [if_pos hhex] at hds
    split at hds
    · cases hds
    · have hrest := digitsOf_ne_dot (by decide) hds
      match t, hhex with
      | [], hhex => exact absurd hhex (by decide)
      | [a], hhex =>
        have hx : (0 : UInt8) = 120 ∨ (0 : UInt8) = 88 := hhex.2
        exact absurd hx (by decide)
      | a :: b :: t, hhex =>
        have ha : a = 48 := hhex.1
        have hb : b = 120 ∨ b = 88 := hhex.2
        rw [forall_mem_cons, forall_mem_cons]
        refine ⟨by rw [ha]; decide, ?_, hrest⟩
        rcases hb with rfl | rfl <;> decide
  · simp only [if_neg hhex] at hds
    split at hds
    · cases hds
    · exact digitsOf_ne_dot (by decide) hds

/-- What begins with the name of the last sector is no numeral. -/
theorem numeral_of_numDiskSectors (h : value.take 17 = numDiskSectors) : numeral value = none := by
  match value with
  | [] => cases h
  | v :: value =>
    have hv : v = 78 := (List.cons.inj h).1
    have hhex : ¬ StartsHex (v :: value) := fun hhex => by
      have hzero : v = 48 := hhex.1
      rw [hv] at hzero
      cases hzero
    unfold numeral numeralDigits radix
    simp only [if_neg hhex]
    rw [if_neg (cons_ne_nil _ _)]
    unfold digitsOf
    rw [mapM_cons, hv]
    rfl

/-- What is done with the string that is read. -/
def fromTotal (sub : List UInt8) (total : UInt64) : Option UInt64 :=
  (convertAtoi (some sub)).bind fun num => if total < num then none else some (total - num)

variable (devInfo) in
/-- **A numeral behind the name.** All of it is read, or all but the last of 21 characters. -/
theorem getSectorValue_fromEnd (hfrom : FromEnd value t) (ht : numeral t = some n) :
    getSectorValue value devInfo =
      if t.length ≤ 20 then (totalSectors devInfo).bind (fromTotal t)
      else if t.length = 21 ∧ value = numDiskSectors ++ t then
        (totalSectors devInfo).bind (fromTotal (t.take 20))
      else none := by
  have hdot : ∀ c ∈ t, decide (c ≠ 46) = true :=
    fun c hc => decide_eq_true (ne_dot_of_numeral ht c hc)
  have htake : ∀ (l : List UInt8), (∀ c ∈ l, decide (c ≠ 46) = true) →
      l.takeWhile (fun c => decide (c ≠ 46)) = l := fun l hl => by
    have happend : (l ++ []).takeWhile (fun c => decide (c ≠ 46)) =
        l ++ takeWhile (fun c => decide (c ≠ 46)) [] := takeWhile_append_of_pos hl
    simpa using happend
  have hrun : ∀ (sub : List UInt8), (match convertAtoi (some sub), totalSectors devInfo with
      | some num, some total => if total < num then none else some (total - num)
      | _, _ => none) = (totalSectors devInfo).bind (fromTotal sub) := fun sub => by
    unfold fromTotal
    cases convertAtoi (some sub) <;> cases totalSectors devInfo <;> rfl
  have hname : ∀ rest, (numDiskSectors ++ rest).take 17 = numDiskSectors ∧
      (numDiskSectors ++ rest).drop 17 = rest := fun rest => ⟨rfl, rfl⟩
  unfold getSectorValue
  rcases hfrom with rfl | rfl
  · rw [if_pos (hname t).1, (hname t).2]
    dsimp only
    by_cases hshort : t.length ≤ 20
    · rw [if_neg (by omega), if_pos hshort, take_of_length_le hshort, htake t hdot]
      exact hrun t
    · rw [if_neg hshort]
      by_cases hlong : t.length = 21
      · rw [if_neg (by omega), if_pos ⟨hlong, rfl⟩,
          htake (t.take 20) fun c hc => hdot c (mem_of_mem_take hc)]
        exact hrun (t.take 20)
      · rw [if_pos (by omega), if_neg fun h => hlong h.1]
  · rw [append_assoc, if_pos (hname _).1, (hname _).2]
    dsimp only
    rw [length_append, length_singleton]
    by_cases hshort : t.length ≤ 20
    · have hsub : ((t ++ [46]).take 20).takeWhile (fun c => decide (c ≠ 46)) = t := by
        rw [take_append, take_of_length_le hshort,
          takeWhile_append_of_pos (p := fun c => decide (c ≠ 46)) hdot]
        cases 20 - t.length <;> simp
      rw [if_neg (by omega), if_pos hshort, hsub]
      exact hrun t
    · rw [if_neg hshort, if_pos (by omega), if_neg]
      rintro ⟨-, heq⟩
      have hlen := congrArg List.length heq
      simp at hlen

/-- What is taken from the total. -/
theorem fromTotal_eq_some_iff {sub : List UInt8} {m : Nat} (hsub : numeral sub = some m)
    {v : UInt64} : fromTotal sub total = some v ↔
      ¬ Crosses sub ∧ m % 2 ^ 64 ≤ total.toNat ∧ v.toNat + m % 2 ^ 64 = total.toNat := by
  have hread := convertAtoi_of_some hsub
  unfold fromTotal
  by_cases hcross : Crosses sub
  · rw [if_pos hcross] at hread
    rw [map_eq_none_iff.mp hread]
    exact ⟨nofun, fun h => absurd hcross h.1⟩
  · rw [if_neg hcross] at hread
    obtain ⟨num, hnum, hvalue⟩ := map_eq_some_iff.mp hread
    rw [hnum, bind_some, ← hvalue]
    by_cases hless : total < num
    · have hlt := UInt64.lt_iff_toNat_lt.mp hless
      rw [if_pos hless]
      exact ⟨nofun, fun h => by omega⟩
    · have hle : num ≤ total := UInt64.not_lt.mp hless
      have hle' := UInt64.le_iff_toNat_le.mp hle
      have hsub := UInt64.toNat_sub_of_le total num hle
      rw [if_neg hless, some_inj, ← UInt64.toNat_inj, hsub]
      exact ⟨fun h => ⟨hcross, hle', by omega⟩, fun h => by omega⟩

/-- The value without the last digit. -/
theorem numeral_append_singleton {u : List UInt8} {c : UInt8} (hu : 3 ≤ u.length)
    (h : numeral (u ++ [c]) = some n) : ∃ m base d, numeral u = some m ∧
    n = m * base + d ∧ 10 ≤ base := by
  have hhex : StartsHex (u ++ [c]) ↔ StartsHex u := by
    unfold StartsHex
    rw [getD_eq_getElem?_getD, getD_eq_getElem?_getD, getElem?_append_left (by omega),
      getElem?_append_left (by omega), ← getD_eq_getElem?_getD,
      ← getD_eq_getElem?_getD]
  have hradix : radix (u ++ [c]) = ((radix u).1, (radix u).2.1, (radix u).2.2 ++ [c]) ∧
      10 ≤ (radix u).1 ∧ (radix u).2.2 ≠ [] := by
    unfold radix
    by_cases hstart : StartsHex u
    · simp only [if_pos hstart, if_pos (hhex.mpr hstart)]
      refine ⟨by rw [drop_append_of_le_length (by omega)], by decide, fun hnil => ?_⟩
      have hlen := congrArg List.length hnil
      rw [length_drop, length_nil] at hlen
      omega
    · simp only [if_neg hstart, if_neg fun hs => hstart (hhex.mp hs)]
      refine ⟨trivial, by decide, fun hnil => ?_⟩
      rw [hnil] at hu
      exact absurd hu (by decide)
  obtain ⟨hradix, hbase, hdigits⟩ := hradix
  obtain ⟨ds, hds, rfl⟩ := map_eq_some_iff.mp h
  unfold numeralDigits at hds
  rw [hradix] at hds ⊢
  dsimp only at hds ⊢
  rw [if_neg (by simp)] at hds
  unfold digitsOf at hds
  rw [mapM_append] at hds
  obtain ⟨us, hus, hds⟩ := bind_eq_some_iff.mp hds
  obtain ⟨cs, hcs, hds⟩ := bind_eq_some_iff.mp hds
  cases hds
  rw [mapM_cons] at hcs
  obtain ⟨d, -, hcs⟩ := bind_eq_some_iff.mp hcs
  cases hcs
  refine ⟨positional (radix u).1 us, (radix u).1, d, ?_, positional_append .., hbase⟩
  unfold numeral numeralDigits digitsOf
  rw [if_neg hdigits, hus]
  rfl

/-- Strings that are read exactly are such. -/
theorem ParsesExactly.readable (h : ParsesExactly value devInfo) : Readable value devInfo where
  plain := fun n hn => by
    rcases Nat.lt_or_ge n (2 ^ 64) with hlt | hge
    · exact .inl hlt
    · have hread := convertAtoi_of_some hn
      rw [h.convert, hn, bind_some, if_neg (Nat.not_lt.mpr hge)] at hread
      refine .inr (Decidable.not_not.mp fun hcross => ?_)
      rw [if_neg hcross] at hread
      cases hread
  short := fun t n total hfrom hn htotal hlen => by
    refine Decidable.or_iff_not_imp_left.mpr fun hge => ?_
    refine Decidable.or_iff_not_imp_left.mpr fun hcross => Nat.lt_of_not_le fun hle => ?_
    have hrun := getSectorValue_fromEnd devInfo hfrom hn
    rw [if_pos hlen, htotal, bind_some] at hrun
    have hsome : fromTotal t total = some (.ofNat (total.toNat - n % 2 ^ 64)) :=
      (fromTotal_eq_some_iff hn).mpr ⟨hcross, hle, by
        have hlt := total.toNat_lt
        rw [UInt64.toNat_ofNat', Nat.mod_eq_of_lt (by omega)]
        omega⟩
    obtain ⟨total', htotal', hsum⟩ := h.fromEnd t n hfrom hn _ (hrun.trans hsome)
    rw [htotal] at htotal'
    cases htotal'
    have hlt := total.toNat_lt
    omega
  long := fun t n m total hvalue hn htotal hlen hm => by
    refine Decidable.or_iff_not_imp_left.mpr fun hne => ?_
    refine Decidable.or_iff_not_imp_left.mpr fun hcross => Nat.lt_of_not_le fun hle => ?_
    have hrun := getSectorValue_fromEnd devInfo (.inl hvalue) hn
    rw [if_neg (by omega), if_pos ⟨hlen, hvalue⟩, htotal, bind_some] at hrun
    have hsome : fromTotal (t.take 20) total = some (.ofNat (total.toNat - m % 2 ^ 64)) :=
      (fromTotal_eq_some_iff hm).mpr ⟨hcross, hle, by
        have hlt := total.toNat_lt
        rw [UInt64.toNat_ofNat', Nat.mod_eq_of_lt (by omega)]
        omega⟩
    have hv : (UInt64.ofNat (total.toNat - m % 2 ^ 64)).toNat = total.toNat - m % 2 ^ 64 := by
      have hlt := total.toNat_lt
      rw [UInt64.toNat_ofNat', Nat.mod_eq_of_lt (by omega)]
    obtain ⟨total', htotal', hsum⟩ := h.fromEnd t n (.inl hvalue) hn _ (hrun.trans hsome)
    rw [htotal] at htotal'
    cases htotal'
    have hsplit : t.take 20 ++ [t[20]] = t := by
      rw [take_append_getElem]
      exact take_of_length_le (by omega)
    obtain ⟨m', base, d, hm', hn', hbase⟩ := numeral_append_singleton (u := t.take 20) (c := t[20])
      (by rw [length_take]; omega) (by rw [hsplit]; exact hn)
    rw [hm] at hm'
    cases hm'
    have hmod := Nat.mod_le m (2 ^ 64)
    have hmul := Nat.mul_le_mul_left m hbase
    omega

/-- A number of 64 bits that is narrowed if it is not above the greatest of the narrower ones. -/
theorem narrowed_eq {β : Type} {max : UInt64} {k : Nat} {narrow : UInt64 → β} {ofNat : Nat → β}
    (hmax : max.toNat = 2 ^ k - 1) (hk : 2 ^ k ≤ 2 ^ 64)
    (hnarrow : ∀ n, narrow (.ofNat n) = ofNat n) (n : Nat) :
    ((if n < 2 ^ 64 then some (UInt64.ofNat n) else none).bind fun val64 =>
        if val64 > max then none else some (narrow val64)) = if n < 2 ^
          k then some (ofNat n) else none := by
  have hpos := Nat.two_pow_pos k
  by_cases hlt : n < 2 ^ 64
  · have hvalue : (UInt64.ofNat n).toNat = n := by rw [UInt64.toNat_ofNat', Nat.mod_eq_of_lt hlt]
    have hgreat : UInt64.ofNat n > max ↔ ¬ n < 2 ^ k := by
      rw [gt_iff_lt, UInt64.lt_iff_toNat_lt, hvalue, hmax]
      omega
    rw [if_pos hlt, bind_some]
    by_cases hsmall : n < 2 ^ k
    · rw [if_neg (fun hg => hgreat.mp hg hsmall), if_pos hsmall, hnarrow]
    · rw [if_pos (hgreat.mpr hsmall), if_neg hsmall]
  · rw [if_neg hlt, if_neg (by omega)]
    rfl

/-- Such strings are read exactly. -/
theorem Readable.parsesExactly (h : Readable value devInfo) : ParsesExactly value devInfo := by
  have hconvert : convertAtoi (some value) =
      (numeral value).bind fun n => if n < 2 ^ 64 then some (.ofNat n) else none := by
    cases hn : numeral value with
    | none => exact convertAtoi_of_none hn
    | some n =>
      rw [bind_some]
      rcases Nat.lt_or_ge n (2 ^ 64) with hlt | hge
      · rw [if_pos hlt]
        exact convertAtoi_of_lt hn hlt
      · have hcross := (h.plain n hn).resolve_left (Nat.not_lt.mpr hge)
        have hread := convertAtoi_of_some hn
        rw [if_pos hcross] at hread
        rw [if_neg (Nat.not_lt.mpr hge)]
        exact map_eq_none_iff.mp hread
  refine ⟨hconvert, ?_, ?_, fun n hn v hv => ?_, fun t n hfrom hn v hv => ?_⟩
  · unfold getUint32Attr getUint64Attr
    rw [hconvert, Option.bind_assoc]
    exact congrArg _ (funext fun n => narrowed_eq (k := 32) rfl (by decide)
      (fun _ => UInt32.toNat_inj.mp (by simp)) n)
  · unfold getUint8Attr getUint64Attr
    rw [hconvert, Option.bind_assoc]
    exact congrArg _ (funext fun n => narrowed_eq (k := 8) rfl (by decide)
      (fun _ => UInt8.toNat_inj.mp (by simp)) n)
  · have hplain : ¬ value.take 17 = numDiskSectors := fun hname => by
      rw [numeral_of_numDiskSectors hname] at hn
      cases hn
    unfold getSectorValue at hv
    rw [if_neg hplain, hconvert, hn, bind_some] at hv
    split at hv
    · next hlt =>
      cases hv
      rw [UInt64.toNat_ofNat', Nat.mod_eq_of_lt hlt]
    · cases hv
  · rw [getSectorValue_fromEnd devInfo hfrom hn] at hv
    split at hv
    · next hlen =>
      obtain ⟨total, htotal, hv⟩ := bind_eq_some_iff.mp hv
      obtain ⟨hcross, hle, hsum⟩ := (fromTotal_eq_some_iff hn).mp hv
      have hlt : n < 2 ^ 64 :=
        (h.short t n total hfrom hn htotal hlen).resolve_right fun hbad =>
          hbad.elim hcross fun hgreat => Nat.not_lt.mpr hle hgreat
      rw [Nat.mod_eq_of_lt hlt] at hsum
      exact ⟨total, htotal, hsum⟩
    · split at hv
      · next hlong =>
        obtain ⟨hlen, hvalue⟩ := hlong
        obtain ⟨total, htotal, hv⟩ := bind_eq_some_iff.mp hv
        have hsplit : t.take 20 ++ [t[20]] = t := by
          rw [take_append_getElem]
          exact take_of_length_le (by omega)
        obtain ⟨m, base, d, hm, hn', hbase⟩ :=
          numeral_append_singleton (u := t.take 20) (c := t[20])
          (by rw [length_take]; omega) (by rw [hsplit]; exact hn)
        obtain ⟨hcross, hle, hsum⟩ := (fromTotal_eq_some_iff hm).mp hv
        have hzero : n = 0 :=
          (h.long t n m total hvalue hn htotal hlen hm).resolve_right fun hbad =>
            hbad.elim hcross fun hgreat => Nat.not_lt.mpr hle hgreat
        have hmul := Nat.mul_le_mul_left m hbase
        have hm0 : m = 0 := by omega
        rw [hm0, Nat.zero_mod] at hsum
        exact ⟨total, htotal, by omega⟩
      · cases hv

/-- **A string is read exactly where its numeral does not wrap and is read to its end.** -/
theorem parsesExactly_iff_readable (value : List UInt8) (devInfo : Option StorageInfo) :
    ParsesExactly value devInfo ↔ Readable value devInfo :=
  ⟨ParsesExactly.readable, Readable.parsesExactly⟩

end

/-- `0x10000000000000005`. -/
def wrapsToFive : List UInt8 := [48, 120, 49] ++ replicate 15 48 ++ [53]

/-- `40000000000000000000`. -/
def wrapsTwice : List UInt8 := [52] ++ replicate 19 48

/-- `NUM_DISK_SECTORS-000000000000000000050`. -/
def behindTwenty : List UInt8 := numDiskSectors ++ replicate 19 48 ++ [53, 48]

/-- Not every numeral is read exactly. -/
theorem not_always_exact : ¬ ParsesExactly wrapsToFive none ∧ ¬ ParsesExactly wrapsTwice none ∧
    ¬ ParsesExactly behindTwenty (some ⟨100, 4096, 4096⟩) := by
  refine ⟨fun h => absurd h.convert (by decide), fun h => absurd h.convert (by decide), fun h => ?_⟩
  have hvalue : behindTwenty = numDiskSectors ++ (replicate 19 48 ++ [53, 48]) := by decide
  obtain ⟨total, htotal, hsum⟩ := h.fromEnd (replicate 19 48 ++ [53, 48]) 50 (.inl hvalue)
    (by decide) 95 (by decide)
  cases htotal
  exact absurd hsum (by decide)

end DevPrg
