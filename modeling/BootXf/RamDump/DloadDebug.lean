import BootXf.Lib.Align
import BootXf.Lib.Run
import BootXf.Lib.Span

/-!
# The memory dump region table

`boot_dload_debug.c` keeps the regions of memory that a host may dump, and next to them the
restricted ones, which hardware cannot read directly. Regions are added by the target's hooks,
aligned down to words; a reset of the table (`dload_mem_debug_init`) forgets the regions but not
the restricted ones. `dload_mem_debug_verify_addr` decides whether a request may be answered.

The live entries of an array with a counter are a list here, whose length is the counter.
-/

namespace RamDump

open Lib

/-- `NUM_REGIONS`, which is `MAX_CRASHDUMP_TABLE_ENTRIES`. -/
def numRegions : Nat := 300

/-- `DLOAD_DEBUG_STRLEN_BYTES`. -/
def dloadDebugStrlenBytes : Nat := 20

/-- `dload_save_pref_type`. -/
inductive DloadSavePref
  | optionalDefNoSave
  | optionalDefSave
  | mandatory
  deriving DecidableEq, Repr

/-- `strlcpy`. -/
def strlcpy (src : List UInt8) (size : Nat) : List UInt8 := src.take (size - 1)

/-- `x & ~3`. -/
def maskWord (x : UInt64) : UInt64 := x &&& ~~~3

/-- `dload_debug_type`. An entry is only ever written aligned. -/
structure DloadDebugType where
  savePref : DloadSavePref
  memBase : UInt64
  length : UInt64
  desc : List UInt8
  filename : List UInt8
  length_aligned : length.toNat % 4 = 0
  deriving DecidableEq

/-- `struct dload_restricted_region`. -/
structure DloadRestrictedRegion where
  memBase : UInt64
  length : UInt64
  deriving DecidableEq, Repr

/-- `sizeof(dload_debug_type)`. -/
def sizeofDloadDebugType : Nat := 64

/-- Where the linker put `dload_debug_info`: an object ends inside the address space. -/
structure TablePlace where
  addr : UInt64
  fits : addr.toNat + sizeofDloadDebugType * numRegions ≤ 2 ^ 64

/-- The variables of the module. -/
structure DloadDebug where
  /-- `dload_debug_info`, of which `real_num_regions` entries are in use. -/
  dloadDebugInfo : List DloadDebugType
  /-- `dload_restricted_regions`, of which `num_restricted_regions` are in use. -/
  dloadRestrictedRegions : List DloadRestrictedRegion
  regionTableFixedLength : Bool
  regions_fit : dloadDebugInfo.length ≤ numRegions
  restricted_fit : dloadRestrictedRegions.length ≤ numRegions

/-- No entries fit. -/
theorem noRegions_fit : ([] : List DloadDebugType).length ≤ numRegions := by decide

theorem noRestrictedRegions_fit : ([] : List DloadRestrictedRegion).length ≤ numRegions := by decide

/-- The variables at boot. -/
def DloadDebug.boot : DloadDebug := ⟨[], [], false, noRegions_fit, noRestrictedRegions_fit⟩

/-! ## Masking -/

theorem maskWord_toNat (x : UInt64) : (maskWord x).toNat = roundDown x.toNat 4 := by
  have h : (maskWord x).toNat = x.toNat &&& (2 ^ 64 - 2 ^ 2) := by
    simp [maskWord, UInt64.toNat_and]
  exact h.trans (nat_and_mask x.toNat_lt (by decide))

theorem maskWord_mod (x : UInt64) : (maskWord x).toNat % 4 = 0 := by
  rw [maskWord_toNat]
  exact Nat.mul_mod_left ..

/-! ## Adding regions -/

namespace DloadDebug

/-- `dload_debug_add_region`. -/
def dloadDebugAddRegion (d : DloadDebug) (savePref : DloadSavePref) (memBase length : UInt64)
    (desc filename : List UInt8) : Bool × DloadDebug :=
  if h : desc.length < dloadDebugStrlenBytes ∧ filename.length < dloadDebugStrlenBytes ∧
      d.dloadDebugInfo.length < numRegions then
    (true,
      { d with
        dloadDebugInfo := d.dloadDebugInfo ++
          [⟨savePref, maskWord memBase, maskWord length, desc, filename, maskWord_mod length⟩]
        regions_fit := by rw [List.length_append]; exact h.2.2 })
  else (false, d)

/-- `dload_debug_add_restricted_region`. -/
def dloadDebugAddRestrictedRegion (d : DloadDebug) (memBase length : UInt64) : DloadDebug :=
  if h : d.dloadRestrictedRegions.length < numRegions then
    { d with
      dloadRestrictedRegions := d.dloadRestrictedRegions ++ [⟨maskWord memBase, maskWord length⟩]
      restricted_fit := by rw [List.length_append]; exact h }
  else d

/-- The reset at the start of `dload_mem_debug_init`, before the target's hooks add regions. -/
def clearRegionTable (d : DloadDebug) : DloadDebug :=
  { d with
    dloadDebugInfo := []
    regionTableFixedLength := false
    regions_fit := Nat.zero_le _ }

/-- `dload_mem_debug_len_init`. -/
def dloadMemDebugLenInit (d : DloadDebug) : DloadDebug := { d with regionTableFixedLength := true }

/-- `dload_mem_debug_len`: entries of fixed length, or each with its strings and their ends. -/
def dloadMemDebugLen (d : DloadDebug) : UInt32 :=
  if d.regionTableFixedLength then .ofNat (sizeofDloadDebugType * d.dloadDebugInfo.length)
  else .ofNat (d.dloadDebugInfo.map fun p => 24 + (p.desc.length + 1) + (p.filename.length + 1)).sum

/-! ## What an entry holds -/

/-- `dload_mem_debug_mem_base`. -/
def memBase (d : DloadDebug) (i : UInt8) : UInt64 :=
  match d.dloadDebugInfo[i.toNat]? with
  | none => 0
  | some e => e.memBase

/-- `dload_mem_debug_mem_length`. -/
def memLength (d : DloadDebug) (i : UInt8) : UInt64 :=
  match d.dloadDebugInfo[i.toNat]? with
  | none => 0
  | some e => e.length

/-- `dload_mem_debug_filename`. -/
def memFilename (d : DloadDebug) (i : UInt8) : Option (List UInt8) :=
  d.dloadDebugInfo[i.toNat]?.map (·.filename)

/-! ## The checks -/

/-- `base + len - 1`, as the machine adds. -/
def endAddr (base len : UInt64) : UInt64 := base + len - 1

/-- The test that all three tables share: the request starts behind the start of a region, and its
last byte is not behind the region's. -/
def rangeInside (memBase length base len : UInt64) : Bool :=
  decide (memBase ≤ base) && decide (endAddr base len ≤ endAddr memBase length)

/-- The test at the start of both checks. -/
def rangeIsInvalid (base len : UInt64) : Bool :=
  decide (len = 0) || decide (endAddr base len < base)

/-- `dload_mem_debug_verify_addr`. The table itself may be dumped. -/
def dloadMemDebugVerifyAddr (table : TablePlace) (d : DloadDebug) (base len : UInt64) : Bool :=
  if rangeIsInvalid base len then false
  else if rangeInside table.addr (.ofNat (sizeofDloadDebugType * numRegions)) base len then true
  else d.dloadDebugInfo.any fun p => rangeInside p.memBase p.length base len

/-- `dload_mem_debug_is_restricted_addr`. -/
def dloadMemDebugIsRestrictedAddr (d : DloadDebug) (base len : UInt64) : Bool :=
  if rangeIsInvalid base len then false
  else d.dloadRestrictedRegions.any fun p => rangeInside p.memBase p.length base len

end DloadDebug

/-! ## What the checks mean -/

section
variable {base len memBase length : UInt64}

/-- The bytes from an address on, as numbers. -/
def bytesOf (base len : UInt64) : Span := ⟨base.toNat, len.toNat⟩

namespace DloadDebug

theorem endAddr_toNat (base len : UInt64) :
    (endAddr base len).toNat = (base.toNat + len.toNat + (2 ^ 64 - 1)) % 2 ^ 64 := by
  simp only [endAddr, UInt64.toNat_sub, UInt64.toNat_add, UInt64.toNat_one]
  omega

/-- A request passes the first test exactly when it has a byte and does not wrap. -/
theorem rangeIsInvalid_eq_false :
    rangeIsInvalid base len = false ↔ 0 < len.toNat ∧ (bytesOf base len).stop ≤ 2 ^ 64 := by
  have hb := base.toNat_lt
  have hl := len.toNat_lt
  simp only [rangeIsInvalid, Bool.or_eq_false_iff, decide_eq_false_iff_not, ← UInt64.toNat_inj,
    UInt64.lt_iff_toNat_lt, endAddr_toNat, UInt64.toNat_zero, Span.stop, bytesOf]
  omega

/-- The region of no length at address zero, whose last byte is computed to be the last of all. -/
def IsZeroRegion (memBase length : UInt64) : Prop := memBase = 0 ∧ length = 0

/-- A valid request is inside a region exactly when its bytes are among those of a region that
does not wrap, or the region is the empty one at address zero. -/
theorem rangeInside_iff (memBase length : UInt64) (h : rangeIsInvalid base len = false) :
    rangeInside memBase length base len = true ↔
      IsZeroRegion memBase length ∨
        (bytesOf memBase length).stop ≤ 2 ^ 64 ∧
          (bytesOf base len).Within (bytesOf memBase length) := by
  obtain ⟨hpos, hstop⟩ := rangeIsInvalid_eq_false.mp h
  have hb := base.toNat_lt
  have hm := memBase.toNat_lt
  have hl := length.toNat_lt
  simp only [rangeInside, Bool.and_eq_true, decide_eq_true_eq, UInt64.le_iff_toNat_le,
    endAddr_toNat, IsZeroRegion, ← UInt64.toNat_inj, UInt64.toNat_zero, Span.stop, Span.Within,
    bytesOf] at hstop ⊢
  omega

end DloadDebug

end

end RamDump
