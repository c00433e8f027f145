import BootXf.Lib.Align
import BootXf.Smem.Partition

/-!
# The legacy shared-memory heap

`smem_legacy.c` keeps one heap for all hosts: a table with an entry for every type of item, and the
offset and the size of what is left. The first nine types are fixed buffers whose places follow from
a table in the program; every other type is allocated once, from the front of what is left, and
looked up in the table afterwards.

The heap info and the table are in shared memory; here they are two records. A pointer is a 64-bit
word and `NULL` is zero, and a call that ends in `SMEM_OS_LOG_FATAL` gives `none`. The spinlock
makes every call one step.
-/

open Lib

namespace Smem

/-! ## The fixed buffers -/

/-- `SMEM_HEAP_INFO` -/
def heapInfoItem : UInt32 := 1

/-- `SMEM_ALLOCATION_TABLE` -/
def allocationTableItem : UInt32 := 2

/-- `SMEM_HW_RESET_DETECT` -/
def hwResetDetect : UInt32 := 4

/-- `SMEM_LAST_FIXED_BUFFER` -/
def lastFixedBuffer : UInt32 := 8

/-- `SMEM_MEM_LAST` -/
def memLast : UInt32 := 497

/-- `SMEM_LEGACY_ALLOCATION_TABLE_SIZE` -/
def legacyAllocationTableSize : Nat := 512

/-- `smem_legacy_buf_data_type` -/
structure BufData where
  tag : UInt32
  size : UInt32
  deriving DecidableEq, Repr

/-- `smem_legacy_buf_data_tbl`, without the entry of `SMEM_INVALID` that ends it. -/
def smemLegacyBufDataTbl : List BufData :=
  [⟨0, 64⟩, ⟨3, 32 * 4⟩, ⟨heapInfoItem, 16⟩, ⟨allocationTableItem, 512 * 16⟩, ⟨hwResetDetect, 8⟩,
    ⟨5, 4⟩, ⟨6, 0xC8⟩, ⟨7, 8 * 4⟩, ⟨lastFixedBuffer, 4⟩]

/-- The loop of `smem_legacy_get_offset`. -/
def offsetIn (tag : UInt32) : UInt32 → List BufData → Option UInt32
  | _, [] => none
  | offset, b :: l => if b.tag == tag then some offset else offsetIn tag (offset + b.size) l

/-- `smem_legacy_get_offset` -/
def smemLegacyGetOffset (tag : UInt32) : Option UInt32 := offsetIn tag 0 smemLegacyBufDataTbl

/-- `smem_legacy_get_static_size` -/
def smemLegacyGetStaticSize (tag : UInt32) : Option UInt32 :=
  (smemLegacyBufDataTbl.find? fun b => b.tag == tag).map BufData.size

/-- `smem_legacy_alloc_static` -/
def smemLegacyAllocStatic (smemInfo : SmemInfo) (smemType bufSize : UInt32) : Option UInt64 :=
  if smemType == hwResetDetect then
    if bufSize != 8 then some 0
    else some (smemInfo.smemBaseAddr + 64 + 32 * 4 + 16 + 512 * 16)
  else
    match smemLegacyBufDataTbl.find? fun b => b.tag == smemType with
    | none => some 0
    | some b =>
      if b.size != bufSize then some 0
      else (smemLegacyGetOffset smemType).map fun offset =>
        smemInfo.smemBaseAddr + offset.toUInt64

/-! ## The heap -/

/-- `smem_heap_info_type` -/
structure HeapInfo where
  initialized : UInt32
  freeOffset : UInt32
  heapRemaining : UInt32
  deriving DecidableEq, Repr

/-- `smem_legacy_allocation_table_type` -/
structure AllocEntry where
  allocated : UInt32
  offset : UInt32
  size : UInt32
  baseExt : UInt32
  deriving DecidableEq, Repr

/-- An entry of zeros. -/
def AllocEntry.zero : AllocEntry := ⟨0, 0, 0, 0⟩

/-- `SMEM_ALLOCATION_ENTRY_ALLOCATED` -/
def allocationEntryAllocated : UInt32 := 1

/-- The entry holds an item. -/
def AllocEntry.IsAllocated (e : AllocEntry) : Prop := e.allocated = allocationEntryAllocated

instance (e : AllocEntry) : Decidable e.IsAllocated := inferInstanceAs (Decidable (_ = _))

/-- The bytes of the entry's item, by their offsets in shared memory. -/
def AllocEntry.span (e : AllocEntry) : Span := ⟨e.offset.toNat, e.size.toNat⟩

/-- `SMEM_ALLOC_TBL_RESERVED_MASK` -/
def allocTblReservedMask : UInt32 := 3

/-- The item is not in shared memory. -/
def AllocEntry.external (e : AllocEntry) : Bool := e.baseExt &&& ~~~allocTblReservedMask != 0

/-- What the legacy heap keeps in shared memory. -/
structure LegacyHeap where
  heapInfo : HeapInfo
  allocationTable : Vector AllocEntry legacyAllocationTableSize
  deriving DecidableEq

/-- `smem_allocation_table[smem_type]` -/
def LegacyHeap.entry (s : LegacyHeap) (smemType : UInt32) : AllocEntry :=
  s.allocationTable[smemType.toNat]?.getD .zero

/-- Storing a table entry. -/
def LegacyHeap.setEntry (s : LegacyHeap) (smemType : UInt32) (e : AllocEntry) : LegacyHeap :=
  { s with allocationTable := s.allocationTable.setIfInBounds smemType.toNat e }

/-- `SMEM_ALIGN_SZ` -/
def alignSz (value : UInt32) : UInt32 := (value + 7) &&& ~~~7

section
variable (smemInfo : SmemInfo)

/-- What `smem_legacy_alloc_dynamic` answers for an item that is there already. -/
def existingItem (bufSize : UInt32) (e : AllocEntry) : UInt64 :=
  if bufSize == e.size then
    if e.external then 0 else smemInfo.smemBaseAddr + e.offset.toUInt64
  else 0

/-- `smem_legacy_alloc_dynamic`, with `NULL` for an allocation that fails. -/
def smemLegacyAllocDynamic (smemType bufSize : UInt32) (s : LegacyHeap) :
    Option (UInt64 × LegacyHeap) :=
  if ¬ smemType > lastFixedBuffer then none
  else if smemType > memLast then some (0, s)
  else
    let bufSize := alignSz bufSize
    let e := s.entry smemType
    if e.IsAllocated then some (existingItem smemInfo bufSize e, s)
    else
      let remaining := s.heapInfo.heapRemaining
      if bufSize ≤ remaining then
        let offset := s.heapInfo.freeOffset
        let s := { s with heapInfo := { s.heapInfo with
          freeOffset := offset + bufSize
          heapRemaining := remaining - bufSize } }
        let s := s.setEntry smemType
          { e with offset := offset, size := bufSize, allocated := allocationEntryAllocated }
        some (smemInfo.smemBaseAddr + offset.toUInt64, s)
      else some (0, s)

/-- `smem_legacy_alloc` -/
def smemLegacyAlloc (smemType bufSize : UInt32) (s : LegacyHeap) : Option (UInt64 × LegacyHeap) :=
  if smemType ≤ lastFixedBuffer then
    (smemLegacyAllocStatic smemInfo smemType bufSize).map fun p => (p, s)
  else smemLegacyAllocDynamic smemInfo smemType bufSize s

/-- The last check of `smem_legacy_get_addr`: the item fits in shared memory. -/
def fitsSmem (result : UInt64) (bufSize : UInt32) : Bool :=
  let smemDataEndAddr := smemInfo.smemBaseAddr + smemInfo.smemSize.toUInt64
  !(result < smemInfo.smemBaseAddr || result ≥ smemDataEndAddr
    || result + bufSize.toUInt64 ≥ smemDataEndAddr)

/-- `smem_legacy_get_addr`: the pointer, and `*buf_size`. -/
def smemLegacyGetAddr (smemType : UInt32) (s : LegacyHeap) : Option (UInt64 × UInt32) :=
  if smemType ≤ lastFixedBuffer then do
    let bufSize ← smemLegacyGetStaticSize smemType
    let result ← smemLegacyAllocStatic smemInfo smemType bufSize
    return (result, bufSize)
  else if smemType > memLast then none
  else
    let e := s.entry smemType
    let (result, bufSize) :=
      if e.IsAllocated then
        if e.external then (0, 0) else (smemInfo.smemBaseAddr + e.offset.toUInt64, e.size)
      else (0, 0)
    if result ≠ 0 ∧ e.baseExt = 0 then
      if fitsSmem smemInfo result bufSize then some (result, bufSize) else some (0, 0)
    else some (result, bufSize)

end

/-! ## Reading entries back -/

section
variable {s : LegacyHeap} {smemType other : UInt32} {e : AllocEntry} {n : UInt32}

theorem entry_setEntry_self (h : smemType ≤ memLast) :
    (s.setEntry smemType e).entry smemType = e := by
  have hlt : smemType.toNat < legacyAllocationTableSize := by
    rw [UInt32.le_iff_toNat_le] at h
    exact Nat.lt_of_le_of_lt h (by decide)
  simp [LegacyHeap.entry, LegacyHeap.setEntry, hlt]

theorem entry_setEntry_of_ne (h : other ≠ smemType) :
    (s.setEntry smemType e).entry other = s.entry other := by
  have hne : smemType.toNat ≠ other.toNat := fun heq => h (UInt32.toNat_inj.mp heq).symm
  simp [LegacyHeap.entry, LegacyHeap.setEntry, hne]

/-- Rounding up to eight, for the sizes it does not wrap. -/
theorem alignSz_toNat (h : n.toNat ≤ 2 ^ 32 - 8) :
    (alignSz n).toNat = Lib.roundUp n.toNat 8 := by
  have hsum : (n + 7).toNat = n.toNat + 7 := by
    rw [UInt32.toNat_add]
    exact Nat.mod_eq_of_lt (by show n.toNat + 7 < _; omega)
  have hmask : (~~~7 : UInt32).toNat = 2 ^ 32 - 2 ^ 3 := by decide
  rw [alignSz, UInt32.toNat_and, hmask, nat_and_mask (n + 7).toNat_lt (by decide), hsum]
  rfl

/-- A size above is rounded to nothing. -/
theorem alignSz_eq_zero (h : 2 ^ 32 - 8 < n.toNat) : alignSz n = 0 := by
  have hlt := n.toNat_lt
  have hsum : (n + 7).toNat = n.toNat + 7 - 2 ^ 32 := by
    have h7 : (7 : UInt32).toNat = 7 := rfl
    rw [UInt32.toNat_add, h7]
    omega
  have hmask : (~~~7 : UInt32).toNat = 2 ^ 32 - 2 ^ 3 := by decide
  apply UInt32.toNat_inj.mp
  rw [alignSz, UInt32.toNat_and, hmask, nat_and_mask (n + 7).toNat_lt (by decide), hsum]
  simp only [roundDown, UInt32.toNat_zero]
  omega

end

end Smem
