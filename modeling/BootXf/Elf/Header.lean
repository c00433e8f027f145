import Mathlib.Algebra.GroupWithZero.Nat

/-!
# ELF headers

The program headers of `boot_elf_header.h` in both classes, and the fields that `MIprogressive.h`
reads out of a header's flags. Field names are the source's.
-/

namespace Elf

/-- The file classes `ELF_CLASS_32` and `ELF_CLASS_64`. -/
inductive Format
  | elfClass32
  | elfClass64
  deriving DecidableEq, Repr

/-- `Elf32_Phdr`. -/
structure Elf32Phdr where
  p_type : UInt32
  p_offset : UInt32
  p_vaddr : UInt32
  p_paddr : UInt32
  p_filesz : UInt32
  p_memsz : UInt32
  p_flags : UInt32
  p_align : UInt32
  deriving DecidableEq, Repr

/-- `Elf64_Phdr`. -/
structure Elf64Phdr where
  p_type : UInt32
  p_flags : UInt32
  p_offset : UInt64
  p_vaddr : UInt64
  p_paddr : UInt64
  p_filesz : UInt64
  p_memsz : UInt64
  p_align : UInt64
  deriving DecidableEq, Repr

/-- A header of all zeros, as zero-initialised tables hold behind their last entry. -/
def Elf32Phdr.zero : Elf32Phdr := ⟨0, 0, 0, 0, 0, 0, 0, 0⟩

/-- A header of all zeros. -/
def Elf64Phdr.zero : Elf64Phdr := ⟨0, 0, 0, 0, 0, 0, 0, 0⟩

/-! ## `MIprogressive.h` -/

/-- `MI_PBT_PAGE_MODE_VALUE`. -/
def miPbtPageModeValue (flags : UInt32) : UInt32 := (flags &&& 0x100000) >>> 0x14

/-- `MI_PBT_ACCESS_TYPE_VALUE`. -/
def miPbtAccessTypeValue (flags : UInt32) : UInt32 := (flags &&& 0xE00000) >>> 0x15

/-- `MI_PBT_SEGMENT_TYPE_VALUE`. -/
def miPbtSegmentTypeValue (flags : UInt32) : UInt32 := (flags &&& 0x7000000) >>> 0x18

/-- `MI_PBT_NON_PAGED_SEGMENT`. -/
def miPbtNonPagedSegment : UInt32 := 0x0

/-- `MI_PBT_NOTUSED_SEGMENT`. -/
def miPbtNotusedSegment : UInt32 := 0x3

/-- `MI_PBT_SHARED_SEGMENT`. -/
def miPbtSharedSegment : UInt32 := 0x4

/-- `MI_PBT_HASH_SEGMENT`. -/
def miPbtHashSegment : UInt32 := 0x2

/-- `MI_PBT_PHDR_SEGMENT`. -/
def miPbtPhdrSegment : UInt32 := 0x7

/-- `MI_PBT_MAX_SEGMENTS`. -/
def miPbtMaxSegments : Nat := 40

end Elf
