import BootXf.Elf.Header
import BootXf.Lib.LittleEndian

/-!
# ELF headers in memory

The headers of `boot_elf_header.h` as they lie in memory, for both classes. The fields of the
32-bit class are read zero-extended, so that code which exists once for each class can be written
once over the class: `Format.word` is the arithmetic of the class (32-bit sums wrap at 32 bits) and
`Format.maxWord` its largest address.
-/

namespace Elf

open Lib

namespace Format

/-- `sizeof(Elf32_Ehdr)` and `sizeof(Elf64_Ehdr)`. -/
def ehdrSize : Format → UInt32
  | elfClass32 => 52
  | elfClass64 => 64

/-- `sizeof(Elf32_Phdr)` and `sizeof(Elf64_Phdr)`. -/
def phdrSize : Format → UInt32
  | elfClass32 => 32
  | elfClass64 => 56

/-- An address in the class's address type. -/
def word : Format → UInt64 → UInt64
  | elfClass32, a => a.toUInt32.toUInt64
  | elfClass64, a => a

/-- `UINT32_MAX_VALUE` and `UINT64_MAX_VALUE`. -/
def maxWord : Format → UInt64
  | elfClass32 => 0xFFFFFFFF
  | elfClass64 => 0xFFFFFFFFFFFFFFFF

@[simp] theorem word_elfClass64 (a : UInt64) : elfClass64.word a = a := rfl

end Format

/-! ## The file header -/

section
variable (c : Format) (m : Memory) (elfHdr : UInt64)

/-- `e_ident[i]`. -/
def eIdent (i : UInt64) : UInt8 := m (elfHdr + i)

/-- `e_entry`. -/
def eEntry : UInt64 :=
  match c with
  | .elfClass32 => (m.u32 (elfHdr + 24)).toUInt64
  | .elfClass64 => m.u64 (elfHdr + 24)

/-- `e_ehsize`. -/
def eEhsize : UInt16 :=
  match c with
  | .elfClass32 => m.u16 (elfHdr + 40)
  | .elfClass64 => m.u16 (elfHdr + 52)

/-- `e_phentsize`. -/
def ePhentsize : UInt16 :=
  match c with
  | .elfClass32 => m.u16 (elfHdr + 42)
  | .elfClass64 => m.u16 (elfHdr + 54)

/-- `e_phnum`. -/
def ePhnum : UInt16 :=
  match c with
  | .elfClass32 => m.u16 (elfHdr + 44)
  | .elfClass64 => m.u16 (elfHdr + 56)

end

/-! ## Program headers -/

/-- The program header at an address. -/
def phdrAt (c : Format) (m : Memory) (a : UInt64) : Elf64Phdr :=
  match c with
  | .elfClass32 =>
    { p_type := m.u32 a
      p_offset := (m.u32 (a + 4)).toUInt64
      p_vaddr := (m.u32 (a + 8)).toUInt64
      p_paddr := (m.u32 (a + 12)).toUInt64
      p_filesz := (m.u32 (a + 16)).toUInt64
      p_memsz := (m.u32 (a + 20)).toUInt64
      p_flags := m.u32 (a + 24)
      p_align := (m.u32 (a + 28)).toUInt64 }
  | .elfClass64 =>
    { p_type := m.u32 a
      p_flags := m.u32 (a + 4)
      p_offset := m.u64 (a + 8)
      p_vaddr := m.u64 (a + 16)
      p_paddr := m.u64 (a + 24)
      p_filesz := m.u64 (a + 32)
      p_memsz := m.u64 (a + 40)
      p_align := m.u64 (a + 48) }

/-- `prog_hdr[i]`. -/
def phdrIndex (c : Format) (m : Memory) (progHdr : UInt64) (i : Nat) : Elf64Phdr :=
  phdrAt c m (progHdr + .ofNat (i * c.phdrSize.toNat))

end Elf
