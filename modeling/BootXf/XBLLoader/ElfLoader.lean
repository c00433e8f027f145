import BootXf.Elf.Header
import BootXf.Lib.Memory
import BootXf.Lib.Program
import BootXf.XBLLoader.WhitelistProt

/-!
# The ELF segment loader

`boot_elf_loader.c` copies the segments of an ELF image from flash to the addresses their program
headers name, and zero-fills each up to its size in memory. There are two load paths: the plain
one reads a segment in one go, the one of segmented authentication in chunks, counting the bytes
loaded in a 32-bit total that the peripheral's processor watches.

A failed `BL_VERIFY` enters the error handler and never returns (`Program.halt`). What the loader
has stored is kept twice in the state: in `mem`, and as the list of blocks written.

The flash device, the answers of the secure world (`TZ`) and the hash check of a loaded segment
are parameters.
-/

namespace XBLLoader

open Lib Elf Program

/-- The outcome of a flash read: whether it succeeded, and how many bytes it stored. -/
structure FlashRead where
  ok : Bool
  stored : Nat
  byte : Nat → UInt8

/-- A flash translation interface. A read stores no more bytes than it was asked for, from the
destination on; one that reports success has stored them all. -/
structure FlashTrans where
  read : (byteOffset size : UInt32) → FlashRead
  stored_le : ∀ byteOffset size, (read byteOffset size).stored ≤ size.toNat
  stored_of_ok : ∀ byteOffset size, (read byteOffset size).ok = true →
    (read byteOffset size).stored = size.toNat

/-- What the loader's functions read: the globals of the module, set before segments are loaded,
the whitelist tables, the flash device and the answers of the secure world. A program header is
named by its index in the table; the tables are memory, so an index past the last header still
reads something. -/
structure LoaderEnv where
  elfFormat : Format
  phdrNum : UInt16
  phdrArray : Nat → Elf64Phdr
  phdrArray32 : Nat → Elf32Phdr
  whitelist : WhitelistState
  transIf : FlashTrans
  /-- `boot_sec_img_auth_is_valid_segment`, answered by the secure world. -/
  isValidSegment : Nat → Bool
  /-- The flag of `boot_is_auth_enabled`, answered by the secure world. -/
  isAuthEnabled : Bool
  /-- Whether every check of `boot_seg_verification` passes for the segment just loaded. -/
  segVerification : Memory → Nat → Bool
  elfSsaEnabled : Bool

/-- What the loader changes. -/
structure LoaderState where
  mem : Memory
  /-- The blocks stored to so far, the latest first. -/
  written : List Block
  totalElfSegmentsSize : UInt32
  /-- The length register the peripheral's processor watches. -/
  pmiCodeLength : UInt32

/-- Storing at a block, which is noted down. -/
def LoaderState.store (s : LoaderState) (b : Block) (f : Nat → UInt8) : LoaderState :=
  { s with mem := s.mem.store b f, written := b :: s.written }

/-- Code of the loader. -/
abbrev Loader := Program LoaderState

section Code
variable (env : LoaderEnv)

/-! ## Fields of a program header, by the class of the file -/

/-- `p_offset`. -/
def phdrOffset (i : Nat) : UInt64 :=
  match env.elfFormat with
  | .elfClass64 => (env.phdrArray i).p_offset
  | .elfClass32 => (env.phdrArray32 i).p_offset.toUInt64

/-- `p_paddr`. -/
def phdrPaddr (i : Nat) : UInt64 :=
  match env.elfFormat with
  | .elfClass64 => (env.phdrArray i).p_paddr
  | .elfClass32 => (env.phdrArray32 i).p_paddr.toUInt64

/-- `p_filesz`. -/
def phdrFilesz (i : Nat) : UInt64 :=
  match env.elfFormat with
  | .elfClass64 => (env.phdrArray i).p_filesz
  | .elfClass32 => (env.phdrArray32 i).p_filesz.toUInt64

/-- `p_memsz`. -/
def phdrMemsz (i : Nat) : UInt64 :=
  match env.elfFormat with
  | .elfClass64 => (env.phdrArray i).p_memsz
  | .elfClass32 => (env.phdrArray32 i).p_memsz.toUInt64

/-- `p_flags`. -/
def phdrFlags (i : Nat) : UInt32 :=
  match env.elfFormat with
  | .elfClass64 => (env.phdrArray i).p_flags
  | .elfClass32 => (env.phdrArray32 i).p_flags

/-- `((Elf64_Phdr *)phdr)->p_memsz`, which the chunked path evaluates in both classes. Of a 32-byte
header in the 32-bit table this is the eight bytes from offset 40: `p_vaddr` and `p_paddr` of the
next header. -/
def phdrMemszAsElf64 (i : Nat) : UInt64 :=
  match env.elfFormat with
  | .elfClass64 => (env.phdrArray i).p_memsz
  | .elfClass32 =>
      (env.phdrArray32 (i + 1)).p_vaddr.toUInt64
        ||| ((env.phdrArray32 (i + 1)).p_paddr.toUInt64 <<< 32)

/-! ## Storing -/

/-- `boot_flash_trans_read`: nothing is read to a range the whitelist does not allow. -/
def bootFlashTransRead (destAddr : UInt64) (byteOffset size : UInt32) (bfType : BufferType) :
    Loader Bool :=
  if bootWhitelistAddressRangeCheck env.whitelist destAddr size.toUInt64 bfType then do
    let r := env.transIf.read byteOffset size
    modify (·.store ⟨destAddr, r.stored⟩ r.byte)
    pure r.ok
  else pure false

/-- `qmemset` with the value 0. Its length is 32 bits wide. -/
def qmemsetZero (dst : UInt64) (len : UInt32) : Loader Unit :=
  modify (·.store ⟨dst, len.toNat⟩ fun _ => 0)

/-! ## The plain path -/

/-- The explicit whitelist check of `boot_elf_load_seg_generic`: the read that follows only checks
the file size, so the whole range is checked here, unless the segment is a dummy without size. -/
def verifySegmentRange (i : Nat) (destAddr : UInt64) (bfType : BufferType) : Loader Unit :=
  if phdrMemsz env i ≠ 0 then
    verify (bootWhitelistAddressRangeCheck env.whitelist destAddr (phdrMemsz env i) bfType)
  else pure ()

/-- The read of `boot_elf_load_seg_generic`. -/
def readSegment (i : Nat) (destAddr : UInt64) (bfType : BufferType) : Loader Unit :=
  if phdrMemsz env i ≠ 0 ∧ phdrFilesz env i ≠ 0 ∧ phdrMemsz env i ≥ phdrFilesz env i then do
    let success ← bootFlashTransRead env destAddr (phdrOffset env i).toUInt32
      (phdrFilesz env i).toUInt32 bfType
    verify success
  else pure ()

/-- The zero-fill of `boot_elf_load_seg_generic`. -/
def zeroFillSegment (i : Nat) (destAddr : UInt64) : Loader Unit :=
  if phdrMemsz env i > phdrFilesz env i ∧ destAddr + phdrFilesz env i ≥ destAddr then
    qmemsetZero (destAddr + phdrFilesz env i) (phdrMemsz env i - phdrFilesz env i).toUInt32
  else pure ()

/-- `boot_elf_load_seg_generic`. -/
def bootElfLoadSegGeneric (i : Nat) (destAddr : UInt64) (bfType : BufferType) : Loader Unit := do
  verifySegmentRange env i destAddr bfType
  readSegment env i destAddr bfType
  zeroFillSegment env i destAddr

/-- `boot_elf_load_seg`. -/
def bootElfLoadSeg (i : Nat) : Loader Unit :=
  if env.isValidSegment i then bootElfLoadSegGeneric env i (phdrPaddr env i) .imageBodyType
  else pure ()

/-- `MAX_ADDRESS`. -/
def maxAddress : UInt64 := 0xFFFFFFFFFFFFFFFF

/-- The loop of `boot_elf_segment_in_whitelist` over an array that an entry without start or size
ends. -/
def segmentInWhitelistEntry (base size : UInt64) (elfSegmentWhitelist : Nat → WhitelstTblEntry)
    (n : Nat) : Loader (Nat ⊕ Bool) :=
  let e := elfSegmentWhitelist n
  if e.startAddr ≠ 0 ∧ e.size ≠ 0 then do
    verify (maxAddress - e.startAddr > e.size)
    if base ≥ e.startAddr ∧ base + size ≤ e.startAddr + e.size then pure (.inr true)
    else pure (.inl (n + 1))
  else pure (.inr false)

/-- `boot_elf_segment_in_whitelist`. `fuel` bounds the entries looked at. -/
def bootElfSegmentInWhitelist (fuel : Nat) (i : Nat)
    (elfSegmentWhitelist : Nat → WhitelstTblEntry) :
    Loader Bool := do
  verify (maxAddress - phdrPaddr env i > phdrMemsz env i)
  iter (segmentInWhitelistEntry (phdrPaddr env i) (phdrMemsz env i) elfSegmentWhitelist)
    fuel 0

/-- One round of the loop of `boot_elf_load_and_verify_image`: with a segment whitelist, a segment
outside of it is skipped. -/
def loadImageSegment (fuel : Nat) (elfSegmentWhitelist : Option (Nat → WhitelstTblEntry))
    (i : Nat) : Loader Unit :=
  match elfSegmentWhitelist with
  | none => bootElfLoadSeg env i
  | some wl => do
      let inside ← bootElfSegmentInWhitelist env fuel i wl
      if inside then bootElfLoadSeg env i else pure ()

/-- `boot_elf_load_and_verify_image`, up to the hash check of the loaded image. -/
def bootElfLoadAndVerifyImage (fuel : Nat)
    (elfSegmentWhitelist : Option (Nat → WhitelstTblEntry)) : Loader Unit :=
  forUpTo (loadImageSegment env fuel elfSegmentWhitelist) env.phdrNum.toNat

/-! ## The chunked path -/

/-- `MAX_CHUNK_SIZE`. -/
def maxChunkSize : UInt32 := 0x100000

/-- The local variables of the chunk loop. -/
structure ChunkCursor where
  remainingData : UInt64
  chunkDestAddr : UInt64
  chunkOffset : UInt64
  chunkSize : UInt32

/-- With the secure world not authenticating, the length register follows the total. -/
def setPmiCodeLengthUnlessAuth : Loader Unit :=
  modify fun s =>
    if env.isAuthEnabled then s else { s with pmiCodeLength := s.totalElfSegmentsSize }

/-- The loop of `boot_elf_load_seg_in_chunks` that reads the file bytes. -/
def loadChunk (c : ChunkCursor) : Loader (ChunkCursor ⊕ Unit) :=
  if c.remainingData = 0 then pure (.inr ())
  else do
    let chunkSize :=
      if c.remainingData < c.chunkSize.toUInt64 then c.remainingData.toUInt32 else c.chunkSize
    let success ← bootFlashTransRead env c.chunkDestAddr c.chunkOffset.toUInt32 chunkSize
      .imageBodyType
    verify success
    let s ← Program.get
    verify (s.totalElfSegmentsSize + chunkSize > s.totalElfSegmentsSize)
    modify fun s =>
      { s with totalElfSegmentsSize := s.totalElfSegmentsSize + chunkSize }
    setPmiCodeLengthUnlessAuth env
    pure (.inl ⟨c.remainingData - chunkSize.toUInt64, c.chunkDestAddr + chunkSize.toUInt64,
      c.chunkOffset + chunkSize.toUInt64, chunkSize⟩)

/-- How many rounds the chunk loop can take. -/
def chunkBudget (filesz : UInt64) (chunkSize : UInt32) : Nat :=
  filesz.toNat / chunkSize.toNat + 2

/-- The zero-fill of `boot_elf_load_seg_in_chunks`. The total is compared as 64 bits and kept as
32. -/
def zeroFillInChunks (i : Nat) : Loader Unit := do
  qmemsetZero (phdrPaddr env i + phdrFilesz env i)
    (phdrMemszAsElf64 env i - phdrFilesz env i).toUInt32
  let s ← Program.get
  verify (s.totalElfSegmentsSize.toUInt64 + (phdrMemszAsElf64 env i - phdrFilesz env i) >
    s.totalElfSegmentsSize.toUInt64)
  modify fun s =>
    { s with totalElfSegmentsSize := (s.totalElfSegmentsSize.toUInt64 +
        (phdrMemszAsElf64 env i - phdrFilesz env i)).toUInt32 }
  setPmiCodeLengthUnlessAuth env

/-- The file part of `boot_elf_load_seg_in_chunks`. -/
def loadFileInChunks (chunkSize : UInt32) (i : Nat) : Loader Unit :=
  if phdrMemszAsElf64 env i ≠ 0 ∧ phdrFilesz env i ≠ 0 ∧
      phdrMemszAsElf64 env i ≥ phdrFilesz env i then
    iter (loadChunk env) (chunkBudget (phdrFilesz env i) chunkSize)
      ⟨phdrFilesz env i, phdrPaddr env i, phdrOffset env i, chunkSize⟩
  else pure ()

/-- `boot_elf_load_seg_in_chunks`, for a chunk size in place of `MAX_CHUNK_SIZE`. -/
def bootElfLoadSegInChunks (chunkSize : UInt32) (i : Nat) : Loader Unit :=
  if env.isValidSegment i then do
    loadFileInChunks env chunkSize i
    if phdrMemszAsElf64 env i > phdrFilesz env i ∧
        phdrPaddr env i + phdrFilesz env i ≥ phdrPaddr env i then
      zeroFillInChunks env i
    else pure ()
  else pure ()

/-- What follows the load of a segment: its hash is verified, and with the secure world
authenticating the length register is only now set. -/
def verifyLoadedSegment (i : Nat) : Loader Unit := do
  let s ← Program.get
  verify (env.segVerification s.mem i)
  modify fun s =>
    if env.isAuthEnabled then { s with pmiCodeLength := s.totalElfSegmentsSize } else s

/-- One round of the loop of `boot_elf_load_and_verify_image_in_chunks`: the hash segment is not
loaded again. -/
def loadImageSegmentInChunks (i : Nat) : Loader Unit :=
  if miPbtSegmentTypeValue (phdrFlags env i) ≠ miPbtHashSegment then do
    bootElfLoadSegInChunks env maxChunkSize i
    verifyLoadedSegment env i
  else verifyLoadedSegment env i

/-- The first `n` rounds of `boot_elf_load_and_verify_image_in_chunks`. -/
def loadSegmentsInChunks (n : Nat) : Loader Unit :=
  forUpTo (loadImageSegmentInChunks env) n

/-- `boot_elf_load_and_verify_image_in_chunks`. -/
def bootElfLoadAndVerifyImageInChunks : Loader Unit :=
  loadSegmentsInChunks env env.phdrNum.toNat

/-- `boot_load_elf_image`, where segments are loaded. With segmented authentication the total is
reset first, as `boot_elf_ssa_load_image_and_metadata` does. -/
def bootLoadElfImage (fuel : Nat) (elfSegmentWhitelist : Option (Nat → WhitelstTblEntry)) :
    Loader Unit :=
  if env.elfSsaEnabled then do
    modify fun s => { s with totalElfSegmentsSize := 0 }
    bootElfLoadAndVerifyImageInChunks env
  else bootElfLoadAndVerifyImage env fuel elfSegmentWhitelist

end Code

end XBLLoader
