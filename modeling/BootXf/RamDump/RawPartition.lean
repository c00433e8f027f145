import BootXf.Lib.Bytes
import BootXf.Lib.Storage
import BootXf.RamDump.DloadDebug

/-!
# The dump to a raw partition

`boot_raw_partition_ramdump.c` writes an overall header, a table of section headers and then the
registered regions of memory one after the other to a partition, as long as there is room. The
headers are written again after each section.

A partition is its contents, and a successful `dev_sdcc_write_bytes` is a write; the code gives up
at the first that fails. Memory is read as it is at the start: the dump's own headers are no part
of it.
-/

namespace RamDump

open Lib List

/-- `RAM_DUMP_WRITE_SIZE`. -/
def ramDumpWriteSize : UInt32 := 0x200000

/-- `SECTION_NAME_LEN`. -/
def sectionNameLen : Nat := 20

/-- `RAM_DUMP_VALID_MASK`. -/
def ramDumpValidMask : UInt32 := 1

/-- `RAM_DUMP_INSUFFICIENT_STORAGE_MASK`. -/
def ramDumpInsufficientStorageMask : UInt32 := 2

/-- `RAM_DUMP_HEADER_VER`. -/
def ramDumpHeaderVer : UInt32 := 0x1000

/-- `RAM_DUMP_SECTION_HEADER_VER`. -/
def ramDumpSectionHeaderVer : UInt32 := 0x1000

/-- `RAM_DUMP_HEADER_SIGNATURE`. -/
def ramDumpHeaderSignature : List UInt8 := [0x52, 0x61, 0x77, 0x5F, 0x44, 0x6D, 0x70, 0x21]

/-- `MAX_RAW_DUMP_SECTION_NUM`. -/
def maxRawDumpSectionNum : Nat := numRegions

/-- `DUMP_HEADER_SIZE`. -/
def dumpHeaderSize : Nat := 56

/-- `SECTION_HEADER_SIZE`. -/
def sectionHeaderSize : Nat := 64

/-- `SV_DATA_SIZE_LIMIT`. -/
def svDataSizeLimit : UInt64 := 0x1000

/-- `SV_MEMORY_SIZE_LIMIT`. -/
def svMemorySizeLimit : UInt64 := 0x8000000

/-- `boot_raw_partition_dump_section_type`. -/
inductive SectionType
  | reserved
  | ddr
  | cpuCxt
  | sv
  deriving DecidableEq

/-- The number of a type. -/
def SectionType.toNat : SectionType → Nat
  | reserved => 0
  | ddr => 1
  | cpuCxt => 2
  | sv => 3

/-- `boot_raw_parition_dump_header`, without the fields that the loader leaves zero. -/
structure DumpHeader where
  signature : List UInt8
  version : UInt32
  validityFlag : UInt32
  dumpSize : UInt64
  totalDumpSizeRequired : UInt64
  sectionsCount : UInt32

/-- `boot_raw_partition_dump_section_header`. Of `section_info` only the base address is used. -/
structure SectionHeader where
  validityFlag : UInt32
  sectionVersion : UInt32
  sectionType : SectionType
  sectionOffset : UInt64
  sectionSize : UInt64
  baseAddr : UInt64
  sectionName : List UInt8
  deriving DecidableEq

/-- A header after it was cleared. -/
def SectionHeader.clear : SectionHeader := ⟨0, 0, .reserved, 0, 0, 0, []⟩

/-- The bytes of a header. -/
def DumpHeader.encode (h : DumpHeader) : List UInt8 :=
  h.signature ++ leBytes 4 h.version.toNat ++ leBytes 4 h.validityFlag.toNat ++
    replicate 20 0 ++ leBytes 8 h.dumpSize.toNat ++ leBytes 8 h.totalDumpSizeRequired.toNat ++
    leBytes 4 h.sectionsCount.toNat

/-- The bytes of a section header: the name is filled up with zeros. -/
def SectionHeader.encode (h : SectionHeader) : List UInt8 :=
  leBytes 4 h.validityFlag.toNat ++ leBytes 4 h.sectionVersion.toNat ++
    leBytes 4 h.sectionType.toNat ++ leBytes 8 h.sectionOffset.toNat ++
    leBytes 8 h.sectionSize.toNat ++ leBytes 8 h.baseAddr.toNat ++ replicate 8 0 ++
    (h.sectionName ++ replicate (sectionNameLen - h.sectionName.length) 0)

/-- The variables of the dump, and what has been written to the partition. -/
structure RawDump where
  rawDumpHeader : DumpHeader
  rawDumpSectionHeaderTable : List SectionHeader
  currPartitionOffset : UInt64
  writes : List Write

/-- The bytes of a list, as a buffer. -/
def bufferOf (bytes : List UInt8) : Nat → UInt8 := fun k => bytes.getD k 0

/-- The bytes of memory from an address on, as a buffer. -/
def memoryFrom (memory : UInt64 → UInt8) (base : UInt64) : Nat → UInt8 :=
  fun k => memory (base + .ofNat k)

/-- `boot_ram_dump_coldplug_write`. -/
def bootRamDumpColdplugWrite (bufAddr : Nat → UInt8) (offset : UInt64) (writeSize : UInt32) :
    List Write :=
  if h : writeSize = 0 then []
  else
    let bytesToWrite := if writeSize > ramDumpWriteSize then ramDumpWriteSize else writeSize
    ⟨offset.toNat, (List.range bytesToWrite.toNat).map bufAddr⟩ ::
      bootRamDumpColdplugWrite (fun k => bufAddr (bytesToWrite.toNat + k))
        (offset + bytesToWrite.toUInt64) (writeSize - bytesToWrite)
termination_by writeSize.toNat
decreasing_by
  have hpos : 0 < writeSize.toNat := by
    rw [← UInt32.toNat_inj] at h
    exact Nat.pos_of_ne_zero h
  have htwo : ramDumpWriteSize.toNat = 0x200000 := rfl
  split
  · next hlarge =>
    rw [gt_iff_lt, UInt32.lt_iff_toNat_lt] at hlarge
    rw [UInt32.toNat_sub_of_le _ _ (UInt32.le_iff_toNat_le.mpr (Nat.le_of_lt hlarge))]
    omega
  · rw [UInt32.sub_self]
    exact hpos

namespace RawDump

/-- The bytes of the section headers that are in use. -/
def sectionHeaders (s : RawDump) (ramDumpSectionsNum : Nat) : List UInt8 :=
  (s.rawDumpSectionHeaderTable.take ramDumpSectionsNum).flatMap (·.encode)

/-- `dump_overall_headers`. -/
def dumpOverallHeaders (s : RawDump) : RawDump :=
  { s with
    writes := s.writes ++ bootRamDumpColdplugWrite (bufferOf s.rawDumpHeader.encode) 0
      (.ofNat dumpHeaderSize) }

/-- `dump_section_headers`. -/
def dumpSectionHeaders (s : RawDump) (ramDumpSectionsNum : Nat) : RawDump :=
  { s with
    writes := s.writes ++ bootRamDumpColdplugWrite (bufferOf (s.sectionHeaders ramDumpSectionsNum))
      (.ofNat dumpHeaderSize) (.ofNat (sectionHeaderSize * ramDumpSectionsNum)) }

/-- The fields that `boot_update_section_header_table_by_index` sets. -/
def fillSection (h : SectionHeader) (size base offset : UInt64) (filename : List UInt8) :
    SectionHeader :=
  { h with
    sectionType := if size < svMemorySizeLimit then .sv else .ddr
    baseAddr := if size < svDataSizeLimit then h.baseAddr else base
    sectionVersion := ramDumpSectionHeaderVer
    sectionOffset := offset
    sectionSize := size
    sectionName := strlcpy filename sectionNameLen }

/-- `boot_update_section_header_table_by_index`. Without a file name there is an error. -/
def bootUpdateSectionHeaderTableByIndex (s : RawDump) (d : DloadDebug) (i : Nat) : Option RawDump :=
  match d.memFilename (.ofNat i) with
  | none => none
  | some debugFilename =>
    some { s with
      rawDumpSectionHeaderTable := s.rawDumpSectionHeaderTable.modify i fun h =>
        fillSection h (d.memLength (.ofNat i)) (d.memBase (.ofNat i)) s.currPartitionOffset
          debugFilename }

/-- What is done for a section that fits. -/
def dumpWhole (s : RawDump) (d : DloadDebug) (memory : UInt64 → UInt8) (i : Nat) : RawDump :=
  let currSecSize := d.memLength (.ofNat i)
  { s with
    writes := s.writes ++ bootRamDumpColdplugWrite (memoryFrom memory (d.memBase (.ofNat i)))
      s.currPartitionOffset currSecSize.toUInt32
    rawDumpSectionHeaderTable := s.rawDumpSectionHeaderTable.modify i fun h =>
      { h with validityFlag := h.validityFlag ||| ramDumpValidMask }
    rawDumpHeader :=
      { s.rawDumpHeader with
        dumpSize := s.rawDumpHeader.dumpSize + currSecSize
        sectionsCount := s.rawDumpHeader.sectionsCount + 1 }
    currPartitionOffset := s.currPartitionOffset + currSecSize }

/-- What is done for a section that does not fit. -/
def dumpPart (s : RawDump) (d : DloadDebug) (memory : UInt64 → UInt8) (i : Nat)
    (freeSpaceSize : UInt64) : RawDump :=
  { s with
    rawDumpSectionHeaderTable := s.rawDumpSectionHeaderTable.modify i fun h =>
      { h with
        validityFlag := h.validityFlag ||| ramDumpInsufficientStorageMask
        sectionSize := freeSpaceSize }
    writes := s.writes ++ bootRamDumpColdplugWrite (memoryFrom memory (d.memBase (.ofNat i)))
      s.currPartitionOffset freeSpaceSize.toUInt32
    rawDumpHeader :=
      { s.rawDumpHeader with
        dumpSize := s.rawDumpHeader.dumpSize + freeSpaceSize
        sectionsCount := s.rawDumpHeader.sectionsCount + 1 } }

/-- The loop of `boot_process_raw_ram_dump_sections`. -/
def processSections (d : DloadDebug) (memory : UInt64 → UInt8) :
    List Nat → UInt64 → RawDump → Option (Bool × RawDump)
  | [], _, s => some (true, s)
  | i :: is, freeSpaceSize, s =>
    match s.bootUpdateSectionHeaderTableByIndex d i with
    | none => none
    | some s =>
      if freeSpaceSize ≥ d.memLength (.ofNat i) then
        processSections d memory is (freeSpaceSize - d.memLength (.ofNat i))
          ((s.dumpWhole d memory i).dumpOverallHeaders.dumpSectionHeaders d.dloadDebugInfo.length)
      else
        some (false,
          (s.dumpPart d memory i freeSpaceSize).dumpSectionHeaders d.dloadDebugInfo.length)

end RawDump

/-- The size of all headers. -/
def headersRequiredSize (ramDumpSectionsNum : Nat) : Nat :=
  dumpHeaderSize + sectionHeaderSize * ramDumpSectionsNum

/-- `boot_process_raw_ram_dump_sections`. -/
def RawDump.bootProcessRawRamDumpSections (s : RawDump) (d : DloadDebug) (memory : UInt64 → UInt8)
    (partitionSize : UInt64) : Option (Bool × RawDump) :=
  let currPartitionOffset := UInt64.ofNat (headersRequiredSize d.dloadDebugInfo.length)
  processSections d memory (List.range d.dloadDebugInfo.length)
    (partitionSize - currPartitionOffset)
    { s with currPartitionOffset }

/-- `get_raw_ram_dump_required_size`. -/
def getRawRamDumpRequiredSize (d : DloadDebug) : UInt64 :=
  (List.range d.dloadDebugInfo.length).foldl (fun size i => size + d.memLength (.ofNat i))
    (.ofNat (headersRequiredSize d.dloadDebugInfo.length))

/-- `boot_ram_dump_header_init`. -/
def bootRamDumpHeaderInit (d : DloadDebug) : RawDump where
  rawDumpHeader := ⟨ramDumpHeaderSignature, ramDumpHeaderVer, 0, 0, getRawRamDumpRequiredSize d, 0⟩
  rawDumpSectionHeaderTable := replicate maxRawDumpSectionNum .clear
  currPartitionOffset := 0
  writes := []

/-- A bit of the overall header. -/
def RawDump.mark (s : RawDump) (mask : UInt32) : RawDump :=
  { s with
    rawDumpHeader := { s.rawDumpHeader with
      validityFlag := s.rawDumpHeader.validityFlag ||| mask } }

/-- `boot_process_raw_ram_dump`. -/
def bootProcessRawRamDump (d : DloadDebug) (memory : UInt64 → UInt8) (partitionSize : UInt64) :
    Option RawDump :=
  if d.dloadDebugInfo.length > maxRawDumpSectionNum then none
  else
    let s := (bootRamDumpHeaderInit d).dumpOverallHeaders
    if partitionSize > .ofNat (headersRequiredSize d.dloadDebugInfo.length) then
      let s := { s with
        rawDumpHeader := { s.rawDumpHeader with
          dumpSize := .ofNat (headersRequiredSize d.dloadDebugInfo.length) } }
      match (s.dumpSectionHeaders d.dloadDebugInfo.length).bootProcessRawRamDumpSections d memory
        partitionSize with
      | none => none
      | some (true, s) => some (s.mark ramDumpValidMask).dumpOverallHeaders
      | some (false, s) => some (s.mark ramDumpInsufficientStorageMask).dumpOverallHeaders
    else
      let s := { s with
        rawDumpHeader := { s.rawDumpHeader with dumpSize := .ofNat dumpHeaderSize } }
      some (s.mark ramDumpInsufficientStorageMask).dumpOverallHeaders

end RamDump
