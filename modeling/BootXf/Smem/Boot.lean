import BootXf.Smem.Legacy

/-!
# Setting up shared memory

`smem_boot_init` of `smem_boot.c`. The loader zeroes shared memory, sets up the heap info and, in a
memory of the legacy version, the entries of the fixed buffers, and writes the table of contents
into the last page: an entry for the table itself, one for every configured partition that is
neither empty nor to be ignored, and one or two for what is left. The partitions are cut off the
top of the heap one after the other, and each gets a header at its base.

What the setup writes to the table and the partitions goes to byte memory; the heap info and the
allocation table are the record of the legacy heap. `TocCursor.written` is a ghost: what every call
of `smem_boot_toc_entry_setup` was given.
-/

open Lib

namespace Smem

/-! ## The table of contents -/

/-- `SMEM_LEGACY_VERSION_ID` -/
def legacyVersionId : UInt32 := 0x000B0000

/-- `SMEM_VERSION_ID & SMEM_MAJOR_VERSION_MASK` -/
def majorVersionId : UInt32 := 0x000C0000

/-- `SMEM_TOC_IDENTIFIER` -/
def tocIdentifier : UInt32 := 0x434F5424

/-- `SMEM_TOC_SIZE` -/
def tocSize : UInt32 := 4096

/-- `SMEM_LEGACY_SMEM_SIZE` -/
def legacySmemSize : UInt32 := 4096

/-- The host ids in table entries and partition headers. -/
def invalidHost16 : UInt16 := 0xFFFF

/-- `SMEM_COMMON_HOST` -/
def commonHost : UInt16 := 0xFFFE

/-- `SMEM_TOC_ENTRY_FLAGS_ENABLE_READ_PROTECTION` -/
def enableReadProtection : UInt32 := 1

/-- `SMEM_TOC_ENTRY_FLAGS_ENABLE_RW_PROTECTION` -/
def enableRwProtection : UInt32 := 3

/-- `SMEM_TOC_ENTRY_FLAGS_IGNORE_PARTITION` -/
def ignorePartition : UInt32 := 4

/-- The sizes of the ranges of a partition that are not for its heap. -/
abbrev ExclusionSizes := Vector UInt32 4

/-- `total_excl_size` -/
def ExclusionSizes.total (v : ExclusionSizes) : UInt32 := v.foldl (· + ·) 0

/-- `smem_toc_config_type` -/
structure TocConfig where
  size : UInt32
  flags : UInt32
  host0 : UInt16
  host1 : UInt16
  sizeCacheline : UInt32
  exclusionSizes : ExclusionSizes
  deriving DecidableEq

/-- The entry is not the one that ends the table. -/
def TocConfig.live (c : TocConfig) : Bool := c.host0 != invalidHost16 && c.host1 != invalidHost16

/-- The partition only leaves its space. -/
def TocConfig.ignored (c : TocConfig) : Bool := c.flags &&& ignorePartition != 0

/-- The configured partitions: an array in the loader's image, so its 36-byte entries are counted
with 32 bits. -/
structure TocConfigTbl where
  entries : List TocConfig
  short : 36 * entries.length < 2 ^ 32

/-- The entries the loops of `smem_boot_toc_setup` go through and do not skip. -/
def TocConfigTbl.partitions (cfg : TocConfigTbl) : List TocConfig :=
  (cfg.entries.takeWhile TocConfig.live).filter fun c => c.size != 0

/-- What a call of `smem_boot_toc_entry_setup` is given. -/
structure TocEntry where
  offset : UInt32
  size : UInt32
  flags : UInt32
  host0 : UInt16
  host1 : UInt16
  sizeCacheline : UInt32
  exclusionSizes : Option ExclusionSizes
  setPartnHeader : Bool
  deriving DecidableEq

/-- The size of the entry's exclusion ranges. -/
def TocEntry.totalExclSize (e : TocEntry) : UInt32 :=
  match e.exclusionSizes with
  | none => 0
  | some v => v.total

/-- The bytes of the entry's region, by their offsets in shared memory. -/
def TocEntry.span (e : TocEntry) : Span := ⟨e.offset.toNat, e.size.toNat⟩

/-- `smem_boot_info`: whole pages of memory below 4 GiB and not at its bottom, with room for the
fixed buffers and the table of contents. -/
structure BootInfo where
  smemVersion : UInt32
  smemBaseAddr : UInt64
  smemSize : UInt32
  base_aligned : smemBaseAddr.toNat % 4096 = 0
  size_aligned : smemSize.toNat % 4096 = 0
  above : 2 ^ 17 ≤ smemBaseAddr.toNat
  below : smemBaseAddr.toNat + smemSize.toNat ≤ 2 ^ 32
  large : 2 ^ 14 ≤ smemSize.toNat

section
variable (bi : BootInfo)

/-- The address of the table of contents. -/
def BootInfo.toc : UInt64 := bi.smemBaseAddr + bi.smemSize.toUInt64 - tocSize.toUInt64

/-- The address of a table entry. -/
def BootInfo.tocEntry (idx : UInt32) : UInt64 := bi.toc + 32 + 48 * idx.toUInt64

/-- The fields of a table entry. -/
def tocEntryFields (e : TocEntry) : List Memory.Field :=
  [⟨0, 4, e.offset.toNat⟩, ⟨4, 4, e.size.toNat⟩, ⟨8, 4, e.flags.toNat⟩, ⟨12, 2, e.host0.toNat⟩,
    ⟨14, 2, e.host1.toNat⟩, ⟨16, 4, e.sizeCacheline.toNat⟩] ++
  match e.exclusionSizes with
  | none => []
  | some v => [⟨32, 4, v[0].toNat⟩, ⟨36, 4, v[1].toNat⟩, ⟨40, 4, v[2].toNat⟩, ⟨44, 4, v[3].toNat⟩]

/-- The fields of a partition header. Its size does not count the exclusion ranges; its lower free
offset is behind the header, its upper one at the end of the partition. -/
def partnHeaderFields (e : TocEntry) : List Memory.Field :=
  [⟨0, 4, partitionHeaderId.toNat⟩, ⟨4, 2, e.host0.toNat⟩, ⟨6, 2, e.host1.toNat⟩,
    ⟨8, 4, (e.size - e.totalExclSize).toNat⟩, ⟨12, 4, 32⟩, ⟨16, 4, e.size.toNat⟩]

/-- A header goes to the base of a partition that is not empty. -/
def TocEntry.hasHeader (e : TocEntry) : Bool := e.size != 0 && e.setPartnHeader

/-- What `smem_boot_toc_entry_setup` stores. -/
def tocEntryPuts (tocEntry : UInt64) (e : TocEntry) : List Memory.Put :=
  Memory.fieldPuts tocEntry (tocEntryFields e) ++
  if e.hasHeader then
    Memory.fieldPuts (bi.smemBaseAddr + e.offset.toUInt64) (partnHeaderFields e)
  else []

/-- `smem_boot_toc_entry_setup` -/
def smemBootTocEntrySetup (tocEntry : UInt64) (e : TocEntry) (m : Memory) : Memory :=
  m.putAll (tocEntryPuts bi tocEntry e)

/-- The first loop of `smem_boot_toc_setup`: the number of partitions, and the total size on top of
`total`. -/
def tocTotals (total : UInt32) (l : List TocConfig) : UInt32 × UInt32 :=
  l.foldl (fun (n, total) c => (if c.ignored then n else n + 1, total + c.size)) (0, total)

/-- The variables of the second loop. -/
structure TocCursor where
  entryIdx : UInt32
  heapRemaining : UInt32
  written : List TocEntry
  mem : Memory

/-- Setting up the next table entry. -/
def TocCursor.add (cur : TocCursor) (e : TocEntry) : TocCursor where
  entryIdx := cur.entryIdx + 1
  heapRemaining := cur.heapRemaining
  written := cur.written ++ [e]
  mem := smemBootTocEntrySetup bi (bi.tocEntry (cur.entryIdx + 1)) e cur.mem

/-- The entry of a configured partition. -/
def TocConfig.entry (c : TocConfig) (offset : UInt32) : TocEntry where
  offset := offset
  size := c.size
  flags := c.flags
  host0 := c.host0
  host1 := c.host1
  sizeCacheline := c.sizeCacheline
  exclusionSizes := some c.exclusionSizes
  setPartnHeader := true

/-- A round of the second loop. -/
def TocCursor.partition (freeOffset : UInt32) (cur : TocCursor) (c : TocConfig) : TocCursor :=
  let cur := { cur with heapRemaining := cur.heapRemaining - c.size }
  if c.ignored then cur else cur.add bi (c.entry (freeOffset + cur.heapRemaining))

/-- The entry of a region that is not for the heap of a partition. -/
def regionEntry (offset size flags : UInt32) : TocEntry where
  offset := offset
  size := size
  flags := flags
  host0 := invalidHost16
  host1 := invalidHost16
  sizeCacheline := 0
  exclusionSizes := none
  setPartnHeader := false

/-- The entry of the common partition. -/
def commonEntry (heapRemaining : UInt32) : TocEntry where
  offset := legacySmemSize
  size := heapRemaining
  flags := enableRwProtection
  host0 := commonHost
  host1 := commonHost
  sizeCacheline := 32
  exclusionSizes := none
  setPartnHeader := true

/-- Shared memory is of the legacy version. -/
def BootInfo.isLegacy : Bool := bi.smemVersion == legacyVersionId

/-- `additional_partn` -/
def BootInfo.additionalPartn : UInt32 := if bi.isLegacy then 2 else 3

/-- `free_offset`, `heap_remaining` and the initial `total_partn_size`. -/
def BootInfo.heapStart (heapInfo : HeapInfo) : UInt32 × UInt32 × UInt32 :=
  if bi.isLegacy then (heapInfo.freeOffset, heapInfo.heapRemaining - tocSize, tocSize)
  else (legacySmemSize, bi.smemSize - (legacySmemSize + tocSize), legacySmemSize + tocSize)

/-- The entries behind the configured partitions. -/
def TocCursor.rest (freeOffset : UInt32) (cur : TocCursor) : TocCursor :=
  if bi.isLegacy then
    cur.add bi (regionEntry 0 (cur.heapRemaining + freeOffset) enableRwProtection)
  else
    (cur.add bi (commonEntry cur.heapRemaining)).add bi
      (regionEntry 0 legacySmemSize enableRwProtection)

/-- The header of the table and the entry of the table itself. -/
def tocHead (tocVersion numEntries : UInt32) (self : TocEntry) (m : Memory) : Memory :=
  let m := m.putAll (Memory.fieldPuts bi.toc
    [⟨0, 4, tocIdentifier.toNat⟩, ⟨4, 4, tocVersion.toNat⟩, ⟨8, 4, numEntries.toNat⟩])
  smemBootTocEntrySetup bi (bi.tocEntry 0) self m

/-- `smem_boot_toc_setup` for a table of partitions: the cursor behind the last entry, and the heap
info. A table that is not accepted is fatal. -/
def smemBootTocSetup (tocVersion : UInt32) (cfg : TocConfigTbl) (heapInfo : HeapInfo) (m : Memory) :
    Option (TocCursor × HeapInfo) :=
  let (freeOffset, heapRemaining, totalPartnSize) := bi.heapStart heapInfo
  let (numPartitions, totalPartnSize) := tocTotals totalPartnSize cfg.partitions
  let numEntries := numPartitions + bi.additionalPartn
  if heapRemaining < totalPartnSize then none
  else if 32 + 48 * numEntries.toUInt64 > tocSize.toUInt64 then none
  else
    let self := regionEntry (freeOffset + heapRemaining) tocSize enableReadProtection
    let cur : TocCursor := ⟨0, heapRemaining, [self], tocHead bi tocVersion numEntries self m⟩
    let cur := (cfg.partitions.foldl (TocCursor.partition bi freeOffset) cur).rest bi freeOffset
    let heapInfo := if bi.isLegacy then
        { heapInfo with freeOffset := freeOffset, heapRemaining := cur.heapRemaining }
      else heapInfo
    some (cur, heapInfo)

/-! ## The legacy structures -/

/-- The loop of `smem_boot_legacy_alloc_table_init`. -/
def legacyAllocTableInit : UInt32 → List BufData → LegacyHeap → LegacyHeap
  | _, [], s => s
  | offset, b :: l, s =>
    let s := s.setEntry b.tag { s.entry b.tag with
      offset := offset, size := b.size, allocated := allocationEntryAllocated }
    legacyAllocTableInit (offset + b.size) l s

/-- `smem_boot_heap_info_init` -/
def smemBootHeapInfoInit (s : LegacyHeap) : HeapInfo :=
  if bi.isLegacy then
    let offset := (s.entry lastFixedBuffer).offset + (s.entry lastFixedBuffer).size
    ⟨1, offset, bi.smemSize - offset⟩
  else ⟨1, legacySmemSize, 0⟩

/-- What `smem_boot_init` leaves: the legacy heap, the table entries it wrote and memory. -/
structure Booted where
  heap : LegacyHeap
  written : List TocEntry
  mem : Memory

/-- Zeroed shared memory. -/
def LegacyHeap.zero : LegacyHeap := ⟨⟨0, 0, 0⟩, Vector.replicate _ .zero⟩

/-- `smem_boot_init` up to the table of contents; `none` where it ends in a fatal error. The
configuration may have no table of partitions. -/
def smemBootInit (tocVersion : UInt32) (cfg : Option TocConfigTbl) (m : Memory) : Option Booted :=
  if bi.smemVersion ≠ legacyVersionId ∧ bi.smemVersion ≠ majorVersionId then none
  else
    let m := m.store ⟨bi.smemBaseAddr, bi.smemSize.toNat⟩ fun _ => 0
    let s := if bi.isLegacy then legacyAllocTableInit 0 smemLegacyBufDataTbl .zero else .zero
    let heapInfo := smemBootHeapInfoInit bi s
    match cfg with
    | none => some ⟨{ s with heapInfo := heapInfo }, [], m⟩
    | some cfg =>
      (smemBootTocSetup bi tocVersion cfg heapInfo m).map fun (cur, heapInfo) =>
        ⟨{ s with heapInfo := heapInfo }, cur.written, cur.mem⟩

end

end Smem
