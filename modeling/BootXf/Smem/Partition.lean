import BootXf.Lib.LittleEndian

/-!
# The shared-memory partition heap

`smem_partition.c` allocates the items of a partition from its two ends: uncached items grow upward
behind the partition header, cached items grow downward from the top, each item with a header the
other processors walk. The two free offsets are in shared memory; every host keeps its own copy of
them, and the offsets up to which it has mapped pages, in `smem_info_prt`.

Pointers are 64-bit words and the casts to `uint32` are kept where the source has them. A walk that
does not end within its budget gives `none`. This is the loader's build, where `remote_host` can
only name the common partition.
-/

open Lib

namespace Smem

/-- The `SMEM_STATUS_*` values these functions return. -/
inductive Status where
  | success
  | invalidParam
  | outOfResources
  | notFound
  | sizeMismatch
  deriving DecidableEq, Repr

/-- `SMEM_INVALID_HOST` -/
def invalidHost : UInt32 := 0xFFFF

/-- `SMEM_NUM_HOSTS` -/
def numHosts : UInt32 := 12

/-- `SMEM_MEM_FIRST` -/
def memFirst : UInt32 := 0

/-- `SMEM_ALLOC_FLAG_CACHED` -/
def allocFlagCached : UInt32 := 0x80000000

/-- `SMEM_ALLOC_HDR_CANARY` -/
def allocHdrCanary : UInt16 := 0xa5a5

/-- `SMEM_PAGE_ALIGN_MASK` -/
def pageAlignMask : UInt32 := 0xFFF

/-- `SMEM_PARTITION_HEADER_ID` -/
def partitionHeaderId : UInt32 := 0x54525024

/-- `ROUND_UP` -/
def roundUp (x y : UInt32) : UInt32 := (x + y - 1) / y * y

/-- `SMEM_PARTITION_ITEM_PADDING`, in the arithmetic of `sizeof`. -/
def itemPadding (sizeCl : UInt32) : UInt64 :=
  (16 + sizeCl.toUInt64 - 1) / sizeCl.toUInt64 * sizeCl.toUInt64 - 16

/-- `smem_info`: what a host knows about the whole of shared memory. -/
structure SmemInfo where
  smemBaseAddr : UInt64
  smemSize : UInt32
  maxItems : UInt16
  deriving DecidableEq, Repr

/-- `smem_partition_info_type` -/
structure PartitionInfo where
  header : UInt64
  size : UInt32
  sizeCacheline : UInt32
  offsetFreeUncached : UInt32
  offsetFreeCached : UInt32
  offsetMappedUncached : UInt32
  offsetMappedCached : UInt32
  deriving DecidableEq, Repr

/-- `smem_alloc_params_type` -/
structure AllocParams where
  remoteHost : UInt32
  smemType : UInt32
  size : UInt32
  buffer : UInt64
  flags : UInt32
  deriving DecidableEq, Repr

/-- A range of shared memory, by its offset from the base, that a host has asked to be mapped. -/
structure Mapping where
  offset : UInt32
  size : UInt32
  cached : Bool
  deriving DecidableEq, Repr

/-- A host: `smem_info_prt`, and the ranges it has asked to be mapped so far. -/
structure Host where
  info : PartitionInfo
  mappings : List Mapping
  deriving DecidableEq, Repr

/-- What a call gives its caller: the status, and `*params` as it leaves them. -/
structure Answer where
  status : Status
  params : AllocParams
  deriving DecidableEq, Repr

/-! ## Mapping pages -/

/-- `smem_os_map_page_attr`: the range of whole pages; the source returns its size. -/
def mapPageAttr (pageOffset pageSize : UInt32) (cached : Bool) : Mapping :=
  let alignedOffset := pageOffset &&& ~~~pageAlignMask
  let pageSize := pageSize + (pageOffset - alignedOffset)
  ⟨alignedOffset, (pageSize + pageAlignMask) &&& ~~~pageAlignMask, cached⟩

/-- `smem_part_ensure_uncached_mapping` -/
def ensureUncachedMapping (smemInfo : SmemInfo) (newOffset : UInt32) (host : Host) : Host :=
  if newOffset > host.info.offsetMappedUncached then
    let mappingSize := newOffset - host.info.offsetMappedUncached
    let mappingOffset :=
      host.info.offsetMappedUncached + (host.info.header - smemInfo.smemBaseAddr).toUInt32
    let mapping := mapPageAttr mappingOffset mappingSize false
    { info := { host.info with
        offsetMappedUncached := host.info.offsetMappedUncached + mapping.size }
      mappings := mapping :: host.mappings }
  else host

/-- `smem_part_ensure_cached_mapping` -/
def ensureCachedMapping (smemInfo : SmemInfo) (newOffset : UInt32) (host : Host) : Host :=
  if newOffset < host.info.offsetMappedCached then
    let mappingSize := host.info.offsetMappedCached - newOffset
    let mappingOffset := newOffset + (host.info.header - smemInfo.smemBaseAddr).toUInt32
    let mapping := mapPageAttr mappingOffset mappingSize true
    { info := { host.info with
        offsetMappedCached := host.info.offsetMappedCached - mapping.size }
      mappings := mapping :: host.mappings }
  else host

/-- Mapping pages changes nothing of a partition but how far it is mapped. -/
theorem ensureUncachedMapping_info (smemInfo : SmemInfo) (newOffset : UInt32) (host : Host) :
    ∃ mapped, (ensureUncachedMapping smemInfo newOffset host).info =
      { host.info with offsetMappedUncached := mapped } := by
  unfold ensureUncachedMapping
  split
  · exact ⟨_, rfl⟩
  · exact ⟨host.info.offsetMappedUncached, rfl⟩

theorem ensureCachedMapping_info (smemInfo : SmemInfo) (newOffset : UInt32) (host : Host) :
    ∃ mapped, (ensureCachedMapping smemInfo newOffset host).info =
      { host.info with offsetMappedCached := mapped } := by
  unfold ensureCachedMapping
  split
  · exact ⟨_, rfl⟩
  · exact ⟨host.info.offsetMappedCached, rfl⟩

/-! ## Walking the items -/

/-- `*item_hdr` and `*size_remaining`. -/
structure Cursor where
  itemHdr : UInt64
  sizeRemaining : UInt32
  deriving DecidableEq, Repr

/-- The next item of the walk. -/
def Cursor.advance (cur : Cursor) (sizeTotal : UInt32) (cached : Bool) : Cursor where
  itemHdr :=
    if cached then cur.itemHdr - sizeTotal.toUInt64 else cur.itemHdr + sizeTotal.toUInt64
  sizeRemaining := cur.sizeRemaining - sizeTotal

/-- The buffer and the flags of the item whose header is at `itemHdr`. -/
def AllocParams.point (params : AllocParams) (itemHdr : UInt64) (sizeItem : UInt32)
    (cached : Bool) : AllocParams :=
  if cached then
    { params with
      buffer := itemHdr - sizeItem.toUInt64
      flags := params.flags ||| allocFlagCached }
  else
    { params with
      buffer := itemHdr + 16
      flags := params.flags &&& ~~~allocFlagCached }

/-- `smem_part_process_item` -/
def processItem (m : Memory) (info : PartitionInfo) (params : AllocParams) (cur : Cursor)
    (paddingHeader : UInt16) (cached : Bool) : Bool × AllocParams × Cursor :=
  let canary := m.u16 cur.itemHdr
  let smemType := m.u16 (cur.itemHdr + 2)
  let sizeItem := m.u32 (cur.itemHdr + 4)
  let sizeTotal := sizeItem + paddingHeader.toUInt32 + 16
  if canary != allocHdrCanary then (false, params, cur)
  else if sizeItem > info.size then (false, params, cur)
  else if sizeTotal > cur.sizeRemaining then (false, params, cur)
  else if smemType.toUInt32 == params.smemType then
    let params := params.point cur.itemHdr sizeItem cached
    let paddingData := (m.u16 (cur.itemHdr + 8)).toUInt32
    -- the walk does not go on to the next item from here
    if paddingData > sizeItem then
      (false, params, { cur with sizeRemaining := cur.sizeRemaining - sizeTotal })
    else
      (true, { params with size := roundUp (sizeItem - paddingData) 8 },
        cur.advance sizeTotal cached)
  else (false, params, cur.advance sizeTotal cached)

/-- The condition of the two loops of `smem_part_get_addr_ex`. -/
def withinLimit (cached : Bool) (itemHdr limitAddr : UInt32) : Bool :=
  if cached then itemHdr ≥ limitAddr else itemHdr < limitAddr

/-- A loop of `smem_part_get_addr_ex`, with a budget of rounds: whether the item was found. -/
def scan (m : Memory) (info : PartitionInfo) (paddingHeader : UInt16) (limitAddr : UInt32)
    (cached : Bool) : Nat → AllocParams → Cursor → Option (Bool × AllocParams × Cursor)
  | 0, _, _ => none
  | fuel + 1, params, cur =>
    if withinLimit cached cur.itemHdr.toUInt32 limitAddr then
      match processItem m info params cur paddingHeader cached with
      | (true, params, cur) => some (true, params, cur)
      | (false, params, cur) => scan m info paddingHeader limitAddr cached fuel params cur
    else some (false, params, cur)

/-! ## Finding an item -/

section
variable (smemInfo : SmemInfo) (thisHost : UInt32) (fuel : Nat)

/-- `remote_host` is out of the range of hosts. -/
def remoteOutOfRange (params : AllocParams) : Bool :=
  params.remoteHost != invalidHost && params.remoteHost ≥ numHosts

/-- `remote_host` names the common partition. -/
def remoteCommon (params : AllocParams) : Bool :=
  params.remoteHost == invalidHost || params.remoteHost == thisHost

/-- The second half of `smem_part_get_addr_ex`: the cached side. -/
def getAddrCached (m : Memory) (params : AllocParams) (sizeRemaining : UInt32) (host : Host) :
    Option (Answer × Host) :=
  let host := ensureCachedMapping smemInfo host.info.offsetFreeCached host
  let info := host.info
  let paddingHeader := (itemPadding info.sizeCacheline).toUInt16
  let itemHdr := (info.header.toUInt32 + info.size - paddingHeader.toUInt32).toUInt64 - 16
  let limitAddr := info.header.toUInt32 + info.offsetFreeCached
  match scan m info paddingHeader limitAddr true fuel params ⟨itemHdr, sizeRemaining⟩ with
  | none => none
  | some (true, params, _) => some (⟨.success, params⟩, host)
  | some (false, params, _) => some (⟨.notFound, params⟩, host)

/-- `smem_part_get_addr_ex` from where the offsets have been read on. -/
def getAddrUncached (m : Memory) (params : AllocParams) (host : Host) : Option (Answer × Host) :=
  let host := ensureUncachedMapping smemInfo host.info.offsetFreeUncached host
  let info := host.info
  let itemHdr := info.header.toUInt32.toUInt64 + 32
  let limitAddr := info.header.toUInt32 + info.offsetFreeUncached
  match scan m info 0 limitAddr false fuel params ⟨itemHdr, info.size - 32⟩ with
  | none => none
  | some (true, params, _) => some (⟨.success, params⟩, host)
  | some (false, params, cur) => getAddrCached smemInfo fuel m params cur.sizeRemaining host

/-- Reading the heap pointers in shared memory. -/
def Host.readOffsets (host : Host) (m : Memory) : Host :=
  { host with info := { host.info with
      offsetFreeCached := m.u32 (host.info.header + 16)
      offsetFreeUncached := m.u32 (host.info.header + 12) } }

/-- `smem_part_get_addr_ex` -/
def getAddrEx (m : Memory) (params : AllocParams) (host : Host) : Option (Answer × Host) :=
  if remoteOutOfRange params then some (⟨.invalidParam, params⟩, host)
  else if !remoteCommon thisHost params then some (⟨.invalidParam, params⟩, host)
  else if host.info.size == 0 then some (⟨.notFound, { params with buffer := 0 }⟩, host)
  else
    let host := host.readOffsets m
    if host.info.offsetFreeUncached > host.info.offsetFreeCached
        || host.info.offsetFreeUncached > host.info.size
        || host.info.offsetFreeCached > host.info.size then
      some (⟨.outOfResources, params⟩, host)
    else getAddrUncached smemInfo fuel m params host

/-! ## Allocating -/

/-- Filling in an item header. -/
def writeItem (m : Memory) (itemHdr : UInt64) (smemType : UInt16) (sizeItem : UInt32)
    (paddingData paddingHeader : UInt16) : Memory :=
  let m := m.put itemHdr 2 allocHdrCanary.toNat
  let m := m.put (itemHdr + 2) 2 smemType.toNat
  let m := m.put (itemHdr + 4) 4 sizeItem.toNat
  let m := m.put (itemHdr + 8) 2 paddingData.toNat
  m.put (itemHdr + 10) 2 paddingHeader.toNat

/-- What a new item takes: `size_item` and `size_total`. -/
structure ItemSize where
  sizeItem : UInt32
  sizeTotal : UInt32
  deriving DecidableEq, Repr

/-- The sizes of a new item on the side the flags ask for. -/
def itemSize (info : PartitionInfo) (params : AllocParams) : ItemSize :=
  if params.flags &&& allocFlagCached != 0 then
    let sizeItem := roundUp params.size info.sizeCacheline
    ⟨sizeItem, sizeItem + 16 + (itemPadding info.sizeCacheline).toUInt32⟩
  else
    let sizeItem := roundUp params.size 8
    ⟨sizeItem, sizeItem + 16⟩

/-- The cached branch of `smem_part_alloc_ex`. -/
def allocCached (m : Memory) (params : AllocParams) (size : ItemSize) (sizeRounded8 : UInt32)
    (paddingData : UInt16) (host : Host) : Answer × Host × Memory :=
  let info := host.info
  let sizeRemaining := info.offsetFreeCached - info.offsetMappedUncached
  if size.sizeTotal > sizeRemaining then (⟨.outOfResources, params⟩, host, m)
  else
    let itemHdr :=
      info.header + info.offsetFreeCached.toUInt64 - 16 - itemPadding info.sizeCacheline
    let params := { params with
      buffer := info.header + info.offsetFreeCached.toUInt64 - size.sizeTotal.toUInt64
      size := sizeRounded8 }
    let host := ensureCachedMapping smemInfo (info.offsetFreeCached - size.sizeTotal) host
    let m := writeItem m itemHdr params.smemType.toUInt16 size.sizeItem paddingData
      (itemPadding info.sizeCacheline).toUInt16
    let offsetFreeCached := info.offsetFreeCached - size.sizeTotal
    (⟨.success, params⟩,
      { host with info := { host.info with offsetFreeCached := offsetFreeCached } },
      m.put (info.header + 16) 4 offsetFreeCached.toNat)

/-- The uncached branch of `smem_part_alloc_ex`. -/
def allocUncached (m : Memory) (params : AllocParams) (size : ItemSize) (sizeRounded8 : UInt32)
    (paddingData : UInt16) (host : Host) : Answer × Host × Memory :=
  let info := host.info
  let sizeRemaining := info.offsetMappedCached - info.offsetFreeUncached
  if size.sizeTotal > sizeRemaining then (⟨.outOfResources, params⟩, host, m)
  else
    let itemHdr := info.header + info.offsetFreeUncached.toUInt64
    let params := { params with
      buffer := info.header + info.offsetFreeUncached.toUInt64 + 16
      size := sizeRounded8 }
    let host := ensureUncachedMapping smemInfo (info.offsetFreeUncached + size.sizeTotal) host
    let m := writeItem m itemHdr params.smemType.toUInt16 size.sizeItem paddingData 0
    let offsetFreeUncached := info.offsetFreeUncached + size.sizeTotal
    (⟨.success, params⟩,
      { host with info := { host.info with offsetFreeUncached := offsetFreeUncached } },
      m.put (info.header + 12) 4 offsetFreeUncached.toNat)

/-- `smem_part_alloc_ex` -/
def allocEx (m : Memory) (params : AllocParams) (host : Host) :
    Option (Answer × Host × Memory) :=
  if remoteOutOfRange params then some (⟨.invalidParam, params⟩, host, m)
  else if params.smemType ≥ smemInfo.maxItems.toUInt32 || params.size == 0
      || params.size > smemInfo.smemSize then
    some (⟨.invalidParam, params⟩, host, m)
  else if !remoteCommon thisHost params then some (⟨.invalidParam, params⟩, host, m)
  else if host.info.size == 0 then
    some (⟨.outOfResources, { params with buffer := 0 }⟩, host, m)
  else
    let sizeRounded8 := roundUp params.size 8
    let size := itemSize host.info params
    let paddingData := (size.sizeItem - params.size).toUInt16
    match getAddrEx smemInfo thisHost fuel m params host with
    | none => none
    | some (⟨.success, params⟩, host) =>
      some (⟨if params.size == sizeRounded8 then .success else .sizeMismatch, params⟩, host, m)
    -- whatever else the lookup says, the item is allocated
    | some (⟨_, params⟩, host) =>
      if params.flags &&& allocFlagCached != 0 then
        some (allocCached smemInfo m params size sizeRounded8 paddingData host)
      else some (allocUncached smemInfo m params size sizeRounded8 paddingData host)

end

/-! ## Setting up -/

/-- What `smem_boot_toc_entry_setup` writes at the base of a partition without exclusions. -/
def setupHeader (m : Memory) (header : UInt64) (host0 host1 : UInt16) (size : UInt32) : Memory :=
  let m := m.put header 4 partitionHeaderId.toNat
  let m := m.put (header + 4) 2 host0.toNat
  let m := m.put (header + 6) 2 host1.toNat
  let m := m.put (header + 8) 4 size.toNat
  let m := m.put (header + 12) 4 32
  m.put (header + 16) 4 size.toNat

/-- `smem_info_prt` before `smem_part_init`. -/
def Host.uninit : Host where
  info := ⟨0, 0, 0, 0, 0, 0, 0⟩
  mappings := []

/-- `smem_part_init` from where it has found the table entry of the common partition on. The
`params` on its stack are not initialised. Any status but success and not-found is fatal. -/
def partInit (smemInfo : SmemInfo) (thisHost : UInt32) (fuel : Nat)
    (partitionOffset size sizeCacheline : UInt32) (m : Memory) (stack : AllocParams) :
    Option (Answer × Host) :=
  let mapping := mapPageAttr partitionOffset 32 false
  let host : Host :=
    { info := ⟨smemInfo.smemBaseAddr + partitionOffset.toUInt64, size, sizeCacheline, 32, size,
        mapping.size, size⟩
      mappings := [mapping] }
  let params := { stack with remoteHost := thisHost, smemType := memFirst }
  match getAddrEx smemInfo thisHost fuel m params host with
  | some (⟨.success, params⟩, host) => some (⟨.success, params⟩, host)
  | some (⟨.notFound, params⟩, host) => some (⟨.notFound, params⟩, host)
  | _ => none

end Smem
