import BootXf.Lib.Checked
import BootXf.Lib.Storage

/-!
# Reading and verifying config data

The loader variant of the XBL config module reads an item from its partition (`XcfgLoaderFlash.c`),
looks up the ELF segment that the item is in (`XcfgLoaderElf.c`), and has the whole segment hashed
around the caller's buffer (`XcfgLoaderAuth.c`).

Whatever is called outside may fail: the world answers the calls one by one. The hash is a
parameter, and `fed` is what it has been given since it was initialised.
-/

namespace XBLConfig

open Lib Checked

/-- `xblconfig_status_type`. -/
inductive XblconfigStatus
  | success | invalidSize | metaDataLoadErr | configDataLoadErr | initErr | openErr | readErr
  | closeErr
  | memoryAllocationErr | hashSegErr | nullPtrErr | handleErr | verifyErr | uninitialized
  | bufferValidationErr | memoryFreeErr | deinitErr | overflowErr
  deriving DecidableEq

/-- How a function of the module stops before its end: with a status, or for good, by `BL_VERIFY`
or an access through `NULL`. -/
inductive Stop
  | status (e : XblconfigStatus)
  | fatal
  deriving DecidableEq

/-- What a call of the module meets outside. -/
structure World where
  /-- Whether the calls that may fail succeed, one after the other. -/
  answers : Nat → Bool
  /-- The XBL config partition. -/
  storage : Contents

/-- What the calls outside change. -/
structure Machine where
  /-- The number of calls that have been answered. -/
  tick : Nat
  /-- The number of blocks on the heap. -/
  live : Nat
  /-- The number of images that `xcfg_get_data` has open. -/
  openImages : Nat
  /-- What the running hash has been fed. -/
  fed : List UInt8

/-- A function of the module. -/
abbrev Code (σ : Type) := Checked σ Stop

/-- `XCFG_UINT32_MAX`. -/
def xcfgUint32Max : UInt64 := 0xFFFFFFFF

/-! ## What is called outside -/

/-- The next answer. -/
def ask (w : World) : Code Machine Bool :=
  fun m => (.ok (w.answers m.tick), { m with tick := m.tick + 1 })

/-- A call whose failure has a status. -/
def call (w : World) (e : XblconfigStatus) : Code Machine Unit := do
  let ok ← ask w
  breakIf (!ok) (.status e)

/-- A call whose failure is fatal. -/
def verify (w : World) : Code Machine Unit := do
  let ok ← ask w
  breakIf (!ok) .fatal

/-- `xcfg_malloc`. When it fails, the source stores `NULL` through its pointer; here the pointer
keeps what it had. -/
def xcfgMalloc (w : World) (buffSize : UInt64) : Code Machine Unit := do
  breakIf (buffSize > xcfgUint32Max) (.status .overflowErr)
  call w .memoryAllocationErr
  update fun m => { m with live := m.live + 1 }

/-- `xcfg_free`, of a block. -/
def xcfgFree (w : World) : Code Machine Unit := do
  call w .memoryFreeErr
  update fun m => { m with live := m.live - 1 }

/-- A block is freed in all cases. The status of that only counts when there is no other error. -/
def thenFree (w : World) (p : Code Machine Unit) : Code Machine Unit := fun m =>
  match p m with
  | (.ok _, m) => xcfgFree w m
  | (.error .fatal, m) => (.error .fatal, m)
  | (.error e, m) => (.error e, (xcfgFree w m).2)

/-- The failure of `xcfg_get_data` is reported as a failed verification. -/
def orVerifyErr {α : Type} (p : Code Machine α) : Code Machine α := fun m =>
  match p m with
  | (.error (.status _), m) => (.error (.status .verifyErr), m)
  | r => r

/-- `xcfg_get_data`. An image whose read fails stays open. -/
def xcfgGetData (w : World) (fileOffset fileSize : UInt64) : Code Machine (List UInt8) := do
  breakIf (fileSize = 0) (.status .invalidSize)
  breakIf (fileOffset > xcfgUint32Max || fileSize > xcfgUint32Max) (.status .overflowErr)
  call w .configDataLoadErr
  update fun m => { m with openImages := m.openImages + 1 }
  call w .configDataLoadErr
  update fun m => { m with openImages := m.openImages - 1 }
  pure (w.storage.read fileOffset.toNat fileSize.toNat)

/-- `boot_sec_img_auth_partial_hash_init`. -/
def partialHashInit (w : World) : Code Machine Unit := do
  call w .verifyErr
  update fun m => { m with fed := [] }

/-- `boot_sec_img_auth_partial_hash_update`. -/
def partialHashUpdate (w : World) (partialBuff : List UInt8) : Code Machine Unit := do
  call w .verifyErr
  update fun m => { m with fed := m.fed ++ partialBuff }

/-! ## Hashing a segment -/

/-- `PARTIAL_HASH_BUFF_SIZE`. -/
def partialHashBuffSize : UInt64 := 1024

/-- The loop of `xcfg_verify_transient_data`, and what it leaves of the offset and of the size. -/
def fullChunks (w : World) : Nat → UInt64 → UInt64 → Code Machine (UInt64 × UInt64)
  | 0, segStartOffset, segmentChunkSize => pure (segStartOffset, segmentChunkSize)
  | fuel + 1, segStartOffset, segmentChunkSize =>
    if segmentChunkSize > partialHashBuffSize then do
      let buff ← orVerifyErr (xcfgGetData w segStartOffset partialHashBuffSize)
      partialHashUpdate w buff
      fullChunks w fuel (segStartOffset + partialHashBuffSize)
        (segmentChunkSize - partialHashBuffSize)
    else pure (segStartOffset, segmentChunkSize)

/-- `xcfg_verify_transient_data`. -/
def xcfgVerifyTransientData (w : World) (segStartOffset segEndOffset : UInt64) :
    Code Machine Unit := do
  breakIf (segStartOffset > segEndOffset) (.status .invalidSize)
  xcfgMalloc w partialHashBuffSize
  thenFree w do
    let (segStartOffset, segmentChunkSize) ← fullChunks w (segEndOffset - segStartOffset).toNat
      segStartOffset (segEndOffset - segStartOffset)
    when (segmentChunkSize > 0) do
      let buff ← orVerifyErr (xcfgGetData w segStartOffset segmentChunkSize)
      partialHashUpdate w buff

section
variable {δ : Type} [DecidableEq δ] (digest : List UInt8 → δ)

/-- `boot_sec_img_auth_partial_hash_finalize`: the running hash is compared with the entry. -/
def partialHashFinalize (w : World) (entry : δ) : Code Machine Unit := do
  call w .verifyErr
  let m ← Checked.get
  breakIf (digest m.fed ≠ entry) (.status .verifyErr)

/-- `xcfg_segment_info_type`. -/
structure SegmentInfo where
  offset : UInt64
  size : UInt64
  isVerified : Bool
  deriving DecidableEq

/-- `xcfg_elf_info_type`: the copy of the hash table, and the segments. -/
structure ElfInfo (δ : Type) where
  hashBuffer : Option (Nat → δ)
  segmentInfo : Option (List SegmentInfo)

/-- `xcfg_verify_data`. -/
def xcfgVerifyData (w : World) (configItemOffset configItemSize : UInt64) (segmentIndex : Nat)
    (segmentOffset segmentSize : UInt64) (buffer : List UInt8) (hashBuffer : Option (Nat → δ)) :
    Code Machine Unit :=
  match hashBuffer with
  | none => Checked.fail (.status .nullPtrErr)
  | some table => do
    partialHashInit w
    when (segmentOffset < configItemOffset) <|
      xcfgVerifyTransientData w segmentOffset configItemOffset
    partialHashUpdate w buffer
    breakIf (configItemOffset + configItemSize < configItemOffset ||
      segmentOffset + segmentSize < segmentOffset) (.status .overflowErr)
    when (configItemOffset + configItemSize < segmentOffset + segmentSize) <|
      xcfgVerifyTransientData w (configItemOffset + configItemSize) (segmentOffset + segmentSize)
    partialHashFinalize digest w (table segmentIndex)

/-- The loop of `xcfg_get_config_item_segment`. -/
def itemSegment (configItemStartOffset configItemSize : UInt64) :
    List SegmentInfo → Nat → Except Stop (Nat × SegmentInfo)
  | [], _ => .error (.status .verifyErr)
  | seg :: segs, index =>
    if seg.offset + seg.size < seg.offset then .error (.status .overflowErr)
    else if seg.offset ≤ configItemStartOffset ∧ seg.size ≥ configItemSize ∧
        seg.offset + seg.size > configItemStartOffset then .ok (index, seg)
    else itemSegment configItemStartOffset configItemSize segs (index + 1)

/-- `xcfg_get_config_item_segment`. -/
def xcfgGetConfigItemSegment (elf : ElfInfo δ) (configItemStartOffset configItemSize : UInt64) :
    Except Stop (Nat × SegmentInfo) :=
  match elf.segmentInfo with
  | none => .error (.status .initErr)
  | some segs => itemSegment configItemStartOffset configItemSize segs 0

/-- `xcfg_validate_data`. -/
def xcfgValidateData (w : World) (elf : ElfInfo δ) (startOffset configItemBufferSize : UInt64)
    (buffer : List UInt8) : Code Machine Unit := do
  let (segmentIndex, seg) ←
    breakOn (xcfgGetConfigItemSegment elf startOffset configItemBufferSize)
  if seg.isVerified then pure ()
  else
    xcfgVerifyData digest w startOffset configItemBufferSize segmentIndex seg.offset seg.size buffer
      elf.hashBuffer

/-- `xcfg_verified_config_data_read`, and what is in the buffer when it succeeds. -/
def xcfgVerifiedConfigDataRead (w : World) (elf : ElfInfo δ) (startOffset configItemSize : UInt64) :
    Code Machine (List UInt8) := do
  breakIf (configItemSize = 0) (.status .invalidSize)
  let buffer ← xcfgGetData w startOffset configItemSize
  xcfgValidateData digest w elf startOffset configItemSize buffer
  pure buffer

end

end XBLConfig
