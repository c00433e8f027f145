import BootXf.Lib.LittleEndian
import BootXf.XBLConfig.VerifyData
import BootXf.XBLLoader.WhitelistProt

/-!
# The XBL config module

The static variables of `XBLConfig.c` and `XcfgLoaderElf.c`, and the five calls of the module:
`xblconfig_init` finds the metadata in the ELF image and verifies it, `xblconfig_open` and
`xblconfig_close` keep the list of handles, `xblconfig_read` reads a part of an item, and
`xblconfig_deinit` frees everything.

What the ELF loader finds in the partition is given. It stops for good when it cannot read it.
-/

namespace XBLConfig

open Lib XBLLoader List Checked

/-! ## State -/

/-- What `boot_get_elf_phdr_entry_info` tells of a program header. -/
structure Phdr where
  fileSize : UInt64
  offset : UInt64
  isLoadable : Bool

/-- What the ELF loader finds in the partition. -/
structure Image (δ : Type) where
  phdrs : List Phdr
  hashSegmentSize : Option UInt64
  /-- Whether `xcfg_auth_image_hashtable` succeeds. -/
  authenticated : Bool
  /-- The entries of the hash table. -/
  hashTable : Nat → δ

/-- What a call of the module meets. -/
structure Outside (δ : Type) extends World where
  image : Image δ
  /-- `xblconfig_img_whitelist`. -/
  imgWhitelist : Nat → WhitelstTblEntry
  /-- Where the block for the metadata is. -/
  metadataAddr : UInt64
  /-- The memory behind the metadata, and what new blocks hold. -/
  memory : Memory
  freshEntry : Nat → UInt64

/-- The block of the metadata. -/
structure Metadata where
  addr : UInt64
  data : List UInt8
  beyond : Memory

/-- Memory as it is read through a pointer to the metadata. -/
def Metadata.memory (d : Metadata) : Memory := fun a => d.data.getD (a - d.addr).toNat (d.beyond a)

/-- `xcfg_config_handle_type`. -/
structure Handle where
  configEntryIndex : UInt64
  isValid : Bool
  deriving DecidableEq

/-- The static variables. A pointer that is not `NULL` comes with what it points to. -/
structure Sys (δ : Type) where
  machine : Machine
  whitelist : WhitelistState
  /-- Whether the hash segment buffer has been moved to the heap. -/
  hashSegmentMoved : Bool
  /-- Whether the ELF loader has the image open. -/
  transIf : Bool
  elfInfo : ElfInfo δ
  metadataBuff : Option Metadata
  metadataStartOffset : UInt64
  isInitialized : Bool
  configEntryList : Option (List UInt64)
  maxConfigEntries : UInt16
  handleList : Option (List Handle)
  handleMaxCount : UInt32
  handleCount : UInt32

/-- The static variables before the first call. -/
def Sys.boot (δ : Type) : Sys δ where
  machine := ⟨0, 0, 0, []⟩
  whitelist := .init
  hashSegmentMoved := false
  transIf := false
  elfInfo := ⟨none, none⟩
  metadataBuff := none
  metadataStartOffset := 0
  isInitialized := false
  configEntryList := none
  maxConfigEntries := 0
  handleList := none
  handleMaxCount := 0
  handleCount := 0

section
variable {δ α : Type} {s t : Sys δ} {a : α}

/-- A function that works on the machine alone. -/
def onMachine (p : Code Machine α) : Code (Sys δ) α := fun s =>
  ((p s.machine).1, { s with machine := (p s.machine).2 })

/-- An access through a pointer. It is fatal through `NULL`, and through a pointer to a block that a
deinitialisation which failed has freed. -/
def deref (p : Option α) : Code (Sys δ) α :=
  breakOn (match p with
    | none => .error .fatal
    | some a => .ok a)

/-- Code of the machine leaves the rest of the state. -/
theorem onMachine_ok {p : Code Machine α} : onMachine p s = (.ok a, t) ↔
    ∃ m, p s.machine = (.ok a, m) ∧ t = { s with machine := m } := by
  constructor
  · intro h
    obtain ⟨hr, rfl⟩ := Prod.mk.inj h
    exact ⟨_, Prod.ext hr rfl, rfl⟩
  · rintro ⟨m, hp, rfl⟩
    rw [onMachine, hp]

/-- A pointer is not `NULL` where an access returns. -/
theorem deref_ok {p : Option α} : deref p s = (.ok a, t) ↔ p = some a ∧ s = t := by
  rw [show (deref p : Code (Sys δ) α) = breakOn _ from rfl, breakOn_ok]
  cases p with
  | none => exact ⟨fun h => (nomatch h.1), fun h => (nomatch h.1)⟩
  | some b => exact ⟨fun h => ⟨congrArg some (Except.ok.inj h.1), h.2⟩, fun h => ⟨congrArg Except.ok
      (Option.some.inj h.1), h.2⟩⟩

end

section
variable {δ : Type} [DecidableEq δ] (digest : List UInt8 → δ) (w : Outside δ)

/-- `xcfg_free` of a static pointer, which becomes `NULL`. -/
def freeStatic (isLive : Sys δ → Bool) (clear : Sys δ → Sys δ) : Code (Sys δ) Unit := do
  let s ← Checked.get
  when (isLive s) do
    onMachine (xcfgFree w.toWorld)
    update clear

/-- A block is freed; when that fails, the cleanup frees a block once more. -/
def freeOrCleanup : Code Machine Unit := fun m =>
  match xcfgFree w.toWorld m with
  | (.error e, m) => (.error e, (xcfgFree w.toWorld m).2)
  | r => r

/-- A cleanup, after any status that is an error. -/
def onError (p cleanup : Code (Sys δ) Unit) : Code (Sys δ) Unit := fun s =>
  match p s with
  | (.error (.status e), s) =>
    (.error (.status e), if e = .success then s else (cleanup s).2)
  | r => r

/-! ## Load addresses -/

/-- `xcfg_load_addr_validation_init`. -/
def xcfgLoadAddrValidationInit : Code (Sys δ) Unit := fun s =>
  let (ok, whitelist) := bootSetActiveImgWhitelistTable s.whitelist (some w.imgWhitelist)
  (if ok then .ok () else .error (.status .bufferValidationErr), { s with whitelist })

/-- `xcfg_load_addr_validation_deinit`. -/
def xcfgLoadAddrValidationDeinit : Code (Sys δ) Unit :=
  update fun s => { s with whitelist := bootInvalidateImgWhitelist s.whitelist }

/-! ## The image -/

/-- `boot_move_hash_segment_buffer`. -/
def bootMoveHashSegmentBuffer : Code (Sys δ) Unit := do
  let s ← Checked.get
  when (s.hashSegmentMoved = false) do
    onMachine (verify w.toWorld)
    update fun s => { s with
      hashSegmentMoved := true, machine := { s.machine with live := s.machine.live + 1 } }

/-- `boot_restore_hash_segment_buffer`. -/
def bootRestoreHashSegmentBuffer : Code (Sys δ) Unit := do
  onMachine (verify w.toWorld)
  update fun s => { s with
    hashSegmentMoved := false, machine := { s.machine with live := s.machine.live - 1 } }

/-- `boot_elf_load_init_hash_segment`. -/
def bootElfLoadInitHashSegment : Code (Sys δ) Unit := do
  onMachine (verify w.toWorld)
  update fun s => { s with transIf := true }

/-- `xcfg_image_interface_reset`. -/
def xcfgImageInterfaceReset : Code (Sys δ) Unit := update fun s => { s with transIf := false }

/-- The page-rounded size of the copy of the hash table. -/
def totalHashSize : UInt64 := 0x1000

/-- `sizeof(xcfg_segment_info_type)`. -/
def sizeofSegmentInfo : UInt64 := 24

/-- `xcfg_image_interface_init`. Of the hash buffer the cleanup frees the address of the static
variable, which is in no heap. -/
def xcfgImageInterfaceInit : Code (Sys δ) Unit :=
  onError (do
    bootMoveHashSegmentBuffer w
    bootElfLoadInitHashSegment w
    breakIf (!w.image.authenticated) (.status .verifyErr)
    onMachine (verify w.toWorld)
    let hashSegmentSize ← breakOn (match w.image.hashSegmentSize with
      | none => .error (.status .hashSegErr)
      | some size => .ok size)
    breakIf (hashSegmentSize > xcfgUint32Max) (.status .overflowErr)
    onMachine (xcfgMalloc w.toWorld totalHashSize)
    update fun s => { s with elfInfo := { s.elfInfo with hashBuffer := some w.image.hashTable } }
    bootRestoreHashSegmentBuffer w
    onMachine (verify w.toWorld)
    breakIf (sizeofSegmentInfo > xcfgUint32Max / .ofNat w.image.phdrs.length)
      (.status .overflowErr)
    onMachine (xcfgMalloc w.toWorld (.ofNat w.image.phdrs.length * sizeofSegmentInfo))
    update fun s => { s with elfInfo := { s.elfInfo with
      segmentInfo := some (replicate w.image.phdrs.length ⟨0, 0, false⟩) } })
  (freeStatic w (·.elfInfo.segmentInfo.isSome)
    fun s => { s with elfInfo := { s.elfInfo with segmentInfo := none } })

/-- `xcfg_image_interface_deinit`. -/
def xcfgImageInterfaceDeinit : Code (Sys δ) Unit := do
  freeStatic w (·.elfInfo.hashBuffer.isSome)
    fun s => { s with elfInfo := { s.elfInfo with hashBuffer := none } }
  freeStatic w (·.elfInfo.segmentInfo.isSome)
    fun s => { s with elfInfo := { s.elfInfo with segmentInfo := none } }

/-- `xcfg_get_block_data`. -/
def xcfgGetBlockData (blockOffset blockSize : UInt64) : Code (Sys δ) (List UInt8) := do
  breakIf (blockSize = 0) (.status .invalidSize)
  breakIf (blockOffset > xcfgUint32Max || blockSize > xcfgUint32Max) (.status .readErr)
  onMachine (verify w.toWorld)
  pure (w.storage.read blockOffset.toNat blockSize.toNat)

/-- `xcfg_image_get_block_info`: on the way the segment is noted. -/
def xcfgImageGetBlockInfo (index : Nat) (p : Phdr) : Code (Sys δ) Unit := do
  onMachine (verify w.toWorld)
  update fun s => { s with elfInfo := { s.elfInfo with
    segmentInfo := s.elfInfo.segmentInfo.map (·.set index ⟨p.offset, p.fileSize, false⟩) } }

/-! ## The metadata -/

/-- `CFGL`. -/
def xcfgLoaderCookie : List UInt8 := [0x43, 0x46, 0x47, 0x4C]

/-- One round of the loop over the blocks: `found` is the size of the metadata, once it is found. -/
def metaDataBlock (index : Nat) (p : Phdr) (found : Option UInt64) :
    Code (Sys δ) (Option UInt64) := do
  xcfgImageGetBlockInfo w index p
  if p.isLoadable ∧ p.fileSize > 0 ∧ found = none then do
    let cookie ← xcfgGetBlockData w p.offset 4
    if cookie = xcfgLoaderCookie then do
      onMachine (xcfgMalloc w.toWorld p.fileSize)
      update fun s => { s with metadataBuff := some ⟨w.metadataAddr, [], w.memory⟩ }
      let data ← xcfgGetBlockData w p.offset p.fileSize
      update fun s => { s with
        metadataBuff := some ⟨w.metadataAddr, data, w.memory⟩, metadataStartOffset := p.offset }
      pure (some p.fileSize)
    else pure found
  else pure found

/-- The loop over the blocks, and where it stops. A status only ends it. -/
def metaDataLoop : List Phdr → Nat → Option UInt64 → Code (Sys δ) (Nat × Option UInt64)
  | [], index, found => pure (index, found)
  | p :: ps, index, found => fun s =>
    match metaDataBlock w index p found s with
    | (.ok found, s) => metaDataLoop ps (index + 1) found s
    | (.error (.status _), s) => (.ok (index, found), s)
    | (.error .fatal, s) => (.error .fatal, s)

/-- `xcfg_load_meta_data`. The cleanup does not free the metadata: it frees the address of the
static variable, which is in no heap. -/
def xcfgLoadMetaData : Code (Sys δ) Unit := do
  xcfgImageInterfaceInit w
  onMachine (xcfgMalloc w.toWorld 4)
  let (index, found) ← metaDataLoop w w.image.phdrs 0 none
  onMachine (freeOrCleanup w)
  let s ← Checked.get
  match s.metadataBuff with
  | none => do
    xcfgImageInterfaceReset
    Checked.fail (.status .metaDataLoadErr)
  | some metadata =>
    if index ≠ w.image.phdrs.length then do
      xcfgImageInterfaceReset
      Checked.fail (.status .metaDataLoadErr)
    else do
      onMachine (xcfgValidateData digest w.toWorld s.elfInfo s.metadataStartOffset (found.getD 0)
        (metadata.data.take (found.getD 0).toNat))
      xcfgImageInterfaceReset

/-- The major version, the minor version and the number of entries in `xcfg_metadata_header_type`.
-/
def Metadata.majorVersion (d : Metadata) : UInt8 := d.memory (d.addr + 4)
def Metadata.minorVersion (d : Metadata) : UInt8 := d.memory (d.addr + 5)
def Metadata.numberOfEntries (d : Metadata) : UInt16 := d.memory.u16 (d.addr + 6)

/-- `sizeof(xcfg_metadata_header_type)`. -/
def sizeofHeader : UInt64 := 12

/-- The fields of `xcfg_metadata_table_entries_type`, through a pointer. -/
def Metadata.entryOffset (d : Metadata) (entry : UInt64) : UInt32 := d.memory.u32 (entry + 4)
def Metadata.entrySize (d : Metadata) (entry : UInt64) : UInt32 := d.memory.u32 (entry + 8)
def Metadata.entryNameLen (d : Metadata) (entry : UInt64) : UInt32 := d.memory.u32 (entry + 12)

/-- The loop of `xcfg_populate_config_item_list`: the pointers that it stores. -/
def entryPointers (d : Metadata) : Nat → UInt64 → List UInt64
  | 0, _ => []
  | n + 1, entry =>
    let nameLen := (d.entryNameLen entry).toUInt64
    let extendedBytes := if nameLen % 8 ≠ 0 then 8 - nameLen % 8 else nameLen % 8
    let next := entry + 17 + nameLen + extendedBytes - 1
    entry :: if next < entry then [] else entryPointers d n next

/-- `xcfg_populate_config_item_list`: entries that the loop does not come to stay as they are. -/
def xcfgPopulateConfigItemList (d : Metadata) (list : List UInt64) : List UInt64 :=
  let pointers := entryPointers d list.length (d.addr + sizeofHeader)
  pointers ++ list.drop pointers.length

/-! ## Handles -/

/-- `sizeof(xcfg_config_handle_type)`. -/
def sizeofHandle : UInt32 := 16

/-- `xcfg_handle_init`, when the list is full: it is doubled. -/
def growHandles (handleMaxCount : UInt32) (list : List Handle) : Code (Sys δ) Unit := do
  breakIf (sizeofHandle > 0xFFFFFFFF / handleMaxCount) (.status .overflowErr)
  let handleListSize := handleMaxCount * sizeofHandle
  breakIf (handleListSize > 0xFFFFFFFF / 2) (.status .overflowErr)
  onMachine (xcfgMalloc w.toWorld (handleListSize * 2).toUInt64)
  onMachine (freeOrCleanup w)
  update fun s => { s with
    handleList := some (list ++ replicate handleMaxCount.toNat ⟨0, false⟩)
    handleMaxCount := handleMaxCount * 2 }

/-- `xcfg_handle_init`. -/
def xcfgHandleInit : Code (Sys δ) Unit := do
  let s ← Checked.get
  if s.handleMaxCount ≠ 0 then
    match s.handleList with
    | none => Checked.fail (.status .nullPtrErr)
    | some list =>
      if s.handleCount = s.handleMaxCount then growHandles w s.handleMaxCount list
      else Checked.fail (.status .handleErr)
  else do
    breakIf s.handleList.isSome (.status .handleErr)
    -- the count is set before the list is there
    update fun s => { s with handleMaxCount := 5 }
    onMachine (xcfgMalloc w.toWorld (5 * sizeofHandle).toUInt64)
    update fun s => { s with handleList := some (replicate 5 ⟨0, false⟩), handleCount := 0 }

/-- `xcfg_handle_allocate`, from the search on. -/
def takeFreeHandle : Code (Sys δ) UInt32 := do
  let s ← Checked.get
  let list ← deref s.handleList
  match list.findIdx? fun h => !h.isValid with
  | none => Checked.fail (.status .handleErr)
  | some index => do
    update fun s => { s with handleList := some (list.modify index ({ · with isValid := true })) }
    pure (.ofNat index)

/-- `xcfg_handle_allocate`. -/
def xcfgHandleAllocate (freeHandleIndex : UInt32) : Code (Sys δ) UInt32 := do
  let s ← Checked.get
  if s.handleCount ≥ s.handleMaxCount then do
    xcfgHandleInit w
    let s ← Checked.get
    if s.handleCount ≥ s.handleMaxCount then pure freeHandleIndex
    else takeFreeHandle
  else takeFreeHandle

/-! ## The calls -/

/-- `xblconfig_init`. -/
def xblconfigInit : Code (Sys δ) Unit :=
  onError (do
    let s ← Checked.get
    if s.isInitialized then pure ()
    else do
      xcfgLoadAddrValidationInit w
      xcfgLoadMetaData digest w
      let s ← Checked.get
      let header ← deref s.metadataBuff
      -- the status is still that of the metadata
      breakIf (header.majorVersion ≠ 1 ∧ header.minorVersion ≠ 1) (.status .success)
      update fun s => { s with maxConfigEntries := header.numberOfEntries }
      onMachine (xcfgMalloc w.toWorld (header.numberOfEntries.toUInt64 * 8))
      update fun s => { s with configEntryList := some (xcfgPopulateConfigItemList header
        ((List.range header.numberOfEntries.toNat).map w.freshEntry)) }
      xcfgHandleInit w
      update fun s => { s with isInitialized := true }
      xcfgLoadAddrValidationDeinit)
  (freeStatic w (·.configEntryList.isSome) fun s => { s with configEntryList := none })

/-- `strncmp(a, b, n) == 0`. -/
def strncmpEq (a b : Nat → UInt8) : Nat → Bool
  | 0 => true
  | n + 1 => a 0 == b 0 && (a 0 == 0 || strncmpEq (fun i => a (i + 1)) (fun i => b (i + 1)) n)

/-- The name in the entry at a pointer is the name that is looked for. -/
def Metadata.hasName (d : Metadata) (configName : List UInt8) (entry : UInt64) : Bool :=
  strncmpEq (fun i => configName.getD i 0) (fun i => d.memory (entry + 16 + .ofNat i))
    (d.entryNameLen entry).toNat

/-- `xblconfig_open`: the handle, which is first what the caller's variable holds, and the size. -/
def xblconfigOpen (configName : Option (List UInt8)) (configHandle : UInt32) :
    Code (Sys δ) (UInt32 × UInt32) :=
  match configName with
  | none => Checked.fail (.status .nullPtrErr)
  | some configName => do
    let s ← Checked.get
    breakIf (!s.isInitialized) (.status .uninitialized)
    match s.configEntryList, s.metadataBuff with
    | some list, some metadata =>
      match list.findIdx? (metadata.hasName configName) with
      | none => Checked.fail (.status .openErr)
      | some index => do
        let configHandle ← xcfgHandleAllocate w configHandle
        update fun s => { s with
          handleList := s.handleList.map (·.modify configHandle.toNat
            ({ · with configEntryIndex := .ofNat index }))
          handleCount := s.handleCount + 1 }
        pure (configHandle, metadata.entrySize (list.getD index 0))
    | _, _ => Checked.fail (if s.maxConfigEntries = 0 then .status .openErr else .fatal)

/-- `xblconfig_read`, and what is in the buffer when it succeeds. -/
def xblconfigRead (configHandle readOffset size : UInt32) (buffer : Bool) :
    Code (Sys δ) (List UInt8) := do
  let s ← Checked.get
  breakIf (!s.isInitialized) (.status .uninitialized)
  breakIf (!buffer) (.status .nullPtrErr)
  breakIf (size = 0) (.status .invalidSize)
  breakIf (configHandle ≥ s.handleMaxCount) (.status .readErr)
  let handles ← deref s.handleList
  let handle := handles.getD configHandle.toNat ⟨0, false⟩
  breakIf (!handle.isValid) (.status .readErr)
  breakIf (readOffset + size < size) (.status .overflowErr)
  xcfgLoadAddrValidationInit w
  let list ← deref s.configEntryList
  let metadata ← deref s.metadataBuff
  let entry := list.getD handle.configEntryIndex.toNat 0
  breakIf (readOffset > metadata.entrySize entry ||
    readOffset + size > metadata.entrySize entry) (.status .invalidSize)
  let testOffset :=
    s.metadataStartOffset + (metadata.entryOffset entry).toUInt64 + readOffset.toUInt64
  breakIf (testOffset < s.metadataStartOffset) (.status .overflowErr)
  let data ← onMachine
      (xcfgVerifiedConfigDataRead digest w.toWorld s.elfInfo testOffset size.toUInt64)
  xcfgLoadAddrValidationDeinit
  pure data

/-- `xblconfig_close`. -/
def xblconfigClose (configHandle : UInt32) : Code (Sys δ) Unit := do
  let s ← Checked.get
  breakIf (configHandle ≥ s.handleMaxCount || s.handleCount = 0) (.status .closeErr)
  breakIf (!s.isInitialized) (.status .uninitialized)
  let handles ← deref s.handleList
  breakIf (!(handles.getD configHandle.toNat ⟨0, false⟩).isValid) (.status .closeErr)
  update fun s => { s with
    handleList := some (handles.set configHandle.toNat ⟨0, false⟩)
    handleCount := s.handleCount - 1 }

/-- `xblconfig_deinit`. -/
def xblconfigDeinit : Code (Sys δ) Unit := do
  freeStatic w (·.metadataBuff.isSome) fun s => { s with metadataBuff := none }
  freeStatic w (·.configEntryList.isSome) fun s => { s with configEntryList := none }
  freeStatic w (·.handleList.isSome) fun s => { s with handleList := none }
  xcfgImageInterfaceDeinit w
  update fun s => { s with
    handleMaxCount := 0, handleCount := 0, maxConfigEntries := 0, isInitialized := false }

/-! ## Runs -/

/-- A call of the module. -/
inductive Call
  | init
  | openItem (configName : Option (List UInt8)) (configHandle : UInt32)
  | read (configHandle readOffset size : UInt32) (buffer : Bool)
  | close (configHandle : UInt32)
  | deinit

/-- The status that a function returns. -/
def statusOf {α : Type} : Except Stop α → Option XblconfigStatus
  | .ok _ => some .success
  | .error (.status e) => some e
  | .error .fatal => none

/-- Before a call its outside answers have not been asked for. -/
def Sys.fresh (s : Sys δ) : Sys δ := { s with machine := { s.machine with tick := 0 } }

/-- What a call returns, if it does, and what it leaves. -/
def perform (call : Call) (s : Sys δ) : Option XblconfigStatus × Sys δ :=
  match call with
  | .init => let (r, t) := xblconfigInit digest w s.fresh; (statusOf r, t)
  | .openItem name handle => let (r, t) := xblconfigOpen w name handle s.fresh; (statusOf r, t)
  | .read handle offset size buffer =>
    let (r, t) := xblconfigRead digest w handle offset size buffer s.fresh; (statusOf r, t)
  | .close handle => let (r, t) := xblconfigClose handle s.fresh; (statusOf r, t)
  | .deinit => let (r, t) := xblconfigDeinit w s.fresh; (statusOf r, t)

/-- A call that returns. -/
def Step (s : Sys δ) (e : Call × Outside δ) (t : Sys δ) : Prop :=
  ∃ status, perform digest e.2 e.1 s = (some status, t)

end

end XBLConfig
