import BootXf.SecImgAuth.ElfInfo

/-!
# Authenticating an image

`sec_img_auth_verify_metadata` and `sec_img_auth_hash_elf_segments` with what they call, on the
library's global state: the handle, the cached key, and the contexts of the encryption library that
have been opened and released. Memory is read and written where the code does; each call gets the
memory as it is then.
-/

namespace SecImgAuth

open Lib Elf Checked

/-! ## State -/

/-- The library's globals: `s_img_handle`, `l1_key_cached`, the debug flag of
`s_pbl_verified_info`, and, of the encryption library, how many contexts were allocated and which
ones were freed. -/
structure SecImgState where
  s_img_handle : SecImgAuthPriv
  l1_key_cached : Bool
  pbl_enable_debug : UInt32
  uieOpened : Nat
  uieReleased : List Nat
  deriving DecidableEq, Repr

/-- The globals at start-up. -/
def bootState : SecImgState := ⟨.zero, false, 0, 0, []⟩

/-- The globals during a call, with memory and the caller's verified information. -/
structure CallState extends SecImgState where
  mem : Memory
  v_info : SecImgAuthVerifiedInfo

/-- The code between `do` and `while (0)` of the two entry points. -/
abbrev SecImg := Checked CallState SecImgAuthError

/-- The handle is changed. -/
def setHandle (f : SecImgAuthPriv → SecImgAuthPriv) : SecImg Unit :=
  update fun s => { s with s_img_handle := f s.s_img_handle }

/-- A function of the handle alone, called on the library's handle. -/
def onHandle (p : Checked SecImgAuthPriv SecImgAuthError Unit) : SecImg Unit := fun s =>
  ((p s.s_img_handle).1, { s with s_img_handle := (p s.s_img_handle).2 })

/-- `uie_deinit`. -/
def uieDeinit (ctx : Option Nat) (s : SecImgState) : SecImgState :=
  match ctx with
  | none => s
  | some k => { s with uieReleased := k :: s.uieReleased }

/-- The clean-up of both entry points: the handle is wiped, the context in it freed, and the
pointer to it cleared, in this order. -/
def cleanUp (s : SecImgState) : SecImgState :=
  let s := { s with s_img_handle := secImgAuthCleanPriv }
  let s := uieDeinit s.s_img_handle.uie s
  { s with s_img_handle := { s.s_img_handle with uie := none } }

/-! ## Constants -/

/-- `SECBOOT_SBL_SW_TYPE`. -/
def secbootSblSwType : UInt32 := 0x0

/-- `SECBOOT_APDP_SW_TYPE`. -/
def secbootApdpSwType : UInt32 := 0x200

/-- `SECBOOT_HW_APPS_CODE_SEGMENT`. -/
def secbootHwAppsCodeSegment : UInt32 := 1

/-- `MI_PBT_ELF_PT_LOAD`. -/
def miPbtElfPtLoad : UInt32 := 1

/-- `ELF_CLASS_32`. -/
def elfClass32Value : UInt32 := 1

/-- `ELF_CLASS_64`. -/
def elfClass64Value : UInt32 := 2

/-- The branch `elf_format == ELF_CLASS_32` takes. -/
def formatOf (elfFormat : UInt32) : Format :=
  if elfFormat = elfClass32Value then .elfClass32 else .elfClass64

/-! ## The file header -/

/-- The `e_ident` checks of `sec_img_auth_validate_elf`: magic, class, version. -/
def validateElfIdent (m : Memory) (elfHdr : UInt64) : Except SecImgAuthError Unit :=
  if eIdent m elfHdr 0 ≠ 0x7f ∨ eIdent m elfHdr 1 ≠ 0x45 ∨ eIdent m elfHdr 2 ≠ 0x4c ∨
      eIdent m elfHdr 3 ≠ 0x46 then .error .elfIncorrectMagic
  else if eIdent m elfHdr 4 ≠ 1 ∧ eIdent m elfHdr 4 ≠ 2 then .error .elfInvalidClass
  else if eIdent m elfHdr 6 ≠ 1 then .error .invalidVersion
  else .ok ()

/-- The size checks of `sec_img_auth_validate_elf`, in the class of the header. -/
def validateElfSizes (c : Format) (m : Memory) (elfHdr : UInt64) : Except SecImgAuthError Unit :=
  if (eEhsize c m elfHdr).toUInt32 ≠ c.ehdrSize then .error .elfInvalidEhsize
  else if (ePhentsize c m elfHdr).toUInt32 ≠ c.phdrSize then .error .elfInvalidPhentsize
  else if (ePhnum c m elfHdr).toNat > miPbtMaxSegments then .error .elfInvalidNumSegments
  else .ok ()

/-- `sec_img_auth_validate_elf`. -/
def secImgAuthValidateElf (m : Memory) (elfHdr : UInt64) : Except SecImgAuthError Unit := do
  validateElfIdent m elfHdr
  validateElfSizes (if eIdent m elfHdr 4 = 1 then .elfClass32 else .elfClass64) m elfHdr

/-- `sec_img_auth_get_elf_format`. -/
def secImgAuthGetElfFormat (m : Memory) (elfHdr : UInt64) : Except SecImgAuthError UInt32 :=
  if elfHdr = 0 then .error .invalidArg
  else if eIdent m elfHdr 4 = 1 then .ok elfClass32Value
  else if eIdent m elfHdr 4 = 2 then .ok elfClass64Value
  else .error .elfInvalidClass

/-! ## Segments -/

/-- `sec_img_auth_is_valid_segment`, on the program header at an address. -/
def secImgAuthIsValidSegment (elfFormat : UInt32) (m : Memory) (phdr : UInt64) : Bool :=
  let h := phdrAt (if elfFormat = elfClass64Value then .elfClass64 else .elfClass32) m phdr
  h.p_type == miPbtElfPtLoad &&
    miPbtPageModeValue h.p_flags == miPbtNonPagedSegment &&
    miPbtSegmentTypeValue h.p_flags != miPbtHashSegment &&
    miPbtAccessTypeValue h.p_flags != miPbtNotusedSegment &&
    miPbtAccessTypeValue h.p_flags != miPbtSharedSegment

/-- `&prog_hdr[i]`. -/
def phdrAddr (c : Format) (progHdr : UInt64) (i : Nat) : UInt64 :=
  progHdr + .ofNat (i * c.phdrSize.toNat)

/-- `sec_img_auth_is_valid_area_32` and `_64`. -/
def secImgAuthIsValidArea (whitelist : Option SecImgAuthWhitelistAreaParam) (start stop : UInt64) :
    Bool :=
  match whitelist with
  | none => false
  | some w =>
    match w.area with
    | none => false
    | some areas => (areas.take w.count.toNat).any fun a => a.start ≤ start && stop ≤ a.stop

/-- The segment is loadable, has bytes in the file, and its memory from `start` on is
whitelisted. -/
def isListedSegment (c : Format) (elfFormat : UInt32) (m : Memory) (progHdr : UInt64)
    (whitelist : Option SecImgAuthWhitelistAreaParam) (i : Nat) (start : Elf64Phdr → UInt64) :
    Bool :=
  let h := phdrIndex c m progHdr i
  secImgAuthIsValidSegment elfFormat m (phdrAddr c progHdr i) && h.p_filesz != 0 &&
    secImgAuthIsValidArea whitelist (start h) (c.word (start h + h.p_memsz))

/-- `sec_img_auth_check_address_32` and `_64`. -/
def secImgAuthCheckAddress (c : Format) (address startAddr bytes : UInt64) : Bool :=
  startAddr < c.maxWord - bytes && startAddr ≤ address && address < c.word (startAddr + bytes)

/-- `sec_img_auth_env_allow_skip_RSA`. -/
def secImgAuthEnvAllowSkipRsa (secImgId : UInt32) : Bool :=
  secImgId == secbootSblSwType

/-- The range that the entry check looks up in the whitelist: the 32-bit code takes the virtual
address, the 64-bit code the physical one. -/
def entryRangeStart : Format → Elf64Phdr → UInt64
  | .elfClass32, h => h.p_vaddr
  | .elfClass64, h => h.p_paddr

/-- The loop of the entry check over the program headers that are left. -/
def entryInSegments (c : Format) (m : Memory) (elf : SecImgAuthElfInfo)
    (whitelist : Option SecImgAuthWhitelistAreaParam) : List Nat → Except SecImgAuthError Unit
  | [] => .error .validateImageAreaInvalidEntry
  | i :: rest =>
    let h := phdrIndex c m elf.prog_hdr i
    let entry := eEntry c m elf.elf_hdr
    if c.word (h.p_vaddr + h.p_memsz) < h.p_vaddr then .error .integerOverflow
    else if isListedSegment c elf.elf_format m elf.prog_hdr whitelist i (entryRangeStart c) ∧
        (secImgAuthCheckAddress c entry h.p_paddr h.p_filesz ∨
          secImgAuthCheckAddress c entry h.p_vaddr h.p_filesz) then .ok ()
    else entryInSegments c m elf whitelist rest

/-- `sec_img_auth_validate_elf_entry_32` and `_64`. -/
def secImgAuthValidateElfEntry (c : Format) (secImgId : UInt32) (m : Memory)
    (whitelist : Option SecImgAuthWhitelistAreaParam) (elf : SecImgAuthElfInfo) :
    Except SecImgAuthError Unit :=
  if secImgAuthEnvAllowSkipRsa secImgId then .ok ()
  else entryInSegments c m elf whitelist (List.range (ePhnum c m elf.elf_hdr).toNat)

/-! ## The signature -/

/-- `sec_img_auth_hw_is_auth_enabled`, at the library's `k`-th call of it. -/
def secImgAuthHwIsAuthEnabled (env : SecImgEnv) (k : Nat) :
    Except SecImgAuthError SecImgAuthSecbootInfo :=
  match env.secbootHwIsAuthEnabled k with
  | (.success, enabled) => .ok ⟨enabled, secbootHwAppsCodeSegment⟩
  | (e, _) => .error (.ofSecbootHw e)

/-- `sec_pil_is_signed_image`. -/
def secPilIsSignedImage (elf : SecImgAuthElfInfo) : Bool :=
  elf.sig_sz != 0 && elf.cert_ptr != 0 && elf.cert_sz != 0

/-- A digest that `secboot_hash` computed is compared with the one in the hash array. -/
def compareDigest (env : SecImgEnv) (m : Memory) (message : List UInt8) (hash : UInt64)
    (mismatch : SecImgAuthError) : Except SecImgAuthError Unit :=
  match env.secbootHash message with
  | .success =>
    if m.bytes hash cemlHashDigestSizeSha256.toNat ≠ env.sha256 message then .error mismatch
    else .ok ()
  | e => .error (.ofSecboot e)

/-- `sec_img_auth_elf_headers`. -/
def secImgAuthElfHeaders (env : SecImgEnv) (m : Memory) (elf : SecImgAuthElfInfo) :
    Except SecImgAuthError Unit :=
  let c := formatOf elf.elf_format
  if elf.prog_hdr_num = 0 ∨ elf.hash_seg = 0 ∨ elf.elf_hdr = 0 then .error .invalidArg
  else
    compareDigest env m
      (m.bytes elf.elf_hdr c.ehdrSize.toNat ++
        m.bytes elf.prog_hdr (c.phdrSize.toNat * elf.prog_hdr_num.toNat))
      elf.hash_seg .elfHeadersInvalidDigest

/-- What the secure boot library is told about the image. -/
def imageInfo (secImgId swVersion : UInt32) (elf : SecImgAuthElfInfo) : SecbootImageInfo where
  header_ptr_1 := elf.hash_seg_hdr
  header_len_1 := elf.hash_seg_hdr_sz
  code_ptr_1 := elf.hash_seg
  code_len_1 := elf.hash_array_sz
  signature_ptr := elf.sig_ptr
  signature_len := elf.sig_sz
  sw_type := secImgId
  sw_version := swVersion
  x509_chain_ptr := elf.cert_ptr
  x509_chain_len := elf.cert_sz

/-- The software version is asked for when authentication is enabled. -/
def swVersionIfEnabled (env : SecImgEnv) (secImgId : UInt32) (authInfo : SecImgAuthSecbootInfo) :
    Except SecImgAuthError UInt32 :=
  if authInfo.auth_enabled = 1 then env.secImgAuthGetSwVersion secImgId else .ok 0

/-- `secboot_get_ftbl` and `secboot_hw_get_ftbl`. When the second one fails, the code returns the
status of the first one. -/
def getFtbls (env : SecImgEnv) : Except SecImgAuthError Unit :=
  if env.secbootGetFtbl ≠ .success then .error (.ofSecboot env.secbootGetFtbl)
  else if env.secbootHwGetFtbl ≠ .success then .error (.ofSecboot env.secbootGetFtbl)
  else .ok ()

/-- `sec_img_auth_verify_sig` for images other than the boot loader. -/
def verifySignedImage (env : SecImgEnv) (m : Memory) (secImgId pblReenableDebug : UInt32)
    (elf : SecImgAuthElfInfo) : Except SecImgAuthError Unit := do
  let authInfo ← secImgAuthHwIsAuthEnabled env 1
  if secPilIsSignedImage elf then
    getFtbls env
    let swVersion ← swVersionIfEnabled env secImgId authInfo
    env.secImgAuthAuthenticateImageContext pblReenableDebug (imageInfo secImgId swVersion elf) m
    secImgAuthElfHeaders env m elf
  else .error .failure

/-- `sec_img_auth_verify_sig`. -/
def secImgAuthVerifySig (env : SecImgEnv) (m : Memory) (secImgId pblReenableDebug : UInt32)
    (elf : SecImgAuthElfInfo) : Except SecImgAuthError Unit :=
  if secImgAuthEnvAllowSkipRsa secImgId then .ok ()
  else verifySignedImage env m secImgId pblReenableDebug elf

/-! ## `sec_img_auth_verify_metadata` -/

/-- The L1 key is read once. -/
def cacheL1Key (env : SecImgEnv) : SecImg Unit := do
  let s ← Checked.get
  breakIf (!s.l1_key_cached && env.uieGetL1Key != .success) (.ofUie env.uieGetL1Key)
  update fun s => { s with l1_key_cached := true }

/-- `uie_init` on the encryption header; the context goes into the handle. -/
def openUie (env : SecImgEnv) : SecImg Unit := do
  let s ← Checked.get
  breakIf (!env.uieInit s.s_img_handle.elf.uie_hdr_ptr s.mem) .failure
  update fun s => { s with
    s_img_handle := { s.s_img_handle with uie := some s.uieOpened }
    uieOpened := s.uieOpened + 1 }

/-- It is called when the image is encrypted. -/
def openUieIfEncrypted (env : SecImgEnv) : SecImg Unit := fun s =>
  if uieIsImageEncrypted env s.mem s.s_img_handle.elf.uie_hdr_ptr then openUie env s
  else (.ok (), s)

/-- The class's `populate`, signature check and entry check. -/
def verifyImage (c : Format) (env : SecImgEnv) (secImgId : UInt32) (img : SecImgAuthElfInfoType)
    (whitelist : SecImgAuthWhitelistAreaParam) : SecImg Unit := do
  let s ← Checked.get
  onHandle (populateElfInfo c env s.mem (some img))
  let s ← Checked.get
  breakOn
    (secImgAuthVerifySig env s.mem secImgId s.pbl_enable_debug s.s_img_handle.elf)
  breakOn
    (secImgAuthValidateElfEntry c secImgId s.mem (some whitelist) s.s_img_handle.elf)

/-- The body of `sec_img_auth_verify_metadata` past the argument checks. -/
def verifyMetadataBody (env : SecImgEnv) (secImgId : UInt32) (img : SecImgAuthElfInfoType)
    (whitelist : SecImgAuthWhitelistAreaParam) : SecImg Unit := do
  update fun s => { s with v_info := ⟨0, .unset⟩, s_img_handle := secImgAuthCleanPriv }
  let s ← Checked.get
  breakOn (secImgAuthValidateElf s.mem img.elf_hdr)
  let elfFormat ← breakOn (secImgAuthGetElfFormat s.mem img.elf_hdr)
  setHandle fun h => { h with elf := { h.elf with elf_format := elfFormat } }
  let authInfo ← breakOn (secImgAuthHwIsAuthEnabled env 0)
  setHandle fun h => { h with auth_info := authInfo }
  cacheL1Key env
  verifyImage (formatOf elfFormat) env secImgId img whitelist
  setHandle fun h => { h with elf := { h.elf with whitelist_area := some whitelist } }
  openUieIfEncrypted env
  setHandle fun h => { h with state := .elfAndProgHdrsHashMatch }

/-- The argument checks of `sec_img_auth_verify_metadata`. -/
def verifyMetadataArgs (imgData : Option SecImgAuthElfInfoType)
    (whitelist : Option SecImgAuthWhitelistAreaParam) (vInfo : Option SecImgAuthVerifiedInfo) :
    Option (SecImgAuthElfInfoType × SecImgAuthWhitelistAreaParam) :=
  match imgData, whitelist, vInfo with
  | some img, some w, some _ =>
    if img.elf_hdr = 0 ∨ img.prog_hdr = 0 ∨ img.hash_seg_hdr = 0 then none else some (img, w)
  | _, _, _ => none

/-- How an entry point returns: its status, the globals, and the caller's verified information. -/
structure CallResult where
  ret : Except SecImgAuthError Unit
  state : SecImgState
  v_info : Option SecImgAuthVerifiedInfo

/-- Both entry points end by telling the caller the handle's state. -/
def tellState (s : SecImgState) (vInfo : Option SecImgAuthVerifiedInfo) :
    Option SecImgAuthVerifiedInfo :=
  vInfo.map fun v => { v with state := s.s_img_handle.state }

/-- The end of `sec_img_auth_verify_metadata`: on an error the clean-up, and then the handle's
state for the caller. -/
def finishVerify (ret : Except SecImgAuthError Unit) (s : SecImgState)
    (vInfo : Option SecImgAuthVerifiedInfo) : CallResult :=
  match ret with
  | .ok () => ⟨ret, s, tellState s vInfo⟩
  | .error _ => ⟨ret, cleanUp s, tellState (cleanUp s) vInfo⟩

/-- `sec_img_auth_verify_metadata`. -/
def secImgAuthVerifyMetadata (env : SecImgEnv) (mem : Memory) (secImgId : UInt32)
    (imgData : Option SecImgAuthElfInfoType) (whitelist : Option SecImgAuthWhitelistAreaParam)
    (vInfo : Option SecImgAuthVerifiedInfo) (s : SecImgState) : CallResult :=
  match verifyMetadataArgs imgData whitelist vInfo with
  | none => finishVerify (.error .invalidArg) s vInfo
  | some (img, w) =>
    let run := verifyMetadataBody env secImgId img w ⟨s, mem, vInfo.getD ⟨0, .unset⟩⟩
    finishVerify run.1 run.2.toSecImgState (some run.2.v_info)

/-! ## `sec_img_auth_hash_elf_segments` -/

/-- One round of `sec_img_auth_zero_segments_32` and `_64`, for a loadable segment. -/
def zeroSegment (c : Format) (i : Nat) (h : Elf64Phdr) : SecImg Unit := do
  let s ← Checked.get
  let corrupted := h.p_memsz < h.p_filesz || c.word (h.p_paddr + h.p_memsz) < h.p_paddr
  update fun s =>
    if corrupted then { s with v_info := { s.v_info with ph_segment := .ofNat i } } else s
  breakIf corrupted .corruptedImage
  let len := (h.p_memsz - h.p_filesz).toUInt32
  let listed := secImgAuthIsValidArea s.s_img_handle.elf.whitelist_area h.p_paddr
    (c.word (h.p_paddr + h.p_memsz))
  update fun s =>
    if listed then
      { s with mem := s.mem.store ⟨c.word (h.p_paddr + h.p_filesz), len.toNat⟩ fun _ => 0 }
    else s

/-- The loop of `sec_img_auth_zero_segments`: it reads `e_phnum` and the program header in every
round, from memory that earlier rounds may have written. -/
def zeroSegmentsFrom (c : Format) : Nat → Nat → SecImg Unit
  | 0, _ => pure ()
  | fuel + 1, i => fun s =>
    let elf := s.s_img_handle.elf
    if i < (ePhnum c s.mem elf.elf_hdr).toNat then
      (do
        if secImgAuthIsValidSegment elf.elf_format s.mem (phdrAddr c elf.prog_hdr i) then
          zeroSegment c i (phdrIndex c s.mem elf.prog_hdr i)
        zeroSegmentsFrom c fuel (i + 1)) s
    else (.ok (), s)

/-- `sec_img_auth_zero_segments_32` and `_64`. A 16-bit count leaves at most `2 ^ 16` rounds. -/
def secImgAuthZeroSegments (c : Format) : SecImg Unit :=
  zeroSegmentsFrom c (2 ^ 16) 0

/-- `uie_is_segment_encrypted`, with no context for the null pointer. -/
def segmentEncrypted (env : SecImgEnv) (uie : Option Nat) (segNum : Nat) : Bool :=
  match uie with
  | none => false
  | some ctx => env.uieIsSegmentEncrypted ctx (.ofNat segNum)

/-- An encrypted segment is decrypted in place, and the status compared with the success code of
this library. -/
def authEncryptedSegment (env : SecImgEnv) (ctx segNum : Nat) (hash seg : UInt64)
    (segLen : UInt32) (m : Memory) : Except SecImgAuthError Unit × Memory :=
  let (status, digest, m') := env.uieDecryptSegment ctx (.ofNat segNum) seg segLen m
  if status.code ≠ secImgAuthSuccess then (.error .failure, m')
  else if m'.bytes hash cemlHashDigestSizeSha256.toNat ≠ digest then
    (.error .segmentInvalidDigest, m')
  else (.ok (), m')

/-- `sec_img_auth_segment`. -/
def secImgAuthSegment (env : SecImgEnv) (uie : Option Nat) (hash seg : UInt64) (segLen : UInt32)
    (segNum : Nat) (m : Memory) : Except SecImgAuthError Unit × Memory :=
  if hash = 0 ∨ seg = 0 ∨ segLen = 0 then (.error .invalidArg, m)
  else if segmentEncrypted env uie segNum then
    authEncryptedSegment env (uie.getD 0) segNum hash seg segLen m
  else
    (compareDigest env m (m.bytes seg segLen.toNat) hash .segmentInvalidDigest, m)

/-- `sec_img_auth_segment` on a listed segment, whose index goes to the caller. -/
def authListedSegment (env : SecImgEnv) (hash : UInt64) (i : Nat) (h : Elf64Phdr) :
    SecImg Unit := fun s =>
  let r := secImgAuthSegment env s.s_img_handle.uie hash h.p_paddr h.p_filesz.toUInt32 i s.mem
  (r.1, { s with mem := r.2, v_info := { s.v_info with ph_segment := .ofNat i } })

/-- One round of the loop of `sec_img_auth_segments`. -/
def authSegmentRound (c : Format) (env : SecImgEnv) (hash : UInt64) (i : Nat) : SecImg Unit :=
  fun s =>
    let elf := s.s_img_handle.elf
    let h := phdrIndex c s.mem elf.prog_hdr i
    if c.word (h.p_paddr + h.p_memsz) < h.p_paddr then (.error .integerOverflow, s)
    else if isListedSegment c elf.elf_format s.mem elf.prog_hdr elf.whitelist_area
      i (·.p_paddr) then
      authListedSegment env hash i h s
    else (.ok (), s)

/-- The loop of `sec_img_auth_segments`: the next `n` segments, the first of them segment `i` with
its digest at `hash`. -/
def authSegmentsFrom (c : Format) (env : SecImgEnv) : Nat → Nat → UInt64 → SecImg Unit
  | 0, _, _ => pure ()
  | n + 1, i, hash => do
      authSegmentRound c env hash i
      authSegmentsFrom c env n (i + 1) (hash + cemlHashDigestSizeSha256.toUInt64)

/-- `sec_img_auth_segments`. The first digest is skipped, and with no second one the status is
still the failure it began with. -/
def secImgAuthSegments (env : SecImgEnv) : SecImg Unit := fun s =>
  let elf := s.s_img_handle.elf
  if elf.hash_seg = 0 ∨ elf.hash_array_sz = 0 ∨ elf.prog_hdr_num = 0 then (.error .invalidArg, s)
  else if elf.prog_hdr_num = 1 then (.error .failure, s)
  else
    authSegmentsFrom (formatOf elf.elf_format) env (elf.prog_hdr_num.toNat - 1) 1
      (elf.hash_seg + cemlHashDigestSizeSha256.toUInt64) s

/-- The body of `sec_img_auth_hash_elf_segments` past the argument check. -/
def hashElfSegmentsBody (env : SecImgEnv) : SecImg Unit := do
  let s ← Checked.get
  breakIf (s.s_img_handle.state != .elfAndProgHdrsHashMatch) .stateInvalid
  secImgAuthZeroSegments (formatOf s.s_img_handle.elf.elf_format)
  secImgAuthSegments env
  setHandle fun h => { h with state := .completeSegmentsHashMatch }

/-- The debug policy image is checked after its segments; its entry address is read through the
64-bit header. -/
def initDebugPolicy (env : SecImgEnv) (secImgId : UInt32) (s : CallState)
    (ret : Except SecImgAuthError Unit) : Except SecImgAuthError Unit :=
  match ret with
  | .error e => .error e
  | .ok () =>
    if secImgId = secbootApdpSwType then
      let dbgAddr := eEntry .elfClass64 s.mem s.s_img_handle.elf.elf_hdr &&& 0xffffffff
      if env.secDbgInit dbgAddr then .ok () else .error .secdbgInitFailure
    else .ok ()

/-- `sec_img_auth_hash_elf_segments`, with the memory it leaves. -/
def secImgAuthHashElfSegments (env : SecImgEnv) (mem : Memory) (secImgId : UInt32)
    (vInfo : Option SecImgAuthVerifiedInfo) (s : SecImgState) : CallResult × Memory :=
  match vInfo with
  | none => (⟨.error .invalidArg, cleanUp s, none⟩, mem)
  | some v =>
    let run := hashElfSegmentsBody env ⟨s, mem, v⟩
    let ret := initDebugPolicy env secImgId run.2 run.1
    (⟨ret, cleanUp run.2.toSecImgState, tellState run.2.toSecImgState (some run.2.v_info)⟩,
      run.2.mem)

/-- `sec_img_auth_init`. -/
def secImgAuthInit (pblVerifiedInfo : Option UInt32) (s : SecImgState) :
    Except SecImgAuthError Unit × SecImgState :=
  match pblVerifiedInfo with
  | none => (.error .invalidArg, s)
  | some enableDebug => (.ok (), { s with pbl_enable_debug := enableDebug })

end SecImgAuth
