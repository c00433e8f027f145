import BootXf.SecImgAuth.Handle

/-!
# Reading the image metadata

`sec_img_auth_populate_elf_info_32` and `_64` with the validators they call. The two classes run
the same code over their own header layouts and address types, so each function is written once
over the class and the two members are its instances; what one class checks and the other does not
(a program header table whose end lies below its start) stands in the body.
-/

namespace SecImgAuth

open Lib Elf Checked

/-- `sizeof(mi_boot_image_header_type)`. -/
def miBootImageHeaderSize : UInt32 := 40

/-- `CEML_HASH_DIGEST_SIZE_SHA256`. -/
def cemlHashDigestSizeSha256 : UInt32 := 32

/-- `SEC_IMG_AUTH_PAGE_2K`. -/
def secImgAuthPage2K : UInt32 := 2800

/-- `SECBOOT_MAX_CERT_CHAIN_SIZE`. -/
def secbootMaxCertChainSize : UInt32 := 9216

/-- `UIE_ENCRYPTION_HEADER_LEN`. -/
def uieEncryptionHeaderLen : UInt32 := 208

/-- The fields of `mi_boot_image_header_type` that are not reserved. -/
structure MiBootImageHeader where
  image_size : UInt32
  code_size : UInt32
  signature_size : UInt32
  cert_chain_size : UInt32
  deriving DecidableEq, Repr

/-- The `mi_boot_image_header_type` at an address. -/
def miBootImageHeaderAt (m : Memory) (a : UInt64) : MiBootImageHeader where
  image_size := m.u32 (a + 16)
  code_size := m.u32 (a + 20)
  signature_size := m.u32 (a + 28)
  cert_chain_size := m.u32 (a + 36)

/-! ## The program header table -/

/-- The program headers from `phdr` up to `stop`, as the pointer loops of both classes visit
them. -/
def phdrsBetween (c : Format) (m : Memory) (phdr stop : UInt64) : List Elf64Phdr :=
  if phdr ≤ stop then
    (List.range ((stop - phdr).toNat / c.phdrSize.toNat)).map (phdrIndex c m phdr)
  else []

/-- The loops are not entered on a null table; the 32-bit code also refuses a table whose end lies
below its start. -/
def phdrTableRefused (c : Format) (phdr stop : UInt64) : Bool :=
  phdr == 0 || stop == 0 || (c == .elfClass32 && decide (stop < phdr))

/-- `sec_img_auth_elf_find_seg_32` and `_64`. -/
def elfFindSeg (c : Format) (m : Memory) (phdr stop : UInt64) (segFlags : UInt32) :
    Option Elf64Phdr :=
  if phdrTableRefused c phdr stop then none
  else (phdrsBetween c m phdr stop).find? fun h => miPbtSegmentTypeValue h.p_flags == segFlags

/-- `sec_img_auth_validate_hash_segment_entries_32` and `_64`. -/
def validateHashSegmentEntries (c : Format) (m : Memory) (phdr stop : UInt64)
    (segFlags : UInt32) : Except SecImgAuthError Unit :=
  if phdrTableRefused c phdr stop then .error .failure
  else if (phdrsBetween c m phdr stop).countP
      (fun h => miPbtSegmentTypeValue h.p_flags == segFlags) = 1 then .ok ()
  else .error .incorrectHashTableSegmentsCount

/-! ## The validators -/

/-- The bytes that round a length up to a multiple of four. -/
def padLen (totalLen : UInt32) : UInt32 :=
  if totalLen % 4 = 0 then 0 else 4 - totalLen % 4

/-- `sec_img_auth_validate_mi_boot`. -/
def secImgAuthValidateMiBoot (m : Memory) (mi : UInt64) : Except SecImgAuthError Unit :=
  if mi = 0 then .error .invalidArg
  else
    let h := miBootImageHeaderAt m mi
    if h.cert_chain_size > secbootMaxCertChainSize then .error .miBootInvalidCertChainSize
    else
      let codeAndCert := h.code_size + h.cert_chain_size
      if codeAndCert < h.cert_chain_size then .error .miBootInvalidSize
      else
        let totalLen := codeAndCert + h.signature_size
        if totalLen < h.signature_size then .error .miBootInvalidSize
        else if totalLen + padLen totalLen < padLen totalLen then .error .miBootInvalidSize
        else if totalLen + padLen totalLen ≠ h.image_size then .error .miBootInvalidSize
        else .ok ()

/-- The expected size of the hash segment, in 32-bit arithmetic. -/
def expHashSegSz (env : SecImgEnv) (m : Memory) (elf : SecImgAuthElfInfo) : UInt32 :=
  let sum := elf.hash_seg_hdr_sz + elf.hash_array_sz + elf.sig_sz + elf.cert_sz
  if uieIsImageEncrypted env m elf.uie_hdr_ptr then sum + uieEncryptionHeaderLen else sum

/-- `prog_tbl_sz`. -/
def progTblSz (c : Format) (m : Memory) (elfHdr : UInt64) : UInt32 :=
  c.phdrSize * (ePhnum c m elfHdr).toUInt32

/-- `sec_img_auth_validate_hash_segment_len_32` and `_64`. -/
def validateHashSegmentLen (c : Format) (env : SecImgEnv) (m : Memory) (elf : SecImgAuthElfInfo) :
    Except SecImgAuthError Unit :=
  let tblSz := (progTblSz c m elf.elf_hdr).toUInt64
  if c.word (c.word elf.prog_hdr + tblSz) < c.word elf.prog_hdr then .error .hashSegInvalidSize
  else
    match elfFindSeg c m elf.prog_hdr (elf.prog_hdr + tblSz) miPbtHashSegment with
    | none => .error .hashSegInvalidSize
    | some hashProgHdr =>
      if hashProgHdr.p_filesz ≠ (expHashSegSz env m elf).toUInt64 then .error .hashSegInvalidSize
      else .ok ()

/-! ## Populating the handle -/

/-- The handle's image information is assigned. -/
def setElf (f : SecImgAuthElfInfo → SecImgAuthElfInfo) :
    Checked SecImgAuthPriv SecImgAuthError Unit :=
  update fun h => { h with elf := f h.elf }

/-- The sizes of the metadata's parts are each within a page, and so is their sum. -/
def checkMetadataSizes (elfHdrSz tblSz hashSegHdrSz hashArraySz : UInt32) :
    Checked SecImgAuthPriv SecImgAuthError Unit := do
  breakIf (elfHdrSz > secImgAuthPage2K || tblSz > secImgAuthPage2K ||
    hashSegHdrSz > secImgAuthPage2K || hashArraySz > secImgAuthPage2K) .elfHdrInvalidSize
  breakIf (elfHdrSz + tblSz + hashSegHdrSz + hashArraySz > secImgAuthPage2K)
    .elfHdrInvalidSize

/-- Signature and certificate chain are located behind the hash array. -/
def locateSignature (c : Format) (hashArrayEnd : UInt64) (sigSz certSz : UInt32) :
    Checked SecImgAuthPriv SecImgAuthError Unit := do
  setElf fun e => { e with sig_ptr := hashArrayEnd }
  breakIf (c.word (c.word hashArrayEnd + sigSz.toUInt64) < c.word hashArrayEnd)
    .sigInvalidSize
  let certPtr := hashArrayEnd + sigSz.toUInt64
  setElf fun e => { e with cert_ptr := certPtr }
  breakIf (c.word (c.word certPtr + certSz.toUInt64) < c.word certPtr) .certInvalidSize

/-- They are located when both have a size. -/
def locateSignatureIfSigned (c : Format) (hashArrayEnd : UInt64) (sigSz certSz : UInt32) :
    Checked SecImgAuthPriv SecImgAuthError Unit :=
  if sigSz > 0 ∧ certSz > 0 then locateSignature c hashArrayEnd sigSz certSz else pure ()

/-- `sec_img_auth_populate_elf_info_32` and `_64`, past the null checks. -/
def populateFrom (c : Format) (env : SecImgEnv) (m : Memory) (img : SecImgAuthElfInfoType) :
    Checked SecImgAuthPriv SecImgAuthError Unit := do
  let phnum := ePhnum c m img.elf_hdr
  let tblSz := progTblSz c m img.elf_hdr
  breakIf (tblSz.toUInt64 != c.phdrSize.toUInt64 * phnum.toUInt64) .progTblInvalidSize
  breakIf (tblSz > .ofNat miPbtMaxSegments * c.phdrSize) .progTblInvalidSize
  breakIf (c.word (c.word img.prog_hdr + tblSz.toUInt64) < c.word img.prog_hdr)
    .hashSegInvalidSize
  breakOn
    (validateHashSegmentEntries c m img.prog_hdr (img.prog_hdr + tblSz.toUInt64) miPbtHashSegment)
  let hashSegHdrAddr := c.word img.hash_seg_hdr
  let hashSegAddr := c.word (hashSegHdrAddr + miBootImageHeaderSize.toUInt64)
  let hashArraySz := phnum.toUInt32 * cemlHashDigestSizeSha256
  breakIf (hashSegAddr < hashSegHdrAddr) .hashSegInvalidSize
  breakIf (c.word (hashSegAddr + hashArraySz.toUInt64) < hashSegAddr)
    .hashSegTotalInvalidSize
  breakIf (hashArraySz > .ofNat miPbtMaxSegments * cemlHashDigestSizeSha256)
    .hashSegInvalidSize
  checkMetadataSizes c.ehdrSize tblSz miBootImageHeaderSize hashArraySz
  setElf fun e => { e with
    elf_hdr := img.elf_hdr
    prog_hdr := img.prog_hdr
    prog_hdr_num := phnum.toUInt32
    hash_seg_hdr := img.hash_seg_hdr
    hash_seg_hdr_sz := miBootImageHeaderSize
    hash_seg := hashSegAddr
    hash_array_sz := hashArraySz }
  breakIf (img.hash_seg_hdr.toUInt32 &&& 3 != 0) .mihdrNotAligned
  let mi := miBootImageHeaderAt m img.hash_seg_hdr
  breakOn (secImgAuthValidateMiBoot m img.hash_seg_hdr)
  setElf fun e => { e with sig_sz := mi.signature_size, cert_sz := mi.cert_chain_size }
  let hashArrayEnd := hashSegAddr + hashArraySz.toUInt64
  locateSignatureIfSigned c hashArrayEnd mi.signature_size mi.cert_chain_size
  setElf fun e => { e with
    uie_hdr_ptr := hashArrayEnd + mi.signature_size.toUInt64 + mi.cert_chain_size.toUInt64 }
  breakIf (mi.code_size != hashArraySz) .hashSegArrayInvalidSize
  let handle ← Checked.get
  breakOn (validateHashSegmentLen c env m handle.elf)

/-- The body of both members. -/
def populateElfInfo (c : Format) (env : SecImgEnv) (m : Memory) :
    Option SecImgAuthElfInfoType → Checked SecImgAuthPriv SecImgAuthError Unit
  | none => Checked.fail .invalidArg
  | some img => do
      breakIf (img.elf_hdr == 0 || img.hash_seg_hdr == 0) .invalidArg
      populateFrom c env m img

/-- `sec_img_auth_populate_elf_info_64`. -/
abbrev secImgAuthPopulateElfInfo64 := populateElfInfo .elfClass64

end SecImgAuth
