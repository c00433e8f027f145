import BootXf.Elf.Image
import BootXf.Lib.Checked

/-!
# The image handle

The data of the image authentication library: its error codes, the private handle
`sec_img_auth_priv_t` that lives from a successful metadata check to the end of hashing, the
caller's structures, and the services the library calls (fuses, the secure boot library, the hash
engine, image encryption) as an environment.

An error code is one constructor; the codes the library takes over from secure boot and from image
encryption keep their origin. `SecImgAuthError.code` is the number the C code returns, and no
error's number is the success code.
-/

namespace SecImgAuth

open Lib

/-! ## Error codes -/

/-- `secboot_error_type`, success included. -/
inductive SecbootErrorType
  | success | failure | invalidParam | invalidData | unsupported | rsaFail | hashFail | hwFail
  | x509Fail | invalidCert | invalidCertSig | untrustedRoot | invalidImageSig | invalidSwType
  | invalidSwVersion | invalidMsmHwId | invalidDebug | init | deinit | invalidRootSel
  | invalidCrashDump | invalidInUseSocHwVerOption | invalidOuUseSerialNumberOption
  | invalidSerialNum | invalidOuOemIdIndpOption | serialNumBindingFail | invalidOuUieKeySwitch
  | invalidOuRootRevokeActivateEnable | initCmInfoFail
  deriving DecidableEq, Repr

/-- `secboot_hw_etype`. -/
inductive SecbootHwEtype
  | success | failure | invalidParam | outOfRange | fecError
  deriving DecidableEq, Repr

/-- The statuses of `UIE.h`. -/
inductive UieStatus
  | success | failure | invalidParam | decryptFail | keywrapFail | hashFail | keyReadFail
  | configError | hwGetRotInfoFailure
  deriving DecidableEq, Repr

/-- The numbers of `UIE.h`. -/
def UieStatus.code : UieStatus → UInt32
  | success => 0
  | failure => 1
  | invalidParam => 2
  | decryptFail => 3
  | keywrapFail => 4
  | hashFail => 5
  | keyReadFail => 6
  | configError => 7
  | hwGetRotInfoFailure => 0x1D

/-- `SEC_IMG_AUTH_SUCCESS`. -/
def secImgAuthSuccess : UInt32 := 0x2EC88FF0

/-- The errors of `sec_img_auth_error_type` that the library returns, with the codes it casts from
the secure boot and image encryption libraries. -/
inductive SecImgAuthError
  | failure | invalidArg | elfHeadersInvalidDigest | segmentInvalidDigest | getSwVersionFailed
  | corruptedImage | stateInvalid | miBootInvalidSize | elfIncorrectMagic | elfInvalidClass
  | invalidVersion | elfInvalidEhsize | elfInvalidPhentsize | progTblInvalidSize
  | hashSegInvalidSize | elfHdrInvalidSize | elfInvalidNumSegments
  | miBootInvalidCertChainSize | hashSegTotalInvalidSize | sigInvalidSize | mihdrNotAligned
  | validateImageAreaInvalidEntry | certInvalidSize | hashSegArrayInvalidSize
  | incorrectHashTableSegmentsCount | integerOverflow | secdbgInitFailure
  | ofSecboot (e : SecbootErrorType)
  | ofSecbootHw (e : SecbootHwEtype)
  | ofUie (e : UieStatus)
  deriving DecidableEq, Repr

/-! ## The caller's structures -/

/-- `sec_img_auth_elf_info_type`: where the caller put the image's metadata. -/
structure SecImgAuthElfInfoType where
  elf_hdr : UInt64
  prog_hdr : UInt64
  hash_seg_hdr : UInt64
  deriving DecidableEq, Repr

/-- `sec_img_auth_whitelist_area_t`, its end exclusive. -/
structure SecImgAuthWhitelistArea where
  start : UInt64
  stop : UInt64
  deriving DecidableEq, Repr

/-- `sec_img_auth_whitelist_area_param_t`. -/
structure SecImgAuthWhitelistAreaParam where
  count : UInt32
  area : Option (List SecImgAuthWhitelistArea)
  deriving DecidableEq, Repr

/-- `sec_img_auth_state_et`, and `unset` for the zero of fresh or wiped memory. -/
inductive SecImgAuthState
  | unset | init | elfAndProgHdrsHashMatch | completeSegmentsHashMatch
  deriving DecidableEq, Repr

/-- What the library fills in of `sec_img_auth_verified_info_s`. -/
structure SecImgAuthVerifiedInfo where
  ph_segment : UInt32
  state : SecImgAuthState
  deriving DecidableEq, Repr

/-! ## The private handle -/

/-- `sec_img_auth_secboot_info_t`. -/
structure SecImgAuthSecbootInfo where
  auth_enabled : UInt32
  code_seg : UInt32
  deriving DecidableEq, Repr

/-- `sec_img_auth_elf_info_t`. The union of the header pointers of both classes is one pair. -/
structure SecImgAuthElfInfo where
  elf_format : UInt32
  elf_hdr : UInt64
  prog_hdr : UInt64
  prog_hdr_num : UInt32
  hash_seg_hdr : UInt64
  hash_seg_hdr_sz : UInt32
  hash_seg : UInt64
  hash_array_sz : UInt32
  sig_ptr : UInt64
  sig_sz : UInt32
  cert_ptr : UInt64
  cert_sz : UInt32
  uie_hdr_ptr : UInt64
  whitelist_area : Option SecImgAuthWhitelistAreaParam
  deriving DecidableEq, Repr

/-- `sec_img_auth_elf_info_t` after `MEMSET`. -/
def SecImgAuthElfInfo.zero : SecImgAuthElfInfo :=
  ⟨0, 0, 0, 0, 0, 0, 0, 0, 0, 0, 0, 0, 0, none⟩

/-- `sec_img_auth_priv_t`. A context of the encryption library is named by the number of its
allocation. -/
structure SecImgAuthPriv where
  elf : SecImgAuthElfInfo
  img_id : UInt32
  state : SecImgAuthState
  auth_info : SecImgAuthSecbootInfo
  uie : Option Nat
  deriving DecidableEq, Repr

/-- The handle in fresh memory. -/
def SecImgAuthPriv.zero : SecImgAuthPriv :=
  ⟨.zero, 0, .unset, ⟨0, 0⟩, none⟩

/-- `sec_img_auth_clean_priv`: everything zero, the state back to `INIT`. -/
def secImgAuthCleanPriv : SecImgAuthPriv :=
  { SecImgAuthPriv.zero with state := .init }

/-! ## Services -/

/-- `secboot_image_info_type`: what is handed to the secure boot library. -/
structure SecbootImageInfo where
  header_ptr_1 : UInt64
  header_len_1 : UInt32
  code_ptr_1 : UInt64
  code_len_1 : UInt32
  signature_ptr : UInt64
  signature_len : UInt32
  sw_type : UInt32
  sw_version : UInt32
  x509_chain_ptr : UInt64
  x509_chain_len : UInt32
  deriving DecidableEq, Repr

/-- What the library calls: the fuses and the secure boot library, the hash engine, the image
encryption library, the debug policy. Each call of the library has an environment of its own, so
any of these may fail in any call. -/
structure SecImgEnv where
  /-- `secboot_hw_is_auth_enabled`, at its first and its second call. -/
  secbootHwIsAuthEnabled : Nat → SecbootHwEtype × UInt32
  secbootGetFtbl : SecbootErrorType
  secbootHwGetFtbl : SecbootHwEtype
  secImgAuthGetSwVersion : UInt32 → Except SecImgAuthError UInt32
  /-- `sec_img_auth_authenticate_image_context`, on `pbl_reenable_debug` and the image. -/
  secImgAuthAuthenticateImageContext :
    UInt32 → SecbootImageInfo → Memory → Except SecImgAuthError Unit
  /-- The digest that `secboot_hash` computes when the engine works. -/
  sha256 : List UInt8 → List UInt8
  /-- How the hash engine fares on a message. -/
  secbootHash : List UInt8 → SecbootErrorType
  uieIsImageEncryptionFuseEnabled : Bool
  uieGetL1Key : UieStatus
  /-- `uie_init` accepts the encryption header at an address. -/
  uieInit : UInt64 → Memory → Bool
  uieIsSegmentEncrypted : Nat → UInt8 → Bool
  /-- `uie_decrypt_segment`: status, digest, and memory with the segment decrypted in place. -/
  uieDecryptSegment : Nat → UInt8 → UInt64 → UInt32 → Memory → UieStatus × List UInt8 × Memory
  /-- `sec_dbg_init` accepts the debug policy at an address. -/
  secDbgInit : UInt64 → Bool

/-- `UIE_ENC_PARAM_INFO_HDR_MAGIC_NUMBER`. -/
def uieEncParamInfoHdrMagicNumber : UInt32 := 0x514d5349

/-- `uie_is_image_encrypted`. -/
def uieIsImageEncrypted (env : SecImgEnv) (m : Memory) (headerAddress : UInt64) : Bool :=
  env.uieIsImageEncryptionFuseEnabled && headerAddress != 0 &&
    m.u32 headerAddress == uieEncParamInfoHdrMagicNumber

end SecImgAuth
