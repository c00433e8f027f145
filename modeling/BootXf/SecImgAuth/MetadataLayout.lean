import BootXf.SecImgAuth.ElfInfo

/-!
# The layout of accepted metadata

What it takes for `sec_img_auth_populate_elf_info` to accept an image, read off its checks
(`populateFrom_ok`), and what follows for the parts of the hash segment in the 64-bit class: MI
header, hash array, signature, certificate chain and encryption header.

The parts are contiguous and inside the hash segment exactly when the 32-bit sum that
`sec_img_auth_validate_hash_segment_len_64` compares with `p_filesz` does not wrap, and signature
and certificate chain are both there or both absent. The sum has no overflow check, unlike every
other sum of the two validators; and the pointers of a signature without certificates, or of
certificates without a signature, are never set.
-/

namespace SecImgAuth

open Lib Elf List Checked

section
variable {c : Format} {env : SecImgEnv} {m : Memory} {img : SecImgAuthElfInfoType} {u : Unit}
  {h h' : SecImgAuthPriv}

/-! ## What the checks say -/

/-- The number of bytes that round up to a multiple of four is below four. -/
theorem padLen_lt (n : UInt32) : (padLen n).toNat < 4 := by
  unfold padLen
  split
  · decide
  · rename_i hne
    have h4 : (4 : UInt32).toNat = 4 := rfl
    have hmod : (n % 4).toNat = n.toNat % 4 := UInt32.toNat_mod n 4
    have hpos : (n % 4).toNat ≠ 0 := fun h => hne (UInt32.toNat_inj.mp h)
    rw [UInt32.toNat_sub_of_le _ _ (by rw [UInt32.le_iff_toNat_le]; omega)]
    omega

/-- The header's own sizes, padded to a multiple of four, add up to the image size. -/
def MiBootImageHeader.SizesSum (h : MiBootImageHeader) : Prop :=
  h.code_size.toNat + h.cert_chain_size.toNat + h.signature_size.toNat +
      (padLen (h.code_size + h.cert_chain_size + h.signature_size)).toNat = h.image_size.toNat

/-- The validator's overflow checks are enough: the sizes of an accepted header add up as natural
numbers. -/
theorem validateMiBoot_ok {mi : UInt64} (hok : secImgAuthValidateMiBoot m mi = .ok ()) :
    (miBootImageHeaderAt m mi).SizesSum := by
  simp only [secImgAuthValidateMiBoot] at hok
  generalize miBootImageHeaderAt m mi = h at hok ⊢
  split at hok
  · cases hok
  split at hok
  · cases hok
  split at hok
  · cases hok
  split at hok
  · cases hok
  split at hok
  · cases hok
  split at hok
  · cases hok
  rename_i hcode hsig hpad hsize
  have hlt := padLen_lt (h.code_size + h.cert_chain_size + h.signature_size)
  have h₁ := h.code_size.toNat_lt
  have h₂ := h.cert_chain_size.toNat_lt
  have h₃ := h.signature_size.toNat_lt
  have hsum := congrArg UInt32.toNat (Decidable.not_not.mp hsize)
  unfold MiBootImageHeader.SizesSum
  generalize padLen (h.code_size + h.cert_chain_size + h.signature_size) = p at *
  simp only [UInt32.lt_iff_toNat_lt, UInt32.toNat_add] at hcode hsig hpad hsum
  omega

/-- The hash segment's program header has the size that was expected. -/
theorem validateHashSegmentLen_ok {elf : SecImgAuthElfInfo}
    (hok : validateHashSegmentLen c env m elf = .ok u) :
    ∃ hashProgHdr,
      elfFindSeg c m elf.prog_hdr (elf.prog_hdr + (progTblSz c m elf.elf_hdr).toUInt64)
          miPbtHashSegment = some hashProgHdr ∧
        hashProgHdr.p_filesz = (expHashSegSz env m elf).toUInt64 := by
  simp only [validateHashSegmentLen] at hok
  split at hok
  · cases hok
  split at hok
  · cases hok
  rename_i p hfind
  split at hok
  · cases hok
  rename_i hsize
  exact ⟨p, hfind, Decidable.not_not.mp hsize⟩

/-- The address of the hash array. -/
def hashSegAddr (c : Format) (img : SecImgAuthElfInfoType) : UInt64 :=
  c.word (c.word img.hash_seg_hdr + miBootImageHeaderSize.toUInt64)

/-- The size of the hash array. -/
def hashArraySz (c : Format) (m : Memory) (img : SecImgAuthElfInfoType) : UInt32 :=
  (ePhnum c m img.elf_hdr).toUInt32 * cemlHashDigestSizeSha256

/-- The address behind the hash array. -/
def hashArrayEnd (c : Format) (m : Memory) (img : SecImgAuthElfInfoType) : UInt64 :=
  hashSegAddr c img + (hashArraySz c m img).toUInt64

/-- Signature and certificate chain both have a size. -/
def Signed (mi : MiBootImageHeader) : Prop :=
  mi.signature_size > 0 ∧ mi.cert_chain_size > 0

instance (mi : MiBootImageHeader) : Decidable (Signed mi) :=
  inferInstanceAs (Decidable (_ ∧ _))

/-- The image information that an accepted image leaves in the handle. -/
def populated (c : Format) (m : Memory) (img : SecImgAuthElfInfoType) (e : SecImgAuthElfInfo) :
    SecImgAuthElfInfo :=
  let mi := miBootImageHeaderAt m img.hash_seg_hdr
  { e with
    elf_hdr := img.elf_hdr
    prog_hdr := img.prog_hdr
    prog_hdr_num := (ePhnum c m img.elf_hdr).toUInt32
    hash_seg_hdr := img.hash_seg_hdr
    hash_seg_hdr_sz := miBootImageHeaderSize
    hash_seg := hashSegAddr c img
    hash_array_sz := hashArraySz c m img
    sig_ptr := if Signed mi then hashArrayEnd c m img else e.sig_ptr
    sig_sz := mi.signature_size
    cert_ptr :=
      if Signed mi then hashArrayEnd c m img + mi.signature_size.toUInt64 else e.cert_ptr
    cert_sz := mi.cert_chain_size
    uie_hdr_ptr :=
      hashArrayEnd c m img + mi.signature_size.toUInt64 + mi.cert_chain_size.toUInt64 }

section
variable (e : SecImgAuthElfInfo)

@[simp] theorem populated_hash_seg_hdr : (populated c m img e).hash_seg_hdr = img.hash_seg_hdr :=
  rfl
@[simp] theorem populated_hash_seg_hdr_sz :
    (populated c m img e).hash_seg_hdr_sz = miBootImageHeaderSize := rfl
@[simp] theorem populated_hash_seg : (populated c m img e).hash_seg = hashSegAddr c img := rfl
@[simp] theorem populated_hash_array_sz :
    (populated c m img e).hash_array_sz = hashArraySz c m img := rfl
@[simp] theorem populated_sig_sz : (populated c m img e).sig_sz =
    (miBootImageHeaderAt m img.hash_seg_hdr).signature_size := rfl
@[simp] theorem populated_cert_sz : (populated c m img e).cert_sz =
    (miBootImageHeaderAt m img.hash_seg_hdr).cert_chain_size := rfl
@[simp] theorem populated_elf_hdr : (populated c m img e).elf_hdr = img.elf_hdr := rfl
@[simp] theorem populated_prog_hdr : (populated c m img e).prog_hdr = img.prog_hdr := rfl
@[simp] theorem populated_prog_hdr_num :
    (populated c m img e).prog_hdr_num = (ePhnum c m img.elf_hdr).toUInt32 := rfl
@[simp] theorem populated_uie_hdr_ptr : (populated c m img e).uie_hdr_ptr =
    hashArrayEnd c m img + (miBootImageHeaderAt m img.hash_seg_hdr).signature_size.toUInt64 +
      (miBootImageHeaderAt m img.hash_seg_hdr).cert_chain_size.toUInt64 := rfl

theorem populated_of_signed (hs : Signed (miBootImageHeaderAt m img.hash_seg_hdr)) :
    (populated c m img e).sig_ptr = hashArrayEnd c m img ∧
      (populated c m img e).cert_ptr = hashArrayEnd c m img +
        (miBootImageHeaderAt m img.hash_seg_hdr).signature_size.toUInt64 :=
  ⟨if_pos hs, if_pos hs⟩

theorem populated_of_not_signed (hs : ¬ Signed (miBootImageHeaderAt m img.hash_seg_hdr)) :
    (populated c m img e).sig_ptr = e.sig_ptr ∧ (populated c m img e).cert_ptr = e.cert_ptr :=
  ⟨if_neg hs, if_neg hs⟩

end

/-- What the checks that the layout rests on have established of an accepted image. -/
structure MetadataAccepted (c : Format) (env : SecImgEnv) (m : Memory)
    (img : SecImgAuthElfInfoType) (elf : SecImgAuthElfInfo) : Prop where
  phnum_le : (ePhnum c m img.elf_hdr).toNat ≤ 40
  tableInside :
    ¬ c.word (c.word img.prog_hdr + (progTblSz c m img.elf_hdr).toUInt64) < c.word img.prog_hdr
  oneHashSegment : validateHashSegmentEntries c m img.prog_hdr
    (img.prog_hdr + (progTblSz c m img.elf_hdr).toUInt64) miPbtHashSegment = .ok ()
  headerInside : ¬ hashSegAddr c img < c.word img.hash_seg_hdr
  hashesInside :
    ¬ c.word (hashSegAddr c img + (hashArraySz c m img).toUInt64) < hashSegAddr c img
  miBoot : secImgAuthValidateMiBoot m img.hash_seg_hdr = .ok ()
  signatureInside : Signed (miBootImageHeaderAt m img.hash_seg_hdr) →
    ¬ c.word (c.word elf.sig_ptr + elf.sig_sz.toUInt64) < c.word elf.sig_ptr
  certsInside : Signed (miBootImageHeaderAt m img.hash_seg_hdr) →
    ¬ c.word (c.word elf.cert_ptr + elf.cert_sz.toUInt64) < c.word elf.cert_ptr
  segmentLen : validateHashSegmentLen c env m elf = .ok ()

theorem locateSignatureIfSigned_ok {stop : UInt64} {mi : MiBootImageHeader}
    (hok : locateSignatureIfSigned c stop mi.signature_size mi.cert_chain_size h = (.ok u, h')) :
    h' = { h with elf := { h.elf with
        sig_ptr := if Signed mi then stop else h.elf.sig_ptr
        cert_ptr :=
          if Signed mi then stop + mi.signature_size.toUInt64 else h.elf.cert_ptr } } ∧
      (Signed mi →
        ¬ c.word (c.word stop + mi.signature_size.toUInt64) < c.word stop ∧
        ¬ c.word (c.word (stop + mi.signature_size.toUInt64) + mi.cert_chain_size.toUInt64)
            < c.word (stop + mi.signature_size.toUInt64)) := by
  unfold locateSignatureIfSigned at hok
  by_cases hs : Signed mi
  · rw [if_pos (show _ ∧ _ from hs)] at hok
    simp only [locateSignature, setElf, bind_ok, update_ok, breakIf_ok,
      decide_eq_false_iff_not] at hok
    obtain ⟨_, _, rfl, _, _, ⟨hsig, rfl⟩, _, _, rfl, hcert, rfl⟩ := hok
    rw [if_pos hs, if_pos hs]
    exact ⟨rfl, fun _ => ⟨hsig, hcert⟩⟩
  · rw [if_neg (show ¬ (_ ∧ _) from hs)] at hok
    obtain ⟨-, rfl⟩ := pure_ok.mp hok
    rw [if_neg hs, if_neg hs]
    exact ⟨rfl, fun h => absurd h hs⟩

/-- **What an accepted image has passed**, and what the handle then holds. -/
theorem populateFrom_ok (hok : populateFrom c env m img h = (.ok u, h')) :
    h' = { h with elf := populated c m img h.elf } ∧
      MetadataAccepted c env m img (populated c m img h.elf) := by
  simp only [populateFrom, checkMetadataSizes, setElf, bind_ok, breakIf_ok,
    breakOn_ok, update_ok, get_ok, exists_and_left, exists_and_right,
    exists_eq_left', exists_const, and_assoc, decide_eq_false_iff_not] at hok
  obtain ⟨-, htbl, htable, ⟨_, hone⟩, hhdr, hhashes, harr, -, -, -, ⟨_, hmi⟩, _, h₁, hloc, -,
    hlen, rfl⟩ := hok
  obtain ⟨rfl, hsigned⟩ := locateSignatureIfSigned_ok hloc
  refine ⟨rfl, ?_, htable, hone, hhdr, hhashes, hmi, fun hs => ?_, fun hs => ?_, hlen⟩
  · have hn := (ePhnum c m img.elf_hdr).toNat_lt
    simp only [gt_iff_lt, UInt32.lt_iff_toNat_lt, UInt32.toNat_mul, UInt16.toNat_toUInt32,
      show cemlHashDigestSizeSha256.toNat = 32 from rfl] at harr
    have : (UInt32.ofNat miPbtMaxSegments).toNat = 40 := rfl
    omega
  · simp only [populated, if_pos hs]
    exact (hsigned hs).1
  · simp only [populated, if_pos hs]
    exact (hsigned hs).2

end

/-! ## The one hash segment -/

section
variable {env : SecImgEnv} {m : Memory} {img : SecImgAuthElfInfoType} {lo hi : Nat}
  {elf : SecImgAuthElfInfo}

/-- The `i`-th program header is the hash segment's. -/
def IsHashSegment (m : Memory) (img : SecImgAuthElfInfoType) (i : Nat) : Prop :=
  i < (ePhnum .elfClass64 m img.elf_hdr).toNat ∧
    miPbtSegmentTypeValue (phdrIndex .elfClass64 m img.prog_hdr i).p_flags = miPbtHashSegment

/-- A table that does not run past the top of the address space has one entry for each program
header. -/
theorem phdrsBetween_eq
    (htable : ¬ img.prog_hdr + (progTblSz .elfClass64 m img.elf_hdr).toUInt64 < img.prog_hdr) :
    phdrsBetween .elfClass64 m img.prog_hdr
        (img.prog_hdr + (progTblSz .elfClass64 m img.elf_hdr).toUInt64) =
      (List.range (ePhnum .elfClass64 m img.elf_hdr).toNat).map
        (phdrIndex .elfClass64 m img.prog_hdr) := by
  have hn := (ePhnum .elfClass64 m img.elf_hdr).toNat_lt
  have hsz : (progTblSz .elfClass64 m img.elf_hdr).toUInt64.toNat =
      56 * (ePhnum .elfClass64 m img.elf_hdr).toNat := by
    have h56 : (Format.phdrSize .elfClass64).toNat = 56 := rfl
    rw [UInt32.toNat_toUInt64, progTblSz, UInt32.toNat_mul, UInt16.toNat_toUInt32, h56]
    omega
  have hle : img.prog_hdr ≤ img.prog_hdr + (progTblSz .elfClass64 m img.elf_hdr).toUInt64 :=
    UInt64.not_lt.mp htable
  have hsub : (img.prog_hdr + (progTblSz .elfClass64 m img.elf_hdr).toUInt64 - img.prog_hdr) =
      (progTblSz .elfClass64 m img.elf_hdr).toUInt64 := by
    rw [UInt64.add_comm, UInt64.add_sub_cancel]
  rw [phdrsBetween, if_pos hle, hsub, hsz, show (Format.phdrSize .elfClass64).toNat = 56 from rfl,
    Nat.mul_div_cancel_left _ (by decide : 0 < 56)]

/-- An accepted table has exactly one hash segment, and it is the one that is looked up. -/
theorem hashSegment_unique
    (htable : ¬ img.prog_hdr + (progTblSz .elfClass64 m img.elf_hdr).toUInt64 < img.prog_hdr)
    (hone : validateHashSegmentEntries .elfClass64 m img.prog_hdr
      (img.prog_hdr + (progTblSz .elfClass64 m img.elf_hdr).toUInt64) miPbtHashSegment = .ok ())
    {p : Elf64Phdr} (hfind : elfFindSeg .elfClass64 m img.prog_hdr
      (img.prog_hdr + (progTblSz .elfClass64 m img.elf_hdr).toUInt64) miPbtHashSegment = some p) :
    ∃ i, IsHashSegment m img i ∧ (∀ j, IsHashSegment m img j → j = i) ∧
      p = phdrIndex .elfClass64 m img.prog_hdr i := by
  unfold validateHashSegmentEntries at hone
  unfold elfFindSeg at hfind
  split at hone
  · cases hone
  split at hone
  · rename_i href hcount
    rw [if_neg href] at hfind
    rw [phdrsBetween_eq htable] at hcount hfind
    rw [countP_map, countP_eq_length_filter, length_eq_one_iff] at hcount
    obtain ⟨i, hi⟩ := hcount
    have hmem : ∀ j, IsHashSegment m img j ↔ j = i := by
      intro j
      rw [← mem_singleton, ← hi, mem_filter, mem_range]
      simp [IsHashSegment]
    obtain ⟨j, hj, rfl⟩ := mem_map.mp (mem_of_find?_eq_some hfind)
    have htype := find?_some hfind
    have hji := (hmem j).mp ⟨mem_range.mp hj, by simpa using htype⟩
    exact ⟨i, (hmem i).mpr rfl, fun j hj => (hmem j).mp hj, by rw [hji]⟩
  · cases hone

/-! ## The parts of the hash segment -/

/-- A part that is there when it has a size. -/
def partAt (base : UInt64) (len : UInt32) : List Span :=
  if 0 < len then [⟨base.toNat, len.toNat⟩] else []

/-- The encryption header, if the image has one. -/
def encryptionPart (env : SecImgEnv) (m : Memory) (elf : SecImgAuthElfInfo) : List Span :=
  if uieIsImageEncrypted env m elf.uie_hdr_ptr then
    [⟨elf.uie_hdr_ptr.toNat, uieEncryptionHeaderLen.toNat⟩]
  else []

/-- MI header, hash array, signature, certificate chain and encryption header, where the handle
locates them. -/
def metadataParts (env : SecImgEnv) (m : Memory) (elf : SecImgAuthElfInfo) : List Span :=
  [⟨elf.hash_seg_hdr.toNat, elf.hash_seg_hdr_sz.toNat⟩,
    ⟨elf.hash_seg.toNat, elf.hash_array_sz.toNat⟩] ++
  (partAt elf.sig_ptr elf.sig_sz ++
    (partAt elf.cert_ptr elf.cert_sz ++ encryptionPart env m elf))

/-- The length of the encryption header, or zero. -/
def encryptionLen (env : SecImgEnv) (m : Memory) (elf : SecImgAuthElfInfo) : Nat :=
  if uieIsImageEncrypted env m elf.uie_hdr_ptr then uieEncryptionHeaderLen.toNat else 0

/-- The sizes of all parts together, as a natural number. -/
def metadataLen (env : SecImgEnv) (m : Memory) (elf : SecImgAuthElfInfo) : Nat :=
  elf.hash_seg_hdr_sz.toNat + elf.hash_array_sz.toNat + elf.sig_sz.toNat + elf.cert_sz.toNat +
    encryptionLen env m elf

/-- The layout that the hash segment of an image is meant to have: the parts follow one another
from the MI header on, do not overlap and lie inside the hash segment, with one hash for each
program header; and neither the sizes in the MI header nor those of the parts wrap when added. -/
structure MetadataLaidOut (env : SecImgEnv) (m : Memory) (elf : SecImgAuthElfInfo)
    (hashProgHdr : Elf64Phdr) : Prop where
  contiguous : ∃ stop, Span.Chain elf.hash_seg_hdr.toNat (metadataParts env m elf) stop
  disjoint : (metadataParts env m elf).Pairwise Span.Disjoint
  inside : ∀ part ∈ metadataParts env m elf,
    part.Within ⟨elf.hash_seg_hdr.toNat, hashProgHdr.p_filesz.toNat⟩
  hashPerHeader :
    elf.hash_array_sz.toNat = 32 * (ePhnum .elfClass64 m elf.elf_hdr).toNat
  miSizesSum : (miBootImageHeaderAt m elf.hash_seg_hdr).SizesSum
  sizesSum : metadataLen env m elf < 2 ^ 32

theorem chain_partAt {base : UInt64} {len : UInt32} :
    Span.Chain lo (partAt base len) hi ↔
      lo + len.toNat = hi ∧ (0 < len → base.toNat = lo) := by
  unfold partAt
  split
  · rename_i hpos
    simp only [Span.Chain, Span.stop]
    constructor
    · rintro ⟨rfl, rfl⟩
      exact ⟨rfl, fun _ => rfl⟩
    · rintro ⟨rfl, hb⟩
      exact ⟨hb hpos, by rw [hb hpos]⟩
  · rename_i hzero
    have : len.toNat = 0 := by
      rw [UInt32.lt_iff_toNat_lt] at hzero
      exact Nat.le_zero.mp (Nat.le_of_not_lt hzero)
    simp only [Span.Chain, this, Nat.add_zero]
    exact ⟨fun h => ⟨h, fun h' => absurd h' hzero⟩, fun h => h.1⟩

theorem chain_encryptionPart :
    Span.Chain lo (encryptionPart env m elf) hi ↔
      lo + encryptionLen env m elf = hi ∧
        (uieIsImageEncrypted env m elf.uie_hdr_ptr = true → elf.uie_hdr_ptr.toNat = lo) := by
  unfold encryptionPart encryptionLen
  split
  · rename_i henc
    simp only [Span.Chain, Span.stop]
    constructor
    · rintro ⟨rfl, rfl⟩
      exact ⟨rfl, fun _ => rfl⟩
    · rintro ⟨rfl, hb⟩
      exact ⟨hb henc, by rw [hb henc]⟩
  · rename_i henc
    simp only [Span.Chain, Nat.add_zero]
    exact ⟨fun h => ⟨h, fun h' => absurd h' henc⟩, fun h => h.1⟩

/-- The parts are contiguous when each part that is there begins where the sizes before it add up
to. -/
theorem chain_metadataParts {stop : Nat} :
    Span.Chain elf.hash_seg_hdr.toNat (metadataParts env m elf) stop ↔
      let hashes := elf.hash_seg_hdr.toNat + elf.hash_seg_hdr_sz.toNat
      let sig := hashes + elf.hash_array_sz.toNat
      let certs := sig + elf.sig_sz.toNat
      let uie := certs + elf.cert_sz.toNat
      elf.hash_seg.toNat = hashes ∧ (0 < elf.sig_sz → elf.sig_ptr.toNat = sig) ∧
        (0 < elf.cert_sz → elf.cert_ptr.toNat = certs) ∧
        (uieIsImageEncrypted env m elf.uie_hdr_ptr = true → elf.uie_hdr_ptr.toNat = uie) ∧
        stop = elf.hash_seg_hdr.toNat + metadataLen env m elf := by
  unfold metadataParts
  rw [Span.chain_append]
  simp only [Span.chain_append, chain_partAt, chain_encryptionPart, Span.Chain, Span.stop,
    metadataLen]
  constructor
  · rintro ⟨_, ⟨-, hseg, rfl⟩, _, ⟨rfl, hsig⟩, _, ⟨rfl, hcert⟩, rfl, huie⟩
    rw [hseg] at hsig hcert huie ⊢
    exact ⟨rfl, hsig, hcert, huie, by omega⟩
  · rintro ⟨hseg, hsig, hcert, huie, rfl⟩
    rw [← hseg] at hsig hcert huie
    exact ⟨_, ⟨trivial, hseg, rfl⟩, _, ⟨rfl, hsig⟩, _, ⟨rfl, hcert⟩, by omega, huie⟩

/-! ## When the layout holds -/

/-- The sizes of an image's parts add up below the 32-bit limit, and it has a signature exactly
when it has certificates. -/
def SizesSound (env : SecImgEnv) (m : Memory) (img : SecImgAuthElfInfoType) : Prop :=
  let mi := miBootImageHeaderAt m img.hash_seg_hdr
  let uieHdrPtr := hashArrayEnd .elfClass64 m img + mi.signature_size.toUInt64 +
    mi.cert_chain_size.toUInt64
  40 + 32 * (ePhnum .elfClass64 m img.elf_hdr).toNat + mi.signature_size.toNat +
      mi.cert_chain_size.toNat + (if uieIsImageEncrypted env m uieHdrPtr then 208 else 0) < 2 ^ 32 ∧
    (0 < mi.signature_size ↔ 0 < mi.cert_chain_size)

/-- The sum that is compared with the segment's size is the sum of the sizes, cut to 32 bits. -/
theorem toNat_expHashSegSz (elf : SecImgAuthElfInfo) :
    (expHashSegSz env m elf).toNat = metadataLen env m elf % 2 ^ 32 := by
  unfold expHashSegSz metadataLen encryptionLen
  split
  · simp only [UInt32.toNat_add]
    omega
  · simp only [UInt32.toNat_add]
    omega

theorem toNat_hashArraySz {c : Format} (hn : (ePhnum c m img.elf_hdr).toNat ≤ 40) :
    (hashArraySz c m img).toNat = 32 * (ePhnum c m img.elf_hdr).toNat := by
  rw [hashArraySz, UInt32.toNat_mul, UInt16.toNat_toUInt32,
    show cemlHashDigestSizeSha256.toNat = 32 from rfl]
  omega

section
variable {e : SecImgAuthElfInfo}
  (hacc : MetadataAccepted .elfClass64 env m img (populated .elfClass64 m img e))
include hacc

/-- The hash array begins behind the MI header. -/
theorem MetadataAccepted.toNat_hashSegAddr :
    (hashSegAddr .elfClass64 img).toNat = img.hash_seg_hdr.toNat + 40 := by
  have hin := hacc.headerInside
  have h40 : miBootImageHeaderSize.toUInt64.toNat = 40 := rfl
  unfold hashSegAddr at hin ⊢
  simp only [Format.word_elfClass64] at hin ⊢
  rw [uint64_add_lt_left, h40] at hin
  rw [uint64_toNat_add (by rw [h40]; omega), h40]

/-- The end of the hash array does not wrap. -/
theorem MetadataAccepted.toNat_hashArrayEnd :
    (hashArrayEnd .elfClass64 m img).toNat =
      img.hash_seg_hdr.toNat + 40 + 32 * (ePhnum .elfClass64 m img.elf_hdr).toNat := by
  have hin := hacc.hashesInside
  have harr : (hashArraySz .elfClass64 m img).toUInt64.toNat =
      32 * (ePhnum .elfClass64 m img.elf_hdr).toNat := by
    rw [UInt32.toNat_toUInt64, toNat_hashArraySz hacc.phnum_le]
  simp only [Format.word_elfClass64] at hin
  rw [uint64_add_lt_left, harr, hacc.toNat_hashSegAddr] at hin
  rw [hashArrayEnd, uint64_toNat_add (by rw [harr, hacc.toNat_hashSegAddr]; omega), harr,
    hacc.toNat_hashSegAddr]

/-- The ends of signature and certificate chain of a signed image do not wrap. -/
theorem MetadataAccepted.toNat_signature (hs : Signed (miBootImageHeaderAt m img.hash_seg_hdr)) :
    let mi := miBootImageHeaderAt m img.hash_seg_hdr
    let sigEnd := (hashArrayEnd .elfClass64 m img).toNat + mi.signature_size.toNat
    (hashArrayEnd .elfClass64 m img + mi.signature_size.toUInt64).toNat = sigEnd ∧
      (hashArrayEnd .elfClass64 m img + mi.signature_size.toUInt64 +
        mi.cert_chain_size.toUInt64).toNat = sigEnd + mi.cert_chain_size.toNat := by
  have hsig := hacc.signatureInside hs
  have hcert := hacc.certsInside hs
  simp only [populated, if_pos hs, Format.word_elfClass64, uint64_add_lt_left,
    UInt32.toNat_toUInt64] at hsig hcert
  have hsigEnd := uint64_toNat_add (a := hashArrayEnd .elfClass64 m img)
    (b := (miBootImageHeaderAt m img.hash_seg_hdr).signature_size.toUInt64)
    (by rw [UInt32.toNat_toUInt64]; omega)
  rw [UInt32.toNat_toUInt64] at hsigEnd
  refine ⟨hsigEnd, ?_⟩
  rw [uint64_toNat_add (by rw [UInt32.toNat_toUInt64]; omega), UInt32.toNat_toUInt64, hsigEnd]

theorem MetadataAccepted.metadataLen_eq :
    metadataLen env m (populated .elfClass64 m img e) =
      40 + 32 * (ePhnum .elfClass64 m img.elf_hdr).toNat +
        (miBootImageHeaderAt m img.hash_seg_hdr).signature_size.toNat +
        (miBootImageHeaderAt m img.hash_seg_hdr).cert_chain_size.toNat +
        encryptionLen env m (populated .elfClass64 m img e) := by
  simp only [metadataLen, populated, toNat_hashArraySz hacc.phnum_le]
  rfl

/-- The parts of an accepted image are contiguous exactly when it has both signature and
certificates or neither; the pointers that are not set are null. -/
theorem MetadataAccepted.contiguous_iff (hsig : e.sig_ptr = 0) (hcert : e.cert_ptr = 0) :
    (∃ stop, Span.Chain (populated .elfClass64 m img e).hash_seg_hdr.toNat
        (metadataParts env m (populated .elfClass64 m img e)) stop) ↔
      (0 < (miBootImageHeaderAt m img.hash_seg_hdr).signature_size ↔
        0 < (miBootImageHeaderAt m img.hash_seg_hdr).cert_chain_size) := by
  have hseg := hacc.toNat_hashSegAddr
  have hend := hacc.toNat_hashArrayEnd
  have harr := toNat_hashArraySz hacc.phnum_le
  have h40 : miBootImageHeaderSize.toNat = 40 := rfl
  have hnull : (0 : UInt64).toNat = 0 := rfl
  simp only [chain_metadataParts]
  simp only [populated_hash_seg_hdr, populated_hash_seg_hdr_sz, populated_hash_seg,
    populated_hash_array_sz, populated_sig_sz, populated_cert_sz,
    populated_uie_hdr_ptr, h40, harr, hseg]
  by_cases hs : Signed (miBootImageHeaderAt m img.hash_seg_hdr)
  · obtain ⟨hsigEnd, hcertEnd⟩ := hacc.toNat_signature hs
    obtain ⟨hsigPtr, hcertPtr⟩ := populated_of_signed (c := .elfClass64) e hs
    rw [hsigPtr, hcertPtr, hsigEnd, hcertEnd, hend]
    exact ⟨fun _ => ⟨fun _ => hs.2, fun _ => hs.1⟩, fun _ =>
      ⟨_, trivial, fun _ => rfl, fun _ => rfl, fun _ => rfl, rfl⟩⟩
  · obtain ⟨hsigPtr, hcertPtr⟩ := populated_of_not_signed (c := .elfClass64) e hs
    rw [hsigPtr, hcertPtr, hsig, hcert, hnull]
    constructor
    · -- a part at the null pointer is not where the hash array ends
      rintro ⟨_, -, hs0, hc0, -, -⟩
      exact ⟨fun h => absurd (hs0 h) (by omega), fun h => absurd (hc0 h) (by omega)⟩
    · intro hiff
      have hs0 : ¬ 0 < (miBootImageHeaderAt m img.hash_seg_hdr).signature_size :=
        fun h => hs ⟨h, hiff.mp h⟩
      have hc0 : ¬ 0 < (miBootImageHeaderAt m img.hash_seg_hdr).cert_chain_size :=
        fun h => hs ⟨hiff.mpr h, h⟩
      refine ⟨_, trivial, fun h => absurd h hs0, fun h => absurd h hc0, fun _ => ?_, rfl⟩
      rw [uint32_eq_zero_of_not_pos hs0, uint32_eq_zero_of_not_pos hc0]
      show (hashArrayEnd .elfClass64 m img + 0 + 0).toNat = _
      rw [UInt64.add_zero, UInt64.add_zero, hend]
      rfl

end

/-- **When accepted metadata is laid out as meant.** On a clean handle, an accepted 64-bit image
has one hash segment, and the parts of the metadata are contiguous, disjoint and inside it exactly
when the image's sizes are sound. -/
theorem metadata_laidOut_iff {h h' : SecImgAuthPriv} {u : Unit} (hsig : h.elf.sig_ptr = 0)
    (hcert : h.elf.cert_ptr = 0)
    (hok : secImgAuthPopulateElfInfo64 env m (some img) h = (.ok u, h')) :
    ∃ i, IsHashSegment m img i ∧ (∀ j, IsHashSegment m img j → j = i) ∧
      (MetadataLaidOut env m h'.elf (phdrIndex .elfClass64 m img.prog_hdr i) ↔
        SizesSound env m img) := by
  simp only [secImgAuthPopulateElfInfo64, populateElfInfo, bind_ok, breakIf_ok] at hok
  obtain ⟨_, _, ⟨-, rfl⟩, hok⟩ := hok
  obtain ⟨rfl, hacc⟩ := populateFrom_ok hok
  obtain ⟨p, hfind, hsize⟩ := validateHashSegmentLen_ok hacc.segmentLen
  obtain ⟨i, hi, huniq, rfl⟩ := hashSegment_unique hacc.tableInside hacc.oneHashSegment hfind
  refine ⟨i, hi, huniq, ?_⟩
  have hfilesz := congrArg UInt64.toNat hsize
  rw [UInt32.toNat_toUInt64, toNat_expHashSegSz] at hfilesz
  have hcontig := hacc.contiguous_iff hsig hcert
  constructor
  · intro hlaid
    have hsum := hlaid.sizesSum
    rw [hacc.metadataLen_eq] at hsum
    exact ⟨hsum, hcontig.mp hlaid.contiguous⟩
  · rintro ⟨hsum, hboth⟩
    obtain ⟨stop, hchain⟩ := hcontig.mpr hboth
    have hlt : metadataLen env m (populated .elfClass64 m img h.elf) < 2 ^ 32 := by
      rw [hacc.metadataLen_eq]
      exact hsum
    obtain ⟨-, -, -, -, hstop⟩ := chain_metadataParts.mp hchain
    refine ⟨⟨stop, hchain⟩, hchain.pairwise_disjoint, fun part hpart => ?_,
      toNat_hashArraySz hacc.phnum_le, validateMiBoot_ok hacc.miBoot, hlt⟩
    rw [hfilesz, Nat.mod_eq_of_lt hlt]
    have hin := hchain.within part hpart
    rw [hstop, Nat.add_sub_cancel_left] at hin
    exact hin

end

/-! ## Two images -/

/-- Services that all succeed, with image encryption fused off. -/
def plainEnv : SecImgEnv where
  secbootHwIsAuthEnabled := fun _ => (.success, 1)
  secbootGetFtbl := .success
  secbootHwGetFtbl := .success
  secImgAuthGetSwVersion := fun _ => .ok 0
  secImgAuthAuthenticateImageContext := fun _ _ _ => .ok ()
  sha256 := fun _ => []
  secbootHash := fun _ => .success
  uieIsImageEncryptionFuseEnabled := false
  uieGetL1Key := .success
  uieInit := fun _ _ => false
  uieIsSegmentEncrypted := fun _ _ => false
  uieDecryptSegment := fun _ _ _ _ m => (.success, [], m)
  secDbgInit := fun _ => true

/-- Where the metadata of the images below lies. -/
def twoHeaderImage : SecImgAuthElfInfoType := ⟨0x1000, 0x2000, 0x3000⟩

/-- Metadata with two program headers, the second one the hash segment's, and the given sizes. -/
def twoHeaderMetadata (imageSize sigSize certSize filesz : Nat) : Memory :=
  Memory.zero
    |>.put (0x1000 + 56) 2 2
    |>.put (0x2000 + 4) 4 0x7000000
    |>.put (0x2000 + 56 + 4) 4 0x2000000
    |>.put (0x2000 + 56 + 32) 8 filesz
    |>.put (0x3000 + 16) 4 imageSize
    |>.put (0x3000 + 20) 4 64
    |>.put (0x3000 + 28) 4 sigSize
    |>.put (0x3000 + 36) 4 certSize

theorem metadata_laidOut_signed :
    let m := twoHeaderMetadata 324 256 4 364
    let run := secImgAuthPopulateElfInfo64 plainEnv m (some twoHeaderImage) secImgAuthCleanPriv
    run.1 = .ok () ∧ ∃ i, IsHashSegment m twoHeaderImage i ∧
      MetadataLaidOut plainEnv m run.2.elf (phdrIndex .elfClass64 m 0x2000 i) := by
  intro m run
  have hok : run.1 = .ok () := by decide +kernel
  obtain ⟨i, hi, -, hiff⟩ := metadata_laidOut_iff (h := secImgAuthCleanPriv) rfl rfl
    (show secImgAuthPopulateElfInfo64 plainEnv m (some twoHeaderImage) secImgAuthCleanPriv =
      (.ok (), run.2) from Prod.ext hok rfl)
  refine ⟨hok, i, hi, hiff.mpr ?_⟩
  unfold SizesSound
  decide +kernel

/-- A signature size just below the 32-bit limit makes the expected size wrap to that of a segment
of 36 bytes, which does not even hold the MI header. -/
theorem wrapped_sizes_accepted :
    let m := twoHeaderMetadata 0xFFFFFFFC 0xFFFFFFB8 4 36
    let run := secImgAuthPopulateElfInfo64 plainEnv m (some twoHeaderImage) secImgAuthCleanPriv
    run.1 = .ok () ∧ ∀ p, ¬ MetadataLaidOut plainEnv m run.2.elf p := by
  intro m run
  refine ⟨by decide +kernel, fun p hlaid => ?_⟩
  have hlen : ¬ metadataLen plainEnv m run.2.elf < 2 ^ 32 := by decide +kernel
  exact hlen hlaid.sizesSum

end SecImgAuth
