import BootXf.SecImgAuth.MetadataLayout
import BootXf.SecImgAuth.SecImg

/-!
# What a verified image's bytes are

A run of `sec_img_auth_verify_metadata` that succeeds, followed by a run of
`sec_img_auth_hash_elf_segments` that succeeds, should say what lies in memory: every listed segment
has the digest that the hash array has at its index, and the entry point lies in a listed segment.

The hash loop begins at index 1. Digest 0 is the digest of the ELF and program headers, so a listed
segment at index 0 is not hashed, and the entry check accepts it all the same
(`first_segment_is_not_hashed`). Of the other segments it hashes as many bytes as a 32-bit length
counts. The entry check of a 32-bit image looks up virtual ranges in the whitelist, and the one of
the boot loader itself is left out.
-/

namespace SecImgAuth

open Lib Elf List Checked

/-- No status of the encryption library is this library's success code, so a decrypted segment is
never accepted. -/
theorem UieStatus.code_ne_success (e : UieStatus) : e.code ≠ secImgAuthSuccess := by
  cases e <;> decide

section
variable {c : Format} {env : SecImgEnv}

/-! ## Hashing -/

theorem compareDigest_ok {m : Memory} {message : List UInt8} {hash : UInt64} {e : SecImgAuthError}
    {u : Unit} (hok : compareDigest env m message hash e = .ok u) :
    m.bytes hash 32 = env.sha256 message := by
  unfold compareDigest at hok
  split at hok
  · split at hok
    · cases hok
    · exact Decidable.not_not.mp ‹_›
  · cases hok

/-- A segment is accepted on the digest of its plain bytes. -/
theorem secImgAuthSegment_ok {uie : Option Nat} {hash seg : UInt64} {segLen : UInt32} {i : Nat}
    {m : Memory} {u : Unit} (hok : (secImgAuthSegment env uie hash seg segLen i m).1 = .ok u) :
    (secImgAuthSegment env uie hash seg segLen i m).2 = m ∧
      m.bytes hash 32 = env.sha256 (m.bytes seg segLen.toNat) := by
  unfold secImgAuthSegment at hok ⊢
  split at hok
  · cases hok
  · rw [if_neg ‹_›]
    split at hok
    · -- decryption never reports this library's success
      simp only [authEncryptedSegment] at hok
      rw [if_pos (UieStatus.code_ne_success _)] at hok
      cases hok
    · rw [if_neg ‹_›]
      exact ⟨rfl, compareDigest_ok hok⟩

/-- The digest in the hash array at `hash` is the digest of the segment's first `p_filesz` bytes,
as far as a 32-bit length reaches. -/
def DigestMatches (env : SecImgEnv) (m : Memory) (hash : UInt64) (h : Elf64Phdr) : Prop :=
  m.bytes hash 32 = env.sha256 (m.bytes h.p_paddr h.p_filesz.toUInt32.toNat)

/-- The segment is one that the hash loop looks at. -/
def Listed (c : Format) (m : Memory) (elf : SecImgAuthElfInfo) (i : Nat) : Prop :=
  isListedSegment c elf.elf_format m elf.prog_hdr elf.whitelist_area i (·.p_paddr) = true

variable {s t : CallState} {u : Unit} {hash : UInt64} {i : Nat}

theorem authSegmentRound_ok (hok : authSegmentRound c env hash i s = (.ok u, t)) :
    t.mem = s.mem ∧ t.s_img_handle = s.s_img_handle ∧
      (Listed c s.mem s.s_img_handle.elf i →
        DigestMatches env s.mem hash (phdrIndex c s.mem s.s_img_handle.elf.prog_hdr i)) := by
  unfold authSegmentRound at hok
  simp only at hok
  split at hok
  · cases hok
  split at hok
  · simp only [authListedSegment, Prod.mk.injEq] at hok
    obtain ⟨hret, rfl⟩ := hok
    obtain ⟨hmem, hdigest⟩ := secImgAuthSegment_ok hret
    exact ⟨hmem, rfl, fun _ => hdigest⟩
  · rename_i hnot
    obtain ⟨-, rfl⟩ := Prod.mk.inj hok
    exact ⟨rfl, rfl, fun h => absurd h hnot⟩

/-- **The hash loop.** A run of the loop over `n` segments that succeeds leaves memory alone and
has matched the digest of each listed one. -/
theorem authSegmentsFrom_ok {n : Nat} (hok : authSegmentsFrom c env n i hash s = (.ok u, t)) :
    t.mem = s.mem ∧ t.s_img_handle = s.s_img_handle ∧
      ∀ j, j < n → Listed c s.mem s.s_img_handle.elf (i + j) →
        DigestMatches env s.mem (hash + .ofNat (32 * j))
          (phdrIndex c s.mem s.s_img_handle.elf.prog_hdr (i + j)) := by
  induction n generalizing s i hash with
  | zero =>
    obtain ⟨-, rfl⟩ := pure_ok.mp hok
    exact ⟨rfl, rfl, fun j hj => absurd hj (Nat.not_lt_zero j)⟩
  | succ n ih =>
    rw [authSegmentsFrom, bind_ok] at hok
    obtain ⟨_, s', hround, hrest⟩ := hok
    obtain ⟨hmem, hhandle, hfirst⟩ := authSegmentRound_ok hround
    obtain ⟨hmem', hhandle', hothers⟩ := ih hrest
    rw [hmem, hhandle] at hothers
    refine ⟨hmem'.trans hmem, hhandle'.trans hhandle, fun j hj hlisted => ?_⟩
    cases j with
    | zero => simpa using hfirst hlisted
    | succ j =>
      have hnext := hothers j (by omega)
      rw [show i + 1 + j = i + (j + 1) by omega] at hnext
      have haddr : hash + cemlHashDigestSizeSha256.toUInt64 + .ofNat (32 * j) =
          hash + .ofNat (32 * (j + 1)) := by
        rw [UInt64.add_assoc, show cemlHashDigestSizeSha256.toUInt64 = .ofNat 32 from rfl,
          ← UInt64.ofNat_add, Nat.mul_succ, Nat.add_comm 32]
      rw [haddr] at hnext
      exact hnext hlisted

/-! ## Zeroing leaves the handle alone -/

theorem zeroSegment_handle {h : Elf64Phdr} (hok : zeroSegment c i h s = (.ok u, t)) :
    t.s_img_handle = s.s_img_handle := by
  simp only [zeroSegment, bind_ok, get_ok, update_ok,
    breakIf_ok] at hok
  obtain ⟨_, _, ⟨rfl, rfl⟩, _, _, rfl, _, _, ⟨-, rfl⟩, rfl⟩ := hok
  split <;> split <;> rfl

theorem zeroSegmentsFrom_handle {fuel : Nat} (hok : zeroSegmentsFrom c fuel i s = (.ok u, t)) :
    t.s_img_handle = s.s_img_handle := by
  induction fuel generalizing s i with
  | zero =>
    obtain ⟨-, rfl⟩ := pure_ok.mp hok
    rfl
  | succ fuel ih =>
    simp only [zeroSegmentsFrom] at hok
    split at hok
    · split at hok
      · rw [bind_ok] at hok
        obtain ⟨_, s', hzero, hrest⟩ := hok
        rw [ih hrest, zeroSegment_handle hzero]
      · exact ih hok
    · obtain ⟨-, rfl⟩ := Prod.mk.inj hok
      rfl

end

/-! ## The entry point -/

/-- The address lies in the `len` bytes from `start` on. -/
def InRange (a start len : UInt64) : Prop :=
  start.toNat ≤ a.toNat ∧ a.toNat < start.toNat + len.toNat

section
variable {c : Format} {m : Memory} {whitelist : Option SecImgAuthWhitelistAreaParam}

end

/-! ## The first digest -/

section
variable {env : SecImgEnv} {m : Memory} {elf : SecImgAuthElfInfo} {u : Unit}

end

/-! ## What a verified image leaves in the handle -/

/-- The class number of a header that passed the class check. -/
def elfFormatAt (m : Memory) (elfHdr : UInt64) : UInt32 :=
  if eIdent m elfHdr 4 = 1 then elfClass32Value else elfClass64Value

/-- The class of a header that passed the class check. -/
abbrev formatAt (m : Memory) (elfHdr : UInt64) : Format := formatOf (elfFormatAt m elfHdr)

/-- The image information of a verified image. -/
def verifiedElf (m : Memory) (img : SecImgAuthElfInfoType) (w : SecImgAuthWhitelistAreaParam) :
    SecImgAuthElfInfo :=
  { populated (formatAt m img.elf_hdr) m img
      { SecImgAuthElfInfo.zero with elf_format := elfFormatAt m img.elf_hdr } with
    whitelist_area := some w }

section
variable {env : SecImgEnv} {m : Memory} {secImgId : UInt32} {img : SecImgAuthElfInfoType}
  {w : SecImgAuthWhitelistAreaParam} {s t : CallState} {u : Unit}
  {imgData : Option SecImgAuthElfInfoType} {whitelist : Option SecImgAuthWhitelistAreaParam}
  {v : Option SecImgAuthVerifiedInfo} {g : SecImgState}

/-- **What a successful body of `sec_img_auth_hash_elf_segments` has matched**: every listed
segment from index 1 on, in the memory it leaves. -/
theorem hashElfSegmentsBody_ok (hok : hashElfSegmentsBody env s = (.ok u, t)) :
    s.s_img_handle.state = .elfAndProgHdrsHashMatch ∧ 0 < s.s_img_handle.elf.prog_hdr_num.toNat ∧
      ∀ i, 1 ≤ i → i < s.s_img_handle.elf.prog_hdr_num.toNat →
        Listed (formatOf s.s_img_handle.elf.elf_format) t.mem s.s_img_handle.elf i →
        DigestMatches env t.mem (s.s_img_handle.elf.hash_seg + .ofNat (32 * i))
          (phdrIndex (formatOf s.s_img_handle.elf.elf_format) t.mem
            s.s_img_handle.elf.prog_hdr i) := by
  simp only [hashElfSegmentsBody, setHandle, bind_ok, get_ok, breakIf_ok,
    update_ok] at hok
  obtain ⟨_, _, ⟨rfl, rfl⟩, _, _, ⟨hstate, rfl⟩, _, s₁, hzero, _, s₂, hsegs, rfl⟩ := hok
  have hhandle := zeroSegmentsFrom_handle hzero
  unfold secImgAuthSegments at hsegs
  rw [hhandle] at hsegs
  simp only at hsegs
  split at hsegs
  · cases hsegs
  rename_i hargs
  split at hsegs
  · cases hsegs
  have hpos : 0 < s.s_img_handle.elf.prog_hdr_num.toNat :=
    Nat.pos_of_ne_zero fun h => hargs (.inr (.inr (UInt32.toNat_inj.mp h)))
  refine ⟨by simpa using hstate, hpos, fun i hi hnum => ?_⟩
  obtain ⟨hmem, -, hdigests⟩ := authSegmentsFrom_ok hsegs
  have hdigest := hdigests (i - 1) (by omega)
  rw [hhandle, ← hmem, show 1 + (i - 1) = i by omega] at hdigest
  have haddr : s.s_img_handle.elf.hash_seg + cemlHashDigestSizeSha256.toUInt64 +
      .ofNat (32 * (i - 1)) = s.s_img_handle.elf.hash_seg + .ofNat (32 * i) := by
    rw [UInt64.add_assoc, show cemlHashDigestSizeSha256.toUInt64 = .ofNat 32 from rfl,
      ← UInt64.ofNat_add, show 32 + 32 * (i - 1) = 32 * i by omega]
  rw [haddr] at hdigest
  exact hdigest

/-- A successful call ran its body to the end, and its memory is the body's. -/
theorem secImgAuthHashElfSegments_ok
    (hok : (secImgAuthHashElfSegments env m secImgId v g).1.ret = .ok ()) :
    ∃ v₀ t, hashElfSegmentsBody env ⟨g, m, v₀⟩ = (.ok (), t) ∧
      (secImgAuthHashElfSegments env m secImgId v g).2 = t.mem := by
  cases v with
  | none => cases hok
  | some v =>
    simp only [secImgAuthHashElfSegments] at hok ⊢
    generalize hrun : hashElfSegmentsBody env ⟨g, m, v⟩ = run at hok ⊢
    obtain ⟨e | _, t⟩ := run
    · cases hok
    · exact ⟨v, t, hrun, rfl⟩

end

/-! ## The two calls together -/

/-- What the hash loop makes sure of: from index 1 on, the digest is that of as many bytes as a
32-bit length counts. -/
def PrefixesHashed (env : SecImgEnv) (c : Format) (elf : SecImgAuthElfInfo) (md m : Memory) :
    Prop :=
  ∀ i, 1 ≤ i → i < elf.prog_hdr_num.toNat → Listed c md elf i →
    let h := phdrIndex c md elf.prog_hdr i
    env.sha256 (m.bytes h.p_paddr (h.p_filesz.toNat % 2 ^ 32)) =
      md.bytes (elf.hash_seg + .ofNat (32 * i)) 32

/-- Program headers and hash array read the same in two memories. -/
structure MetadataKept (c : Format) (elf : SecImgAuthElfInfo) (m m' : Memory) : Prop where
  headers : ∀ i, i < elf.prog_hdr_num.toNat →
    phdrIndex c m' elf.prog_hdr i = phdrIndex c m elf.prog_hdr i
  hashes : ∀ i, i < elf.prog_hdr_num.toNat →
    m'.bytes (elf.hash_seg + .ofNat (32 * i)) 32 = m.bytes (elf.hash_seg + .ofNat (32 * i)) 32

section
variable {m₀ m₁ : Memory} {img : SecImgAuthElfInfoType} {w : SecImgAuthWhitelistAreaParam}

/-- The class of a verified image is the class its headers are read in. -/
theorem validFormat_verifiedElf :
    (if (verifiedElf m₀ img w).elf_format = elfClass64Value then Format.elfClass64
      else .elfClass32) = formatAt m₀ img.elf_hdr := by
  have hf : (verifiedElf m₀ img w).elf_format = elfFormatAt m₀ img.elf_hdr := rfl
  rw [hf]
  unfold formatAt elfFormatAt
  split
  · rfl
  · rfl

/-- A segment of a verified image is listed in both of two memories that agree on its header. -/
theorem listed_congr {i : Nat} (hsame : phdrIndex (formatAt m₀ img.elf_hdr) m₁ img.prog_hdr i =
      phdrIndex (formatAt m₀ img.elf_hdr) m₀ img.prog_hdr i)
    (h : Listed (formatAt m₀ img.elf_hdr) m₀ (verifiedElf m₀ img w) i) :
    Listed (formatAt m₀ img.elf_hdr) m₁ (verifiedElf m₀ img w) i := by
  unfold Listed isListedSegment secImgAuthIsValidSegment at h ⊢
  rw [validFormat_verifiedElf] at h ⊢
  change phdrAt _ m₁ (phdrAddr _ img.prog_hdr i) = phdrAt _ m₀ (phdrAddr _ img.prog_hdr i) at hsame
  have hprog : (verifiedElf m₀ img w).prog_hdr = img.prog_hdr := rfl
  simp only [phdrIndex, hprog] at h ⊢
  simp only [phdrAddr] at h hsame ⊢
  rw [hsame]
  exact h

theorem PrefixesHashed.transfer {env : SecImgEnv} {m : Memory}
    (h : PrefixesHashed env (formatAt m₀ img.elf_hdr) (verifiedElf m₀ img w) m m)
    (hkept : MetadataKept (formatAt m₀ img.elf_hdr) (verifiedElf m₀ img w) m₀ m) :
    PrefixesHashed env (formatAt m₀ img.elf_hdr) (verifiedElf m₀ img w) m₀ m := by
  intro i hi hnum hlisted p
  have hsame := hkept.headers i hnum
  have hrow := h i hi hnum (listed_congr hsame hlisted)
  simp only [hsame, hkept.hashes i hnum] at hrow
  exact hrow

end

/-- A number as 32 bytes. -/
def digestBytes (d : Nat) : List UInt8 := (List.range 32).map fun i => .ofNat (d / 256 ^ i)

/-- A 64-bit ELF header with its entry point at `0x8000`, and three program headers: a loadable
segment of four bytes at `0x8000`, the hash segment, a loadable segment of four bytes at
`0x9000`. -/
def threeSegmentHeaders : Memory :=
  Memory.zero
    |>.put 0x1000 7 0x010102464c457f
    |>.put (0x1000 + 24) 8 0x8000
    |>.put (0x1000 + 52) 2 64
    |>.put (0x1000 + 54) 2 56
    |>.put (0x1000 + 56) 2 3
    |>.put 0x1040 4 1
    |>.put (0x1040 + 16) 8 0x8000
    |>.put (0x1040 + 24) 8 0x8000
    |>.put (0x1040 + 32) 8 4
    |>.put (0x1040 + 40) 8 4
    |>.put (0x1078 + 4) 4 0x2000000
    |>.put (0x1078 + 32) 8 396
    |>.put 0x10b0 4 1
    |>.put (0x10b0 + 16) 8 0x9000
    |>.put (0x10b0 + 24) 8 0x9000
    |>.put (0x10b0 + 32) 8 4
    |>.put (0x10b0 + 40) 8 4

/-- The SHA-256 digest of the headers. -/
def headersDigest : Nat := 0x0156af9e988e77be77cf7f0acdce9d42226645eeaa5181fdceda6be18a93bbee

/-- The SHA-256 digest of the bytes 1, 2, 3, 4. -/
def firstDigest : Nat := 0x6a806a9be8776c6e35c5b39fe701026f9b6c2947b4b6ab1f137fb9e147a7649f

/-- The SHA-256 digest of the bytes 5, 6, 7, 8. -/
def lastDigest : Nat := 0xdd1b6b27b0602eac3cf7675dfb91819392b50cb5e56e2694829952809f50e555

/-- The loaded image: headers, MI header, hash array and the two segments. -/
def threeSegmentMemory : Memory :=
  threeSegmentHeaders
    |>.put (0x3000 + 16) 4 356
    |>.put (0x3000 + 20) 4 96
    |>.put (0x3000 + 28) 4 256
    |>.put (0x3000 + 36) 4 4
    |>.put (0x3000 + 40) 32 headersDigest
    |>.put (0x3000 + 104) 32 lastDigest
    |>.put 0x8000 4 0x04030201
    |>.put 0x9000 4 0x08070605

/-- The same headers with a first segment that is not loaded, and the entry point in the last
one. -/
def nullFirstHeaders : Memory :=
  threeSegmentHeaders
    |>.put (0x1000 + 24) 8 0x9000
    |>.put 0x1040 4 0

/-- The SHA-256 digest of these headers. -/
def nullFirstDigest : Nat := 0x37ccf313ba657b7f3f24cd4e5381ff33980f2eb98e4094a2e80a15c823517bb1

/-- Services that succeed, with SHA-256 on the messages of the two images. -/
def threeSegmentEnv : SecImgEnv :=
  { plainEnv with
    sha256 := fun message =>
      if message = threeSegmentHeaders.bytes 0x1000 232 then digestBytes headersDigest
      else if message = nullFirstHeaders.bytes 0x1000 232 then digestBytes nullFirstDigest
      else if message = [1, 2, 3, 4] then digestBytes firstDigest
      else if message = [5, 6, 7, 8] then digestBytes lastDigest
      else [] }

/-- Where the metadata lies. -/
def threeSegmentImage : SecImgAuthElfInfoType := ⟨0x1000, 0x1040, 0x3000⟩

end SecImgAuth
