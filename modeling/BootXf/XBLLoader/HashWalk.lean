import BootXf.Lib.LittleEndian
import BootXf.XBLLoader.ElfLoaderConfinement

/-!
# The walk over the hash table

The loop of `boot_elf_load_and_verify_image_in_chunks` with `boot_seg_verification` in it: a pointer
into the hash segment moves on by one entry for a segment, by one entry for each 4K page of a paged
one. Every comparison of a digest is noted down with the entry it was compared with and the bytes
that were hashed.

The pointer is checked against the buffer before each verification, but from behind the header of
the hash segment instead of from the buffer's start, so the last entries of a full buffer end
outside of it. `hashWalk_iff` is the exact condition.
-/

namespace XBLLoader

open Lib Elf List Program

/-! ## Constants -/

/-- `MI_PBT_PAGED_SEGMENT`. -/
def miPbtPagedSegment : UInt32 := 0x1

/-- `SIZE4K`. -/
def size4K : UInt64 := 0x1000

/-- `HASH_SEGMENT_SIZE`. -/
def hashSegmentSize : UInt64 := 0x6000

/-- `sizeof(mi_boot_image_header_type)`. -/
def headerSize : UInt64 := 40

/-- The values of `sbl_hash_algorithm`. -/
inductive HashAlg
  | sha1
  | sha256
  deriving DecidableEq, Repr

/-- `sbl_hash_len`, as `boot_set_hash_algo` sets it. -/
def HashAlg.hashLen : HashAlg → UInt32
  | sha1 => 20
  | sha256 => 32

/-! ## State -/

/-- What the verification reads besides the loader's surroundings: the hash segment buffer, the
algorithm, the flags, and `boot_hash`, which may fail. The buffer lies in DDR or in internal memory,
in the lower half of the address space. -/
structure HashEnv extends LoaderEnv where
  hashSegmentBase : UInt64
  base_le : hashSegmentBase.toNat + 0x6000 ≤ 2 ^ 63
  sblHashAlgorithm : HashAlg
  elfCfgTableAuth : Bool
  /-- `FEATURE_BOOT_SKIP_ELF_HASH_VERIFICATION`. -/
  skipElfHashVerification : Bool
  hashTableAuthResult : Bool
  elfIsEhdrPhdrHashSuccess : Bool
  bootHash : HashAlg → List UInt8 → Option (List UInt8)

/-- A digest was computed over a block and compared with an entry. -/
structure Comparison where
  index : Nat
  entry : UInt64
  hashed : Block
  deriving DecidableEq, Repr

/-- What the loop changes, with the comparisons made so far, the latest first. -/
structure WalkState extends LoaderState where
  compared : List Comparison

/-- Code of the loop. -/
abbrev Walk := Program WalkState

/-- Code of the loader, which makes no comparisons. -/
def onLoader {α : Type} (p : Loader α) : Walk α := fun s =>
  match p s.toLoaderState with
  | .ret a t => .ret a { s with toLoaderState := t }
  | .halt t => .halt { s with toLoaderState := t }
  | .spin t => .spin { s with toLoaderState := t }

section Code
variable (env : HashEnv)

/-- `sbl_hash_len`. -/
def sblHashLen : UInt64 := env.sblHashAlgorithm.hashLen.toUInt64

/-- `hash_segment_start`. -/
def hashSegmentStart : UInt64 := env.hashSegmentBase + headerSize

/-- `boot_elf_enable_hash_checking`. -/
def bootElfEnableHashChecking : Bool :=
  (env.isAuthEnabled && env.elfCfgTableAuth) || !env.skipElfHashVerification

/-- The comparison of a segment's digest. -/
def compareSegment (i : Nat) (expectedHash : UInt64) : Walk Unit := do
  let s ← Program.get
  let len := (phdrFilesz env.toLoaderEnv i).toUInt32
  let paddr := phdrPaddr env.toLoaderEnv i
  match env.bootHash env.sblHashAlgorithm (s.mem.bytes paddr len.toNat) with
  | none => Program.halt
  | some digest =>
    modify fun s =>
      { s with compared := ⟨i, expectedHash, ⟨paddr, len.toNat⟩⟩ :: s.compared }
    verify (s.mem.bytes expectedHash (sblHashLen env).toNat == digest)

/-- `boot_elf_verify_segment`. -/
def bootElfVerifySegment (i : Nat) (expectedHash : UInt64) : Walk Unit := do
  verify env.hashTableAuthResult
  verify env.elfIsEhdrPhdrHashSuccess
  let segmentType := miPbtSegmentTypeValue (phdrFlags env.toLoaderEnv i)
  if segmentType = miPbtPhdrSegment then pure ()
  else if segmentType = miPbtHashSegment then pure ()
  else if env.isValidSegment i ∧ phdrFilesz env.toLoaderEnv i > 0 then
    compareSegment env i expectedHash
  else pure ()

/-- Where the pointer moves on to. -/
def nextHashPtr (i : Nat) (currHashPtr : UInt64) : UInt64 :=
  if miPbtPageModeValue (phdrFlags env.toLoaderEnv i) = miPbtPagedSegment then
    let num4kPages := (phdrFilesz env.toLoaderEnv i - 1) / size4K + 1
    currHashPtr + num4kPages * sblHashLen env
  else currHashPtr + sblHashLen env

/-- The pointer's check in `boot_seg_verification`. -/
def hashPtrValid (currHashPtr : UInt64) : Bool :=
  decide (currHashPtr ≤ hashSegmentStart env + hashSegmentSize - sblHashLen env) &&
    decide (currHashPtr ≥ hashSegmentStart env)

/-- `boot_seg_verification`. It returns the pointer. -/
def bootSegVerification (i : Nat) (currHashPtr : UInt64) : Walk UInt64 :=
  if bootElfEnableHashChecking env then do
    verify (hashPtrValid env currHashPtr)
    bootElfVerifySegment env i currHashPtr
    pure (nextHashPtr env i currHashPtr)
  else pure currHashPtr

/-- One round of the loop of `boot_elf_load_and_verify_image_in_chunks`. -/
def loadAndVerifySegment (i : Nat) (currHashPtr : UInt64) : Walk UInt64 := do
  onLoader (when (miPbtSegmentTypeValue (phdrFlags env.toLoaderEnv i) ≠ miPbtHashSegment)
    (bootElfLoadSegInChunks env.toLoaderEnv maxChunkSize i))
  let currHashPtr ← bootSegVerification env i currHashPtr
  onLoader (modify fun s =>
    if env.isAuthEnabled then { s with pmiCodeLength := s.totalElfSegmentsSize } else s)
  pure currHashPtr

/-- The first `n` rounds. They return the pointer. -/
def loadAndVerifySegments : Nat → Walk UInt64
  | 0 => pure (hashSegmentStart env)
  | n + 1 => do
      let currHashPtr ← loadAndVerifySegments n
      loadAndVerifySegment env n currHashPtr

/-- `boot_elf_load_and_verify_image_in_chunks`, and the comparisons it makes. -/
def loadAndVerifyImageInChunks (s : LoaderState) : Outcome WalkState UInt64 :=
  loadAndVerifySegments env env.phdrNum.toNat ⟨s, []⟩

end Code

/-! ## The entries of a table -/

section
variable (env : HashEnv)

/-- The segment is a paged one. -/
def Paged (i : Nat) : Prop :=
  miPbtPageModeValue (phdrFlags env.toLoaderEnv i) = miPbtPagedSegment

instance (i : Nat) : Decidable (Paged env i) :=
  inferInstanceAs (Decidable (_ = _))

/-- How many entries a segment has: one for each 4K page begun, or one. -/
def entries (i : Nat) : Nat :=
  if Paged env i then ((phdrFilesz env.toLoaderEnv i).toNat + 4095) / 4096 else 1

/-- How many entries there are in front of a segment's. -/
def entriesBefore : Nat → Nat
  | 0 => 0
  | n + 1 => entriesBefore n + entries env n

/-- The segment's digest is to be compared. -/
def Compared (i : Nat) : Prop :=
  bootElfEnableHashChecking env = true ∧
    miPbtSegmentTypeValue (phdrFlags env.toLoaderEnv i) ≠ miPbtPhdrSegment ∧
    miPbtSegmentTypeValue (phdrFlags env.toLoaderEnv i) ≠ miPbtHashSegment ∧
    env.isValidSegment i = true ∧ phdrFilesz env.toLoaderEnv i > 0

/-- The comparison was with the segment's first entry, inside the buffer, and of the digest of all
its file bytes, if it is paged. -/
structure ComparedRight (c : Comparison) : Prop where
  entry : c.entry.toNat = (hashSegmentStart env).toNat +
    (sblHashLen env).toNat * entriesBefore env c.index
  inBuffer : Span.Within ⟨c.entry.toNat, (sblHashLen env).toNat⟩
    ⟨env.hashSegmentBase.toNat, hashSegmentSize.toNat⟩
  hashed : Paged env c.index →
    c.hashed = ⟨phdrPaddr env.toLoaderEnv c.index, (phdrFilesz env.toLoaderEnv c.index).toNat⟩

/-- The entry ends inside the buffer, and a paged segment has less than four gigabytes. -/
def EntryFits (i : Nat) : Prop :=
  headerSize.toNat + (sblHashLen env).toNat * (entriesBefore env i + 1) ≤ hashSegmentSize.toNat ∧
    (Paged env i → (phdrFilesz env.toLoaderEnv i).toNat < 2 ^ 32)

end

section
variable {env : HashEnv} {i n : Nat} {ptr : UInt64}

theorem sblHashLen_bounds (env : HashEnv) : 20 ≤ (sblHashLen env).toNat ∧
    (sblHashLen env).toNat ≤ 32 := by
  unfold sblHashLen
  cases env.sblHashAlgorithm <;> decide

theorem hashSegmentStart_toNat (env : HashEnv) :
    (hashSegmentStart env).toNat = env.hashSegmentBase.toNat + 40 := by
  have hb := env.base_le
  exact uint64_toNat_add (by rw [show headerSize.toNat = 40 from rfl]; omega)

/-- The pointer's check as one on natural numbers. -/
theorem hashPtrValid_iff : hashPtrValid env ptr = true ↔
    (hashSegmentStart env).toNat ≤ ptr.toNat ∧
      ptr.toNat + (sblHashLen env).toNat ≤ (hashSegmentStart env).toNat + 0x6000 := by
  have hb := env.base_le
  have hstart := hashSegmentStart_toNat env
  have hlen := (sblHashLen_bounds env).2
  have hsum : (hashSegmentStart env + hashSegmentSize).toNat =
      (hashSegmentStart env).toNat + 0x6000 :=
    uint64_toNat_add (by rw [show hashSegmentSize.toNat = 0x6000 from rfl]; omega)
  have hlast : (hashSegmentStart env + hashSegmentSize - sblHashLen env).toNat =
      (hashSegmentStart env).toNat + 0x6000 - (sblHashLen env).toNat := by
    rw [UInt64.toNat_sub_of_le _ _ (UInt64.le_iff_toNat_le.mpr (by rw [hsum]; omega)), hsum]
  simp only [hashPtrValid, Bool.and_eq_true, decide_eq_true_eq, ge_iff_le, UInt64.le_iff_toNat_le,
    hlast]
  omega

/-- The pointer is at the first entry of segment `n`, or behind everything the check accepts. -/
def OnTrack (env : HashEnv) (n : Nat) (ptr : UInt64) : Prop :=
  ptr.toNat = (hashSegmentStart env).toNat + (sblHashLen env).toNat * entriesBefore env n ∨
    (hashSegmentStart env).toNat + 0x6000 < ptr.toNat + (sblHashLen env).toNat

/-- The number of 4K pages, as the code computes it: of an empty segment it is `2 ^ 52`. -/
theorem num4kPages_toNat (filesz : UInt64) : ((filesz - 1) / size4K + 1).toNat =
    if filesz = 0 then 2 ^ 52 else (filesz.toNat + 4095) / 4096 := by
  have hf := filesz.toNat_lt
  split
  · rename_i hzero
    subst hzero
    decide
  · rename_i hpos
    have hpos' : filesz.toNat ≠ 0 := fun h => hpos (uint64_eq_zero.mpr h)
    have hsub : (filesz - 1).toNat = filesz.toNat - 1 := by
      rw [UInt64.toNat_sub_of_le _ _ (UInt64.le_iff_toNat_le.mpr (by
        rw [UInt64.toNat_one]
        omega)), UInt64.toNat_one]
    have hdiv : ((filesz - 1) / size4K).toNat = (filesz.toNat - 1) / 4096 := by
      rw [UInt64.toNat_div, hsub]
      rfl
    rw [uint64_toNat_add (by rw [hdiv, UInt64.toNat_one]; omega), hdiv, UInt64.toNat_one]
    omega

/-- From a pointer that passed the check, the next one is on track. An empty paged segment puts
the pointer behind everything. -/
theorem nextHashPtr_onTrack (htrack : OnTrack env n ptr) (hvalid : hashPtrValid env ptr = true) :
    OnTrack env (n + 1) (nextHashPtr env n ptr) := by
  obtain ⟨hlo, hhi⟩ := hashPtrValid_iff.mp hvalid
  obtain ⟨hmin, hmax⟩ := sblHashLen_bounds env
  have hb := env.base_le
  have hstart := hashSegmentStart_toNat env
  have hptr : ptr.toNat = (hashSegmentStart env).toNat +
      (sblHashLen env).toNat * entriesBefore env n := by
    rcases htrack with h | h
    · exact h
    · omega
  rw [OnTrack, entriesBefore, Nat.mul_add]
  by_cases hpaged : Paged env n
  · have hnext : nextHashPtr env n ptr =
        ptr + ((phdrFilesz env.toLoaderEnv n - 1) / size4K + 1) * sblHashLen env := if_pos hpaged
    have hpages := num4kPages_toNat (phdrFilesz env.toLoaderEnv n)
    have hfew : ((phdrFilesz env.toLoaderEnv n - 1) / size4K + 1).toNat ≤ 2 ^ 52 := by
      have hf := (phdrFilesz env.toLoaderEnv n).toNat_lt
      rw [hpages]
      split
      · exact Nat.le_refl _
      · omega
    have hbytes : (((phdrFilesz env.toLoaderEnv n - 1) / size4K + 1) * sblHashLen env).toNat =
        (sblHashLen env).toNat * ((phdrFilesz env.toLoaderEnv n - 1) / size4K + 1).toNat := by
      have := Nat.mul_le_mul hmax hfew
      rw [UInt64.toNat_mul, Nat.mul_comm, Nat.mod_eq_of_lt (by omega)]
    have hsmall := Nat.mul_le_mul hmax hfew
    rw [hnext, uint64_toNat_add (by rw [hbytes]; omega), hbytes, hpages]
    by_cases hzero : phdrFilesz env.toLoaderEnv n = 0
    · right
      rw [if_pos hzero]
      omega
    · left
      rw [if_neg hzero, hptr, entries, if_pos hpaged, Nat.add_assoc]
  · have hnext : nextHashPtr env n ptr = ptr + sblHashLen env := if_neg hpaged
    left
    rw [hnext, uint64_toNat_add (by omega), hptr, entries, if_neg hpaged,
      Nat.mul_one, Nat.add_assoc]

end

/-! ## Runs -/

/-- What is noted down when the first `n` segments have been verified. -/
structure Recorded (env : HashEnv) (n : Nat) (s : WalkState) : Prop where
  indices : ∀ i, (∃ c ∈ s.compared, c.index = i) ↔ i < n ∧ Compared env i
  entry : ∀ c ∈ s.compared, c.entry.toNat = (hashSegmentStart env).toNat +
    (sblHashLen env).toNat * entriesBefore env c.index
  hashed : ∀ c ∈ s.compared, c.hashed =
    ⟨phdrPaddr env.toLoaderEnv c.index, (phdrFilesz env.toLoaderEnv c.index).toNat % 2 ^ 32⟩

section
variable {env : HashEnv} {n : Nat} {ptr : UInt64} {s : WalkState}

theorem Recorded.start (s : LoaderState) : Recorded env 0 ⟨s, []⟩ where
  indices i := by simp
  entry _ hc := by cases hc
  hashed _ hc := by cases hc

/-- A segment without a comparison. -/
theorem Recorded.skip (h : Recorded env n s) (hnot : ¬ Compared env n) :
    Recorded env (n + 1) s where
  indices i := by
    rw [h.indices i, Nat.lt_succ_iff_lt_or_eq]
    constructor
    · exact fun ⟨hlt, hc⟩ => ⟨.inl hlt, hc⟩
    · rintro ⟨hlt | rfl, hc⟩
      · exact ⟨hlt, hc⟩
      · exact absurd hc hnot
  entry := h.entry
  hashed := h.hashed

/-- A comparison at a pointer that is at the segment's entry. -/
theorem Recorded.compare (h : Recorded env n s) (hcompared : Compared env n)
    (hptr : ptr.toNat = (hashSegmentStart env).toNat +
      (sblHashLen env).toNat * entriesBefore env n) :
    Recorded env (n + 1) { s with compared :=
      ⟨n, ptr, ⟨phdrPaddr env.toLoaderEnv n, (phdrFilesz env.toLoaderEnv n).toUInt32.toNat⟩⟩ ::
        s.compared } where
  indices i := by
    simp only [mem_cons, exists_eq_or_imp, h.indices i, Nat.lt_succ_iff_lt_or_eq]
    constructor
    · rintro (rfl | ⟨hlt, hc⟩)
      · exact ⟨.inr rfl, hcompared⟩
      · exact ⟨.inl hlt, hc⟩
    · rintro ⟨hlt | rfl, hc⟩
      · exact .inr ⟨hlt, hc⟩
      · exact .inl rfl
  entry c hc := by
    rcases mem_cons.mp hc with rfl | hc
    · exact hptr
    · exact h.entry c hc
  hashed c hc := by
    rcases mem_cons.mp hc with rfl | hc
    · rw [UInt64.toNat_toUInt32]
    · exact h.hashed c hc

/-- Only the comparisons count. -/
theorem Recorded.of_compared {t : WalkState} (h : Recorded env n s)
    (heq : t.compared = s.compared) : Recorded env n t where
  indices i := by rw [heq]; exact h.indices i
  entry c hc := h.entry c (heq ▸ hc)
  hashed c hc := h.hashed c (heq ▸ hc)

/-- How a run may end early in round `n`: before or after its comparison. -/
def RecordedUpTo (env : HashEnv) (n : Nat) (s : WalkState) : Prop := ∃ k ≤ n, Recorded env k s

/-- The loader's own code compares nothing. -/
theorem onLoader_recorded {α : Type} (p : Loader α) {k : Nat} (hk : n ≤ k) :
    Program.Triple (Recorded env n) (onLoader p) (fun _ => Recorded env n)
      (RecordedUpTo env k) := by
  refine ⟨fun s hs => ?_⟩
  unfold onLoader
  cases p s.toLoaderState with
  | ret a t => exact hs.of_compared rfl
  | halt t | spin t => exact ⟨n, hk, hs.of_compared rfl⟩

theorem compareSegment_recorded (hcompared : Compared env n)
    (hptr : ptr.toNat = (hashSegmentStart env).toNat +
      (sblHashLen env).toNat * entriesBefore env n) :
    Program.Triple (Recorded env n) (compareSegment env n ptr) (fun _ => Recorded env (n + 1))
      (RecordedUpTo env (n + 1)) := by
  refine ⟨fun s hs => ?_⟩
  unfold compareSegment
  rw [get_bind]
  rcases env.bootHash env.sblHashAlgorithm (s.mem.bytes (phdrPaddr env.toLoaderEnv n)
    (phdrFilesz env.toLoaderEnv n).toUInt32.toNat) with _ | digest
  · exact ⟨n, Nat.le_succ n, hs⟩
  · have hnext := hs.compare hcompared hptr
    show Outcome.Ends _ _ (verify (s.mem.bytes ptr (sblHashLen env).toNat == digest) _)
    cases s.mem.bytes ptr (sblHashLen env).toNat == digest with
    | true => exact hnext
    | false => exact ⟨n + 1, Nat.le_refl _, hnext⟩

theorem bootElfVerifySegment_recorded (henable : bootElfEnableHashChecking env = true)
    (hptr : ptr.toNat = (hashSegmentStart env).toNat +
      (sblHashLen env).toNat * entriesBefore env n) :
    Program.Triple (Recorded env n) (bootElfVerifySegment env n ptr)
      (fun _ => Recorded env (n + 1)) (RecordedUpTo env (n + 1)) := by
  have early : ∀ s, Recorded env n s → RecordedUpTo env (n + 1) s := fun s hs =>
    ⟨n, Nat.le_succ n, hs⟩
  unfold bootElfVerifySegment
  refine .bind (Q := fun _ => Recorded env n) (.verify (fun _ _ hs => hs) fun _ => early)
    fun _ => ?_
  refine .bind (Q := fun _ => Recorded env n) (.verify (fun _ _ hs => hs) fun _ => early)
    fun _ => ?_
  refine .ite (fun hphdr => .pure fun s hs => hs.skip fun hc => hc.2.1 hphdr) fun hphdr => ?_
  refine .ite (fun hhash => .pure fun s hs => hs.skip fun hc => hc.2.2.1 hhash) fun hhash => ?_
  refine .ite (fun hvalid => ?_) fun hinvalid => .pure fun s hs => hs.skip fun hc =>
    hinvalid hc.2.2.2
  exact compareSegment_recorded ⟨henable, hphdr, hhash, hvalid⟩ hptr

/-- The pointer is only of interest when digests are compared. -/
def AtEntry (env : HashEnv) (n : Nat) (ptr : UInt64) : Prop :=
  bootElfEnableHashChecking env = true → OnTrack env n ptr

theorem bootSegVerification_recorded (hat : AtEntry env n ptr) :
    Program.Triple (Recorded env n) (bootSegVerification env n ptr)
      (fun ptr' s => Recorded env (n + 1) s ∧ AtEntry env (n + 1) ptr')
      (RecordedUpTo env (n + 1)) := by
  unfold bootSegVerification
  refine .ite (fun henable => ?_) fun hdisabled => .pure fun s hs =>
    ⟨hs.skip fun hc => hdisabled hc.1, fun henable => absurd henable hdisabled⟩
  refine .bind (Q := fun _ s => Recorded env n s ∧ hashPtrValid env ptr = true)
    (.verify (fun hok s hs => ⟨hs, hok⟩) fun _ s hs => ⟨n, Nat.le_succ n, hs⟩) fun _ => ?_
  refine ⟨fun s ⟨hs, hvalid⟩ => ?_⟩
  have hptr : ptr.toNat = (hashSegmentStart env).toNat +
      (sblHashLen env).toNat * entriesBefore env n := by
    rcases hat henable with h | h
    · exact h
    · have := (hashPtrValid_iff.mp hvalid).2
      omega
  refine ((bootElfVerifySegment_recorded henable hptr).bind fun _ => .pure fun t ht => ?_).run s hs
  exact ⟨ht, fun _ => nextHashPtr_onTrack (hat henable) hvalid⟩

theorem loadAndVerifySegment_recorded (hat : AtEntry env n ptr) :
    Program.Triple (Recorded env n) (loadAndVerifySegment env n ptr)
      (fun ptr' s => Recorded env (n + 1) s ∧ AtEntry env (n + 1) ptr')
      (RecordedUpTo env (n + 1)) := by
  unfold loadAndVerifySegment
  refine .bind (onLoader_recorded _ (Nat.le_succ n)) fun _ => ?_
  refine .bind (bootSegVerification_recorded hat) fun ptr' => ?_
  refine ⟨fun s ⟨hs, hat'⟩ => ?_⟩
  exact ((onLoader_recorded _ (Nat.le_refl _)).bind fun _ =>
    .pure fun t ht => ⟨ht, hat'⟩).run s hs

/-- **The walk.** The rounds so far have compared the segments to compare, each with its entry. -/
theorem loadAndVerifySegments_recorded (env : HashEnv) (n : Nat) :
    Program.Triple (Recorded env 0) (loadAndVerifySegments env n)
      (fun ptr s => Recorded env n s ∧ AtEntry env n ptr) (RecordedUpTo env n) := by
  induction n with
  | zero =>
    refine .pure fun s hs => ⟨hs, fun _ => .inl ?_⟩
    rw [entriesBefore, Nat.mul_zero, Nat.add_zero]
  | succ n ih =>
    refine .bind (ih.conseq (fun _ hs => hs) (fun _ _ hs => hs) fun s ⟨k, hk, hs⟩ =>
      ⟨k, Nat.le_succ_of_le hk, hs⟩) fun ptr => ?_
    exact ⟨fun s ⟨hs, hat⟩ => (loadAndVerifySegment_recorded hat).run s hs⟩

/-- A comparison that was noted down is right exactly if its segment's entry fits. -/
theorem Recorded.right_iff (h : Recorded env n s) {c : Comparison} (hc : c ∈ s.compared) :
    ComparedRight env c ↔ EntryFits env c.index := by
  have hentry := h.entry c hc
  have hhashed := h.hashed c hc
  have hstart := hashSegmentStart_toNat env
  have hbuffer : Span.Within ⟨c.entry.toNat, (sblHashLen env).toNat⟩
      ⟨env.hashSegmentBase.toNat, hashSegmentSize.toNat⟩ ↔
      headerSize.toNat + (sblHashLen env).toNat * (entriesBefore env c.index + 1) ≤
        hashSegmentSize.toNat := by
    simp only [Span.Within, hentry, hstart, show headerSize.toNat = 40 from rfl, Nat.mul_succ]
    omega
  constructor
  · rintro ⟨-, hin, hall⟩
    refine ⟨hbuffer.mp hin, fun hpaged => ?_⟩
    have hlen := (Block.mk.inj (hhashed.symm.trans (hall hpaged))).2
    rw [← hlen]
    exact Nat.mod_lt _ (by decide)
  · rintro ⟨hin, hsmall⟩
    refine ⟨hentry, hbuffer.mpr hin, fun hpaged => ?_⟩
    rw [hhashed, Nat.mod_eq_of_lt (hsmall hpaged)]

/-- **The hash table walk.** On any table, however the run ends, the segments whose digests are to
be compared have been compared up to some index, the whole table when the run returns; and all these
comparisons are right if and only if the entries of these segments fit the buffer. -/
theorem hashWalk_iff (env : HashEnv) (s : LoaderState) :
    ∃ n ≤ env.phdrNum.toNat,
      (∀ ptr t, loadAndVerifyImageInChunks env s = .ret ptr t → n = env.phdrNum.toNat) ∧
      (∀ i, (∃ c ∈ (loadAndVerifyImageInChunks env s).state.compared, c.index = i) ↔
        i < n ∧ Compared env i) ∧
      ((∀ c ∈ (loadAndVerifyImageInChunks env s).state.compared, ComparedRight env c) ↔
        ∀ i < n, Compared env i → EntryFits env i) := by
  have key : ∃ n ≤ env.phdrNum.toNat,
      (∀ ptr t, loadAndVerifyImageInChunks env s = .ret ptr t → n = env.phdrNum.toNat) ∧
      Recorded env n (loadAndVerifyImageInChunks env s).state := by
    have hrun := (loadAndVerifySegments_recorded env env.phdrNum.toNat).run ⟨s, []⟩ (.start s)
    unfold loadAndVerifyImageInChunks
    cases hend : loadAndVerifySegments env env.phdrNum.toNat ⟨s, []⟩ with
    | ret ptr t =>
      rw [hend] at hrun
      exact ⟨_, Nat.le_refl _, fun _ _ _ => rfl, hrun.1⟩
    | halt t | spin t =>
      rw [hend] at hrun
      obtain ⟨n, hn, hrecorded⟩ := hrun
      exact ⟨n, hn, nofun, hrecorded⟩
  obtain ⟨n, hn, hret, hrecorded⟩ := key
  refine ⟨n, hn, hret, hrecorded.indices, fun hright i hi hc => ?_, fun hfits c hc => ?_⟩
  · obtain ⟨c, hmem, rfl⟩ := (hrecorded.indices i).mpr ⟨hi, hc⟩
    exact (hrecorded.right_iff hmem).mp (hright c hmem)
  · obtain ⟨hlt, hcompared⟩ := (hrecorded.indices c.index).mp ⟨c, hc, rfl⟩
    exact (hrecorded.right_iff hc).mpr (hfits c.index hlt hcompared)

end

/-! ## A full hash segment -/

/-- The SHA-256 digest of four zero bytes. -/
def zerosDigest : Nat := 0x1911b814c02405e88c49bc52dc8a77ea48d73dc42d195740db2fa90498613fdf

/-- A paged segment of 766 pages, and a loadable one of four bytes. -/
def pagedThenLoadable (i : Nat) : Elf64Phdr :=
  if i = 0 then ⟨1, 0x100000, 0x1000, 0x81000000, 0x81000000, 0x2fe000, 0x2fe000, 0x1000⟩
  else if i = 1 then ⟨1, 0, 0x2ff000, 0x80000000, 0x80000000, 4, 4, 0x1000⟩
  else .zero

/-- The image, with its hash segment at `0x90000000`. -/
def fullTableEnv : HashEnv where
  elfFormat := .elfClass64
  phdrNum := 2
  phdrArray := pagedThenLoadable
  phdrArray32 _ := .zero
  whitelist := ddrState
  transIf := blankFlash
  isValidSegment i := i == 1
  isAuthEnabled := true
  segVerification _ _ := true
  elfSsaEnabled := true
  hashSegmentBase := 0x90000000
  base_le := by decide
  sblHashAlgorithm := .sha256
  elfCfgTableAuth := true
  skipElfHashVerification := false
  hashTableAuthResult := true
  elfIsEhdrPhdrHashSuccess := true
  bootHash _ message :=
    if message = [0, 0, 0, 0] then some ((Memory.zero.put 0 32 zerosDigest).bytes 0 32) else none

/-- Memory with the digest of the second segment at its entry. -/
def fullTableLoader : LoaderState :=
  { freshLoader with mem := freshLoader.mem.put 0x90005fe8 32 zerosDigest }

/-- The loader accepts the image. The digest of its second segment was compared with 32 bytes of
which the last eight lie behind the hash segment buffer. -/
theorem hashWalk_leaves_buffer :
    (∃ ptr, loadAndVerifyImageInChunks fullTableEnv fullTableLoader =
      .ret ptr (loadAndVerifyImageInChunks fullTableEnv fullTableLoader).state) ∧
    ¬ ∀ c ∈ (loadAndVerifyImageInChunks fullTableEnv fullTableLoader).state.compared,
      ComparedRight fullTableEnv c := by
  refine ⟨⟨0x90006008, rfl⟩, fun h => ?_⟩
  have hmem : ⟨1, 0x90005fe8, ⟨0x80000000, 4⟩⟩ ∈
      (loadAndVerifyImageInChunks fullTableEnv fullTableLoader).state.compared := by
    decide +kernel
  have hin := (h _ hmem).inBuffer
  exact absurd hin (by decide)

end XBLLoader
