import BootXf.XBLLoader.ElfLoaderConfinement

/-!
# The chunked load against the plain load

Both load paths are to leave the file bytes of a segment at its address and zeros behind them, and
the chunked one is to count what it loaded. `LoadsAlike` says this of a segment, for every content
of the partition and every memory: either both paths return, with the memory `loadedMemory` and the
total advanced by the size in memory, or both enter the error handler.

The paths differ where a 64-bit quantity passes through 32 bits (sizes, flash offsets, the total),
where the chunked path reads the size in memory of a 32-bit header from the wrong place, and where
only the plain path checks the whole range. `loadsAlike_iff` is the exact condition.
-/

namespace XBLLoader

open Lib Elf Program

/-- A flash device that delivers the bytes of a partition, all of them readable. -/
def partitionFlash (content : Nat → UInt8) : FlashTrans where
  read byteOffset size := ⟨true, size.toNat, fun j => content (byteOffset.toNat + j)⟩
  stored_le _ _ := Nat.le_refl _
  stored_of_ok _ _ _ := rfl

/-- The loader's surroundings with a partition of the given content. -/
def LoaderEnv.withPartition (env : LoaderEnv) (content : Nat → UInt8) : LoaderEnv :=
  { env with transIf := partitionFlash content }

theorem LoaderEnv.withPartition_transIf (env : LoaderEnv) (content : Nat → UInt8) :
    (env.withPartition content).transIf = partitionFlash content := rfl

section
variable (env : LoaderEnv) (C : UInt32) (i : Nat)

/-- The memory a load of the segment is to leave: the file bytes, zeros up to the size in memory,
and everything else as it was. -/
def loadedMemory (content : Nat → UInt8) (m : Memory) : Memory :=
  (m.store ⟨phdrPaddr env i, (phdrFilesz env i).toNat⟩
      fun j => content ((phdrOffset env i).toNat + j)).store
    ⟨phdrPaddr env i + phdrFilesz env i, (phdrMemsz env i).toNat - (phdrFilesz env i).toNat⟩
    fun _ => 0

/-- **The chunked load does what the plain load does.** For every partition and every state with
the given total, the two paths both return, leave the memory a load is to leave, and the chunked
one has advanced the total by the bytes loaded and zero-filled; or neither returns. -/
def LoadsAlike (total : UInt32) : Prop :=
  ∀ (content : Nat → UInt8) (s : LoaderState), s.totalElfSegmentsSize = total →
    match bootElfLoadSeg (env.withPartition content) i s,
      bootElfLoadSegInChunks (env.withPartition content) C i s with
    | .ret _ t, .ret _ t' =>
        t.mem = loadedMemory env i content s.mem ∧ t'.mem = t.mem ∧
          t'.totalElfSegmentsSize.toNat = total.toNat + (phdrMemsz env i).toNat
    | .halt _, .halt _ => True
    | _, _ => False

/-! ## The conditions -/

/-- The plain path refuses the segment: its range is in no entry, or the file size is a multiple of
`2 ^ 32`, of which no byte is left to read. -/
def PlainRefuses : Prop :=
  phdrMemsz env i ≠ 0 ∧
    (bootWhitelistAddressRangeCheck env.whitelist (phdrPaddr env i) (phdrMemsz env i)
        .imageBodyType = false ∨
      phdrFilesz env i ≠ 0 ∧ (phdrFilesz env i).toUInt32 = 0)

/-- Every chunk lies in an entry, and the total has room for it. -/
def ChunksAllowed (total : UInt32) : Prop :=
  HasFilePart env i → ∀ k, k * C.toNat < (phdrFilesz env i).toNat →
    bootWhitelistAddressRangeCheck env.whitelist (chunkDest env C i k)
        (.ofNat (chunkLen env C i k)) .imageBodyType = true ∧
      total.toNat + k * C.toNat + chunkLen env C i k < 2 ^ 32

instance : Decidable (HasFilePart env i) :=
  inferInstanceAs (Decidable (_ ∧ _))

instance : Decidable (HasZeroFill env i) :=
  inferInstanceAs (Decidable (_ ∧ _))

/-- How many file bytes the chunked path counts. -/
def fileBytesCounted : Nat :=
  if HasFilePart env i then (phdrFilesz env i).toNat else 0

/-- The chunked path refuses the segment: a chunk is in no entry or overflows the total, or the
64-bit sum of the total and the zero-fill wraps. -/
def ChunkedRefuses (total : UInt32) : Prop :=
  ¬ ChunksAllowed env C i total ∨
    HasZeroFill env i ∧ 2 ^ 64 ≤ total.toNat + fileBytesCounted env i +
      (phdrMemszAsElf64 env i - phdrFilesz env i).toNat

/-- Both paths load the segment, and nothing is lost in 32 bits: the range lies in an entry, the
total has room for the size in memory, the chunked path reads that size up to a multiple of
`2 ^ 32`, and the last chunk starts below the 32-bit limit of flash offsets. -/
structure BothLoad (total : UInt32) : Prop where
  inEntry : phdrMemsz env i = 0 ∨
    bootWhitelistAddressRangeCheck env.whitelist (phdrPaddr env i) (phdrMemsz env i)
      .imageBodyType = true
  room : total.toNat + (phdrMemsz env i).toNat < 2 ^ 32
  memsz : (phdrMemszAsElf64 env i).toNat % 2 ^ 32 = (phdrMemsz env i).toNat
  offset : phdrFilesz env i ≠ 0 →
    (phdrOffset env i).toNat + ((phdrFilesz env i).toNat - 1) / C.toNat * C.toNat < 2 ^ 32

end

section
variable {env : LoaderEnv} {C : UInt32} {i : Nat} {content : Nat → UInt8}

/-! ## What each path does -/

/-- On a readable partition the file part loads when its chunks are allowed. -/
theorem filePartLoads_iff (hflash : env.transIf = partitionFlash content) {total : UInt32} :
    FilePartLoads env C i total ↔ ChunksAllowed env C i total := by
  refine ⟨fun h hfile k hk => ⟨(h hfile k hk).allowed, (h hfile k hk).counts⟩,
    fun h hfile k hk => ⟨(h hfile k hk).1, ?_, (h hfile k hk).2⟩⟩
  rw [chunkRead, hflash]
  rfl

/-- The check of no bytes fails. -/
theorem check_zero (wl : WhitelistState) (dest : UInt64) (bf : BufferType) :
    bootWhitelistAddressRangeCheck wl dest 0 bf = false := by
  simp [bootWhitelistAddressRangeCheck]

/-- A range that lies inside a checked range passes the check. -/
theorem check_of_le (hwf : env.whitelist.currImageWhitelstTbl.WF) {base dest size n : UInt64}
    (h : bootWhitelistAddressRangeCheck env.whitelist base size .imageBodyType = true)
    (hlo : base.toNat ≤ dest.toNat) (hpos : 0 < n.toNat)
    (hhi : dest.toNat + n.toNat ≤ base.toNat + size.toNat) :
    bootWhitelistAddressRangeCheck env.whitelist dest n .imageBodyType = true := by
  obtain ⟨hwrap, e, he, hwithin⟩ := exists_entry_of_check hwf h
  rw [bootWhitelistAddressRangeCheck_eq]
  exact (checkRangeAgainstWhtlst_iff hwf dest n).mpr
    ⟨hpos, by omega, e, he, Span.Within.trans ⟨hlo, hhi⟩ hwithin⟩

variable (env) in
/-- The plain path, when it refuses. -/
theorem bootElfLoadSeg_halt (hvalid : env.isValidSegment i = true)
    (hsize : phdrMemsz env i ≥ phdrFilesz env i) (h : PlainRefuses env i) (s : LoaderState) :
    ∃ s', bootElfLoadSeg env i s = .halt s' := by
  obtain ⟨hmemsz, hrefuse⟩ := h
  refine ⟨s, ?_⟩
  rw [bootElfLoadSeg, if_pos hvalid, bootElfLoadSegGeneric]
  cases hcheck : bootWhitelistAddressRangeCheck env.whitelist (phdrPaddr env i) (phdrMemsz env i)
      .imageBodyType with
  | false => simp [verifySegmentRange, hmemsz, hcheck]
  | true =>
    rcases hrefuse with hfalse | ⟨hfilesz, hlow⟩
    · rw [hcheck] at hfalse; cases hfalse
    · -- a read of no bytes is refused
      have hread : bootFlashTransRead env (phdrPaddr env i) (phdrOffset env i).toUInt32 0
          .imageBodyType s = .ret false s := by
        rw [bootFlashTransRead_run, show (0 : UInt32).toUInt64 = 0 from rfl, check_zero]
        rfl
      simp [verifySegmentRange, readSegment, hmemsz, hcheck, hfilesz, hsize, hlow,
        bind_run, hread]

/-- The read of the plain path, when the whole range has passed the check. -/
theorem readSegment_ret (hflash : env.transIf = partitionFlash content)
    (hwf : env.whitelist.currImageWhitelstTbl.WF) (hsize : phdrMemsz env i ≥ phdrFilesz env i)
    (hmemsz : phdrMemsz env i ≠ 0)
    (hcheck : bootWhitelistAddressRangeCheck env.whitelist (phdrPaddr env i) (phdrMemsz env i)
      .imageBodyType = true)
    (hlow : phdrFilesz env i ≠ 0 → (phdrFilesz env i).toUInt32 ≠ 0) (s : LoaderState) :
    ∃ t, readSegment env i (phdrPaddr env i) .imageBodyType s = .ret () t ∧
      t.mem = s.mem.store ⟨phdrPaddr env i, (phdrFilesz env i).toUInt32.toNat⟩
        fun j => content ((phdrOffset env i).toUInt32.toNat + j) := by
  by_cases hfilesz : phdrFilesz env i = 0
  · refine ⟨s, by simp [readSegment, hfilesz], ?_⟩
    rw [hfilesz]
    exact (Memory.store_zero_len _ _ _).symm
  · have hle := UInt64.le_iff_toNat_le.mp hsize
    have hpos : 0 < (phdrFilesz env i).toUInt32.toUInt64.toNat := by
      rw [UInt32.toNat_toUInt64]
      refine Nat.pos_of_ne_zero fun hz => hlow hfilesz ?_
      exact UInt32.toNat_inj.mp hz
    have hmod : (phdrFilesz env i).toUInt32.toUInt64.toNat ≤ (phdrFilesz env i).toNat := by
      rw [UInt32.toNat_toUInt64, UInt64.toNat_toUInt32]
      exact Nat.mod_le _ _
    have hallowed := check_of_le hwf hcheck (Nat.le_refl _) hpos (by omega)
    refine ⟨s.store ⟨phdrPaddr env i, (phdrFilesz env i).toUInt32.toNat⟩
      fun j => content ((phdrOffset env i).toUInt32.toNat + j), ?_, rfl⟩
    rw [readSegment, if_pos ⟨hmemsz, hfilesz, hsize⟩, bind_run, bootFlashTransRead_run,
      if_pos hallowed, hflash]
    rfl

/-- The zero-fill of the plain path. -/
theorem zeroFillSegment_ret {dest : UInt64} (hsize : phdrMemsz env i ≥ phdrFilesz env i)
    (hwrap : dest.toNat + (phdrMemsz env i).toNat < 2 ^ 64) (s : LoaderState) :
    ∃ t, zeroFillSegment env i dest s = .ret () t ∧
      t.mem = s.mem.store ⟨dest + phdrFilesz env i,
        (phdrMemsz env i - phdrFilesz env i).toUInt32.toNat⟩ fun _ => 0 := by
  have hle := UInt64.le_iff_toNat_le.mp hsize
  by_cases hzero : phdrMemsz env i > phdrFilesz env i
  · have hend : dest + phdrFilesz env i ≥ dest := by
      rw [ge_iff_le, UInt64.le_iff_toNat_le, uint64_toNat_add (by omega)]
      exact Nat.le_add_right _ _
    exact ⟨_, by rw [zeroFillSegment, if_pos ⟨hzero, hend⟩]; rfl, rfl⟩
  · have heq : phdrMemsz env i = phdrFilesz env i :=
      UInt64.le_antisymm (UInt64.not_lt.mp hzero) hsize
    refine ⟨s, by rw [zeroFillSegment, if_neg fun hz => hzero hz.1]; rfl, ?_⟩
    rw [heq, UInt64.sub_self]
    exact (Memory.store_zero_len _ _ _).symm

/-- The plain path, when it loads: it stores the low half of the file size from the low half of the
offset, and zero-fills the low half of the rest. -/
theorem bootElfLoadSeg_ret (hflash : env.transIf = partitionFlash content)
    (hwf : env.whitelist.currImageWhitelstTbl.WF) (hvalid : env.isValidSegment i = true)
    (hsize : phdrMemsz env i ≥ phdrFilesz env i) (h : ¬ PlainRefuses env i) (s : LoaderState) :
    ∃ s', bootElfLoadSeg env i s = .ret () s' ∧
      s'.mem = (s.mem.store ⟨phdrPaddr env i, (phdrFilesz env i).toUInt32.toNat⟩
          fun j => content ((phdrOffset env i).toUInt32.toNat + j)).store
        ⟨phdrPaddr env i + phdrFilesz env i,
          (phdrMemsz env i - phdrFilesz env i).toUInt32.toNat⟩ fun _ => 0 := by
  rw [bootElfLoadSeg, if_pos hvalid, bootElfLoadSegGeneric]
  by_cases hmemsz : phdrMemsz env i = 0
  · -- a dummy segment: nothing is stored
    have hfilesz : phdrFilesz env i = 0 := by
      have hle := UInt64.le_iff_toNat_le.mp hsize
      rw [hmemsz] at hle
      exact uint64_eq_zero.mpr (Nat.le_zero.mp hle)
    refine ⟨s, by simp [verifySegmentRange, readSegment, zeroFillSegment, hmemsz], ?_⟩
    rw [hmemsz, hfilesz]
    exact ((Memory.store_zero_len _ _ _).trans (Memory.store_zero_len _ _ _)).symm
  · have hcheck : bootWhitelistAddressRangeCheck env.whitelist (phdrPaddr env i) (phdrMemsz env i)
        .imageBodyType = true := by
      cases hc : bootWhitelistAddressRangeCheck env.whitelist (phdrPaddr env i) (phdrMemsz env i)
          .imageBodyType with
      | true => rfl
      | false => exact absurd ⟨hmemsz, .inl hc⟩ h
    have hverify : verifySegmentRange env i (phdrPaddr env i) .imageBodyType s = .ret () s := by
      rw [verifySegmentRange, if_pos hmemsz, hcheck]
      rfl
    obtain ⟨t, ht, hmem⟩ := readSegment_ret hflash hwf hsize hmemsz hcheck
      (fun hf hz => h ⟨hmemsz, .inr ⟨hf, hz⟩⟩) s
    obtain ⟨u, hu, hmem'⟩ := zeroFillSegment_ret hsize (exists_entry_of_check hwf hcheck).1 t
    exact ⟨u, by rw [bind_ret hverify, bind_ret ht, hu], by rw [hmem', hmem]⟩

/-- The zero-fill of the chunked path: the block is stored, and the total advances unless the
64-bit sum wraps. -/
theorem zeroFillInChunks_run (s : LoaderState) (h : HasZeroFill env i) :
    (s.totalElfSegmentsSize.toNat + (phdrMemszAsElf64 env i - phdrFilesz env i).toNat < 2 ^ 64 →
      ∃ t, zeroFillInChunks env i s = .ret () t ∧
        t.mem = s.mem.store (zeroBlock env i) (fun _ => 0) ∧
        t.totalElfSegmentsSize.toNat = (s.totalElfSegmentsSize.toNat +
          (phdrMemszAsElf64 env i - phdrFilesz env i).toNat) % 2 ^ 32) ∧
    (2 ^ 64 ≤ s.totalElfSegmentsSize.toNat +
        (phdrMemszAsElf64 env i - phdrFilesz env i).toNat →
      ∃ t, zeroFillInChunks env i s = .halt t) := by
  have hpos : 0 < (phdrMemszAsElf64 env i - phdrFilesz env i).toNat := by
    have hlt := UInt64.lt_iff_toNat_lt.mp h.1
    rw [UInt64.toNat_sub_of_le _ _ (UInt64.le_of_lt h.1)]
    omega
  simp only [zeroFillInChunks, qmemsetZero, modify_bind, get_bind]
  have htot : s.totalElfSegmentsSize.toUInt64.toNat = s.totalElfSegmentsSize.toNat :=
    UInt32.toNat_toUInt64 _
  have hx := (phdrMemszAsElf64 env i - phdrFilesz env i).toNat_lt
  constructor
  · intro hsum
    have hgrow : s.totalElfSegmentsSize.toUInt64 + (phdrMemszAsElf64 env i - phdrFilesz env i) >
        s.totalElfSegmentsSize.toUInt64 := by
      rw [gt_iff_lt, UInt64.lt_iff_toNat_lt, uint64_toNat_add (by omega)]
      omega
    have hgrow' : decide ((s.store ⟨phdrPaddr env i + phdrFilesz env i,
        (phdrMemszAsElf64 env i - phdrFilesz env i).toUInt32.toNat⟩ fun _ => 0
        ).totalElfSegmentsSize.toUInt64 + (phdrMemszAsElf64 env i - phdrFilesz env i) >
        (s.store ⟨phdrPaddr env i + phdrFilesz env i,
        (phdrMemszAsElf64 env i - phdrFilesz env i).toUInt32.toNat⟩ fun _ => 0
        ).totalElfSegmentsSize.toUInt64) = true := decide_eq_true hgrow
    rw [hgrow', verify_true, pure_bind, modify_bind]
    refine ⟨_, rfl, ?_, ?_⟩
    · split <;> rfl
    · split <;>
      · simp only [LoaderState.store, UInt64.toNat_toUInt32]
        rw [uint64_toNat_add (by omega), htot]
  · intro hsum
    have hshrink : ¬ s.totalElfSegmentsSize.toUInt64 +
        (phdrMemszAsElf64 env i - phdrFilesz env i) > s.totalElfSegmentsSize.toUInt64 := by
      rw [gt_iff_lt, UInt64.lt_iff_toNat_lt, UInt64.toNat_add]
      omega
    exact ⟨_, bind_halt (congrFun (congrArg verify (decide_eq_false hshrink)) _)⟩

/-- The total after the file part. -/
theorem loadFileInChunks_total (hC : 0 < C.toNat) {s : LoaderState}
    (h : FilePartLoads env C i s.totalElfSegmentsSize) :
    ∃ t, loadFileInChunks env C i s = .ret () t ∧
      t.mem = (if HasFilePart env i then s.mem.store
        ⟨phdrPaddr env i, (phdrFilesz env i).toNat⟩ (chunkByte env C i) else s.mem) ∧
      t.totalElfSegmentsSize.toNat = s.totalElfSegmentsSize.toNat + fileBytesCounted env i := by
  obtain ⟨t, ht, hfile, hnone⟩ := loadFileInChunks_ret hC h
  refine ⟨t, ht, ?_⟩
  by_cases hpart : HasFilePart env i
  · rw [fileBytesCounted, if_pos hpart, if_pos hpart]
    exact ⟨(hfile hpart).2, (hfile hpart).1⟩
  · rw [fileBytesCounted, if_neg hpart, if_neg hpart, hnone hpart]
    exact ⟨rfl, rfl⟩

/-- The chunked path, when it refuses. -/
theorem bootElfLoadSegInChunks_halt (hflash : env.transIf = partitionFlash content)
    (hC : 0 < C.toNat) (hvalid : env.isValidSegment i = true) {s : LoaderState}
    (h : ChunkedRefuses env C i s.totalElfSegmentsSize) :
    ∃ s', bootElfLoadSegInChunks env C i s = .halt s' := by
  by_cases hchunks : ChunksAllowed env C i s.totalElfSegmentsSize
  · rcases h with h | ⟨hfill, hwrap⟩
    · exact absurd hchunks h
    · obtain ⟨t, ht, -, htot⟩ := loadFileInChunks_total hC ((filePartLoads_iff hflash).mpr hchunks)
      obtain ⟨u, hu⟩ := (zeroFillInChunks_run t hfill).2 (by rw [htot]; exact hwrap)
      rw [bootElfLoadSegInChunks_of_hasZeroFill hvalid hfill, bind_ret ht]
      exact ⟨u, hu⟩
  · obtain ⟨t, ht⟩ := loadFileInChunks_halt hC fun hl => hchunks ((filePartLoads_iff hflash).mp hl)
    rw [bootElfLoadSegInChunks, if_pos hvalid]
    exact ⟨t, bind_halt ht⟩

/-- The chunked path, when it loads. -/
theorem bootElfLoadSegInChunks_ret (hflash : env.transIf = partitionFlash content)
    (hC : 0 < C.toNat) (hvalid : env.isValidSegment i = true) {s : LoaderState}
    (h : ¬ ChunkedRefuses env C i s.totalElfSegmentsSize) :
    ∃ s', bootElfLoadSegInChunks env C i s = .ret () s' ∧
      s'.mem =
        (if HasFilePart env i then s.mem.store ⟨phdrPaddr env i, (phdrFilesz env i).toNat⟩
            (chunkByte env C i) else s.mem).store
          (if HasZeroFill env i then zeroBlock env i else ⟨phdrPaddr env i, 0⟩) (fun _ => 0) ∧
      s'.totalElfSegmentsSize.toNat = (s.totalElfSegmentsSize.toNat + fileBytesCounted env i +
        if HasZeroFill env i then (phdrMemszAsElf64 env i - phdrFilesz env i).toNat else 0)
          % 2 ^ 32 := by
  have hchunks : ChunksAllowed env C i s.totalElfSegmentsSize :=
    Classical.byContradiction fun hnot => h (.inl hnot)
  obtain ⟨t, ht, hmem, htot⟩ :=
    loadFileInChunks_total hC ((filePartLoads_iff hflash).mpr hchunks)
  by_cases hfill : HasZeroFill env i
  · have hsum : t.totalElfSegmentsSize.toNat +
        (phdrMemszAsElf64 env i - phdrFilesz env i).toNat < 2 ^ 64 := by
      rw [htot]
      exact Nat.not_le.mp fun hle => h (.inr ⟨hfill, hle⟩)
    obtain ⟨u, hu, humem, hutot⟩ := (zeroFillInChunks_run t hfill).1 hsum
    refine ⟨u, ?_, ?_, ?_⟩
    · rw [bootElfLoadSegInChunks_of_hasZeroFill hvalid hfill, bind_ret ht, hu]
    · rw [humem, hmem, if_pos hfill]
    · rw [hutot, htot, if_pos hfill]
  · refine ⟨t, ?_, ?_, ?_⟩
    · rw [bootElfLoadSegInChunks_of_not_hasZeroFill hvalid hfill, bind_ret ht]
      rfl
    · rw [if_neg hfill, Memory.store_zero_len, hmem]
    · have hlt := t.totalElfSegmentsSize.toNat_lt
      rw [if_neg hfill, Nat.add_zero, ← htot, Nat.mod_eq_of_lt hlt]

/-! ## Reading what a load left -/

/-- The bytes of a store, by their distance from its start. -/
theorem store_add (m : Memory) (start : UInt64) {len j : Nat} (f : Nat → UInt8) (hj : j < len)
    (hlen : len ≤ 2 ^ 64) : m.store ⟨start, len⟩ f (start + .ofNat j) = f j := by
  have hs := start.toNat_lt
  have hdist : (start + .ofNat j - start).toNat = j := by
    simp only [UInt64.toNat_sub, UInt64.toNat_add, UInt64.toNat_ofNat']
    omega
  rw [Memory.store_of_mem (by rw [Block.Mem, hdist]; exact hj), hdist]

/-- A store behind a block leaves the block alone. -/
theorem store_add_before (m : Memory) (start : UInt64) {len₁ j : Nat} (len₂ : Nat)
    (f : Nat → UInt8) (hj : j < len₁) (hlen : len₁ + len₂ ≤ 2 ^ 64) :
    m.store ⟨start + .ofNat len₁, len₂⟩ f (start + .ofNat j) = m (start + .ofNat j) := by
  have hs := start.toNat_lt
  refine Memory.store_of_not_mem ?_
  simp only [Block.Mem, UInt64.toNat_sub, UInt64.toNat_add, UInt64.toNat_ofNat']
  omega

/-- A load is to leave the `j`-th file byte at distance `j` from the segment's address. -/
theorem loadedMemory_add (hsize : phdrMemsz env i ≥ phdrFilesz env i) (m : Memory) {j : Nat}
    (hj : j < (phdrFilesz env i).toNat) :
    loadedMemory env i content m (phdrPaddr env i + .ofNat j) =
      content ((phdrOffset env i).toNat + j) := by
  have hle := UInt64.le_iff_toNat_le.mp hsize
  have hm := (phdrMemsz env i).toNat_lt
  have hbefore := store_add_before (m.store ⟨phdrPaddr env i, (phdrFilesz env i).toNat⟩
    fun j => content ((phdrOffset env i).toNat + j)) (phdrPaddr env i)
    ((phdrMemsz env i).toNat - (phdrFilesz env i).toNat) (fun _ => 0) hj (by omega)
  rw [UInt64.ofNat_toNat] at hbefore
  rw [loadedMemory, hbefore, store_add _ _ _ hj (by omega)]

/-- A chunk's byte, on a partition: the flash offset of its chunk is taken in 32 bits. -/
theorem chunkByte_partition (hflash : env.transIf = partitionFlash content) (j : Nat) :
    chunkByte env C i j = content
      (((phdrOffset env i).toNat + j / C.toNat * C.toNat) % 2 ^ 32 + j % C.toNat) := by
  have ho := (phdrOffset env i).toNat_lt
  simp only [chunkByte, chunkRead, hflash, partitionFlash, chunkSource, UInt64.toNat_toUInt32,
    UInt64.toNat_add, UInt64.toNat_ofNat']
  congr 2
  omega

/-! ## When both paths load -/

namespace BothLoad
variable {total : UInt32}

theorem filesz_lt (hb : BothLoad env C i total) (hsize : phdrMemsz env i ≥ phdrFilesz env i) :
    total.toNat + (phdrFilesz env i).toNat < 2 ^ 32 := by
  have hle := UInt64.le_iff_toNat_le.mp hsize
  have hroom := hb.room
  omega

/-- The size in memory is at most what the chunked path takes it for. -/
theorem memsz_le (hb : BothLoad env C i total) :
    (phdrMemsz env i).toNat ≤ (phdrMemszAsElf64 env i).toNat := by
  have hmod := Nat.mod_le (phdrMemszAsElf64 env i).toNat (2 ^ 32)
  rw [hb.memsz] at hmod
  exact hmod

/-- The file part is gone through unless there are no file bytes. -/
theorem hasFilePart_iff (hb : BothLoad env C i total)
    (hsize : phdrMemsz env i ≥ phdrFilesz env i) :
    HasFilePart env i ↔ phdrFilesz env i ≠ 0 := by
  have hle := UInt64.le_iff_toNat_le.mp hsize
  have hmemsz := hb.memsz_le
  refine ⟨fun h => h.2.1, fun hf => ⟨?_, hf, ?_⟩⟩
  · rw [Ne, uint64_eq_zero] at hf ⊢
    omega
  · rw [ge_iff_le, UInt64.le_iff_toNat_le]
    omega

/-- The end of the file bytes does not wrap. -/
theorem filesz_no_wrap (hb : BothLoad env C i total) (hwf : env.whitelist.currImageWhitelstTbl.WF)
    (hsize : phdrMemsz env i ≥ phdrFilesz env i) :
    (phdrPaddr env i).toNat + (phdrFilesz env i).toNat < 2 ^ 64 := by
  have hle := UInt64.le_iff_toNat_le.mp hsize
  have hp := (phdrPaddr env i).toNat_lt
  rcases hb.inEntry with hz | hcheck
  · rw [uint64_eq_zero] at hz
    omega
  · have hwrap := (exists_entry_of_check hwf hcheck).1
    omega

/-- There is a zero-fill unless the chunked path takes the two sizes for the same. -/
theorem hasZeroFill_iff (hb : BothLoad env C i total) (hwf : env.whitelist.currImageWhitelstTbl.WF)
    (hsize : phdrMemsz env i ≥ phdrFilesz env i) :
    HasZeroFill env i ↔ phdrMemszAsElf64 env i > phdrFilesz env i := by
  refine ⟨fun h => h.1, fun h => ⟨h, ?_⟩⟩
  rw [ge_iff_le, UInt64.le_iff_toNat_le, uint64_toNat_add (hb.filesz_no_wrap hwf hsize)]
  exact Nat.le_add_right _ _

theorem not_plainRefuses (hb : BothLoad env C i total)
    (hsize : phdrMemsz env i ≥ phdrFilesz env i) : ¬ PlainRefuses env i := by
  rintro ⟨hmemsz, hfalse | ⟨hfilesz, hlow⟩⟩
  · rcases hb.inEntry with hz | hcheck
    · exact hmemsz hz
    · exact absurd (hfalse.symm.trans hcheck) Bool.false_ne_true
  · have hlt := hb.filesz_lt hsize
    have hzero : (phdrFilesz env i).toUInt32.toNat = 0 := by rw [hlow]; rfl
    rw [UInt64.toNat_toUInt32, Nat.mod_eq_of_lt (by omega)] at hzero
    exact hfilesz (uint64_eq_zero.mpr hzero)

/-- Every chunk lies in the entry of the whole range. -/
theorem chunksAllowed (hb : BothLoad env C i total) (hC : 0 < C.toNat)
    (hwf : env.whitelist.currImageWhitelstTbl.WF)
    (hsize : phdrMemsz env i ≥ phdrFilesz env i) : ChunksAllowed env C i total := by
  intro hfile k hk
  have hle := UInt64.le_iff_toNat_le.mp hsize
  have hlt := hb.filesz_lt hsize
  have hwrap := hb.filesz_no_wrap hwf hsize
  have hlen : chunkLen env C i k ≤ (phdrFilesz env i).toNat - k * C.toNat := Nat.min_le_right _ _
  have hpos : 0 < chunkLen env C i k := by simp only [chunkLen]; omega
  refine ⟨?_, by omega⟩
  rcases hb.inEntry with hz | hcheck
  · rw [uint64_eq_zero] at hz
    omega
  · have hn : (UInt64.ofNat (chunkLen env C i k)).toNat = chunkLen env C i k := by
      rw [UInt64.toNat_ofNat', Nat.mod_eq_of_lt (by omega)]
    have hoff : (UInt64.ofNat (k * C.toNat)).toNat = k * C.toNat := by
      rw [UInt64.toNat_ofNat', Nat.mod_eq_of_lt (by omega)]
    have hdest : (chunkDest env C i k).toNat = (phdrPaddr env i).toNat + k * C.toNat := by
      rw [chunkDest, uint64_toNat_add (by omega), hoff]
    exact check_of_le hwf hcheck (by omega) (by omega) (by omega)

/-- What the chunked path adds to the total, before it is cut to 32 bits. -/
theorem counted (hb : BothLoad env C i total) (hwf : env.whitelist.currImageWhitelstTbl.WF)
    (hsize : phdrMemsz env i ≥ phdrFilesz env i) :
    fileBytesCounted env i +
      (if HasZeroFill env i then (phdrMemszAsElf64 env i - phdrFilesz env i).toNat else 0) =
        (phdrMemszAsElf64 env i).toNat := by
  have hle := UInt64.le_iff_toNat_le.mp hsize
  have hmemsz := hb.memsz_le
  have hfile : fileBytesCounted env i = (phdrFilesz env i).toNat := by
    rw [fileBytesCounted]
    split
    · rfl
    · rename_i hno
      rw [hb.hasFilePart_iff hsize, Ne, Classical.not_not, uint64_eq_zero] at hno
      exact hno.symm
  rw [hfile]
  split
  · rename_i hfill
    rw [UInt64.toNat_sub_of_le _ _ (UInt64.le_of_lt hfill.1)]
    omega
  · rename_i hfill
    rw [hb.hasZeroFill_iff hwf hsize, gt_iff_lt, UInt64.lt_iff_toNat_lt] at hfill
    omega

theorem not_chunkedRefuses (hb : BothLoad env C i total) (hC : 0 < C.toNat)
    (hwf : env.whitelist.currImageWhitelstTbl.WF)
    (hsize : phdrMemsz env i ≥ phdrFilesz env i) : ¬ ChunkedRefuses env C i total := by
  rintro (hchunks | ⟨hfill, hwrap⟩)
  · exact hchunks (hb.chunksAllowed hC hwf hsize)
  · -- a sum that is the size in memory up to a multiple of `2 ^ 32` cannot reach `2 ^ 64`
    have hcounted := hb.counted hwf hsize
    rw [if_pos hfill] at hcounted
    have hm := (phdrMemszAsElf64 env i).toNat_lt
    have hmod := hb.memsz
    have hroom := hb.room
    omega

/-- The two zero-fills are one: the blocks agree up to a multiple of `2 ^ 32`. -/
theorem zeroBlock_eq (hb : BothLoad env C i total) (hwf : env.whitelist.currImageWhitelstTbl.WF)
    (hsize : phdrMemsz env i ≥ phdrFilesz env i) (m : Memory) :
    m.store (if HasZeroFill env i then zeroBlock env i else ⟨phdrPaddr env i, 0⟩) (fun _ => 0) =
      m.store ⟨phdrPaddr env i + phdrFilesz env i,
        (phdrMemsz env i).toNat - (phdrFilesz env i).toNat⟩ fun _ => 0 := by
  have hle := UInt64.le_iff_toNat_le.mp hsize
  have hmemsz := hb.memsz_le
  have hmod := hb.memsz
  have hroom := hb.room
  split
  · rename_i hfill
    have hlen : (phdrMemszAsElf64 env i - phdrFilesz env i).toUInt32.toNat =
        (phdrMemsz env i).toNat - (phdrFilesz env i).toNat := by
      rw [UInt64.toNat_toUInt32, UInt64.toNat_sub_of_le _ _ (UInt64.le_of_lt hfill.1)]
      omega
    rw [zeroBlock, hlen]
  · rename_i hfill
    rw [hb.hasZeroFill_iff hwf hsize, gt_iff_lt, UInt64.lt_iff_toNat_lt] at hfill
    rw [Memory.store_zero_len, show (phdrMemsz env i).toNat - (phdrFilesz env i).toNat = 0 by omega,
      Memory.store_zero_len]

/-- With the last chunk below the 32-bit limit, the chunks deliver the file bytes. -/
theorem chunkByte_eq (hb : BothLoad env C i total)
    (hflash : env.transIf = partitionFlash content) {j : Nat} (hj : j < (phdrFilesz env i).toNat) :
    chunkByte env C i j = content ((phdrOffset env i).toNat + j) := by
  have hf : phdrFilesz env i ≠ 0 := by rw [Ne, uint64_eq_zero]; omega
  have hoffset := hb.offset hf
  have hdiv : j / C.toNat ≤ ((phdrFilesz env i).toNat - 1) / C.toNat :=
    Nat.div_le_div_right (by omega)
  have hmul := Nat.mul_le_mul_right C.toNat hdiv
  have hsplit := Nat.div_add_mod' j C.toNat
  rw [chunkByte_partition hflash, Nat.mod_eq_of_lt (by omega)]
  congr 1
  omega

/-- **Both paths load**: they return with the memory a load is to leave, and the chunked one has
counted the size in memory. -/
theorem loads (hb : BothLoad env C i total) (hflash : env.transIf = partitionFlash content)
    (hC : 0 < C.toNat) (hwf : env.whitelist.currImageWhitelstTbl.WF)
    (hvalid : env.isValidSegment i = true) (hsize : phdrMemsz env i ≥ phdrFilesz env i)
    {s : LoaderState} (hs : s.totalElfSegmentsSize = total) :
    ∃ t t', bootElfLoadSeg env i s = .ret () t ∧ bootElfLoadSegInChunks env C i s = .ret () t' ∧
      t.mem = loadedMemory env i content s.mem ∧ t'.mem = t.mem ∧
        t'.totalElfSegmentsSize.toNat = total.toNat + (phdrMemsz env i).toNat := by
  have hle := UInt64.le_iff_toNat_le.mp hsize
  have hroom := hb.room
  have hlt := hb.filesz_lt hsize
  obtain ⟨t, ht, hmem⟩ :=
    bootElfLoadSeg_ret hflash hwf hvalid hsize (hb.not_plainRefuses hsize) s
  obtain ⟨t', ht', hmem', htot'⟩ := bootElfLoadSegInChunks_ret hflash hC hvalid
    (s := s) (by rw [hs]; exact hb.not_chunkedRefuses hC hwf hsize)
  have hplain : t.mem = loadedMemory env i content s.mem := by
    have hlow : (phdrFilesz env i).toUInt32.toNat = (phdrFilesz env i).toNat := by
      rw [UInt64.toNat_toUInt32, Nat.mod_eq_of_lt (by omega)]
    have hrest : (phdrMemsz env i - phdrFilesz env i).toUInt32.toNat =
        (phdrMemsz env i).toNat - (phdrFilesz env i).toNat := by
      rw [UInt64.toNat_toUInt32, UInt64.toNat_sub_of_le _ _ hsize, Nat.mod_eq_of_lt (by omega)]
    rw [hmem, hlow, hrest, loadedMemory]
    refine congrArg (fun m : Memory => m.store _ _) (Memory.store_congr fun j hj => ?_)
    have hf : phdrFilesz env i ≠ 0 := by
      rw [Ne, uint64_eq_zero]
      exact Nat.ne_of_gt (Nat.lt_of_le_of_lt (Nat.zero_le j) hj)
    have hoffset := hb.offset hf
    rw [UInt64.toNat_toUInt32, Nat.mod_eq_of_lt (by omega)]
  refine ⟨t, t', ht, ht', hplain, ?_, ?_⟩
  · rw [hmem', hb.zeroBlock_eq hwf hsize, hplain, loadedMemory]
    refine congrArg (fun m : Memory => m.store _ _) ?_
    split
    · exact Memory.store_congr fun j hj => hb.chunkByte_eq hflash hj
    · rename_i hno
      rw [hb.hasFilePart_iff hsize, Ne, Classical.not_not] at hno
      rw [hno]
      exact (Memory.store_zero_len _ _ _).symm
  · have hcounted := hb.counted hwf hsize
    have hmod := hb.memsz
    rw [htot', hs, Nat.add_assoc, hcounted]
    omega

end BothLoad

/-! ## When the paths agree -/

/-- What agreement says of the chunked path's own result, for one content of the partition: both
paths having returned, it is the memory a load is to leave. -/
structure ChunkedResult (env : LoaderEnv) (C : UInt32) (i : Nat) (total : UInt32)
    (content : Nat → UInt8) (m : Memory) : Prop where
  mem : (if HasFilePart env i then m.store ⟨phdrPaddr env i, (phdrFilesz env i).toNat⟩
        (chunkByte (env.withPartition content) C i) else m).store
      (if HasZeroFill env i then zeroBlock env i else ⟨phdrPaddr env i, 0⟩) (fun _ => 0) =
    loadedMemory env i content m
  total_eq : (total.toNat + fileBytesCounted env i +
      if HasZeroFill env i then (phdrMemszAsElf64 env i - phdrFilesz env i).toNat else 0) % 2 ^ 32 =
    total.toNat + (phdrMemsz env i).toNat

theorem LoadsAlike.chunkedResult {total : UInt32} (h : LoadsAlike env C i total)
    (hwf : env.whitelist.currImageWhitelstTbl.WF) (hC : 0 < C.toNat)
    (hvalid : env.isValidSegment i = true) (hsize : phdrMemsz env i ≥ phdrFilesz env i)
    (hplain : ¬ PlainRefuses env i) (hchunked : ¬ ChunkedRefuses env C i total)
    (content : Nat → UInt8) (m : Memory) : ChunkedResult env C i total content m := by
  obtain ⟨t, ht, -⟩ := bootElfLoadSeg_ret (env.withPartition_transIf content) hwf hvalid hsize
    hplain ⟨m, [], total, 0⟩
  obtain ⟨t', ht', hmem, htot⟩ := bootElfLoadSegInChunks_ret (env.withPartition_transIf content)
    hC hvalid (s := ⟨m, [], total, 0⟩) hchunked
  have hagree := h content ⟨m, [], total, 0⟩ rfl
  rw [ht, ht'] at hagree
  obtain ⟨hloaded, hsame, hcount⟩ := hagree
  exact ⟨hmem.symm.trans (hsame.trans hloaded), htot.symm.trans hcount⟩

/-- Agreement on a segment that neither path refuses leaves nothing to be lost in 32 bits. The
partitions that tell the paths apart otherwise are one full of ones, and one with a single one at
the first byte of the last chunk. -/
theorem LoadsAlike.bothLoad {total : UInt32} (h : LoadsAlike env C i total)
    (hwf : env.whitelist.currImageWhitelstTbl.WF) (hC : 0 < C.toNat)
    (hvalid : env.isValidSegment i = true) (hsize : phdrMemsz env i ≥ phdrFilesz env i)
    (hplain : ¬ PlainRefuses env i) (hchunked : ¬ ChunkedRefuses env C i total) :
    BothLoad env C i total := by
  have hle := UInt64.le_iff_toNat_le.mp hsize
  have hresult := h.chunkedResult hwf hC hvalid hsize hplain hchunked
  have hp := (phdrPaddr env i).toNat_lt
  have hentry : phdrMemsz env i = 0 ∨ bootWhitelistAddressRangeCheck env.whitelist
      (phdrPaddr env i) (phdrMemsz env i) .imageBodyType = true := by
    by_cases hz : phdrMemsz env i = 0
    · exact .inl hz
    · cases hc : bootWhitelistAddressRangeCheck env.whitelist (phdrPaddr env i) (phdrMemsz env i)
          .imageBodyType with
      | true => exact .inr rfl
      | false => exact absurd ⟨hz, .inl hc⟩ hplain
  have hwrap : (phdrPaddr env i).toNat + (phdrFilesz env i).toNat < 2 ^ 64 := by
    rcases hentry with hz | hcheck
    · rw [uint64_eq_zero] at hz; omega
    · have := (exists_entry_of_check hwf hcheck).1; omega
  have hfillIff : HasZeroFill env i ↔ phdrMemszAsElf64 env i > phdrFilesz env i := by
    refine ⟨fun hf => hf.1, fun hf => ⟨hf, ?_⟩⟩
    rw [ge_iff_le, UInt64.le_iff_toNat_le, uint64_toNat_add hwrap]
    exact Nat.le_add_right _ _
  have htotal := (hresult (fun _ => 0) (fun _ => 0)).total_eq
  have hroom : total.toNat + (phdrMemsz env i).toNat < 2 ^ 32 := by
    rw [← htotal]; exact Nat.mod_lt _ (by decide)
  -- file bytes that are not gone through would be missed in a partition full of ones
  have hfile : phdrFilesz env i ≠ 0 → HasFilePart env i := by
    intro hf
    refine Classical.byContradiction fun hno => ?_
    have hnofill : ¬ HasZeroFill env i := by
      rintro ⟨hgt, -⟩
      refine hno ⟨fun hz => ?_, hf, UInt64.le_of_lt hgt⟩
      rw [hz, gt_iff_lt, UInt64.lt_iff_toNat_lt] at hgt
      exact Nat.not_lt_zero _ hgt
    have hmem := (hresult (fun _ => 1) (fun _ => 0)).mem
    rw [if_neg hno, if_neg hnofill, Memory.store_zero_len] at hmem
    have hbyte := congrFun hmem (phdrPaddr env i + .ofNat 0)
    have hpos := Nat.pos_of_ne_zero fun hz => hf (uint64_eq_zero.mpr hz)
    rw [loadedMemory_add hsize _ hpos] at hbyte
    exact absurd hbyte (by decide)
  have hcounted : fileBytesCounted env i + (if HasZeroFill env i then
      (phdrMemszAsElf64 env i - phdrFilesz env i).toNat else 0) =
        (phdrMemszAsElf64 env i).toNat := by
    have hbytes : fileBytesCounted env i = (phdrFilesz env i).toNat ∧
        (phdrFilesz env i).toNat ≤ (phdrMemszAsElf64 env i).toNat := by
      by_cases hf : phdrFilesz env i = 0
      · rw [fileBytesCounted, if_neg fun hp => hp.2.1 hf, hf]
        exact ⟨rfl, Nat.zero_le _⟩
      · rw [fileBytesCounted, if_pos (hfile hf)]
        exact ⟨rfl, UInt64.le_iff_toNat_le.mp (hfile hf).2.2⟩
    rw [hbytes.1]
    split
    · rename_i hfill
      rw [UInt64.toNat_sub_of_le _ _ (UInt64.le_of_lt hfill.1)]
      omega
    · rename_i hfill
      rw [hfillIff, gt_iff_lt, UInt64.lt_iff_toNat_lt] at hfill
      omega
  refine ⟨hentry, hroom, ?_, fun hf => ?_⟩
  · rw [Nat.add_assoc, hcounted] at htotal
    omega
  · refine Classical.byContradiction fun hlast => ?_
    have hn : 0 < (phdrFilesz env i).toNat := Nat.pos_of_ne_zero fun hz =>
      hf (uint64_eq_zero.mpr hz)
    generalize hj : ((phdrFilesz env i).toNat - 1) / C.toNat * C.toNat = j at hlast
    have hjlt : j < (phdrFilesz env i).toNat := by
      have := Nat.div_mul_le_self ((phdrFilesz env i).toNat - 1) C.toNat
      omega
    have hdiv : j / C.toNat * C.toNat = j := by
      rw [← hj, Nat.mul_div_cancel _ hC]
    have hmodC : j % C.toNat = 0 := by
      rw [← hj, Nat.mul_mod_left]
    have hmem := (hresult (fun x => if x = (phdrOffset env i).toNat + j then 1 else 0)
      (fun _ => 0)).mem
    rw [if_pos (hfile hf)] at hmem
    have hbyte := congrFun hmem (phdrPaddr env i + .ofNat j)
    rw [loadedMemory_add hsize _ hjlt, if_pos rfl] at hbyte
    have hkeep : ∀ m : Memory, m.store (if HasZeroFill env i then zeroBlock env i
        else ⟨phdrPaddr env i, 0⟩) (fun _ => 0) (phdrPaddr env i + .ofNat j) =
          m (phdrPaddr env i + .ofNat j) := by
      intro m
      split
      · have hlen := (phdrMemszAsElf64 env i - phdrFilesz env i).toUInt32.toNat_lt
        have hbefore := store_add_before m (phdrPaddr env i)
          (phdrMemszAsElf64 env i - phdrFilesz env i).toUInt32.toNat (fun _ => 0) hjlt
          (by omega)
        rw [UInt64.ofNat_toNat] at hbefore
        exact hbefore
      · rw [Memory.store_zero_len]
    rw [hkeep, store_add _ _ _ hjlt (by omega),
      chunkByte_partition (env.withPartition_transIf _), hdiv, hmodC, Nat.add_zero] at hbyte
    have hoff : phdrOffset (env.withPartition fun x =>
        if x = (phdrOffset env i).toNat + j then 1 else 0) i = phdrOffset env i := rfl
    rw [hoff, if_neg (by omega)] at hbyte
    exact absurd hbyte (by decide)

end

/-- **When the chunked load is the plain load.** For a segment the secure world calls valid, whose
file size does not exceed its size in memory, with any chunk size and any whitelist that calls of
the whitelist module led to: the two paths agree, for every partition and every memory, exactly
when both load it without losing anything in 32 bits, or both refuse it. -/
theorem loadsAlike_iff {env : LoaderEnv} {C : UInt32} {i : Nat} {total : UInt32}
    {h : List (WhitelistCall × Bool)} (hrun : Run WhitelistStep .init h env.whitelist)
    (hC : 0 < C.toNat) (hvalid : env.isValidSegment i = true)
    (hsize : phdrMemsz env i ≥ phdrFilesz env i) :
    LoadsAlike env C i total ↔
      BothLoad env C i total ∨ PlainRefuses env i ∧ ChunkedRefuses env C i total := by
  have hwf : env.whitelist.currImageWhitelstTbl.WF := (whitelist_history hrun .imageBodyType).wf
  constructor
  · intro halike
    have hagree := halike (fun _ => 0) ⟨fun _ => 0, [], total, 0⟩ rfl
    by_cases hplain : PlainRefuses env i
    · refine .inr ⟨hplain, Classical.byContradiction fun hchunked => ?_⟩
      obtain ⟨t, ht⟩ := bootElfLoadSeg_halt (env.withPartition fun _ => 0) hvalid hsize
        hplain ⟨fun _ => 0, [], total, 0⟩
      obtain ⟨t', ht', -⟩ := bootElfLoadSegInChunks_ret (env.withPartition_transIf fun _ => 0) hC
        hvalid (s := ⟨fun _ => 0, [], total, 0⟩) hchunked
      rw [ht, ht'] at hagree
      exact hagree
    · refine .inl (halike.bothLoad hwf hC hvalid hsize hplain fun hchunked => ?_)
      obtain ⟨t, ht, -⟩ := bootElfLoadSeg_ret (env.withPartition_transIf fun _ => 0) hwf hvalid
        hsize hplain ⟨fun _ => 0, [], total, 0⟩
      obtain ⟨t', ht'⟩ := bootElfLoadSegInChunks_halt (env.withPartition_transIf fun _ => 0) hC
        hvalid (s := ⟨fun _ => 0, [], total, 0⟩) hchunked
      rw [ht, ht'] at hagree
      exact hagree
  · rintro (hb | ⟨hplain, hchunked⟩) content s hs
    · have hb' : BothLoad (env.withPartition content) C i total :=
        ⟨hb.inEntry, hb.room, hb.memsz, hb.offset⟩
      obtain ⟨t, t', ht, ht', hres⟩ := hb'.loads rfl hC hwf hvalid hsize hs
      rw [ht, ht']
      exact hres
    · obtain ⟨t, ht⟩ := bootElfLoadSeg_halt (env.withPartition content) hvalid hsize hplain s
      obtain ⟨t', ht'⟩ := bootElfLoadSegInChunks_halt (env.withPartition_transIf content) hC
        hvalid (s := s) (by rw [hs]; exact hchunked)
      rw [ht, ht']
      trivial

/-! ## Two segments -/

/-- A segment of a page of file bytes and a page of zeros, inside `ddrEntry`. -/
def twoPageHeader : Elf64Phdr :=
  ⟨1, 0, 0x1000, 0x80000000, 0x80000000, 0x1000, 0x2000, 0x1000⟩

/-- On `twoPageHeader` the chunked load is the plain load. -/
theorem loadsAlike_twoPage :
    Run WhitelistStep .init [(⟨.imageBodyType, .setEntry ddrEntry⟩, true)] ddrState ∧
      LoadsAlike (oneSegmentEnv true twoPageHeader) maxChunkSize 0 0 := by
  have run : Run WhitelistStep .init [(⟨.imageBodyType, .setEntry ddrEntry⟩, true)] ddrState :=
    .step .start rfl
  refine ⟨run, ?_⟩
  rw [@loadsAlike_iff (oneSegmentEnv true twoPageHeader) maxChunkSize 0 0 _ run (by decide) rfl
    (by decide)]
  exact .inl ⟨.inr (by decide), by decide, by decide, fun _ => by decide⟩

/-- The segment of `twoPageHeader` in a 32-bit image of one header. -/
def twoPageEnv32 : LoaderEnv where
  elfFormat := .elfClass32
  phdrNum := 1
  phdrArray _ := .zero
  phdrArray32 i :=
    if i = 0 then ⟨1, 0x1000, 0x80000000, 0x80000000, 0x1000, 0x2000, 0, 0x1000⟩ else .zero
  whitelist := ddrState
  transIf := blankFlash
  isValidSegment i := i == 0
  isAuthEnabled := true
  segVerification _ _ := true
  elfSsaEnabled := true

/-- In a 32-bit image the chunked path takes the size in memory from the header behind, here zero:
it loads nothing where the plain path loads two pages. -/
theorem chunked_load_misses_elf32_segment :
    Run WhitelistStep .init [(⟨.imageBodyType, .setEntry ddrEntry⟩, true)]
      twoPageEnv32.whitelist ∧
    twoPageEnv32.isValidSegment 0 = true ∧ phdrMemsz twoPageEnv32 0 ≥ phdrFilesz twoPageEnv32 0 ∧
    ¬ LoadsAlike twoPageEnv32 maxChunkSize 0 0 := by
  refine ⟨.step .start rfl, rfl, by decide, fun h => ?_⟩
  have hagree := h (fun _ => 1) freshLoader rfl
  exact absurd hagree.2.2 (by decide)

end XBLLoader
