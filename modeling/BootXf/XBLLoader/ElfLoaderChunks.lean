import BootXf.XBLLoader.ElfLoader

/-!
# What the chunk loop does

The chunk loop walks a segment's file bytes with running pointers. Seen from outside, its `k`-th
round handles the bytes from `k * chunkSize` on, as many as remain up to a chunk: `ChunkOk` says
when that round passes its three checks (the whitelist, the flash read, the 32-bit total), in terms
of the header and the total at the start. `loadFileInChunks_ret` and `loadFileInChunks_halt` then
give the whole loop: it returns exactly when every round is fine, with the bytes of all chunks
stored as one block and the total advanced by the file size, and enters the error handler
otherwise. It never runs out of the rounds `chunkBudget` allows.
-/

namespace XBLLoader

open Lib Elf Program

section
variable (env : LoaderEnv) (C : UInt32) (i : Nat)

/-- How many bytes round `k` handles. -/
def chunkLen (k : Nat) : Nat := min C.toNat ((phdrFilesz env i).toNat - k * C.toNat)

/-- Where round `k` stores. -/
def chunkDest (k : Nat) : UInt64 := phdrPaddr env i + .ofNat (k * C.toNat)

/-- The flash offset round `k` asks for, as the flash interface receives it. -/
def chunkSource (k : Nat) : UInt32 := (phdrOffset env i + .ofNat (k * C.toNat)).toUInt32

/-- What the flash device answers in round `k`. -/
def chunkRead (k : Nat) : FlashRead :=
  env.transIf.read (chunkSource env C i k) (.ofNat (chunkLen env C i k))

/-- Round `k` passes its checks, the total having been `total` before the first round. -/
structure ChunkOk (total : UInt32) (k : Nat) : Prop where
  allowed : bootWhitelistAddressRangeCheck env.whitelist (chunkDest env C i k)
    (.ofNat (chunkLen env C i k)) .imageBodyType = true
  reads : (chunkRead env C i k).ok = true
  counts : total.toNat + k * C.toNat + chunkLen env C i k < 2 ^ 32

/-- The file part of a segment is gone through: sizes are not zero, and the file size does not
exceed the size in memory as the chunked path reads it. -/
def HasFilePart : Prop :=
  phdrMemszAsElf64 env i ≠ 0 ∧ phdrFilesz env i ≠ 0 ∧ phdrMemszAsElf64 env i ≥ phdrFilesz env i

/-- Every round of the file part passes its checks. -/
def FilePartLoads (total : UInt32) : Prop :=
  HasFilePart env i → ∀ k, k * C.toNat < (phdrFilesz env i).toNat → ChunkOk env C i total k

/-- The `n`-th file byte as the chunks deliver it. -/
def chunkByte (n : Nat) : UInt8 := (chunkRead env C i (n / C.toNat)).byte (n % C.toNat)

/-- The loop's variables before round `k`. -/
abbrev cursorAt (k : Nat) : ChunkCursor :=
  ⟨.ofNat ((phdrFilesz env i).toNat - k * C.toNat), chunkDest env C i k,
    phdrOffset env i + .ofNat (k * C.toNat), C⟩

end

section
variable {env : LoaderEnv} {C : UInt32} {i : Nat}

variable (env C i) in
theorem chunkLen_le (k : Nat) : chunkLen env C i k ≤ C.toNat := Nat.min_le_left _ _

theorem toUInt64_ofNat_chunkLen (k : Nat) :
    (UInt32.ofNat (chunkLen env C i k)).toUInt64 = .ofNat (chunkLen env C i k) := by
  have hle := chunkLen_le env C i k
  have hC := C.toNat_lt
  apply UInt64.toNat_inj.mp
  rw [UInt32.toNat_toUInt64, UInt32.toNat_ofNat', UInt64.toNat_ofNat']
  omega

/-- The chunk size the loop settles on in round `k`. -/
theorem chunkSize_cursorAt (k : Nat) :
    (if (cursorAt env C i k).remainingData < C.toUInt64 then
      (cursorAt env C i k).remainingData.toUInt32 else C) = .ofNat (chunkLen env C i k) := by
  have hn := (phdrFilesz env i).toNat_lt
  have hC := C.toNat_lt
  apply UInt32.toNat_inj.mp
  simp only [UInt64.lt_iff_toNat_lt, UInt64.toNat_ofNat', UInt32.toNat_toUInt64,
    UInt32.toNat_ofNat', chunkLen]
  split
  · rw [UInt64.toNat_toUInt32, UInt64.toNat_ofNat']
    omega
  · omega

/-- Storing at a block, whose length is noted on the total and the length register. -/
def LoaderState.load (env : LoaderEnv) (s : LoaderState) (b : Block) (f : Nat → UInt8)
    (len : UInt32) : LoaderState :=
  { s with
    mem := s.mem.store b f
    written := b :: s.written
    totalElfSegmentsSize := s.totalElfSegmentsSize + len
    pmiCodeLength :=
      if env.isAuthEnabled then s.pmiCodeLength else s.totalElfSegmentsSize + len }

/-- A flash read that the whitelist allows stores what the device delivers; any other is refused. -/
theorem bootFlashTransRead_run (dest : UInt64) (off size : UInt32) (bf : BufferType)
    (s : LoaderState) :
    bootFlashTransRead env dest off size bf s =
      if bootWhitelistAddressRangeCheck env.whitelist dest size.toUInt64 bf then
        .ret (env.transIf.read off size).ok
          (s.store ⟨dest, (env.transIf.read off size).stored⟩ (env.transIf.read off size).byte)
      else .ret false s := by
  unfold bootFlashTransRead
  split <;> rfl

/-- One round of the chunk loop with bytes left, by its chunk size. -/
theorem loadChunk_run {c : ChunkCursor} {len : UInt32} (hrem : c.remainingData ≠ 0)
    (hlen : (if c.remainingData < c.chunkSize.toUInt64 then c.remainingData.toUInt32
      else c.chunkSize) = len) (s : LoaderState) :
    loadChunk env c s =
      if bootWhitelistAddressRangeCheck env.whitelist c.chunkDestAddr len.toUInt64
          .imageBodyType then
        let r := env.transIf.read c.chunkOffset.toUInt32 len
        if r.ok ∧ s.totalElfSegmentsSize + len > s.totalElfSegmentsSize then
          .ret (.inl ⟨c.remainingData - len.toUInt64, c.chunkDestAddr + len.toUInt64,
              c.chunkOffset + len.toUInt64, len⟩)
            (s.load env ⟨c.chunkDestAddr, r.stored⟩ r.byte len)
        else .halt (s.store ⟨c.chunkDestAddr, r.stored⟩ r.byte)
      else .halt s := by
  unfold loadChunk
  rw [if_neg hrem]
  simp only [hlen]
  by_cases hcheck : bootWhitelistAddressRangeCheck env.whitelist c.chunkDestAddr len.toUInt64
      .imageBodyType
  · rw [bind_ret (by rw [bootFlashTransRead_run, if_pos hcheck]), if_pos hcheck]
    cases hok : (env.transIf.read c.chunkOffset.toUInt32 len).ok with
    | false => simp
    | true =>
      by_cases htot : s.totalElfSegmentsSize + len > s.totalElfSegmentsSize
      · simp [LoaderState.store, LoaderState.load, htot, setPmiCodeLengthUnlessAuth,
          bind_run]
        split <;> simp_all
      · simp [LoaderState.store, htot, bind_run]
  · rw [bind_ret (by rw [bootFlashTransRead_run, if_neg hcheck]), if_neg hcheck]
    rfl

/-- The 32-bit total grows by a length that is not zero exactly when the sum fits. -/
theorem total_lt_add_iff {t len : UInt32} (hlen : 0 < len.toNat) :
    t + len > t ↔ t.toNat + len.toNat < 2 ^ 32 := by
  have ht := t.toNat_lt
  have hl := len.toNat_lt
  simp only [gt_iff_lt, UInt32.lt_iff_toNat_lt, UInt32.toNat_add]
  omega

theorem remaining_cursorAt_ne_zero {k : Nat} (hrem : k * C.toNat < (phdrFilesz env i).toNat) :
    (cursorAt env C i k).remainingData ≠ 0 := by
  have hn := (phdrFilesz env i).toNat_lt
  rw [Ne, uint64_eq_zero, cursorAt, UInt64.toNat_ofNat']
  omega

variable (env C i) in
theorem toNat_ofNat_chunkLen (k : Nat) :
    (UInt32.ofNat (chunkLen env C i k)).toNat = chunkLen env C i k := by
  have hle := chunkLen_le env C i k
  have hC := C.toNat_lt
  rw [UInt32.toNat_ofNat', Nat.mod_eq_of_lt (by omega)]

/-- A round that passes its checks: the chunk is stored and counted, and the pointers move on. -/
theorem loadChunk_ok {total : UInt32} {k : Nat} {s : LoaderState} (hC : 0 < C.toNat)
    (hrem : k * C.toNat < (phdrFilesz env i).toNat) (hok : ChunkOk env C i total k)
    (htotal : s.totalElfSegmentsSize.toNat = total.toNat + k * C.toNat) :
    loadChunk env (cursorAt env C i k) s =
      .ret (.inl ⟨.ofNat ((phdrFilesz env i).toNat - k * C.toNat) - .ofNat (chunkLen env C i k),
          chunkDest env C i k + .ofNat (chunkLen env C i k),
          phdrOffset env i + .ofNat (k * C.toNat) + .ofNat (chunkLen env C i k),
          .ofNat (chunkLen env C i k)⟩)
        (s.load env ⟨chunkDest env C i k, chunkLen env C i k⟩ (chunkRead env C i k).byte
          (.ofNat (chunkLen env C i k))) := by
  have hlen := toNat_ofNat_chunkLen env C i k
  have hpos : 0 < chunkLen env C i k := by
    simp only [chunkLen]; omega
  have hcounts := hok.counts
  have htot : s.totalElfSegmentsSize + .ofNat (chunkLen env C i k) > s.totalElfSegmentsSize :=
    (total_lt_add_iff (by omega)).mpr (by omega)
  have hreads : (env.transIf.read (phdrOffset env i + .ofNat (k * C.toNat)).toUInt32
      (.ofNat (chunkLen env C i k))).ok = true := hok.reads
  have hstored := env.transIf.stored_of_ok _ _ hreads
  rw [hlen] at hstored
  rw [loadChunk_run (remaining_cursorAt_ne_zero hrem) (chunkSize_cursorAt k),
    toUInt64_ofNat_chunkLen, if_pos hok.allowed]
  simp only [hreads, htot, and_self, if_true, hstored]
  rfl

/-- A round that fails a check enters the error handler. -/
theorem loadChunk_not_ok {total : UInt32} {k : Nat} {s : LoaderState} (hC : 0 < C.toNat)
    (hrem : k * C.toNat < (phdrFilesz env i).toNat) (hok : ¬ ChunkOk env C i total k)
    (htotal : s.totalElfSegmentsSize.toNat = total.toNat + k * C.toNat) :
    ∃ s', loadChunk env (cursorAt env C i k) s = .halt s' := by
  have hlen := toNat_ofNat_chunkLen env C i k
  have hpos : 0 < chunkLen env C i k := by
    simp only [chunkLen]; omega
  rw [loadChunk_run (remaining_cursorAt_ne_zero hrem) (chunkSize_cursorAt k),
    toUInt64_ofNat_chunkLen]
  by_cases hcheck : bootWhitelistAddressRangeCheck env.whitelist (chunkDest env C i k)
      (.ofNat (chunkLen env C i k)) .imageBodyType
  · rw [if_pos hcheck]
    dsimp only
    rw [if_neg]
    · exact ⟨_, rfl⟩
    · rintro ⟨hread, htot⟩
      rw [total_lt_add_iff (by omega), hlen, htotal] at htot
      exact hok ⟨hcheck, hread, htot⟩
  · rw [if_neg hcheck]
    exact ⟨_, rfl⟩

/-! ## The whole loop -/

/-- The variables after a full chunk are those before the next round. -/
theorem cursorAt_succ {k : Nat} (h : k * C.toNat + C.toNat ≤ (phdrFilesz env i).toNat) :
    (⟨.ofNat ((phdrFilesz env i).toNat - k * C.toNat) - .ofNat (chunkLen env C i k),
      chunkDest env C i k + .ofNat (chunkLen env C i k),
      phdrOffset env i + .ofNat (k * C.toNat) + .ofNat (chunkLen env C i k),
      .ofNat (chunkLen env C i k)⟩ : ChunkCursor) = cursorAt env C i (k + 1) := by
  have hlen : chunkLen env C i k = C.toNat := by
    simp only [chunkLen]; omega
  have hsucc : (k + 1) * C.toNat = k * C.toNat + C.toNat := Nat.succ_mul k C.toNat
  have hn := (phdrFilesz env i).toNat_lt
  have hrem : UInt64.ofNat ((phdrFilesz env i).toNat - k * C.toNat) - .ofNat C.toNat =
      .ofNat ((phdrFilesz env i).toNat - (k + 1) * C.toNat) := by
    rw [← UInt64.ofNat_sub (by omega), hsucc, Nat.sub_add_eq]
  rw [hlen, hrem, chunkDest, UInt64.add_assoc, UInt64.add_assoc, ← UInt64.ofNat_add, ← hsucc,
    UInt32.ofNat_toNat]
  rfl

/-- Inside round `k` the bytes are those its read delivers. -/
theorem chunkByte_of_lt {k j : Nat} (hj : j < C.toNat) :
    chunkByte env C i (k * C.toNat + j) = (chunkRead env C i k).byte j := by
  have hdiv : (k * C.toNat + j) / C.toNat = k := by
    rw [Nat.add_comm, Nat.add_mul_div_right _ _ (by omega), Nat.div_eq_of_lt hj, Nat.zero_add]
  have hmod : (k * C.toNat + j) % C.toNat = j := by
    rw [Nat.add_comm, Nat.add_mul_mod_self_right, Nat.mod_eq_of_lt hj]
  rw [chunkByte, hdiv, hmod]

/-- The chunk of round `k` and the bytes of all later rounds are one block. -/
theorem store_chunk_store_rest (m : Memory) {k : Nat}
    (h : k * C.toNat + C.toNat ≤ (phdrFilesz env i).toNat) :
    (m.store ⟨chunkDest env C i k, C.toNat⟩ (chunkRead env C i k).byte).store
        ⟨chunkDest env C i (k + 1), (phdrFilesz env i).toNat - (k + 1) * C.toNat⟩
        (fun j => chunkByte env C i ((k + 1) * C.toNat + j)) =
      m.store ⟨chunkDest env C i k, (phdrFilesz env i).toNat - k * C.toNat⟩
        (fun j => chunkByte env C i (k * C.toNat + j)) := by
  have hn := (phdrFilesz env i).toNat_lt
  have hsucc : (k + 1) * C.toNat = k * C.toNat + C.toNat := Nat.succ_mul k C.toNat
  have hdest : chunkDest env C i (k + 1) = chunkDest env C i k + .ofNat C.toNat := by
    rw [chunkDest, chunkDest, UInt64.add_assoc, ← UInt64.ofNat_add, hsucc]
  rw [hdest, Memory.store_store_adjacent _ _ _ _ (by omega),
    show C.toNat + ((phdrFilesz env i).toNat - (k + 1) * C.toNat) =
      (phdrFilesz env i).toNat - k * C.toNat by omega]
  refine Memory.store_congr fun j _ => ?_
  split
  · rw [chunkByte_of_lt ‹_›]
  · rw [show (k + 1) * C.toNat + (j - C.toNat) = k * C.toNat + j by omega]

/-- **The chunk loop, when every round is fine.** From round `k` it returns with the remaining file
bytes stored as one block and counted. The induction is on the budget of rounds, with `k` running
up. -/
theorem chunkLoop_ret {total : UInt32} (hC : 0 < C.toNat)
    (hall : ∀ k, k * C.toNat < (phdrFilesz env i).toNat → ChunkOk env C i total k) :
    ∀ (fuel k : Nat) (s : LoaderState), k * C.toNat ≤ (phdrFilesz env i).toNat →
      (phdrFilesz env i).toNat - k * C.toNat + C.toNat ≤ fuel * C.toNat →
      s.totalElfSegmentsSize.toNat = total.toNat + k * C.toNat →
      ∃ s', iter (loadChunk env) fuel (cursorAt env C i k) s = .ret () s' ∧
        s'.totalElfSegmentsSize.toNat = total.toNat + (phdrFilesz env i).toNat ∧
        s'.mem = s.mem.store ⟨chunkDest env C i k, (phdrFilesz env i).toNat - k * C.toNat⟩
          (fun j => chunkByte env C i (k * C.toNat + j))
  | 0, k, s, _, hfuel, _ => by omega
  | fuel + 1, k, s, hk, hfuel, htotal => by
      have hdone (c : ChunkCursor) (t : LoaderState) (hc : c.remainingData = 0) (f : Nat) :
          iter (loadChunk env) (f + 1) c t = .ret () t := by
        simp only [iter, loadChunk, if_pos hc]
        rfl
      have hfuel' : (fuel + 1) * C.toNat = fuel * C.toNat + C.toNat := Nat.succ_mul fuel C.toNat
      rcases Nat.eq_or_lt_of_le hk with heq | hrem
      · refine ⟨s, hdone _ _ ?_ fuel, by omega, ?_⟩
        · show UInt64.ofNat ((phdrFilesz env i).toNat - k * C.toNat) = 0
          rw [heq, Nat.sub_self]; rfl
        · rw [heq, Nat.sub_self, Memory.store_zero_len]
      · have hok := hall k hrem
        have hcounts := hok.counts
        have hlen := toNat_ofNat_chunkLen env C i k
        have hrun := loadChunk_ok hC hrem hok htotal
        have htotal' : (s.load env ⟨chunkDest env C i k, chunkLen env C i k⟩
            (chunkRead env C i k).byte
            (.ofNat (chunkLen env C i k))).totalElfSegmentsSize.toNat =
              total.toNat + k * C.toNat + chunkLen env C i k := by
          simp only [LoaderState.load, UInt32.toNat_add, hlen, htotal]
          omega
        simp only [iter]
        rw [bind_ret hrun]
        dsimp only
        by_cases hfull : k * C.toNat + C.toNat ≤ (phdrFilesz env i).toNat
        · -- a full chunk: the rest is the loop from the next round
          have hlenC : chunkLen env C i k = C.toNat := by simp only [chunkLen]; omega
          have hsucc : (k + 1) * C.toNat = k * C.toNat + C.toNat := Nat.succ_mul k C.toNat
          rw [cursorAt_succ hfull]
          obtain ⟨s', hs', htot', hmem'⟩ := chunkLoop_ret hC hall fuel (k + 1) _ (by omega)
            (by omega) (by rw [htotal', hlenC]; omega)
          refine ⟨s', hs', htot', ?_⟩
          rw [hmem', ← store_chunk_store_rest s.mem hfull, ← hlenC]
          rfl
        · -- the last, shorter chunk: nothing remains
          have hlenR : chunkLen env C i k = (phdrFilesz env i).toNat - k * C.toNat := by
            simp only [chunkLen]; omega
          obtain ⟨f, rfl⟩ : ∃ f, fuel = f + 1 := ⟨fuel - 1, by
            rcases Nat.eq_zero_or_pos fuel with rfl | hpos
            · omega
            · omega⟩
          refine ⟨_, hdone _ _ ?_ f, by omega, ?_⟩
          · rw [hlenR]; exact UInt64.sub_self _
          · rw [← hlenR]
            refine Memory.store_congr fun j hj => ?_
            exact (chunkByte_of_lt (Nat.lt_of_lt_of_le hj (chunkLen_le env C i k))).symm

/-- **The chunk loop, when some round fails.** It enters the error handler. -/
theorem chunkLoop_halt {total : UInt32} (hC : 0 < C.toNat) :
    ∀ (fuel k : Nat) (s : LoaderState), k * C.toNat ≤ (phdrFilesz env i).toNat →
      (phdrFilesz env i).toNat - k * C.toNat + C.toNat ≤ fuel * C.toNat →
      s.totalElfSegmentsSize.toNat = total.toNat + k * C.toNat →
      (∃ j, k ≤ j ∧ j * C.toNat < (phdrFilesz env i).toNat ∧ ¬ ChunkOk env C i total j) →
      ∃ s', iter (loadChunk env) fuel (cursorAt env C i k) s = .halt s'
  | 0, k, s, _, hfuel, _, _ => by omega
  | fuel + 1, k, s, hk, hfuel, htotal, ⟨j, hkj, hj, hnot⟩ => by
      have hfuel' : (fuel + 1) * C.toNat = fuel * C.toNat + C.toNat := Nat.succ_mul fuel C.toNat
      have hmono : k * C.toNat ≤ j * C.toNat := Nat.mul_le_mul_right _ hkj
      have hrem : k * C.toNat < (phdrFilesz env i).toNat := by omega
      simp only [iter]
      by_cases hok : ChunkOk env C i total k
      · have hne : k ≠ j := fun h => hnot (h ▸ hok)
        have hsucc : (k + 1) * C.toNat = k * C.toNat + C.toNat := Nat.succ_mul k C.toNat
        have hnext : (k + 1) * C.toNat ≤ j * C.toNat :=
          Nat.mul_le_mul_right _ (by omega)
        have hcounts := hok.counts
        have hlen := toNat_ofNat_chunkLen env C i k
        have hlenC : chunkLen env C i k = C.toNat := by simp only [chunkLen]; omega
        rw [bind_ret (loadChunk_ok hC hrem hok htotal)]
        dsimp only
        rw [cursorAt_succ (by omega)]
        refine chunkLoop_halt hC fuel (k + 1) _ (by omega) (by omega) ?_
          ⟨j, by omega, hj, hnot⟩
        simp only [LoaderState.load, UInt32.toNat_add, hlen, htotal]
        omega
      · obtain ⟨s', hs'⟩ := loadChunk_not_ok hC hrem hok htotal
        exact ⟨s', bind_halt hs'⟩

theorem chunkBudget_enough (n : UInt64) (hC : 0 < C.toNat) :
    n.toNat + C.toNat ≤ chunkBudget n C * C.toNat := by
  have h := Nat.lt_div_mul_add (a := n.toNat) hC
  rw [chunkBudget, Nat.add_mul]
  omega

theorem chunkDest_zero : chunkDest env C i 0 = phdrPaddr env i := by
  rw [chunkDest, Nat.zero_mul]
  exact UInt64.add_zero _

theorem cursorAt_zero :
    cursorAt env C i 0 = ⟨phdrFilesz env i, phdrPaddr env i, phdrOffset env i, C⟩ := by
  rw [cursorAt, chunkDest_zero, Nat.zero_mul, Nat.sub_zero, UInt64.ofNat_toNat]
  exact congrArg (fun o => (⟨_, _, o, _⟩ : ChunkCursor)) (UInt64.add_zero _)

theorem loadFileInChunks_of_hasFilePart (h : HasFilePart env i) :
    loadFileInChunks env C i = iter (loadChunk env) (chunkBudget (phdrFilesz env i) C)
      (cursorAt env C i 0) := by
  rw [cursorAt_zero]
  exact if_pos h

theorem loadFileInChunks_of_not_hasFilePart (h : ¬ HasFilePart env i) :
    loadFileInChunks env C i = pure () :=
  if_neg h

/-- **The file part, when it loads.** Gone through, it stores the file bytes at the segment's
address and counts them; not gone through, it does nothing. -/
theorem loadFileInChunks_ret (hC : 0 < C.toNat) {s : LoaderState}
    (h : FilePartLoads env C i s.totalElfSegmentsSize) :
    ∃ s', loadFileInChunks env C i s = .ret () s' ∧
      (HasFilePart env i →
        s'.totalElfSegmentsSize.toNat =
            s.totalElfSegmentsSize.toNat + (phdrFilesz env i).toNat ∧
          s'.mem = s.mem.store ⟨phdrPaddr env i, (phdrFilesz env i).toNat⟩
            (chunkByte env C i)) ∧
      (¬ HasFilePart env i → s' = s) := by
  by_cases hfile : HasFilePart env i
  · obtain ⟨s', hs', htot, hmem⟩ := chunkLoop_ret hC (h hfile)
      (chunkBudget (phdrFilesz env i) C) 0 s (by omega)
      (by simpa using chunkBudget_enough (phdrFilesz env i) hC) (by simp)
    simp only [chunkDest_zero, Nat.zero_mul, Nat.sub_zero, Nat.zero_add] at hmem
    refine ⟨s', ?_, fun _ => ⟨htot, hmem⟩, fun hno => absurd hfile hno⟩
    rw [loadFileInChunks_of_hasFilePart hfile]
    exact hs'
  · refine ⟨s, ?_, fun hyes => absurd hyes hfile, fun _ => rfl⟩
    rw [loadFileInChunks_of_not_hasFilePart hfile]
    rfl

/-- **The file part, when it does not load.** -/
theorem loadFileInChunks_halt (hC : 0 < C.toNat) {s : LoaderState}
    (h : ¬ FilePartLoads env C i s.totalElfSegmentsSize) :
    ∃ s', loadFileInChunks env C i s = .halt s' := by
  simp only [FilePartLoads, Classical.not_imp, Classical.not_forall] at h
  obtain ⟨hfile, j, hj, hnot⟩ := h
  obtain ⟨s', hs'⟩ := chunkLoop_halt hC (chunkBudget (phdrFilesz env i) C) 0 s (by omega)
    (by simpa using chunkBudget_enough (phdrFilesz env i) hC) (by simp)
    ⟨j, Nat.zero_le j, hj, hnot⟩
  refine ⟨s', ?_⟩
  rw [loadFileInChunks_of_hasFilePart hfile]
  exact hs'

end

end XBLLoader
