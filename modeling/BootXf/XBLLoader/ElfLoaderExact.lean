import BootXf.XBLLoader.ElfLoaderRefinement
import BootXf.XBLLoader.SdccRead

/-!
# What the plain load of a segment leaves

`boot_elf_load_seg_generic` on a partition of the SDCC device, for headers of both classes, any
destination and either whitelist. Offsets and sizes of a header have up to 64 bits; the flash read
and the fill take 32 of them. `loadSegGeneric_exact_iff` says exactly for which segments the file
bytes and the zeros are there all the same.
-/

namespace XBLLoader

open Lib Elf Program

/-- The loader's surroundings with an image in a partition. -/
def LoaderEnv.onSdcc (env : LoaderEnv) (dev : ColdplugPartition) : LoaderEnv :=
  { env with transIf := sdccTrans dev }

section
variable (env : LoaderEnv) (i : Nat) (dest : UInt64)

/-- The destination holds the file bytes of the segment, zeros behind them up to the size in memory,
and nothing else has changed. -/
structure LoadedExactly (content : Contents) (m m' : Memory) : Prop where
  file : ∀ k < (phdrFilesz env i).toNat,
    m' (dest + .ofNat k) = content ((phdrOffset env i).toNat + k)
  zero : ∀ k, (phdrFilesz env i).toNat ≤ k → k < (phdrMemsz env i).toNat →
    m' (dest + .ofNat k) = 0
  frame : ∀ a, ¬ (Block.mk dest (phdrMemsz env i).toNat).Mem a → m' a = m a

/-- The 32-bit calls get there: the bytes they read, at the low half of the offset, are the ones at
the offset, and what they do not reach is in memory already. -/
structure Reaches32 (content : Contents) (m : Memory) : Prop where
  file : ∀ k < (phdrFilesz env i).toNat,
    if k < (phdrFilesz env i).toNat % 2 ^ 32 then
      content ((phdrOffset env i).toNat % 2 ^ 32 + k) = content ((phdrOffset env i).toNat + k)
    else m (dest + .ofNat k) = content ((phdrOffset env i).toNat + k)
  zero : ∀ k, (phdrFilesz env i).toNat ≤ k → k < (phdrMemsz env i).toNat →
    k - (phdrFilesz env i).toNat < ((phdrMemsz env i).toNat - (phdrFilesz env i).toNat) % 2 ^ 32 ∨
      m (dest + .ofNat k) = 0

end

section
variable {env : LoaderEnv} {i : Nat} {dest : UInt64} {content : Contents} {m : Memory}

/-- Below four gigabytes everything is reached. -/
theorem Reaches32.of_small (hoffset : (phdrOffset env i).toNat < 2 ^ 32)
    (hfilesz : (phdrFilesz env i).toNat < 2 ^ 32)
    (hrest : (phdrMemsz env i).toNat - (phdrFilesz env i).toNat < 2 ^ 32) :
    Reaches32 env i dest content m where
  file k hk := by
    rw [Nat.mod_eq_of_lt hoffset, Nat.mod_eq_of_lt hfilesz, if_pos hk]
  zero k _ hk := by
    rw [Nat.mod_eq_of_lt hrest]
    omega

/-- A checked range does not wrap. -/
theorem toNat_of_check {wl : WhitelistState} {start size : UInt64} {bf : BufferType}
    (h : bootWhitelistAddressRangeCheck wl start size bf = true) :
    start.toNat + size.toNat < 2 ^ 64 := by
  unfold bootWhitelistAddressRangeCheck at h
  split at h
  · cases h
  · rename_i hwrap
    simp only [Bool.or_eq_true, decide_eq_true_eq, uint64_add_lt_left, not_or] at hwrap
    omega

variable {dev : ColdplugPartition} {bf : BufferType} {s t : LoaderState} {u : Unit} {k : Nat}

theorem verifySegmentRange_inv (h : verifySegmentRange env i dest bf s = .ret u t) :
    t = s ∧ dest.toNat + (phdrMemsz env i).toNat < 2 ^ 64 := by
  unfold verifySegmentRange at h
  split at h
  · obtain ⟨hcheck, rfl⟩ := verify_eq_ret.mp h
    exact ⟨rfl, toNat_of_check hcheck⟩
  · rename_i hmemsz
    cases h
    rw [Decidable.not_not.mp hmemsz]
    exact ⟨rfl, dest.toNat_lt⟩

/-- A read that returned has stored the low half of the file size from the low half of the
offset. -/
theorem readSegment_inv (hsize : phdrMemsz env i ≥ phdrFilesz env i)
    (h : readSegment (env.onSdcc dev) i dest bf s = .ret u t) :
    t.mem = s.mem.store ⟨dest, (phdrFilesz env i).toUInt32.toNat⟩
      fun j => dev.content ((phdrOffset env i).toUInt32.toNat + j) := by
  unfold readSegment at h
  split at h
  · obtain ⟨_, s', hread, hverify⟩ := bind_eq_ret.mp h
    obtain ⟨rfl, rfl⟩ := verify_eq_ret.mp hverify
    rw [bootFlashTransRead_run] at hread
    split at hread
    · obtain ⟨hok, rfl⟩ := Outcome.ret.inj hread
      obtain ⟨hstored, hbyte⟩ := sdccTrans_read hok
      show s.mem.store ⟨dest, ((sdccTrans dev).read _ _).stored⟩ _ = _
      rw [hstored]
      exact Memory.store_congr hbyte
    · cases hread
  · rename_i hnone
    cases h
    have hfilesz : phdrFilesz env i = 0 := by
      rcases Classical.em (phdrFilesz env i = 0) with hzero | hzero
      · exact hzero
      · have hmemsz : phdrMemsz env i = 0 :=
          Decidable.byContradiction fun hm => hnone ⟨hm, hzero, hsize⟩
        have hle := UInt64.le_iff_toNat_le.mp hsize
        rw [hmemsz] at hle
        exact uint64_eq_zero.mpr (Nat.le_zero.mp hle)
    rw [hfilesz]
    exact (Memory.store_zero_len _ _ _).symm

/-- The memory of a load that returned. -/
theorem loadSegGeneric_mem (hsize : phdrMemsz env i ≥ phdrFilesz env i)
    (h : bootElfLoadSegGeneric (env.onSdcc dev) i dest bf s = .ret u t) :
    dest.toNat + (phdrMemsz env i).toNat < 2 ^ 64 ∧
      t.mem = (s.mem.store ⟨dest, (phdrFilesz env i).toNat % 2 ^ 32⟩
          fun j => dev.content ((phdrOffset env i).toNat % 2 ^ 32 + j)).store
        ⟨dest + phdrFilesz env i,
          ((phdrMemsz env i).toNat - (phdrFilesz env i).toNat) % 2 ^ 32⟩ fun _ => 0 := by
  obtain ⟨_, s₁, hverify, h⟩ := bind_eq_ret.mp h
  obtain ⟨_, s₂, hread, hfill⟩ := bind_eq_ret.mp h
  obtain ⟨rfl, hroom⟩ := verifySegmentRange_inv hverify
  have hsub : (phdrMemsz env i - phdrFilesz env i).toNat =
      (phdrMemsz env i).toNat - (phdrFilesz env i).toNat := UInt64.toNat_sub_of_le _ _ hsize
  obtain ⟨t', ht', hmem⟩ : ∃ t', zeroFillSegment (env.onSdcc dev) i dest s₂ = .ret () t' ∧
      t'.mem = s₂.mem.store ⟨dest + phdrFilesz env i,
        (phdrMemsz env i - phdrFilesz env i).toUInt32.toNat⟩ fun _ => 0 :=
    zeroFillSegment_ret hsize hroom s₂
  rw [ht'] at hfill
  cases hfill
  refine ⟨hroom, ?_⟩
  rw [hmem, readSegment_inv hsize hread, UInt64.toNat_toUInt32, UInt64.toNat_toUInt32,
    UInt64.toNat_toUInt32, hsub]

/-! ## The bytes of that memory -/

/-- An address at a distance from the destination. -/
theorem add_sub_toNat (a : UInt64) (hk : k < 2 ^ 64) : (a + .ofNat k - a).toNat = k := by
  have ha := a.toNat_lt
  simp only [UInt64.toNat_sub, UInt64.toNat_add, UInt64.toNat_ofNat']
  omega

variable {filesz memsz : UInt64} {f : Nat → UInt8} {n z : Nat}

/-- File bytes are not in the fill. -/
theorem stored_file (hsize : filesz.toNat ≤ memsz.toNat)
    (hz : z ≤ memsz.toNat - filesz.toNat) (hk : k < filesz.toNat) :
    (m.store ⟨dest, n⟩ f).store ⟨dest + filesz, z⟩ (fun _ => 0) (dest + .ofNat k) =
      if k < n then f k else m (dest + .ofNat k) := by
  have hm := memsz.toNat_lt
  have hd := dest.toNat_lt
  have hdist := add_sub_toNat dest (show k < 2 ^ 64 by omega)
  rw [Memory.store_of_not_mem]
  · simp only [Memory.store, Block.Mem, hdist]
  · simp only [Block.Mem, UInt64.toNat_sub, UInt64.toNat_add, UInt64.toNat_ofNat']
    omega

/-- Bytes behind them are not in the read. -/
theorem stored_rest (hn : n ≤ filesz.toNat) (hk : filesz.toNat ≤ k) (hlt : k < 2 ^ 64) :
    (m.store ⟨dest, n⟩ f).store ⟨dest + filesz, z⟩ (fun _ => 0) (dest + .ofNat k) =
      if k - filesz.toNat < z then 0 else m (dest + .ofNat k) := by
  have hdist := add_sub_toNat dest hlt
  have hdist' : (dest + .ofNat k - (dest + filesz)).toNat = k - filesz.toNat := by
    have hd := dest.toNat_lt
    have hf := filesz.toNat_lt
    simp only [UInt64.toNat_sub, UInt64.toNat_add, UInt64.toNat_ofNat']
    omega
  simp only [Memory.store, Block.Mem, hdist, hdist']
  rw [if_neg (show ¬ k < n by omega)]

/-- Other bytes are in neither. -/
theorem stored_other (hsize : filesz.toNat ≤ memsz.toNat)
    (hroom : dest.toNat + memsz.toNat < 2 ^ 64) (hn : n ≤ filesz.toNat)
    (hz : z ≤ memsz.toNat - filesz.toNat) {a : UInt64} (ha : ¬ (Block.mk dest memsz.toNat).Mem a) :
    (m.store ⟨dest, n⟩ f).store ⟨dest + filesz, z⟩ (fun _ => 0) a = m a := by
  have hlt := a.toNat_lt
  simp only [Block.Mem, UInt64.toNat_sub] at ha
  rw [Memory.store_of_not_mem, Memory.store_of_not_mem]
  · simp only [Block.Mem, UInt64.toNat_sub]
    omega
  · simp only [Block.Mem, UInt64.toNat_sub, UInt64.toNat_add]
    omega

/-- **The plain load, exactly.** A load that returned has left the segment's bytes and zeros, and
nothing else, if and only if the 32-bit calls reach all of them. -/
theorem loadSegGeneric_exact_iff (hsize : phdrMemsz env i ≥ phdrFilesz env i)
    (hret : bootElfLoadSegGeneric (env.onSdcc dev) i dest bf s = .ret () t) :
    LoadedExactly env i dest dev.content s.mem t.mem ↔ Reaches32 env i dest dev.content s.mem := by
  obtain ⟨hroom, hmem⟩ := loadSegGeneric_mem hsize hret
  have hle := UInt64.le_iff_toNat_le.mp hsize
  have hn := Nat.mod_le (phdrFilesz env i).toNat (2 ^ 32)
  have hz := Nat.mod_le ((phdrMemsz env i).toNat - (phdrFilesz env i).toNat) (2 ^ 32)
  have hlt := (phdrMemsz env i).toNat_lt
  rw [hmem]
  constructor
  · intro hloaded
    refine ⟨fun k hk => ?_, fun k hk hk' => ?_⟩
    · have hfile := hloaded.file k hk
      rw [stored_file hle hz hk] at hfile
      split at hfile
      · rwa [if_pos ‹_›]
      · rwa [if_neg ‹_›]
    · have hzero := hloaded.zero k hk hk'
      rw [stored_rest hn hk (by omega)] at hzero
      split at hzero
      · exact .inl ‹_›
      · exact .inr hzero
  · intro hreach
    refine ⟨fun k hk => ?_, fun k hk hk' => ?_, fun a ha => stored_other hle hroom hn hz ha⟩
    · have hfile := hreach.file k hk
      rw [stored_file hle hz hk]
      split at hfile
      · rwa [if_pos ‹_›]
      · rwa [if_neg ‹_›]
    · rw [stored_rest hn hk (by omega)]
      split
      · rfl
      · rename_i hnot
        exact (hreach.zero k hk hk').resolve_left hnot

end

/-! ## A segment above four gigabytes -/

/-- A partition with one byte below the offset `2 ^ 32` and another one above. -/
def largePartition : ColdplugPartition where
  chdl := true
  blksz := 512
  content k := if k < 0x100000000 then 7 else 9
  read lba n :=
    (true, Contents.read (fun k => if k < 0x100000000 then 7 else 9) (lba.toNat * 512)
      (n.toNat * 512))
  blksz_ge := Nat.le_refl _
  read_length _ _ := Nat.le_of_eq (Contents.length_read _ _ _)
  read_ok _ _ _ := rfl

/-- A segment of four file bytes and four zeros, at an offset of the partition. -/
def segmentAt (offset : UInt64) : Elf64Phdr :=
  ⟨1, 0, offset, 0x80000000, 0x80000000, 4, 8, 0x1000⟩

/-- It is loaded from there. -/
def loadSegmentAt (offset : UInt64) : Outcome LoaderState Unit :=
  bootElfLoadSegGeneric ((oneSegmentEnv false (segmentAt offset)).onSdcc largePartition)
    0 0x80000000
    .imageBodyType freshLoader

theorem loadSegmentAt_low :
    LoadedExactly (oneSegmentEnv false (segmentAt 0x1000)) 0 0x80000000 largePartition.content
      freshLoader.mem (loadSegmentAt 0x1000).state.mem := by
  have hret : loadSegmentAt 0x1000 = .ret () (loadSegmentAt 0x1000).state := rfl
  refine (loadSegGeneric_exact_iff (by decide) hret).mpr (.of_small ?_ ?_ ?_)
  · decide
  · decide
  · decide

/-- The load of a segment at the offset `2 ^ 32` returns with the bytes at the offset 0. -/
theorem loadSegmentAt_high :
    loadSegmentAt 0x100000000 = .ret () (loadSegmentAt 0x100000000).state ∧
      ¬ LoadedExactly (oneSegmentEnv false (segmentAt 0x100000000)) 0 0x80000000
        largePartition.content freshLoader.mem (loadSegmentAt 0x100000000).state.mem := by
  refine ⟨rfl, fun h => ?_⟩
  have hfirst := h.file 0 (by decide)
  have hread : (loadSegmentAt 0x100000000).state.mem (0x80000000 + .ofNat 0) = 7 := by
    decide +kernel
  rw [hread] at hfirst
  exact absurd hfirst (by decide +kernel)

end XBLLoader
