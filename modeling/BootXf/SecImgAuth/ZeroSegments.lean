import BootXf.SecImgAuth.HashedSegments

/-!
# Zeroing what the file does not fill

`sec_img_auth_zero_segments_64` goes over the program headers of a verified image and clears, in
every loadable segment whose memory is whitelisted, the bytes behind the file's part. The length it
clears is a `uint32`, so of a gap of four gigabytes and more only the rest modulo `2 ^ 32` is
cleared; and the headers are read again in every round, from memory that the loop itself writes.
`zeroSegments_exact_iff` says exactly when the loop does what it is for.
-/

namespace SecImgAuth

open Lib Elf Checked

section
variable (elf : SecImgAuthElfInfo) (m : Memory)

/-! ## The table -/

/-- `prog_hdr[i]`. -/
def progHdr (i : Nat) : Elf64Phdr := phdrIndex .elfClass64 m elf.prog_hdr i

/-- `elf_hdr->e_phnum`. -/
def phNum : Nat := (ePhnum .elfClass64 m elf.elf_hdr).toNat

/-- Segment `i` is loadable. -/
def Loadable (i : Nat) : Prop :=
  i < phNum elf m ∧
    secImgAuthIsValidSegment elf.elf_format m (phdrAddr .elfClass64 elf.prog_hdr i) = true

/-- Segment `i` is loadable and its memory is whitelisted. -/
def ToZero (i : Nat) : Prop :=
  Loadable elf m i ∧
    secImgAuthIsValidArea elf.whitelist_area (progHdr elf m i).p_paddr
      ((progHdr elf m i).p_paddr + (progHdr elf m i).p_memsz) = true

/-- The part of a segment that its hash covers. -/
def filePart (i : Nat) : Block := ⟨(progHdr elf m i).p_paddr, (progHdr elf m i).p_filesz.toNat⟩

/-- The part of a segment behind the file's. -/
def bss (i : Nat) : Block :=
  ⟨(progHdr elf m i).p_paddr + (progHdr elf m i).p_filesz,
    (progHdr elf m i).p_memsz.toNat - (progHdr elf m i).p_filesz.toNat⟩

/-- What a 32-bit length reaches of it. -/
def cleared (i : Nat) : Block :=
  ⟨(progHdr elf m i).p_paddr + (progHdr elf m i).p_filesz,
    ((progHdr elf m i).p_memsz.toNat - (progHdr elf m i).p_filesz.toNat) % 2 ^ 32⟩

/-- The address is one of the ELF header's or of the program headers', which the first digest of
the hash segment covers. -/
def Headers (a : UInt64) : Prop :=
  (Block.mk elf.elf_hdr 64).Mem a ∨ (Block.mk elf.prog_hdr (phNum elf m * 56)).Mem a

/-- The second memory has the headers of the first one. -/
def SameHeaders (m' : Memory) : Prop := ∀ a, Headers elf m a → m' a = m a

/-- The sizes of a segment that passed the loop's check: the file's part is no longer than the
memory's, which ends inside the address space. -/
def Sane (i : Nat) : Prop :=
  (progHdr elf m i).p_filesz.toNat ≤ (progHdr elf m i).p_memsz.toNat ∧
    (progHdr elf m i).p_paddr.toNat + (progHdr elf m i).p_memsz.toNat < 2 ^ 64

end

/-! ## Equal headers -/

section
variable {elf : SecImgAuthElfInfo} {m m' : Memory} {i : Nat}

/-- A program header is read off its own bytes, in either class. -/
theorem phdrAt_congr {a : UInt64} (c : Format)
    (h : ∀ k, k < 56 → m' (a + .ofNat k) = m (a + .ofNat k)) : phdrAt c m' a = phdrAt c m a := by
  have field : ∀ (off : UInt64) (n : Nat), off.toNat + n ≤ 56 →
      m'.leNat (a + off) n = m.leNat (a + off) n := by
    intro off n hn
    apply Memory.leNat_congr
    intro k hk
    have hoff := h (off.toNat + k) (by omega)
    rwa [UInt64.ofNat_add, UInt64.ofNat_toNat, ← UInt64.add_assoc] at hoff
  have first : m'.leNat a 4 = m.leNat a 4 := by
    have := field 0 4 (by decide)
    rwa [UInt64.add_zero] at this
  cases c with
  | elfClass32 =>
    simp only [phdrAt, Memory.u32, first]
    rw [field 4 4 (by decide), field 8 4 (by decide), field 12 4 (by decide),
      field 16 4 (by decide), field 20 4 (by decide), field 24 4 (by decide),
      field 28 4 (by decide)]
  | elfClass64 =>
    simp only [phdrAt, Memory.u32, Memory.u64, first]
    rw [field 4 4 (by decide), field 8 8 (by decide), field 16 8 (by decide),
      field 24 8 (by decide), field 32 8 (by decide), field 40 8 (by decide),
      field 48 8 (by decide)]

theorem SameHeaders.phNum (h : SameHeaders elf m m') : phNum elf m' = phNum elf m := by
  have hread : m'.leNat (elf.elf_hdr + 56) 2 = m.leNat (elf.elf_hdr + 56) 2 := by
    apply Memory.leNat_congr
    intro k hk
    apply h
    left
    show (elf.elf_hdr + 56 + .ofNat k - elf.elf_hdr).toNat < 64
    have hs := elf.elf_hdr.toNat_lt
    simp only [UInt64.toNat_sub, UInt64.toNat_add, UInt64.toNat_ofNat', UInt64.reduceToNat]
    omega
  show (UInt16.ofNat _).toNat = (UInt16.ofNat _).toNat
  rw [hread]

theorem SameHeaders.phdrAt (h : SameHeaders elf m m') (hi : i < SecImgAuth.phNum elf m)
    (c : Format) :
    Elf.phdrAt c m' (phdrAddr .elfClass64 elf.prog_hdr i) =
      Elf.phdrAt c m (phdrAddr .elfClass64 elf.prog_hdr i) := by
  apply phdrAt_congr
  intro k hk
  apply h
  right
  show (elf.prog_hdr + .ofNat (i * 56) + .ofNat k - elf.prog_hdr).toNat < _
  have hs := elf.prog_hdr.toNat_lt
  have hnum : SecImgAuth.phNum elf m < 2 ^ 16 := UInt16.toNat_lt _
  simp only [UInt64.toNat_sub, UInt64.toNat_add, UInt64.toNat_ofNat']
  omega

theorem SameHeaders.progHdr (h : SameHeaders elf m m') (hi : i < SecImgAuth.phNum elf m) :
    progHdr elf m' i = progHdr elf m i := h.phdrAt hi .elfClass64

theorem SameHeaders.loadable (h : SameHeaders elf m m') : Loadable elf m' i ↔ Loadable elf m i := by
  unfold Loadable
  rw [h.phNum]
  apply and_congr_right
  intro hi
  unfold secImgAuthIsValidSegment
  rw [h.phdrAt hi]

theorem SameHeaders.toZero (h : SameHeaders elf m m') : ToZero elf m' i ↔ ToZero elf m i := by
  unfold ToZero
  rw [h.loadable]
  apply and_congr_right
  intro hl
  rw [h.progHdr hl.1]

theorem SameHeaders.cleared (h : SameHeaders elf m m') (hi : i < SecImgAuth.phNum elf m) :
    cleared elf m' i = cleared elf m i := by
  simp only [SecImgAuth.cleared, h.progHdr hi]

theorem SameHeaders.sane (h : SameHeaders elf m m') (hi : i < SecImgAuth.phNum elf m) :
    Sane elf m' i ↔ Sane elf m i := by
  simp only [Sane, h.progHdr hi]

end

/-! ## One round -/

/-- What round `i` does: a loadable segment is checked, and cleared if it is whitelisted. -/
structure Round (elf : SecImgAuthElfInfo) (i : Nat) (s t : CallState) : Prop where
  handle : t.s_img_handle = s.s_img_handle
  sane : Loadable elf s.mem i → Sane elf s.mem i
  zero : ToZero elf s.mem i → t.mem = s.mem.store (cleared elf s.mem i) fun _ => 0
  keep : ¬ ToZero elf s.mem i → t.mem = s.mem

section
variable {elf : SecImgAuthElfInfo} {m : Memory} {s t : CallState} {u : Unit} {i fuel : Nat}
  {a : UInt64}

/-- The `uint32` length in terms of the sizes. -/
theorem clearedLen_toNat {memsz filesz : UInt64} (h : filesz.toNat ≤ memsz.toNat) :
    (memsz - filesz).toUInt32.toNat = (memsz.toNat - filesz.toNat) % 2 ^ 32 := by
  rw [UInt64.toNat_toUInt32, UInt64.toNat_sub_of_le _ _ (UInt64.le_iff_toNat_le.mpr h)]

theorem zeroSegment_round (helf : s.s_img_handle.elf = elf) (hl : Loadable elf s.mem i)
    (hok : zeroSegment .elfClass64 i (progHdr elf s.mem i) s = (.ok u, t)) : Round elf i s t := by
  simp only [zeroSegment, bind_ok, get_ok, update_ok, breakIf_ok,
    Format.word_elfClass64] at hok
  obtain ⟨_, _, ⟨rfl, rfl⟩, _, _, rfl, _, _, ⟨hcheck, rfl⟩, rfl⟩ := hok
  simp only [hcheck, Bool.false_eq_true, if_false]
  rw [Bool.or_eq_false_iff] at hcheck
  have hsize : ¬ (progHdr elf s.mem i).p_memsz < (progHdr elf s.mem i).p_filesz :=
    of_decide_eq_false hcheck.1
  have hroom : ¬ (progHdr elf s.mem i).p_paddr + (progHdr elf s.mem i).p_memsz <
      (progHdr elf s.mem i).p_paddr := of_decide_eq_false hcheck.2
  rw [UInt64.lt_iff_toNat_lt] at hsize
  rw [uint64_add_lt_left] at hroom
  have hsane : Sane elf s.mem i := ⟨Nat.le_of_not_lt hsize, Nat.lt_of_not_le hroom⟩
  have hlisted : ToZero elf s.mem i ↔ secImgAuthIsValidArea s.s_img_handle.elf.whitelist_area
      (progHdr elf s.mem i).p_paddr
      ((progHdr elf s.mem i).p_paddr + (progHdr elf s.mem i).p_memsz) = true := by
    rw [helf]
    exact and_iff_right hl
  split
  · rename_i harea
    refine ⟨rfl, fun _ => hsane, fun _ => ?_, fun hnot => absurd (hlisted.mpr harea) hnot⟩
    simp only [cleared, clearedLen_toNat hsane.1]
  · rename_i harea
    exact ⟨rfl, fun _ => hsane, fun hz => absurd (hlisted.mp hz) harea, fun _ => rfl⟩

/-- The loop ends behind the last header, or makes a round and goes on. -/
theorem zeroSegmentsFrom_succ_ok (helf : s.s_img_handle.elf = elf)
    (hok : zeroSegmentsFrom .elfClass64 (fuel + 1) i s = (.ok u, t)) :
    (phNum elf s.mem ≤ i ∧ t = s) ∨
      (i < phNum elf s.mem ∧ ∃ s', Round elf i s s' ∧
        zeroSegmentsFrom .elfClass64 fuel (i + 1) s' = (.ok u, t)) := by
  simp only [zeroSegmentsFrom, helf] at hok
  split at hok
  · rename_i hi
    right
    refine ⟨hi, ?_⟩
    split at hok
    · rename_i hvalid
      obtain ⟨_, s', hfirst, hrest⟩ := bind_ok.mp hok
      exact ⟨s', zeroSegment_round helf ⟨hi, hvalid⟩ hfirst, hrest⟩
    · rename_i hvalid
      exact ⟨s, ⟨rfl, fun hl => absurd hl.2 hvalid, fun hz => absurd hz.1.2 hvalid,
        fun _ => rfl⟩, hok⟩
  · rename_i hi
    obtain ⟨-, rfl⟩ := Prod.mk.inj hok
    exact .inl ⟨Nat.le_of_not_lt hi, rfl⟩

/-- A round only ever puts zeros. -/
theorem Round.mem_or (h : Round elf i s t) (a : UInt64) : t.mem a = s.mem a ∨ t.mem a = 0 := by
  rcases Classical.em (ToZero elf s.mem i) with hz | hz
  · rw [h.zero hz]
    by_cases ha : (cleared elf s.mem i).Mem a
    · exact .inr (Memory.store_of_mem ha)
    · exact .inl (Memory.store_of_not_mem ha)
  · rw [h.keep hz]
    exact .inl rfl

/-- A round on the headers of `m` clears what they say. -/
theorem Round.of_mem (h : Round elf i s t) (hsame : SameHeaders elf m s.mem) (hz : ToZero elf m i)
    (ha : (cleared elf m i).Mem a) : t.mem a = 0 := by
  rw [h.zero (hsame.toZero.mpr hz), hsame.cleared hz.1.1]
  exact Memory.store_of_mem ha

/-- And nothing else. -/
theorem Round.of_not_mem (h : Round elf i s t) (hsame : SameHeaders elf m s.mem)
    (ha : ToZero elf m i → ¬ (cleared elf m i).Mem a) : t.mem a = s.mem a := by
  rcases Classical.em (ToZero elf s.mem i) with hz | hz
  · have hz' := hsame.toZero.mp hz
    rw [h.zero hz, hsame.cleared hz'.1.1]
    exact Memory.store_of_not_mem (ha hz')
  · rw [h.keep hz]

/-! ## The whole loop -/

/-- The loop only ever puts zeros. -/
theorem zeroSegmentsFrom_mem_or (helf : s.s_img_handle.elf = elf)
    (hok : zeroSegmentsFrom .elfClass64 fuel i s = (.ok u, t)) (a : UInt64) :
    t.mem a = s.mem a ∨ t.mem a = 0 := by
  induction fuel generalizing s i with
  | zero =>
    obtain ⟨-, rfl⟩ := pure_ok.mp hok
    exact .inl rfl
  | succ fuel ih =>
    rcases zeroSegmentsFrom_succ_ok helf hok with ⟨-, rfl⟩ | ⟨-, s', hround, hrest⟩
    · exact .inl rfl
    · rcases ih (hround.handle ▸ helf) hrest with hkeep | hzero
      · rw [hkeep]
        exact hround.mem_or a
      · exact .inr hzero

/-- Cleared bytes in the headers hold zeros already. -/
def HeadersSpared (elf : SecImgAuthElfInfo) (m : Memory) : Prop :=
  ∀ k, ToZero elf m k → ∀ a, (cleared elf m k).Mem a → Headers elf m a → m a = 0

/-- Then the loop keeps the headers. -/
theorem zeroSegmentsFrom_headers (helf : s.s_img_handle.elf = elf) (hspared : HeadersSpared elf m)
    (hsame : SameHeaders elf m s.mem)
    (hok : zeroSegmentsFrom .elfClass64 fuel i s = (.ok u, t)) : SameHeaders elf m t.mem := by
  induction fuel generalizing s i with
  | zero =>
    obtain ⟨-, rfl⟩ := pure_ok.mp hok
    exact hsame
  | succ fuel ih =>
    rcases zeroSegmentsFrom_succ_ok helf hok with ⟨-, rfl⟩ | ⟨-, s', hround, hrest⟩
    · exact hsame
    · refine ih (hround.handle ▸ helf) (fun a ha => ?_) hrest
      rcases Classical.em (ToZero elf m i ∧ (cleared elf m i).Mem a) with ⟨hz, hmem⟩ | hnot
      · rw [hround.of_mem hsame hz hmem, hspared i hz a hmem ha]
      · rw [hround.of_not_mem hsame fun hz hmem => hnot ⟨hz, hmem⟩]
        exact hsame a ha

/-- What the rounds from `i` on have done, by the headers in `m`. -/
structure RanFrom (elf : SecImgAuthElfInfo) (m : Memory) (i : Nat)
    (before after : Memory) : Prop where
  sane : ∀ k, i ≤ k → Loadable elf m k → Sane elf m k
  zero : ∀ k, i ≤ k → ToZero elf m k → ∀ a, (cleared elf m k).Mem a → after a = 0
  keep : ∀ a, (∀ k, i ≤ k → ToZero elf m k → ¬ (cleared elf m k).Mem a) → after a = before a

/-- **The loop.** Where it leaves the headers as they were, it has checked every loadable segment,
cleared what is to be cleared and nothing else. -/
theorem zeroSegmentsFrom_ran (helf : s.s_img_handle.elf = elf) (hfuel : phNum elf m ≤ i + fuel)
    (hsame : SameHeaders elf m s.mem) (hend : SameHeaders elf m t.mem)
    (hok : zeroSegmentsFrom .elfClass64 fuel i s = (.ok u, t)) : RanFrom elf m i s.mem t.mem := by
  induction fuel generalizing s i with
  | zero =>
    obtain ⟨-, rfl⟩ := pure_ok.mp hok
    exact ⟨fun k hk hl => absurd hl.1 (by omega), fun k hk hz => absurd hz.1.1 (by omega),
      fun _ _ => rfl⟩
  | succ fuel ih =>
    rcases zeroSegmentsFrom_succ_ok helf hok with ⟨hdone, rfl⟩ | ⟨hi, s', hround, hrest⟩
    · rw [hsame.phNum] at hdone
      exact ⟨fun k hk hl => absurd hl.1 (by omega), fun k hk hz => absurd hz.1.1 (by omega),
        fun _ _ => rfl⟩
    · rw [hsame.phNum] at hi
      have helf' : s'.s_img_handle.elf = elf := hround.handle ▸ helf
      have hend' := zeroSegmentsFrom_mem_or helf' hrest
      -- a header byte that this round had cleared would still be clear at the end
      have hsame' : SameHeaders elf m s'.mem := by
        intro a ha
        rcases hround.mem_or a with hkeep | hzero
        · rw [hkeep]
          exact hsame a ha
        · have hlast : t.mem a = 0 := by
            rcases hend' a with h | h
            · rw [h, hzero]
            · exact h
          rw [hzero, ← hlast]
          exact hend a ha
      have hran := ih helf' (by omega) hsame' hrest
      refine ⟨fun k hk hl => ?_, fun k hk hz a ha => ?_, fun a hnone => ?_⟩
      · rcases Nat.eq_or_lt_of_le hk with rfl | hk
        · exact (hsame.sane hl.1).mp (hround.sane (hsame.loadable.mpr hl))
        · exact hran.sane k hk hl
      · rcases Nat.eq_or_lt_of_le hk with rfl | hk
        · rcases hend' a with h | h
          · rw [h]
            exact hround.of_mem hsame hz ha
          · exact h
        · exact hran.zero k hk hz a ha
      · rw [hran.keep a fun k hk => hnone k (Nat.le_of_lt hk)]
        exact hround.of_not_mem hsame (hnone i (Nat.le_refl i))

end

/-! ## What the loop is for -/

/-- Before and after: the gaps are zero, every other byte is the one it was, a file's part that no
other segment's gap overlaps in particular, and the headers are the ones that were verified. -/
structure Zeroed (elf : SecImgAuthElfInfo) (m m' : Memory) : Prop where
  zero : ∀ i, ToZero elf m i → ∀ a, (bss elf m i).Mem a → m' a = 0
  frame : ∀ a, (∀ i, ToZero elf m i → ¬ (bss elf m i).Mem a) → m' a = m a
  hashed : ∀ i, Loadable elf m i → ∀ a, (filePart elf m i).Mem a →
    (∀ k, k ≠ i → ToZero elf m k → ¬ (bss elf m k).Mem a) → m' a = m a
  headers : SameHeaders elf m m'

/-- What the code needs: each byte of a gap is zero already or within the first
`(memsz - filesz) % 2 ^ 32` bytes of some gap, and what is cleared of the headers is zero
already. -/
structure GapsReached (elf : SecImgAuthElfInfo) (m : Memory) : Prop where
  gaps : ∀ i, ToZero elf m i → ∀ a, (bss elf m i).Mem a →
    m a = 0 ∨ ∃ k, ToZero elf m k ∧ (cleared elf m k).Mem a
  headers : HeadersSpared elf m

section
variable {elf : SecImgAuthElfInfo} {m m' : Memory} {s t : CallState} {i : Nat} {a : UInt64}

theorem cleared_subset (h : (cleared elf m i).Mem a) : (bss elf m i).Mem a :=
  Nat.lt_of_lt_of_le h (Nat.mod_le _ _)

/-- A gap shorter than four gigabytes is cleared as a whole. -/
theorem cleared_eq_bss
    (h : (progHdr elf m i).p_memsz.toNat - (progHdr elf m i).p_filesz.toNat < 2 ^ 32) :
    cleared elf m i = bss elf m i := by
  rw [cleared, Nat.mod_eq_of_lt h, bss]

/-- Where every gap is short, only the headers are left to ask for. -/
theorem GapsReached.of_short (hspared : HeadersSpared elf m)
    (h : ∀ i, ToZero elf m i →
      (progHdr elf m i).p_memsz.toNat - (progHdr elf m i).p_filesz.toNat < 2 ^ 32) :
    GapsReached elf m where
  gaps i hz _ ha := .inr ⟨i, hz, cleared_eq_bss (h i hz) ▸ ha⟩
  headers := hspared

/-- The gap of a sane segment does not reach into its file's part. -/
theorem filePart_not_bss (hsane : Sane elf m i) (ha : (filePart elf m i).Mem a) :
    ¬ (bss elf m i).Mem a := by
  obtain ⟨hsize, hroom⟩ := hsane
  intro hb
  have hstart : ((progHdr elf m i).p_paddr + (progHdr elf m i).p_filesz).toNat =
      (progHdr elf m i).p_paddr.toNat + (progHdr elf m i).p_filesz.toNat :=
    uint64_toNat_add (by omega)
  rw [Block.mem_iff_span (by simp only [filePart]; omega)] at ha
  rw [Block.mem_iff_span (by simp only [bss, hstart]; omega)] at hb
  simp only [filePart, bss, Block.span, Span.Mem, hstart] at ha hb
  omega

/-- **Zeroing, exactly.** When the step succeeds, it has zeroed the gaps of the whitelisted loadable
segments and changed nothing else if and only if every gap byte was zero or is reached by a 32-bit
length, and no header byte is cleared. -/
theorem zeroSegments_exact_iff (hok : secImgAuthZeroSegments .elfClass64 s = (.ok (), t)) :
    Zeroed s.s_img_handle.elf s.mem t.mem ↔ GapsReached s.s_img_handle.elf s.mem := by
  have hself : SameHeaders s.s_img_handle.elf s.mem s.mem := fun _ _ => rfl
  have hfuel : phNum s.s_img_handle.elf s.mem ≤ 0 + 2 ^ 16 := by
    have : phNum s.s_img_handle.elf s.mem < 2 ^ 16 := UInt16.toNat_lt _
    omega
  constructor
  · intro hdone
    have hran := zeroSegmentsFrom_ran rfl hfuel hself hdone.headers hok
    refine ⟨fun i hz a ha => ?_, fun k hz a ha hhdr => ?_⟩
    · rcases Classical.em (∃ k, ToZero s.s_img_handle.elf s.mem k ∧
        (cleared s.s_img_handle.elf s.mem k).Mem a) with hreached | hnot
      · exact .inr hreached
      · left
        rw [← hran.keep _ fun k _ hz hmem => hnot ⟨k, hz, hmem⟩]
        exact hdone.zero i hz a ha
    · rw [← hdone.headers a hhdr]
      exact hran.zero k (Nat.zero_le k) hz a ha
  · intro hreached
    have hheaders := zeroSegmentsFrom_headers rfl hreached.headers hself hok
    have hran := zeroSegmentsFrom_ran rfl hfuel hself hheaders hok
    have hframe : ∀ a, (∀ i, ToZero s.s_img_handle.elf s.mem i →
        ¬ (bss s.s_img_handle.elf s.mem i).Mem a) → t.mem a = s.mem a := fun a hnone =>
      hran.keep a fun k _ hz hmem => hnone k hz (cleared_subset hmem)
    refine ⟨fun i hz a ha => ?_, hframe, fun i hl a ha hothers => ?_, hheaders⟩
    · rcases Classical.em (∃ k, ToZero s.s_img_handle.elf s.mem k ∧
        (cleared s.s_img_handle.elf s.mem k).Mem a) with ⟨k, hk, hmem⟩ | hnot
      · exact hran.zero k (Nat.zero_le k) hk a hmem
      · rw [hran.keep a fun k _ hz hmem => hnot ⟨k, hz, hmem⟩]
        rcases hreached.gaps i hz a ha with hzero | hcleared
        · exact hzero
        · exact absurd hcleared hnot
    · apply hframe
      intro k hz
      by_cases hk : k = i
      · subst hk
        exact filePart_not_bss (hran.sane k (Nat.zero_le k) hl) ha
      · exact hothers k hk hz

end

/-! ## A gap of more than four gigabytes -/

/-- The image with a last segment that is longer in memory: the four bytes of the file and a gap
of `2 ^ 32 + 4`. -/
def gapHeaders : Memory := threeSegmentHeaders.put (0x10b0 + 40) 8 0x100000008

/-- The SHA-256 digest of its headers. -/
def gapHeadersDigest : Nat := 0xa556f6f7578254b642dc7b79f26d58a27cfb66a9579f87b790e13bfdf3dde4c8

/-- The loaded image, with a byte left over at `0x9008`. -/
def gapMemory : Memory :=
  threeSegmentMemory
    |>.put (0x10b0 + 40) 8 0x100000008
    |>.put (0x3000 + 40) 32 gapHeadersDigest
    |>.put 0x9008 1 1

/-- SHA-256 on these headers, too. -/
def gapEnv : SecImgEnv :=
  { threeSegmentEnv with
    sha256 := fun message =>
      if message = gapHeaders.bytes 0x1000 232 then digestBytes gapHeadersDigest
      else threeSegmentEnv.sha256 message }

/-- The memory of both loadable segments is whitelisted. -/
def gapWhitelist : SecImgAuthWhitelistAreaParam := ⟨1, some [⟨0x8000, 0x200000000⟩]⟩

/-- Verifying the image. -/
def gapVerified : CallResult :=
  secImgAuthVerifyMetadata gapEnv gapMemory 9 (some threeSegmentImage) (some gapWhitelist)
    (some ⟨0, .unset⟩) bootState

/-- Where zeroing begins. -/
def gapState : CallState := ⟨gapVerified.state, gapMemory, ⟨0, .unset⟩⟩

/-- The image is accepted and zeroing succeeds, but the byte at `0x9008` stays: four bytes of the
gap are cleared. -/
theorem zeroSegments_leaves_gap :
    gapVerified.ret = .ok () ∧ (secImgAuthZeroSegments .elfClass64 gapState).1 = .ok () ∧
      ¬ Zeroed gapState.s_img_handle.elf gapState.mem
        (secImgAuthZeroSegments .elfClass64 gapState).2.mem := by
  obtain ⟨hret, hok, hlt, hvalid, hlisted, hmem, hleft⟩ :
      gapVerified.ret = .ok () ∧ (secImgAuthZeroSegments .elfClass64 gapState).1 = .ok () ∧
      2 < phNum gapState.s_img_handle.elf gapMemory ∧
      secImgAuthIsValidSegment gapState.s_img_handle.elf.elf_format gapMemory
        (phdrAddr .elfClass64 gapState.s_img_handle.elf.prog_hdr 2) = true ∧
      secImgAuthIsValidArea gapState.s_img_handle.elf.whitelist_area
        (progHdr gapState.s_img_handle.elf gapMemory 2).p_paddr
        ((progHdr gapState.s_img_handle.elf gapMemory 2).p_paddr +
          (progHdr gapState.s_img_handle.elf gapMemory 2).p_memsz) = true ∧
      (bss gapState.s_img_handle.elf gapMemory 2).Mem 0x9008 ∧
      (secImgAuthZeroSegments .elfClass64 gapState).2.mem 0x9008 = 1 := by decide +kernel
  refine ⟨hret, hok, fun h => ?_⟩
  have hzero := h.zero 2 ⟨⟨hlt, hvalid⟩, hlisted⟩ 0x9008 hmem
  rw [hleft] at hzero
  exact absurd hzero (by decide)

/-- The same image with a gap of four bytes. -/
def shortGapState : CallState := { gapState with mem := gapMemory.put (0x10b0 + 40) 8 8 }

theorem zeroSegments_exact_short :
    Zeroed shortGapState.s_img_handle.elf shortGapState.mem
      (secImgAuthZeroSegments .elfClass64 shortGapState).2.mem := by
  obtain ⟨hok, hnum, hfirst, hhash, hlast, hsize, helf, hprog⟩ :
      (secImgAuthZeroSegments .elfClass64 shortGapState).1 = .ok () ∧
      phNum shortGapState.s_img_handle.elf shortGapState.mem = 3 ∧
      cleared shortGapState.s_img_handle.elf shortGapState.mem 0 = ⟨0x8004, 0⟩ ∧
      secImgAuthIsValidSegment shortGapState.s_img_handle.elf.elf_format shortGapState.mem
        (phdrAddr .elfClass64 shortGapState.s_img_handle.elf.prog_hdr 1) = false ∧
      cleared shortGapState.s_img_handle.elf shortGapState.mem 2 = ⟨0x9004, 4⟩ ∧
      (∀ i < 3, (progHdr shortGapState.s_img_handle.elf shortGapState.mem i).p_memsz.toNat -
        (progHdr shortGapState.s_img_handle.elf shortGapState.mem i).p_filesz.toNat < 2 ^ 32) ∧
      shortGapState.s_img_handle.elf.elf_hdr = 0x1000 ∧
      shortGapState.s_img_handle.elf.prog_hdr = 0x1040 := by decide +kernel
  have hrun : secImgAuthZeroSegments .elfClass64 shortGapState =
      (.ok (), (secImgAuthZeroSegments .elfClass64 shortGapState).2) := by
    rw [← hok]
  apply (zeroSegments_exact_iff hrun).mpr
  refine .of_short (fun k hz a ha hhdr => ?_) ?_
  · have hk : k < 3 := hnum ▸ hz.1.1
    have hcase : k = 0 ∨ k = 1 ∨ k = 2 := by omega
    rcases hcase with rfl | rfl | rfl
    · rw [hfirst] at ha
      exact absurd ha Block.not_mem_zero
    · exact absurd hz.1.2 (by rw [hhash]; decide)
    · rw [hlast] at ha
      simp only [Headers, helf, hprog, hnum, Block.Mem, UInt64.toNat_sub,
        UInt64.reduceToNat] at ha hhdr
      have := a.toNat_lt
      omega
  · intro i hz
    exact hsize i (hnum ▸ hz.1.1)

end SecImgAuth
