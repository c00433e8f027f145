import BootXf.Smem.PartInit
import BootXf.Smem.TocMemory

/-!
# The setup of the table of contents and its reader

`smem_boot_toc_setup` writes the table that `smem_part_init` of every host reads. On a table that
fits, with the headers of the partitions in place (`HeadersReady`), a round of the reader registers
the partition of an entry in the slot of the other host, or skips it when the entry has exclusion
ranges, since it compares the size in the table with the size in the header, which leaves them out
(`partInitEntry_spec`). From there a run of the reader is a fold over the entries
(`smemPartInit_eq`).
-/

open Lib

namespace Smem

open List

/-- `smem_info` of a host. -/
def BootInfo.smemInfo (bi : BootInfo) (maxItems : UInt16) : SmemInfo :=
  ⟨bi.smemBaseAddr, bi.smemSize, maxItems⟩

/-- The slot in which a host registers the partition of an entry, if it is one of its partitions:
the entry is not empty and names the host and another one it knows. -/
def TocEntry.slot (thisHost : HostId) (e : TocEntry) : Option HostId :=
  if e.size = 0 then none else remoteHost thisHost e.host0 e.host1

/-- Some host registers the partition of the entry. -/
def TocEntry.Used (e : TocEntry) : Prop := ∃ thisHost : HostId, (e.slot thisHost).isSome = true

/-- A slot that holds the partition of an entry. -/
def TocEntry.host (bi : BootInfo) (e : TocEntry) : Host :=
  partitionHost (bi.partnHeader e) e.offset e.size e.sizeCacheline

/-- What a round of the reader does to `smem_info_prt`. -/
def register (bi : BootInfo) (thisHost : HostId) (prts : PartTable) (e : TocEntry) : PartTable :=
  match e.slot thisHost with
  | none => prts
  | some r => if e.totalExclSize = 0 then prts.set r (e.host bi) else prts

/-! ## A round of the reader -/

section
variable {bi : BootInfo} {thisHost r : HostId} {e : TocEntry} {maxItems : UInt16} {fuel : Nat}
  {m : Memory} {params : AllocParams} {prts : PartTable}

theorem host_word_toNat (h : HostId) : h.word.toNat = h.val := by
  have hlt := h.isLt
  rw [HostId.word, UInt16.toNat_ofNat']
  exact Nat.mod_eq_of_lt (by omega)

/-- No host has a region of the table that names none. -/
theorem remoteHost_invalid : remoteHost thisHost invalidHost16 invalidHost16 = none := by
  have hne : invalidHost16 ≠ thisHost.word := by
    intro heq
    have hval := host_word_toNat thisHost
    rw [← heq] at hval
    have hlt := thisHost.isLt
    have : invalidHost16.toNat = 0xFFFF := rfl
    omega
  have hcommon : ¬ (invalidHost16 = commonHost ∧ invalidHost16 = commonHost) := by decide
  have hbig : ¬ invalidHost16.toNat < 12 := by decide
  simp only [remoteHost, if_neg hcommon, if_neg hne, dif_neg hbig]

theorem remoteHost_common : remoteHost thisHost commonHost commonHost = some thisHost :=
  if_pos ⟨rfl, rfl⟩

/-- The header pointer fits in 32 bits. -/
theorem header_toUInt32 (hp : e.Placed bi) :
    (bi.partnHeader e).toUInt32.toNat = bi.smemBaseAddr.toNat + e.offset.toNat := by
  have hbelow := bi.below
  have hend := hp.below
  rw [UInt64.toNat_toUInt32, BootInfo.partnHeader_toNat]
  exact Nat.mod_eq_of_lt (by omega)

/-- The assertions about the place of the header hold. -/
theorem header_aligned (hp : e.Placed bi) : (bi.partnHeader e).toUInt32 &&& pageAlignMask = 0 := by
  have hbase := bi.base_aligned
  have hoff := hp.aligned
  have hmask : pageAlignMask.toNat = 2 ^ 12 - 1 := rfl
  apply UInt32.toNat_inj.mp
  rw [UInt32.toNat_and, hmask, Nat.and_two_pow_sub_one_eq_mod, header_toUInt32 hp]
  show _ % 4096 = 0
  omega

/-- The page of the header is mapped. -/
theorem mapPageAttr_header (hp : e.Placed bi) : 32 ≤ (mapPageAttr e.offset 32 false).size := by
  have hoff := hp.aligned
  have hend := hp.below
  have hroom := hp.room
  have hlt := bi.smemSize.toNat_lt
  have hmask : pageAlignMask.toNat = 2 ^ 12 - 1 := rfl
  have hkeep : e.offset &&& ~~~pageAlignMask = e.offset := by
    apply UInt32.toNat_inj.mp
    have hnot : (~~~pageAlignMask).toNat = 2 ^ 32 - 2 ^ 12 := by decide
    rw [UInt32.toNat_and, hnot, nat_and_mask e.offset.toNat_lt (by decide)]
    simp only [roundDown]
    omega
  rw [mapPageAttr, hkeep, UInt32.sub_self]
  show (32 : UInt32) ≤ (32 + 0 + pageAlignMask) &&& ~~~pageAlignMask
  decide

/-- A partition that has just been registered: its offsets are those of its header, and pass the
checks before the walk. -/
theorem registered_offsets (hp : e.Placed bi) (hfree : m.u32 (bi.partnHeader e + 12) = 32)
    (hcached : m.u32 (bi.partnHeader e + 16) = e.size) :
    (e.host bi).readOffsets m = e.host bi ∧ ((e.host bi).info.size == 0) = false ∧
      ((e.host bi).info.offsetFreeUncached > (e.host bi).info.offsetFreeCached
        || (e.host bi).info.offsetFreeUncached > (e.host bi).info.size
        || (e.host bi).info.offsetFreeCached > (e.host bi).info.size) = false := by
  have hroom := hp.room
  have h32 : (32 : UInt32).toNat = 32 := rfl
  refine ⟨?_, beq_eq_false_iff_ne.mpr fun hz => ?_, ?_⟩
  · simp only [Host.readOffsets, TocEntry.host, partitionHost, hfree, hcached]
  · have : e.size.toNat = 0 := by
      rw [show e.size = 0 from hz]
      rfl
    omega
  · simp only [TocEntry.host, partitionHost, gt_iff_lt, UInt32.lt_iff_toNat_lt, h32,
      Bool.or_eq_false_iff, decide_eq_false_iff_not]
    omega

/-- The walk of a partition that has just been registered. -/
theorem getAddrUncached_registered (maxItems : UInt16) (params : AllocParams) (hp : e.Placed bi)
    (hfuel : 0 < fuel) :
    getAddrUncached (bi.smemInfo maxItems) fuel m params (e.host bi) =
      some (⟨.notFound, params⟩, e.host bi) := by
  have hend := hp.below
  have hbelow := bi.below
  have habove := bi.above
  have hheader : (e.host bi).info.header.toUInt32.toNat =
    bi.smemBaseAddr.toNat + e.offset.toNat := header_toUInt32 hp
  have hsz : (e.host bi).info.size.toNat = e.size.toNat := rfl
  refine getAddrUncached_empty hfuel ?_ ?_ rfl rfl (mapPageAttr_header hp) rfl
  · rw [hheader]
    omega
  · rw [hheader, hsz]
    omega

/-- The call for a partition that has just been registered. -/
theorem smemPartGetAddrEx_registered (maxItems : UInt16) (thisHost : HostId) (params : AllocParams)
    (prts : PartTable) (hp : e.Placed bi) (hfuel : 0 < fuel)
    (hfree : m.u32 (bi.partnHeader e + 12) = 32) (hcached : m.u32 (bi.partnHeader e + 16) = e.size)
    (hremote : params.remoteHost = .ofNat r.val) (hslot : prts r = e.host bi) :
    smemPartGetAddrEx (bi.smemInfo maxItems) thisHost fuel m params prts =
      some (⟨.notFound, params⟩, prts) := by
  obtain ⟨hread, hsize, hguard⟩ := registered_offsets hp hfree hcached
  have hwalk := getAddrUncached_registered (m := m) maxItems params hp hfuel
  have hset : prts.set r (e.host bi) = prts := by
    funext q
    by_cases hq : q = r
    · rw [hq, PartTable.set_self, hslot]
    · rw [PartTable.set_of_ne hq]
  simp only [smemPartGetAddrEx, remoteOutOfRange_ofNat hremote, Bool.false_eq_true, if_false,
    hremote, slotOf_ofNat, hslot, hsize, hread, hguard, hwalk, Option.map_some, hset]

/-- The call of a host for the partition that is its own. -/
theorem getAddrEx_registered (maxItems : UInt16) (thisHost : HostId) (params : AllocParams)
    (hp : e.Placed bi) (hfuel : 0 < fuel) (hfree : m.u32 (bi.partnHeader e + 12) = 32)
    (hcached : m.u32 (bi.partnHeader e + 16) = e.size)
    (hremote : params.remoteHost = .ofNat thisHost.val) :
    getAddrEx (bi.smemInfo maxItems) (.ofNat thisHost.val) fuel m params (e.host bi) =
      some (⟨.notFound, params⟩, e.host bi) := by
  obtain ⟨hread, hsize, hguard⟩ := registered_offsets hp hfree hcached
  have hwalk := getAddrUncached_registered (m := m) maxItems params hp hfuel
  have hcommon : remoteCommon (.ofNat thisHost.val) params = true := by
    rw [remoteCommon, hremote, beq_self_eq_true, Bool.or_true]
  simp only [getAddrEx, remoteOutOfRange_ofNat hremote, hcommon, Bool.not_true, Bool.false_eq_true,
    if_false, hsize, hread, hguard, hwalk]

theorem uint32_sub_ne {a b : UInt32} : a - b ≠ a ↔ b ≠ 0 := by
  refine not_congr ⟨fun h => ?_, fun h => ?_⟩
  · have ha := a.toNat_lt
    have hb := b.toNat_lt
    have hn := congrArg UInt32.toNat h
    rw [UInt32.toNat_sub] at hn
    apply UInt32.toNat_inj.mp
    show b.toNat = 0
    omega
  · rw [h, UInt32.sub_zero]

/-- The assertions about the offset hold. -/
theorem offset_in_range (maxItems : UInt16) (hp : e.Placed bi) :
    e.offset > 0 ∧ e.offset < (bi.smemInfo maxItems).smemSize - tocSize := by
  have hpos := hp.pos
  have hend := hp.below
  have hroom := hp.room
  have hsize : tocSize.toNat = 4096 := rfl
  have hsub : (bi.smemSize - tocSize).toNat = bi.smemSize.toNat - tocSize.toNat :=
    uint32_sub_toNat (by omega)
  refine ⟨hpos, ?_⟩
  rw [UInt32.lt_iff_toNat_lt]
  show e.offset.toNat < (bi.smemSize - tocSize).toNat
  omega

/-- A partition of the host is registered, or skipped for its exclusion ranges. -/
theorem partInitPartition_spec (hp : e.Placed bi) (hfuel : 0 < fuel)
    (hstored : HeaderStored bi m e) :
    ∃ params', partInitPartition (bi.smemInfo maxItems) thisHost fuel m r e.offset e.size
      e.sizeCacheline params prts =
        some (params', if e.totalExclSize = 0 then prts.set r (e.host bi) else prts) := by
  obtain ⟨hpos, hlt⟩ := offset_in_range maxItems hp
  have hhdr : (bi.smemInfo maxItems).smemBaseAddr + e.offset.toUInt64 = bi.partnHeader e := rfl
  have halign : ¬ (bi.partnHeader e).toUInt32 &&& pageAlignMask ≠ 0 :=
    not_not_intro (header_aligned hp)
  have hid' : ¬ m.u32 (bi.partnHeader e) ≠ partitionHeaderId := not_not_intro hstored.identifier
  simp only [partInitPartition, hhdr, if_neg halign, if_neg hid', if_neg (not_not_intro hpos),
    if_neg (not_not_intro hlt), hstored.size, uint32_sub_ne]
  by_cases hexcl : e.totalExclSize = 0
  · have hcall := smemPartGetAddrEx_registered maxItems thisHost
      { params with remoteHost := .ofNat r.val, smemType := memFirst } (prts.set r (e.host bi))
      hp hfuel hstored.freeUncached hstored.freeCached rfl PartTable.set_self
    simp only [TocEntry.host] at hcall
    simp only [hexcl, ne_eq, not_true_eq_false, if_false, if_true, hcall, TocEntry.host]
    exact ⟨_, rfl⟩
  · simp only [ne_eq, hexcl, not_false_eq_true, if_true, if_false]
    exact ⟨_, rfl⟩

end

/-! ## A run of the reader -/

section
variable {bi : BootInfo} {cfg : TocConfigTbl} {heapInfo : HeapInfo} {tocVersion n : UInt32}
  {thisHost r : HostId} {e : TocEntry} {i : Nat} {maxItems : UInt16} {fuel : Nat} {m : Memory}
  {params : AllocParams} {prts : PartTable}

/-- A partition of some host has a header. -/
theorem TocFits.hasHeader_of_slot (h : TocFits bi cfg heapInfo)
    (he : e ∈ tocEntries bi cfg heapInfo)
    (hslot : e.slot thisHost = some r) : e.hasHeader = true := by
  unfold TocEntry.slot at hslot
  split at hslot
  · cases hslot
  next hsize =>
  refine TocFits.hasHeader_iff.mpr ⟨hsize, ?_⟩
  have hregion : ∀ offset size flags, e ≠ regionEntry offset size flags := by
    rintro offset size flags rfl
    have hnone : remoteHost thisHost invalidHost16 invalidHost16 = some r := hslot
    rw [remoteHost_invalid] at hnone
    cases hnone
  have hsum := h.top
  have htop := h.top_toNat
  have hfits := h.fits
  rcases mem_cons.mp he with rfl | he
  · exact absurd rfl (hregion _ _ _)
  rcases mem_append.mp he with he | he
  · obtain ⟨-, -, c, -, -, hent⟩ := mem_configEntries (by omega) he
    rw [hent]
    rfl
  · simp only [restEntries] at he
    split at he
    · exact absurd (mem_singleton.mp he) (hregion _ _ _)
    · rcases mem_cons.mp he with rfl | he
      · rfl
      · exact absurd (mem_singleton.mp he) (hregion _ _ _)

theorem TocEntry.used_of_slot (h : e.slot thisHost = some r) : e.Used :=
  ⟨thisHost, by rw [h]; rfl⟩

/-- The partitions that some host uses lie where the hosts take them, and have their headers. -/
def HeadersReady (bi : BootInfo) (m : Memory) (l : List TocEntry) : Prop :=
  ∀ e ∈ l, e.Used → e.Placed bi ∧ HeaderStored bi m e

/-- **A round of the reader.** -/
theorem partInitEntry_spec (maxItems : UInt16) (thisHost : HostId) (params : AllocParams)
    (prts : PartTable) (hfuel : 0 < fuel)
    (hread : TableReads bi m tocVersion n (tocEntries bi cfg heapInfo))
    (hready : HeadersReady bi m (tocEntries bi cfg heapInfo))
    (he : (e, i) ∈ (tocEntries bi cfg heapInfo).zipIdx) :
    ∃ params', partInitEntry (bi.smemInfo maxItems) thisHost fuel m (bi.tocEntry (.ofNat i)) params
      prts = some (params', register bi thisHost prts e) := by
  have hmem : e ∈ tocEntries bi cfg heapInfo := fst_mem_of_mem_zipIdx he
  simp only [partInitEntry, hread.size e i he, hread.host0 e i he, hread.host1 e i he,
    hread.offset e i he, hread.cacheline e i he]
  cases hremote : remoteHost thisHost e.host0 e.host1 with
  | none =>
    have hslot : e.slot thisHost = none := by
      simp only [TocEntry.slot, hremote, ite_self]
    exact ⟨params, by simp only [register, hslot]⟩
  | some r =>
    by_cases hsize : e.size = 0
    · have hslot : e.slot thisHost = none := if_pos hsize
      exact ⟨params, by simp only [hsize, if_true, register, hslot]⟩
    · have hslot : e.slot thisHost = some r := (if_neg hsize).trans hremote
      obtain ⟨hplaced, hstored⟩ := hready e hmem (TocEntry.used_of_slot hslot)
      obtain ⟨params', hround⟩ := partInitPartition_spec hplaced hfuel hstored
      refine ⟨params', ?_⟩
      simp only [hsize, if_false, register, hslot]
      exact hround

/-- The loop of the reader registers the partitions one after the other. -/
theorem partInitLoop_spec (maxItems : UInt16) (thisHost : HostId) (params : AllocParams)
    (prts : PartTable) (hfuel : 0 < fuel)
    (hread : TableReads bi m tocVersion n (tocEntries bi cfg heapInfo))
    (hready : HeadersReady bi m (tocEntries bi cfg heapInfo)) (l : List TocEntry) (k : Nat)
    (hl : ∀ p ∈ l.zipIdx k, p ∈ (tocEntries bi cfg heapInfo).zipIdx) :
    ∃ params', partInitLoop (bi.smemInfo maxItems) thisHost fuel m bi.toc l.length (.ofNat k) params
      prts = some (params', l.foldl (register bi thisHost) prts) := by
  induction l generalizing params prts k with
  | nil => exact ⟨params, rfl⟩
  | cons e l ih =>
    rw [zipIdx_cons] at hl
    obtain ⟨params₁, hround⟩ :=
      partInitEntry_spec maxItems thisHost params prts hfuel hread hready (hl _ (.head _))
    obtain ⟨params', hloop⟩ :=
      ih params₁ (register bi thisHost prts e) (k + 1) fun p hp => hl p (.tail _ hp)
    refine ⟨params', ?_⟩
    have hentry : bi.toc + 32 + 48 * (UInt32.ofNat k).toUInt64 = bi.tocEntry (.ofNat k) := rfl
    have hnext : UInt32.ofNat k + 1 = .ofNat (k + 1) := by
      rw [UInt32.ofNat_add, UInt32.ofNat_one]
    simp only [length_cons, partInitLoop, hentry, hround, hnext, hloop, foldl_cons]

/-- **A run of the reader**: it accepts a table of version 1 with at most 20 entries, and registers
the partitions one after the other. -/
theorem smemPartInit_eq (h : TocFits bi cfg heapInfo) (maxItems : UInt16) (thisHost : HostId)
    (stack : AllocParams) (hfuel : 0 < fuel)
    (hread : TableReads bi m tocVersion (.ofNat (tocEntries bi cfg heapInfo).length)
      (tocEntries bi cfg heapInfo)) (hready : HeadersReady bi m (tocEntries bi cfg heapInfo)) :
    smemPartInit (bi.smemInfo maxItems) thisHost fuel m stack =
      if tocVersion = 1 ∧ (tocEntries bi cfg heapInfo).length ≤ 20 then
        some ((tocEntries bi cfg heapInfo).foldl (register bi thisHost) fun _ => .uninit)
      else none := by
  have hcount := h.count
  have htoc : (bi.smemInfo maxItems).smemBaseAddr + (bi.smemInfo maxItems).smemSize.toUInt64 -
      tocSize.toUInt64 = bi.toc := rfl
  have hlen : (UInt32.ofNat (tocEntries bi cfg heapInfo).length).toNat =
      (tocEntries bi cfg heapInfo).length := by
    rw [UInt32.toNat_ofNat']
    exact Nat.mod_eq_of_lt (by omega)
  have hmax : UInt32.ofNat (tocEntries bi cfg heapInfo).length ≤ maxPartitions ↔
      (tocEntries bi cfg heapInfo).length ≤ 20 := by
    rw [UInt32.le_iff_toNat_le, hlen]
    rfl
  obtain ⟨params', hloop⟩ := partInitLoop_spec maxItems thisHost stack (fun _ => .uninit) hfuel
    hread hready (tocEntries bi cfg heapInfo) 0 fun p hp => hp
  have hloop' : partInitLoop (bi.smemInfo maxItems) thisHost fuel m bi.toc
      (tocEntries bi cfg heapInfo).length 0 stack (fun _ => .uninit) = _ := hloop
  simp only [smemPartInit, htoc, hread.identifier, hread.version, hread.numEntries, hmax, hlen,
    hloop', ne_eq, not_true_eq_false, if_false, Option.map_some]
  by_cases hversion : tocVersion = 1
  · by_cases hle : (tocEntries bi cfg heapInfo).length ≤ 20
    · simp only [hversion, hle, not_true_eq_false, if_false, and_self, if_true]
    · simp only [hversion, hle, not_true_eq_false, not_false_eq_true, if_false, if_true, and_false]
  · simp only [hversion, not_false_eq_true, if_true, false_and, if_false]

/-- A slot that no entry names stays as it is. -/
theorem foldl_register_of_not_mem (l : List TocEntry)
    (h : r ∉ l.filterMap (TocEntry.slot thisHost)) :
    l.foldl (register bi thisHost) prts r = prts r := by
  induction l generalizing prts with
  | nil => rfl
  | cons e l ih =>
    rw [foldl_cons]
    cases hslot : e.slot thisHost with
    | none =>
      rw [filterMap_cons_none hslot] at h
      rw [ih h, register, hslot]
    | some q =>
      rw [filterMap_cons_some hslot, mem_cons, not_or] at h
      rw [ih h.2, register, hslot]
      simp only
      split
      · exact PartTable.set_of_ne h.1
      · rfl

/-- The partitions are registered when their slots differ. -/
theorem foldl_register (l : List TocEntry) (hnodup : (l.filterMap (TocEntry.slot thisHost)).Nodup)
    (he : e ∈ l) (hslot : e.slot thisHost = some r) (hexcl : e.totalExclSize = 0) :
    l.foldl (register bi thisHost) prts r = e.host bi := by
  induction l generalizing prts with
  | nil => cases he
  | cons d l ih =>
    rw [foldl_cons]
    rcases mem_cons.mp he with rfl | he
    · rw [filterMap_cons_some hslot, nodup_cons] at hnodup
      rw [foldl_register_of_not_mem l hnodup.1, register, hslot]
      simp only [hexcl, if_true, PartTable.set_self]
    · refine ih ?_ he
      cases hd : d.slot thisHost with
      | none => rwa [filterMap_cons_none hd] at hnodup
      | some q =>
        rw [filterMap_cons_some hd, nodup_cons] at hnodup
        exact hnodup.2

end

end Smem
