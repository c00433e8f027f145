import BootXf.Smem.AllocFind
import BootXf.Smem.TocContract

/-!
# The common partition from the boot on

What `smem_boot_init` leaves is where the hosts start from: the common partition holds an empty
heap, and so the heap invariant is kept from there on, whatever the hosts call (`booted_run`). What
a host takes `partInit` to make of the partition is what `smem_part_init` leaves when it goes
through the table (`smemPartInit_common`).
-/

open Lib

namespace Smem

section
variable {bi : BootInfo} {cfg : TocConfigTbl} {tocVersion : UInt32} {m : Memory} {b : Booted}
  {l : List TocConfig}

/-- A partition whose header has been written holds no items. -/
theorem empty_holds {L : Layout} {e : TocEntry} (hstored : HeaderStored bi m e)
    (hheader : L.header = bi.partnHeader e) (hsize : L.size = e.size) : (Heap.empty L).Holds m where
  freeUncached := by
    rw [hheader, hstored.freeUncached]
    rfl
  freeCached := by
    rw [hheader, hstored.freeCached, ← hsize]
    rfl
  uncached := nofun
  cached := nofun

/-- Partitions of whole pages start at pages, with room for a header. -/
theorem startsAtPages_of_paged {n : Nat} (hsizes : ∀ c ∈ l, c.size ≠ 0)
    (hpages : ∀ c ∈ l, c.size.toNat % 4096 = 0) (hn : n % 4096 = 0) : StartsAtPages n l := by
  induction l generalizing n with
  | nil => trivial
  | cons c l ih =>
    have hpage := hpages c (.head _)
    have hne : c.size.toNat ≠ 0 := fun hz => hsizes c (.head _) (UInt32.toNat_inj.mp hz)
    exact ⟨fun _ _ => ⟨by omega, by omega⟩, ih (fun c hc => hsizes c (.tail _ hc))
      (fun c hc => hpages c (.tail _ hc)) (by omega)⟩

/-- The headers of partitions of whole pages do not reach each other. -/
theorem headersApart_of_paged {gap : Nat} (hsizes : ∀ c ∈ l, c.size ≠ 0)
    (hpages : ∀ c ∈ l, c.size.toNat % 4096 = 0) : HeadersApart gap l := by
  induction l generalizing gap with
  | nil => trivial
  | cons c l ih =>
    have hpage := hpages c (.head _)
    have hne : c.size.toNat ≠ 0 := fun hz => hsizes c (.head _) (UInt32.toNat_inj.mp hz)
    exact ⟨fun _ => by omega, ih (fun c hc => hsizes c (.tail _ hc))
      fun c hc => hpages c (.tail _ hc)⟩

/-- Whole pages add up to whole pages. -/
theorem totalSize_mod (hpages : ∀ c ∈ l, c.size.toNat % 4096 = 0) :
    totalSize l % 4096 = 0 := by
  induction l with
  | nil => rfl
  | cons c l ih =>
    have hpage := hpages c (.head _)
    have hrest := ih fun c hc => hpages c (.tail _ hc)
    rw [totalSize_cons]
    omega

/-- The common partition of an accepted configuration that leaves room for it. -/
theorem common_layout (h : smemBootInit bi tocVersion (some cfg) m = some b) (hpages : cfg.Paged)
    (hroom : totalSize cfg.partitions + bi.reserved < bi.smemSize.toNat)
    (hnew : bi.isLegacy = false) (maxItems : UInt16) :
    ∃ L : Layout, L.smemInfo = bi.smemInfo maxItems ∧ L.offset = legacySmemSize ∧ L.cacheline = 32 ∧
      commonEntry L.size ∈ b.written ∧ (Heap.empty L).Holds b.mem ∧
      (commonEntry L.size).Placed bi ∧ HeaderStored bi b.mem (commonEntry L.size) := by
  have hfits := tocFits h (Nat.le_of_lt hroom)
  obtain ⟨-, -, hwritten, -⟩ := smemBootInit_some h
  have hrest := hfits.rest_toNat
  have htop := hfits.top
  rw [TocFits.freeOffset_of_not_legacy hnew] at htop
  have hreserved : bi.reserved = 8192 := by
    rw [BootInfo.reserved, hnew]
    rfl
  have hmod := totalSize_mod hpages
  have haligned := bi.size_aligned
  have habove := bi.above
  have h4096 : legacySmemSize.toNat = 4096 := rfl
  have h32 : (32 : UInt32).toNat = 32 := rfl
  let L : Layout :=
    { smemInfo := bi.smemInfo maxItems
      offset := legacySmemSize
      size := restOf (bi.heapRemaining bi.heapInfo) cfg.partitions
      cacheline := 32
      base_aligned := bi.base_aligned
      offset_aligned := rfl
      size_aligned := by omega
      size_pos := by omega
      inside := by
        show _ ≤ bi.smemSize.toNat
        omega
      below := bi.below
      cacheline_pos := by decide
      cacheline_le := by decide
      above := by
        show _ ≤ bi.smemBaseAddr.toNat
        omega }
  have hentry : commonEntry L.size ∈ tocEntries bi cfg bi.heapInfo := by
    rw [tocEntries, restEntries, hnew]
    exact .tail _ (List.mem_append_right _ (.head _))
  have hne : L.size ≠ 0 := by
    intro hz
    have hpos := L.size_pos
    rw [hz] at hpos
    exact absurd hpos (by decide)
  have hused : (commonEntry L.size).Used :=
    TocEntry.used_of_slot ((if_neg hne).trans remoteHost_common : _ = some (0 : HostId))
  obtain ⟨-, hready⟩ := reads_of_ok h hfits
    (startsAtPages_of_paged (fun _ hc => size_ne_zero hc) hpages rfl)
    (headersApart_of_paged (fun _ hc => size_ne_zero hc) hpages)
  obtain ⟨hplaced, hstored⟩ := hready _ hentry hused
  exact ⟨L, rfl, rfl, rfl, hwritten ▸ hentry, empty_holds hstored rfl rfl, hplaced, hstored⟩

/-- **What a host takes from the table**: when the hosts can read the configuration, the slot in
which `smem_part_init` leaves the common partition is what `partInit` makes of it. -/
theorem smemPartInit_common (h : smemBootInit bi tocVersion (some cfg) m = some b)
    (hok : TocConfigOk bi tocVersion cfg) {size : UInt32} (hentry : commonEntry size ∈ b.written)
    (hplaced : (commonEntry size).Placed bi) (hstored : HeaderStored bi b.mem (commonEntry size))
    (thisHost : HostId) (maxItems : UInt16) {fuel : Nat} (hfuel : 0 < fuel) (stack : AllocParams) :
    ∃ prts answer, smemPartInit (bi.smemInfo maxItems) thisHost fuel b.mem stack = some prts ∧
      partInit (bi.smemInfo maxItems) (.ofNat thisHost.val) fuel legacySmemSize
        size 32 b.mem stack =
        some (answer, prts thisHost) := by
  have hfits := tocFits h hok.total
  obtain ⟨hread, hready⟩ := reads_of_ok h hfits hok.pages hok.apart
  obtain ⟨-, -, hwritten, -⟩ := smemBootInit_some h
  have hrun := smemPartInit_eq hfits maxItems thisHost stack hfuel hread hready
  have hlen : (tocEntries bi cfg bi.heapInfo).length ≤ 20 := by
    rw [length_tocEntries_eq]
    exact hok.count
  rw [if_pos ⟨hok.version, hlen⟩] at hrun
  have hne : size ≠ 0 := by
    rintro rfl
    exact absurd hplaced.room (by decide)
  have hslot : (commonEntry size).slot thisHost = some thisHost :=
    (if_neg hne).trans remoteHost_common
  have hnodup : ((tocEntries bi cfg bi.heapInfo).filterMap (TocEntry.slot thisHost)).Nodup := by
    rw [slots_tocEntries hfits]
    exact hok.slots thisHost
  have hcall := getAddrEx_registered maxItems thisHost
    { stack with remoteHost := .ofNat thisHost.val, smemType := memFirst } hplaced hfuel
    hstored.freeUncached hstored.freeCached rfl
  refine ⟨_, ⟨.notFound, { stack with remoteHost := .ofNat thisHost.val, smemType := memFirst }⟩,
    hrun, ?_⟩
  rw [foldl_register _ hnodup (hwritten ▸ hentry) hslot rfl]
  simp only [TocEntry.host, partitionHost, commonEntry, BootInfo.partnHeader] at hcall
  simp only [partInit, BootInfo.smemInfo, TocEntry.host, partitionHost, commonEntry,
    BootInfo.partnHeader] at hcall ⊢
  rw [hcall]

/-- **From the boot on**: the memory that an accepted configuration leaves has a common partition,
on which every run of the hosts keeps a heap of items that lie disjoint in the partition, one of a
type. When the hosts can read the configuration, they start from what `smem_part_init` takes from
the table. -/
theorem booted_run (h : smemBootInit bi tocVersion (some cfg) m = some b) (hpages : cfg.Paged)
    (hroom : totalSize cfg.partitions + bi.reserved < bi.smemSize.toNat)
    (hnew : bi.isLegacy = false) (maxItems : UInt16) :
    ∃ L : Layout, L.smemInfo = bi.smemInfo maxItems ∧ L.offset = legacySmemSize ∧ L.cacheline = 32 ∧
      commonEntry L.size ∈ b.written ∧
      (∀ (ι : Type) [DecidableEq ι] (thisHost : ι → UInt32) (fuel : Nat) (history : List (Event ι))
        (w : World ι), L.size.toNat ≤ 16 * fuel →
        Run (Step L thisHost fuel) ⟨b.mem, fun _ => Host.uninit⟩ history w →
        ∃ H : Heap L, w.Inv H ∧ H.spans.Pairwise Span.Disjoint ∧ (∀ s ∈ H.spans, s.Within L.span) ∧
          H.types.Nodup) ∧
      (TocConfigOk bi tocVersion cfg → ∀ (thisHost : HostId) (fuel : Nat) (stack : AllocParams),
        0 < fuel → ∃ prts answer,
          smemPartInit L.smemInfo thisHost fuel b.mem stack = some prts ∧
          partInit L.smemInfo (.ofNat thisHost.val) fuel L.offset L.size L.cacheline b.mem stack =
            some (answer, prts thisHost)) := by
  obtain ⟨L, hinfo, hoffset, hcacheline, hentry, hholds, hplaced, hstored⟩ :=
    common_layout h hpages hroom hnew maxItems
  refine ⟨L, hinfo, hoffset, hcacheline, hentry, fun ι _ thisHost fuel history w hfuel run => ?_,
    fun hok thisHost fuel stack hfuel => ?_⟩
  · obtain ⟨H, -, hinv⟩ := run_extends hfuel ⟨hholds, fun _ => .inl rfl⟩ run
    exact ⟨H, hinv, H.spans_disjoint.1, H.spans_disjoint.2, H.unique⟩
  · rw [hinfo, hoffset, hcacheline]
    exact smemPartInit_common h hok hentry hplaced hstored thisHost maxItems hfuel stack

end

/-! ## The target -/

theorem cacheline_pos : 0 < (32 : UInt32).toNat := by decide

theorem cacheline_le : (32 : UInt32).toNat ≤ 65536 := by decide

/-- The common partition of the target. -/
def targetLayout : Layout where
  smemInfo := targetBoot.smemInfo 512
  offset := legacySmemSize
  size := 0x146000
  cacheline := 32
  base_aligned := by decide
  offset_aligned := by decide
  size_aligned := by decide
  size_pos := by decide
  inside := by decide
  below := by decide
  cacheline_pos := cacheline_pos
  cacheline_le := cacheline_le
  above := by decide

/-- What two hosts of the target make of a memory: both are set up, the first allocates an uncached
and a cached item, and the second looks the uncached one up. -/
def targetWorld (m : Memory) : Option (World Bool) :=
  World.calls targetLayout (fun h => if h then 1 else 0) 83456
    ⟨m, fun _ => Host.uninit⟩ exampleCalls

/-- The hosts of the target on the memory that the boot leaves: the second one knows of both items
of the first, and the heap is as it should be; and a host reads its partition from the table. -/
theorem booted_run_target : ∃ b w, smemBootInit targetBoot 1 (some targetTbl) .zero = some b ∧
    targetWorld b.mem = some w ∧ (w.host true).info.offsetFreeUncached = 56 ∧
    (w.host true).info.offsetFreeCached = targetLayout.size - 64 ∧
    (∃ H : Heap targetLayout, w.Inv H ∧ H.spans.Pairwise Span.Disjoint) ∧
    ∃ prts answer, smemPartInit targetLayout.smemInfo 1 83456 b.mem (request 0 0 0) = some prts ∧
      partInit targetLayout.smemInfo 1 83456 targetLayout.offset targetLayout.size
        targetLayout.cacheline b.mem (request 0 0 0) = some (answer, prts 1) := by
  have hrun : ((smemBootInit targetBoot 1 (some targetTbl) .zero).bind fun b =>
      (targetWorld b.mem).map fun w => decide (
        (∀ e ∈ b.written, e.host0 = commonHost → e.size = targetLayout.size) ∧
        (w.host true).info.offsetFreeUncached = 56 ∧
        (w.host true).info.offsetFreeCached = targetLayout.size - 64)) = some true := by
    decide +kernel
  obtain ⟨b, h, hrun⟩ := Option.bind_eq_some_iff.mp hrun
  obtain ⟨w, hw, hrun⟩ := Option.map_eq_some_iff.mp hrun
  obtain ⟨hsize, huncached, hcached⟩ := of_decide_eq_true hrun
  have hpages : targetTbl.Paged := by
    unfold TocConfigTbl.Paged
    decide +kernel
  have hok : TocConfigOk targetBoot 1 targetTbl :=
    ⟨by decide +kernel, rfl, by decide +kernel, by decide +kernel, by decide +kernel,
      by decide +kernel, by decide +kernel⟩
  obtain ⟨L, hinfo, hoffset, hcacheline, hentry, hruns, hinit⟩ :=
    booted_run h hpages (by decide +kernel) (by decide +kernel) 512
  obtain rfl : L = targetLayout := Layout.ext hinfo hoffset (hsize _ hentry rfl) hcacheline
  obtain ⟨history, run⟩ := World.calls_run .start hw
  obtain ⟨H, hinv, hdisjoint, -⟩ := hruns Bool _ 83456 history w (by decide) run
  exact ⟨b, w, h, hw, huncached, hcached, ⟨H, hinv, hdisjoint⟩,
    hinit hok 1 83456 (request 0 0 0) (by decide)⟩

end Smem
