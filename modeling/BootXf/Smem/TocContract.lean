import BootXf.Smem.TocOverlap

/-!
# The contract of the table of contents

What the setup of shared memory owes the hosts that read the table (`TocAgrees`): the regions of the
table are disjoint and fill shared memory below it, and every host accepts the table and registers
each of its partitions. The setup accepts tables for which it does not keep this: partitions whose
sizes add up past 32 bits, more partitions than a host takes, partitions with exclusion ranges,
which the reader skips, partitions that do not start at a page, and partitions so small that the
header of one runs into what lies above it. `TocConfigOk` is what a configuration has to satisfy.
-/

open Lib

namespace Smem

open List Option

/-- What shared memory keeps below the configured partitions and for the table itself. -/
def BootInfo.reserved (bi : BootInfo) : Nat := if bi.isLegacy then 4096 else 8192

/-- The slots in which a host registers its partitions. -/
def BootInfo.slots (bi : BootInfo) (cfg : TocConfigTbl) (thisHost : HostId) : List HostId :=
  ((cfg.partitions.filter fun c => !c.ignored).filterMap fun c =>
    remoteHost thisHost c.host0 c.host1) ++ if bi.isLegacy then [] else [thisHost]

/-- Some host registers the partition. -/
def TocConfig.Used (c : TocConfig) : Prop :=
  ∃ thisHost : HostId, (remoteHost thisHost c.host0 c.host1).isSome = true

instance (c : TocConfig) : Decidable c.Used := inferInstanceAs (Decidable (∃ _, _))

/-- The partitions that some host uses start at whole pages and have room for a header, when `n`
bytes have been cut off above them. -/
def StartsAtPages : Nat → List TocConfig → Prop
  | _, [] => True
  | n, c :: l =>
    (c.ignored = false → c.Used → (n + c.size.toNat) % 4096 = 0 ∧ 32 ≤ c.size.toNat) ∧
      StartsAtPages (n + c.size.toNat) l

instance : ∀ (n : Nat) (l : List TocConfig), Decidable (StartsAtPages n l)
  | _, [] => inferInstanceAs (Decidable True)
  | n, c :: l =>
    have : Decidable (StartsAtPages (n + c.size.toNat) l) := instDecidableStartsAtPages _ l
    inferInstanceAs (Decidable (_ ∧ _))

/-- The headers of the partitions end below the table and below the header of every partition above
them that some host uses, when `gap` bytes have been cut off since the last of these. -/
def HeadersApart : Nat → List TocConfig → Prop
  | _, [] => True
  | gap, c :: l =>
    (c.ignored = false → 20 ≤ gap + c.size.toNat) ∧
      HeadersApart (if c.ignored = false ∧ c.Used then 0 else gap + c.size.toNat) l

instance : ∀ (gap : Nat) (l : List TocConfig), Decidable (HeadersApart gap l)
  | _, [] => inferInstanceAs (Decidable True)
  | gap, c :: l =>
    have :
        Decidable (HeadersApart (if c.ignored = false ∧ c.Used then 0 else gap + c.size.toNat) l) :=
      instDecidableHeadersApart _ l
    inferInstanceAs (Decidable (_ ∧ _))

/-- The configuration is one that the hosts can read: its sizes fit in shared memory without a wrap,
the table is of the version and the size they take, the partitions that some host uses start at
whole pages with headers that no other one runs into, they have no exclusion ranges, and no host has
two partitions in one slot. -/
structure TocConfigOk (bi : BootInfo) (tocVersion : UInt32) (cfg : TocConfigTbl) : Prop where
  total : totalSize cfg.partitions + bi.reserved ≤ bi.smemSize.toNat
  version : tocVersion = 1
  count : (cfg.partitions.filter fun c => !c.ignored).length + bi.additionalPartn.toNat ≤ 20
  pages : StartsAtPages 0 cfg.partitions
  apart : HeadersApart 0 cfg.partitions
  exclusions : ∀ c ∈ cfg.partitions, c.ignored = false → c.Used → c.exclusionSizes.total = 0
  slots : ∀ thisHost, (bi.slots cfg thisHost).Nodup

/-- All configured partitions are whole pages. -/
def TocConfigTbl.Paged (cfg : TocConfigTbl) : Prop :=
  ∀ c ∈ cfg.partitions, c.size.toNat % 4096 = 0

/-- The slot holds the partition of an entry as it was set up: its free space begins behind the
header, and it does not count more than the usable size that its header records. -/
structure Registered (bi : BootInfo) (m : Memory) (e : TocEntry) (host : Host) : Prop where
  header : host.info.header = bi.partnHeader e
  size : host.info.size = m.u32 (bi.partnHeader e + 8)
  freeUncached : host.info.offsetFreeUncached = 32
  freeCached_le : host.info.offsetFreeCached ≤ m.u32 (bi.partnHeader e + 8)

/-- **The contract**: the regions behind the table's own entry are disjoint, lie below the table and
with those of the ignored partitions fill shared memory; the table is found, and every host accepts
it and has registered each of its partitions. -/
structure TocAgrees (bi : BootInfo) (cfg : TocConfigTbl) (b : Booted) : Prop where
  disjoint : (b.written.tail.map TocEntry.span).Pairwise Span.Disjoint
  below : ∀ e ∈ b.written.tail, e.span.Within ⟨0, bi.smemSize.toNat - 4096⟩
  tiles : ∃ gaps : List Span,
    gaps.map Span.len = (cfg.partitions.filter TocConfig.ignored).map (fun c => c.size.toNat) ∧
      Span.Tiles 0 (bi.smemSize.toNat - 4096) (b.written.tail.map TocEntry.span ++ gaps)
  found : b.mem.u32 bi.toc = tocIdentifier
  accepts : ∀ (thisHost : HostId) (maxItems : UInt16) (fuel : Nat) (stack : AllocParams), 0 < fuel →
    ∃ prts, smemPartInit (bi.smemInfo maxItems) thisHost fuel b.mem stack = some prts ∧
      ∀ e ∈ b.written, ∀ r, e.slot thisHost = some r → Registered bi b.mem e (prts r)

/-! ## Where the configured partitions lie -/

section
variable {l : List TocConfig} {top : UInt32} {e : TocEntry}

/-- The entry of a configured partition names its hosts. -/
theorem TocConfig.used_entry {c : TocConfig} (hsize : c.size ≠ 0) (offset : UInt32) :
    (c.entry offset).Used ↔ c.Used := by
  have hslot : ∀ thisHost, (c.entry offset).slot thisHost = remoteHost thisHost c.host0 c.host1 :=
    fun _ => if_neg hsize
  simp only [TocEntry.Used, TocConfig.Used, hslot]

/-- `StartsAtPages` says where the entries lie, counted from a page down. -/
theorem startsAtPages_iff {n t : Nat} (hsizes : ∀ c ∈ l, c.size ≠ 0) (hl : totalSize l ≤ top.toNat)
    (htop : top.toNat + n = t) (ht : t % 4096 = 0) :
    StartsAtPages n l ↔
      ∀ e ∈ configEntries top l, e.Used → e.offset.toNat % 4096 = 0 ∧ 32 ≤ e.size.toNat := by
  induction l generalizing top n with
  | nil => exact ⟨fun _ => nofun, fun _ => trivial⟩
  | cons c l ih =>
    rw [totalSize_cons] at hl
    have hsub : (top - c.size).toNat = top.toNat - c.size.toNat := uint32_sub_toNat (by omega)
    have hrest := ih (n := n + c.size.toNat) (fun c hc => hsizes c (.tail _ hc))
      (by omega : totalSize l ≤ (top - c.size).toNat) (by omega)
    have hused := TocConfig.used_entry (hsizes c (.head _)) (top - c.size)
    have hoff : (c.entry (top - c.size)).offset.toNat = top.toNat - c.size.toNat := hsub
    have hsize : (c.entry (top - c.size)).size = c.size := rfl
    have hpage : (top.toNat - c.size.toNat) % 4096 = 0 ↔ (n + c.size.toNat) % 4096 = 0 := by omega
    cases hc : c.ignored with
    | true => simp only [StartsAtPages, configEntries, hc, hrest, if_true, reduceCtorEq,
        false_implies, true_and]
    | false =>
      simp only [StartsAtPages, configEntries, hc, hrest, Bool.false_eq_true,
        if_false, forall_const,
        forall_mem_cons, hused, hoff, hsize, hpage]

/-- `HeadersApart` says how far the entries lie below the address where the last gap ends, and below
one another. -/
theorem headersApart_iff {gap t : Nat} (hsizes : ∀ c ∈ l, c.size ≠ 0)
    (hl : totalSize l ≤ top.toNat) (htop : top.toNat + gap = t) :
    HeadersApart gap l ↔ (∀ e ∈ configEntries top l, e.offset.toNat + 20 ≤ t) ∧
      (configEntries top l).Pairwise fun e e' =>
        e.Used → e'.offset.toNat + 20 ≤ e.offset.toNat := by
  induction l generalizing top gap t with
  | nil => exact ⟨fun _ => ⟨nofun, List.Pairwise.nil⟩, fun _ => trivial⟩
  | cons c l ih =>
    rw [totalSize_cons] at hl
    have hsub : (top - c.size).toNat = top.toNat - c.size.toNat := uint32_sub_toNat (by omega)
    have hsizes' : ∀ c ∈ l, c.size ≠ 0 := fun c hc => hsizes c (.tail _ hc)
    have hoff : (c.entry (top - c.size)).offset.toNat = top.toNat - c.size.toNat := hsub
    have hgap : top.toNat - c.size.toNat + 20 ≤ t ↔ 20 ≤ gap + c.size.toNat := by omega
    have hrest := ih hsizes' (by omega : totalSize l ≤ (top - c.size).toNat)
      (by omega : (top - c.size).toNat + (gap + c.size.toNat) = t)
    have hused := TocConfig.used_entry (hsizes c (.head _)) (top - c.size)
    cases hc : c.ignored with
    | true => simp only [HeadersApart, configEntries, hc, hrest, if_true, reduceCtorEq,
        false_implies, true_and, false_and, if_false]
    | false =>
      by_cases hcu : c.Used
      · -- the header of a partition that is used is where the next gap ends
        have hreset := ih hsizes' (by omega : totalSize l ≤ (top - c.size).toNat)
          (by omega : (top - c.size).toNat + 0 = top.toNat - c.size.toNat)
        simp only [HeadersApart, configEntries, hc, hcu, and_self, if_true, Bool.false_eq_true,
          if_false, forall_const, hreset, forall_mem_cons, pairwise_cons, hused, hoff, hgap]
        constructor
        · rintro ⟨hfirst, hbelow, hpairs⟩
          exact ⟨⟨hfirst, fun e he => by have := hbelow e he; omega⟩, hbelow, hpairs⟩
        · rintro ⟨⟨hfirst, -⟩, hbelow, hpairs⟩
          exact ⟨hfirst, hbelow, hpairs⟩
      · simp only [HeadersApart, configEntries, hc, hcu, and_false, if_false, Bool.false_eq_true,
          forall_const, hrest, forall_mem_cons, pairwise_cons, hused, hoff, hgap,
          false_implies, implies_true, true_and, and_assoc]

end

/-! ## The heap of a booted memory -/

/-- The heap info before the table is set up. -/
def BootInfo.heapInfo (bi : BootInfo) : HeapInfo :=
  smemBootHeapInfoInit bi
    (if bi.isLegacy then legacyAllocTableInit 0 smemLegacyBufDataTbl .zero else .zero)

section
variable {bi : BootInfo} {cfg : TocConfigTbl} {tocVersion : UInt32} {m : Memory} {b : Booted}
  {thisHost : HostId}

/-- The heap of a legacy memory starts behind the fixed buffers. -/
theorem heapInfo_of_legacy (hl : bi.isLegacy = true) :
    bi.heapInfo = ⟨1, 8648, bi.smemSize - 8648⟩ := by
  have hlast : (legacyAllocTableInit 0 smemLegacyBufDataTbl .zero).entry lastFixedBuffer =
      ⟨1, 8644, 4, 0⟩ := by decide +kernel
  simp only [BootInfo.heapInfo, smemBootHeapInfoInit, hl, if_true, hlast]
  rfl

/-- **What an accepted configuration leaves.** -/
theorem smemBootInit_some (h : smemBootInit bi tocVersion (some cfg) m = some b) :
    (bi.heapStart bi.heapInfo).2.2 + .ofNat (totalSize cfg.partitions) ≤
        bi.heapRemaining bi.heapInfo ∧
      32 + 48 * (UInt32.ofNat (tocEntries bi cfg bi.heapInfo).length).toNat ≤ 4096 ∧
      b.written = tocEntries bi cfg bi.heapInfo ∧
      ∃ m' : Memory, b.mem = m'.putAll
        (setupPuts bi tocVersion (.ofNat (tocEntries bi cfg bi.heapInfo).length) b.written) := by
  unfold smemBootInit at h
  split at h
  · cases h
  · simp only [map_eq_some_iff] at h
    obtain ⟨⟨cur, heapInfo'⟩, hsetup, rfl⟩ := h
    obtain ⟨hsum, hfit, hwritten, hmem, -⟩ := smemBootTocSetup_some hsetup
    exact ⟨hsum, hfit, hwritten, _, hmem⟩

theorem length_partitions_lt (cfg : TocConfigTbl) : 36 * cfg.partitions.length < 2 ^ 32 := by
  have hfilter : cfg.partitions.length ≤ (cfg.entries.takeWhile TocConfig.live).length :=
    length_filter_le _ _
  have htake : (cfg.entries.takeWhile TocConfig.live).length ≤ cfg.entries.length :=
    (takeWhile_sublist _).length_le
  have hshort := cfg.short
  omega

theorem length_tocEntries_eq (bi : BootInfo) (cfg : TocConfigTbl) (heapInfo : HeapInfo) :
    (tocEntries bi cfg heapInfo).length =
      (cfg.partitions.filter fun c => !c.ignored).length + bi.additionalPartn.toNat := by
  simp only [tocEntries, restEntries, BootInfo.additionalPartn, length_cons,
    length_append, length_configEntries]
  split
  · rfl
  · rfl

/-- An accepted configuration whose sizes do not wrap fits. -/
theorem tocFits (h : smemBootInit bi tocVersion (some cfg) m = some b)
    (htotal : totalSize cfg.partitions + bi.reserved ≤ bi.smemSize.toNat) :
    TocFits bi cfg bi.heapInfo := by
  obtain ⟨hsum, hfit, -, -⟩ := smemBootInit_some h
  have hlarge := bi.large
  have hlt := bi.smemSize.toNat_lt
  have hcount : 32 + 48 * (tocEntries bi cfg bi.heapInfo).length ≤ 4096 := by
    have hshort := length_partitions_lt cfg
    have hfilter : (cfg.partitions.filter fun c => !c.ignored).length ≤ cfg.partitions.length :=
      length_filter_le _ _
    have hadd : bi.additionalPartn.toNat ≤ 3 := by
      unfold BootInfo.additionalPartn
      split <;> decide
    have hlen := length_tocEntries_eq bi cfg bi.heapInfo
    rw [UInt32.toNat_ofNat', Nat.mod_eq_of_lt (by omega)] at hfit
    exact hfit
  have h4096 : (4096 : UInt32).toNat = 4096 := rfl
  rw [UInt32.le_iff_toNat_le, UInt32.toNat_add, UInt32.toNat_ofNat'] at hsum
  cases hl : bi.isLegacy with
  | true =>
    have hfree : bi.freeOffset bi.heapInfo = 8648 := by
      simp only [BootInfo.freeOffset, BootInfo.heapStart, hl, if_true, heapInfo_of_legacy hl]
    have hrem : bi.heapRemaining bi.heapInfo = bi.smemSize - 8648 - 4096 := by
      simp only [BootInfo.heapRemaining, BootInfo.heapStart, hl, if_true, heapInfo_of_legacy hl]
      rfl
    have hstart : (bi.heapStart bi.heapInfo).2.2.toNat = 4096 := by
      simp only [BootInfo.heapStart, hl, if_true]
      rfl
    have h8648 : (8648 : UInt32).toNat = 8648 := rfl
    have hsub : (bi.smemSize - 8648).toNat = bi.smemSize.toNat - 8648 :=
      uint32_sub_toNat (by omega)
    have hsub' : (bi.smemSize - 8648 - 4096).toNat = bi.smemSize.toNat - 8648 - 4096 := by
      rw [uint32_sub_toNat (by omega), hsub, h4096]
    simp only [BootInfo.reserved, hl, if_true] at htotal
    rw [hrem, hsub', hstart] at hsum
    refine ⟨?_, ?_, ?_, hcount⟩
    · rw [hfree, h8648]
      decide
    · rw [hfree, hrem, hsub', h8648]
      omega
    · rw [hrem, hsub']
      omega
  | false =>
    have hfree : (bi.freeOffset bi.heapInfo).toNat = 4096 := TocFits.freeOffset_of_not_legacy hl
    have hrem : bi.heapRemaining bi.heapInfo = bi.smemSize - 8192 := by
      simp only [BootInfo.heapRemaining, BootInfo.heapStart, hl, Bool.false_eq_true, if_false]
      rfl
    have hstart : (bi.heapStart bi.heapInfo).2.2.toNat = 8192 := by
      simp only [BootInfo.heapStart, hl, Bool.false_eq_true, if_false]
      rfl
    have h8192 : (8192 : UInt32).toNat = 8192 := rfl
    have hsub : (bi.smemSize - 8192).toNat = bi.smemSize.toNat - 8192 :=
      uint32_sub_toNat (by omega)
    simp only [BootInfo.reserved, hl, Bool.false_eq_true, if_false] at htotal
    rw [hrem, hsub, hstart] at hsum
    refine ⟨by omega, ?_, ?_, hcount⟩
    · rw [hfree, hrem, hsub]
      omega
    · rw [hrem, hsub]
      omega

/-! ## The contract -/

theorem size_ne_zero {c : TocConfig} (hc : c ∈ cfg.partitions) : c.size ≠ 0 := by
  have hmem := (mem_filter.mp hc).2
  simpa using hmem

/-- The slots of the configured partitions are those of their entries. -/
theorem slots_configEntries (thisHost : HostId) (top : UInt32) {l : List TocConfig}
    (hl : ∀ c ∈ l, c.size ≠ 0) :
    (configEntries top l).filterMap (TocEntry.slot thisHost) =
      (l.filter fun c => !c.ignored).filterMap fun c => remoteHost thisHost c.host0 c.host1 := by
  induction l generalizing top with
  | nil => rfl
  | cons c l ih =>
    have hrest := ih (top - c.size) fun c hc => hl c (.tail _ hc)
    have hslot : TocEntry.slot thisHost (c.entry (top - c.size)) =
        remoteHost thisHost c.host0 c.host1 := if_neg (hl c (.head _))
    cases hc : c.ignored with
    | true => simp [configEntries, hc, hrest]
    | false => simp [configEntries, hc, filterMap_cons, hrest, hslot]

/-- The slots of a table that fits. -/
theorem slots_tocEntries (h : TocFits bi cfg bi.heapInfo) (thisHost : HostId) :
    (tocEntries bi cfg bi.heapInfo).filterMap (TocEntry.slot thisHost) = bi.slots cfg thisHost := by
  have hregion : ∀ offset size flags,
      TocEntry.slot thisHost (regionEntry offset size flags) = none := by
    intro offset size flags
    have hnone : remoteHost thisHost invalidHost16 invalidHost16 = none := remoteHost_invalid
    simp only [TocEntry.slot, regionEntry, hnone, ite_self]
  have hsizes : ∀ c ∈ cfg.partitions, c.size ≠ 0 := fun _ hc => size_ne_zero hc
  have hconfig := slots_configEntries thisHost
    (bi.freeOffset bi.heapInfo + bi.heapRemaining bi.heapInfo) hsizes
  rw [tocEntries, filterMap_cons_none (hregion _ _ _), filterMap_append, hconfig,
    BootInfo.slots, restEntries]
  cases hl : bi.isLegacy with
  | true => simp [hregion]
  | false =>
    have hrest := h.rest_toNat
    have hfits := h.fits
    have hne : restOf (bi.heapRemaining bi.heapInfo) cfg.partitions ≠ 0 := by
      intro hz
      rw [hz, UInt32.toNat_zero] at hrest
      omega
    have hcommon : TocEntry.slot thisHost
        (commonEntry (restOf (bi.heapRemaining bi.heapInfo) cfg.partitions)) = some thisHost :=
      (if_neg hne).trans remoteHost_common
    simp [hregion, hcommon]

/-- The sizes of the configured partitions fit below the table, which begins at a page. -/
theorem TocFits.config_fits (h : TocFits bi cfg bi.heapInfo) :
    totalSize cfg.partitions + 4096 + 4096 ≤
        (bi.freeOffset bi.heapInfo + bi.heapRemaining bi.heapInfo).toNat ∧
      (bi.freeOffset bi.heapInfo + bi.heapRemaining bi.heapInfo).toNat % 4096 = 0 := by
  have htop := h.top_toNat
  have hsum := h.top
  have hfits := h.fits
  have hlow := h.low
  have hpages := bi.size_aligned
  omega

/-- The entry of a configured partition has a header. -/
theorem hasHeader_of_mem_configEntries {e : TocEntry} (h : TocFits bi cfg bi.heapInfo)
    (he : e ∈ configEntries (bi.freeOffset bi.heapInfo + bi.heapRemaining bi.heapInfo)
      cfg.partitions) : e.hasHeader = true := by
  have hfits := h.config_fits
  obtain ⟨-, -, c, hc, -, hent⟩ := mem_configEntries (by omega) he
  rw [hent]
  exact TocFits.hasHeader_iff.mpr ⟨size_ne_zero hc, rfl⟩

/-- An entry that some host uses is that of a configured partition, or has no exclusion ranges. -/
theorem used_cases {e : TocEntry} (h : TocFits bi cfg bi.heapInfo)
    (he : e ∈ tocEntries bi cfg bi.heapInfo) (hused : e.Used) :
    e.totalExclSize = 0 ∨ ∃ c ∈ cfg.partitions, c.ignored = false ∧ c.Used ∧
      e.totalExclSize = c.exclusionSizes.total := by
  obtain ⟨thisHost, hsome⟩ := hused
  obtain ⟨r, hslot⟩ := isSome_iff_exists.mp hsome
  have hhdr := TocFits.hasHeader_iff.mp (h.hasHeader_of_slot he hslot)
  have hfits := h.config_fits
  obtain ⟨-, -, hconfig | ⟨-, rfl⟩⟩ := h.mem_of_hasHeader he hhdr.2
  · obtain ⟨-, -, c, hc, hign, hent⟩ := mem_configEntries (by omega) hconfig
    refine .inr ⟨c, hc, hign, (TocConfig.used_entry (size_ne_zero hc) e.offset).mp ?_, ?_⟩
    · rw [← hent]
      exact TocEntry.used_of_slot hslot
    · rw [hent]
      rfl
  · exact .inl rfl

/-- The partitions that some host uses lie where the hosts take them. -/
theorem placed_of_startsAtPages (h : TocFits bi cfg bi.heapInfo)
    (hpages : StartsAtPages 0 cfg.partitions) :
    ∀ e ∈ tocEntries bi cfg bi.heapInfo, e.Used → e.Placed bi := by
  intro e he hused
  obtain ⟨htotal, htop⟩ := h.config_fits
  obtain ⟨r, hsome⟩ := hused
  obtain ⟨q, hslot⟩ := isSome_iff_exists.mp hsome
  have hhdr := h.hasHeader_of_slot he hslot
  have hbelow : totalSize cfg.partitions ≤
      (bi.freeOffset bi.heapInfo + bi.heapRemaining bi.heapInfo).toNat := by omega
  have hstarts := (startsAtPages_iff (fun _ hc => size_ne_zero hc) hbelow rfl htop).mp hpages
  have hrest := h.rest_toNat
  have hfits := h.fits
  obtain ⟨-, -, hconfig | ⟨-, rfl⟩⟩ := h.mem_of_hasHeader he (TocFits.hasHeader_iff.mp hhdr).2
  · obtain ⟨haligned, hroom⟩ := hstarts e hconfig ⟨r, hsome⟩
    exact h.placed he hhdr haligned hroom
  · refine h.placed he hhdr (by decide : legacySmemSize.toNat % 4096 = 0) ?_
    show 32 ≤ (restOf (bi.heapRemaining bi.heapInfo) cfg.partitions).toNat
    omega

/-- No header runs into the table, nor into that of a partition that some host uses. -/
theorem headersSpared_of_apart (h : TocFits bi cfg bi.heapInfo)
    (hapart : HeadersApart 0 cfg.partitions) :
    HeadersSpared bi TocEntry.Used (tocEntries bi cfg bi.heapInfo) := by
  obtain ⟨htotal, -⟩ := h.config_fits
  have htop := h.top_toNat
  have hlarge := bi.large
  have hrest : ∀ e ∈ restEntries bi (bi.freeOffset bi.heapInfo)
      (restOf (bi.heapRemaining bi.heapInfo) cfg.partitions), e.hasHeader = true →
        e.offset.toNat = 4096 := by
    intro e he hhdr
    simp only [restEntries] at he
    split at he
    · cases mem_singleton.mp he
      cases (TocFits.hasHeader_iff.mp hhdr).2
    · rcases mem_cons.mp he with rfl | he
      · rfl
      · cases mem_singleton.mp he
        cases (TocFits.hasHeader_iff.mp hhdr).2
  have hfit : totalSize cfg.partitions ≤
      (bi.freeOffset bi.heapInfo + bi.heapRemaining bi.heapInfo).toNat := by omega
  obtain ⟨hbelow, hpairs⟩ := (headersApart_iff (fun _ hc => size_ne_zero hc) hfit rfl).mp hapart
  refine ⟨fun e he hhdr => ?_, pairwise_cons.mpr ⟨fun _ _ _ hself => ?_,
    pairwise_append.mpr ⟨hpairs.imp fun hpair hused _ _ => ?_, ?_, ?_⟩⟩⟩
  · rcases mem_cons.mp he with rfl | he
    · cases (TocFits.hasHeader_iff.mp hhdr).2
    rcases mem_append.mp he with he | he
    · have := hbelow e he
      omega
    · rw [hrest e he hhdr]
      omega
  · cases (TocFits.hasHeader_iff.mp hself).2
  · have := hpair hused
    exact .inr (by simp only [Span.stop, BootInfo.headerSpan]; omega)
  · simp only [restEntries]
    split
    · exact pairwise_singleton _ _
    · refine pairwise_cons.mpr ⟨fun e' he' _ _ hhdr => ?_, pairwise_singleton _ _⟩
      cases mem_singleton.mp he'
      cases (TocFits.hasHeader_iff.mp hhdr).2
  · intro e he e' he' _ _ hhdr'
    obtain ⟨hlow, -, -⟩ := mem_configEntries (by omega) he
    have hoff := hrest e' he' hhdr'
    exact .inr (by simp only [Span.stop, BootInfo.headerSpan]; omega)

/-- **What the hosts read of a table that is set up for them.** -/
theorem reads_of_ok (h : smemBootInit bi tocVersion (some cfg) m = some b)
    (hfits : TocFits bi cfg bi.heapInfo) (hpages : StartsAtPages 0 cfg.partitions)
    (hapart : HeadersApart 0 cfg.partitions) :
    TableReads bi b.mem tocVersion (.ofNat (tocEntries bi cfg bi.heapInfo).length)
        (tocEntries bi cfg bi.heapInfo) ∧
      HeadersReady bi b.mem (tocEntries bi cfg bi.heapInfo) := by
  obtain ⟨-, -, hwritten, m', hmem⟩ := smemBootInit_some h
  have hspared := headersSpared_of_apart hfits hapart
  rw [hmem, hwritten]
  refine ⟨hfits.readTable hspared.table, fun e he hused => ?_⟩
  obtain ⟨r, hsome⟩ := hused
  obtain ⟨q, hslot⟩ := isSome_iff_exists.mp hsome
  exact ⟨placed_of_startsAtPages hfits hpages e he ⟨r, hsome⟩,
    hfits.readHeader hspared he ⟨r, hsome⟩ (hfits.hasHeader_of_slot he hslot)⟩

/-- **A configuration that the hosts can read is set up for them.** -/
theorem tocAgrees_of_ok (h : smemBootInit bi tocVersion (some cfg) m = some b)
    (hok : TocConfigOk bi tocVersion cfg) : TocAgrees bi cfg b := by
  have hfits := tocFits h hok.total
  obtain ⟨hread, hready⟩ := reads_of_ok h hfits hok.pages hok.apart
  obtain ⟨-, -, hwritten, -⟩ := smemBootInit_some h
  have htiles := hfits.tiles
  rw [← hwritten] at htiles
  refine ⟨(pairwise_append.mp htiles.pairwise_disjoint).1, fun e he => ?_,
    ⟨_, configGaps_len _, htiles⟩, hread.identifier, fun thisHost maxItems fuel stack hfuel => ?_⟩
  · have hwithin := htiles.within e.span (mem_append_left _ (List.mem_map_of_mem he))
    rwa [Nat.sub_zero] at hwithin
  · have hrun := smemPartInit_eq hfits maxItems thisHost stack hfuel hread hready
    have hlen : (tocEntries bi cfg bi.heapInfo).length ≤ 20 := by
      rw [length_tocEntries_eq]
      exact hok.count
    rw [if_pos ⟨hok.version, hlen⟩] at hrun
    refine ⟨_, hrun, fun e he r hslot => ?_⟩
    rw [hwritten] at he
    have hused := TocEntry.used_of_slot hslot
    have hexcl : e.totalExclSize = 0 := by
      rcases used_cases hfits he hused with hzero | ⟨c, hc, hign, hcused, htotal⟩
      · exact hzero
      · rw [htotal]
        exact hok.exclusions c hc hign hcused
    have hnodup : ((tocEntries bi cfg bi.heapInfo).filterMap (TocEntry.slot thisHost)).Nodup := by
      rw [slots_tocEntries hfits]
      exact hok.slots thisHost
    have hsize := (hready e he hused).2.size
    rw [hexcl, UInt32.sub_zero] at hsize
    rw [foldl_register _ hnodup he hslot hexcl]
    exact ⟨rfl, hsize.symm, rfl, by rw [hsize]; exact UInt32.le_refl _⟩

/-- The regions only fill shared memory when the sizes fit in it. -/
theorem total_of_tiles (h : smemBootInit bi tocVersion (some cfg) m = some b)
    (htiles : ∃ gaps : List Span,
      gaps.map Span.len = (cfg.partitions.filter TocConfig.ignored).map (fun c => c.size.toNat) ∧
        Span.Tiles 0 (bi.smemSize.toNat - 4096) (b.written.tail.map TocEntry.span ++ gaps)) :
    totalSize cfg.partitions + bi.reserved ≤ bi.smemSize.toNat := by
  obtain ⟨gaps, hlen, htiles⟩ := htiles
  obtain ⟨-, -, hwritten, -⟩ := smemBootInit_some h
  have hlarge := bi.large
  have hsum := htiles.sum_len
  have htotal := totalSize_eq (l := cfg.partitions)
    (bi.freeOffset bi.heapInfo + bi.heapRemaining bi.heapInfo)
  rw [hwritten, tocEntries, tail_cons] at hsum
  simp only [map_append, sum_append, hlen] at hsum
  cases hl : bi.isLegacy with
  | true =>
    simp only [BootInfo.reserved, hl, if_true]
    omega
  | false =>
    have hrest : (((restEntries bi (bi.freeOffset bi.heapInfo)
        (restOf (bi.heapRemaining bi.heapInfo) cfg.partitions)).map TocEntry.span).map
          Span.len).sum = (restOf (bi.heapRemaining bi.heapInfo) cfg.partitions).toNat + 4096 := by
      simp only [restEntries, hl, Bool.false_eq_true, if_false]
      rfl
    simp only [BootInfo.reserved, hl, Bool.false_eq_true, if_false]
    omega

/-- Two partitions do not have the same header. -/
theorem partnHeader_inj (h : TocFits bi cfg bi.heapInfo) :
    ∀ e ∈ tocEntries bi cfg bi.heapInfo, ∀ e' ∈ tocEntries bi cfg bi.heapInfo,
      e.hasHeader = true → e'.hasHeader = true → bi.partnHeader e = bi.partnHeader e' → e = e' := by
  have happart : (tocEntries bi cfg bi.heapInfo).Pairwise fun e e' => e.hasHeader = true →
      e'.hasHeader = true → bi.partnHeader e ≠ bi.partnHeader e' := by
    refine h.headers_sorted.imp_of_mem fun {e e'} _ he' hsorted hhdr hhdr' heq => ?_
    have hend := hsorted hhdr hhdr'
    obtain ⟨hpos, -, -⟩ := h.header_below he' hhdr'
    have hn := congrArg UInt64.toNat heq
    rw [BootInfo.partnHeader_toNat, BootInfo.partnHeader_toNat] at hn
    omega
  refine List.Pairwise.forall_of_forall_of_flip (fun _ _ _ _ _ => rfl) (happart.imp ?_)
    (happart.imp ?_)
  · intro e e' hne hhdr hhdr' heq
    exact absurd heq (hne hhdr hhdr')
  · intro e e' hne hhdr' hhdr heq
    exact absurd heq.symm (hne hhdr hhdr')

/-- A header that the reader takes for aligned is at a page. -/
theorem offset_of_aligned {e : TocEntry} (h : (bi.partnHeader e).toUInt32 &&& pageAlignMask = 0) :
    e.offset.toNat % 4096 = 0 := by
  have hbase := bi.base_aligned
  have hmask : pageAlignMask.toNat = 2 ^ 12 - 1 := rfl
  have hn := congrArg UInt32.toNat h
  rw [UInt32.toNat_and, hmask, Nat.and_two_pow_sub_one_eq_mod, UInt64.toNat_toUInt32,
    BootInfo.partnHeader_toNat] at hn
  change _ % 4096 = 0 at hn
  omega

/-- What a host has found in a table that agrees: a partition of its own lies at a page, and what
its header says is what the table says. -/
structure FoundReady (bi : BootInfo) (m : Memory) (e : TocEntry) : Prop where
  aligned : e.offset.toNat % 4096 = 0
  room : 32 ≤ e.size.toNat
  identifier : m.u32 (bi.partnHeader e) = partitionHeaderId
  size : m.u32 (bi.partnHeader e + 8) = e.size
  freeUncached : m.u32 (bi.partnHeader e + 12) = 32

/-- **A table that agrees is one that every host has gone through.** -/
theorem found_of_tocAgrees (h : smemBootInit bi tocVersion (some cfg) m = some b)
    (hfits : TocFits bi cfg bi.heapInfo) (hagrees : TocAgrees bi cfg b) :
    (tocVersion = 1 ∧ (tocEntries bi cfg bi.heapInfo).length ≤ 20) ∧
      (∀ e ∈ tocEntries bi cfg bi.heapInfo, e.hasHeader = true →
        e.offset.toNat + 20 + 4096 ≤ bi.smemSize.toNat) ∧
      ∀ e ∈ tocEntries bi cfg bi.heapInfo, e.Used → FoundReady bi b.mem e := by
  obtain ⟨-, -, hwritten, m', hmem⟩ := smemBootInit_some h
  rw [hwritten] at hmem
  -- a table that is found with version 1 and few entries has not been overwritten
  obtain ⟨_, hinit, -⟩ := hagrees.accepts 0 0 1 ⟨0, 0, 0, 0, 0⟩ Nat.one_pos
  obtain ⟨⟨hversion, hnum⟩, -⟩ := smemPartInit_some hinit hagrees.found
  have htable := hfits.table_spared hmem hagrees.found hversion hnum
  have hread : TableReads bi b.mem tocVersion (.ofNat (tocEntries bi cfg bi.heapInfo).length)
      (tocEntries bi cfg bi.heapInfo) := by
    rw [hmem]
    exact hfits.readTable htable
  have hcount := hfits.count
  have hlen : (UInt32.ofNat (tocEntries bi cfg bi.heapInfo).length).toNat =
      (tocEntries bi cfg bi.heapInfo).length := by
    rw [UInt32.toNat_ofNat']
    exact Nat.mod_eq_of_lt (by omega)
  rw [hread.version] at hversion
  rw [hread.numEntries, UInt32.le_iff_toNat_le, hlen] at hnum
  refine ⟨⟨hversion, hnum⟩, htable, fun e he hused => ?_⟩
  obtain ⟨thisHost, hsome⟩ := hused
  obtain ⟨r, hslot⟩ := isSome_iff_exists.mp hsome
  obtain ⟨prts, hinit, hreg⟩ := hagrees.accepts thisHost 0 1 ⟨0, 0, 0, 0, 0⟩ Nat.one_pos
  obtain ⟨-, params', hloop⟩ := smemPartInit_some hinit hagrees.found
  rw [hread.numEntries, hlen] at hloop
  obtain ⟨hhdrs, hslots⟩ := partInitLoop_some hread _ 0 (fun p hp => hp) hloop
  obtain ⟨halign, hid⟩ := hhdrs e he hsome
  have hheader := (hreg e (hwritten ▸ he) r hslot).header
  have hfree := (hreg e (hwritten ▸ he) r hslot).freeUncached
  have hhdr := hfits.hasHeader_of_slot he hslot
  obtain ⟨-, hoff, hbelow⟩ := hfits.header_below he hhdr
  rcases hslots r with hkeep | ⟨e', he', hslot', htook⟩
  · -- the header of an unused slot is null
    rw [hkeep] at hheader
    have hn := congrArg UInt64.toNat hheader
    rw [BootInfo.partnHeader_toNat] at hn
    change 0 = _ at hn
    omega
  · have hsame : e' = e := by
      refine partnHeader_inj hfits e' he' e he (hfits.hasHeader_of_slot he' hslot') hhdr ?_
      rw [← htook.header, hheader]
    subst hsame
    refine ⟨offset_of_aligned halign, ?_, hid, htook.size, htook.free.symm.trans hfree⟩
    have hle := UInt32.le_iff_toNat_le.mp htook.free_le
    rw [← htook.free, hfree] at hle
    exact hle

/-- **Only a configuration that the hosts can read is set up for them.** -/
theorem ok_of_tocAgrees (h : smemBootInit bi tocVersion (some cfg) m = some b)
    (hagrees : TocAgrees bi cfg b) : TocConfigOk bi tocVersion cfg := by
  have htotal := total_of_tiles h hagrees.tiles
  have hfits := tocFits h htotal
  obtain ⟨-, -, hwritten, m', hmem⟩ := smemBootInit_some h
  rw [hwritten] at hmem
  obtain ⟨⟨hversion, hlen⟩, htable, hfound⟩ := found_of_tocAgrees h hfits hagrees
  rw [length_tocEntries_eq] at hlen
  obtain ⟨hbelow, hpages⟩ := hfits.config_fits
  have htop := hfits.top_toNat
  have hfit : totalSize cfg.partitions ≤
      (bi.freeOffset bi.heapInfo + bi.heapRemaining bi.heapInfo).toNat := by omega
  have hmem_config : ∀ e ∈ configEntries (bi.freeOffset bi.heapInfo + bi.heapRemaining bi.heapInfo)
      cfg.partitions, e ∈ tocEntries bi cfg bi.heapInfo :=
    fun e he => .tail _ (mem_append_left _ he)
  -- no header runs into one that a host has found
  have hspared : ∀ e ∈ tocEntries bi cfg bi.heapInfo, e.Used → e.hasHeader = true →
      ∀ e' ∈ tocEntries bi cfg bi.heapInfo, e'.hasHeader = true → ¬ e'.RunsInto e.offset.toNat := by
    intro e he hused hhdr
    have hready := hfound e he hused
    exact hfits.header_spared hmem he hhdr hready.identifier hready.freeUncached
      (by rw [hready.size]; exact hready.room)
  have happart : HeadersApart 0 cfg.partitions := by
    refine (headersApart_iff (fun _ hc => size_ne_zero hc) hfit rfl).mpr ⟨fun e he => ?_, ?_⟩
    · have := htable e (hmem_config e he) (hasHeader_of_mem_configEntries hfits he)
      omega
    · refine (configEntries_sorted hfit).imp_of_mem fun {e e'} he he' hsorted hused => ?_
      have hhdr := hasHeader_of_mem_configEntries hfits he
      have hhdr' := hasHeader_of_mem_configEntries hfits he'
      have hnot := hspared e (hmem_config e he) hused hhdr e' (hmem_config e' he') hhdr'
      obtain ⟨hpos, -, -⟩ := hfits.header_below (hmem_config e' he') hhdr'
      simp only [TocEntry.RunsInto] at hnot
      omega
  have hstarts : StartsAtPages 0 cfg.partitions :=
    (startsAtPages_iff (fun _ hc => size_ne_zero hc) hfit rfl hpages).mpr fun e he hused =>
      ⟨(hfound e (hmem_config e he) hused).aligned, (hfound e (hmem_config e he) hused).room⟩
  obtain ⟨-, hheaders⟩ := reads_of_ok h hfits hstarts happart
  refine ⟨htotal, hversion, hlen, hstarts, happart, fun c hc hign hused => ?_, fun thisHost => ?_⟩
  · obtain ⟨offset, he⟩ :=
      exists_configEntries hc hign (bi.freeOffset bi.heapInfo + bi.heapRemaining bi.heapInfo)
    have hused' : (c.entry offset).Used := (TocConfig.used_entry (size_ne_zero hc) offset).mpr hused
    have hstored := (hheaders _ (hmem_config _ he) hused').2.size
    rw [(hfound _ (hmem_config _ he) hused').size] at hstored
    -- the reader has compared the two sizes
    by_contra hne
    exact uint32_sub_ne.mpr hne hstored.symm
  · obtain ⟨prts, -, hreg⟩ := hagrees.accepts thisHost 0 1 ⟨0, 0, 0, 0, 0⟩ Nat.one_pos
    rw [hwritten] at hreg
    rw [← slots_tocEntries hfits]
    refine pairwise_filterMap.mpr (hfits.headers_sorted.imp_of_mem ?_)
    rintro e e' he he' hsorted r hslot r' hslot' rfl
    have hhdr := hfits.hasHeader_of_slot he hslot
    have hhdr' := hfits.hasHeader_of_slot he' hslot'
    have hheader := (hreg e he r hslot).header
    rw [(hreg e' he' r hslot').header] at hheader
    have hn := congrArg UInt64.toNat hheader
    rw [BootInfo.partnHeader_toNat, BootInfo.partnHeader_toNat] at hn
    obtain ⟨hpos, -, -⟩ := hfits.header_below he' hhdr'
    have := hsorted hhdr hhdr'
    omega

/-- **The contract of the table of contents.** Of the configurations that the setup accepts, it
keeps the contract for exactly those that the hosts can read. -/
theorem toc_contract (h : smemBootInit bi tocVersion (some cfg) m = some b) :
    TocAgrees bi cfg b ↔ TocConfigOk bi tocVersion cfg := by
  constructor
  · intro hagrees
    exact ok_of_tocAgrees h hagrees
  · intro hok
    exact tocAgrees_of_ok h hok

end

/-! ## Two configurations -/

/-- The shared memory of the target: two megabytes at `PcdSmemBaseAddress`. -/
def targetBoot : BootInfo where
  smemVersion := majorVersionId
  smemBaseAddr := 0x80900000
  smemSize := 0x200000
  base_aligned := by decide
  size_aligned := by decide
  above := by decide
  below := by decide
  large := by decide

/-- A partition of a number of kilobytes that two hosts use. -/
def hostPair (kilobytes : UInt32) (host0 host1 : UInt16) : TocConfig :=
  ⟨kilobytes * 1024, enableRwProtection, host0, host1, 32, #v[0, 0, 0, 0]⟩

/-- `smem_toc_partition_entries` -/
def targetTbl : TocConfigTbl where
  entries :=
    [hostPair 192 0 2, hostPair 128 0 5, hostPair 192 0 3, hostPair 48 2 3, hostPair 32 0 8,
    hostPair 16 7 11, hostPair 64 0 10, hostPair 64 10 5]
  short := by decide

/-- The target's partitions below two that only leave their space, of a page and a half and of half
a page. -/
def spacedTbl : TocConfigTbl where
  entries := ⟨6144, ignorePartition, 0, 2, 32, #v[0, 0, 0, 0]⟩ ::
    ⟨2048, ignorePartition, 0, 2, 32, #v[0, 0, 0, 0]⟩ :: targetTbl.entries
  short := by decide

/-- The partition of the first two hosts again, with its last page excluded from its heap. -/
def excludingTbl : TocConfigTbl where
  entries := [⟨192 * 1024, enableRwProtection, 0, 2, 32, #v[4096, 0, 0, 0]⟩]
  short := by decide

/-- The configuration is accepted, and the hosts can read its table. -/
theorem toc_contract_target :
    ∃ b, smemBootInit targetBoot 1 (some spacedTbl) .zero = some b ∧
      TocAgrees targetBoot spacedTbl b := by
  have haccept : (smemBootInit targetBoot 1 (some spacedTbl) .zero).isSome := by decide +kernel
  obtain ⟨b, h⟩ := isSome_iff_exists.mp haccept
  refine ⟨b, h, (toc_contract h).mpr ⟨?_, rfl, ?_, ?_, ?_, ?_, ?_⟩⟩
  · decide +kernel
  · decide +kernel
  · decide +kernel
  · decide +kernel
  · decide +kernel
  · decide +kernel

/-- The setup accepts a partition with an exclusion range, which the reader then skips. -/
theorem toc_excluding_not_registered :
    ¬ ∀ (bi : BootInfo) (tocVersion : UInt32) (cfg : TocConfigTbl) (m : Memory) (b : Booted),
      smemBootInit bi tocVersion (some cfg) m = some b → TocAgrees bi cfg b := by
  intro hall
  have haccept : (smemBootInit targetBoot 1 (some excludingTbl) .zero).isSome := by decide +kernel
  obtain ⟨b, h⟩ := isSome_iff_exists.mp haccept
  have hok := ok_of_tocAgrees h (hall _ _ _ _ _ h)
  have hexcl := hok.exclusions ⟨192 * 1024, enableRwProtection, 0, 2, 32, #v[4096, 0, 0, 0]⟩
    (by decide +kernel) (by decide) (by decide)
  exact absurd hexcl (by decide)

end Smem
