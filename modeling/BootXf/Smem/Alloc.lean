import BootXf.Smem.Lookup

/-!
# Allocating in a partition heap

`smem_part_alloc_ex` on memory that holds a heap does one of three things: the type is there and
nothing is written; there is no room and nothing is written; or memory comes to hold a heap with one
more item, of the requested type, size and side (`allocEx_spec`). The room test compares with the
other side's mapped pages, and that is what keeps the two sides apart by whole pages.
-/

open Lib

namespace Smem

open List

section
variable {L : Layout} {H : Heap L} {m m' : Memory} {host : Host} {params : AllocParams}
  {info : PartitionInfo} {it : Item} {size : ItemSize} {fuel : Nat} {thisHost : UInt32}
  {v : UInt32}

/-- The flags ask for, or report, the cached side. -/
def AllocParams.isCached (params : AllocParams) : Bool := params.flags &&& allocFlagCached != 0

/-! ## The size of a new item -/

/-- Rounding a size up leaves a padding of 16 bits. -/
theorem roundUp_padding {n k : UInt32} (hk : 0 < k.toNat) (hk' : k.toNat ≤ 65536)
    (h : n.toNat + k.toNat ≤ 2 ^ 32) :
    (roundUp n k).toNat = Lib.roundUp n.toNat k.toNat ∧
      (roundUp n k - n).toUInt16.toNat = Lib.roundUp n.toNat k.toNat - n.toNat := by
  have hround : (roundUp n k).toNat = Lib.roundUp n.toNat k.toNat := uint32_toNat_roundUp h hk
  have hle := le_roundUp hk (n := n.toNat)
  have hlt := roundUp_lt hk (n := n.toNat)
  refine ⟨hround, ?_⟩
  rw [UInt32.toNat_toUInt16, UInt32.toNat_sub_of_le _ _ (by
    rw [UInt32.le_iff_toNat_le, hround]
    exact hle), hround]
  omega

/-- The item that is allocated. Its size without the padding is what the caller asked for. -/
theorem itemSize_spec (params : AllocParams) (hcl : info.sizeCacheline = L.cacheline)
    (hsize : params.size.toNat ≤ L.smemInfo.smemSize.toNat) :
    ∃ it : Item, it.smemType = params.smemType.toUInt16 ∧
      it.size = (itemSize info params).sizeItem ∧
      it.padding = ((itemSize info params).sizeItem - params.size).toUInt16 ∧
      it.requested = params.size.toNat ∧
      (itemSize info params).sizeTotal.toNat = it.total (if params.isCached then L.pad else 0) := by
  have hbelow := L.below
  have habove := L.above
  have hpadlt := L.pad_lt
  have hpos := L.cacheline_pos
  have hcl' := L.cacheline_le
  cases hc : params.isCached with
  | true =>
    have hitem : itemSize info params = ⟨roundUp params.size L.cacheline,
        roundUp params.size L.cacheline + 16 + (itemPadding L.cacheline).toUInt32⟩ := by
      rw [itemSize, hcl]
      exact if_pos hc
    obtain ⟨hround, hpad⟩ := roundUp_padding (n := params.size) hpos hcl' (by omega)
    have hle := le_roundUp hpos (n := params.size.toNat)
    have hlt := roundUp_lt hpos (n := params.size.toNat)
    rw [hitem]
    refine ⟨⟨params.smemType.toUInt16, roundUp params.size L.cacheline,
      (roundUp params.size L.cacheline - params.size).toUInt16, by omega⟩, rfl, rfl, rfl, ?_, ?_⟩
    · simp only [Item.requested]
      omega
    · simp only [Item.total, UInt32.toNat_add, UInt64.toNat_toUInt32, L.itemPadding_toNat, hround,
        UInt32.reduceToNat, if_true]
      omega
  | false =>
    have hitem : itemSize info params = ⟨roundUp params.size 8, roundUp params.size 8 + 16⟩ := by
      rw [itemSize]
      exact if_neg (by rw [← AllocParams.isCached, hc]; decide)
    have h8 : (8 : UInt32).toNat = 8 := rfl
    obtain ⟨hround, hpad⟩ := roundUp_padding (n := params.size) (k := 8) (by decide) (by decide)
      (by omega)
    rw [h8] at hround hpad
    have hle := le_roundUp (k := 8) (by decide) (n := params.size.toNat)
    have hlt := roundUp_lt (k := 8) (by decide) (n := params.size.toNat)
    rw [hitem]
    refine ⟨⟨params.smemType.toUInt16, roundUp params.size 8,
      (roundUp params.size 8 - params.size).toUInt16, by omega⟩, rfl, rfl, rfl, ?_, ?_⟩
    · simp only [Item.requested]
      omega
    · simp only [Item.total, UInt32.toNat_add, hround, UInt32.reduceToNat, Bool.false_eq_true,
        if_false]
      omega

/-! ## Memory that holds one more item -/

/-- The headers stay where memory is unchanged on the two sides. -/
theorem Heap.Holds.frame (hm : H.Holds m)
    (hu : Memory.AgreeOn ⟨L.base + 32, H.freeUncached - 32⟩ m' m)
    (hc : Memory.AgreeOn ⟨L.base + H.freeCached, L.size.toNat - H.freeCached⟩ m' m) :
    (∀ p ∈ H.uncachedPlaces, HeaderAt m' p.1 p.2) ∧
      ∀ p ∈ H.cachedPlaces, HeaderAt m' p.1 p.2 := by
  have hbase := L.base_bounds
  have hfree := H.free_bounds
  constructor
  · intro p hp
    have hbounds := H.uncachedPlaces_bounds hp
    refine (hm.uncached p hp).frame (by omega) (hu.mono ?_)
    simp only [Span.Within]
    omega
  · intro p hp
    have hbounds := H.cachedPlaces_bounds hp
    refine (hm.cached p hp).frame (by omega) (hc.mono ?_)
    simp only [Span.Within]
    omega

/-- The address of a word of the partition header. -/
theorem Layout.header_field {k : UInt64} (hk : k.toNat ≤ 32) :
    (L.header + k).toNat = L.base + k.toNat := by
  have hbase := L.base_bounds
  rw [UInt64.toNat_add, L.header_toNat]
  omega

/-- A new header in the free room and a new free offset: the header reads as its item, and
everything else as before. -/
theorem Heap.Holds.write (hm : H.Holds m) (it : Item) (a : Nat) (k : UInt64) (ph : UInt16)
    (v : UInt32) (hlo : L.base + H.freeUncached ≤ a) (hhi : a + 16 ≤ L.base + H.freeCached)
    (hk : k.toNat + 4 ≤ 32)
    (hm' : m' = (writeItem m (.ofNat a) it.smemType it.size it.padding ph).put (L.header + k) 4
      v.toNat) :
    HeaderAt m' a it ∧ (∀ p ∈ H.uncachedPlaces, HeaderAt m' p.1 p.2) ∧
      (∀ p ∈ H.cachedPlaces, HeaderAt m' p.1 p.2) ∧ m'.u32 (L.header + k) = v ∧
      ∀ j : UInt64, (j.toNat + 4 ≤ k.toNat ∨ k.toNat + 4 ≤ j.toNat ∧ j.toNat + 4 ≤ 32) →
        m'.u32 (L.header + j) = m.u32 (L.header + j) := by
  subst hm'
  have hbase := L.base_bounds
  have hbounds := H.free_bounds
  obtain ⟨hge, -, -⟩ := H.free_le
  have ha : a + 16 ≤ 2 ^ 32 := by omega
  have hword := L.header_field (k := k) (by omega)
  have hput : ∀ {s : Span} {m : Memory}, s.Disjoint ⟨L.base + k.toNat, 4⟩ →
      Memory.AgreeOn s (m.put (L.header + k) 4 v.toNat) m := by
    intro s m hs
    exact Memory.agreeOn_put (by omega) (by rw [hword]; exact hs)
  have hagree : ∀ {s : Span}, s.Disjoint ⟨L.base + k.toNat, 4⟩ → s.Disjoint ⟨a, 16⟩ →
      Memory.AgreeOn s ((writeItem m (.ofNat a) it.smemType it.size it.padding ph).put
        (L.header + k) 4 v.toNat) m := by
    intro s hs hs'
    exact (hput hs).trans (agreeOn_writeItem ha hs')
  obtain ⟨hu, hc⟩ := hm.frame
    (hagree (by simp only [Span.Disjoint, Span.stop]; omega)
      (by simp only [Span.Disjoint, Span.stop]; omega))
    (hagree (by simp only [Span.Disjoint, Span.stop]; omega)
      (by simp only [Span.Disjoint, Span.stop]; omega))
  refine ⟨?_, hu, hc, Memory.u32_put (by omega), fun j hj => ?_⟩
  · exact (headerAt_writeItem ha).frame ha (hput (by simp only [Span.Disjoint, Span.stop]; omega))
  · have hword' := L.header_field (k := j) (by omega)
    exact (hagree (by simp only [Span.Disjoint, Span.stop]; omega)
      (by simp only [Span.Disjoint, Span.stop]; omega)).u32 (by omega)

/-- A new uncached item. -/
theorem Heap.Holds.pushUncached (hm : H.Holds m) {fresh room} (ph : UInt16)
    (hv : v.toNat = H.freeUncached + it.total 0) :
    (H.pushUncached it fresh room).Holds
      ((writeItem m (.ofNat (L.base + H.freeUncached)) it.smemType it.size it.padding ph).put
        (L.header + 12) 4 v.toNat) := by
  have hup := le_roundUp (k := 4096) (n := H.freeUncached + it.total 0) (by decide)
  have hdown := roundDown_le (n := H.freeCached) (k := 4096)
  have htotal := total_pos 0 it
  obtain ⟨hnew, hu, hc, hword, hrest⟩ := hm.write it (L.base + H.freeUncached) 12 ph v
    (Nat.le_refl _) (by omega) (by decide) rfl
  refine ⟨?_, ?_, ?_, hc⟩
  · rw [hword, hv]
    simp [Heap.freeUncached, Heap.pushUncached, Nat.add_assoc]
  · rw [hrest 16 (.inr ⟨by decide, by decide⟩)]
    exact hm.freeCached
  · rw [Heap.uncachedPlaces_push]
    intro p hp
    rcases mem_append.mp hp with hp | hp
    · exact hu p hp
    · obtain rfl := mem_singleton.mp hp
      exact hnew

/-- A new cached item. -/
theorem Heap.Holds.pushCached (hm : H.Holds m) {fresh room} (ph : UInt16)
    (hv : v.toNat = H.freeCached - it.total L.pad) :
    (H.pushCached it fresh room).Holds
      ((writeItem m (.ofNat (L.base + H.freeCached - L.pad - 16)) it.smemType it.size it.padding
        ph).put (L.header + 16) 4 v.toNat) := by
  have hup := le_roundUp (k := 4096) (n := H.freeUncached) (by decide)
  have hdown := roundDown_le (n := H.freeCached - it.total L.pad) (k := 4096)
  obtain ⟨hge, -, -⟩ := H.free_le
  have htotal : it.total L.pad = it.size.toNat + L.pad + 16 := rfl
  obtain ⟨hnew, hu, hc, hword, hrest⟩ := hm.write it (L.base + H.freeCached - L.pad - 16) 16
    ph v (by omega) (by omega) (by decide) rfl
  refine ⟨?_, ?_, hu, ?_⟩
  · rw [hrest 12 (.inl (by decide))]
    exact hm.freeUncached
  · rw [hword, hv]
    simp [Heap.freeCached, Heap.pushCached, Nat.sub_sub]
  · rw [Heap.cachedPlaces_push]
    intro p hp
    rcases mem_append.mp hp with hp | hp
    · exact hc p hp
    · obtain rfl := mem_singleton.mp hp
      exact hnew

/-! ## The two branches -/

/-- Room for an item on the uncached side leaves the pages of the cached side alone. -/
theorem Host.Current.room_uncached (h : host.Current H) (hcached : host.CachedMapped H)
    (hroom : H.freeUncached + it.total 0 ≤ host.info.offsetMappedCached.toNat) :
    Lib.roundUp (H.freeUncached + it.total 0) 4096 ≤ roundDown H.freeCached 4096 := by
  have hmod := Nat.dvd_of_mod_eq_zero h.cached_mod
  exact Nat.le_trans (roundUp_le (by decide) hroom hmod) (le_roundDown (by decide) hcached hmod)

/-- Room for an item on the cached side leaves the pages of the uncached side alone. -/
theorem Host.Current.room_cached (h : host.Current H) (it : Item)
    (hroom : host.info.offsetMappedUncached.toNat ≤ H.freeCached - it.total L.pad) :
    Lib.roundUp H.freeUncached 4096 ≤ roundDown (H.freeCached - it.total L.pad) 4096 := by
  have hmod := Nat.dvd_of_mod_eq_zero h.uncached_mod
  exact Nat.le_trans (roundUp_le (by decide) h.free_le hmod) (le_roundDown (by decide) hroom hmod)

/-- The buffer and size of an item that has just been allocated. -/
def AllocParams.allocated (params : AllocParams) (f : Heap.Found) : AllocParams :=
  { params with
    size := roundUp params.size 8
    buffer := .ofNat (bufferAddr f.cached f.addr f.item) }

/-- The uncached branch: no room, or a heap with the item behind the other uncached ones. -/
theorem allocUncached_spec (hm : H.Holds m) (hhost : host.Current H) (hcached : host.CachedMapped H)
    (hnone : H.lookup it.smemType.toUInt32 = none) (htype : it.smemType = params.smemType.toUInt16)
    (hsize : it.size = size.sizeItem) (htotal : size.sizeTotal.toNat = it.total 0) :
    allocUncached L.smemInfo m params size (roundUp params.size 8) it.padding host =
        (⟨.outOfResources, params⟩, host, m) ∨
      ∃ fresh room host' m',
        allocUncached L.smemInfo m params size (roundUp params.size 8) it.padding host =
          (⟨.success, params.allocated ⟨false, L.base + H.freeUncached, it⟩⟩, host', m') ∧
        (H.pushUncached it fresh room).Holds m' ∧ host'.Current (H.pushUncached it fresh room) ∧
        host'.CachedMapped (H.pushUncached it fresh room) := by
  have hbase := L.base_bounds
  have hbounds := H.free_bounds
  have hcl := hhost.cached_le
  have hapart : H.freeUncached ≤ host.info.offsetMappedCached.toNat :=
    Nat.le_trans hhost.free_le (hhost.toMapped.apart hhost.toMapped)
  have hrem : (host.info.offsetMappedCached - host.info.offsetFreeUncached).toNat =
      host.info.offsetMappedCached.toNat - H.freeUncached := by
    rw [UInt32.toNat_sub_of_le, hhost.freeUncached]
    rw [UInt32.le_iff_toNat_le, hhost.freeUncached]
    exact hapart
  by_cases hfull : size.sizeTotal > host.info.offsetMappedCached - host.info.offsetFreeUncached
  · left
    simp only [allocUncached, hfull, if_true]
  right
  have hroom : H.freeUncached + it.total 0 ≤ host.info.offsetMappedCached.toNat := by
    rw [gt_iff_lt, UInt32.lt_iff_toNat_lt, hrem, htotal] at hfull
    omega
  have hfresh := Heap.fresh_of_lookup_none hnone
  have hpages := hhost.room_uncached hcached hroom
  have hpush : (H.pushUncached it hfresh hpages).freeUncached = H.freeUncached + it.total 0 := by
    simp [Heap.freeUncached, Heap.pushUncached, Nat.add_assoc]
  have hnew : (host.info.offsetFreeUncached + size.sizeTotal).toNat =
      H.freeUncached + it.total 0 := by
    rw [UInt32.toNat_add, hhost.freeUncached, htotal]
    omega
  obtain ⟨hmapped, hmu⟩ :=
    (hhost.toMapped.extends (H.pushUncached_extends hfresh hpages)).ensureUncached
      (host.info.offsetFreeUncached + size.sizeTotal) (Nat.le_of_eq (hnew.trans hpush.symm))
  obtain ⟨mu, hinfo⟩ := ensureUncachedMapping_info L.smemInfo
    (host.info.offsetFreeUncached + size.sizeTotal) host
  have haddr : L.header + host.info.offsetFreeUncached.toUInt64 = .ofNat
      (L.base + H.freeUncached) := by
    rw [UInt64.ofNat_add, ← hhost.freeUncached, ← UInt32.toNat_toUInt64, UInt64.ofNat_toNat,
      ← L.header_toNat, UInt64.ofNat_toNat]
  have hbuffer : UInt64.ofNat (L.base + H.freeUncached) + 16 =
      .ofNat (bufferAddr false (L.base + H.freeUncached) it) := (UInt64.ofNat_add ..).symm
  have hmem : (H.pushUncached it hfresh hpages).Holds _ := hm.pushUncached 0 hnew
  rw [htype, hsize] at hmem
  generalize hens : ensureUncachedMapping L.smemInfo
    (host.info.offsetFreeUncached + size.sizeTotal) host = host₁ at hmapped hmu hinfo
  refine ⟨hfresh, hpages, { host₁ with info := { host₁.info with
    offsetFreeUncached := host.info.offsetFreeUncached + size.sizeTotal } }, _, ?_, hmem, ?_, ?_⟩
  · simp only [allocUncached, hfull, if_false, hhost.header, haddr, hbuffer, hens,
      AllocParams.allocated]
  · exact ⟨⟨hmapped.header, hmapped.size, hmapped.cacheline, hmapped.uncached_mod,
      hmapped.uncached_le, hmapped.cached_mod, hmapped.le_cached, hmapped.cached_le,
      hmapped.mappings⟩, hnew.trans hpush.symm, by rw [hinfo]; exact hhost.freeCached,
      by rw [hpush, ← hnew]; exact hmu⟩
  · rw [Host.CachedMapped, hinfo]
    exact hcached

/-- The cached branch: no room, or a heap with the item below the other cached ones. -/
theorem allocCached_spec (hm : H.Holds m) (hhost : host.Current H)
    (hnone : H.lookup it.smemType.toUInt32 = none) (htype : it.smemType = params.smemType.toUInt16)
    (hsize : it.size = size.sizeItem) (htotal : size.sizeTotal.toNat = it.total L.pad) :
    allocCached L.smemInfo m params size (roundUp params.size 8) it.padding host =
        (⟨.outOfResources, params⟩, host, m) ∨
      ∃ fresh room host' m',
        allocCached L.smemInfo m params size (roundUp params.size 8) it.padding host =
          (⟨.success, params.allocated ⟨true, L.base + H.freeCached - L.pad - 16, it⟩⟩,
            host', m') ∧
        (H.pushCached it fresh room).Holds m' ∧ host'.Current (H.pushCached it fresh room) ∧
        host'.CachedMapped (H.pushCached it fresh room) := by
  have hbase := L.base_bounds
  have hbounds := H.free_bounds
  have hdown := roundDown_le (n := H.freeCached) (k := 4096)
  have hapart : host.info.offsetMappedUncached.toNat ≤ H.freeCached :=
    Nat.le_trans hhost.uncached_le (Nat.le_trans H.apart hdown)
  have hrem : (host.info.offsetFreeCached - host.info.offsetMappedUncached).toNat =
      H.freeCached - host.info.offsetMappedUncached.toNat := by
    rw [UInt32.toNat_sub_of_le, hhost.freeCached]
    rw [UInt32.le_iff_toNat_le, hhost.freeCached]
    exact hapart
  by_cases hfull : size.sizeTotal > host.info.offsetFreeCached - host.info.offsetMappedUncached
  · left
    simp only [allocCached, hfull, if_true]
  right
  have hge := H.free_le.1
  have hfreele := hhost.free_le
  have hroom : host.info.offsetMappedUncached.toNat + it.total L.pad ≤ H.freeCached := by
    rw [gt_iff_lt, UInt32.lt_iff_toNat_lt, hrem, htotal] at hfull
    omega
  have hfresh := Heap.fresh_of_lookup_none hnone
  have hpages := hhost.room_cached it (by omega)
  have hpush : (H.pushCached it hfresh hpages).freeCached = H.freeCached - it.total L.pad := by
    simp [Heap.freeCached, Heap.pushCached, Nat.sub_sub]
  have hnew : (host.info.offsetFreeCached - size.sizeTotal).toNat =
      H.freeCached - it.total L.pad := by
    rw [UInt32.toNat_sub_of_le, hhost.freeCached, htotal]
    rw [UInt32.le_iff_toNat_le, hhost.freeCached, htotal]
    omega
  obtain ⟨hmapped, hmc⟩ :=
    (hhost.toMapped.extends (H.pushCached_extends hfresh hpages)).ensureCached
      (host.info.offsetFreeCached - size.sizeTotal) (Nat.le_of_eq (hpush.trans hnew.symm))
  obtain ⟨mc, hinfo⟩ := ensureCachedMapping_info L.smemInfo
    (host.info.offsetFreeCached - size.sizeTotal) host
  have htot : it.total L.pad = it.size.toNat + L.pad + 16 := rfl
  have hfree : L.header + host.info.offsetFreeCached.toUInt64 = .ofNat (L.base + H.freeCached) := by
    rw [UInt64.ofNat_add, ← hhost.freeCached, ← UInt32.toNat_toUInt64, UInt64.ofNat_toNat,
      ← L.header_toNat, UInt64.ofNat_toNat]
  have haddr : UInt64.ofNat (L.base + H.freeCached) - 16 - itemPadding L.cacheline =
      .ofNat (L.base + H.freeCached - L.pad - 16) := by
    apply UInt64.toNat_inj.mp
    simp only [UInt64.toNat_sub, L.itemPadding_toNat, UInt64.toNat_ofNat', UInt64.reduceToNat]
    omega
  have hbuffer : UInt64.ofNat (L.base + H.freeCached) - size.sizeTotal.toUInt64 =
      .ofNat (bufferAddr true (L.base + H.freeCached - L.pad - 16) it) := by
    apply UInt64.toNat_inj.mp
    simp only [UInt64.toNat_sub, UInt32.toNat_toUInt64, htotal, htot, UInt64.toNat_ofNat',
      bufferAddr, if_true]
    omega
  have hmem : (H.pushCached it hfresh hpages).Holds _ :=
    hm.pushCached (itemPadding L.cacheline).toUInt16 hnew
  rw [htype, hsize] at hmem
  generalize hens : ensureCachedMapping L.smemInfo
    (host.info.offsetFreeCached - size.sizeTotal) host = host₁ at hmapped hmc hinfo
  refine ⟨hfresh, hpages, { host₁ with info := { host₁.info with
    offsetFreeCached := host.info.offsetFreeCached - size.sizeTotal } }, _, ?_, hmem, ?_, ?_⟩
  · simp only [allocCached, hfull, if_false, hhost.header, hhost.cacheline, hfree, haddr, hbuffer,
      hens, AllocParams.allocated]
  · exact ⟨⟨hmapped.header, hmapped.size, hmapped.cacheline, hmapped.uncached_mod,
      hmapped.uncached_le, hmapped.cached_mod, hmapped.le_cached, hmapped.cached_le,
      hmapped.mappings⟩, by rw [hinfo]; exact hhost.freeUncached, hnew.trans hpush.symm,
      by rw [hinfo]; exact hhost.free_le⟩
  · rw [Host.CachedMapped, hpush, ← hnew]
    exact hmc

/-! ## The call -/

/-- The parameters pass the checks of `smem_part_alloc_ex`. -/
structure AllocParams.AllocOk (smemInfo : SmemInfo) (thisHost : UInt32) (params : AllocParams) :
    Prop where
  host : params.HostOk thisHost
  smemType : params.smemType < smemInfo.maxItems.toUInt32
  size_pos : 0 < params.size.toNat
  size_le : params.size ≤ smemInfo.smemSize

/-- **What an allocation does** to a heap, to the host that makes it and to memory. -/
inductive AllocOutcome (H : Heap L) (m : Memory) (host : Host) (params : AllocParams) :
    Answer → Host → Memory → Prop
  /-- The type is there. -/
  | exists {f : Heap.Found} {host' : Host} :
    H.lookup params.smemType = some f → host'.Current H →
    (f.cached = true ∨ host.CachedMapped H → host'.CachedMapped H) →
    AllocOutcome H m host params
      ⟨if (params.found f).size == roundUp params.size 8 then .success else .sizeMismatch,
        params.found f⟩ host' m
  /-- The type is new, and there is no room for it. -/
  | full {host' : Host} :
    H.lookup params.smemType = none → host'.Current H → host'.CachedMapped H →
    AllocOutcome H m host params ⟨.outOfResources, params⟩ host' m
  /-- The type is new, and memory holds a heap that has it too. -/
  | fresh {H' : Heap L} {f : Heap.Found} {host' : Host} {m' : Memory} :
    H.lookup params.smemType = none → H'.Extends H → H'.lookup params.smemType = some f →
    f.cached = params.isCached → f.item.requested = params.size.toNat →
    H'.Holds m' → host'.Current H' → host'.CachedMapped H' →
    AllocOutcome H m host params ⟨.success, params.allocated f⟩ host' m'

theorem toUInt16_smemType {smemType : UInt32} {maxItems : UInt16}
    (h : smemType < maxItems.toUInt32) : smemType.toUInt16.toUInt32 = smemType := by
  have hmax := maxItems.toNat_lt
  rw [UInt32.lt_iff_toNat_lt, UInt16.toNat_toUInt32] at h
  apply UInt32.toNat_inj.mp
  rw [UInt16.toNat_toUInt32, UInt32.toNat_toUInt16]
  omega

theorem allocEx_spec (hm : H.Holds m) (hmapped : host.Mapped H)
    (hparams : params.AllocOk L.smemInfo thisHost) (hfuel : L.size.toNat ≤ 16 * fuel) :
    ∃ answer host' m',
      allocEx L.smemInfo thisHost fuel m params host = some (answer, host', m') ∧
        AllocOutcome H m host params answer host' m' := by
  have hsize : (host.info.size == 0) = false := by
    have := L.size_pos
    rw [hmapped.size, beq_eq_false_iff_ne]
    rintro h
    rw [h] at this
    exact absurd this (by decide)
  have hcheck : (params.smemType ≥ L.smemInfo.maxItems.toUInt32 || params.size == 0
      || params.size > L.smemInfo.smemSize) = false := by
    have hne : params.size ≠ 0 := by
      intro h
      have := hparams.size_pos
      rw [h] at this
      exact absurd this (by decide)
    simp only [Bool.or_eq_false_iff, decide_eq_false_iff_not, beq_eq_false_iff_ne]
    exact ⟨⟨UInt32.not_le.mpr hparams.smemType, hne⟩, UInt32.not_lt.mpr hparams.size_le⟩
  obtain ⟨it, htype, hitem, hpadding, hreq, htotal⟩ := itemSize_spec params
    hmapped.cacheline (UInt32.le_iff_toNat_le.mp hparams.size_le)
  have htype' : it.smemType.toUInt32 = params.smemType := by
    rw [htype, toUInt16_smemType hparams.smemType]
  obtain ⟨host₁, hget, hcurrent, hcached⟩ := getAddrEx_spec params hm hmapped hparams.host
    hfuel
  simp only [allocEx, hparams.host.1, hparams.host.2, hcheck, hsize, Bool.false_eq_true, if_false,
    Bool.not_true, hget, Heap.answer, ← hpadding]
  cases hlookup : H.lookup params.smemType with
  | some f =>
    refine ⟨_, _, _, rfl, .exists hlookup hcurrent fun h => hcached (h.imp (fun hf g hg => ?_) id)⟩
    rw [hlookup] at hg
    obtain rfl := Option.some.inj hg
    exact hf
  | none =>
    have hmc : host₁.CachedMapped H :=
      hcached (.inl fun f hf => by rw [hlookup] at hf; cases hf)
    have hnone : H.lookup it.smemType.toUInt32 = none := by rw [htype', hlookup]
    cases hc : params.isCached with
    | true =>
      simp only [show params.flags &&& allocFlagCached != 0 from hc, if_true]
      rw [hc, if_pos rfl] at htotal
      rcases allocCached_spec hm hcurrent hnone htype hitem htotal with
        hfull | ⟨fresh, room, host', m', halloc, hholds, hcurrent', hmc'⟩
      · rw [hfull]
        exact ⟨_, _, _, rfl, .full hlookup hcurrent hmc⟩
      · rw [halloc]
        have hfound := Heap.lookup_pushCached fresh room hnone
        rw [htype'] at hfound
        exact ⟨_, _, _, rfl, .fresh hlookup (H.pushCached_extends fresh room) hfound
          hc.symm hreq hholds
          hcurrent' hmc'⟩
    | false =>
      simp only [show (params.flags &&& allocFlagCached != 0) = false from hc, Bool.false_eq_true,
        if_false]
      rw [hc, if_neg Bool.false_ne_true] at htotal
      rcases allocUncached_spec hm hcurrent hmc hnone htype hitem htotal with
        hfull | ⟨fresh, room, host', m', halloc, hholds, hcurrent', hmc'⟩
      · rw [hfull]
        exact ⟨_, _, _, rfl, .full hlookup hcurrent hmc⟩
      · rw [halloc]
        have hfound := Heap.lookup_pushUncached fresh room hnone
        rw [htype'] at hfound
        exact ⟨_, _, _, rfl, .fresh hlookup (H.pushUncached_extends fresh room) hfound
          hc.symm hreq hholds
          hcurrent' hmc'⟩

end

end Smem
