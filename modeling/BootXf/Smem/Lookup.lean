import BootXf.Smem.Walk

/-!
# Finding an item in a partition heap

What a host knows about a partition is kept by its calls: `Host.Mapped` bounds the pages it has
mapped by the heap's two free offsets, and `Host.Current` adds that it has just read them. On
memory that holds a heap `smem_part_get_addr_ex` returns, with the answer `Heap.lookup` gives
(`getAddrEx_spec`). It maps the cached side only when its walk gets there, so only then has the
host mapped all cached items (`Host.CachedMapped`).
-/

open Lib

namespace Smem

/-! ## Pages -/

theorem and_not_pageAlignMask (n : UInt32) :
    (n &&& ~~~pageAlignMask).toNat = roundDown n.toNat 4096 := by
  have hmask : (~~~pageAlignMask).toNat = 2 ^ 32 - 2 ^ 12 := by decide
  rw [UInt32.toNat_and, hmask]
  exact nat_and_mask n.toNat_lt (by decide)

/-- The mapped range is the least range of whole pages that covers what was asked for. -/
theorem mapPageAttr_spec (pageOffset pageSize : UInt32) (cached : Bool)
    (h : pageOffset.toNat + pageSize.toNat + 4096 ≤ 2 ^ 32) :
    (mapPageAttr pageOffset pageSize cached).offset.toNat = roundDown pageOffset.toNat 4096 ∧
      (mapPageAttr pageOffset pageSize cached).size.toNat =
        Lib.roundUp (pageOffset.toNat + pageSize.toNat) 4096 - roundDown pageOffset.toNat 4096 := by
  have hmask : pageAlignMask.toNat = 4095 := rfl
  have hle := roundDown_le (n := pageOffset.toNat) (k := 4096)
  have hlt := lt_roundDown_add (k := 4096) (n := pageOffset.toNat) (by decide)
  have hoff : (pageOffset - (pageOffset &&& ~~~pageAlignMask)).toNat =
      pageOffset.toNat - roundDown pageOffset.toNat 4096 := by
    rw [UInt32.toNat_sub_of_le, and_not_pageAlignMask]
    rw [UInt32.le_iff_toNat_le, and_not_pageAlignMask]
    exact hle
  have hsize : (pageSize + (pageOffset - (pageOffset &&& ~~~pageAlignMask)) + pageAlignMask).toNat =
      pageSize.toNat + (pageOffset.toNat - roundDown pageOffset.toNat 4096) + 4095 := by
    rw [UInt32.toNat_add, UInt32.toNat_add, hoff, hmask]
    omega
  simp only [mapPageAttr, and_not_pageAlignMask, hsize, true_and]
  simp only [Lib.roundUp, roundDown] at hle hlt ⊢
  omega

section
variable {L : Layout} {mapped newOffset : UInt32}

/-- The range that is mapped when the uncached side grows beyond its pages. -/
theorem mapPageAttr_uncached (hmod : mapped.toNat % 4096 = 0) (hlt : mapped.toNat < newOffset.toNat)
    (hle : newOffset.toNat ≤ L.size.toNat) :
    ∃ o n, mapPageAttr (mapped + L.offset) (newOffset - mapped) false = ⟨o, n, false⟩ ∧
      o.toNat = L.offset.toNat + mapped.toNat ∧
      mapped.toNat + n.toNat = Lib.roundUp newOffset.toNat 4096 := by
  have hoff := L.offset_aligned
  have hbelow := L.below
  have hinside := L.inside
  have hdiff : (newOffset - mapped).toNat = newOffset.toNat - mapped.toNat :=
    UInt32.toNat_sub_of_le _ _ (UInt32.le_iff_toNat_le.mpr (by omega))
  have hsum : (mapped + L.offset).toNat = mapped.toNat + L.offset.toNat := by
    rw [UInt32.toNat_add]
    omega
  obtain ⟨hoffset, hsize⟩ := mapPageAttr_spec (mapped + L.offset) (newOffset - mapped) false
    (by omega)
  rw [hsum] at hoffset
  rw [hsum, hdiff] at hsize
  refine ⟨_, _, rfl, hoffset.trans ?_, (congrArg (mapped.toNat + ·) hsize).trans ?_⟩
  · simp only [roundDown]
    omega
  · simp only [Lib.roundUp, roundDown]
    omega

/-- The range that is mapped when the cached side grows beyond its pages. -/
theorem mapPageAttr_cached (hmod : mapped.toNat % 4096 = 0) (hlt : newOffset.toNat < mapped.toNat)
    (hle : mapped.toNat ≤ L.size.toNat) :
    ∃ o n, mapPageAttr (newOffset + L.offset) (mapped - newOffset) true = ⟨o, n, true⟩ ∧
      o.toNat = L.offset.toNat + roundDown newOffset.toNat 4096 ∧
      roundDown newOffset.toNat 4096 + n.toNat = mapped.toNat := by
  have hoff := L.offset_aligned
  have hbelow := L.below
  have hinside := L.inside
  have hdiff : (mapped - newOffset).toNat = mapped.toNat - newOffset.toNat :=
    UInt32.toNat_sub_of_le _ _ (UInt32.le_iff_toNat_le.mpr (by omega))
  have hsum : (newOffset + L.offset).toNat = newOffset.toNat + L.offset.toNat := by
    rw [UInt32.toNat_add]
    omega
  obtain ⟨hoffset, hsize⟩ := mapPageAttr_spec (newOffset + L.offset) (mapped - newOffset) true
    (by omega)
  rw [hsum] at hoffset
  rw [hsum, hdiff] at hsize
  refine ⟨_, _, rfl, hoffset.trans ?_,
    (congrArg (roundDown newOffset.toNat 4096 + ·) hsize).trans ?_⟩
  · simp only [roundDown]
    omega
  · simp only [Lib.roundUp, roundDown]
    omega

end

/-! ## What a host has mapped -/

section
variable {L : Layout} {H H' : Heap L} {host : Host} {newOffset : UInt32}

/-- A mapping of the host lies on its side of the partition. -/
def Mapping.OnSide (L : Layout) (info : PartitionInfo) (x : Mapping) : Prop :=
  if x.cached then
    L.offset.toNat + info.offsetMappedCached.toNat ≤ x.offset.toNat ∧
      x.offset.toNat + x.size.toNat ≤ L.offset.toNat + L.size.toNat
  else
    L.offset.toNat ≤ x.offset.toNat ∧
      x.offset.toNat + x.size.toNat ≤ L.offset.toNat + info.offsetMappedUncached.toNat

/-- The host has been set up, and has mapped whole pages only: uncached ones up to the page of the
last uncached item at most, cached ones down to the page of the last cached item at most. -/
structure Host.Mapped (H : Heap L) (host : Host) : Prop where
  header : host.info.header = L.header
  size : host.info.size = L.size
  cacheline : host.info.sizeCacheline = L.cacheline
  uncached_mod : host.info.offsetMappedUncached.toNat % 4096 = 0
  uncached_le : host.info.offsetMappedUncached.toNat ≤ Lib.roundUp H.freeUncached 4096
  cached_mod : host.info.offsetMappedCached.toNat % 4096 = 0
  le_cached : roundDown H.freeCached 4096 ≤ host.info.offsetMappedCached.toNat
  cached_le : host.info.offsetMappedCached.toNat ≤ L.size.toNat
  mappings : ∀ x ∈ host.mappings, x.OnSide L host.info

/-- The host has read the free offsets, and mapped the uncached items. -/
structure Host.Current (H : Heap L) (host : Host) : Prop extends host.Mapped H where
  freeUncached : host.info.offsetFreeUncached.toNat = H.freeUncached
  freeCached : host.info.offsetFreeCached.toNat = H.freeCached
  free_le : H.freeUncached ≤ host.info.offsetMappedUncached.toNat

/-- What is mapped stays in bounds while the heap grows. -/
theorem Host.Mapped.extends (h : host.Mapped H) (hext : H'.Extends H) : host.Mapped H' where
  header := h.header
  size := h.size
  cacheline := h.cacheline
  uncached_mod := h.uncached_mod
  uncached_le := Nat.le_trans h.uncached_le (roundUp_mono hext.free.1)
  cached_mod := h.cached_mod
  le_cached := Nat.le_trans (roundDown_mono hext.free.2) h.le_cached
  cached_le := h.cached_le
  mappings := h.mappings

/-- Pages mapped uncached end below those mapped cached, whoever has mapped them. -/
theorem Host.Mapped.apart {host' : Host} (h : host.Mapped H) (h' : host'.Mapped H) :
    host.info.offsetMappedUncached.toNat ≤ host'.info.offsetMappedCached.toNat :=
  Nat.le_trans h.uncached_le (Nat.le_trans H.apart h'.le_cached)

theorem Heap.free_bounds : H.freeUncached ≤ L.size.toNat ∧ H.freeCached ≤ L.size.toNat := by
  have h₁ := H.freeUncached_le
  obtain ⟨-, -, h₂⟩ := H.free_le
  omega

/-- Mapping up to an offset that is in use. -/
theorem Host.Mapped.ensureUncached (h : host.Mapped H) (newOffset : UInt32)
    (hnew : newOffset.toNat ≤ H.freeUncached) :
    (ensureUncachedMapping L.smemInfo newOffset host).Mapped H ∧ newOffset.toNat ≤
      (ensureUncachedMapping L.smemInfo newOffset host).info.offsetMappedUncached.toNat := by
  by_cases hlt : host.info.offsetMappedUncached < newOffset
  · have hle := (H.free_bounds).1
    have hsub : (host.info.header - L.smemInfo.smemBaseAddr).toUInt32 = L.offset := by
      rw [h.header, L.header_sub]
    obtain ⟨o, n, hx, hoffset, hsize⟩ := mapPageAttr_uncached (L := L) h.uncached_mod
      (UInt32.lt_iff_toNat_lt.mp hlt) (by omega)
    have hround := roundUp_mono (k := 4096) hnew
    have hup := le_roundUp (n := newOffset.toNat) (k := 4096) (by decide)
    have hlt' := roundUp_lt (n := newOffset.toNat) (k := 4096) (by decide)
    have hmod : Lib.roundUp newOffset.toNat 4096 % 4096 = 0 := Nat.mod_eq_zero_of_dvd dvd_roundUp
    have hbelow := L.below
    have hinside := L.inside
    have hmapped :
        (host.info.offsetMappedUncached + n).toNat = Lib.roundUp newOffset.toNat 4096 := by
      rw [UInt32.toNat_add]
      omega
    have hensure : ensureUncachedMapping L.smemInfo newOffset host =
        ⟨{ host.info with offsetMappedUncached := host.info.offsetMappedUncached + n },
          ⟨o, n, false⟩ :: host.mappings⟩ := by
      simp only [ensureUncachedMapping, gt_iff_lt, hlt, if_true, hsub, hx]
    rw [hensure]
    refine ⟨⟨h.header, h.size, h.cacheline, ?_, ?_, h.cached_mod, h.le_cached, h.cached_le, ?_⟩, ?_⟩
    · rw [hmapped, hmod]
    · rw [hmapped]
      exact hround
    · intro y hy
      rcases List.mem_cons.mp hy with rfl | hy
      · simp only [Mapping.OnSide, Bool.false_eq_true, if_false, hmapped]
        omega
      · -- the pages mapped before are still below the new limit
        have hold := h.mappings y hy
        have hgrow := UInt32.lt_iff_toNat_lt.mp hlt
        simp only [Mapping.OnSide] at hold ⊢
        split
        · rwa [if_pos ‹_›] at hold
        · rw [if_neg ‹_›] at hold
          simp only [hmapped]
          omega
    · rw [hmapped]
      exact hup
  · rw [ensureUncachedMapping, if_neg hlt]
    rw [UInt32.lt_iff_toNat_lt] at hlt
    exact ⟨h, by omega⟩

/-- Mapping down to an offset that is in use. -/
theorem Host.Mapped.ensureCached (h : host.Mapped H) (newOffset : UInt32)
    (hnew : H.freeCached ≤ newOffset.toNat) :
    (ensureCachedMapping L.smemInfo newOffset host).Mapped H ∧
      (ensureCachedMapping L.smemInfo newOffset host).info.offsetMappedCached.toNat ≤
        newOffset.toNat := by
  by_cases hlt : newOffset < host.info.offsetMappedCached
  · have hsub : (host.info.header - L.smemInfo.smemBaseAddr).toUInt32 = L.offset := by
      rw [h.header, L.header_sub]
    have hcached := h.cached_le
    obtain ⟨o, n, hx, hoffset, hsize⟩ := mapPageAttr_cached (L := L) h.cached_mod
      (UInt32.lt_iff_toNat_lt.mp hlt) h.cached_le
    have hround := roundDown_mono (k := 4096) hnew
    have hdown := roundDown_le (n := newOffset.toNat) (k := 4096)
    have hmod : roundDown newOffset.toNat 4096 % 4096 = 0 := Nat.mod_eq_zero_of_dvd dvd_roundDown
    have hmapped : (host.info.offsetMappedCached - n).toNat = roundDown newOffset.toNat 4096 := by
      rw [UInt32.toNat_sub_of_le _ _ (UInt32.le_iff_toNat_le.mpr (by omega))]
      omega
    have hensure : ensureCachedMapping L.smemInfo newOffset host =
        ⟨{ host.info with offsetMappedCached := host.info.offsetMappedCached - n },
          ⟨o, n, true⟩ :: host.mappings⟩ := by
      simp only [ensureCachedMapping, hlt, if_true, hsub, hx]
    rw [hensure]
    refine ⟨⟨h.header, h.size, h.cacheline, h.uncached_mod, h.uncached_le, ?_, ?_, ?_, ?_⟩, ?_⟩
    · rw [hmapped, hmod]
    · rw [hmapped]
      exact hround
    · rw [hmapped]
      omega
    · intro y hy
      rcases List.mem_cons.mp hy with rfl | hy
      · simp only [Mapping.OnSide, if_true, hmapped]
        omega
      · have hold := h.mappings y hy
        simp only [Mapping.OnSide] at hold ⊢
        split
        · rw [if_pos ‹_›] at hold
          simp only [hmapped]
          omega
        · rwa [if_neg ‹_›] at hold
    · rw [hmapped]
      exact hdown
  · rw [ensureCachedMapping, if_neg hlt]
    rw [UInt32.lt_iff_toNat_lt] at hlt
    exact ⟨h, by omega⟩

/-! ## The two loops -/

/-- What the walk answers on memory that holds the heap. -/
def Heap.answer (H : Heap L) (params : AllocParams) : Answer :=
  match H.lookup params.smemType with
  | some f => ⟨.success, params.found f⟩
  | none => ⟨.notFound, params⟩

/-- The host has mapped all cached items. -/
def Host.CachedMapped (H : Heap L) (host : Host) : Prop :=
  host.info.offsetMappedCached.toNat ≤ H.freeCached

variable {m : Memory} {fuel : Nat} {thisHost : UInt32}

/-- The cast of the header pointer to 32 bits loses nothing. -/
theorem Layout.header_toUInt32 : L.header.toUInt32.toNat = L.base := by
  have h := L.base_bounds
  rw [UInt64.toNat_toUInt32, L.header_toNat]
  omega

/-- There are no more items than the budget has rounds. -/
theorem Heap.length_lt (hfuel : L.size.toNat ≤ 16 * fuel) :
    H.uncached.length < fuel ∧ H.cached.length < fuel := by
  obtain ⟨-, -, hfit⟩ := H.free_le
  have hle := H.freeUncached_le
  have hu := length_le_space 0 H.uncached
  have hc := length_le_space L.pad H.cached
  simp only [freeUncached] at hle
  omega

/-- The cached side, when the type is not on the uncached side. -/
theorem getAddrCached_spec (params : AllocParams) (rem : UInt32) (hm : H.Holds m)
    (hhost : host.Current H)
    (hfuel : L.size.toNat ≤ 16 * fuel) (hrem : rem.toNat = L.size.toNat - H.freeUncached)
    (hnone : H.uncachedPlaces.find? (Heap.hasType params.smemType) = none) :
    ∃ host', getAddrCached L.smemInfo fuel m params rem host = some (H.answer params, host') ∧
      host'.Current H ∧ host'.CachedMapped H := by
  obtain ⟨hmapped, hmc⟩ := hhost.toMapped.ensureCached
    host.info.offsetFreeCached (Nat.le_of_eq hhost.freeCached.symm)
  obtain ⟨mc, hinfo⟩ :=
    ensureCachedMapping_info L.smemInfo host.info.offsetFreeCached host
  have hpad : (itemPadding L.cacheline).toUInt16.toNat = L.pad := by
    have := L.pad_lt
    have := L.cacheline_le
    rw [UInt64.toNat_toUInt16, L.itemPadding_toNat]
    omega
  rw [getAddrCached]
  generalize ensureCachedMapping L.smemInfo host.info.offsetFreeCached host =
    host' at hmapped hmc hinfo ⊢
  have hcurrent : host'.Current H :=
    ⟨hmapped, by rw [hinfo]; exact hhost.freeUncached, by rw [hinfo]; exact hhost.freeCached,
      by rw [hinfo]; exact hhost.free_le⟩
  have hcached : host'.CachedMapped H := by
    rw [Host.CachedMapped, ← hhost.freeCached]
    exact hmc
  have hbase := L.base_bounds
  have hcl := L.pad_lt
  obtain ⟨hge, hpages, hfit⟩ := H.free_le
  have hle := H.freeUncached_le
  -- a page lies below the last cached item, so the walk behind it does not pass zero
  have hdown := roundDown_le (n := H.freeCached) (k := 4096)
  have hup : 4096 ≤ Lib.roundUp H.freeUncached 4096 := by
    simp only [Lib.roundUp]
    omega
  have hhdr :
      (L.header.toUInt32 + L.size - (itemPadding L.cacheline).toUInt16.toUInt32).toUInt64 - 16 =
      .ofNat (L.base + L.size.toNat - L.pad - 16) := by
    apply UInt64.toNat_inj.mp
    simp only [UInt64.toNat_sub, UInt32.toNat_toUInt64, UInt32.toNat_sub, UInt32.toNat_add,
      L.header_toUInt32, UInt16.toNat_toUInt32, hpad, UInt64.toNat_ofNat', UInt64.reduceToNat]
    omega
  have hlim : (L.header.toUInt32 + host'.info.offsetFreeCached).toNat = L.base + H.freeCached := by
    rw [UInt32.toNat_add, L.header_toUInt32, hcurrent.freeCached]
    omega
  have hside : OnSide true L.pad (L.base + H.freeCached) (L.base + L.size.toNat - L.pad - 16)
      H.cached := by
    simp only [OnSide, if_true]
    omega
  have hscan :=
    scan_spec params host'.info rem hpad hlim hside (H.length_lt hfuel).2 hm.cached (by omega)
    (by rw [hcurrent.size]; omega)
  simp only [hcurrent.header, hcurrent.size, hcurrent.cacheline, hhdr]
  cases hfind : H.cachedPlaces.find? (Heap.hasType params.smemType) with
  | some p =>
    obtain ⟨cur, hrun⟩ := hscan.1 p hfind
    refine ⟨host', ?_, hcurrent, hcached⟩
    simp only [hrun, Heap.answer, Heap.lookup_of_cached hnone hfind]
  | none =>
    obtain ⟨cur, hrun, -⟩ := hscan.2 hfind
    refine ⟨host', ?_, hcurrent, hcached⟩
    simp only [hrun, Heap.answer, Heap.lookup_eq_none.mpr ⟨hnone, hfind⟩]

/-- Both sides, once the offsets have been read. -/
theorem getAddrUncached_spec (params : AllocParams) (hm : H.Holds m) (hmapped : host.Mapped H)
    (hfree : host.info.offsetFreeUncached.toNat = H.freeUncached)
    (hfree' : host.info.offsetFreeCached.toNat = H.freeCached) (hfuel : L.size.toNat ≤ 16 * fuel) :
    ∃ host', getAddrUncached L.smemInfo fuel m params host = some (H.answer params, host') ∧
      host'.Current H ∧
      ((∀ f, H.lookup params.smemType = some f → f.cached = true) ∨ host.CachedMapped H →
        host'.CachedMapped H) := by
  obtain ⟨hmapped', hmu⟩ := hmapped.ensureUncached
    host.info.offsetFreeUncached (Nat.le_of_eq hfree)
  obtain ⟨mu, hinfo⟩ :=
    ensureUncachedMapping_info L.smemInfo host.info.offsetFreeUncached host
  rw [getAddrUncached]
  generalize ensureUncachedMapping L.smemInfo host.info.offsetFreeUncached host = host₁
    at hmapped' hmu hinfo ⊢
  have hcurrent : host₁.Current H :=
    ⟨hmapped', by rw [hinfo]; exact hfree, by rw [hinfo]; exact hfree', by rw [← hfree]; exact hmu⟩
  have hbase := L.base_bounds
  have hsize := L.size_pos
  have hbounds := H.free_bounds
  have hhdr : L.header.toUInt32.toUInt64 + 32 = .ofNat (L.base + 32) := by
    apply UInt64.toNat_inj.mp
    simp only [UInt64.toNat_add, UInt32.toNat_toUInt64, L.header_toUInt32, UInt64.toNat_ofNat',
      UInt64.reduceToNat]
  have hlim : (L.header.toUInt32 + host₁.info.offsetFreeUncached).toNat =
      L.base + H.freeUncached := by
    rw [UInt32.toNat_add, L.header_toUInt32, hcurrent.freeUncached]
    omega
  have hside : OnSide false 0 (L.base + H.freeUncached) (L.base + 32) H.uncached := by
    simp only [OnSide, Bool.false_eq_true, if_false, Heap.freeUncached]
    simp only [Heap.freeUncached] at hbounds
    exact ⟨by rw [Nat.add_assoc], by omega⟩
  have hfreeEq : H.freeUncached = 32 + space 0 H.uncached := rfl
  have hrem : (L.size - 32).toNat = L.size.toNat - 32 := by
    have := L.size_aligned
    rw [UInt32.toNat_sub_of_le]
    · rfl
    · rw [UInt32.le_iff_toNat_le]
      show 32 ≤ _
      omega
  have hscan :=
    scan_spec params host₁.info (L.size - 32) (show UInt16.toNat 0 = 0 from rfl) hlim hside
    (H.length_lt hfuel).1 hm.uncached (by omega)
    (by rw [hcurrent.size]; omega)
  simp only [hcurrent.header, hcurrent.size, hhdr]
  cases hfind : H.uncachedPlaces.find? (Heap.hasType params.smemType) with
  | some p =>
    have hlookup := Heap.lookup_of_uncached hfind
    obtain ⟨cur, hrun⟩ := hscan.1 p hfind
    refine ⟨host₁, ?_, hcurrent, fun h => ?_⟩
    · simp only [hrun, Heap.answer, hlookup]
    · -- the cached side has not been reached
      rcases h with h | h
      · exact absurd (h _ hlookup) Bool.false_ne_true
      · rw [Host.CachedMapped, hinfo]
        exact h
  | none =>
    obtain ⟨cur, hrun, hleft⟩ := hscan.2 hfind
    obtain ⟨host', hcall, hcurrent', hcached⟩ :=
      getAddrCached_spec params cur.sizeRemaining hm hcurrent hfuel (by rw [hleft]; omega) hfind
    refine ⟨host', ?_, hcurrent', fun _ => hcached⟩
    simp only [hrun, hcall]

/-- The remote host is one that the calls of this host may name. -/
def AllocParams.HostOk (thisHost : UInt32) (params : AllocParams) : Prop :=
  remoteOutOfRange params = false ∧ remoteCommon thisHost params = true

/-- **The walk finds what the heap has.** -/
theorem getAddrEx_spec (params : AllocParams) (hm : H.Holds m) (hmapped : host.Mapped H)
    (hparams : params.HostOk thisHost) (hfuel : L.size.toNat ≤ 16 * fuel) :
    ∃ host', getAddrEx L.smemInfo thisHost fuel m params host = some (H.answer params, host') ∧
      host'.Current H ∧
      ((∀ f, H.lookup params.smemType = some f → f.cached = true) ∨ host.CachedMapped H →
        host'.CachedMapped H) := by
  have hsize : (host.info.size == 0) = false := by
    have := L.size_pos
    rw [hmapped.size, beq_eq_false_iff_ne]
    rintro h
    rw [h] at this
    exact absurd this (by decide)
  have hbounds := H.free_bounds
  have hle := H.freeUncached_le
  have hread : (host.readOffsets m).Mapped H :=
    ⟨hmapped.header, hmapped.size, hmapped.cacheline, hmapped.uncached_mod, hmapped.uncached_le,
      hmapped.cached_mod, hmapped.le_cached, hmapped.cached_le, hmapped.mappings⟩
  have hfree : (host.readOffsets m).info.offsetFreeUncached.toNat = H.freeUncached := by
    rw [Host.readOffsets, hmapped.header]
    exact hm.freeUncached
  have hfree' : (host.readOffsets m).info.offsetFreeCached.toNat = H.freeCached := by
    rw [Host.readOffsets, hmapped.header]
    exact hm.freeCached
  have hguard :
      ((host.readOffsets m).info.offsetFreeUncached > (host.readOffsets m).info.offsetFreeCached
      || (host.readOffsets m).info.offsetFreeUncached > (host.readOffsets m).info.size
      || (host.readOffsets m).info.offsetFreeCached > (host.readOffsets m).info.size) = false := by
    simp only [gt_iff_lt, UInt32.lt_iff_toNat_lt, hfree, hfree', hread.size, Bool.or_eq_false_iff,
      decide_eq_false_iff_not]
    omega
  obtain ⟨host', hcall, hcurrent, hcached⟩ :=
    getAddrUncached_spec params hm hread hfree hfree' hfuel
  refine ⟨host', ?_, hcurrent, hcached⟩
  simp only [getAddrEx, hparams.1, hparams.2, hsize, hguard, Bool.false_eq_true, if_false,
    Bool.not_true, hcall]

end

end Smem
