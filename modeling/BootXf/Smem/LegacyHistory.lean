import BootXf.Lib.Run
import BootXf.Smem.TocContract

/-!
# Histories of the legacy heap

From the heap that `smem_boot_init` leaves in a memory of the legacy version, whatever is allocated:
the free offset and the size of what is left always add up to the end of the heap, and the items lie
in the heap without overlapping (`LegacyHeap.Sound`). What a call has allocated stays in the table
(`LegacyHeap.Keeps`), so a lookup finds it, with two exceptions in the code: a size close to 2^32
that rounding up turns into zero, and an item that ends where shared memory ends, which
`smem_legacy_get_addr` takes for one that does not fit.
-/

open Lib

namespace Smem

open Option

/-- The type is one of those that are allocated from the heap. -/
def IsDynamic (smemType : UInt32) : Prop := lastFixedBuffer < smemType ∧ smemType ≤ memLast

instance (smemType : UInt32) : Decidable (IsDynamic smemType) :=
  inferInstanceAs (Decidable (_ ∧ _))

/-- A call of `smem_legacy_alloc`. -/
structure LegacyCall where
  smemType : UInt32
  bufSize : UInt32
  deriving DecidableEq, Repr

/-- A call and the pointer it answers. -/
def LegacyStep (smemInfo : SmemInfo) (s : LegacyHeap) (e : LegacyCall × UInt64) (t : LegacyHeap) :
    Prop :=
  smemLegacyAlloc smemInfo e.1.smemType e.1.bufSize s = some (e.2, t)

/-- The size of the call is rounded up to zero, and the call does not fail. -/
def LegacyCall.Wraps (s : LegacyHeap) (c : LegacyCall) : Prop :=
  2 ^ 32 - 8 < c.bufSize.toNat ∧
    ((s.entry c.smemType).IsAllocated → (s.entry c.smemType).size = 0)

/-- The call allocates the last bytes of shared memory. -/
def LegacyCall.ReachesEnd (smemInfo : SmemInfo) (s : LegacyHeap) (c : LegacyCall) : Prop :=
  ¬ (s.entry c.smemType).IsAllocated ∧ alignSz c.bufSize ≤ s.heapInfo.heapRemaining ∧
    s.heapInfo.freeOffset.toNat + (alignSz c.bufSize).toNat = smemInfo.smemSize.toNat

/-- The call is neither of the two. -/
def LegacyCall.Clean (smemInfo : SmemInfo) (s : LegacyHeap) (c : LegacyCall) : Prop :=
  IsDynamic c.smemType → ¬ c.Wraps s ∧ ¬ c.ReachesEnd smemInfo s

/-- The bytes of the heap, by their offsets in shared memory. -/
def LegacyHeap.span (s : LegacyHeap) : Span :=
  ⟨s.heapInfo.freeOffset.toNat, s.heapInfo.heapRemaining.toNat⟩

/-- **The law of the legacy heap**, in a state that a history leads to: the free offset and the size
of what is left add up to what they did at the start, without a wrap; the items of the heap lie in
it and do not overlap; an allocation that fails changes nothing; and what a call has allocated is
looked up at its pointer, with the size of the call rounded up to eight. -/
structure LegacyLaw (smemInfo : SmemInfo) (s₀ : LegacyHeap) (h : List (LegacyCall × UInt64))
    (s : LegacyHeap) : Prop where
  sum : s.span.stop = s₀.span.stop
  no_wrap : s.span.stop < 2 ^ 32
  inside : ∀ t, IsDynamic t → (s.entry t).IsAllocated → (s.entry t).span.Within s₀.span
  disjoint : ∀ t t', IsDynamic t → IsDynamic t' → t ≠ t' → (s.entry t).IsAllocated →
    (s.entry t').IsAllocated → (s.entry t).span.Disjoint (s.entry t').span
  failed : ∀ c t, LegacyStep smemInfo s (c, 0) t → t = s
  lookup : ∀ c p, (c, p) ∈ h → IsDynamic c.smemType → p ≠ 0 →
    ∃ size, smemLegacyGetAddr smemInfo c.smemType s = some (p, size) ∧
      size.toNat = Lib.roundUp c.bufSize.toNat 8

/-! ## Allocating -/

section
variable {smemInfo : SmemInfo} {s t : LegacyHeap} {smemType bufSize : UInt32} {p : UInt64}

/-- The heap after an item has been allocated from it. -/
def LegacyHeap.take (s : LegacyHeap) (smemType size : UInt32) : LegacyHeap :=
  LegacyHeap.setEntry
    { s with heapInfo := { s.heapInfo with
      freeOffset := s.heapInfo.freeOffset + size
      heapRemaining := s.heapInfo.heapRemaining - size } }
    smemType
    { s.entry smemType with
      offset := s.heapInfo.freeOffset, size := size, allocated := allocationEntryAllocated }

/-- **What an allocation can do.** It leaves the heap as it is, with a null pointer or the pointer
to an item of the same size that is there, or it takes the item from the front of the heap. -/
theorem smemLegacyAlloc_cases (h : smemLegacyAlloc smemInfo smemType bufSize s = some (p, t)) :
    (t = s ∧ (IsDynamic smemType → p ≠ 0 → (s.entry smemType).IsAllocated ∧
      (s.entry smemType).size = alignSz bufSize ∧
      p = smemInfo.smemBaseAddr + (s.entry smemType).offset.toUInt64)) ∨
    (IsDynamic smemType ∧ ¬ (s.entry smemType).IsAllocated ∧
      alignSz bufSize ≤ s.heapInfo.heapRemaining ∧
      p = smemInfo.smemBaseAddr + s.heapInfo.freeOffset.toUInt64 ∧
      t = s.take smemType (alignSz bufSize)) := by
  unfold smemLegacyAlloc at h
  split at h
  next hstatic =>
    obtain ⟨q, -, hq⟩ := map_eq_some_iff.mp h
    cases hq
    exact .inl ⟨rfl, fun hdyn => absurd hstatic (UInt32.not_le.mpr hdyn.1)⟩
  next hstatic =>
  have hgt : smemType > lastFixedBuffer := UInt32.not_le.mp hstatic
  unfold smemLegacyAllocDynamic at h
  rw [if_neg (not_not_intro hgt)] at h
  split at h
  next hlast =>
    cases h
    exact .inl ⟨rfl, fun hdyn => absurd hlast (UInt32.not_lt.mpr hdyn.2)⟩
  next hlast =>
  have hdyn : IsDynamic smemType := ⟨hgt, UInt32.not_lt.mp hlast⟩
  simp only at h
  split at h
  next halloc =>
    cases h
    refine .inl ⟨rfl, fun _ hp => ⟨halloc, ?_⟩⟩
    unfold existingItem at hp ⊢
    split at hp
    next hsize =>
      split at hp
      · exact absurd rfl hp
      next hext =>
        rw [if_pos hsize, if_neg hext]
        exact ⟨(beq_iff_eq.mp hsize).symm, rfl⟩
    · exact absurd rfl hp
  next halloc =>
  split at h
  next hfit =>
    cases h
    exact .inr ⟨hdyn, halloc, hfit, rfl, rfl⟩
  · cases h
    exact .inl ⟨rfl, fun _ hp => absurd rfl hp⟩

end

/-! ## The heap stays sound -/

/-- What holds of the heap after any calls: it is the rest of the one it started from, in shared
memory, and the items allocated so far lie in what has been taken, without overlapping. -/
structure LegacyHeap.Sound (smemInfo : SmemInfo) (s s₀ : LegacyHeap) : Prop where
  sum : s.span.stop = s₀.span.stop
  below : s₀.span.stop ≤ smemInfo.smemSize.toNat
  grow : s₀.heapInfo.freeOffset.toNat ≤ s.heapInfo.freeOffset.toNat
  internal : ∀ t, IsDynamic t → (s.entry t).baseExt = 0
  inside : ∀ t, IsDynamic t → (s.entry t).IsAllocated →
    s₀.heapInfo.freeOffset.toNat ≤ (s.entry t).offset.toNat ∧
      (s.entry t).span.stop ≤ s.heapInfo.freeOffset.toNat
  disjoint : ∀ t t', IsDynamic t → IsDynamic t' → t ≠ t' → (s.entry t).IsAllocated →
    (s.entry t').IsAllocated → (s.entry t).span.Disjoint (s.entry t').span

section
variable {bi : BootInfo} {maxItems : UInt16} {s₀ s t : LegacyHeap} {smemType size : UInt32}
  {c : LegacyCall} {p : UInt64} {h : List (LegacyCall × UInt64)}

theorem entry_take_self (hdyn : IsDynamic smemType) :
    (s.take smemType size).entry smemType = { s.entry smemType with
      offset := s.heapInfo.freeOffset, size := size, allocated := allocationEntryAllocated } :=
  entry_setEntry_self hdyn.2

theorem entry_take_of_ne {other : UInt32} (hne : other ≠ smemType) :
    (s.take smemType size).entry other = s.entry other :=
  entry_setEntry_of_ne hne

/-- Taking an item that fits moves the front of the heap over it. -/
theorem LegacyHeap.Sound.freeOffset_take (hs : s.Sound (bi.smemInfo maxItems) s₀)
    (smemType : UInt32) (hfit : size ≤ s.heapInfo.heapRemaining) :
    (s.take smemType size).heapInfo.freeOffset.toNat = s.heapInfo.freeOffset.toNat + size.toNat ∧
      (s.take smemType size).heapInfo.heapRemaining.toNat =
        s.heapInfo.heapRemaining.toNat - size.toNat := by
  have hsum := hs.sum
  have hbelow := hs.below
  have hlt := (bi.smemInfo maxItems).smemSize.toNat_lt
  rw [UInt32.le_iff_toNat_le] at hfit
  simp only [LegacyHeap.span, Span.stop] at hsum hbelow
  constructor
  · show (s.heapInfo.freeOffset + size).toNat = _
    rw [UInt32.toNat_add]
    exact Nat.mod_eq_of_lt (by omega)
  · exact uint32_sub_toNat hfit

/-- **An allocation keeps the heap sound.** -/
theorem LegacyHeap.Sound.take (hs : s.Sound (bi.smemInfo maxItems) s₀) (hdyn : IsDynamic smemType)
    (hfit : size ≤ s.heapInfo.heapRemaining) :
    (s.take smemType size).Sound (bi.smemInfo maxItems) s₀ := by
  obtain ⟨hfree, hrem⟩ := hs.freeOffset_take smemType hfit
  have hsum := hs.sum
  have hgrow := hs.grow
  rw [UInt32.le_iff_toNat_le] at hfit
  have hold : ∀ t, IsDynamic t → t ≠ smemType → ((s.take smemType size).entry t).IsAllocated →
      (s.entry t).IsAllocated ∧ (s.entry t).span.stop ≤ s.heapInfo.freeOffset.toNat := by
    intro t hdyn' hne halloc
    rw [entry_take_of_ne hne] at halloc
    exact ⟨halloc, (hs.inside t hdyn' halloc).2⟩
  refine ⟨?_, hs.below, ?_, fun t hdyn' => ?_, fun t hdyn' halloc => ?_,
    fun t t' ht ht' hne halloc halloc' => ?_⟩
  · simp only [LegacyHeap.span, Span.stop, hfree, hrem] at hsum ⊢
    omega
  · omega
  · by_cases heq : t = smemType
    · rw [heq, entry_take_self hdyn]
      exact hs.internal smemType hdyn
    · rw [entry_take_of_ne heq]
      exact hs.internal t hdyn'
  · by_cases heq : t = smemType
    · rw [heq, entry_take_self hdyn]
      exact ⟨hgrow, Nat.le_of_eq hfree.symm⟩
    · rw [entry_take_of_ne heq] at halloc ⊢
      obtain ⟨hlo, hhi⟩ := hs.inside t hdyn' halloc
      exact ⟨hlo, by omega⟩
  · -- the new item starts where the free room did
    by_cases heq : t = smemType
    · have hne' : t' ≠ smemType := fun h => hne (heq.trans h.symm)
      have hlast := (hold t' ht' hne' halloc').2
      rw [heq, entry_take_self hdyn, entry_take_of_ne hne']
      exact .inr hlast
    · by_cases heq' : t' = smemType
      · have hlast := (hold t ht heq halloc).2
        rw [heq', entry_take_self hdyn, entry_take_of_ne heq]
        exact .inl hlast
      · rw [entry_take_of_ne heq, entry_take_of_ne heq']
        exact hs.disjoint t t' ht ht' hne (hold t ht heq halloc).1 (hold t' ht' heq' halloc').1

/-- A call keeps the heap sound. -/
theorem LegacyHeap.Sound.step (hs : s.Sound (bi.smemInfo maxItems) s₀)
    (hstep : LegacyStep (bi.smemInfo maxItems) s (c, p) t) : t.Sound (bi.smemInfo maxItems) s₀ := by
  rcases smemLegacyAlloc_cases hstep with ⟨rfl, -⟩ | ⟨hdyn, -, hfit, -, rfl⟩
  · exact hs
  · exact hs.take hdyn hfit

/-- Where an item of the heap is, the pointer is not null. -/
theorem pointer_ne_zero (offset : UInt32) : bi.smemBaseAddr + offset.toUInt64 ≠ 0 := by
  intro hz
  have habove := bi.above
  have hbelow := bi.below
  have hlt := offset.toNat_lt
  have hn := congrArg UInt64.toNat hz
  rw [UInt64.toNat_add, UInt32.toNat_toUInt64, UInt64.toNat_zero] at hn
  omega

/-- An allocation that fails changes nothing. -/
theorem LegacyStep.failed (hstep : LegacyStep (bi.smemInfo maxItems) s (c, 0) t) : t = s := by
  rcases smemLegacyAlloc_cases hstep with ⟨rfl, -⟩ | ⟨-, -, -, hp, -⟩
  · rfl
  · exact absurd hp.symm (pointer_ne_zero _)

/-! ## Looking up -/

/-- The lookup of an item that ends below the end of shared memory. -/
theorem smemLegacyGetAddr_of_allocated (hdyn : IsDynamic smemType)
    (halloc : (s.entry smemType).IsAllocated) (hext : (s.entry smemType).baseExt = 0)
    (hend : (s.entry smemType).span.stop < bi.smemSize.toNat) :
    smemLegacyGetAddr (bi.smemInfo maxItems) smemType s =
      some (bi.smemBaseAddr + (s.entry smemType).offset.toUInt64, (s.entry smemType).size) := by
  have hbelow := bi.below
  have hbase : (bi.smemInfo maxItems).smemBaseAddr = bi.smemBaseAddr := rfl
  have hsize : (bi.smemInfo maxItems).smemSize = bi.smemSize := rfl
  have hinternal : (s.entry smemType).external = false := by
    simp only [AllocEntry.external, hext]
    decide
  have hresult : (bi.smemBaseAddr + (s.entry smemType).offset.toUInt64).toNat =
      bi.smemBaseAddr.toNat + (s.entry smemType).offset.toNat := by
    have hlt := (s.entry smemType).offset.toNat_lt
    rw [UInt64.toNat_add, UInt32.toNat_toUInt64]
    exact Nat.mod_eq_of_lt (by omega)
  have hstop : (bi.smemBaseAddr + bi.smemSize.toUInt64).toNat =
      bi.smemBaseAddr.toNat + bi.smemSize.toNat := by
    rw [UInt64.toNat_add, UInt32.toNat_toUInt64]
    exact Nat.mod_eq_of_lt (by omega)
  have hfits : fitsSmem (bi.smemInfo maxItems)
      (bi.smemBaseAddr + (s.entry smemType).offset.toUInt64) (s.entry smemType).size = true := by
    have hlt := (s.entry smemType).size.toNat_lt
    simp only [Span.stop, AllocEntry.span] at hend
    simp only [fitsSmem, hbase, hsize, Bool.not_eq_true', Bool.or_eq_false_iff,
      decide_eq_false_iff_not, UInt64.lt_iff_toNat_lt, ge_iff_le, UInt64.le_iff_toNat_le,
      UInt64.toNat_add (bi.smemBaseAddr + (s.entry smemType).offset.toUInt64), hresult, hstop,
      UInt32.toNat_toUInt64]
    omega
  have hstatic : ¬ smemType ≤ lastFixedBuffer := UInt32.not_le.mpr hdyn.1
  have hlast : ¬ smemType > memLast := UInt32.not_lt.mpr hdyn.2
  simp only [smemLegacyGetAddr, if_neg hstatic, if_neg hlast, if_pos halloc, hinternal,
    Bool.false_eq_true, if_false, hbase, hext, hfits, if_true, and_true, ne_eq,
    pointer_ne_zero, not_false_eq_true]

/-- What the history has allocated is in the table. -/
def LegacyHeap.Keeps (bi : BootInfo) (s : LegacyHeap) (h : List (LegacyCall × UInt64)) : Prop :=
  (∀ t, IsDynamic t → (s.entry t).IsAllocated → (s.entry t).span.stop ≠ bi.smemSize.toNat) ∧
    ∀ c p, (c, p) ∈ h → IsDynamic c.smemType → p ≠ 0 → c.bufSize.toNat ≤ 2 ^ 32 - 8 ∧
      (s.entry c.smemType).IsAllocated ∧ (s.entry c.smemType).size = alignSz c.bufSize ∧
      p = bi.smemBaseAddr + (s.entry c.smemType).offset.toUInt64

/-- A call that is neither of the exceptions keeps what has been allocated, and adds its own. -/
theorem LegacyHeap.Keeps.step (hk : s.Keeps bi h)
    (hstep : LegacyStep (bi.smemInfo maxItems) s (c, p) t)
    (hclean : c.Clean (bi.smemInfo maxItems) s) :
    t.Keeps bi ((c, p) :: h) := by
  obtain ⟨hends, hkeeps⟩ := hk
  rcases smemLegacyAlloc_cases hstep with ⟨rfl, hthere⟩ | ⟨hdyn, hnew, hfit, hp, rfl⟩
  · refine ⟨hends, fun c' p' hmem hdyn hne => ?_⟩
    rcases List.mem_cons.mp hmem with heq | hmem
    · cases heq
      obtain ⟨halloc, hsize, hptr⟩ := hthere hdyn hne
      refine ⟨?_, halloc, hsize, hptr⟩
      -- a size that wraps would have been rounded to the zero of an empty item
      refine Nat.le_of_not_lt fun hbig => (hclean hdyn).1 ⟨hbig, fun _ => ?_⟩
      rw [hsize, alignSz_eq_zero hbig]
    · exact hkeeps c' p' hmem hdyn hne
  · have hself : (s.take c.smemType (alignSz c.bufSize)).entry c.smemType =
        { s.entry c.smemType with
          offset := s.heapInfo.freeOffset, size := alignSz c.bufSize
          allocated := allocationEntryAllocated } := entry_take_self hdyn
    refine ⟨fun t hdyn' halloc => ?_, fun c' p' hmem hdyn' hne => ?_⟩
    · by_cases heq : t = c.smemType
      · rw [heq, hself]
        exact fun hend => (hclean hdyn).2 ⟨hnew, hfit, hend⟩
      · rw [entry_take_of_ne heq] at halloc ⊢
        exact hends t hdyn' halloc
    · rcases List.mem_cons.mp hmem with heq | hmem
      · cases heq
        rw [hself]
        refine ⟨?_, rfl, rfl, hp⟩
        exact Nat.le_of_not_lt fun hbig => (hclean hdyn).1 ⟨hbig, fun halloc => absurd halloc hnew⟩
      · -- an item allocated before has another type
        have hold := hkeeps c' p' hmem hdyn' hne
        have hne' : c'.smemType ≠ c.smemType := by
          intro heq
          rw [heq] at hold
          exact hnew hold.2.1
        rw [entry_take_of_ne hne']
        exact hold

end

/-! ## The heap at boot -/

section
variable {bi : BootInfo} {cfg : Option TocConfigTbl} {tocVersion : UInt32} {m : Memory} {b : Booted}
  {maxItems : UInt16} {t : UInt32} {l : List BufData} {s : LegacyHeap}

/-- The sizes of the configured partitions do not wrap when they are added up. -/
def SizesFit (bi : BootInfo) (cfg : Option TocConfigTbl) : Prop :=
  ∀ tbl, cfg = some tbl → totalSize tbl.partitions + bi.reserved ≤ bi.smemSize.toNat

/-- The setup of the fixed buffers leaves the entries of the other types alone. -/
theorem entry_legacyAllocTableInit (offset : UInt32) (hl : ∀ b ∈ l, b.tag ≠ t) :
    (legacyAllocTableInit offset l s).entry t = s.entry t := by
  induction l generalizing offset s with
  | nil => rfl
  | cons b l ih =>
    rw [legacyAllocTableInit, ih _ fun b hb => hl b (.tail _ hb)]
    exact entry_setEntry_of_ne (hl b (.head _)).symm

theorem entry_zero (t : UInt32) : LegacyHeap.zero.entry t = .zero := by
  simp only [LegacyHeap.entry, LegacyHeap.zero, Vector.getElem?_replicate]
  split
  · rfl
  · rfl

/-- No type of the heap has an item yet. -/
theorem entry_boot (hdyn : IsDynamic t) :
    (legacyAllocTableInit 0 smemLegacyBufDataTbl .zero).entry t = .zero := by
  rw [entry_legacyAllocTableInit, entry_zero]
  rintro b hb rfl
  have htags : ∀ b ∈ smemLegacyBufDataTbl, b.tag ≤ lastFixedBuffer := by decide
  exact absurd (htags b hb) (UInt32.not_le.mpr hdyn.1)

/-- What the setup of a legacy memory leaves: the fixed buffers in the table, and a heap behind
them, in shared memory. -/
theorem smemBootInit_heap (h : smemBootInit bi tocVersion cfg m = some b) (hl : bi.isLegacy = true)
    (hcfg : SizesFit bi cfg) :
    (∀ t, IsDynamic t → b.heap.entry t = .zero) ∧ b.heap.span.stop ≤ bi.smemSize.toNat := by
  have hlarge := bi.large
  have h8648 : (8648 : UInt32).toNat = 8648 := rfl
  have h4096 : tocSize.toNat = 4096 := rfl
  have hsub : (bi.smemSize - 8648).toNat = bi.smemSize.toNat - 8648 := uint32_sub_toNat (by omega)
  have hinfo := heapInfo_of_legacy hl
  simp only [BootInfo.heapInfo, hl, if_true] at hinfo
  unfold smemBootInit at h
  split at h
  · cases h
  simp only [hinfo] at h
  cases cfg with
  | none =>
    cases h
    refine ⟨fun t hdyn => entry_boot hdyn, ?_⟩
    simp only [LegacyHeap.span, Span.stop, hsub, h8648]
    omega
  | some tbl =>
    obtain ⟨⟨cur, heapInfo⟩, hsetup, rfl⟩ := map_eq_some_iff.mp h
    obtain ⟨hsum, -, -, -, rfl⟩ := smemBootTocSetup_some hsetup
    refine ⟨fun t hdyn => entry_boot hdyn, ?_⟩
    have htotal := hcfg tbl rfl
    have hfree : bi.freeOffset ⟨1, 8648, bi.smemSize - 8648⟩ = 8648 := by
      simp only [BootInfo.freeOffset, BootInfo.heapStart, hl, if_true]
    have hrem : (bi.heapRemaining ⟨1, 8648, bi.smemSize - 8648⟩).toNat =
        bi.smemSize.toNat - 8648 - 4096 := by
      simp only [BootInfo.heapRemaining, BootInfo.heapStart, hl, if_true]
      rw [uint32_sub_toNat (by omega), hsub, h4096]
    have hstart : (bi.heapStart ⟨1, 8648, bi.smemSize - 8648⟩).2.2.toNat = 4096 := by
      simp only [BootInfo.heapStart, hl, if_true]
      rfl
    have hlt := bi.smemSize.toNat_lt
    simp only [BootInfo.reserved, hl, if_true] at htotal
    rw [UInt32.le_iff_toNat_le, UInt32.toNat_add, UInt32.toNat_ofNat', hstart, hrem] at hsum
    have hrest := restOf_toNat (l := tbl.partitions)
      (h := (by omega : totalSize tbl.partitions ≤
        (bi.heapRemaining ⟨1, 8648, bi.smemSize - 8648⟩).toNat))
    simp only [LegacyHeap.span, Span.stop, hl, if_true, hfree, hrest, hrem, h8648]
    omega

/-- The heap at boot is sound. -/
theorem sound_boot (h : smemBootInit bi tocVersion cfg m = some b) (hl : bi.isLegacy = true)
    (hcfg : SizesFit bi cfg) : b.heap.Sound (bi.smemInfo maxItems) b.heap := by
  obtain ⟨hzero, hbelow⟩ := smemBootInit_heap h hl hcfg
  have hfree : ∀ t, IsDynamic t → ¬ (b.heap.entry t).IsAllocated := by
    intro t hdyn
    rw [hzero t hdyn]
    decide
  exact ⟨rfl, hbelow, Nat.le_refl _, fun t hdyn => by rw [hzero t hdyn]; rfl,
    fun t hdyn halloc => absurd halloc (hfree t hdyn),
    fun t _ hdyn _ _ halloc => absurd halloc (hfree t hdyn)⟩

/-- **The law of the legacy heap.** From the heap of a memory of the legacy version, whose
configured partitions do not wrap, the law holds after any calls that are neither rounded up to
zero nor reach the end of shared memory. -/
theorem legacy_heap_law {h : List (LegacyCall × UInt64)}
    (hboot : smemBootInit bi tocVersion cfg m = some b) (hl : bi.isLegacy = true)
    (hcfg : SizesFit bi cfg)
    (run : Run (fun s e t => LegacyStep (bi.smemInfo maxItems) s e t ∧
      e.1.Clean (bi.smemInfo maxItems) s) b.heap h s) :
    LegacyLaw (bi.smemInfo maxItems) b.heap h s := by
  have hsound₀ : b.heap.Sound (bi.smemInfo maxItems) b.heap := sound_boot hboot hl hcfg
  have hzero := (smemBootInit_heap hboot hl hcfg).1
  have hkeeps₀ : b.heap.Keeps bi [] := by
    refine ⟨?_, fun c p hmem => by cases hmem⟩
    intro t hdyn halloc
    rw [hzero t hdyn] at halloc
    exact absurd halloc (by decide)
  have hinv : s.Sound (bi.smemInfo maxItems) b.heap ∧ s.Keeps bi h := by
    refine run.invariant (P := fun h s => s.Sound (bi.smemInfo maxItems) b.heap ∧ s.Keeps bi h)
      ⟨hsound₀, hkeeps₀⟩ ?_
    rintro h s ⟨c, p⟩ t - ⟨hsound, hkeeps⟩ ⟨hstep, hclean⟩
    exact ⟨hsound.step hstep, hkeeps.step hstep hclean⟩
  obtain ⟨hsound, hends, hkeeps⟩ := hinv
  have hsum := hsound.sum
  have hbelow := hsound.below
  have hlt := bi.smemSize.toNat_lt
  have hstop : b.heap.span.stop ≤ bi.smemSize.toNat := hbelow
  have hmem : ∀ t, IsDynamic t → (s.entry t).IsAllocated →
      (s.entry t).span.stop ≤ b.heap.span.stop := by
    intro t hdyn halloc
    have hhi := (hsound.inside t hdyn halloc).2
    simp only [LegacyHeap.span, Span.stop] at hsum hhi ⊢
    omega
  refine ⟨hsum, by omega, fun t hdyn halloc => ?_, hsound.disjoint, fun c t hstep => hstep.failed,
    fun c p hcall hdyn hne => ?_⟩
  · have hlo := (hsound.inside t hdyn halloc).1
    exact ⟨hlo, hmem t hdyn halloc⟩
  · obtain ⟨hsize, halloc, hentry, hptr⟩ := hkeeps c p hcall hdyn hne
    have hend := hends _ hdyn halloc
    have hle := hmem _ hdyn halloc
    refine ⟨(s.entry c.smemType).size, ?_, ?_⟩
    · rw [hptr]
      exact smemLegacyGetAddr_of_allocated hdyn halloc (hsound.internal _ hdyn) (by omega)
    · rw [hentry, alignSz_toNat hsize]

end

/-! ## Calls that break the law -/

/-- The target's shared memory, in the legacy version. -/
def legacyBoot : BootInfo := { targetBoot with smemVersion := legacyVersionId }

/-- `smem_info` of the target. -/
def legacySmemInfo : SmemInfo := legacyBoot.smemInfo 625

/-- The heap of the target without configured partitions. -/
def legacyHeap : LegacyHeap where
  heapInfo := smemBootHeapInfoInit legacyBoot
    (legacyAllocTableInit 0 smemLegacyBufDataTbl .zero)
  allocationTable := (legacyAllocTableInit 0 smemLegacyBufDataTbl .zero).allocationTable

theorem legacyHeap_boot :
    smemBootInit legacyBoot 1 none .zero = some ⟨legacyHeap, [],
      Memory.zero.store ⟨0x80900000, 0x200000⟩ fun _ => 0⟩ := rfl

/-- What a call on the heap of the target answers, and what a lookup then finds. -/
def allocThenLookup (bufSize : UInt32) : Option (UInt64 × Option (UInt64 × UInt32)) :=
  (smemLegacyAlloc legacySmemInfo 9 bufSize legacyHeap).map fun r =>
    (r.1, smemLegacyGetAddr legacySmemInfo 9 r.2)

/-- A call whose answer is known is a step. -/
theorem step_of_allocThenLookup {bufSize : UInt32} {p : UInt64} {a : Option (UInt64 × UInt32)}
    (h : allocThenLookup bufSize = some (p, a)) :
    ∃ s, LegacyStep legacySmemInfo legacyHeap (⟨9, bufSize⟩, p) s ∧
      smemLegacyGetAddr legacySmemInfo 9 s = a := by
  obtain ⟨⟨q, s⟩, hcall, hans⟩ := map_eq_some_iff.mp h
  cases hans
  exact ⟨s, hcall, rfl⟩

instance (smemInfo : SmemInfo) (s : LegacyHeap) (c : LegacyCall) :
    Decidable (c.Clean smemInfo s) := by
  unfold LegacyCall.Clean LegacyCall.Wraps LegacyCall.ReachesEnd
  infer_instance

/-- Several clean allocations, one after the other: the calls with their answers, the last one
first, and the heap. -/
def allocAll (smemInfo : SmemInfo) : List LegacyCall → List (LegacyCall × UInt64) × LegacyHeap →
    Option (List (LegacyCall × UInt64) × LegacyHeap)
  | [], s => some s
  | c :: calls, s =>
    if c.Clean smemInfo s.2 then
      (smemLegacyAlloc smemInfo c.smemType c.bufSize s.2).bind fun r =>
        allocAll smemInfo calls ((c, r.1) :: s.1, r.2)
    else none

theorem allocAll_run {smemInfo : SmemInfo} {s₀ : LegacyHeap} {calls : List LegacyCall}
    {s s' : List (LegacyCall × UInt64) × LegacyHeap}
    (run : Run (fun s e t => LegacyStep smemInfo s e t ∧ e.1.Clean smemInfo s) s₀ s.1 s.2)
    (h : allocAll smemInfo calls s = some s') :
    Run (fun s e t => LegacyStep smemInfo s e t ∧ e.1.Clean smemInfo s) s₀ s'.1 s'.2 := by
  induction calls generalizing s with
  | nil =>
    cases h
    exact run
  | cons c calls ih =>
    unfold allocAll at h
    split at h
    next hclean =>
      obtain ⟨r, hcall, hrest⟩ := bind_eq_some_iff.mp h
      exact ih (s := ((c, r.1) :: s.1, r.2)) (run.step (e := (c, r.1)) ⟨hcall, hclean⟩) hrest
    · cases h

/-- The law after two allocations, one of them again, one of an item that is there with another
size, and one for which there is no room. -/
theorem legacy_heap_law_first : ∃ s : List (LegacyCall × UInt64) × LegacyHeap,
    allocAll legacySmemInfo [⟨9, 100⟩, ⟨12, 5000⟩, ⟨9, 100⟩, ⟨12, 8⟩, ⟨13, 0x200000⟩]
      ([], legacyHeap) =
      some s ∧
    s.1.map Prod.snd = [0, 0, 0x809021C8, 0x80902230, 0x809021C8] ∧
    LegacyLaw legacySmemInfo legacyHeap s.1 s.2 := by
  have hrun : (allocAll legacySmemInfo [⟨9, 100⟩, ⟨12, 5000⟩, ⟨9, 100⟩, ⟨12, 8⟩, ⟨13, 0x200000⟩]
      ([], legacyHeap)).map (fun s => s.1.map Prod.snd) =
        some [0, 0, 0x809021C8, 0x80902230, 0x809021C8] := by
    decide +kernel
  obtain ⟨s, hs, hptrs⟩ := map_eq_some_iff.mp hrun
  refine ⟨s, hs, hptrs, legacy_heap_law legacyHeap_boot rfl ?_ (allocAll_run .start hs)⟩
  intro tbl htbl
  cases htbl

/-- A size just below 2^32 is allocated as zero bytes, and an item that ends where shared memory
ends is not found. -/
theorem legacy_lookup_differs :
    (¬ ∀ (bi : BootInfo) (cfg : Option TocConfigTbl) (tocVersion : UInt32) (m : Memory) (b : Booted)
      (maxItems : UInt16) (h : List (LegacyCall × UInt64)) (s : LegacyHeap),
      smemBootInit bi tocVersion cfg m = some b → bi.isLegacy = true → SizesFit bi cfg →
        Run (LegacyStep (bi.smemInfo maxItems)) b.heap h s →
          LegacyLaw (bi.smemInfo maxItems) b.heap h s) ∧
    allocThenLookup 0xFFFFFFFF = some (0x809021C8, some (0x809021C8, 0)) ∧
    allocThenLookup legacyHeap.heapInfo.heapRemaining = some (0x809021C8, some (0, 0)) := by
  have hwrap : allocThenLookup 0xFFFFFFFF = some (0x809021C8, some (0x809021C8, 0)) := by
    decide +kernel
  refine ⟨fun hall => ?_, hwrap, by decide +kernel⟩
  obtain ⟨s, hstep, -⟩ := step_of_allocThenLookup hwrap
  have hlaw := hall legacyBoot none 1 .zero _ 625 _ s legacyHeap_boot rfl (fun _ h => by cases h)
    (.step .start hstep)
  obtain ⟨size, -, hsize⟩ :=
    hlaw.lookup ⟨9, 0xFFFFFFFF⟩ 0x809021C8 (.head _) (by decide) (by decide)
  have hlt := size.toNat_lt
  have hround : Lib.roundUp (0xFFFFFFFF : UInt32).toNat 8 = 2 ^ 32 := by decide
  have hsize' : size.toNat = Lib.roundUp (0xFFFFFFFF : UInt32).toNat 8 := hsize
  omega

end Smem
