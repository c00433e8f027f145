import BootXf.Smem.Walk

/-!
# Walking a partition that nobody vouches for

The content of a partition is written by other processors; where it lies is not (`KnownPartition`).
`Walks` says what a loop of `smem_part_get_addr_ex` does as long as each header it comes to can be
passed, and how it ends. A header that cannot be passed is looked at again and again: the checks of
`smem_part_process_item` return without going on to the next one (`scan_stuck`).

`getAddrEx_robust_iff`: on any content, the lookup ends, reads nothing outside the partition and
returns a buffer inside it if and only if the walk is one of `Walks`, and what it finds has room for
its size rounded up.
-/

open Lib

namespace Smem

open List

/-- A partition as a host knows it from the table of contents: it has room for its header, and it
lies below 4 GiB and not among the first addresses. -/
structure KnownPartition where
  host : Host
  room : host.info.size = 0 ∨ 32 ≤ host.info.size.toNat
  below : host.info.header.toNat + host.info.size.toNat + 8 ≤ 2 ^ 32
  above : (itemPadding host.info.sizeCacheline).toUInt16.toNat + 16 ≤ host.info.header.toNat

namespace KnownPartition
variable (P : KnownPartition) (m : Memory)

/-- The address of the partition. -/
def base : Nat := P.host.info.header.toNat

/-- Its size. -/
def size : Nat := P.host.info.size.toNat

/-- Its addresses. -/
def span : Span := ⟨P.base, P.size⟩

/-- The padding behind a header of a side. -/
def pad (cached : Bool) : Nat :=
  if cached then (itemPadding P.host.info.sizeCacheline).toUInt16.toNat else 0

/-- The offset that the header of the partition gives for a side. -/
def free (cached : Bool) : Nat :=
  if cached then (m.u32 (P.host.info.header + 16)).toNat
  else (m.u32 (P.host.info.header + 12)).toNat

/-- The first header of a side. -/
def first (cached : Bool) : Nat :=
  if cached then P.base + P.size - P.pad true - 16 else P.base + 32

/-- The loop of a side goes on. -/
def Within (cached : Bool) (a : Nat) : Prop :=
  if cached then P.base + P.free m true ≤ a else a < P.base + P.free m false

instance (cached : Bool) (a : Nat) : Decidable (P.Within m cached a) := by
  unfold Within
  infer_instance

end KnownPartition

/-! ## Headers as they are -/

/-- The size in a header. -/
def sizeAt (m : Memory) (a : Nat) : Nat := (m.u32 (.ofNat a + 4)).toNat

/-- The padding in a header. -/
def paddingAt (m : Memory) (a : Nat) : Nat := (m.u16 (.ofNat a + 8)).toNat

/-- The size that is returned for an item, which is rounded up. -/
def returnedAt (m : Memory) (a : Nat) : Nat := Lib.roundUp (sizeAt m a - paddingAt m a) 8

/-- The item is of the type that is looked for. -/
def IsType (m : Memory) (smemType : UInt32) (a : Nat) : Prop :=
  (m.u16 (.ofNat a + 2)).toUInt32 = smemType

instance (m : Memory) (smemType : UInt32) (a : Nat) : Decidable (IsType m smemType a) :=
  inferInstanceAs (Decidable (_ = _))

/-- A header that the walk can pass, with `rem` bytes of the partition left. -/
structure Passable (m : Memory) (P : KnownPartition) (cached : Bool) (a rem : Nat) : Prop where
  canary : m.u16 (.ofNat a) = allocHdrCanary
  size : sizeAt m a ≤ P.size
  total : sizeAt m a + P.pad cached + 16 ≤ rem

/-- How a loop ends: at an item of the type, or behind the last item. -/
inductive Outcome where
  | found (a : Nat)
  | ended (rem : Nat)

/-- A loop that passes each header up to its end. -/
inductive Walks (m : Memory) (P : KnownPartition) (smemType : UInt32) (cached : Bool) :
    Nat → Nat → Outcome → Prop where
  | ended {a rem : Nat} (hlimit : ¬ P.Within m cached a) :
    Walks m P smemType cached a rem (.ended rem)
  | found {a rem : Nat} (hlimit : P.Within m cached a) (hpass : Passable m P cached a rem)
      (htype : IsType m smemType a) (hpadding : paddingAt m a ≤ sizeAt m a) :
      Walks m P smemType cached a rem (.found a)
  | step {a rem : Nat} {o : Outcome} (hlimit : P.Within m cached a)
      (hpass : Passable m P cached a rem) (htype : ¬ IsType m smemType a)
      (hrest : Walks m P smemType cached (next cached a (sizeAt m a + P.pad cached + 16))
        (rem - (sizeAt m a + P.pad cached + 16)) o) : Walks m P smemType cached a rem o

/-- The walk passes each header of the two sides, up to an item of the type whose rounded size is
inside the partition. On the cached side it always is, since the header is behind it. -/
def Walkable (m : Memory) (P : KnownPartition) (smemType : UInt32) : Prop :=
  (∃ a, Walks m P smemType false (P.first false) (P.size - 32) (.found a) ∧
    a + 16 + returnedAt m a ≤ P.base + P.size) ∨
  ∃ rem o, Walks m P smemType false (P.first false) (P.size - 32) (.ended rem) ∧
    Walks m P smemType true (P.first true) rem o

/-! ## What is read -/

/-- The fields that `smem_part_process_item` reads. -/
def itemReads (m : Memory) (info : PartitionInfo) (params : AllocParams) (cur : Cursor)
    (paddingHeader : UInt16) : List Span :=
  let hdr := cur.itemHdr.toNat
  let sizeItem := m.u32 (cur.itemHdr + 4)
  [⟨hdr, 2⟩, ⟨hdr + 2, 2⟩, ⟨hdr + 4, 4⟩] ++
    if m.u16 cur.itemHdr = allocHdrCanary ∧ sizeItem ≤ info.size ∧
        sizeItem + paddingHeader.toUInt32 + 16 ≤ cur.sizeRemaining ∧
        (m.u16 (cur.itemHdr + 2)).toUInt32 = params.smemType then [⟨hdr + 8, 2⟩] else []

/-- What a loop reads in so many rounds. -/
def scanReads (m : Memory) (info : PartitionInfo) (paddingHeader : UInt16) (limitAddr : UInt32)
    (cached : Bool) : Nat → AllocParams → Cursor → List Span
  | 0, _, _ => []
  | fuel + 1, params, cur =>
    if withinLimit cached cur.itemHdr.toUInt32 limitAddr then
      itemReads m info params cur paddingHeader ++
        match processItem m info params cur paddingHeader cached with
        | (true, _, _) => []
        | (false, params, cur) => scanReads m info paddingHeader limitAddr cached fuel params cur
    else []

section
variable (smemInfo : SmemInfo) (thisHost : UInt32) (fuel : Nat)

/-- What the second half reads. -/
def getAddrCachedReads (m : Memory) (params : AllocParams) (sizeRemaining : UInt32) (host : Host) :
    List Span :=
  let info := (ensureCachedMapping smemInfo host.info.offsetFreeCached host).info
  let paddingHeader := (itemPadding info.sizeCacheline).toUInt16
  let itemHdr := (info.header.toUInt32 + info.size - paddingHeader.toUInt32).toUInt64 - 16
  scanReads m info paddingHeader (info.header.toUInt32 + info.offsetFreeCached) true fuel params
    ⟨itemHdr, sizeRemaining⟩

/-- What the walk reads. -/
def getAddrUncachedReads (m : Memory) (params : AllocParams) (host : Host) : List Span :=
  let host := ensureUncachedMapping smemInfo host.info.offsetFreeUncached host
  let info := host.info
  let limitAddr := info.header.toUInt32 + info.offsetFreeUncached
  let cur : Cursor := ⟨info.header.toUInt32.toUInt64 + 32, info.size - 32⟩
  scanReads m info 0 limitAddr false fuel params cur ++
    match scan m info 0 limitAddr false fuel params cur with
    | some (false, params, cur) =>
      getAddrCachedReads smemInfo fuel m params cur.sizeRemaining host
    | _ => []

/-- The offsets of the partition are read, and refused when they are not in order. -/
def offsetsOk (host : Host) : Bool :=
  !(host.info.offsetFreeUncached > host.info.offsetFreeCached
    || host.info.offsetFreeUncached > host.info.size
    || host.info.offsetFreeCached > host.info.size)

/-- What `smem_part_get_addr_ex` reads of shared memory. -/
def getAddrReads (m : Memory) (params : AllocParams) (host : Host) : List Span :=
  if remoteOutOfRange params || !remoteCommon thisHost params || host.info.size == 0 then []
  else
    [⟨(host.info.header + 16).toNat, 4⟩, ⟨(host.info.header + 12).toNat, 4⟩] ++
      if offsetsOk (host.readOffsets m) then
        getAddrUncachedReads smemInfo fuel m params (host.readOffsets m)
      else []

end

/-! ## One header -/

/-- Where the cursor of a side is, with `rem` bytes of the partition left. -/
def KnownPartition.At (P : KnownPartition) (cached : Bool) (a rem : Nat) : Prop :=
  if cached then rem + P.base + 16 ≤ a + P.pad true ∧ a + P.pad true + 16 ≤ P.base + P.size
  else P.base + 32 ≤ a ∧ a + rem = P.base + P.size

/-- What a side of the walk is given: the partition, the padding and the limit. -/
structure Side (m : Memory) (P : KnownPartition) (info : PartitionInfo) (cached : Bool)
    (paddingHeader : UInt16) (limitAddr : UInt32) : Prop where
  size : info.size.toNat = P.size
  pad : paddingHeader.toNat = P.pad cached
  limit : limitAddr.toNat = P.base + P.free m cached

section
variable {m : Memory} {P : KnownPartition} {info : PartitionInfo} {params : AllocParams}
  {cached : Bool} {paddingHeader : UInt16} {limitAddr rem : UInt32} {a : Nat} {smemType : UInt32}
  {r : Nat} {o : Outcome}

theorem KnownPartition.pad_le (P : KnownPartition) (cached : Bool) :
    P.pad cached + 16 ≤ P.base := by
  have habove := P.above
  unfold KnownPartition.pad KnownPartition.base
  split <;> omega

theorem KnownPartition.bound : P.base + P.size + 8 ≤ 2 ^ 32 := P.below

theorem KnownPartition.At.lt (h : P.At cached a r) : a + 8 ≤ 2 ^ 32 := by
  have hbound := P.bound
  unfold KnownPartition.At at h
  split at h <;> omega

/-- The condition of the loop. -/
theorem Side.within_iff (h : Side m P info cached paddingHeader limitAddr)
    (hat : P.At cached a r) :
    withinLimit cached (UInt64.ofNat a).toUInt32 limitAddr = true ↔ P.Within m cached a := by
  have hlt := hat.lt
  have ha : (UInt64.ofNat a).toUInt32.toNat = a := by
    rw [UInt64.toNat_toUInt32, UInt64.toNat_ofNat']
    omega
  cases cached with
  | false =>
    rw [withinLimit, if_neg Bool.false_ne_true, decide_eq_true_eq, UInt32.lt_iff_toNat_lt, ha,
      h.limit]
    rfl
  | true =>
    rw [withinLimit, if_pos rfl, decide_eq_true_eq, ge_iff_le, UInt32.le_iff_toNat_le, ha, h.limit]
    rfl

/-- The size of an item with its header does not wrap, when the item is no larger than the
partition. -/
theorem Side.total_toNat (h : Side m P info cached paddingHeader limitAddr)
    (hsize : sizeAt m a ≤ P.size) :
    (m.u32 (.ofNat a + 4) + paddingHeader.toUInt32 + 16).toNat = sizeAt m a +
    P.pad cached + 16 := by
  have hpad := P.pad_le cached
  have hbound := P.bound
  have hsum : (m.u32 (.ofNat a + 4) + paddingHeader.toUInt32).toNat =
      sizeAt m a + P.pad cached := by
    rw [UInt32.toNat_add, UInt16.toNat_toUInt32, h.pad]
    exact Nat.mod_eq_of_lt (by show sizeAt m a + _ < _; omega)
  rw [UInt32.toNat_add, hsum]
  exact Nat.mod_eq_of_lt (by show _ + 16 < _; omega)

/-- The three checks of a header. -/
theorem Side.passable_iff (h : Side m P info cached paddingHeader limitAddr) :
    Passable m P cached a rem.toNat ↔ m.u16 (.ofNat a) = allocHdrCanary ∧
      m.u32 (.ofNat a + 4) ≤ info.size ∧
      m.u32 (.ofNat a + 4) + paddingHeader.toUInt32 + 16 ≤ rem := by
  rw [UInt32.le_iff_toNat_le, UInt32.le_iff_toNat_le, h.size]
  constructor
  · rintro ⟨hcanary, hsize, htotal⟩
    exact ⟨hcanary, hsize, by rw [h.total_toNat hsize]; exact htotal⟩
  · rintro ⟨hcanary, hsize, htotal⟩
    exact ⟨hcanary, hsize, by rw [← h.total_toNat hsize]; exact htotal⟩

/-- **A header that cannot be passed**: the cursor stays. -/
theorem Side.processItem_stay (h : Side m P info cached paddingHeader limitAddr)
    (hnot : ¬ Passable m P cached a rem.toNat) :
    processItem m info params ⟨.ofNat a, rem⟩ paddingHeader cached =
      (false, params, ⟨.ofNat a, rem⟩) := by
  rw [h.passable_iff] at hnot
  unfold processItem
  dsimp only
  split
  · rfl
  · next hcanary =>
    split
    · rfl
    · next hsize =>
      split
      · rfl
      · next htotal =>
        refine absurd ⟨?_, UInt32.not_lt.mp hsize, UInt32.not_lt.mp htotal⟩ hnot
        simpa using hcanary

/-- A header that passes the checks. -/
theorem Side.processItem_pass (h : Side m P info cached paddingHeader limitAddr)
    (hpass : Passable m P cached a rem.toNat) :
    processItem m info params ⟨.ofNat a, rem⟩ paddingHeader cached =
      if IsType m params.smemType a then
        if (m.u16 (.ofNat a + 8)).toUInt32 > m.u32 (.ofNat a + 4) then
          (false, params.point (.ofNat a) (m.u32 (.ofNat a + 4)) cached,
            ⟨.ofNat a, rem - (m.u32 (.ofNat a + 4) + paddingHeader.toUInt32 + 16)⟩)
        else
          (true, { params.point (.ofNat a) (m.u32 (.ofNat a + 4)) cached with
              size := roundUp (m.u32 (.ofNat a + 4) - (m.u16 (.ofNat a + 8)).toUInt32) 8 },
            (Cursor.mk (.ofNat a) rem).advance
              (m.u32 (.ofNat a + 4) + paddingHeader.toUInt32 + 16) cached)
      else
        (false, params, (Cursor.mk (.ofNat a) rem).advance
          (m.u32 (.ofNat a + 4) + paddingHeader.toUInt32 + 16) cached) := by
  obtain ⟨hcanary, hsize, htotal⟩ := h.passable_iff.mp hpass
  unfold processItem
  dsimp only
  rw [hcanary, bne_self_eq_false, if_neg Bool.false_ne_true, if_neg (UInt32.not_lt.mpr hsize),
    if_neg (UInt32.not_lt.mpr htotal)]
  simp only [beq_iff_eq]
  rfl

/-- The next header. -/
theorem Side.advance_eq (h : Side m P info cached paddingHeader limitAddr)
    (hat : P.At cached a rem.toNat) (hpass : Passable m P cached a rem.toNat) :
    ∃ rem', rem'.toNat = rem.toNat - (sizeAt m a + P.pad cached + 16) ∧
      (Cursor.mk (.ofNat a) rem).advance
        (m.u32 (.ofNat a + 4) + paddingHeader.toUInt32 + 16) cached =
        ⟨.ofNat (next cached a (sizeAt m a + P.pad cached + 16)), rem'⟩ ∧
      P.At cached (next cached a (sizeAt m a + P.pad cached + 16)) rem'.toNat := by
  have htotal := h.total_toNat hpass.size
  have hle := hpass.total
  have h64 : (m.u32 (.ofNat a + 4) + paddingHeader.toUInt32 + 16).toUInt64 =
      .ofNat (sizeAt m a + P.pad cached + 16) := by
    rw [← htotal, ← UInt32.toNat_toUInt64, UInt64.ofNat_toNat]
  have hrem : (rem - (m.u32 (.ofNat a + 4) + paddingHeader.toUInt32 + 16)).toNat =
      rem.toNat - (sizeAt m a + P.pad cached + 16) := by
    rw [UInt32.toNat_sub_of_le _ _ (UInt32.le_iff_toNat_le.mpr (by rw [htotal]; exact hle)), htotal]
  refine ⟨_, hrem, ?_, ?_⟩
  · cases cached with
    | false => simp [Cursor.advance, next, h64, UInt64.ofNat_add]
    | true =>
      have hpad := P.pad_le true
      have hle' : sizeAt m a + P.pad true + 16 ≤ a := by
        unfold KnownPartition.At at hat
        rw [if_pos rfl] at hat
        omega
      simp only [Cursor.advance, next, h64, if_true, UInt64.ofNat_sub hle']
  · rw [hrem]
    unfold KnownPartition.At next at *
    cases cached with
    | false =>
      rw [if_neg Bool.false_ne_true] at hat ⊢
      rw [if_neg Bool.false_ne_true]
      omega
    | true =>
      rw [if_pos rfl] at hat ⊢
      rw [if_pos rfl]
      omega

/-! ## One side -/

/-- `*params` at an item that has been found. -/
def AllocParams.foundAt (params : AllocParams) (m : Memory) (cached : Bool)
    (a : Nat) : AllocParams :=
  { params.point (.ofNat a) (m.u32 (.ofNat a + 4)) cached with
    size := roundUp (m.u32 (.ofNat a + 4) - (m.u16 (.ofNat a + 8)).toUInt32) 8 }

/-- A loop that has ended has ended with any larger budget too. -/
theorem scan_mono {fuel k : Nat} {cur : Cursor} {r : Bool × AllocParams × Cursor}
    (h : scan m info paddingHeader limitAddr cached fuel params cur = some r) :
    scan m info paddingHeader limitAddr cached (fuel + k) params cur = some r := by
  induction fuel generalizing params cur with
  | zero => cases h
  | succ fuel ih =>
    rw [Nat.succ_add]
    rw [scan] at h ⊢
    split at h
    · next hwithin =>
      rw [if_pos hwithin]
      split at h
      · exact h
      · exact ih h
    · next hwithin =>
      rw [if_neg hwithin]
      exact h

/-- **A header that cannot be passed is never left.** The size that remains may shrink, which makes
no header passable. -/
theorem Side.scan_stuck (h : Side m P info cached paddingHeader limitAddr)
    (hwithin : withinLimit cached (UInt64.ofNat a).toUInt32 limitAddr = true)
    (hbad : ¬ (Passable m P cached a rem.toNat ∧
      (IsType m params.smemType a → paddingAt m a ≤ sizeAt m a))) (fuel : Nat) :
    scan m info paddingHeader limitAddr cached fuel params ⟨.ofNat a, rem⟩ = none := by
  induction fuel generalizing params rem with
  | zero => rfl
  | succ fuel ih =>
    rw [scan, if_pos hwithin]
    rcases Classical.em (Passable m P cached a rem.toNat) with hpass | hnot
    · have htype : IsType m params.smemType a ∧ ¬ paddingAt m a ≤ sizeAt m a := by
        refine Classical.byContradiction fun hall => hbad ⟨hpass, fun htype => ?_⟩
        exact Classical.byContradiction fun hpad => hall ⟨htype, hpad⟩
      have hpad : (m.u16 (.ofNat a + 8)).toUInt32 > m.u32 (.ofNat a + 4) := by
        rw [gt_iff_lt, UInt32.lt_iff_toNat_lt, UInt16.toNat_toUInt32]
        exact Nat.not_le.mp htype.2
      rw [h.processItem_pass hpass, if_pos htype.1, if_pos hpad]
      refine ih fun hgood => htype.2 (hgood.2 ?_)
      have hsame : (params.point (.ofNat a) (m.u32 (.ofNat a + 4)) cached).smemType =
          params.smemType := by
        cases cached <;> rfl
      rw [hsame]
      exact htype.1
    · rw [h.processItem_stay hnot]
      exact ih hbad

/-- **A walk that passes its headers.** The loop ends as it says, within some budget. -/
theorem Walks.scan (w : Walks m P params.smemType cached a r o)
    (h : Side m P info cached paddingHeader limitAddr) (hat : P.At cached a r)
    (hrem : rem.toNat = r) :
    ∃ n cur, Smem.scan m info paddingHeader limitAddr cached n params ⟨.ofNat a, rem⟩ =
      match o with
      | .found b => some (true, params.foundAt m cached b, cur)
      | .ended s => some (false, params, ⟨cur.itemHdr, .ofNat s⟩) := by
  induction w generalizing rem with
  | @ended a r hlimit =>
    refine ⟨1, ⟨.ofNat a, rem⟩, ?_⟩
    rw [Smem.scan, if_neg fun hwithin => hlimit ((h.within_iff hat).mp hwithin)]
    dsimp only
    rw [← hrem, UInt32.ofNat_toNat]
  | @found a r hlimit hpass htype hpadding =>
    subst hrem
    refine ⟨1, (Cursor.mk (.ofNat a) rem).advance
      (m.u32 (.ofNat a + 4) + paddingHeader.toUInt32 + 16) cached, ?_⟩
    have hpad : ¬ (m.u16 (.ofNat a + 8)).toUInt32 > m.u32 (.ofNat a + 4) := by
      rw [gt_iff_lt, UInt32.lt_iff_toNat_lt, UInt16.toNat_toUInt32]
      exact Nat.not_lt.mpr hpadding
    rw [Smem.scan, if_pos ((h.within_iff hat).mpr hlimit), h.processItem_pass hpass, if_pos htype,
      if_neg hpad]
    rfl
  | @step a r o hlimit hpass htype hrest ih =>
    subst hrem
    obtain ⟨rem', hrem', hadvance, hat'⟩ := h.advance_eq hat hpass
    rw [← hrem'] at ih
    obtain ⟨n, cur, hscan⟩ := ih hat' rfl
    refine ⟨n + 1, cur, ?_⟩
    rw [Smem.scan, if_pos ((h.within_iff hat).mpr hlimit), h.processItem_pass hpass, if_neg htype,
      hadvance]
    exact hscan

/-- **A loop that ends has passed its headers.** -/
theorem Side.walks_of_scan (h : Side m P info cached paddingHeader limitAddr)
    (hat : P.At cached a rem.toNat) {fuel : Nat} {x : Bool × AllocParams × Cursor}
    (hscan : scan m info paddingHeader limitAddr cached fuel params ⟨.ofNat a, rem⟩ = some x) :
    ∃ o, Walks m P params.smemType cached a rem.toNat o := by
  induction fuel generalizing a rem with
  | zero => cases hscan
  | succ fuel ih =>
    rcases Decidable.em (P.Within m cached a) with hlimit | hlimit
    · rcases Classical.em (Passable m P cached a rem.toNat ∧
        (IsType m params.smemType a → paddingAt m a ≤ sizeAt m a)) with hgood | hbad
      · rcases Decidable.em (IsType m params.smemType a) with htype | htype
        · exact ⟨_, .found hlimit hgood.1 htype (hgood.2 htype)⟩
        · obtain ⟨rem', hrem', hadvance, hat'⟩ := h.advance_eq hat hgood.1
          rw [scan, if_pos ((h.within_iff hat).mpr hlimit), h.processItem_pass hgood.1,
            if_neg htype, hadvance] at hscan
          obtain ⟨o, w⟩ := ih hat' hscan
          exact ⟨o, .step hlimit hgood.1 htype (hrem' ▸ w)⟩
      · rw [h.scan_stuck ((h.within_iff hat).mpr hlimit) hbad] at hscan
        cases hscan
    · exact ⟨_, .ended hlimit⟩

/-- What is left at the end of a loop is not more than there was before. -/
theorem Walks.rem_le {r s : Nat} (w : Walks m P smemType cached a r o)
    (ho : o = .ended s) : s ≤ r := by
  induction w with
  | ended => exact Nat.le_of_eq (Outcome.ended.inj ho).symm
  | found => cases ho
  | step hlimit hpass htype hrest ih => exact Nat.le_trans (ih ho) (Nat.sub_le ..)

/-- Where the item is that a walk has found. -/
theorem Walks.at_found {r b : Nat} (w : Walks m P smemType cached a r o)
    (hat : P.At cached a r) (ho : o = .found b) :
    ∃ r', P.At cached b r' ∧ Passable m P cached b r' ∧ paddingAt m b ≤ sizeAt m b := by
  induction w with
  | ended => cases ho
  | found hlimit hpass htype hpadding =>
    cases Outcome.found.inj ho
    exact ⟨_, hat, hpass, hpadding⟩
  | @step a r o hlimit hpass htype hrest ih =>
    refine ih ?_ ho
    have htotal := hpass.total
    unfold KnownPartition.At next at *
    cases cached with
    | false =>
      rw [if_neg Bool.false_ne_true] at hat ⊢
      rw [if_neg Bool.false_ne_true]
      omega
    | true =>
      rw [if_pos rfl] at hat ⊢
      rw [if_pos rfl]
      omega

/-- Where the buffer lies that is returned for an item: on the cached side it is in front of its
header, and inside the partition. -/
theorem foundAt_within_iff (hat : P.At cached a r) (hpass : Passable m P cached a r)
    (hpadding : paddingAt m a ≤ sizeAt m a) :
    (Span.mk (params.foundAt m cached a).buffer.toNat (params.foundAt m cached a).size.toNat).Within
        P.span ↔ (cached = false → a + 16 + returnedAt m a ≤ P.base + P.size) := by
  have hbound := P.bound
  have hbase := P.pad_le cached
  have hlt := hat.lt
  have htotal := hpass.total
  have hsize := hpass.size
  have hsub : (m.u32 (.ofNat a + 4) - (m.u16 (.ofNat a + 8)).toUInt32).toNat =
      sizeAt m a - paddingAt m a := by
    rw [UInt32.toNat_sub_of_le, UInt16.toNat_toUInt32]
    · rfl
    · rw [UInt32.le_iff_toNat_le, UInt16.toNat_toUInt32]
      exact hpadding
  have hround := roundUp_lt (n := sizeAt m a - paddingAt m a) (k := 8) (by decide)
  have hreturned : (params.foundAt m cached a).size.toNat = returnedAt m a := by
    unfold AllocParams.foundAt
    dsimp only
    rw [roundUp8_toNat (by rw [hsub]; omega), hsub, UInt32.toNat_ofNat']
    exact Nat.mod_eq_of_lt (by omega)
  rw [hreturned]
  unfold returnedAt KnownPartition.span Span.Within AllocParams.foundAt AllocParams.point
  unfold KnownPartition.At at hat
  cases cached with
  | false =>
    rw [if_neg Bool.false_ne_true] at hat ⊢
    have hbuffer : (UInt64.ofNat a + 16).toNat = a + 16 := by
      rw [UInt64.toNat_add, UInt64.toNat_ofNat']
      show (a % 2 ^ 64 + 16) % 2 ^ 64 = _
      omega
    dsimp only
    rw [hbuffer]
    simp only [true_imp_iff]
    omega
  | true =>
    rw [if_pos rfl] at hat ⊢
    have hle : sizeAt m a ≤ a := by omega
    have hbuffer : (UInt64.ofNat a - (m.u32 (.ofNat a + 4)).toUInt64).toNat = a - sizeAt m a := by
      rw [UInt64.toNat_sub_of_le, UInt32.toNat_toUInt64, UInt64.toNat_ofNat']
      · show a % 2 ^ 64 - sizeAt m a = _
        omega
      · rw [UInt64.le_iff_toNat_le, UInt32.toNat_toUInt64, UInt64.toNat_ofNat']
        show sizeAt m a ≤ a % 2 ^ 64
        omega
    dsimp only
    rw [hbuffer]
    simp only [reduceCtorEq, false_imp_iff, iff_true]
    omega

/-- A walk that passes its headers reads nothing outside the partition. -/
theorem Walks.reads (w : Walks m P params.smemType cached a r o)
    (h : Side m P info cached paddingHeader limitAddr) (hat : P.At cached a r)
    (hrem : rem.toNat = r) (fuel : Nat) :
    ∀ s ∈ scanReads m info paddingHeader limitAddr cached fuel params ⟨.ofNat a, rem⟩,
      s.Within P.span := by
  -- the fields of a header that can be passed
  have hitem : ∀ {a : Nat} {rem : UInt32}, P.Within m cached a → P.At cached a rem.toNat →
      Passable m P cached a rem.toNat →
      ∀ s ∈ itemReads m info params ⟨.ofNat a, rem⟩ paddingHeader, s.Within P.span := by
    intro a rem hlimit hat hpass s hs
    have hlt := hat.lt
    have hbase := P.pad_le true
    have htotal := hpass.total
    have haddr : (UInt64.ofNat a).toNat = a := by
      rw [UInt64.toNat_ofNat']
      omega
    have hinside : P.base ≤ a ∧ a + 10 ≤ P.base + P.size := by
      unfold KnownPartition.At at hat
      unfold KnownPartition.Within at hlimit
      cases cached with
      | false =>
        rw [if_neg Bool.false_ne_true] at hat
        omega
      | true =>
        rw [if_pos rfl] at hat hlimit
        omega
    unfold itemReads at hs
    dsimp only at hs
    rw [haddr] at hs
    have hfield : ∃ k n, s = ⟨a + k, n⟩ ∧ k + n ≤ 10 := by
      rcases mem_append.mp hs with hs | hs
      · simp only [mem_cons, not_mem_nil, or_false] at hs
        rcases hs with rfl | rfl | rfl
        · exact ⟨0, 2, rfl, by decide⟩
        · exact ⟨2, 2, rfl, by decide⟩
        · exact ⟨4, 4, rfl, by decide⟩
      · split at hs
        · obtain rfl := mem_singleton.mp hs
          exact ⟨8, 2, rfl, by decide⟩
        · cases hs
    obtain ⟨k, n, rfl, hle⟩ := hfield
    unfold KnownPartition.span Span.Within
    dsimp only
    omega
  induction w generalizing rem fuel with
  | ended hlimit =>
    cases fuel with
    | zero => nofun
    | succ fuel =>
      rw [scanReads, if_neg fun hwithin => hlimit ((h.within_iff hat).mp hwithin)]
      nofun
  | @found a r hlimit hpass htype hpadding =>
    subst hrem
    cases fuel with
    | zero => nofun
    | succ fuel =>
      have hpad : ¬ (m.u16 (.ofNat a + 8)).toUInt32 > m.u32 (.ofNat a + 4) := by
        rw [gt_iff_lt, UInt32.lt_iff_toNat_lt, UInt16.toNat_toUInt32]
        exact Nat.not_lt.mpr hpadding
      rw [scanReads, if_pos ((h.within_iff hat).mpr hlimit), h.processItem_pass hpass, if_pos htype,
        if_neg hpad]
      dsimp only
      rw [append_nil]
      exact hitem hlimit hat hpass
  | step hlimit hpass htype hrest ih =>
    subst hrem
    obtain ⟨rem', hrem', hadvance, hat'⟩ := h.advance_eq hat hpass
    cases fuel with
    | zero => nofun
    | succ fuel =>
      rw [scanReads, if_pos ((h.within_iff hat).mpr hlimit), h.processItem_pass hpass,
        if_neg htype, hadvance]
      intro s hs
      rcases mem_append.mp hs with hs | hs
      · exact hitem hlimit hat hpass s hs
      · exact ih (hrem' ▸ hat') hrem' fuel s hs

end

/-! ## The lookup -/

/-- The lookup comes to walk: its arguments are in range, there is a partition, and its offsets are
in order. -/
def Searches (P : KnownPartition) (m : Memory) (thisHost : UInt32) (params : AllocParams) : Prop :=
  remoteOutOfRange params = false ∧ remoteCommon thisHost params = true ∧ P.host.info.size ≠ 0 ∧
    offsetsOk (P.host.readOffsets m) = true

/-- What is asked of a lookup: it ends, all that it reads is in the partition, and so is a buffer
that it returns, with its size. -/
structure Robust (smemInfo : SmemInfo) (thisHost : UInt32) (P : KnownPartition) (m : Memory)
    (params : AllocParams) : Prop where
  ends : ∃ fuel, (getAddrEx smemInfo thisHost fuel m params P.host).isSome
  reads : ∀ fuel, ∀ s ∈ getAddrReads smemInfo thisHost fuel m params P.host, s.Within P.span
  buffer : ∀ fuel answer host, getAddrEx smemInfo thisHost fuel m params P.host =
    some (answer, host) →
    answer.status = .success →
    (Span.mk answer.params.buffer.toNat answer.params.size.toNat).Within P.span

instance (P : KnownPartition) (m : Memory) (thisHost : UInt32) (params : AllocParams) :
    Decidable (Searches P m thisHost params) := by
  unfold Searches
  infer_instance

section
variable {smemInfo : SmemInfo} {thisHost : UInt32} {P : KnownPartition} {m : Memory}
  {params : AllocParams} {host : Host}

/-- What a host knows of the partition in the walk: how far it is mapped is of no account. -/
structure Current (P : KnownPartition) (m : Memory) (info : PartitionInfo) : Prop where
  header : info.header = P.host.info.header
  size : info.size = P.host.info.size
  sizeCacheline : info.sizeCacheline = P.host.info.sizeCacheline
  uncached : info.offsetFreeUncached = m.u32 (P.host.info.header + 12)
  cached : info.offsetFreeCached = m.u32 (P.host.info.header + 16)

theorem Current.ensureUncached (h : Current P m host.info) (smemInfo : SmemInfo)
    (newOffset : UInt32) :
    Current P m (ensureUncachedMapping smemInfo newOffset host).info := by
  obtain ⟨mapped, hinfo⟩ := ensureUncachedMapping_info smemInfo newOffset host
  rw [hinfo]
  exact ⟨h.header, h.size, h.sizeCacheline, h.uncached, h.cached⟩

theorem Current.ensureCached (h : Current P m host.info) (smemInfo : SmemInfo)
    (newOffset : UInt32) :
    Current P m (ensureCachedMapping smemInfo newOffset host).info := by
  obtain ⟨mapped, hinfo⟩ := ensureCachedMapping_info smemInfo newOffset host
  rw [hinfo]
  exact ⟨h.header, h.size, h.sizeCacheline, h.uncached, h.cached⟩

/-- The offsets lie inside the partition. -/
theorem free_le (h : offsetsOk (P.host.readOffsets m) = true) (cached : Bool) :
    P.free m cached ≤ P.size := by
  unfold offsetsOk at h
  simp only [Bool.not_eq_true', Bool.or_eq_false_iff, decide_eq_false_iff_not, gt_iff_lt,
    UInt32.lt_iff_toNat_lt, Nat.not_lt] at h
  unfold KnownPartition.free
  split
  · exact h.2
  · exact h.1.2

section
variable {info : PartitionInfo}

theorem Current.header_toNat (h : Current P m info) : info.header.toUInt32.toNat = P.base := by
  have hbound := P.bound
  rw [h.header, UInt64.toNat_toUInt32]
  exact Nat.mod_eq_of_lt (by show P.base < _; omega)

theorem Current.sideUncached (h : Current P m info) (hfree : P.free m false ≤ P.size) :
    Side m P info false 0 (info.header.toUInt32 + info.offsetFreeUncached) where
  size := congrArg _ h.size
  pad := rfl
  limit := by
    have hbound := P.bound
    rw [UInt32.toNat_add, h.header_toNat, h.uncached]
    exact Nat.mod_eq_of_lt (by show _ + P.free m false < _; omega)

theorem Current.sideCached (h : Current P m info) (hfree : P.free m true ≤ P.size) :
    Side m P info true (itemPadding info.sizeCacheline).toUInt16
      (info.header.toUInt32 + info.offsetFreeCached) where
  size := congrArg _ h.size
  pad := by
    rw [h.sizeCacheline]
    rfl
  limit := by
    have hbound := P.bound
    rw [UInt32.toNat_add, h.header_toNat, h.cached]
    exact Nat.mod_eq_of_lt (by show _ + P.free m true < _; omega)

/-- The first header of the uncached side. -/
theorem Current.first_uncached (h : Current P m info) :
    info.header.toUInt32.toUInt64 + 32 = .ofNat (P.first false) := by
  have hbase : info.header.toUInt32.toUInt64 = .ofNat P.base := by
    rw [← h.header_toNat, ← UInt32.toNat_toUInt64, UInt64.ofNat_toNat]
  rw [hbase]
  exact (UInt64.ofNat_add ..).symm

/-- The first header of the cached side. -/
theorem Current.first_cached (h : Current P m info) :
    (info.header.toUInt32 +
      info.size - (itemPadding info.sizeCacheline).toUInt16.toUInt32).toUInt64 -
      16 = .ofNat (P.first true) := by
  have hbound := P.bound
  have hpad := P.pad_le true
  have hpadding : (itemPadding info.sizeCacheline).toUInt16.toUInt32.toNat = P.pad true := by
    rw [UInt16.toNat_toUInt32, h.sizeCacheline]
    rfl
  have hsum : (info.header.toUInt32 + info.size).toNat = P.base + P.size := by
    rw [UInt32.toNat_add, h.header_toNat, h.size]
    exact Nat.mod_eq_of_lt (by show _ + P.size < _; omega)
  have hsub : (info.header.toUInt32 + info.size -
      (itemPadding info.sizeCacheline).toUInt16.toUInt32).toNat = P.base + P.size - P.pad true := by
    rw [UInt32.toNat_sub_of_le, hsum, hpadding]
    rw [UInt32.le_iff_toNat_le, hsum, hpadding]
    omega
  apply UInt64.toNat_inj.mp
  rw [UInt64.toNat_sub_of_le, UInt32.toNat_toUInt64, hsub, UInt64.toNat_ofNat']
  · show _ = (P.base + P.size - P.pad true - 16) % 2 ^ 64
    have hlt : P.base + P.size - P.pad true - 16 < 2 ^ 64 := by omega
    rw [Nat.mod_eq_of_lt hlt]
    rfl
  · rw [UInt64.le_iff_toNat_le, UInt32.toNat_toUInt64, hsub]
    show 16 ≤ _
    omega

theorem KnownPartition.at_first_uncached (hroom : 32 ≤ P.size) :
    P.At false (P.first false) (P.size - 32) := by
  unfold KnownPartition.At KnownPartition.first
  rw [if_neg Bool.false_ne_true, if_neg Bool.false_ne_true]
  omega

theorem KnownPartition.at_first_cached {r : Nat} (hr : r ≤ P.size - 32) (hroom : 32 ≤ P.size) :
    P.At true (P.first true) r := by
  have hpad := P.pad_le true
  unfold KnownPartition.At KnownPartition.first
  rw [if_pos rfl, if_pos rfl]
  omega

end

/-- The lookup walks. -/
theorem Searches.getAddrEx_eq (h : Searches P m thisHost params) (fuel : Nat) :
    getAddrEx smemInfo thisHost fuel m params P.host =
      getAddrUncached smemInfo fuel m params (P.host.readOffsets m) := by
  obtain ⟨hrange, hcommon, hsize, hok⟩ := h
  have hzero : (P.host.info.size == 0) = false := beq_eq_false_iff_ne.mpr hsize
  unfold offsetsOk at hok
  rw [Bool.not_eq_true'] at hok
  unfold getAddrEx
  rw [hrange, hcommon, hzero]
  dsimp only
  rw [if_neg Bool.false_ne_true, if_neg (by decide), if_neg Bool.false_ne_true, hok,
    if_neg Bool.false_ne_true]

theorem Searches.getAddrReads_eq (h : Searches P m thisHost params) (fuel : Nat) :
    getAddrReads smemInfo thisHost fuel m params P.host =
      [⟨(P.host.info.header + 16).toNat, 4⟩, ⟨(P.host.info.header + 12).toNat, 4⟩] ++
        getAddrUncachedReads smemInfo fuel m params (P.host.readOffsets m) := by
  obtain ⟨hrange, hcommon, hsize, hok⟩ := h
  have hzero : (P.host.info.size == 0) = false := beq_eq_false_iff_ne.mpr hsize
  unfold getAddrReads
  rw [hrange, hcommon, hzero, hok]
  rfl

theorem Searches.room (h : Searches P m thisHost params) : 32 ≤ P.size := by
  rcases P.room with hzero | hroom
  · exact absurd hzero h.2.2.1
  · exact hroom

/-- The two loops of the lookup. -/
structure Loops (smemInfo : SmemInfo) (thisHost : UInt32) (P : KnownPartition) (m : Memory)
    (params : AllocParams) (u k : Host) (limit₁ limit₂ : UInt32) (pad : UInt16) (rem : UInt32) :
    Prop where
  uncached : Side m P u.info false 0 limit₁
  cached : Side m P k.info true pad limit₂
  left : rem.toNat = P.size - 32
  getAddr : ∀ fuel, getAddrEx smemInfo thisHost fuel m params P.host =
    match scan m u.info 0 limit₁ false fuel params ⟨.ofNat (P.first false), rem⟩ with
    | none => none
    | some (true, params, _) => some (⟨.success, params⟩, u)
    | some (false, params, cur) =>
      match scan m k.info pad limit₂ true fuel params
        ⟨.ofNat (P.first true), cur.sizeRemaining⟩ with
      | none => none
      | some (true, params, _) => some (⟨.success, params⟩, k)
      | some (false, params, _) => some (⟨.notFound, params⟩, k)
  reads : ∀ fuel, getAddrReads smemInfo thisHost fuel m params P.host =
    [⟨(P.host.info.header + 16).toNat, 4⟩, ⟨(P.host.info.header + 12).toNat, 4⟩] ++
      (scanReads m u.info 0 limit₁ false fuel params ⟨.ofNat (P.first false), rem⟩ ++
        match scan m u.info 0 limit₁ false fuel params ⟨.ofNat (P.first false), rem⟩ with
        | some (false, params, cur) =>
          scanReads m k.info pad limit₂ true fuel params ⟨.ofNat (P.first true), cur.sizeRemaining⟩
        | _ => [])

theorem Searches.loops (h : Searches P m thisHost params) (smemInfo : SmemInfo) :
    ∃ u k limit₁ limit₂ pad rem,
      Loops smemInfo thisHost P m params u k limit₁ limit₂ pad rem := by
  have hread : Current P m (P.host.readOffsets m).info := ⟨rfl, rfl, rfl, rfl, rfl⟩
  have hu := hread.ensureUncached smemInfo (P.host.readOffsets m).info.offsetFreeUncached
  generalize hu' : ensureUncachedMapping smemInfo (P.host.readOffsets m).info.offsetFreeUncached
    (P.host.readOffsets m) = u at hu
  have hk := hu.ensureCached smemInfo u.info.offsetFreeCached
  generalize hk' : ensureCachedMapping smemInfo u.info.offsetFreeCached u = k at hk
  have hrem : (u.info.size - 32).toNat = P.size - 32 := by
    rw [hu.size]
    exact UInt32.toNat_sub_of_le _ _ (UInt32.le_iff_toNat_le.mpr h.room)
  have hok := free_le h.2.2.2
  refine ⟨u, k, _, _, _, _, hu.sideUncached (hok false), hk.sideCached (hok true), hrem,
    fun fuel => ?_, fun fuel => ?_⟩
  · rw [h.getAddrEx_eq]
    unfold getAddrUncached
    dsimp only
    rw [hu', hu.first_uncached]
    unfold getAddrCached
    dsimp only
    rw [hk', hk.first_cached] <;> rfl
  · rw [h.getAddrReads_eq]
    unfold getAddrUncachedReads
    dsimp only
    rw [hu', hu.first_uncached]
    unfold getAddrCachedReads
    dsimp only
    rw [hk', hk.first_cached]

/-- The offsets are read from the header of the partition. -/
theorem offsets_within (hroom : 32 ≤ P.size) :
    ∀ s ∈ [(⟨(P.host.info.header + 16).toNat, 4⟩ : Span), ⟨(P.host.info.header + 12).toNat, 4⟩],
      s.Within P.span := by
  have hbound := P.bound
  have hfield : ∀ k : UInt64, k.toNat ≤ 16 →
      (P.host.info.header + k).toNat = P.base + k.toNat := by
    intro k hk
    rw [UInt64.toNat_add]
    exact Nat.mod_eq_of_lt (by show P.base + _ < _; omega)
  intro s hs
  simp only [mem_cons, not_mem_nil, or_false] at hs
  unfold KnownPartition.span Span.Within
  rcases hs with rfl | rfl
  · rw [hfield 16 (by decide)]
    show P.base ≤ P.base + 16 ∧ P.base + 16 + 4 ≤ P.base + P.size
    omega
  · rw [hfield 12 (by decide)]
    show P.base ≤ P.base + 12 ∧ P.base + 12 + 4 ≤ P.base + P.size
    omega

/-- A lookup that does not come to walk ends, and has read at most the offsets. -/
theorem robust_of_not_searches (h : ¬ Searches P m thisHost params) :
    Robust smemInfo thisHost P m params := by
  have hanswer : ∀ fuel, ∃ answer host,
      getAddrEx smemInfo thisHost fuel m params P.host = some (answer, host) ∧
        answer.status ≠ .success := by
    intro fuel
    unfold getAddrEx
    split
    · exact ⟨_, _, rfl, nofun⟩
    · next hrange =>
      split
      · exact ⟨_, _, rfl, nofun⟩
      · next hcommon =>
        split
        · exact ⟨_, _, rfl, nofun⟩
        · next hsize =>
          dsimp only
          split
          · exact ⟨_, _, rfl, nofun⟩
          · next hok =>
            refine absurd ⟨?_, ?_, ?_, ?_⟩ h
            · exact Bool.eq_false_iff.mpr hrange
            · simpa using hcommon
            · simpa using hsize
            · unfold offsetsOk
              rw [Bool.eq_false_iff.mpr hok]
              rfl
  refine ⟨?_, fun fuel => ?_, fun fuel answer host heq hsuccess => ?_⟩
  · obtain ⟨answer, host, heq, -⟩ := hanswer 0
    exact ⟨0, by rw [heq]; rfl⟩
  · unfold getAddrReads
    split
    · nofun
    · next hearly =>
      simp only [Bool.or_eq_true, not_or, Bool.not_eq_true', Bool.not_eq_true] at hearly
      obtain ⟨⟨hrange, hcommon⟩, hsize⟩ := hearly
      have hsize : P.host.info.size ≠ 0 := beq_eq_false_iff_ne.mp hsize
      have hroom : 32 ≤ P.size := P.room.resolve_left hsize
      rw [if_neg, append_nil]
      · exact offsets_within hroom
      · intro hok
        exact h ⟨hrange, by simpa using hcommon, hsize, hok⟩
  · obtain ⟨answer', host', heq', hne⟩ := hanswer fuel
    rw [heq] at heq'
    cases heq'
    exact absurd hsuccess hne

/-- Two runs of a loop that end, end alike. -/
theorem scan_unique {info : PartitionInfo} {paddingHeader : UInt16} {limitAddr : UInt32}
    {cached : Bool} {n n' : Nat} {cur : Cursor} {x x' : Bool × AllocParams × Cursor}
    (h : scan m info paddingHeader limitAddr cached n params cur = some x)
    (h' : scan m info paddingHeader limitAddr cached n' params cur = some x') : x = x' := by
  have hmono := scan_mono (k := n') h
  have hmono' := scan_mono (k := n) h'
  rw [Nat.add_comm] at hmono'
  exact Option.some.inj (hmono.symm.trans hmono')

/-- **Untrusted content.** The lookup ends, reads only in the partition and returns only what lies
in it exactly when the walk it comes to make passes each header up to what it finds. -/
theorem getAddrEx_robust_iff (smemInfo : SmemInfo) (thisHost : UInt32) (P : KnownPartition)
    (m : Memory) (params : AllocParams) :
    Robust smemInfo thisHost P m params ↔
      (Searches P m thisHost params → Walkable m P params.smemType) := by
  rcases Classical.em (Searches P m thisHost params) with h | h
  · obtain ⟨u, k, limit₁, limit₂, pad, rem, hloops⟩ := h.loops smemInfo
    have hat₁ : P.At false (P.first false) rem.toNat :=
      hloops.left ▸ KnownPartition.at_first_uncached h.room
    have hat₂ : ∀ {r}, r ≤ rem.toNat → P.At true (P.first true) r := fun hr =>
      KnownPartition.at_first_cached (hloops.left ▸ hr) h.room
    have hof : ∀ {r}, r ≤ rem.toNat → (UInt32.ofNat r).toNat = r := fun hr => by
      have hlt := rem.toNat_lt
      rw [UInt32.toNat_ofNat']
      exact Nat.mod_eq_of_lt (by omega)
    refine ⟨fun robust _ => ?_, fun walkable => ?_⟩
    · obtain ⟨fuel, hends⟩ := robust.ends
      have hget := hloops.getAddr fuel
      rcases hscan : scan m u.info 0 limit₁ false fuel params ⟨.ofNat (P.first false), rem⟩ with
        _ | x
      · rw [hscan] at hget
        rw [hget] at hends
        cases hends
      · obtain ⟨o, w⟩ := hloops.uncached.walks_of_scan hat₁ hscan
        obtain ⟨n, cur, hwalk⟩ := w.scan hloops.uncached hat₁ rfl
        cases o with
        | found b =>
          obtain ⟨r', hb, hpass, hpadding⟩ := w.at_found hat₁ rfl
          cases scan_unique hscan hwalk
          rw [hscan] at hget
          have hbuffer := robust.buffer fuel _ _ hget rfl
          exact .inl ⟨b, hloops.left ▸ w, (foundAt_within_iff hb hpass hpadding).mp hbuffer rfl⟩
        | ended r =>
          have hr := w.rem_le rfl
          cases scan_unique hscan hwalk
          rw [hscan] at hget
          dsimp only at hget
          rcases hscan₂ : scan m k.info pad limit₂ true fuel params
              ⟨.ofNat (P.first true), .ofNat r⟩ with _ | y
          · rw [hscan₂] at hget
            rw [hget] at hends
            cases hends
          · obtain ⟨o, w₂⟩ := hloops.cached.walks_of_scan (by rw [hof hr]; exact hat₂ hr) hscan₂
            rw [hof hr] at w₂
            exact .inr ⟨r, o, hloops.left ▸ w, w₂⟩
    · have hoffsets := offsets_within (P := P) h.room
      rcases walkable h with ⟨b, w, hfit⟩ | ⟨r, o, w, w₂⟩
      · rw [← hloops.left] at w
        obtain ⟨n, cur, hwalk⟩ := w.scan hloops.uncached hat₁ rfl
        obtain ⟨r', hb, hpass, hpadding⟩ := w.at_found hat₁ rfl
        refine ⟨⟨n, ?_⟩, fun fuel => ?_, fun fuel answer host heq _ => ?_⟩
        · rw [hloops.getAddr, hwalk]
          rfl
        · rw [hloops.reads]
          intro s hs
          rcases mem_append.mp hs with hs | hs
          · exact hoffsets s hs
          · rcases mem_append.mp hs with hs | hs
            · exact w.reads hloops.uncached hat₁ rfl fuel s hs
            · split at hs
              · next hscan => cases scan_unique hscan hwalk
              · cases hs
        · rw [hloops.getAddr] at heq
          rcases hscan : scan m u.info 0 limit₁ false fuel params ⟨.ofNat (P.first false), rem⟩
            with _ | x
          · rw [hscan] at heq
            cases heq
          · cases scan_unique hscan hwalk
            rw [hscan] at heq
            cases heq
            exact (foundAt_within_iff hb hpass hpadding).mpr fun _ => hfit
      · rw [← hloops.left] at w
        have hr := w.rem_le rfl
        obtain ⟨n, cur, hwalk⟩ := w.scan hloops.uncached hat₁ rfl
        obtain ⟨n₂, cur₂, hwalk₂⟩ := w₂.scan hloops.cached (hat₂ hr) (hof hr)
        refine ⟨⟨n + n₂, ?_⟩, fun fuel => ?_, fun fuel answer host heq hsuccess => ?_⟩
        · rw [hloops.getAddr, scan_mono hwalk, Nat.add_comm]
          dsimp only
          cases o with
          | found =>
            rw [scan_mono hwalk₂]
            rfl
          | ended =>
            rw [scan_mono hwalk₂]
            rfl
        · rw [hloops.reads]
          intro s hs
          rcases mem_append.mp hs with hs | hs
          · exact hoffsets s hs
          · rcases mem_append.mp hs with hs | hs
            · exact w.reads hloops.uncached hat₁ rfl fuel s hs
            · split at hs
              · next hscan =>
                cases scan_unique hscan hwalk
                exact w₂.reads hloops.cached (hat₂ hr) (hof hr) fuel s hs
              · cases hs
        · rw [hloops.getAddr] at heq
          rcases hscan : scan m u.info 0 limit₁ false fuel params ⟨.ofNat (P.first false), rem⟩
            with _ | x
          · rw [hscan] at heq
            cases heq
          · cases scan_unique hscan hwalk
            rw [hscan] at heq
            dsimp only at heq
            rcases hscan₂ : scan m k.info pad limit₂ true fuel params
                ⟨.ofNat (P.first true), .ofNat r⟩ with _ | y
            · rw [hscan₂] at heq
              cases heq
            · rw [hscan₂] at heq
              cases o with
              | found b =>
                obtain ⟨r', hb, hpass, hpadding⟩ := w₂.at_found (hat₂ hr) rfl
                cases scan_unique hscan₂ hwalk₂
                cases heq
                exact (foundAt_within_iff hb hpass hpadding).mpr nofun
              | ended r' =>
                cases scan_unique hscan₂ hwalk₂
                cases heq
                cases hsuccess
  · exact ⟨fun _ h' => absurd h' h, fun _ => robust_of_not_searches h⟩

end

/-! ## Two partitions -/

/-- A partition of one page. -/
def onePage : KnownPartition where
  host := ⟨⟨0x80900000, 4096, 64, 32, 4096, 4096, 4096⟩, []⟩
  room := .inr (by decide)
  below := by decide
  above := by decide

/-- A lookup of the type 5. -/
def lookupFive : AllocParams := ⟨invalidHost, 5, 0, 0, 0⟩

/-- The first header has no canary. -/
def smashedCanary : Memory :=
  (Memory.zero.put 0x8090000C 4 48).put 0x80900010 4 4096

/-- An item of one byte, and one of the type 5 up to the end of the partition. -/
def oddItems : Memory :=
  let m := (Memory.zero.put 0x8090000C 4 4096).put 0x80900010 4 4096
  let m := ((m.put 0x80900020 2 0xa5a5).put 0x80900022 2 7).put 0x80900024 4 1
  ((m.put 0x80900031 2 0xa5a5).put 0x80900033 2 5).put 0x80900035 4 4031

/-- The canary is looked at for ever, and the item up to the end is returned with a byte more. -/
theorem lookup_not_robust :
    ¬ Robust ⟨0x80900000, 8192, 16⟩ 0 onePage smashedCanary lookupFive ∧
    ¬ Robust ⟨0x80900000, 8192, 16⟩ 0 onePage oddItems lookupFive := by
  constructor
  · intro robust
    have h : Searches onePage smashedCanary 0 lookupFive := by decide +kernel
    obtain ⟨u, k, limit₁, limit₂, pad, rem, hloops⟩ := h.loops ⟨0x80900000, 8192, 16⟩
    have hat := KnownPartition.at_first_uncached h.room
    have hwithin : onePage.Within smashedCanary false (onePage.first false) := by decide +kernel
    have hcanary : smashedCanary.u16 (.ofNat (onePage.first false)) ≠ allocHdrCanary := by
      decide +kernel
    obtain ⟨fuel, hends⟩ := robust.ends
    rw [hloops.getAddr, hloops.uncached.scan_stuck ((hloops.uncached.within_iff hat).mpr hwithin)
      fun hgood => hcanary hgood.1.canary] at hends
    cases hends
  · intro robust
    have hrun : (getAddrEx ⟨0x80900000, 8192, 16⟩ 0 3 oddItems lookupFive onePage.host).map
        (fun r => (r.1.status, r.1.params.buffer, r.1.params.size)) =
          some (.success, 0x80900041, 4032) := by
      decide +kernel
    obtain ⟨⟨answer, host⟩, hget, heq⟩ := Option.map_eq_some_iff.mp hrun
    simp only [Prod.mk.injEq] at heq
    have hbuffer := robust.buffer 3 answer host hget heq.1
    rw [heq.2.1, heq.2.2] at hbuffer
    exact absurd hbuffer (by decide +kernel)

end Smem
