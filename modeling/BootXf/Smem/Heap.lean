import BootXf.Lib.Align
import BootXf.Smem.Partition

/-!
# Partition heaps

What a partition is for: two lists of items, one growing up behind the partition header and one
growing down from the top, that stay apart by whole pages and hold every type at most once.
`Heap` carries these as fields, so a heap that violates them cannot be built, and everything about
where the items lie follows from one fact, `Heap.chain`: the header, the items with their paddings
and the free room between the two sides follow one another from one end of the partition to the
other.
-/

open Lib

namespace Smem

open List Option

/-- A partition of whole pages in a shared memory that lies below 4 GiB, above the first few cache
lines, and has its table of contents in its last page. -/
@[ext] structure Layout where
  smemInfo : SmemInfo
  offset : UInt32
  size : UInt32
  cacheline : UInt32
  base_aligned : smemInfo.smemBaseAddr.toNat % 4096 = 0
  offset_aligned : offset.toNat % 4096 = 0
  size_aligned : size.toNat % 4096 = 0
  size_pos : 0 < size.toNat
  inside : offset.toNat + size.toNat + 4096 ≤ smemInfo.smemSize.toNat
  below : smemInfo.smemBaseAddr.toNat + smemInfo.smemSize.toNat ≤ 2 ^ 32
  cacheline_pos : 0 < cacheline.toNat
  cacheline_le : cacheline.toNat ≤ 65536
  above : 2 * cacheline.toNat + 32 ≤ smemInfo.smemBaseAddr.toNat

/-- The padding of a header, in a line of the cache. -/
theorem itemPadding_toNat {k : UInt32} (hk : 0 < k.toNat) :
    (itemPadding k).toNat = Lib.roundUp 16 k.toNat - 16 := by
  have hlt := k.toNat_lt
  have hround := roundUp_lt hk (n := 16)
  have hle := le_roundUp hk (n := 16)
  have hsum : (16 + k.toUInt64 - 1).toNat = 16 + k.toNat - 1 := by
    simp only [UInt64.toNat_sub, UInt64.toNat_add, UInt32.toNat_toUInt64, UInt64.reduceToNat]
    omega
  have hmul : ((16 + k.toUInt64 - 1) / k.toUInt64 * k.toUInt64).toNat = Lib.roundUp 16 k.toNat := by
    rw [UInt64.toNat_mul, UInt64.toNat_div, hsum, UInt32.toNat_toUInt64]
    exact Nat.mod_eq_of_lt (by show Lib.roundUp 16 k.toNat < _; omega)
  rw [itemPadding, UInt64.toNat_sub_of_le, hmul]
  · rfl
  · rw [UInt64.le_iff_toNat_le, hmul]
    exact hle

namespace Layout
variable (L : Layout)

/-- The address of the partition. -/
def base : Nat := L.smemInfo.smemBaseAddr.toNat + L.offset.toNat

/-- The pointer to its header. -/
def header : UInt64 := L.smemInfo.smemBaseAddr + L.offset.toUInt64

/-- The padding behind the header of a cached item. -/
def pad : Nat := Lib.roundUp 16 L.cacheline.toNat - 16

/-- The addresses of the partition. -/
def span : Span := ⟨L.base, L.size.toNat⟩

variable {L}

/-- The partition lies inside 4 GB. -/
theorem base_bounds : 2 * L.cacheline.toNat + 32 ≤ L.base ∧
    L.base + L.size.toNat + 4096 ≤ 2 ^ 32 := by
  have h₁ := L.above
  have h₂ := L.below
  have h₃ := L.inside
  simp only [base]
  omega

theorem header_toNat : L.header.toNat = L.base := by
  have h := L.base_bounds
  rw [header, UInt64.toNat_add, UInt32.toNat_toUInt64]
  exact Nat.mod_eq_of_lt (by simp only [base] at h; omega)

theorem header_sub : (L.header - L.smemInfo.smemBaseAddr).toUInt32 = L.offset := by
  rw [header, UInt64.add_comm, UInt64.add_sub_cancel]
  exact UInt32.toUInt32_toUInt64 _

theorem pad_lt : L.pad < L.cacheline.toNat := by
  have hlt := roundUp_lt L.cacheline_pos (n := 16)
  have hpos := L.cacheline_pos
  have hle := le_roundUp L.cacheline_pos (n := 16)
  simp only [pad]
  omega

theorem itemPadding_toNat : (itemPadding L.cacheline).toNat = L.pad :=
  Smem.itemPadding_toNat L.cacheline_pos

end Layout

/-! ## Items and their places -/

/-- An item: its type, its size in the partition, and how much of that is padding. -/
structure Item where
  smemType : UInt16
  size : UInt32
  padding : UInt16
  padding_le : padding.toNat ≤ size.toNat
  deriving DecidableEq, Repr

/-- What an item takes, with its header and the padding behind the header. -/
def Item.total (pad : Nat) (it : Item) : Nat := it.size.toNat + pad + 16

/-- The size the caller asked for. -/
def Item.requested (it : Item) : Nat := it.size.toNat - it.padding.toNat

/-- What a list of items takes. -/
def space (pad : Nat) (l : List Item) : Nat := (l.map (Item.total pad)).sum

/-- The address of the next header: upward on the uncached side, downward on the cached side. -/
def next (cached : Bool) (a n : Nat) : Nat := if cached then a - n else a + n

/-- The items of a side with the addresses of their headers, the first header at `a`. -/
def places (cached : Bool) (pad : Nat) : Nat → List Item → List (Nat × Item)
  | _, [] => []
  | a, it :: l => (a, it) :: places cached pad (next cached a (it.total pad)) l

/-- The address of the buffer of the item whose header is at `a`. -/
def bufferAddr (cached : Bool) (a : Nat) (it : Item) : Nat :=
  if cached then a - it.size.toNat else a + 16

/-- Header, buffer and paddings of a placed item, in the order of their addresses. -/
def itemSpans (cached : Bool) (pad : Nat) (p : Nat × Item) : List Span :=
  let buffer := bufferAddr cached p.1 p.2
  let data := [⟨buffer, p.2.requested⟩, ⟨buffer + p.2.requested, p.2.padding.toNat⟩]
  if cached then data ++ [⟨p.1, 16⟩, ⟨p.1 + 16, pad⟩] else ⟨p.1, 16⟩ :: data

section
variable {pad a : Nat} {it : Item} {l l' : List Item} {cached : Bool}

@[simp] theorem space_nil : space pad [] = 0 := rfl

@[simp] theorem space_cons : space pad (it :: l) = it.total pad + space pad l := by
  simp [space]

@[simp] theorem space_append : space pad (l ++ l') = space pad l + space pad l' := by
  simp [space]

/-- An item takes up its header at least. -/
theorem total_pos (pad : Nat) (it : Item) : 16 ≤ it.total pad := Nat.le_add_left ..

/-- The items take up their headers at least. -/
theorem length_le_space (pad : Nat) (l : List Item) : 16 * l.length ≤ space pad l := by
  induction l with
  | nil => simp
  | cons it l ih =>
    have := total_pos pad it
    simp only [length_cons, space_cons]
    omega

/-- A new item goes where the walk over the others ends. -/
theorem places_append :
    places cached pad a (l ++ l') =
      places cached pad a l ++ places cached pad (next cached a (space pad l)) l' := by
  induction l generalizing a with
  | nil => cases cached <;> rfl
  | cons it l ih =>
    have hnext : next cached (next cached a (it.total pad)) (space pad l) =
        next cached a (space pad (it :: l)) := by
      cases cached <;> simp only [next, space_cons, Bool.false_eq_true, if_false, if_true] <;> omega
    simp only [cons_append, places, ih, hnext]

theorem map_snd_places (cached : Bool) (pad a : Nat) (l : List Item) :
    (places cached pad a l).map Prod.snd = l := by
  induction l generalizing a with
  | nil => rfl
  | cons it l ih => simp [places, ih]

/-- Where the uncached items lie. -/
theorem places_uncached_bounds {p : Nat × Item} (hp : p ∈ places false pad a l) :
    a ≤ p.1 ∧ p.1 + p.2.total pad ≤ a + space pad l := by
  induction l generalizing a with
  | nil => cases hp
  | cons it l ih =>
    rcases mem_cons.mp hp with rfl | hp
    · simp only [space_cons]
      omega
    · obtain ⟨hlo, hhi⟩ := ih hp
      simp only [next, Bool.false_eq_true, if_false] at hlo hhi
      simp only [space_cons]
      omega

/-- Where the cached items lie. -/
theorem places_cached_bounds {p : Nat × Item} (h : space pad l ≤ a + (pad + 16))
    (hp : p ∈ places true pad a l) :
    p.1 ≤ a ∧ a + (pad + 16) - space pad l + p.2.size.toNat ≤ p.1 := by
  induction l generalizing a with
  | nil => cases hp
  | cons it l ih =>
    simp only [space_cons, Item.total] at h ⊢
    rcases mem_cons.mp hp with rfl | hp
    · simp only
      omega
    · have hne : l ≠ [] := by
        rintro rfl
        cases hp
      have hpos : pad + 16 ≤ space pad l := by
        obtain ⟨x, l, rfl⟩ := exists_cons_of_ne_nil hne
        simp only [space_cons, Item.total]
        omega
      simp only [next, if_true, Item.total] at ih hp
      obtain ⟨hlo, hhi⟩ := ih (by omega) hp
      omega

/-- The uncached items follow one another upward. -/
theorem chain_uncached :
    Span.Chain a ((places false 0 a l).flatMap (itemSpans false 0)) (a + space 0 l) := by
  induction l generalizing a with
  | nil => rfl
  | cons it l ih =>
    have hle := it.padding_le
    simp only [places, flatMap_cons, Span.chain_append]
    refine ⟨a + it.total 0, ?_, ?_⟩
    · simp only [itemSpans, bufferAddr, Bool.false_eq_true, if_false, Span.Chain, Span.stop,
        Item.requested, Item.total, true_and]
      omega
    · rw [space_cons, ← Nat.add_assoc]
      exact ih

/-- The cached items follow one another downward. -/
theorem chain_cached {pad a : Nat} (l : List Item) (h : space pad l ≤ a + (pad + 16)) :
    Span.Chain (a + (pad + 16) - space pad l)
      ((places true pad a l).reverse.flatMap (itemSpans true pad)) (a + (pad + 16)) := by
  induction l generalizing a with
  | nil => rfl
  | cons it l ih =>
    have hle := it.padding_le
    simp only [space_cons] at h ⊢
    simp only [places, reverse_cons, flatMap_append, flatMap_singleton,
      Span.chain_append]
    refine ⟨a - it.size.toNat, ?_, ?_⟩
    · cases l with
      | nil =>
        simp only [Item.total, space_nil] at h ⊢
        show _ = _
        omega
      | cons x l =>
        simp only [next, if_true, space_cons, Item.total] at h ih ⊢
        have := ih (a := a - (it.size.toNat + pad + 16)) (by omega)
        have hlo :
            a + (pad + 16) - (it.size.toNat + pad + 16 + (x.size.toNat + pad + 16 + space pad l))
            = a - (it.size.toNat + pad + 16) +
              (pad + 16) - (x.size.toNat + pad + 16 + space pad l) := by
          omega
        have hhi : a - it.size.toNat = a - (it.size.toNat + pad + 16) + (pad + 16) := by omega
        rw [hlo, hhi]
        exact this
    · simp only [Item.total] at h
      simp only [itemSpans, bufferAddr, if_true, cons_append, nil_append, Span.Chain,
        Span.stop, Item.requested, true_and]
      omega

end

/-! ## Heaps -/

/-- The items of a partition, oldest first on each side. -/
structure Heap (L : Layout) where
  uncached : List Item
  cached : List Item
  /-- no page holds items of both sides -/
  apart : Lib.roundUp (32 + space 0 uncached) 4096 ≤
    roundDown (L.size.toNat - space L.pad cached) 4096
  unique : ((uncached ++ cached).map Item.smemType).Nodup

namespace Heap
variable {L : Layout} (H : Heap L)

/-- The offset behind the last uncached item. -/
def freeUncached : Nat := 32 + space 0 H.uncached

/-- The offset of the last cached item. -/
def freeCached : Nat := L.size.toNat - space L.pad H.cached

/-- The uncached items with the addresses of their headers. -/
def uncachedPlaces : List (Nat × Item) := places false 0 (L.base + 32) H.uncached

/-- The cached items with the addresses of their headers. -/
def cachedPlaces : List (Nat × Item) :=
  places true L.pad (L.base + L.size.toNat - L.pad - 16) H.cached

/-- The partition header, the uncached items, the free room and the cached items. -/
def spans : List Span :=
  ⟨L.base, 32⟩ :: H.uncachedPlaces.flatMap (itemSpans false 0) ++
    (⟨L.base + H.freeUncached, H.freeCached - H.freeUncached⟩ ::
      H.cachedPlaces.reverse.flatMap (itemSpans true L.pad))

variable {H} {p : Nat × Item}

/-- The two regions share no page. -/
theorem free_le :
    32 ≤ H.freeUncached ∧ Lib.roundUp H.freeUncached 4096 ≤ roundDown H.freeCached 4096 ∧
      H.freeCached + space L.pad H.cached = L.size.toNat := by
  have h := H.apart
  refine ⟨Nat.le_add_right .., h, ?_⟩
  have hup := le_roundUp (n := 32 + space 0 H.uncached) (k := 4096) (by decide)
  have hdown := roundDown_le (n := L.size.toNat - space L.pad H.cached) (k := 4096)
  simp only [freeCached]
  omega

theorem freeUncached_le : H.freeUncached ≤ H.freeCached := by
  obtain ⟨-, h, -⟩ := H.free_le
  exact Nat.le_trans (le_roundUp (by decide)) (Nat.le_trans h roundDown_le)

/-- **The partition without gaps.** -/
theorem chain : Span.Chain L.base H.spans (L.base + L.size.toNat) := by
  obtain ⟨-, -, hfit⟩ := H.free_le
  have hle := H.freeUncached_le
  have hpad := L.pad_lt
  have hbase := L.base_bounds
  have htop : L.base + L.size.toNat - L.pad - 16 + (L.pad + 16) = L.base + L.size.toNat := by omega
  rw [spans, cons_append]
  refine ⟨rfl, Span.chain_append.mpr ⟨L.base + H.freeUncached, ?_, rfl, ?_⟩⟩
  · rw [freeUncached, ← Nat.add_assoc]
    exact chain_uncached
  · have h := chain_cached (a := L.base + L.size.toNat - L.pad - 16) H.cached
      (show space L.pad H.cached ≤ _ by omega)
    rw [htop] at h
    have hlo : L.base + L.size.toNat - space L.pad H.cached =
        L.base + H.freeUncached + (H.freeCached - H.freeUncached) := by omega
    rw [hlo] at h
    exact h

/-- Nothing in a partition overlaps, and everything lies inside it. -/
theorem spans_disjoint : H.spans.Pairwise Span.Disjoint ∧ ∀ s ∈ H.spans, s.Within L.span := by
  refine ⟨H.chain.pairwise_disjoint, fun s hs => ?_⟩
  have h := H.chain.within s hs
  rwa [Nat.add_sub_cancel_left] at h

/-- Where the header of an uncached item lies. -/
theorem uncachedPlaces_bounds (hp : p ∈ H.uncachedPlaces) :
    L.base + 32 ≤ p.1 ∧ p.1 + (p.2.size.toNat + 16) ≤ L.base + H.freeUncached := by
  obtain ⟨hlo, hhi⟩ := places_uncached_bounds hp
  simp only [Item.total, freeUncached] at hhi ⊢
  omega

/-- Where the header of a cached item lies. -/
theorem cachedPlaces_bounds (hp : p ∈ H.cachedPlaces) :
    L.base + H.freeCached + p.2.size.toNat ≤ p.1 ∧ p.1 + (L.pad + 16) ≤ L.base + L.size.toNat := by
  obtain ⟨-, -, hfit⟩ := H.free_le
  have hpad := L.pad_lt
  have hbase := L.base_bounds
  obtain ⟨hlo, hhi⟩ := places_cached_bounds (by omega) hp
  omega

/-! ### Looking up a type -/

/-- An item that was found: its side, the address of its header, and the item. -/
structure Found where
  cached : Bool
  addr : Nat
  item : Item
  deriving DecidableEq, Repr

/-- The placed items of a side. -/
def side (H : Heap L) (cached : Bool) : List (Nat × Item) :=
  if cached then H.cachedPlaces else H.uncachedPlaces

/-- The placed item has the type. -/
def hasType (smemType : UInt32) (p : Nat × Item) : Bool := p.2.smemType.toUInt32 == smemType

/-- The item of a type, the uncached side first. -/
def lookup (H : Heap L) (smemType : UInt32) : Option Found :=
  match H.uncachedPlaces.find? (hasType smemType) with
  | some p => some ⟨false, p.1, p.2⟩
  | none => (H.cachedPlaces.find? (hasType smemType)).map fun p => ⟨true, p.1, p.2⟩

variable {smemType : UInt32} {f : Found} {it : Item} {H' : Heap L}

/-- An uncached item is found first. -/
theorem lookup_of_uncached (h : H.uncachedPlaces.find? (hasType smemType) = some p) :
    H.lookup smemType = some ⟨false, p.1, p.2⟩ := by
  simp only [lookup, h]

/-- A cached item is found if there is no uncached one. -/
theorem lookup_of_cached (hu : H.uncachedPlaces.find? (hasType smemType) = none)
    (hc : H.cachedPlaces.find? (hasType smemType) = some p) :
    H.lookup smemType = some ⟨true, p.1, p.2⟩ := by
  simp only [lookup, hu, hc, map_some]

theorem lookup_eq_none : H.lookup smemType = none ↔
    H.uncachedPlaces.find? (hasType smemType) = none ∧
      H.cachedPlaces.find? (hasType smemType) = none := by
  cases hu : H.uncachedPlaces.find? (hasType smemType) <;> simp [lookup, hu]

/-- What is found is there, and has the type. -/
theorem lookup_mem (h : H.lookup smemType = some f) :
    (f.addr, f.item) ∈ H.side f.cached ∧ f.item.smemType.toUInt32 = smemType := by
  cases hu : H.uncachedPlaces.find? (hasType smemType) with
  | some p =>
    rw [lookup_of_uncached hu] at h
    obtain rfl := Option.some.inj h
    exact ⟨mem_of_find?_eq_some hu, by simpa [hasType] using find?_some hu⟩
  | none =>
    cases hc : H.cachedPlaces.find? (hasType smemType) with
    | some p =>
      rw [lookup_of_cached hu hc] at h
      obtain rfl := Option.some.inj h
      exact ⟨mem_of_find?_eq_some hc, by simpa [hasType] using find?_some hc⟩
    | none =>
      rw [lookup_eq_none.mpr ⟨hu, hc⟩] at h
      cases h

theorem mem_uncached (hp : p ∈ H.uncachedPlaces) : p.2 ∈ H.uncached := by
  have h := List.mem_map_of_mem (f := Prod.snd) hp
  rwa [uncachedPlaces, map_snd_places] at h

theorem mem_cached (hp : p ∈ H.cachedPlaces) : p.2 ∈ H.cached := by
  have h := List.mem_map_of_mem (f := Prod.snd) hp
  rwa [cachedPlaces, map_snd_places] at h

/-- A type that is on the cached side is not on the uncached side. -/
theorem find_uncached_none {x : Item} (hx : x ∈ H.cached) :
    H.uncachedPlaces.find? (hasType x.smemType.toUInt32) = none := by
  refine find?_eq_none.mpr fun p hp heq => ?_
  have hunique := H.unique
  rw [map_append, nodup_append] at hunique
  refine hunique.2.2 p.2.smemType (List.mem_map_of_mem (mem_uncached hp)) x.smemType
    (List.mem_map_of_mem hx) ?_
  have h := congrArg UInt32.toNat (eq_of_beq heq)
  exact UInt16.toNat_inj.mp (by simpa using h)

/-! ### Growing -/

/-- The types in use. -/
def types (H : Heap L) : List UInt16 := (H.uncached ++ H.cached).map Item.smemType

/-- A new item on the uncached side. -/
def pushUncached (H : Heap L) (it : Item) (fresh : it.smemType ∉ H.types)
    (room : Lib.roundUp (H.freeUncached + it.total 0) 4096 ≤ roundDown H.freeCached 4096) :
    Heap L where
  uncached := H.uncached ++ [it]
  cached := H.cached
  apart := by
    simpa [freeUncached, freeCached, Nat.add_assoc] using room
  unique := by
    have hperm : (H.uncached ++ [it] ++ H.cached).Perm (it :: (H.uncached ++ H.cached)) := by
      simp only [append_assoc, singleton_append]
      exact perm_middle
    exact ((hperm.map Item.smemType).nodup_iff).mpr (nodup_cons.mpr ⟨fresh, H.unique⟩)

/-- A new item on the cached side. -/
def pushCached (H : Heap L) (it : Item) (fresh : it.smemType ∉ H.types)
    (room : Lib.roundUp H.freeUncached 4096 ≤ roundDown (H.freeCached - it.total L.pad) 4096) :
    Heap L where
  uncached := H.uncached
  cached := H.cached ++ [it]
  apart := by
    simpa [freeUncached, freeCached, Nat.sub_sub] using room
  unique := by
    have hperm : (H.uncached ++ (H.cached ++ [it])).Perm (it :: (H.uncached ++ H.cached)) := by
      rw [← append_assoc]
      exact perm_append_singleton it _
    exact ((hperm.map Item.smemType).nodup_iff).mpr (nodup_cons.mpr ⟨fresh, H.unique⟩)

/-- A heap that has the items of another one, and perhaps more behind them. -/
def Extends (H' H : Heap L) : Prop := H.uncached <+: H'.uncached ∧ H.cached <+: H'.cached

theorem Extends.refl (H : Heap L) : H.Extends H := ⟨prefix_rfl, prefix_rfl⟩

theorem Extends.trans {H₁ H₂ H₃ : Heap L} (h : H₃.Extends H₂) (h' : H₂.Extends H₁) :
    H₃.Extends H₁ :=
  ⟨h'.1.trans h.1, h'.2.trans h.2⟩

/-- A new uncached item leaves the others. -/
theorem pushUncached_extends (H : Heap L) (fresh : it.smemType ∉ H.types) (room) :
    (H.pushUncached it fresh room).Extends H :=
  ⟨prefix_append .., prefix_rfl⟩

/-- A new cached item leaves the others. -/
theorem pushCached_extends (H : Heap L) (fresh : it.smemType ∉ H.types) (room) :
    (H.pushCached it fresh room).Extends H :=
  ⟨prefix_rfl, prefix_append ..⟩

/-- The free offsets only move towards each other. -/
theorem Extends.free (h : H'.Extends H) :
    H.freeUncached ≤ H'.freeUncached ∧ H'.freeCached ≤ H.freeCached := by
  obtain ⟨⟨l, hl⟩, l', hl'⟩ := h
  simp only [freeUncached, freeCached, ← hl, ← hl', space_append]
  omega

/-- **What is found stays found**, at its place, however the heap grows. -/
theorem Extends.lookup (h : H'.Extends H) (hf : H.lookup smemType = some f) :
    H'.lookup smemType = some f := by
  obtain ⟨⟨l, hl⟩, l', hl'⟩ := h
  have hu' : H'.uncachedPlaces = H.uncachedPlaces ++ places false 0
      (next false (L.base + 32) (space 0 H.uncached)) l := by
    rw [uncachedPlaces, ← hl, places_append]
    rfl
  have hc' : H'.cachedPlaces = H.cachedPlaces ++ places true L.pad
      (next true (L.base + L.size.toNat - L.pad - 16) (space L.pad H.cached)) l' := by
    rw [cachedPlaces, ← hl', places_append]
    rfl
  cases hu : H.uncachedPlaces.find? (hasType smemType) with
  | some p =>
    rw [lookup_of_uncached hu] at hf
    rw [← hf]
    apply lookup_of_uncached
    rw [hu', find?_append, hu, some_or]
  | none =>
    cases hc : H.cachedPlaces.find? (hasType smemType) with
    | none =>
      rw [lookup_eq_none.mpr ⟨hu, hc⟩] at hf
      cases hf
    | some p =>
      obtain ⟨-, htype⟩ := lookup_mem hf
      rw [lookup_of_cached hu hc] at hf
      obtain rfl := Option.some.inj hf
      apply lookup_of_cached
      · have hmem : p.2 ∈ H'.cached := by
          rw [← hl']
          exact mem_append_left _ (mem_cached (mem_of_find?_eq_some hc))
        rw [← htype]
        exact find_uncached_none hmem
      · rw [hc', find?_append, hc, some_or]

/-- A type that is not found is not in use. -/
theorem fresh_of_lookup_none (h : H.lookup it.smemType.toUInt32 = none) :
    it.smemType ∉ H.types := by
  obtain ⟨hu, hc⟩ := lookup_eq_none.mp h
  intro hmem
  obtain ⟨x, hx, htype⟩ := List.mem_map.mp hmem
  rcases mem_append.mp hx with hx | hx
  · rw [← map_snd_places false 0 (L.base + 32) H.uncached] at hx
    obtain ⟨p, hp, rfl⟩ := List.mem_map.mp hx
    have := find?_eq_none.mp hu p hp
    simp [hasType, htype] at this
  · rw [← map_snd_places true L.pad (L.base + L.size.toNat - L.pad - 16) H.cached] at hx
    obtain ⟨p, hp, rfl⟩ := List.mem_map.mp hx
    have := find?_eq_none.mp hc p hp
    simp [hasType, htype] at this

theorem uncachedPlaces_push {fresh room} : (H.pushUncached it fresh room).uncachedPlaces =
    H.uncachedPlaces ++ [(L.base + H.freeUncached, it)] := by
  simp only [uncachedPlaces, pushUncached, places_append, places, next, freeUncached,
    Bool.false_eq_true, if_false, Nat.add_assoc]

theorem cachedPlaces_push {fresh room} : (H.pushCached it fresh room).cachedPlaces =
    H.cachedPlaces ++ [(L.base + H.freeCached - L.pad - 16, it)] := by
  obtain ⟨-, -, hfit⟩ := H.free_le
  have haddr : L.base + L.size.toNat - L.pad - 16 - space L.pad H.cached =
      L.base + H.freeCached - L.pad - 16 := by omega
  simp only [cachedPlaces, pushCached, places_append, places, next, if_true, haddr]

/-- The new item of the uncached side is found where the free room began. -/
theorem lookup_pushUncached (fresh room) (h : H.lookup it.smemType.toUInt32 = none) :
    (H.pushUncached it fresh room).lookup it.smemType.toUInt32 =
      some ⟨false, L.base + H.freeUncached, it⟩ := by
  obtain ⟨hu, -⟩ := lookup_eq_none.mp h
  refine lookup_of_uncached (p := (L.base + H.freeUncached, it)) ?_
  rw [uncachedPlaces_push, find?_append, hu]
  simp [hasType]

/-- The new item of the cached side is found below where the free room ended. -/
theorem lookup_pushCached (fresh room) (h : H.lookup it.smemType.toUInt32 = none) :
    (H.pushCached it fresh room).lookup it.smemType.toUInt32 =
      some ⟨true, L.base + H.freeCached - L.pad - 16, it⟩ := by
  obtain ⟨hu, hc⟩ := lookup_eq_none.mp h
  refine lookup_of_cached (p := (L.base + H.freeCached - L.pad - 16, it)) hu ?_
  rw [cachedPlaces_push, find?_append, hc]
  simp [hasType]

end Heap

end Smem
