import BootXf.Smem.Heap

/-!
# Walking a partition heap

`Heap.Holds` says that memory holds a heap: the two free offsets, and the header of every item at
its place. Over such memory `smem_part_process_item` reads one item and goes on to the next
(`processItem_spec`), and a loop of `smem_part_get_addr_ex` ends after its side's items and finds
what `List.find?` finds among them (`scan_spec`).
-/

open Lib

namespace Smem

open List

/-! ## Headers in memory -/

/-- The fields of an item header that the walk reads. -/
structure HeaderAt (m : Memory) (a : Nat) (it : Item) : Prop where
  canary : m.u16 (.ofNat a) = allocHdrCanary
  smemType : m.u16 (.ofNat a + 2) = it.smemType
  size : m.u32 (.ofNat a + 4) = it.size
  padding : m.u16 (.ofNat a + 8) = it.padding

section
variable {m m' : Memory} {a : Nat} {it : Item} {k : UInt64}

/-- The address of a field, below 4 GiB. -/
theorem toNat_field (ha : a + 16 ≤ 2 ^ 32) (hk : k.toNat ≤ 16) :
    (UInt64.ofNat a + k).toNat = a + k.toNat := by
  rw [UInt64.toNat_add, UInt64.toNat_ofNat']
  omega

theorem toNat_ofNat_addr (ha : a < 2 ^ 32) : (UInt64.ofNat a).toNat = a := by
  rw [UInt64.toNat_ofNat']
  omega

/-- The addresses of the fields that the walk reads. -/
theorem toNat_fields (ha : a + 16 ≤ 2 ^ 32) : (UInt64.ofNat a).toNat = a ∧
    (UInt64.ofNat a + 2).toNat = a + 2 ∧ (UInt64.ofNat a + 4).toNat = a + 4 ∧
    (UInt64.ofNat a + 8).toNat = a + 8 :=
  ⟨toNat_ofNat_addr (by omega), toNat_field ha (by decide), toNat_field ha (by decide),
    toNat_field ha (by decide)⟩

/-- A header is read off its own bytes. -/
theorem HeaderAt.frame (h : HeaderAt m a it) (ha : a + 16 ≤ 2 ^ 32)
    (hm : Memory.AgreeOn ⟨a, 16⟩ m' m) : HeaderAt m' a it := by
  obtain ⟨h₀, h₂, h₄, h₈⟩ := toNat_fields ha
  constructor
  · rw [(hm.mono (by simp only [Span.Within, h₀]; omega)).u16 (by omega), h.canary]
  · rw [(hm.mono (by simp only [Span.Within, h₂]; omega)).u16 (by omega), h.smemType]
  · rw [(hm.mono (by simp only [Span.Within, h₄]; omega)).u32 (by omega), h.size]
  · rw [(hm.mono (by simp only [Span.Within, h₈]; omega)).u16 (by omega), h.padding]

/-- Filling in a header changes nothing beside it. -/
theorem agreeOn_writeItem {s : Span} {smemType paddingData paddingHeader : UInt16}
    {sizeItem : UInt32} (ha : a + 16 ≤ 2 ^ 32) (hs : s.Disjoint ⟨a, 16⟩) :
    Memory.AgreeOn s (writeItem m (.ofNat a) smemType sizeItem paddingData paddingHeader) m := by
  obtain ⟨h₀, h₂, h₄, h₈⟩ := toNat_fields ha
  have h₁₀ : (UInt64.ofNat a + 10).toNat = a + 10 := toNat_field ha (by decide)
  simp only [Span.Disjoint, Span.stop] at hs
  refine (Memory.agreeOn_put (by omega) ?_).trans <| (Memory.agreeOn_put (by omega) ?_).trans <|
    (Memory.agreeOn_put (by omega) ?_).trans <| (Memory.agreeOn_put (by omega) ?_).trans <|
    Memory.agreeOn_put (by omega) ?_ <;>
  simp only [Span.Disjoint, Span.stop, h₀, h₂, h₄, h₈, h₁₀] <;> omega

/-- A field that is written does not touch what lies before it. -/
theorem agreeOn_put_behind {s : Span} {n v : Nat} (ha : a + 16 ≤ 2 ^ 32)
    (hk : k.toNat + n ≤ 16) (hs : s.stop ≤ a + k.toNat) :
    Memory.AgreeOn s (m.put (.ofNat a + k) n v) m := by
  have hfield := toNat_field (k := k) ha (by omega)
  exact Memory.agreeOn_put (by omega) (.inl (by rw [hfield]; exact hs))

/-- **Writer and walker agree**: a header that was filled in reads as its item. The fields are
written in the order of their offsets, so each write leaves the ones before it. -/
theorem headerAt_writeItem {paddingHeader : UInt16} (ha : a + 16 ≤ 2 ^ 32) :
    HeaderAt (writeItem m (.ofNat a) it.smemType it.size it.padding paddingHeader) a it := by
  obtain ⟨h₀, h₂, h₄, h₈⟩ := toNat_fields ha
  have hbehind : ∀ {j n : Nat} {b k : UInt64}, b.toNat = a + j → j + n ≤ k.toNat →
      (⟨b.toNat, n⟩ : Span).stop ≤ a + k.toNat := by
    intro j n b k hb hk
    simp only [Span.stop, hb]
    omega
  constructor
  · rw [writeItem,
      (agreeOn_put_behind ha (by decide) (hbehind (j := 0) h₀ (by decide))).u16 (by omega),
      (agreeOn_put_behind ha (by decide) (hbehind (j := 0) h₀ (by decide))).u16 (by omega),
      (agreeOn_put_behind ha (by decide) (hbehind (j := 0) h₀ (by decide))).u16 (by omega),
      (agreeOn_put_behind ha (by decide) (hbehind (j := 0) h₀ (by decide))).u16 (by omega),
      Memory.u16_put (by omega)]
  · rw [writeItem, (agreeOn_put_behind ha (by decide) (hbehind h₂ (by decide))).u16 (by omega),
      (agreeOn_put_behind ha (by decide) (hbehind h₂ (by decide))).u16 (by omega),
      (agreeOn_put_behind ha (by decide) (hbehind h₂ (by decide))).u16 (by omega),
      Memory.u16_put (by omega)]
  · rw [writeItem, (agreeOn_put_behind ha (by decide) (hbehind h₄ (by decide))).u32 (by omega),
      (agreeOn_put_behind ha (by decide) (hbehind h₄ (by decide))).u32 (by omega),
      Memory.u32_put (by omega)]
  · rw [writeItem, (agreeOn_put_behind ha (by decide) (hbehind h₈ (by decide))).u16 (by omega),
      Memory.u16_put (by omega)]

end

/-- Memory holds a heap. -/
structure Heap.Holds {L : Layout} (H : Heap L) (m : Memory) : Prop where
  freeUncached : (m.u32 (L.header + 12)).toNat = H.freeUncached
  freeCached : (m.u32 (L.header + 16)).toNat = H.freeCached
  uncached : ∀ p ∈ H.uncachedPlaces, HeaderAt m p.1 p.2
  cached : ∀ p ∈ H.cachedPlaces, HeaderAt m p.1 p.2

/-! ## One item -/

/-- `*params` once an item has been found. -/
def AllocParams.found (params : AllocParams) (f : Heap.Found) : AllocParams :=
  { params with
    size := .ofNat (Lib.roundUp f.item.requested 8)
    buffer := .ofNat (bufferAddr f.cached f.addr f.item)
    flags := if f.cached then params.flags ||| allocFlagCached
      else params.flags &&& ~~~allocFlagCached }

section
variable {m : Memory} {info : PartitionInfo} {params : AllocParams} {cached : Bool}
  {paddingHeader : UInt16} {pad a lim : Nat} {rem limitAddr : UInt32} {it : Item} {l : List Item}

theorem roundUp8_toNat {n : UInt32} (h : n.toNat + 8 ≤ 2 ^ 32) :
    roundUp n 8 = .ofNat (Lib.roundUp n.toNat 8) := by
  have hround : (roundUp n 8).toNat = Lib.roundUp n.toNat 8 :=
    uint32_toNat_roundUp (y := 8) h (by decide)
  rw [← hround, UInt32.ofNat_toNat]

/-- What `*params` are when the item at the cursor is the one that is searched for. -/
theorem point_found (params : AllocParams) (cached : Bool) (a : Nat) (it : Item)
    (hbuf : cached = true → it.size.toNat ≤ a) (hsize : it.size.toNat + 8 ≤ 2 ^ 32) :
    { params.point (.ofNat a) it.size cached with
      size := roundUp (it.size - it.padding.toUInt32) 8 } = params.found ⟨cached, a, it⟩ := by
  have hle := it.padding_le
  have hreq : (it.size - it.padding.toUInt32).toNat = it.requested := by
    rw [UInt32.toNat_sub_of_le _ _ (by
      rw [UInt32.le_iff_toNat_le, UInt16.toNat_toUInt32]
      exact hle), UInt16.toNat_toUInt32, Item.requested]
  have hround : roundUp (it.size - it.padding.toUInt32) 8 =
      .ofNat (Lib.roundUp it.requested 8) := by
    rw [roundUp8_toNat (by rw [hreq, Item.requested]; omega), hreq]
  rw [hround]
  cases cached with
  | false =>
    have hadd : UInt64.ofNat (a + 16) = UInt64.ofNat a + 16 := UInt64.ofNat_add ..
    simp only [AllocParams.point, AllocParams.found, bufferAddr, hadd, Bool.false_eq_true, if_false]
  | true =>
    have hsub : UInt64.ofNat (a - it.size.toNat) = UInt64.ofNat a - it.size.toUInt64 := by
      rw [UInt64.ofNat_sub (hbuf rfl), ← UInt32.toNat_toUInt64, UInt64.ofNat_toNat]
    simp only [AllocParams.point, AllocParams.found, bufferAddr, hsub, if_true]

/-- **One round.** A header that holds an item is recognised by its type, and the cursor goes on to
where the next header lies. -/
theorem processItem_spec (params : AllocParams) (hitem : HeaderAt m a it)
    (hpad : paddingHeader.toNat = pad) (hbuf : cached = true → it.total pad ≤ a)
    (hrem : it.total pad ≤ rem.toNat) (hinfo : rem.toNat ≤ info.size.toNat) :
    ∃ rem', rem'.toNat = rem.toNat - it.total pad ∧
      processItem m info params ⟨.ofNat a, rem⟩ paddingHeader cached =
        (Heap.hasType params.smemType (a, it),
          if Heap.hasType params.smemType (a, it) then params.found ⟨cached, a, it⟩ else params,
          ⟨.ofNat (next cached a (it.total pad)), rem'⟩) := by
  have hremlt := rem.toNat_lt
  have htotal : (it.size + paddingHeader.toUInt32 + 16).toNat = it.total pad := by
    simp only [UInt32.toNat_add, UInt16.toNat_toUInt32, hpad, Item.total,
      UInt32.reduceToNat] at hrem ⊢
    omega
  have hsize : ¬ it.size > info.size := by
    simp only [gt_iff_lt, UInt32.lt_iff_toNat_lt, Item.total] at hrem ⊢
    omega
  have hfits : ¬ it.size + paddingHeader.toUInt32 + 16 > rem := by
    rw [gt_iff_lt, UInt32.lt_iff_toNat_lt, htotal]
    omega
  have hpadding : ¬ it.padding.toUInt32 > it.size := by
    have hle := it.padding_le
    rw [gt_iff_lt, UInt32.lt_iff_toNat_lt, UInt16.toNat_toUInt32]
    omega
  have hadvance :
      (Cursor.mk (.ofNat a) rem).advance (it.size + paddingHeader.toUInt32 + 16) cached =
      ⟨.ofNat (next cached a (it.total pad)), rem - (it.size + paddingHeader.toUInt32 + 16)⟩ := by
    have h64 : (it.size + paddingHeader.toUInt32 + 16).toUInt64 = .ofNat (it.total pad) := by
      rw [← htotal, ← UInt32.toNat_toUInt64, UInt64.ofNat_toNat]
    cases cached with
    | false => simp [Cursor.advance, next, h64, UInt64.ofNat_add]
    | true => simp only [Cursor.advance, next, h64, if_true, UInt64.ofNat_sub (hbuf rfl)]
  have htype : (it.smemType.toUInt32 == params.smemType) = Heap.hasType params.smemType (a, it) :=
    rfl
  refine ⟨rem - (it.size + paddingHeader.toUInt32 + 16), ?_, ?_⟩
  · rw [UInt32.toNat_sub_of_le _ _ (UInt32.not_lt.mp hfits), htotal]
  · simp only [processItem, hitem.canary, hitem.smemType, hitem.size, hitem.padding,
      bne_self_eq_false,
      Bool.false_eq_true, if_false, hsize, hfits, hpadding, hadvance, htype]
    have hpoint := point_found params cached a it
      (fun hc => Nat.le_trans (by simp only [Item.total]; omega) (hbuf hc))
      (by simp only [Item.total] at hrem; omega)
    rw [hpoint]
    cases Heap.hasType params.smemType (a, it) <;> rfl

/-! ## One side -/

/-- A cursor at `a` has the items of the list before it, and then its loop's limit. -/
def OnSide (cached : Bool) (pad lim a : Nat) (l : List Item) : Prop :=
  if cached then lim + space pad l = a + (pad + 16) ∧ pad + 16 ≤ lim ∧ a < 2 ^ 32
  else a + space pad l = lim ∧ lim < 2 ^ 32

/-- Behind the last item the loop ends. -/
theorem OnSide.stop (h : OnSide cached pad lim a []) (hlim : limitAddr.toNat = lim) :
    withinLimit cached (UInt64.ofNat a).toUInt32 limitAddr = false := by
  cases cached with
  | false =>
    simp only [OnSide, Bool.false_eq_true, if_false, space_nil] at h
    simp only [withinLimit, Bool.false_eq_true, if_false, decide_eq_false_iff_not,
      UInt32.lt_iff_toNat_lt, UInt64.toNat_toUInt32, UInt64.toNat_ofNat', hlim]
    omega
  | true =>
    simp only [OnSide, if_true, space_nil] at h
    simp only [withinLimit, if_true, decide_eq_false_iff_not, ge_iff_le, UInt32.le_iff_toNat_le,
      UInt64.toNat_toUInt32, UInt64.toNat_ofNat', hlim]
    omega

/-- Before an item the loop goes on, and the next cursor has the rest before it. -/
theorem OnSide.go (h : OnSide cached pad lim a (it :: l)) (hlim : limitAddr.toNat = lim) :
    withinLimit cached (UInt64.ofNat a).toUInt32 limitAddr = true ∧
      (cached = true → it.total pad ≤ a) ∧
      OnSide cached pad lim (next cached a (it.total pad)) l := by
  have hpos := total_pos pad it
  cases cached with
  | false =>
    simp only [OnSide, Bool.false_eq_true, if_false, space_cons, next] at h ⊢
    simp only [withinLimit, Bool.false_eq_true, if_false, decide_eq_true_eq,
      UInt32.lt_iff_toNat_lt, UInt64.toNat_toUInt32, UInt64.toNat_ofNat', hlim,
        false_implies, true_and]
    omega
  | true =>
    simp only [Item.total] at hpos
    simp only [OnSide, if_true, space_cons, next, Item.total] at h ⊢
    simp only [withinLimit, if_true, decide_eq_true_eq, ge_iff_le, UInt32.le_iff_toNat_le,
      UInt64.toNat_toUInt32, UInt64.toNat_ofNat', hlim]
    omega

/-- **A loop of the walk.** It ends within its budget, on the item `find?` finds, or, when there is
none, with the room the items of the side leave. -/
theorem scan_spec (params : AllocParams) (info : PartitionInfo) (rem : UInt32) {fuel : Nat}
    (hpad : paddingHeader.toNat = pad) (hlim : limitAddr.toNat = lim)
    (hside : OnSide cached pad lim a l) (hfuel : l.length < fuel)
    (hitems : ∀ p ∈ places cached pad a l, HeaderAt m p.1 p.2)
    (hrem : space pad l ≤ rem.toNat) (hinfo : rem.toNat ≤ info.size.toNat) :
    (∀ p, (places cached pad a l).find? (Heap.hasType params.smemType) = some p → ∃ cur,
      scan m info paddingHeader limitAddr cached fuel params ⟨.ofNat a, rem⟩ =
        some (true, params.found ⟨cached, p.1, p.2⟩, cur)) ∧
    ((places cached pad a l).find? (Heap.hasType params.smemType) = none → ∃ cur,
      scan m info paddingHeader limitAddr cached fuel params ⟨.ofNat a, rem⟩ =
        some (false, params, cur) ∧ cur.sizeRemaining.toNat = rem.toNat - space pad l) := by
  induction l generalizing a rem fuel with
  | nil =>
    obtain ⟨fuel, rfl⟩ := Nat.exists_eq_succ_of_ne_zero (Nat.ne_of_gt hfuel)
    refine ⟨fun p hp => (by cases hp), fun _ => ⟨⟨.ofNat a, rem⟩, ?_, rfl⟩⟩
    rw [scan, if_neg (by rw [hside.stop hlim]; decide)]
  | cons it l ih =>
    obtain ⟨fuel, rfl⟩ := Nat.exists_eq_succ_of_ne_zero (Nat.ne_zero_of_lt hfuel)
    obtain ⟨hwithin, hbuf, hnext⟩ := hside.go hlim
    simp only [places, mem_cons, forall_eq_or_imp] at hitems
    rw [space_cons] at hrem
    obtain ⟨rem', hrem', hround⟩ :=
      processItem_spec params hitems.1 hpad hbuf (by omega) hinfo
    simp only [scan, hwithin, if_true, hround, places]
    cases htype : Heap.hasType params.smemType (a, it) with
    | true =>
      rw [find?_cons_of_pos htype]
      refine ⟨fun p hp => ?_, fun h => by cases h⟩
      obtain rfl := Option.some.inj hp
      exact ⟨_, rfl⟩
    | false =>
      rw [find?_cons_of_neg (by rw [htype]; decide)]
      have hrest := ih rem' hnext (Nat.lt_of_succ_lt_succ hfuel) hitems.2 (by omega) (by omega)
      refine ⟨hrest.1, fun hnone => ?_⟩
      obtain ⟨cur, hcur, hleft⟩ := hrest.2 hnone
      exact ⟨cur, hcur, by rw [hleft, hrem', space_cons]; omega⟩

end

end Smem
