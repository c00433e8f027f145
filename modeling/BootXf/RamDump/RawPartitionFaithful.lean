import BootXf.RamDump.RawPartitionDump

/-!
# When the raw dump is faithful

`rawDump_faithful_iff`: the dump says the truth about what the partition holds, whatever memory and
the partition held before, exactly when the entries that the code reads are as good as those it
should read, no section takes 4 GiB or more, and the partition is not one that just holds the
header of an empty dump.
-/

namespace RamDump

open Lib List Option

/-- The area that a header describes. -/
def SectionHeader.area (h : SectionHeader) : Span := ⟨h.sectionOffset.toNat, h.sectionSize.toNat⟩

/-- What a partition holds after a faithful dump of the registered regions. -/
structure Faithful (d : DloadDebug) (memory : UInt64 → UInt8)
    (partitionSize : UInt64) (c : Contents)
    (s : RawDump) : Prop where
  /-- What is written is in use, and what is in use is inside the partition. -/
  within : ∀ w ∈ s.writes, w.span.Within ⟨0, s.rawDumpHeader.dumpSize.toNat⟩
  fits : s.rawDumpHeader.dumpSize.toNat ≤ partitionSize.toNat
  /-- The partition holds the headers. -/
  overall : c.Holds ⟨0, dumpHeaderSize⟩ (bufferOf s.rawDumpHeader.encode)
  headers : headersRequiredSize d.dloadDebugInfo.length < partitionSize.toNat →
    ∀ i < d.dloadDebugInfo.length, ∃ h, s.rawDumpSectionHeaderTable[i]? = some h ∧
      c.Holds ⟨dumpHeaderSize + sectionHeaderSize * i, sectionHeaderSize⟩ (bufferOf h.encode)
  /-- The areas of the sections follow one another behind the headers, up to what is in use. -/
  areas : headersRequiredSize d.dloadDebugInfo.length < partitionSize.toNat →
    Span.Chain (headersRequiredSize d.dloadDebugInfo.length)
      ((s.rawDumpSectionHeaderTable.take s.rawDumpHeader.sectionsCount.toNat).map
        SectionHeader.area)
      s.rawDumpHeader.dumpSize.toNat
  headerOnly : partitionSize.toNat ≤ headersRequiredSize d.dloadDebugInfo.length →
    s.rawDumpHeader.sectionsCount = 0 ∧ s.rawDumpHeader.dumpSize.toNat = dumpHeaderSize
  /-- A section is valid with all of its region, or the last one, with the part that fits. -/
  sections : s.rawDumpHeader.sectionsCount.toNat ≤ d.dloadDebugInfo.length ∧
    ∀ i < s.rawDumpHeader.sectionsCount.toNat, ∃ h e, s.rawDumpSectionHeaderTable[i]? = some h ∧
      d.dloadDebugInfo[i]? = some e ∧
      (h.validityFlag = ramDumpValidMask ∧ h.sectionSize = e.length ∨
        h.validityFlag = ramDumpInsufficientStorageMask ∧
          i + 1 = s.rawDumpHeader.sectionsCount.toNat ∧ h.sectionSize < e.length) ∧
      c.Holds h.area (memoryFrom memory e.memBase)
  unused : ∀ i h, s.rawDumpHeader.sectionsCount.toNat ≤ i →
    s.rawDumpSectionHeaderTable[i]? = some h →
    h.validityFlag = 0
  /-- The dump is valid when each region is, and insufficient else. -/
  complete : s.rawDumpHeader.validityFlag = ramDumpValidMask ↔ ∀ i < d.dloadDebugInfo.length,
    ∃ h, s.rawDumpSectionHeaderTable[i]? = some h ∧ h.validityFlag = ramDumpValidMask
  incomplete : s.rawDumpHeader.validityFlag ≠ ramDumpValidMask →
    s.rawDumpHeader.validityFlag = ramDumpInsufficientStorageMask

/-- The dump is faithful, whatever memory and the partition held before. -/
def AlwaysFaithful (d : DloadDebug) (partitionSize : UInt64) : Prop :=
  ∀ memory c, ∃ s, bootProcessRawRamDump d memory partitionSize = some s ∧
    Faithful d memory partitionSize (Write.apply s.writes c) s

/-- With this much free space it makes no difference that one entry is read for another. -/
structure ReadsSame (e r : DloadDebugType) (free : Nat) : Prop where
  fits : r.length.toNat ≤ free ↔ e.length.toNat ≤ free
  length : e.length.toNat ≤ free → r.length = e.length
  base : 0 < min e.length.toNat free → r.memBase = e.memBase

/-- For each entry that is reached with some free space, the one that is read instead is as good,
and less than 4 GiB are to be written. -/
def SoundFrom : List DloadDebugType → List DloadDebugType → Nat → Prop
  | e :: es, r :: rs, free =>
    ReadsSame e r free ∧ min e.length.toNat free < 2 ^ 32 ∧
      (e.length.toNat ≤ free → SoundFrom es rs (free - e.length.toNat))
  | _, _, _ => True

/-- The entries are as good as those that are read for them, and the partition is not one that just
holds the header of an empty dump. -/
structure SoundDump (d : DloadDebug) (partitionSize : UInt64) : Prop where
  sections : headersRequiredSize d.dloadDebugInfo.length < partitionSize.toNat →
    SoundFrom d.dloadDebugInfo (readEntries d)
      (partitionSize.toNat - headersRequiredSize d.dloadDebugInfo.length)
  room : d.dloadDebugInfo = [] → partitionSize.toNat ≠ dumpHeaderSize

/-- The section has the bytes of the entry: all of them, or as many as there is room for. -/
structure Section.Matches (x : Section) (e : DloadDebugType) : Prop where
  small : x.size < 2 ^ 32
  size : if x.whole then x.size = e.length.toNat else x.size < e.length.toNat
  base : 0 < x.size → x.entry.memBase = e.memBase

/-! ## Sound entries -/

/-- Sound entries are those whose sections have the right bytes. -/
theorem soundFrom_iff (es rs : List DloadDebugType) (offset free : Nat)
    (hlen : es.length = rs.length) : SoundFrom es rs free ↔
      ∀ (j : Nat) (x : Section), (layout rs offset free)[j]? = some x →
        ∃ e, es[j]? = some e ∧ x.Matches e := by
  induction rs generalizing es offset free with
  | nil =>
    cases es with
    | nil =>
      refine ⟨fun _ j x h => ?_, fun _ => trivial⟩
      rw [layout] at h
      cases h
    | cons e es => cases hlen
  | cons r rs ih =>
    cases es with
    | nil => cases hlen
    | cons e es =>
      have hrest := ih es (offset + r.length.toNat) (free - r.length.toNat) (Nat.succ.inj hlen)
      rw [SoundFrom, layout]
      split
      · next hfits =>
        constructor
        · rintro ⟨hsame, hsmall, hall⟩ j x hx
          have hle := hsame.fits.mp hfits
          have hlength := hsame.length hle
          rw [Nat.min_eq_left hle] at hsmall
          cases j with
          | zero =>
            cases hx
            refine ⟨e, rfl, ?_, ?_, fun hpos => hsame.base ?_⟩
            · rw [hlength]
              exact hsmall
            · exact congrArg UInt64.toNat hlength
            · rw [Nat.min_eq_left hle, ← hlength]
              exact hpos
          | succ j => exact hrest.mp (hlength ▸ hall hle) j x hx
        · intro h
          obtain ⟨e', he', hmatch⟩ := h 0 _ rfl
          cases he'
          have hsize : r.length = e.length := UInt64.toNat_inj.mp hmatch.size
          refine ⟨⟨by rw [hsize], fun _ => hsize, fun hpos => hmatch.base ?_⟩, ?_, fun _ => ?_⟩
          · show 0 < r.length.toNat
            rw [hsize]
            exact Nat.lt_of_lt_of_le hpos (Nat.min_le_left ..)
          · exact Nat.lt_of_le_of_lt (Nat.min_le_left ..) (hsize ▸ hmatch.small)
          · rw [← hsize]
            exact hrest.mpr fun j x hx => h (j + 1) x hx
      · next hfits =>
        constructor
        · rintro ⟨hsame, hsmall, -⟩ j x hx
          have hgt : free < e.length.toNat := Nat.not_le.mp fun hle => hfits (hsame.fits.mpr hle)
          have hmin : min e.length.toNat free = free := Nat.min_eq_right (Nat.le_of_lt hgt)
          cases j with
          | zero =>
            cases hx
            exact ⟨e, rfl, hmin ▸ hsmall, hgt, fun hpos => hsame.base (hmin.symm ▸ hpos)⟩
          | succ j => cases hx
        · intro h
          obtain ⟨e', he', hmatch⟩ := h 0 _ rfl
          cases he'
          have hgt : free < e.length.toNat := hmatch.size
          have hmin : min e.length.toNat free = free := Nat.min_eq_right (Nat.le_of_lt hgt)
          have hno : ¬ e.length.toNat ≤ free := Nat.not_le.mpr hgt
          refine ⟨⟨iff_of_false hfits hno, fun hle => (hno hle).elim, fun hpos => ?_⟩, ?_,
            fun hle => (hno hle).elim⟩
          · exact hmatch.base (hmin ▸ hpos)
          · rw [hmin]
            exact hmatch.small

/-! ## What the areas hold -/

section
variable {memory : UInt64 → UInt8} {xs : List Section} {x : Section} {c : Contents} {a : Nat}

/-- Beside the areas nothing changes. -/
theorem Section.put_of_not_mem (h : ¬ x.area.Mem a) : x.put memory c a = c a := by
  refine if_neg fun hmem => h ⟨hmem.1, Nat.lt_of_lt_of_le hmem.2 ?_⟩
  exact Nat.add_le_add_left (Nat.mod_le ..) _

theorem putSections_of_not_mem (h : ∀ x ∈ xs, ¬ x.area.Mem a) :
    putSections memory xs c a = c a := by
  induction xs generalizing c with
  | nil => rfl
  | cons x xs ih =>
    have hrest := ih (c := x.put memory c) fun y hy => h y (.tail _ hy)
    exact hrest.trans (Section.put_of_not_mem (h x (.head _)))

/-- An area holds what its own section puts there. -/
theorem putSections_of_mem (hdisjoint : (xs.map Section.area).Pairwise Span.Disjoint) (hx : x ∈ xs)
    (ha : x.area.Mem a) : putSections memory xs c a = x.put memory c a := by
  have hother : ∀ {s t : Span}, s.Disjoint t → s.Mem a → ¬ t.Mem a := by
    intro s t h hs ht
    simp only [Span.Disjoint, Span.stop, Span.Mem] at h hs ht
    omega
  induction xs generalizing c with
  | nil => cases hx
  | cons y ys ih =>
    rw [map_cons, pairwise_cons] at hdisjoint
    obtain ⟨hhead, htail⟩ := hdisjoint
    rcases mem_cons.mp hx with rfl | hx
    · refine putSections_of_not_mem (c := x.put memory c) fun y hy => ?_
      exact hother (hhead _ (List.mem_map_of_mem hy)) ha
    · have hy : y.put memory c a = c a := by
        refine Section.put_of_not_mem fun hmem => ?_
        exact hother (hhead _ (List.mem_map_of_mem hx)) hmem ha
      refine (ih (c := y.put memory c) htail hx).trans ?_
      simp only [Section.put] at hy ⊢
      rw [hy]

/-- **An area holds the bytes of a region**, whatever memory and the partition held, exactly when
it is less than 4 GiB and the bytes are read from the region, unless there are none. -/
theorem holds_put_iff (x : Section) (base : UInt64) :
    (∀ memory c, Contents.Holds (x.put memory c) x.area (memoryFrom memory base)) ↔
      x.size < 2 ^ 32 ∧ (0 < x.size → x.entry.memBase = base) := by
  constructor
  · intro h
    have hsmall : x.size < 2 ^ 32 := by
      refine Nat.not_le.mp fun hge => ?_
      have hlt := Nat.mod_lt x.size (show 2 ^ 32 > 0 by decide)
      have hold := h (fun _ => 0) (fun _ => 1) (x.size % 2 ^ 32) (by
        show _ < x.size
        omega)
      have hno : ¬ (Span.mk x.offset (x.size % 2 ^ 32)).Mem (x.offset + x.size % 2 ^ 32) :=
        fun hmem => Nat.lt_irrefl _ hmem.2
      rw [Section.put, Section.area, if_neg hno] at hold
      exact absurd hold (show ¬ (1 : UInt8) = 0 by decide)
    refine ⟨hsmall, fun hpos => ?_⟩
    have hbyte := h (fun a => if a = x.entry.memBase then 1 else 0) (fun _ => 0) 0 hpos
    have hmem : (Span.mk x.offset (x.size % 2 ^ 32)).Mem (x.offset + 0) := by
      rw [Nat.mod_eq_of_lt hsmall]
      exact ⟨Nat.le_refl _, Nat.add_lt_add_left hpos _⟩
    have hzero : UInt64.ofNat 0 = 0 := rfl
    rw [Section.put, Section.area, if_pos hmem, Nat.add_sub_cancel_left] at hbyte
    simp only [memoryFrom, hzero, UInt64.add_zero, if_true] at hbyte
    refine Decidable.byContradiction fun hne => ?_
    rw [if_neg (Ne.symm hne)] at hbyte
    exact absurd hbyte (by decide)
  · rintro ⟨hsmall, hbase⟩ memory c k hk
    have hpos : 0 < x.size := Nat.lt_of_le_of_lt (Nat.zero_le _) hk
    have hmem : (Span.mk x.offset (x.size % 2 ^ 32)).Mem (x.offset + k) := by
      rw [Nat.mod_eq_of_lt hsmall]
      exact ⟨Nat.le_add_right _ _, Nat.add_lt_add_left hk _⟩
    show Section.put memory x c (x.offset + k) = _
    rw [Section.put, if_pos hmem, Nat.add_sub_cancel_left, hbase hpos]

end

/-! ## What the headers say -/

/-- The header of one section among those of all. -/
theorem bufferOf_flatMap {hs : List SectionHeader}
    (hlen : ∀ h ∈ hs, h.encode.length = sectionHeaderSize)
    {i k : Nat} {h : SectionHeader} (hi : hs[i]? = some h) (hk : k < sectionHeaderSize) :
    bufferOf (hs.flatMap (·.encode)) (sectionHeaderSize * i + k) = bufferOf h.encode k := by
  simp only [bufferOf, getD_eq_getElem?_getD]
  congr 1
  induction hs generalizing i with
  | nil => nomatch hi
  | cons x hs ih =>
    have hx := hlen x (.head _)
    rw [flatMap_cons]
    cases i with
    | zero =>
      cases hi
      rw [Nat.mul_zero, Nat.zero_add, getElem?_append_left (hx ▸ hk)]
    | succ i =>
      rw [getElem?_append_right (by rw [hx, Nat.mul_succ]; omega), hx]
      have := ih (fun y hy => hlen y (.tail _ hy)) hi
      rw [← this]
      congr 1
      rw [Nat.mul_succ]
      omega

theorem Section.header_encode_length (x : Section) :
    x.header.encode.length = sectionHeaderSize := by
  refine SectionHeader.encode_length ?_
  show (strlcpy _ _).length ≤ _
  rw [strlcpy, length_take]
  exact Nat.le_trans (Nat.min_le_left ..) (Nat.sub_le ..)

variable {rs : List DloadDebugType}

/-- Only the last section may not be whole. -/
theorem layout_part {offset free j : Nat} {x : Section}
    (h : (layout rs offset free)[j]? = some x) (hpart : x.whole = false) :
    j + 1 = (layout rs offset free).length := by
  induction rs generalizing offset free j with
  | nil =>
    rw [layout] at h
    cases h
  | cons r rs ih =>
    rw [layout] at h ⊢
    split at h
    · next hfits =>
      rw [if_pos hfits, length_cons]
      cases j with
      | zero =>
        cases h
        cases hpart
      | succ j => exact congrArg (· + 1) (ih h)
    · next hfits =>
      rw [if_neg hfits]
      cases j with
      | zero => rfl
      | succ j => cases h

/-- When each section is whole there is one for each entry. -/
theorem layout_all {offset free : Nat} (h : (layout rs offset free).all (·.whole) = true) :
    (layout rs offset free).length = rs.length := by
  induction rs generalizing offset free with
  | nil => rfl
  | cons r rs ih =>
    rw [layout] at h ⊢
    split at h
    · next hfits =>
      rw [if_pos hfits, length_cons, length_cons]
      rw [all_cons, Bool.true_and] at h
      exact congrArg (· + 1) (ih h)
    · next hfits => cases h

namespace Outcome
variable {d : DloadDebug} {memory : UInt64 → UInt8} {partitionSize : UInt64} {s : RawDump}
  {xs : List Section} {x : Section} {i : Nat}

theorem getElem?_header (h : Outcome d memory partitionSize xs s) (hi : xs[i]? = some x) :
    s.rawDumpSectionHeaderTable[i]? = some x.header := by
  have hlt : i < (xs.map Section.header).length := by
    rw [length_map]
    exact (List.getElem?_eq_some_iff.mp hi).1
  rw [h.table, getElem?_append_left hlt, getElem?_map, hi, map_some]

theorem getElem?_clear (h : Outcome d memory partitionSize xs s) (hi : xs.length ≤ i)
    (hfit : i < numRegions) : s.rawDumpSectionHeaderTable[i]? = some .clear := by
  rw [h.table, getElem?_append_right (by rw [length_map]; exact hi), length_map,
    getElem?_replicate, if_pos]
  rw [maxRawDumpSectionNum]
  omega

/-- A header in the table is that of a section, or clear. -/
theorem header_cases (h : Outcome d memory partitionSize xs s) {hdr : SectionHeader}
    (hhdr : s.rawDumpSectionHeaderTable[i]? = some hdr) :
    (∃ x, xs[i]? = some x ∧ hdr = x.header) ∨ xs.length ≤ i ∧ hdr = .clear := by
  rcases Nat.lt_or_ge i xs.length with hlt | hge
  · rw [h.getElem?_header (getElem?_eq_getElem hlt)] at hhdr
    exact .inl ⟨xs[i], getElem?_eq_getElem hlt, (Option.some.inj hhdr).symm⟩
  · rw [h.table, getElem?_append_right (by rw [length_map]; exact hge)] at hhdr
    exact .inr ⟨hge, eq_of_mem_replicate (mem_of_getElem? hhdr)⟩

/-- The partition holds each section header. -/
theorem holds_header (h : Outcome d memory partitionSize xs s) (c : Contents)
    (hi : i < d.dloadDebugInfo.length) : ∃ hdr, s.rawDumpSectionHeaderTable[i]? = some hdr ∧
      (Write.apply s.writes c).Holds ⟨dumpHeaderSize + sectionHeaderSize * i, sectionHeaderSize⟩
        (bufferOf hdr.encode) := by
  have hsome : ∃ hdr, s.rawDumpSectionHeaderTable[i]? = some hdr := by
    rcases Nat.lt_or_ge i xs.length with hlt | hge
    · exact ⟨_, h.getElem?_header (getElem?_eq_getElem hlt)⟩
    · exact ⟨_, h.getElem?_clear hge (Nat.lt_of_lt_of_le hi d.regions_fit)⟩
  obtain ⟨hdr, hhdr⟩ := hsome
  refine ⟨hdr, hhdr, fun k hk => ?_⟩
  have hencode : ∀ hdr ∈ s.rawDumpSectionHeaderTable, hdr.encode.length = sectionHeaderSize := by
    intro hdr hmem
    obtain ⟨j, hj⟩ := getElem?_of_mem hmem
    rcases h.header_cases hj with ⟨x, -, rfl⟩ | ⟨-, rfl⟩
    · exact x.header_encode_length
    · rfl
  have hbytes := bufferOf_flatMap (k := k) (fun y hy => hencode y (mem_of_mem_take hy))
    ((getElem?_take_of_lt hi).trans hhdr) hk
  have hall := h.headers c (sectionHeaderSize * i + k) (by
    have hk : k < 64 := hk
    show 64 * i + k < 64 * _
    omega)
  rw [← hbytes, Nat.add_assoc]
  exact hall

end Outcome

/-! ## The theorem -/

section
variable {d : DloadDebug} {memory : UInt64 → UInt8} {partitionSize : UInt64} {s : RawDump}
  {xs : List Section} {x : Section} {i : Nat}

/-- The sections that are laid out in the partition. -/
def sectionsOf (d : DloadDebug) (partitionSize : UInt64) : List Section :=
  layout (readEntries d) (headersRequiredSize d.dloadDebugInfo.length)
    (partitionSize.toNat - headersRequiredSize d.dloadDebugInfo.length)

theorem sectionsOf_chain (d : DloadDebug) (partitionSize : UInt64) :
    Span.Chain (headersRequiredSize d.dloadDebugInfo.length)
      ((sectionsOf d partitionSize).map Section.area)
      (endOf (headersRequiredSize d.dloadDebugInfo.length) (sectionsOf d partitionSize)) :=
  layout_chain _ _ _

theorem sectionsOf_length_le : (sectionsOf d partitionSize).length ≤ d.dloadDebugInfo.length :=
  readEntries_length ▸ layout_length_le _ _ _

theorem endOf_sectionsOf_le
    (hroom : headersRequiredSize d.dloadDebugInfo.length < partitionSize.toNat) :
    endOf (headersRequiredSize d.dloadDebugInfo.length) (sectionsOf d partitionSize) ≤
      partitionSize.toNat := by
  have := layout_end_le (readEntries d) (headersRequiredSize d.dloadDebugInfo.length)
    (partitionSize.toNat - headersRequiredSize d.dloadDebugInfo.length)
  rwa [Nat.add_sub_cancel' (Nat.le_of_lt hroom)] at this

/-- The area of a section lies behind the headers and in the partition. -/
theorem area_bounds (hroom : headersRequiredSize d.dloadDebugInfo.length < partitionSize.toNat)
    (hx : x ∈ sectionsOf d partitionSize) :
    headersRequiredSize d.dloadDebugInfo.length ≤ x.offset ∧
      x.offset + x.size ≤ partitionSize.toNat := by
  have hchain := sectionsOf_chain d partitionSize
  obtain ⟨hlo, hhi⟩ := hchain.within _ (List.mem_map_of_mem hx)
  have hend := endOf_sectionsOf_le hroom
  have hle := hchain.le
  simp only [Section.area] at hlo hhi
  omega

/-- The header of a section tells its area. -/
theorem area_header (hroom : headersRequiredSize d.dloadDebugInfo.length < partitionSize.toNat)
    (hx : x ∈ sectionsOf d partitionSize) : x.header.area = x.area := by
  obtain ⟨-, hend⟩ := area_bounds hroom hx
  have hsize := partitionSize.toNat_lt
  have hoffset : (UInt64.ofNat x.offset).toNat = x.offset := UInt64.toNat_ofNat_of_lt' (by
    show _ < 2 ^ 64
    omega)
  have hlen : (UInt64.ofNat x.size).toNat = x.size := UInt64.toNat_ofNat_of_lt' (by
    show _ < 2 ^ 64
    omega)
  show Span.mk (UInt64.ofNat x.offset).toNat (UInt64.ofNat x.size).toNat = _
  rw [hoffset, hlen]
  rfl

/-- The area of a section holds what the section puts there. -/
theorem Outcome.holds_iff (h : Outcome d memory partitionSize (sectionsOf d partitionSize) s)
    (hroom : headersRequiredSize d.dloadDebugInfo.length < partitionSize.toNat)
    (hx : x ∈ sectionsOf d partitionSize) (c : Contents) (buf : Nat → UInt8) :
    (Write.apply s.writes c).Holds x.area buf ↔ Contents.Holds (x.put memory c) x.area buf := by
  have hbyte : ∀ k < x.size, Write.apply s.writes c (x.offset + k) = x.put memory c
      (x.offset + k) := by
    intro k hk
    have hlo := (area_bounds hroom hx).1
    rw [h.data c _ (Nat.le_trans hlo (Nat.le_add_right _ _))]
    exact putSections_of_mem (sectionsOf_chain d partitionSize).pairwise_disjoint hx
      ⟨Nat.le_add_right _ _, Nat.add_lt_add_left hk _⟩
  exact ⟨fun hall k hk => (hbyte k hk).symm.trans (hall k hk),
    fun hall k hk => (hbyte k hk).trans (hall k hk)⟩

/-- The dump is valid when each section is whole, which is when each region has a valid section. -/
theorem Outcome.complete_iff (h : Outcome d memory partitionSize (sectionsOf d partitionSize) s) :
    s.rawDumpHeader.validityFlag = ramDumpValidMask ↔ ∀ i < d.dloadDebugInfo.length,
      ∃ hdr, s.rawDumpSectionHeaderTable[i]? = some hdr ∧ hdr.validityFlag = ramDumpValidMask := by
  rw [h.validity]
  constructor
  · intro hvalid i hi
    have hall : (sectionsOf d partitionSize).all (·.whole) = true := by
      refine Decidable.byContradiction fun hno => ?_
      rw [if_neg hno] at hvalid
      exact absurd hvalid (by decide)
    have hlen : (sectionsOf d partitionSize).length = d.dloadDebugInfo.length :=
      (layout_all hall).trans readEntries_length
    have hx := getElem?_eq_getElem (hlen ▸ hi)
    refine ⟨_, h.getElem?_header hx, if_pos ?_⟩
    exact List.all_eq_true.mp hall _ (getElem_mem _)
  · intro hall
    refine if_pos (List.all_eq_true.mpr fun x hx => ?_)
    obtain ⟨i, hi⟩ := getElem?_of_mem hx
    have hlt := (List.getElem?_eq_some_iff.mp hi).1
    obtain ⟨hdr, hhdr, hvalid⟩ := hall i (Nat.lt_of_lt_of_le hlt sectionsOf_length_le)
    rw [h.getElem?_header hi] at hhdr
    cases hhdr
    refine Decidable.byContradiction fun hpart => ?_
    rw [Section.header, if_neg hpart] at hvalid
    exact absurd hvalid (show ¬ ramDumpInsufficientStorageMask = ramDumpValidMask by decide)

/-- Sections with the right bytes make a faithful dump. -/
theorem Outcome.faithful (h : Outcome d memory partitionSize (sectionsOf d partitionSize) s)
    (hroom : headersRequiredSize d.dloadDebugInfo.length < partitionSize.toNat) (c : Contents)
    (hmatch : ∀ (j : Nat) (x : Section), (sectionsOf d partitionSize)[j]? = some x →
      ∃ e, d.dloadDebugInfo[j]? = some e ∧ x.Matches e) :
    Faithful d memory partitionSize (Write.apply s.writes c) s where
  within := h.within
  fits := by
    rw [h.dumpSize]
    exact endOf_sectionsOf_le hroom
  overall := h.overall c
  headers _ i hi := h.holds_header c hi
  areas _ := by
    have hareas : ((sectionsOf d partitionSize).map Section.header).map SectionHeader.area =
        (sectionsOf d partitionSize).map Section.area := by
      rw [List.map_map]
      exact map_congr_left fun x hx => area_header hroom hx
    have htake : (s.rawDumpSectionHeaderTable.take s.rawDumpHeader.sectionsCount.toNat) =
        (sectionsOf d partitionSize).map Section.header := by
      rw [h.table, h.count]
      exact take_left' (length_map _)
    rw [h.dumpSize, htake, hareas]
    exact sectionsOf_chain d partitionSize
  headerOnly hle := absurd hroom (Nat.not_lt.mpr hle)
  sections := by
    rw [h.count]
    refine ⟨sectionsOf_length_le, fun i hi => ?_⟩
    have hx := getElem?_eq_getElem hi
    have hmem : (sectionsOf d partitionSize)[i] ∈ sectionsOf d partitionSize := getElem_mem hi
    obtain ⟨e, he, hmatches⟩ := hmatch i _ hx
    obtain ⟨hsmall, hsize, hbase⟩ := hmatches
    refine ⟨_, e, h.getElem?_header hx, he, ?_, ?_⟩
    · rcases hwhole : (sectionsOf d partitionSize)[i].whole with _ | _
      · rw [hwhole, if_neg Bool.false_ne_true] at hsize
        refine .inr ⟨?_, layout_part hx hwhole, ?_⟩
        · rw [Section.header, hwhole]
          rfl
        · show UInt64.ofNat _ < _
          rw [UInt64.lt_iff_toNat_lt, UInt64.toNat_ofNat_of_lt' (Nat.lt_trans hsmall (by decide))]
          exact hsize
      · rw [hwhole, if_pos rfl] at hsize
        refine .inl ⟨?_, ?_⟩
        · rw [Section.header, hwhole]
          rfl
        · show UInt64.ofNat _ = _
          rw [hsize, UInt64.ofNat_toNat]
    · rw [area_header hroom hmem, h.holds_iff hroom hmem]
      exact (holds_put_iff _ _).mpr ⟨hsmall, hbase⟩ memory c
  unused i hdr hi hhdr := by
    rw [h.count] at hi
    rcases h.header_cases hhdr with ⟨x, hx, -⟩ | ⟨-, rfl⟩
    · exact absurd (List.getElem?_eq_some_iff.mp hx).1 (Nat.not_lt.mpr hi)
    · rfl
  complete := h.complete_iff
  incomplete hno := by
    rw [h.validity] at hno ⊢
    split
    · next hall => exact absurd (if_pos hall) hno
    · rfl

/-- A faithful dump says which region a section has. -/
theorem Outcome.section_of_faithful
    (h : Outcome d memory partitionSize (sectionsOf d partitionSize) s)
    (hroom : headersRequiredSize d.dloadDebugInfo.length < partitionSize.toNat) {c : Contents}
    (hfaithful : Faithful d memory partitionSize (Write.apply s.writes c) s)
    (hx : (sectionsOf d partitionSize)[i]? = some x) :
    ∃ e, d.dloadDebugInfo[i]? = some e ∧
      (if x.whole then x.size = e.length.toNat else x.size < e.length.toNat) ∧
      Contents.Holds (x.put memory c) x.area (memoryFrom memory e.memBase) := by
  have hmem := mem_of_getElem? hx
  have hlt := (List.getElem?_eq_some_iff.mp hx).1
  obtain ⟨hdr, e, hhdr, he, hsize, hholds⟩ := hfaithful.sections.2 i (h.count ▸ hlt)
  rw [h.getElem?_header hx] at hhdr
  cases hhdr
  rw [area_header hroom hmem, h.holds_iff hroom hmem] at hholds
  refine ⟨e, he, ?_, hholds⟩
  have hend := (area_bounds hroom hmem).2
  have hnat : x.header.sectionSize.toNat = x.size := UInt64.toNat_ofNat_of_lt' (by
    have := partitionSize.toNat_lt
    show _ < 2 ^ 64
    omega)
  rcases hsize with ⟨hvalid, hsize⟩ | ⟨hpart, -, hsize⟩
  · have hwhole : x.whole = true := by
      refine Decidable.byContradiction fun hno => ?_
      rw [Section.header, if_neg hno] at hvalid
      exact absurd hvalid (show ¬ ramDumpInsufficientStorageMask = ramDumpValidMask by decide)
    rw [if_pos hwhole, ← hnat, hsize]
  · have hno : ¬ x.whole = true := by
      intro hwhole
      rw [Section.header, if_pos hwhole] at hpart
      exact absurd hpart (show ¬ ramDumpValidMask = ramDumpInsufficientStorageMask by decide)
    rw [if_neg hno, ← hnat]
    exact UInt64.lt_iff_toNat_lt.mp hsize

/-- Dumps that are faithful, whatever memory and the partition held, have sections with the right
bytes. -/
theorem matches_of_faithful
    (hroom : headersRequiredSize d.dloadDebugInfo.length < partitionSize.toNat)
    (hall : AlwaysFaithful d partitionSize) (hx : (sectionsOf d partitionSize)[i]? = some x) :
    ∃ e, d.dloadDebugInfo[i]? = some e ∧ x.Matches e := by
  have hsection : ∀ memory c, ∃ e, d.dloadDebugInfo[i]? = some e ∧
      (if x.whole then x.size = e.length.toNat else x.size < e.length.toNat) ∧
      Contents.Holds (x.put memory c) x.area (memoryFrom memory e.memBase) := by
    intro memory c
    obtain ⟨s, hrun, hfaithful⟩ := hall memory c
    obtain ⟨s', hrun', hout⟩ := bootProcessRawRamDump_outcome memory hroom
    cases hrun.symm.trans hrun'
    exact hout.section_of_faithful hroom hfaithful hx
  obtain ⟨e, he, hsize, -⟩ := hsection (fun _ => 0) (fun _ => 0)
  have hholds : ∀ memory c, Contents.Holds (x.put memory c) x.area
      (memoryFrom memory e.memBase) := by
    intro memory c
    obtain ⟨e', he', -, hholds⟩ := hsection memory c
    cases he.symm.trans he'
    exact hholds
  obtain ⟨hsmall, hbase⟩ := (holds_put_iff x e.memBase).mp hholds
  exact ⟨e, he, hsmall, hsize, hbase⟩

/-- When there is no room for the headers, only the overall one is written. -/
theorem bootProcessRawRamDump_headerOnly (memory : UInt64 → UInt8)
    (hroom : partitionSize.toNat ≤ headersRequiredSize d.dloadDebugInfo.length) :
    ∃ s, bootProcessRawRamDump d memory partitionSize = some s ∧
      s.rawDumpHeader.dumpSize.toNat = dumpHeaderSize ∧ s.rawDumpHeader.sectionsCount = 0 ∧
      s.rawDumpHeader.validityFlag = ramDumpInsufficientStorageMask ∧
      s.rawDumpSectionHeaderTable = replicate maxRawDumpSectionNum .clear ∧
      (∀ w ∈ s.writes, w.span.Within ⟨0, dumpHeaderSize⟩) ∧
      ∀ c, (Write.apply s.writes c).Holds
        ⟨0, dumpHeaderSize⟩ (bufferOf s.rawDumpHeader.encode) := by
  have hsmall := headersRequiredSize_lt (d := d)
  have hfit : ¬ d.dloadDebugInfo.length > maxRawDumpSectionNum := Nat.not_lt.mpr d.regions_fit
  have hno : ¬ partitionSize > .ofNat (headersRequiredSize d.dloadDebugInfo.length) := by
    rw [gt_iff_lt, UInt64.lt_iff_toNat_lt,
      UInt64.toNat_ofNat_of_lt' (Nat.lt_trans hsmall (by decide))]
    exact Nat.not_lt.mpr hroom
  rw [bootProcessRawRamDump, if_neg hfit, if_neg hno]
  dsimp only
  obtain ⟨ws₁, hws₁, hput₁⟩ := dumpOverallHeaders_puts (bootRamDumpHeaderInit d)
  rw [hws₁]
  generalize ht : RawDump.mark _ _ = t
  obtain ⟨ws₂, hws₂, hput₂⟩ := dumpOverallHeaders_puts t
  have hwrites : t.writes = ws₁ := by
    rw [← ht]
    rfl
  rw [hws₂]
  refine ⟨_, rfl, ?_, ?_, ?_, ?_, fun w hw => ?_, fun c => ?_⟩
  · rw [← ht]
    rfl
  · rw [← ht]
    rfl
  · rw [← ht]
    exact UInt32.zero_or
  · rw [← ht]
    rfl
  · rcases mem_append.mp hw with hw | hw
    · exact hput₁.within w (hwrites ▸ hw)
    · exact hput₂.within w hw
  · rw [Write.apply_append]
    exact hput₂.holds _

/-- **The raw dump is faithful**, whatever memory and the partition held before, exactly when the
table is sound for the size of the partition. -/
theorem rawDump_faithful_iff (d : DloadDebug) (partitionSize : UInt64)
    (hholds : dumpHeaderSize ≤ partitionSize.toNat) :
    AlwaysFaithful d partitionSize ↔ SoundDump d partitionSize := by
  rcases Nat.lt_or_ge (headersRequiredSize d.dloadDebugInfo.length) partitionSize.toNat with
    hroom | hroom
  · have hiff := soundFrom_iff d.dloadDebugInfo (readEntries d)
      (headersRequiredSize d.dloadDebugInfo.length)
      (partitionSize.toNat - headersRequiredSize d.dloadDebugInfo.length) readEntries_length.symm
    constructor
    · intro hall
      refine ⟨fun _ => hiff.mpr fun j x hx => matches_of_faithful hroom hall hx,
        fun hnil hsize => ?_⟩
      rw [hnil, hsize] at hroom
      exact absurd hroom (by decide)
    · intro hsound memory c
      obtain ⟨s, hrun, hout⟩ := bootProcessRawRamDump_outcome memory hroom
      exact ⟨s, hrun, hout.faithful hroom c (hiff.mp (hsound.sections hroom))⟩
  · constructor
    · intro hall
      refine ⟨fun hlt => absurd hroom (Nat.not_le.mpr hlt), fun hnil _ => ?_⟩
      obtain ⟨s, hrun, hfaithful⟩ := hall (fun _ => 0) (fun _ => 0)
      obtain ⟨s', hrun', -, -, hvalidity, -⟩ := bootProcessRawRamDump_headerOnly (fun _ => 0) hroom
      cases hrun.symm.trans hrun'
      have hvalid := hfaithful.complete.mpr fun i hi => by
        rw [hnil] at hi
        nomatch hi
      rw [hvalidity] at hvalid
      exact absurd hvalid (by decide)
    · intro hsound memory c
      obtain ⟨s, hrun, hdump, hcount, hvalidity, htable, hwithin, hoverall⟩ :=
        bootProcessRawRamDump_headerOnly memory hroom
      have hnone : d.dloadDebugInfo ≠ [] := by
        intro hnil
        refine hsound.room hnil (Nat.le_antisymm ?_ hholds)
        rwa [hnil] at hroom
      have hclear : ∀ {i : Nat} {hdr : SectionHeader}, s.rawDumpSectionHeaderTable[i]? = some hdr →
          hdr = .clear := by
        intro i hdr hhdr
        rw [htable] at hhdr
        exact eq_of_mem_replicate (mem_of_getElem? hhdr)
      refine ⟨s, hrun, hdump ▸ hwithin, hdump ▸ hholds, hoverall c,
        fun hlt => absurd hroom (Nat.not_le.mpr hlt), fun hlt => absurd hroom (Nat.not_le.mpr hlt),
        fun _ => ⟨hcount, hdump⟩, ⟨?_, fun i hi => ?_⟩, fun i hdr _ hhdr =>
          ?_, ?_, fun _ => hvalidity⟩
      · rw [hcount]
        exact Nat.zero_le _
      · rw [hcount] at hi
        nomatch hi
      · rw [hclear hhdr]
        rfl
      · rw [hvalidity]
        constructor
        · intro hvalid
          exact absurd hvalid (by decide)
        · intro hall
          obtain ⟨hdr, hhdr, hvalid⟩ := hall 0 (length_pos_iff.mpr hnone)
          rw [hclear hhdr] at hvalid
          exact absurd hvalid (by decide)

end

/-- Three regions, the last of them of two pages. -/
def smallTable : DloadDebug :=
  ⟨[⟨.mandatory, 0x1000, 256, [], [], by decide⟩,
    ⟨.optionalDefSave, 0x8000, 512, [], [], by decide⟩,
    ⟨.mandatory, 0x20000, 8192, [], [], by decide⟩], [], false, by decide, noRestrictedRegions_fit⟩

/-- In a partition of a page the last of the three regions is cut, and the header says so. -/
theorem rawDump_faithful_small : AlwaysFaithful smallTable 4096 ∧
    (sectionsOf smallTable 4096).map (·.whole) = [true, true, false] := by
  refine ⟨(rawDump_faithful_iff smallTable 4096 (by decide)).mpr ⟨fun _ => ?_, nofun⟩, by decide⟩
  refine ⟨⟨Iff.rfl, fun _ => rfl, fun _ => rfl⟩, by decide, fun _ => ?_⟩
  refine ⟨⟨Iff.rfl, fun _ => rfl, fun _ => rfl⟩, by decide, fun _ => ?_⟩
  exact ⟨⟨Iff.rfl, fun _ => rfl, fun _ => rfl⟩, by decide, fun _ => trivial⟩

/-! ## Dumps that are not faithful -/

/-- A region of 4 GiB. -/
def hugeTable : DloadDebug :=
  ⟨[⟨.mandatory, 0x80000000, 0x100000000, [], [], by decide⟩], [],
    false, by decide, noRestrictedRegions_fit⟩

/-- Words of memory, one region more than eight bits can count. -/
def wordsTable : DloadDebug :=
  ⟨(List.range 257).map fun i => ⟨.mandatory, 4 * .ofNat i, 4, [], [], by decide⟩, [], false,
    by decide +kernel, noRestrictedRegions_fit⟩

/-- Of a region of 4 GiB nothing is written, of 257 words the last is another, and an empty dump in
a partition that just holds it is not valid. -/
theorem rawDump_not_faithful : ¬ AlwaysFaithful hugeTable 0x200000000 ∧
    ¬ AlwaysFaithful wordsTable 0x100000 ∧ ¬ AlwaysFaithful .boot 56 := by
  refine ⟨fun hall => ?_, fun hall => ?_, fun hall => ?_⟩
  · have hsize : (sectionsOf hugeTable 0x200000000)[0]?.map (·.size) = some (2 ^ 32) := by
      decide +kernel
    obtain ⟨x, hx, hsize⟩ := map_eq_some_iff.mp hsize
    obtain ⟨e, -, hmatch⟩ := matches_of_faithful (by decide) hall hx
    exact absurd hmatch.small (by rw [hsize]; decide)
  · have hread : (sectionsOf wordsTable 0x100000)[256]?.map (fun x => (x.size, x.entry.memBase)) =
        some (4, 0) := by
      decide +kernel
    obtain ⟨x, hx, hread⟩ := map_eq_some_iff.mp hread
    obtain ⟨hsize, hbase⟩ := Prod.mk.inj hread
    obtain ⟨e, he, hmatch⟩ := matches_of_faithful (by decide +kernel) hall hx
    have hentry : wordsTable.dloadDebugInfo[256]?.map (·.memBase) = some 1024 := by decide +kernel
    rw [he, map_some, ← hmatch.base (by rw [hsize]; decide), hbase] at hentry
    exact absurd hentry (by decide)
  · obtain ⟨s, hrun, hfaithful⟩ := hall (fun _ => 0) (fun _ => 0)
    obtain ⟨s', hrun', -, -, hvalidity, -⟩ :=
      bootProcessRawRamDump_headerOnly (fun _ => 0)
        (show (56 : UInt64).toNat ≤ headersRequiredSize
          DloadDebug.boot.dloadDebugInfo.length by decide)
    cases hrun.symm.trans hrun'
    have hvalid := hfaithful.complete.mpr fun i hi => nomatch hi
    rw [hvalidity] at hvalid
    exact absurd hvalid (by decide)

end RamDump
