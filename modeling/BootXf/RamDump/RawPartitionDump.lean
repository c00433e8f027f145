import BootXf.RamDump.RawPartition

/-!
# What the raw partition holds

The sections that the code lays out (`layout`) are those of the entries that it reads, which are
not the entries at their indices from 256 on; and of a section only as many bytes are written as 32
bits of its size say (`Section.put`). `bootProcessRawRamDump_outcome` is the dump as a whole.
-/

namespace RamDump

open Lib List

/-! ## Writing -/

/-- A buffer is written as a whole. -/
theorem bootRamDumpColdplugWrite_puts (buf : Nat → UInt8) (offset : UInt64) (writeSize : UInt32)
    (h : offset.toNat + writeSize.toNat < 2 ^ 64) :
    Puts (bootRamDumpColdplugWrite buf offset writeSize) ⟨offset.toNat, writeSize.toNat⟩ buf := by
  fun_induction bootRamDumpColdplugWrite buf offset writeSize with
  | case1 => exact .nil _ _
  | case2 bufAddr offset writeSize hpos bytesToWrite ih =>
    have hle : bytesToWrite.toNat ≤ writeSize.toNat := by
      show (if writeSize > ramDumpWriteSize then ramDumpWriteSize else writeSize).toNat ≤ _
      split
      · next hlarge => exact Nat.le_of_lt (UInt32.lt_iff_toNat_lt.mp hlarge)
      · exact Nat.le_refl _
    have hrest : (writeSize - bytesToWrite).toNat = writeSize.toNat - bytesToWrite.toNat :=
      UInt32.toNat_sub_of_le _ _ (UInt32.le_iff_toNat_le.mpr hle)
    have hnext : (offset + bytesToWrite.toUInt64).toNat = offset.toNat + bytesToWrite.toNat := by
      rw [UInt64.toNat_add, UInt32.toNat_toUInt64]
      omega
    have hput := ih (by omega)
    rw [hnext, hrest] at hput
    have happend := (Puts.single offset.toNat bytesToWrite.toNat bufAddr).append hput
    rwa [Nat.add_sub_cancel' hle] at happend

theorem SectionHeader.encode_length {h : SectionHeader}
    (hname : h.sectionName.length ≤ sectionNameLen) :
    h.encode.length = sectionHeaderSize := by
  simp only [encode, length_append, length_leBytes, length_replicate, sectionHeaderSize,
    sectionNameLen] at hname ⊢
  omega

/-! ## Sections -/

/-- A section: the entry it is made from, where its data begins, how much it is said to be, and
whether it fits. -/
structure Section where
  entry : DloadDebugType
  offset : Nat
  size : Nat
  whole : Bool

/-- The sections of some entries, one after the other while there is room. -/
def layout : List DloadDebugType → Nat → Nat → List Section
  | [], _, _ => []
  | e :: es, offset, free =>
    if e.length.toNat ≤ free then
      ⟨e, offset, e.length.toNat, true⟩ ::
        layout es (offset + e.length.toNat) (free - e.length.toNat)
    else [⟨e, offset, free, false⟩]

/-- The area of a section. -/
def Section.area (x : Section) : Span := ⟨x.offset, x.size⟩

/-- The header of a section. -/
def Section.header (x : Section) : SectionHeader where
  validityFlag := if x.whole then ramDumpValidMask else ramDumpInsufficientStorageMask
  sectionVersion := ramDumpSectionHeaderVer
  sectionType := if x.entry.length < svMemorySizeLimit then .sv else .ddr
  sectionOffset := .ofNat x.offset
  sectionSize := .ofNat x.size
  baseAddr := if x.entry.length < svDataSizeLimit then 0 else x.entry.memBase
  sectionName := strlcpy x.entry.filename sectionNameLen

/-- The contents after a section: only 32 bits of its size are written. -/
def Section.put (memory : UInt64 → UInt8) (x : Section) (c : Contents) : Contents :=
  fun a => if (Span.mk x.offset (x.size % 2 ^ 32)).Mem a then
    memoryFrom memory x.entry.memBase (a - x.offset) else c a

/-- The contents after some sections. -/
def putSections (memory : UInt64 → UInt8) (xs : List Section) (c : Contents) : Contents :=
  xs.foldl (fun c x => x.put memory c) c

/-- The last offset that some sections take up. -/
def endOf (offset : Nat) (xs : List Section) : Nat := offset + (xs.map (·.size)).sum

/-- **The areas of the sections** follow one another. -/
theorem layout_chain (es : List DloadDebugType) (offset free : Nat) :
    Span.Chain offset ((layout es offset free).map Section.area)
      (endOf offset (layout es offset free)) := by
  induction es generalizing offset free with
  | nil => rfl
  | cons e es ih =>
    rw [layout]
    split
    · refine ⟨rfl, ?_⟩
      have hend : endOf offset (⟨e, offset, e.length.toNat, true⟩ ::
          layout es (offset + e.length.toNat) (free - e.length.toNat)) =
          endOf (offset + e.length.toNat)
            (layout es (offset + e.length.toNat) (free - e.length.toNat)) := by
        rw [endOf, endOf, map_cons, sum_cons, Nat.add_assoc]
      rw [hend]
      exact ih _ _
    · refine ⟨rfl, ?_⟩
      simp [endOf, Section.area, Span.Chain, Span.stop]

/-- The sections stay inside the space there is. -/
theorem layout_end_le (es : List DloadDebugType) (offset free : Nat) :
    endOf offset (layout es offset free) ≤ offset + free := by
  induction es generalizing offset free with
  | nil => exact Nat.le_add_right _ _
  | cons e es ih =>
    rw [layout]
    split
    · have := ih (offset + e.length.toNat) (free - e.length.toNat)
      simp only [endOf, map_cons, sum_cons] at this ⊢
      omega
    · simp [endOf]

theorem layout_length_le (es : List DloadDebugType) (offset free : Nat) :
    (layout es offset free).length ≤ es.length := by
  induction es generalizing offset free with
  | nil => exact Nat.le_refl _
  | cons e es ih =>
    rw [layout]
    split
    · exact Nat.succ_le_succ (ih _ _)
    · exact Nat.succ_le_succ (Nat.zero_le _)

/-! ## What the loop leaves -/

/-- Sections change an offset independently of the others. -/
theorem putSections_congr {memory : UInt64 → UInt8} {xs : List Section} {c c' : Contents} {a : Nat}
    (h : c a = c' a) : putSections memory xs c a = putSections memory xs c' a := by
  induction xs generalizing c c' with
  | nil => exact h
  | cons x xs ih =>
    refine ih ?_
    simp only [Section.put]
    split
    · rfl
    · exact h

/-- The headers of `n` sections take up this span. -/
def headersSpan (n : Nat) : Span := ⟨dumpHeaderSize, sectionHeaderSize * n⟩

/-- What has been written between two states, when all headers take `headersRequiredSize n` bytes:
the sections behind the headers, and nothing from `stop` on. -/
def Wrote (memory : UInt64 → UInt8) (n : Nat) (xs : List Section) (stop : Nat) (ws : List Write) :
    Prop :=
  (∀ w ∈ ws, w.span.Within ⟨0, stop⟩) ∧
    ∀ c a, headersRequiredSize n ≤ a → Write.apply ws c a = putSections memory xs c a

section
variable {memory : UInt64 → UInt8} {n stop stop' : Nat} {xs ys : List Section} {ws ws' : List Write}

theorem Wrote.append (h : Wrote memory n xs stop ws) (h' : Wrote memory n ys stop' ws')
    (hstop : stop ≤ stop') : Wrote memory n (xs ++ ys) stop' (ws ++ ws') := by
  refine ⟨fun w hw => ?_, fun c a ha => ?_⟩
  · rcases mem_append.mp hw with hw | hw
    · obtain ⟨hlo, hhi⟩ := h.1 w hw
      exact ⟨hlo, Nat.le_trans hhi (Nat.add_le_add_left hstop _)⟩
    · exact h'.1 w hw
  · rw [Write.apply_append, h'.2 _ a ha, putSections, putSections, foldl_append]
    exact putSections_congr (h.2 c a ha)

/-- What is put into the headers is nothing behind them. -/
theorem Wrote.of_puts {s : Span} {buf : Nat → UInt8} (h : Puts ws s buf)
    (hs : s.stop ≤ headersRequiredSize n) (hstop : headersRequiredSize n ≤ stop) :
    Wrote memory n [] stop ws := by
  refine ⟨fun w hw => ?_, fun c a ha => h.other ?_⟩
  · obtain ⟨-, hhi⟩ := h.within w hw
    refine ⟨Nat.zero_le _, Nat.le_trans hhi (Nat.le_trans hs ?_)⟩
    rw [Nat.zero_add]
    exact hstop
  · rintro ⟨-, hlt⟩
    exact Nat.lt_irrefl _ (Nat.lt_of_lt_of_le hlt (Nat.le_trans hs ha))

/-- What is written behind the headers. -/
theorem Wrote.section {x : Section} (h : Puts ws ⟨x.offset, x.size % 2 ^ 32⟩
    (memoryFrom memory x.entry.memBase)) (hend : x.offset + x.size ≤ stop) :
    Wrote memory n [x] stop ws := by
  have hle := Nat.mod_le x.size (2 ^ 32)
  refine ⟨fun w hw => ?_, fun c a _ => ?_⟩
  · obtain ⟨-, hhi⟩ := h.within w hw
    refine ⟨Nat.zero_le _, Nat.le_trans hhi ?_⟩
    dsimp only
    omega
  · show _ = Section.put memory x c a
    rw [Section.put]
    split
    · next hmem =>
      obtain ⟨hlo, hhi⟩ := hmem
      have := h.holds c (a - x.offset) (by dsimp only at *; omega)
      dsimp only at this
      rwa [Nat.add_sub_cancel' hlo] at this
    · next hmem => exact h.other hmem

/-- The overall header. -/
theorem dumpOverallHeaders_puts (s : RawDump) : ∃ ws,
    s.dumpOverallHeaders = { s with writes := s.writes ++ ws } ∧
      Puts ws ⟨0, dumpHeaderSize⟩ (bufferOf s.rawDumpHeader.encode) :=
  ⟨_, rfl, bootRamDumpColdplugWrite_puts _ _ _ (by decide)⟩

/-- The section headers. -/
theorem dumpSectionHeaders_puts (s : RawDump) (hn : n ≤ numRegions) : ∃ ws,
    s.dumpSectionHeaders n = { s with writes := s.writes ++ ws } ∧
      Puts ws (headersSpan n) (bufferOf (s.sectionHeaders n)) := by
  have hsize : sectionHeaderSize * n < 2 ^ 32 := by
    rw [numRegions] at hn
    rw [sectionHeaderSize]
    omega
  have hlen : (UInt32.ofNat (sectionHeaderSize * n)).toNat = sectionHeaderSize * n :=
    UInt32.toNat_ofNat_of_lt' hsize
  refine ⟨_, rfl, ?_⟩
  have hput := bootRamDumpColdplugWrite_puts (bufferOf (s.sectionHeaders n)) (.ofNat dumpHeaderSize)
    (.ofNat (sectionHeaderSize * n)) (by rw [hlen]; show 56 + _ < _; omega)
  rwa [hlen] at hput

end

/-! ## The loop -/

/-- The sections before the next one have been dumped, up to an offset. -/
structure Dumping (s : RawDump) (done : List SectionHeader) (pos : Nat) : Prop where
  offset : s.currPartitionOffset.toNat = pos
  dumpSize : s.rawDumpHeader.dumpSize.toNat = pos
  count : s.rawDumpHeader.sectionsCount.toNat = done.length
  validity : s.rawDumpHeader.validityFlag = 0
  table : s.rawDumpSectionHeaderTable =
    done ++ replicate (maxRawDumpSectionNum - done.length) .clear

/-- What has been dumped between two states. -/
structure Dumped (memory : UInt64 → UInt8) (n : Nat) (done : List SectionHeader) (pos : Nat)
    (xs : List Section) (s s' : RawDump) : Prop where
  dumpSize : s'.rawDumpHeader.dumpSize.toNat = endOf pos xs
  count : s'.rawDumpHeader.sectionsCount.toNat = done.length + xs.length
  validity : s'.rawDumpHeader.validityFlag = 0
  table : s'.rawDumpSectionHeaderTable = done ++ xs.map Section.header ++
    replicate (maxRawDumpSectionNum - (done.length + xs.length)) .clear
  writes : ∃ ws, s'.writes = s.writes ++ ws ∧ Wrote memory n xs (endOf pos xs) ws ∧
    ∀ c : Contents, c.Holds (headersSpan n) (bufferOf (s.sectionHeaders n)) →
      (Write.apply ws c).Holds (headersSpan n) (bufferOf (s'.sectionHeaders n))

theorem modify_append_length {α : Type} (xs : List α) (y : α) (ys : List α) (f : α → α) :
    (xs ++ y :: ys).modify xs.length f = xs ++ f y :: ys := by
  induction xs with
  | nil => rfl
  | cons x xs ih => exact congrArg (x :: ·) ih

section
variable {memory : UInt64 → UInt8} {n pos free : Nat} {s s' : RawDump} {done : List SectionHeader}
  {d : DloadDebug} {e : DloadDebugType} {freeSpaceSize : UInt64} {ws ws' : List Write} {i : Nat}

/-- The entry that is read for an index. -/
theorem memLength_eq (h : d.dloadDebugInfo[i % 256]? = some e) :
    d.memLength (.ofNat i) = e.length := by
  rw [DloadDebug.memLength, UInt8.toNat_ofNat', h]

theorem memBase_eq (h : d.dloadDebugInfo[i % 256]? = some e) :
    d.memBase (.ofNat i) = e.memBase := by
  rw [DloadDebug.memBase, UInt8.toNat_ofNat', h]

theorem memFilename_eq (h : d.dloadDebugInfo[i % 256]? = some e) :
    d.memFilename (.ofNat i) = some e.filename := by
  rw [DloadDebug.memFilename, UInt8.toNat_ofNat', h]
  rfl

/-- The header is filled in. -/
theorem Dumping.update (h : Dumping s done pos)
    (hread : d.dloadDebugInfo[done.length % 256]? = some e)
    (hroom : done.length < maxRawDumpSectionNum) :
    s.bootUpdateSectionHeaderTableByIndex d done.length = some { s with
      rawDumpSectionHeaderTable := done ++
        RawDump.fillSection .clear e.length e.memBase s.currPartitionOffset e.filename ::
          replicate (maxRawDumpSectionNum - (done.length + 1)) .clear } := by
  have hfresh : replicate (maxRawDumpSectionNum - done.length) SectionHeader.clear =
      .clear :: replicate (maxRawDumpSectionNum - (done.length + 1)) .clear := by
    rw [← replicate_succ]
    congr 1
    omega
  rw [RawDump.bootUpdateSectionHeaderTableByIndex, memFilename_eq hread, memLength_eq hread,
    memBase_eq hread]
  dsimp only
  rw [h.table, hfresh, modify_append_length]

/-- The data of a section, of which 32 bits of the size are passed on. -/
theorem section_puts (memory : UInt64 → UInt8) {offset size : UInt64} (x : Section)
    (hoffset : offset.toNat = x.offset)
    (hsize : size.toNat = x.size) (hend : x.offset + x.size < 2 ^ 64) :
    Puts (bootRamDumpColdplugWrite (memoryFrom memory x.entry.memBase) offset size.toUInt32)
      ⟨x.offset, x.size % 2 ^ 32⟩ (memoryFrom memory x.entry.memBase) := by
  have hle := Nat.mod_le x.size (2 ^ 32)
  have hput := bootRamDumpColdplugWrite_puts (memoryFrom memory x.entry.memBase) offset
    size.toUInt32 (by rw [hoffset, UInt64.toNat_toUInt32, hsize]; omega)
  rwa [hoffset, UInt64.toNat_toUInt32, hsize] at hput

/-- What a section leaves in the end: its data, and the section headers written again. -/
theorem Wrote.then_headers {xs : List Section} {stop : Nat} (h : Wrote memory n xs stop ws)
    (hput : Puts ws' (headersSpan n) (bufferOf (s.sectionHeaders n)))
    (hstop : headersRequiredSize n ≤ stop) :
    Wrote memory n xs stop (ws ++ ws') ∧ ∀ c : Contents,
      (Write.apply (ws ++ ws') c).Holds (headersSpan n) (bufferOf (s.sectionHeaders n)) := by
  refine ⟨?_, fun c => ?_⟩
  · have hheaders : Wrote memory n [] stop ws' := .of_puts hput (Nat.le_refl _) hstop
    have := h.append hheaders (Nat.le_refl _)
    rwa [append_nil] at this
  · rw [Write.apply_append]
    exact hput.holds _

/-- **A section that fits.** -/
theorem Dumping.whole (memory : UInt64 → UInt8) (h : Dumping s done pos)
    (hread : d.dloadDebugInfo[done.length % 256]? = some e) (hn : d.dloadDebugInfo.length = n)
    (hlt : done.length < n) (hpos : headersRequiredSize n ≤ pos)
    (hend : pos + e.length.toNat < 2 ^ 64) :
    ∃ s₁ s₂, s.bootUpdateSectionHeaderTableByIndex d done.length = some s₁ ∧
      (s₁.dumpWhole d memory done.length).dumpOverallHeaders.dumpSectionHeaders n = s₂ ∧
      Dumping s₂ (done ++ [Section.header ⟨e, pos, e.length.toNat, true⟩]) (pos + e.length.toNat) ∧
      ∃ ws, s₂.writes = s.writes ++ ws ∧
        Wrote memory n [⟨e, pos, e.length.toNat, true⟩] (pos + e.length.toNat) ws ∧
        ∀ c : Contents, (Write.apply ws c).Holds (headersSpan n)
          (bufferOf (s₂.sectionHeaders n)) := by
  have hfit := d.regions_fit
  rw [hn] at hfit
  have hheader :
      { RawDump.fillSection .clear e.length e.memBase s.currPartitionOffset e.filename with
      validityFlag := 0 ||| ramDumpValidMask } = Section.header ⟨e, pos, e.length.toNat, true⟩ := by
    rw [Section.header, RawDump.fillSection, ← h.offset]
    simp only [UInt64.ofNat_toNat]
    rfl
  refine ⟨_, _, h.update hread (Nat.lt_of_lt_of_le hlt hfit), rfl, ?_, ?_⟩
  · refine ⟨?_, ?_, ?_, h.validity, ?_⟩
    · show (s.currPartitionOffset + d.memLength (.ofNat done.length)).toNat = _
      rw [memLength_eq hread, UInt64.toNat_add, h.offset, Nat.mod_eq_of_lt hend]
    · show (s.rawDumpHeader.dumpSize + d.memLength (.ofNat done.length)).toNat = _
      rw [memLength_eq hread, UInt64.toNat_add, h.dumpSize, Nat.mod_eq_of_lt hend]
    · show (s.rawDumpHeader.sectionsCount + 1).toNat = _
      rw [UInt32.toNat_add, h.count, length_append]
      rw [numRegions] at hfit
      exact Nat.mod_eq_of_lt (by show done.length + 1 < _; omega)
    · show List.modify _ _ _ = _
      rw [modify_append_length, ← hheader, length_append, append_assoc]
      rfl
  · generalize ht : RawDump.dumpWhole _ d memory done.length = t
    have hwrites : t.writes = s.writes ++ bootRamDumpColdplugWrite (memoryFrom memory e.memBase)
        s.currPartitionOffset e.length.toUInt32 := by
      rw [← ht, RawDump.dumpWhole, memBase_eq hread, memLength_eq hread]
    obtain ⟨ws₁, hws₁, hput₁⟩ := dumpOverallHeaders_puts t
    obtain ⟨ws₂, hws₂, hput₂⟩ := dumpSectionHeaders_puts t.dumpOverallHeaders hfit
    have hdata := Wrote.section (n := n) (section_puts memory
      ⟨e, pos, e.length.toNat, true⟩ h.offset rfl hend) (Nat.le_refl _)
    have hheaders : headersRequiredSize n ≤ pos + e.length.toNat :=
      Nat.le_trans hpos (Nat.le_add_right _ _)
    have hoverall : Wrote memory n [] (pos + e.length.toNat) ws₁ :=
      .of_puts hput₁ (by simp only [Span.stop, headersRequiredSize]; omega) hheaders
    obtain ⟨hall, hholds⟩ := (hdata.append hoverall (Nat.le_refl _)).then_headers hput₂ hheaders
    refine ⟨_, ?_, hall, ?_⟩
    · rw [hws₂, hws₁, hwrites]
      simp only [append_assoc]
    · rw [hws₂]
      exact hholds

/-- **A section that does not fit.** -/
theorem Dumping.part (memory : UInt64 → UInt8) (h : Dumping s done pos)
    (hread : d.dloadDebugInfo[done.length % 256]? = some e) (hn : d.dloadDebugInfo.length = n)
    (hlt : done.length < n) (hpos : headersRequiredSize n ≤ pos)
    (hfree : freeSpaceSize.toNat = free) (hend : pos + free < 2 ^ 64) :
    ∃ s₁ s₂, s.bootUpdateSectionHeaderTableByIndex d done.length = some s₁ ∧
      (s₁.dumpPart d memory done.length freeSpaceSize).dumpSectionHeaders n = s₂ ∧
      Dumped memory n done pos [⟨e, pos, free, false⟩] s s₂ := by
  have hfit := d.regions_fit
  rw [hn] at hfit
  have hendof : endOf pos [⟨e, pos, free, false⟩] = pos + free := by simp [endOf]
  have hheader :
      { RawDump.fillSection .clear e.length e.memBase s.currPartitionOffset e.filename with
      validityFlag := 0 ||| ramDumpInsufficientStorageMask, sectionSize := freeSpaceSize } =
        Section.header ⟨e, pos, free, false⟩ := by
    rw [Section.header, RawDump.fillSection, ← h.offset, ← hfree]
    simp only [UInt64.ofNat_toNat]
    rfl
  refine ⟨_, _, h.update hread (Nat.lt_of_lt_of_le hlt hfit), rfl, ?_, ?_, h.validity, ?_, ?_⟩
  · show (s.rawDumpHeader.dumpSize + freeSpaceSize).toNat = _
    rw [UInt64.toNat_add, h.dumpSize, hfree, Nat.mod_eq_of_lt hend, hendof]
  · show (s.rawDumpHeader.sectionsCount + 1).toNat = _
    rw [UInt32.toNat_add, h.count]
    rw [numRegions] at hfit
    exact Nat.mod_eq_of_lt (by show done.length + 1 < _; omega)
  · show List.modify _ _ _ = _
    rw [modify_append_length, map_singleton, ← hheader, append_assoc]
    rfl
  · generalize ht : RawDump.dumpPart _ d memory done.length freeSpaceSize = t
    have hwrites : t.writes = s.writes ++ bootRamDumpColdplugWrite (memoryFrom memory e.memBase)
        s.currPartitionOffset freeSpaceSize.toUInt32 := by
      rw [← ht, RawDump.dumpPart, memBase_eq hread]
    obtain ⟨ws₂, hws₂, hput₂⟩ := dumpSectionHeaders_puts t hfit
    have hdata := Wrote.section (n := n) (section_puts memory
      ⟨e, pos, free, false⟩ h.offset hfree hend) (Nat.le_refl _)
    obtain ⟨hall, hholds⟩ := hdata.then_headers hput₂ (Nat.le_trans hpos (Nat.le_add_right _ _))
    refine ⟨_, ?_, hendof.symm ▸ hall, ?_⟩
    · rw [hws₂, hwrites]
      exact append_assoc ..
    · rw [hws₂]
      exact fun c _ => hholds c

/-- **The loop** dumps the entries that it reads. -/
theorem Dumping.processSections (h : Dumping s done pos) (memory : UInt64 → UInt8)
    (es : List DloadDebugType)
    (hreads : ∀ j < es.length, d.dloadDebugInfo[(done.length + j) % 256]? = es[j]?)
    (hn : d.dloadDebugInfo.length = n) (hlen : done.length + es.length = n)
    (hpos : headersRequiredSize n ≤ pos) (hfree : freeSpaceSize.toNat = free)
    (hend : pos + free < 2 ^ 64) :
    ∃ s', RawDump.processSections d memory (range' done.length es.length) freeSpaceSize s =
        some ((layout es pos free).all (·.whole), s') ∧
      Dumped memory n done pos (layout es pos free) s s' := by
  induction es generalizing s done pos free freeSpaceSize with
  | nil =>
    refine ⟨s, rfl, ?_, ?_, h.validity, ?_, [], ?_, ?_, fun c hc => hc⟩
    · exact h.dumpSize
    · exact h.count
    · rw [h.table]
      simp [layout]
    · exact (append_nil _).symm
    · exact ⟨fun w hw => (not_mem_nil hw).elim, fun c a _ => rfl⟩
  | cons e es ih =>
    have hread : d.dloadDebugInfo[done.length % 256]? = some e := by
      have := hreads 0 (Nat.succ_pos _)
      rwa [Nat.add_zero] at this
    have hlt : done.length < n := by
      rw [length_cons] at hlen
      omega
    rw [length_cons, range'_succ, RawDump.processSections, memLength_eq hread, layout]
    rcases Nat.lt_or_ge free e.length.toNat with hsmall | hfits
    · obtain ⟨s₁, s₂, hupdate, hpart, hdumped⟩ := h.part memory hread hn hlt hpos hfree hend
      rw [hupdate, if_neg (Nat.not_le.mpr hsmall)]
      dsimp only
      rw [if_neg (by
        rw [ge_iff_le, UInt64.le_iff_toNat_le, hfree]
        exact Nat.not_le.mpr hsmall), hn, hpart]
      exact ⟨s₂, rfl, hdumped⟩
    · obtain ⟨s₁, s₂, hupdate, hwhole, hdumping, ws, hws, hwrote, hheaders⟩ :=
        h.whole memory hread hn hlt hpos (by omega)
      rw [hupdate, if_pos hfits]
      dsimp only
      have hle : e.length ≤ freeSpaceSize := by
        rw [UInt64.le_iff_toNat_le, hfree]
        exact hfits
      have hnext : done.length + 1 =
          (done ++ [Section.header ⟨e, pos, e.length.toNat, true⟩]).length := by
        rw [length_append]
        rfl
      rw [if_pos hle, hn, hwhole, hnext]
      have hrest : (freeSpaceSize - e.length).toNat = free - e.length.toNat := by
        rw [UInt64.toNat_sub_of_le _ _ hle, hfree]
      obtain ⟨s', hrun, hdumped⟩ := ih hdumping (fun j hj => by
          have := hreads (j + 1) (Nat.succ_lt_succ hj)
          rw [getElem?_cons_succ] at this
          rwa [← hnext, Nat.add_assoc, Nat.add_comm 1])
        (by rw [← hnext]; rw [length_cons] at hlen; omega)
        (Nat.le_trans hpos (Nat.le_add_right _ _)) hrest (by omega)
      have hendof : endOf pos (⟨e, pos, e.length.toNat, true⟩ ::
          layout es (pos + e.length.toNat) (free - e.length.toNat)) =
          endOf (pos + e.length.toNat)
            (layout es (pos + e.length.toNat) (free - e.length.toNat)) := by
        rw [endOf, endOf, map_cons, sum_cons, Nat.add_assoc]
      refine ⟨s', ?_, ?_, ?_, hdumped.validity, ?_, ?_⟩
      · rw [hrun, all_cons, Bool.true_and]
      · rw [hdumped.dumpSize, hendof]
      · rw [hdumped.count, ← hnext, length_cons]
        omega
      · rw [hdumped.table, ← hnext, length_cons, map_cons, append_assoc done,
          singleton_append, Nat.add_assoc, Nat.add_comm 1]
      · obtain ⟨ws', hws', hwrote', hheaders'⟩ := hdumped.writes
        refine ⟨ws ++ ws', ?_, ?_, fun c _ => ?_⟩
        · rw [hws', hws, append_assoc]
        · rw [hendof]
          exact hwrote.append hwrote' (Nat.le_add_right _ _)
        · rw [Write.apply_append]
          exact hheaders' _ (hheaders c)

end

/-! ## The whole dump -/

/-- The entries that are read: eight bits of an index are passed on. -/
def readEntries (d : DloadDebug) : List DloadDebugType :=
  d.dloadDebugInfo.mapIdx fun i e => d.dloadDebugInfo.getD (i % 256) e

/-- What is left in the end when there is room for the headers. -/
structure Outcome (d : DloadDebug) (memory : UInt64 → UInt8) (partitionSize : UInt64)
    (xs : List Section) (s : RawDump) : Prop where
  dumpSize : s.rawDumpHeader.dumpSize.toNat = endOf (headersRequiredSize d.dloadDebugInfo.length) xs
  count : s.rawDumpHeader.sectionsCount.toNat = xs.length
  validity : s.rawDumpHeader.validityFlag =
    if xs.all (·.whole) then ramDumpValidMask else ramDumpInsufficientStorageMask
  table : s.rawDumpSectionHeaderTable = xs.map Section.header ++
    replicate (maxRawDumpSectionNum - xs.length) .clear
  within : ∀ w ∈ s.writes, w.span.Within ⟨0, s.rawDumpHeader.dumpSize.toNat⟩
  overall :
    ∀ c, (Write.apply s.writes c).Holds ⟨0, dumpHeaderSize⟩ (bufferOf s.rawDumpHeader.encode)
  headers : ∀ c, (Write.apply s.writes c).Holds (headersSpan d.dloadDebugInfo.length)
    (bufferOf (s.sectionHeaders d.dloadDebugInfo.length))
  data : ∀ c a, headersRequiredSize d.dloadDebugInfo.length ≤ a →
    Write.apply s.writes c a = putSections memory xs c a

section
variable {d : DloadDebug} {memory : UInt64 → UInt8} {partitionSize : UInt64}

theorem readEntries_length : (readEntries d).length = d.dloadDebugInfo.length := length_mapIdx

/-- There is an entry at eight bits of an index that is in use. -/
theorem readEntries_getElem {i : Nat} (h : i < (readEntries d).length) :
    d.dloadDebugInfo[i % 256]? = (readEntries d)[i]? := by
  have hi : i < d.dloadDebugInfo.length := readEntries_length ▸ h
  have hlt : i % 256 < d.dloadDebugInfo.length := Nat.lt_of_le_of_lt (Nat.mod_le ..) hi
  rw [readEntries, getElem?_mapIdx, getElem?_eq_getElem hi, getElem?_eq_getElem hlt,
    Option.map_some, getD_eq_getElem?_getD, getElem?_eq_getElem hlt, Option.getD_some]

theorem headersRequiredSize_lt : headersRequiredSize d.dloadDebugInfo.length < 2 ^ 32 := by
  have h := d.regions_fit
  rw [numRegions] at h
  simp only [headersRequiredSize, dumpHeaderSize, sectionHeaderSize]
  omega

/-- The end of the dump: the overall header is marked and written again. -/
theorem outcome_of_dumped (partitionSize : UInt64) {xs : List Section} {s s' : RawDump}
    {ws₁ ws₂ : List Write}
    (hdumped : Dumped memory d.dloadDebugInfo.length []
      (headersRequiredSize d.dloadDebugInfo.length) xs s s')
    (hwrites : s.writes = ws₁ ++ ws₂)
    (hput₁ : ∃ buf, Puts ws₁ ⟨0, dumpHeaderSize⟩ buf)
    (hput₂ : Puts ws₂ (headersSpan d.dloadDebugInfo.length)
      (bufferOf (s.sectionHeaders d.dloadDebugInfo.length))) :
    Outcome d memory partitionSize xs (RawDump.dumpOverallHeaders (s'.mark
      (if xs.all (·.whole) then ramDumpValidMask else ramDumpInsufficientStorageMask))) := by
  obtain ⟨ws, hws, hwrote, hheaders⟩ := hdumped.writes
  obtain ⟨buf, hput₁⟩ := hput₁
  obtain ⟨ws₃, hws₃, hput₃⟩ := dumpOverallHeaders_puts
    (s'.mark (if xs.all (·.whole) then ramDumpValidMask else ramDumpInsufficientStorageMask))
  have hstop : headersRequiredSize d.dloadDebugInfo.length ≤
      endOf (headersRequiredSize d.dloadDebugInfo.length) xs := Nat.le_add_right _ _
  have hover : Span.stop ⟨0, dumpHeaderSize⟩ ≤ headersRequiredSize d.dloadDebugInfo.length := by
    simp only [Span.stop, headersRequiredSize]
    omega
  have hwrote₁ : Wrote memory d.dloadDebugInfo.length []
    (endOf (headersRequiredSize d.dloadDebugInfo.length) xs) ws₁ := .of_puts hput₁ hover hstop
  have hwrote₂ : Wrote memory d.dloadDebugInfo.length []
    (endOf (headersRequiredSize d.dloadDebugInfo.length) xs) ws₂ :=
    .of_puts hput₂ (Nat.le_refl _) hstop
  have hwrote₃ : Wrote memory d.dloadDebugInfo.length []
    (endOf (headersRequiredSize d.dloadDebugInfo.length) xs) ws₃ := .of_puts hput₃ hover hstop
  have hall :=
    ((hwrote₁.append hwrote₂ (Nat.le_refl _)).append hwrote (Nat.le_refl _)).append hwrote₃
    (Nat.le_refl _)
  have hfinal : s'.writes ++ ws₃ = ws₁ ++ ws₂ ++ ws ++ ws₃ := by rw [hws, hwrites]
  rw [hws₃]
  refine ⟨hdumped.dumpSize, ?_, ?_, ?_, fun w hw => ?_, fun c => ?_, fun c => ?_, fun c a ha => ?_⟩
  · exact hdumped.count.trans (Nat.zero_add _)
  · show s'.rawDumpHeader.validityFlag ||| _ = _
    rw [hdumped.validity, UInt32.zero_or]
  · have htable := hdumped.table
    rw [nil_append, length_nil, Nat.zero_add] at htable
    exact htable
  · show w.span.Within ⟨0, s'.rawDumpHeader.dumpSize.toNat⟩
    rw [hdumped.dumpSize]
    exact hall.1 w (hfinal ▸ hw)
  · show (Write.apply (s'.writes ++ ws₃) c).Holds _ _
    rw [Write.apply_append]
    exact hput₃.holds _
  · show (Write.apply (s'.writes ++ ws₃) c).Holds _ (bufferOf (s'.sectionHeaders _))
    rw [hfinal, Write.apply_append, Write.apply_append, Write.apply_append]
    refine hput₃.keeps ?_ (hheaders _ (hput₂.holds _))
    simp [Span.Disjoint, Span.stop, headersSpan]
  · show Write.apply (s'.writes ++ ws₃) c a = _
    rw [hfinal, hall.2 c a ha, append_nil]
    rfl

/-- **The dump**, when there is room for the headers. -/
theorem bootProcessRawRamDump_outcome (memory : UInt64 → UInt8)
    (hroom : headersRequiredSize d.dloadDebugInfo.length < partitionSize.toNat) :
    ∃ s, bootProcessRawRamDump d memory partitionSize = some s ∧
      Outcome d memory partitionSize (layout (readEntries d)
        (headersRequiredSize d.dloadDebugInfo.length)
        (partitionSize.toNat - headersRequiredSize d.dloadDebugInfo.length)) s := by
  have hsmall := headersRequiredSize_lt (d := d)
  have hnat : (UInt64.ofNat (headersRequiredSize d.dloadDebugInfo.length)).toNat =
      headersRequiredSize d.dloadDebugInfo.length :=
    UInt64.toNat_ofNat_of_lt' (Nat.lt_trans hsmall (by decide))
  have hsize := partitionSize.toNat_lt
  have hfit : ¬ d.dloadDebugInfo.length > maxRawDumpSectionNum := Nat.not_lt.mpr d.regions_fit
  rw [bootProcessRawRamDump, if_neg hfit, if_pos (by
    rw [gt_iff_lt, UInt64.lt_iff_toNat_lt, hnat]
    exact hroom)]
  dsimp only
  obtain ⟨ws₁, hws₁, hput₁⟩ := dumpOverallHeaders_puts (bootRamDumpHeaderInit d)
  rw [hws₁]
  generalize ht : RawDump.mk _ _ _ _ = t
  obtain ⟨ws₂, hws₂, hput₂⟩ := dumpSectionHeaders_puts t d.regions_fit
  have hdumping : Dumping { t.dumpSectionHeaders d.dloadDebugInfo.length with
      currPartitionOffset := .ofNat (headersRequiredSize d.dloadDebugInfo.length) } []
      (headersRequiredSize d.dloadDebugInfo.length) := by
    rw [← ht]
    exact ⟨hnat, hnat, rfl, rfl, rfl⟩
  have hfree : (partitionSize - UInt64.ofNat (headersRequiredSize d.dloadDebugInfo.length)).toNat =
      partitionSize.toNat - headersRequiredSize d.dloadDebugInfo.length := by
    rw [UInt64.toNat_sub_of_le _ _ (by
      rw [UInt64.le_iff_toNat_le, hnat]
      exact Nat.le_of_lt hroom), hnat]
  obtain ⟨s', hrun, hdumped⟩ := hdumping.processSections memory (readEntries d)
    (fun j hj => by
      rw [length_nil, Nat.zero_add]
      exact readEntries_getElem hj)
    rfl (by rw [readEntries_length, length_nil, Nat.zero_add]) (Nat.le_refl _) hfree (by omega)
  rw [RawDump.bootProcessRawRamDumpSections, range_eq_range']
  rw [readEntries_length, length_nil] at hrun
  rw [hrun]
  have hwrites : (t.dumpSectionHeaders d.dloadDebugInfo.length).writes = ws₁ ++ ws₂ := by
    rw [hws₂, ← ht]
    rfl
  have hout := outcome_of_dumped partitionSize hdumped hwrites ⟨_, hput₁⟩ hput₂
  rcases hall : (layout (readEntries d) (headersRequiredSize d.dloadDebugInfo.length)
    (partitionSize.toNat - headersRequiredSize d.dloadDebugInfo.length)).all (·.whole) with _ | _
  · rw [hall, if_neg Bool.false_ne_true] at hout
    exact ⟨_, rfl, hout⟩
  · rw [hall, if_pos rfl] at hout
    exact ⟨_, rfl, hout⟩

end

end RamDump
