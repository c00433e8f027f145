import BootXf.Smem.Boot

/-!
# What the setup of the table of contents writes

`smem_boot_toc_setup` as a function of the configuration. The entries it writes are the entry of the
table itself, the entries of the configured partitions, cut off downward from below the table
(`configEntries`), and those of what is left (`smemBootTocSetup_some`). What it stores is a list of
fields, in the order of the entries (`setupPuts`): the table's header, and for each entry its own
fields and those of the header of its partition.
-/

open Lib

namespace Smem

open List

/-! ## The entries -/

/-- The entries of the configured partitions, from `top` downward. -/
def configEntries : UInt32 → List TocConfig → List TocEntry
  | _, [] => []
  | top, c :: l =>
    if c.ignored then configEntries (top - c.size) l
    else c.entry (top - c.size) :: configEntries (top - c.size) l

/-- The regions the ignored partitions leave, from `top` downward. -/
def configGaps : UInt32 → List TocConfig → List Span
  | _, [] => []
  | top, c :: l =>
    if c.ignored then ⟨(top - c.size).toNat, c.size.toNat⟩ :: configGaps (top - c.size) l
    else configGaps (top - c.size) l

/-- What is left of a heap after the configured partitions have been cut off. -/
def restOf (heap : UInt32) (l : List TocConfig) : UInt32 :=
  l.foldl (fun heap c => heap - c.size) heap

/-- The sizes of the configured partitions, added up. -/
def totalSize (l : List TocConfig) : Nat := (l.map fun c => c.size.toNat).sum

section
variable (bi : BootInfo)

/-- The entries behind those of the configured partitions. -/
def restEntries (freeOffset heapRemaining : UInt32) : List TocEntry :=
  if bi.isLegacy then [regionEntry 0 (heapRemaining + freeOffset) enableRwProtection]
  else [commonEntry heapRemaining, regionEntry 0 legacySmemSize enableRwProtection]

/-- What is stored for a list of entries. -/
def tocPuts (l : List TocEntry) : List Memory.Put :=
  l.zipIdx.flatMap fun p => tocEntryPuts bi (bi.tocEntry (.ofNat p.2)) p.1

/-- The fields of the table's header. -/
def tocHeadFields (tocVersion numEntries : UInt32) : List Memory.Field :=
  [⟨0, 4, tocIdentifier.toNat⟩, ⟨4, 4, tocVersion.toNat⟩, ⟨8, 4, numEntries.toNat⟩]

/-- What the setup stores. -/
def setupPuts (tocVersion numEntries : UInt32) (l : List TocEntry) : List Memory.Put :=
  Memory.fieldPuts bi.toc (tocHeadFields tocVersion numEntries) ++ tocPuts bi l

variable {bi} {m : Memory} {cur : TocCursor}

/-- The cursor is at the last entry written, and memory holds what was stored for the entries. -/
def TocCursor.Holds (bi : BootInfo) (m : Memory) (cur : TocCursor) : Prop :=
  cur.entryIdx + 1 = .ofNat cur.written.length ∧ cur.mem = m.putAll (tocPuts bi cur.written)

/-- The entries are written one after the other. -/
theorem tocPuts_append (l : List TocEntry) (e : TocEntry) :
    tocPuts bi (l ++ [e]) = tocPuts bi l ++ tocEntryPuts bi (bi.tocEntry (.ofNat l.length)) e := by
  simp [tocPuts, zipIdx_append, flatMap_append]

/-- What is stored before an entry, for it, and after it. -/
theorem tocPuts_split (l₁ l₂ : List TocEntry) (e : TocEntry) :
    tocPuts bi (l₁ ++ e :: l₂) = tocPuts bi l₁ ++
      (tocEntryPuts bi (bi.tocEntry (.ofNat l₁.length)) e ++
        (l₂.zipIdx (l₁.length + 1)).flatMap fun p =>
          tocEntryPuts bi (bi.tocEntry (.ofNat p.2)) p.1) := by
  simp [tocPuts, zipIdx_append]

theorem TocCursor.Holds.add (h : cur.Holds bi m) (e : TocEntry) :
    (cur.add bi e).Holds bi m := by
  obtain ⟨hidx, hmem⟩ := h
  constructor
  · show cur.entryIdx + 1 + 1 = .ofNat (cur.written ++ [e]).length
    rw [hidx, length_append, length_singleton, UInt32.ofNat_add, UInt32.ofNat_one]
  · have hputs : tocPuts bi (cur.written ++ [e]) = tocPuts bi cur.written ++
        tocEntryPuts bi (bi.tocEntry (cur.entryIdx + 1)) e := by
      rw [tocPuts_append, hidx]
    have hadd : (cur.add bi e).mem =
        cur.mem.putAll (tocEntryPuts bi (bi.tocEntry (cur.entryIdx + 1)) e) := by
      simp only [TocCursor.add, smemBootTocEntrySetup]
    have hwritten : (cur.add bi e).written = cur.written ++ [e] := rfl
    rw [hadd, hwritten, hputs, Memory.putAll_append, hmem]

/-- The second loop. -/
theorem foldl_partition (freeOffset : UInt32) (l : List TocConfig) (h : cur.Holds bi m) :
    (l.foldl (TocCursor.partition bi freeOffset) cur).Holds bi m ∧
      (l.foldl (TocCursor.partition bi freeOffset) cur).heapRemaining =
        restOf cur.heapRemaining l ∧
      (l.foldl (TocCursor.partition bi freeOffset) cur).written =
        cur.written ++ configEntries (freeOffset + cur.heapRemaining) l := by
  induction l generalizing cur with
  | nil => exact ⟨h, rfl, (append_nil _).symm⟩
  | cons c l ih =>
    have htop : freeOffset + (cur.heapRemaining - c.size) =
        freeOffset + cur.heapRemaining - c.size := by
      rw [UInt32.sub_eq_add_neg, UInt32.sub_eq_add_neg, UInt32.add_assoc]
    rw [foldl_cons]
    cases hc : c.ignored with
    | true =>
      have hround : TocCursor.partition bi freeOffset cur c =
          { cur with heapRemaining := cur.heapRemaining - c.size } := by
        simp only [TocCursor.partition, hc, if_true]
      have hcur : TocCursor.Holds bi m { cur with heapRemaining := cur.heapRemaining - c.size } := h
      rw [hround]
      obtain ⟨hholds, hrest, hwritten⟩ := ih hcur
      refine ⟨hholds, hrest, hwritten.trans ?_⟩
      simp only [configEntries, hc, if_true, htop]
    | false =>
      have hround : TocCursor.partition bi freeOffset cur c =
          TocCursor.add bi { cur with heapRemaining := cur.heapRemaining - c.size }
            (c.entry (freeOffset + cur.heapRemaining - c.size)) := by
        simp only [TocCursor.partition, hc, Bool.false_eq_true, if_false, htop]
      have hcur : TocCursor.Holds bi m { cur with heapRemaining := cur.heapRemaining - c.size } := h
      rw [hround]
      obtain ⟨hholds, hrest, hwritten⟩ := ih (hcur.add _)
      refine ⟨hholds, hrest, hwritten.trans ?_⟩
      simp only [TocCursor.add, configEntries, hc, Bool.false_eq_true, if_false, htop,
        append_assoc, singleton_append]

theorem TocCursor.Holds.rest (h : cur.Holds bi m) (freeOffset : UInt32) :
    (cur.rest bi freeOffset).Holds bi m ∧
      (cur.rest bi freeOffset).heapRemaining = cur.heapRemaining ∧
      (cur.rest bi freeOffset).written =
        cur.written ++ restEntries bi freeOffset cur.heapRemaining := by
  unfold TocCursor.rest restEntries
  split
  · exact ⟨h.add _, rfl, rfl⟩
  · exact ⟨(h.add _).add _, rfl, append_assoc _ _ _⟩

/-! ## The two sums -/

theorem tocTotals_eq (total : UInt32) (l : List TocConfig) :
    tocTotals total l =
      (.ofNat (l.filter fun c => !c.ignored).length, total + .ofNat (totalSize l)) := by
  have hgen : ∀ (n t : UInt32),
      l.foldl (fun sums c => (if c.ignored then sums.1 else sums.1 + 1, sums.2 + c.size)) (n, t) =
        (n + .ofNat (l.filter fun c => !c.ignored).length, t + .ofNat (totalSize l)) := by
    induction l with
    | nil =>
      intro n t
      exact Prod.ext (UInt32.add_zero n).symm (UInt32.add_zero t).symm
    | cons c l ih =>
      intro n t
      rw [foldl_cons, ih]
      have hsum : totalSize (c :: l) = c.size.toNat + totalSize l := rfl
      rw [hsum, UInt32.ofNat_add, UInt32.ofNat_toNat, UInt32.add_assoc]
      cases hc : c.ignored with
      | true => simp [hc]
      | false =>
        simp only [hc, Bool.false_eq_true, if_false, Bool.not_false, filter_cons, if_true,
          length_cons, UInt32.ofNat_add, UInt32.add_assoc]
        rw [UInt32.add_comm (.ofNat _)]
        rfl
  have h := hgen 0 total
  rw [UInt32.zero_add] at h
  exact h

/-- Each partition that is not ignored has an entry. -/
theorem length_configEntries (top : UInt32) (l : List TocConfig) :
    (configEntries top l).length = (l.filter fun c => !c.ignored).length := by
  induction l generalizing top with
  | nil => rfl
  | cons c l ih =>
    cases hc : c.ignored with
    | true => simp [configEntries, hc, ih]
    | false => simp [configEntries, hc, ih]

/-! ## A table that is accepted -/

/-- `free_offset` -/
def BootInfo.freeOffset (bi : BootInfo) (heapInfo : HeapInfo) : UInt32 := (bi.heapStart heapInfo).1

/-- `heap_remaining` before the second loop. -/
def BootInfo.heapRemaining (bi : BootInfo) (heapInfo : HeapInfo) : UInt32 :=
  (bi.heapStart heapInfo).2.1

/-- All entries of the table. -/
def tocEntries (bi : BootInfo) (cfg : TocConfigTbl) (heapInfo : HeapInfo) : List TocEntry :=
  let freeOffset := bi.freeOffset heapInfo
  let heapRemaining := bi.heapRemaining heapInfo
  regionEntry (freeOffset + heapRemaining) tocSize enableReadProtection ::
    (configEntries (freeOffset + heapRemaining) cfg.partitions ++
      restEntries bi freeOffset (restOf heapRemaining cfg.partitions))

theorem length_tocEntries (cfg : TocConfigTbl) (heapInfo : HeapInfo) :
    UInt32.ofNat (tocEntries bi cfg heapInfo).length =
      .ofNat (cfg.partitions.filter fun c => !c.ignored).length + bi.additionalPartn := by
  simp only [tocEntries, restEntries, BootInfo.additionalPartn, length_cons,
    length_append, length_configEntries]
  split
  · simp only [length_cons, length_nil, Nat.add_assoc, UInt32.ofNat_add]
    rfl
  · simp only [length_cons, length_nil, Nat.add_assoc, UInt32.ofNat_add]
    rfl

/-- **What an accepted table leaves**: the entries, what was stored for them, and the checks it has
passed. -/
theorem smemBootTocSetup_some {tocVersion : UInt32} {cfg : TocConfigTbl}
    {heapInfo heapInfo' : HeapInfo}
        (h : smemBootTocSetup bi tocVersion cfg heapInfo m = some (cur, heapInfo')) :
    (bi.heapStart heapInfo).2.2 + .ofNat (totalSize cfg.partitions) ≤ bi.heapRemaining heapInfo ∧
      32 + 48 * (UInt32.ofNat (tocEntries bi cfg heapInfo).length).toNat ≤ 4096 ∧
      cur.written = tocEntries bi cfg heapInfo ∧
      cur.mem = m.putAll
        (setupPuts bi tocVersion (.ofNat (tocEntries bi cfg heapInfo).length) cur.written) ∧
      heapInfo' = if bi.isLegacy then
          { heapInfo with
            freeOffset := bi.freeOffset heapInfo
            heapRemaining := restOf (bi.heapRemaining heapInfo) cfg.partitions }
        else heapInfo := by
  unfold smemBootTocSetup at h
  rw [show bi.heapStart heapInfo = (bi.freeOffset heapInfo, bi.heapRemaining heapInfo,
    (bi.heapStart heapInfo).2.2) from rfl] at h
  simp only [tocTotals_eq, ← length_tocEntries cfg heapInfo] at h
  split at h
  · cases h
  next hsum =>
  split at h
  · cases h
  next hfit =>
  simp only [Option.some.injEq, Prod.mk.injEq] at h
  obtain ⟨rfl, rfl⟩ := h
  generalize hn : UInt32.ofNat (tocEntries bi cfg heapInfo).length = n at hfit ⊢
  generalize hself : regionEntry (bi.freeOffset heapInfo + bi.heapRemaining heapInfo) tocSize
    enableReadProtection = self
  -- the first entry is at index zero
  have hhead : TocCursor.Holds bi (m.putAll (Memory.fieldPuts bi.toc (tocHeadFields tocVersion n)))
      ⟨0, bi.heapRemaining heapInfo, [self], tocHead bi tocVersion n self m⟩ := by
    refine ⟨rfl, ?_⟩
    simp [tocHead, smemBootTocEntrySetup, tocPuts, tocHeadFields]
  obtain ⟨hloop, hloopRem, hloopWritten⟩ :=
    foldl_partition (bi.freeOffset heapInfo) cfg.partitions hhead
  obtain ⟨hrest, hrestRem, hrestWritten⟩ := hloop.rest (bi.freeOffset heapInfo)
  have hwritten := hrestWritten
  rw [hloopWritten, hloopRem] at hwritten
  refine ⟨UInt32.not_lt.mp hsum, ?_, ?_, ?_, ?_⟩
  · have hle := UInt64.not_lt.mp hfit
    have hlt := n.toNat_lt
    have h32 : (32 : UInt64).toNat = 32 := rfl
    have h48 : (48 : UInt64).toNat = 48 := rfl
    have hsize : tocSize.toUInt64.toNat = 4096 := rfl
    rw [UInt64.le_iff_toNat_le, UInt64.toNat_add, UInt64.toNat_mul, UInt32.toNat_toUInt64, h32, h48,
      hsize, Nat.mod_eq_of_lt (a := 48 * n.toNat) (by omega), Nat.mod_eq_of_lt (by omega)] at hle
    exact hle
  · rw [hwritten, ← hself]
    simp [tocEntries]
  · rw [hrest.2, ← Memory.putAll_append]
    rfl
  · rw [hrestRem, hloopRem]

end

/-! ## Where the regions lie -/

section
variable {bi : BootInfo} {cfg : TocConfigTbl} {heapInfo : HeapInfo} {top : UInt32}
    {l : List TocConfig}

theorem totalSize_cons (c : TocConfig) : totalSize (c :: l) = c.size.toNat + totalSize l := rfl

theorem uint32_sub_toNat {a b : UInt32} (h : b.toNat ≤ a.toNat) :
    (a - b).toNat = a.toNat - b.toNat :=
  UInt32.toNat_sub_of_le _ _ (UInt32.le_iff_toNat_le.mpr h)

/-- What is left does not wrap. -/
theorem restOf_toNat (h : totalSize l ≤ top.toNat) :
    (restOf top l).toNat = top.toNat - totalSize l := by
  induction l generalizing top with
  | nil => rfl
  | cons c l ih =>
    rw [totalSize_cons] at h ⊢
    have hsub : (top - c.size).toNat = top.toNat - c.size.toNat := uint32_sub_toNat (by omega)
    have hrest : restOf top (c :: l) = restOf (top - c.size) l := rfl
    rw [hrest, ih (by omega), hsub]
    omega

/-- The regions of the configured partitions, and those of the ignored ones, fill what has been cut
off. -/
theorem tiles_config (top : UInt32) (h : totalSize l ≤ top.toNat) :
    Span.Tiles (top.toNat - totalSize l) top.toNat
      ((configEntries top l).map TocEntry.span ++ configGaps top l) := by
  induction l generalizing top with
  | nil => exact ⟨[], .nil, rfl⟩
  | cons c l ih =>
    rw [totalSize_cons] at h ⊢
    have hsub : (top - c.size).toNat = top.toNat - c.size.toNat := uint32_sub_toNat (by omega)
    have htiles : Span.Tiles ((top - c.size).toNat - totalSize l) (top - c.size).toNat
        ((configEntries (top - c.size) l).map TocEntry.span ++ configGaps (top - c.size) l) :=
      ih (top - c.size) (by omega)
    have hlo : (top - c.size).toNat - totalSize l = top.toNat - (c.size.toNat + totalSize l) := by
      omega
    rw [hlo] at htiles
    have hnext := Span.Tiles.snoc (s := ⟨(top - c.size).toNat, c.size.toNat⟩) htiles
    have hstop : (Span.mk (top - c.size).toNat c.size.toNat).stop = top.toNat := by
      simp only [Span.stop, hsub]
      omega
    rw [hstop] at hnext
    cases hc : c.ignored with
    | true =>
      simp only [configEntries, configGaps, hc, if_true]
      exact hnext.perm perm_middle.symm
    | false =>
      simp only [configEntries, configGaps, hc, Bool.false_eq_true, if_false]
      exact hnext

theorem configGaps_len (top : UInt32) :
    (configGaps top l).map Span.len = (l.filter TocConfig.ignored).map fun c => c.size.toNat := by
  induction l generalizing top with
  | nil => rfl
  | cons c l ih =>
    cases hc : c.ignored with
    | true => simp [configGaps, hc, ih]
    | false => simp [configGaps, hc, ih]

/-- The sizes of the partitions are those of the entries and of the ignored regions. -/
theorem totalSize_eq (top : UInt32) :
    totalSize l = (((configEntries top l).map TocEntry.span).map Span.len).sum +
      ((l.filter TocConfig.ignored).map fun c => c.size.toNat).sum := by
  induction l generalizing top with
  | nil => rfl
  | cons c l ih =>
    rw [totalSize_cons, ih (top - c.size)]
    cases hc : c.ignored with
    | true =>
      simp [configEntries, hc]
      omega
    | false =>
      simp [configEntries, hc, TocEntry.span, TocConfig.entry]
      omega

/-- An entry of a configured partition lies above what is left. -/
theorem mem_configEntries (h : totalSize l ≤ top.toNat) {e : TocEntry}
    (he : e ∈ configEntries top l) :
    top.toNat - totalSize l ≤ e.offset.toNat ∧ e.offset.toNat + e.size.toNat ≤ top.toNat ∧
      ∃ c ∈ l, c.ignored = false ∧ e = c.entry e.offset := by
  induction l generalizing top with
  | nil => cases he
  | cons c l ih =>
    rw [totalSize_cons] at h ⊢
    have hsub : (top - c.size).toNat = top.toNat - c.size.toNat := uint32_sub_toNat (by omega)
    have hrest : e ∈ configEntries (top - c.size) l →
        top.toNat - (c.size.toNat + totalSize l) ≤ e.offset.toNat ∧
          e.offset.toNat + e.size.toNat ≤ top.toNat ∧
          ∃ c' ∈ c :: l, c'.ignored = false ∧ e = c'.entry e.offset := by
      intro he
      obtain ⟨hlow, hhigh, c', hc', hent⟩ := ih (by omega) he
      exact ⟨by omega, by omega, c', .tail _ hc', hent⟩
    cases hc : c.ignored with
    | true =>
      simp only [configEntries, hc, if_true] at he
      exact hrest he
    | false =>
      simp only [configEntries, hc, Bool.false_eq_true, if_false] at he
      rcases mem_cons.mp he with rfl | he
      · have hoff : (c.entry (top - c.size)).offset.toNat = top.toNat - c.size.toNat := hsub
        have hsize : (c.entry (top - c.size)).size = c.size := rfl
        rw [hsize]
        exact ⟨by omega, by omega, c, .head _, hc, rfl⟩
      · exact hrest he

/-- The entries of the configured partitions lie below one another. -/
theorem configEntries_sorted (h : totalSize l ≤ top.toNat) :
    (configEntries top l).Pairwise fun e e' =>
      e'.offset.toNat + e'.size.toNat ≤ e.offset.toNat := by
  induction l generalizing top with
  | nil => exact List.Pairwise.nil
  | cons c l ih =>
    rw [totalSize_cons] at h
    have hsub : (top - c.size).toNat = top.toNat - c.size.toNat := uint32_sub_toNat (by omega)
    have hrest := ih (by omega : totalSize l ≤ (top - c.size).toNat)
    simp only [configEntries]
    split
    · exact hrest
    · refine pairwise_cons.mpr ⟨fun e' he' => ?_, hrest⟩
      obtain ⟨-, hhigh, -⟩ := mem_configEntries (by omega) he'
      exact hhigh

/-- Every configured partition that is not ignored has an entry. -/
theorem exists_configEntries {c : TocConfig} (hc : c ∈ l)
    (hign : c.ignored = false) (top : UInt32) :
    ∃ offset, c.entry offset ∈ configEntries top l := by
  induction l generalizing top with
  | nil => cases hc
  | cons d l ih =>
    rcases mem_cons.mp hc with rfl | hc
    · refine ⟨top - c.size, ?_⟩
      simp only [configEntries, hign, Bool.false_eq_true, if_false]
      exact .head _
    · obtain ⟨offset, hmem⟩ := ih hc (top - d.size)
      refine ⟨offset, ?_⟩
      simp only [configEntries]
      split
      · exact hmem
      · exact .tail _ hmem

end

end Smem
