import BootXf.Smem.TocLayout

/-!
# The table of contents in memory

When the sizes of the configured partitions fit (`TocFits`), the regions of the table fill shared
memory below it (`TocFits.tiles`). What the setup stores for the table is read back, unless the
header of a partition that begins less than a header below the table runs into it; and so is the
header of a partition, unless one that is stored later runs into it (`HeadersSpared`,
`TocFits.read`).
-/

open Lib

namespace Smem

open List

/-- The configured partitions and the table fit in the heap. -/
structure TocFits (bi : BootInfo) (cfg : TocConfigTbl) (heapInfo : HeapInfo) : Prop where
  low : 4096 ≤ (bi.freeOffset heapInfo).toNat
  top : (bi.freeOffset heapInfo).toNat + (bi.heapRemaining heapInfo).toNat + 4096 =
    bi.smemSize.toNat
  fits : totalSize cfg.partitions + 4096 ≤ (bi.heapRemaining heapInfo).toNat
  count : 32 + 48 * (tocEntries bi cfg heapInfo).length ≤ 4096

/-- Where a partition that a host takes lies: at a page, with room for its header. -/
structure TocEntry.Placed (bi : BootInfo) (e : TocEntry) : Prop where
  aligned : e.offset.toNat % 4096 = 0
  pos : 0 < e.offset.toNat
  room : 32 ≤ e.size.toNat
  below : e.offset.toNat + e.size.toNat + 4096 ≤ bi.smemSize.toNat

namespace TocFits

section
variable {bi : BootInfo} {cfg : TocConfigTbl} {heapInfo : HeapInfo}

/-! ## The regions -/

theorem top_toNat (h : TocFits bi cfg heapInfo) :
    (bi.freeOffset heapInfo + bi.heapRemaining heapInfo).toNat + 4096 = bi.smemSize.toNat := by
  have htop := h.top
  have hlt := bi.smemSize.toNat_lt
  rw [UInt32.toNat_add]
  omega

/-- The heap that is left. -/
theorem rest_toNat (h : TocFits bi cfg heapInfo) :
    (restOf (bi.heapRemaining heapInfo) cfg.partitions).toNat =
      (bi.heapRemaining heapInfo).toNat - totalSize cfg.partitions :=
  restOf_toNat (by have := h.fits; omega)

theorem freeOffset_of_not_legacy (hl : bi.isLegacy = false) :
    (bi.freeOffset heapInfo).toNat = 4096 := by
  simp only [BootInfo.freeOffset, BootInfo.heapStart, hl, Bool.false_eq_true, if_false]
  rfl

/-- **The regions fill shared memory** below the table, with what the ignored partitions leave. -/
theorem tiles (h : TocFits bi cfg heapInfo) :
    Span.Tiles 0 (bi.smemSize.toNat - 4096) ((tocEntries bi cfg heapInfo).tail.map TocEntry.span ++
      configGaps (bi.freeOffset heapInfo + bi.heapRemaining heapInfo) cfg.partitions) := by
  have htop := h.top_toNat
  have hsum := h.top
  have hfits := h.fits
  have hrest := h.rest_toNat
  have hlt := bi.smemSize.toNat_lt
  have htail : (tocEntries bi cfg heapInfo).tail = configEntries
      (bi.freeOffset heapInfo + bi.heapRemaining heapInfo) cfg.partitions ++ restEntries bi
        (bi.freeOffset heapInfo) (restOf (bi.heapRemaining heapInfo) cfg.partitions) := rfl
  have hconfig := tiles_config (l := cfg.partitions)
    (bi.freeOffset heapInfo + bi.heapRemaining heapInfo) (by omega)
  have hhi : (bi.freeOffset heapInfo + bi.heapRemaining heapInfo).toNat =
      bi.smemSize.toNat - 4096 := by
    omega
  rw [hhi] at hconfig
  rw [htail, map_append, append_assoc]
  generalize (configEntries (bi.freeOffset heapInfo + bi.heapRemaining heapInfo)
    cfg.partitions).map TocEntry.span = es at hconfig ⊢
  generalize configGaps (bi.freeOffset heapInfo + bi.heapRemaining heapInfo) cfg.partitions = gaps
    at hconfig ⊢
  cases hl : bi.isLegacy with
  | true =>
    -- the legacy region ends where the last partition starts
    have hstop : bi.smemSize.toNat - 4096 - totalSize cfg.partitions = (regionEntry 0
        (restOf (bi.heapRemaining heapInfo) cfg.partitions + bi.freeOffset heapInfo)
        enableRwProtection).span.stop := by
      simp only [regionEntry, TocEntry.span, Span.stop, UInt32.toNat_zero, UInt32.toNat_add, hrest]
      omega
    rw [hstop] at hconfig
    simp only [restEntries, hl, if_true, map_cons, map_nil, cons_append,
      nil_append]
    exact hconfig.cons.perm perm_middle.symm
  | false =>
    have hfree : (bi.freeOffset heapInfo).toNat = 4096 := freeOffset_of_not_legacy hl
    have hstop : bi.smemSize.toNat - 4096 - totalSize cfg.partitions = (commonEntry
        (restOf (bi.heapRemaining heapInfo) cfg.partitions)).span.stop := by
      have hlegacy : legacySmemSize.toNat = 4096 := rfl
      simp only [commonEntry, TocEntry.span, Span.stop, hrest, hlegacy]
      omega
    rw [hstop] at hconfig
    have hcommon := hconfig.cons
    have hlow : (commonEntry (restOf (bi.heapRemaining heapInfo) cfg.partitions)).span.base =
        (regionEntry 0 legacySmemSize enableRwProtection).span.stop := rfl
    rw [hlow] at hcommon
    simp only [restEntries, hl, Bool.false_eq_true, if_false, map_cons, map_nil,
      cons_append, nil_append]
    refine hcommon.cons.perm ?_
    exact (List.Perm.swap _ _ _).trans ((perm_middle.symm.cons _).trans perm_middle.symm)

/-! ## Where the partitions lie -/

theorem hasHeader_iff {e : TocEntry} : e.hasHeader = true ↔ e.size ≠ 0 ∧
    e.setPartnHeader = true := by
  simp [TocEntry.hasHeader]

/-- A region of the table ends below the table. -/
theorem span_below (h : TocFits bi cfg heapInfo) {e : TocEntry}
    (he : e ∈ (tocEntries bi cfg heapInfo).tail) :
    e.offset.toNat + e.size.toNat + 4096 ≤ bi.smemSize.toNat := by
  have hwithin := h.tiles.within e.span (mem_append_left _ (mem_map_of_mem he))
  have htop := h.top
  simp only [Span.Within, TocEntry.span] at hwithin
  omega

/-- An entry with a partition header is that of a configured partition or of the common one. -/
theorem mem_of_hasHeader (h : TocFits bi cfg heapInfo) {e : TocEntry}
    (he : e ∈ tocEntries bi cfg heapInfo) (hhdr : e.setPartnHeader = true) :
    e ∈ (tocEntries bi cfg heapInfo).tail ∧ 4096 ≤ e.offset.toNat ∧
      (e ∈ configEntries (bi.freeOffset heapInfo + bi.heapRemaining heapInfo) cfg.partitions ∨
        (bi.isLegacy = false ∧
          e = commonEntry (restOf (bi.heapRemaining heapInfo) cfg.partitions))) := by
  have htop := h.top_toNat
  have hsum := h.top
  have hfits := h.fits
  have hlow := h.low
  rcases mem_cons.mp he with rfl | he
  · cases hhdr
  · refine ⟨he, ?_⟩
    rcases mem_append.mp he with he | he
    · obtain ⟨hle, -, -⟩ := mem_configEntries (by omega) he
      exact ⟨by omega, .inl he⟩
    · simp only [restEntries] at he
      cases hl : bi.isLegacy with
      | true =>
        rw [hl, if_pos rfl] at he
        cases mem_singleton.mp he
        cases hhdr
      | false =>
        rw [hl, if_neg Bool.false_ne_true] at he
        rcases mem_cons.mp he with rfl | he
        · exact ⟨Nat.le_refl _, .inr ⟨rfl, rfl⟩⟩
        · cases mem_singleton.mp he
          cases hhdr

/-- A partition with a header ends below the table, and has a byte. -/
theorem header_below (h : TocFits bi cfg heapInfo) {e : TocEntry}
    (he : e ∈ tocEntries bi cfg heapInfo) (hhdr : e.hasHeader = true) :
    0 < e.size.toNat ∧ 4096 ≤ e.offset.toNat ∧
      e.offset.toNat + e.size.toNat + 4096 ≤ bi.smemSize.toNat := by
  obtain ⟨hne, hset⟩ := hasHeader_iff.mp hhdr
  obtain ⟨htail, hoff, -⟩ := h.mem_of_hasHeader he hset
  exact ⟨Nat.pos_of_ne_zero fun hz => hne (UInt32.toNat_inj.mp hz), hoff, h.span_below htail⟩

/-- A partition with a header at a page and with room for it is one that a host takes. -/
theorem placed (h : TocFits bi cfg heapInfo) {e : TocEntry} (he : e ∈ tocEntries bi cfg heapInfo)
    (hhdr : e.hasHeader = true) (haligned : e.offset.toNat % 4096 = 0)
    (hroom : 32 ≤ e.size.toNat) : e.Placed bi := by
  obtain ⟨-, hoff, hbelow⟩ := h.header_below he hhdr
  exact ⟨haligned, by omega, hroom, hbelow⟩

end

end TocFits

/-! ## What is stored -/

section
variable {bi : BootInfo} {e : TocEntry} {i : Nat} {p : Memory.Put}

theorem BootInfo.toc_toNat : bi.toc.toNat = bi.smemBaseAddr.toNat + bi.smemSize.toNat - 4096 := by
  have hbelow := bi.below
  have hlarge := bi.large
  have hsize : tocSize.toUInt64.toNat = 4096 := rfl
  simp only [BootInfo.toc, UInt64.toNat_sub, UInt64.toNat_add, UInt32.toNat_toUInt64, hsize]
  omega

theorem BootInfo.tocEntry_toNat (hi : 32 + 48 * i ≤ 4096) :
    (bi.tocEntry (.ofNat i)).toNat =
      bi.smemBaseAddr.toNat + bi.smemSize.toNat - 4096 + 32 + 48 * i := by
  have hbelow := bi.below
  have hlarge := bi.large
  have htoc := bi.toc_toNat
  have h32 : (32 : UInt64).toNat = 32 := rfl
  have h48 : (48 : UInt64).toNat = 48 := rfl
  have hidx : (UInt32.ofNat i).toNat = i := by
    rw [UInt32.toNat_ofNat']
    exact Nat.mod_eq_of_lt (by omega)
  have hmul : (48 * (UInt32.ofNat i).toUInt64).toNat = 48 * i := by
    rw [UInt64.toNat_mul, UInt32.toNat_toUInt64, hidx, h48]
    exact Nat.mod_eq_of_lt (by omega)
  rw [BootInfo.tocEntry, UInt64.toNat_add, UInt64.toNat_add, htoc, h32, hmul]
  omega

/-- The pointer to the header of the entry's partition. -/
def BootInfo.partnHeader (bi : BootInfo) (e : TocEntry) : UInt64 :=
  bi.smemBaseAddr + e.offset.toUInt64

theorem BootInfo.partnHeader_toNat :
    (bi.partnHeader e).toNat = bi.smemBaseAddr.toNat + e.offset.toNat := by
  have hbelow := bi.below
  have hoff := e.offset.toNat_lt
  rw [BootInfo.partnHeader, UInt64.toNat_add, UInt32.toNat_toUInt64]
  exact Nat.mod_eq_of_lt (by omega)

theorem tocEntryFields_in : ∀ f ∈ tocEntryFields e, 0 < f.len ∧ f.offset + f.len ≤ 48 := by
  intro f hf
  simp only [tocEntryFields] at hf
  split at hf <;> simp at hf
  · rcases hf with rfl | rfl | rfl | rfl | rfl | rfl <;> exact ⟨by simp, by simp⟩
  · rcases hf with rfl | rfl | rfl | rfl | rfl | rfl | rfl | rfl | rfl | rfl <;>
      exact ⟨by simp, by simp⟩

theorem tocEntryFields_pairwise :
    (tocEntryFields e).Pairwise fun f g => f.offset + f.len ≤ g.offset := by
  simp only [tocEntryFields]
  split <;> simp

theorem partnHeaderFields_in : ∀ f ∈ partnHeaderFields e, 0 < f.len ∧ f.offset + f.len ≤ 20 := by
  intro f hf
  simp only [partnHeaderFields] at hf
  simp at hf
  rcases hf with rfl | rfl | rfl | rfl | rfl | rfl <;> exact ⟨by simp, by simp⟩

theorem partnHeaderFields_pairwise :
    (partnHeaderFields e).Pairwise fun f g => f.offset + f.len ≤ g.offset := by
  simp [partnHeaderFields]

/-- The bytes of a table entry. -/
def BootInfo.entrySpan (bi : BootInfo) (i : Nat) : Span :=
  ⟨bi.smemBaseAddr.toNat + bi.smemSize.toNat - 4096 + 32 + 48 * i, 48⟩

/-- The bytes of a partition header that the setup stores. -/
def BootInfo.headerSpan (bi : BootInfo) (e : TocEntry) : Span :=
  ⟨bi.smemBaseAddr.toNat + e.offset.toNat, 20⟩

/-- What is stored for an entry goes to the entry or to the header of its partition. -/
theorem tocEntryPuts_within (hi : 32 + 48 * (i + 1) ≤ 4096)
    (hp : p ∈ tocEntryPuts bi (bi.tocEntry (.ofNat i)) e) :
    p.span.Within (bi.entrySpan i) ∨ e.hasHeader = true ∧ p.span.Within (bi.headerSpan e) := by
  have hbelow := bi.below
  have hlarge := bi.large
  rcases mem_append.mp hp with hp | hp
  · have hwithin := Memory.within_fieldPuts
      (by rw [BootInfo.tocEntry_toNat (by omega)]; omega) tocEntryFields_in p hp
    rw [BootInfo.tocEntry_toNat (by omega)] at hwithin
    exact .inl hwithin
  · cases hhdr : e.hasHeader with
    | false =>
      rw [hhdr, if_neg Bool.false_ne_true] at hp
      cases hp
    | true =>
      rw [hhdr, if_pos rfl] at hp
      have hoff := e.offset.toNat_lt
      have hwithin := Memory.within_fieldPuts (a := bi.partnHeader e)
        (by rw [BootInfo.partnHeader_toNat]; omega) partnHeaderFields_in p hp
      rw [BootInfo.partnHeader_toNat] at hwithin
      exact .inr ⟨rfl, hwithin⟩

/-- What is stored for an entry ends inside the address space. -/
theorem tocEntryPuts_ends (hi : 32 + 48 * (i + 1) ≤ 4096)
    (hp : p ∈ tocEntryPuts bi (bi.tocEntry (.ofNat i)) e) : p.span.stop ≤ 2 ^ 64 := by
  have hbelow := bi.below
  have hlarge := bi.large
  have hoff := e.offset.toNat_lt
  rcases tocEntryPuts_within hi hp with ⟨-, hstop⟩ | ⟨-, -, hstop⟩
  · simp only [Span.stop, BootInfo.entrySpan] at hstop ⊢
    omega
  · simp only [Span.stop, BootInfo.headerSpan] at hstop ⊢
    omega

/-! ## What is left of it -/

/-- The addresses of the span are not those of the entries from index `k` on, nor of their
headers. -/
def Spares (bi : BootInfo) (w : Span) (k : Nat) (l : List TocEntry) : Prop :=
  ∀ p ∈ l.zipIdx k, 32 + 48 * (p.2 + 1) ≤ 4096 ∧ w.Disjoint (bi.entrySpan p.2) ∧
    (p.1.hasHeader = true → w.Disjoint (bi.headerSpan p.1))

/-- What is stored for entries leaves other addresses alone. -/
theorem agreeOn_spared {w : Span} {k : Nat} {l : List TocEntry} {m : Memory}
    (h : Spares bi w k l) :
    Memory.AgreeOn w
      (m.putAll ((l.zipIdx k).flatMap fun p => tocEntryPuts bi (bi.tocEntry (.ofNat p.2)) p.1))
      m := by
  refine Memory.agreeOn_putAll (fun q hq => ?_) fun q hq => ?_
  · obtain ⟨p, hp, hq⟩ := mem_flatMap.mp hq
    exact tocEntryPuts_ends (h p hp).1 hq
  · obtain ⟨p, hp, hq⟩ := mem_flatMap.mp hq
    obtain ⟨hi, hentry, hheader⟩ := h p hp
    rcases tocEntryPuts_within hi hq with hq | ⟨hhdr, hq⟩
    · exact hentry.mono (Span.Within.refl w) hq
    · exact (hheader hhdr).mono (Span.Within.refl w) hq

section
variable {tocVersion n : UInt32} {m : Memory} {l l₁ l₂ : List TocEntry} {w : Span}

theorem tocHead_in : ∀ f ∈ tocHeadFields tocVersion n, 0 < f.len ∧ f.offset + f.len ≤ 12 := by
  intro f hf
  simp only [tocHeadFields, mem_cons, not_mem_nil, or_false] at hf
  rcases hf with rfl | rfl | rfl <;> exact ⟨by simp, by simp⟩

theorem toc_end : bi.toc.toNat + 12 ≤ 2 ^ 64 := by
  have hbelow := bi.below
  have hlarge := bi.large
  rw [BootInfo.toc_toNat]
  omega

/-- The header of the table is what was stored, if the entries spare it. -/
theorem agreeOn_head (m : Memory) (tocVersion n : UInt32) (h : Spares bi ⟨bi.toc.toNat, 12⟩ 0 l) :
    Memory.AgreeOn ⟨bi.toc.toNat, 12⟩ (m.putAll (setupPuts bi tocVersion n l))
      (m.putAll (Memory.fieldPuts bi.toc (tocHeadFields tocVersion n))) := by
  rw [setupPuts, Memory.putAll_append]
  exact agreeOn_spared h

/-- A table entry is what was stored for it, if its own header and the later entries spare it. -/
theorem agreeOn_entry (m : Memory) (tocVersion n : UInt32)
    (hheader : e.hasHeader = true → (bi.entrySpan l₁.length).Disjoint (bi.headerSpan e))
    (hi : 32 + 48 * (l₁.length + 1) ≤ 4096)
    (hlater : Spares bi (bi.entrySpan l₁.length) (l₁.length + 1) l₂) :
    ∃ m' : Memory, Memory.AgreeOn (bi.entrySpan l₁.length)
      (m.putAll (setupPuts bi tocVersion n (l₁ ++ e :: l₂)))
      (m'.putAll (Memory.fieldPuts (bi.tocEntry (.ofNat l₁.length)) (tocEntryFields e))) := by
  rw [setupPuts, tocPuts_split, Memory.putAll_append, Memory.putAll_append, Memory.putAll_append,
    tocEntryPuts, Memory.putAll_append]
  refine ⟨(m.putAll (Memory.fieldPuts bi.toc (tocHeadFields tocVersion n))).putAll (tocPuts bi l₁),
    (agreeOn_spared hlater).trans ?_⟩
  refine Memory.agreeOn_putAll (fun q hq => ?_) fun q hq => ?_
  · exact tocEntryPuts_ends (by omega) (mem_append_right _ hq)
  · split at hq
    · rename_i hhdr
      have hoff := e.offset.toNat_lt
      have hbelow := bi.below
      have hwithin := Memory.within_fieldPuts (a := bi.partnHeader e)
        (by rw [BootInfo.partnHeader_toNat]; omega) partnHeaderFields_in q hq
      rw [BootInfo.partnHeader_toNat] at hwithin
      exact (hheader hhdr).mono (Span.Within.refl _) hwithin
    · cases hq

/-- Of a partition header that was stored, what the later entries spare is left. -/
theorem agreeOn_header (m : Memory) (tocVersion n : UInt32) (hhdr : e.hasHeader = true)
    (hlater : Spares bi w (l₁.length + 1) l₂) :
    ∃ m' : Memory, Memory.AgreeOn w (m.putAll (setupPuts bi tocVersion n (l₁ ++ e :: l₂)))
      (m'.putAll (Memory.fieldPuts (bi.partnHeader e) (partnHeaderFields e))) := by
  rw [setupPuts, tocPuts_split, Memory.putAll_append, Memory.putAll_append, Memory.putAll_append,
    tocEntryPuts, if_pos hhdr, Memory.putAll_append]
  exact ⟨_, agreeOn_spared hlater⟩

end

/-- A partition header in memory, as the setup stores it. -/
structure HeaderStored (bi : BootInfo) (m : Memory) (e : TocEntry) : Prop where
  identifier : m.u32 (bi.partnHeader e) = partitionHeaderId
  size : m.u32 (bi.partnHeader e + 8) = e.size - e.totalExclSize
  freeUncached : m.u32 (bi.partnHeader e + 12) = 32
  freeCached : m.u32 (bi.partnHeader e + 16) = e.size

/-- A header is read from the bytes that were stored for it. -/
theorem headerStored_of_agreeOn {m : Memory} (m' : Memory)
    (hagree : Memory.AgreeOn (bi.headerSpan e) m
      (m'.putAll (Memory.fieldPuts (bi.partnHeader e) (partnHeaderFields e)))) :
    HeaderStored bi m e := by
  have hoff := e.offset.toNat_lt
  have hbelow := bi.below
  rw [BootInfo.headerSpan, ← BootInfo.partnHeader_toNat] at hagree
  have hread : ∀ (o : Nat) (v : UInt32), ⟨o, 4, v.toNat⟩ ∈ partnHeaderFields e →
      m.u32 (bi.partnHeader e + .ofNat o) = v := by
    intro o v hf
    refine Memory.u32_fields hagree ?_ partnHeaderFields_in partnHeaderFields_pairwise hf
    rw [BootInfo.partnHeader_toNat]
    omega
  refine ⟨?_, ?_, ?_, ?_⟩
  · have hzero : bi.partnHeader e + .ofNat 0 = bi.partnHeader e := UInt64.add_zero _
    rw [← hzero]
    exact hread 0 _ (by simp [partnHeaderFields])
  · exact hread 8 _ (by simp [partnHeaderFields])
  · exact hread 12 32 (by simp [partnHeaderFields])
  · exact hread 16 _ (by simp [partnHeaderFields])

end

/-! ## Reading the table back -/

/-- Every header ends below the table, and none that is stored after the header of an entry with
`P` runs into it. -/
structure HeadersSpared (bi : BootInfo) (P : TocEntry → Prop) (l : List TocEntry) : Prop where
  table : ∀ e ∈ l, e.hasHeader = true → e.offset.toNat + 20 + 4096 ≤ bi.smemSize.toNat
  later : l.Pairwise fun e e' => P e → e.hasHeader = true → e'.hasHeader = true →
    (bi.headerSpan e).Disjoint (bi.headerSpan e')

/-- What the reader looks at in the table, in a memory. -/
structure TableReads (bi : BootInfo) (m : Memory) (tocVersion n : UInt32) (l : List TocEntry) :
    Prop where
  identifier : m.u32 bi.toc = tocIdentifier
  version : m.u32 (bi.toc + 4) = tocVersion
  numEntries : m.u32 (bi.toc + 8) = n
  offset : ∀ e i, (e, i) ∈ l.zipIdx → m.u32 (bi.tocEntry (.ofNat i)) = e.offset
  size : ∀ e i, (e, i) ∈ l.zipIdx → m.u32 (bi.tocEntry (.ofNat i) + 4) = e.size
  host0 : ∀ e i, (e, i) ∈ l.zipIdx → m.u16 (bi.tocEntry (.ofNat i) + 12) = e.host0
  host1 : ∀ e i, (e, i) ∈ l.zipIdx → m.u16 (bi.tocEntry (.ofNat i) + 14) = e.host1
  cacheline : ∀ e i, (e, i) ∈ l.zipIdx → m.u32 (bi.tocEntry (.ofNat i) + 16) = e.sizeCacheline

/-- The element at an index, with what is before and behind it. -/
theorem exists_split_of_mem_zipIdx {α : Type _} {l : List α} {a : α} {i : Nat}
    (h : (a, i) ∈ l.zipIdx) : ∃ l₁ l₂, l = l₁ ++ a :: l₂ ∧ l₁.length = i := by
  obtain ⟨hi, ha⟩ := mem_zipIdx' h
  refine ⟨l.take i, l.drop (i + 1), ?_, length_take_of_le (Nat.le_of_lt hi)⟩
  rw [ha, getElem_cons_drop, take_append_drop]

namespace TocFits

section
variable {bi : BootInfo} {cfg : TocConfigTbl} {heapInfo : HeapInfo} {tocVersion n : UInt32}
  {m : Memory} {e : TocEntry} {i : Nat} {P : TocEntry → Prop} {l₁ l₂ : List TocEntry} {w : Span}

theorem lt_of_mem_zipIdx (h : TocFits bi cfg heapInfo)
    (he : (e, i) ∈ (tocEntries bi cfg heapInfo).zipIdx) :
    e ∈ tocEntries bi cfg heapInfo ∧ 32 + 48 * (i + 1) ≤ 4096 := by
  have hcount := h.count
  obtain ⟨hlt, -⟩ := mem_zipIdx' he
  exact ⟨fst_mem_of_mem_zipIdx he, by omega⟩

/-- Addresses below the table's entries are spared by the entries whose headers spare them. -/
theorem spares (h : TocFits bi cfg heapInfo) (hsplit : tocEntries bi cfg heapInfo = l₁ ++ l₂)
    (hw : w.stop ≤ bi.toc.toNat + 32)
    (hheaders : ∀ e ∈ l₂, e.hasHeader = true → w.Disjoint (bi.headerSpan e)) :
    Spares bi w l₁.length l₂ := by
  have hbelow := bi.below
  have hlarge := bi.large
  have hcount := h.count
  rw [hsplit, length_append] at hcount
  rintro ⟨e, i⟩ he
  have hi := snd_lt_of_mem_zipIdx he
  refine ⟨by simp only at hi ⊢; omega, .inl ?_, hheaders e (fst_mem_of_mem_zipIdx he)⟩
  rw [BootInfo.toc_toNat] at hw
  simp only [BootInfo.entrySpan]
  omega

/-- A header that begins below the table does not run into the table's entries. -/
theorem entrySpan_disjoint (h : TocFits bi cfg heapInfo) (he : e ∈ tocEntries bi cfg heapInfo)
    (hhdr : e.hasHeader = true) (k : Nat) : (bi.entrySpan k).Disjoint (bi.headerSpan e) := by
  obtain ⟨hpos, -, hbelow⟩ := h.header_below he hhdr
  refine .inr ?_
  simp only [Span.stop, BootInfo.headerSpan, BootInfo.entrySpan]
  omega

/-- The header of a partition that the later ones spare is read back. -/
theorem headerStored (h : TocFits bi cfg heapInfo)
    (hsplit : tocEntries bi cfg heapInfo = l₁ ++ e :: l₂) (hhdr : e.hasHeader = true)
    (hlater : ∀ e' ∈ l₂, e'.hasHeader = true → (bi.headerSpan e).Disjoint (bi.headerSpan e')) :
    HeaderStored bi (m.putAll (setupPuts bi tocVersion n (tocEntries bi cfg heapInfo))) e := by
  have he : e ∈ tocEntries bi cfg heapInfo := by
    rw [hsplit]
    exact mem_append_right _ (.head _)
  obtain ⟨hpos, -, hbelow⟩ := h.header_below he hhdr
  have hlarge := bi.large
  have hsplit' : tocEntries bi cfg heapInfo = (l₁ ++ [e]) ++ l₂ := by rw [hsplit]; simp
  have hspares := h.spares hsplit' (w := bi.headerSpan e) (by
    rw [BootInfo.toc_toNat]
    simp only [Span.stop, BootInfo.headerSpan]
    omega) hlater
  rw [length_append, length_singleton] at hspares
  obtain ⟨m', hagree⟩ := agreeOn_header m tocVersion n hhdr hspares
  rw [hsplit]
  exact headerStored_of_agreeOn m' hagree

/-- A table entry holds what was stored for it: no header reaches it. -/
theorem agreeOn_tocEntry (h : TocFits bi cfg heapInfo) (m : Memory) (tocVersion n : UInt32)
    (he : (e, i) ∈ (tocEntries bi cfg heapInfo).zipIdx) :
    (bi.tocEntry (.ofNat i)).toNat + 48 ≤ 2 ^ 64 ∧ ∃ m' : Memory,
      Memory.AgreeOn ⟨(bi.tocEntry (.ofNat i)).toNat, 48⟩
        (m.putAll (setupPuts bi tocVersion n (tocEntries bi cfg heapInfo)))
        (m'.putAll (Memory.fieldPuts (bi.tocEntry (.ofNat i)) (tocEntryFields e))) := by
  have hlarge := bi.large
  have hbelow := bi.below
  have hcount := h.count
  obtain ⟨hmem, hi⟩ := h.lt_of_mem_zipIdx he
  obtain ⟨l₁, l₂, hsplit, rfl⟩ := exists_split_of_mem_zipIdx he
  have haddr := bi.tocEntry_toNat (i := l₁.length) (by omega)
  refine ⟨by omega, ?_⟩
  have hlater : Spares bi (bi.entrySpan l₁.length) (l₁.length + 1) l₂ := by
    rintro ⟨e', j⟩ he'
    have hj := le_snd_of_mem_zipIdx he'
    have hlt := snd_lt_of_mem_zipIdx he'
    rw [hsplit, length_append, length_cons] at hcount
    have hmem' : e' ∈ tocEntries bi cfg heapInfo := by
      rw [hsplit]
      exact mem_append_right _ (.tail _ (fst_mem_of_mem_zipIdx he'))
    refine ⟨by simp only at hlt ⊢; omega, .inl ?_, fun hhdr => h.entrySpan_disjoint hmem' hhdr _⟩
    simp only [Span.stop, BootInfo.entrySpan] at hj ⊢
    omega
  obtain ⟨m', hagree⟩ := agreeOn_entry m tocVersion n
    (fun hhdr => h.entrySpan_disjoint hmem hhdr _) hi hlater
  rw [← hsplit] at hagree
  refine ⟨m', ?_⟩
  rw [haddr]
  exact hagree

/-- **The table reads back** as it was written, when every header ends below it. -/
theorem readTable (h : TocFits bi cfg heapInfo)
    (htable : ∀ e ∈ tocEntries bi cfg heapInfo, e.hasHeader = true →
      e.offset.toNat + 20 + 4096 ≤ bi.smemSize.toNat) :
    TableReads bi (m.putAll (setupPuts bi tocVersion n (tocEntries bi cfg heapInfo))) tocVersion n
      (tocEntries bi cfg heapInfo) := by
  have hlarge := bi.large
  have hbelow := bi.below
  have hhead := agreeOn_head m tocVersion n
    (h.spares (nil_append _).symm (w := ⟨bi.toc.toNat, 12⟩) (by simp only [Span.stop]; omega)
      fun e he hhdr => .inr (by
        have := htable e he hhdr
        rw [BootInfo.toc_toNat]
        simp only [Span.stop, BootInfo.headerSpan]
        omega))
  have hentry := fun e i => h.agreeOn_tocEntry m tocVersion n (e := e) (i := i)
  generalize hM : m.putAll (setupPuts bi tocVersion n (tocEntries bi cfg heapInfo)) = M
    at hhead hentry ⊢
  have head32 : ∀ (o : Nat) (v : UInt32), ⟨o, 4, v.toNat⟩ ∈ tocHeadFields tocVersion n →
      M.u32 (bi.toc + .ofNat o) = v := by
    intro o v hf
    exact Memory.u32_fields hhead toc_end tocHead_in (by simp [tocHeadFields]) hf
  have entry32 : ∀ e i, (e, i) ∈ (tocEntries bi cfg heapInfo).zipIdx → ∀ (o : Nat) (v : UInt32),
      ⟨o, 4, v.toNat⟩ ∈ tocEntryFields e → M.u32 (bi.tocEntry (.ofNat i) + .ofNat o) = v := by
    intro e i he o v hf
    obtain ⟨hend, m', hagree⟩ := hentry e i he
    exact Memory.u32_fields hagree hend tocEntryFields_in tocEntryFields_pairwise hf
  have entry16 : ∀ e i, (e, i) ∈ (tocEntries bi cfg heapInfo).zipIdx → ∀ (o : Nat) (v : UInt16),
      ⟨o, 2, v.toNat⟩ ∈ tocEntryFields e → M.u16 (bi.tocEntry (.ofNat i) + .ofNat o) = v := by
    intro e i he o v hf
    obtain ⟨hend, m', hagree⟩ := hentry e i he
    exact Memory.u16_fields hagree hend tocEntryFields_in tocEntryFields_pairwise hf
  have hzero : ∀ a : UInt64, a + .ofNat 0 = a := UInt64.add_zero
  exact {
    identifier := by
      rw [← hzero bi.toc]
      exact head32 0 _ (by simp [tocHeadFields])
    version := head32 4 _ (by simp [tocHeadFields])
    numEntries := head32 8 _ (by simp [tocHeadFields])
    offset := fun e i he => by
      rw [← hzero (bi.tocEntry (.ofNat i))]
      exact entry32 e i he 0 _ (by simp [tocEntryFields])
    size := fun e i he => entry32 e i he 4 _ (by simp [tocEntryFields])
    host0 := fun e i he => entry16 e i he 12 _ (by simp [tocEntryFields])
    host1 := fun e i he => entry16 e i he 14 _ (by simp [tocEntryFields])
    cacheline := fun e i he => entry32 e i he 16 _ (by simp [tocEntryFields]) }

/-- **The headers read back** as they were written, where no later one runs into them. -/
theorem readHeader (h : TocFits bi cfg heapInfo)
    (hspared : HeadersSpared bi P (tocEntries bi cfg heapInfo))
    (he : e ∈ tocEntries bi cfg heapInfo) (hP : P e) (hhdr : e.hasHeader = true) :
    HeaderStored bi (m.putAll (setupPuts bi tocVersion n (tocEntries bi cfg heapInfo))) e := by
  obtain ⟨l₁, l₂, hsplit⟩ := append_of_mem he
  have hlater := hspared.later
  rw [hsplit] at hlater
  obtain ⟨-, hlater, -⟩ := pairwise_append.mp hlater
  exact h.headerStored hsplit hhdr fun e' he' hhdr' =>
    (pairwise_cons.mp hlater).1 e' he' hP hhdr hhdr'

end

end TocFits

end Smem
