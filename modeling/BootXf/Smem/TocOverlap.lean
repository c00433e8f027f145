import BootXf.Smem.TocAgreement
import Mathlib.Tactic.IntervalCases

/-!
# Headers that run into others

The setup stores a header of 20 bytes for every partition that is not ignored, however small the
partition is. The header of a small one runs into what lies above it: the table, or the header of a
partition that was stored before. A host does not take such a table, nor register such a partition
with its free space behind the header (`TocFits.table_spared`, `TocFits.header_spared`).

The other way round, `partInitLoop_some` says what the headers hold when the reader has gone through
the table without failing.
-/

open Lib

namespace Smem

open List

/-! ## Bytes of shared memory -/

/-- The byte at an offset in shared memory. -/
def BootInfo.byteAt (bi : BootInfo) (m : Memory) (k : Nat) : Nat :=
  (m (bi.smemBaseAddr + .ofNat k)).toNat

section
variable {bi : BootInfo} {m : Memory} {e : TocEntry}

theorem BootInfo.byteAt_lt (k : Nat) : bi.byteAt m k < 256 := UInt8.toNat_lt _

/-- A word at an offset in shared memory is spelled by four bytes. -/
theorem BootInfo.u32_byteAt (k : Nat) :
    (m.u32 (bi.smemBaseAddr + .ofNat k)).toNat = bi.byteAt m k + 256 * bi.byteAt m (k + 1) +
      65536 * bi.byteAt m (k + 2) + 16777216 * bi.byteAt m (k + 3) := by
  have hnext : ∀ j : Nat, bi.smemBaseAddr + .ofNat j + 1 = bi.smemBaseAddr + .ofNat (j + 1) := by
    intro j
    rw [UInt64.ofNat_add, ← UInt64.add_assoc]
    rfl
  have h₀ := bi.byteAt_lt (m := m) k
  have h₁ := bi.byteAt_lt (m := m) (k + 1)
  have h₂ := bi.byteAt_lt (m := m) (k + 2)
  have h₃ := bi.byteAt_lt (m := m) (k + 3)
  have hspell : m.leNat (bi.smemBaseAddr + .ofNat k) 4 = bi.byteAt m k +
      256 * (bi.byteAt m (k + 1) + 256 * (bi.byteAt m (k + 2) + 256 * bi.byteAt m (k + 3))) := by
    simp only [Memory.leNat, hnext, Nat.mul_zero, Nat.add_zero]
    rfl
  rw [Memory.u32, hspell, UInt32.toNat_ofNat']
  omega

/-- The header pointer of an entry with an offset into the header. -/
theorem BootInfo.partnHeader_add (k : Nat) :
    bi.partnHeader e + .ofNat k = bi.smemBaseAddr + .ofNat (e.offset.toNat + k) := by
  have hoff : e.offset.toUInt64 = .ofNat e.offset.toNat := by simp
  rw [BootInfo.partnHeader, hoff, UInt64.add_assoc, ← UInt64.ofNat_add]

/-- The table with an offset into it. -/
theorem BootInfo.toc_add (k : Nat) :
    bi.toc + .ofNat k = bi.smemBaseAddr + .ofNat (bi.smemSize.toNat - 4096 + k) := by
  have hlarge := bi.large
  have hsize : bi.smemSize.toUInt64 - tocSize.toUInt64 = .ofNat (bi.smemSize.toNat - 4096) := by
    apply UInt64.toNat_inj.mp
    have hlt := bi.smemSize.toNat_lt
    have htoc : tocSize.toUInt64.toNat = 4096 := rfl
    rw [UInt64.toNat_sub_of_le _ _
      (by rw [UInt64.le_iff_toNat_le, htoc, UInt32.toNat_toUInt64]; omega),
      htoc, UInt32.toNat_toUInt64, UInt64.toNat_ofNat']
    omega
  rw [BootInfo.toc, UInt64.ofNat_add, ← UInt64.add_assoc, ← hsize]
  congr 1
  rw [UInt64.sub_eq_add_neg, UInt64.sub_eq_add_neg, UInt64.add_assoc]

/-! ## What a header stores over another one -/

/-- The bytes of a partition header as the setup stores it. -/
structure HeaderBytes (b : Nat → Nat) (size : Nat) : Prop where
  identifier : b 0 = 0x24 ∧ b 1 = 0x50 ∧ b 2 = 0x52 ∧ b 3 = 0x54
  freeUncached : b 12 = 32 ∧ b 13 = 0 ∧ b 14 = 0 ∧ b 15 = 0
  freeCached : b 16 + 256 * b 17 + 65536 * b 18 + 16777216 * b 19 = size

theorem HeaderStored.bytes (h : HeaderStored bi m e) :
    HeaderBytes (fun k => bi.byteAt m (e.offset.toNat + k)) e.size.toNat := by
  have hword : ∀ k, (m.u32 (bi.partnHeader e + .ofNat k)).toNat =
      bi.byteAt m (e.offset.toNat + k) + 256 * bi.byteAt m (e.offset.toNat + k + 1) +
        65536 * bi.byteAt m (e.offset.toNat + k + 2) +
        16777216 * bi.byteAt m (e.offset.toNat + k + 3) := by
    intro k
    rw [BootInfo.partnHeader_add, BootInfo.u32_byteAt]
  have hlt : ∀ k, bi.byteAt m (e.offset.toNat + k) < 256 := fun k => BootInfo.byteAt_lt _
  have hid := hword 0
  have hfree := hword 12
  have hcached := hword 16
  have hzero : bi.partnHeader e + .ofNat 0 = bi.partnHeader e := UInt64.add_zero _
  rw [hzero, h.identifier] at hid
  rw [show (UInt64.ofNat 12) = 12 from rfl, h.freeUncached] at hfree
  rw [show (UInt64.ofNat 16) = 16 from rfl, h.freeCached] at hcached
  have hidVal : partitionHeaderId.toNat = 0x54525024 := rfl
  have h32 : (32 : UInt32).toNat = 32 := rfl
  rw [hidVal] at hid
  rw [h32] at hfree
  have h₀ := hlt 0
  have h₁ := hlt 1
  have h₂ := hlt 2
  have h₃ := hlt 3
  have h₁₂ := hlt 12
  have h₁₃ := hlt 13
  have h₁₄ := hlt 14
  have h₁₅ := hlt 15
  refine ⟨?_, ?_, ?_⟩
  · simp only [Nat.add_zero] at hid h₀ ⊢
    omega
  · simp only [Nat.add_assoc, Nat.reduceAdd] at hfree ⊢
    omega
  · simp only [Nat.add_assoc, Nat.reduceAdd] at hcached ⊢
    omega

end

section
variable {b c : Nat → Nat} {d size : Nat}

/-- A header that begins `d` bytes below another one does not leave it readable: what it stores
there is not an identifier with a free offset behind the header and room for it. -/
theorem HeaderBytes.not_over_header (hb : HeaderBytes b size) (hsize : size ≤ d) (hd : 0 < d)
    (hd' : d < 20) (hover : ∀ k, d + k < 20 → c k = b (d + k))
    (hid : c 0 = 0x24 ∧ c 1 = 0x50 ∧ c 2 = 0x52 ∧ c 3 = 0x54) (hfree : c 12 = 32)
    (hroom : 32 ≤ c 8 + 256 * c 9 + 65536 * c 10 + 16777216 * c 11) : False := by
  obtain ⟨⟨b₀, b₁, b₂, b₃⟩, ⟨b₁₂, b₁₃, b₁₄, b₁₅⟩, hcached⟩ := hb
  obtain ⟨c₀, c₁, c₂, c₃⟩ := hid
  -- the low byte of the free offset, or of the size, falls on a byte that it is not
  have h₀ := hover 0
  have h₁ := hover 1
  have h₂ := hover 2
  have h₃ := hover 3
  have h₈ := hover 8
  have h₉ := hover 9
  have h₁₀ := hover 10
  have h₁₁ := hover 11
  have h₁₂ := hover 12
  interval_cases d <;>
    simp only [Nat.reduceAdd, Nat.reduceLT, forall_const] at h₀ h₁ h₂ h₃ h₈ h₉ h₁₀ h₁₁ h₁₂ <;>
    omega

/-- A header that begins `d` bytes below the table does not leave it readable: what it stores there
is not the identifier, version 1 and a number of entries that a host takes. -/
theorem HeaderBytes.not_over_table (hb : HeaderBytes b size) (hsize : size ≤ d) (hd : 0 < d)
    (hd' : d < 20) (hover : ∀ k, d + k < 20 → c k = b (d + k))
    (hid : c 0 = 0x24 ∧ c 1 = 0x54 ∧ c 2 = 0x4F ∧ c 3 = 0x43)
    (hversion : c 4 = 1 ∧ c 5 = 0 ∧ c 6 = 0 ∧ c 7 = 0)
    (hnum : c 8 + 256 * c 9 + 65536 * c 10 + 16777216 * c 11 ≤ 20) : False := by
  obtain ⟨⟨b₀, b₁, b₂, b₃⟩, ⟨b₁₂, b₁₃, b₁₄, b₁₅⟩, hcached⟩ := hb
  obtain ⟨c₀, c₁, c₂, c₃⟩ := hid
  obtain ⟨c₄, c₅, c₆, c₇⟩ := hversion
  have h₀ := hover 0
  have h₁ := hover 1
  have h₂ := hover 2
  have h₃ := hover 3
  have h₄ := hover 4
  have h₅ := hover 5
  have h₆ := hover 6
  have h₇ := hover 7
  have h₈ := hover 8
  interval_cases d <;>
    simp only [Nat.reduceAdd, Nat.reduceLT, forall_const] at h₀ h₁ h₂ h₃ h₄ h₅ h₆ h₇ h₈ <;>
    omega

end

/-! ## Headers in the memory that the setup leaves -/

/-- The header of the entry begins below an offset, and would end behind it. -/
def TocEntry.RunsInto (e : TocEntry) (a : Nat) : Prop :=
  e.offset.toNat < a ∧ a < e.offset.toNat + 20

instance (e : TocEntry) (a : Nat) : Decidable (e.RunsInto a) := inferInstanceAs (Decidable (_ ∧ _))

/-- The last element of a list with a property. -/
theorem exists_last {α : Type _} {P : α → Prop} [DecidablePred P] {l : List α}
    (h : ∃ a ∈ l, P a) : ∃ l₁ a l₂, l = l₁ ++ a :: l₂ ∧ P a ∧ ∀ x ∈ l₂, ¬ P x := by
  induction l with
  | nil =>
    obtain ⟨_, hmem, -⟩ := h
    cases hmem
  | cons a l ih =>
    by_cases hl : ∃ x ∈ l, P x
    · obtain ⟨l₁, x, l₂, rfl, hx, hlast⟩ := ih hl
      exact ⟨a :: l₁, x, l₂, rfl, hx, hlast⟩
    · obtain ⟨x, hmem, hx⟩ := h
      rcases mem_cons.mp hmem with rfl | hmem
      · exact ⟨[], x, l, rfl, hx, fun y hy hP => hl ⟨y, hy, hP⟩⟩
      · exact absurd ⟨x, hmem, hx⟩ hl

namespace TocFits

section
variable {bi : BootInfo} {cfg : TocConfigTbl} {heapInfo : HeapInfo} {tocVersion n : UInt32}
  {m m' : Memory} {e e' : TocEntry} {a : Nat}

/-- The partitions with headers lie below one another. -/
theorem headers_sorted (h : TocFits bi cfg heapInfo) :
    (tocEntries bi cfg heapInfo).Pairwise fun e e' => e.hasHeader = true → e'.hasHeader = true →
      e'.offset.toNat + e'.size.toNat ≤ e.offset.toNat := by
  have htop := h.top_toNat
  have hsum := h.top
  have hfits := h.fits
  have hrest := h.rest_toNat
  refine pairwise_cons.mpr ⟨fun e _ hself => ?_, pairwise_append.mpr ⟨?_, ?_, ?_⟩⟩
  · cases (hasHeader_iff.mp hself).2
  · exact (configEntries_sorted (by omega)).imp fun hsorted _ _ => hsorted
  · simp only [restEntries]
    split
    · exact pairwise_singleton _ _
    · refine pairwise_cons.mpr ⟨fun e' he' _ hhdr => ?_, pairwise_singleton _ _⟩
      cases mem_singleton.mp he'
      cases (hasHeader_iff.mp hhdr).2
  · intro e he e' he' _ hhdr'
    obtain ⟨hlow, -, -⟩ := mem_configEntries (by omega) he
    simp only [restEntries] at he'
    cases hl : bi.isLegacy with
    | true =>
      rw [hl, if_pos rfl] at he'
      cases mem_singleton.mp he'
      cases (hasHeader_iff.mp hhdr').2
    | false =>
      rw [hl, if_neg Bool.false_ne_true] at he'
      rcases mem_cons.mp he' with rfl | he'
      · have hfree : (bi.freeOffset heapInfo).toNat = 4096 := freeOffset_of_not_legacy hl
        have hlegacy : legacySmemSize.toNat = 4096 := rfl
        simp only [commonEntry, hlegacy]
        omega
      · cases mem_singleton.mp he'
        cases (hasHeader_iff.mp hhdr').2

/-- Of two partitions with headers, the lower one ends below the other one. -/
theorem end_le_of_offset_lt (h : TocFits bi cfg heapInfo) (he : e ∈ tocEntries bi cfg heapInfo)
    (he' : e' ∈ tocEntries bi cfg heapInfo) (hhdr : e.hasHeader = true)
    (hhdr' : e'.hasHeader = true) (hlt : e'.offset.toNat < e.offset.toNat) :
    e'.offset.toNat + e'.size.toNat ≤ e.offset.toNat := by
  have hall : ∀ e ∈ tocEntries bi cfg heapInfo, ∀ e' ∈ tocEntries bi cfg heapInfo,
      e.hasHeader = true → e'.hasHeader = true → e'.offset.toNat < e.offset.toNat →
        e'.offset.toNat + e'.size.toNat ≤ e.offset.toNat := by
    refine List.Pairwise.forall_of_forall_of_flip (fun _ _ _ _ hlt => absurd hlt (Nat.lt_irrefl _))
      (h.headers_sorted.imp fun hsorted hh hh' _ => hsorted hh hh')
      (h.headers_sorted.imp fun hsorted hh' hh hlt => ?_)
    have := hsorted hh hh'
    omega
  exact hall e he e' he' hhdr hhdr' hlt

/-- **What a header leaves of what it runs into**: the bytes there are those of the last header
that does. -/
theorem exists_overlap (h : TocFits bi cfg heapInfo) (m : Memory) (tocVersion n : UInt32)
    (ha : a + 4096 ≤ bi.smemSize.toNat)
    (hinto : ∃ e ∈ tocEntries bi cfg heapInfo, e.hasHeader = true ∧ e.RunsInto a) :
    ∃ e ∈ tocEntries bi cfg heapInfo, e.hasHeader = true ∧ e.RunsInto a ∧
      ∃ b, HeaderBytes b e.size.toNat ∧ ∀ k, a - e.offset.toNat + k < 20 →
        bi.byteAt (m.putAll (setupPuts bi tocVersion n (tocEntries bi cfg heapInfo))) (a + k) =
          b (a - e.offset.toNat + k) := by
  have hbelow := bi.below
  have hlarge := bi.large
  obtain ⟨l₁, e, l₂, hsplit, ⟨hhdr, hinto⟩, hlast⟩ := exists_last hinto
  have he : e ∈ tocEntries bi cfg heapInfo := by
    rw [hsplit]
    exact mem_append_right _ (.head _)
  refine ⟨e, he, hhdr, hinto, ?_⟩
  obtain ⟨hlo, hhi⟩ := hinto
  let w : Span := ⟨bi.smemBaseAddr.toNat + a, e.offset.toNat + 20 - a⟩
  have hsplit' : tocEntries bi cfg heapInfo = (l₁ ++ [e]) ++ l₂ := by rw [hsplit]; simp
  have hsorted := h.headers_sorted
  rw [hsplit] at hsorted
  have hlater := (pairwise_cons.mp (pairwise_append.mp hsorted).2.1).1
  have hspares := h.spares hsplit' (w := w) (by
    rw [BootInfo.toc_toNat]
    simp only [Span.stop, w]
    omega) fun e' he' hhdr' => .inr (by
      have hend := hlater e' he' hhdr hhdr'
      have hnot : ¬ e'.RunsInto a := fun hruns => hlast e' he' ⟨hhdr', hruns⟩
      simp only [TocEntry.RunsInto, not_and, Nat.not_lt] at hnot
      have := hnot (by omega)
      simp only [Span.stop, BootInfo.headerSpan, w]
      omega)
  rw [length_append, length_singleton] at hspares
  obtain ⟨m', hagree⟩ := agreeOn_header m tocVersion n hhdr hspares
  rw [← hsplit] at hagree
  have hstored : HeaderStored bi
      (m'.putAll (Memory.fieldPuts (bi.partnHeader e) (partnHeaderFields e))) e :=
    headerStored_of_agreeOn m' fun _ _ => rfl
  refine ⟨_, hstored.bytes, fun k hk => ?_⟩
  have hat : e.offset.toNat + (a - e.offset.toNat + k) = a + k := by omega
  have haddr : (bi.smemBaseAddr + .ofNat (a + k)).toNat = bi.smemBaseAddr.toNat + (a + k) := by
    rw [UInt64.toNat_add, UInt64.toNat_ofNat']
    omega
  simp only [hat]
  refine congrArg UInt8.toNat (hagree _ ?_)
  rw [haddr]
  simp only [Span.Mem, w]
  omega

/-- **A table that a host takes is spared**: every header ends below it. -/
theorem table_spared (h : TocFits bi cfg heapInfo)
    (hM : m' = m.putAll (setupPuts bi tocVersion n (tocEntries bi cfg heapInfo)))
    (hid : m'.u32 bi.toc = tocIdentifier) (hversion : m'.u32 (bi.toc + 4) = 1)
    (hnum : m'.u32 (bi.toc + 8) ≤ 20) :
    ∀ e ∈ tocEntries bi cfg heapInfo, e.hasHeader = true →
      e.offset.toNat + 20 + 4096 ≤ bi.smemSize.toNat := by
  have hlarge := bi.large
  intro e he hhdr
  refine Nat.le_of_not_lt fun hlt => ?_
  obtain ⟨hpos, -, hend⟩ := h.header_below he hhdr
  have hinto : e.RunsInto (bi.smemSize.toNat - 4096) := by
    simp only [TocEntry.RunsInto]
    omega
  obtain ⟨e, he, hhdr, ⟨hlo, hhi⟩, b, hb, hover⟩ := h.exists_overlap m tocVersion n
    (a := bi.smemSize.toNat - 4096) (by omega) ⟨e, he, hhdr, hinto⟩
  obtain ⟨-, -, hend⟩ := h.header_below he hhdr
  rw [← hM] at hover
  have hword : ∀ k, (m'.u32 (bi.toc + .ofNat k)).toNat =
      bi.byteAt m' (bi.smemSize.toNat - 4096 + k) +
        256 * bi.byteAt m' (bi.smemSize.toNat - 4096 + (k + 1)) +
        65536 * bi.byteAt m' (bi.smemSize.toNat - 4096 + (k + 2)) +
        16777216 * bi.byteAt m' (bi.smemSize.toNat - 4096 + (k + 3)) := by
    intro k
    rw [BootInfo.toc_add, BootInfo.u32_byteAt]
    simp only [Nat.add_assoc]
  have hlt : ∀ k, bi.byteAt m' (bi.smemSize.toNat - 4096 + k) < 256 := fun k => BootInfo.byteAt_lt _
  have hid' := hword 0
  have hversion' := hword 4
  have hnum' := hword 8
  have hzero : bi.toc + .ofNat 0 = bi.toc := UInt64.add_zero _
  have hidVal : tocIdentifier.toNat = 0x434F5424 := rfl
  have h1 : (1 : UInt32).toNat = 1 := rfl
  have h20 : (20 : UInt32).toNat = 20 := rfl
  rw [hzero, hid, hidVal] at hid'
  rw [show (UInt64.ofNat 4) = 4 from rfl, hversion, h1] at hversion'
  rw [UInt32.le_iff_toNat_le, h20] at hnum
  rw [show (UInt64.ofNat 8) = 8 from rfl] at hnum'
  simp only [Nat.zero_add, Nat.reduceAdd] at hid' hversion' hnum'
  have h₀ := hlt 0
  have h₁ := hlt 1
  have h₂ := hlt 2
  have h₃ := hlt 3
  have h₄ := hlt 4
  have h₅ := hlt 5
  have h₆ := hlt 6
  have h₇ := hlt 7
  exact hb.not_over_table (c := fun k => bi.byteAt m' (bi.smemSize.toNat - 4096 + k)) (by omega)
    (by omega) (by omega) hover (by omega) (by omega) (by omega)

/-- **A header that a host takes is spared**: no other header runs into one that is read with a free
offset behind the header and room for it. -/
theorem header_spared (h : TocFits bi cfg heapInfo)
    (hM : m' = m.putAll (setupPuts bi tocVersion n (tocEntries bi cfg heapInfo)))
    (he : e ∈ tocEntries bi cfg heapInfo) (hhdr : e.hasHeader = true)
    (hid : m'.u32 (bi.partnHeader e) = partitionHeaderId)
    (hfree : m'.u32 (bi.partnHeader e + 12) = 32)
    (hroom : 32 ≤ (m'.u32 (bi.partnHeader e + 8)).toNat) :
    ∀ e' ∈ tocEntries bi cfg heapInfo, e'.hasHeader = true → ¬ e'.RunsInto e.offset.toNat := by
  intro e' he' hhdr' hinto
  obtain ⟨hpos, -, hend⟩ := h.header_below he hhdr
  obtain ⟨e', he', hhdr', ⟨hlo, hhi⟩, b, hb, hover⟩ := h.exists_overlap m tocVersion n
    (a := e.offset.toNat) (by omega) ⟨e', he', hhdr', hinto⟩
  have hsize := h.end_le_of_offset_lt he he' hhdr hhdr' hlo
  rw [← hM] at hover
  have hword : ∀ k, (m'.u32 (bi.partnHeader e + .ofNat k)).toNat =
      bi.byteAt m' (e.offset.toNat + k) + 256 * bi.byteAt m' (e.offset.toNat + (k + 1)) +
        65536 * bi.byteAt m' (e.offset.toNat + (k + 2)) +
        16777216 * bi.byteAt m' (e.offset.toNat + (k + 3)) := by
    intro k
    rw [BootInfo.partnHeader_add, BootInfo.u32_byteAt]
    simp only [Nat.add_assoc]
  have hlt : ∀ k, bi.byteAt m' (e.offset.toNat + k) < 256 := fun k => BootInfo.byteAt_lt _
  have hid' := hword 0
  have hroom' := hword 8
  have hfree' := hword 12
  have hzero : bi.partnHeader e + .ofNat 0 = bi.partnHeader e := UInt64.add_zero _
  have hidVal : partitionHeaderId.toNat = 0x54525024 := rfl
  have h32 : (32 : UInt32).toNat = 32 := rfl
  rw [hzero, hid, hidVal] at hid'
  rw [show (UInt64.ofNat 8) = 8 from rfl] at hroom'
  rw [show (UInt64.ofNat 12) = 12 from rfl, hfree, h32] at hfree'
  simp only [Nat.zero_add, Nat.reduceAdd] at hid' hroom' hfree'
  have h₀ := hlt 0
  have h₁ := hlt 1
  have h₂ := hlt 2
  have h₃ := hlt 3
  have h₁₂ := hlt 12
  exact hb.not_over_header (c := fun k => bi.byteAt m' (e.offset.toNat + k)) (by omega) (by omega)
    (by omega) hover (by omega) (by omega) (by omega)

end

end TocFits

/-! ## What a reader that does not fail has found -/

/-- What a slot holds of a partition that the reader has registered and walked. -/
structure Took (bi : BootInfo) (m : Memory) (e : TocEntry) (host : Host) : Prop where
  header : host.info.header = bi.partnHeader e
  size : m.u32 (bi.partnHeader e + 8) = e.size
  free : host.info.offsetFreeUncached = m.u32 (bi.partnHeader e + 12)
  free_le : m.u32 (bi.partnHeader e + 12) ≤ e.size

section
variable {bi : BootInfo} {cfg : TocConfigTbl} {heapInfo : HeapInfo} {tocVersion n : UInt32}
  {smemInfo : SmemInfo} {thisHost r : HostId} {e : TocEntry} {maxItems : UInt16} {fuel : Nat}
  {m : Memory} {params params' : AllocParams} {prts prts' : PartTable} {host host' : Host}
  {answer : Answer}

/-- A walk changes nothing of a partition but how far it is mapped. -/
theorem getAddrUncached_info
    (h : getAddrUncached smemInfo fuel m params host = some (answer, host')) :
    host'.info.header = host.info.header ∧
      host'.info.offsetFreeUncached = host.info.offsetFreeUncached := by
  obtain ⟨mu, hu⟩ := ensureUncachedMapping_info smemInfo host.info.offsetFreeUncached host
  unfold getAddrUncached at h
  generalize ensureUncachedMapping smemInfo host.info.offsetFreeUncached host = host₁ at hu h
  obtain ⟨mc, hc⟩ := ensureCachedMapping_info smemInfo host₁.info.offsetFreeCached host₁
  simp only at h
  split at h
  · cases h
  · cases h
    rw [hu]
    exact ⟨rfl, rfl⟩
  · unfold getAddrCached at h
    simp only at h
    split at h
    · cases h
    · cases h
      rw [hc, hu]
      exact ⟨rfl, rfl⟩
    · cases h
      rw [hc, hu]
      exact ⟨rfl, rfl⟩

/-- The call of the reader for a partition that it has just registered: it only succeeds with a
free offset inside the partition. -/
theorem smemPartGetAddrEx_took (hremote : params.remoteHost = .ofNat r.val)
    (hslot : prts r = e.host bi) (hsize : e.size ≠ 0)
    (hread : m.u32 (bi.partnHeader e + 8) = e.size)
    (hstatus : answer.status = .success ∨ answer.status = .notFound)
    (h : smemPartGetAddrEx smemInfo thisHost fuel m params prts = some (answer, prts')) :
    ∃ host, prts' = prts.set r host ∧ Took bi m e host := by
  have hne : ((e.host bi).info.size == 0) = false := beq_eq_false_iff_ne.mpr hsize
  simp only [smemPartGetAddrEx, remoteOutOfRange_ofNat hremote, Bool.false_eq_true, if_false,
    hremote, slotOf_ofNat, hslot, hne] at h
  split at h
  · cases h
    rcases hstatus with hstatus | hstatus <;> cases hstatus
  next hguard =>
  obtain ⟨⟨answer', host⟩, hwalk, heq⟩ := Option.map_eq_some_iff.mp h
  simp only [Prod.mk.injEq] at heq
  obtain ⟨rfl, rfl⟩ := heq
  obtain ⟨hheader, hfree⟩ := getAddrUncached_info hwalk
  simp only [Bool.not_eq_true, Bool.or_eq_false_iff, decide_eq_false_iff_not, gt_iff_lt,
    UInt32.not_lt] at hguard
  exact ⟨host, rfl, hheader, hread, hfree, hguard.1.2⟩

/-- **A round of the reader that does not fail**: the header lies at a page and has its identifier,
and the partition is skipped, or registered with what the header says. -/
theorem partInitPartition_some (hsize : e.size ≠ 0)
    (h : partInitPartition (bi.smemInfo maxItems) thisHost fuel m r e.offset e.size e.sizeCacheline
      params prts = some (params', prts')) :
    ((bi.partnHeader e).toUInt32 &&& pageAlignMask = 0 ∧
        m.u32 (bi.partnHeader e) = partitionHeaderId) ∧
      (prts' = prts ∨ ∃ host, prts' = prts.set r host ∧ Took bi m e host) := by
  have hhdr : (bi.smemInfo maxItems).smemBaseAddr + e.offset.toUInt64 = bi.partnHeader e := rfl
  unfold partInitPartition at h
  simp only [hhdr] at h
  split at h
  · cases h
  next halign =>
  split at h
  · cases h
  next hid =>
  refine ⟨⟨not_not.mp halign, not_not.mp hid⟩, ?_⟩
  split at h
  · cases h
  split at h
  · cases h
  split at h
  · cases h
    exact .inl rfl
  next hread =>
  have hcall : ∀ answer prts₁, answer.status = .success ∨ answer.status = .notFound →
      smemPartGetAddrEx (bi.smemInfo maxItems) thisHost fuel m
        { params with remoteHost := .ofNat r.val, smemType := memFirst }
        (prts.set r (e.host bi)) = some (answer, prts₁) →
      ∃ host, prts₁ = prts.set r host ∧ Took bi m e host := by
    intro answer prts₁ hstatus hsome
    obtain ⟨host, rfl, htook⟩ := smemPartGetAddrEx_took rfl PartTable.set_self hsize
      (not_not.mp hread) hstatus hsome
    refine ⟨host, funext fun q => ?_, htook⟩
    by_cases hq : q = r
    · rw [hq, PartTable.set_self, PartTable.set_self]
    · rw [PartTable.set_of_ne hq, PartTable.set_of_ne hq, PartTable.set_of_ne hq]
  split at h
  next hsome =>
    cases h
    exact .inr (hcall _ _ (.inl rfl) hsome)
  next hsome =>
    cases h
    exact .inr (hcall _ _ (.inr rfl) hsome)
  · cases h

/-- A round of the reader for a table entry that does not fail. -/
theorem partInitEntry_some {i : Nat}
    (hread : TableReads bi m tocVersion n (tocEntries bi cfg heapInfo))
    (he : (e, i) ∈ (tocEntries bi cfg heapInfo).zipIdx)
    (h : partInitEntry (bi.smemInfo maxItems) thisHost fuel m (bi.tocEntry (.ofNat i)) params prts =
      some (params', prts')) :
    ((e.slot thisHost).isSome → (bi.partnHeader e).toUInt32 &&& pageAlignMask = 0 ∧
        m.u32 (bi.partnHeader e) = partitionHeaderId) ∧
      (prts' = prts ∨ ∃ r host, e.slot thisHost = some r ∧ prts' = prts.set r host ∧
        Took bi m e host) := by
  simp only [partInitEntry, hread.size e i he, hread.host0 e i he, hread.host1 e i he,
    hread.offset e i he, hread.cacheline e i he] at h
  split at h
  next hremote =>
    cases h
    have hslot : e.slot thisHost = none := by simp only [TocEntry.slot, hremote, ite_self]
    exact ⟨fun hsome => (by rw [hslot] at hsome; cases hsome), .inl rfl⟩
  next r hremote =>
  split at h
  next hsize =>
    cases h
    have hslot : e.slot thisHost = none := if_pos hsize
    exact ⟨fun hsome => (by rw [hslot] at hsome; cases hsome), .inl rfl⟩
  next hsize =>
  have hslot : e.slot thisHost = some r := (if_neg hsize).trans hremote
  obtain ⟨hhdr, hprts⟩ := partInitPartition_some hsize h
  refine ⟨fun _ => hhdr, hprts.imp id ?_⟩
  rintro ⟨host, hset, htook⟩
  exact ⟨r, host, hslot, hset, htook⟩

/-- **A loop of the reader that does not fail**: every partition of the host lies at a page and has
its identifier, and what a slot holds in the end is what it held before or a partition of the
host. -/
theorem partInitLoop_some (hread : TableReads bi m tocVersion n (tocEntries bi cfg heapInfo))
    (l : List TocEntry) (k : Nat) (hl : ∀ p ∈ l.zipIdx k, p ∈ (tocEntries bi cfg heapInfo).zipIdx)
    (h : partInitLoop (bi.smemInfo maxItems) thisHost fuel m bi.toc l.length
      (.ofNat k) params prts =
      some (params', prts')) :
    (∀ e ∈ l, (e.slot thisHost).isSome → (bi.partnHeader e).toUInt32 &&& pageAlignMask = 0 ∧
        m.u32 (bi.partnHeader e) = partitionHeaderId) ∧
      ∀ r, prts' r = prts r ∨
        ∃ e ∈ l, e.slot thisHost = some r ∧ Took bi m e (prts' r) := by
  induction l generalizing params prts k with
  | nil =>
    cases h
    exact ⟨nofun, fun r => .inl rfl⟩
  | cons e l ih =>
    rw [zipIdx_cons] at hl
    have hentry : bi.toc + 32 + 48 * (UInt32.ofNat k).toUInt64 = bi.tocEntry (.ofNat k) := rfl
    have hnext : UInt32.ofNat k + 1 = .ofNat (k + 1) := by rw [UInt32.ofNat_add, UInt32.ofNat_one]
    simp only [length_cons, partInitLoop, hentry, hnext] at h
    split at h
    · cases h
    next params₁ prts₁ hround =>
    obtain ⟨hhdr, hprts⟩ := partInitEntry_some hread (hl _ (.head _)) hround
    obtain ⟨hhdrs, hslots⟩ := ih (k + 1) (fun p hp => hl p (.tail _ hp)) h
    refine ⟨fun e' he' => ?_, fun r => ?_⟩
    · rcases mem_cons.mp he' with rfl | he'
      · exact hhdr
      · exact hhdrs e' he'
    · rcases hslots r with hkeep | ⟨e', he', hslot', htook⟩
      · rw [hkeep]
        rcases hprts with rfl | ⟨q, host, hslot, rfl, htook⟩
        · exact .inl rfl
        · by_cases hq : r = q
          · refine .inr ⟨e, .head _, hq ▸ hslot, ?_⟩
            rw [hq, PartTable.set_self]
            exact htook
          · exact .inl (PartTable.set_of_ne hq)
      · exact .inr ⟨e', .tail _ he', hslot', htook⟩

/-- A reader that finds the table and does not fail has found version 1 and no more entries than it
takes. -/
theorem smemPartInit_some
    (h : smemPartInit (bi.smemInfo maxItems) thisHost fuel m params = some prts)
    (hfound : m.u32 bi.toc = tocIdentifier) :
    (m.u32 (bi.toc + 4) = 1 ∧ m.u32 (bi.toc + 8) ≤ 20) ∧
      ∃ params', partInitLoop (bi.smemInfo maxItems) thisHost fuel m bi.toc
        (m.u32 (bi.toc + 8)).toNat 0 params (fun _ => .uninit) = some (params', prts) := by
  have htoc : (bi.smemInfo maxItems).smemBaseAddr + (bi.smemInfo maxItems).smemSize.toUInt64 -
      tocSize.toUInt64 = bi.toc := rfl
  simp only [smemPartInit, htoc, hfound, ne_eq, not_true_eq_false, if_false] at h
  split at h
  · cases h
  next hversion =>
  split at h
  · cases h
  next hnum =>
  obtain ⟨⟨params', prts'⟩, hloop, rfl⟩ := Option.map_eq_some_iff.mp h
  exact ⟨⟨not_not.mp hversion, not_not.mp hnum⟩, params', hloop⟩

end

end Smem
