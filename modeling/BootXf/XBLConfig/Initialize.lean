import BootXf.XBLConfig.HashedReads
import BootXf.XBLConfig.Module

/-!
# An initialisation that succeeds

When nothing fails and the image has metadata that verifies, `xblconfig_init` goes through, and
leaves the metadata, the entry list, the handle list and the two blocks of the ELF information
allocated.
-/

namespace XBLConfig

open Lib Checked XBLLoader List Option

section
variable {δ : Type} {w : Outside δ} {s t : Sys δ} {m : Machine} {size : UInt64} {α : Type}
  {isLive : Sys δ → Bool} {found : Option UInt64}

theorem onMachine_run {a : α} {p : Code Machine α} (h : p s.machine = (.ok a, m)) :
    onMachine p s = (.ok a, { s with machine := m }) :=
  onMachine_ok.mpr ⟨m, h, rfl⟩

theorem deref_run {a : α} {p : Option α} (h : p = some a) : deref p s = (.ok a, s) :=
  deref_ok.mpr ⟨h, rfl⟩

theorem verify_fine {v : World} (h : v.Fine) (m : Machine) :
    verify v m = (.ok (), { m with tick := m.tick + 1 }) := by
  have hask : ask v m = (.ok true, { m with tick := m.tick + 1 }) := by rw [ask, h]
  rw [verify, bind_run hask]
  rfl

theorem onError_run {p cleanup : Code (Sys δ) Unit} (h : p s = (.ok (), t)) :
    onError p cleanup s = (.ok (), t) := by
  rw [onError, h]

/-- A static pointer that is freed. -/
theorem freeStatic_run (h : w.Fine) (clear : Sys δ → Sys δ)
    (hlive : isLive s = true) : ∃ tick, freeStatic w isLive clear s = (.ok (), clear { s with
      machine := { s.machine with tick, live := s.machine.live - 1 } }) := by
  refine ⟨s.machine.tick + 1, ?_⟩
  rw [freeStatic, bind_run (get_ok.mpr ⟨rfl, rfl⟩), when_pos hlive,
    bind_run (onMachine_run (xcfgFree_fine h _))]
  rfl

/-- A static pointer that is `NULL` already. -/
theorem freeStatic_null {clear : Sys δ → Sys δ} (hnull : isLive s = false) :
    freeStatic w isLive clear s = (.ok (), s) := by
  rw [freeStatic, bind_run (get_ok.mpr ⟨rfl, rfl⟩), when_neg (Bool.not_eq_true _ ▸ hnull)]
  rfl

/-! ## The image -/

/-- The ELF image can be used: it is authentic, has a hash segment, and a program header table that
its segments can be noted for. -/
structure Usable (image : Image δ) : Prop where
  authenticated : image.authenticated = true
  hashSegment : ∃ size, image.hashSegmentSize = some size ∧ size ≤ xcfgUint32Max
  phdrs : ¬ sizeofSegmentInfo > xcfgUint32Max / .ofNat image.phdrs.length

/-- The segments of a usable image fit a 32-bit size. -/
theorem Usable.malloc_le {image : Image δ} (h : Usable image) :
    UInt64.ofNat image.phdrs.length * sizeofSegmentInfo ≤ xcfgUint32Max := by
  have hdiv := UInt64.le_iff_toNat_le.mp (UInt64.not_lt.mp h.phdrs)
  generalize UInt64.ofNat image.phdrs.length = n at *
  rw [UInt64.toNat_div] at hdiv
  have hmul : n.toNat * 24 ≤ 0xFFFFFFFF := by
    rcases Nat.eq_zero_or_pos n.toNat with hzero | hpos
    · rw [hzero]
      exact Nat.zero_le _
    · rw [Nat.mul_comm]
      exact (Nat.le_div_iff_mul_le hpos).mp hdiv
  rw [UInt64.le_iff_toNat_le, UInt64.toNat_mul]
  exact Nat.le_trans (Nat.mod_le _ _) hmul

/-- A usable image is initialised. -/
theorem imageInterfaceInit_run (h : w.Fine) (himage : Usable w.image)
    (hmoved : s.hashSegmentMoved = false) :
    ∃ tick, xcfgImageInterfaceInit w s = (.ok (), { s with
      machine := { s.machine with tick, live := s.machine.live + 2 }
      transIf := true
      elfInfo :=
        ⟨some w.image.hashTable, some (replicate w.image.phdrs.length ⟨0, 0, false⟩)⟩ }) := by
  obtain ⟨size, hsize, hmax⟩ := himage.hashSegment
  have hmove : bootMoveHashSegmentBuffer w s = (.ok (), { s with
      machine := { s.machine with tick := s.machine.tick + 1, live := s.machine.live + 1 }
      hashSegmentMoved := true }) := by
    rw [bootMoveHashSegmentBuffer, bind_run (get_ok.mpr ⟨rfl, rfl⟩), when_pos hmoved,
      bind_run (onMachine_run (verify_fine h _))]
    rfl
  have hload : ∀ s : Sys δ, bootElfLoadInitHashSegment w s = (.ok (), { s with
      machine := { s.machine with tick := s.machine.tick + 1 }, transIf := true }) := by
    intro s
    rw [bootElfLoadInitHashSegment, bind_run (onMachine_run (verify_fine h _))]
    rfl
  have hrestore : ∀ s : Sys δ, bootRestoreHashSegmentBuffer w s = (.ok (), { s with
      machine := { s.machine with tick := s.machine.tick + 1, live := s.machine.live - 1 }
      hashSegmentMoved := false }) := by
    intro s
    rw [bootRestoreHashSegmentBuffer, bind_run (onMachine_run (verify_fine h _))]
    rfl
  refine ⟨s.machine.tick + 7, onError_run ?_⟩
  rw [bind_run hmove, bind_run (hload _),
    bind_run (breakIf_run (by rw [himage.authenticated]; rfl) _),
    bind_run (onMachine_run (verify_fine h _)), hsize, bind_run (breakOn_ok.mpr ⟨rfl, rfl⟩),
    bind_run (breakIf_run (decide_eq_false (UInt64.not_lt.mpr hmax)) _),
    bind_run (onMachine_run (xcfgMalloc_fine h (by decide) _)), bind_run (update_run _ _),
    bind_run (hrestore _), bind_run (onMachine_run (verify_fine h _)),
    bind_run (breakIf_run (decide_eq_false himage.phdrs) _),
    bind_run (onMachine_run (xcfgMalloc_fine h himage.malloc_le _)), update_run]
  dsimp only
  rw [hmoved]
  rfl

/-! ## The blocks -/

/-- The segment that a program header is noted as. -/
def Phdr.segment (p : Phdr) : SegmentInfo := ⟨p.offset, p.fileSize, false⟩

/-- A block that is not the metadata. -/
def Skipped (w : Outside δ) (p : Phdr) : Prop :=
  p.isLoadable = true → p.fileSize > 0 →
    p.offset ≤ xcfgUint32Max ∧ w.storage.read p.offset.toNat 4 ≠ xcfgLoaderCookie

/-- A block that is taken for the metadata, and can be loaded. -/
structure IsMetaData (w : Outside δ) (p : Phdr) : Prop where
  loadable : p.isLoadable = true
  some : p.fileSize > 0
  offset : p.offset ≤ xcfgUint32Max
  fileSize : p.fileSize ≤ xcfgUint32Max
  cookie : w.storage.read p.offset.toNat 4 = xcfgLoaderCookie

/-- The segments after some blocks have been noted from an index on. -/
def noteAll : List Phdr → Nat → List SegmentInfo → List SegmentInfo
  | [], _, segs => segs
  | p :: ps, index, segs => noteAll ps (index + 1) (segs.set index p.segment)

/-- The segments are noted one by one. -/
theorem noteAll_append (ps qs : List Phdr) (index : Nat) (segs : List SegmentInfo) :
    noteAll (ps ++ qs) index segs = noteAll qs (index + ps.length) (noteAll ps index segs) := by
  induction ps generalizing index segs with
  | nil => rfl
  | cons p ps ih =>
    rw [cons_append, noteAll, ih, length_cons, Nat.add_right_comm, Nat.add_assoc]
    rfl

theorem noteAll_rest (ps : List Phdr) (done rest : List SegmentInfo) (h : rest.length = ps.length) :
    noteAll ps done.length (done ++ rest) = done ++ ps.map Phdr.segment := by
  induction ps generalizing done rest with
  | nil =>
    rw [length_eq_zero_iff.mp h]
    rfl
  | cons p ps ih =>
    obtain ⟨r, rest, rfl⟩ := exists_cons_of_length_eq_add_one h
    have hlength : done.length + 1 = (done ++ [p.segment]).length := by
      rw [length_append]
      rfl
    rw [noteAll, set_append_right _ _ (Nat.le_refl _), Nat.sub_self, set_cons_zero,
      append_cons, hlength, ih _ _ (Nat.succ.inj h), map_cons, append_assoc]
    rfl

/-- All blocks noted. -/
theorem noteAll_all (ps : List Phdr) (x : SegmentInfo) :
    noteAll ps 0 (replicate ps.length x) = ps.map Phdr.segment :=
  noteAll_rest ps [] _ length_replicate

theorem getBlockInfo_run (h : w.Fine) (index : Nat) (p : Phdr) (s : Sys δ) :
    xcfgImageGetBlockInfo w index p s = (.ok (), { s with
      machine := { s.machine with tick := s.machine.tick + 1 }
      elfInfo := { s.elfInfo with
        segmentInfo := s.elfInfo.segmentInfo.map (·.set index p.segment) } }) := by
  rw [xcfgImageGetBlockInfo, bind_run (onMachine_run (verify_fine h _))]
  rfl

theorem getBlockData_run (h : w.Fine) {offset : UInt64} (hsome : size ≠ 0)
    (hoffset : offset ≤ xcfgUint32Max) (hsize : size ≤ xcfgUint32Max) (s : Sys δ) :
    xcfgGetBlockData w offset size s = (.ok (w.storage.read offset.toNat size.toNat), { s with
      machine := { s.machine with tick := s.machine.tick + 1 } }) := by
  have hmax : (decide (offset > xcfgUint32Max) || decide (size > xcfgUint32Max)) = false := by
    rw [decide_eq_false (UInt64.not_lt.mpr hoffset), decide_eq_false (UInt64.not_lt.mpr hsize)]
    rfl
  rw [xcfgGetBlockData, bind_run (breakIf_run (decide_eq_false hsome) s),
    bind_run (breakIf_run hmax s),
    bind_run (onMachine_run (verify_fine h _))]
  rfl

/-- A block that only is noted. -/
theorem metaDataBlock_skip (h : w.Fine) {p : Phdr}
    (hskip : found ≠ none ∨ Skipped w p) (index : Nat) (s : Sys δ) :
    ∃ tick, metaDataBlock w index p found s = (.ok found, { s with
      machine := { s.machine with tick }
      elfInfo := { s.elfInfo with
        segmentInfo := s.elfInfo.segmentInfo.map (·.set index p.segment) } }) := by
  rw [metaDataBlock, bind_run (getBlockInfo_run h _ _ _)]
  split
  · next hblock =>
    obtain ⟨hoffset, hcookie⟩ := (hskip.resolve_left fun hno => hno hblock.2.2) hblock.1 hblock.2.1
    refine ⟨s.machine.tick + 1 + 1, ?_⟩
    rw [bind_run (getBlockData_run h (by decide) hoffset (by decide) _)]
    exact congrFun (if_neg hcookie) _
  · exact ⟨s.machine.tick + 1, rfl⟩

/-- The metadata is loaded. -/
theorem metaDataBlock_found (h : w.Fine) {p : Phdr} (hp : IsMetaData w p)
    (index : Nat) (s : Sys δ) :
    ∃ tick, metaDataBlock w index p none s = (.ok (some p.fileSize), { s with
      machine := { s.machine with tick, live := s.machine.live + 1 }
      elfInfo := { s.elfInfo with
        segmentInfo := s.elfInfo.segmentInfo.map (·.set index p.segment) }
      metadataBuff :=
        some ⟨w.metadataAddr, w.storage.read p.offset.toNat p.fileSize.toNat, w.memory⟩
      metadataStartOffset := p.offset }) := by
  have hsome : p.fileSize ≠ 0 := by
    intro hzero
    have := hp.some
    rw [hzero] at this
    exact absurd this (by decide)
  refine ⟨s.machine.tick + 1 + 1 + 1 + 1, ?_⟩
  rw [metaDataBlock, bind_run (getBlockInfo_run h _ _ _), if_pos ⟨hp.loadable, hp.some, rfl⟩,
    bind_run (getBlockData_run h (by decide) hp.offset (by decide) _)]
  refine (congrFun (if_pos hp.cookie) _).trans ?_
  rw [bind_run (onMachine_run (xcfgMalloc_fine h hp.fileSize _)), bind_run (update_run _ _),
    bind_run (getBlockData_run h hsome hp.offset hp.fileSize _)]
  rfl

/-- Blocks that are only noted. -/
theorem metaDataLoop_skip (h : w.Fine) {ps : List Phdr}
    (hskip : ∀ p ∈ ps, found ≠ none ∨ Skipped w p) (rest : List Phdr) (index : Nat) (s : Sys δ) :
    ∃ tick, metaDataLoop w (ps ++ rest) index found s =
      metaDataLoop w rest (index + ps.length) found { s with
        machine := { s.machine with tick }
        elfInfo :=
          { s.elfInfo with segmentInfo := s.elfInfo.segmentInfo.map (noteAll ps index) } } := by
  induction ps generalizing index s with
  | nil =>
    refine ⟨s.machine.tick, ?_⟩
    have hsame : s.elfInfo.segmentInfo.map (noteAll [] index) = s.elfInfo.segmentInfo :=
      Option.map_id' ..
    rw [hsame]
    rfl
  | cons p ps ih =>
    obtain ⟨tick, hblock⟩ := metaDataBlock_skip h (hskip p (.head _)) index s
    rw [cons_append, metaDataLoop]
    dsimp only
    rw [hblock]
    dsimp only
    obtain ⟨tick', hrest⟩ := ih (fun q hq => hskip q (.tail _ hq)) (index + 1) _
    refine ⟨tick', hrest.trans ?_⟩
    rw [length_cons, Nat.add_right_comm, Nat.add_assoc, Option.map_map]
    rfl

/-- **The loop** finds the metadata and notes all segments. -/
theorem metaDataLoop_run (h : w.Fine) {before : List Phdr} (after : List Phdr) {p : Phdr}
    (hbefore : ∀ q ∈ before, Skipped w q) (hp : IsMetaData w p) (s : Sys δ)
    (hsegs : s.elfInfo.segmentInfo =
      some (replicate (before ++ p :: after).length ⟨0, 0, false⟩)) :
    ∃ tick, metaDataLoop w (before ++ p :: after) 0 none s =
      (.ok ((before ++ p :: after).length, some p.fileSize), { s with
        machine := { s.machine with tick, live := s.machine.live + 1 }
        elfInfo := { s.elfInfo with segmentInfo := some ((before ++ p :: after).map Phdr.segment) }
        metadataBuff :=
          some ⟨w.metadataAddr, w.storage.read p.offset.toNat p.fileSize.toNat, w.memory⟩
        metadataStartOffset := p.offset }) := by
  obtain ⟨_, hfirst⟩ := metaDataLoop_skip h (show ∀ q ∈ before, none ≠ none ∨ Skipped w q from
    fun q hq => .inr (hbefore q hq)) (p :: after) 0 s
  obtain ⟨_, hblock⟩ := metaDataBlock_found h hp (0 + before.length) { s with
    machine := { s.machine with tick := _ }
    elfInfo := { s.elfInfo with segmentInfo := s.elfInfo.segmentInfo.map (noteAll before 0) } }
  rw [hfirst, metaDataLoop]
  dsimp only
  rw [hblock]
  dsimp only
  obtain ⟨tick, hlast⟩ :=
    metaDataLoop_skip h (show ∀ q ∈ after, some p.fileSize ≠ none ∨ Skipped w q from
    fun _ _ => .inl nofun) [] (0 + before.length + 1) { s with
      machine := { s.machine with tick := _, live := s.machine.live + 1 }
      elfInfo := { s.elfInfo with
        segmentInfo := (s.elfInfo.segmentInfo.map (noteAll before 0)).map
          (·.set (0 + before.length) p.segment) }
      metadataBuff :=
        some ⟨w.metadataAddr, w.storage.read p.offset.toNat p.fileSize.toNat, w.memory⟩
      metadataStartOffset := p.offset }
  rw [append_nil] at hlast
  refine ⟨tick, hlast.trans ?_⟩
  have hnotes := noteAll_append before (p :: after) 0
    (replicate (before ++ p :: after).length ⟨0, 0, false⟩)
  rw [noteAll_all] at hnotes
  rw [hsegs, hnotes, metaDataLoop, length_append, length_cons, Nat.zero_add, Nat.add_right_comm,
    Nat.add_assoc]
  rfl

/-! ## The metadata and the lists -/

variable [DecidableEq δ] {digest : List UInt8 → δ} {before after : List Phdr} {p : Phdr}

/-- The block of the metadata, once it is loaded. -/
def loadedMetadata (w : Outside δ) (p : Phdr) : Metadata :=
  ⟨w.metadataAddr, w.storage.read p.offset.toNat p.fileSize.toNat, w.memory⟩

/-- The ELF information, once the image is loaded. -/
def loadedElfInfo (w : Outside δ) : ElfInfo δ :=
  ⟨some w.image.hashTable, some (w.image.phdrs.map Phdr.segment)⟩

/-- Nothing fails, and the image has metadata that verifies and is of a version that is supported.
-/
structure Loads (digest : List UInt8 → δ) (w : Outside δ) (before : List Phdr) (p : Phdr)
    (after : List Phdr) : Prop where
  fine : w.Fine
  usable : Usable w.image
  phdrs : w.image.phdrs = before ++ p :: after
  before : ∀ q ∈ before, Skipped w q
  metaData : IsMetaData w p
  verifies : ∃ index seg, Verifies digest w.storage (loadedElfInfo w) p.offset p.fileSize
    (w.storage.read p.offset.toNat p.fileSize.toNat) index seg w.image.hashTable
  version : ¬ ((loadedMetadata w p).majorVersion ≠ 1 ∧ (loadedMetadata w p).minorVersion ≠ 1)

/-- Metadata that loads is kept. -/
theorem loadMetaData_run (h : Loads digest w before p after) (hmoved : s.hashSegmentMoved = false) :
    ∃ m, xcfgLoadMetaData digest w s = (.ok (), { s with
        machine := m, transIf := false, elfInfo := loadedElfInfo w
        metadataBuff := some (loadedMetadata w p), metadataStartOffset := p.offset }) ∧
      m.live = s.machine.live + 3 ∧ m.openImages = s.machine.openImages := by
  obtain ⟨tick, hinit⟩ := imageInterfaceInit_run h.fine h.usable hmoved
  obtain ⟨tick', hloop⟩ := metaDataLoop_run h.fine after h.before h.metaData { s with
    machine := { s.machine with tick := tick + 1, live := s.machine.live + 2 + 1 }
    transIf := true
    elfInfo := ⟨some w.image.hashTable, some (replicate w.image.phdrs.length ⟨0, 0, false⟩)⟩ }
    (by rw [h.phdrs])
  rw [← h.phdrs] at hloop
  obtain ⟨index, seg, hverifies⟩ := h.verifies
  obtain ⟨m, hvalidate⟩ := hverifies.validates h.fine
    { s.machine with tick := tick' + 1, live := s.machine.live + 2 + 1 + 1 - 1 }
  refine ⟨m, ?_, xcfgValidateData_kept hvalidate⟩
  have hfree :
      ∀ m, freeOrCleanup w m = (.ok (), { m with tick := m.tick + 1, live := m.live - 1 }) := by
    intro m
    rw [freeOrCleanup, xcfgFree_fine h.fine]
  have hdata : (w.storage.read p.offset.toNat p.fileSize.toNat).take p.fileSize.toNat =
      w.storage.read p.offset.toNat p.fileSize.toNat :=
    take_of_length_le (Nat.le_of_eq (Contents.length_read ..))
  rw [xcfgLoadMetaData, bind_run hinit,
    bind_run (onMachine_run (xcfgMalloc_fine h.fine (by decide) _)),
    bind_run hloop]
  refine (bind_run (onMachine_run (hfree _))).trans ?_
  refine (bind_run (get_ok.mpr ⟨rfl, rfl⟩)).trans ?_
  dsimp only
  rw [if_neg (not_not_intro rfl), getD_some, hdata]
  refine (bind_run (onMachine_run hvalidate)).trans ?_
  rfl

end

end XBLConfig
