import BootXf.XBLConfig.HashedReads
import BootXf.XBLConfig.Module

/-!
# Reads return signed bytes

Whatever fails on the way, the module keeps a hash table that was authenticated, and no segment is
ever flagged as verified (`Signed`). So every read that succeeds has had its segment hashed, and
with a hash that tells byte strings apart the bytes are the signer's.
-/

namespace XBLConfig

open Lib Checked XBLLoader List

section
variable {δ : Type} {digest : List UInt8 → δ} {signer : Nat → List UInt8}
  {w : Outside δ} {s t : Sys δ} {I : Sys δ → Prop} {p cleanup : Code (Sys δ) Unit} {α : Type}

/-- A property of the state that the machine and the handles do not matter for. -/
def IgnoresHandles (I : Sys δ → Prop) : Prop := ∀ s m list max count, I s →
  I { s with machine := m, handleList := list, handleMaxCount := max, handleCount := count }

/-- A property of the state that the machine and the whitelist do not matter for. -/
def IgnoresMachine (I : Sys δ → Prop) : Prop :=
  ∀ s m whitelist, I s → I { s with machine := m, whitelist }

/-- Code of the machine leaves everything else. -/
theorem IgnoresHandles.onMachine (hI : IgnoresHandles I) (p : Code Machine α) :
    Keeps I (onMachine p) :=
  .of_snd fun s hs => hI s _ s.handleList s.handleMaxCount s.handleCount hs

/-- Setting up the handles leaves everything else. -/
theorem IgnoresHandles.handleInit (hI : IgnoresHandles I) :
    Keeps I (xcfgHandleInit w) := by
  refine .bind .get fun s => ?_
  split
  · split
    · exact .fail _
    · split
      · exact .bind (.breakIf _ _) fun _ => .bind (.breakIf _ _) fun _ =>
          .bind (hI.onMachine _) fun _ =>
          .bind (hI.onMachine _) fun _ => .update fun s hs => hI s s.machine _ _ s.handleCount hs
      · exact .fail _
  · exact .bind (.breakIf _ _) fun _ =>
      .bind (.update fun s hs => hI s s.machine s.handleList 5 s.handleCount hs)
      fun _ => .bind (hI.onMachine _) fun _ => .update fun s hs =>
        hI s s.machine _ s.handleMaxCount 0 hs

/-- Allocating a handle leaves everything else. -/
theorem IgnoresHandles.handleAllocate (hI : IgnoresHandles I) (index : UInt32) :
    Keeps I (xcfgHandleAllocate w index) := by
  have htake : Keeps I (takeFreeHandle : Code (Sys δ) UInt32) := by
    refine .bind .get fun s => .bind (.breakOn _) fun list => ?_
    split
    · exact .fail _
    · exact .bind (.update fun s hs => hI s s.machine _ s.handleMaxCount s.handleCount hs)
        fun _ => .pure _
  refine .bind .get fun s => ?_
  split
  · refine .bind hI.handleInit fun _ => .bind .get fun s => ?_
    split
    · exact .pure _
    · exact htake
  · exact htake

/-- An open leaves everything but the handles. -/
theorem IgnoresHandles.openItem (hI : IgnoresHandles I) (name : Option (List UInt8))
    (handle : UInt32) : Keeps I (xblconfigOpen w name handle) := by
  cases name with
  | none => exact .fail _
  | some name =>
    refine .bind .get fun s => .bind (.breakIf _ _) fun _ => ?_
    split
    · split
      · exact .fail _
      · exact .bind (hI.handleAllocate _) fun _ =>
          .bind (.update fun s hs => hI s s.machine _ s.handleMaxCount _ hs) fun _ => .pure _
    · exact .fail _

/-- A close leaves everything but the handles. -/
theorem IgnoresHandles.close (hI : IgnoresHandles I) (handle : UInt32) :
    Keeps I (xblconfigClose handle : Code (Sys δ) Unit) :=
  .bind .get fun _ => .bind (.breakIf _ _) fun _ => .bind (.breakIf _ _) fun _ =>
    .bind (.breakOn _) fun _ =>
    .bind (.breakIf _ _) fun _ => .update fun s hs => hI s s.machine _ s.handleMaxCount _ hs

/-- A read leaves everything but the machine. -/
theorem IgnoresMachine.read [DecidableEq δ] (hI : IgnoresMachine I) (digest : List UInt8 → δ)
    (handle offset size : UInt32) (buffer : Bool) :
    Keeps I (xblconfigRead digest w handle offset size buffer) := by
  have hallow : Keeps I (xcfgLoadAddrValidationInit w) := .of_snd fun s hs => hI s s.machine _ hs
  have hforbid : Keeps I (xcfgLoadAddrValidationDeinit : Code (Sys δ) Unit) :=
    .update fun s hs => hI s s.machine _ hs
  have hread : ∀ p :
      Code Machine (List UInt8), Keeps I (XBLConfig.onMachine p : Code (Sys δ) (List UInt8)) :=
    fun _ => .of_snd fun s hs => hI s _ s.whitelist hs
  exact .bind .get fun _ => .bind (.breakIf _ _) fun _ => .bind (.breakIf _ _) fun _ =>
    .bind (.breakIf _ _) fun _ => .bind (.breakIf _ _) fun _ => .bind (.breakOn _) fun _ =>
    .bind (.breakIf _ _) fun _ => .bind (.breakIf _ _) fun _ => .bind hallow fun _ =>
      .bind (.breakOn _) fun _ =>
    .bind (.breakOn _) fun _ => .bind (.breakIf _ _) fun _ => .bind (.breakIf _ _) fun _ =>
    .bind (hread _) fun _ => .bind hforbid fun _ => .pure _

/-! ## Signed tables -/

/-- The copy of the hash table has the digests of the signer's segments, and no segment counts as
verified. -/
structure Signed (digest : List UInt8 → δ) (signer : Nat → List UInt8) (s : Sys δ) : Prop where
  flags : ∀ segs, s.elfInfo.segmentInfo = some segs → ∀ seg ∈ segs, seg.isVerified = false
  table : ∀ table, s.elfInfo.hashBuffer = some table → ∀ i, table i = digest (signer i)

/-- A hash table that is authenticated is the signer's. -/
def Authentic (digest : List UInt8 → δ) (signer : Nat → List UInt8) (w : Outside δ) : Prop :=
  w.image.authenticated = true → ∀ i, w.image.hashTable i = digest (signer i)

/-! ## What cleanups and the loop over the blocks keep -/

/-- The cleanup runs from where the code has broken off. -/
theorem onError_triple {P Q E : Sys δ → Prop} (hp : Triple P p Q E)
    (hcleanup : Keeps E cleanup) : Triple P (onError p cleanup) Q E where
  ok {s t u} hs hrun := by
    rcases hfirst : p s with ⟨(e | _) | _, v⟩
    · rw [onError, hfirst] at hrun
      cases hrun
    · rw [onError, hfirst] at hrun
      cases hrun
    · rw [onError, hfirst] at hrun
      obtain ⟨-, rfl⟩ := Prod.mk.inj hrun
      exact hp.ok hs hfirst
  error {s t e} hs hrun := by
    rcases hfirst : p s with ⟨(e | _) | _, v⟩
    · rw [onError, hfirst] at hrun
      obtain ⟨-, rfl⟩ := Prod.mk.inj hrun
      have hbroken := hp.error hs hfirst
      split
      · exact hbroken
      · exact hcleanup.snd hbroken
    · rw [onError, hfirst] at hrun
      obtain ⟨-, rfl⟩ := Prod.mk.inj hrun
      exact hp.error hs hfirst
    · rw [onError, hfirst] at hrun
      cases hrun

/-- What every round keeps the loop keeps, whether a status ends it or not. -/
theorem metaDataLoop_keeps (hblock : ∀ index p found, Keeps I (metaDataBlock w index p found))
    (ps : List Phdr) (index : Nat)
    (found : Option UInt64) : Keeps I (metaDataLoop w ps index found) := by
  induction ps generalizing index found with
  | nil => exact .pure _
  | cons p ps ih =>
    refine .of_snd fun s hs => ?_
    have hafter := (hblock index p found).snd hs
    rw [XBLConfig.metaDataLoop]
    dsimp only
    split
    · next heq =>
      rw [heq] at hafter
      exact (ih _ _).snd hafter
    · next heq =>
      rw [heq] at hafter
      exact hafter
    · next heq =>
      rw [heq] at hafter
      exact hafter

/-! ## Every function keeps it -/

/-- Whether data is signed does not depend on the handles. -/
theorem Signed.ignoresHandles : IgnoresHandles (Signed digest signer : Sys δ → Prop) :=
  fun _ _ _ _ _ hs => ⟨hs.flags, hs.table⟩

/-- Code of the machine keeps what is signed. -/
theorem Signed.onMachine (p : Code Machine α) :
    Keeps (Signed digest signer) (onMachine p) :=
  .of_snd fun _ hs => ⟨hs.flags, hs.table⟩

/-- An access to a pointer changes nothing. -/
theorem Signed.deref (p : Option α) : Keeps (Signed digest signer) (deref p : Code (Sys δ) α) :=
  Triple.breakOn _

/-- A buffer may be freed if it may be forgotten. -/
theorem Signed.freeStatic {isLive : Sys δ → Bool} {clear : Sys δ → Sys δ}
    (h : ∀ s, Signed digest signer s → Signed digest signer (clear s)) :
    Keeps (Signed digest signer) (freeStatic w isLive clear) :=
  .bind .get fun _ => .when (.bind (Signed.onMachine _) fun _ => .update h)

/-- An error path keeps what its clean-up keeps. -/
theorem Signed.onError (hp : Keeps (Signed digest signer) p)
    (hcleanup : Keeps (Signed digest signer) cleanup) :
    Keeps (Signed digest signer) (onError p cleanup) :=
  onError_triple hp hcleanup

/-- Setting up the address validation keeps what is signed. -/
theorem Signed.addrValidationInit : Keeps (Signed digest signer) (xcfgLoadAddrValidationInit w) :=
  .of_snd fun _ hs => ⟨hs.flags, hs.table⟩

/-- Tearing it down does, too. -/
theorem Signed.addrValidationDeinit :
    Keeps (Signed digest signer) (xcfgLoadAddrValidationDeinit : Code (Sys δ) Unit) :=
  .update fun _ hs => ⟨hs.flags, hs.table⟩

/-- The hash table is copied when it is authenticated, and the segments start unverified. -/
theorem Signed.imageInterfaceInit (hw : Authentic digest signer w) :
    Keeps (Signed digest signer) (xcfgImageInterfaceInit w) := by
  refine Signed.onError ?_ (Signed.freeStatic fun _ hs => ⟨fun _ h => (nomatch h), hs.table⟩)
  have hmove : Keeps (Signed digest signer) (bootMoveHashSegmentBuffer w) :=
    .bind .get fun _ => .when (.bind (Signed.onMachine _) fun _ =>
      .update fun _ hs => ⟨hs.flags, hs.table⟩)
  have hload : Keeps (Signed digest signer) (bootElfLoadInitHashSegment w) :=
    .bind (Signed.onMachine _) fun _ => .update fun _ hs => ⟨hs.flags, hs.table⟩
  have hrestore : Keeps (Signed digest signer) (bootRestoreHashSegmentBuffer w) :=
    .bind (Signed.onMachine _) fun _ => .update fun _ hs => ⟨hs.flags, hs.table⟩
  refine .bind hmove fun _ => .bind hload fun _ => ?_
  rcases hauth : w.image.authenticated with _ | _
  · exact .of_snd fun _ hs => hs
  · refine .bind (.breakIf _ _) fun _ => .bind (Signed.onMachine _) fun _ =>
      .bind (.breakOn _) fun _ =>
      .bind (.breakIf _ _) fun _ => .bind (Signed.onMachine _) fun _ =>
      .bind (Q := Signed digest signer) (.update fun s hs => ?_) fun _ => ?_
    · refine ⟨hs.flags, fun table htable => ?_⟩
      cases htable
      exact hw hauth
    · refine .bind hrestore fun _ =>
        .bind (Signed.onMachine _) fun _ => .bind (.breakIf _ _) fun _ =>
          .bind (Signed.onMachine _) fun _ =>
        .update fun s hs => ⟨fun segs hsegs seg hseg => ?_, hs.table⟩
      cases hsegs
      rw [eq_of_mem_replicate hseg]

/-- Closing the image interface keeps what is signed. -/
theorem Signed.imageInterfaceDeinit : Keeps (Signed digest signer) (xcfgImageInterfaceDeinit w) :=
  .bind (Signed.freeStatic fun _ hs => ⟨hs.flags, fun _ h => nomatch h⟩) fun _ =>
    Signed.freeStatic fun _ hs => ⟨fun _ h => (nomatch h), hs.table⟩

/-- Reading a block keeps what is signed. -/
theorem Signed.getBlockData (offset size : UInt64) :
    Keeps (Signed digest signer) (xcfgGetBlockData w offset size) :=
  .bind (.breakIf _ _) fun _ => .bind (.breakIf _ _) fun _ =>
    .bind (Signed.onMachine _) fun _ => .pure _

/-- A block that is noted is not flagged. -/
theorem Signed.getBlockInfo (index : Nat) (p : Phdr) :
    Keeps (Signed digest signer) (xcfgImageGetBlockInfo w index p) := by
  refine .bind (Signed.onMachine _) fun _ => .update fun s hs =>
    ⟨fun segs hsegs seg hseg => ?_, hs.table⟩
  obtain ⟨before, hbefore, rfl⟩ := Option.map_eq_some_iff.mp hsegs
  rcases mem_or_eq_of_mem_set hseg with hold | rfl
  · exact hs.flags before hbefore seg hold
  · rfl

/-- Looking at a program header keeps what is signed. -/
theorem Signed.metaDataBlock (index : Nat) (p : Phdr) (found : Option UInt64) :
    Keeps (Signed digest signer) (metaDataBlock w index p found) := by
  refine .bind (Signed.getBlockInfo index p) fun _ => ?_
  split
  · refine .bind (Signed.getBlockData _ _) fun _ => ?_
    split
    · exact .bind (Signed.onMachine _) fun _ =>
        .bind (.update fun _ hs => ⟨hs.flags, hs.table⟩) fun _ =>
        .bind (Signed.getBlockData _ _) fun _ =>
          .bind (.update fun _ hs => ⟨hs.flags, hs.table⟩) fun _ =>
        .pure _
    · exact .pure _
  · exact .pure _

/-- Looking at all program headers keeps what is signed. -/
theorem Signed.metaDataLoop (ps : List Phdr) (index : Nat) (found : Option UInt64) :
    Keeps (Signed digest signer) (metaDataLoop w ps index found) :=
  metaDataLoop_keeps Signed.metaDataBlock ps index found

/-- `xblconfig_deinit` forgets what is signed. -/
theorem Signed.deinit : Keeps (Signed digest signer) (xblconfigDeinit w) :=
  .bind (Signed.freeStatic fun _ hs => ⟨hs.flags, hs.table⟩) fun _ =>
    .bind (Signed.freeStatic fun _ hs => ⟨hs.flags, hs.table⟩) fun _ =>
    .bind (Signed.freeStatic fun _ hs => ⟨hs.flags, hs.table⟩) fun _ =>
    .bind Signed.imageInterfaceDeinit fun _ => .update fun _ hs => ⟨hs.flags, hs.table⟩

variable [DecidableEq δ] {start : UInt64}

/-- The metadata that is loaded is authentic. -/
theorem Signed.loadMetaData (hw : Authentic digest signer w) :
    Keeps (Signed digest signer) (xcfgLoadMetaData digest w) := by
  have hreset : Keeps (Signed digest signer) (xcfgImageInterfaceReset : Code (Sys δ) Unit) :=
    .update fun _ hs => ⟨hs.flags, hs.table⟩
  refine .bind (Signed.imageInterfaceInit hw) fun _ => .bind (Signed.onMachine _) fun _ =>
    .bind (Signed.metaDataLoop _ _ _) fun ⟨index, found⟩ => .bind (Signed.onMachine _) fun _ =>
      .bind .get fun s => ?_
  split
  · exact .bind hreset fun _ => .fail _
  · split
    · exact .bind hreset fun _ => .fail _
    · exact .bind (Signed.onMachine _) fun _ => hreset

/-- `xblconfig_init` leaves signed metadata or none. -/
theorem Signed.init (hw : Authentic digest signer w) :
    Keeps (Signed digest signer) (xblconfigInit digest w) := by
  refine Signed.onError ?_ (Signed.freeStatic fun _ hs => ⟨hs.flags, hs.table⟩)
  refine .bind .get fun s => ?_
  split
  · exact .pure _
  · exact .bind Signed.addrValidationInit fun _ => .bind (Signed.loadMetaData hw) fun _ =>
      .bind .get fun _ =>
      .bind (Signed.deref _) fun _ => .bind (.breakIf _ _) fun _ =>
      .bind (.update fun _ hs => ⟨hs.flags, hs.table⟩) fun _ => .bind (Signed.onMachine _) fun _ =>
      .bind (.update fun _ hs => ⟨hs.flags, hs.table⟩) fun _ =>
        .bind Signed.ignoresHandles.handleInit fun _ =>
      .bind (.update fun _ hs => ⟨hs.flags, hs.table⟩) fun _ => Signed.addrValidationDeinit

/-- **One call**, whatever fails in it. -/
theorem Signed.perform (hs : Signed digest signer s) (hw : Authentic digest signer w)
    (call : Call) :
    Signed digest signer (perform digest w call s).2 := by
  have hfresh : Signed digest signer s.fresh := ⟨hs.flags, hs.table⟩
  cases call with
  | init => exact (Signed.init hw).snd hfresh
  | openItem name handle => exact (Signed.ignoresHandles.openItem name handle).snd hfresh
  | read handle offset size buffer =>
    exact (IgnoresMachine.read (fun _ _ _ hs => ⟨hs.flags, hs.table⟩) digest handle offset size
    buffer).snd hfresh
  | close handle => exact (Signed.ignoresHandles.close handle).snd hfresh
  | deinit => exact Signed.deinit.snd hfresh

/-- The steps that meet authentic hash tables only. -/
def SignedStep (digest : List UInt8 → δ) (signer : Nat → List UInt8) (s : Sys δ)
    (e : Call × Outside δ)
    (t : Sys δ) : Prop :=
  Authentic digest signer e.2 ∧ Step digest s e t

/-- **Every run** keeps an authentic hash table. -/
theorem Signed.run {h : List (Call × Outside δ)}
    (run : Run (SignedStep digest signer) (.boot δ) h s) :
    Signed digest signer s := by
  refine run.state_invariant ⟨fun _ hno => (nomatch hno), fun _ hno => nomatch hno⟩ ?_
  rintro s ⟨call, w⟩ t hs ⟨hw, status, hstep⟩
  have := hs.perform hw call
  rwa [hstep] at this

/-! ## Reads -/

/-- The item that a handle is open on: where its entry is in the metadata. -/
structure ItemAt (s : Sys δ) (configHandle : UInt32) (metadata : Metadata)
    (entry : UInt64) : Prop where
  handle : ∃ handles handle list, s.handleList = some handles ∧
    handles[configHandle.toNat]? = some handle ∧ handle.isValid = true ∧
    s.configEntryList = some list ∧ list.getD handle.configEntryIndex.toNat 0 = entry
  metadata : s.metadataBuff = some metadata

omit [DecidableEq δ] in
/-- The three offsets do not wrap, and the range is in the item. -/
theorem item_range {itemOffset offset size itemSize : UInt32}
    (hwrap : ¬ offset + size < size) (hin : ¬ offset + size > itemSize)
    (hstart : ¬ start + itemOffset.toUInt64 + offset.toUInt64 < start) :
    (start + itemOffset.toUInt64 + offset.toUInt64).toNat =
      start.toNat + itemOffset.toNat + offset.toNat ∧
        offset.toNat + size.toNat ≤ itemSize.toNat := by
  have hstart := Nat.not_lt.mp fun h => hstart (UInt64.lt_iff_toNat_lt.mpr h)
  have hwrap := Nat.not_lt.mp fun h => hwrap (UInt32.lt_iff_toNat_lt.mpr h)
  have hin := Nat.not_lt.mp fun h => hin (UInt32.lt_iff_toNat_lt.mpr h)
  rw [UInt64.toNat_add, UInt64.toNat_add, UInt32.toNat_toUInt64, UInt32.toNat_toUInt64] at hstart ⊢
  rw [UInt32.toNat_add] at hwrap hin
  have := start.toNat_lt
  have := itemOffset.toNat_lt
  have := offset.toNat_lt
  have := size.toNat_lt
  omega

/-- What is read, and from where. -/
theorem xblconfigRead_ok {handle offset size : UInt32} {buffer : Bool} {data : List UInt8}
    (hs : Signed digest signer s)
    (h : xblconfigRead digest w handle offset size buffer s = (.ok data, t)) :
    ∃ metadata entry start segs seg index table, ItemAt s handle metadata entry ∧
      start.toNat = s.metadataStartOffset.toNat + (metadata.entryOffset entry).toNat +
        offset.toNat ∧
      offset.toNat + size.toNat ≤ (metadata.entrySize entry).toNat ∧
      s.elfInfo.segmentInfo = some segs ∧ segs[index]? = some seg ∧
      s.elfInfo.hashBuffer = some table ∧ seg.offset ≤ start ∧
      data = w.storage.read start.toNat size.toNat ∧
      t.machine.fed = around w.storage seg start size.toUInt64 data ∧
      digest t.machine.fed = table index := by
  obtain ⟨_, _, hget, h⟩ := bind_ok.mp h
  obtain ⟨rfl, rfl⟩ := get_ok.mp hget
  obtain ⟨-, h⟩ := breakIf_bind_ok.mp h
  obtain ⟨-, h⟩ := breakIf_bind_ok.mp h
  obtain ⟨-, h⟩ := breakIf_bind_ok.mp h
  obtain ⟨-, h⟩ := breakIf_bind_ok.mp h
  obtain ⟨handles, _, hderef, h⟩ := bind_ok.mp h
  obtain ⟨hhandles, rfl⟩ := deref_ok.mp hderef
  obtain ⟨hvalid, h⟩ := breakIf_bind_ok.mp h
  obtain ⟨hwrap, h⟩ := breakIf_bind_ok.mp h
  obtain ⟨_, u, -, h⟩ := bind_ok.mp h
  obtain ⟨list, _, hderef, h⟩ := bind_ok.mp h
  obtain ⟨hlist, rfl⟩ := deref_ok.mp hderef
  obtain ⟨metadata, _, hderef, h⟩ := bind_ok.mp h
  obtain ⟨hmetadata, rfl⟩ := deref_ok.mp hderef
  obtain ⟨hin, h⟩ := breakIf_bind_ok.mp h
  obtain ⟨hstart, h⟩ := breakIf_bind_ok.mp h
  obtain ⟨data', _, hcall, h⟩ := bind_ok.mp h
  obtain ⟨m, hread, rfl⟩ := onMachine_ok.mp hcall
  obtain ⟨_, _, hforbid, h⟩ := bind_ok.mp h
  obtain rfl := update_ok.mp hforbid
  obtain ⟨rfl, rfl⟩ := pure_ok.mp h
  obtain ⟨segs, seg, index, table, hsegs, hseg, htable, hle, rfl, hfed, hdigest, -⟩ :=
    xcfgVerifiedConfigDataRead_ok hs.flags hread
  have hfind : handles[handle.toNat]? = some (handles.getD handle.toNat ⟨0, false⟩) := by
    rw [getD_eq_getElem?_getD] at hvalid ⊢
    cases hnone : handles[handle.toNat]? with
    | none =>
      rw [hnone] at hvalid
      nomatch hvalid
    | some handle' => rfl
  rw [Bool.or_eq_false_iff, decide_eq_false_iff_not, decide_eq_false_iff_not] at hin
  obtain ⟨hplace, hrange⟩ := item_range (of_decide_eq_false hwrap) hin.2 (of_decide_eq_false hstart)
  rw [UInt32.toNat_toUInt64] at hfed ⊢
  exact ⟨metadata, _, _, segs, seg, index, table, ⟨⟨handles, _, list, hhandles, hfind,
    by rwa [Bool.not_eq_false'] at hvalid, hlist, rfl⟩, hmetadata⟩, hplace, hrange, hsegs,
      hseg, htable, hle, rfl,
    hfed, hdigest⟩

omit [DecidableEq δ] in
/-- What a verification feeds is the storage from the start of the segment on. -/
theorem around_read (c : Contents) {seg : SegmentInfo} (size : UInt64) (hle : seg.offset ≤ start) :
    around c seg start size (c.read start.toNat size.toNat) = c.read seg.offset.toNat
      (max (seg.offset.toNat + seg.size.toNat) (start.toNat + size.toNat) - seg.offset.toNat) := by
  have hle := UInt64.le_iff_toNat_le.mp hle
  have hfront := c.read_append seg.offset.toNat (start.toNat - seg.offset.toNat) size.toNat
  rw [Nat.add_sub_cancel' hle] at hfront
  have hall := c.read_append seg.offset.toNat (start.toNat - seg.offset.toNat + size.toNat)
    (seg.offset.toNat + seg.size.toNat - (start.toNat + size.toNat))
  rw [← Nat.add_assoc, Nat.add_sub_cancel' hle] at hall
  rw [around, hfront, hall]
  congr 1
  omega

/-- What the reader of an item may rely on. -/
structure SignedRead (signer : Nat → List UInt8) (c : Contents) (s : Sys δ)
    (configHandle readOffset size : UInt32) (hashed data : List UInt8) (entry : UInt64)
    (metadata : Metadata)
    (index : Nat) (seg : SegmentInfo) (start : UInt64) : Prop where
  /-- The handle is open on the item, and the segment is in the table. -/
  item : ItemAt s configHandle metadata entry
  segment : ∃ segs, s.elfInfo.segmentInfo = some segs ∧ segs[index]? = some seg
  /-- The range is inside of the item. -/
  place : start.toNat =
    s.metadataStartOffset.toNat + (metadata.entryOffset entry).toNat + readOffset.toNat
  inside : readOffset.toNat + size.toNat ≤ (metadata.entrySize entry).toNat
  /-- The hash is fed the segment in front, the buffer, and the segment behind. -/
  behind : seg.offset ≤ start
  fed : hashed = around c seg start size.toUInt64 data
  /-- And that is the storage, each byte once and in order. -/
  once : hashed = c.read seg.offset.toNat
    (max (seg.offset.toNat + seg.size.toNat) (start.toNat + size.toNat) - seg.offset.toNat)
  /-- The signer's segment has been fed, and the buffer is the slice of it. -/
  signed : hashed = signer index
  slice : data = ((signer index).drop (start.toNat - seg.offset.toNat)).take size.toNat

/-- **Every read that succeeds**, in any state that the calls of the module lead to, whatever fails
in them, returns the signer's bytes. -/
theorem xblconfigRead_signed (hdigest : ∀ a b, digest a = digest b → a = b)
    {h : List (Call × Outside δ)} (run : Run (SignedStep digest signer) (.boot δ) h s)
    {configHandle readOffset size : UInt32} (buffer : Bool) {data : List UInt8}
    (hread : xblconfigRead digest w configHandle readOffset size buffer s.fresh = (.ok data, t)) :
    ∃ entry metadata index seg start, SignedRead signer w.storage s configHandle readOffset size
      t.machine.fed data entry metadata index seg start := by
  have hs := Signed.run run
  have hfresh : Signed digest signer s.fresh := ⟨hs.flags, hs.table⟩
  obtain ⟨metadata, entry, start, segs, seg, index, table, hitem, hplace, hinside,
      hsegs, hseg, htable,
    hbehind, hdata, hfed, hentry⟩ := xblconfigRead_ok hfresh hread
  have hsigned : t.machine.fed = signer index :=
    hdigest _ _ (hentry.trans (hs.table table htable index))
  have hlength : (w.storage.read seg.offset.toNat (start.toNat - seg.offset.toNat)).length =
      start.toNat - seg.offset.toNat := Contents.length_read ..
  have hsize : data.length = size.toNat := by
    rw [hdata, Contents.length_read]
  refine ⟨entry, metadata, index, seg, start, ⟨hitem.handle, hitem.metadata⟩,
    ⟨segs, hsegs, hseg⟩, hplace,
    hinside, hbehind, hfed, ?_, hsigned, ?_⟩
  · have hround := around_read w.storage size.toUInt64 hbehind
    rw [UInt32.toNat_toUInt64, ← hdata] at hround
    exact hfed.trans hround
  · rw [← hsigned, hfed, around, append_assoc, drop_left' hlength, take_left' hsize]

end

/-- A partition of one segment: the metadata with one entry, of the item `a`, which is the first
eight bytes. -/
def smallTable : List UInt8 :=
  [0x43, 0x46, 0x47, 0x4C, 1, 1, 1, 0, 0, 0, 0, 0, 0, 0, 0, 0, 0, 0, 0, 0, 8, 0, 0,
    0, 1, 0, 0, 0, 0x61]

/-- The partition, with a digest that is the bytes themselves. -/
def smallConfig : Outside (List UInt8) where
  answers _ := true
  storage i := smallTable.getD i 0
  image := ⟨[⟨29, 0, true⟩], some 64, true, fun _ => smallTable⟩
  imgWhitelist i := if i = 0 then ⟨0x1000, 0x1000⟩ else ⟨0, 0⟩
  metadataAddr := 0x1000
  memory _ := 0
  freshEntry _ := 0

/-- The module is initialised. -/
def smallInitialized : Sys (List UInt8) := (perform id smallConfig .init (.boot _)).2

/-- The item is open. -/
def smallOpened : Sys (List UInt8) :=
  (perform id smallConfig (.openItem (some [0x61]) 0) smallInitialized).2

/-- A pair whose first component is known. -/
theorem eq_of_fst {α β : Type} {x : α × β} {a : α} (h : x.1 = a) : x = (a, x.2) := Prod.ext h rfl

/-- A small configuration is initialised. -/
theorem step_smallInitialized : SignedStep id (fun _ => smallTable) (.boot _) (.init, smallConfig)
    smallInitialized :=
  ⟨fun _ _ => rfl, .success, eq_of_fst (by decide +kernel)⟩

/-- An item of the small configuration is opened. -/
theorem step_smallOpened : SignedStep id (fun _ => smallTable) smallInitialized
    (.openItem (some [0x61]) 0, smallConfig) smallOpened :=
  ⟨fun _ _ => rfl, .success, eq_of_fst (by decide +kernel)⟩

/-- A read of two bytes is hashed together with what is around it. -/
theorem xblconfigRead_signed_small :
    ∃ entry metadata index seg start, SignedRead (fun _ => smallTable)
    smallConfig.storage smallOpened 0 2 4
    (xblconfigRead id smallConfig 0 2 4 true smallOpened.fresh).2.machine.fed [0x47, 0x4C, 1, 1]
    entry metadata index seg start :=
  xblconfigRead_signed (fun _ _ h => h)
    (.step (.step .start step_smallInitialized) step_smallOpened) true
    (eq_of_fst (by decide +kernel))

end XBLConfig
