import BootXf.XBLConfig.Initialize
import BootXf.XBLConfig.SignedReads

/-!
# What survives a failure

`Clean` is the condition on a call under which what it leaves behind is in order: an initialisation
that fails only because its whitelist is refused, a read that fails only before its whitelist is
set, and a deinitialisation that fails at its first block or not at all. `xblconfig_survives` says
what holds in every state that such calls lead to, and the two runs at the end what happens
otherwise.
-/

namespace XBLConfig

open Lib Checked XBLLoader List Option

/-- A whitelist that is refused is left empty. -/
theorem setWhitelistTable_refused {stop : WhitelstTblEntry → Bool} {arr : Nat → WhitelstTblEntry}
    {table table' : WhitelistTable}
    (h : setWhitelistTable stop (some arr) table = (false, table')) :
    table' = .zero := by
  have hgrows :
      ∀ room entryNum entries result, setLoop stop arr room entryNum entries = some result →
      entryNum ≤ result.1 := by
    intro room
    induction room with
    | zero =>
      intro entryNum entries result hloop
      cases hloop
      exact Nat.le_refl _
    | succ room ih =>
      intro entryNum entries result hloop
      rw [setLoop] at hloop
      split at hloop
      · cases hloop
        exact Nat.le_refl _
      · split at hloop
        · cases hloop
        · exact Nat.le_of_succ_le (ih _ _ _ hloop)
  have hfirst : ∀ room entries entries', setLoop stop arr room 0 entries = some (0, entries') →
      entries' = entries := by
    intro room entries entries' hloop
    cases room with
    | zero =>
      cases hloop
      rfl
    | succ room =>
      rw [setLoop] at hloop
      split at hloop
      · cases hloop
        rfl
      · split at hloop
        · cases hloop
        · exact absurd (hgrows _ _ _ _ hloop) (Nat.not_succ_le_zero 0)
  rw [setWhitelistTable] at h
  split at h
  · exact (Prod.mk.inj h).2.symm
  · next entryNum entries hloop =>
    split at h
    · cases h
    · next hnone =>
      obtain rfl : entryNum = 0 := by omega
      obtain ⟨-, rfl⟩ := Prod.mk.inj h
      rw [hfirst _ _ _ hloop]
      rfl

section
variable {δ : Type} {s t : Sys δ} {w : Outside δ} {list : List Handle}

/-- The number of handles that are open. -/
def openHandles (list : List Handle) : Nat := list.countP (·.isValid)

/-- The handle list has its capacity, and the count is that of the open handles. -/
structure Counted (s : Sys δ) (list : List Handle) : Prop where
  eq : s.handleList = some list
  capacity : list.length = s.handleMaxCount.toNat
  count : s.handleCount.toNat = openHandles list

/-- What the module promises in every state. -/
structure Sound (s : Sys δ) : Prop where
  allocated : s.isInitialized = true →
    s.metadataBuff.isSome = true ∧ s.configEntryList.isSome = true ∧ s.handleList.isSome = true
  count : s.handleCount.toNat = openHandles (s.handleList.getD [])
  capacity : s.handleCount.toNat ≤ (s.handleList.getD []).length ∧
    (s.handleList.getD []).length = s.handleMaxCount.toNat

/-- Open handles stay open on their items. -/
def KeepsOpen (s t : Sys δ) : Prop :=
  ∀ (i : Nat) (handle : Handle), (s.handleList.getD [])[i]? = some handle → handle.isValid = true →
    (t.handleList.getD [])[i]? = some handle

/-- The whitelist of a call is refused. -/
def Refused (w : Outside δ) (s : Sys δ) : Prop :=
  (bootSetActiveImgWhitelistTable s.whitelist (some w.imgWhitelist)).1 = false

/-- A read is rejected before its whitelist is set. -/
def Rejected (s : Sys δ) (configHandle readOffset size : UInt32) (buffer : Bool) : Prop :=
  s.isInitialized = false ∨ buffer = false ∨ size = 0 ∨ configHandle ≥ s.handleMaxCount ∨
    (∀ list, s.handleList = some list →
      (list.getD configHandle.toNat ⟨0, false⟩).isValid = false) ∨
    readOffset + size < size

/-! ## States in order -/

/-- Nothing is allocated, open or allowed. -/
structure Off (s : Sys δ) : Prop where
  initialized : s.isInitialized = false
  metadata : s.metadataBuff = none
  entries : s.configEntryList = none
  handles : s.handleList = none
  maxCount : s.handleMaxCount = 0
  count : s.handleCount = 0
  elfInfo : s.elfInfo = ⟨none, none⟩
  moved : s.hashSegmentMoved = false
  whitelist : s.whitelist.currImageWhitelstTbl = .zero
  images : s.machine.openImages = 0

/-- Everything is allocated, nothing is open or allowed. -/
structure On (s : Sys δ) : Prop where
  initialized : s.isInitialized = true
  metadata : s.metadataBuff.isSome = true
  entries : s.configEntryList.isSome = true
  handles : ∃ list, Counted s list
  some : s.handleMaxCount ≠ 0
  elfInfo : s.elfInfo.hashBuffer.isSome = true ∧ s.elfInfo.segmentInfo.isSome = true
  moved : s.hashSegmentMoved = false
  whitelist : s.whitelist.currImageWhitelstTbl = .zero
  images : s.machine.openImages = 0

theorem Off.sound (h : Off s) : Sound s where
  allocated hinit := by
    rw [h.initialized] at hinit
    nomatch hinit
  count := by
    rw [h.count, h.handles]
    rfl
  capacity := by
    rw [h.count, h.handles, h.maxCount]
    exact ⟨Nat.le_refl _, rfl⟩

theorem On.sound (h : On s) : Sound s := by
  obtain ⟨list, hcounted⟩ := h.handles
  refine ⟨fun _ => ⟨h.metadata, h.entries, ?_⟩, ?_, ?_⟩
  · rw [hcounted.eq]
    rfl
  · rw [hcounted.eq, hcounted.count]
    rfl
  · rw [hcounted.eq, hcounted.count]
    exact ⟨countP_le_length, hcounted.capacity⟩

theorem Off.fresh (h : Off s) : Off s.fresh :=
  ⟨h.initialized, h.metadata, h.entries, h.handles, h.maxCount,
  h.count, h.elfInfo, h.moved, h.whitelist, h.images⟩

theorem On.fresh (h : On s) : On s.fresh :=
  ⟨h.initialized, h.metadata, h.entries, h.handles.imp fun _ hc =>
    ⟨hc.eq, hc.capacity, hc.count⟩, h.some,
    h.elfInfo, h.moved, h.whitelist, h.images⟩

/-- A whitelist that is refused leaves everything as it was. -/
theorem addrValidationInit_refused (hrefused : Refused w s) : ∃ whitelist,
    xcfgLoadAddrValidationInit w s = (.error (.status .bufferValidationErr), { s with whitelist }) ∧
      whitelist.currImageWhitelstTbl = .zero := by
  rw [Refused, bootSetActiveImgWhitelistTable] at hrefused
  refine ⟨{ s.whitelist with
    currImageWhitelstTbl := (setWhitelistTable imgStop (some w.imgWhitelist)
      s.whitelist.currImageWhitelstTbl).2 }, ?_, ?_⟩
  · rw [xcfgLoadAddrValidationInit, bootSetActiveImgWhitelistTable]
    dsimp only at hrefused ⊢
    rw [hrefused]
    rfl
  · exact setWhitelistTable_refused (Prod.ext hrefused rfl)

theorem addrValidationInit_run (hallowed : ¬ Refused w s) : ∃ whitelist,
    xcfgLoadAddrValidationInit w s = (.ok (), { s with whitelist }) := by
  have hok : (bootSetActiveImgWhitelistTable s.whitelist (some w.imgWhitelist)).1 = true :=
    (Bool.not_eq_false _).mp hallowed
  refine ⟨(bootSetActiveImgWhitelistTable s.whitelist (some w.imgWhitelist)).2, ?_⟩
  rw [xcfgLoadAddrValidationInit]
  dsimp only
  rw [hok]
  rfl

/-! ## Initialising -/

theorem handleInit_first (h : w.Fine) (hmax : s.handleMaxCount = 0) (hnone : s.handleList = none) :
    xcfgHandleInit w s = (.ok (), { s with
      machine := { s.machine with tick := s.machine.tick + 1, live := s.machine.live + 1 }
      handleMaxCount := 5, handleList := some (replicate 5 ⟨0, false⟩), handleCount := 0 }) := by
  rw [xcfgHandleInit, bind_run (get_ok.mpr ⟨rfl, rfl⟩)]
  refine (congrFun (if_neg (not_not_intro hmax)) s).trans ?_
  rw [bind_run (breakIf_run (by rw [hnone]; rfl) s), bind_run (update_run _ _),
    bind_run (onMachine_run (xcfgMalloc_fine h (by decide) _))]
  rfl

variable [DecidableEq δ] {digest : List UInt8 → δ} {before after : List Phdr} {p : Phdr}

/-- **An initialisation** whose whitelist is set and where all goes well. -/
theorem init_run (hoff : Off s) (hallowed : ¬ Refused w s) (h : Loads digest w before p after) :
    ∃ t, xblconfigInit digest w s = (.ok (), t) ∧ On t := by
  obtain ⟨whitelist, hallow⟩ := addrValidationInit_run hallowed
  obtain ⟨m, hload, -, himages⟩ := loadMetaData_run h (s := { s with whitelist }) hoff.moved
  have hentries : (loadedMetadata w p).numberOfEntries.toUInt64 * 8 ≤ xcfgUint32Max := by
    rw [UInt64.le_iff_toNat_le, UInt64.toNat_mul, UInt16.toNat_toUInt64]
    have := (loadedMetadata w p).numberOfEntries.toNat_lt
    refine Nat.le_trans (Nat.mod_le _ _) ?_
    show _ * 8 ≤ 0xFFFFFFFF
    omega
  refine ⟨{ s with
    whitelist := bootInvalidateImgWhitelist whitelist
    machine := { m with tick := m.tick + 1 + 1, live := m.live + 1 + 1 }
    transIf := false, elfInfo := loadedElfInfo w
    metadataBuff := some (loadedMetadata w p), metadataStartOffset := p.offset
    maxConfigEntries := (loadedMetadata w p).numberOfEntries
    configEntryList := some (xcfgPopulateConfigItemList (loadedMetadata w p)
      ((List.range (loadedMetadata w p).numberOfEntries.toNat).map w.freshEntry))
    handleMaxCount := 5, handleList := some (replicate 5 ⟨0, false⟩), handleCount := 0
    isInitialized := true }, onError_run ?_, ?_⟩
  · rw [bind_run (get_ok.mpr ⟨rfl, rfl⟩)]
    refine (congrFun (if_neg (by rw [hoff.initialized]; exact Bool.false_ne_true)) s).trans ?_
    rw [bind_run hallow, bind_run hload, bind_run (get_ok.mpr ⟨rfl, rfl⟩), bind_run (deref_run rfl),
      bind_run (breakIf_run (decide_eq_false h.version) _), bind_run (update_run _ _),
      bind_run (onMachine_run (xcfgMalloc_fine h.fine hentries _)), bind_run (update_run _ _)]
    refine (bind_run (handleInit_first h.fine ?_ ?_)).trans ?_
    · exact hoff.maxCount
    · exact hoff.handles
    · rfl
  · exact ⟨rfl, rfl, rfl, ⟨_, rfl, rfl, rfl⟩, (show (5 : UInt32) ≠ 0 by decide),
      ⟨rfl, rfl⟩, hoff.moved, rfl,
      himages.trans hoff.images⟩

/-- An initialisation whose whitelist is refused leaves nothing behind. -/
theorem init_refused (digest : List UInt8 → δ) (hoff : Off s) (hrefused : Refused w s) :
    ∃ whitelist,
    xblconfigInit digest w s = (.error (.status .bufferValidationErr), { s with whitelist }) ∧
      whitelist.currImageWhitelstTbl = .zero := by
  obtain ⟨whitelist, hallow, hzero⟩ := addrValidationInit_refused hrefused
  refine ⟨whitelist, ?_, hzero⟩
  have hbody : ∀ p : Code (Sys δ) Unit,
      (if s.isInitialized = true then pure () else xcfgLoadAddrValidationInit w >>= fun _ =>
        p : Code (Sys δ) Unit)
        s = (.error (.status .bufferValidationErr), { s with whitelist }) := by
    intro p
    rw [if_neg (by rw [hoff.initialized]; exact Bool.false_ne_true), bind_error hallow]
  rw [xblconfigInit, onError, bind_run (get_ok.mpr ⟨rfl, rfl⟩), hbody]
  dsimp only
  rw [if_neg (by decide), freeStatic_null (congrArg isSome hoff.entries)]

theorem init_again (hinit : s.isInitialized = true) : xblconfigInit digest w s = (.ok (), s) := by
  refine onError_run ?_
  rw [bind_run (get_ok.mpr ⟨rfl, rfl⟩)]
  exact congrFun (if_pos hinit) s

end

/-! ## Handles -/

section
variable {δ : Type} {s t : Sys δ} {w : Outside δ} {list : List Handle} {index : Nat}
  {handle : Handle} {list' : List Handle}

/-- Two states that differ in the handles at most, and in how the machine has gone on. -/
structure SameModule (s t : Sys δ) : Prop where
  initialized : t.isInitialized = s.isInitialized
  metadata : t.metadataBuff = s.metadataBuff
  entries : t.configEntryList = s.configEntryList
  elfInfo : t.elfInfo = s.elfInfo
  moved : t.hashSegmentMoved = s.hashSegmentMoved
  whitelist : t.whitelist = s.whitelist
  images : t.machine.openImages = s.machine.openImages

theorem On.of_same (h : On s) (hsame : SameModule s t) (hcounted : Counted t list)
    (hsome : t.handleMaxCount ≠ 0) : On t where
  initialized := hsame.initialized.trans h.initialized
  metadata := by rw [hsame.metadata, h.metadata]
  entries := by rw [hsame.entries, h.entries]
  handles := ⟨list, hcounted⟩
  some := hsome
  elfInfo := by
    rw [hsame.elfInfo]
    exact h.elfInfo
  moved := hsame.moved.trans h.moved
  whitelist := by rw [hsame.whitelist, h.whitelist]
  images := hsame.images.trans h.images

/-- Handles that are open in one list are in the other. -/
def Extends (list list' : List Handle) : Prop :=
  ∀ (i : Nat) (handle : Handle), list[i]? = some handle → handle.isValid = true →
    list'[i]? = some handle

theorem Extends.refl (list : List Handle) : Extends list list := fun _ _ h _ => h

theorem Extends.trans {list list' list'' : List Handle} (h : Extends list list')
    (h' : Extends list' list'') :
    Extends list list'' := fun i handle hi hvalid => h' i handle (h i handle hi hvalid) hvalid

theorem Extends.append (list rest : List Handle) : Extends list (list ++ rest) := by
  intro i handle hi _
  rw [getElem?_append_left (List.getElem?_eq_some_iff.mp hi).1]
  exact hi

/-- A handle that is not open can be changed. -/
theorem Extends.modify {list : List Handle} (f : Handle → Handle)
    (hindex : list[index]? = some handle) (hfree : handle.isValid = false) :
    Extends list (list.modify index f) := by
  intro i handle' hi hvalid
  rw [getElem?_modify]
  rcases Decidable.em (index = i) with rfl | hne
  · rw [hindex] at hi
    obtain rfl := Option.some.inj hi
    rw [hfree] at hvalid
    nomatch hvalid
  · rw [hi]
    exact congrArg some (if_neg hne)

theorem openHandles_modify {list : List Handle} {f : Handle → Handle}
    (hindex : list[index]? = some handle) (hfree : handle.isValid = false)
    (hf : (f handle).isValid = true) :
    openHandles (list.modify index f) = openHandles list + 1 := by
  induction list generalizing index with
  | nil => cases hindex
  | cons x list ih =>
    cases index with
    | zero =>
      obtain rfl := Option.some.inj hindex
      rw [modify_zero_cons, openHandles, openHandles, countP_cons_of_pos hf,
        countP_cons_of_neg (by rw [hfree]; exact Bool.false_ne_true)]
    | succ index =>
      rw [modify_succ_cons, openHandles, openHandles, countP_cons, countP_cons,
        show countP (·.isValid) (list.modify index f) = _ from ih hindex, openHandles]
      exact Nat.add_right_comm _ _ _

theorem call_images (v : World) (e : XblconfigStatus) (n : Nat) :
    Keeps (fun m => m.openImages = n) (call v e) :=
  .bind (.of_snd fun _ h => h) fun _ => .breakIf _ _

theorem xcfgMalloc_images (v : World) (size : UInt64) (n : Nat) :
    Keeps (fun m => m.openImages = n) (xcfgMalloc v size) :=
  .bind (.breakIf _ _) fun _ => .bind (call_images v _ n) fun _ => .update fun _ h => h

theorem xcfgFree_images (v : World) (n : Nat) : Keeps (fun m => m.openImages = n) (xcfgFree v) :=
  .bind (call_images v _ n) fun _ => .update fun _ h => h

theorem freeOrCleanup_images (n : Nat) : Keeps (fun m => m.openImages = n) (freeOrCleanup w) := by
  refine .of_snd fun m hm => ?_
  have hfirst := (xcfgFree_images w.toWorld n).snd hm
  rw [freeOrCleanup]
  split
  · next heq =>
    rw [heq] at hfirst
    exact (xcfgFree_images w.toWorld n).snd hfirst
  · exact hfirst

/-- A machine step of a longer run, and what is left of it. -/
theorem onMachine_cases {p : Code Machine Unit} {n : Nat} (hp : Keeps (fun m => m.openImages = n) p)
    (hn : s.machine.openImages = n) (f : Unit → Code (Sys δ) Unit) :
    (∃ e m, (onMachine p >>= f) s = (.error e, { s with machine := m }) ∧ m.openImages = n) ∨
    ∃ m, (onMachine p >>= f) s = f () { s with machine := m } ∧ m.openImages = n := by
  have hkeeps := hp.snd hn
  rcases hrun : p s.machine with ⟨e | _, m⟩
  · rw [hrun] at hkeeps
    exact .inl ⟨e, m, bind_error (by rw [onMachine, hrun]), hkeeps⟩
  · rw [hrun] at hkeeps
    exact .inr ⟨m, bind_run (onMachine_run hrun), hkeeps⟩

/-- What the two checks of the size are for. -/
theorem double_toNat {max : UInt32} (hdiv : ¬ sizeofHandle > 0xFFFFFFFF / max)
    (hmul : ¬ max * sizeofHandle > 0xFFFFFFFF / 2) : (max * 2).toNat = max.toNat + max.toNat := by
  have hdiv := UInt32.le_iff_toNat_le.mp (UInt32.not_lt.mp hdiv)
  have hmul := UInt32.le_iff_toNat_le.mp (UInt32.not_lt.mp hmul)
  rw [UInt32.toNat_div] at hdiv
  rw [UInt32.toNat_mul] at hmul ⊢
  change 16 ≤ 4294967295 / max.toNat at hdiv
  change max.toNat * 16 % 4294967296 ≤ 2147483647 at hmul
  show max.toNat * 2 % 4294967296 = _
  have hle : max.toNat * 16 ≤ 4294967295 := by
    rcases Nat.eq_zero_or_pos max.toNat with hzero | hpos
    · rw [hzero]
      exact Nat.zero_le _
    · rw [Nat.mul_comm]
      exact (Nat.le_div_iff_mul_le hpos).mp hdiv
  omega

/-- The room that a full list gets: as it was, or the double of it. -/
theorem growHandles_cases (s : Sys δ) (max : UInt32) (list : List Handle) :
    (∃ e m, growHandles w max list s = (.error e, { s with machine := m }) ∧
      m.openImages = s.machine.openImages) ∨
    ∃ m, growHandles w max list s = (.ok (), { s with
        machine := m, handleMaxCount := max * 2
        handleList := some (list ++ replicate max.toNat ⟨0, false⟩) }) ∧
      m.openImages = s.machine.openImages ∧ (max * 2).toNat = max.toNat + max.toNat := by
  rw [growHandles]
  rcases hdiv : decide (sizeofHandle > 0xFFFFFFFF / max) with _ | _
  · rw [bind_run (breakIf_run rfl s)]
    rcases hmul : decide (max * sizeofHandle > 0xFFFFFFFF / 2) with _ | _
    · rw [bind_run (breakIf_run rfl s)]
      rcases onMachine_cases
        (xcfgMalloc_images w.toWorld (max * sizeofHandle * 2).toUInt64 _) rfl _ with
        hfailed | ⟨m, hmalloc, hm⟩
      · exact .inl hfailed
      · rw [hmalloc]
        rcases onMachine_cases (s := { s with machine := m })
          (freeOrCleanup_images (w := w) _) hm _ with
          ⟨e, m', hfree, hm'⟩ | ⟨m', hfree, hm'⟩
        · exact .inl ⟨e, m', hfree, hm'⟩
        · exact .inr ⟨m', hfree.trans rfl, hm', double_toNat (of_decide_eq_false hdiv)
            (of_decide_eq_false hmul)⟩
    · exact .inl ⟨_, s.machine, bind_error (breakIf_true _ s), rfl⟩
  · exact .inl ⟨_, s.machine, bind_error (breakIf_true _ s), rfl⟩

/-- The first handle that is not open is taken. -/
theorem takeFreeHandle_cases (h : s.handleList = some list) :
    takeFreeHandle s = (.error (.status .handleErr), s) ∨
    ∃ index handle, list[index]? = some handle ∧ handle.isValid = false ∧
      takeFreeHandle s = (.ok (.ofNat index), { s with
        handleList := some (list.modify index ({ · with isValid := true })) }) := by
  rw [takeFreeHandle, bind_run (get_ok.mpr ⟨rfl, rfl⟩), bind_run (deref_run h)]
  cases hfind : list.findIdx? fun h => !h.isValid with
  | none => exact .inl rfl
  | some index =>
    obtain ⟨hlt, hfree, -⟩ := findIdx?_eq_some_iff_getElem.mp hfind
    refine .inr ⟨index, list[index], getElem?_eq_getElem hlt, ?_, rfl⟩
    rwa [Bool.not_eq_true'] at hfree

/-- What allocating a handle may come to: an error, or a handle that was not open is. In both cases
the list may have grown. -/
def Allocation (s : Sys δ) (list : List Handle) (result : Except Stop UInt32 × Sys δ) : Prop :=
  ∃ u list', SameModule s u ∧ Counted u list' ∧ Extends list list' ∧ u.handleMaxCount ≠ 0 ∧
    ((∃ e, result = (.error e, u)) ∨
    ∃ index handle, list'[index]? = some handle ∧ handle.isValid = false ∧
      result = (.ok (.ofNat index), { u with
        handleList := some (list'.modify index ({ · with isValid := true })) }))

theorem Allocation.take {u : Sys δ} (hsame : SameModule s u)
    (hcounted : Counted u list') (hextends : Extends list list') (hsome : u.handleMaxCount ≠ 0) :
    Allocation s list (takeFreeHandle u) := by
  refine ⟨u, list', hsame, hcounted, hextends, hsome, ?_⟩
  rcases takeFreeHandle_cases hcounted.eq with herror | htaken
  · exact .inl ⟨_, herror⟩
  · exact .inr htaken

theorem Counted.le (h : Counted s list) : s.handleCount.toNat ≤ s.handleMaxCount.toNat := by
  rw [h.count, ← h.capacity]
  exact countP_le_length

/-- **Allocating a handle.** -/
theorem handleAllocate_cases (h : Counted s list) (hsome : s.handleMaxCount ≠ 0) (free : UInt32) :
    Allocation s list (xcfgHandleAllocate w free s) := by
  have hle := h.le
  have hpos : 0 < s.handleMaxCount.toNat :=
    Nat.pos_of_ne_zero fun hno => hsome (UInt32.toNat_inj.mp hno)
  rw [xcfgHandleAllocate, bind_run (get_ok.mpr ⟨rfl, rfl⟩)]
  split
  · next hge =>
    have hfull : s.handleCount = s.handleMaxCount :=
      UInt32.toNat_inj.mp (Nat.le_antisymm hle (UInt32.le_iff_toNat_le.mp hge))
    have hinit : xcfgHandleInit w s = growHandles w s.handleMaxCount list s := by
      rw [xcfgHandleInit, bind_run (get_ok.mpr ⟨rfl, rfl⟩)]
      refine (congrFun (if_pos hsome) s).trans ?_
      rw [h.eq]
      exact congrFun (if_pos hfull) s
    rcases growHandles_cases (w := w) s s.handleMaxCount list with
      ⟨e, m, hgrow, hm⟩ | ⟨m, hgrow, hm, hdouble⟩
    · rw [bind_error (hinit.trans hgrow)]
      exact ⟨{ s with machine := m }, list, ⟨rfl, rfl, rfl, rfl, rfl, rfl, hm⟩,
        ⟨h.eq, h.capacity, h.count⟩,
        .refl list, hsome, .inl ⟨e, rfl⟩⟩
    · rw [bind_run (hinit.trans hgrow), bind_run (get_ok.mpr ⟨rfl, rfl⟩)]
      have hroom : ¬ s.handleCount ≥ s.handleMaxCount * 2 := by
        intro hno
        have := UInt32.le_iff_toNat_le.mp hno
        omega
      split
      · next hno => exact absurd hno hroom
      · refine .take ⟨rfl, rfl, rfl, rfl, rfl, rfl, hm⟩ ⟨rfl, ?_, ?_⟩ (.append list _) ?_
        · rw [length_append, length_replicate, h.capacity]
          exact hdouble.symm
        · rw [openHandles, countP_append, countP_replicate]
          exact h.count
        · intro hno
          have hzero := congrArg UInt32.toNat hno
          rw [hdouble] at hzero
          have : s.handleMaxCount.toNat + s.handleMaxCount.toNat = 0 := hzero
          omega
  · exact .take ⟨rfl, rfl, rfl, rfl, rfl, rfl, rfl⟩ h (.refl list) hsome

theorem KeepsOpen.of_extends (hs : s.handleList = some list)
    (ht : t.handleList = some list') (h : Extends list list') : KeepsOpen s t := by
  intro i handle hi hvalid
  rw [hs] at hi
  rw [ht]
  exact h i handle hi hvalid

/-- A handle is opened: it was not open, and is now, on the item. -/
theorem Counted.opened (h : Counted s list) (item : UInt64)
    (hindex : list[index]? = some handle) (hfree : handle.isValid = false)
    (ht : t.handleList = some (list.modify index fun _ => ⟨item, true⟩))
    (hmax : t.handleMaxCount = s.handleMaxCount) (hcount : t.handleCount = s.handleCount + 1) :
    Counted t (list.modify index fun _ => ⟨item, true⟩) := by
  have hopen := openHandles_modify (f := fun _ => ⟨item, true⟩) hindex hfree rfl
  refine ⟨ht, ?_, ?_⟩
  · rw [length_modify, hmax, h.capacity]
  · have hlt : s.handleCount.toNat + 1 < 2 ^ 32 := by
      have hle : openHandles (list.modify index fun _ => ⟨item, true⟩) ≤ _ := countP_le_length
      rw [hopen, ← h.count, length_modify, h.capacity] at hle
      exact Nat.lt_of_le_of_lt hle s.handleMaxCount.toNat_lt
    rw [hopen, hcount, ← h.count, UInt32.toNat_add]
    exact Nat.mod_eq_of_lt hlt

/-- The handle list after a call, in which open handles stay open on their items. -/
structure KeepsHandles (s : Sys δ) (list : List Handle) (t : Sys δ)
    (list' : List Handle) : Prop where
  same : SameModule s t
  counted : Counted t list'
  some : t.handleMaxCount ≠ 0
  extends_ : Extends list list'

/-- What opening an item comes to: there is none of that name, or no handle is to be had, or it is
the first item of that name to which a handle that was not open is bound. -/
inductive Opened (w : Outside δ) (s : Sys δ) (items : List UInt64) (metadata : Metadata)
    (name : List UInt8)
    (handle : UInt32) : Except Stop (UInt32 × UInt32) → Sys δ → Prop
  | missing (hfind : items.findIdx? (metadata.hasName name) = none) :
      Opened w s items metadata name handle (.error (.status .openErr)) s
  | failed {item : Nat} {e : Stop} {u : Sys δ}
      (hfind : items.findIdx? (metadata.hasName name) = some item)
      (hfailed : xcfgHandleAllocate w handle s = (.error e, u)) :
      Opened w s items metadata name handle (.error e) u
  | opened {item index : Nat} {t u : Sys δ}
      (hfind : items.findIdx? (metadata.hasName name) = some item)
      (htaken : xcfgHandleAllocate w handle s = (.ok (.ofNat index), u))
      (hindex : ∃ list, t.handleList = some list ∧ list[index]? = some ⟨.ofNat item, true⟩)
      (hlt : index < 2 ^ 32) :
      Opened w s items metadata name handle
        (.ok (.ofNat index, metadata.entrySize (items.getD item 0))) t

/-- **Opening an item** of a module that is initialised. -/
theorem open_cases (hinit : s.isInitialized = true) {items : List UInt64} {metadata : Metadata}
    (hitems : s.configEntryList = some items) (hmetadata : s.metadataBuff = some metadata)
    (hcounted : Counted s list) (hsome : s.handleMaxCount ≠ 0) (name : List UInt8)
    (handle : UInt32) :
    Opened w s items metadata name handle (xblconfigOpen w (some name) handle s).1
        (xblconfigOpen w (some name) handle s).2 ∧
      ∃ list', KeepsHandles s list (xblconfigOpen w (some name) handle s).2 list' := by
  have hkept : ∃ list', KeepsHandles s list s list' :=
    ⟨list, ⟨rfl, rfl, rfl, rfl, rfl, rfl, rfl⟩, hcounted, hsome, .refl list⟩
  have hbreak := breakIf_run (e := Stop.status .uninitialized)
    (show (!s.isInitialized) = false by rw [hinit]; rfl) s
  rw [xblconfigOpen, bind_run (get_ok.mpr ⟨rfl, rfl⟩), bind_run hbreak, hitems, hmetadata]
  dsimp only
  cases hfind : items.findIdx? (metadata.hasName name) with
  | none => exact ⟨.missing hfind, hkept⟩
  | some item =>
    dsimp only
    obtain ⟨u, list', hmodule, hcounted', hextends, hmax, hresult⟩ :=
      handleAllocate_cases (w := w) hcounted hsome handle
    rcases hresult with ⟨e, hfailed⟩ | ⟨index, taken, hindex, hfree, htaken⟩
    · rw [bind_error hfailed]
      exact ⟨.failed hfind hfailed, list', hmodule, hcounted', hmax, hextends⟩
    · rw [bind_run htaken]
      have hlt : index < 2 ^ 32 := by
        have hlt := (List.getElem?_eq_some_iff.mp hindex).1
        rw [hcounted'.capacity] at hlt
        exact Nat.lt_trans hlt u.handleMaxCount.toNat_lt
      have hlist : ((list'.modify index ({ · with isValid := true })).modify
          (UInt32.ofNat index).toNat ({ · with configEntryIndex := .ofNat item })) =
          list'.modify index fun _ => ⟨.ofNat item, true⟩ := by
        rw [UInt32.toNat_ofNat_of_lt' hlt, modify_modify_eq]
        rfl
      rw [bind_run (update_run _ _)]
      refine ⟨.opened hfind htaken ⟨_, congrArg some hlist, ?_⟩ hlt, _, ⟨hmodule.initialized,
        hmodule.metadata, hmodule.entries, hmodule.elfInfo, hmodule.moved, hmodule.whitelist,
        hmodule.images⟩, hcounted'.opened (.ofNat item) hindex hfree
          (congrArg some hlist) rfl rfl, hmax,
        hextends.trans (.modify _ hindex hfree)⟩
      rw [getElem?_modify_eq, hindex]
      rfl

/-- **Opening an item** keeps the module in order, and open handles on their items. -/
theorem open_on (hon : On s) (name : Option (List UInt8)) (handle : UInt32) :
    On (xblconfigOpen w name handle s).2 ∧ KeepsOpen s (xblconfigOpen w name handle s).2 := by
  obtain ⟨list, hcounted⟩ := hon.handles
  cases name with
  | none => exact ⟨hon, fun _ _ h _ => h⟩
  | some name =>
    obtain ⟨items, hitems⟩ := isSome_iff_exists.mp hon.entries
    obtain ⟨metadata, hmetadata⟩ := isSome_iff_exists.mp hon.metadata
    obtain ⟨-, list', hkeeps⟩ :=
      open_cases (w := w) hon.initialized hitems hmetadata hcounted hon.some name handle
    exact ⟨hon.of_same hkeeps.same hkeeps.counted hkeeps.some,
      .of_extends hcounted.eq hkeeps.counted.eq hkeeps.extends_⟩

theorem openHandles_set {list : List Handle} (hindex : list[index]? = some handle)
    (hopen : handle.isValid = true) :
    openHandles (list.set index ⟨0, false⟩) = openHandles list - 1 := by
  obtain ⟨hlt, rfl⟩ := List.getElem?_eq_some_iff.mp hindex
  rw [openHandles, countP_set hlt, if_pos hopen, if_neg Bool.false_ne_true]
  rfl

/-- **Closing an item** leaves the other handles. -/
theorem close_cases (hinit : s.isInitialized = true) (hcounted : Counted s list)
    (hsome : s.handleMaxCount ≠ 0) (handle : UInt32) :
    SameModule s (xblconfigClose handle s).2 ∧ (xblconfigClose handle s).2.handleMaxCount ≠ 0 ∧
      ∃ list', Counted (xblconfigClose handle s).2 list' := by
  have hkept : SameModule s s ∧ s.handleMaxCount ≠ 0 ∧ ∃ list', Counted s list' :=
    ⟨⟨rfl, rfl, rfl, rfl, rfl, rfl, rfl⟩, hsome, list, hcounted⟩
  rw [xblconfigClose, bind_run (get_ok.mpr ⟨rfl, rfl⟩)]
  rcases hbad : decide (handle ≥ s.handleMaxCount) || decide (s.handleCount = 0) with _ | _
  · have hinit : (!s.isInitialized) = false := by
      rw [hinit]
      rfl
    rw [bind_run (breakIf_run rfl s), bind_run (breakIf_run hinit s),
      bind_run (deref_run hcounted.eq)]
    rcases hvalid : !(list.getD handle.toNat ⟨0, false⟩).isValid with _ | _
    · rw [bind_run (breakIf_run rfl s), update_run]
      rw [Bool.not_eq_false', getD_eq_getElem?_getD] at hvalid
      cases hindex : list[handle.toNat]? with
      | none =>
        rw [hindex] at hvalid
        nomatch hvalid
      | some taken =>
        rw [hindex] at hvalid
        have hsome' : s.handleCount ≠ 0 := of_decide_eq_false (Bool.or_eq_false_iff.mp hbad).2
        have hone : (1 : UInt32) ≤ s.handleCount :=
          UInt32.le_iff_toNat_le.mpr
            (Nat.pos_of_ne_zero fun hno => hsome' (UInt32.toNat_inj.mp hno))
        have hclosed : Counted { s with
            handleList := some (list.set handle.toNat ⟨0, false⟩)
            handleCount := s.handleCount - 1 }
            (list.set handle.toNat ⟨0, false⟩) := by
          refine ⟨rfl, ?_, ?_⟩
          · rw [length_set, hcounted.capacity]
          · rw [openHandles_set hindex hvalid, ← hcounted.count]
            exact UInt32.toNat_sub_of_le _ _ hone
        exact ⟨⟨rfl, rfl, rfl, rfl, rfl, rfl, rfl⟩, hsome, _, hclosed⟩
    · exact hkept
  · exact hkept

/-- **Closing an item** keeps the module in order. -/
theorem close_on (hon : On s) (handle : UInt32) : On (xblconfigClose handle s).2 := by
  obtain ⟨list, hcounted⟩ := hon.handles
  obtain ⟨hsame, hsome, list', hcounted'⟩ := close_cases hon.initialized hcounted hon.some handle
  exact hon.of_same hsame hcounted' hsome

end

/-! ## Reading -/

section
variable {δ : Type} [DecidableEq δ] {digest : List UInt8 → δ} {s t : Sys δ} {w : Outside δ}
  {configHandle readOffset size : UInt32} {buffer : Bool} {e : Call × Outside δ}

/-- A read in bounds, of a range that verifies, in which nothing fails. -/
structure ReadFine (digest : List UInt8 → δ) (w : Outside δ) (s : Sys δ)
    (configHandle readOffset size : UInt32) : Prop where
  fine : w.Fine
  inside : ∀ metadata entry, ItemAt s configHandle metadata entry →
    readOffset ≤ metadata.entrySize entry ∧ readOffset + size ≤ metadata.entrySize entry
  /-- The start does not wrap, and the range verifies. -/
  verifies : ∀ metadata entry, ItemAt s configHandle metadata entry → ∀ start,
    start = s.metadataStartOffset + (metadata.entryOffset entry).toUInt64 + readOffset.toUInt64 →
    s.metadataStartOffset ≤ start ∧ start ≤ xcfgUint32Max ∧
    ∃ index seg table, Verifies digest w.storage s.elfInfo start size.toUInt64
      (w.storage.read start.toNat size.toNat) index seg table

theorem verifiedRead_run {v : World} (h : v.Fine) {elf : ElfInfo δ} {start size : UInt64}
    (hsome : size ≠ 0)
    (hstart : start ≤ xcfgUint32Max) (hsize : size ≤ xcfgUint32Max) {index : Nat}
    {seg : SegmentInfo} {table : Nat → δ}
      (hv : Verifies digest v.storage elf start size (v.storage.read start.toNat size.toNat)
      index seg table) (m : Machine) :
    ∃ m', xcfgVerifiedConfigDataRead digest v elf start size m =
        (.ok (v.storage.read start.toNat size.toNat), m') ∧ m'.openImages = m.openImages := by
  obtain ⟨m', hvalidate⟩ := hv.validates h { m with tick := m.tick + 2 }
  refine ⟨m', ?_, (xcfgValidateData_kept hvalidate).2⟩
  rw [xcfgVerifiedConfigDataRead, bind_run (breakIf_run (decide_eq_false hsome) m),
    bind_run (xcfgGetData_fine h hsome hstart hsize m), bind_run hvalidate]
  rfl

/-- **A read** leaves the module as it was, with the whitelist empty and its images closed. -/
theorem read_on (hon : On s)
      (hclean : Rejected s configHandle readOffset size buffer ∨ Refused w s ∨
      ReadFine digest w s configHandle readOffset size) :
    ∃ m whitelist, (xblconfigRead digest w configHandle readOffset size buffer s).2 =
        { s with machine := m, whitelist } ∧
      m.openImages = s.machine.openImages ∧ whitelist.currImageWhitelstTbl = .zero := by
  have hkept : ∃ m whitelist, s = { s with machine := m, whitelist } ∧
      m.openImages = s.machine.openImages ∧ whitelist.currImageWhitelstTbl = .zero :=
    ⟨s.machine, s.whitelist, rfl, rfl, hon.whitelist⟩
  obtain ⟨list, hcounted⟩ := hon.handles
  have hinit : (!s.isInitialized) = false := by
    rw [hon.initialized]
    rfl
  rw [xblconfigRead, bind_run (get_ok.mpr ⟨rfl, rfl⟩), bind_run (breakIf_run hinit s)]
  -- the checks before the whitelist
  rcases hbuffer : !buffer with _ | _
  case true => exact hkept
  rw [bind_run (breakIf_run rfl s)]
  rcases hsize : decide (size = 0) with _ | _
  case true => exact hkept
  rw [bind_run (breakIf_run rfl s)]
  rcases hhandle : decide (configHandle ≥ s.handleMaxCount) with _ | _
  case true => exact hkept
  rw [bind_run (breakIf_run rfl s), bind_run (deref_run hcounted.eq)]
  dsimp only
  rcases hvalid : !(list.getD configHandle.toNat ⟨0, false⟩).isValid with _ | _
  case true => exact hkept
  rw [bind_run (breakIf_run rfl s)]
  rcases hwrap : decide (readOffset + size < size) with _ | _
  case true => exact hkept
  rw [bind_run (breakIf_run rfl s)]
  rw [Bool.not_eq_false'] at hvalid hbuffer
  rcases Classical.em (Refused w s) with hrefused | hallowed
  · obtain ⟨whitelist, hallow, hzero⟩ := addrValidationInit_refused hrefused
    rw [bind_error hallow]
    exact ⟨s.machine, whitelist, rfl, rfl, hzero⟩
  · have hfine : ReadFine digest w s configHandle readOffset size := by
      rcases hclean with hrejected | hrefused | hfine
      · rw [Rejected] at hrejected
        rcases hrejected with hno | hno | hno | hno | hno | hno
        · rw [hon.initialized] at hno
          nomatch hno
        · rw [hbuffer] at hno
          nomatch hno
        · exact absurd hno (of_decide_eq_false hsize)
        · exact absurd hno (of_decide_eq_false hhandle)
        · have := hno list hcounted.eq
          rw [hvalid] at this
          nomatch this
        · exact absurd hno (of_decide_eq_false hwrap)
      · exact absurd hrefused hallowed
      · exact hfine
    obtain ⟨whitelist, hallow⟩ := addrValidationInit_run hallowed
    obtain ⟨items, hitems⟩ := isSome_iff_exists.mp hon.entries
    obtain ⟨metadata, hmetadata⟩ := isSome_iff_exists.mp hon.metadata
    have hitem : ItemAt s configHandle metadata
        (items.getD (list.getD configHandle.toNat ⟨0, false⟩).configEntryIndex.toNat 0) := by
      rw [getD_eq_getElem?_getD] at hvalid
      cases hindex : list[configHandle.toNat]? with
      | none =>
        rw [hindex] at hvalid
        nomatch hvalid
      | some taken =>
        rw [hindex] at hvalid
        have htaken : list.getD configHandle.toNat ⟨0, false⟩ = taken := by
          rw [getD_eq_getElem?_getD, hindex]
          rfl
        exact ⟨⟨list, taken, items, hcounted.eq, hindex, hvalid, hitems, by rw [htaken]⟩, hmetadata⟩
    obtain ⟨hoffset, hend⟩ := hfine.inside _ _ hitem
    obtain ⟨hstart, hmax, index, seg, table, hverifies⟩ := hfine.verifies _ _ hitem _ rfl
    have hinside := Bool.or_eq_false_iff.mpr ⟨decide_eq_false (UInt32.not_lt.mpr hoffset),
      decide_eq_false (UInt32.not_lt.mpr hend)⟩
    have hsome : size.toUInt64 ≠ 0 := by
      intro hzero
      have := congrArg UInt64.toNat hzero
      rw [UInt32.toNat_toUInt64] at this
      exact of_decide_eq_false hsize (UInt32.toNat_inj.mp this)
    have hsize64 : size.toUInt64 ≤ xcfgUint32Max := by
      rw [UInt64.le_iff_toNat_le, UInt32.toNat_toUInt64]
      exact Nat.le_of_lt_succ size.toNat_lt
    obtain ⟨m, hread, himages⟩ := verifiedRead_run hfine.fine hsome hmax hsize64 hverifies s.machine
    rw [bind_run hallow, bind_run (deref_run hitems), bind_run (deref_run hmetadata),
      bind_run (breakIf_run hinside _), bind_run
        (breakIf_run (decide_eq_false (UInt64.not_lt.mpr hstart)) _),
      bind_run (onMachine_run (s := { s with whitelist }) hread)]
    exact ⟨m, bootInvalidateImgWhitelist whitelist, rfl, himages, rfl⟩

/-! ## Deinitialising -/

omit [DecidableEq δ] in
theorem deinit_off (hoff : Off s) : Off (xblconfigDeinit w s).2 := by
  have himage : xcfgImageInterfaceDeinit w s = (.ok (), s) := by
    rw [xcfgImageInterfaceDeinit, bind_run (freeStatic_null (by rw [hoff.elfInfo]; rfl)),
      freeStatic_null (by rw [hoff.elfInfo]; rfl)]
  rw [xblconfigDeinit, bind_run (freeStatic_null (congrArg isSome hoff.metadata)),
    bind_run (freeStatic_null (congrArg isSome hoff.entries)),
    bind_run (freeStatic_null (congrArg isSome hoff.handles)), bind_run himage, update_run]
  exact ⟨rfl, hoff.metadata, hoff.entries, hoff.handles, rfl, rfl, hoff.elfInfo,
    hoff.moved, hoff.whitelist,
    hoff.images⟩

omit [DecidableEq δ] in
/-- A deinitialisation that fails at its first block. -/
theorem deinit_refused (hon : On s) (hrefused : w.answers s.machine.tick = false) :
    On (xblconfigDeinit w s).2 := by
  obtain ⟨list, hcounted⟩ := hon.handles
  have hcall : call w.toWorld .memoryFreeErr s.machine =
      (.error (.status .memoryFreeErr), { s.machine with tick := s.machine.tick + 1 }) := by
    have hask :
        ask w.toWorld s.machine = (.ok false, { s.machine with tick := s.machine.tick + 1 }) := by
      rw [ask, hrefused]
    rw [call, bind_run hask]
    rfl
  have hfree : onMachine (xcfgFree w.toWorld) s = (.error (.status .memoryFreeErr),
      { s with machine := { s.machine with tick := s.machine.tick + 1 } }) := by
    rw [onMachine, xcfgFree, bind_error hcall]
  have hfirst : freeStatic w (·.metadataBuff.isSome) (fun s => { s with metadataBuff := none }) s =
      (.error (.status .memoryFreeErr), { s with
        machine := { s.machine with tick := s.machine.tick + 1 } }) := by
    rw [freeStatic, bind_run (get_ok.mpr ⟨rfl, rfl⟩), when_pos hon.metadata, bind_error hfree]
  rw [xblconfigDeinit, bind_error hfirst]
  exact hon.of_same ⟨rfl, rfl, rfl, rfl, rfl, rfl, rfl⟩ ⟨hcounted.eq, hcounted.capacity,
    hcounted.count⟩ hon.some

omit [DecidableEq δ] in
/-- **Deinitialising**, where nothing fails, frees everything. -/
theorem deinit_on (h : w.Fine) (hon : On s) : Off (xblconfigDeinit w s).2 := by
  have hfree : ∀ (s : Sys δ) (isLive : Sys δ → Bool) (clear : Sys δ → Sys δ), isLive s = true → ∃ m,
      freeStatic w isLive clear s = (.ok (), clear { s with machine := m }) ∧
        m.openImages = s.machine.openImages := by
    intro s isLive clear hlive
    obtain ⟨tick, hrun⟩ := freeStatic_run h clear hlive
    exact ⟨_, hrun, rfl⟩
  obtain ⟨list, hcounted⟩ := hon.handles
  obtain ⟨m₁, hmetadata, hm₁⟩ := hfree s (·.metadataBuff.isSome)
    (fun s => { s with metadataBuff := none }) hon.metadata
  obtain ⟨m₂, hentries, hm₂⟩ := hfree { s with machine := m₁, metadataBuff := none }
    (·.configEntryList.isSome) (fun s => { s with configEntryList := none }) hon.entries
  obtain ⟨m₃, hhandles, hm₃⟩ := hfree
    { s with machine := m₂, metadataBuff := none, configEntryList := none } (·.handleList.isSome)
    (fun s => { s with handleList := none }) (congrArg isSome hcounted.eq)
  obtain ⟨m₄, hhash, hm₄⟩ := hfree
    { s with machine := m₃, metadataBuff := none, configEntryList := none, handleList := none }
    (·.elfInfo.hashBuffer.isSome)
    (fun s => { s with elfInfo := { s.elfInfo with hashBuffer := none } })
    hon.elfInfo.1
  obtain ⟨m₅, hsegments, hm₅⟩ := hfree { s with
      machine := m₄, metadataBuff := none, configEntryList := none, handleList := none
      elfInfo := { s.elfInfo with hashBuffer := none } }
    (·.elfInfo.segmentInfo.isSome)
    (fun s => { s with elfInfo := { s.elfInfo with segmentInfo := none } })
    hon.elfInfo.2
  rw [xblconfigDeinit, bind_run hmetadata, bind_run hentries, bind_run hhandles,
    xcfgImageInterfaceDeinit,
    bind_run ((bind_run hhash).trans hsegments), update_run]
  refine ⟨rfl, rfl, rfl, rfl, rfl, rfl, rfl, hon.moved, hon.whitelist, ?_⟩
  rw [← hon.images, ← hm₁, ← hm₂, ← hm₃, ← hm₄]
  exact hm₅

/-! ## Runs -/

/-- The calls after which everything is in order. -/
def Clean (digest : List UInt8 → δ) (s : Sys δ) (call : Call) (w : Outside δ) : Prop :=
  match call with
  | .init => s.isInitialized = true ∨ Refused w s ∨ ∃ before p after, Loads digest w before p after
  | .openItem _ _ | .close _ => True
  | .read configHandle readOffset size buffer => Rejected s configHandle readOffset size buffer ∨
      Refused w s ∨ ReadFine digest w s configHandle readOffset size
  | .deinit => s.isInitialized = false ∨ w.answers 0 = false ∨ w.Fine

/-- Calls that return, and that meet the condition. -/
def CleanStep (digest : List UInt8 → δ) (s : Sys δ) (e : Call × Outside δ) (t : Sys δ) : Prop :=
  Clean digest s e.1 e.2 ∧ Step digest s e t

/-- What the module promises of an initialisation that fails. -/
structure InitUndone (digest : List UInt8 → δ) (s t : Sys δ) : Prop where
  metadata : t.metadataBuff = none
  /-- What has been allocated is freed. -/
  live : t.machine.live = s.machine.live
  statics : t = { s with machine := t.machine, whitelist := t.whitelist }
  /-- The next one goes through, unless there is a reason why it should not. -/
  retry : ∀ w before p after, ¬ Refused w t → Loads digest w before p after →
    ∃ u, perform digest w .init t = (some .success, u) ∧ u.isInitialized = true

/-- What the module promises of a call. -/
def StepSound (digest : List UInt8 → δ) (call : Call) (s t : Sys δ) : Prop :=
  match call with
  | .init => t.isInitialized = false → InitUndone digest s t
  | .openItem _ _ => KeepsOpen s t
  | .read _ _ _ _ =>
    t.whitelist.currImageWhitelstTbl = .zero ∧ t.machine.openImages = s.machine.openImages
  | .close _ | .deinit => True

theorem Step.eq (h : Step digest s e t) :
    t = (perform digest e.2 e.1 s).2 := by
  obtain ⟨status, hperform⟩ := h
  rw [hperform]

/-- A retry of an initialisation goes through. -/
theorem Off.retry (hoff : Off s) {before after : List Phdr} {p : Phdr} (hallowed : ¬ Refused w s)
    (h : Loads digest w before p after) :
    ∃ u, perform digest w .init s = (some .success, u) ∧ u.isInitialized = true := by
  obtain ⟨u, hinit, hon⟩ := init_run hoff.fresh hallowed h
  refine ⟨u, ?_, hon.initialized⟩
  rw [perform, hinit]
  rfl

omit [DecidableEq δ] in
/-- A module that is not initialised opens, reads and closes nothing. -/
theorem open_off (hoff : s.isInitialized = false) (name : Option (List UInt8)) (handle : UInt32) :
    (xblconfigOpen w name handle s).2 = s := by
  cases name with
  | none => rfl
  | some name =>
    have hinit : (!s.isInitialized) = true := by
      rw [hoff]
      rfl
    rw [xblconfigOpen, bind_run (get_ok.mpr ⟨rfl, rfl⟩), hinit, bind_error (breakIf_true _ s)]

theorem read_off (hoff : s.isInitialized = false) :
    (xblconfigRead digest w configHandle readOffset size buffer s).2 = s := by
  have hinit : (!s.isInitialized) = true := by
    rw [hoff]
    rfl
  rw [xblconfigRead, bind_run (get_ok.mpr ⟨rfl, rfl⟩), hinit, bind_error (breakIf_true _ s)]

omit [DecidableEq δ] in
theorem close_off (hoff : s.isInitialized = false) (handle : UInt32) :
    (xblconfigClose handle s).2 = s := by
  have hinit : (!s.isInitialized) = true := by
    rw [hoff]
    rfl
  rw [xblconfigClose, bind_run (get_ok.mpr ⟨rfl, rfl⟩)]
  rcases decide (handle ≥ s.handleMaxCount) || decide (s.handleCount = 0) with _ | _
  · rw [bind_run (breakIf_run rfl s), hinit, bind_error (breakIf_true _ s)]
  · rw [bind_error (breakIf_true _ s)]

/-- An initialisation. -/
theorem init_sound (hs : Off s ∨ On s) (hclean : Clean digest s .init w) :
    (Off (perform digest w .init s).2 ∨ On (perform digest w .init s).2) ∧
      StepSound digest .init s (perform digest w .init s).2 := by
  rcases hs with hoff | hon
  · rcases Classical.em (Refused w s) with hrefused | hallowed
    · obtain ⟨whitelist, hinit, hzero⟩ := init_refused (w := w) digest hoff.fresh hrefused
      have hafter : (perform digest w .init s).2 = { s.fresh with whitelist } := by
        rw [perform, hinit]
      have hoff' : Off { s.fresh with whitelist } := { hoff.fresh with whitelist := hzero }
      rw [hafter]
      exact ⟨.inl hoff', fun _ => ⟨hoff.metadata, rfl, rfl, fun w' before p after => hoff'.retry⟩⟩
    · rcases hclean with hno | hrefused | ⟨before, p, after, hloads⟩
      · rw [hoff.initialized] at hno
        nomatch hno
      · exact absurd hrefused hallowed
      · obtain ⟨u, hinit, hon⟩ := init_run hoff.fresh hallowed hloads
        have hafter : (perform digest w .init s).2 = u := by
          rw [perform, hinit]
        rw [hafter]
        refine ⟨.inr hon, fun hno => ?_⟩
        rw [hon.initialized] at hno
        nomatch hno
  · have hafter : (perform digest w .init s).2 = s.fresh := by
      rw [perform, init_again hon.fresh.initialized]
    rw [hafter]
    refine ⟨.inr hon.fresh, fun hno => ?_⟩
    rw [hon.fresh.initialized] at hno
    nomatch hno

/-- **One call.** -/
theorem cleanStep_sound (hs : Off s ∨ On s) (h : CleanStep digest s e t) :
    (Off t ∨ On t) ∧ StepSound digest e.1 s t := by
  obtain ⟨call, w⟩ := e
  obtain ⟨hclean, hstep⟩ := h
  obtain rfl := hstep.eq
  cases call with
  | init => exact init_sound hs hclean
  | openItem name handle =>
    show (Off (xblconfigOpen w name handle s.fresh).2 ∨
      On (xblconfigOpen w name handle s.fresh).2) ∧
      KeepsOpen s (xblconfigOpen w name handle s.fresh).2
    rcases hs with hoff | hon
    · rw [open_off hoff.fresh.initialized]
      exact ⟨.inl hoff.fresh, fun _ _ h _ => h⟩
    · obtain ⟨hon', hkeeps⟩ := open_on (w := w) hon.fresh name handle
      exact ⟨.inr hon', hkeeps⟩
  | read configHandle readOffset size buffer =>
    show (Off (xblconfigRead digest w configHandle readOffset size buffer s.fresh).2 ∨
        On (xblconfigRead digest w configHandle readOffset size buffer s.fresh).2) ∧
      (xblconfigRead digest w configHandle readOffset size buffer
        s.fresh).2.whitelist.currImageWhitelstTbl =
        .zero ∧
      (xblconfigRead digest w configHandle readOffset size buffer s.fresh).2.machine.openImages =
        s.machine.openImages
    rcases hs with hoff | hon
    · rw [read_off hoff.fresh.initialized]
      exact ⟨.inl hoff.fresh, hoff.whitelist, rfl⟩
    · have hfresh : Rejected s.fresh configHandle readOffset size buffer ∨ Refused w s.fresh ∨
          ReadFine digest w s.fresh configHandle readOffset size :=
        hclean.imp_right (.imp_right fun hfine => ⟨hfine.fine,
          fun metadata entry hitem => hfine.inside metadata entry ⟨hitem.handle, hitem.metadata⟩,
          fun metadata entry hitem => hfine.verifies metadata entry ⟨hitem.handle, hitem.metadata⟩⟩)
      obtain ⟨m, whitelist, hread, himages, hzero⟩ := read_on hon.fresh hfresh
      rw [hread]
      exact ⟨.inr { hon.fresh with
        whitelist := hzero, images := himages.trans hon.images
        handles := hon.fresh.handles.imp fun _ h => ⟨h.eq, h.capacity, h.count⟩ }, hzero, himages⟩
  | close handle =>
    refine ⟨?_, trivial⟩
    show Off (xblconfigClose handle s.fresh).2 ∨ On (xblconfigClose handle s.fresh).2
    rcases hs with hoff | hon
    · rw [close_off hoff.fresh.initialized]
      exact .inl hoff.fresh
    · exact .inr (close_on hon.fresh handle)
  | deinit =>
    refine ⟨?_, trivial⟩
    show Off (xblconfigDeinit w s.fresh).2 ∨ On (xblconfigDeinit w s.fresh).2
    rcases hs with hoff | hon
    · exact .inl (deinit_off hoff.fresh)
    · rcases hclean with hno | hrefused | hfine
      · rw [hon.initialized] at hno
        nomatch hno
      · exact .inr (deinit_refused hon.fresh hrefused)
      · exact .inl (deinit_on hfine hon.fresh)

theorem Off.boot (δ : Type) : Off (.boot δ) := ⟨rfl, rfl, rfl, rfl, rfl, rfl, rfl, rfl, rfl, rfl⟩

/-- **The module survives**, in every run whose calls meet the condition. -/
theorem xblconfig_survives {h : List (Call × Outside δ)}
    (run : Run (CleanStep digest) (.boot δ) h s) :
    Sound s ∧ ∀ call w t, CleanStep digest s (call, w) t → StepSound digest call s t := by
  have hs : Off s ∨ On s := run.state_invariant (P := fun s => Off s ∨ On s)
    (.inl (Off.boot δ)) fun hs hstep => (cleanStep_sound hs hstep).1
  exact ⟨hs.elim Off.sound On.sound, fun call w t hstep => (cleanStep_sound hs hstep).2⟩

end

theorem smallConfig_loads : Loads id smallConfig [] ⟨29, 0, true⟩ [] where
  fine _ := rfl
  usable := ⟨rfl, ⟨64, rfl, by decide⟩, by decide⟩
  phdrs := rfl
  before := nofun
  metaData := ⟨rfl, by decide, by decide, by decide, by decide +kernel⟩
  verifies :=
    ⟨0,
    ⟨0, 29, false⟩, by decide +kernel, rfl, by decide, fun k hk => absurd hk (Nat.not_lt_zero _),
    fun k hk => absurd hk (Nat.not_lt_zero _), by decide +kernel⟩
  version := by decide +kernel

theorem cleanStep_smallInitialized : CleanStep id (.boot _) (.init, smallConfig) smallInitialized :=
  ⟨.inr (.inr ⟨[], _, [], smallConfig_loads⟩), step_smallInitialized.2⟩

theorem cleanStep_smallOpened :
    CleanStep id smallInitialized (.openItem (some [0x61]) 0, smallConfig) smallOpened :=
  ⟨trivial, step_smallOpened.2⟩

/-- An initialisation, and an item that is opened. -/
theorem xblconfig_survives_small : Sound smallOpened ∧
    ∀ call w t, CleanStep id smallOpened (call, w) t →
    StepSound id call smallOpened t :=
  xblconfig_survives (.step (.step .start cleanStep_smallInitialized) cleanStep_smallOpened)

/-- The partition, where one of the calls outside fails. -/
def failing (n : Nat) : Outside (List UInt8) := { smallConfig with answers := fun i => i != n }

/-- A deinitialisation that fails at its second block. -/
def smallFailed : Sys (List UInt8) := (perform id (failing 1) .deinit smallOpened).2

theorem step_smallFailed : Step id smallOpened (.deinit, failing 1) smallFailed :=
  ⟨.memoryFreeErr, eq_of_fst (by decide +kernel)⟩

theorem smallFailed_not_sound : ¬ Sound smallFailed := by
  intro h
  have hnone : smallFailed.metadataBuff.isSome = false := by decide +kernel
  have hsome := (h.allocated (by decide +kernel)).1
  rw [hnone] at hsome
  nomatch hsome

/-- What failures leave behind otherwise: an initialised module without metadata, when a later
block cannot be freed; metadata that has not been verified; a module that cannot be initialised any
more, when there is no memory for the handles; the whitelist of a read that is out of bounds, and
the image of a read that fails. -/
theorem xblconfig_not_survives :
    (∃ h s, Run (Step id) (.boot (List UInt8)) h s ∧ ¬ Sound s) ∧
    (∃ t, Step id (.boot _) (.init, failing 13) t ∧ t.isInitialized = false ∧
      t.metadataBuff.isSome = true) ∧
    (∃ t, Step id (.boot _) (.init, failing 17) t ∧ t.isInitialized = false ∧
      (perform id smallConfig .init t).1 = some .nullPtrErr) ∧
    (∃ t, Step id smallOpened (.read 0 8 1 true, smallConfig) t ∧
      t.whitelist.currImageWhitelstTbl ≠ .zero) ∧
    ∃ t, Step id smallOpened (.read 0 0 1 true, failing 1) t ∧
      t.machine.openImages ≠ smallOpened.machine.openImages :=
  ⟨⟨_, smallFailed,
      .step (.step (.step .start step_smallInitialized.2) step_smallOpened.2) step_smallFailed,
      smallFailed_not_sound⟩,
    ⟨(perform id (failing 13) .init (.boot _)).2, ⟨.verifyErr, eq_of_fst (by decide +kernel)⟩,
      by decide +kernel, by decide +kernel⟩,
    ⟨(perform id (failing 17) .init (.boot _)).2,
      ⟨.memoryAllocationErr, eq_of_fst (by decide +kernel)⟩,
      by decide +kernel, by decide +kernel⟩,
    ⟨(perform id smallConfig (.read 0 8 1 true) smallOpened).2,
      ⟨.invalidSize, eq_of_fst (by decide +kernel)⟩,
      by decide +kernel⟩,
    ⟨(perform id (failing 1) (.read 0 0 1 true) smallOpened).2,
      ⟨.configDataLoadErr, eq_of_fst (by decide +kernel)⟩, by decide +kernel⟩⟩

end XBLConfig
