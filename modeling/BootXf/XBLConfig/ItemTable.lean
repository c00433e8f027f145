import BootXf.XBLConfig.Survives

/-!
# The table of config items

`xblconfig_init` goes through the records of the metadata, whose lengths the records themselves
give, and `xblconfig_open` compares a name with as many characters as a record says its own name
has.

`itemTable_iff` says for which metadata the table that an initialisation leaves is right, and for
which names an item is opened exactly when there is one of that name.
-/

namespace XBLConfig

open Lib Checked XBLLoader List

/-! ## What the table shall be -/

section
variable {δ : Type}

/-- Where a record with its name ends, from the start of the metadata on. -/
def Metadata.recordEnd (d : Metadata) (offset : Nat) : Nat :=
  offset + 16 + (d.entryNameLen (d.addr + .ofNat offset)).toNat

/-- Where the next record starts: the length of the name is rounded up to a multiple of eight. -/
def Metadata.nextRecord (d : Metadata) (offset : Nat) : Nat :=
  offset + 16 + ((d.entryNameLen (d.addr + .ofNat offset)).toNat + 7) / 8 * 8

/-- So many records, the first one at an offset, lie in the metadata. -/
def Metadata.Records (d : Metadata) : Nat → Nat → Prop
  | 0, _ => True
  | n + 1, offset => d.recordEnd offset ≤ d.data.length ∧ d.Records n (d.nextRecord offset)

/-- The metadata has the version that is supported, and holds its records. -/
structure Metadata.WellFormed (d : Metadata) : Prop where
  major : d.majorVersion = 1
  minor : d.minorVersion = 1
  records : d.Records d.numberOfEntries.toNat 12

/-- The pointers are to records in the metadata, each behind the one before. -/
def Metadata.Laid (d : Metadata) : Nat → List UInt64 → Prop
  | _, [] => True
  | offset, entry :: entries => entry = d.addr + .ofNat offset ∧
    d.recordEnd offset ≤ d.data.length ∧
    d.Laid (d.nextRecord offset) entries

/-- What an initialisation that succeeds shall leave. -/
def InitRight (s : Sys δ) : Prop :=
  ∃ d entries, s.metadataBuff = some d ∧ s.configEntryList = some entries ∧
    d.majorVersion = 1 ∧ d.minorVersion = 1 ∧ entries.length = d.numberOfEntries.toNat ∧
      d.Laid 12 entries

/-- The characters of a string. -/
def cString (bytes : List UInt8) : List UInt8 := bytes.takeWhile (· ≠ 0)

/-- The name in a record. -/
def Metadata.entryName (d : Metadata) (entry : UInt64) : List UInt8 :=
  cString ((List.range (d.entryNameLen entry).toNat).map fun i => d.memory (entry + 16 + .ofNat i))

/-- The first item of a name. -/
def Metadata.firstItem (d : Metadata) (entries : List UInt64) (name : List UInt8) : Option Nat :=
  entries.findIdx? fun entry => d.entryName entry = cString name

/-- What opening an item shall come to. -/
def OpenRight (w : Outside δ) (s : Sys δ) (name : List UInt8) (configHandle : UInt32) : Prop :=
  ∃ d entries, s.metadataBuff = some d ∧ s.configEntryList = some entries ∧
    ((∃ answer, (xblconfigOpen w (some name) configHandle s).1 = .ok answer) ↔
      ∃ entry ∈ entries, d.entryName entry = cString name) ∧
    ∀ handle size, (xblconfigOpen w (some name) configHandle s).1 = .ok (handle, size) →
      ∃ item list, d.firstItem entries name = some item ∧ size = d.entrySize (entries.getD item 0) ∧
        (xblconfigOpen w (some name) configHandle s).2.handleList = some list ∧
        list[handle.toNat]? = some ⟨.ofNat item, true⟩

/-! ## When it is -/

/-- The heap has the block for twice as many handles, and takes the old one back. -/
def CanGrow (w : Outside δ) (s : Sys δ) : Prop :=
  ¬ sizeofHandle > 0xFFFFFFFF / s.handleMaxCount ∧
    ¬ s.handleMaxCount * sizeofHandle > 0xFFFFFFFF / 2 ∧
    ∃ m m', xcfgMalloc w.toWorld (s.handleMaxCount * sizeofHandle * 2).toUInt64 s.machine =
      (.ok (), m) ∧
      xcfgFree w.toWorld m = (.ok (), m')

/-- A handle is to be had. -/
def HandleLeft (w : Outside δ) (s : Sys δ) : Prop := s.handleCount < s.handleMaxCount ∨ CanGrow w s

/-- The name of an entry is longer than the one in the record, which does not end before its
length. -/
def Metadata.Shortens (d : Metadata) (entry : UInt64) (name : List UInt8) : Prop :=
  (d.entryName entry).length = (d.entryNameLen entry).toNat ∧ d.entryName entry <+: cString name ∧
    d.entryName entry ≠ cString name

/-- No record whose name only begins the name that is looked for stands before the first one of
that name; and when no handle is left, there is none of that name. -/
def Fits (w : Outside δ) (s : Sys δ) (name : List UInt8) : Prop :=
  ∀ d entries, s.metadataBuff = some d → s.configEntryList = some entries →
    (HandleLeft w s → ∀ i entry, entries[i]? = some entry → d.Shortens entry name →
      ∃ item < i, d.firstItem entries name = some item) ∧
    (¬ HandleLeft w s → d.firstItem entries name = none)

end

/-! ## Strings -/

theorem cString_zero (bytes : List UInt8) : cString (0 :: bytes) = [] := rfl

theorem cString_cons {b : UInt8} (hb : b ≠ 0) (bytes : List UInt8) :
    cString (b :: bytes) = b :: cString bytes :=
  takeWhile_cons_of_pos (decide_eq_true hb)

theorem map_range_succ (f : Nat → UInt8) (n : Nat) :
    (List.range (n + 1)).map f = f 0 :: (List.range n).map fun i => f (i + 1) := by
  rw [range_succ_eq_map, map_cons, map_map]
  rfl

/-- Comparing so many characters compares what both strings have of them. -/
theorem strncmpEq_iff {a b : Nat → UInt8} {n : Nat} :
    strncmpEq a b n = true ↔ cString ((List.range n).map a) = cString ((List.range n).map b) := by
  induction n generalizing a b with
  | zero => exact iff_of_true rfl rfl
  | succ n ih =>
    rw [map_range_succ, map_range_succ, strncmpEq, Bool.and_eq_true, Bool.or_eq_true,
      beq_iff_eq, beq_iff_eq,
      ih]
    by_cases ha : a 0 = 0
    · by_cases hb : b 0 = 0
      · rw [ha, hb, cString_zero, cString_zero]
        exact iff_of_true ⟨rfl, .inl rfl⟩ rfl
      · rw [ha, cString_zero, cString_cons hb]
        exact iff_of_false (fun h => hb h.1.symm) (cons_ne_nil _ _).symm
    · by_cases hb : b 0 = 0
      · rw [hb, cString_zero, cString_cons ha]
        exact iff_of_false (fun h => ha h.1) (cons_ne_nil _ _)
      · rw [cString_cons ha, cString_cons hb, List.cons.injEq, or_iff_right ha]

theorem cString_range (bytes : List UInt8) (n : Nat) :
    cString ((List.range n).map fun i => bytes.getD i 0) = (cString bytes).take n := by
  induction n generalizing bytes with
  | zero => rfl
  | succ n ih =>
    rw [map_range_succ]
    cases bytes with
    | nil => rfl
    | cons b bytes =>
      rw [getD_cons_zero]
      by_cases hb : b = 0
      · rw [hb, cString_zero, cString_zero, take_nil]
      · rw [cString_cons hb, cString_cons hb, take_succ_cons]
        exact congrArg _ (ih bytes)

theorem Metadata.entryName_length (d : Metadata) (entry : UInt64) :
    (d.entryName entry).length ≤ (d.entryNameLen entry).toNat := by
  have hprefix : d.entryName entry <+: (List.range (d.entryNameLen entry).toNat).map _ :=
    takeWhile_prefix _
  have hle := hprefix.length_le
  rw [length_map, length_range] at hle
  exact hle

/-- **Comparing a name**: it is that of the record, or goes on behind it. -/
theorem Metadata.hasName_iff (d : Metadata) (name : List UInt8) (entry : UInt64) :
    d.hasName name entry = true ↔ d.entryName entry = cString name ∨ d.Shortens entry name := by
  rw [Metadata.hasName, strncmpEq_iff, cString_range]
  show (cString name).take (d.entryNameLen entry).toNat = d.entryName entry ↔ _
  have hlen := d.entryName_length entry
  constructor
  · intro htake
    by_cases hshort : (cString name).length ≤ (d.entryNameLen entry).toNat
    · rw [take_of_length_le hshort] at htake
      exact .inl htake.symm
    · refine .inr ⟨?_, ?_, fun heq => ?_⟩
      · rw [← htake, length_take]
        omega
      · rw [← htake]
        exact take_prefix ..
      · rw [heq] at hlen
        exact hshort hlen
  · rintro (heq | ⟨hfull, hprefix, -⟩)
    · rw [heq] at hlen ⊢
      exact take_of_length_le hlen
    · rw [← hfull]
      exact (prefix_iff_eq_take.mp hprefix).symm

/-! ## Records -/

/-- The pointer arithmetic of the loop comes to the next record. -/
theorem nextEntry_eq (entry : UInt64) (nameLen : UInt32) :
    entry + 17 + nameLen.toUInt64 + (if nameLen.toUInt64 % 8 ≠ 0 then 8 - nameLen.toUInt64 % 8
      else nameLen.toUInt64 % 8) - 1 = entry + .ofNat (16 + (nameLen.toNat + 7) / 8 * 8) := by
  have hlt := nameLen.toNat_lt
  have hlen : nameLen.toUInt64.toNat = nameLen.toNat := UInt32.toNat_toUInt64 _
  have hrest : (nameLen.toUInt64 % 8).toNat = nameLen.toNat % 8 := by
    rw [UInt64.toNat_mod, hlen]
    rfl
  have hbytes : (if nameLen.toUInt64 % 8 ≠ 0 then 8 - nameLen.toUInt64 % 8
      else nameLen.toUInt64 % 8).toNat = (nameLen.toNat + 7) / 8 * 8 - nameLen.toNat := by
    by_cases hzero : nameLen.toUInt64 % 8 = 0
    · rw [if_neg (not_not_intro hzero), hrest]
      have hnone := congrArg UInt64.toNat hzero
      rw [hrest] at hnone
      have : nameLen.toNat % 8 = 0 := hnone
      omega
    · rw [if_pos hzero, UInt64.toNat_sub_of_le _ _ (by
        rw [UInt64.le_iff_toNat_le, hrest]
        exact Nat.le_of_lt (Nat.mod_lt _ (by decide))), hrest]
      have hsome : nameLen.toNat % 8 ≠ 0 := fun hno => hzero (UInt64.toNat_inj.mp (hrest.trans hno))
      show 8 - nameLen.toNat % 8 = _
      omega
  rw [← UInt64.toNat_inj, UInt64.toNat_sub, UInt64.toNat_add, UInt64.toNat_add,
    UInt64.toNat_add, hbytes,
    hlen, UInt64.toNat_add, UInt64.toNat_ofNat', show (17 : UInt64).toNat = 17 from rfl,
    show (1 : UInt64).toNat = 1 from rfl]
  omega

section
variable {d : Metadata} {entries : List UInt64} {offset n : Nat}

theorem add_ofNat_add (a : UInt64) (m n : Nat) : a + .ofNat m + .ofNat n = a + .ofNat (m + n) := by
  rw [UInt64.ofNat_add, UInt64.add_assoc]

/-- Records that are pointed to are there. -/
theorem Metadata.Laid.records (h : d.Laid offset entries) : d.Records entries.length offset := by
  induction entries generalizing offset with
  | nil => trivial
  | cons entry entries ih => exact ⟨h.2.1, ih h.2.2⟩

/-- **The loop over the records**: where they lie in the metadata, it finds them. -/
theorem entryPointers_laid (hblock : d.addr.toNat + d.data.length ≤ 2 ^ 64)
    (h : d.Records n offset) :
    (entryPointers d n (d.addr + .ofNat offset)).length = n ∧
      d.Laid offset (entryPointers d n (d.addr + .ofNat offset)) := by
  induction n generalizing offset with
  | zero => exact ⟨rfl, trivial⟩
  | succ n ih =>
    obtain ⟨hend, hrest⟩ := h
    obtain ⟨hlen, hlaid⟩ := ih hrest
    have hnext := nextEntry_eq (d.addr + .ofNat offset) (d.entryNameLen (d.addr + .ofNat offset))
    rw [add_ofNat_add, ← Nat.add_assoc] at hnext
    have htail : (if d.addr + .ofNat (d.nextRecord offset) < d.addr + .ofNat offset then []
        else entryPointers d n (d.addr + .ofNat (d.nextRecord offset))) =
        entryPointers d n (d.addr + .ofNat (d.nextRecord offset)) := by
      cases n with
      | zero => exact ite_self _
      | succ n =>
        -- a further record lies in the block, so that the pointer to it has not wrapped
        have hfurther := hrest.1
        unfold Metadata.recordEnd at hfurther hend
        refine if_neg fun hwrap => ?_
        rw [UInt64.lt_iff_toNat_lt, UInt64.toNat_add, UInt64.toNat_add, UInt64.toNat_ofNat',
          UInt64.toNat_ofNat'] at hwrap
        have hle : offset ≤ d.nextRecord offset := by
          unfold Metadata.nextRecord
          omega
        omega
    have hpointers : entryPointers d (n + 1) (d.addr + .ofNat offset) =
        (d.addr + .ofNat offset) :: entryPointers d n (d.addr + .ofNat (d.nextRecord offset)) := by
      rw [entryPointers, hnext]
      exact congrArg _ htail
    rw [hpointers]
    exact ⟨congrArg Nat.succ hlen, rfl, hend, hlaid⟩

/-- Where no record has been cut off, there is a pointer to each. -/
theorem populate_laid {fresh : List UInt64} (hblock : d.addr.toNat + d.data.length ≤ 2 ^ 64)
    (h : d.Records fresh.length 12) :
    (xcfgPopulateConfigItemList d fresh).length = fresh.length ∧
      d.Laid 12 (xcfgPopulateConfigItemList d fresh) := by
  obtain ⟨hlength, hlaid⟩ := entryPointers_laid hblock h
  have hall : xcfgPopulateConfigItemList d fresh = entryPointers d fresh.length
      (d.addr + .ofNat 12) := by
    show entryPointers d fresh.length (d.addr + .ofNat 12) ++
      fresh.drop (entryPointers d fresh.length (d.addr + .ofNat 12)).length = _
    rw [hlength, drop_length, append_nil]
  rw [hall]
  exact ⟨hlength, hlaid⟩

theorem entryPointers_length (d : Metadata) (n : Nat) (entry : UInt64) :
    (entryPointers d n entry).length ≤ n := by
  induction n generalizing entry with
  | zero => exact Nat.le_refl _
  | succ n ih =>
    have hrest : ∀ (wraps : Prop) [Decidable wraps] (next : UInt64),
        (if wraps then [] else entryPointers d n next).length ≤ n := by
      intro wraps _ next
      split
      · exact Nat.zero_le n
      · exact ih next
    exact Nat.succ_le_succ (hrest _ _)

theorem populate_length (d : Metadata) (fresh : List UInt64) :
    (xcfgPopulateConfigItemList d fresh).length = fresh.length := by
  have := entryPointers_length d fresh.length (d.addr + sizeofHeader)
  rw [xcfgPopulateConfigItemList, length_append, length_drop]
  omega

end

/-! ## An initialisation that succeeds -/

section
variable {σ : Type} {v : World} {e : XblconfigStatus}

/-- An error of a status that is one. -/
theorem status_ne (h : e ≠ .success) : Stop.status e ≠ .status .success :=
  fun heq => h (Stop.status.inj heq)

theorem call_avoids (h : e ≠ .success) :
    Avoids (.status .success) (call v e) :=
  .bind (fun _ _ hrun => by cases hrun) fun _ => .breakIf _ (status_ne h)

theorem verify_avoids : Avoids (.status .success) (verify v) :=
  .bind (fun _ _ hrun => by cases hrun) fun _ => .breakIf _ (by decide)

theorem xcfgMalloc_avoids (size : UInt64) : Avoids (.status .success) (xcfgMalloc v size) :=
  .bind (.breakIf _ (by decide)) fun _ => .bind (call_avoids (by decide)) fun _ => .update _

theorem xcfgFree_avoids : Avoids (.status .success) (xcfgFree v) :=
  .bind (call_avoids (by decide)) fun _ => .update _

theorem thenFree_avoids {p : Code Machine Unit} (hp : Avoids (.status .success) p) :
    Avoids (.status .success) (thenFree v p) := by
  intro m m' hrun
  rcases hfirst : p m with ⟨(e | _) | a, m₁⟩
  · rw [thenFree, hfirst] at hrun
    obtain ⟨heq, -⟩ := Prod.mk.inj hrun
    exact hp m m₁ (hfirst.trans (congrArg (·, m₁) heq))
  · rw [thenFree, hfirst] at hrun
    cases hrun
  · rw [thenFree, hfirst] at hrun
    exact xcfgFree_avoids m₁ m' hrun

theorem orVerifyErr_avoids {α : Type} (p : Code Machine α) :
    Avoids (.status .success) (orVerifyErr p) := by
  intro m m' hrun
  rcases hfirst : p m with ⟨(e | _) | a, m₁⟩
  · rw [orVerifyErr, hfirst] at hrun
    cases hrun
  · rw [orVerifyErr, hfirst] at hrun
    cases hrun
  · rw [orVerifyErr, hfirst] at hrun
    cases hrun

theorem partialHashUpdate_avoids (buff : List UInt8) :
    Avoids (.status .success) (partialHashUpdate v buff) :=
  .bind (call_avoids (by decide)) fun _ => .update _

theorem fullChunks_avoids (fuel : Nat) (start size : UInt64) :
    Avoids (.status .success) (fullChunks v fuel start size) := by
  induction fuel generalizing start size with
  | zero => exact .pure _
  | succ fuel ih =>
    exact .ite (.bind (orVerifyErr_avoids _) fun buff =>
      .bind (partialHashUpdate_avoids buff) fun _ => ih _ _)
      (.pure _)

theorem xcfgVerifyTransientData_avoids (start stop : UInt64) :
    Avoids (.status .success) (xcfgVerifyTransientData v start stop) :=
  .bind (.breakIf _ (by decide)) fun _ => .bind (xcfgMalloc_avoids _) fun _ => thenFree_avoids <|
    .bind (fullChunks_avoids _ _ _) fun _ => .when <| .bind (orVerifyErr_avoids _) fun buff =>
      partialHashUpdate_avoids buff

end

section
variable {δ : Type} [DecidableEq δ] {digest : List UInt8 → δ} {v : World}

theorem xcfgVerifyData_avoids (start size : UInt64) (index : Nat)
    (segmentOffset segmentSize : UInt64)
    (buffer : List UInt8) (hashBuffer : Option (Nat → δ)) : Avoids (.status .success)
      (xcfgVerifyData digest v start size index segmentOffset segmentSize buffer hashBuffer) := by
  cases hashBuffer with
  | none => exact .fail (by decide)
  | some table =>
    exact .bind (.bind (call_avoids (by decide)) fun _ => .update _) fun _ =>
      .bind (.when (xcfgVerifyTransientData_avoids _ _)) fun _ =>
      .bind (partialHashUpdate_avoids _) fun _ => .bind (.breakIf _ (by decide)) fun _ =>
      .bind (.when (xcfgVerifyTransientData_avoids _ _)) fun _ =>
      .bind (call_avoids (by decide)) fun _ => .bind .get fun _ => .breakIf _ (by decide)

theorem itemSegment_avoids (start size : UInt64) (segs : List SegmentInfo) (index : Nat) :
    itemSegment start size segs index ≠ .error (.status .success) := by
  induction segs generalizing index with
  | nil => exact fun hrun => by cases hrun
  | cons seg segs ih =>
    rw [itemSegment]
    split
    · exact fun hrun => by cases hrun
    · split
      · exact fun hrun => by cases hrun
      · exact ih _

theorem xcfgValidateData_avoids (elf : ElfInfo δ) (start size : UInt64) (buffer : List UInt8) :
    Avoids (.status .success) (xcfgValidateData digest v elf start size buffer) := by
  refine .bind (.breakOn ?_) fun _ => .ite (.pure ()) (xcfgVerifyData_avoids _ _ _ _ _ _ _)
  rw [xcfgGetConfigItemSegment]
  split
  · exact fun hrun => by cases hrun
  · exact itemSegment_avoids _ _ _ _

end

section
variable {δ α : Type} {w : Outside δ}

theorem onMachine_avoids {p : Code Machine α} (hp : Avoids (.status .success) p) :
    Avoids (.status .success) (onMachine p : Code (Sys δ) α) := fun s _ hrun =>
  hp s.machine _ (Prod.ext (Prod.mk.inj hrun).1 rfl)

theorem deref_avoids (p : Option α) : Avoids (.status .success) (deref p : Code (Sys δ) α) := by
  cases p with
  | none => exact .breakOn (fun h => by cases h)
  | some a => exact .breakOn (fun h => by cases h)

theorem onError_avoids {p cleanup : Code (Sys δ) Unit} (hp : Avoids (.status .success) p) :
    Avoids (.status .success) (onError p cleanup) := by
  intro s t hrun
  rcases hfirst : p s with ⟨(e | _) | a, u⟩
  · rw [onError, hfirst] at hrun
    obtain ⟨heq, -⟩ := Prod.mk.inj hrun
    exact hp s u (hfirst.trans (congrArg (·, u) heq))
  · rw [onError, hfirst] at hrun
    cases hrun
  · rw [onError, hfirst] at hrun
    cases hrun

theorem freeOrCleanup_avoids : Avoids (.status .success) (freeOrCleanup w) := by
  intro m m' hrun
  rcases hfirst : xcfgFree w.toWorld m with ⟨e | a, m₁⟩
  · rw [freeOrCleanup, hfirst] at hrun
    obtain ⟨heq, -⟩ := Prod.mk.inj hrun
    exact xcfgFree_avoids m m₁ (hfirst.trans (congrArg (·, m₁) heq))
  · rw [freeOrCleanup, hfirst] at hrun
    cases hrun

theorem xcfgLoadAddrValidationInit_avoids :
    Avoids (.status .success) (xcfgLoadAddrValidationInit w) := by
  intro s t hrun
  rcases Classical.em (Refused w s) with hrefused | hallowed
  · obtain ⟨whitelist, hinit, -⟩ := addrValidationInit_refused hrefused
    rw [hinit] at hrun
    cases hrun
  · obtain ⟨whitelist, hinit⟩ := addrValidationInit_run hallowed
    rw [hinit] at hrun
    cases hrun

theorem xcfgImageInterfaceInit_avoids : Avoids (.status .success) (xcfgImageInterfaceInit w) := by
  have hverify : Avoids (.status .success) (onMachine (verify w.toWorld) : Code (Sys δ) Unit) :=
    onMachine_avoids verify_avoids
  refine onError_avoids
    (.bind (.bind .get fun _ => .when (.bind hverify fun _ => .update _)) fun _ =>
    .bind (.bind hverify fun _ => .update _) fun _ => .bind (.breakIf _ (by decide)) fun _ =>
    .bind hverify fun _ => .bind (.breakOn ?_) fun _ => .bind (.breakIf _ (by decide)) fun _ =>
    .bind (onMachine_avoids (xcfgMalloc_avoids _)) fun _ => .bind (.update _) fun _ =>
    .bind (.bind hverify fun _ => .update _) fun _ => .bind hverify fun _ =>
    .bind (.breakIf _ (by decide)) fun _ =>
      .bind (onMachine_avoids (xcfgMalloc_avoids _)) fun _ => .update _)
  split
  · exact fun h => by cases h
  · exact fun h => by cases h

theorem metaDataLoop_avoids (ps : List Phdr) (index : Nat) (found : Option UInt64) :
    Avoids (.status .success) (metaDataLoop w ps index found) := by
  induction ps generalizing index found with
  | nil => exact .pure _
  | cons p ps ih =>
    intro s t hrun
    rw [metaDataLoop] at hrun
    dsimp only at hrun
    rcases hfirst : metaDataBlock w index p found s with ⟨(e | _) | a, u⟩
    · rw [hfirst] at hrun
      cases hrun
    · rw [hfirst] at hrun
      cases hrun
    · rw [hfirst] at hrun
      exact ih _ _ u t hrun

theorem xcfgLoadMetaData_avoids [DecidableEq δ] (digest : List UInt8 → δ) :
    Avoids (.status .success) (xcfgLoadMetaData digest w) := by
  refine .bind xcfgImageInterfaceInit_avoids fun _ =>
    .bind (onMachine_avoids (xcfgMalloc_avoids _)) fun _ =>
    .bind (metaDataLoop_avoids _ _ _) fun _ =>
      .bind (onMachine_avoids freeOrCleanup_avoids) fun _ =>
    .bind .get fun s => ?_
  cases s.metadataBuff with
  | none => exact .bind (.update _) fun _ => .fail (by decide)
  | some metadata =>
    exact .ite (.bind (.update _) fun _ => .fail (by decide)) <|
      .bind (onMachine_avoids (xcfgValidateData_avoids _ _ _ _)) fun _ => .update _

theorem growHandles_avoids (max : UInt32) (list : List Handle) :
    Avoids (.status .success) (growHandles w max list) :=
  .bind (.breakIf _ (by decide)) fun _ => .bind (.breakIf _ (by decide)) fun _ =>
    .bind (onMachine_avoids (xcfgMalloc_avoids _)) fun _ =>
    .bind (onMachine_avoids freeOrCleanup_avoids) fun _ => .update _

theorem xcfgHandleInit_avoids : Avoids (.status .success) (xcfgHandleInit w) := by
  refine .bind .get fun s =>
    .ite ?_ (.bind (.breakIf _ (by decide)) fun _ => .bind (.update _) fun _ =>
    .bind (onMachine_avoids (xcfgMalloc_avoids _)) fun _ => .update _)
  cases s.handleList with
  | none => exact .fail (by decide)
  | some list => exact .ite (growHandles_avoids _ _) (.fail (by decide))

end

section
variable {δ : Type} {w : Outside δ} {s t : Sys δ}

/-- The module is not initialised and has no handles. -/
structure Unopened (s : Sys δ) : Prop where
  initialized : s.isInitialized = false
  handles : s.handleList = none

theorem Unopened.onMachine {α : Type} (p : Code Machine α) :
    Keeps (Unopened (δ := δ)) (onMachine p) :=
  .of_snd fun _ hs => ⟨hs.initialized, hs.handles⟩

theorem Unopened.freeStatic {isLive : Sys δ → Bool} {clear : Sys δ → Sys δ}
    (h : ∀ s, Unopened s → Unopened (clear s)) : Keeps Unopened (freeStatic w isLive clear) :=
  .bind .get fun _ => .when (.bind (Unopened.onMachine _) fun _ => .update h)

theorem Unopened.imageInterfaceInit : Keeps Unopened (xcfgImageInterfaceInit w) := by
  have hverify : Keeps Unopened (XBLConfig.onMachine (verify w.toWorld) : Code (Sys δ) Unit) :=
    Unopened.onMachine _
  refine onError_triple ?_ (Unopened.freeStatic fun _ hs => ⟨hs.initialized, hs.handles⟩)
  have hmove : Keeps Unopened (bootMoveHashSegmentBuffer w) :=
    .bind .get fun _ =>
      .when (.bind hverify fun _ => .update fun _ hs => ⟨hs.initialized, hs.handles⟩)
  have hload : Keeps Unopened (bootElfLoadInitHashSegment w) :=
    .bind hverify fun _ => .update fun _ hs => ⟨hs.initialized, hs.handles⟩
  have hrestore : Keeps Unopened (bootRestoreHashSegmentBuffer w) :=
    .bind hverify fun _ => .update fun _ hs => ⟨hs.initialized, hs.handles⟩
  exact .bind hmove fun _ => .bind hload fun _ => .bind (.breakIf _ _) fun _ =>
    .bind hverify fun _ =>
    .bind (.breakOn _) fun _ => .bind (.breakIf _ _) fun _ => .bind (Unopened.onMachine _) fun _ =>
    .bind (.update fun _ hs => ⟨hs.initialized, hs.handles⟩) fun _ => .bind hrestore fun _ =>
    .bind hverify fun _ => .bind (.breakIf _ _) fun _ => .bind (Unopened.onMachine _) fun _ =>
    .update fun _ hs => ⟨hs.initialized, hs.handles⟩

theorem Unopened.metaDataBlock (index : Nat) (p : Phdr) (found : Option UInt64) :
    Keeps Unopened (metaDataBlock w index p found) := by
  have hread (offset size : UInt64) : Keeps Unopened (xcfgGetBlockData w offset size) :=
    .bind (.breakIf _ _) fun _ => .bind (.breakIf _ _) fun _ =>
      .bind (Unopened.onMachine _) fun _ => .pure _
  have hnote : Keeps Unopened (xcfgImageGetBlockInfo w index p) :=
    .bind (Unopened.onMachine _) fun _ => .update fun _ hs => ⟨hs.initialized, hs.handles⟩
  refine .bind hnote fun _ => ?_
  split
  · refine .bind (hread _ _) fun _ => ?_
    split
    · exact .bind (Unopened.onMachine _) fun _ =>
        .bind (.update fun _ hs => ⟨hs.initialized, hs.handles⟩) fun _ => .bind (hread _ _) fun _ =>
        .bind (.update fun _ hs => ⟨hs.initialized, hs.handles⟩) fun _ => .pure _
    · exact .pure _
  · exact .pure _

/-- The functions that load the metadata leave the handles as they are. -/
theorem Unopened.loadMetaData [DecidableEq δ] (digest : List UInt8 → δ) :
    Keeps Unopened (xcfgLoadMetaData digest w) := by
  have hreset : Keeps Unopened (xcfgImageInterfaceReset : Code (Sys δ) Unit) :=
    .update fun _ hs => ⟨hs.initialized, hs.handles⟩
  refine .bind Unopened.imageInterfaceInit fun _ => .bind (Unopened.onMachine _) fun _ =>
    .bind (metaDataLoop_keeps Unopened.metaDataBlock _ _ _) fun ⟨index, found⟩ =>
    .bind (Unopened.onMachine _) fun _ => .bind .get fun s => ?_
  split
  · exact .bind hreset fun _ => .fail _
  · split
    · exact .bind hreset fun _ => .fail _
    · exact .bind (Unopened.onMachine _) fun _ => hreset

/-- The first list of handles. -/
theorem Unopened.handleInit (h : Unopened s) {u : Unit} (hrun : xcfgHandleInit w s = (.ok u, t)) :
    ∃ m, t = { s with
      machine := m, handleMaxCount := 5, handleList := some (replicate 5 ⟨0, false⟩)
      handleCount := 0 } := by
  obtain ⟨_, _, hget, hrun⟩ := bind_ok.mp hrun
  obtain ⟨rfl, rfl⟩ := get_ok.mp hget
  by_cases hmax : s.handleMaxCount ≠ 0
  · -- there is a count from an initialisation that failed, but no list
    rw [if_pos hmax, h.handles] at hrun
    cases hrun
  rw [if_neg hmax] at hrun
  obtain ⟨-, hrun⟩ := breakIf_bind_ok.mp hrun
  obtain ⟨_, _, hcount, hrun⟩ := bind_ok.mp hrun
  obtain rfl := update_ok.mp hcount
  obtain ⟨_, _, hmalloc, hrun⟩ := bind_ok.mp hrun
  obtain ⟨m, -, rfl⟩ := onMachine_ok.mp hmalloc
  exact ⟨m, (update_ok.mp hrun).symm⟩

end

section
variable {δ : Type} [DecidableEq δ] {digest : List UInt8 → δ} {w : Outside δ} {s t : Sys δ}

/-- An initialisation that finds the module not initialised. -/
theorem Unopened.init :
    Triple Unopened (xblconfigInit digest w) (·.isInitialized = true) Unopened := by
  have hhandles : Triple Unopened (xcfgHandleInit w) (fun _ => True) Unopened := by
    refine .bind_get fun u hu =>
      Triple.mono (P := Unopened) ?_ (fun _ hs => hs ▸ hu) (fun _ hs => hs)
      fun _ hs => hs
    rw [hu.handles]
    split
    · exact (Triple.fail _).mono (fun _ hs => hs) (fun _ _ => trivial) fun _ hs => hs
    · exact .bind (.breakIf _ _) fun _ =>
        .bind (.update fun _ hs => ⟨hs.initialized, hs.handles⟩) fun _ =>
        .bind (Unopened.onMachine _) fun _ => .update fun _ _ => trivial
  refine onError_triple (.bind_get fun u hu => Triple.mono (P := Unopened) ?_ (fun _ hs => hs ▸ hu)
    (fun _ hs => hs) fun _ hs => hs) (Unopened.freeStatic fun _ hs => ⟨hs.initialized, hs.handles⟩)
  rw [if_neg (by rw [hu.initialized]; exact Bool.false_ne_true)]
  exact .bind (.of_snd fun _ hs => ⟨hs.initialized, hs.handles⟩) fun _ =>
    .bind (Unopened.loadMetaData digest)
    fun _ => .bind .get fun _ => .bind (.breakOn _) fun _ => .bind (.breakIf _ _) fun _ =>
    .bind (.update fun _ hs => ⟨hs.initialized, hs.handles⟩) fun _ =>
      .bind (Unopened.onMachine _) fun _ =>
    .bind (.update fun _ hs => ⟨hs.initialized, hs.handles⟩) fun _ => .bind hhandles fun _ =>
    .bind (Q := (·.isInitialized = true)) (.update fun _ _ => rfl) fun _ => .update fun _ hs => hs

/-- A module that is not initialised has no handles. -/
def HandlesOwned (s : Sys δ) : Prop := s.isInitialized = false → s.handleList = none

omit [DecidableEq δ] in
/-- The handles are freed before the module counts as not initialised. -/
theorem HandlesOwned.deinit : Keeps HandlesOwned (xblconfigDeinit w) := by
  have hfree : ∀ {isLive : Sys δ → Bool} {clear : Sys δ → Sys δ} {I : Sys δ → Prop},
      (∀ s m, I s → I { s with machine := m }) → (∀ s, I s → I (clear s)) →
      Keeps I (XBLConfig.freeStatic w isLive clear) := fun hmachine hclear =>
    .bind .get fun _ => .when (.bind (.of_snd fun s hs => hmachine s _ hs) fun _ => .update hclear)
  have hhandles : Triple HandlesOwned (XBLConfig.freeStatic w (·.handleList.isSome)
      fun s => { s with handleList := none }) (·.handleList = none) HandlesOwned := by
    refine .bind_get fun u hu => ?_
    rcases hlive : u.handleList with _ | list
    · rw [when_neg (by show ¬ u.handleList.isSome = true; rw [hlive]; exact Bool.false_ne_true)]
      exact (Triple.pure ()).mono (fun _ hs => hs) (fun _ hs => hs ▸ hlive) fun _ hs => hs ▸ hu
    · rw [when_pos (by show u.handleList.isSome = true; rw [hlive]; rfl)]
      exact .bind (Triple.mono (.of_snd (I := HandlesOwned) fun _ hs => hs) (fun _ hs => hs ▸ hu)
        (fun _ hs => hs) fun _ hs => hs) fun _ => .update fun _ _ => rfl
  have himage : Keeps (·.handleList = none) (xcfgImageInterfaceDeinit w) :=
    .bind (hfree (fun _ _ hs => hs) fun _ hs => hs) fun _ => hfree (fun _ _ hs => hs) fun _ hs => hs
  refine .bind (hfree (fun _ _ hs => hs) fun _ hs => hs) fun _ =>
    .bind (hfree (fun _ _ hs => hs) fun _ hs => hs) fun _ => .bind hhandles fun _ =>
    .bind (himage.mono (fun _ hs => hs) (fun _ hs => hs) fun _ hs _ => hs) fun _ =>
      .update fun _ hs _ => hs

/-- **No run** leaves handles in a module that is not initialised. -/
theorem Unopened.run {h : List (Call × Outside δ)} (run : Run (Step digest) (.boot δ) h s)
    (hoff : s.isInitialized = false) : Unopened s := by
  have hkept : HandlesOwned s := by
    refine run.state_invariant (P := HandlesOwned) (fun _ => rfl) ?_
    rintro s ⟨call, w⟩ t hs hstep
    obtain rfl := hstep.eq
    have hfresh : HandlesOwned s.fresh := hs
    rcases hinit : s.isInitialized with _ | _
    · have hoff : s.fresh.isInitialized = false := hinit
      cases call with
      | init =>
        show HandlesOwned (xblconfigInit digest w s.fresh).2
        rcases hrun : xblconfigInit digest w s.fresh with ⟨e | _, u⟩
        · exact fun _ => (Unopened.init.error ⟨hoff, hfresh hoff⟩ hrun).handles
        · intro hno
          rw [Unopened.init.ok ⟨hoff, hfresh hoff⟩ hrun] at hno
          cases hno
      | openItem name handle =>
        show HandlesOwned (xblconfigOpen w name handle s.fresh).2
        rwa [open_off hoff]
      | read handle offset size buffer =>
        show HandlesOwned (xblconfigRead digest w handle offset size buffer s.fresh).2
        rwa [read_off hoff]
      | close handle =>
        show HandlesOwned (xblconfigClose handle s.fresh).2
        rwa [close_off hoff]
      | deinit => exact HandlesOwned.deinit.snd hfresh
    · have hon : s.fresh.isInitialized = true := hinit
      have howned : ∀ {α : Type} {p : Code (Sys δ) α}, Keeps (·.isInitialized = true) p →
          HandlesOwned (p s.fresh).2 := by
        intro α p hp hoff
        rw [hp.snd hon] at hoff
        cases hoff
      cases call with
      | init =>
        show HandlesOwned (xblconfigInit digest w s.fresh).2
        rw [init_again hon]
        exact hfresh
      | openItem name handle =>
        exact howned (IgnoresHandles.openItem (w := w) (fun _ _ _ _ _ hs => hs) name handle)
      | read handle offset size buffer =>
        exact howned
          (IgnoresMachine.read (w := w) (fun _ _ _ hs => hs) digest handle offset size buffer)
      | close handle => exact howned (IgnoresHandles.close (fun _ _ _ _ _ hs => hs) handle)
      | deinit => exact HandlesOwned.deinit.snd hfresh
  exact ⟨hoff, hkept hoff⟩

/-- The module has its table, and its handles are counted. -/
structure Ready (d : Metadata) (entries : List UInt64) (s : Sys δ) : Prop where
  initialized : s.isInitialized = true
  metadata : s.metadataBuff = some d
  few : entries.length < 2 ^ 16
  entries : s.configEntryList = some entries
  counted : ∃ list, Counted s list
  some : s.handleMaxCount ≠ 0

omit [DecidableEq δ] in
/-- A cleanup does not run after a success. -/
theorem onError_success {p cleanup : Code (Sys δ) Unit}
    (h : statusOf (onError p cleanup s).1 = some .success) :
    ∃ r, p s = (r, (onError p cleanup s).2) ∧ ∀ e, r = .error e → e = .status .success := by
  rcases hrun : p s with ⟨(e | _) | _, u⟩
  · rw [onError, hrun] at h ⊢
    obtain rfl := Option.some.inj h
    exact ⟨_, rfl, fun e he => (Except.error.inj he).symm⟩
  · rw [onError, hrun] at h
    cases h
  · rw [onError, hrun]
    exact ⟨_, rfl, fun e he => by cases he⟩

/-- **An initialisation that succeeds** has either made the table, or has broken off at the
version. -/
theorem init_success (hs : Unopened s) (hrun : perform digest w .init s = (some .success, t)) :
    ∃ d, t.metadataBuff = some d ∧ ((d.majorVersion ≠ 1 ∧ d.minorVersion ≠ 1) ∨
      ∃ fresh, fresh.length = d.numberOfEntries.toNat ∧
        Ready d (xcfgPopulateConfigItemList d fresh) t) := by
  have hfresh : Unopened s.fresh := ⟨hs.initialized, hs.handles⟩
  obtain ⟨hstatus, hafter⟩ := Prod.mk.inj hrun
  obtain ⟨r, hrun, hr⟩ := onError_success hstatus
  rw [show (onError _ _ s.fresh).2 = t from hafter] at hrun
  obtain ⟨_, _, hget, hrun⟩ := Avoids.get.passed hr hrun
  obtain ⟨rfl, rfl⟩ := get_ok.mp hget
  rw [if_neg (by rw [hfresh.initialized]; exact Bool.false_ne_true)] at hrun
  obtain ⟨_, u, hallow, hrun⟩ := xcfgLoadAddrValidationInit_avoids.passed hr hrun
  have hu : Unopened u := by
    obtain rfl := (Prod.mk.inj hallow).2
    exact ⟨hfresh.initialized, hfresh.handles⟩
  obtain ⟨_, u, hload, hrun⟩ := (xcfgLoadMetaData_avoids digest).passed hr hrun
  have hu : Unopened u := (Unopened.loadMetaData digest).ok hu hload
  obtain ⟨_, _, hget, hrun⟩ := Avoids.get.passed hr hrun
  obtain ⟨rfl, rfl⟩ := get_ok.mp hget
  obtain ⟨d, _, hderef, hrun⟩ := (deref_avoids _).passed hr hrun
  obtain ⟨hmetadata, rfl⟩ := deref_ok.mp hderef
  refine ⟨d, ?_⟩
  by_cases hversion : d.majorVersion ≠ 1 ∧ d.minorVersion ≠ 1
  · rw [decide_eq_true hversion, bind_error (breakIf_true _ _)] at hrun
    obtain ⟨-, rfl⟩ := Prod.mk.inj hrun
    exact ⟨hmetadata, .inl hversion⟩
  · rw [bind_run (breakIf_run (decide_eq_false hversion) _), bind_run (update_run _ _)] at hrun
    obtain ⟨_, _, hmalloc, hrun⟩ := (onMachine_avoids (xcfgMalloc_avoids _)).passed hr hrun
    obtain ⟨m, -, rfl⟩ := onMachine_ok.mp hmalloc
    rw [bind_run (update_run _ _)] at hrun
    obtain ⟨_, v, hhandles, hrun⟩ := xcfgHandleInit_avoids.passed hr hrun
    obtain ⟨m', rfl⟩ := Unopened.handleInit (by exact ⟨hu.initialized, hu.handles⟩) hhandles
    rw [bind_run (update_run _ _)] at hrun
    obtain ⟨-, rfl⟩ := Prod.mk.inj hrun
    have hfew : ((List.range d.numberOfEntries.toNat).map w.freshEntry).length =
        d.numberOfEntries.toNat := by
      rw [length_map, length_range]
    refine ⟨hmetadata, .inr ⟨_, hfew, rfl, hmetadata, ?_, rfl, ⟨_, rfl, rfl, rfl⟩, ?_⟩⟩
    · rw [populate_length, hfew]
      exact d.numberOfEntries.toNat_lt
    · exact (by decide : (5 : UInt32) ≠ 0)

omit [DecidableEq δ] in
/-- **The table is right** when the metadata is well formed. -/
theorem initRight_iff {d : Metadata} (hd : t.metadataBuff = some d)
    (hblock : d.addr.toNat + d.data.length ≤ 2 ^ 64)
    (ht : (d.majorVersion ≠ 1 ∧ d.minorVersion ≠ 1) ∨
      ∃ fresh, fresh.length = d.numberOfEntries.toNat ∧
        Ready d (xcfgPopulateConfigItemList d fresh) t) :
    InitRight t ↔ d.WellFormed := by
  constructor
  · rintro ⟨d', entries, hd', -, hmajor, hminor, hlength, hlaid⟩
    obtain rfl := Option.some.inj (hd.symm.trans hd')
    refine ⟨hmajor, hminor, ?_⟩
    rw [← hlength]
    exact hlaid.records
  · intro hwell
    rcases ht with ⟨hmajor, -⟩ | ⟨fresh, hfresh, hready⟩
    · exact absurd hwell.major hmajor
    · have hrecords := hwell.records
      rw [← hfresh] at hrecords
      obtain ⟨hlength, hlaid⟩ := populate_laid hblock hrecords
      exact ⟨d, _, hd, hready.entries, hwell.major, hwell.minor, hlength.trans hfresh, hlaid⟩

end

/-! ## Opening -/

section
variable {δ : Type} {w : Outside δ} {s t : Sys δ} {list : List Handle} {name : List UInt8}

/-- Where not all handles are open, one is found. -/
theorem takeFreeHandle_run (h : Counted s list)
    (hroom : s.handleCount.toNat < s.handleMaxCount.toNat) :
    ∃ index t, takeFreeHandle s = (.ok index, t) := by
  rw [takeFreeHandle, bind_run (get_ok.mpr ⟨rfl, rfl⟩), bind_run (deref_run h.eq)]
  cases hfind : list.findIdx? fun h => !h.isValid with
  | some index => exact ⟨_, _, rfl⟩
  | none =>
    have hall : openHandles list = list.length := by
      rw [openHandles, countP_eq_length]
      intro handle hmem
      have := findIdx?_eq_none_iff.mp hfind handle hmem
      rwa [Bool.not_eq_false'] at this
    rw [h.count, ← h.capacity, hall] at hroom
    exact absurd hroom (Nat.lt_irrefl _)

theorem freeOrCleanup_ok {m m' : Machine} {u : Unit} :
    freeOrCleanup w m = (.ok u, m') ↔ xcfgFree w.toWorld m = (.ok u, m') := by
  rw [freeOrCleanup]
  rcases hfree : xcfgFree w.toWorld m with ⟨e | _, m₁⟩
  · exact iff_of_false (fun h => by cases h) (fun h => by cases h)
  · exact Iff.rfl

/-- The list is doubled when the heap has the block. -/
theorem growHandles_ok : (∃ t, growHandles w s.handleMaxCount list s = (.ok (), t)) ↔
    CanGrow w s := by
  constructor
  · rintro ⟨t, hrun⟩
    obtain ⟨hdiv, hrun⟩ := breakIf_bind_ok.mp hrun
    obtain ⟨hmul, hrun⟩ := breakIf_bind_ok.mp hrun
    obtain ⟨_, _, hmalloc, hrun⟩ := bind_ok.mp hrun
    obtain ⟨m, hblock, rfl⟩ := onMachine_ok.mp hmalloc
    obtain ⟨_, _, hold, -⟩ := bind_ok.mp hrun
    obtain ⟨m', hfree, -⟩ := onMachine_ok.mp hold
    exact ⟨of_decide_eq_false hdiv, of_decide_eq_false hmul, m, m', hblock,
      freeOrCleanup_ok.mp hfree⟩
  · rintro ⟨hdiv, hmul, m, m', hmalloc, hfree⟩
    rw [growHandles, bind_run (breakIf_run (decide_eq_false hdiv) s),
      bind_run (breakIf_run (decide_eq_false hmul) s), bind_run (onMachine_run hmalloc),
      bind_run (onMachine_run (freeOrCleanup_ok.mpr hfree))]
    exact ⟨_, rfl⟩

/-- **A handle is allocated** when one is left. -/
theorem handleAllocate_ok (h : Counted s list) (hsome : s.handleMaxCount ≠ 0) (free : UInt32) :
    (∃ index t, xcfgHandleAllocate w free s = (.ok index, t)) ↔ HandleLeft w s := by
  rw [xcfgHandleAllocate, bind_run (get_ok.mpr ⟨rfl, rfl⟩)]
  by_cases hroom : s.handleCount < s.handleMaxCount
  · rw [if_neg (UInt32.not_le.mpr hroom)]
    exact iff_of_true (takeFreeHandle_run h (UInt32.lt_iff_toNat_lt.mp hroom)) (.inl hroom)
  · have hfull : s.handleCount = s.handleMaxCount :=
      UInt32.toNat_inj.mp
        (Nat.le_antisymm h.le (UInt32.le_iff_toNat_le.mp (UInt32.not_lt.mp hroom)))
    have hinit : xcfgHandleInit w s = growHandles w s.handleMaxCount list s := by
      rw [xcfgHandleInit, bind_run (get_ok.mpr ⟨rfl, rfl⟩)]
      refine (congrFun (if_pos hsome) s).trans ?_
      rw [h.eq]
      exact congrFun (if_pos hfull) s
    rw [if_pos (UInt32.not_lt.mp hroom), HandleLeft, or_iff_right hroom, ← growHandles_ok]
    rcases growHandles_cases (w := w) s s.handleMaxCount list with
        ⟨e, m, hgrow, -⟩ | ⟨m, hgrow, -, hdouble⟩
    · rw [bind_error (hinit.trans hgrow), hgrow]
      refine iff_of_false ?_ ?_
      · rintro ⟨_, _, hno⟩
        cases hno
      · rintro ⟨_, hno⟩
        cases hno
    · refine iff_of_true ?_ ⟨_, hgrow⟩
      have hpos : 0 < s.handleMaxCount.toNat :=
        Nat.pos_of_ne_zero fun hno => hsome (UInt32.toNat_inj.mp hno)
      have hnew : s.handleCount < s.handleMaxCount * 2 := by
        rw [UInt32.lt_iff_toNat_lt, hdouble, hfull]
        exact Nat.lt_add_of_pos_left hpos
      rw [bind_run (hinit.trans hgrow), bind_run (get_ok.mpr ⟨rfl, rfl⟩)]
      split
      · next hno => exact absurd hno (UInt32.not_le.mpr hnew)
      · have hgrown : Counted { s with
            machine := m, handleMaxCount := s.handleMaxCount * 2
            handleList := some (list ++ replicate s.handleMaxCount.toNat ⟨0, false⟩) }
            (list ++ replicate s.handleMaxCount.toNat ⟨0, false⟩) := by
          refine ⟨rfl, ?_, ?_⟩
          · rw [length_append, length_replicate, h.capacity]
            exact hdouble.symm
          · rw [openHandles, countP_append, countP_replicate]
            exact h.count
        exact takeFreeHandle_run hgrown (UInt32.lt_iff_toNat_lt.mp hnew)

/-- Finding the first with a property finds the first with a narrower one, when none that lacks it
is in front. -/
theorem findIdx?_eq_iff {α : Type} {p q : α → Bool} {r : α → Prop}
    (hp : ∀ a, p a = true ↔ q a = true ∨ r a)
    (hr : ∀ a, r a → q a = false) (l : List α) : l.findIdx? p = l.findIdx? q ↔
      ∀ i a, l[i]? = some a → r a → ∃ j < i, l.findIdx? q = some j := by
  constructor
  · intro heq i a ha hra
    obtain ⟨hi, rfl⟩ := List.getElem?_eq_some_iff.mp ha
    cases hfind : l.findIdx? q with
    | none =>
      have hno := findIdx?_eq_none_iff.mp (heq.trans hfind) _ (getElem_mem hi)
      rw [(hp _).mpr (.inr hra)] at hno
      cases hno
    | some j =>
      obtain ⟨hj, hqj, -⟩ := findIdx?_eq_some_iff_getElem.mp hfind
      obtain ⟨_, _, hfirst⟩ := findIdx?_eq_some_iff_getElem.mp (heq.trans hfind)
      refine ⟨j, ?_, rfl⟩
      rcases Nat.lt_trichotomy j i with hlt | rfl | hgt
      · exact hlt
      · rw [hr _ hra] at hqj
        cases hqj
      · exact absurd ((hp _).mpr (.inr hra)) (hfirst i hgt)
  · intro hnarrow
    cases hfind : l.findIdx? p with
    | none =>
      refine (findIdx?_eq_none_iff.mpr fun a ha => ?_).symm
      have hno := findIdx?_eq_none_iff.mp hfind a ha
      rw [← Bool.not_eq_true] at hno ⊢
      exact fun hq => hno ((hp a).mpr (.inl hq))
    | some i =>
      obtain ⟨hi, hpi, hfirst⟩ := findIdx?_eq_some_iff_getElem.mp hfind
      rcases (hp _).mp hpi with hq | hra
      · exact (findIdx?_eq_some_iff_getElem.mpr
          ⟨hi, hq, fun j hji hqj => hfirst j hji ((hp _).mpr (.inl hqj))⟩).symm
      · obtain ⟨j, hji, hj⟩ := hnarrow i _ (getElem?_eq_getElem hi) hra
        obtain ⟨_, hqj, -⟩ := findIdx?_eq_some_iff_getElem.mp hj
        exact absurd ((hp _).mpr (.inl hqj)) (hfirst j hji)

/-- The first item that is found is the first of the name, when no name is only begun before it. -/
theorem findIdx?_hasName_iff (d : Metadata) (entries : List UInt64) (name : List UInt8) :
    entries.findIdx? (d.hasName name) = d.firstItem entries name ↔
      ∀ i entry, entries[i]? = some entry → d.Shortens entry name →
        ∃ item < i, d.firstItem entries name = some item := by
  refine findIdx?_eq_iff (fun entry => ?_) (fun entry hshort => decide_eq_false hshort.2.2) entries
  rw [d.hasName_iff, decide_eq_true_iff]

/-- There is a first item of a name when there is one. -/
theorem Metadata.firstItem_none {d : Metadata} {entries : List UInt64} :
    d.firstItem entries name = none ↔ ¬ ∃ entry ∈ entries, d.entryName entry = cString name := by
  rw [Metadata.firstItem, findIdx?_eq_none_iff]
  constructor
  · rintro hnone ⟨entry, hmem, heq⟩
    exact of_decide_eq_false (hnone entry hmem) heq
  · intro hno entry hmem
    exact decide_eq_false fun heq => hno ⟨entry, hmem, heq⟩

theorem Metadata.firstItem_lt {d : Metadata} {entries : List UInt64} {item : Nat}
    (h : d.firstItem entries name = some item) : item < entries.length :=
  (findIdx?_eq_some_iff_getElem.mp h).1

/-- What fits is found, or no handle is left for it. -/
theorem fits_iff {d : Metadata} {entries : List UInt64} (hs : Ready d entries s)
    (name : List UInt8) :
    Fits w s name ↔
      (HandleLeft w s → entries.findIdx? (d.hasName name) = d.firstItem entries name) ∧
      (¬ HandleLeft w s → d.firstItem entries name = none) := by
  constructor
  · intro hfits
    obtain ⟨hleft, hnone⟩ := hfits d entries hs.metadata hs.entries
    exact ⟨fun h => (findIdx?_hasName_iff d entries name).mpr (hleft h), hnone⟩
  · rintro ⟨hleft, hnone⟩ d' entries' hd' hentries'
    obtain rfl := Option.some.inj (hs.metadata.symm.trans hd')
    obtain rfl := Option.some.inj (hs.entries.symm.trans hentries')
    exact ⟨fun h => (findIdx?_hasName_iff d entries name).mp (hleft h), hnone⟩

/-- **Opening is right** when the name fits. -/
theorem openRight_iff {d : Metadata} {entries : List UInt64} (hs : Ready d entries s)
    (name : List UInt8) (handle : UInt32) : OpenRight w s name handle ↔ Fits w s name := by
  obtain ⟨list, hcounted⟩ := hs.counted
  have hallocate := handleAllocate_ok (w := w) hcounted hs.some handle
  obtain ⟨hopened, -⟩ :=
    open_cases (w := w) hs.initialized hs.entries hs.metadata hcounted hs.some name handle
  rw [fits_iff hs, OpenRight]
  generalize xblconfigOpen w (some name) handle s = run at hopened ⊢
  obtain ⟨r, t⟩ := run
  dsimp only at hopened ⊢
  constructor
  · rintro ⟨d', entries', hd', hentries', hiff, hbound⟩
    obtain rfl := Option.some.inj (hs.metadata.symm.trans hd')
    obtain rfl := Option.some.inj (hs.entries.symm.trans hentries')
    cases hopened with
    | missing hfind =>
      have hnone := Metadata.firstItem_none.mpr fun hsome => by cases (hiff.mpr hsome).choose_spec
      exact ⟨fun _ => hfind.trans hnone.symm, fun _ => hnone⟩
    | failed hfind hfailed =>
      have hnone := Metadata.firstItem_none.mpr fun hsome => by cases (hiff.mpr hsome).choose_spec
      refine ⟨fun hleft => ?_, fun _ => hnone⟩
      obtain ⟨index, u, htaken⟩ := hallocate.mpr hleft
      cases hfailed.symm.trans htaken
    | @opened item index t u hfind htaken hindex hlt =>
      refine ⟨fun _ => ?_, fun hno => absurd (hallocate.mp ⟨_, _, htaken⟩) hno⟩
      obtain ⟨item', list', hfirst, -, hlist', hbound'⟩ := hbound _ _ rfl
      obtain ⟨list, hlist, hbound⟩ := hindex
      obtain rfl := Option.some.inj (hlist.symm.trans hlist')
      rw [UInt32.toNat_ofNat_of_lt' hlt, hbound] at hbound'
      have hsame :=
        congrArg UInt64.toNat (congrArg Handle.configEntryIndex (Option.some.inj hbound'))
      have hitem : item < 2 ^ 64 := Nat.lt_trans
        (Nat.lt_trans (findIdx?_eq_some_iff_getElem.mp hfind).1 hs.few) (by decide)
      have hitem' : item' < 2 ^ 64 := Nat.lt_trans
        (Nat.lt_trans (Metadata.firstItem_lt hfirst) hs.few) (by decide)
      change (UInt64.ofNat item).toNat = (UInt64.ofNat item').toNat at hsame
      rw [UInt64.toNat_ofNat_of_lt' hitem, UInt64.toNat_ofNat_of_lt' hitem'] at hsame
      rw [hfind, hfirst, hsame]
  · rintro ⟨hleft, hnone⟩
    refine ⟨d, entries, hs.metadata, hs.entries, ?_⟩
    cases hopened with
    | missing hfind =>
      have hno : d.firstItem entries name = none := by
        rcases Classical.em (HandleLeft w s) with hsome | hfull
        · exact (hleft hsome).symm.trans hfind
        · exact hnone hfull
      exact ⟨iff_of_false (fun ⟨_, hok⟩ => by cases hok) (Metadata.firstItem_none.mp hno),
        fun _ _ hok => by cases hok⟩
    | failed hfind hfailed =>
      have hfull : ¬ HandleLeft w s := fun hsome => by
        obtain ⟨index, u, htaken⟩ := hallocate.mpr hsome
        cases hfailed.symm.trans htaken
      exact ⟨iff_of_false (fun ⟨_, hok⟩ => by cases hok) (Metadata.firstItem_none.mp (hnone hfull)),
        fun _ _ hok => by cases hok⟩
    | @opened item index t u hfind htaken hindex hlt =>
      have hfirst := (hleft (hallocate.mp ⟨_, _, htaken⟩)).symm.trans hfind
      refine ⟨iff_of_true ⟨_, rfl⟩ ?_, fun handle' size hok => ?_⟩
      · by_contra hno
        rw [Metadata.firstItem_none.mpr hno] at hfirst
        cases hfirst
      · obtain ⟨rfl, rfl⟩ := Prod.mk.inj (Except.ok.inj hok)
        obtain ⟨list, hlist, hbound⟩ := hindex
        refine ⟨item, list, hfirst, rfl, hlist, ?_⟩
        rwa [UInt32.toNat_ofNat_of_lt' hlt]

end

/-! ## Runs -/

section
variable {δ : Type} [DecidableEq δ] {digest : List UInt8 → δ} {w : Outside δ}
    {s t u : Sys δ} {d : Metadata}
  {entries : List UInt64}

omit [DecidableEq δ] in
theorem Ready.same (h : Ready d entries s) (hsame : SameModule s t)
    (hcounted : ∃ list, Counted t list) (hsome : t.handleMaxCount ≠ 0) : Ready d entries t :=
  ⟨hsame.initialized.trans h.initialized, hsame.metadata.trans h.metadata, h.few,
    hsame.entries.trans h.entries,
    hcounted, hsome⟩

omit [DecidableEq δ] in
/-- Only the machine and the whitelist differ. -/
theorem Ready.after (h : Ready d entries s) (m : Machine) (whitelist : WhitelistState) :
    Ready d entries { s with machine := m, whitelist } :=
  ⟨h.initialized, h.metadata, h.few, h.entries, h.counted.imp fun _ hc =>
    ⟨hc.eq, hc.capacity, hc.count⟩, h.some⟩

/-- Calls that return, and that do not deinitialise the module. -/
def UsingStep (digest : List UInt8 → δ) (s : Sys δ) (e : Call × Outside δ) (t : Sys δ) : Prop :=
  e.1 ≠ .deinit ∧ Step digest s e t

/-- **One call** keeps the table. -/
theorem Ready.step {e : Call × Outside δ} (hs : Ready d entries s) (h : UsingStep digest s e t) :
    Ready d entries t := by
  obtain ⟨call, w⟩ := e
  obtain ⟨hcall, hstep⟩ := h
  obtain rfl := hstep.eq
  have hfresh : Ready d entries s.fresh := hs.after _ s.whitelist
  obtain ⟨list, hcounted⟩ := hfresh.counted
  cases call with
  | init =>
    have hafter : (perform digest w .init s).2 = s.fresh := by
      rw [perform, init_again hfresh.initialized]
    rw [hafter]
    exact hfresh
  | openItem name handle =>
    cases name with
    | none => exact hfresh
    | some name =>
      obtain ⟨-, list', hkeeps⟩ :=
        open_cases (w := w) hfresh.initialized hfresh.entries hfresh.metadata hcounted
        hfresh.some name handle
      exact hfresh.same hkeeps.same ⟨list', hkeeps.counted⟩ hkeeps.some
  | read handle offset size buffer =>
    exact (IgnoresMachine.read (fun _ m whitelist hs => hs.after m whitelist) digest
      handle offset size
      buffer).snd hfresh
  | close handle =>
    obtain ⟨hsame, hsome, hcounted'⟩ := close_cases hfresh.initialized hcounted hfresh.some handle
    exact hfresh.same hsame hcounted' hsome
  | deinit => exact absurd rfl hcall

/-- **Every run** keeps it. -/
theorem Ready.run (ht : Ready d entries t) {h : List (Call × Outside δ)}
    (run : Run (UsingStep digest) t h u) :
    Ready d entries u :=
  run.state_invariant ht fun hs hstep => hs.step hstep

/-- **The table of config items** is right, and an item is opened exactly when there is one of the
name, when the metadata is well formed and the name fits: for any initialisation that succeeds,
after any calls. -/
theorem itemTable_iff {h h' : List (Call × Outside δ)} (before : Run (Step digest) (.boot δ) h s)
    (hoff : s.isInitialized = false) (hinit : perform digest w .init s = (some .success, t))
    (hd : t.metadataBuff = some d) (hblock : d.addr.toNat + d.data.length ≤ 2 ^ 64)
    (after : Run (UsingStep digest) t h' u) (w' : Outside δ) (name : List UInt8) (handle : UInt32) :
    (InitRight t ∧ OpenRight w' u.fresh name handle) ↔ d.WellFormed ∧ Fits w' u.fresh name := by
  obtain ⟨d', hd', htable⟩ := init_success (Unopened.run before hoff) hinit
  obtain rfl := Option.some.inj (hd.symm.trans hd')
  rw [initRight_iff hd hblock htable]
  refine and_congr_right fun hwell => ?_
  rcases htable with ⟨hmajor, -⟩ | ⟨fresh, -, hready⟩
  · exact absurd hwell.major hmajor
  · have hu := hready.run after
    exact openRight_iff (hu.after _ u.whitelist) name handle

end

/-- The partition, with other metadata. -/
def configOf (table : List UInt8) : Outside (List UInt8) := { smallConfig with
  storage := fun i => table.getD i 0
  image := ⟨[⟨.ofNat table.length, 0, true⟩], some 64, true, fun _ => table⟩ }

/-- Metadata of two items, `a` and `bc`. -/
def twoItems : List UInt8 :=
  [0x43, 0x46, 0x47, 0x4C, 1, 1, 2, 0, 0, 0, 0, 0,
    0, 0, 0, 0, 0, 0, 0, 0, 8, 0, 0, 0, 1, 0, 0, 0, 0x61, 0, 0, 0, 0, 0, 0, 0,
    0, 0, 0, 0, 0, 0, 0, 0, 4, 0, 0, 0, 2, 0, 0, 0, 0x62, 0x63]

/-- The module is initialised with these. -/
def twoInitialized : Sys (List UInt8) := (perform id (configOf twoItems) .init (.boot _)).2

/-- The item `a` is open. -/
def twoOpened : Sys (List UInt8) :=
  (perform id (configOf twoItems) (.openItem (some [0x61]) 0) twoInitialized).2
/-- With `a` open, `bc` is opened by its name. -/
theorem itemTable_iff_small : InitRight twoInitialized ∧
    OpenRight (configOf twoItems) twoOpened.fresh [0x62, 0x63] 0 := by
  have hinit : perform id (configOf twoItems) .init (.boot _) = (some .success, twoInitialized) :=
    eq_of_fst (by decide +kernel)
  have hopen :
      UsingStep id twoInitialized (.openItem (some [0x61]) 0, configOf twoItems) twoOpened :=
    ⟨nofun, .success, eq_of_fst (by decide +kernel)⟩
  have hmetadata : (twoInitialized.metadataBuff.map fun d =>
      (d.addr.toNat + d.data.length, d.majorVersion, d.minorVersion, d.numberOfEntries.toNat,
        decide (d.recordEnd 12 ≤ d.data.length ∧ d.recordEnd (d.nextRecord 12) ≤ d.data.length))) =
      some (0x1000 + 54, 1, 1, 2, true) := by
    decide +kernel
  obtain ⟨d, hd, hd'⟩ := Option.map_eq_some_iff.mp hmetadata
  simp only [Prod.mk.injEq, decide_eq_true_eq] at hd'
  obtain ⟨hend, hmajor, hminor, htwo, hfirst, hsecond⟩ := hd'
  refine (itemTable_iff .start rfl hinit hd (hend ▸ by decide) (Run.start.step hopen)
    (configOf twoItems)
    [0x62, 0x63] 0).mpr ⟨⟨hmajor, hminor, htwo ▸ ⟨hfirst, hsecond, trivial⟩⟩,
    fun d' entries hd' hentries => ?_⟩
  have hnames :
      (twoOpened.fresh.metadataBuff.map fun d => (d.entryName 0x100C, d.entryName 0x1024)) =
      some ([0x61], [0x62, 0x63]) := by
    decide +kernel
  have hlist : twoOpened.fresh.configEntryList = some [0x100C, 0x1024] := by decide +kernel
  rw [hd', Option.map_some] at hnames
  obtain ⟨hshort, hsame⟩ := Prod.mk.inj (Option.some.inj hnames)
  obtain rfl := Option.some.inj (hentries.symm.trans hlist)
  refine ⟨fun _ i entry hi hshortens => ?_, fun hnone => absurd (.inl (by decide +kernel)) hnone⟩
  match i, hi with
  | 0, rfl =>
    have hprefix := hshortens.2.1
    rw [hshort] at hprefix
    exact absurd hprefix (by decide)
  | 1, rfl => exact absurd hsame hshortens.2.2

/-- **The table is not always right**: the name `ab` opens the item `a`; metadata of the version
2.2 and a second record behind the end of the metadata pass. -/
theorem itemTable_not_right :
    (∃ t, perform id smallConfig .init (.boot _) = (some .success, t) ∧
      ¬ OpenRight smallConfig t.fresh [0x61, 0x62] 0) ∧
    (∃ t, perform id (configOf ((smallTable.set 4 2).set 5 2)) .init (.boot _) =
      (some .success, t) ∧
      ¬ InitRight t) ∧
    ∃ t, perform id (configOf (smallTable.set 6 2)) .init (.boot _) = (some .success, t) ∧
      ¬ InitRight t := by
  refine ⟨⟨smallInitialized, eq_of_fst (by decide +kernel), ?_⟩,
    ⟨(perform id (configOf ((smallTable.set 4 2).set 5 2)) .init (.boot _)).2,
      eq_of_fst (by decide +kernel), ?_⟩,
    ⟨(perform id (configOf (smallTable.set 6 2)) .init (.boot _)).2,
      eq_of_fst (by decide +kernel), ?_⟩⟩
  · rintro ⟨d, entries, hd, hentries, hiff, -⟩
    have hentry : smallInitialized.fresh.configEntryList = some [0x100C] := by decide +kernel
    have hname : (smallInitialized.fresh.metadataBuff.map (·.entryName 0x100C)) = some [0x61] := by
      decide +kernel
    have hopened : (xblconfigOpen smallConfig (some [0x61, 0x62]) 0 smallInitialized.fresh).1 = .ok
        (0, 8) := by
      decide +kernel
    obtain ⟨entry, hmem, heq⟩ := hiff.mp ⟨_, hopened⟩
    obtain rfl := Option.some.inj (hentries.symm.trans hentry)
    obtain rfl := mem_singleton.mp hmem
    rw [hd] at hname
    have hother : d.entryName 0x100C = [0x61] := Option.some.inj hname
    rw [hother] at heq
    exact absurd heq (by decide)
  · rintro ⟨d, -, hd, -, hmajor, -⟩
    have hversion : ((perform id (configOf ((smallTable.set 4 2).set 5 2)) .init
        (.boot _)).2.metadataBuff.map (·.majorVersion)) = some 2 := by
      decide +kernel
    rw [hd] at hversion
    have hother : d.majorVersion = 2 := Option.some.inj hversion
    rw [hother] at hmajor
    exact absurd hmajor (by decide)
  · rintro ⟨d, entries, hd, -, -, -, hlength, hlaid⟩
    have hsecond :
        ((perform id (configOf (smallTable.set 6 2)) .init (.boot _)).2.metadataBuff.map fun d =>
        (d.numberOfEntries, decide (d.recordEnd (d.nextRecord 12) ≤ d.data.length))) =
          some (2, false) := by
      decide +kernel
    rw [hd] at hsecond
    obtain ⟨htwo, hbeyond⟩ := Prod.mk.inj (Option.some.inj hsecond)
    have hrecords := hlaid.records
    rw [hlength, htwo] at hrecords
    exact of_decide_eq_false hbeyond hrecords.2.1

end XBLConfig
