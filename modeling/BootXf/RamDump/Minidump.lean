import BootXf.RamDump.DloadDebug

/-!
# The minidump table

`boot_minidump.c` registers for dumping what other processors have put into a table in shared
memory. The table is read as it is (`MdGlobalToc`): each subsystem has an array of regions, of
which the count says how many are looked at. A region whose subsystem asks for it is encrypted in
place, after it was zeroed when there is no OEM key (`Action`).

`minidump_confined_iff` says when what is registered lies in the memory that the DDR information
describes, and when what is encrypted is what was registered. A region that overlaps the table in
shared memory or the dump table is zeroed and encrypted as any other; that these tables change then
is not looked at.
-/

namespace RamDump

open Lib List

/-- `MAX_NUM_OF_SS`. -/
def maxNumOfSs : Nat := 10

/-- `MD_REGION_NAME_LENGTH`. -/
def mdRegionNameLength : Nat := 16

/-- `MD_REGION_VALID`. -/
def mdRegionValid : UInt32 := 0x56414C49

/-- `MD_SS_ENABLED`. -/
def mdSsEnabled : UInt32 := 0x454E424C

/-- `MD_SS_ENCR_REQ`. -/
def mdSsEncrReq : UInt32 := 0x00594553

/-- `MD_SS_ENCR_DONE`. -/
def mdSsEncrDone : UInt32 := 0x444F4E45

/-- `md_ss_region`. The name is the string that begins in `region_name`, wherever it ends. -/
structure MdSsRegion where
  regionName : List UInt8
  seqNum : UInt32
  mdValid : UInt32
  regionBaseAddress : UInt64
  regionSize : UInt64

/-- `md_ss_toc`, with the array behind `md_ss_smem_regions_baseptr`. -/
structure MdSsToc where
  mdSsTocInit : UInt32
  mdSsEnableStatus : UInt32
  encryptionStatus : UInt32
  encryptionRequired : UInt32
  ssRegionCount : UInt32
  regions : Nat → MdSsRegion

/-- `md_global_toc`. -/
structure MdGlobalToc where
  mdSsToc : List MdSsToc
  length_eq : mdSsToc.length = maxNumOfSs

/-- `sbl_if_shared_ddr_info_type`. The size is in megabytes. -/
structure DdrChip where
  csAddr : UInt64
  ramsize : UInt64
  deriving DecidableEq

/-- `sbl_if_shared_ddr_device_info_type`. -/
structure DdrInfo where
  ddrInfo : List DdrChip
  ne : ddrInfo ≠ []

/-- `ddr_end_addr`. -/
def DdrInfo.endAddr (ddr : DdrInfo) : UInt64 :=
  ddr.ddrInfo.foldl (fun sum chip => sum + (chip.ramsize <<< (20 : UInt64)))
    (ddr.ddrInfo.head ddr.ne).csAddr

/-- What is done to memory. -/
inductive Action
  | cryptoInit
  | zero (base length : UInt64)
  | encrypt (base length : UInt64) (index : Nat)
  deriving DecidableEq

/-! ## Names -/

/-- The bytes of a string. -/
def chars (cs : List Char) : List UInt8 := cs.map fun c => .ofNat c.toNat

/-- `strlcat`, into a buffer of this size. -/
def strlcat (dst src : List UInt8) (size : Nat) : List UInt8 :=
  dst ++ src.take (size - 1 - dst.length)

/-- `itoa`, which leaves the string of 0 empty. -/
def itoa (x : Nat) : List UInt8 := if x = 0 then [] else itoa (x / 10) ++ [.ofNat (48 + x % 10)]

/-- `dump_region_name`. -/
def dumpRegionName (r : MdSsRegion) : List UInt8 :=
  let name := strlcat (chars ['m', 'd', '_']) r.regionName mdRegionNameLength
  if 0 < r.seqNum ∧ r.seqNum < 10000 then strlcat name (itoa r.seqNum.toNat) mdRegionNameLength
  else name

/-- `dump_region_bin_name`. -/
def dumpRegionBinName (r : MdSsRegion) : List UInt8 :=
  strlcat (strlcpy (dumpRegionName r) dloadDebugStrlenBytes) (chars ['.', 'B', 'I', 'N'])
    dloadDebugStrlenBytes

/-! ## Regions -/

namespace DloadDebug

/-- `add_one_region_to_dump`. -/
def addOneRegionToDump (d : DloadDebug) (r : MdSsRegion) : DloadDebug :=
  (d.dloadDebugAddRegion .optionalDefSave r.regionBaseAddress r.regionSize (dumpRegionName r)
    (dumpRegionBinName r)).2

/-- `md_is_valid_smem_entry`. -/
def mdIsValidSmemEntry (ddrEndAddr base size : UInt64) : Bool :=
  base > 0 && base < ddrEndAddr && size != 0 && base + size < ddrEndAddr

/-- A region that is added. The name is an array, which is never NULL. -/
def accepts (ddrEndAddr : UInt64) (r : MdSsRegion) : Bool :=
  r.mdValid == mdRegionValid && mdIsValidSmemEntry ddrEndAddr r.regionBaseAddress r.regionSize

/-- The loop through the regions of a subsystem. -/
def addRegions (ddrEndAddr : UInt64) : List MdSsRegion → DloadDebug → DloadDebug
  | [], d => d
  | r :: rs, d =>
    addRegions ddrEndAddr rs (if accepts ddrEndAddr r then d.addOneRegionToDump r else d)

/-- `dload_debug_check_oem_key`. The index is passed on as eight bits. -/
def checkOemKey (d : DloadDebug) (oemKey : Bool) (startIndex : Nat) : List Action :=
  if oemKey then []
  else (range' startIndex (d.dloadDebugInfo.length - startIndex)).map fun i =>
    .zero (d.memBase (.ofNat i)) (d.memLength (.ofNat i))

/-- `dload_debug_encr_all_regions`. -/
def encrAllRegions (d : DloadDebug) (startIndex : Nat) : List Action :=
  (range' startIndex (d.dloadDebugInfo.length - startIndex)).map fun i =>
    .encrypt (d.memBase (.ofNat i)) (d.memLength (.ofNat i)) i

end DloadDebug

/-- XBL has to encrypt the regions of the subsystem. -/
def MdSsToc.encrypts (ss : MdSsToc) : Bool :=
  ss.mdSsTocInit != 0 && ss.mdSsEnableStatus == mdSsEnabled && ss.encryptionRequired == mdSsEncrReq

/-- The regions of the subsystem are added. -/
def MdSsToc.dumps (ss : MdSsToc) (isAuthEnabled : Bool) : Bool :=
  ss.mdSsTocInit != 0 && ss.mdSsEnableStatus == mdSsEnabled &&
    (ss.encryptionRequired == mdSsEncrReq ||
      (isAuthEnabled && ss.encryptionStatus == mdSsEncrDone || !isAuthEnabled))

/-- The regions that are looked at. -/
def MdSsToc.regionInfo (ss : MdSsToc) : List MdSsRegion :=
  (List.range ss.ssRegionCount.toNat).map ss.regions

/-- The table of regions, and what has been done to memory so far. -/
structure Minidump where
  table : DloadDebug
  actions : List Action

/-- One round of the loop of `add_minidump_regions`. -/
def Minidump.addSs (s : Minidump) (ddrEndAddr : UInt64) (isAuthEnabled oemKey : Bool)
    (ss : MdSsToc) : Minidump :=
  if ss.mdSsTocInit = 0 then s
  else if ss.mdSsEnableStatus = mdSsEnabled ∧ ss.encryptionRequired = mdSsEncrReq then
    let startIndex := s.table.dloadDebugInfo.length
    let table := s.table.addRegions ddrEndAddr ss.regionInfo
    if isAuthEnabled then
      ⟨table, s.actions ++ table.checkOemKey oemKey startIndex ++ table.encrAllRegions startIndex⟩
    else ⟨table, s.actions⟩
  else if ss.mdSsEnableStatus = mdSsEnabled ∧
      (isAuthEnabled ∧ ss.encryptionStatus = mdSsEncrDone ∨ !isAuthEnabled) then
    ⟨s.table.addRegions ddrEndAddr ss.regionInfo, s.actions⟩
  else s

/-- `add_minidump_regions`. -/
def addMinidumpRegions (mdGlobalToc : Option MdGlobalToc) (ddr : DdrInfo)
    (isAuthEnabled oemKey : Bool)
    (d : DloadDebug) : Minidump :=
  match mdGlobalToc with
  | none => ⟨d, []⟩
  | some toc =>
    toc.mdSsToc.foldl (fun s ss => s.addSs ddr.endAddr isAuthEnabled oemKey ss)
      ⟨d, if isAuthEnabled then [.cryptoInit] else []⟩

/-! ## Names fit -/

/-- A name that is cut stays below its size. -/
theorem strlcat_length {dst src : List UInt8} {size : Nat} (h : dst.length < size) :
    (strlcat dst src size).length < size := by
  rw [strlcat, length_append, length_take]
  omega

theorem dumpRegionName_length (r : MdSsRegion) :
    (dumpRegionName r).length < mdRegionNameLength := by
  have hname : (strlcat (chars ['m', 'd', '_']) r.regionName mdRegionNameLength).length <
      mdRegionNameLength := strlcat_length (by decide)
  unfold dumpRegionName
  dsimp only
  split
  · exact strlcat_length hname
  · exact hname

theorem dumpRegionBinName_length (r : MdSsRegion) :
    (dumpRegionBinName r).length < dloadDebugStrlenBytes := by
  refine strlcat_length ?_
  rw [strlcpy, length_take, dloadDebugStrlenBytes]
  omega

/-! ## What is registered -/

/-- What has been cut off before is cut off in the end. -/
theorem take_append_take {α : Type} (xs ys : List α) (n : Nat) :
    (xs.take n ++ ys).take n = (xs ++ ys).take n := by
  rw [take_append, take_take, Nat.min_self, take_append, length_take]
  congr 2
  omega

theorem prefix_take_append {α : Type} {xs ys : List α} {n : Nat} (h : xs.length ≤ n) :
    xs <+: (xs ++ ys).take n := by
  rw [take_append, take_of_length_le h]
  exact prefix_append _ _

/-- The entry for a region. -/
def entry (r : MdSsRegion) : DloadDebugType :=
  ⟨.optionalDefSave, maskWord r.regionBaseAddress, maskWord r.regionSize, dumpRegionName r,
    dumpRegionBinName r, maskWord_mod _⟩

namespace DloadDebug
variable {d : DloadDebug} {r : MdSsRegion} {ddrEndAddr : UInt64} {rs : List MdSsRegion}

/-- A region is added as long as there is room: its names always fit. -/
theorem addOneRegionToDump_info :
    (d.addOneRegionToDump r).dloadDebugInfo = (d.dloadDebugInfo ++ [entry r]).take numRegions := by
  have hfit := d.regions_fit
  have hname := dumpRegionName_length r
  have hbin := dumpRegionBinName_length r
  unfold addOneRegionToDump dloadDebugAddRegion
  split
  · next h =>
    rw [take_of_length_le]
    · rfl
    · rw [length_append]
      exact h.2.2
  · next h =>
    have hfull : d.dloadDebugInfo.length = numRegions := by
      refine Nat.le_antisymm hfit (Nat.not_lt.mp fun hlt => h ⟨?_, hbin, hlt⟩)
      exact Nat.lt_trans hname (by decide)
    rw [← hfull, take_left]

/-- **The regions of a subsystem**: those that are accepted, as long as there is room. -/
theorem addRegions_info :
    (addRegions ddrEndAddr rs d).dloadDebugInfo =
      (d.dloadDebugInfo ++ (rs.filter (accepts ddrEndAddr)).map entry).take numRegions := by
  induction rs generalizing d with
  | nil =>
    rw [addRegions, filter_nil, map_nil, append_nil,
      take_of_length_le d.regions_fit]
  | cons r rs ih =>
    rw [addRegions, ih]
    rcases haccept : accepts ddrEndAddr r with _ | _
    · rw [if_neg Bool.false_ne_true, filter_cons_of_neg (by rw [haccept]; decide)]
    · rw [if_pos rfl, filter_cons_of_pos haccept, addOneRegionToDump_info, map_cons,
        take_append_take, append_assoc]
      rfl

end DloadDebug

/-- The regions of a subsystem that are accepted. -/
def MdSsToc.accepted (ss : MdSsToc) (ddrEndAddr : UInt64) (isAuthEnabled : Bool) :
    List MdSsRegion :=
  if ss.dumps isAuthEnabled then ss.regionInfo.filter (DloadDebug.accepts ddrEndAddr) else []

/-- The regions of the table that are accepted. -/
def accepted (mdGlobalToc : Option MdGlobalToc) (ddr : DdrInfo) (isAuthEnabled : Bool) :
    List MdSsRegion :=
  match mdGlobalToc with
  | none => []
  | some toc => toc.mdSsToc.flatMap fun ss => ss.accepted ddr.endAddr isAuthEnabled

/-- The indices of the regions that XBL has to encrypt, when there are `n` before. -/
def encrIndices (ddrEndAddr : UInt64) (isAuthEnabled : Bool) : List MdSsToc → Nat → List Nat
  | [], _ => []
  | ss :: sss, n =>
    let n' := min numRegions (n + (ss.accepted ddrEndAddr isAuthEnabled).length)
    (if ss.encrypts then range' n (n' - n) else []) ++
      encrIndices ddrEndAddr isAuthEnabled sss n'

namespace Minidump
variable {s : Minidump} {ddrEndAddr : UInt64} {isAuthEnabled oemKey : Bool} {ss : MdSsToc}
  {sss : List MdSsToc} {i : Nat} {base length : UInt64}

/-- What is encrypted for a subsystem. -/
def encryption (table : DloadDebug) (oemKey : Bool) (startIndex : Nat) : List Action :=
  table.checkOemKey oemKey startIndex ++ table.encrAllRegions startIndex

/-- The subsystems whose regions are encrypted. -/
theorem encrypts_iff (ss : MdSsToc) : ss.encrypts = true ↔
    (ss.mdSsTocInit ≠ 0 ∧ ss.mdSsEnableStatus = mdSsEnabled) ∧
    ss.encryptionRequired = mdSsEncrReq := by
  simp only [MdSsToc.encrypts, Bool.and_eq_true, bne_iff_ne, beq_iff_eq]

/-- The subsystems whose regions are dumped. -/
theorem dumps_iff (ss : MdSsToc) (isAuthEnabled : Bool) : ss.dumps isAuthEnabled = true ↔
    (ss.mdSsTocInit ≠ 0 ∧ ss.mdSsEnableStatus = mdSsEnabled) ∧
      (ss.encryptionRequired = mdSsEncrReq ∨
      (isAuthEnabled = true ∧ ss.encryptionStatus = mdSsEncrDone ∨ !isAuthEnabled)) := by
  simp only [MdSsToc.dumps, Bool.and_eq_true, Bool.or_eq_true, bne_iff_ne, beq_iff_eq]

/-- **One subsystem.** -/
theorem addSs_eq (s : Minidump) (ddrEndAddr : UInt64) (isAuthEnabled oemKey : Bool) (ss : MdSsToc) :
    ∃ table, s.addSs ddrEndAddr isAuthEnabled oemKey ss =
      ⟨table, s.actions ++ if isAuthEnabled && ss.encrypts then
        encryption table oemKey s.table.dloadDebugInfo.length else []⟩ ∧
    table.dloadDebugInfo = (s.table.dloadDebugInfo ++
      (ss.accepted ddrEndAddr isAuthEnabled).map entry).take numRegions := by
  have hnone : s.table.dloadDebugInfo =
      (s.table.dloadDebugInfo ++ ([] : List MdSsRegion).map entry).take numRegions := by
    rw [map_nil, append_nil, take_of_length_le s.table.regions_fit]
  have hencrypts := encrypts_iff ss
  have hdumps := dumps_iff ss isAuthEnabled
  unfold addSs MdSsToc.accepted
  split
  · next hinit =>
    refine ⟨s.table, ?_, ?_⟩
    · rw [Bool.eq_false_iff.mpr fun h => (hencrypts.mp h).1.1 hinit, Bool.and_false,
        if_neg Bool.false_ne_true,
        append_nil]
    · rw [if_neg fun h => (hdumps.mp h).1.1 hinit]
      exact hnone
  · next hinit =>
    split
    · next hencr =>
      refine ⟨s.table.addRegions ddrEndAddr ss.regionInfo, ?_, ?_⟩
      · rw [hencrypts.mpr ⟨⟨hinit, hencr.1⟩, hencr.2⟩, Bool.and_true]
        cases isAuthEnabled with
        | false => rw [if_neg Bool.false_ne_true, if_neg Bool.false_ne_true, append_nil]
        | true => rw [if_pos rfl, if_pos rfl, encryption, append_assoc]
      · rw [if_pos (hdumps.mpr ⟨⟨hinit, hencr.1⟩, .inl hencr.2⟩)]
        exact DloadDebug.addRegions_info
    · next hencr =>
      have hnot : ss.encrypts = false :=
        Bool.eq_false_iff.mpr fun h => hencr ⟨(hencrypts.mp h).1.2, (hencrypts.mp h).2⟩
      simp only [hnot, Bool.and_false, Bool.false_eq_true, if_false, append_nil]
      split
      · next hdone =>
        refine ⟨s.table.addRegions ddrEndAddr ss.regionInfo, rfl, ?_⟩
        rw [if_pos (hdumps.mpr ⟨⟨hinit, hdone.1⟩, .inr hdone.2⟩)]
        exact DloadDebug.addRegions_info
      · next hdone =>
        refine ⟨s.table, rfl, ?_⟩
        rw [if_neg fun h => ?_]
        · exact hnone
        · obtain ⟨⟨-, hon⟩, hreq | hdone'⟩ := hdumps.mp h
          · exact hencr ⟨hon, hreq⟩
          · exact hdone ⟨hon, hdone'⟩

end Minidump

/-! ## What is encrypted -/

/-- The entry that a call for this index reads has these bytes. -/
def Reads (table : DloadDebug) (i : Nat) (base length : UInt64) : Prop :=
  ∃ e, table.dloadDebugInfo[i % 256]? = some e ∧ e.memBase = base ∧ e.length = length

/-- The bytes are encrypted under the index, after they were zeroed if there is no OEM key. -/
def Encrypted (oemKey : Bool) (actions : List Action) (base length : UInt64) (i : Nat) : Prop :=
  ∃ xs ys, actions = xs ++ .encrypt base length i :: ys ∧ (oemKey = false → .zero base length ∈ xs)

/-- The actions encrypt the entries that are read for these indices, and no others. -/
structure Encrypts (table : DloadDebug) (oemKey : Bool) (indices : List Nat)
    (actions : List Action) :
    Prop where
  all : ∀ i ∈ indices, ∃ base length, Reads table i base length ∧
    Encrypted oemKey actions base length i
  encrypt : ∀ base length i, .encrypt base length i ∈ actions → i ∈ indices ∧
    Reads table i base length
  zero : ∀ base length, .zero base length ∈ actions → ∃ i ∈ indices, Reads table i base length

section
variable {table table' : DloadDebug} {oemKey : Bool} {i : Nat} {base length : UInt64}
  {indices indices' : List Nat} {actions actions' : List Action}

theorem Reads.mono (h : Reads table i base length)
    (hkept : table.dloadDebugInfo <+: table'.dloadDebugInfo) : Reads table' i base length := by
  obtain ⟨e, he, hbytes⟩ := h
  obtain ⟨rest, hrest⟩ := hkept
  refine ⟨e, ?_, hbytes⟩
  rw [← hrest, getElem?_append_left (List.getElem?_eq_some_iff.mp he).1, he]

theorem Encrypted.append_right (h : Encrypted oemKey actions base length i) :
    Encrypted oemKey (actions ++ actions') base length i := by
  obtain ⟨xs, ys, rfl, hzero⟩ := h
  exact ⟨xs, ys ++ actions', by rw [append_assoc, cons_append], hzero⟩

theorem Encrypted.append_left (h : Encrypted oemKey actions' base length i) :
    Encrypted oemKey (actions ++ actions') base length i := by
  obtain ⟨xs, ys, rfl, hzero⟩ := h
  exact ⟨actions ++ xs, ys, by rw [append_assoc], fun hno =>
    mem_append_right _ (hzero hno)⟩

namespace Encrypts

theorem nil : Encrypts table oemKey [] [] :=
  ⟨fun _ h => (not_mem_nil h).elim, fun _ _ _ h => (not_mem_nil h).elim,
    fun _ _ h => (not_mem_nil h).elim⟩

theorem mono (h : Encrypts table oemKey indices actions)
    (hkept : table.dloadDebugInfo <+: table'.dloadDebugInfo) :
    Encrypts table' oemKey indices actions where
  all i hi := by
    obtain ⟨base, length, hreads, hencr⟩ := h.all i hi
    exact ⟨base, length, hreads.mono hkept, hencr⟩
  encrypt base length i hmem := by
    obtain ⟨hi, hreads⟩ := h.encrypt base length i hmem
    exact ⟨hi, hreads.mono hkept⟩
  zero base length hmem := by
    obtain ⟨i, hi, hreads⟩ := h.zero base length hmem
    exact ⟨i, hi, hreads.mono hkept⟩

theorem append (h : Encrypts table oemKey indices actions)
    (h' : Encrypts table oemKey indices' actions') :
    Encrypts table oemKey (indices ++ indices') (actions ++ actions') where
  all i hi := by
    rcases mem_append.mp hi with hi | hi
    · obtain ⟨base, length, hreads, hencr⟩ := h.all i hi
      exact ⟨base, length, hreads, hencr.append_right⟩
    · obtain ⟨base, length, hreads, hencr⟩ := h'.all i hi
      exact ⟨base, length, hreads, hencr.append_left⟩
  encrypt base length i hmem := by
    rcases mem_append.mp hmem with hmem | hmem
    · obtain ⟨hi, hreads⟩ := h.encrypt base length i hmem
      exact ⟨mem_append_left _ hi, hreads⟩
    · obtain ⟨hi, hreads⟩ := h'.encrypt base length i hmem
      exact ⟨mem_append_right _ hi, hreads⟩
  zero base length hmem := by
    rcases mem_append.mp hmem with hmem | hmem
    · obtain ⟨i, hi, hreads⟩ := h.zero base length hmem
      exact ⟨i, mem_append_left _ hi, hreads⟩
    · obtain ⟨i, hi, hreads⟩ := h'.zero base length hmem
      exact ⟨i, mem_append_right _ hi, hreads⟩

/-- An index that is in use is read at eight of its bits. -/
theorem reads_memBase (h : i < table.dloadDebugInfo.length) :
    Reads table i (table.memBase (.ofNat i)) (table.memLength (.ofNat i)) := by
  have hi : (UInt8.ofNat i).toNat = i % 256 := UInt8.toNat_ofNat'
  have hlt : i % 256 < table.dloadDebugInfo.length := Nat.lt_of_le_of_lt (Nat.mod_le ..) h
  refine ⟨table.dloadDebugInfo[i % 256], getElem?_eq_getElem hlt, ?_, ?_⟩
  · rw [DloadDebug.memBase, hi, getElem?_eq_getElem hlt]
  · rw [DloadDebug.memLength, hi, getElem?_eq_getElem hlt]

/-- **The regions of one subsystem.** All are zeroed before the first is encrypted. -/
theorem encryption (startIndex : Nat) :
    Encrypts table oemKey
      (range' startIndex (table.dloadDebugInfo.length - startIndex))
      (Minidump.encryption table oemKey startIndex) where
  all i hi := by
    have hlt : i < table.dloadDebugInfo.length := by
      have := mem_range'_1.mp hi
      omega
    refine ⟨_, _, reads_memBase hlt, ?_⟩
    obtain ⟨before, after, hsplit⟩ := append_of_mem hi
    refine ⟨table.checkOemKey oemKey startIndex ++ before.map fun i =>
      .encrypt (table.memBase (.ofNat i)) (table.memLength (.ofNat i)) i, after.map fun i =>
      .encrypt (table.memBase (.ofNat i)) (table.memLength (.ofNat i)) i, ?_, ?_⟩
    · rw [Minidump.encryption, DloadDebug.encrAllRegions, hsplit, map_append, map_cons,
        append_assoc]
    · rintro rfl
      refine mem_append_left _ ?_
      rw [DloadDebug.checkOemKey, if_neg Bool.false_ne_true]
      exact mem_map.mpr ⟨i, hi, rfl⟩
  encrypt base length i hmem := by
    have hzero : Action.encrypt base length i ∉ table.checkOemKey oemKey startIndex := by
      rw [DloadDebug.checkOemKey]
      split
      · exact not_mem_nil
      · simp
    obtain ⟨j, hj, heq⟩ := mem_map.mp ((mem_append.mp hmem).resolve_left hzero)
    cases heq
    refine ⟨hj, reads_memBase ?_⟩
    have := mem_range'_1.mp hj
    omega
  zero base length hmem := by
    have hencr : Action.zero base length ∉ table.encrAllRegions startIndex := by
      simp [DloadDebug.encrAllRegions]
    have hmem := (mem_append.mp hmem).resolve_right hencr
    rw [DloadDebug.checkOemKey] at hmem
    split at hmem
    · nomatch hmem
    · obtain ⟨j, hj, heq⟩ := mem_map.mp hmem
      cases heq
      refine ⟨j, hj, reads_memBase ?_⟩
      have := mem_range'_1.mp hj
      omega

end Encrypts

end

namespace Minidump
variable {s : Minidump} {ddrEndAddr : UInt64} {isAuthEnabled oemKey : Bool} {sss : List MdSsToc}

/-- **All subsystems**: what is registered, and what is done to memory. -/
theorem foldl_addSs (s : Minidump) (ddrEndAddr : UInt64) (isAuthEnabled oemKey : Bool)
    (sss : List MdSsToc) :
    let s' := sss.foldl (fun s ss => s.addSs ddrEndAddr isAuthEnabled oemKey ss) s
    s'.table.dloadDebugInfo = (s.table.dloadDebugInfo ++
      (sss.flatMap (·.accepted ddrEndAddr isAuthEnabled)).map entry).take numRegions ∧
    ∃ actions, s'.actions = s.actions ++ actions ∧
      Encrypts s'.table oemKey
        (if isAuthEnabled then
          encrIndices ddrEndAddr isAuthEnabled sss s.table.dloadDebugInfo.length
        else []) actions := by
  induction sss generalizing s with
  | nil =>
    refine ⟨?_, [], ?_, ?_⟩
    · rw [flatMap_nil, map_nil, append_nil,
        take_of_length_le s.table.regions_fit]
      rfl
    · exact (append_nil _).symm
    · rw [encrIndices, ite_self]
      exact .nil
  | cons ss sss ih =>
    obtain ⟨table, hstep, hinfo⟩ := addSs_eq s ddrEndAddr isAuthEnabled oemKey ss
    dsimp only
    rw [foldl_cons, hstep]
    obtain ⟨hrun, actions, hactions, hencr⟩ := ih ⟨table, s.actions ++
      if isAuthEnabled && ss.encrypts then encryption table oemKey s.table.dloadDebugInfo.length
      else []⟩
    have hlength : table.dloadDebugInfo.length = min numRegions
        (s.table.dloadDebugInfo.length + (ss.accepted ddrEndAddr isAuthEnabled).length) := by
      rw [hinfo, length_take, length_append, length_map]
    refine ⟨?_, (if isAuthEnabled && ss.encrypts then
      encryption table oemKey s.table.dloadDebugInfo.length else []) ++ actions, ?_, ?_⟩
    · rw [hrun]
      dsimp only
      rw [hinfo, take_append_take, flatMap_cons, map_append, append_assoc]
    · rw [hactions]
      exact append_assoc ..
    · cases isAuthEnabled with
      | false => exact hencr
      | true =>
        rw [if_pos rfl, encrIndices, ← hlength]
        refine .append ?_ hencr
        have hhere : Encrypts table oemKey
            (if ss.encrypts then range' s.table.dloadDebugInfo.length
              (table.dloadDebugInfo.length - s.table.dloadDebugInfo.length) else [])
            (if true && ss.encrypts then encryption table oemKey s.table.dloadDebugInfo.length
              else []) := by
          rw [Bool.true_and]
          split
          · exact .encryption _
          · exact .nil
        refine hhere.mono ?_
        rw [hrun]
        exact prefix_take_append table.regions_fit

end Minidump

/-! ## Confinement -/

/-- The memory of a chip. -/
def DdrChip.span (chip : DdrChip) : Span := ⟨chip.csAddr.toNat, chip.ramsize.toNat * 2 ^ 20⟩

/-- The bytes do not wrap, and each is in a chip. -/
def DdrInfo.Covers (ddr : DdrInfo) (s : Span) : Prop :=
  s.stop ≤ 2 ^ 64 ∧ ∀ a, s.Mem a → ∃ chip ∈ ddr.ddrInfo, chip.span.Mem a

/-- The indices of the registered regions that XBL has to encrypt. -/
def toEncrypt (mdGlobalToc : Option MdGlobalToc) (ddr : DdrInfo) (isAuthEnabled : Bool)
    (d : DloadDebug) : List Nat :=
  match mdGlobalToc with
  | none => []
  | some toc => encrIndices ddr.endAddr isAuthEnabled toc.mdSsToc d.dloadDebugInfo.length

/-- The entries, after the table has been gone through. -/
def registered (mdGlobalToc : Option MdGlobalToc) (ddr : DdrInfo) (isAuthEnabled : Bool)
    (d : DloadDebug) : List DloadDebugType :=
  (d.dloadDebugInfo ++ (accepted mdGlobalToc ddr isAuthEnabled).map entry).take numRegions

/-- What is promised of a table of regions, and of what was done to memory. -/
structure Confined (s : Minidump) (mdGlobalToc : Option MdGlobalToc) (ddr : DdrInfo)
    (isAuthEnabled oemKey : Bool) (d : DloadDebug) : Prop where
  /-- The entries that were there stay. -/
  kept : d.dloadDebugInfo <+: s.table.dloadDebugInfo
  /-- A region that is added is not empty and is memory of the configuration. -/
  regions : ∀ e ∈ s.table.dloadDebugInfo.drop d.dloadDebugInfo.length,
    0 < e.length.toNat ∧ ddr.Covers (bytesOf e.memBase e.length)
  /-- Its names fit, with the end of the string. -/
  names : ∀ e ∈ s.table.dloadDebugInfo.drop d.dloadDebugInfo.length,
    e.desc.length < dloadDebugStrlenBytes ∧ e.filename.length < dloadDebugStrlenBytes
  /-- What has to be encrypted is encrypted. -/
  encrypted : isAuthEnabled = true → ∀ i ∈ toEncrypt mdGlobalToc ddr isAuthEnabled d,
    ∃ e, s.table.dloadDebugInfo[i]? = some e ∧ Encrypted oemKey s.actions e.memBase e.length i
  /-- Nothing else is encrypted. -/
  encrypt : ∀ base length i, .encrypt base length i ∈ s.actions →
    i ∈ toEncrypt mdGlobalToc ddr isAuthEnabled d ∧
      ∃ e, s.table.dloadDebugInfo[i]? = some e ∧ e.memBase = base ∧ e.length = length
  /-- Nothing else is zeroed. -/
  zero : ∀ base length, .zero base length ∈ s.actions →
    ∃ i ∈ toEncrypt mdGlobalToc ddr isAuthEnabled d,
      ∃ e, s.table.dloadDebugInfo[i]? = some e ∧ e.memBase = base ∧ e.length = length

/-- The entries at two indices have the same bytes. -/
def SameBytes (entries : List DloadDebugType) (i j : Nat) : Prop :=
  ∃ e f, entries[i]? = some e ∧ entries[j]? = some f ∧ e.memBase = f.memBase ∧ e.length = f.length

/-- The regions that there is room for are at least a word and in memory, and no index needs more
than eight bits. -/
structure Sound (mdGlobalToc : Option MdGlobalToc) (ddr : DdrInfo) (isAuthEnabled : Bool)
    (d : DloadDebug) : Prop where
  regions : ∀ r ∈ (accepted mdGlobalToc ddr isAuthEnabled).take
      (numRegions - d.dloadDebugInfo.length),
    4 ≤ r.regionSize ∧
      ddr.Covers ⟨roundDown r.regionBaseAddress.toNat 4, roundDown r.regionSize.toNat 4⟩
  indices : isAuthEnabled = true → ∀ i ∈ toEncrypt mdGlobalToc ddr isAuthEnabled d,
    i < 256 ∨ SameBytes (registered mdGlobalToc ddr isAuthEnabled d) i (i - 256)

section
variable {mdGlobalToc : Option MdGlobalToc} {ddr : DdrInfo} {isAuthEnabled oemKey : Bool}
  {d : DloadDebug}

theorem addMinidumpRegions_info (mdGlobalToc : Option MdGlobalToc) (ddr : DdrInfo)
    (isAuthEnabled oemKey : Bool) (d : DloadDebug) :
    (addMinidumpRegions mdGlobalToc ddr isAuthEnabled oemKey d).table.dloadDebugInfo =
      registered mdGlobalToc ddr isAuthEnabled d := by
  cases mdGlobalToc with
  | none =>
    rw [registered, accepted, map_nil, append_nil, take_of_length_le d.regions_fit]
    rfl
  | some toc => exact (Minidump.foldl_addSs _ _ _ _ _).1

/-- **What is done to memory**: with authentication, what has to be encrypted is, through eight bits
of its index. -/
theorem addMinidumpRegions_actions (mdGlobalToc : Option MdGlobalToc) (ddr : DdrInfo)
    (isAuthEnabled oemKey : Bool) (d : DloadDebug) :
    Encrypts (addMinidumpRegions mdGlobalToc ddr isAuthEnabled oemKey d).table oemKey
      (if isAuthEnabled then toEncrypt mdGlobalToc ddr isAuthEnabled d else [])
      (addMinidumpRegions mdGlobalToc ddr isAuthEnabled oemKey d).actions := by
  cases mdGlobalToc with
  | none =>
    rw [toEncrypt, ite_self]
    exact .nil
  | some toc =>
    obtain ⟨-, actions, hactions, hencr⟩ := Minidump.foldl_addSs
      ⟨d, if isAuthEnabled then [.cryptoInit] else []⟩ ddr.endAddr isAuthEnabled oemKey toc.mdSsToc
    have hinit : ∀ table : DloadDebug,
        Encrypts table oemKey [] (if isAuthEnabled then [Action.cryptoInit] else []) := by
      intro table
      refine ⟨fun _ h => (not_mem_nil h).elim, fun _ _ _ h => ?_, fun _ _ h => ?_⟩
      · split at h <;> simp at h
      · split at h <;> simp at h
    rw [addMinidumpRegions, hactions, ← nil_append (ite _ _ _)]
    exact (hinit _).append hencr

/-- What is added to the table. -/
theorem registered_drop :
    (registered mdGlobalToc ddr isAuthEnabled d).drop d.dloadDebugInfo.length =
      ((accepted mdGlobalToc ddr isAuthEnabled).take (numRegions - d.dloadDebugInfo.length)).map
        entry := by
  rw [registered, take_append, take_of_length_le d.regions_fit, drop_left,
    map_take]

theorem mem_registered_drop {e : DloadDebugType} :
    e ∈ (registered mdGlobalToc ddr isAuthEnabled d).drop d.dloadDebugInfo.length ↔
      ∃ r ∈ (accepted mdGlobalToc ddr isAuthEnabled).take (numRegions - d.dloadDebugInfo.length),
        entry r = e := by
  rw [registered_drop, mem_map]

/-- The indices lie inside the table. -/
theorem encrIndices_lt {ddrEndAddr : UInt64} {sss : List MdSsToc} {n i : Nat}
    (h : i ∈ encrIndices ddrEndAddr isAuthEnabled sss n) : i < numRegions := by
  induction sss generalizing n with
  | nil => exact (not_mem_nil h).elim
  | cons ss sss ih =>
    rw [encrIndices] at h
    rcases mem_append.mp h with h | h
    · split at h
      · have := mem_range'_1.mp h
        omega
      · exact (not_mem_nil h).elim
    · exact ih h

/-- The indices are those of entries that are in use. -/
theorem toEncrypt_lt {i : Nat} (h : i ∈ toEncrypt mdGlobalToc ddr isAuthEnabled d) :
    i < numRegions := by
  cases mdGlobalToc with
  | none => exact (not_mem_nil h).elim
  | some toc => exact encrIndices_lt h

/-- Eight bits of an index that is in use. -/
theorem index_mod {i : Nat} (h : i < numRegions) : i % 256 = if i < 256 then i else i - 256 := by
  rw [numRegions] at h
  split <;> omega

/-- What is read for an index is the entry at the index. -/
theorem Sound.reads (h : Sound mdGlobalToc ddr isAuthEnabled d) (hauth : isAuthEnabled = true)
    {table : DloadDebug} (hinfo : table.dloadDebugInfo = registered mdGlobalToc ddr isAuthEnabled d)
    {i : Nat} (hi : i ∈ toEncrypt mdGlobalToc ddr isAuthEnabled d) {base length : UInt64}
    (hreads : Reads table i base length) :
    ∃ e, table.dloadDebugInfo[i]? = some e ∧ e.memBase = base ∧ e.length = length := by
  obtain ⟨f, hf, hbase, hlength⟩ := hreads
  rw [index_mod (toEncrypt_lt hi)] at hf
  rcases h.indices hauth i hi with hlt | ⟨e, f', he, hf', hb, hl⟩
  · rw [if_pos hlt] at hf
    exact ⟨f, hf, hbase, hlength⟩
  · rw [hinfo]
    rw [hinfo] at hf
    split at hf
    · exact ⟨f, hf, hbase, hlength⟩
    · cases hf.symm.trans hf'
      exact ⟨e, he, hb.trans hbase, hl.trans hlength⟩

/-- The bytes of an entry. -/
theorem bytesOf_entry (r : MdSsRegion) : bytesOf (entry r).memBase (entry r).length =
    ⟨roundDown r.regionBaseAddress.toNat 4, roundDown r.regionSize.toNat 4⟩ := by
  rw [bytesOf, entry]
  dsimp only
  rw [maskWord_toNat, maskWord_toNat]

/-- A region of at least a word has a length. -/
theorem entry_length_pos (r : MdSsRegion) : 0 < (entry r).length.toNat ↔ 4 ≤ r.regionSize := by
  rw [entry]
  dsimp only
  rw [maskWord_toNat, UInt64.le_iff_toNat_le]
  show 0 < r.regionSize.toNat / 4 * 4 ↔ 4 ≤ r.regionSize.toNat
  omega

/-- What is accepted has passed the range test. -/
theorem accepts_of_accepted (hr : r ∈ accepted mdGlobalToc ddr isAuthEnabled) :
    DloadDebug.accepts ddr.endAddr r = true := by
  unfold accepted at hr
  split at hr
  · cases hr
  · obtain ⟨ss, -, hr⟩ := mem_flatMap.mp hr
    unfold MdSsToc.accepted at hr
    split at hr
    · exact (mem_filter.mp hr).2
    · cases hr

/-- Sizes are added as the machine adds. -/
theorem foldl_ramsize_toNat (chips : List DdrChip) (start : UInt64)
    (h : start.toNat + (chips.map (·.span.len)).sum < 2 ^ 64) :
    (chips.foldl (fun sum chip => sum + (chip.ramsize <<< (20 : UInt64))) start).toNat =
      start.toNat + (chips.map (·.span.len)).sum := by
  induction chips generalizing start with
  | nil => rfl
  | cons chip chips ih =>
    rw [map_cons, sum_cons] at h ⊢
    have hlen : (chip.ramsize <<< (20 : UInt64)).toNat = chip.span.len := by
      have hsize : chip.span.len = chip.ramsize.toNat * 2 ^ 20 := rfl
      rw [UInt64.toNat_shiftLeft, Nat.shiftLeft_eq]
      show chip.ramsize.toNat * 2 ^ 20 % 2 ^ 64 = chip.span.len
      omega
    have hsum : (start + (chip.ramsize <<< (20 : UInt64))).toNat = start.toNat + chip.span.len := by
      rw [UInt64.toNat_add, hlen]
      omega
    rw [foldl_cons, ih _ (by omega), hsum, Nat.add_assoc]

/-- Where the chips follow one another, a region that is accepted and does not wrap is in memory
unless it begins below the first chip, which is not looked at. -/
theorem DdrInfo.covers_iff_of_chain {ddr : DdrInfo} {lo hi : Nat} {r : MdSsRegion}
    (hchain : Span.Chain lo (ddr.ddrInfo.map DdrChip.span) hi) (hhi : hi < 2 ^ 64)
    (haccepts : DloadDebug.accepts ddr.endAddr r = true)
    (hwrap : r.regionBaseAddress.toNat + r.regionSize.toNat < 2 ^ 64) (hsize : 4 ≤ r.regionSize) :
    ddr.Covers ⟨roundDown r.regionBaseAddress.toNat 4, roundDown r.regionSize.toNat 4⟩ ↔
      lo ≤ roundDown r.regionBaseAddress.toNat 4 := by
  have hend : ddr.endAddr.toNat = hi := by
    have hlo : (ddr.ddrInfo.head ddr.ne).csAddr.toNat = lo := by
      obtain ⟨chips, hne⟩ := ddr
      cases chips with
      | nil => exact absurd rfl hne
      | cons chip chips => exact hchain.1
    have hsum := hchain.sum_len
    rw [map_map] at hsum
    rw [endAddr, foldl_ramsize_toNat _ _
      (by rw [hlo]; exact Nat.lt_of_le_of_lt (Nat.le_of_eq hsum) hhi), hlo]
    exact hsum
  have hstop : r.regionBaseAddress.toNat + r.regionSize.toNat < hi := by
    simp only [DloadDebug.accepts, DloadDebug.mdIsValidSmemEntry, Bool.and_eq_true,
      decide_eq_true_eq, UInt64.lt_iff_toNat_lt, UInt64.toNat_add, hend] at haccepts
    rw [Nat.mod_eq_of_lt hwrap] at haccepts
    exact haccepts.2.2
  have hsize' := UInt64.le_iff_toNat_le.mp hsize
  have hfour : (4 : UInt64).toNat = 4 := rfl
  have hbase := Nat.div_mul_le_self r.regionBaseAddress.toNat 4
  have hlen := Nat.div_mul_le_self r.regionSize.toNat 4
  simp only [DdrInfo.Covers, Span.stop, Span.Mem, roundDown]
  constructor
  · rintro ⟨-, hall⟩
    obtain ⟨chip, hchip, hmem⟩ := hall (r.regionBaseAddress.toNat / 4 * 4) ⟨Nat.le_refl _, by omega⟩
    exact ((hchain.within _ (mem_map_of_mem hchip)).mem hmem).1
  · intro hlo
    refine ⟨by omega, fun a hmem => ?_⟩
    obtain ⟨ha, ha'⟩ := hmem
    obtain ⟨s, hs, hmem⟩ := hchain.exists_mem (a := a) (by omega) (by omega)
    obtain ⟨chip, hchip, rfl⟩ := mem_map.mp hs
    exact ⟨chip, hchip, hmem⟩

/-- **The minidump is confined and secret** exactly when the regions that there is room for are at
least a word, are memory of the configuration, and an index that does not fit eight bits is that of
a region with the bytes of the one that is read instead. Where the chips follow one another, a
region that is accepted, is at least a word and does not wrap is memory of the configuration unless
it begins below the first chip, which the range test does not look at. -/
theorem minidump_confined_iff (mdGlobalToc : Option MdGlobalToc) (ddr : DdrInfo)
    (isAuthEnabled oemKey : Bool) (d : DloadDebug) :
    (Confined (addMinidumpRegions mdGlobalToc ddr isAuthEnabled oemKey d) mdGlobalToc ddr
      isAuthEnabled oemKey d ↔ Sound mdGlobalToc ddr isAuthEnabled d) ∧
    ∀ lo hi, Span.Chain lo (ddr.ddrInfo.map DdrChip.span) hi → hi < 2 ^ 64 →
      ∀ r ∈ accepted mdGlobalToc ddr isAuthEnabled,
        r.regionBaseAddress.toNat + r.regionSize.toNat < 2 ^ 64 → 4 ≤ r.regionSize →
        (ddr.Covers ⟨roundDown r.regionBaseAddress.toNat 4, roundDown r.regionSize.toNat 4⟩ ↔
          lo ≤ roundDown r.regionBaseAddress.toNat 4) := by
  refine ⟨?_, fun lo hi hchain hhi r hr => ddr.covers_iff_of_chain hchain hhi
    (accepts_of_accepted hr)⟩
  have hinfo := addMinidumpRegions_info mdGlobalToc ddr isAuthEnabled oemKey d
  have hactions := addMinidumpRegions_actions mdGlobalToc ddr isAuthEnabled oemKey d
  constructor
  · intro h
    refine ⟨?_, ?_⟩
    · intro r hr
      have hmem : entry r ∈ (addMinidumpRegions mdGlobalToc ddr isAuthEnabled oemKey d
          ).table.dloadDebugInfo.drop d.dloadDebugInfo.length := by
        rw [hinfo]
        exact mem_registered_drop.mpr ⟨r, hr, rfl⟩
      obtain ⟨hpos, hcovers⟩ := h.regions _ hmem
      rw [bytesOf_entry] at hcovers
      exact ⟨(entry_length_pos r).mp hpos, hcovers⟩
    · intro hauth i hi
      obtain ⟨e, he, xs, ys, hsplit, -⟩ := h.encrypted hauth i hi
      have hmem : .encrypt e.memBase e.length i ∈
          (addMinidumpRegions mdGlobalToc ddr isAuthEnabled oemKey d).actions := by
        rw [hsplit]
        exact mem_append_right _ mem_cons_self
      obtain ⟨-, f, hf, hbase, hlength⟩ := hactions.encrypt _ _ _ hmem
      rw [index_mod (toEncrypt_lt hi)] at hf
      rw [hinfo] at he hf
      split at hf
      · next hlt => exact .inl hlt
      · exact .inr ⟨e, f, he, hf, hbase.symm, hlength.symm⟩
  · intro h
    refine ⟨?_, ?_, ?_, ?_, ?_, ?_⟩
    · rw [hinfo]
      exact prefix_take_append d.regions_fit
    · intro e he
      rw [hinfo] at he
      obtain ⟨r, hr, rfl⟩ := mem_registered_drop.mp he
      obtain ⟨hsize, hcovers⟩ := h.regions r hr
      rw [bytesOf_entry]
      exact ⟨(entry_length_pos r).mpr hsize, hcovers⟩
    · intro e he
      rw [hinfo] at he
      obtain ⟨r, -, rfl⟩ := mem_registered_drop.mp he
      exact ⟨Nat.lt_trans (dumpRegionName_length r) (by decide), dumpRegionBinName_length r⟩
    · rintro rfl i hi
      rw [if_pos rfl] at hactions
      obtain ⟨base, length, hreads, hencr⟩ := hactions.all i hi
      obtain ⟨e, he, rfl, rfl⟩ := h.reads rfl hinfo hi hreads
      exact ⟨e, he, hencr⟩
    · intro base length i hmem
      obtain ⟨hi, hreads⟩ := hactions.encrypt base length i hmem
      cases isAuthEnabled with
      | false => nomatch hi
      | true => exact ⟨hi, h.reads rfl hinfo hi hreads⟩
    · intro base length hmem
      obtain ⟨i, hi, hreads⟩ := hactions.zero base length hmem
      cases isAuthEnabled with
      | false => nomatch hi
      | true => exact ⟨i, hi, h.reads rfl hinfo hi hreads⟩

end

/-! ## A table of another processor -/

/-- Two gigabytes from `0x80000000` on. -/
def twoGigabytes : DdrInfo := ⟨[⟨0x80000000, 2048⟩], cons_ne_nil _ _⟩

/-- A subsystem whose regions XBL has to encrypt, and nine that are not in use. -/
def oneSubsystem (count : UInt32) (regions : Nat → MdSsRegion) : MdGlobalToc :=
  ⟨⟨1, mdSsEnabled, 0, mdSsEncrReq, count, regions⟩ ::
    replicate 9 ⟨0, 0, 0, 0, 0, fun _ => ⟨[], 0, 0, 0, 0⟩⟩, rfl⟩

/-- A region that lies below memory. -/
def belowMemory : MdSsRegion := ⟨[], 0, mdRegionValid, 0x1000, 0x100⟩

/-- Words of memory, one after the other. -/
def wordOfMemory (i : Nat) : MdSsRegion := ⟨[], 0, mdRegionValid, 0x80000000 + 4 * .ofNat i, 4⟩

/-- One region, below memory. -/
def belowMemoryToc : MdGlobalToc := oneSubsystem 1 fun _ => belowMemory

/-- One region more than eight bits can count. -/
def wordsToc : MdGlobalToc := oneSubsystem 257 wordOfMemory

/-- A region below memory is registered, and of 257 words the last is not encrypted. -/
theorem minidump_not_confined :
    ¬ Confined (addMinidumpRegions (some belowMemoryToc) twoGigabytes true false .boot)
      (some belowMemoryToc) twoGigabytes true false .boot ∧
    ¬ Confined (addMinidumpRegions (some wordsToc) twoGigabytes true false .boot) (some wordsToc)
      twoGigabytes true false .boot := by
  refine ⟨fun h => ?_, fun h => ?_⟩
  · have haccepted : accepted (some belowMemoryToc) twoGigabytes true = [belowMemory] := rfl
    have hmem :
        entry belowMemory ∈ (addMinidumpRegions (some belowMemoryToc) twoGigabytes true false
        .boot).table.dloadDebugInfo.drop DloadDebug.boot.dloadDebugInfo.length := by
      rw [addMinidumpRegions_info]
      refine mem_registered_drop.mpr ⟨belowMemory, ?_, rfl⟩
      rw [haccepted]
      exact mem_singleton_self _
    obtain ⟨-, -, hcovers⟩ := h.regions _ hmem
    obtain ⟨chip, hchip, hlow, -⟩ := hcovers 0x1000 (by rw [bytesOf_entry]; decide)
    cases mem_singleton.mp hchip
    exact absurd hlow (by decide)
  · have haccepted : accepted (some wordsToc) twoGigabytes true =
        (List.range 257).map wordOfMemory := by
      have hfilter : ((List.range 257).map wordOfMemory).filter
          (DloadDebug.accepts twoGigabytes.endAddr) = (List.range 257).map wordOfMemory := by
        rw [filter_eq_self, forall_mem_map]
        decide +kernel
      refine Eq.trans ?_ ((append_nil _).trans hfilter)
      rw [accepted, wordsToc, oneSubsystem, flatMap_cons, MdSsToc.accepted, if_pos (by decide)]
      rfl
    have hinfo : registered (some wordsToc) twoGigabytes true .boot =
        ((List.range 257).map wordOfMemory).map entry := by
      rw [registered, haccepted]
      exact take_of_length_le (by decide +kernel)
    have hindex : 256 ∈ toEncrypt (some wordsToc) twoGigabytes true .boot := by decide +kernel
    obtain ⟨e, he, xs, ys, hsplit, -⟩ := h.encrypted rfl 256 hindex
    have hmem : .encrypt e.memBase e.length 256 ∈
        (addMinidumpRegions (some wordsToc) twoGigabytes true false .boot).actions := by
      rw [hsplit]
      exact mem_append_right _ mem_cons_self
    obtain ⟨-, f, hf, hbase, -⟩ := (addMinidumpRegions_actions _ _ _ _ _).encrypt _ _ _ hmem
    rw [addMinidumpRegions_info, hinfo, map_map, getElem?_map] at he hf
    obtain ⟨i, hi, rfl⟩ := Option.map_eq_some_iff.mp he
    obtain ⟨j, hj, rfl⟩ := Option.map_eq_some_iff.mp hf
    rw [getElem?_range (by decide)] at hi hj
    cases hi
    cases hj
    exact absurd hbase (by decide)

end RamDump
