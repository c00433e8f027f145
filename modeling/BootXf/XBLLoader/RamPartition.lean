import BootXf.Lib.Span
import Mathlib.Logic.Function.Basic

/-!
# The table of RAM partitions

`boot_ram_partition.c` fills the table of usable RAM partitions: one entry for each DDR interface
that the DDR driver reports, then one each for IRAM, IMEM and the memory of the boot loader. The
category of the last one is that of the partition its address belongs to.

`addRamPartitions_success` says when all of them are added. Then each interface has its entry, with
its size in bytes unless that is 2⁶⁴ or more, which `ramsize << 20` cuts off.
`get_partition_category` also takes the address right behind an entry for one of its own, and does
not see an entry that ends at 2⁶⁴ or behind it; `categoryRight_iff` says for which tables and
addresses that makes no difference.
-/

namespace XBLLoader

open Lib List Function

/-! ## The table -/

/-- `ram_partition_return_type`. -/
inductive RamPartitionReturn
  | success
  | nullPtrErr
  | outOfBoundPtrErr
  | tableEmptyErr
  | tableFullErr
  | categoryNotExistErr
  | otherErr
  deriving DecidableEq, Repr

/-- `struct ram_partition_entry`. -/
structure RamPartEntry where
  startAddress : UInt64
  length : UInt64
  partitionAttribute : UInt32
  partitionCategory : UInt32
  partitionDomain : UInt32
  partitionType : UInt32
  numPartitions : UInt32
  highestBankBit : UInt8
  minPasrSize : UInt32
  availableLength : UInt64
  deriving DecidableEq, Repr

/-- `RAM_NUM_PART_ENTRIES`. -/
def ramNumPartEntries : UInt32 := 32

/-- `RAM_PARTITION_READWRITE`. -/
def ramPartitionReadwrite : UInt32 := 1

/-- `RAM_PARTITION_DEFAULT_CATEGORY`. -/
def ramPartitionDefaultCategory : UInt32 := 0xFFFFFFFF

/-- `RAM_PARTITION_IRAM`. -/
def ramPartitionIram : UInt32 := 4

/-- `RAM_PARTITION_IMEM`. -/
def ramPartitionImem : UInt32 := 5

/-- `RAM_PARTITION_SDRAM`. -/
def ramPartitionSdram : UInt32 := 14

/-- `RAM_PARTITION_DEFAULT_DOMAIN`. -/
def ramPartitionDefaultDomain : UInt32 := 0

/-- `RAM_PARTITION_SYS_MEMORY`. -/
def ramPartitionSysMemory : UInt32 := 1

/-- `RAM_PARTITION_BOOT_REGION_MEMORY1`. -/
def ramPartitionBootRegionMemory1 : UInt32 := 2

/-- `usable_ram_part_table`: what is in memory from the first entry on, also behind the last one
that there is room for. -/
structure UsableRamPartTable where
  numPartitions : UInt32
  ramPartEntry : Nat → RamPartEntry

namespace UsableRamPartTable

/-- The entries that count. -/
def entries (t : UsableRamPartTable) : List RamPartEntry :=
  (List.range t.numPartitions.toNat).map t.ramPartEntry

/-- Writing to an entry. -/
def put (t : UsableRamPartTable) (i : Nat) (e : RamPartEntry) : UsableRamPartTable :=
  { t with ramPartEntry := update t.ramPartEntry i e }

/-- Writing to an entry, and counting one more. -/
def putNext (t : UsableRamPartTable) (i : Nat) (e : RamPartEntry) : UsableRamPartTable :=
  { t.put i e with numPartitions := t.numPartitions + 1 }

end UsableRamPartTable

/-! ## Adding partitions -/

/-- `sbl_if_shared_ddr_info_type`. -/
structure DdrInfo where
  csAddr : UInt64
  /-- in MB -/
  ramsize : UInt64

/-- `sbl_if_shared_extended_ddr_info_type`. -/
structure ExtendedDdrInfo where
  numPartitions : UInt32
  highestBankBit : UInt32
  sdramAddr : UInt64

/-- `sbl_if_shared_ddr_device_info_type`, and what `boot_ddr_get_granule_size` answers. -/
structure DdrDeviceInfo where
  noofddr : UInt32
  ddrInfo : Nat → DdrInfo
  /-- `none` is the NULL pointer -/
  ddrPartitionInfo : Option (Nat → ExtendedDdrInfo)
  granuleSize : Nat → UInt32

/-- What `add_system_ram_partitions` writes to the entry of an interface. -/
def DdrDeviceInfo.entry (ddr : DdrDeviceInfo) (i : Nat) (e : RamPartEntry) : RamPartEntry :=
  { e with
    partitionCategory := ramPartitionSdram
    startAddress := (ddr.ddrInfo i).csAddr
    length := (ddr.ddrInfo i).ramsize <<< 20
    availableLength := (ddr.ddrInfo i).ramsize <<< 20
    partitionAttribute := ramPartitionReadwrite
    partitionDomain := ramPartitionDefaultDomain
    partitionType := ramPartitionSysMemory
    minPasrSize := ddr.granuleSize i }

/-- What it adds to the entry when there is extended information. -/
def ExtendedDdrInfo.extend (info : ExtendedDdrInfo) (e : RamPartEntry) : RamPartEntry :=
  { e with
    numPartitions := info.numPartitions
    highestBankBit := info.highestBankBit.toUInt8 }

/-- The loop of `add_system_ram_partitions` with so many interfaces left; `slot` is where
`ram_part_entry_ptr` points to. -/
def addSystemLoop (ddr : DdrDeviceInfo) :
    (left partitionIndex slot : Nat) → UsableRamPartTable → RamPartitionReturn × UsableRamPartTable
  | 0, _, _, t => (.success, t)
  | left + 1, partitionIndex, slot, t =>
    if t.numPartitions < ramNumPartEntries then
      let e := ddr.entry partitionIndex (t.ramPartEntry slot)
      match ddr.ddrPartitionInfo with
      | none => addSystemLoop ddr left (partitionIndex + 1) (slot + 1) (t.putNext slot e)
      | some extended =>
        if (extended partitionIndex).sdramAddr ≠ e.startAddress then
          (.categoryNotExistErr, t.put slot e)
        else
          addSystemLoop ddr left (partitionIndex + 1) (slot + 1)
            (t.putNext slot ((extended partitionIndex).extend e))
    else (.success, t)

/-- `add_system_ram_partitions`. -/
def addSystemRamPartitions (ddr : DdrDeviceInfo) (t : UsableRamPartTable) :
    RamPartitionReturn × UsableRamPartTable :=
  addSystemLoop ddr ddr.noofddr.toNat 0 t.numPartitions.toNat t

/-- What `add_single_ram_partition` writes to an entry. -/
def singleEntry (startAddress length : UInt64)
    (partitionAttribute partitionCategory partitionDomain partitionType : UInt32)
    (e : RamPartEntry) : RamPartEntry :=
  { e with
    startAddress, length
    availableLength := length
    partitionAttribute, partitionCategory, partitionDomain, partitionType }

/-- `add_single_ram_partition`. -/
def addSingleRamPartition (t : UsableRamPartTable) (startAddress length : UInt64)
    (partitionAttribute partitionCategory partitionDomain partitionType : UInt32) :
    RamPartitionReturn × UsableRamPartTable :=
  if t.numPartitions < ramNumPartEntries then
    (.success, t.putNext t.numPartitions.toNat (singleEntry startAddress length partitionAttribute
      partitionCategory partitionDomain partitionType (t.ramPartEntry t.numPartitions.toNat)))
  else (.tableFullErr, t)

/-- The address is not below the entry and not above the first one behind it, in 64 bits. -/
def RamPartEntry.reaches (e : RamPartEntry) (memBase : UInt64) : Bool :=
  memBase ≥ e.startAddress && memBase ≤ e.startAddress + e.length

/-- `get_partition_category`, and the category that it stores. -/
def getPartitionCategory (t : UsableRamPartTable) (memBase : UInt64) :
    RamPartitionReturn × UInt32 :=
  match t.entries.find? (·.reaches memBase) with
  | none => (.categoryNotExistErr, ramPartitionDefaultCategory)
  | some e => (.success, e.partitionCategory)

/-- `SCL_IRAM_BASE`. -/
def sclIramBase : UInt64 := 0x14800000

/-- `SCL_IRAM_SIZE`. -/
def sclIramSize : UInt64 := 0x180000

/-- `IMEM_RANGE_START_ADDR`. -/
def imemRangeStartAddr : UInt64 := 0x14680000

/-- `IMEM_RANGE_END_ADDR`. -/
def imemRangeEndAddr : UInt64 := imemRangeStartAddr + 0x40000

/-- `SCL_SBL1_DDR_BASE`. -/
def sclSbl1DdrBase : UInt64 := 0x80700000

/-- `SCL_SBL1_DDR_DATA_BASE`. -/
def sclSbl1DdrDataBase : UInt64 := sclSbl1DdrBase

/-- `SCL_SBL1_DDR_SIZE`. -/
def sclSbl1DdrSize : UInt64 := 0x100000

/-- `add_iram_ram_partition`. -/
def addIramRamPartition (t : UsableRamPartTable) : RamPartitionReturn × UsableRamPartTable :=
  if sclIramSize ≠ 0 then
    addSingleRamPartition t sclIramBase sclIramSize ramPartitionReadwrite ramPartitionIram
      ramPartitionDefaultDomain ramPartitionSysMemory
  else (.success, t)

/-- `add_imem_ram_partition`. -/
def addImemRamPartition (t : UsableRamPartTable) : RamPartitionReturn × UsableRamPartTable :=
  if imemRangeStartAddr ≠ 0 then
    addSingleRamPartition t imemRangeStartAddr (imemRangeEndAddr - imemRangeStartAddr)
      ramPartitionReadwrite ramPartitionImem ramPartitionDefaultDomain ramPartitionSysMemory
  else (.success, t)

/-- `add_boot_region_ram_partition`. -/
def addBootRegionRamPartition (t : UsableRamPartTable) : RamPartitionReturn × UsableRamPartTable :=
  let category := (getPartitionCategory t sclSbl1DdrDataBase).2
  if sclSbl1DdrSize ≠ 0 then
    addSingleRamPartition t sclSbl1DdrBase sclSbl1DdrSize ramPartitionReadwrite category
      ramPartitionDefaultDomain ramPartitionBootRegionMemory1
  else (.success, t)

/-- The next call, unless one has failed. -/
def andThen (r : RamPartitionReturn × UsableRamPartTable)
    (f : UsableRamPartTable → RamPartitionReturn × UsableRamPartTable) :
    RamPartitionReturn × UsableRamPartTable :=
  if r.1 ≠ .success then r else f r.2

/-- `add_ram_partitions`. -/
def addRamPartitions (ddr : DdrDeviceInfo) (t : UsableRamPartTable) :
    RamPartitionReturn × UsableRamPartTable :=
  andThen (andThen (andThen (addSystemRamPartitions ddr t) addIramRamPartition) addImemRamPartition)
    addBootRegionRamPartition

/-! ## What they shall do -/

/-- The entry of a DDR interface. -/
def RamPartEntry.IsDdr (e : RamPartEntry) : Prop :=
  e.partitionCategory = ramPartitionSdram ∧ e.partitionType = ramPartitionSysMemory

instance (e : RamPartEntry) : Decidable e.IsDdr := inferInstanceAs (Decidable (_ ∧ _))

/-- The addresses of an entry. -/
def RamPartEntry.span (e : RamPartEntry) : Span := ⟨e.startAddress.toNat, e.length.toNat⟩

/-- The addresses of an interface. -/
def DdrInfo.span (info : DdrInfo) : Span := ⟨info.csAddr.toNat, info.ramsize.toNat * 2 ^ 20⟩

/-- The new entries of DDR interfaces are those of the interfaces, each once and with its base and
its size in bytes; nothing is written to the earlier entries or behind the last one there is room
for. -/
structure Populated (ddr : DdrDeviceInfo) (t t' : UsableRamPartTable) : Prop where
  interfaces : ((t'.entries.drop t.numPartitions.toNat).filter (·.IsDdr)).map (·.span) =
    (List.range ddr.noofddr.toNat).map fun i => (ddr.ddrInfo i).span
  num : t'.numPartitions ≤ ramNumPartEntries
  earlier : ∀ i < t.numPartitions.toNat, t'.ramPartEntry i = t.ramPartEntry i
  behind : ∀ i ≥ ramNumPartEntries.toNat, t'.ramPartEntry i = t.ramPartEntry i

/-- A table that `add_ram_partitions` accepts is populated. -/
def PopulatedOnSuccess (ddr : DdrDeviceInfo) (t : UsableRamPartTable) : Prop :=
  (addRamPartitions ddr t).1 = .success → Populated ddr t (addRamPartitions ddr t).2

/-- `get_partition_category` succeeds exactly when an entry has the address, with its category. -/
def CategoryRight (t : UsableRamPartTable) (memBase : UInt64) : Prop :=
  ((getPartitionCategory t memBase).1 = .success ↔ ∃ e ∈ t.entries, e.span.Mem memBase.toNat) ∧
    ((getPartitionCategory t memBase).1 = .success → ∃ e ∈ t.entries, e.span.Mem memBase.toNat ∧
      (getPartitionCategory t memBase).2 = e.partitionCategory)

/-! ## The category of an address -/

section
variable {t : UsableRamPartTable} {e : RamPartEntry} {a : UInt64}

/-- The address is in the entry or right behind it, and the entry ends below 2⁶⁴. -/
def RamPartEntry.Touches (e : RamPartEntry) (a : UInt64) : Prop :=
  e.span.base ≤ a.toNat ∧ a.toNat ≤ e.span.stop ∧ e.span.stop < 2 ^ 64

/-- The first entry that the address touches has it, or another one of that category has; and if it
touches none, no entry that begins at it or below goes on to 2⁶⁴. -/
structure UsableRamPartTable.Tells (t : UsableRamPartTable) (a : UInt64) : Prop where
  first : ∀ before e after, t.entries = before ++ e :: after → (∀ b ∈ before, ¬ b.Touches a) →
    e.Touches a → a.toNat < e.span.stop ∨
      ∃ e' ∈ t.entries, e'.span.Mem a.toNat ∧ e'.partitionCategory = e.partitionCategory
  none : (∀ e ∈ t.entries, ¬ e.Touches a) → ∀ e ∈ t.entries, e.span.base ≤ a.toNat →
    e.span.stop < 2 ^ 64

/-- The comparison in 64 bits. An entry whose end wraps has it below its start. -/
theorem RamPartEntry.reaches_iff : e.reaches a = true ↔ e.Touches a := by
  have hstart := e.startAddress.toNat_lt
  have hlength := e.length.toNat_lt
  rw [reaches, Bool.and_eq_true, decide_eq_true_eq, decide_eq_true_eq, ge_iff_le,
    UInt64.le_iff_toNat_le, UInt64.le_iff_toNat_le, UInt64.toNat_add]
  simp only [Touches, span, Span.stop]
  rcases Nat.lt_or_ge (e.startAddress.toNat + e.length.toNat) (2 ^ 64) with hlt | hge
  · rw [Nat.mod_eq_of_lt hlt]
    exact ⟨fun h => ⟨h.1, h.2, hlt⟩, fun h => ⟨h.1, h.2.1⟩⟩
  · rw [Nat.mod_eq_sub_mod hge, Nat.mod_eq_of_lt (by omega)]
    omega

/-- An entry that ends below 2⁶⁴ and has the address is touched by it. -/
theorem RamPartEntry.touches_of_mem (hmem : e.span.Mem a.toNat) (hstop : e.span.stop < 2 ^ 64) :
    e.Touches a :=
  ⟨hmem.1, Nat.le_of_lt hmem.2, hstop⟩

/-- The category of the first entry that is touched is returned. -/
theorem getPartitionCategory_first {before after : List RamPartEntry}
    (hsplit : t.entries = before ++ e :: after) (hbefore : ∀ b ∈ before, ¬ b.Touches a)
    (he : e.Touches a) : getPartitionCategory t a = (.success, e.partitionCategory) := by
  have hfind : t.entries.find? (·.reaches a) = some e := by
    refine find?_eq_some_iff_append.mpr ⟨RamPartEntry.reaches_iff.mpr he, before, after, hsplit, ?_⟩
    intro b hb
    rw [Bool.not_eq_true', Bool.eq_false_iff]
    exact fun hreaches => hbefore b hb (RamPartEntry.reaches_iff.mp hreaches)
  rw [getPartitionCategory, hfind]

/-- When no entry is touched there is none. -/
theorem getPartitionCategory_none (hnone : ∀ e ∈ t.entries, ¬ e.Touches a) :
    getPartitionCategory t a = (.categoryNotExistErr, ramPartitionDefaultCategory) := by
  have hfind : t.entries.find? (·.reaches a) = none :=
    find?_eq_none.mpr fun e he hreaches => hnone e he (RamPartEntry.reaches_iff.mp hreaches)
  rw [getPartitionCategory, hfind]

/-- An address touches no entry, or there is a first one. -/
theorem exists_first_touched (t : UsableRamPartTable) (a : UInt64) :
    (∀ e ∈ t.entries, ¬ e.Touches a) ∨ ∃ before e after, t.entries = before ++ e :: after ∧
      (∀ b ∈ before, ¬ b.Touches a) ∧ e.Touches a := by
  induction t.entries with
  | nil => exact .inl (forall_mem_nil _)
  | cons e l ih =>
    by_cases he : e.Touches a
    · exact .inr ⟨[], e, l, rfl, forall_mem_nil _, he⟩
    · rcases ih with hnone | ⟨before, e', after, rfl, hbefore, he'⟩
      · exact .inl (forall_mem_cons.mpr ⟨he, hnone⟩)
      · exact .inr ⟨e :: before, e', after, rfl, forall_mem_cons.mpr ⟨he, hbefore⟩, he'⟩

/-- **`get_partition_category` is right exactly when the first entry that is touched tells.** -/
theorem categoryRight_iff (t : UsableRamPartTable) (a : UInt64) :
    CategoryRight t a ↔ t.Tells a := by
  constructor
  · rintro ⟨hiff, hcategory⟩
    constructor
    · intro before e after hsplit hbefore he
      rw [getPartitionCategory_first hsplit hbefore he] at hcategory
      obtain ⟨e', hmem, hspan, hsame⟩ := hcategory rfl
      exact .inr ⟨e', hmem, hspan, hsame.symm⟩
    · intro hnone e hmem hbase
      rw [getPartitionCategory_none hnone] at hiff
      refine Nat.lt_of_not_le fun hstop => ?_
      cases hiff.mpr ⟨e, hmem, hbase, Nat.lt_of_lt_of_le a.toNat_lt hstop⟩
  · intro htells
    rcases exists_first_touched t a with hnone | ⟨before, e, after, hsplit, hbefore, he⟩
    · rw [CategoryRight, getPartitionCategory_none hnone]
      refine ⟨⟨fun h => (by cases h), ?_⟩, fun h => (by cases h)⟩
      rintro ⟨e, hmem, hspan⟩
      exact absurd (RamPartEntry.touches_of_mem hspan (htells.none hnone e hmem hspan.1))
        (hnone e hmem)
    · obtain ⟨e', hmem, hspan, hsame⟩ : ∃ e' ∈ t.entries, e'.span.Mem a.toNat ∧
          e'.partitionCategory = e.partitionCategory := by
        rcases htells.first before e after hsplit hbefore he with hlt | hother
        · exact ⟨e, hsplit ▸ mem_append_right _ mem_cons_self, ⟨he.1, hlt⟩, rfl⟩
        · exact hother
      rw [CategoryRight, getPartitionCategory_first hsplit hbefore he]
      exact ⟨⟨fun _ => ⟨e', hmem, hspan⟩, fun _ => rfl⟩, fun _ => ⟨e', hmem, hspan, hsame.symm⟩⟩

end

/-! ## Which tables are populated -/

/-- The extended information on an interface, if there is any, has its base. -/
def DdrDeviceInfo.Agrees (ddr : DdrDeviceInfo) (i : Nat) : Prop :=
  ∀ extended, ddr.ddrPartitionInfo = some extended →
    (extended i).sdramAddr = (ddr.ddrInfo i).csAddr

/-- There is room for all interfaces and three entries more, and the extended information agrees. -/
structure DdrDeviceInfo.Fits (ddr : DdrDeviceInfo) (t : UsableRamPartTable) : Prop where
  room : t.numPartitions.toNat + ddr.noofddr.toNat + 3 ≤ ramNumPartEntries.toNat
  agrees : ∀ i < ddr.noofddr.toNat, ddr.Agrees i

/-- Each interface has less than 2⁶⁴ bytes. -/
def DdrDeviceInfo.Countable (ddr : DdrDeviceInfo) : Prop :=
  ∀ i < ddr.noofddr.toNat, (ddr.ddrInfo i).ramsize.toNat < 2 ^ 44

/-- The entry of an interface when the loop goes on to the next one. -/
def DdrDeviceInfo.fullEntry (ddr : DdrDeviceInfo) (i : Nat) (e : RamPartEntry) : RamPartEntry :=
  match ddr.ddrPartitionInfo with
  | none => ddr.entry i e
  | some extended => (extended i).extend (ddr.entry i e)

section
variable {ddr : DdrDeviceInfo} {t : UsableRamPartTable} {left i slot : Nat}
  {t' : UsableRamPartTable} {r : RamPartitionReturn × UsableRamPartTable}
  {f : UsableRamPartTable → RamPartitionReturn × UsableRamPartTable}

theorem UsableRamPartTable.num_putNext (hroom : t.numPartitions < ramNumPartEntries)
    (e : RamPartEntry) :
    (t.putNext slot e).numPartitions.toNat = t.numPartitions.toNat + 1 := by
  have hlt := UInt32.lt_iff_toNat_lt.mp hroom
  have hmax : ramNumPartEntries.toNat = 32 := rfl
  show (t.numPartitions + 1).toNat = _
  rw [UInt32.toNat_add, UInt32.toNat_one, Nat.mod_eq_of_lt (by omega)]

theorem UsableRamPartTable.entry_putNext_of_ne (e : RamPartEntry) {j : Nat} (hne : j ≠ slot) :
    (t.putNext slot e).ramPartEntry j = t.ramPartEntry j :=
  update_of_ne hne ..

theorem UsableRamPartTable.entry_putNext_self (e : RamPartEntry) :
    (t.putNext slot e).ramPartEntry slot = e :=
  update_self ..

/-- One turn of the loop. -/
theorem addSystemLoop_room (hroom : t.numPartitions < ramNumPartEntries) (h : ddr.Agrees i) :
    addSystemLoop ddr (left + 1) i slot t = addSystemLoop ddr left (i + 1) (slot + 1)
      (t.putNext slot (ddr.fullEntry i (t.ramPartEntry slot))) := by
  rw [addSystemLoop, if_pos hroom, DdrDeviceInfo.fullEntry]
  cases hinfo : ddr.ddrPartitionInfo with
  | none => rfl
  | some extended => exact if_neg (not_not_intro (h extended hinfo))

/-- The loop fails at a chip that disagrees. -/
theorem addSystemLoop_disagrees (hroom : t.numPartitions < ramNumPartEntries) (h : ¬ ddr.Agrees i) :
    (addSystemLoop ddr (left + 1) i slot t).1 = .categoryNotExistErr := by
  rw [addSystemLoop, if_pos hroom]
  cases hinfo : ddr.ddrPartitionInfo with
  | none => exact absurd (fun extended hsome => by rw [hinfo] at hsome; cases hsome) h
  | some extended =>
    dsimp only
    rw [if_pos]
    intro hsame
    refine h fun extended' hsome => ?_
    cases hinfo.symm.trans hsome
    exact hsame

/-- The loop ends when the table is full. -/
theorem addSystemLoop_full (hfull : ¬ t.numPartitions < ramNumPartEntries) :
    addSystemLoop ddr left i slot t = (.success, t) := by
  cases left with
  | zero => rfl
  | succ left => rw [addSystemLoop, if_neg hfull]

/-- The interfaces from `i` on have been added. -/
structure Added (ddr : DdrDeviceInfo) (left i : Nat) (t t' : UsableRamPartTable) : Prop where
  agrees : ∀ k < left, ddr.Agrees (i + k)
  num : t'.numPartitions.toNat = t.numPartitions.toNat + left
  new : ∀ k < left, t'.ramPartEntry (t.numPartitions.toNat + k) =
    ddr.fullEntry (i + k) (t.ramPartEntry (t.numPartitions.toNat + k))
  other : ∀ j, j < t.numPartitions.toNat ∨ t.numPartitions.toNat + left ≤ j →
    t'.ramPartEntry j = t.ramPartEntry j

/-- One entry more is added. -/
theorem Added.next (hroom : t.numPartitions < ramNumPartEntries) (hi : ddr.Agrees i)
    (h : Added ddr left (i + 1) (t.putNext t.numPartitions.toNat
      (ddr.fullEntry i (t.ramPartEntry t.numPartitions.toNat))) t') :
        Added ddr (left + 1) i t t' := by
  obtain ⟨hagrees, hnum, hnew, hother⟩ := h
  rw [UsableRamPartTable.num_putNext hroom] at hnum hnew hother
  refine ⟨fun k hk => ?_, by omega, fun k hk => ?_, fun j hj => ?_⟩
  · cases k with
    | zero => exact hi
    | succ k =>
      rw [Nat.add_comm k 1, ← Nat.add_assoc]
      exact hagrees k (by omega)
  · cases k with
    | zero =>
      rw [Nat.add_zero, Nat.add_zero, hother _ (.inl (Nat.lt_succ_self _))]
      exact UsableRamPartTable.entry_putNext_self _
    | succ k =>
      have h := hnew k (by omega)
      rw [UsableRamPartTable.entry_putNext_of_ne _ (by omega)] at h
      rw [Nat.add_comm k 1, ← Nat.add_assoc, ← Nat.add_assoc]
      exact h
  · rw [hother j (by omega)]
    exact UsableRamPartTable.entry_putNext_of_ne _ (by omega)

/-- The loop breaks off, fills the table or adds all interfaces. -/
theorem addSystemLoop_cases (ddr : DdrDeviceInfo) (left i : Nat) (t : UsableRamPartTable) :
    let r := addSystemLoop ddr left i t.numPartitions.toNat t
    (r.1 = .categoryNotExistErr ∧ ∃ k < left, ¬ ddr.Agrees (i + k)) ∨
      (r.1 = .success ∧ ¬ r.2.numPartitions < ramNumPartEntries ∧
        ramNumPartEntries.toNat ≤ t.numPartitions.toNat + left) ∨
      (r.1 = .success ∧ Added ddr left i t r.2) := by
  induction left generalizing i t with
  | zero =>
    refine .inr (.inr ⟨rfl, fun k hk => absurd hk (Nat.not_lt_zero k), rfl,
      fun k hk => absurd hk (Nat.not_lt_zero k), fun _ _ => rfl⟩)
  | succ left ih =>
    intro r
    by_cases hroom : t.numPartitions < ramNumPartEntries
    · by_cases hi : ddr.Agrees i
      · have hstep : r = _ := addSystemLoop_room hroom hi
        have hnext := ih (i + 1) (t.putNext t.numPartitions.toNat
          (ddr.fullEntry i (t.ramPartEntry t.numPartitions.toNat)))
        rw [UsableRamPartTable.num_putNext hroom, ← hstep] at hnext
        rcases hnext with ⟨herr, k, hk, hbad⟩ | ⟨hok, hfull, hmany⟩ | ⟨hok, hadded⟩
        · refine .inl ⟨herr, k + 1, by omega, ?_⟩
          rw [Nat.add_comm k 1, ← Nat.add_assoc]
          exact hbad
        · exact .inr (.inl ⟨hok, hfull, by omega⟩)
        · exact .inr (.inr ⟨hok, hadded.next hroom hi⟩)
      · exact .inl ⟨addSystemLoop_disagrees hroom hi, 0, by omega, hi⟩
    · have hstop : r = (.success, t) := addSystemLoop_full hroom
      rw [hstop]
      refine .inr (.inl ⟨rfl, hroom, ?_⟩)
      have hle := Nat.le_of_not_lt fun hlt => hroom (UInt32.lt_iff_toNat_lt.mpr hlt)
      omega

/-- Two parts succeed if both do. -/
theorem andThen_success
    :
    (andThen r f).1 = .success ↔ r.1 = .success ∧ (f r.2).1 = .success := by
  rw [andThen]
  split
  · next herr => exact ⟨fun hok => absurd hok herr, fun h => absurd h.1 herr⟩
  · next hok => exact (and_iff_right (Decidable.not_not.mp hok)).symm

theorem andThen_of_success (h : r.1 = .success) :
    andThen r f = f r.2 :=
  if_neg (not_not_intro h)

/-- What is added behind the entries of the interfaces: one entry that is not an interface's. -/
structure AddedOther (t t' : UsableRamPartTable) : Prop where
  num : t'.numPartitions.toNat = t.numPartitions.toNat + 1
  new : ¬ (t'.ramPartEntry t.numPartitions.toNat).IsDdr
  other : ∀ j ≠ t.numPartitions.toNat, t'.ramPartEntry j = t.ramPartEntry j

/-- An entry is added exactly when there is room. -/
theorem addSingle_spec {startAddress length : UInt64} {attr category domain type : UInt32}
    (h : ¬ (category = ramPartitionSdram ∧ type = ramPartitionSysMemory)) :
    let r := addSingleRamPartition t startAddress length attr category domain type
    (r.1 = .success ↔ t.numPartitions < ramNumPartEntries) ∧
    (r.1 = .success → AddedOther t r.2) := by
  rw [addSingleRamPartition]
  split
  · next hroom =>
    refine ⟨iff_of_true rfl hroom,
      fun _ => ⟨UsableRamPartTable.num_putNext hroom _, ?_, fun j hne => ?_⟩⟩
    · rw [UsableRamPartTable.entry_putNext_self]
      exact h
    · exact UsableRamPartTable.entry_putNext_of_ne _ hne
  · next hroom => exact ⟨iff_of_false (fun h => by cases h) hroom, fun h => by cases h⟩

/-- IRAM is added if there is room. -/
theorem addIram_spec (t : UsableRamPartTable) :
    ((addIramRamPartition t).1 = .success ↔ t.numPartitions < ramNumPartEntries) ∧
      ((addIramRamPartition t).1 = .success → AddedOther t (addIramRamPartition t).2) := by
  rw [addIramRamPartition, if_pos (by decide)]
  exact addSingle_spec (by decide)

/-- IMEM is added if there is room. -/
theorem addImem_spec (t : UsableRamPartTable) :
    ((addImemRamPartition t).1 = .success ↔ t.numPartitions < ramNumPartEntries) ∧
      ((addImemRamPartition t).1 = .success → AddedOther t (addImemRamPartition t).2) := by
  rw [addImemRamPartition, if_pos (by decide)]
  exact addSingle_spec (by decide)

/-- The boot region is added if there is room. -/
theorem addBootRegion_spec (t : UsableRamPartTable) :
    ((addBootRegionRamPartition t).1 = .success ↔ t.numPartitions < ramNumPartEntries) ∧
      ((addBootRegionRamPartition t).1 = .success →
        AddedOther t (addBootRegionRamPartition t).2) := by
  rw [addBootRegionRamPartition, if_pos (by decide)]
  exact addSingle_spec fun h => absurd h.2 (by decide)

/-- The interfaces have been added, and three entries behind them. -/
structure AddedAll (ddr : DdrDeviceInfo) (t t' : UsableRamPartTable) : Prop where
  num : t'.numPartitions.toNat = t.numPartitions.toNat + ddr.noofddr.toNat + 3
  new : ∀ k < ddr.noofddr.toNat, t'.ramPartEntry (t.numPartitions.toNat + k) =
    ddr.fullEntry k (t.ramPartEntry (t.numPartitions.toNat + k))
  behind : ∀ k < 3, ¬ (t'.ramPartEntry (t.numPartitions.toNat + ddr.noofddr.toNat + k)).IsDdr
  other : ∀ j, j < t.numPartitions.toNat ∨ t.numPartitions.toNat + ddr.noofddr.toNat + 3 ≤ j →
    t'.ramPartEntry j = t.ramPartEntry j

theorem Added.all {t₀ t₁ t₂ t₃ : UsableRamPartTable} (h : Added ddr ddr.noofddr.toNat 0 t t₀)
    (h₁ : AddedOther t₀ t₁) (h₂ : AddedOther t₁ t₂) (h₃ : AddedOther t₂ t₃) :
    AddedAll ddr t t₃ := by
  have hnum := h.num
  have hnum₁ := h₁.num
  have hnum₂ := h₂.num
  refine ⟨by have := h₃.num; omega, fun k hk => ?_, fun k hk => ?_, fun j hj => ?_⟩
  · rw [h₃.other _ (by omega), h₂.other _ (by omega), h₁.other _ (by omega),
      h.new k hk, Nat.zero_add]
  · obtain rfl | rfl | rfl : k = 0 ∨ k = 1 ∨ k = 2 := by omega
    · rw [h₃.other _ (by omega), h₂.other _ (by omega), Nat.add_zero, ← hnum]
      exact h₁.new
    · rw [h₃.other _ (by omega), ← hnum, ← hnum₁]
      exact h₂.new
    · rw [← hnum, show t₀.numPartitions.toNat + 2 = t₂.numPartitions.toNat by omega]
      exact h₃.new
  · rw [h₃.other _ (by omega), h₂.other _ (by omega), h₁.other _ (by omega), h.other j (by omega)]

/-- **All partitions are added exactly when there is room for them** and the extended information
agrees. -/
theorem addRamPartitions_success (ddr : DdrDeviceInfo) (t : UsableRamPartTable) :
    ((addRamPartitions ddr t).1 = .success ↔ ddr.Fits t) ∧
      ((addRamPartitions ddr t).1 = .success → AddedAll ddr t (addRamPartitions ddr t).2) := by
  have hmax : ramNumPartEntries.toNat = 32 := rfl
  rw [addRamPartitions]
  rcases addSystemLoop_cases ddr ddr.noofddr.toNat 0 t with
    ⟨herr, k, hk, hbad⟩ | ⟨hok, hfull, hmany⟩ | ⟨hok, hadded⟩
  · have hfail : ¬ (addSystemRamPartitions ddr t).1 = .success := by
      rw [addSystemRamPartitions, herr]
      decide
    simp only [andThen_success, hfail, false_and, false_iff, false_implies, and_true]
    intro hfits
    rw [Nat.zero_add] at hbad
    exact hbad (hfits.agrees k hk)
  · have hfail : ¬ (addIramRamPartition (addSystemRamPartitions ddr t).2).1 = .success :=
      fun h => hfull ((addIram_spec _).1.mp h)
    simp only [andThen_success, hfail, and_false, false_and, false_iff, false_implies, and_true]
    intro hfits
    have hroom := hfits.room
    omega
  · have hsystem : (addSystemRamPartitions ddr t).1 = .success := hok
    have hnum : (addSystemRamPartitions ddr t).2.numPartitions.toNat =
        t.numPartitions.toNat + ddr.noofddr.toNat := hadded.num
    obtain ⟨hiram, hiram'⟩ := addIram_spec (addSystemRamPartitions ddr t).2
    obtain ⟨himem, himem'⟩ := addImem_spec (addIramRamPartition (addSystemRamPartitions ddr t).2).2
    obtain ⟨hboot, hboot'⟩ := addBootRegion_spec
      (addImemRamPartition (addIramRamPartition (addSystemRamPartitions ddr t).2).2).2
    rw [UInt32.lt_iff_toNat_lt] at hiram himem hboot
    constructor
    · simp only [andThen_success, andThen_of_success hsystem]
      constructor
      · rintro ⟨⟨h₁, h₂⟩, h₃⟩
        rw [andThen_of_success h₁] at h₃
        have hroom := hboot.mp h₃
        rw [(himem' h₂).num, (hiram' h₁).num, hnum] at hroom
        refine ⟨by omega, fun i hi => ?_⟩
        have hagrees := hadded.agrees i hi
        rwa [Nat.zero_add] at hagrees
      · intro hfits
        have hroom := hfits.room
        have h₁ := hiram.mpr (by omega)
        have h₂ := himem.mpr (by rw [(hiram' h₁).num]; omega)
        have h₃ := hboot.mpr (by rw [(himem' h₂).num, (hiram' h₁).num]; omega)
        rw [andThen_of_success h₁]
        exact ⟨⟨h₁, h₂⟩, h₃⟩
    · intro hall
      obtain ⟨⟨⟨-, h₁⟩, h₂⟩, h₃⟩ : ((_ ∧ _) ∧ _) ∧ _ := by simpa only [andThen_success] using hall
      simp only [andThen_of_success hsystem] at h₂ h₃ ⊢
      rw [andThen_of_success h₁] at h₃ ⊢
      rw [andThen_of_success h₂]
      exact hadded.all (hiram' h₁) (himem' h₂) (hboot' h₃)

/-- `ramsize << CONVERT_TO_BYTE_SHIFT` loses nothing of less than 2⁶⁴ bytes. -/
theorem shiftLeft_eq_iff (x : UInt64) : (x <<< 20).toNat = x.toNat * 2 ^ 20 ↔ x.toNat < 2 ^ 44 := by
  have hlt := x.toNat_lt
  rw [UInt64.toNat_shiftLeft, show (20 : UInt64).toNat % 64 = 20 from rfl, Nat.shiftLeft_eq]
  omega

theorem DdrDeviceInfo.span_fullEntry (ddr : DdrDeviceInfo) (i : Nat) (e : RamPartEntry) :
    (ddr.fullEntry i e).span = ⟨(ddr.ddrInfo i).csAddr.toNat,
      ((ddr.ddrInfo i).ramsize <<< 20).toNat⟩ := by
  rw [fullEntry]
  cases ddr.ddrPartitionInfo with
  | none => rfl
  | some extended => rfl

theorem DdrDeviceInfo.isDdr_fullEntry (ddr : DdrDeviceInfo) (i : Nat) (e : RamPartEntry) :
    (ddr.fullEntry i e).IsDdr := by
  rw [fullEntry]
  cases ddr.ddrPartitionInfo with
  | none => exact ⟨rfl, rfl⟩
  | some extended => exact ⟨rfl, rfl⟩

/-- The entries behind the earlier ones. -/
theorem AddedAll.entries (h : AddedAll ddr t t') :
    ((t'.entries.drop t.numPartitions.toNat).filter (·.IsDdr)).map (·.span) =
      (List.range ddr.noofddr.toNat).map fun i =>
        ⟨(ddr.ddrInfo i).csAddr.toNat, ((ddr.ddrInfo i).ramsize <<< 20).toNat⟩ := by
  have hdrop : t'.entries.drop t.numPartitions.toNat =
      ((List.range ddr.noofddr.toNat).map fun k => t'.ramPartEntry (t.numPartitions.toNat + k)) ++
        (List.range 3).map fun k =>
          t'.ramPartEntry (t.numPartitions.toNat + ddr.noofddr.toNat + k) := by
    rw [UsableRamPartTable.entries, h.num, Nat.add_assoc, range_add, map_append,
      drop_left' (by simp), range_add, map_append, map_append]
    simp only [map_map, Nat.add_assoc]
    rfl
  have hnew : ((List.range ddr.noofddr.toNat).map fun k =>
      t'.ramPartEntry (t.numPartitions.toNat + k)).filter (·.IsDdr) =
        (List.range ddr.noofddr.toNat).map
        fun k => t'.ramPartEntry (t.numPartitions.toNat + k) := by
    refine filter_eq_self.mpr (forall_mem_map.mpr fun k hk => ?_)
    rw [h.new k (mem_range.mp hk)]
    exact decide_eq_true (ddr.isDdr_fullEntry ..)
  have hbehind : ((List.range 3).map fun k =>
      t'.ramPartEntry (t.numPartitions.toNat + ddr.noofddr.toNat + k)).filter (·.IsDdr) = [] := by
    refine filter_eq_nil_iff.mpr (forall_mem_map.mpr fun k hk => ?_)
    exact fun hddr => h.behind k (mem_range.mp hk) (of_decide_eq_true hddr)
  rw [hdrop, filter_append, hnew, hbehind, append_nil, map_map]
  refine map_congr_left fun k hk => ?_
  rw [comp_apply, h.new k (mem_range.mp hk)]
  exact ddr.span_fullEntry ..

theorem AddedAll.populated_iff (hfits : ddr.Fits t) (h : AddedAll ddr t t') :
    Populated ddr t t' ↔ ddr.Countable := by
  have hroom := hfits.room
  have hmax : ramNumPartEntries.toNat = 32 := rfl
  have hsizes : (∀ i ∈ List.range ddr.noofddr.toNat, (⟨(ddr.ddrInfo i).csAddr.toNat,
      ((ddr.ddrInfo i).ramsize <<< 20).toNat⟩ : Span) = (ddr.ddrInfo i).span) ↔ ddr.Countable := by
    refine forall_congr' fun i => ?_
    rw [mem_range, DdrInfo.span, Span.mk.injEq, ← shiftLeft_eq_iff]
    exact imp_congr_right fun _ => and_iff_right rfl
  constructor
  · intro hpopulated
    have hall := h.entries.symm.trans hpopulated.interfaces
    exact hsizes.mp (map_inj_left.mp hall)
  · intro hcountable
    refine ⟨h.entries.trans (map_inj_left.mpr (hsizes.mpr hcountable)), ?_, fun i hi => ?_,
      fun i hi => ?_⟩
    · rw [UInt32.le_iff_toNat_le, h.num]
      omega
    · exact h.other i (.inl hi)
    · exact h.other i (.inr (by omega))

theorem populatedOnSuccess_iff (ddr : DdrDeviceInfo) (t : UsableRamPartTable) :
    PopulatedOnSuccess ddr t ↔ (ddr.Fits t → ddr.Countable) := by
  obtain ⟨hiff, hadded⟩ := addRamPartitions_success ddr t
  constructor
  · intro h hfits
    have hok := hiff.mpr hfits
    exact ((hadded hok).populated_iff hfits).mp (h hok)
  · intro h hok
    have hfits := hiff.mp hok
    exact ((hadded hok).populated_iff hfits).mpr (h hfits)

/-- **What `boot_ram_partition.c` does**: with which interfaces a table is populated when all
partitions are added, and of which table and address the category is right. -/
theorem ramPartition_iff (ddr : DdrDeviceInfo) (t table : UsableRamPartTable) (memBase : UInt64) :
    (PopulatedOnSuccess ddr t ↔ (ddr.Fits t → ddr.Countable)) ∧
      (CategoryRight table memBase ↔ table.Tells memBase) :=
  ⟨populatedOnSuccess_iff ddr t, categoryRight_iff table memBase⟩

end

/-- A gigabyte of memory at `0x80000000`. -/
def gigabyte : UsableRamPartTable where
  numPartitions := 1
  ramPartEntry _ := ⟨0x80000000, 0x40000000, ramPartitionReadwrite, ramPartitionSdram, 0,
    ramPartitionSysMemory, 0, 0, 0, 0x40000000⟩

/-- An interface with 2⁶⁴ bytes. -/
def tooMuch : DdrDeviceInfo where
  noofddr := 1
  ddrInfo _ := ⟨0, 0x100000000000⟩
  ddrPartitionInfo := none
  granuleSize _ := 0

/-- The address right behind the gigabyte is taken for one of its own, and of 2⁶⁴ bytes nothing is
left. -/
theorem ramPartition_not_right : ¬ CategoryRight gigabyte 0xC0000000 ∧
    ¬ PopulatedOnSuccess tooMuch gigabyte := by
  constructor
  · rintro ⟨hiff, -⟩
    obtain ⟨e, hmem, hspan⟩ := hiff.mp rfl
    obtain rfl := mem_singleton.mp hmem
    exact absurd hspan (by decide)
  · intro h
    have hfits : tooMuch.Fits gigabyte := ⟨by decide, fun _ _ _ hsome => by cases hsome⟩
    exact absurd ((populatedOnSuccess_iff _ _).mp h hfits 0 (by decide)) (by decide)

end XBLLoader
