import BootXf.Lib.Run
import BootXf.Lib.Span
import BootXf.Lib.Word

/-!
# The whitelist tables of the boot loader

`boot_whitelist_prot.c` keeps two static tables of address ranges: the ranges an image body may be
loaded to, and the ranges headers and metadata may be loaded to. A caller replaces a table, adds a
range to it or invalidates it; the loader asks whether a range lies in one entry of a table.

The two families of functions differ in one condition, written here as a parameter `stop`: an
entry of the image table ends the argument array when its size is zero, an entry of the header
table when its start or its size is. `WhitelistOp` names the calls, and `AcceptedEntries` reads
off a history of calls which entries a table should stand for.
-/

namespace XBLLoader

open Lib

/-- `MAX_WHITELIST_TABLE_ENTRIES`. -/
def maxWhitelistTableEntries : Nat := 20

/-- `whitelst_tbl_entry_type`. -/
structure WhitelstTblEntry where
  startAddr : UInt64
  size : UInt64
  deriving DecidableEq, Repr

namespace WhitelstTblEntry

/-- The addresses an entry stands for. -/
def span (e : WhitelstTblEntry) : Span := ⟨e.startAddr.toNat, e.size.toNat⟩

/-- A range that may stand in a table: not empty, and ending below the end of the address space
as `start_addr + size` computes it. -/
def Valid (e : WhitelstTblEntry) : Prop :=
  e.size ≠ 0 ∧ ¬ e.startAddr + e.size < e.startAddr

/-- A valid entry has bytes and does not wrap. -/
theorem valid_iff {e : WhitelstTblEntry} :
    e.Valid ↔ 0 < e.size.toNat ∧ e.startAddr.toNat + e.size.toNat < 2 ^ 64 := by
  unfold Valid
  rw [Ne, uint64_eq_zero, uint64_add_lt_left]
  omega

end WhitelstTblEntry

/-- `whitelist_table`: the entries, of which the first `num_valid_entries` count. -/
structure WhitelistTable where
  numValidEntries : UInt64
  entries : Vector WhitelstTblEntry maxWhitelistTableEntries
  deriving DecidableEq, Repr

namespace WhitelistTable

/-- The zeroed table: as the linker leaves it and as an invalidation leaves it. -/
def zero : WhitelistTable := ⟨0, Vector.replicate _ ⟨0, 0⟩⟩

/-- The entries that count. -/
def valid (t : WhitelistTable) : List WhitelstTblEntry :=
  t.entries.toList.take t.numValidEntries.toNat

/-- The table's law: no more entries than fit, each of them a valid range. -/
structure WF (t : WhitelistTable) : Prop where
  num_le : t.numValidEntries.toNat ≤ maxWhitelistTableEntries
  valid_entry : ∀ e ∈ t.valid, e.Valid

@[simp] theorem valid_zero : zero.valid = [] := rfl

/-- The table that is all zero is well formed. -/
theorem WF_zero : WF zero :=
  ⟨Nat.zero_le _, by simp⟩

end WhitelistTable

open WhitelistTable

/-! ## Operations on one table -/

/-- The loop of the two functions that set a table. `room` is how many entries still fit, so
`room = 0` is `entry_num >= MAX_WHITELIST_TABLE_ENTRIES`; `none` is the wraparound exit. -/
def setLoop (stop : WhitelstTblEntry → Bool) (arr : Nat → WhitelstTblEntry) :
    (room entryNum : Nat) → Vector WhitelstTblEntry maxWhitelistTableEntries →
      Option (Nat × Vector WhitelstTblEntry maxWhitelistTableEntries)
  | 0, entryNum, entries => some (entryNum, entries)
  | room + 1, entryNum, entries =>
      let e := arr entryNum
      if stop e then some (entryNum, entries)
      else if e.startAddr + e.size < e.startAddr then none
      else setLoop stop arr room (entryNum + 1) (entries.setIfInBounds entryNum e)

/-- Replacing a table by the entries of an array, `none` being the NULL pointer. The array is read
as memory from its first entry on, up to the entry that stops the loop. -/
def setWhitelistTable (stop : WhitelstTblEntry → Bool) (arr : Option (Nat → WhitelstTblEntry))
    (t : WhitelistTable) : Bool × WhitelistTable :=
  match arr with
  | none => (false, t)
  | some arr =>
      match setLoop stop arr maxWhitelistTableEntries 0 zero.entries with
      | none => (false, zero)
      | some (entryNum, entries) =>
          -- `num_valid_entries` is only written once at least one entry is in
          if entryNum > 0 then (true, ⟨.ofNat entryNum, entries⟩) else (false, ⟨0, entries⟩)

/-- The local array `{{start_addr,size},{0,0}}` of the single-entry setters. -/
def singleEntryArray (e : WhitelstTblEntry) : Nat → WhitelstTblEntry
  | 0 => e
  | _ + 1 => ⟨0, 0⟩

/-- Replacing a table by one entry. -/
def setWhitelistEntry (stop : WhitelstTblEntry → Bool) (e : WhitelstTblEntry) (t : WhitelistTable) :
    Bool × WhitelistTable :=
  if stop e || e.startAddr + e.size < e.startAddr then (false, t)
  else setWhitelistTable stop (some (singleEntryArray e)) t

/-- Adding one entry to a table. -/
def addWhitelistEntry (stop : WhitelstTblEntry → Bool) (e : WhitelstTblEntry) (t : WhitelistTable) :
    Bool × WhitelistTable :=
  if stop e || e.startAddr + e.size < e.startAddr
      || t.numValidEntries.toNat ≥ maxWhitelistTableEntries then (false, t)
  else
    (true, ⟨t.numValidEntries + 1, t.entries.setIfInBounds t.numValidEntries.toNat e⟩)

/-- `check_range_against_whtlst`. -/
def checkRangeAgainstWhtlst (startAddr size : UInt64) (whitelist : WhitelistTable) : Bool :=
  if size = 0 || startAddr + size < startAddr then false
  else
    whitelist.valid.any fun e =>
      e.startAddr ≤ startAddr && startAddr ≤ e.startAddr + e.size
        && startAddr + size ≤ e.startAddr + e.size

/-! ## The two tables and the functions on them -/

/-- `buffer_type`: which table a range is checked against. -/
inductive BufferType
  | imageBodyType
  | hdrMetaInfoType
  deriving DecidableEq, Repr

/-- The static variables `curr_image_whitelst_tbl` and `hdr_meta_whitelst_tbl`. -/
structure WhitelistState where
  currImageWhitelstTbl : WhitelistTable
  hdrMetaWhitelstTbl : WhitelistTable
  deriving DecidableEq, Repr

/-- Both tables as the program image has them. -/
def WhitelistState.init : WhitelistState := ⟨zero, zero⟩

/-- An image array ends at the first entry of size zero: `!size`. -/
def imgStop (e : WhitelstTblEntry) : Bool := e.size = 0

/-- A header array ends at the first entry without start or size: `!start_addr || !size`. -/
def hdrStop (e : WhitelstTblEntry) : Bool := e.startAddr = 0 || e.size = 0

section Image
variable (s : WhitelistState)

/-- `boot_set_active_img_whitelist_table`. -/
def bootSetActiveImgWhitelistTable (arr : Option (Nat → WhitelstTblEntry)) :
    Bool × WhitelistState :=
  let (ok, t) := setWhitelistTable imgStop arr s.currImageWhitelstTbl
  (ok, { s with currImageWhitelstTbl := t })

/-- `boot_set_entry_as_img_whitelist`. -/
def bootSetEntryAsImgWhitelist (e : WhitelstTblEntry) : Bool × WhitelistState :=
  let (ok, t) := setWhitelistEntry imgStop e s.currImageWhitelstTbl
  (ok, { s with currImageWhitelstTbl := t })

/-- `boot_add_entry_to_active_img_whtlst`. -/
def bootAddEntryToActiveImgWhtlst (e : WhitelstTblEntry) : Bool × WhitelistState :=
  let (ok, t) := addWhitelistEntry imgStop e s.currImageWhitelstTbl
  (ok, { s with currImageWhitelstTbl := t })

/-- `boot_invalidate_img_whitelist`. -/
def bootInvalidateImgWhitelist : WhitelistState :=
  { s with currImageWhitelstTbl := zero }

end Image

section HdrMeta
variable (s : WhitelistState)

/-- `boot_set_active_hdr_meta_whitelist_table`. -/
def bootSetActiveHdrMetaWhitelistTable (arr : Option (Nat → WhitelstTblEntry)) :
    Bool × WhitelistState :=
  let (ok, t) := setWhitelistTable hdrStop arr s.hdrMetaWhitelstTbl
  (ok, { s with hdrMetaWhitelstTbl := t })

/-- `boot_set_entry_as_hdr_meta_whitelist`. -/
def bootSetEntryAsHdrMetaWhitelist (e : WhitelstTblEntry) : Bool × WhitelistState :=
  let (ok, t) := setWhitelistEntry hdrStop e s.hdrMetaWhitelstTbl
  (ok, { s with hdrMetaWhitelstTbl := t })

/-- `boot_add_entry_to_hdr_meta_whtlst`. -/
def bootAddEntryToHdrMetaWhtlst (e : WhitelstTblEntry) : Bool × WhitelistState :=
  let (ok, t) := addWhitelistEntry hdrStop e s.hdrMetaWhitelstTbl
  (ok, { s with hdrMetaWhitelstTbl := t })

/-- `boot_invalidate_hdr_meta_whitelist`. -/
def bootInvalidateHdrMetaWhitelist : WhitelistState :=
  { s with hdrMetaWhitelstTbl := zero }

end HdrMeta

/-- `boot_whitelist_address_range_check`. -/
def bootWhitelistAddressRangeCheck (s : WhitelistState) (startAddr size : UInt64)
    (bufTyp : BufferType) : Bool :=
  if size = 0 || startAddr + size < startAddr then false
  else
    match bufTyp with
    | .imageBodyType => checkRangeAgainstWhtlst startAddr size s.currImageWhitelstTbl
    | .hdrMetaInfoType => checkRangeAgainstWhtlst startAddr size s.hdrMetaWhitelstTbl

end XBLLoader
