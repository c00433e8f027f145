import BootXf.XBLLoader.WhitelistProt

/-!
# What the whitelist tables stand for

Read from the outside, a whitelist table is the list of ranges accepted since the table was last
replaced or invalidated. `acceptedEntries` computes that list from the history of calls and
answers, without looking at the tables; `whitelist_history` shows that the tables hold exactly it
along every run, and the range check then answers for it.

The loop of the setters is handled once: `setLoop_spec` says what it records from any entry on,
and `setWhitelistTable_cases` what a call can do.
-/

namespace XBLLoader

open Lib WhitelistTable
open List (any_eq_true append_assoc getElem?_set_self length_cons mem_append mem_cons mem_singleton
  nil_append take_add_one take_set_of_le take_zero)

/-! ## The entries of an argument array -/

/-- The entries of an argument array from position `n` on, as far as `room` allows: those before
the first one that stops the loop. -/
def arrayEntries (stop : WhitelstTblEntry → Bool) (arr : Nat → WhitelstTblEntry) :
    (room n : Nat) → List WhitelstTblEntry
  | 0, _ => []
  | room + 1, n => if stop (arr n) then [] else arr n :: arrayEntries stop arr room (n + 1)

/-- What a setter is asked to record: the entries before the terminator, at most as many as a
table has room for. -/
def argumentEntries (stop : WhitelstTblEntry → Bool) (arr : Nat → WhitelstTblEntry) :
    List WhitelstTblEntry :=
  arrayEntries stop arr maxWhitelistTableEntries 0

theorem length_arrayEntries_le (stop : WhitelstTblEntry → Bool) (arr : Nat → WhitelstTblEntry) :
    ∀ room n, (arrayEntries stop arr room n).length ≤ room
  | 0, _ => by simp [arrayEntries]
  | room + 1, n => by
      have ih := length_arrayEntries_le stop arr room (n + 1)
      unfold arrayEntries
      split
      · simp
      · simpa using ih

theorem not_stop_of_mem_arrayEntries {stop : WhitelstTblEntry → Bool}
    {arr : Nat → WhitelstTblEntry} {e : WhitelstTblEntry} :
    ∀ {room n}, e ∈ arrayEntries stop arr room n → stop e = false
  | 0, _, h => by simp [arrayEntries] at h
  | room + 1, n, h => by
      unfold arrayEntries at h
      split at h
      · simp at h
      · rename_i hgo
        rcases mem_cons.mp h with rfl | h
        · simpa using hgo
        · exact not_stop_of_mem_arrayEntries h

/-! ## One table -/

section OneTable
variable {stop : WhitelstTblEntry → Bool} {arr : Nat → WhitelstTblEntry} {t : WhitelistTable}

/-- Writing one entry behind the first `n` extends them by that entry. -/
theorem take_setIfInBounds (entries : Vector WhitelstTblEntry maxWhitelistTableEntries)
    {n : Nat} (hn : n < maxWhitelistTableEntries) (e : WhitelstTblEntry) :
    (entries.setIfInBounds n e).toList.take (n + 1) = entries.toList.take n ++ [e] := by
  have hlen : entries.toList.length = maxWhitelistTableEntries := by simp
  have hset : (entries.setIfInBounds n e).toList = entries.toList.set n e := by
    simp [Vector.toList, Vector.toArray_setIfInBounds]
  rw [hset, take_add_one, take_set_of_le (Nat.le_refl n), getElem?_set_self (by omega)]
  rfl

/-- **What the setting loop records.** From position `n` it either meets an entry that wraps, or
writes exactly the entries the array still has behind the first `n`. The induction is on the room
left, with the position running along. -/
theorem setLoop_spec (stop : WhitelstTblEntry → Bool) (arr : Nat → WhitelstTblEntry) :
    ∀ (room n : Nat) (entries : Vector WhitelstTblEntry maxWhitelistTableEntries),
      n + room = maxWhitelistTableEntries →
      (setLoop stop arr room n entries = none ∧
        ∃ e ∈ arrayEntries stop arr room n, e.startAddr + e.size < e.startAddr) ∨
      (∃ entries', setLoop stop arr room n entries =
          some (n + (arrayEntries stop arr room n).length, entries') ∧
        (∀ e ∈ arrayEntries stop arr room n, ¬ e.startAddr + e.size < e.startAddr) ∧
        entries'.toList.take (n + (arrayEntries stop arr room n).length) =
          entries.toList.take n ++ arrayEntries stop arr room n)
  | 0, n, entries, _ => by
      right
      exact ⟨entries, by simp [setLoop, arrayEntries], by simp [arrayEntries],
        by simp [arrayEntries]⟩
  | room + 1, n, entries, hroom => by
      simp only [setLoop, arrayEntries]
      by_cases hstop : stop (arr n)
      · right
        exact ⟨entries, by simp [hstop], by simp [hstop], by simp [hstop]⟩
      · simp only [hstop]
        by_cases hwrap : (arr n).startAddr + (arr n).size < (arr n).startAddr
        · left
          exact ⟨by simp [hwrap], arr n, by simp, hwrap⟩
        · have ih := setLoop_spec stop arr room (n + 1) (entries.setIfInBounds n (arr n))
            (by omega)
          rcases ih with ⟨hnone, e, he, hew⟩ | ⟨entries', hsome, hall, htake⟩
          · left
            exact ⟨by simpa [hwrap] using hnone, e, by simp [he], hew⟩
          · right
            have hlen : n + 1 + (arrayEntries stop arr room (n + 1)).length =
                n + ((arr n) :: arrayEntries stop arr room (n + 1)).length := by
              simp only [length_cons]; omega
            refine ⟨entries', ?_, ?_, ?_⟩
            · simpa [hwrap, hlen] using hsome
            · intro e he
              rcases mem_cons.mp (by simpa using he) with rfl | he
              · exact hwrap
              · exact hall e he
            · rw [hlen, take_setIfInBounds entries (by omega), append_assoc] at htake
              simpa using htake

/-- An entry that neither stops the loop nor wraps is a valid range: the setters of both tables
stop at a size of zero. -/
theorem valid_of_not_stop (hstop : ∀ e, e.size = 0 → stop e = true) {e : WhitelstTblEntry}
    (hgo : stop e = false) (hwrap : ¬ e.startAddr + e.size < e.startAddr) : e.Valid :=
  ⟨fun hz => Bool.false_ne_true (hgo.symm.trans (hstop e hz)), hwrap⟩

/-- **What replacing a table can do.** With an array, it either records the array's entries, all
of them valid, or leaves the zeroed table. -/
theorem setWhitelistTable_cases (hstop : ∀ e, e.size = 0 → stop e = true)
    (arr : Nat → WhitelstTblEntry) (t : WhitelistTable) :
    (∃ t', setWhitelistTable stop (some arr) t = (true, t') ∧ t'.WF ∧
      t'.valid = argumentEntries stop arr) ∨
    setWhitelistTable stop (some arr) t = (false, zero) := by
  have hle := length_arrayEntries_le stop arr maxWhitelistTableEntries 0
  have hmax : maxWhitelistTableEntries = 20 := rfl
  rcases setLoop_spec stop arr maxWhitelistTableEntries 0 zero.entries (by omega) with
    ⟨hnone, -⟩ | ⟨entries', hsome, hall, htake⟩
  · right
    simp only [setWhitelistTable, hnone]
  · simp only [Nat.zero_add, take_zero, nil_append] at hsome htake
    by_cases hpos : (arrayEntries stop arr maxWhitelistTableEntries 0).length > 0
    · left
      have hnum : (UInt64.ofNat (arrayEntries stop arr maxWhitelistTableEntries 0).length).toNat =
          (arrayEntries stop arr maxWhitelistTableEntries 0).length := by
        rw [UInt64.toNat_ofNat', Nat.mod_eq_of_lt (by omega)]
      have hvalid : (WhitelistTable.mk (.ofNat
          (arrayEntries stop arr maxWhitelistTableEntries 0).length) entries').valid =
          argumentEntries stop arr := by
        rw [valid, hnum, htake, argumentEntries]
      refine ⟨_, by simp only [setWhitelistTable, hsome, if_pos hpos], ⟨?_, ?_⟩, hvalid⟩
      · rw [hnum]; exact hle
      · intro e he
        rw [hvalid] at he
        exact valid_of_not_stop hstop (not_stop_of_mem_arrayEntries he) (hall e he)
    · right
      -- the first entry already stops the loop, so no entry was written
      have hfirst : stop (arr 0) = true := by
        cases hgo : stop (arr 0) with
        | true => rfl
        | false => simp [arrayEntries, hmax, hgo] at hpos
      simp [setWhitelistTable, setLoop, hmax, hfirst, zero]

/-- **What replacing a table by one entry can do.** -/
theorem setWhitelistEntry_cases (hstop : ∀ e, e.size = 0 → stop e = true) (e : WhitelstTblEntry)
    (t : WhitelistTable) :
    (∃ t', setWhitelistEntry stop e t = (true, t') ∧ t'.WF ∧ t'.valid = [e] ∧ e.Valid) ∨
    setWhitelistEntry stop e t = (false, t) ∧ (stop e = true ∨ ¬ e.Valid) := by
  by_cases hrej : stop e || e.startAddr + e.size < e.startAddr
  · right
    refine ⟨by simp only [setWhitelistEntry, if_pos hrej], ?_⟩
    simp only [Bool.or_eq_true, decide_eq_true_eq] at hrej
    exact hrej.imp_right fun hwrap hv => hv.2 hwrap
  · left
    simp only [Bool.or_eq_true, decide_eq_true_eq, not_or, Bool.not_eq_true] at hrej
    obtain ⟨hgo, hwrap⟩ := hrej
    have hv : e.Valid := valid_of_not_stop hstop hgo hwrap
    have hend : stop ⟨0, 0⟩ = true := hstop _ rfl
    have hentries : argumentEntries stop (singleEntryArray e) = [e] := by
      simp [argumentEntries, maxWhitelistTableEntries, arrayEntries, singleEntryArray, hgo, hend]
    have hset : setWhitelistEntry stop e t = setWhitelistTable stop
        (some (singleEntryArray e)) t := by
      simp [setWhitelistEntry, hgo, hwrap]
    rcases setWhitelistTable_cases hstop (singleEntryArray e) t with ⟨t', h, hwf, hval⟩ | h
    · exact ⟨t', hset.trans h, hwf, hval.trans hentries, hv⟩
    · -- the setter cannot fail on the local array, whose one entry it has just checked
      exfalso
      simp [setWhitelistTable, setLoop, maxWhitelistTableEntries, singleEntryArray, hgo, hwrap,
        hend] at h

/-- **What adding an entry can do.** -/
theorem addWhitelistEntry_cases (hstop : ∀ e, e.size = 0 → stop e = true) (e : WhitelstTblEntry)
    (hwf : t.WF) :
    (∃ t', addWhitelistEntry stop e t = (true, t') ∧ t'.WF ∧ t'.valid = t.valid ++ [e]) ∨
    addWhitelistEntry stop e t = (false, t) := by
  by_cases hrej : stop e || e.startAddr + e.size < e.startAddr
      || t.numValidEntries.toNat ≥ maxWhitelistTableEntries
  · right
    simp only [addWhitelistEntry, if_pos hrej]
  · left
    have hmax : maxWhitelistTableEntries = 20 := rfl
    refine ⟨_, by simp only [addWhitelistEntry, if_neg hrej]; rfl, ?_⟩
    simp only [Bool.or_eq_true, decide_eq_true_eq, not_or, Bool.not_eq_true] at hrej
    obtain ⟨⟨hgo, hwrap⟩, hroom⟩ := hrej
    have hnum : (t.numValidEntries + 1).toNat = t.numValidEntries.toNat + 1 := by
      rw [uint64_toNat_add (by simp only [UInt64.toNat_one]; omega), UInt64.toNat_one]
    have hvalid : (WhitelistTable.mk (t.numValidEntries + 1)
        (t.entries.setIfInBounds t.numValidEntries.toNat e)).valid = t.valid ++ [e] := by
      rw [valid, hnum, take_setIfInBounds _ (by omega)]
      rfl
    refine ⟨⟨?_, ?_⟩, hvalid⟩
    · rw [hnum]; omega
    · intro d hd
      rw [hvalid] at hd
      rcases mem_append.mp hd with hd | hd
      · exact hwf.valid_entry d hd
      · rw [mem_singleton.mp hd]
        exact valid_of_not_stop hstop hgo hwrap

/-- **The range check, read as inclusion.** On a table that keeps its law, no comparison of the
check wraps, so it asks whether the range lies in one entry. -/
theorem checkRangeAgainstWhtlst_iff (hwf : t.WF) (startAddr size : UInt64) :
    checkRangeAgainstWhtlst startAddr size t = true ↔
      0 < size.toNat ∧ startAddr.toNat + size.toNat < 2 ^ 64 ∧
        ∃ e ∈ t.valid, Span.Within ⟨startAddr.toNat, size.toNat⟩ e.span := by
  by_cases hrej : size = 0 || startAddr + size < startAddr
  · simp only [checkRangeAgainstWhtlst, if_pos hrej]
    simp only [Bool.or_eq_true, decide_eq_true_eq, uint64_add_lt_left, uint64_eq_zero] at hrej
    constructor
    · intro h; cases h
    · rintro ⟨h1, h2, -⟩; omega
  · simp only [checkRangeAgainstWhtlst, if_neg hrej, any_eq_true]
    simp only [Bool.or_eq_true, decide_eq_true_eq, uint64_add_lt_left, uint64_eq_zero, not_or]
      at hrej
    obtain ⟨hsize, hwrap⟩ := hrej
    have hsum := uint64_toNat_add (a := startAddr) (b := size) (by omega)
    refine ⟨fun ⟨e, he, h⟩ => ⟨by omega, by omega, e, he, ?_⟩, fun ⟨_, _, e, he, h⟩ => ⟨e, he, ?_⟩⟩
    all_goals
      have hesum := uint64_toNat_add (WhitelstTblEntry.valid_iff.mp (hwf.valid_entry e he)).2
      simp only [Bool.and_eq_true, decide_eq_true_eq, UInt64.le_iff_toNat_le, hsum, hesum,
        Span.Within, WhitelstTblEntry.span] at h ⊢
      omega

end OneTable

/-! ## Calls, answers and histories -/

/-- What a call asks of its table. -/
inductive WhitelistOp
  | set (arr : Option (Nat → WhitelstTblEntry))
  | setEntry (e : WhitelstTblEntry)
  | add (e : WhitelstTblEntry)
  | invalidate

/-- A call: an operation and the table it is one of. -/
structure WhitelistCall where
  tbl : BufferType
  op : WhitelistOp

/-- Running a call, by the function of the source that the operation names on that table. The
invalidations return nothing, written as `true`. -/
def WhitelistCall.exec (s : WhitelistState) : WhitelistCall → Bool × WhitelistState
  | ⟨.imageBodyType, .set arr⟩ => bootSetActiveImgWhitelistTable s arr
  | ⟨.imageBodyType, .setEntry e⟩ => bootSetEntryAsImgWhitelist s e
  | ⟨.imageBodyType, .add e⟩ => bootAddEntryToActiveImgWhtlst s e
  | ⟨.imageBodyType, .invalidate⟩ => (true, bootInvalidateImgWhitelist s)
  | ⟨.hdrMetaInfoType, .set arr⟩ => bootSetActiveHdrMetaWhitelistTable s arr
  | ⟨.hdrMetaInfoType, .setEntry e⟩ => bootSetEntryAsHdrMetaWhitelist s e
  | ⟨.hdrMetaInfoType, .add e⟩ => bootAddEntryToHdrMetaWhtlst s e
  | ⟨.hdrMetaInfoType, .invalidate⟩ => (true, bootInvalidateHdrMetaWhitelist s)

/-- One event of the whitelist module: a call and its answer. -/
def WhitelistStep (s : WhitelistState) (ev : WhitelistCall × Bool) (t : WhitelistState) : Prop :=
  ev.1.exec s = (ev.2, t)

/-- The table a buffer type is checked against. -/
def WhitelistState.table (s : WhitelistState) : BufferType → WhitelistTable
  | .imageBodyType => s.currImageWhitelstTbl
  | .hdrMetaInfoType => s.hdrMetaWhitelstTbl

/-- The condition that ends an argument array of a table's setter. -/
def BufferType.stop : BufferType → WhitelstTblEntry → Bool
  | .imageBodyType => imgStop
  | .hdrMetaInfoType => hdrStop

/-- What an answered operation makes of the entries accepted before it. A setter that fails on an
array empties the table; one refused for its argument (NULL, or a single entry that is no valid
range) is as if it had not been called. -/
def WhitelistOp.accepted (tbl : BufferType) (prev : List WhitelstTblEntry) :
    WhitelistOp → Bool → List WhitelstTblEntry
  | .set (some arr), true => argumentEntries tbl.stop arr
  | .set (some _), false => []
  | .set none, _ => prev
  | .setEntry e, true => [e]
  | .setEntry _, false => prev
  | .add e, true => prev ++ [e]
  | .add _, false => prev
  | .invalidate, _ => []

/-- **The entries accepted for a table since it was last replaced or invalidated**, read off the
history. -/
def acceptedEntries (tbl : BufferType) : List (WhitelistCall × Bool) → List WhitelstTblEntry
  | [] => []
  | (c, ok) :: older =>
      if c.tbl = tbl then c.op.accepted tbl (acceptedEntries tbl older) ok
      else acceptedEntries tbl older

/-- Setters of either table stop at a size of zero. -/
theorem BufferType.stop_of_size_zero (tbl : BufferType) (e : WhitelstTblEntry) (h : e.size = 0) :
    tbl.stop e = true := by
  cases tbl <;> simp [stop, imgStop, hdrStop, h]

/-- What an operation does to its own table. -/
def WhitelistOp.exec (tbl : BufferType) (t : WhitelistTable) : WhitelistOp → Bool × WhitelistTable
  | .set arr => setWhitelistTable tbl.stop arr t
  | .setEntry e => setWhitelistEntry tbl.stop e t
  | .add e => addWhitelistEntry tbl.stop e t
  | .invalidate => (true, zero)

/-- **The frame of a call.** It acts on its own table as the operation says, and leaves the other
one alone. -/
theorem WhitelistStep.tables {s t : WhitelistState} {c : WhitelistCall} {ok : Bool}
    (h : WhitelistStep s (c, ok) t) :
    c.op.exec c.tbl (s.table c.tbl) = (ok, t.table c.tbl) ∧
      ∀ tbl, tbl ≠ c.tbl → t.table tbl = s.table tbl := by
  obtain ⟨tbl, op⟩ := c
  cases tbl <;> cases op <;> cases h <;>
    exact ⟨rfl, fun tbl hne => by cases tbl <;> first | rfl | exact absurd rfl hne⟩

/-- A table stands for a list of entries: it keeps its law and exactly they count. -/
structure Holds (t : WhitelistTable) (accepted : List WhitelstTblEntry) : Prop where
  wf : t.WF
  valid : t.valid = accepted

theorem Holds.zero : Holds zero [] :=
  ⟨WF_zero, valid_zero⟩

/-- **One operation on one table.** It keeps what the history says the table stands for. -/
theorem Holds.exec {tbl : BufferType} {t t' : WhitelistTable} {prev : List WhitelstTblEntry}
    {ok : Bool} (ht : Holds t prev) (op : WhitelistOp) (h : op.exec tbl t = (ok, t')) :
    Holds t' (op.accepted tbl prev ok) := by
  have hstop := tbl.stop_of_size_zero
  cases op with
  | set arr =>
    cases arr with
    | none =>
      cases h
      exact ht
    | some arr =>
      rcases setWhitelistTable_cases hstop arr t with ⟨_, heq, hwf, hval⟩ | heq
      · cases heq.symm.trans h
        exact ⟨hwf, hval⟩
      · cases heq.symm.trans h
        exact Holds.zero
  | setEntry e =>
    rcases setWhitelistEntry_cases hstop e t with ⟨_, heq, hwf, hval, -⟩ | ⟨heq, -⟩
    · cases heq.symm.trans h
      exact ⟨hwf, hval⟩
    · cases heq.symm.trans h
      exact ht
  | add e =>
    rcases addWhitelistEntry_cases hstop e ht.wf with ⟨_, heq, hwf, hval⟩ | heq
    · cases heq.symm.trans h
      exact ⟨hwf, by rw [hval, ht.valid]; rfl⟩
    · cases heq.symm.trans h
      exact ht
  | invalidate =>
    cases h
    exact Holds.zero

/-- **The tables are what their history says.** Along every run from the zeroed tables, each table
holds exactly the entries accepted for it since it was last replaced or invalidated. -/
theorem whitelist_history {h : List (WhitelistCall × Bool)} {s : WhitelistState}
    (run : Run WhitelistStep .init h s) (tbl : BufferType) :
    Holds (s.table tbl) (acceptedEntries tbl h) := by
  refine run.invariant (P := fun h s => Holds (s.table tbl) (acceptedEntries tbl h)) ?_ ?_
  · cases tbl <;> exact Holds.zero
  · rintro h s ⟨c, ok⟩ t - hs hstep
    obtain ⟨hown, hother⟩ := hstep.tables
    simp only [acceptedEntries]
    split
    · rename_i heq
      subst heq
      exact hs.exec c.op hown
    · rename_i hne
      rw [hother tbl (Ne.symm hne)]
      exact hs

/-- The range check of a buffer type is that of its table. -/
theorem bootWhitelistAddressRangeCheck_eq (s : WhitelistState) (startAddr size : UInt64)
    (tbl : BufferType) :
    bootWhitelistAddressRangeCheck s startAddr size tbl =
      checkRangeAgainstWhtlst startAddr size (s.table tbl) := by
  unfold bootWhitelistAddressRangeCheck
  split
  · rename_i hrej
    simp only [checkRangeAgainstWhtlst, if_pos hrej]
  · cases tbl <;> rfl

/-! ## The law of the tables -/

/-- **The law of the whitelist tables.** In every state a sequence of calls leads to: no table
counts more entries than it has room for, and each is a range that is not empty and does not wrap;
a range check answers TRUE exactly when the range is not empty, does not wrap and lies in one
entry accepted since the table was last replaced or invalidated; a setter given an array records
the entries of the array or leaves the table empty; one refused for its argument leaves the table
as it was; and no call touches the other table. -/
theorem whitelist_tables_law {h : List (WhitelistCall × Bool)} {s : WhitelistState}
    (run : Run WhitelistStep .init h s) :
    (∀ tbl, (s.table tbl).numValidEntries.toNat ≤ maxWhitelistTableEntries ∧
      ∀ e ∈ (s.table tbl).valid, 0 < e.size.toNat ∧ e.startAddr.toNat + e.size.toNat < 2 ^ 64) ∧
    (∀ tbl startAddr size, bootWhitelistAddressRangeCheck s startAddr size tbl = true ↔
      0 < size.toNat ∧ startAddr.toNat + size.toNat < 2 ^ 64 ∧
        ∃ e ∈ acceptedEntries tbl h, Span.Within ⟨startAddr.toNat, size.toNat⟩ e.span) ∧
    (∀ tbl arr ok t, WhitelistStep s (⟨tbl, .set (some arr)⟩, ok) t →
      (t.table tbl).valid = if ok then argumentEntries tbl.stop arr else []) ∧
    (∀ tbl ok t, WhitelistStep s (⟨tbl, .set none⟩, ok) t →
      ok = false ∧ t.table tbl = s.table tbl) ∧
    (∀ tbl e ok t, WhitelistStep s (⟨tbl, .setEntry e⟩, ok) t →
      if ok then (t.table tbl).valid = [e] else t.table tbl = s.table tbl) ∧
    (∀ c ok t, WhitelistStep s (c, ok) t → ∀ tbl, tbl ≠ c.tbl → t.table tbl = s.table tbl) := by
  have hholds := whitelist_history run
  refine ⟨fun tbl => ⟨(hholds tbl).wf.num_le, fun e he => ?_⟩, fun tbl startAddr size => ?_,
    fun tbl arr ok t hstep => ?_, fun tbl ok t hstep => ?_, fun tbl e ok t hstep => ?_,
    fun c ok t hstep => hstep.tables.2⟩
  · exact WhitelstTblEntry.valid_iff.mp ((hholds tbl).wf.valid_entry e he)
  · rw [bootWhitelistAddressRangeCheck_eq, checkRangeAgainstWhtlst_iff (hholds tbl).wf,
      (hholds tbl).valid]
  · have hval := ((hholds tbl).exec _ hstep.tables.1).valid
    rw [hval]
    cases ok <;> rfl
  · have hown : (false, s.table tbl) = (ok, t.table tbl) := hstep.tables.1
    obtain ⟨hok, htbl⟩ := Prod.mk.inj hown
    exact ⟨hok.symm, htbl.symm⟩
  · have hown : setWhitelistEntry tbl.stop e (s.table tbl) = (ok, t.table tbl) := hstep.tables.1
    rcases setWhitelistEntry_cases tbl.stop_of_size_zero e (s.table tbl) with
      ⟨t', heq, -, hval, -⟩ | ⟨heq, -⟩
    · obtain ⟨rfl, rfl⟩ := Prod.mk.inj (heq.symm.trans hown)
      exact hval
    · obtain ⟨rfl, htbl⟩ := Prod.mk.inj (heq.symm.trans hown)
      exact htbl.symm

/-! ## Runs on concrete tables -/

/-- A megabyte at the bottom of DDR. -/
def ddrEntry : WhitelstTblEntry := ⟨0x80000000, 0x100000⟩

/-- The image table after `ddrEntry` was made its only entry. -/
def ddrState : WhitelistState := (bootSetEntryAsImgWhitelist .init ddrEntry).2

/-- An array of `n` pages, ended by a zero entry. -/
def pageArray (n i : Nat) : WhitelstTblEntry :=
  if i < n then ⟨.ofNat (0x1000 * (i + 1)), 0x1000⟩ else ⟨0, 0⟩

/-- What is recorded and what is left, after calls given from the last to the first. -/
def callAll : List WhitelistCall → List (WhitelistCall × Bool) × WhitelistState
  | [] => ([], .init)
  | c :: older =>
    ((c, (c.exec (callAll older).2).1) :: (callAll older).1, (c.exec (callAll older).2).2)

/-- Calls one after the other are a run. -/
theorem callAll_run (cs : List WhitelistCall) :
    Run WhitelistStep .init (callAll cs).1 (callAll cs).2 := by
  induction cs with
  | nil => exact .start
  | cons c older ih => exact .step ih rfl

/-- Calls on both tables, from the last to the first: setters, one of them refused, additions and an
invalidation. -/
def mixedCalls : List WhitelistCall :=
  [⟨.imageBodyType, .add ⟨0x90000000, 0x2000⟩⟩, ⟨.hdrMetaInfoType, .add ⟨0x3000, 0x800⟩⟩,
    ⟨.hdrMetaInfoType, .invalidate⟩, ⟨.imageBodyType, .setEntry ⟨0x1000, 0⟩⟩,
    ⟨.hdrMetaInfoType, .set (some (pageArray 3))⟩, ⟨.imageBodyType, .setEntry ddrEntry⟩,
    ⟨.imageBodyType, .set (some (pageArray 2))⟩]

/-- After these the image table has the entry last set and the one added, the other table the one
added since it was invalidated. -/
theorem whitelist_tables_law_ddr :
    (callAll mixedCalls).1.map (·.2) = [true, true, true, false, true, true, true] ∧
      (∀ startAddr size,
        bootWhitelistAddressRangeCheck (callAll mixedCalls).2 startAddr size .imageBodyType = true ↔
          0 < size.toNat ∧ startAddr.toNat + size.toNat < 2 ^ 64 ∧
            ∃ e ∈ [ddrEntry, ⟨0x90000000, 0x2000⟩],
              Span.Within ⟨startAddr.toNat, size.toNat⟩ e.span) ∧
      ∀ startAddr size,
        bootWhitelistAddressRangeCheck (callAll mixedCalls).2 startAddr size
          .hdrMetaInfoType = true ↔
          0 < size.toNat ∧ startAddr.toNat + size.toNat < 2 ^ 64 ∧
            ∃ e ∈ [(⟨0x3000, 0x800⟩ : WhitelstTblEntry)],
              Span.Within ⟨startAddr.toNat, size.toNat⟩ e.span :=
  have law := (whitelist_tables_law (callAll_run mixedCalls)).2.1
  ⟨by decide, law .imageBodyType, law .hdrMetaInfoType⟩

/-- A setter refused for a NULL argument leaves its table's entries in place, one given more
entries than fit succeeds without the rest, and an invalidation ends what was accepted. -/
theorem whitelist_set_does_not_always_empty_or_record :
    (¬ ∀ h s, Run WhitelistStep .init h s → ∀ tbl arr t,
      WhitelistStep s (⟨tbl, .set arr⟩, false) t → (t.table tbl).valid = []) ∧
    (¬ ∀ h s, Run WhitelistStep .init h s → ∀ tbl arr t,
      WhitelistStep s (⟨tbl, .set (some arr)⟩, true) t →
        ∀ n, (∀ m, m ≤ n → tbl.stop (arr m) = false) → arr n ∈ (t.table tbl).valid) ∧
    (∃ s, Run WhitelistStep .init [(⟨.imageBodyType, .invalidate⟩, true),
        (⟨.imageBodyType, .setEntry ddrEntry⟩, true)] s ∧
      bootWhitelistAddressRangeCheck s ddrEntry.startAddr ddrEntry.size .imageBodyType =
        false) := by
  refine ⟨fun hempty => ?_, fun hrecord => ?_, ?_⟩
  · have h := hempty _ _ (.step .start (rfl : WhitelistStep .init
      (⟨.imageBodyType, .setEntry ddrEntry⟩, true) ddrState)) .imageBodyType none ddrState rfl
    exact absurd h (by decide)
  · have h := hrecord _ _ .start .imageBodyType (pageArray 21) _ rfl 20 (by decide)
    exact absurd h (by decide)
  · exact ⟨_, .step (.step .start rfl) rfl, by decide⟩

end XBLLoader
