import BootXf.Lib.Run
import BootXf.Rpmh.Resources
import Mathlib.Data.Finset.Dedup
import Mathlib.Data.Finset.Card

/-!
# The table of resources in 32 bits

`Resources` takes the table as sorted and looks an address up with exact indices. Here are
`rpmh_find_resource_command` and `rpmh_add_resource_command` as they compute:
`num_resource_commands` is an `unsigned` number, the upper bound of the search starts at `num - 1`
and may wrap below zero, and the new entry is put in by moving the ones behind it.

`rpmh_realloc` takes an `unsigned` number of bytes. Up to `maxCommands` entries this is the table of
`Resources` (`Refines.step`). With one entry more the number of bytes wraps to 8, the block has not
even room for one entry, and the entry is written behind its end (`few_of_run`).
-/

namespace Rpmh

open Lib List Option

/-! ## The table as it is in memory -/

/-- `rpmh.resource_commands` and `rpmh.num_resource_commands`. -/
structure CommandTable where
  commands : List ResourceCommand
  num : UInt32

namespace CommandTable

/-- Before the first vote. -/
def init : CommandTable := ⟨[], 0⟩

/-- `rpmh.resource_commands[i].address`. -/
def addressAt (t : CommandTable) (i : UInt32) : UInt32 :=
  (t.commands.getD i.toNat ⟨0, .new⟩).address

/-- The loop of `rpmh_find_resource_command`, for so many turns at most. -/
def findLoop (t : CommandTable) (address : UInt32) : Nat → UInt32 → UInt32 → Option (Option UInt32)
  | 0, _, _ => none
  | fuel + 1, low, high =>
    if high < t.num ∧ high ≥ low then
      let mid := (low + high) / 2
      let current := t.addressAt mid
      if current < address then findLoop t address fuel (mid + 1) high
      else if current > address then findLoop t address fuel low (mid - 1)
      else some (some mid)
    else some none

/-- `rpmh_find_resource_command`: the index of the entry that it returns, or `NULL`. -/
def rpmhFindResourceCommand (t : CommandTable) (address : UInt32) (fuel : Nat) :
    Option (Option UInt32) :=
  if t.num = 0 then some none else findLoop t address fuel 0 (t.num - 1)

/-- The search returns. -/
def Finds (t : CommandTable) (address : UInt32) (r : Option UInt32) : Prop :=
  ∃ fuel, t.rpmhFindResourceCommand address fuel = some r

/-- `sizeof(rpmh_resource_command_t)`: an address and two pointers. -/
def sizeofResourceCommand : UInt32 := 24

/-- The entries that a block for `num` of them has room for, its size being 32-bit. -/
def slotsOf (num : UInt32) : Nat :=
  (num * sizeofResourceCommand).toNat / sizeofResourceCommand.toNat

/-- `memsmove` of the entries from `i` on by one place, the last of `slots` being free. -/
def moveBehind (slots : List ResourceCommand) (i : Nat) : List ResourceCommand :=
  slots.take (i + 1) ++ (slots.drop i).dropLast

/-- `rpmh_add_resource_command`, and the index of the new entry. What `rpmh_realloc` adds holds
anything; when it fails the driver stops for good. In a block that is too small for all the entries
and the new one, the last of them is moved, or written, behind its end. -/
def rpmhAddResourceCommand (t : CommandTable) (address : UInt32) (fresh : ResourceCommand) :
    Option (CommandTable × UInt32) :=
  let num := t.num + 1
  if slotsOf num < t.num.toNat + 1 then none
  else
    let slots := t.commands ++ [fresh]
    let i := (t.commands.take t.num.toNat).findIdx fun rc => rc.address > address
    let slots := if i < t.num.toNat then moveBehind slots i else slots
    some (⟨slots.set i ⟨address, .new⟩, num⟩, .ofNat i)

/-- `get_rc`, and the index of the entry that it returns. -/
def getRc (t : CommandTable) (address : UInt32) (fresh : ResourceCommand) :
    Option UInt32 → Option (CommandTable × UInt32)
  | some i => some (t, i)
  | none => t.rpmhAddResourceCommand address fresh

/-- Writing to the votes through the pointer to an entry. -/
def write (t : CommandTable) (i : UInt32) (f : DrvVotes → DrvVotes) : CommandTable :=
  { t with commands := t.commands.modify i.toNat fun rc => { rc with votes := f rc.votes } }

end CommandTable

/-- An entry is looked up or added, and its votes are changed. -/
structure Use where
  address : UInt32
  change : DrvVotes → DrvVotes
  /-- What `rpmh_realloc` would add. -/
  fresh : ResourceCommand

/-- A use that returns, and stays in the block. -/
def CommandTable.Step (t : CommandTable) (u : Use) (t' : CommandTable) : Prop :=
  ∃ r s i, t.Finds u.address r ∧ t.getRc u.address u.fresh r = some (s, i) ∧
    t' = s.write i u.change

/-- The votes on an address. -/
def CommandTable.votes (t : CommandTable) (address : UInt32) : Option DrvVotes :=
  (t.commands.find? (·.address = address)).map (·.votes)

/-- The table is as it shall be after the addresses of `used`: it has exactly one entry for each of
them, in increasing order, and the search for any address returns, with the entry of the address if
there is one. -/
structure CommandTable.Right (t : CommandTable) (used : List UInt32) : Prop where
  sorted : t.commands.Pairwise fun a b => a.address < b.address
  entries : ∀ address, (∃ rc ∈ t.commands, rc.address = address) ↔ address ∈ used
  num : t.num.toNat = t.commands.length
  finds : ∀ address, ∃ r, t.Finds address r ∧
    ((∃ i, r = some i) ↔ address ∈ used) ∧
    ∀ i, r = some i → i.toNat < t.commands.length ∧ t.addressAt i = address

/-- **The table is right all along** a sequence of uses: after each of them, which returns, it is
right, and the votes of other entries are as they were. -/
def TableSound (us : List Use) : Prop :=
  ∀ before after, us = before ++ after → ∃ t, Run CommandTable.Step .init before.reverse t ∧
    t.Right (before.map (·.address)) ∧
    ∀ u rest t', after = u :: rest → t.Step u t' → ∀ b ≠ u.address, t'.votes b = t.votes b

/-! ## As long as the block has room -/

/-- The number of entries up to which their number of bytes does not wrap. -/
def maxCommands : Nat := 178956970

/-- The table in memory is the one of `Resources`. -/
structure CommandTable.Refines (t : CommandTable) (r : Resources) : Prop where
  commands : t.commands = r.list
  num : t.num.toNat = r.list.length

/-- What a use does to the abstract table. -/
def Resources.use (r : Resources) (u : Use) : Resources :=
  (r.getRc u.address).put u.address (u.change ((r.getRc u.address).votes u.address))

section
variable {t t' : CommandTable} {r : Resources} {address a : UInt32} {u : Use} {used : List UInt32}
  {us : List Use}

namespace CommandTable

theorem findLoop_mono {low high : UInt32} {x : Option UInt32} {fuel : Nat}
    (h : t.findLoop a fuel low high = some x) : t.findLoop a (fuel + 1) low high = some x := by
  induction fuel generalizing low high with
  | zero => cases h
  | succ fuel ih =>
    rw [findLoop] at h ⊢
    split at h
    · next hguard =>
      rw [if_pos hguard]
      dsimp only at h ⊢
      split at h
      · next hless =>
        rw [if_pos hless]
        exact ih h
      · next hless =>
        rw [if_neg hless]
        split at h
        · next hmore =>
          rw [if_pos hmore]
          exact ih h
        · next hmore => rwa [if_neg hmore]
    · next hguard => rwa [if_neg hguard]

theorem find_mono {x : Option UInt32} {fuel : Nat} (h : t.rpmhFindResourceCommand a fuel = some x)
    (k : Nat) : t.rpmhFindResourceCommand a (fuel + k) = some x := by
  induction k with
  | zero => exact h
  | succ k ih =>
    rw [rpmhFindResourceCommand] at ih ⊢
    split at ih
    · next hzero => rwa [if_pos hzero]
    · next hsome =>
      rw [if_neg hsome]
      exact findLoop_mono ih

/-- The search returns one thing. -/
theorem Finds.unique {x y : Option UInt32} (hx : t.Finds a x) (hy : t.Finds a y) : x = y := by
  obtain ⟨n, hx⟩ := hx
  obtain ⟨m, hy⟩ := hy
  have hx := find_mono hx m
  have hy := find_mono hy n
  rw [Nat.add_comm, hx] at hy
  exact Option.some.inj hy

namespace Refines

theorem addressAt (h : t.Refines r) {i : UInt32} (hi : i.toNat < r.list.length) :
    (t.addressAt i).toNat = (keys r.list).getD i.toNat 0 := by
  simp [CommandTable.addressAt, h.commands, keys, hi]

/-- **The loop is the binary search**, its upper bound being one before the end, also below zero. -/
theorem findLoop (h : t.Refines r) (hfew : r.list.length ≤ 2 ^ 31) {fuel : Nat} {low high : UInt32}
    (hlow : low.toNat ≤ r.list.length) (hhigh : (high + 1).toNat ≤ r.list.length)
    (hfuel : (high + 1).toNat - low.toNat < fuel) :
    t.findLoop a fuel low high =
      some ((searchFrom (keys r.list) a.toNat fuel low.toNat (high + 1).toNat).map
        UInt32.ofNat) := by
  induction fuel generalizing low high with
  | zero => exact absurd hfuel (Nat.not_lt_zero _)
  | succ fuel ih =>
    have hnum := h.num
    rw [CommandTable.findLoop, searchFrom]
    have hguard : (high < t.num ∧ high ≥ low) ↔ low.toNat < (high + 1).toNat := by
      rw [UInt32.lt_iff_toNat_lt, ge_iff_le, UInt32.le_iff_toNat_le, UInt32.toNat_add,
        UInt32.toNat_one]
      rw [UInt32.toNat_add, UInt32.toNat_one] at hhigh
      have := high.toNat_lt
      omega
    by_cases hlt : low.toNat < (high + 1).toNat
    · rw [if_pos (hguard.mpr hlt), if_pos hlt]
      have hstop : (high + 1).toNat = high.toNat + 1 := by
        rw [UInt32.toNat_add, UInt32.toNat_one] at hlt ⊢
        have := high.toNat_lt
        omega
      have hmid : ((low + high) / 2).toNat = (low.toNat + ((high + 1).toNat - 1)) / 2 := by
        rw [UInt32.toNat_div, UInt32.toNat_add, hstop, Nat.add_sub_cancel,
          Nat.mod_eq_of_lt (by omega)]
        rfl
      dsimp only
      rw [← hmid]
      have hin : ((low + high) / 2).toNat < r.list.length := by omega
      simp only [← h.addressAt hin, ← UInt32.lt_iff_toNat_lt, gt_iff_lt]
      split
      · have hnext : ((low + high) / 2 + 1).toNat = ((low + high) / 2).toNat + 1 := by
          rw [UInt32.toNat_add, UInt32.toNat_one, Nat.mod_eq_of_lt (by omega)]
        rw [ih (by omega) hhigh (by omega), hnext]
      · split
        · have hback : (low + high) / 2 - 1 + 1 = (low + high) / 2 := by
            rw [UInt32.sub_add_cancel]
          rw [ih hlow (by rw [hback]; omega) (by rw [hback]; omega), hback]
        · rw [map_some, UInt32.ofNat_toNat]
    · rw [if_neg (fun hg => hlt (hguard.mp hg)), if_neg hlt]
      rfl

/-- **The search** returns what `Resources.find` does. -/
theorem finds (h : t.Refines r) (hfew : r.list.length ≤ 2 ^ 31) (a : UInt32) :
    t.Finds a ((r.find a).map UInt32.ofNat) := by
  refine ⟨r.list.length + 1, ?_⟩
  have hkeys : (keys r.list).length = r.list.length := length_map ..
  rw [rpmhFindResourceCommand, Resources.find, search, hkeys]
  have hnum := h.num
  split
  · next hzero =>
    rw [hzero] at hnum
    rw [← hnum]
    rfl
  · have hback : t.num - 1 + 1 = t.num := by rw [UInt32.sub_add_cancel]
    rw [h.findLoop hfew (by simp) (by rw [hback]; omega) (by rw [hback]; simp; omega), hback, hnum]
    rfl

end Refines

/-- Moving the entries behind a place and writing there puts an entry in. -/
theorem moveBehind_set (l : List ResourceCommand) (x rc : ResourceCommand) {i : Nat}
    (hi : i ≤ l.length) :
    (if i < l.length then moveBehind (l ++ [x]) i else l ++ [x]).set i rc = l.insertIdx i rc := by
  induction l generalizing i with
  | nil =>
    obtain rfl : i = 0 := Nat.le_zero.mp hi
    rfl
  | cons y l ih =>
    cases i with
    | zero => simp [moveBehind, dropLast_cons_of_ne_nil]
    | succ i =>
      have htail := ih (Nat.le_of_succ_le_succ hi)
      rw [insertIdx_succ_cons, ← htail]
      simp only [length_cons, Nat.add_lt_add_iff_right]
      split
      · simp [moveBehind]
      · rfl

theorem Refines.place (h : t.Refines r) (a : UInt32) :
    ((t.commands.take t.num.toNat).findIdx fun rc => rc.address > a) = place
    (keys r.list) a.toNat := by
  rw [h.num, h.commands, List.take_length, Lib.place, keys, findIdx_map]
  rfl

/-- The block has room exactly up to `maxCommands` entries. -/
theorem slotsOf_lt_iff (num : UInt32) : slotsOf (num + 1) < num.toNat + 1 ↔
    maxCommands ≤ num.toNat := by
  have hnum := num.toNat_lt
  rw [slotsOf, sizeofResourceCommand, maxCommands, UInt32.toNat_mul, UInt32.toNat_add]
  simp only [UInt32.reduceToNat]
  omega

/-- **Adding** an address. -/
theorem Refines.add (h : t.Refines r) (hroom : r.list.length < maxCommands)
    (fresh : ResourceCommand) (hnew : r.find a = none) :
    ∃ s i, t.rpmhAddResourceCommand a fresh = some (s, i) ∧ s.Refines (r.add a hnew) ∧
      (r.add a hnew).find a = some i.toNat := by
  have hfew : r.list.length + 1 < 2 ^ 32 := Nat.lt_of_lt_of_le (Nat.succ_lt_succ hroom) (by decide)
  have hle : Lib.place (keys r.list) a.toNat ≤ r.list.length := by
    have hle : Lib.place (keys r.list) a.toNat ≤ (keys r.list).length := findIdx_le_length
    rwa [keys, length_map] at hle
  have hadd : t.rpmhAddResourceCommand a fresh =
      some (⟨(r.add a hnew).list, t.num + 1⟩, .ofNat (Lib.place (keys r.list) a.toNat)) := by
    unfold rpmhAddResourceCommand
    dsimp only
    rw [if_neg (mt (slotsOf_lt_iff _).mp (by rw [h.num]; omega)), h.place, h.num, h.commands,
      moveBehind_set _ _ _ hle]
    rfl
  refine ⟨_, _, hadd, ⟨rfl, ?_⟩, ?_⟩
  · show (t.num + 1).toNat = (r.list.insertIdx _ _).length
    rw [length_insertIdx_of_le_length hle, UInt32.toNat_add, h.num, UInt32.toNat_one,
      Nat.mod_eq_of_lt hfew]
  · refine Resources.find_eq_some_iff.mpr ⟨.new, ?_⟩
    show (r.list.insertIdx _ _)[_]? = _
    rw [UInt32.toNat_ofNat_of_lt' (show _ < 2 ^ 32 by omega), getElem?_insertIdx_self, if_pos hle]

/-- Writing through the pointer to an entry. -/
theorem Refines.write (h : t.Refines r) {i : UInt32} (hi : r.find a = some i.toNat)
    (f : DrvVotes → DrvVotes) : (t.write i f).Refines (r.put a (f (r.votes a))) := by
  obtain ⟨v, hrc⟩ := Resources.find_eq_some_iff.mp hi
  have hvotes : r.votes a = v := by
    rw [Resources.votes, Resources.entry_eq_some_iff.mpr (mem_of_getElem? hrc)]
    rfl
  have hput : (r.put a (f v)).list = r.list.modify i.toNat fun rc => { rc with votes := f v } := by
    unfold Resources.put
    split
    · next hnone =>
      rw [hi] at hnone
      cases hnone
    · next j hj =>
      rw [hi] at hj
      cases hj
      rfl
  rw [hvotes]
  constructor
  · rw [hput, CommandTable.write, h.commands]
    refine ext_getElem? fun j => ?_
    rw [getElem?_modify, getElem?_modify]
    by_cases heq : i.toNat = j
    · rw [← heq, hrc]
      simp
    · simp [heq]
  · rw [hput, length_modify]
    exact h.num

/-- What a use finds or adds is the entry of its address. -/
theorem Refines.getRc (h : t.Refines r) (hfew : r.list.length ≤ maxCommands)
    (hroom : r.find a = none → r.list.length < maxCommands) (fresh : ResourceCommand) :
    ∃ s i, t.getRc a fresh ((r.find a).map UInt32.ofNat) = some (s, i) ∧ s.Refines (r.getRc a) ∧
      (r.getRc a).find a = some i.toNat := by
  have hfew : r.list.length ≤ 178956970 := hfew
  unfold Resources.getRc
  split
  · next i hi =>
    have hlt : i < r.list.length := by
      obtain ⟨v, hrc⟩ := Resources.find_eq_some_iff.mp hi
      exact (List.getElem?_eq_some_iff.mp hrc).1
    refine ⟨t, .ofNat i, by rw [hi]; rfl, h, ?_⟩
    rw [hi, UInt32.toNat_ofNat_of_lt' (show _ < 2 ^ 32 by omega)]
  · next hnone =>
    have hnull : (r.find a).map UInt32.ofNat = none := by rw [hnone]; rfl
    rw [hnull]
    exact h.add (hroom hnone) fresh hnone

/-- **A use** returns, and does what it does to the abstract table. -/
theorem Refines.step (h : t.Refines r) (hfew : r.list.length ≤ maxCommands) (u : Use)
    (hroom : r.find u.address = none → r.list.length < maxCommands) :
    (∃ t', t.Step u t') ∧ ∀ t', t.Step u t' → t'.Refines (r.use u) := by
  have hfinds := h.finds (Nat.le_trans hfew (by decide)) u.address
  obtain ⟨s, i, hgot, hrefines, hfind⟩ := h.getRc hfew hroom u.fresh
  refine ⟨⟨_, _, s, i, hfinds, hgot, rfl⟩, ?_⟩
  rintro t' ⟨x, s', i', hx, hgot', rfl⟩
  obtain rfl := hx.unique hfinds
  cases hgot.symm.trans hgot'
  exact hrefines.write hfind u.change

end CommandTable

/-! ## Sequences of uses -/

namespace Resources

theorem has_getRc : (r.getRc address).Has a ↔ a = address ∨ r.Has a := by
  rw [Has, entry_getRc]
  split
  · next heq => exact ⟨fun _ => .inl heq, fun _ => rfl⟩
  · next hne => exact ⟨.inr, fun hor => hor.resolve_left hne⟩

theorem has_use : (r.use u).Has a ↔ a = u.address ∨ r.Has a := by
  rw [use, has_put (has_getRc.mpr (.inl rfl)), has_getRc]

theorem entry_use (hne : a ≠ u.address) : (r.use u).entry a = r.entry a := by
  rw [use, entry_put (has_getRc.mpr (.inl rfl)), if_neg hne, entry_getRc, if_neg hne]

theorem mem_addresses : a ∈ r.list.map (·.address) ↔ r.Has a := by
  rw [Has, isSome_iff_exists]
  constructor
  · intro hmem
    obtain ⟨⟨b, v⟩, hrc, rfl⟩ := List.mem_map.mp hmem
    exact ⟨v, entry_eq_some_iff.mpr hrc⟩
  · rintro ⟨v, hv⟩
    exact List.mem_map.mpr ⟨⟨a, v⟩, entry_eq_some_iff.mp hv, rfl⟩

/-- The table has as many entries as there are addresses. -/
theorem length_eq (h : ∀ a, r.Has a ↔ a ∈ used) : r.list.length = used.toFinset.card := by
  have hsame : (r.list.map (·.address)).toFinset = used.toFinset := by
    ext a
    rw [List.mem_toFinset, List.mem_toFinset, mem_addresses, h]
  rw [← hsame, toFinset_card_of_nodup addresses_nodup, length_map]

end Resources

namespace CommandTable

/-- **A table that refines** a table of `Resources` is right. -/
theorem Refines.right (h : t.Refines r) (hhas : ∀ a, r.Has a ↔ a ∈ used)
    (hfew : r.list.length ≤ 2 ^ 31) :
    t.Right used := by
  refine ⟨?_, ?_, ?_, ?_⟩
  · rw [h.commands]
    exact (pairwise_map.mp r.sorted).imp UInt32.lt_iff_toNat_lt.mpr
  · intro a
    rw [h.commands, ← hhas, ← Resources.mem_addresses, List.mem_map]
  · rw [h.num, h.commands]
  · intro a
    refine ⟨_, h.finds hfew a, ?_, ?_⟩
    · rw [← hhas, Resources.Has, ← isSome_iff_exists, isSome_map]
      cases hfind : r.find a with
      | none => simp [Resources.entry_eq_none_iff.mpr hfind]
      | some i =>
        obtain ⟨v, hrc⟩ := Resources.find_eq_some_iff.mp hfind
        simp [Resources.entry_eq_some_iff.mpr (mem_of_getElem? hrc)]
    · rintro _ hsome
      obtain ⟨i, hfind, rfl⟩ := map_eq_some_iff.mp hsome
      obtain ⟨v, hrc⟩ := Resources.find_eq_some_iff.mp hfind
      obtain ⟨hlt, hget⟩ := List.getElem?_eq_some_iff.mp hrc
      have hi : (UInt32.ofNat i).toNat = i := UInt32.toNat_ofNat_of_lt' (show _ < 2 ^ 32 by omega)
      rw [CommandTable.addressAt, hi, h.commands]
      refine ⟨hlt, ?_⟩
      simp [hlt, hget]

/-- The votes on an address are those of the abstract table. -/
theorem Refines.votes (h : t.Refines r) : t.votes a = r.entry a := by
  rw [CommandTable.votes, h.commands]
  cases hfind : r.list.find? (·.address = a) with
  | some rc =>
    obtain rfl : rc.address = a := by simpa using find?_some hfind
    exact (Resources.entry_eq_some_iff.mpr (mem_of_find?_eq_some hfind)).symm
  | none =>
    refine (eq_none_iff_forall_not_mem.mpr fun v hv => ?_).symm
    have hmem := Resources.entry_eq_some_iff.mp hv
    exact find?_eq_none.mp hfind _ hmem (by simp)

theorem refines_init : init.Refines .empty := ⟨rfl, rfl⟩

/-- **A use of a table with room.** -/
theorem Refines.step_few (h : t.Refines r) (hhas : ∀ a, r.Has a ↔ a ∈ used)
    (hfew : (u.address :: used).toFinset.card ≤ maxCommands) :
    (∃ t', t.Step u t') ∧ ∀ t', t.Step u t' → t'.Refines (r.use u) := by
  have hlength := Resources.length_eq hhas
  have hle : used.toFinset.card ≤ (u.address :: used).toFinset.card := by
    rw [toFinset_cons]
    exact Finset.card_le_card (Finset.subset_insert _ _)
  refine h.step (by omega) u fun hnone => ?_
  have hnew : u.address ∉ used.toFinset := by
    rw [List.mem_toFinset, ← hhas, Resources.Has, Resources.entry_eq_none_iff.mpr hnone]
    exact Bool.false_ne_true
  rw [toFinset_cons, Finset.card_insert_of_notMem hnew] at hfew
  omega

/-- **Every sequence of uses** of at most `maxCommands` addresses returns, and leaves what it leaves
in the abstract table. -/
theorem exists_run (us : List Use) (hfew : (us.map (·.address)).toFinset.card ≤ maxCommands) :
    ∃ t r, Run Step init us t ∧ t.Refines r ∧ ∀ a, r.Has a ↔ a ∈ us.map (·.address) := by
  induction us with
  | nil =>
    refine ⟨init, .empty, .start, refines_init, fun a => ?_⟩
    simp [Resources.Has]
  | cons u us ih =>
    have hsubset : (us.map (·.address)).toFinset ⊆ ((u :: us).map (·.address)).toFinset := by
      intro a
      simp only [List.mem_toFinset, map_cons]
      exact mem_cons_of_mem _
    obtain ⟨t, r, run, hrefines, hhas⟩ := ih (Nat.le_trans (Finset.card_le_card hsubset) hfew)
    obtain ⟨⟨t', hstep⟩, hnext⟩ := hrefines.step_few hhas hfew
    refine ⟨t', r.use u, run.step hstep, hnext t' hstep, fun a => ?_⟩
    rw [Resources.has_use, hhas, map_cons, mem_cons]

/-! ## One entry more -/

/-- **No run comes to more entries**: to add one, the block must have room for it. -/
theorem few_of_run {us : List Use} (run : Run Step init us t) : t.num.toNat ≤ maxCommands := by
  refine run.state_invariant (P := fun t => t.num.toNat ≤ maxCommands) (by decide) ?_
  rintro t u t' hfew ⟨x, s, i, -, hgot, rfl⟩
  show s.num.toNat ≤ maxCommands
  cases x with
  | some j =>
    cases hgot
    exact hfew
  | none =>
    rw [getRc, rpmhAddResourceCommand] at hgot
    dsimp only at hgot
    split at hgot
    · cases hgot
    · next hroom =>
      cases hgot
      have hlt := Nat.lt_of_not_le (mt (slotsOf_lt_iff t.num).mpr hroom)
      show (t.num + 1).toNat ≤ maxCommands
      rw [UInt32.toNat_add, UInt32.toNat_one]
      exact Nat.le_trans (Nat.mod_le _ _) hlt

theorem Right.length_eq (h : t.Right used) : t.commands.length = used.toFinset.card := by
  have hnodup : (t.commands.map (·.address)).Nodup := by
    refine (pairwise_map.mpr h.sorted).imp ?_
    intro a b hlt heq
    rw [heq] at hlt
    exact UInt32.lt_irrefl _ hlt
  have hsame : (t.commands.map (·.address)).toFinset = used.toFinset := by
    ext a
    rw [List.mem_toFinset, List.mem_toFinset, List.mem_map, h.entries]
  rw [← hsame, toFinset_card_of_nodup hnodup, length_map]

end CommandTable

/-- Where there are many addresses, there is a beginning with any smaller number of them. -/
theorem exists_prefix {k : Nat} (h : k ≤ (us.map (·.address)).toFinset.card) :
    ∃ before after, us = before ++ after ∧ (before.map (·.address)).toFinset.card = k := by
  induction us using reverseRecOn with
  | nil => exact ⟨[], [], rfl, (Nat.le_zero.mp h).symm⟩
  | append_singleton us u ih =>
    by_cases hle : k ≤ (us.map (·.address)).toFinset.card
    · obtain ⟨before, after, rfl, hcard⟩ := ih hle
      exact ⟨before, after ++ [u], append_assoc .., hcard⟩
    · refine ⟨us ++ [u], [], (append_nil _).symm, ?_⟩
      have hone :
          ((us ++ [u]).map (·.address)).toFinset.card ≤ (us.map (·.address)).toFinset.card + 1 := by
        rw [map_append, toFinset_append]
        exact Finset.card_union_le _ _
      omega

/-- **A table that is right all along** has few addresses. -/
theorem TableSound.few (h : TableSound us) :
    (us.map (·.address)).toFinset.card ≤ maxCommands := by
  by_contra hmany
  obtain ⟨before, after, heq, hcard⟩ := exists_prefix (Nat.succ_le_of_lt (Nat.lt_of_not_le hmany))
  obtain ⟨t, run, hright, -⟩ := h before after heq
  have hnum := hright.num.trans (hright.length_eq.trans hcard)
  have hfew := CommandTable.few_of_run run
  omega

/-- **The table of resources is right all along exactly up to `maxCommands` addresses.** -/
theorem tableSound_iff (us : List Use) :
    TableSound us ↔ (us.map (·.address)).toFinset.card ≤ maxCommands := by
  refine ⟨TableSound.few, fun hfew before after heq => ?_⟩
  have hpart : ∀ part : List UInt32, part ⊆ us.map (·.address) →
      part.toFinset.card ≤ maxCommands := by
    intro part hsubset
    refine Nat.le_trans (Finset.card_le_card fun a ha => ?_) hfew
    rw [List.mem_toFinset] at ha ⊢
    exact hsubset ha
  have hbefore : before.reverse.map (·.address) ⊆ us.map (·.address) := by
    rw [heq, map_append, map_reverse]
    exact fun a ha => mem_append_left _ (mem_reverse.mp ha)
  obtain ⟨t, r, run, hrefines, hhas⟩ := CommandTable.exists_run before.reverse (hpart _ hbefore)
  have hless : r.list.length ≤ 2 ^ 31 := by
    rw [Resources.length_eq hhas]
    exact Nat.le_trans (hpart _ hbefore) (by decide)
  refine ⟨t, run, hrefines.right (fun a => ?_) hless, ?_⟩
  · rw [hhas, map_reverse, mem_reverse]
  · intro u rest t' hafter hstep b hne
    have hused : u.address :: before.reverse.map (·.address) ⊆ us.map (·.address) := by
      refine cons_subset.mpr ⟨?_, hbefore⟩
      rw [heq, hafter, map_append]
      exact mem_append_right _ (mem_cons_self ..)
    have hstepped := (hrefines.step_few hhas (hpart _ hused)).2 t' hstep
    rw [hstepped.votes, hrefines.votes, Resources.entry_use hne]

/-- Each of the addresses 0 to `maxCommands` is used once. -/
def manyUses : List Use := (List.range (maxCommands + 1)).map fun n => ⟨.ofNat n, id, ⟨0, .new⟩⟩

/-- The table is not right all along every sequence of uses. -/
theorem not_tableSound : ¬ TableSound manyUses := by
  intro h
  have hfew := h.few
  have hmap : manyUses.map (·.address) = (List.range (maxCommands + 1)).map UInt32.ofNat := by
    rw [manyUses, List.map_map]
    rfl
  have hsmall : maxCommands + 1 < 2 ^ 32 := by decide
  have hnodup : ((List.range (maxCommands + 1)).map UInt32.ofNat).Nodup := by
    refine List.Nodup.map_on ?_ nodup_range
    intro a ha b hb heq
    have ha := mem_range.mp ha
    have hb := mem_range.mp hb
    have heq := congrArg UInt32.toNat heq
    rwa [UInt32.toNat_ofNat_of_lt' (show a < 2 ^ 32 by omega),
      UInt32.toNat_ofNat_of_lt' (show b < 2 ^ 32 by omega)] at heq
  rw [hmap, toFinset_card_of_nodup hnodup, length_map, length_range] at hfew
  omega

end

end Rpmh
