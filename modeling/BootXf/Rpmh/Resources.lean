import BootXf.Lib.SortedKeys
import BootXf.Rpmh.Votes
import Mathlib.Data.List.InsertIdx
import Mathlib.Data.List.Nodup

/-!
# The table of resources

`rpmh.resource_commands`, in the order of the addresses, with the voter of the one DRV on each of
them. What the table says of an address is its `entry`; looking it up is a binary search
(`Resources.entry_eq_some_iff`), and what the operations do is said by the `entry` behind them.
-/

namespace Rpmh

open Lib List Option

/-- `rpmh_resource_command_t`. -/
structure ResourceCommand where
  address : UInt32
  votes : DrvVotes

/-- The keys of the table. -/
def keys (list : List ResourceCommand) : List Nat := list.map fun rc => rc.address.toNat

/-- Votes are no part of the keys. -/
theorem keys_modify (list : List ResourceCommand) (i : Nat) (v : DrvVotes) :
    keys (list.modify i fun rc => { rc with votes := v }) = keys list := by
  refine ext_getElem? fun j => ?_
  rw [keys, keys, getElem?_map, getElem?_map, getElem?_modify]
  cases list[j]? with
  | none => rfl
  | some rc =>
    show some (if i = j then _ else rc).address.toNat = some rc.address.toNat
    split <;> rfl

/-- `resource_commands`, with `num_resource_commands` entries. -/
structure Resources where
  list : List ResourceCommand
  sorted : Sorted (keys list)

namespace Resources

/-- No resources. -/
def empty : Resources := ⟨[], .nil⟩

/-- `rpmh_find_resource_command`, as an index. -/
def find (t : Resources) (address : UInt32) : Option Nat :=
  search (keys t.list) address.toNat

/-- The voter on an address. -/
def entry (t : Resources) (address : UInt32) : Option DrvVotes :=
  (t.find address).bind fun i => t.list[i]?.map (·.votes)

/-- `rpmh_add_resource_command`, for an address that is new. -/
def add (t : Resources) (address : UInt32) (h : t.find address = none) : Resources where
  list := t.list.insertIdx (place (keys t.list) address.toNat) ⟨address, .new⟩
  sorted := by
    rw [keys, map_insertIdx]
    exact t.sorted.insertIdx (t.sorted.search_eq_none_iff.mp h)

/-- `get_rc`. -/
def getRc (t : Resources) (address : UInt32) : Resources :=
  match h : t.find address with
  | some _ => t
  | none => t.add address h

/-- Writing through the pointer to a voter. -/
def put (t : Resources) (address : UInt32) (v : DrvVotes) : Resources :=
  match t.find address with
  | none => t
  | some i =>
    { list := t.list.modify i fun rc => { rc with votes := v }
      sorted := by
        rw [keys_modify]
        exact t.sorted }

/-- The lookup that most functions begin with. -/
def voter (t : Resources) (address : UInt32) : Except Fatal DrvVotes :=
  match t.entry address with
  | none => .error .ptr
  | some v => .ok v

/-- `rpmh_resource_command_update`, of an address that is added when it is new. -/
def update (t : Resources) (set : RpmhSet) (explicitCmd : Bool) (address data : UInt32) :
    Resources × Bool :=
  let t := t.getRc address
  let v := ((t.entry address).getD .new).update address set data explicitCmd
  (t.put address v, (v.localVotes set).dirty.isDirty)

/-- `rpmh_resource_command_val_at_rpmh`. -/
def valAtRpmh (t : Resources) (address : UInt32) (set : RpmhSet) (amc : Bool) :
    Except Fatal (UInt32 × Resources) := do
  let v ← t.voter address
  let (data, v) ← v.valAtRpmh set amc
  return (data, t.put address v)

/-- `rpmh_resource_command_finish`. -/
def finish (t : Resources) (address : UInt32) : Except Fatal Resources := do
  let v ← t.voter address
  return t.put address (v.finish address)

/-! ## Entries -/

variable {t : Resources} {address b data : UInt32} {v : DrvVotes} {set : RpmhSet}
  {explicitCmd : Bool}

/-- An index that has been found. -/
theorem find_eq_some_iff {i : Nat} :
    t.find address = some i ↔ ∃ v, t.list[i]? = some ⟨address, v⟩ := by
  rw [find, t.sorted.search_eq_some_iff, keys, getElem?_map]
  constructor
  · intro h
    obtain ⟨⟨a, v⟩, hrc, haddress⟩ := map_eq_some_iff.mp h
    cases UInt32.toNat_inj.mp haddress
    exact ⟨v, hrc⟩
  · rintro ⟨v, hrc⟩
    rw [hrc]
    rfl

/-- An entry is one of the table. -/
theorem entry_eq_some_iff : t.entry address = some v ↔ ⟨address, v⟩ ∈ t.list := by
  unfold entry
  constructor
  · intro h
    obtain ⟨i, hi, hv⟩ := bind_eq_some_iff.mp h
    obtain ⟨w, hrc⟩ := find_eq_some_iff.mp hi
    rw [hrc] at hv
    cases hv
    exact mem_of_getElem? hrc
  · intro h
    obtain ⟨i, hi⟩ := mem_iff_getElem?.mp h
    rw [find_eq_some_iff.mpr ⟨v, hi⟩, bind_some, hi]
    rfl

theorem entry_eq_none_iff : t.entry address = none ↔ t.find address = none := by
  unfold entry
  rcases h : t.find address with _ | i
  · simp
  · obtain ⟨w, hrc⟩ := find_eq_some_iff.mp h
    simp [hrc]

@[simp] theorem entry_empty : empty.entry address = none := by
  rw [entry_eq_none_iff]
  rfl

/-- A new resource. -/
theorem entry_add {h : t.find address = none} :
    (t.add address h).entry b = if b = address then some .new else t.entry b := by
  have hmem : ∀ rc, rc ∈ (t.add address h).list ↔ rc = ⟨address, .new⟩ ∨ rc ∈ t.list := fun rc =>
    List.mem_insertIdx (by
      have hle : place (keys t.list) address.toNat ≤ (keys t.list).length :=
        findIdx_le_length
      rwa [keys, length_map] at hle)
  apply Option.ext
  intro v
  rw [entry_eq_some_iff, hmem]
  split
  · next heq =>
    subst heq
    rw [some_inj]
    refine ⟨fun hor => ?_, fun heq => .inl (heq ▸ rfl)⟩
    rcases hor with heq | hold
    · exact (congrArg ResourceCommand.votes heq).symm
    · rw [← entry_eq_some_iff, entry_eq_none_iff.mpr h] at hold
      cases hold
  · next hne =>
    rw [entry_eq_some_iff]
    refine ⟨fun hor => hor.resolve_left fun heq => hne ?_, .inr⟩
    exact congrArg ResourceCommand.address heq

/-- `get_rc` adds what is not there. -/
theorem entry_getRc :
    (t.getRc address).entry b =
      if b = address then some ((t.entry address).getD .new) else t.entry b := by
  unfold getRc
  split
  · next i hi =>
    obtain ⟨v, hrc⟩ := find_eq_some_iff.mp hi
    have hentry := entry_eq_some_iff.mpr (mem_of_getElem? hrc)
    split
    · next heq => rw [heq, hentry, getD_some]
    · rfl
  · next hnone =>
    rw [entry_add, entry_eq_none_iff.mpr hnone, getD_none]

/-- Writing to an entry. -/
theorem entry_put (h : (t.entry address).isSome) :
    (t.put address v).entry b = if b = address then some v else t.entry b := by
  have hfind : ∀ b, (t.put address v).find b = t.find b := by
    intro b
    unfold put
    split
    · rfl
    · exact congrArg (search · b.toNat) (keys_modify ..)
  obtain ⟨w, hw⟩ := isSome_iff_exists.mp h
  obtain ⟨i, hi, -⟩ := bind_eq_some_iff.mp hw
  have hlist : (t.put address v).list = t.list.modify i fun rc => { rc with votes := v } := by
    unfold put
    split
    · next hnone =>
      rw [hi] at hnone
      cases hnone
    · next j hj =>
      rw [hi] at hj
      cases hj
      rfl
  unfold entry
  rw [hfind]
  rcases hb : t.find b with _ | j
  · split
    · next heq =>
      rw [heq, hi] at hb
      cases hb
    · rfl
  · obtain ⟨w', hj⟩ := find_eq_some_iff.mp hb
    rw [bind_some, bind_some, hlist]
    rcases Decidable.em (b = address) with rfl | hne
    · rw [hi] at hb
      cases hb
      rw [if_pos rfl, getElem?_modify_eq, hj]
      rfl
    · have hij : i ≠ j := by
        rintro rfl
        obtain ⟨w₁, hrc⟩ := find_eq_some_iff.mp hi
        rw [hrc] at hj
        cases hj
        exact hne rfl
      rw [if_neg hne, getElem?_modify_ne _ _ hij]

/-! ## Voters -/

/-- The voter on an address, which is as good as new when nobody has voted. -/
def votes (t : Resources) (address : UInt32) : DrvVotes := (t.entry address).getD .new

/-- What the driver takes RPMh to have. -/
def atRpmh (t : Resources) (address : UInt32) : Option UInt32 :=
  if (t.votes address).voteAtRpmh.valid then some (t.votes address).voteAtRpmh.data else none

/-- Somebody has voted. -/
def Has (t : Resources) (address : UInt32) : Prop := (t.entry address).isSome

theorem Has.voter (h : t.Has address) : t.voter address = .ok (t.votes address) := by
  obtain ⟨v, hv⟩ := isSome_iff_exists.mp h
  rw [Resources.voter, votes, hv]
  rfl

@[simp] theorem votes_empty : empty.votes address = .new := by
  rw [votes, entry_empty]
  rfl

theorem votes_put (h : t.Has address) :
    (t.put address v).votes b = if b = address then v else t.votes b := by
  rw [votes, entry_put h]
  split
  · rfl
  · rfl

theorem has_put (h : t.Has address) : (t.put address v).Has b ↔ t.Has b := by
  rw [Has, entry_put h]
  split
  · next heq => exact ⟨fun _ => heq ▸ h, fun _ => rfl⟩
  · rfl

/-- A vote. -/
theorem votes_update :
    (t.update set explicitCmd address data).1.votes b =
      if b = address then (t.votes address).update address set data explicitCmd else t.votes b := by
  have hentry : ∀ b, (t.getRc address).entry b =
      if b = address then some (t.votes address) else t.entry b := fun b => entry_getRc
  have hself : (t.getRc address).entry address = some (t.votes address) := by
    rw [hentry, if_pos rfl]
  unfold update
  dsimp only
  rw [votes_put (by rw [Has, hself]; rfl), hself, getD_some]
  split
  · rfl
  · next hne => rw [votes, hentry, if_neg hne, votes]

theorem has_update :
    (t.update set explicitCmd address data).1.Has b ↔ b = address ∨ t.Has b := by
  have hself : (t.getRc address).entry address = some (t.votes address) :=
    entry_getRc.trans (if_pos rfl)
  unfold update
  dsimp only
  rw [has_put (by rw [Has, hself]; rfl), Has, entry_getRc]
  split
  · next heq => exact ⟨fun _ => .inl heq, fun _ => rfl⟩
  · next hne => exact ⟨.inr, fun hor => hor.resolve_left hne⟩

/-- The result of a vote. -/
theorem update_snd :
    (t.update set explicitCmd address data).2 =
      (((t.votes address).update address set data explicitCmd).localVotes set).dirty.isDirty := by
  have hself : (t.getRc address).entry address = some (t.votes address) :=
    entry_getRc.trans (if_pos rfl)
  unfold update
  dsimp only
  rw [hself, getD_some]

theorem addresses_nodup : (t.list.map (·.address)).Nodup := by
  have hkeys : ((t.list.map (·.address)).map UInt32.toNat).Nodup := by
    rw [List.map_map]
    exact t.sorted.nodup
  exact hkeys.of_map _

end Resources

end Rpmh
