import BootXf.Lib.Run

/-!
# Local channel ids

`glinki_add_ch_to_xport` gives a channel that is new on a transport the next local id that no open
channel has. The search starts at `free_lcid`, begins anew at the head of the list whenever the id
is taken, and goes from `max_lcid - 1` back to 1. The room check before it counts contexts, and
there are only `max_lcid - 1` ids: with that many channels open the search does not end.
-/

namespace GLink.Channels

open Lib List Option

/-- `glink_local_state_type`. -/
inductive LocalState
  | init | closed | opening | opened | closing
  deriving DecidableEq

/-- `glink_remote_state_type`. -/
inductive RemoteState
  | init | closed | opened | ssrReset
  deriving DecidableEq

/-- The part of `glink_channel_ctx_type` that opening and closing read and write. -/
structure ChannelCtx where
  name : String
  lcid : UInt32
  rcid : UInt32
  refCount : UInt32
  localState : LocalState
  remoteState : RemoteState
  deriving DecidableEq

/-- The part of `glink_core_xport_ctx_type` that concerns the open channels. -/
structure XportCtx where
  maxLcid : UInt32
  freeLcid : UInt32
  openList : List ChannelCtx
  deriving DecidableEq

/-- `glink_core_register_transport`, which refuses a transport without channel ids. -/
def registerTransport (maxCid : UInt32) : Option XportCtx :=
  if maxCid = 0 then none else some ⟨maxCid, 1, []⟩

/-- The contexts that `glinki_find_ch_ctx_by_name` goes past: of another name, or left behind by a
restart. -/
def ChannelCtx.passed (c : ChannelCtx) (name : String) : Prop :=
  c.name ≠ name ∨ c.remoteState = .ssrReset

/-- The side that opens the channel has not opened it yet. -/
def ChannelCtx.joinable (c : ChannelCtx) (localOpen : Bool) : Prop :=
  (localOpen = true ∧ c.localState = .init) ∨ (localOpen = false ∧ c.remoteState = .init)

/-- The side that opens the channel has it open. -/
def ChannelCtx.inUse (c : ChannelCtx) (localOpen : Bool) : Prop :=
  (localOpen = true ∧ c.localState ≠ .closed) ∨ (localOpen = false ∧ c.remoteState ≠ .closed)

instance (c : ChannelCtx) (name : String) : Decidable (c.passed name) :=
  inferInstanceAs (Decidable (_ ∨ _))

instance (c : ChannelCtx) (localOpen : Bool) : Decidable (c.joinable localOpen) :=
  inferInstanceAs (Decidable (_ ∨ _))

instance (c : ChannelCtx) (localOpen : Bool) : Decidable (c.inUse localOpen) :=
  inferInstanceAs (Decidable (_ ∨ _))

/-- `glinki_find_ch_ctx_by_name` from the `i`-th context on: `none` for an invalid call, otherwise
the index of the context that was found, if there is one. -/
def findChCtxByName (name : String) (localOpen : Bool) :
    List ChannelCtx → Nat → Option Nat → Option (Option Nat)
  | [], _, found => some found
  | c :: rest, i, found =>
    if c.passed name then findChCtxByName name localOpen rest (i + 1) found
    else if c.joinable localOpen then findChCtxByName name localOpen rest (i + 1) (some i)
    else if c.inUse localOpen then none
    else findChCtxByName name localOpen rest (i + 1) found

/-- `free_lcid++`, back to 1 at the end. -/
def nextLcid (maxLcid lcid : UInt32) : UInt32 :=
  if lcid + 1 ≥ maxLcid then 1 else lcid + 1

/-- The loop that looks for an id, with the rest of the list that is still to be compared. -/
def searchLcid (x : XportCtx) : Nat → List ChannelCtx → UInt32 → Option UInt32
  | 0, _, _ => none
  | _ + 1, [], lcid => some lcid
  | fuel + 1, c :: rest, lcid =>
    if c.lcid = lcid then searchLcid x fuel x.openList (nextLcid x.maxLcid lcid)
    else searchLcid x fuel rest lcid

/-- The id for a new channel, and the transport with the next `free_lcid`. -/
def allocLcid (x : XportCtx) (fuel : Nat) : Option (UInt32 × XportCtx) := do
  let lcid ← searchLcid x fuel x.openList x.freeLcid
  pure (lcid, { x with freeLcid := nextLcid x.maxLcid lcid })

/-- `glinki_channel_ref_release`: with its last reference a context leaves the list. -/
def channelRefRelease (x : XportCtx) (i : Nat) : XportCtx :=
  match x.openList[i]? with
  | none => x
  | some c =>
    if c.refCount - 1 = 0 then { x with openList := x.openList.eraseIdx i }
    else { x with openList := x.openList.set i { c with refCount := c.refCount - 1 } }

/-- The errors of opening a channel. -/
inductive Status
  | success | failure | outOfResources
  deriving DecidableEq

/-- What the transport answers: `channel_init` and `tx_cmd_ch_open`. -/
structure Answers where
  channelInit : Bool
  txCmdChOpen : Bool

/-- A channel that is new on the transport. -/
def addNewCh (x : XportCtx) (fuel : Nat) (name : String) (rcid : UInt32) (localOpen : Bool)
    (a : Answers) : Option (Status × XportCtx) :=
  if x.openList.length ≥ x.maxLcid.toNat then some (.outOfResources, x)
  else do
    let (lcid, x') ← allocLcid x fuel
    let ch : ChannelCtx :=
      { name, lcid, rcid
        refCount := 1
        localState := if localOpen then .opening else .init
        remoteState := if localOpen then .init else .opened }
    if localOpen = false ∧ a.channelInit = false then pure (.failure, x')
    else
      let opened := { x' with openList := x'.openList ++ [ch] }
      if localOpen = true ∧ a.txCmdChOpen = false then
        pure (.failure, channelRefRelease opened x.openList.length)
      else pure (.success, opened)

/-- A channel that the other side has opened, or that is opened by the other side now: the `i`-th
context is replaced by one with the same id, or gets its second reference. -/
def joinCh (x : XportCtx) (i : Nat) (name : String) (rcid : UInt32) (localOpen : Bool)
    (a : Answers) : Status × XportCtx :=
  match x.openList[i]? with
  | none => (.failure, x)
  | some c =>
    if localOpen then
      let ch : ChannelCtx :=
        { name, lcid := c.lcid, rcid := c.rcid
          refCount := c.refCount + 1
          localState := .opening
          remoteState := c.remoteState }
      (if a.txCmdChOpen then .success else .failure,
        channelRefRelease { x with openList := x.openList ++ [ch] } i)
    else
      let joined : ChannelCtx :=
        { c with
          rcid := rcid
          refCount := c.refCount + 1
          remoteState := if a.channelInit then .opened else c.remoteState }
      (if a.channelInit then .success else .failure,
        { x with openList := x.openList.set i joined })

/-- `glinki_add_ch_to_xport`; `none` when the budget of the search is used up. -/
def addChToXport (x : XportCtx) (fuel : Nat) (name : String) (rcid : UInt32) (localOpen : Bool)
    (a : Answers) : Option (Status × XportCtx) :=
  match findChCtxByName name localOpen x.openList 0 none with
  | none => some (.failure, x)
  | some none => addNewCh x fuel name rcid localOpen a
  | some (some i) => some (joinCh x i name rcid localOpen a)

/-! ## The search -/

/-- The id is one of an open channel. -/
def XportCtx.Taken (x : XportCtx) (lcid : UInt32) : Prop := ∃ c ∈ x.openList, c.lcid = lcid

instance (x : XportCtx) (lcid : UInt32) : Decidable (x.Taken lcid) :=
  inferInstanceAs (Decidable (∃ c ∈ x.openList, c.lcid = lcid))

/-- The ids that the transport has room for. -/
def XportCtx.Valid (x : XportCtx) (lcid : UInt32) : Prop := 1 ≤ lcid ∧ lcid < x.maxLcid

instance (x : XportCtx) (lcid : UInt32) : Decidable (x.Valid lcid) :=
  inferInstanceAs (Decidable (_ ∧ _))

section
variable {x : XportCtx} {lcid id : UInt32} {fuel : Nat} {l : List ChannelCtx} {id' : UInt32}

/-- A budget that suffices is enough with more added to it. -/
theorem searchLcid_mono (h : searchLcid x fuel l lcid = some id) (more : Nat) :
    searchLcid x (fuel + more) l lcid = some id := by
  induction fuel generalizing l lcid with
  | zero => cases h
  | succ fuel ih =>
    rw [Nat.succ_add]
    cases l with
    | nil => exact h
    | cons c rest =>
      rw [searchLcid] at h ⊢
      split at h
      · next hc => rw [if_pos hc]; exact ih h
      · next hc => rw [if_neg hc]; exact ih h

/-- The outcome does not depend on the budget. -/
theorem searchLcid_unique {fuel' : Nat} (h : searchLcid x fuel l lcid = some id)
    (h' : searchLcid x fuel' l lcid = some id') : id = id' := by
  have hmore := searchLcid_mono h fuel'
  rw [Nat.add_comm, searchLcid_mono h' fuel] at hmore
  exact (Option.some.inj hmore).symm

/-- An id that the rest of the list does not have is found. -/
theorem searchLcid_free (h : ∀ c ∈ l, c.lcid ≠ lcid) :
    searchLcid x (l.length + 1) l lcid = some lcid := by
  induction l with
  | nil => rfl
  | cons c rest ih =>
    rw [length_cons, searchLcid, if_neg (h c mem_cons_self)]
    exact ih fun d hd => h d (mem_cons_of_mem _ hd)

/-- An id that the rest of the list has makes the search begin anew with the next one. -/
theorem searchLcid_taken (h : ∃ c ∈ l, c.lcid = lcid) :
    ∃ n, ∀ fuel, searchLcid x (fuel + n + 1) l lcid =
      searchLcid x fuel x.openList (nextLcid x.maxLcid lcid) := by
  induction l with
  | nil =>
    obtain ⟨_, hc, -⟩ := h
    cases hc
  | cons c rest ih =>
    by_cases hc : c.lcid = lcid
    · exact ⟨0, fun fuel => if_pos hc⟩
    · obtain ⟨n, hn⟩ := ih (by
        obtain ⟨d, hd, heq⟩ := h
        rcases mem_cons.mp hd with rfl | hd
        · exact absurd heq hc
        · exact ⟨d, hd, heq⟩)
      refine ⟨n + 1, fun fuel => ?_⟩
      rw [searchLcid, if_neg hc]
      exact hn fuel

/-- The search ends with `id`. -/
def Finds (x : XportCtx) (lcid id : UInt32) : Prop :=
  ∃ fuel, searchLcid x fuel x.openList lcid = some id

theorem Finds.unique (h : Finds x lcid id) (h' : Finds x lcid id') : id = id' := by
  obtain ⟨_, h⟩ := h
  obtain ⟨_, h'⟩ := h'
  exact searchLcid_unique h h'

theorem finds_free (h : ¬ x.Taken lcid) : Finds x lcid lcid :=
  ⟨_, searchLcid_free fun c hc heq => h ⟨c, hc, heq⟩⟩

theorem finds_taken (h : x.Taken lcid) :
    Finds x lcid id ↔ Finds x (nextLcid x.maxLcid lcid) id := by
  obtain ⟨n, hn⟩ := searchLcid_taken (x := x) h
  constructor
  · rintro ⟨fuel, hfuel⟩
    have hmore := searchLcid_mono hfuel (n + 1)
    rw [← Nat.add_assoc, hn] at hmore
    exact ⟨_, hmore⟩
  · rintro ⟨fuel, hfuel⟩
    exact ⟨_, (hn fuel).trans hfuel⟩

/-- **An id that was found is free.** -/
theorem Finds.not_taken (h : Finds x lcid id) : ¬ x.Taken id := by
  obtain ⟨fuel, h⟩ := h
  -- where the search stands, the ids before are not the candidate
  have hgo : ∀ fuel l lcid, (∃ before, x.openList = before ++ l ∧ ∀ c ∈ before, c.lcid ≠ lcid) →
      searchLcid x fuel l lcid = some id → ¬ x.Taken id := by
    intro fuel
    induction fuel with
    | zero => exact fun _ _ _ h => nomatch h
    | succ fuel ih =>
      rintro l lcid ⟨before, hlist, hbefore⟩ h
      cases l with
      | nil =>
        obtain rfl := Option.some.inj h
        rw [append_nil] at hlist
        rintro ⟨c, hc, heq⟩
        exact hbefore c (hlist ▸ hc) heq
      | cons c rest =>
        rw [searchLcid] at h
        split at h
        · exact ih _ _ ⟨[], rfl, nofun⟩ h
        · next hc =>
          refine ih _ _ ⟨before ++ [c], by rw [hlist, append_assoc]; rfl, ?_⟩ h
          intro d hd
          rcases mem_append.mp hd with hd | hd
          · exact hbefore d hd
          · rwa [mem_singleton.mp hd]
  exact hgo fuel _ _ ⟨[], rfl, nofun⟩ h

/-! ## Candidates -/

theorem nextLcid_valid (h : x.Valid lcid) : x.Valid (nextLcid x.maxLcid lcid) := by
  obtain ⟨hpos, hlt⟩ := h
  rw [UInt32.le_iff_toNat_le] at hpos
  rw [UInt32.lt_iff_toNat_lt] at hlt
  have hmax := x.maxLcid.toNat_lt
  have hone : (1 : UInt32).toNat = 1 := rfl
  have hsucc : (lcid + 1).toNat = lcid.toNat + 1 := by
    rw [UInt32.toNat_add, hone]
    omega
  simp only [XportCtx.Valid, nextLcid, UInt32.le_iff_toNat_le, UInt32.lt_iff_toNat_lt]
  split
  · omega
  · next hwrap =>
    have hwrap : ¬ x.maxLcid ≤ lcid + 1 := hwrap
    rw [UInt32.le_iff_toNat_le] at hwrap
    omega

/-- From a candidate in range the search does not leave the range. -/
theorem searchLcid_valid {fuel : Nat} {l : List ChannelCtx} (h : x.Valid lcid)
    (hfound : searchLcid x fuel l lcid = some id) : x.Valid id := by
  induction fuel generalizing l lcid with
  | zero => cases hfound
  | succ fuel ih =>
    cases l with
    | nil => exact Option.some.inj hfound ▸ h
    | cons c rest =>
      rw [searchLcid] at hfound
      split at hfound
      · exact ih (nextLcid_valid h) hfound
      · exact ih h hfound

/-- How many steps the candidate `lcid` is from the id, around the end. -/
def distance (x : XportCtx) (lcid id : UInt32) : Nat :=
  if lcid ≤ id then id.toNat - lcid.toNat else id.toNat + (x.maxLcid.toNat - 1) - lcid.toNat

/-- A step towards an id. -/
theorem distance_next (h : x.Valid lcid) (hid : x.Valid id) (hne : lcid ≠ id) :
    distance x (nextLcid x.maxLcid lcid) id + 1 = distance x lcid id := by
  obtain ⟨hpos, hlt⟩ := h
  obtain ⟨hpos', hlt'⟩ := hid
  have hne' : lcid.toNat ≠ id.toNat := fun heq => hne (UInt32.toNat.inj heq)
  have hone : (1 : UInt32).toNat = 1 := rfl
  simp only [UInt32.le_iff_toNat_le, UInt32.lt_iff_toNat_lt] at hpos hlt hpos' hlt'
  have hmax := x.maxLcid.toNat_lt
  have hsucc : (lcid + 1).toNat = lcid.toNat + 1 := by
    rw [UInt32.toNat_add, hone]
    omega
  have hwrap : lcid + 1 ≥ x.maxLcid ↔ x.maxLcid.toNat ≤ lcid.toNat + 1 := by
    rw [ge_iff_le, UInt32.le_iff_toNat_le, hsucc]
  have hnext : (nextLcid x.maxLcid lcid).toNat =
      if x.maxLcid.toNat ≤ lcid.toNat + 1 then 1 else lcid.toNat + 1 := by
    rw [nextLcid]
    split
    · next hend => rw [if_pos (hwrap.mp hend), hone]
    · next hend => rw [if_neg (mt hwrap.mpr hend), hsucc]
  simp only [distance, UInt32.le_iff_toNat_le, hnext]
  by_cases hend : x.maxLcid.toNat ≤ lcid.toNat + 1
  · simp only [if_pos hend]
    split <;> split <;> omega
  · simp only [if_neg hend]
    split <;> split <;> omega

/-- **The search reaches a free id**, from any candidate that the transport has room for. -/
theorem finds_of_valid (h : x.Valid lcid) (hid : x.Valid id) (hfree : ¬ x.Taken id) :
    ∃ found, Finds x lcid found ∧ x.Valid found := by
  induction hd : distance x lcid id generalizing lcid with
  | zero =>
    have heq : lcid = id := by
      by_cases heq : lcid = id
      · exact heq
      · have hstep := distance_next h hid heq
        omega
    exact ⟨lcid, finds_free (heq ▸ hfree), h⟩
  | succ d ih =>
    by_cases htaken : x.Taken lcid
    · have hne : lcid ≠ id := fun heq => hfree (heq ▸ htaken)
      have hstep := distance_next h hid hne
      obtain ⟨found, hfound, hvalid⟩ := ih (nextLcid_valid h) (by omega)
      exact ⟨found, (finds_taken htaken).mpr hfound, hvalid⟩
    · exact ⟨lcid, finds_free htaken, h⟩

end

/-! ## When an id is given -/

/-- The search for the id of a new channel ends: with an id that the transport has room for and no
open channel has, and with the next `free_lcid` in the same range. -/
def Allocates (x : XportCtx) : Prop :=
  ∃ fuel lcid y, allocLcid x fuel = some (lcid, y) ∧ x.Valid lcid ∧ ¬ x.Taken lcid ∧
    y.maxLcid = x.maxLcid ∧ y.openList = x.openList ∧ y.Valid y.freeLcid

/-- The search starts in the range of ids, or is led into it by an id that is taken. -/
def XportCtx.Startable (x : XportCtx) : Prop :=
  x.Valid x.freeLcid ∨ (x.Taken x.freeLcid ∧ (x.freeLcid = 0xFFFFFFFF → x.Taken 0))

section
variable {x : XportCtx} {lcid id : UInt32}

theorem allocates_iff_finds :
    Allocates x ↔ ∃ lcid, Finds x x.freeLcid lcid ∧ x.Valid lcid := by
  constructor
  · rintro ⟨fuel, lcid, y, halloc, hvalid, -⟩
    obtain ⟨found, hfound, heq⟩ := bind_eq_some_iff.mp halloc
    cases heq
    exact ⟨_, ⟨fuel, hfound⟩, hvalid⟩
  · rintro ⟨lcid, ⟨fuel, hfound⟩, hvalid⟩
    refine ⟨fuel, lcid, { x with freeLcid := nextLcid x.maxLcid lcid }, ?_, hvalid,
      Finds.not_taken ⟨fuel, hfound⟩, rfl, rfl, nextLcid_valid hvalid⟩
    rw [allocLcid, hfound]
    rfl

/-- From outside of the range a step leads to 1, or to 0 from the last number there is. -/
theorem nextLcid_of_not_valid (h : ¬ x.Valid lcid) (hid : x.Valid id) :
    nextLcid x.maxLcid lcid = if lcid = 0xFFFFFFFF then 0 else 1 := by
  have hone : (1 : UInt32).toNat = 1 := rfl
  obtain ⟨hpos, hlt⟩ := hid
  simp only [XportCtx.Valid, UInt32.le_iff_toNat_le, UInt32.lt_iff_toNat_lt, hone] at h hpos hlt
  by_cases hlast : lcid = 0xFFFFFFFF
  · have hzero : lcid + 1 = 0 := by rw [hlast]; rfl
    have hwrap : ¬ x.maxLcid ≤ lcid + 1 := by
      rw [hzero, UInt32.le_iff_toNat_le, show (0 : UInt32).toNat = 0 from rfl]
      omega
    rw [nextLcid, if_neg hwrap, if_pos hlast, hzero]
  · have hlt' := lcid.toNat_lt
    have hne : lcid.toNat ≠ 0xFFFFFFFF := fun heq => hlast (UInt32.toNat.inj heq)
    have hsucc : (lcid + 1).toNat = lcid.toNat + 1 := by
      rw [UInt32.toNat_add, hone]
      omega
    rw [if_neg hlast, nextLcid]
    split
    · rfl
    · next hwrap =>
      have hwrap : ¬ x.maxLcid ≤ lcid + 1 := hwrap
      rw [UInt32.le_iff_toNat_le, hsucc] at hwrap
      exact UInt32.toNat.inj (by omega)

theorem valid_one (hid : x.Valid id) : x.Valid 1 := by
  obtain ⟨hpos, hlt⟩ := hid
  exact ⟨by decide, Nat.lt_of_le_of_lt (UInt32.le_iff_toNat_le.mp hpos) hlt⟩

theorem not_valid_zero : ¬ x.Valid 0 := fun h => absurd h.1 (by decide)

end

/-- **When a new channel gets an id.** The search ends as it should exactly when an id in range is
free and the search starts in range, or is led there. -/
theorem allocates_iff (x : XportCtx) :
    Allocates x ↔ (∃ id, x.Valid id ∧ ¬ x.Taken id) ∧ x.Startable := by
  rw [allocates_iff_finds]
  constructor
  · rintro ⟨lcid, hfound, hvalid⟩
    refine ⟨⟨lcid, hvalid, hfound.not_taken⟩, ?_⟩
    by_cases hstart : x.Valid x.freeLcid
    · exact .inl hstart
    -- an id out of range that is not taken would be given
    have htaken : x.Taken x.freeLcid := Decidable.byContradiction fun hfree =>
      hstart ((finds_free hfree).unique hfound ▸ hvalid)
    refine .inr ⟨htaken, fun hlast => Decidable.byContradiction fun hfree => ?_⟩
    rw [finds_taken htaken, nextLcid_of_not_valid hstart hvalid, if_pos hlast] at hfound
    exact not_valid_zero ((finds_free hfree).unique hfound ▸ hvalid)
  · rintro ⟨⟨id, hvalid, hfree⟩, hstart | ⟨htaken, hzero⟩⟩
    · exact finds_of_valid hstart hvalid hfree
    by_cases hstart : x.Valid x.freeLcid
    · exact finds_of_valid hstart hvalid hfree
    obtain ⟨found, hfound, hin⟩ := finds_of_valid (valid_one hvalid) hvalid hfree
    refine ⟨found, (finds_taken htaken).mpr ?_, hin⟩
    rw [nextLcid_of_not_valid hstart hvalid]
    by_cases hlast : x.freeLcid = 0xFFFFFFFF
    · rw [if_pos hlast, finds_taken (hzero hlast), nextLcid_of_not_valid not_valid_zero hvalid]
      exact hfound
    · rwa [if_neg hlast]

/-- With fewer open channels than ids there is a free one: one channel less than the room check
asks for. -/
theorem exists_free_of_room {x : XportCtx} (h : x.openList.length + 1 < x.maxLcid.toNat) :
    ∃ id, x.Valid id ∧ ¬ x.Taken id := by
  have hmax := x.maxLcid.toNat_lt
  refine Classical.byContradiction fun hnone => ?_
  have hsub : range' 1 (x.maxLcid.toNat - 1) ⊆ x.openList.map (·.lcid.toNat) := by
    intro n hn
    rw [mem_range'_1] at hn
    have hval : (UInt32.ofNat n).toNat = n := UInt32.toNat_ofNat_of_lt' (show n < 2 ^ 32 by omega)
    have hvalid : x.Valid (.ofNat n) := by
      simp only [XportCtx.Valid, UInt32.le_iff_toNat_le, UInt32.lt_iff_toNat_lt, hval]
      exact ⟨hn.1, by omega⟩
    obtain ⟨c, hc, heq⟩ : x.Taken (.ofNat n) :=
      Decidable.byContradiction fun hfree => hnone ⟨_, hvalid, hfree⟩
    exact List.mem_map.mpr ⟨c, hc, by rw [heq, hval]⟩
  have hlen := (nodup_range' 1).length_le_of_subset hsub
  rw [length_range', length_map] at hlen
  omega

/-! ## Runs -/

/-- How the local side of a channel moves on, up to the acknowledgement of its close:
`glink_rx_cmd_ch_open_ack` and `glink_close`. -/
inductive LocalState.Moves : LocalState → LocalState → Prop
  | stay {s : LocalState} : Moves s s
  | openAck : Moves .opening .opened
  | closeOpening : Moves .opening .closing
  | closeOpened : Moves .opened .closing

/-- What happens to the open channels of a transport: a channel is opened by either side, a
reference is taken or released, what is known of the two sides of a channel changes, or its close is
acknowledged: then it has no id any more, but stays in the list with the references that others
hold. -/
inductive Step : XportCtx → Unit → XportCtx → Prop
  | add {x y : XportCtx} {fuel : Nat} {name : String} {rcid : UInt32} {localOpen : Bool}
      {a : Answers} {status : Status} :
      addChToXport x fuel name rcid localOpen a = some (status, y) → Step x () y
  | release {x : XportCtx} (i : Nat) : Step x () (channelRefRelease x i)
  | update {x : XportCtx} {i : Nat} {c : ChannelCtx} (rcid refCount : UInt32)
      {localState : LocalState} (remoteState : RemoteState) : x.openList[i]? = some c →
      c.localState.Moves localState →
      Step x () ⟨x.maxLcid, x.freeLcid,
        x.openList.set i ⟨c.name, c.lcid, rcid, refCount, localState, remoteState⟩⟩
  | closeAck {x : XportCtx} {i : Nat} {c : ChannelCtx} : x.openList[i]? = some c →
      c.localState = .closing →
      Step x () { x with openList := x.openList.set i { c with localState := .closed, lcid := 0 } }

/-- The id of an open channel is in range, unless its close has been acknowledged. -/
def XportCtx.HasId (x : XportCtx) (c : ChannelCtx) : Prop :=
  x.Valid c.lcid ∨ c.localState = .closed ∧ c.lcid = 0

/-- `free_lcid` and the ids of all open channels are in range, but for those that have lost theirs.
-/
structure InRange (maxLcid : UInt32) (x : XportCtx) : Prop where
  maxLcid_eq : x.maxLcid = maxLcid
  freeLcid : x.Valid x.freeLcid
  lcids : ∀ c ∈ x.openList, x.HasId c

section
variable {x y : XportCtx} {maxLcid : UInt32} {name : String} {localOpen : Bool} {i : Nat}

/-- Only contexts with the ids of others come in, apart from a new one in range. -/
theorem InRange.openList (h : InRange maxLcid x) {l : List ChannelCtx}
    (hl : ∀ c ∈ l, x.HasId c) : InRange maxLcid { x with openList := l } :=
  ⟨h.maxLcid_eq, h.freeLcid, hl⟩

/-- A context is replaced. -/
theorem InRange.set (h : InRange maxLcid x) {d : ChannelCtx} (hd : x.HasId d) :
    InRange maxLcid { x with openList := x.openList.set i d } := by
  refine h.openList fun e he => ?_
  rcases mem_or_eq_of_mem_set he with he | rfl
  · exact h.lcids e he
  · exact hd

/-- A context in the list. -/
theorem InRange.hasId (h : InRange maxLcid x) {c : ChannelCtx}
    (hc : x.openList[i]? = some c) : x.HasId c :=
  h.lcids c (mem_of_getElem? hc)

/-- The context that is found by name has not been opened by the side that opens it. -/
theorem findChCtxByName_joinable {l : List ChannelCtx} {i j : Nat}
    {found : Option Nat} (h : findChCtxByName name localOpen l i found = some (some j)) :
    found = some j ∨ i ≤ j ∧ ∃ c, l[j - i]? = some c ∧ c.joinable localOpen := by
  induction l generalizing i found with
  | nil => exact .inl (Option.some.inj h)
  | cons c rest ih =>
    have hrest : ∀ {found'}, findChCtxByName name localOpen rest (i + 1) found' = some (some j) →
        found' = some j ∨ i ≤ j ∧ ∃ d, (c :: rest)[j - i]? = some d ∧ d.joinable localOpen := by
      intro found' h
      refine (ih h).imp_right ?_
      rintro ⟨hle, d, hd, hjoin⟩
      refine ⟨by omega, d, ?_, hjoin⟩
      rwa [show j - i = j - (i + 1) + 1 by omega, getElem?_cons_succ]
    rw [findChCtxByName] at h
    split at h
    · exact hrest h
    · split at h
      · next hjoin =>
        rcases hrest h with heq | hlater
        · obtain rfl := Option.some.inj heq
          exact .inr ⟨Nat.le_refl _, c, by rw [Nat.sub_self]; rfl, hjoin⟩
        · exact .inr hlater
      · split at h
        · cases h
        · exact hrest h

theorem InRange.release (h : InRange maxLcid x) (i : Nat) :
    InRange maxLcid (channelRefRelease x i) := by
  rw [channelRefRelease]
  cases hc : x.openList[i]? with
  | none => exact h
  | some c =>
    dsimp only
    split
    · exact h.openList fun d hd => h.lcids d ((eraseIdx_sublist ..).subset hd)
    · have hid : x.HasId c := h.hasId hc
      exact h.set hid

theorem InRange.addNewCh (h : InRange maxLcid x) {fuel : Nat} {rcid : UInt32}
    {a : Answers} {status : Status}
    (hadd : addNewCh x fuel name rcid localOpen a = some (status, y)) : InRange maxLcid y := by
  rw [Channels.addNewCh] at hadd
  split at hadd
  · cases hadd
    exact h
  obtain ⟨⟨lcid, u⟩, halloc, hadd⟩ := bind_eq_some_iff.mp hadd
  obtain ⟨found, hfound, heq⟩ := bind_eq_some_iff.mp halloc
  cases heq
  have hvalid : x.Valid lcid := searchLcid_valid h.freeLcid hfound
  have hnext : InRange maxLcid { x with freeLcid := nextLcid x.maxLcid lcid } :=
    ⟨h.maxLcid_eq, nextLcid_valid hvalid, h.lcids⟩
  dsimp only at hadd
  split at hadd
  · cases hadd
    exact hnext
  have hopened : ∀ ch : ChannelCtx, ch.lcid = lcid → InRange maxLcid
      { x with freeLcid := nextLcid x.maxLcid lcid, openList := x.openList ++ [ch] } := by
    refine fun ch hch => hnext.openList fun c hc => ?_
    rcases mem_append.mp hc with hc | hc
    · exact h.lcids c hc
    · rw [mem_singleton.mp hc]
      exact .inl (hch ▸ hvalid)
  split at hadd
  · cases hadd
    exact (hopened _ rfl).release _
  · cases hadd
    exact hopened _ rfl

/-- A channel that is opened on this side too gets the id that it has. -/
theorem InRange.joinCh (h : InRange maxLcid x)
    (hfound : findChCtxByName name localOpen x.openList 0 none = some (some i)) (rcid : UInt32)
    (a : Answers) : InRange maxLcid (joinCh x i name rcid localOpen a).2 := by
  obtain ⟨-, c, hc, hjoin⟩ := (findChCtxByName_joinable hfound).resolve_left nofun
  rw [Nat.sub_zero] at hc
  rw [Channels.joinCh, hc]
  cases localOpen with
  | true =>
    have hinit : c.localState = .init := by
      rcases hjoin with ⟨-, hinit⟩ | ⟨hfalse, -⟩
      · exact hinit
      · cases hfalse
    have hvalid : x.Valid c.lcid := (h.hasId hc).resolve_right fun hclosed => by
      rw [hinit] at hclosed
      cases hclosed.1
    refine InRange.release (h.openList fun d hd => ?_) i
    rcases mem_append.mp hd with hd | hd
    · exact h.lcids d hd
    · rw [mem_singleton.mp hd]
      exact .inl hvalid
  | false =>
    have hid : x.HasId c := h.hasId hc
    exact h.set hid

/-- **One step.** -/
theorem InRange.step (h : InRange maxLcid x) {e : Unit} (hstep : Step x e y) :
    InRange maxLcid y := by
  cases hstep with
  | add hadd =>
    rw [addChToXport] at hadd
    split at hadd
    · cases hadd
      exact h
    · exact h.addNewCh hadd
    · next i hfound =>
      rw [show y = _ from (congrArg Prod.snd (Option.some.inj hadd)).symm]
      exact h.joinCh hfound ..
  | release i => exact h.release i
  | update _ _ _ hc hmoves =>
    refine h.set ((h.hasId hc).imp_right fun hclosed => ⟨?_, hclosed.2⟩)
    -- a local side that is closed does not move on
    rw [hclosed.1] at hmoves
    cases hmoves
    rfl
  | closeAck => exact h.set (.inr ⟨rfl, rfl⟩)

end

/-- **The ids of a transport that has been registered.** With at least one id, `free_lcid` and the
ids of open channels stay in range, but for channels that have lost theirs, so that a new channel
gets an id exactly when one is free. -/
theorem allocates_of_run {maxCid : UInt32} {x₀ x : XportCtx} {events : List Unit}
    (hreg : registerTransport maxCid = some x₀) (hmax : 2 ≤ maxCid) (run : Run Step x₀ events x) :
    InRange maxCid x ∧ (Allocates x ↔ ∃ id, x.Valid id ∧ ¬ x.Taken id) := by
  have hrange : InRange maxCid x := by
    refine run.state_invariant ?_ fun hx hstep => hx.step hstep
    rw [registerTransport] at hreg
    split at hreg
    · cases hreg
    · cases hreg
      exact ⟨rfl, ⟨UInt32.le_refl 1, hmax⟩, nofun⟩
  rw [allocates_iff_finds]
  exact ⟨hrange, fun ⟨lcid, hfound, hvalid⟩ => ⟨lcid, hvalid, hfound.not_taken⟩,
    fun ⟨_, hvalid, hfree⟩ => finds_of_valid hrange.freeLcid hvalid hfree⟩

/-- A channel is opened by both sides and then closed on this side, and stays without an id: there
is one for a second channel. -/
theorem allocates_of_run_second : ∃ events x, Run Step ⟨3, 1, []⟩ events x ∧
    x.openList = [⟨"a", 0, 7, 2, .closed, .opened⟩] ∧ Allocates x := by
  have hstart : Run Step ⟨3, 1, []⟩ [] _ := .start
  have hopened : addChToXport ⟨3, 1, []⟩ 1 "a" 0 true ⟨true, true⟩ =
      some (.success, ⟨3, 2, [⟨"a", 1, 0, 1, .opening, .init⟩]⟩) := by decide +kernel
  have hjoined : addChToXport ⟨3, 2, [⟨"a", 1, 0, 1, .opening, .init⟩]⟩ 0 "a" 7 false ⟨true, true⟩ =
      some (.success, ⟨3, 2, [⟨"a", 1, 7, 2, .opening, .opened⟩]⟩) := by decide +kernel
  have run := (((hstart.step (.add hopened)).step (.add hjoined)).step
    (.update (i := 0) 7 2 .opened rfl .closeOpening)).step (.closeAck (i := 0) rfl rfl)
  obtain ⟨hrange, hallocates⟩ :=
    allocates_of_run (show registerTransport 3 = _ from rfl) (by decide) run
  exact ⟨_, _, run, rfl, hallocates.mpr (exists_free_of_room (by decide))⟩

/-! ## A transport with all of its ids in use -/

/-- The transport to the RPM, whose commands carry an id in one byte, with a channel for each id. -/
def fullXport : XportCtx where
  maxLcid := 0xFF
  freeLcid := 1
  openList := (range' 1 254).map fun n => ⟨"", .ofNat n, .ofNat n, 2, .opened, .opened⟩

/-- The room check accepts one more channel, and the search for its id does not end. -/
theorem fullXport_hangs :
    fullXport.openList.length < fullXport.maxLcid.toNat ∧ ¬ Allocates fullXport ∧
      ∀ fuel name rcid localOpen a, addNewCh fullXport fuel name rcid localOpen a = none := by
  have htaken : ∀ id, fullXport.Valid id → fullXport.Taken id := by
    intro id hid
    have hlow : 1 ≤ id.toNat := hid.1
    have hhigh : id.toNat < 255 := hid.2
    refine ⟨⟨"", id, id, 2, .opened, .opened⟩, List.mem_map.mpr ⟨id.toNat, ?_, ?_⟩, rfl⟩
    · rw [mem_range'_1]
      omega
    · rw [UInt32.ofNat_toNat]
  have hsearch : ∀ fuel, searchLcid fullXport fuel fullXport.openList 1 = none := by
    intro fuel
    cases h : searchLcid fullXport fuel fullXport.openList 1 with
    | none => rfl
    | some id =>
      have hvalid : fullXport.Valid id := searchLcid_valid ⟨by decide, by decide⟩ h
      exact absurd (htaken id hvalid) (Finds.not_taken ⟨fuel, h⟩)
  have hlen : fullXport.openList.length = 254 := by
    rw [fullXport, length_map, length_range']
  have hmax : fullXport.maxLcid.toNat = 255 := rfl
  refine ⟨by omega, ?_, fun fuel name rcid localOpen a => ?_⟩
  · rw [allocates_iff_finds]
    rintro ⟨id, ⟨fuel, hfuel⟩, -⟩
    cases (hsearch fuel).symm.trans hfuel
  · have hroom : ¬ fullXport.openList.length ≥ fullXport.maxLcid.toNat := by omega
    rw [addNewCh, if_neg hroom, allocLcid]
    rw [show fullXport.freeLcid = 1 from rfl, hsearch]
    rfl

end GLink.Channels
