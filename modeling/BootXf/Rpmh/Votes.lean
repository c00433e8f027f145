import Mathlib.Data.FinEnum

/-!
# Votes on a resource

What `rpmh_resource_commands.c` keeps of one voter on one resource: its three votes, what RPMh was
last sent, and whether a request for it is in progress. A `rpmh_core_verify` that fails is fatal.

There are no PDC votes: `rpmh_resource_command_init` leaves `pdc_votes` NULL.
-/

namespace Rpmh

/-- The checks that may be fatal. -/
inductive Fatal
  /-- `rpmh_core_verify_ptr`, or a NULL pointer that is followed. -/
  | ptr
  /-- The state of a voter has to be idle. -/
  | voterState
  /-- The vote that is sent has to be valid. -/
  | voteValid
  /-- There are no more commands in a set than a TCS has room for. -/
  | numCommands
  /-- A TCS that is sent has to be idle in hardware. -/
  | tcsBusy
  /-- A TCS has to be in the state that it is used in. -/
  | tcsState
  /-- There are AMCs. -/
  | numAmcs
  /-- `is_tcs_stuck`. -/
  | tcsStuck
  /-- `pull_from_queue` does not find the command. -/
  | cmdqState
  /-- A finished request has an id. -/
  | reqId
  /-- The queues are empty when sleep is entered. -/
  | cmdqEmpty
  /-- A resource that the subsystem needs has to have a place in a TCS. -/
  | priority
  /-- A command set that is prepared for sleep is one of sleep or of wake. -/
  | set
  deriving DecidableEq

/-- `rpmh_core_verify`. -/
def verify (val : Bool) (f : Fatal) : Except Fatal Unit := if val then .ok () else .error f

@[simp] theorem verify_true (f : Fatal) : verify true f = .ok () := rfl

/-- Nothing has been fatal so far. -/
@[simp] theorem ok_bind {α β : Type} (a : α) (f : α → Except Fatal β) :
    ((Except.ok a : Except Fatal α) >>= f) = f a := rfl

/-- `rpmh_set_enum`. -/
inductive RpmhSet
  | active | sleep | wake
  deriving DecidableEq

/-- `rpmh_rc_dirty_enum`. -/
inductive Dirty
  | clean | cleanExplicitVote | dirty | dirtyMol | dirtyUseActive
  deriving DecidableEq

/-- Above `RPMH_RC_LAST_CLEAN`. -/
def Dirty.isDirty : Dirty → Bool
  | .clean | .cleanExplicitVote => false
  | .dirty | .dirtyMol | .dirtyUseActive => true

/-- `rpmh_vote_t`. -/
structure Vote where
  data : UInt32
  valid : Bool
  dirty : Dirty
  deriving DecidableEq

/-- `rpmh_rc_state_enum`. -/
inductive RcState
  | idle | inProgress
  deriving DecidableEq

/-- `drv_votes_t`, of one DRV. Of `vote_at_rpmh` nothing reads `dirty`. -/
structure DrvVotes where
  state : RcState
  voteAtRpmh : Vote
  localVotes : RpmhSet → Vote

/-- A vote of which all bytes are 0. -/
def Vote.zero : Vote := ⟨0, false, .clean⟩

/-- A new voter of `rpmh_resource_command_get_voter`. -/
def DrvVotes.new : DrvVotes := ⟨.idle, .zero, fun _ => .zero⟩

namespace DrvVotes

/-- The active vote has to be sent. -/
def activeDirty (v : DrvVotes) : Dirty :=
  let active := v.localVotes .active
  if active.valid && (!v.voteAtRpmh.valid || active.data != v.voteAtRpmh.data) then .dirty
  else .clean

/-- The sleep vote has to be sent. -/
def sleepDirty (v : DrvVotes) : Dirty :=
  let active := v.localVotes .active
  let sleep := v.localVotes .sleep
  if sleep.dirty = .cleanExplicitVote then .cleanExplicitVote
  else if sleep.valid && (!active.valid || (active.valid && active.data != sleep.data)) then .dirty
  else .clean

/-- The wake vote, or the active one in its place, has to be sent. -/
def wakeDirty (v : DrvVotes) (address : UInt32) : Dirty :=
  let active := v.localVotes .active
  let sleep := v.localVotes .sleep
  let wake := v.localVotes .wake
  if wake.dirty = .cleanExplicitVote then .cleanExplicitVote
  else if wake.valid && ((active.valid && wake.data != active.data) ||
      (sleep.valid && wake.data != sleep.data)) then .dirty
  -- dynamic VRMs are left out, but BCM and ARC are not
  else if !wake.valid && (active.valid && (address >>> 16 != 4 &&
      sleep.dirty != .cleanExplicitVote)) then .dirtyUseActive
  else .clean

/-- `resource_command_dirty_update`. Whether a sleep vote is explicit does not change in it. -/
def dirtyUpdate (v : DrvVotes) (address : UInt32) : DrvVotes :=
  { v with localVotes := fun
    | .active => { v.localVotes .active with dirty := v.activeDirty }
    | .sleep => { v.localVotes .sleep with dirty := v.sleepDirty }
    | .wake => { v.localVotes .wake with dirty := v.wakeDirty address } }

/-- One vote replaced. -/
def setVote (v : DrvVotes) (set : RpmhSet) (vote : Vote) : DrvVotes :=
  { v with localVotes := fun k => if k = set then vote else v.localVotes k }

/-- `rpmh_resource_command_update`, up to its result. -/
def update (v : DrvVotes) (address : UInt32) (set : RpmhSet) (data : UInt32) (explicitCmd : Bool) :
    DrvVotes :=
  let explicitVote := explicitCmd && set != .active
  (v.setVote set { v.localVotes set with
    data := data
    valid := true
    dirty := if explicitVote then .cleanExplicitVote else (v.localVotes set).dirty }).dirtyUpdate
      address

/-- `resource_command_get_data`. -/
def getData (v : DrvVotes) (set : RpmhSet) : Except Fatal UInt32 :=
  let vote := v.localVotes set
  let active := v.localVotes .active
  match vote.dirty with
  | .clean | .cleanExplicitVote | .dirty => do
    verify vote.valid .voteValid
    return vote.data
  | .dirtyMol => .error .ptr
  | .dirtyUseActive => do
    verify active.valid .voteValid
    return active.data

/-- A vote that has been sent to RPMh. -/
def sent (v : DrvVotes) (data : UInt32) (amc : Bool) : DrvVotes :=
  { v with
    voteAtRpmh := { v.voteAtRpmh with data := data, valid := true }
    state := if amc then .inProgress else v.state }

/-- `rpmh_resource_command_val_at_rpmh`, behind its lookup. -/
def valAtRpmh (v : DrvVotes) (set : RpmhSet) (amc : Bool) : Except Fatal (UInt32 × DrvVotes) := do
  verify (v.state == .idle) .voterState
  let data ← v.getData set
  return (data, v.sent data amc)

/-- `rpmh_resource_command_finish`, behind its lookup. -/
def finish (v : DrvVotes) (address : UInt32) : DrvVotes :=
  { v with state := .idle }.dirtyUpdate address

/-! ## The fields behind each of them -/

variable {v : DrvVotes} {address data : UInt32} {set k : RpmhSet} {explicitCmd amc : Bool}

@[simp] theorem dirtyUpdate_data :
    ((v.dirtyUpdate address).localVotes k).data = (v.localVotes k).data := by
  cases k <;> rfl

@[simp] theorem dirtyUpdate_valid :
    ((v.dirtyUpdate address).localVotes k).valid = (v.localVotes k).valid := by
  cases k <;> rfl

@[simp] theorem setVote_self {vote : Vote} : (v.setVote set vote).localVotes set = vote :=
  if_pos rfl

@[simp] theorem update_data :
    ((v.update address set data explicitCmd).localVotes set).data = data := by
  rw [update, dirtyUpdate_data, setVote_self]

@[simp] theorem update_valid :
    ((v.update address set data explicitCmd).localVotes set).valid = true := by
  rw [update, dirtyUpdate_valid, setVote_self]

@[simp] theorem finish_data :
    ((v.finish address).localVotes k).data = (v.localVotes k).data := dirtyUpdate_data

@[simp] theorem finish_valid :
    ((v.finish address).localVotes k).valid = (v.localVotes k).valid := dirtyUpdate_valid

/-- RPMh has the active vote, if there is one. -/
def Settled (v : DrvVotes) : Prop :=
  (v.localVotes .active).valid = true →
    v.voteAtRpmh.valid = true ∧ v.voteAtRpmh.data = (v.localVotes .active).data

/-- The active vote is dirty or clean, and not marked in another way. -/
def Plain (v : DrvVotes) : Prop :=
  (v.localVotes .active).dirty = .clean ∨ (v.localVotes .active).dirty = .dirty

/-- An update of what is dirty leaves plain votes. -/
theorem dirtyUpdate_plain : (v.dirtyUpdate address).Plain := by
  show v.activeDirty = .clean ∨ v.activeDirty = .dirty
  unfold activeDirty
  dsimp only
  split
  · exact .inr rfl
  · exact .inl rfl

/-- What the dirtiness of the active vote says. -/
theorem activeDirty_isDirty : v.activeDirty.isDirty = false ↔ v.Settled := by
  unfold activeDirty Settled
  dsimp only
  rcases h : (v.localVotes .active).valid with _ | _
  · simp [Dirty.isDirty]
  · rcases hat : v.voteAtRpmh.valid with _ | _
    · simp [Dirty.isDirty]
    · rcases Decidable.em ((v.localVotes .active).data = v.voteAtRpmh.data) with heq | hne
      · simp [Dirty.isDirty, heq]
      · have hne' : v.voteAtRpmh.data ≠ (v.localVotes .active).data := fun h => hne h.symm
        simp [Dirty.isDirty, hne, hne']

/-- The active vote of a plain voter is the data that is sent. -/
theorem getData_active (hplain : v.Plain) (hvalid : (v.localVotes .active).valid = true) :
    v.getData .active = .ok (v.localVotes .active).data := by
  unfold getData
  dsimp only
  rcases hplain with h | h <;> rw [h] <;> dsimp only <;> rw [hvalid] <;> rfl

/-- An idle vote is what was sent. -/
theorem valAtRpmh_eq (hstate : v.state = .idle) (hdata : v.getData set = .ok data) :
    v.valAtRpmh set amc = .ok (data, v.sent data amc) := by
  unfold valAtRpmh
  rw [hstate, hdata]
  rfl

end DrvVotes

end Rpmh
