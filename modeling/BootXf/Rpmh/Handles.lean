import BootXf.Rpmh.Waiters

/-!
# Handles of clients, and the lock

A deleted handle goes to a free list and is handed out again to the next client. Its fields are
reset one by one, some on deletion and some on creation, and the queues of requests and barriers
stay.

Every operation takes the lock, which may be taken again by its owner. A request to send polls until
it has completed before the operation returns, so that between two operations none is in progress.
Which requests complete, in which order, is up to the hardware; the resources say whether a command
set is dirty.
-/

namespace Rpmh.Handles

/-- `rpmh_client_t`. -/
structure Client where
  drvId : UInt32
  name : String
  handle : Wait.Handle
  completionCb : Option Nat

/-- The driver as far as handles go: the clients by their address, the queues of `rpmh_clientq_t`,
the addresses that have a resource, and how often the lock is held. -/
structure State where
  memory : Nat → Client
  allocated : Nat
  handles : List Nat
  freeHandles : List Nat
  resources : List UInt32
  held : Int

/-- A client as allocated: all zero but for the oldest request. -/
def Client.zero : Client := ⟨0, "", ⟨.new none, []⟩, none⟩

/-- `rpmh_client_init`. -/
def State.init : State := ⟨fun _ => .zero, 0, [], [], [], 0⟩

def State.lock (s : State) : State := { s with held := s.held + 1 }

def State.unlock (s : State) : State := { s with held := s.held - 1 }

def State.put (s : State) (h : Nat) (k : Client) : State :=
  { s with memory := Function.update s.memory h k }

def State.setHandle (s : State) (h : Nat) (handle : Wait.Handle) : State :=
  s.put h { s.memory h with handle := handle }

/-- `rpmh_client_handle_add`. -/
def State.handleAdd (s : State) : Nat × State :=
  match s.freeHandles with
  | h :: rest => (h, { s with handles := s.handles ++ [h], freeHandles := rest })
  | [] =>
    let s' := s.put s.allocated .zero
    (s.allocated, { s' with allocated := s.allocated + 1, handles := s.handles ++ [s.allocated] })

/-- `rpmh_client_handle_remove`. -/
def State.handleRemove (s : State) (h : Nat) : Option State :=
  if h ∈ s.handles then
    let k := s.memory h
    let client := { k.handle.client with
      oldestReqId := cmdEmpty
      reqId := cmdEmpty
      numReqsInProgress := 0 }
    let s' := s.put h { k with handle := { k.handle with client := client }, name := "" }
    some { s' with handles := s.handles.erase h, freeHandles := s.freeHandles ++ [h] }
  else none

/-- `rpmh_create_handle_internal`, where `valid` is `rpmh_is_drv_id_valid`. -/
def State.createHandle (valid : UInt32 → Bool) (s : State) (drvId : UInt32) (name : String)
    (explicitClient : Bool) : Option (Nat × State) :=
  if valid drvId then
    let added := s.lock.handleAdd
    let k := added.2.memory added.1
    let client := { k.handle.client with
      reqId := 0
      explicitCmds := if explicitClient then some [] else k.handle.client.explicitCmds }
    let k' := { k with name := name, drvId := drvId, handle := { k.handle with client := client } }
    some (added.1, (added.2.put added.1 k').unlock)
  else none

/-- `rpmh_delete_handle`. -/
def State.deleteHandle (s : State) (h : Nat) : Option State := s.handleRemove h

/-- `rpmh_client_register_completion_callback`. -/
def State.registerCallback (s : State) (h : Nat) (callback : Option Nat) : State :=
  let s := s.lock
  (s.put h { s.memory h with completionCb := callback }).unlock

/-- `rpmh_invalidate_explicit_cmds`. -/
def State.invalidateExplicitCmds (s : State) (h : Nat) : Option State :=
  let s := s.lock
  let handle := (s.memory h).handle
  match handle.client.explicitCmds with
  | none => none
  | some _ =>
    some (s.setHandle h { handle with
      client := { handle.client with explicitCmds := some [] } }).unlock

/-- `rpmh_invalidate_command`, for the client alone: whether the vote of the resource is dropped is
the resource's. -/
def State.invalidateCommand (s : State) (set : RpmhSet) (address : UInt32) : State :=
  let s := s.lock
  if address ∉ s.resources ∨ set = .active then s
  else s.unlock

/-- `rpmh_finish_amc`, for a request of the client `c.1`. -/
def State.finishAmc (s : State) (c : Nat × UInt32) : State :=
  let s := s.lock
  (s.setHandle c.1 (Wait.commandFinish (s.memory c.1).handle c.2).1).unlock

/-- The wait that polls: requests complete until there is nothing to wait for. -/
def State.churn (h : Nat) (reqId : UInt32) (barrierType : Wait.BarrierType) :
    List (Nat × UInt32) → State → Option State
  | cs, s =>
    if Wait.mustWait (s.memory h).handle.client reqId barrierType then
      match cs with
      | [] => none
      | c :: cs => churn h reqId barrierType cs (s.finishAmc c)
    else some s

/-- The wait for an event, which gives the lock away until the barrier has been triggered. -/
def State.waitCmd (s : State) (h : Nat) (reqId : UInt32) (barrierType : Wait.BarrierType)
    (cs : List (Nat × UInt32)) : Option State :=
  let e : Wait.ActiveEvent := ⟨reqId, barrierType, 0⟩
  if Wait.mustWait (s.memory h).handle.client reqId barrierType then
    let waiting := (s.setHandle h (Wait.register (s.memory h).handle e).1).unlock
    let woken := cs.foldl State.finishAmc waiting
    if e ∈ (woken.memory h).handle.barriers then none else some woken.lock
  else some s

/-- `rpmh_wait_for_cmd`. -/
def State.waitForCmd (s : State) (h : Nat) (reqId : UInt32) (barrierType : Wait.BarrierType)
    (polling : Bool) (cs : List (Nat × UInt32)) : Option State :=
  let s := s.lock
  let waited :=
    if barrierType.isCallback then
      some (s.setHandle h (Wait.register (s.memory h).handle ⟨reqId, barrierType, 0⟩).1)
    else if polling then s.churn h reqId barrierType cs
    else s.waitCmd h reqId barrierType cs
  waited.map State.unlock

/-- What `rpmh_issue_command_set` does with the client, once the votes have been updated: the id
that it waits for. -/
def State.send (s : State) (h : Nat) (set : CommandSet) (dirty stuck : Bool) :
    Option (UInt32 × State) :=
  let handle := (s.memory h).handle
  if set.set = .active then
    if dirty then
      if stuck then none
      else
        let client := handle.client.commandAdd
        some (client.reqId, s.setHandle h { handle with client := client })
    else some (0, s)
  else
    match handle.client.explicitCmds with
    | none => some (0, s)
    | some sets =>
      let client := { handle.client with explicitCmds := some (sets ++ [set]) }
      some (0, s.setHandle h { handle with client := client })

/-- `rpmh_issue_command_set`, where `dirty` says that a resource is dirty after the votes. -/
def State.issueCommandSet (s : State) (h : Nat) (set : CommandSet) (dirty stuck : Bool)
    (cs : List (Nat × UInt32)) : Option State :=
  let s := s.lock
  if set.commands.length ≤ imageTcsSize then
    let s := { s with resources := s.resources ++ set.addresses }
    (s.send h set dirty stuck).bind fun sent =>
      (sent.2.waitForCmd h sent.1 .barrierAll true cs).map State.unlock
  else none

/-- `rpmh_issue_command`. -/
def State.issueCommand (s : State) (h : Nat) (set : RpmhSet) (command : Command)
    (dirty stuck : Bool)
    (cs : List (Nat × UInt32)) : Option State :=
  (s.lock.issueCommandSet h ⟨set, [command]⟩ dirty stuck cs).map State.unlock

/-- `rpmh_notify_completion_all` and its siblings: a callback needs to have been registered. -/
def State.wait (s : State) (h : Nat) (reqId : UInt32) (barrierType : Wait.BarrierType)
    (polling : Bool) (cs : List (Nat × UInt32)) : Option State :=
  if barrierType.isCallback = true ∧ (s.memory h).completionCb = none then none
  else s.waitForCmd h reqId barrierType polling cs

/-- The operations, and the interrupt of a request that has completed. -/
inductive Op
  | create (drvId : UInt32) (name : String) (explicitClient : Bool)
  | delete (h : Nat)
  | registerCallback (h : Nat) (callback : Option Nat)
  | invalidateExplicitCmds (h : Nat)
  | invalidate (set : RpmhSet) (address : UInt32)
  | issueCommandSet (h : Nat) (set : CommandSet) (dirty stuck : Bool) (cs : List (Nat × UInt32))
  | issueCommand (h : Nat) (set : RpmhSet) (command : Command) (dirty stuck : Bool)
      (cs : List (Nat × UInt32))
  | wait (h : Nat) (reqId : UInt32) (barrierType : Wait.BarrierType) (polling : Bool)
      (cs : List (Nat × UInt32))
  | finish (c : Nat × UInt32)

/-- The state that an operation returns in; `none` when it fails or goes on polling. -/
def State.after (valid : UInt32 → Bool) (s : State) : Op → Option State
  | .create drvId name explicitClient => (s.createHandle valid drvId name explicitClient).map (·.2)
  | .delete h => s.deleteHandle h
  | .registerCallback h callback => some (s.registerCallback h callback)
  | .invalidateExplicitCmds h => s.invalidateExplicitCmds h
  | .invalidate set address => some (s.invalidateCommand set address)
  | .issueCommandSet h set dirty stuck cs => s.issueCommandSet h set dirty stuck cs
  | .issueCommand h set command dirty stuck cs => s.issueCommand h set command dirty stuck cs
  | .wait h reqId barrierType polling cs => s.wait h reqId barrierType polling cs
  | .finish c => some (s.finishAmc c)

/-- The client of a handle that has been created on a fresh driver. -/
def Client.fresh (drvId : UInt32) (name : String) (explicitClient : Bool) : Client :=
  ⟨drvId, name, ⟨.new (if explicitClient then some [] else none), []⟩, none⟩

/-- A handle that is created is a fresh one. -/
def CreatesFresh (valid : UInt32 → Bool) (s : State) : Op → Prop
  | .create drvId name explicitClient =>
    ∀ h s', s.createHandle valid drvId name explicitClient = some (h, s') →
      s'.memory h = .fresh drvId name explicitClient
  | _ => True

/-- **Every operation of a run does as it should**: a handle that is created is a fresh one, and the
lock is held as often as before. -/
def AlwaysRight (valid : UInt32 → Bool) (s : State) : List Op → Prop
  | [] => True
  | op :: ops => ∀ s', s.after valid op = some s' →
    CreatesFresh valid s op ∧ s'.held = s.held ∧ AlwaysRight valid s' ops

/-- **When an operation does as it should**: the former owner of the handle that is recycled has
registered no callback, and was an explicit client only when the new one is as well; and what is
invalidated is a vote other than the active one, for an address that has been voted for. -/
def Op.Good (s : State) : Op → Prop
  | .create _ _ explicitClient => ∀ h, s.freeHandles.head? = some h →
    (s.memory h).completionCb = none ∧
      (explicitClient = false → (s.memory h).handle.client.explicitCmds = none)
  | .invalidate set address => address ∈ s.resources ∧ set ≠ .active
  | _ => True

/-- Every operation of a run is good. -/
def AllGood (valid : UInt32 → Bool) (s : State) : List Op → Prop
  | [] => True
  | op :: ops => ∀ s', s.after valid op = some s' → op.Good s ∧ AllGood valid s' ops

/-! ## Nothing is left in progress -/

/-- A handle without a request in progress and without a waiter. -/
structure Quiet (h : Wait.Handle) : Prop where
  cmds : h.client.cmdsInProgress = []
  barriers : h.barriers = []
  oldest : h.client.oldestReqId = cmdEmpty
  count : h.client.numReqsInProgress = 0

/-- A handle with no request in progress but perhaps one. -/
structure Pending (reqId : UInt32) (h : Wait.Handle) : Prop where
  barriers : h.barriers = []
  cmds : Quiet h ∨ h.client.cmdsInProgress = [reqId] ∧ h.client.numReqsInProgress = 1

/-- **The invariant between two operations.** -/
def State.Idle (s : State) : Prop := ∀ h, Quiet (s.memory h).handle

/-- No request is in progress but perhaps one of a client. -/
def State.Sent (s : State) (h : Nat) (reqId : UInt32) : Prop :=
  Pending reqId (s.memory h).handle ∧ ∀ h', h' ≠ h → Quiet (s.memory h').handle

section
variable {s s' : State} {h : Nat} {reqId r : UInt32} {handle : Wait.Handle}
  {barrierType : Wait.BarrierType} {cs : List (Nat × UInt32)} {dirty stuck : Bool} {polling : Bool}
  {set : CommandSet} {valid : UInt32 → Bool}

/-- A quiet handle need not wait. -/
theorem Quiet.mustWait (hq : Quiet handle) :
    Wait.mustWait handle.client reqId barrierType = false := by
  have hmax : ¬ cmdEmpty < reqId := by
    have := reqId.toNat_lt
    rw [UInt32.lt_iff_toNat_lt]
    show ¬ 2 ^ 32 - 1 < _
    omega
  rw [Wait.mustWait, hq.cmds, hq.oldest]
  simp [hmax]

/-- A finished request changes nothing of a quiet handle. -/
theorem Quiet.commandFinish (hq : Quiet handle) : (Wait.commandFinish handle reqId).1 = handle := by
  rw [Wait.commandFinish, hq.cmds]
  rfl

theorem Quiet.register (hq : Quiet handle) :
    (Wait.register handle ⟨reqId, barrierType, 0⟩).1 = handle := by
  rw [Wait.register, hq.mustWait]
  rfl

/-- A request completes, perhaps the one in progress. -/
theorem Pending.commandFinish (hp : Pending reqId handle) :
    Pending reqId (Wait.commandFinish handle r).1 := by
  rcases hp.cmds with hq | ⟨hcmds, hcount⟩
  · rw [hq.commandFinish]
    exact hp
  · by_cases hr : r = reqId
    · have hmem : r ∈ handle.client.cmdsInProgress := by
        rw [hcmds, hr]
        exact List.mem_cons_self
      have herase : handle.client.cmdsInProgress.erase r = [] := by
        rw [hcmds, hr, List.erase_cons_head]
      rw [Wait.commandFinish, if_pos hmem]
      dsimp only
      rw [Wait.checkForEvents_eq, hp.barriers]
      refine ⟨rfl, .inl ⟨?_, rfl, ?_, ?_⟩⟩
      · rw [Wait.commandFinish_client hmem]
        exact herase
      · rw [Wait.commandFinish_client hmem]
        show (handle.client.cmdsInProgress.erase r).headD cmdEmpty = _
        rw [herase]
        rfl
      · rw [Wait.commandFinish_client hmem]
        show handle.client.numReqsInProgress - 1 = 0
        rw [hcount]
        rfl
    · have hmem : r ∉ handle.client.cmdsInProgress := by
        rw [hcmds, List.mem_singleton]
        exact hr
      rw [Wait.commandFinish, if_neg hmem]
      exact hp

/-- Without anything to wait for, the request is no longer in progress. -/
theorem Pending.quiet (hp : Pending reqId handle)
    (hdone : Wait.mustWait handle.client reqId .barrierAll = false) : Quiet handle := by
  rcases hp.cmds with hq | ⟨hcmds, -⟩
  · exact hq
  · rw [Wait.mustWait, hcmds] at hdone
    simp at hdone

@[simp] theorem memory_lock : s.lock.memory = s.memory := rfl

@[simp] theorem memory_unlock : s.unlock.memory = s.memory := rfl

@[simp] theorem held_lock : s.lock.held = s.held + 1 := rfl

@[simp] theorem held_unlock : s.unlock.held = s.held - 1 := rfl

@[simp] theorem held_setHandle : (s.setHandle h handle).held = s.held := rfl

theorem memory_put (k : Client) (h' : Nat) :
    (s.put h k).memory h' = if h' = h then k else s.memory h' :=
  Function.update_apply ..

theorem handle_setHandle (h' : Nat) :
    ((s.setHandle h handle).memory h').handle = if h' =
    h then handle else (s.memory h').handle := by
  rw [State.setHandle, memory_put]
  split <;> rfl

@[simp] theorem held_finishAmc (c : Nat × UInt32) : (s.finishAmc c).held = s.held := by
  simp [State.finishAmc]

theorem handle_finishAmc (c : Nat × UInt32) (h' : Nat) :
    ((s.finishAmc c).memory h').handle =
      if h' = c.1 then (Wait.commandFinish (s.memory c.1).handle c.2).1
      else (s.memory h').handle :=
  handle_setHandle h'

/-- A completion leaves idle handles idle. -/
theorem State.Idle.finishAmc (hs : s.Idle) (c : Nat × UInt32) : (s.finishAmc c).Idle := by
  intro h'
  rw [handle_finishAmc]
  split
  · rw [(hs c.1).commandFinish]
    exact hs c.1
  · exact hs h'

/-- A completion starts no request. -/
theorem State.Sent.finishAmc (hs : s.Sent h reqId) (c : Nat × UInt32) :
    (s.finishAmc c).Sent h reqId := by
  constructor
  · rw [handle_finishAmc]
    split
    · rename_i heq
      rw [← heq]
      exact hs.1.commandFinish
    · exact hs.1
  · intro h' hne
    rw [handle_finishAmc]
    split
    · rename_i heq
      rw [← heq, (hs.2 h' hne).commandFinish]
      exact hs.2 h' hne
    · exact hs.2 h' hne

/-- Where all handles are idle, no other request is in progress. -/
theorem State.Idle.sent (hs : s.Idle) : s.Sent h reqId :=
  ⟨⟨(hs h).barriers, .inl (hs h)⟩, fun h' _ => hs h'⟩

/-- Polling ends with nothing in progress. -/
theorem State.Sent.churn (hs : s.Sent h reqId)
    (hrun : State.churn h reqId .barrierAll cs s = some s') : s'.Idle ∧ s'.held = s.held := by
  induction cs generalizing s with
  | nil =>
    rw [State.churn] at hrun
    split at hrun
    · cases hrun
    · rename_i hdone
      cases hrun
      refine ⟨fun h' => ?_, rfl⟩
      by_cases heq : h' = h
      · rw [heq]
        exact hs.1.quiet (Bool.eq_false_iff.mpr hdone)
      · exact hs.2 h' heq
  | cons c cs ih =>
    rw [State.churn] at hrun
    split at hrun
    · obtain ⟨hidle, hheld⟩ := ih (hs.finishAmc c) hrun
      exact ⟨hidle, hheld.trans (held_finishAmc c)⟩
    · rename_i hdone
      cases hrun
      refine ⟨fun h' => ?_, rfl⟩
      by_cases heq : h' = h
      · rw [heq]
        exact hs.1.quiet (Bool.eq_false_iff.mpr hdone)
      · exact hs.2 h' heq

/-- The wait after a command set. -/
theorem State.Sent.waitForCmd (hs : s.Sent h reqId)
    (hrun : s.waitForCmd h reqId .barrierAll true cs = some s') : s'.Idle ∧ s'.held = s.held := by
  obtain ⟨t, ht, rfl⟩ := Option.map_eq_some_iff.mp hrun
  obtain ⟨hidle, hheld⟩ := State.Sent.churn (s := s.lock) hs ht
  refine ⟨hidle, ?_⟩
  rw [held_unlock, hheld, held_lock]
  omega

/-- The wait ends at once if the request is done. -/
theorem churn_of_done (hdone : Wait.mustWait (s.memory h).handle.client reqId barrierType = false) :
    State.churn h reqId barrierType cs s = some s := by
  cases cs <;> rw [State.churn, if_neg (Bool.eq_false_iff.mp hdone)]

/-- A wait with nothing in progress. -/
theorem State.Idle.waitForCmd (hs : s.Idle)
    (hrun : s.waitForCmd h reqId barrierType polling cs = some s') :
    s'.Idle ∧ s'.held = s.held := by
  obtain ⟨t, ht, rfl⟩ := Option.map_eq_some_iff.mp hrun
  have hkeep : t.Idle ∧ t.held = s.held + 1 := by
    by_cases hcall : barrierType.isCallback = true
    · rw [if_pos hcall] at ht
      cases ht
      refine ⟨fun h' => ?_, rfl⟩
      rw [handle_setHandle]
      split
      · rw [memory_lock, (hs h).register]
        exact hs h
      · exact hs h'
    · rw [if_neg hcall] at ht
      have hmust : Wait.mustWait (s.lock.memory h).handle.client reqId barrierType = false :=
        (hs h).mustWait
      split at ht
      · rw [churn_of_done hmust] at ht
        cases ht
        exact ⟨hs, rfl⟩
      · rw [State.waitCmd, hmust] at ht
        cases ht
        exact ⟨hs, rfl⟩
  refine ⟨hkeep.1, ?_⟩
  rw [held_unlock, hkeep.2]
  omega

/-- A wait ends with idle handles and the same lock. -/
theorem State.Idle.wait (hs : s.Idle)
    (hrun : s.wait h reqId barrierType polling cs = some s') : s'.Idle ∧ s'.held = s.held := by
  rw [State.wait] at hrun
  split at hrun
  · cases hrun
  · exact hs.waitForCmd hrun

/-- What is sent is the only request in progress. -/
theorem State.Idle.send (hs : s.Idle)
    {sent : UInt32 × State} (hsend : s.send h set dirty stuck = some sent) :
    sent.2.Sent h sent.1 ∧ sent.2.held = s.held := by
  have hq := hs h
  rw [State.send] at hsend
  dsimp only at hsend
  split at hsend
  · split at hsend
    · split at hsend
      · cases hsend
      · cases hsend
        refine ⟨⟨?_, fun h' hne => ?_⟩, rfl⟩
        · rw [handle_setHandle, if_pos rfl]
          refine ⟨hq.barriers, .inr ⟨?_, ?_⟩⟩
          · show _ ++ _ = _
            rw [hq.cmds]
            rfl
          · show _ + 1 = _
            rw [hq.count]
            rfl
        · rw [handle_setHandle, if_neg hne]
          exact hs h'
    · cases hsend
      exact ⟨hs.sent, rfl⟩
  · split at hsend
    · cases hsend
      exact ⟨hs.sent, rfl⟩
    · cases hsend
      refine ⟨State.Idle.sent fun h' => ?_, rfl⟩
      rw [handle_setHandle]
      split
      · exact ⟨hq.cmds, hq.barriers, hq.oldest, hq.count⟩
      · exact hs h'

/-- Issuing a set keeps the handles idle and the lock. -/
theorem State.Idle.issueCommandSet (hs : s.Idle)
    (hrun : s.issueCommandSet h set dirty stuck cs = some s') : s'.Idle ∧ s'.held = s.held := by
  rw [State.issueCommandSet] at hrun
  dsimp only at hrun
  split at hrun
  · obtain ⟨sent, hsend, hwait⟩ := Option.bind_eq_some_iff.mp hrun
    obtain ⟨t, ht, rfl⟩ := Option.map_eq_some_iff.mp hwait
    obtain ⟨hsent, hheld⟩ := State.Idle.send
      (s := { s.lock with resources := s.lock.resources ++ set.addresses }) hs hsend
    obtain ⟨hidle, hheld'⟩ := hsent.waitForCmd ht
    refine ⟨hidle, ?_⟩
    rw [held_unlock, hheld', hheld]
    show s.held + 1 - 1 = s.held
    omega
  · cases hrun

/-- Issuing a command does, too. -/
theorem State.Idle.issueCommand (hs : s.Idle) {set : RpmhSet} {command : Command}
    (hrun : s.issueCommand h set command dirty stuck cs = some s') :
    s'.Idle ∧ s'.held = s.held := by
  obtain ⟨t, ht, rfl⟩ := Option.map_eq_some_iff.mp hrun
  obtain ⟨hidle, hheld⟩ := State.Idle.issueCommandSet (s := s.lock) hs ht
  refine ⟨hidle, ?_⟩
  rw [held_unlock, hheld, held_lock]
  omega

/-! ## Creation and deletion -/

/-- Deleting a handle keeps the others idle and the lock. -/
theorem State.Idle.deleteHandle (hs : s.Idle) (hrun : s.deleteHandle h = some s') :
    s'.Idle ∧ s'.held = s.held := by
  rw [State.deleteHandle, State.handleRemove] at hrun
  dsimp only at hrun
  split at hrun
  · cases hrun
    refine ⟨fun h' => ?_, rfl⟩
    show Quiet ((s.put h _).memory h').handle
    rw [memory_put]
    split
    · exact ⟨(hs h).cmds, (hs h).barriers, rfl, rfl⟩
    · exact hs h'
  · cases hrun

/-- The handle that is handed out, before its fields are set. -/
def State.recycled (s : State) : Client :=
  match s.freeHandles.head? with
  | some h => s.memory h
  | none => .zero

theorem quiet_zero : Quiet Client.zero.handle := ⟨rfl, rfl, rfl, rfl⟩

/-- A new handle is recycled memory. -/
theorem handleAdd_spec (s : State) :
    s.handleAdd.2.memory s.handleAdd.1 = s.recycled ∧ s.handleAdd.2.held = s.held ∧
      ∀ h, s.handleAdd.2.memory h = s.memory h ∨ s.handleAdd.2.memory h = .zero := by
  rw [State.handleAdd, State.recycled]
  cases s.freeHandles with
  | cons h rest => exact ⟨rfl, rfl, fun _ => .inl rfl⟩
  | nil =>
    refine ⟨Function.update_self .., rfl, fun h => ?_⟩
    show (s.put s.allocated .zero).memory h = _ ∨ (s.put s.allocated .zero).memory h = _
    rw [memory_put]
    split
    · exact .inr rfl
    · exact .inl rfl

/-- What the creation of a handle makes of the one that is recycled. -/
theorem State.Idle.createHandle (hs : s.Idle) {drvId : UInt32}
    {name : String} {explicitClient : Bool}
    (hrun : s.createHandle valid drvId name explicitClient = some (h, s')) :
    s'.Idle ∧ s'.held = s.held ∧
      (s'.memory h = .fresh drvId name explicitClient ↔
        s.recycled.completionCb = none ∧
          (explicitClient = false → s.recycled.handle.client.explicitCmds = none)) := by
  obtain ⟨hk, hheld, hall⟩ := handleAdd_spec s.lock
  have hzero : s.lock.recycled = s.recycled := rfl
  rw [hzero] at hk
  have hquiet : Quiet s.recycled.handle := by
    rw [State.recycled]
    split
    · exact hs _
    · exact quiet_zero
  rw [State.createHandle] at hrun
  dsimp only at hrun
  split at hrun
  · cases hrun
    rw [hk]
    refine ⟨fun h' => ?_, ?_, ?_⟩
    · show Quiet ((State.put _ _ _).memory h').handle
      rw [memory_put]
      split
      · exact ⟨hquiet.cmds, hquiet.barriers, hquiet.oldest, hquiet.count⟩
      · rcases hall h' with heq | heq
        · rw [heq]
          exact hs h'
        · rw [heq]
          exact quiet_zero
    · show s.lock.handleAdd.2.held - 1 = _
      rw [hheld, held_lock]
      omega
    · show (State.put _ _ _).memory _ = _ ↔ _
      rw [memory_put, if_pos rfl, Client.fresh]
      generalize s.recycled = k at hquiet ⊢
      obtain ⟨hcmds, hbarriers, holdest, hcount⟩ := hquiet
      obtain ⟨drv, nm, ⟨⟨reqId, oldest, count, cmds, sets⟩, barriers⟩, callback⟩ := k
      dsimp only at hcmds hbarriers holdest hcount
      subst hcmds hbarriers holdest hcount
      cases explicitClient <;> simp [Client.new, and_comm]
  · cases hrun

/-- **What one operation does**: nothing stays in progress, and it does as it should exactly when it
is good. -/
theorem State.Idle.after (hs : s.Idle) {op : Op} (hrun : s.after valid op = some s') :
    s'.Idle ∧ ((CreatesFresh valid s op ∧ s'.held = s.held) ↔ op.Good s) := by
  have hplain : s'.Idle ∧ s'.held = s.held → CreatesFresh valid s op → op.Good s →
      s'.Idle ∧ ((CreatesFresh valid s op ∧ s'.held = s.held) ↔ op.Good s) :=
    fun hkeep hfresh hgood => ⟨hkeep.1, iff_of_true ⟨hfresh, hkeep.2⟩ hgood⟩
  cases op with
  | create drvId name explicitClient =>
    obtain ⟨⟨h, t⟩, hcreate, rfl⟩ := Option.map_eq_some_iff.mp hrun
    obtain ⟨hidle, hheld, hfresh⟩ := hs.createHandle hcreate
    refine ⟨hidle, ?_⟩
    have hgood : (Op.create drvId name explicitClient).Good s ↔
        s.recycled.completionCb = none ∧
          (explicitClient = false → s.recycled.handle.client.explicitCmds = none) := by
      rw [Op.Good, State.recycled]
      cases s.freeHandles with
      | nil => exact iff_of_true nofun ⟨rfl, fun _ => rfl⟩
      | cons h rest => exact ⟨fun hall => hall h rfl, fun hone h' heq => Option.some.inj heq ▸ hone⟩
    rw [hgood, ← hfresh]
    constructor
    · exact fun hall => hall.1 h t hcreate
    · refine fun heq => ⟨fun h' t' hcreate' => ?_, hheld⟩
      cases hcreate.symm.trans hcreate'
      exact heq
  | delete h => exact hplain (hs.deleteHandle hrun) trivial trivial
  | registerCallback h callback =>
    cases hrun
    refine hplain ⟨fun h' => ?_, by simp [State.registerCallback, State.put]⟩ trivial trivial
    show Quiet ((s.lock.put h _).memory h').handle
    rw [memory_put]
    split
    · exact hs h
    · exact hs h'
  | invalidateExplicitCmds h =>
    have hrun : s.invalidateExplicitCmds h = some s' := hrun
    rw [State.invalidateExplicitCmds] at hrun
    dsimp only at hrun
    split at hrun
    · cases hrun
    · cases hrun
      refine hplain ⟨fun h' => ?_, by simp⟩ trivial trivial
      rw [memory_unlock, handle_setHandle]
      split
      · exact ⟨(hs h).cmds, (hs h).barriers, (hs h).oldest, (hs h).count⟩
      · exact hs h'
  | invalidate set address =>
    cases hrun
    rw [State.invalidateCommand]
    have hgood : (Op.invalidate set address).Good s ↔
        ¬ (address ∉ s.lock.resources ∨ set = .active) := by
      rw [not_or, Classical.not_not]
      rfl
    rw [hgood]
    split
    · rename_i hleak
      refine ⟨hs, iff_of_false (fun hall => ?_) (not_not_intro hleak)⟩
      have : s.held + 1 = s.held := hall.2
      omega
    · rename_i hkept
      refine ⟨hs, iff_of_true ⟨trivial, ?_⟩ hkept⟩
      show s.held + 1 - 1 = s.held
      omega
  | issueCommandSet h set dirty stuck cs =>
    exact hplain (State.Idle.issueCommandSet hs hrun) trivial trivial
  | issueCommand h set command dirty stuck cs =>
    exact hplain (State.Idle.issueCommand hs hrun) trivial trivial
  | wait h reqId barrierType polling cs => exact hplain (State.Idle.wait hs hrun) trivial trivial
  | finish c =>
    cases hrun
    exact hplain ⟨hs.finishAmc c, held_finishAmc c⟩ trivial trivial

end

theorem idle_init : State.init.Idle := fun _ => quiet_zero

/-- Operations are right from idle handles on if each is good. -/
theorem State.Idle.run {valid : UInt32 → Bool} {ops : List Op} {s : State} (hs : s.Idle) :
    AlwaysRight valid s ops ↔ AllGood valid s ops := by
  induction ops generalizing s with
  | nil => exact Iff.rfl
  | cons op ops ih =>
    refine forall₂_congr fun s' hrun => ?_
    obtain ⟨hidle, hright⟩ := hs.after hrun
    rw [← and_assoc, hright, ih hidle]

/-- **In every run the operations do as they should exactly as long as each of them is good.** -/
theorem alwaysRight_iff_allGood (valid : UInt32 → Bool) (ops : List Op) :
    AlwaysRight valid .init ops ↔ AllGood valid .init ops :=
  idle_init.run

/-- **A client becomes an explicit one unasked, and the lock stays held.** The handle of an explicit
client is deleted, and the next client gets it with its command sets; and an address that nobody has
voted for is invalidated. -/
theorem recycles_explicit :
    ¬ AlwaysRight (fun _ => true) .init [.create 0 "A" true, .delete 0, .create 0 "B" false] ∧
      ¬ AlwaysRight (fun _ => true) .init [.create 0 "A" false, .invalidate .sleep 0] := by
  constructor
  · rw [alwaysRight_iff_allGood]
    intro hgood
    have hcreate := ((hgood _ rfl).2 _ rfl).2 _ rfl
    have hnone : some ([] : List CommandSet) = none := (hcreate.1 0 rfl).2 rfl
    cases hnone
  · rw [alwaysRight_iff_allGood]
    intro hgood
    exact absurd ((hgood _ rfl).2 _ rfl).1.1 nofun

end Rpmh.Handles
