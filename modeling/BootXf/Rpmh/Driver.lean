import BootXf.Rpmh.Resources
import Mathlib.Logic.Function.Basic

/-!
# The driver of one DRV

The TCSs, the command queues and the clients of one DRV, with the functions that issue, send and
finish a command set. `Driver.hw` is what the hardware has of each TCS, and `Driver.sent` the value
that RPMh was last sent for each address.

Requests to read are disabled in this build, and the dependencies of a command set are always empty.
A command set that is waited for is one whose completions follow as steps of their own.
-/

namespace Rpmh

open Lib Function

/-- `IMAGE_TCS_SIZE`, which `tcs_init` verifies to be the `num_cmds` of each DRV. -/
def imageTcsSize : Nat := 16

/-- `CMD_EMPTY`. -/
def cmdEmpty : UInt32 := 0xFFFFFFFF

/-- `rpmh_rc_priority_enum`. -/
inductive Priority
  | useCase | subsystem
  deriving DecidableEq

/-- `drv_config_t` with its one mode. `priority` is `cmd_db_query_priority` for the hardware's DRV.
-/
structure DrvConfig where
  numAmcs : Nat
  sleepStart : Nat
  wakeStart : Nat
  numTcs : Nat
  priority : UInt32 → Priority
  amcs_pos : 0 < numAmcs
  amcs_le : numAmcs ≤ sleepStart
  sleep_le : sleepStart ≤ wakeStart
  wake_le : wakeStart ≤ numTcs

/-- `rpmh_command_t`. -/
structure Command where
  address : UInt32
  data : UInt32
  completion : Bool
  deriving DecidableEq

/-- `rpmh_command_set_internal_t`. -/
structure CommandSet where
  set : RpmhSet
  commands : List Command
  deriving DecidableEq

/-- The resources of a command set. -/
def CommandSet.addresses (set : CommandSet) : List UInt32 := set.commands.map (·.address)

/-- `rpmh_cmd_details_t`. -/
structure CmdDetails where
  address : UInt32
  completion : Bool
  deriving DecidableEq

/-- `rpmh_cmd_t`, with its address in memory. `seq` is history: the number of command sets that were
issued before. -/
structure Cmd where
  ptr : Nat
  details : List CmdDetails
  client : Option Nat
  reqId : UInt32
  set : RpmhSet
  amc : Bool
  seq : Nat
  deriving DecidableEq

/-- The resources of a command. -/
def Cmd.addresses (cmd : Cmd) : List UInt32 := cmd.details.map (·.address)

/-- `tcs_state_enum`. -/
inductive TcsState
  | amcIdle | amcWaitForDone | amcDone | nonAmc
  deriving DecidableEq

/-- `tcs_t`. -/
structure Tcs where
  state : TcsState
  cmds : Option Cmd

/-- A TCS in hardware: whether it is executing, its bit of the finished AMCs, and the commands that
are enabled in it. -/
structure HwTcs where
  busy : Bool
  irq : Bool
  cmds : List (UInt32 × UInt32)

/-- `rpmh_client_t`. -/
structure Client where
  reqId : UInt32
  oldestReqId : UInt32
  numReqsInProgress : UInt32
  cmdsInProgress : List UInt32
  explicitCmds : Option (List CommandSet)

/-- The driver. `issued` and `finished` are history: how many commands there have been, and which of
them have finished. -/
structure Driver where
  resources : Resources
  tcs : Nat → Tcs
  inFlight : List Cmd
  enqueued : List Cmd
  sleepAmcs : List Cmd
  wakeAmcs : List Cmd
  freeCmds : List Nat
  nextCmd : Nat
  client : Nat → Client
  hw : Nat → HwTcs
  sent : UInt32 → Option UInt32
  issued : Nat
  finished : List Nat

/-! ## Sending -/

/-- The data of a command, in `tcs_send_internal`. -/
def sendData (set : RpmhSet) (amc : Bool) :
    List CmdDetails → Resources → Except Fatal (List (UInt32 × UInt32) × Resources)
  | [], t => .ok ([], t)
  | d :: ds, t => do
    let (data, t) ← t.valAtRpmh d.address set amc
    let (rest, t) ← sendData set amc ds t
    return ((d.address, data) :: rest, t)

/-- RPMh takes commands one after the other. -/
def receive (sent : UInt32 → Option UInt32) : List (UInt32 × UInt32) → UInt32 → Option UInt32
  | [] => sent
  | (address, data) :: cmds => receive (update sent address (some data)) cmds

/-- What `tcs_send_internal` writes: an AMC is triggered as well. -/
def Driver.program (s : Driver) (cmd : Cmd) (i : Nat) (cmds : List (UInt32 × UInt32))
    (t : Resources) : Driver :=
  { s with
    resources := t
    tcs := update s.tcs i { s.tcs i with cmds := some cmd }
    hw := update s.hw i
      (if cmd.amc then ⟨true, false, cmds⟩ else { s.hw i with cmds := cmds })
    sent := if cmd.amc then receive s.sent cmds else s.sent }

/-- `tcs_send_internal`. -/
def Driver.tcsSendInternal (s : Driver) (cmd : Cmd) (i : Nat) : Except Fatal Driver := do
  verify (cmd.details.length ≤ imageTcsSize) .numCommands
  verify (!(s.hw i).busy) .tcsBusy
  let (cmds, t) ← sendData cmd.set cmd.amc cmd.details s.resources
  -- `RscHalSetupTCS` refuses a message without commands
  verify (!cmds.isEmpty) .numCommands
  return s.program cmd i cmds t

/-- The first AMC that is idle. -/
def Driver.idleAmc (s : Driver) (c : DrvConfig) : Option Nat :=
  (List.range c.numAmcs).find? fun i => (s.tcs i).state == .amcIdle

/-- `is_amc_free`. -/
def Driver.isAmcFree (s : Driver) (c : DrvConfig) : Bool := (s.idleAmc c).isSome

/-- A TCS replaced. -/
def Driver.setTcs (s : Driver) (i : Nat) (tcs : Tcs) : Driver :=
  { s with tcs := update s.tcs i tcs }

/-- `tcs_send`. -/
def Driver.tcsSend (s : Driver) (c : DrvConfig) (cmd : Cmd) : Except Fatal (Bool × Driver) :=
  match s.idleAmc c with
  | none => .ok (false, s)
  | some i => do
    let s ← (s.setTcs i { s.tcs i with state := .amcWaitForDone }).tcsSendInternal cmd i
    return (true, s)

/-! ## Queues -/

/-- `new_cmd`, from the free ones when there is one. -/
def Driver.newCmd (s : Driver) : Nat × Driver :=
  match s.freeCmds with
  | ptr :: ptrs => (ptr, { s with freeCmds := ptrs })
  | [] => (s.nextCmd, { s with nextCmd := s.nextCmd + 1 })

/-- The loops that look whether the voters are idle. -/
def resourcesIdle (t : Resources) : List UInt32 → Except Fatal Bool
  | [] => .ok true
  | address :: addresses => do
    let v ← t.voter address
    let rest ← resourcesIdle t addresses
    return v.state == .idle && rest

/-- The details of a command set. -/
def CommandSet.details (set : CommandSet) : List CmdDetails :=
  set.commands.map fun command => ⟨command.address, command.completion⟩

/-- The command of a new request. Without a client it has no id. -/
def Driver.newReq (s : Driver) (client : Option Nat) (set : CommandSet) : Cmd where
  ptr := s.newCmd.1
  details := set.details
  client := client
  reqId := match client with
    | none => 0
    | some k => (s.client k).reqId
  set := set.set
  amc := true
  seq := s.issued

/-- `set_new_req`. -/
def Driver.setNewReq (s : Driver) (client : Option Nat) (set : CommandSet) :
    Except Fatal (Cmd × Bool × Driver) := do
  verify (set.commands.length ≤ 16) .numCommands
  let idle ← resourcesIdle s.resources set.addresses
  -- without a client nobody asks whether the resources are idle
  return (s.newReq client set, client.isNone || idle, { s.newCmd.2 with issued := s.issued + 1 })

/-- `rpmh_cmdq_send_cmd_set`. -/
def Driver.sendCmdSet (s : Driver) (c : DrvConfig) (client : Option Nat) (set : CommandSet) :
    Except Fatal (UInt32 × Driver) := do
  let (cmd, idle, s) ← s.setNewReq client set
  match set.set with
  | .sleep => return (0, { s with sleepAmcs := s.sleepAmcs ++ [cmd] })
  | .wake => return (0, { s with wakeAmcs := s.wakeAmcs ++ [cmd] })
  | .active => do
    verify client.isSome .ptr
    if idle && s.isAmcFree c then do
      let (_, s) ← { s with inFlight := s.inFlight ++ [cmd] }.tcsSend c cmd
      return (cmd.reqId, s)
    else return (cmd.reqId, { s with enqueued := s.enqueued ++ [cmd] })

/-- `rpmh_cmdq_send_cmd_at_head`. While there is a command at the head, `cmdq_empty` does not hold.
-/
def Driver.sendCmdAtHead (s : Driver) (c : DrvConfig) : Except Fatal (Bool × Driver) :=
  match s.enqueued with
  | [] => .ok (false, s)
  | cmd :: enqueued => do
    let idle ← resourcesIdle s.resources cmd.addresses
    if idle then do
      verify (cmd.details.length ≤ 16) .numCommands
      let (sent, s) ← s.tcsSend c cmd
      if sent then
        return (true, { s with enqueued := enqueued, inFlight := s.inFlight ++ [cmd] })
      else return (false, s)
    else return (false, s)

/-- The loop of `rpmh_finish_amc`, which goes on as long as a command has been sent. -/
def Driver.sendQueued (c : DrvConfig) : Nat → Driver → Except Fatal Driver
  | 0, s => .ok s
  | fuel + 1, s => do
    let (sent, s) ← s.sendCmdAtHead c
    if sent then sendQueued c fuel s else return s

/-- `get_queue`. -/
def Driver.queue (s : Driver) : RpmhSet → List Cmd
  | .active => s.inFlight
  | .sleep => s.sleepAmcs
  | .wake => s.wakeAmcs

/-- A queue replaced. -/
def Driver.setQueue (s : Driver) (set : RpmhSet) (queue : List Cmd) : Driver :=
  match set with
  | .active => { s with inFlight := queue }
  | .sleep => { s with sleepAmcs := queue }
  | .wake => { s with wakeAmcs := queue }

/-- `pull_from_queue`. -/
def pullFromQueue (queue : List Cmd) (lookingFor : Nat) : Except Fatal (Cmd × List Cmd) :=
  match queue.find? (·.ptr == lookingFor) with
  | none => .error .cmdqState
  | some cmd => .ok (cmd, queue.eraseP (·.ptr == lookingFor))

/-- The resources of a command that has finished. -/
def finishResources : List CmdDetails → Resources → Except Fatal Resources
  | [], t => .ok t
  | d :: ds, t => do
    let t ← t.finish d.address
    finishResources ds t

/-- `cmdq_finish_cmd`. -/
def Driver.finishCmd (s : Driver) (cmd : Cmd) (set : RpmhSet) : Except Fatal Driver := do
  let (completed, queue) ← pullFromQueue (s.queue set) cmd.ptr
  let t ← finishResources completed.details s.resources
  return { s.setQueue set queue with
    resources := t
    freeCmds := s.freeCmds ++ [completed.ptr]
    finished := s.finished ++ [completed.seq] }

/-- `tcs_clean_up`. -/
def Driver.tcsCleanUp (s : Driver) (i : Nat) (cmd : Cmd) (set : RpmhSet) : Except Fatal Driver := do
  let hw := update s.hw i { s.hw i with irq := false }
  let s ← { s with hw := hw }.finishCmd cmd set
  return s.setTcs i ⟨.amcIdle, none⟩

/-! ## Clients -/

namespace Client

/-- A new client. -/
def new (explicitCmds : Option (List CommandSet)) : Client := ⟨0, cmdEmpty, 0, [], explicitCmds⟩

/-- `rpmh_client_command_add`. -/
def commandAdd (k : Client) : Client :=
  let reqId := k.reqId + 1
  { k with
    reqId := reqId
    cmdsInProgress := k.cmdsInProgress ++ [reqId]
    numReqsInProgress := k.numReqsInProgress + 1
    oldestReqId := if k.oldestReqId < reqId then k.oldestReqId else reqId }

/-- `rpmh_client_command_finish`, with `rpmh_client_command_remove`. Nobody is notified. -/
def commandFinish (k : Client) (reqId : UInt32) : Client :=
  if reqId ∈ k.cmdsInProgress then
    let cmdsInProgress := k.cmdsInProgress.erase reqId
    { k with
      cmdsInProgress := cmdsInProgress
      oldestReqId := cmdsInProgress.headD cmdEmpty
      numReqsInProgress := k.numReqsInProgress - 1 }
  else k

end Client

/-- The votes of a command set, and whether one of them is dirty. -/
def updateAll (set : RpmhSet) (explicitCmd : Bool) : List Command → Resources → Resources × Bool
  | [], t => (t, false)
  | command :: commands, t =>
    let r := t.update set explicitCmd command.address command.data
    let rest := updateAll set explicitCmd commands r.1
    (rest.1, r.2 || rest.2)

/-- `rpmh_issue_command_set`, up to its wait. `stuck` is the answer of `is_tcs_stuck`. -/
def Driver.issueCommandSet (s : Driver) (c : DrvConfig) (k : Nat)
    (set : CommandSet) (stuck : Bool) :
    Except Fatal (UInt32 × Driver) := do
  verify (set.commands.length ≤ imageTcsSize) .numCommands
  let explicitCmds := (s.client k).explicitCmds
  let votes := updateAll set.set explicitCmds.isSome set.commands s.resources
  let s := { s with resources := votes.1 }
  if set.set = .active then
    if !votes.2 then return (0, s)
    else do
      verify (!stuck) .tcsStuck
      let client := update s.client k (s.client k).commandAdd
      { s with client := client }.sendCmdSet c (some k) set
  else
    match explicitCmds with
    | none => return (0, s)
    | some sets =>
      let client := update s.client k
        { s.client k with explicitCmds := some (sets ++ [set]) }
      return (0, { s with client := client })

/-! ## Completion -/

/-- The highest bit of the finished AMCs, in `get_finished_drv` and `get_finished_amc`. -/
def Driver.finishedTcs (s : Driver) (c : DrvConfig) : Option Nat :=
  (List.range c.numTcs).reverse.find? fun i => (s.hw i).irq

/-- `tcs_finish_active_amc`, for the AMC that has finished. -/
def Driver.finishActiveAmc (s : Driver) (i : Nat) : Except Fatal (Cmd × Driver) := do
  verify ((s.tcs i).state == .amcWaitForDone) .tcsState
  match (s.tcs i).cmds with
  | none => .error .ptr
  | some cmd => do
    let s ← s.tcsCleanUp i cmd .active
    return (cmd, s)

/-- `rpmh_finish_amc`. -/
def Driver.finishAmc (s : Driver) (c : DrvConfig) : Except Fatal Driver :=
  match s.finishedTcs c with
  | none => .ok s
  | some i =>
    if i < c.numAmcs then do
      let (cmd, s) ← s.finishActiveAmc i
      verify (cmd.reqId != 0) .reqId
      match cmd.client with
      | none => .error .ptr
      | some k => do
        let client := update s.client k ((s.client k).commandFinish cmd.reqId)
        sendQueued c (s.enqueued.length + 1) { s with client := client }
    else .ok s

end Rpmh
