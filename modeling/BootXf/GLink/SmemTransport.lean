import BootXf.GLink.Utils
import BootXf.Lib.Bytes
import BootXf.Lib.Ring

/-!
# The transport over shared memory

Each of two hosts writes its commands into a FIFO in shared memory and reads those of the other host
from a second one. A command is a word of 64 bits, a fragment of a packet has a second one, and what
is attached to a command or carried by a fragment follows, up to the next multiple of eight. A
`Path` is one direction: the sender's half of one context, the FIFO, and the receiver's half of the
other context. A command for which there is no space waits in `txList`, and READ_REQ asks the
receiver for an interrupt once it has read so far. ERR_FATAL and failing assertions are `none`.
-/

namespace GLink.Smem

open Lib

/-! ## Commands -/

/-- The commands of `xport_smem_cmd_id_type` that are sent. -/
inductive CmdId
  | versionReq | versionAck | openChannel | closeChannel | openChannelAck | rxIntent | rxDone
  | intentReq | intentAck | txData | closeChannelAck | txDataCont | readReq | rxDoneReuse
  | txSignals
  | tracerPacket | tracerPacketCont
  deriving DecidableEq

/-- `XPORT_SMEM_CMD_*`. -/
def CmdId.value : CmdId → UInt16
  | .versionReq => 0
  | .versionAck => 1
  | .openChannel => 2
  | .closeChannel => 3
  | .openChannelAck => 4
  | .rxIntent => 5
  | .rxDone => 6
  | .intentReq => 7
  | .intentAck => 8
  | .txData => 9
  | .closeChannelAck => 11
  | .txDataCont => 12
  | .readReq => 13
  | .rxDoneReuse => 14
  | .txSignals => 15
  | .tracerPacket => 16
  | .tracerPacketCont => 17

/-- `xport_smem_cmd_type` as a number: the id, a field of 16 bits, which mostly is the channel id,
and one of 32 bits. -/
def raw64 (id : CmdId) (cid : UInt16) (arg : UInt32) : Nat :=
  id.value.toNat + 2 ^ 16 * cid.toNat + 2 ^ 32 * arg.toNat

/-- `gen_cmd.id`. -/
def cmdId (raw : Nat) : UInt16 := .ofNat raw

/-- The second field. -/
def cmdCid (raw : Nat) : UInt16 := .ofNat (raw / 2 ^ 16)

/-- The third field. -/
def cmdArg (raw : Nat) : UInt32 := .ofNat (raw / 2 ^ 32)

/-- `name_len` and `prio` of `ch_cmd`, which are in the place of the third field. -/
def chArg (nameLen prio : UInt16) : UInt32 := .ofNat (nameLen.toNat + 2 ^ 16 * prio.toNat)

/-- `ch_cmd.name_len`. -/
def chNameLen (arg : UInt32) : UInt16 := .ofNat arg.toNat

/-- `ch_cmd.prio`. -/
def chPrio (arg : UInt32) : UInt16 := .ofNat (arg.toNat / 2 ^ 16)

/-- `int_desc` and `data_desc`: two fields of 32 bits. -/
def desc64 (lo hi : UInt32) : Nat := lo.toNat + 2 ^ 32 * hi.toNat

/-- The first of them. -/
def descLo (raw : Nat) : UInt32 := .ofNat raw

/-- The second one. -/
def descHi (raw : Nat) : UInt32 := .ofNat (raw / 2 ^ 32)

/-- A call of `xport_smem_send_cmd` by one of the functions `xport_smem_tx_cmd_*`, with the fields
of its command. A field `prio` that the function does not set has any value. A name is its
characters without the one that ends it. -/
inductive Command
  | version (version : UInt16) (features : UInt32)
  | versionAck (version : UInt16) (features : UInt32)
  | chOpen (cid : UInt16) (name : List UInt8) (prio : UInt16)
  | chClose (cid prio : UInt16)
  | chRemoteOpenAck (cid prio : UInt16)
  | chRemoteCloseAck (cid prio : UInt16)
  | rxIntentReq (cid : UInt16) (size : UInt32)
  | remoteRxIntentReqAck (cid : UInt16) (granted : Bool)
  | localRxIntent (cid : UInt16) (size liid : UInt32)
  | localRxDone (cid : UInt16) (liid : UInt32) (reuse : Bool)
  | setSigs (cid : UInt16) (sigs : UInt32)
  deriving DecidableEq

/-- `(uint16)strlen(name) + 1`. -/
def nameLen (name : List UInt8) : UInt16 := .ofNat name.length + 1

/-- `cmd_raw64`. -/
def Command.raw64 : Command → Nat
  | .version v features => Smem.raw64 .versionReq v features
  | .versionAck v features => Smem.raw64 .versionAck v features
  | .chOpen cid name prio => Smem.raw64 .openChannel cid (chArg (nameLen name) prio)
  | .chClose cid prio => Smem.raw64 .closeChannel cid (chArg 0 prio)
  | .chRemoteOpenAck cid prio => Smem.raw64 .openChannelAck cid (chArg 0 prio)
  | .chRemoteCloseAck cid prio => Smem.raw64 .closeChannelAck cid (chArg 0 prio)
  | .rxIntentReq cid size => Smem.raw64 .intentReq cid size
  | .remoteRxIntentReqAck cid granted => Smem.raw64 .intentAck cid (if granted then 1 else 0)
  | .localRxIntent cid _ _ => Smem.raw64 .rxIntent cid 1
  | .localRxDone cid liid reuse => Smem.raw64 (if reuse then .rxDoneReuse else .rxDone) cid liid
  | .setSigs cid sigs => Smem.raw64 .txSignals cid sigs

/-- `pattachment`. -/
def Command.attachment : Command → Option (List UInt8)
  | .chOpen _ name _ => some (name ++ [0])
  | .localRxIntent _ size liid => some (leBytes 8 (desc64 size liid))
  | _ => none

/-- `attachment_size`. -/
def Command.attachmentSize : Command → Nat
  | .chOpen _ name _ => (nameLen name).toNat
  | .localRxIntent .. => 8
  | _ => 0

/-- What `xport_smem_tx` sends of a packet at once. -/
structure Fragment where
  cid : UInt16
  iid : UInt32
  first : Bool
  tracer : Bool
  data : List UInt8
  remaining : UInt32
  deriving DecidableEq

/-- `cmd[0]`. -/
def Fragment.txCmd (f : Fragment) : Nat :=
  let id : CmdId :=
    if f.tracer then if f.first then .tracerPacket else .tracerPacketCont
    else if f.first then .txData else .txDataCont
  Smem.raw64 id f.cid f.iid

/-- `cmd[1]`. -/
def Fragment.dataDesc (f : Fragment) : Nat := desc64 (.ofNat f.data.length) f.remaining

/-- What is in a FIFO. A READ_REQ has only its id set. -/
inductive Item
  | command (c : Command)
  | fragment (f : Fragment)
  | readReq (arg0 : UInt16) (arg : UInt32)
  deriving DecidableEq

/-! ## Paths -/

/-- `xport_smem_ind_type`. -/
structure Ind where
  readInd : Nat
  writeInd : Nat
  deriving DecidableEq

/-- What the receiver hands to its core. -/
inductive Delivery
  | version (version : UInt16) (features : UInt32)
  | versionAck (version : UInt16) (features : UInt32)
  | remoteOpen (cid : UInt16) (name : List UInt8) (prio : UInt16)
  | remoteClose (cid : UInt16)
  | openAck (cid prio : UInt16)
  | closeAck (cid : UInt16)
  | remoteRxIntentPut (cid : UInt16) (iid size : UInt32)
  | txDone (cid : UInt16) (iid : UInt32) (reuse : Bool)
  | remoteRxIntentReq (cid : UInt16) (size : UInt32)
  | rxIntentReqAck (cid : UInt16) (granted : Bool)
  | remoteSigs (cid : UInt16) (sigs : UInt32)
  | packet (cid : UInt16) (iid : UInt32) (pktSz : Nat) (data : List UInt8) (complete : Bool)
  | packetCont (cid : UInt16) (iid : UInt32) (data : List UInt8) (complete : Bool)
  deriving DecidableEq

/-- `rx_ind` of `xport_smem_isr`, and its `invalid_cmd`. -/
structure Rx where
  ind : Ind
  invalidCmd : Bool
  deriving DecidableEq

/-- One direction. Of the sender's context it has `tx_fifo_size`, `mtu_size`, `tx_desc`,
`local_ind.write_ind`, `tx_list` and `resume_pending`, of the receiver's `rx_desc` and
`local_ind.read_ind`, with the indices of its interrupt handler while that holds `rx_link_lock`.
`event` is the interrupt that the receiver has not handled yet.

Three fields are history: what the sender has accepted, what is in the FIFO and has not been read by
the handler, and what the receiver's core has been handed, all with the oldest first. -/
structure Path where
  fifo : Nat → UInt8
  fifoSize : Nat
  mtuSize : Nat
  desc : Ind
  localWriteInd : Nat
  txList : List Command
  resumePending : Bool
  localReadInd : Nat
  rx : Option Rx
  event : Bool
  accepted : List Item
  unread : List Item
  delivered : List Delivery

/-! ## Sending -/

/-- `xport_smem_write64`. -/
def write64 (p : Path) (reserveSize : Nat) (value : Nat) : Option (Bool × Path) :=
  if !glinkOsFifoIndexCheck p.fifoSize p.desc.readInd 0 then some (false, p)
  else do
    let availSize :=
      if p.desc.readInd > p.localWriteInd then p.desc.readInd - p.localWriteInd
      else p.fifoSize - (p.localWriteInd - p.desc.readInd)
    let needed ← glinkOsAdd 16 reserveSize
    if availSize < needed then some (false, p)
    else
      let writeInd := p.localWriteInd + 8
      some (true, { p with
        fifo := Ring.put p.fifo p.localWriteInd (leBytes 8 value)
        localWriteInd := if writeInd ≥ p.fifoSize then 0 else writeInd })

/-- The copying in `xport_smem_write_algn64`, up to the end of the FIFO and on from its start: the
new contents of the FIFO, and the new write index. -/
def copyAlgn64 (p : Path) (data : List UInt8) (dataSize64 : Nat) : (Nat → UInt8) × Nat :=
  let txLast := p.fifoSize - p.localWriteInd
  if txLast ≤ data.length then
    (Ring.put (Ring.put p.fifo p.localWriteInd (data.take txLast)) 0 (data.drop txLast),
      dataSize64 - txLast)
  else (Ring.put p.fifo p.localWriteInd data, p.localWriteInd + dataSize64)

/-- `xport_smem_write_algn64`. -/
def writeAlgn64 (p : Path) (data : List UInt8) : Option (Bool × Path) := do
  let dataSize64 ← glinkOsRoundup64 data.length
  if !glinkOsFifoIndexCheck p.fifoSize p.desc.readInd 0 then some (false, p)
  else
    let availSize :=
      if p.desc.readInd > p.localWriteInd then p.desc.readInd - p.localWriteInd
      else p.fifoSize - p.localWriteInd + p.desc.readInd
    let needed ← glinkOsAdd 8 dataSize64
    if availSize < needed then some (false, p)
    else
      let r := copyAlgn64 p data dataSize64
      some (true, { p with
        fifo := r.1
        localWriteInd := if r.2 ≥ p.fifoSize then 0 else r.2 })

/-- `xport_smem_send_event`. -/
def sendEvent (p : Path) : Path :=
  { p with desc := { p.desc with writeInd := p.localWriteInd }, event := true }

/-- Writing a command and its attachment, in `xport_smem_send_cmd` and in `xport_smem_isr`: the
write index is restored when the attachment cannot be written. -/
def writeCmd (p : Path) (c : Command) : Option (Bool × Path) := do
  let reserveSize ← glinkOsRoundup64 c.attachmentSize
  let (written, p₁) ← write64 p (reserveSize + 8) c.raw64
  if !written then some (false, p₁)
  else
    match c.attachment with
    | none => some (true, { p₁ with unread := p₁.unread ++ [.command c] })
    | some attachment =>
      let (written, p₂) ← writeAlgn64 p₁ (attachment.take c.attachmentSize)
      if written then some (true, { p₂ with unread := p₂.unread ++ [.command c] })
      else some (false, { p₂ with localWriteInd := p.localWriteInd })

/-- Writing a READ_REQ, the other fields of which are what the union happens to hold. -/
def writeReadReq (p : Path) (arg0 : UInt16) (arg : UInt32) : Option (Bool × Path) := do
  let (written, p) ← write64 p 0 (raw64 .readReq arg0 arg)
  some (written, if written then { p with unread := p.unread ++ [.readReq arg0 arg] } else p)

/-- `xport_smem_send_cmd`, for a command that has not been written. `memory` tells whether there is
memory for the list, and `arg0` and `arg` are what a READ_REQ has besides its id. -/
def queueCmd (p : Path) (c : Command) (memory : Bool) (arg0 : UInt16) (arg : UInt32) :
    Option (Path × GlinkStatus) :=
  if !memory then some (p, .outOfResources)
  else do
    let p := { p with txList := p.txList ++ [c], accepted := p.accepted ++ [.command c] }
    let (_, p) ← writeReadReq p arg0 arg
    some (sendEvent p, .success)

/-- `xport_smem_send_cmd`. -/
def sendCmd (p : Path) (c : Command) (memory : Bool) (arg0 : UInt16) (arg : UInt32) :
    Option (Path × GlinkStatus) := do
  let (written, p) ← if p.txList.isEmpty then writeCmd p c else some (false, p)
  if written then some (sendEvent { p with accepted := p.accepted ++ [.command c] }, .success)
  else queueCmd p c memory arg0 arg

/-- `XPORT_TRACER_PACKET_FEATURE`. -/
def tracerPacketFeature : UInt32 := 0x4

/-- The part of a packet's context that `xport_smem_tx` reads and writes. -/
structure Pctx where
  iid : UInt32
  size : Nat
  sizeRemaining : Nat
  tracerPkt : Bool
  deriving DecidableEq

/-- The fragment that `xport_smem_tx` sends, of the data that its provider has for it. -/
def fragment (cid : UInt16) (pctx : Pctx) (data : List UInt8) : Fragment where
  cid := cid
  iid := pctx.iid
  first := pctx.size == pctx.sizeRemaining
  tracer := pctx.tracerPkt
  data := data
  remaining := .ofNat (pctx.sizeRemaining - data.length)

/-- `xport_smem_tx`, with the negotiated features and the answer of the packet's provider. -/
def tx (p : Path) (features : UInt32) (cid : UInt16) (pctx : Pctx) (fragData : List UInt8)
    (arg0 : UInt16) (arg : UInt32) : Option (Path × Pctx × GlinkStatus) :=
  if pctx.tracerPkt && features &&& tracerPacketFeature == 0 then some (p, pctx, .failure)
  else if fragData.length > pctx.sizeRemaining then none
  else
    let fragData := fragData.take p.mtuSize
    if p.resumePending then some (p, pctx, .success)
    else if !p.txList.isEmpty then some ({ p with resumePending := true }, pctx, .success)
    else
      let availSize :=
        if p.desc.readInd > p.localWriteInd then p.desc.readInd - p.localWriteInd
        else p.fifoSize - p.localWriteInd + p.desc.readInd
      if availSize > 32 then do
        let f := fragment cid pctx (fragData.take (availSize - 32))
        let (written, p₁) ← writeAlgn64 p (leBytes 8 f.txCmd ++ leBytes 8 f.dataDesc)
        if !written then some (p₁, pctx, .success)
        else
          let (written, p₂) ← writeAlgn64 p₁ f.data
          if !written then some ({ p₂ with localWriteInd := p.localWriteInd }, pctx, .success)
          else
            some (sendEvent { p₂ with
              unread := p₂.unread ++ [.fragment f]
              accepted := p₂.accepted ++ [.fragment f] },
              { pctx with sizeRemaining := pctx.sizeRemaining - f.data.length }, .success)
      else do
        let (written, p) ← writeReadReq { p with resumePending := true } arg0 arg
        some (if written then sendEvent p else p, pctx, .success)

/-- The loop of `xport_smem_isr` over the list. -/
def drainList (p : Path) : List Command → Option Path
  | [] => some { p with txList := [] }
  | c :: cs => do
    let (written, p₁) ← writeCmd p c
    if !written then some { p₁ with txList := c :: cs }
    else drainList p₁ cs

/-- What `xport_smem_isr` does under `tx_link_lock`. -/
def isrDrain (p : Path) : Option Path :=
  let drained := if p.txList.isEmpty then some p else (drainList p p.txList).map sendEvent
  drained.map fun p => { p with resumePending := false }

/-! ## Receiving -/

/-- `xport_smem_read64`. -/
def read64 (p : Path) (ind : Ind) : Nat × Ind :=
  let readInd := ind.readInd + 8
  (leValue (Ring.get p.fifo ind.readInd 8),
    { ind with readInd := if readInd ≥ p.fifoSize then 0 else readInd })

/-- `xport_smem_get_rx_size`. -/
def getRxSize (p : Path) (ind : Ind) : Nat :=
  if ind.writeInd < ind.readInd then ind.writeInd + p.fifoSize - ind.readInd
  else ind.writeInd - ind.readInd

/-- `xport_smem_read_algn64`. -/
def readAlgn64 (p : Path) (ind : Ind) (dataSize : Nat) : Option (List UInt8 × Ind) :=
  if dataSize > getRxSize p ind then none
  else do
    let dataSize64 ← glinkOsRoundup64 dataSize
    let rxLast := p.fifoSize - ind.readInd
    let (data, readInd) :=
      if rxLast ≤ dataSize then
        (Ring.get p.fifo ind.readInd rxLast ++ Ring.get p.fifo 0 (dataSize - rxLast),
          dataSize64 - rxLast)
      else (Ring.get p.fifo ind.readInd dataSize, ind.readInd + dataSize64)
    some (data, { ind with readInd := if readInd ≥ p.fifoSize then 0 else readInd })

/-- The part of `glink_rx_intent_type` that the transport reads and writes. -/
structure RxIntent where
  size : Nat
  pktSz : Nat
  used : Nat

/-- `xport_smem_process_rx_packet_cmd`, `desc` being the answer of `rx_get_pkt_ctx`. -/
def processRxPacketCmd (p : Path) (desc : Option RxIntent) (cmd : Nat) (ind : Ind) :
    Option (List Delivery × Ind) :=
  let (cmdArg', ind) := read64 p ind
  match desc with
  | none => some ([], ind)
  | some pdesc => do
    let fragmentSize := (descLo cmdArg').toNat
    let pktSize ← glinkOsAdd fragmentSize (descHi cmdArg').toNat
    if pdesc.size < pktSize ∨ fragmentSize > pdesc.size ∨ fragmentSize > getRxSize p ind then none
    else
      let (data, ind) ← readAlgn64 p ind fragmentSize
      some ([.packet (cmdCid cmd) (cmdArg cmd) pktSize data (descHi cmdArg' == 0)], ind)

/-- `xport_smem_process_rx_packet_cont_cmd`. -/
def processRxPacketContCmd (p : Path) (desc : Option RxIntent) (cmd : Nat) (ind : Ind) :
    Option (List Delivery × Ind) :=
  let (cmdArg', ind) := read64 p ind
  match desc with
  | none => some ([], ind)
  | some pdesc => do
    let fragmentSize := (descLo cmdArg').toNat
    if fragmentSize > getRxSize p ind ∨ fragmentSize > pdesc.pktSz - pdesc.used then none
    else
      let (data, ind) ← readAlgn64 p ind fragmentSize
      some ([.packetCont (cmdCid cmd) (cmdArg cmd) data (descHi cmdArg' == 0)], ind)

/-- The loop that reads the descriptors of intents. -/
def readIntents (p : Path) (cid : UInt16) : Nat → Ind → List Delivery × Ind
  | 0, ind => ([], ind)
  | num + 1, ind =>
    let (cmdArg', ind) := read64 p ind
    let (rest, ind) := readIntents p cid num ind
    (.remoteRxIntentPut cid (descHi cmdArg') (descLo cmdArg') :: rest, ind)

/-- `XPORT_CH_MIGRATION_FEATURE`. -/
def chMigrationFeature : UInt32 := 0x2

/-- `GLINK_XPORT_SMEM`. -/
def glinkXportSmem : UInt16 := 100

/-- `prio` as it is handed on. -/
def receivedPrio (features : UInt32) (prio : UInt16) : UInt16 :=
  if features &&& chMigrationFeature == 0 then glinkXportSmem else prio

/-- `GLINK_CH_NAME_LEN`. -/
def glinkChNameLen : Nat := 32

/-- The characters before the one that ends a string. -/
def cString (chars : List UInt8) : List UInt8 := chars.takeWhile (· != 0)

/-- What one command comes to: what is handed to the core and the indices behind it, or an invalid
command. -/
inductive Processed
  | delivered (ds : List Delivery) (ind : Ind)
  | readReq (ind : Ind)
  | invalid

/-- The `switch` of `xport_smem_isr`, behind the first word of a command. -/
def processCmd (p : Path) (features : UInt32) (desc : Option RxIntent) (cmd : Nat) (ind : Ind) :
    Option Processed :=
  let id := cmdId cmd
  let cid := cmdCid cmd
  let arg := cmdArg cmd
  if id = CmdId.txData.value ∨ id = CmdId.tracerPacket.value then
    (processRxPacketCmd p desc cmd ind).map fun r => .delivered r.1 r.2
  else if id = CmdId.txDataCont.value ∨ id = CmdId.tracerPacketCont.value then
    (processRxPacketContCmd p desc cmd ind).map fun r => .delivered r.1 r.2
  else if id = CmdId.versionReq.value then some (.delivered [.version cid arg] ind)
  else if id = CmdId.versionAck.value then some (.delivered [.versionAck cid arg] ind)
  else if id = CmdId.openChannel.value then
    let nameLen := (chNameLen arg).toNat
    if nameLen > getRxSize p ind ∨ nameLen > glinkChNameLen then some .invalid
    else do
      let (name, ind) ← readAlgn64 p ind nameLen
      let name := cString (name.set (nameLen - 1) 0)
      some (.delivered [.remoteOpen cid name (receivedPrio features (chPrio arg))] ind)
  else if id = CmdId.closeChannel.value then some (.delivered [.remoteClose cid] ind)
  else if id = CmdId.openChannelAck.value then
    some (.delivered [.openAck cid (receivedPrio features (chPrio arg))] ind)
  else if id = CmdId.closeChannelAck.value then some (.delivered [.closeAck cid] ind)
  else if id = CmdId.rxIntent.value then
    let r := readIntents p cid arg.toNat ind
    some (.delivered r.1 r.2)
  else if id = CmdId.rxDone.value then some (.delivered [.txDone cid arg false] ind)
  else if id = CmdId.intentReq.value then some (.delivered [.remoteRxIntentReq cid arg] ind)
  else if id = CmdId.intentAck.value then
    -- `(boolean)`, which has eight bits
    some (.delivered [.rxIntentReqAck cid (arg.toUInt8 != 0)] ind)
  else if id = CmdId.readReq.value then some (.readReq ind)
  else if id = CmdId.rxDoneReuse.value then some (.delivered [.txDone cid arg true] ind)
  else if id = CmdId.txSignals.value then some (.delivered [.remoteSigs cid arg] ind)
  else some (.delivered [] ind)

/-- `xport_smem_isr` up to its loop: with indices that are not valid it returns. -/
def isrEnter (p : Path) : Path :=
  let p := { p with event := false }
  if !glinkOsFifoIndexCheck p.fifoSize p.desc.writeInd 8 ||
      !glinkOsFifoIndexCheck p.fifoSize p.localReadInd 0 then p
  else { p with rx := some ⟨⟨p.localReadInd, p.desc.writeInd⟩, false⟩ }

/-- What a turn of the loop leaves, and whether it sends an interrupt to the other host. -/
def endTurn (p : Path) (rx : Rx) : Processed → Path × Bool
  | .delivered ds ind =>
    ({ p with delivered := p.delivered ++ ds, rx := some ⟨ind, false⟩ }, false)
  | .readReq ind =>
    ({ p with
      localReadInd := ind.readInd
      desc := { p.desc with readInd := ind.readInd }
      rx := some ⟨ind, false⟩ }, true)
  | .invalid => ({ p with rx := some ⟨rx.ind, true⟩ }, false)

/-- One turn of the loop. -/
def isrTurn (p : Path) (rx : Rx) (features : UInt32) (desc : Option RxIntent) :
    Option (Path × Bool) :=
  if rx.ind.writeInd = rx.ind.readInd ∨ rx.invalidCmd then none
  else
    let r := read64 p rx.ind
    let p := { p with unread := p.unread.drop 1 }
    (processCmd p features desc r.1 r.2).map (endTurn p rx)

/-- One turn of the loop of a handler that runs. -/
def isrCommand (p : Path) (features : UInt32) (desc : Option RxIntent) : Option (Path × Bool) :=
  p.rx.bind fun rx => isrTurn p rx features desc

/-- `xport_smem_isr` behind its loop, up to the release of `rx_link_lock`. -/
def isrLeave (p : Path) : Option Path := do
  let rx ← p.rx
  if rx.ind.writeInd = rx.ind.readInd ∨ rx.invalidCmd then
    some { p with
      localReadInd := rx.ind.writeInd
      desc := { p.desc with readInd := rx.ind.writeInd }
      rx := none }
  else none

end GLink.Smem
