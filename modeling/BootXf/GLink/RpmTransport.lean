import BootXf.GLink.Utils
import BootXf.Lib.Bytes
import BootXf.Lib.Ring

/-!
# The transport to the RPM

Commands are written into a FIFO in message RAM in words of 32 bits, each command padded to eight
bytes, and read from it by the interrupt handler of the other side. A FIFO is a ring of bytes with
two indices, both multiples of eight; `writeInd` and `readInd` being the same means that it is
empty. ERR_FATAL is `none`.
-/

namespace GLink.Rpm

open Lib

/-- A FIFO with its shared indices, `xport_rpm_ind_type`. -/
structure Fifo where
  mem : Nat → UInt8
  size : Nat
  readInd : Nat
  writeInd : Nat

/-! ## Sending -/

/-- The copying of whole words in `xport_rpm_write_msgram`, up to the end of the FIFO and on from
its start: the new contents of the FIFO, and where the next word goes. -/
def copyWords (size : Nat) (mem : Nat → UInt8) (writePtr : Nat) (words : List UInt8) :
    (Nat → UInt8) × Nat :=
  let remaining := size - writePtr
  if remaining ≤ words.length then
    (Ring.put (Ring.put mem writePtr (words.take remaining)) 0 (words.drop remaining),
      words.length - remaining)
  else (Ring.put mem writePtr words, writePtr + words.length)

/-- `xport_rpm_write_msgram`: the new contents of the FIFO and the new write index. What is left of
the buffer behind its whole words is filled up with zeros. -/
def writeMsgram (size : Nat) (mem : Nat → UInt8) (writeInd : Nat) (buffer : List UInt8) :
    (Nat → UInt8) × Nat :=
  let sizeRemainder := buffer.length % 4
  let sizeRounddown := buffer.length - sizeRemainder
  let (mem, writePtr) := copyWords size mem writeInd (buffer.take sizeRounddown)
  if sizeRemainder ≠ 0 then
    let mem := Ring.put mem writePtr
      (buffer.drop sizeRounddown ++ List.replicate (4 - sizeRemainder) 0)
    let writePtr := writePtr + 4
    (mem, if writePtr ≥ size then 0 else writePtr)
  else (mem, writePtr)

/-- The two calls of `xport_rpm_write_msgram` in `xport_rpm_send_cmd`. -/
def writeCmd (f : Fifo) (cmd : List UInt32) (data : Option (List UInt8)) (dataSize : Nat) :
    (Nat → UInt8) × Nat :=
  let r := writeMsgram f.size f.mem f.writeInd (cmd.flatMap fun w => leBytes 4 w.toNat)
  match data with
  | none => r
  | some data => writeMsgram f.size r.1 r.2 (data.take dataSize)

/-- `xport_rpm_send_cmd`, `reset` being the transport's flag: in reset nothing is sent. -/
def sendCmd (reset : Bool) (f : Fifo) (cmd : List UInt32) (data : Option (List UInt8))
    (dataSize : Nat) : Option (Fifo × GlinkStatus) := do
  let totalSize ← glinkOsAdd (4 * cmd.length) dataSize
  let reserveSize ← glinkOsRoundup64 totalSize
  if reset then some (f, .success)
  else if !glinkOsFifoIndexCheck f.size f.writeInd 8 || !glinkOsFifoIndexCheck f.size f.readInd 8
  then some (f, .failure)
  else
    let availSize :=
      if f.writeInd < f.readInd then f.readInd - f.writeInd
      else f.size - f.writeInd + f.readInd
    let needed ← glinkOsAdd reserveSize 8
    if needed > availSize then some (f, .outOfResources)
    else
      let r := writeCmd f cmd data dataSize
      -- the alignment bytes are passed over
      let writeInd := r.2 + (reserveSize - totalSize) / 4 * 4
      let writeInd := if writeInd ≥ f.size then writeInd - f.size else writeInd
      some ({ f with mem := r.1, writeInd := writeInd }, .success)

/-- The commands of `xport_rpm.h`. -/
inductive CmdId
  | versionReq | versionAck | openChannel | closeChannel | openChannelAck | txData
  | closeChannelAck | txSignals
  deriving DecidableEq

/-- `XPORT_RPM_CMD_*`. -/
def CmdId.value : CmdId → UInt32
  | .versionReq => 0x0
  | .versionAck => 0x1
  | .openChannel => 0x2
  | .closeChannel => 0x3
  | .openChannelAck => 0x4
  | .txData => 0x9
  | .closeChannelAck => 0xB
  | .txSignals => 0xF

/-- `XPORT_RPM_SET_CMD_ID( id ) | XPORT_RPM_SET_CHANNEL_ID( arg )`, which is
`XPORT_RPM_SET_VERSION( arg )` too. -/
def firstWord (id : CmdId) (arg : UInt32) : UInt32 := id.value ||| (arg <<< 16)

/-- A call of one of the transmit functions, `xport_rpm_tx_cmd_*` and `xport_rpm_tx`. A channel name
is its characters without the one that ends it; a packet is its bytes, `pctx->size` of them. -/
inductive Command
  | version (version features : UInt32)
  | versionAck (version features : UInt32)
  | chOpen (lcid : UInt32) (name : List UInt8)
  | chClose (lcid : UInt32)
  | chRemoteOpenAck (rcid : UInt32)
  | chRemoteCloseAck (rcid : UInt32)
  | tx (lcid : UInt32) (data : List UInt8)
  | setSigs (lcid sigs : UInt32)
  deriving DecidableEq

/-- The words of the command. -/
def Command.cmd : Command → List UInt32
  | .version v features => [firstWord .versionReq v, features]
  | .versionAck v features => [firstWord .versionAck v, features]
  | .chOpen lcid name => [firstWord .openChannel lcid, .ofNat name.length + 1]
  | .chClose lcid => [firstWord .closeChannel lcid]
  | .chRemoteOpenAck rcid => [firstWord .openChannelAck rcid]
  | .chRemoteCloseAck rcid => [firstWord .closeChannelAck rcid]
  | .tx lcid data => [firstWord .txData lcid, 0, .ofNat data.length, 0]
  | .setSigs lcid sigs => [firstWord .txSignals lcid, sigs]

/-- The data that goes with it. -/
def Command.data : Command → Option (List UInt8)
  | .chOpen _ name => some (name ++ [0])
  | .tx _ data => some data
  | _ => none

/-- Its size. -/
def Command.dataSize : Command → Nat
  | .chOpen _ name => (UInt32.ofNat name.length + 1).toNat
  | .tx _ data => (UInt32.ofNat data.length).toNat
  | _ => 0

/-- Sending a command. -/
def Command.send (reset : Bool) (f : Fifo) (c : Command) : Option (Fifo × GlinkStatus) :=
  sendCmd reset f c.cmd c.data c.dataSize

/-! ## Receiving -/

/-- What the interrupt handler hands to the core. A packet comes with the bytes that the core reads
of it through its provider. -/
inductive Delivery
  | linkUp
  | version (version features : UInt32)
  | versionAck (version features : UInt32)
  | remoteOpen (rcid : UInt32) (name : List UInt8)
  | remoteClose (rcid : UInt32)
  | openAck (lcid : UInt32)
  | closeAck (lcid : UInt32)
  | packet (rcid : UInt32) (data : List UInt8)
  | remoteSigs (rcid sigs : UInt32)
  deriving DecidableEq

/-- The flags of the context that a callback may set: `xport_rpm_ssr` and `xport_rpm_mask_interrupt`
are called from there. -/
structure Flags where
  reset : Bool
  irqMask : Bool
  deriving DecidableEq

/-- The receiving side's context, with what it has handed to the core, the oldest first. -/
structure Rx where
  fifo : Fifo
  flags : Flags
  pktStartInd : Nat
  pktSize : Nat
  delivered : List Delivery

/-- `MSGRAM_READ32`. -/
def msgramRead32 (rx : Rx) (ind : Nat) : UInt32 := .ofNat (leValue (Ring.get rx.fifo.mem ind 4))

/-- `CHECK_INDEX_WRAP_AROUND`. -/
def checkIndexWrapAround (ind size : Nat) : Nat := if ind ≥ size then 0 else ind

/-- `GLINK_CH_NAME_LEN`. -/
def chNameLen : Nat := 32

/-- `xport_rpm_pkt_provider`: the index of a buffer in the FIFO, and its size. -/
def pktProvider (rx : Rx) (offset : Nat) : Option (Nat × Nat) :=
  if rx.pktSize ≤ offset then none
  else
    let last := rx.fifo.size - rx.pktStartInd
    if offset ≥ last then some (offset - last, rx.pktSize - offset)
    else some (offset + rx.pktStartInd,
      if rx.pktSize ≤ last then rx.pktSize - offset else last - offset)

/-- Reading a packet, buffer after buffer, from an offset on. -/
def readPacket (rx : Rx) : Nat → Nat → List UInt8
  | 0, _ => []
  | fuel + 1, offset =>
    match pktProvider rx offset with
    | none => []
    | some (ind, size) => Ring.get rx.fifo.mem ind size ++ readPacket rx fuel (offset + size)

/-- The loop that copies a channel name, word by word. -/
def copyName (mem : Nat → UInt8) (size : Nat) : Nat → Nat → List UInt8 × Nat
  | 0, readInd => ([], readInd)
  | words + 1, readInd =>
    let readInd := checkIndexWrapAround readInd size
    let (chars, next) := copyName mem size words (readInd + 4)
    (Ring.get mem readInd 4 ++ chars, next)

/-- The characters before the one that ends a string. -/
def cString (chars : List UInt8) : List UInt8 := chars.takeWhile (· != 0)

section
variable (core : Delivery → Flags → Flags)

/-- A call of the core. -/
def deliver (rx : Rx) (d : Delivery) : Rx :=
  { rx with delivered := rx.delivered ++ [d], flags := core d rx.flags }

/-- The `switch` of `xport_rpm_isr`, for a command whose first word has been read: the context, the
read index and `stop_processing`. Only the last sum of a branch may leave the 32 bits. -/
def processCmd (rx : Rx) (cmd : UInt32) (readInd : Nat) : Option (Rx × Nat × Bool) :=
  let cid := (cmd >>> 16) &&& 0xFFFF
  let id := cmd &&& 0xFFFF
  if id = CmdId.versionReq.value then
    some (deliver core rx (.version cid (msgramRead32 rx readInd)), readInd, false)
  else if id = CmdId.versionAck.value then
    some (deliver core rx (.versionAck cid (msgramRead32 rx readInd)), readInd, false)
  else if id = CmdId.openChannel.value then do
    let cmdArg ← glinkOsRoundup64 (msgramRead32 rx readInd).toNat
    let readInd := readInd + 4
    if cmdArg = 0 ∨ cmdArg ≥ rx.fifo.size then none
    else
      let copied := min cmdArg chNameLen
      let (chars, readInd) := copyName rx.fifo.mem rx.fifo.size (copied / 4) readInd
      let readInd := (readInd + (cmdArg - copied)) % 2 ^ 32
      let tempString := (chars ++ List.replicate (chNameLen - copied) 0).set (chNameLen - 1) 0
      some (deliver core rx (.remoteOpen cid (cString tempString)), readInd, false)
  else if id = CmdId.closeChannel.value then
    some (deliver core rx (.remoteClose cid), readInd, false)
  else if id = CmdId.openChannelAck.value then
    some (deliver core rx (.openAck cid), readInd, false)
  else if id = CmdId.closeChannelAck.value then
    some (deliver core rx (.closeAck cid), readInd, false)
  else if id = CmdId.txData.value then
    let readInd := checkIndexWrapAround (readInd + 4) rx.fifo.size
    let cmdArg := (msgramRead32 rx readInd).toNat
    if cmdArg ≥ rx.fifo.size then none
    else
      let readInd := checkIndexWrapAround (readInd + 2 * 4) rx.fifo.size
      let rx := { rx with pktStartInd := readInd, pktSize := cmdArg }
      let rx := deliver core rx (.packet cid (readPacket rx (cmdArg + 1) 0))
      some (rx, (readInd + cmdArg) % 2 ^ 32, rx.flags.irqMask)
  else if id = CmdId.txSignals.value then
    some (deliver core rx (.remoteSigs cid (msgramRead32 rx readInd)), readInd, false)
  else none

/-- One turn of the loop of `xport_rpm_isr`. -/
def isrTurn (rx : Rx) (readInd : Nat) : Option (Rx × Nat × Bool) := do
  let (rx, readInd, stop) ← processCmd core rx (msgramRead32 rx readInd) (readInd + 4)
  if rx.flags.reset then some (rx, readInd, true)
  else
    let readInd ← glinkOsRoundup64 readInd
    let readInd := if readInd ≥ rx.fifo.size then readInd - rx.fifo.size else readInd
    some ({ rx with fifo := { rx.fifo with readInd := readInd } }, readInd, stop)

/-- The loop of `xport_rpm_isr`, for at most `fuel` turns. -/
def isrLoop (writeInd : Nat) : Nat → Rx → Nat → Bool → Option Rx
  | fuel, rx, readInd, stop =>
    if writeInd = readInd ∨ stop then some rx
    else
      match fuel with
      | 0 => none
      | fuel + 1 => do
        let (rx, readInd, stop) ← isrTurn core rx readInd
        isrLoop writeInd fuel rx readInd stop

/-- `xport_rpm_isr`. -/
def isr (fuel : Nat) (rx : Rx) : Option (Rx × GlinkStatus) := do
  let rx := if rx.flags.reset then
    deliver core { rx with flags := { rx.flags with reset := false } } .linkUp else rx
  let f := rx.fifo
  if !glinkOsFifoIndexCheck f.size f.writeInd 8 || !glinkOsFifoIndexCheck f.size f.readInd 8 then
    some (rx, .failure)
  else
    let rx ← isrLoop core f.writeInd fuel rx f.readInd false
    some (rx, .success)

end

end GLink.Rpm
