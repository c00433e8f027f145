import BootXf.Lib.Run

/-!
# Receiving packets with validation

With secure boot the device programmer takes only packets whose hashes are in tables that chain to a
signed one (`devprg_transfer.c`). `devprg_rx_queue` receives a table when one is due and queues the
receive of a packet; `devprg_rx_queue_wait` waits for it and compares its hash with the next entry.

The transport (`devprg_usb.c` over `qusb_fd.c`) has one receive at a time, and one place for what
its callback reports. A receive that is queued while another is pending first lets that one finish,
into the buffer of that one, and the next wait returns at once with its count.

The host is what a call is given: the bytes of a receive and whether it succeeded. At most as many
bytes come as were asked for; sizes are those that `devprg_usb_rx_queue` asks for, in whole packets
of the bus (those of the tables are whole packets already). Memory around the buffer of the tables
is a function of the distance from `vip->table`; the buffers for packets are named by their
addresses and lie elsewhere. SHA-256 and the signature check are parameters.
-/

namespace DevPrg

open Lib

/-- `DEVPRG_HASH_SIZE`. -/
def devprgHashSize : Nat := 32

/-- `vip->table_size`. -/
def vipTableSize : Nat := 8192

/-- `DEVPRG_VIP_TABLE_SIZE`, the size of the buffer for tables. -/
def devprgVipTableSize : Nat := 9216

/-- The number of hashes that a signed table has room for. -/
def signedTableHashes : Nat := 54

/-- `vip_state`. -/
inductive VipState
  | init
  | getNextTable
  | data
  | disabled
  deriving DecidableEq

/-- `dp_res_t`, of which these are used here. -/
inductive DpRes
  | success
  | errorReceive
  | errorAuthentication
  | errorStorage
  deriving DecidableEq

/-- The signature check: where in the blob the authenticated data is, and how much. -/
structure Authenticator where
  verify : List UInt8 → Option (Nat × Nat)
  inside : ∀ {blob : List UInt8} {offset size : Nat}, verify blob = some (offset, size) →
    offset + size ≤ blob.length

/-- A receive: what the host sends, and whether the transport reports success. -/
structure Received where
  ok : Bool
  bytes : List UInt8

/-- Where a receive goes: to `vip->table`, or to a buffer for packets. -/
inductive Place
  | table
  | buffer (data : Nat)
  deriving DecidableEq

/-- The variables of the module, and of the transport. -/
structure Transfer where
  state : VipState
  currIndex : Nat
  maxIndex : Nat
  maxHashes : Nat
  /-- `vip->curr_hash`, counted from `vip->table`. -/
  currHash : Int
  payload : Nat
  /-- Memory around `vip->table`. -/
  memory : Int → UInt8
  /-- The receive that the driver has still to finish, and its size. -/
  pending : Option (Place × Nat)
  /-- `usb_cb_rx_data` once the callback was called: whether without error, and how many bytes. -/
  called : Option (Bool × Nat)
  buffers : Nat → Nat → UInt8

/-- The hash at a place. -/
def hashAt (memory : Int → UInt8) (place : Int) : List UInt8 :=
  (List.range devprgHashSize).map fun (k : Nat) => memory (place + k)

/-- The hash is zero. -/
def isZero (hash : List UInt8) : Bool := hash.all (· == 0)

/-- The loop that looks for the last hash that is not zero. It looks at the one in front of the
table when all are zero, and then gives up. -/
def lastHash (zero : Int → Bool) (maxIndex : Nat) : Nat → Nat
  | 0 => if zero (-1) then maxIndex else 0
  | i + 1 => if zero i then lastHash zero maxIndex i else i + 1

namespace Transfer

/-- `devprg_init_vip_state`. -/
def devprgInitVipState (s : Transfer) : Transfer :=
  { s with
    state := .init
    currHash := 0
    maxIndex := 0
    maxHashes := signedTableHashes
    currIndex := 0 }

/-- Memory around `vip->table` after bytes were put there. -/
def putTable (memory : Int → UInt8) (bytes : List UInt8) : Int → UInt8 :=
  fun a => if 0 ≤ a ∧ a < bytes.length then bytes.getD a.toNat 0 else memory a

/-- The pending receive finishes: what the host sends is put in its place, and the callback called.
-/
def finish (s : Transfer) (place : Place) (size : Nat) (received : Received) : Transfer :=
  let bytes := received.bytes.take size
  let s := { s with pending := none, called := some (received.ok, bytes.length) }
  match place with
  | .table => { s with memory := putTable s.memory bytes }
  | .buffer data =>
    { s with buffers := fun b i =>
        if b = data ∧ i < bytes.length then bytes.getD i 0 else s.buffers b i }

/-- `devprg_transport_rx_queue`: a receive that is still pending is finished first
(`qusb_fd_rx_pkt`), with what the host sends for it. -/
def transportRxQueue (s : Transfer) (place : Place) (size : Nat) (earlier : Received)
    (taken : Bool) : DpRes × Transfer :=
  let s := { s with called := none }
  let s := match s.pending with
    | none => s
    | some (place', size') => s.finish place' size' earlier
  if taken then (.success, { s with pending := some (place, size) }) else (.errorReceive, s)

/-- `rx_queue_check`, again and again: nothing is polled once the callback was called. -/
def poll (s : Transfer) (received : Received) : Transfer :=
  match s.called, s.pending with
  | none, some (place, size) => s.finish place size received
  | _, _ => s

/-- `devprg_transport_rx_queue_wait`, and how many bytes came. It never returns when there is no
receive that could finish. -/
def transportRxQueueWait (s : Transfer) (received : Received) : Option (DpRes × Nat × Transfer) :=
  let s := s.poll received
  match s.called with
  | none => none
  | some (true, rxBytes) => some (.success, rxBytes, s)
  | some (false, _) => some (.errorReceive, 0, s)

/-- `devprg_transport_rx_blocking` into the buffer of the tables. -/
def rxTable (s : Transfer) (size : Nat) (earlier table : Received) : Transfer :=
  (s.transportRxQueue .table size earlier true).2.poll table

/-- What lies in the buffer of the tables after a receive without error, as far as its count goes.
-/
def tableBytes (s : Transfer) : Option (List UInt8) :=
  match s.called with
  | some (true, rsize) => some ((List.range rsize).map fun (k : Nat) => s.memory k)
  | _ => none

/-- The part of `devprg_rx_queue` that receives a signed table. -/
def rxSignedTable (A : Authenticator) (s : Transfer) (earlier table : Received) :
    DpRes × Transfer :=
  let s := s.rxTable devprgVipTableSize earlier table
  match s.tableBytes with
  | none => (.errorReceive, s)
  | some blob =>
    match A.verify blob with
    | none => (.errorAuthentication, s)
    | some (offset, size) =>
      if size / devprgHashSize > signedTableHashes then (.errorReceive, s)
      else
        (.success,
          { s with
            currHash := offset
            maxIndex := lastHash (fun i => isZero (hashAt s.memory (offset + devprgHashSize * i)))
              (size / devprgHashSize) (size / devprgHashSize)
            maxHashes := signedTableHashes
            currIndex := 0
            state := .data })

/-- The part that receives the next table. -/
def rxNextTable (sha : List UInt8 → List UInt8) (s : Transfer) (earlier table : Received) :
    DpRes × Transfer :=
  let expectedHash := hashAt s.memory s.currHash
  let s := s.rxTable vipTableSize earlier table
  match s.tableBytes with
  | none => (.errorReceive, s)
  | some bytes =>
    if expectedHash ≠ sha bytes then (.errorAuthentication, s)
    else
      (.success,
        { s with
          maxIndex := bytes.length / devprgHashSize
          maxHashes := vipTableSize / devprgHashSize
          currIndex := 0
          currHash := 0
          state := .data })

/-- The receive of a packet is queued. -/
def rxData (s : Transfer) (data size : Nat) (earlier : Received) (taken : Bool) :
    DpRes × Transfer :=
  { s with payload := data }.transportRxQueue (.buffer data) size earlier taken

/-- What `devprg_rx_queue` does after a table. If the receive of the table is still pending, it is
finished now. -/
def afterTable (r : DpRes × Transfer) (data size : Nat) (table : Received) (taken : Bool) :
    DpRes × Transfer :=
  match r with
  | (.success, s) => s.rxData data size table taken
  | (error, s) => (error, s.devprgInitVipState)

/-- `devprg_rx_queue`: what the host sends for a receive that is still pending, and as a table when
one is due, and whether the transport takes the receive of the packet. -/
def devprgRxQueue (A : Authenticator) (sha : List UInt8 → List UInt8) (s : Transfer)
    (data size : Nat) (earlier table : Received) (taken : Bool) : DpRes × Transfer :=
  match s.state with
  | .init => afterTable (s.rxSignedTable A earlier table) data size table taken
  | .getNextTable => afterTable (s.rxNextTable sha earlier table) data size table taken
  | .data | .disabled => s.rxData data size earlier taken

/-- The next hash. -/
def advance (s : Transfer) : Transfer :=
  let s := { s with currIndex := s.currIndex + 1, currHash := s.currHash + devprgHashSize }
  if s.maxIndex ≥ s.maxHashes ∧ s.currIndex + 1 ≥ s.maxIndex then { s with state := .getNextTable }
  else if s.maxIndex < s.maxHashes ∧ s.currIndex ≥ s.maxIndex then s.devprgInitVipState
  else s

/-- The packet: what lies in its buffer, as far as the count goes. -/
def content (s : Transfer) (rxBytes : Nat) : List UInt8 :=
  (List.range rxBytes).map (s.buffers s.payload)

/-- `devprg_rx_queue_wait`, and the packet that it accepts. -/
def devprgRxQueueWait (sha : List UInt8 → List UInt8) (s : Transfer) (packet : Received) :
    Option (DpRes × List UInt8 × Transfer) :=
  match s.state with
  | .disabled => (s.transportRxQueueWait packet).map fun r => (r.1, r.2.2.content r.2.1, r.2.2)
  | .data =>
    (s.transportRxQueueWait packet).map fun r =>
      let (result, rxBytes, s) := r
      if result ≠ .success then (result, [], s.devprgInitVipState)
      else if hashAt s.memory s.currHash ≠ sha (s.content rxBytes) then
        (.errorAuthentication, [], s.devprgInitVipState)
      else (.success, s.content rxBytes, s.advance)
  | .init | .getNextTable => some (.errorAuthentication, [], s.devprgInitVipState)

end Transfer

/-- A call, with what the host and the transport do in it. -/
inductive Call
  | rxQueue (data size : Nat) (earlier table : Received) (taken : Bool)
  | rxQueueWait (packet : Received)
  | rxBlocking (data size : Nat) (earlier table : Received) (taken : Bool) (packet : Received)

/-- What a call has accepted, or that it failed. -/
inductive Mark
  | signedTable (blob : List UInt8)
  | nextTable (bytes : List UInt8)
  | packet (bytes : List UInt8)
  | failed
  deriving DecidableEq

namespace Transfer

/-- What `devprg_rx_queue` accepted, the last first: a table comes before a failure to queue the
packet. -/
def queueMarks (A : Authenticator) (sha : List UInt8 → List UInt8) (s : Transfer)
    (earlier table : Received) (result : DpRes) : List Mark :=
  (if result = .success then [] else [.failed]) ++
  match s.state with
  | .init => if (s.rxSignedTable A earlier table).1 = .success then
      ((s.rxTable devprgVipTableSize earlier table).tableBytes.map .signedTable).toList else []
  | .getNextTable => if (s.rxNextTable sha earlier table).1 = .success then
      ((s.rxTable vipTableSize earlier table).tableBytes.map .nextTable).toList else []
  | .data | .disabled => []

/-- What `devprg_rx_queue_wait` accepted. -/
def waitMarks (result : DpRes) (bytes : List UInt8) : List Mark :=
  if result = .success then [.packet bytes] else [.failed]

/-- `devprg_rx_queue`, `devprg_rx_queue_wait` or `devprg_rx_blocking`, if it returns. -/
def call (A : Authenticator) (sha : List UInt8 → List UInt8) (s : Transfer) :
    Call → Option (List Mark × Transfer)
  | .rxQueue data size earlier table taken =>
    let (result, s') := s.devprgRxQueue A sha data size earlier table taken
    some (s.queueMarks A sha earlier table result, s')
  | .rxQueueWait packet => (s.devprgRxQueueWait sha packet).map fun r =>
    (waitMarks r.1 r.2.1, r.2.2)
  | .rxBlocking data size earlier table taken packet =>
    let (result, s') := s.devprgRxQueue A sha data size earlier table taken
    let marks := s.queueMarks A sha earlier table result
    if result = .success then
      (s'.devprgRxQueueWait sha packet).map fun r => (waitMarks r.1 r.2.1 ++ marks, r.2.2)
    else some (marks, s')

/-- The module as `devprg_init_vip_state` leaves it. -/
def boot (memory : Int → UInt8) (buffers : Nat → Nat → UInt8) : Transfer where
  state := .init
  currIndex := 0
  maxIndex := 0
  maxHashes := signedTableHashes
  currHash := 0
  payload := 0
  memory
  pending := none
  called := none
  buffers

end Transfer

/-- The module, and what has been accepted so far, the last first. -/
structure Session where
  transfer : Transfer
  trace : List Mark

/-- What a call leaves behind, if it returns. -/
def Session.after (A : Authenticator) (sha : List UInt8 → List UInt8) (s : Session) (c : Call) :
    Option Session :=
  (s.transfer.call A sha c).map fun r => ⟨r.2, r.1 ++ s.trace⟩

/-- One call that returns. -/
def Session.Step (A : Authenticator) (sha : List UInt8 → List UInt8) (s : Session) (c : Call)
    (s' : Session) : Prop :=
  s.after A sha c = some s'

end DevPrg
