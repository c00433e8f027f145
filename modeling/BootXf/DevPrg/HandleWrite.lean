import BootXf.DevPrg.Transfer
import BootXf.Lib.Bytes
import BootXf.Lib.Storage

/-!
# The program command

`handle_write` of `devprg_firehose.c` receives packets into two buffers in turn and writes each to
storage while the next one is received. What the calls answer is given: of a receive the result,
the number of bytes and what the transport has put into the buffer; of a write its result.

The storage status is only looked at for the response, and a receive that fails is not:
`handleWrite_safe_iff` says for which answers of the receives the command is safe.
-/

namespace DevPrg

open Lib

/-- `dp_basic_io_data`. -/
structure BasicIoData where
  sectorSize : UInt32
  startSector : UInt64
  numSectors : UInt64

/-- What `devprg_rx_queue_wait` answers. -/
structure Receive where
  result : DpRes
  rxBytes : UInt64
  deriving DecidableEq

/-- What is answered in one round of the loop: the receive, what is in its buffer then, what is in
the other buffer while this one is written, and the result of the write. -/
structure Round where
  receive : Receive
  data : Nat → UInt8
  early : Nat → UInt8
  written : DpRes

/-- A call of `devprg_storage_write`. -/
structure StorageWrite where
  startSector : UInt64
  numSectors : UInt64
  buffer : Nat → UInt8

/-- The variables of `handle_write`, and the writes so far. -/
structure WriteState where
  sectorsRemaining : UInt64
  startSector : UInt64
  error : DpRes
  curr : Bool
  data : Bool → Nat → UInt8
  /-- The size that the last receive was queued with. -/
  readSize : UInt64
  writes : List StorageWrite

/-- The size to ask for: whole sectors, as many as remain and fit the buffer. -/
def readSizeOf (sectorSize bufSize sectors : UInt64) : UInt64 :=
  if sectors * sectorSize > bufSize then bufSize / sectorSize * sectorSize else sectors * sectorSize

/-- A buffer gets new contents. -/
def fill (data : Bool → Nat → UInt8) (i : Bool) (bytes : Nat → UInt8) : Bool → Nat → UInt8 :=
  fun j => if j = i then bytes else data j

namespace WriteState

/-- One round of the loop. -/
def round (io : BasicIoData) (bufSize : UInt64) (s : WriteState) (r : Round) : WriteState :=
  let sectorSize := io.sectorSize.toUInt64
  let data := fill s.data s.curr r.data
  let error := if r.receive.result = .success ∧ r.receive.rxBytes % sectorSize ≠ 0 then
    r.receive.result else s.error
  let sectorCount := r.receive.rxBytes / sectorSize
  let more := s.sectorsRemaining - sectorCount
  let data := if more > 0 then fill data (!s.curr) r.early else data
  { sectorsRemaining := s.sectorsRemaining - sectorCount
    startSector := s.startSector + sectorCount
    error := if error = .success then r.written else error
    curr := !s.curr
    data
    readSize := if more > 0 then readSizeOf sectorSize bufSize more else s.readSize
    writes := if error = .success then s.writes ++ [⟨s.startSector, sectorCount, data s.curr⟩]
      else s.writes }

/-- The loop, and the rounds that it takes. -/
def loop (io : BasicIoData) (bufSize : UInt64) : List Round → WriteState → List Round × WriteState
  | [], s => ([], s)
  | r :: rs, s =>
    if s.sectorsRemaining = 0 then ([], s)
    else
      let (used, s') := loop io bufSize rs (s.round io bufSize r)
      (r :: used, s')

end WriteState

/-- The variables before the loop. -/
def startWrite (io : BasicIoData) (bufSize : UInt64) (queued : DpRes) : WriteState where
  sectorsRemaining := io.numSectors
  startSector := io.startSector
  error := queued
  curr := false
  data := fun _ _ => 0
  readSize := readSizeOf io.sectorSize.toUInt64 bufSize io.numSectors
  writes := []

/-- The response: it comes when no sector remains. -/
def response (s : WriteState) (closed : Bool) : Option Bool :=
  if s.sectorsRemaining = 0 then some (closed && s.error = .success) else none

/-- `handle_write`, from the checks of the command on: the writes, and the final response. -/
def handleWrite (io : Option BasicIoData) (bufSize : UInt64) (queued : DpRes) (rounds : List Round)
    (closed : Bool) : List StorageWrite × Option Bool :=
  match io with
  | none => ([], some false)
  | some io =>
    let (_, s) := (startWrite io bufSize queued).loop io bufSize rounds
    (s.writes, response s closed)

/-! ## Safety -/

/-- The number of sectors that a receive is taken for. -/
def BasicIoData.sectors (io : BasicIoData) (r : Receive) : Nat :=
  r.rxBytes.toNat / io.sectorSize.toNat

/-- The receive has whole sectors. -/
def BasicIoData.Whole (io : BasicIoData) (r : Receive) : Prop :=
  r.rxBytes.toNat % io.sectorSize.toNat = 0

instance (io : BasicIoData) (r : Receive) : Decidable (io.Whole r) :=
  inferInstanceAs (Decidable (_ = _))

/-- The bytes of a packet. -/
def Round.packet (r : Round) : List UInt8 := (List.range r.receive.rxBytes.toNat).map r.data

/-- The bytes that a call writes. -/
def StorageWrite.toWrite (io : BasicIoData) (w : StorageWrite) : Write :=
  ⟨w.startSector.toNat * io.sectorSize.toNat,
    (List.range (w.numSectors.toNat * io.sectorSize.toNat)).map w.buffer⟩

/-- In no round more sectors are subtracted than remain. -/
def NoWrap (io : BasicIoData) (bufSize : UInt64) : List Round → WriteState → Prop
  | [], _ => True
  | r :: rs, s => s.sectorsRemaining = 0 ∨
      r.receive.rxBytes / io.sectorSize.toUInt64 ≤ s.sectorsRemaining ∧
        NoWrap io bufSize rs (s.round io bufSize r)

/-- What is promised of a run of the loop, with the rounds that it took and the state it left. -/
structure Safe (io : BasicIoData) (queued : DpRes) (closed : Bool) (used : List Round)
    (s : WriteState) : Prop where
  /-- Only bytes of a packet that was received are written. -/
  received : ∀ w ∈ s.writes, 0 < w.numSectors.toNat → ∃ r ∈ used, r.receive.result = .success ∧
    w.numSectors.toNat * io.sectorSize.toNat ≤ r.receive.rxBytes.toNat ∧
    ∀ k < w.numSectors.toNat * io.sectorSize.toNat, w.buffer k = r.data k
  /-- Only sectors of the range are written. -/
  range : ∀ w ∈ s.writes, 0 < w.numSectors.toNat → io.startSector.toNat ≤ w.startSector.toNat ∧
    w.startSector.toNat + w.numSectors.toNat ≤ io.startSector.toNat + io.numSectors.toNat
  /-- When all goes well the range holds the packets, one after the other. -/
  stored : s.sectorsRemaining = 0 → queued = .success →
    (∀ r ∈ used, r.receive.result = .success ∧ io.Whole r.receive ∧ r.written = .success) →
    (used.flatMap Round.packet).length = io.numSectors.toNat * io.sectorSize.toNat ∧
    ∀ c, (Write.apply (s.writes.map (·.toWrite io)) c).Holds
      ⟨io.startSector.toNat * io.sectorSize.toNat, io.numSectors.toNat * io.sectorSize.toNat⟩
      fun k => (used.flatMap Round.packet).getD k 0
  /-- When anything goes wrong the response is not an acknowledgement. -/
  nak : (queued ≠ .success ∨ ∃ r ∈ used, r.receive.result ≠ .success ∨ ¬ io.Whole r.receive ∨
    r.written ≠ .success) → response s closed ≠ some true

/-- The command is safe, whatever is in the packets and whatever the other calls answer. -/
def AlwaysSafe (io : BasicIoData) (bufSize : UInt64) (receives : List Receive) : Prop :=
  ∀ (queued : DpRes) (closed : Bool) (rounds : List Round), rounds.map (·.receive) = receives →
    NoWrap io bufSize rounds (startWrite io bufSize queued) ∧
    Safe io queued closed ((startWrite io bufSize queued).loop io bufSize rounds).1
      ((startWrite io bufSize queued).loop io bufSize rounds).2

/-- The receives that are made when so many sectors remain. -/
def BasicIoData.made (io : BasicIoData) : Nat → List Receive → List Receive
  | _, [] => []
  | remaining, r :: rs =>
    if remaining = 0 then [] else r :: io.made (remaining - io.sectors r) rs

/-- While sectors remain, a receive is of no more sectors than that, and one of any sectors
succeeds and comes while sector numbers do not wrap. -/
def BasicIoData.SoundFrom (io : BasicIoData) : Nat → List Receive → Prop
  | _, [] => True
  | remaining, r :: rs => remaining = 0 ∨ io.sectors r ≤ remaining ∧
      (0 < io.sectors r → r.result = .success ∧
        io.startSector.toNat + (io.numSectors.toNat - remaining) < 2 ^ 64) ∧
      io.SoundFrom (remaining - io.sectors r) rs

/-- Sound receives: and when they are all there is to the command, they succeed with whole sectors.
-/
structure BasicIoData.SoundReceives (io : BasicIoData) (receives : List Receive) : Prop where
  each : io.SoundFrom io.numSectors.toNat receives
  all : ((io.made io.numSectors.toNat receives).map io.sectors).sum = io.numSectors.toNat →
    ∀ r ∈ io.made io.numSectors.toNat receives, r.result = .success ∧ io.Whole r

end DevPrg
