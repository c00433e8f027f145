import BootXf.RamDump.DloadDebug
import BootXf.Sahara.Transport

/-!
# Memory reads

In memory debug mode the host asks for memory with MEMORY_READ (32-bit addresses) and
MEMORY_READ_64BITS. A request outside the region table is refused. What hardware cannot read
directly is, for a 32-bit request, copied piece by piece to a buffer and sent from there; a 64-bit
request for it is refused.

A well-behaved answer (`AnswersOnce`) is the requested data, whole and from where it was asked
for, or one END_IMAGE_TX with an error: at once, or behind data that the transport cut short. The
64-bit handler hands its length to a transmission of 32-bit length: it answers so exactly when the
length of an accepted request fits, or nothing of it is left. The 32-bit handler goes on to transmit
after the copy of a piece failed: it answers so exactly when no piece of a restricted request lies
at address zero, where the copy fails, or beyond the 32-bit addresses that it counts with.
-/

namespace Sahara

open Lib RamDump List Program

/-! ## The handlers -/

section Code
variable (si : Interface) (host : Host) (tbl : MemDebugTbl)

/-- `sizeof(struct sahara_packet_memory_64bits_read)`. -/
def sizeofMemory64bitsRead : UInt32 := 24

/-- `boot_sahara_handle_memory_64bits_read`. The transmission takes a 32-bit length. -/
def handleMemory64bitsRead (length : UInt32) : Code Unit := do
  let g ← Program.get
  let memoryAddr := g.saharaPacketBuffer.u64 8
  let memoryLength := g.saharaPacketBuffer.u64 16
  if length ≠ sizeofMemory64bitsRead ∨ length ≠ g.saharaPacketBuffer.u32 4 then
    handleEndImageTx si host .invalidPacketSize
  else if !tbl.verifyAddr memoryAddr memoryLength then
    handleEndImageTx si host .invalidMemoryRead
  else if tbl.isRestrictedAddr memoryAddr memoryLength then
    reportError si host .invalidMemoryRead
  else do
    let sent ← handleTx host (.memory memoryAddr) memoryLength.toUInt32
    reportError si host (txStatus memoryLength sent)

/-- Calls `mem_debug_copy_restricted`. -/
def copyRestricted (addr len : UInt64) : Code UInt64 := do
  log (.copyRestricted addr len (tbl.copyRestricted addr len))
  pure (tbl.copyRestricted addr len)

/-- The variables of the loop over a restricted region. -/
structure Piece where
  left : UInt32
  addr : UInt32
  deriving DecidableEq, Repr

/-- The size of the next piece. -/
def Piece.size (p : Piece) : UInt32 :=
  if p.left > maxMemoryDataSizeInBytes then maxMemoryDataSizeInBytes else p.left

/-- The second half of a round: the piece is sent from the buffer it was copied to. After a failed
copy the error is sent and the transmission is made all the same, from address zero. -/
def transmitPiece (p : Piece) (buf : UInt64) : Code (Piece ⊕ Status) := do
  when (buf = 0) (handleEndImageTx si host .invalidMemoryRead)
  let sent ← handleTx host (.memory buf) p.size
  let tx := txStatus p.size.toUInt64 sent
  if tx ≠ .success then pure (.inr tx)
  else if buf = 0 then pure (.inr .invalidMemoryRead)
  else pure (.inl ⟨p.left - p.size, p.addr + p.size⟩)

/-- One round of the loop over a restricted region. -/
def transferPiece (p : Piece) : Code (Piece ⊕ Status) :=
  if p.left = 0 then pure (.inr .success)
  else do
    let buf ← copyRestricted tbl p.addr.toUInt64 p.size.toUInt64
    transmitPiece si host p buf

/-- The loop over a restricted region. Every round but the last moves on, so a round for each byte
is enough. -/
def transferRestricted (addr len : UInt32) : Code Status :=
  Program.iter (transferPiece si host tbl) (len.toNat + 1) ⟨len, addr⟩

/-- `sizeof(struct sahara_packet_memory_read)`. -/
def sizeofMemoryRead : UInt32 := 16

/-- `boot_sahara_handle_memory_read`. -/
def handleMemoryRead (length : UInt32) : Code Unit := do
  let g ← Program.get
  let memoryAddr := g.saharaPacketBuffer.u32 8
  let memoryLength := g.saharaPacketBuffer.u32 12
  if length ≠ sizeofMemoryRead ∨ length ≠ g.saharaPacketBuffer.u32 4 then
    handleEndImageTx si host .invalidPacketSize
  else if !tbl.verifyAddr memoryAddr.toUInt64 memoryLength.toUInt64 then
    handleEndImageTx si host .invalidMemoryRead
  else if tbl.isRestrictedAddr memoryAddr.toUInt64 memoryLength.toUInt64 then do
    let status ← transferRestricted si host tbl memoryAddr memoryLength
    reportError si host status
  else do
    let sent ← handleTx host (.memory memoryAddr.toUInt64) memoryLength
    reportError si host (txStatus memoryLength.toUInt64 sent)

end Code

/-! ## The table of the boot loader -/

/-- Where the linker put the region table and the buffer for restricted memory. -/
structure DumpPlace where
  table : TablePlace
  buffer : UInt64
  buffer_pos : 0 < buffer
  buffer_fits : buffer.toNat + maxMemoryDataSizeInBytes.toNat ≤ 2 ^ 64

/-- `sbl_sahara_mem_debug_copy_restricted`: the address of the buffer, or zero. -/
def sblSaharaMemDebugCopyRestricted (place : DumpPlace) (addr len : UInt64) : UInt64 :=
  if addr > 0 ∧ len ≤ maxMemoryDataSizeInBytes.toUInt64 then place.buffer else 0

/-- `sbl_sahara_mem_debug_tbl`. -/
def sblSaharaMemDebugTbl (place : DumpPlace) (d : DloadDebug) : MemDebugTbl where
  tableAddr := place.table.addr
  tableLen := d.dloadMemDebugLen
  verifyAddr := d.dloadMemDebugVerifyAddr place.table
  isRestrictedAddr := d.dloadMemDebugIsRestrictedAddr
  copyRestricted := sblSaharaMemDebugCopyRestricted place

/-! ## A well-behaved answer -/

/-- The transmission wrote all it was given, without an error. -/
def TxAnswer.Full (a : TxAnswer) (length : UInt32) : Prop :=
  a.completes = true ∧ a.errCode = 0 ∧ a.bytesWritten = length

instance (a : TxAnswer) (length : UInt32) : Decidable (a.Full length) :=
  inferInstanceAs (Decidable (_ ∧ _ ∧ _))

/-- The events that send `n` bytes from an address on: from the address itself, or from a buffer
that they were copied to. -/
inductive PieceSent (addr : Nat) (n : UInt32) (a : TxAnswer) : List Event → Prop
  | direct : PieceSent addr n a [.tx (.memory (.ofNat addr)) n a]
  | copied {buf : UInt64} (hbuf : buf ≠ 0) :
      PieceSent addr n a
        [.copyRestricted (.ofNat addr) n.toUInt64 buf, .tx (.memory buf) n a]

/-- The answer to a request for `len` bytes from `base` on that is not refused, oldest event first:
pieces of the data in order, and then nothing if they are all of it. The transport may cut a piece
short, or the copy of one fail: then one END_IMAGE_TX with an error follows, and nothing more. -/
inductive Answered : (base len : Nat) → List Event → Prop
  | whole {base : Nat} : Answered base 0 []
  | piece {base len : Nat} {n : UInt32} {a : TxAnswer} {evs rest : List Event}
      (hsent : PieceSent base n a evs) (hfull : a.Full n) (hn : n.toNat ≤ len)
      (hrest : Answered (base + n.toNat) (len - n.toNat) rest) : Answered base len (evs ++ rest)
  | failed {base len : Nat} {n : UInt32} {a b : TxAnswer} {evs : List Event} {id : UInt32}
      {status : Status} (hsent : PieceSent base n a evs) (hn : n.toNat ≤ len)
      (hcut : n ≠ 0 → ¬ a.Full n) (herr : status ≠ .success) :
      Answered base len (evs ++ [.tx (.endImageTx id status) sizeofEndImageTx b])
  | uncopied {base len : Nat} {n : UInt64} {id : UInt32} {status : Status} {b : TxAnswer}
      (herr : status ≠ .success) :
      Answered base len
        [.copyRestricted (.ofNat base) n 0, .tx (.endImageTx id status) sizeofEndImageTx b]

/-- A request is refused with one END_IMAGE_TX and no data, or answered. -/
inductive Reply (base len : Nat) : List Event → Prop
  | refused {id : UInt32} {status : Status} {b : TxAnswer} (herr : status ≠ .success) :
      Reply base len [.tx (.endImageTx id status) sizeofEndImageTx b]
  | answered {evs : List Event} (h : Answered base len evs) : Reply base len evs

/-- A handler adds events of a kind to the trace, or the beginning of such events when the target
resets or waits without end. -/
def Adds (P : List Event → Prop) (g : Globals) : Outcome Globals Unit → Prop
  | .ret _ s => ∃ evs, P evs ∧ s.trace = evs.reverse ++ g.trace
  | .halt s | .spin s => ∃ evs more, P (evs ++ more) ∧ s.trace = evs.reverse ++ g.trace

/-- The handler answers once. -/
def AnswersOnce (base len : Nat) (g : Globals) (o : Outcome Globals Unit) : Prop :=
  Adds (Reply base len) g o

/-! ## One step of an answer -/

section
variable {si : Interface} {host : Host} {g : Globals} {base len : Nat} {o : Outcome Globals Unit}
  {g' : Globals} {P Q : List Event → Prop} {n : UInt32} {a : TxAnswer}

/-- What is added is of another kind when events that begin with those in the trace are. -/
theorem Adds.imp_of_trace (h : Adds P g o)
    (hpq : ∀ evs more, P (evs ++ more) → o.state.trace = evs.reverse ++ g.trace →
      Q (evs ++ more)) : Adds Q g o := by
  cases o with
  | ret _ s =>
    obtain ⟨evs, hevs, hs⟩ := h
    have hq := hpq evs [] (by rwa [append_nil]) hs
    exact ⟨evs, by rwa [append_nil] at hq, hs⟩
  | halt s | spin s =>
    obtain ⟨evs, more, hevs, hs⟩ := h
    exact ⟨evs, more, hpq _ _ hevs hs, hs⟩

theorem Adds.imp (h : Adds P g o) (hpq : ∀ evs, P evs → Q evs) : Adds Q g o :=
  h.imp_of_trace fun _ _ hp _ => hpq _ hp

/-- An error report after events adds the events and END_IMAGE_TX. -/
theorem adds_endImageTx {P : List Event → Prop} {evs : List Event} {status : Status}
    (htrace : g'.trace = evs.reverse ++ g.trace) (herr : status ≠ .success)
    (hP : P (evs ++ [.tx (.endImageTx si.expectedImage status) sizeofEndImageTx
      (host.tx g'.calls)])) : Adds P g (handleEndImageTx si host status g') := by
  have hend : ∀ s : Globals, s.trace = (g'.endSent si host status).trace →
      s.trace = (evs ++ [Event.tx (.endImageTx si.expectedImage status) sizeofEndImageTx
        (host.tx g'.calls)]).reverse ++ g.trace := by
    intro s hs
    rw [hs]
    show _ :: g'.trace = _
    rw [htrace, reverse_append, append_assoc]
    rfl
  rcases handleEndImageTx_cases si host g' status with
    h | ⟨s, h, hs⟩ | ⟨-, -, h⟩ <;> rw [h]
  · exact ⟨_, [], by rwa [append_nil], hend _ rfl⟩
  · exact ⟨_, [], by rwa [append_nil], hend _ hs⟩
  · rw [if_neg herr]
    exact ⟨_, hP, hend _ rfl⟩

/-- An error report is an answer. -/
theorem answersOnce_endImageTx {status : Status} (herr : status ≠ .success) :
    AnswersOnce base len g (handleEndImageTx si host status g) :=
  adds_endImageTx (rfl : _ = ([] : List Event).reverse ++ _) herr (.refused herr)

/-- Sending a piece in full and answering the rest is an answer. -/
theorem adds_piece {evs : List Event} (hsent : PieceSent base n a evs) (hfull : a.Full n)
    (hn : n.toNat ≤ len) (htrace : g'.trace = evs.reverse ++ g.trace)
    (ho : Adds (Answered (base + n.toNat) (len - n.toNat)) g' o) :
    Adds (Answered base len) g o := by
  cases o with
  | ret _ s =>
    obtain ⟨rest, hrest, hs⟩ := ho
    refine ⟨evs ++ rest, .piece hsent hfull hn hrest, ?_⟩
    rw [hs, htrace, reverse_append, append_assoc]
  | halt s | spin s =>
    obtain ⟨rest, more, hrest, hs⟩ := ho
    refine ⟨evs ++ rest, more, ?_, ?_⟩
    · rw [append_assoc]
      exact .piece hsent hfull hn hrest
    · rw [hs, htrace, reverse_append, append_assoc]

/-- The status of a transmission is success exactly when it was full. -/
theorem txStatus_eq_success {length : UInt64} :
    txStatus length (a.bytesWritten, a.errCode) = .success ↔
      a.errCode = 0 ∧ a.bytesWritten.toUInt64 = length := by
  simp only [txStatus, BulkError.timeout]
  split
  · next h => simp_all [Status.timeoutTx, Status.success]
  · split
    · simp_all [Status.generalTxRxError, Status.success]
    · split <;> simp_all [Status.invalidTxLength, Status.success]

/-- **One transmission of an answer.** What follows it is an answer for the rest if it was full,
and the report of an error otherwise. Its length is that of the status, or zero. -/
theorem adds_transmit (pre : List Event) {src : UInt64} {length : UInt64} {next : Code Unit}
    (hsent : ∀ a, PieceSent base n a (pre ++ [.tx (.memory src) n a])) (hn : n.toNat ≤ len)
    (htrace : g'.trace = pre.reverse ++ g.trace)
    (hnext : (host.tx g'.calls).Full n → (host.tx g'.calls).bytesWritten.toUInt64 = length →
      Adds (Answered (base + n.toNat) (len - n.toNat)) (g'.sent host (.memory src) n)
        (next (g'.sent host (.memory src) n))) (hlen : n = length.toUInt32)
    (hfits : n ≠ 0 → n.toUInt64 = length) :
    Adds (Answered base len) g ((do
      let sent ← handleTx host (.memory src) n
      if txStatus length sent ≠ .success then reportError si host (txStatus length sent)
      else next : Code Unit) g') := by
  have hsentTrace : (g'.sent host (.memory src) n).trace =
      (pre ++ [Event.tx (.memory src) n (host.tx g'.calls)]).reverse ++ g.trace := by
    show _ :: g'.trace = _
    rw [htrace, reverse_append, append_assoc]
    rfl
  have hpart : ¬ (host.tx g'.calls).Full n → ∀ b : TxAnswer, Answered base len
      ((pre ++ [.tx (.memory src) n (host.tx g'.calls)]) ++
        [.tx (.endImageTx si.expectedImage .timeoutTx) sizeofEndImageTx b]) := fun hcut b =>
    .failed (hsent _) hn (fun _ => hcut) (by decide)
  rcases handleTx_cases host g' (.memory src) n with h | h | ⟨hc, h⟩
  · have hcut : ¬ (host.tx g'.calls).Full n := fun hfull => by
      rw [handleTx_ret host g' _ _ hfull.1 hfull.2.1] at h
      cases h
    rw [bind_run, h]
    exact ⟨_, _, hpart hcut (host.tx 0), hsentTrace⟩
  · have hcut : ¬ (host.tx g'.calls).Full n := fun hfull => by
      rw [handleTx_ret host g' _ _ hfull.1 hfull.2.1] at h
      cases h
    rw [bind_halt h]
    exact ⟨_, _, hpart hcut (host.tx 0), hsentTrace⟩
  · rw [Program.bind_ret h]
    by_cases hs : txStatus length ((host.tx g'.calls).bytesWritten, (host.tx g'.calls).errCode) =
        .success
    · rw [if_neg (not_not_intro hs)]
      obtain ⟨herr, hbytes⟩ := txStatus_eq_success.mp hs
      have hfull : (host.tx g'.calls).Full n := ⟨hc, herr, by rw [hlen, ← hbytes]; simp⟩
      exact adds_piece (hsent _) hfull hn hsentTrace (hnext hfull hbytes)
    · rw [if_pos hs, reportError, Program.when_pos hs]
      refine adds_endImageTx hsentTrace hs (.failed (hsent _) hn (fun hne hfull => hs ?_) hs)
      rw [txStatus_eq_success, hfull.2.2]
      exact ⟨hfull.2.1, hfits hne⟩

theorem reportError_eq (status : Status) :
    reportError si host status =
      if status ≠ .success then reportError si host status else pure () := by
  by_cases hs : status = .success
  · rw [if_neg (not_not_intro hs), reportError, Program.when_neg (not_not_intro hs)]
  · rw [if_pos hs]

/-- A transmission whose status is reported, for a request of exactly its length or of one that
leaves nothing to transmit. -/
theorem adds_direct (si : Interface) (host : Host) (g : Globals) (addr length : UInt64)
    (hfits : length.toUInt32 ≠ 0 → length.toNat < 2 ^ 32) :
    Adds (Answered addr.toNat length.toNat) g ((do
      let sent ← handleTx host (.memory addr) length.toUInt32
      reportError si host (txStatus length sent) : Code Unit) g) := by
  have hn : length.toUInt32.toNat = length.toNat % 2 ^ 32 := UInt64.toNat_toUInt32 _
  have heq : (fun sent => reportError si host (txStatus length sent)) = fun sent =>
      if txStatus length sent ≠ .success then reportError si host (txStatus length sent)
      else pure () := funext fun _ => reportError_eq _
  have hsent : ∀ a, PieceSent addr.toNat length.toUInt32 a
      ([] ++ [.tx (.memory addr) length.toUInt32 a]) := fun a => by
    have h := @PieceSent.direct addr.toNat length.toUInt32 a
    rwa [UInt64.ofNat_toNat] at h
  rw [heq]
  refine adds_transmit [] hsent (by omega) rfl (fun _ hbytes => ?_) rfl fun hne => ?_
  · have hlt := (host.tx g.calls).bytesWritten.toNat_lt
    have hbytes := congrArg UInt64.toNat hbytes
    rw [UInt32.toNat_toUInt64] at hbytes
    have hall : length.toNat - length.toUInt32.toNat = 0 := by omega
    rw [hall]
    exact ⟨[], .whole, rfl⟩
  · refine UInt64.toNat_inj.mp ?_
    rw [UInt32.toNat_toUInt64, hn, Nat.mod_eq_of_lt (hfits hne)]

end

/-! ## The 64-bit handler -/

/-- The 64-bit request in the packet buffer is well-formed, the region table accepts it, and it is
not for restricted memory: its data is transmitted. -/
def ReadTransmitted (tbl : MemDebugTbl) (g : Globals) (length : UInt32) : Prop :=
  length = sizeofMemory64bitsRead ∧ length = g.saharaPacketBuffer.u32 4 ∧
    tbl.verifyAddr (g.saharaPacketBuffer.u64 8) (g.saharaPacketBuffer.u64 16) = true ∧
    tbl.isRestrictedAddr (g.saharaPacketBuffer.u64 8) (g.saharaPacketBuffer.u64 16) = false

/-- What is transmitted has the length of the request, or none. -/
def ReadFits (tbl : MemDebugTbl) (g : Globals) (length : UInt32) : Prop :=
  ReadTransmitted tbl g length → (g.saharaPacketBuffer.u64 16).toNat % 2 ^ 32 ≠ 0 →
    (g.saharaPacketBuffer.u64 16).toNat < 2 ^ 32

section
variable {si : Interface} {host : Host} {tbl : MemDebugTbl} {length : UInt32} {g : Globals}

/-- A request is refused, or its data is transmitted. -/
theorem handleMemory64bitsRead_cases (si : Interface) (host : Host) (tbl : MemDebugTbl)
    (length : UInt32) (g : Globals) :
    (¬ ReadTransmitted tbl g length ∧ ∃ status : Status, status ≠ .success ∧
      handleMemory64bitsRead si host tbl length g = handleEndImageTx si host status g) ∨
    (ReadTransmitted tbl g length ∧ handleMemory64bitsRead si host tbl length g = (do
      let sent ← handleTx host (.memory (g.saharaPacketBuffer.u64 8))
        (g.saharaPacketBuffer.u64 16).toUInt32
      reportError si host (txStatus (g.saharaPacketBuffer.u64 16) sent) : Code Unit) g) := by
  simp only [handleMemory64bitsRead, get_bind]
  split
  · next hbad =>
    exact .inl ⟨fun h => hbad.elim (· h.1) (· h.2.1), _, by decide, rfl⟩
  next hok =>
  obtain ⟨hlen, hfield⟩ := not_or.mp hok
  split
  · next hverify =>
    refine .inl ⟨fun h => ?_, _, by decide, rfl⟩
    rw [h.2.2.1] at hverify
    cases hverify
  next hverify =>
  split
  · next hrestricted =>
    refine .inl ⟨fun h => ?_, .invalidMemoryRead, by decide, ?_⟩
    · rw [h.2.2.2] at hrestricted
      cases hrestricted
    · rw [reportError, Program.when_pos (by decide)]
  next hrestricted =>
  refine .inr ⟨⟨Decidable.not_not.mp hlen, Decidable.not_not.mp hfield, ?_, ?_⟩, rfl⟩
  · simpa using hverify
  · simpa using hrestricted

/-- **The 64-bit handler answers once** when what it transmits fits. -/
theorem handleMemory64bitsRead_answersOnce (hfits : ReadFits tbl g length) :
    AnswersOnce (g.saharaPacketBuffer.u64 8).toNat (g.saharaPacketBuffer.u64 16).toNat g
      (handleMemory64bitsRead si host tbl length g) := by
  rcases handleMemory64bitsRead_cases si host tbl length g with
    ⟨-, status, herr, hrun⟩ | ⟨htransmitted, hrun⟩ <;> rw [hrun]
  · exact answersOnce_endImageTx herr
  · refine (adds_direct si host g _ _ fun hne => hfits htransmitted fun hzero => hne ?_).imp
      fun _ => .answered
    exact UInt32.toNat_inj.mp ((UInt64.toNat_toUInt32 _).trans hzero)

end

/-! ## The loop over a restricted region -/

section
variable {si : Interface} {host : Host} {place : DumpPlace} {d : DloadDebug} {p : Piece}

/-- The start of the last piece of a request. -/
def lastPiece (base len : Nat) : Nat := base + (len - 1) / 4096 * 4096

/-- Every piece of a request starts behind address zero, at a 32-bit address. -/
def PiecesInReach (base len : Nat) : Prop := 0 < base ∧ lastPiece base len < 2 ^ 32

theorem Piece.size_toNat (p : Piece) : p.size.toNat = min p.left.toNat 4096 := by
  have h : maxMemoryDataSizeInBytes.toNat = 4096 := rfl
  simp only [Piece.size, gt_iff_lt, UInt32.lt_iff_toNat_lt, h]
  split <;> omega

/-- The state after the copy of a piece. -/
def Globals.copied (g : Globals) (p : Piece) (buf : UInt64) : Globals :=
  g.logged (.copyRestricted p.addr.toUInt64 p.size.toUInt64 buf)

theorem copyRestricted_eq (haddr : 0 < p.addr.toNat) :
    sblSaharaMemDebugCopyRestricted place p.addr.toUInt64 p.size.toUInt64 = place.buffer := by
  refine if_pos ⟨?_, ?_⟩
  · rw [gt_iff_lt, UInt64.lt_iff_toNat_lt, UInt32.toNat_toUInt64]
    exact haddr
  · rw [UInt64.le_iff_toNat_le, UInt32.toNat_toUInt64, p.size_toNat]
    exact Nat.min_le_right ..

/-- A round of the loop at an address that can be copied. -/
theorem transferPiece_run {fuel : Nat} {g : Globals} (hleft : p.left ≠ 0)
    (haddr : 0 < p.addr.toNat) :
    (do
      let status ← Program.iter (transferPiece si host (sblSaharaMemDebugTbl place d)) (fuel + 1) p
      reportError si host status : Code Unit) g =
    (do
      let sent ← handleTx host (.memory place.buffer) p.size
      if txStatus p.size.toUInt64 sent ≠ .success then
        reportError si host (txStatus p.size.toUInt64 sent)
      else do
        let status ← Program.iter (transferPiece si host (sblSaharaMemDebugTbl place d)) fuel
          ⟨p.left - p.size, p.addr + p.size⟩
        reportError si host status : Code Unit) (g.copied p place.buffer) := by
  have hbuf : place.buffer ≠ 0 := by
    have := place.buffer_pos
    grind
  simp only [Program.iter, transferPiece, transmitPiece, if_neg hleft, copyRestricted,
    sblSaharaMemDebugTbl,
    copyRestricted_eq haddr, if_neg hbuf, Program.when_neg hbuf, Program.bind_assoc,
      Program.pure_bind, log,
    Program.modify_bind, Globals.copied]
  refine congrFun (congrArg _ (funext fun sent => ?_)) _
  split <;> rfl

/-- With nothing left, the loop is done. -/
theorem adds_transferDone {fuel base : Nat} {g : Globals} (hleft : p.left = 0) (hfuel : 0 < fuel) :
    Adds (Answered base 0) g ((do
      let status ← Program.iter (transferPiece si host (sblSaharaMemDebugTbl place d)) fuel p
      reportError si host status : Code Unit) g) := by
  obtain ⟨fuel, rfl⟩ := Nat.exists_eq_add_of_lt hfuel
  refine cast (congrArg _ ?_) (show Adds (Answered base 0) g (.ret () g) from ⟨[], .whole, rfl⟩)
  simp only [Nat.zero_add, Program.iter, transferPiece, if_pos hleft, Program.pure_bind]
  rfl

theorem copied_pieceSent (p : Piece) (a : TxAnswer) :
    PieceSent p.addr.toNat p.size a
      ([.copyRestricted p.addr.toUInt64 p.size.toUInt64 place.buffer] ++
        [.tx (.memory place.buffer) p.size a]) := by
  have hbuf : place.buffer ≠ 0 := by
    have := place.buffer_pos
    grind
  have haddr : UInt64.ofNat p.addr.toNat = p.addr.toUInt64 := UInt64.toNat_inj.mp (by simp)
  rw [← haddr]
  exact .copied hbuf

/-- **The loop answers once** for a region whose pieces are in reach. -/
theorem adds_transferRestricted {fuel : Nat} {g : Globals} (hfuel : p.left.toNat < fuel)
    (hreach : 0 < p.left.toNat → PiecesInReach p.addr.toNat p.left.toNat) :
    Adds (Answered p.addr.toNat p.left.toNat) g ((do
      let status ← Program.iter (transferPiece si host (sblSaharaMemDebugTbl place d)) fuel p
      reportError si host status : Code Unit) g) := by
  induction fuel generalizing p g with
  | zero => omega
  | succ fuel ih =>
    by_cases hleft : p.left = 0
    · have hzero : p.left.toNat = 0 := by rw [hleft]; rfl
      rw [hzero]
      exact adds_transferDone hleft (Nat.succ_pos fuel)
    have hpos : 0 < p.left.toNat := Nat.pos_of_ne_zero fun h => hleft (UInt32.toNat_inj.mp h)
    obtain ⟨haddr, hlast⟩ := hreach hpos
    have hsize := p.size_toNat
    rw [transferPiece_run hleft haddr]
    refine adds_transmit _ (copied_pieceSent p) (by omega) rfl (fun _ _ => ?_)
      (by simp) fun _ => rfl
    have hleft' : (p.left - p.size).toNat = p.left.toNat - p.size.toNat :=
      UInt32.toNat_sub_of_le _ _ (UInt32.le_iff_toNat_le.mpr (by omega))
    rcases Nat.eq_zero_or_pos (p.left.toNat - p.size.toNat) with hdone | hmore
    · rw [hdone]
      refine adds_transferDone ?_ (by omega)
      exact UInt32.toNat_inj.mp (hleft'.trans hdone)
    · -- another piece: this one was full, and the next one starts at a 32-bit address
      have hsize' : p.size.toNat = 4096 := by omega
      simp only [lastPiece] at hlast
      have haddr' : (p.addr + p.size).toNat = p.addr.toNat + p.size.toNat := by
        rw [UInt32.toNat_add]
        omega
      rw [← haddr', ← hleft']
      refine ih (p := ⟨p.left - p.size, p.addr + p.size⟩)
        (by show (p.left - p.size).toNat < _; omega)
        fun _ => ?_
      show PiecesInReach (p.addr + p.size).toNat (p.left - p.size).toNat
      rw [haddr', hleft']
      refine ⟨by omega, ?_⟩
      simp only [lastPiece]
      omega

end

/-! ## Pieces out of reach -/

section
variable {si : Interface} {place : DumpPlace} {d : DloadDebug} {g : Globals} {base len : Nat}
  {evs : List Event} {status : Status} {t : List Event} {p : Piece} {fuel : Nat}
  {addr n buf : UInt64} {b : TxAnswer} {a : TxAnswer}

/-- A host that takes every transmission the same way. -/
def steadyHost (a : TxAnswer) : Host where
  init _ := 0
  rx _ := ⟨false, 0, 0, fun _ => 0⟩
  tx _ := a
  execCmd _ := ⟨0, 0, 0⟩
  imageLoadPostProc _ := 0
  preprocessHeader _ := ⟨Memory.zero, 0, 0, 0⟩
  getOrigHashIndex _ := (0, 0)
  initHash _ := true
  updateHash _ := true
  finalizeHash _ := 0
  compareHash _ := true
  authenticate _ := true
  computeHashOffsets _ := true
  memDebugSupported _ := true

/-- What a handler has added to the trace begins what it adds. -/
theorem Adds.begins {P : List Event → Prop} {o : Outcome Globals Unit} (h : Adds P g o)
    (evs : List Event) (htrace : evs.reverse ++ g.trace <:+ o.state.trace) :
    ∃ more, P (evs ++ more) := by
  obtain ⟨all, tail, hall, hs⟩ :
      ∃ all tail, P (all ++ tail) ∧ o.state.trace = all.reverse ++ g.trace := by
    cases o with
    | ret _ s =>
      obtain ⟨all, hall, hs⟩ := h
      exact ⟨all, [], by rwa [append_nil], hs⟩
    | halt s | spin s => exact h
  obtain ⟨later, hlater⟩ := htrace
  rw [hs, ← append_assoc] at hlater
  have hrev := congrArg reverse (append_cancel_right hlater)
  rw [reverse_append, reverse_reverse, reverse_reverse] at hrev
  refine ⟨later.reverse ++ tail, ?_⟩
  rwa [← append_assoc, hrev]

/-- What begins with a copy is not refused. -/
theorem Reply.answered_of_copy (h : Reply base len (.copyRestricted addr n buf :: evs)) :
    Answered base len (.copyRestricted addr n buf :: evs) := by
  cases h with
  | answered h => exact h

/-- An answer does not go on after a failed copy and its report. -/
theorem not_answered_fallThrough {addr n : UInt64} {id : UInt32} {e : Event} :
    ¬ Answered base len (.copyRestricted addr n 0 ::
      .tx (.endImageTx id status) sizeofEndImageTx b :: e :: evs) := by
  generalize hall : Event.copyRestricted addr n 0 :: _ = all
  intro h
  cases h with
  | whole => cases hall
  | piece hsent => cases hsent <;> simp at hall
  | failed hsent => cases hsent <;> simp at hall
  | uncopied => simp at hall

/-- An answer copies from where it has come to. -/
theorem Answered.copied_addr
    (h : Answered base len (.copyRestricted addr n buf :: evs)) : addr = .ofNat base := by
  generalize hall : Event.copyRestricted addr n buf :: evs = all at h
  cases h with
  | whole => cases hall
  | piece hsent => cases hsent <;> simp_all
  | failed hsent => cases hsent <;> simp_all
  | uncopied => simp_all

/-- The rest of an answer after a piece that was copied and sent in full answers the rest. -/
theorem Answered.rest {addr buf : UInt64} {n : UInt32} {m : UInt64} (hfull : a.Full n) (hn : n ≠ 0)
    (h : Answered base len (.copyRestricted addr m buf :: .tx (.memory buf) n a :: evs)) :
    Answered (base + n.toNat) (len - n.toNat) evs := by
  generalize hall : Event.copyRestricted addr m buf :: Event.tx (.memory buf) n a :: evs = all at h
  cases h with
  | whole => cases hall
  | piece hsent hfull' hn' hrest =>
    cases hsent with
    | direct => simp at hall
    | copied => simp_all
  | failed hsent hn' hcut =>
    cases hsent with
    | direct => simp at hall
    | copied =>
      simp only [cons_append, nil_append, List.cons.injEq, Event.tx.injEq] at hall
      obtain ⟨-, ⟨-, rfl, rfl⟩, -⟩ := hall
      exact absurd hfull (hcut hn)
  | uncopied => simp at hall

/-- The data of an answer does not begin with an error report. -/
theorem not_answered_endImageTx {id : UInt32} :
    ¬ Answered base len (.tx (.endImageTx id status) sizeofEndImageTx b :: evs) := by
  generalize hall : Event.tx (.endImageTx id status) sizeofEndImageTx b :: evs = all
  intro h
  cases h with
  | whole => cases hall
  | piece hsent => cases hsent <;> simp at hall
  | failed hsent => cases hsent <;> simp at hall
  | uncopied => simp at hall

/-- A reply does not send a piece in full and then report an error. -/
theorem not_reply_truncated {addr : UInt64} {n id : UInt32} {a b : TxAnswer}
    (hfull : a.Full n) (hn : n ≠ 0) :
    ¬ Reply base len (.tx (.memory addr) n a ::
      .tx (.endImageTx id status) sizeofEndImageTx b :: evs) := by
  generalize hall : Event.tx (.memory addr) n a ::
    Event.tx (.endImageTx id status) sizeofEndImageTx b :: evs = all
  intro h
  cases h with
  | refused => simp at hall
  | answered h =>
    cases h with
    | whole => cases hall
    | piece hsent _ _ hrest =>
      cases hsent with
      | direct =>
        obtain ⟨-, rfl⟩ := List.cons.inj hall
        exact not_answered_endImageTx hrest
      | copied => simp at hall
    | failed hsent _ hcut =>
      cases hsent with
      | direct =>
        simp only [cons_append, nil_append, List.cons.injEq, Event.tx.injEq] at hall
        obtain ⟨⟨-, rfl, rfl⟩, -⟩ := hall
        exact hcut hn hfull
      | copied => simp at hall
    | uncopied => simp at hall

/-- An error report leaves its END_IMAGE_TX last in the trace. -/
theorem logs_handleEndImageTx (si : Interface) (host : Host) (g : Globals) (status : Status) :
    Extends (.tx (.endImageTx si.expectedImage status) sizeofEndImageTx
      (host.tx g.calls) :: g.trace)
      (handleEndImageTx si host status g).state := by
  rcases handleEndImageTx_cases si host g status with h | ⟨s, h, hs⟩ | ⟨-, -, h⟩ <;> rw [h]
  · exact suffix_refl _
  · exact ⟨[], hs.symm⟩
  · show Extends _ (ite _ _ _)
    split <;> exact suffix_refl _

theorem grows_transmitPiece {host : Host} (p : Piece) (buf : UInt64) :
    Program.Keeps (Extends t) (transmitPiece si host p buf) := by
  refine .bind (Program.Keeps.when fun _ => grows_handleEndImageTx _) fun _ => ?_
  refine .bind (grows_handleTx _ _) fun sent => ?_
  exact .ite (fun _ => .pure fun _ hs => hs) fun _ =>
    .ite (fun _ => .pure fun _ hs => hs) fun _ => .pure fun _ hs => hs

/-- What a round of the loop over a restricted region adds to the trace stays there. -/
theorem grows_transferPiece {host : Host} {tbl : MemDebugTbl} (p : Piece) :
    Program.Keeps (Extends t) (transferPiece si host tbl p) := by
  refine .ite (fun _ => .pure fun _ hs => hs) fun _ => .bind (Q := fun _ => Extends t) ?_ ?_
  · exact .bind (.modify fun _ hs => hs.cons rfl) fun _ => .pure fun _ hs => hs
  · exact fun buf => grows_transmitPiece p buf

theorem grows_transfer {host : Host} {tbl : MemDebugTbl} (fuel : Nat) (p : Piece) :
    Program.Keeps (Extends t) (do
      let status ← Program.iter (transferPiece si host tbl) fuel p
      reportError si host status : Code Unit) :=
  .bind (Program.Keeps.iter grows_transferPiece fuel p) fun _ => grows_reportError _

/-- The host that takes every transmission for one of 16 bytes, as END_IMAGE_TX is. -/
abbrev reportHost : Host := steadyHost ⟨true, 16, 0⟩

/-- What the loop sends for a first piece at address zero, when the report gets through: a failed
copy, its report, and then data all the same. -/
def fallThrough (si : Interface) (p : Piece) : List Event :=
  [.copyRestricted p.addr.toUInt64 p.size.toUInt64 0,
    .tx (.endImageTx si.expectedImage .invalidMemoryRead) sizeofEndImageTx ⟨true, 16, 0⟩,
    .tx (.memory 0) p.size ⟨true, 16, 0⟩]

theorem transfer_atZero_logs (hleft : p.left ≠ 0) (haddr : p.addr = 0) :
    Extends ((fallThrough si p).reverse ++ g.trace) ((do
      let status ← Program.iter (transferPiece si reportHost (sblSaharaMemDebugTbl place d))
        (fuel + 1) p
      reportError si reportHost status : Code Unit) g).state := by
  have hcopy : sblSaharaMemDebugCopyRestricted place p.addr.toUInt64 p.size.toUInt64 = 0 := by
    rw [haddr]
    exact if_neg fun h => absurd h.1 (by decide)
  let copied := g.logged (.copyRestricted p.addr.toUInt64 p.size.toUInt64 0)
  have hend := handleEndImageTx_ret si reportHost copied .invalidMemoryRead rfl rfl rfl (by decide)
  have hsent := handleTx_ret reportHost
    { copied.endSent si reportHost .invalidMemoryRead with saharaState := .waitReset }
    (.memory 0) p.size rfl rfl
  simp only [Program.iter, transferPiece, transmitPiece, if_neg hleft, copyRestricted,
    sblSaharaMemDebugTbl, hcopy, if_true, Program.when_pos, Program.bind_assoc, Program.pure_bind,
    log, Program.modify_bind]
  rw [Program.bind_ret hend]
  refine Program.Keeps.after (I := Extends ((fallThrough si p).reverse ++ g.trace)) hsent ?_
    (suffix_refl _)
  refine .bind (Q := fun _ => Extends _) (.ite (fun _ => .pure fun _ hs => hs) fun _ =>
    .pure fun _ hs => hs) fun r => ?_
  refine .bind ?_ fun _ => grows_reportError _
  cases r with
  | inl q => exact Program.Keeps.iter grows_transferPiece fuel q
  | inr status => exact .pure fun _ hs => hs

/-- A first piece at address zero: after the report of the failed copy the loop transmits. -/
theorem transfer_atZero (hleft : p.left ≠ 0) (haddr : p.addr = 0) :
    ¬ AnswersOnce base len g ((do
      let status ← Program.iter (transferPiece si reportHost (sblSaharaMemDebugTbl place d))
        (fuel + 1) p
      reportError si reportHost status : Code Unit) g) := by
  intro h
  obtain ⟨more, hmore⟩ := h.begins (fallThrough si p) (transfer_atZero_logs hleft haddr)
  exact not_answered_fallThrough hmore.answered_of_copy

/-- A round that is not the last begins with the copy of its piece. -/
theorem transfer_logs (si : Interface) (host : Host) (tbl : MemDebugTbl) (g : Globals) (fuel : Nat)
    (hleft : p.left ≠ 0) :
    Extends (.copyRestricted p.addr.toUInt64 p.size.toUInt64
        (tbl.copyRestricted p.addr.toUInt64 p.size.toUInt64) :: g.trace)
      ((do
        let status ← Program.iter (transferPiece si host tbl) (fuel + 1) p
        reportError si host status : Code Unit) g).state := by
  simp only [Program.iter, transferPiece, if_neg hleft, copyRestricted, Program.bind_assoc,
    Program.pure_bind, log, Program.modify_bind]
  refine Program.Keeps.state ?_ (suffix_refl _)
  refine .bind (grows_transmitPiece _ _) fun r => .bind ?_ fun _ => grows_reportError _
  cases r with
  | inl q => exact Program.Keeps.iter grows_transferPiece fuel q
  | inr status => exact .pure fun _ hs => hs

/-- The loop does not refuse: what replies to the request answers it. -/
theorem transfer_answers {host : Host} {tbl : MemDebugTbl} (hleft : p.left ≠ 0)
    (h : AnswersOnce base len g ((do
      let status ← Program.iter (transferPiece si host tbl) (fuel + 1) p
      reportError si host status : Code Unit) g)) :
    Adds (Answered base len) g ((do
      let status ← Program.iter (transferPiece si host tbl) (fuel + 1) p
      reportError si host status : Code Unit) g) := by
  obtain ⟨later, hlater⟩ := transfer_logs si host tbl g fuel hleft
  refine h.imp_of_trace fun evs more hevs hs => ?_
  rw [← hlater, append_cons] at hs
  have hcopy := congrArg reverse (append_cancel_right hs)
  rw [reverse_append, reverse_reverse] at hcopy
  rw [← hcopy] at hevs ⊢
  exact hevs.answered_of_copy

/-- After a piece that was copied and sent in full, what answers the request answers the rest. -/
theorem Adds.rest {o : Outcome Globals Unit} {g' : Globals} {addr m buf : UInt64}
    {n : UInt32} (h : Adds (Answered base len) g o) (hfull : a.Full n) (hn : n ≠ 0)
    (hg' : g'.trace = .tx (.memory buf) n a :: .copyRestricted addr m buf :: g.trace)
    (hext : Extends g'.trace o.state) :
    Adds (Answered (base + n.toNat) (len - n.toNat)) g' o := by
  obtain ⟨later, hlater⟩ := hext
  have hsplit : ∀ {evs : List Event} {s : Globals}, s.trace = evs.reverse ++ g.trace →
      later ++ g'.trace = s.trace →
      evs = .copyRestricted addr m buf :: .tx (.memory buf) n a :: later.reverse := by
    intro evs s hevs hs
    rw [hevs, hg', append_cons, append_cons] at hs
    have := congrArg reverse (append_cancel_right hs)
    simpa using this.symm
  cases o with
  | ret _ s =>
    obtain ⟨evs, hevs, hs⟩ := h
    rw [hsplit hs hlater] at hevs
    exact ⟨later.reverse, hevs.rest hfull hn, by rw [reverse_reverse]; exact hlater.symm⟩
  | halt s | spin s =>
    obtain ⟨evs, more, hevs, hs⟩ := h
    rw [hsplit hs hlater] at hevs
    exact ⟨later.reverse, more, hevs.rest hfull hn, by rw [reverse_reverse]; exact hlater.symm⟩

/-- The host that takes every transmission for one of a whole piece. -/
abbrev pieceHost : Host := steadyHost ⟨true, 4096, 0⟩

/-- A request that runs past the 32-bit addresses: the loop goes on at the bottom of memory. -/
theorem transfer_beyond (hfuel : p.left.toNat < fuel)
    (haddr : 0 < p.addr.toNat) (hlast : 2 ^ 32 ≤ lastPiece p.addr.toNat p.left.toNat) :
    ¬ Adds (Answered p.addr.toNat p.left.toNat) g ((do
      let status ← Program.iter (transferPiece si pieceHost (sblSaharaMemDebugTbl place d))
        fuel p
      reportError si pieceHost status : Code Unit) g) := by
  induction fuel generalizing p g with
  | zero => omega
  | succ fuel ih =>
    have hlt := p.addr.toNat_lt
    have hleft' := p.left.toNat_lt
    have hsize := p.size_toNat
    simp only [lastPiece] at hlast
    have hfull : p.size.toNat = 4096 := by omega
    have hleft : p.left ≠ 0 := by
      rintro h
      rw [h] at hlast
      simp at hlast
      omega
    rw [transferPiece_run hleft haddr, Program.bind_ret (handleTx_ret _ _ _ _ rfl rfl)]
    have hsize' : p.size = 4096 := UInt32.toNat_inj.mp hfull
    have hsuccess : txStatus p.size.toUInt64
        ((pieceHost.tx (g.copied p place.buffer).calls).bytesWritten,
          (pieceHost.tx (g.copied p place.buffer).calls).errCode) = .success := by
      rw [hsize']
      rfl
    rw [if_neg (not_not_intro hsuccess)]
    intro h
    have hrest := h.rest ⟨rfl, rfl, hsize'.symm⟩ (by rw [hsize']; decide) rfl
      ((grows_transfer _ _).state (suffix_refl _))
    have hmore : (p.left - p.size).toNat = p.left.toNat - p.size.toNat :=
      UInt32.toNat_sub_of_le _ _ (UInt32.le_iff_toNat_le.mpr (by omega))
    have hnext := UInt32.toNat_add p.addr p.size
    rcases Nat.lt_or_ge (p.addr.toNat + 4096) (2 ^ 32) with hin | hout
    · -- the next piece still lies at a 32-bit address
      rw [← hmore, show p.addr.toNat + p.size.toNat = (p.addr + p.size).toNat by omega] at hrest
      refine ih (p := ⟨p.left - p.size, p.addr + p.size⟩) ?_ ?_ ?_ hrest
      · show (p.left - p.size).toNat < fuel
        omega
      · show 0 < (p.addr + p.size).toNat
        omega
      · show 2 ^ 32 ≤ lastPiece (p.addr + p.size).toNat (p.left - p.size).toNat
        simp only [lastPiece]
        omega
    · -- the next piece is copied from the bottom of memory
      obtain ⟨fuel, rfl⟩ : ∃ k, fuel = k + 1 := ⟨fuel - 1, by omega⟩
      have hne : p.left - p.size ≠ 0 := by
        intro h
        rw [h] at hmore
        simp at hmore
        omega
      obtain ⟨more, hmore⟩ := hrest.begins [_] (transfer_logs _ _ _ _ _ hne)
      have haddr' := congrArg UInt64.toNat hmore.copied_addr
      rw [UInt32.toNat_toUInt64, UInt64.toNat_ofNat'] at haddr'
      have : (p.addr + p.size).toNat = p.addr.toNat + p.size.toNat := by
        refine haddr'.trans (Nat.mod_eq_of_lt ?_)
        omega
      omega

end

/-! ## When reads are answered once -/

section
variable (place : DumpPlace) (d : DloadDebug) (si : Interface) (g : Globals) (length : UInt32)

/-- The 32-bit request in the packet buffer is well-formed, and the region table accepts it. -/
def ReadAccepted : Prop :=
  length = sizeofMemoryRead ∧ length = g.saharaPacketBuffer.u32 4 ∧
    d.dloadMemDebugVerifyAddr place.table (g.saharaPacketBuffer.u32 8).toUInt64
      (g.saharaPacketBuffer.u32 12).toUInt64 = true

/-- The 32-bit request in the packet buffer is for restricted memory. -/
def ReadRestricted : Prop :=
  d.dloadMemDebugIsRestrictedAddr (g.saharaPacketBuffer.u32 8).toUInt64
    (g.saharaPacketBuffer.u32 12).toUInt64 = true

/-- The 32-bit request in the packet buffer does not make the handler copy from address zero or
count past the 32-bit addresses: it is refused, or not restricted, or its pieces are in reach. -/
def ReadInReach : Prop :=
  ReadAccepted place d g length → ReadRestricted d g →
    PiecesInReach (g.saharaPacketBuffer.u32 8).toNat (g.saharaPacketBuffer.u32 12).toNat

instance : Decidable (ReadAccepted place d g length) := inferInstanceAs (Decidable (_ ∧ _ ∧ _))

instance : Decidable (ReadRestricted d g) := inferInstanceAs (Decidable (_ = _))

variable {place d si g length}

/-- An accepted request has a byte. -/
theorem ReadAccepted.left_ne_zero (h : ReadAccepted place d g length) :
    g.saharaPacketBuffer.u32 12 ≠ 0 := by
  intro hzero
  have hverify := h.2.2
  rw [hzero] at hverify
  simp [DloadDebug.dloadMemDebugVerifyAddr, DloadDebug.rangeIsInvalid] at hverify

theorem handleMemoryRead_restricted {host : Host} (hacc : ReadAccepted place d g length)
    (hrestricted : ReadRestricted d g) :
    handleMemoryRead si host (sblSaharaMemDebugTbl place d) length g =
      (do
        let status ← Program.iter (transferPiece si host (sblSaharaMemDebugTbl place d))
          ((g.saharaPacketBuffer.u32 12).toNat + 1)
          ⟨g.saharaPacketBuffer.u32 12, g.saharaPacketBuffer.u32 8⟩
        reportError si host status : Code Unit) g := by
  obtain ⟨hlen, hfield, hverify⟩ := hacc
  have hok : ¬ (length ≠ sizeofMemoryRead ∨ length ≠ g.saharaPacketBuffer.u32 4) := by
    rintro (h | h)
    · exact h hlen
    · exact h hfield
  simp only [ReadRestricted] at hrestricted
  simp only [handleMemoryRead, get_bind, sblSaharaMemDebugTbl, if_neg hok, hverify,
    hrestricted, Bool.not_true, Bool.false_eq_true, if_false, if_true]
  rfl

theorem handleMemoryRead_direct {host : Host} (hacc : ReadAccepted place d g length)
    (hdirect : ¬ ReadRestricted d g) :
    handleMemoryRead si host (sblSaharaMemDebugTbl place d) length g =
      (do
        let sent ← handleTx host (.memory (g.saharaPacketBuffer.u32 8).toUInt64)
          (g.saharaPacketBuffer.u32 12)
        reportError si host (txStatus (g.saharaPacketBuffer.u32 12).toUInt64 sent) : Code Unit)
          g := by
  obtain ⟨hlen, hfield, hverify⟩ := hacc
  have hok : ¬ (length ≠ sizeofMemoryRead ∨ length ≠ g.saharaPacketBuffer.u32 4) := by
    rintro (h | h)
    · exact h hlen
    · exact h hfield
  replace hdirect := Bool.eq_false_iff.mpr hdirect
  simp only [handleMemoryRead, get_bind, sblSaharaMemDebugTbl, if_neg hok, hverify,
    hdirect, Bool.not_true, Bool.false_eq_true, if_false]

/-- A request that is refused is answered with an error. -/
theorem handleMemoryRead_refused (si : Interface) (host : Host)
    (hacc : ¬ ReadAccepted place d g length) :
    ∃ status : Status, status ≠ .success ∧
      handleMemoryRead si host (sblSaharaMemDebugTbl place d) length g =
        handleEndImageTx si host status g := by
  simp only [handleMemoryRead, get_bind]
  split
  · exact ⟨_, by decide, rfl⟩
  next hok =>
  split
  · exact ⟨_, by decide, rfl⟩
  next hverify =>
  obtain ⟨hlen, hfield⟩ := not_or.mp hok
  refine absurd ⟨Decidable.not_not.mp hlen, Decidable.not_not.mp hfield, ?_⟩ hacc
  simpa [sblSaharaMemDebugTbl] using hverify

/-- The 32-bit handler answers a request in reach once. -/
theorem handleMemoryRead_answersOnce {host : Host} (hreach : ReadInReach place d g length) :
    AnswersOnce (g.saharaPacketBuffer.u32 8).toNat (g.saharaPacketBuffer.u32 12).toNat g
      (handleMemoryRead si host (sblSaharaMemDebugTbl place d) length g) := by
  by_cases hacc : ReadAccepted place d g length
  · by_cases hrestricted : ReadRestricted d g
    · rw [handleMemoryRead_restricted hacc hrestricted]
      exact (adds_transferRestricted (p := ⟨_, _⟩) (Nat.lt_succ_self _) fun _ =>
        hreach hacc hrestricted).imp fun _ => .answered
    · rw [handleMemoryRead_direct hacc hrestricted]
      have h := adds_direct si host g (g.saharaPacketBuffer.u32 8).toUInt64
        (g.saharaPacketBuffer.u32 12).toUInt64 fun _ => by
          rw [UInt32.toNat_toUInt64]
          exact UInt32.toNat_lt _
      rw [UInt32.toNat_toUInt64, UInt32.toNat_toUInt64, UInt32.toUInt32_toUInt64] at h
      exact h.imp fun _ => .answered
  · obtain ⟨status, herr, hrun⟩ := handleMemoryRead_refused si host hacc
    rw [hrun]
    exact answersOnce_endImageTx herr

theorem readInReach_of_answersOnce
    (h : ∀ host, AnswersOnce (g.saharaPacketBuffer.u32 8).toNat (g.saharaPacketBuffer.u32 12).toNat
      g (handleMemoryRead si host (sblSaharaMemDebugTbl place d) length g)) :
    ReadInReach place d g length := by
  intro hacc hrestricted
  have hpos : 0 < (g.saharaPacketBuffer.u32 8).toNat := by
    refine Nat.pos_of_ne_zero fun hzero => ?_
    have haddr : g.saharaPacketBuffer.u32 8 = 0 := UInt32.toNat_inj.mp hzero
    have hanswer := h reportHost
    rw [handleMemoryRead_restricted hacc hrestricted] at hanswer
    exact transfer_atZero (p := ⟨_, _⟩) hacc.left_ne_zero haddr hanswer
  refine ⟨hpos, Nat.lt_of_not_le fun hbeyond => ?_⟩
  have hanswer := h pieceHost
  rw [handleMemoryRead_restricted hacc hrestricted] at hanswer
  exact transfer_beyond (p := ⟨_, _⟩) (Nat.lt_succ_self _) hpos hbeyond
    (transfer_answers (p := ⟨_, _⟩) hacc.left_ne_zero hanswer)

/-- The last thing sent is an END_IMAGE_TX with an error. -/
def EndsInError (s : Globals) : Prop :=
  ∃ id status a rest, status ≠ .success ∧
    s.trace = .tx (.endImageTx id status) sizeofEndImageTx a :: rest

theorem endsInError_endImageTx {host : Host} {status : Status} (herr : status ≠ .success) :
    Program.Triple (fun _ => True) (handleEndImageTx si host status) (fun _ => EndsInError)
      (fun _ => True) where
  run s _ := by
    rcases handleEndImageTx_cases si host s status with h | ⟨u, h, -⟩ | ⟨-, -, h⟩ <;> rw [h]
    · trivial
    · trivial
    · rw [if_neg herr]
      exact ⟨_, status, _, _, herr, rfl⟩

/-- A 64-bit length that does not fit, and is not a multiple of what does: its low half is sent in
full, and then the error. -/
theorem readFits_of_answersOnce {tbl : MemDebugTbl}
    (h : ∀ host, AnswersOnce (g.saharaPacketBuffer.u64 8).toNat (g.saharaPacketBuffer.u64 16).toNat
      g (handleMemory64bitsRead si host tbl length g)) : ReadFits tbl g length := by
  intro htransmitted hlow
  refine Nat.lt_of_not_le fun hwide => ?_
  have hn := UInt64.toNat_toUInt32 (g.saharaPacketBuffer.u64 16)
  generalize hcut : (g.saharaPacketBuffer.u64 16).toUInt32 = n at hn
  have hne : n ≠ 0 := by
    rintro rfl
    exact hlow hn.symm
  let a : TxAnswer := ⟨true, n, 0⟩
  have herr : txStatus (g.saharaPacketBuffer.u64 16) (((steadyHost a).tx g.calls).bytesWritten,
      ((steadyHost a).tx g.calls).errCode) ≠ .success := by
    intro hs
    have hbytes := congrArg UInt64.toNat (txStatus_eq_success.mp hs).2
    have hlt := n.toNat_lt
    rw [UInt32.toNat_toUInt64] at hbytes
    change n.toNat = _ at hbytes
    omega
  have hanswer := h (steadyHost a)
  rcases handleMemory64bitsRead_cases si (steadyHost a) tbl length g with
    ⟨hrefused, -⟩ | ⟨-, hrun⟩
  · exact hrefused htransmitted
  rw [hrun, hcut, Program.bind_ret (handleTx_ret (steadyHost a) g _ _ rfl rfl), reportError,
    Program.when_pos herr] at hanswer
  obtain ⟨more, hmore⟩ := hanswer.begins [.tx (.memory (g.saharaPacketBuffer.u64 8)) n a,
    .tx (.endImageTx si.expectedImage (txStatus (g.saharaPacketBuffer.u64 16) (n, 0)))
      sizeofEndImageTx a]
    (logs_handleEndImageTx si (steadyHost a)
      (g.sent (steadyHost a) (.memory (g.saharaPacketBuffer.u64 8)) n) _)
  have hfull : a.Full n := ⟨rfl, rfl, rfl⟩
  exact not_reply_truncated hfull hne hmore

/-- A length that does not fit the transmission is never answered with success. -/
theorem handleMemory64bitsRead_rejects {host : Host} {tbl : MemDebugTbl}
    (hlen : 2 ^ 32 ≤ (g.saharaPacketBuffer.u64 16).toNat) :
    (handleMemory64bitsRead si host tbl length g).Ends (fun _ => EndsInError) fun _ => True := by
  simp only [handleMemory64bitsRead, get_bind]
  split
  · exact (endsInError_endImageTx (by decide)).run g trivial
  split
  · exact (endsInError_endImageTx (by decide)).run g trivial
  split
  · rw [reportError, Program.when_pos (by decide)]
    exact (endsInError_endImageTx (by decide)).run g trivial
  · refine Program.Triple.run (P := fun _ => True)
      (.bind (Q := fun _ _ => True) ⟨fun s _ => ?_⟩ fun sent => ?_) g trivial
    · rcases handleTx_cases host s (.memory (g.saharaPacketBuffer.u64 8))
        (g.saharaPacketBuffer.u64 16).toUInt32 with h | h | ⟨-, h⟩ <;> rw [h] <;> trivial
    · have herr : txStatus (g.saharaPacketBuffer.u64 16) sent ≠ .success := by
        intro h
        obtain ⟨bytes, err⟩ := sent
        have hbytes :=
          congrArg UInt64.toNat (txStatus_eq_success (a := ⟨true, bytes, err⟩)|>.mp h).2
        have := bytes.toNat_lt
        simp only [UInt32.toNat_toUInt64] at hbytes
        omega
      rw [reportError, Program.when_pos herr]
      exact endsInError_endImageTx herr

end

/-- **When memory reads are answered once**, whatever the host does: a 64-bit request exactly when
what is transmitted fits, and one for more than 32 bits' worth of bytes always ends with an error; a
32-bit request exactly when it is in reach. -/
theorem memory_reads_answer_once (place : DumpPlace) (d : DloadDebug) (si : Interface)
    (g : Globals) (length : UInt32) :
    ((∀ host, AnswersOnce (g.saharaPacketBuffer.u64 8).toNat (g.saharaPacketBuffer.u64 16).toNat g
        (handleMemory64bitsRead si host (sblSaharaMemDebugTbl place d) length g)) ↔
      ReadFits (sblSaharaMemDebugTbl place d) g length) ∧
    (∀ host, 2 ^ 32 ≤ (g.saharaPacketBuffer.u64 16).toNat →
      (handleMemory64bitsRead si host (sblSaharaMemDebugTbl place d) length g).Ends
        (fun _ => EndsInError) fun _ => True) ∧
    ((∀ host, AnswersOnce (g.saharaPacketBuffer.u32 8).toNat (g.saharaPacketBuffer.u32 12).toNat g
        (handleMemoryRead si host (sblSaharaMemDebugTbl place d) length g)) ↔
      ReadInReach place d g length) := by
  refine ⟨⟨readFits_of_answersOnce, fun h host => ?_⟩, fun host h => ?_, ?_⟩
  · exact handleMemory64bitsRead_answersOnce h
  · exact handleMemory64bitsRead_rejects h
  · exact ⟨readInReach_of_answersOnce, fun h host => handleMemoryRead_answersOnce h⟩

/-! ## Reads that are not answered once -/

/-- The boot loader's interface for memory dumps, with 512-byte packets. -/
def ramDumpInterface (place : DumpPlace) (d : DloadDebug) : Interface where
  expectedImage := 0
  expectedImageType := .unknown
  curImage := true
  curImageValid := true
  saharaMode := .memoryDebug
  authTblValid := true
  authEnabled := true
  memDebugTbl := some fun _ => sblSaharaMemDebugTbl place d
  memDebugTblNull := false
  maxPacketSize := 512
  maxPacketSize_pos := by decide
  maxRawDataSize := 0x100000
  elfOptimizedSegmentLoad := false
  skipImageLoad := false
  validAddressRange _ _ := false
  binHeaderSize := 40
  binImageId _ := 0
  binImageDest _ := 0
  binImageSize _ := 0
  binImageSrc _ := 0
  ssaEnabled := false
  metaInfoBuffer := 0

/-- A region table, and the buffer for restricted memory behind it. -/
def lowPlace : DumpPlace where
  table := ⟨0x10000, by decide⟩
  buffer := 0x20000
  buffer_pos := by decide
  buffer_fits := by decide

/-- The first two pages may be dumped, but not read directly. -/
def lowRegions : DloadDebug :=
  ((DloadDebug.boot.dloadDebugAddRegion .optionalDefSave 0 0x2000 [] []).2
    ).dloadDebugAddRestrictedRegion 0 0x2000

/-- A request for the first page is in the packet buffer. -/
def lowRequest : Globals :=
  { Globals.boot with
    saharaPacketBuffer := ((Memory.zero.put 4 4 16).put 8 4 0).put 12 4 0x1000 }

/-- The error is reported, then data is sent from address zero, and then an error is reported
again. -/
theorem low_read_answered_twice :
    (handleMemoryRead (ramDumpInterface lowPlace lowRegions) reportHost
        (sblSaharaMemDebugTbl lowPlace lowRegions) 16 lowRequest).state.trace =
      [.tx (.endImageTx 0 .invalidTxLength) 16 ⟨true, 16, 0⟩,
        .tx (.memory 0) 0x1000 ⟨true, 16, 0⟩,
        .tx (.endImageTx 0 .invalidMemoryRead) 16 ⟨true, 16, 0⟩,
        .copyRestricted 0 0x1000 0] ∧
    ¬ AnswersOnce 0 0x1000 lowRequest
      (handleMemoryRead (ramDumpInterface lowPlace lowRegions) reportHost
        (sblSaharaMemDebugTbl lowPlace lowRegions) 16 lowRequest) := by
  have htrace : (handleMemoryRead (ramDumpInterface lowPlace lowRegions) reportHost
        (sblSaharaMemDebugTbl lowPlace lowRegions) 16 lowRequest).state.trace =
      [.tx (.endImageTx 0 .invalidTxLength) 16 ⟨true, 16, 0⟩,
        .tx (.memory 0) 0x1000 ⟨true, 16, 0⟩,
        .tx (.endImageTx 0 .invalidMemoryRead) 16 ⟨true, 16, 0⟩,
        .copyRestricted 0 0x1000 0] := by decide +kernel
  refine ⟨htrace, fun h => ?_⟩
  obtain ⟨more, hmore⟩ := h.begins [.copyRestricted 0 0x1000 0,
      .tx (.endImageTx 0 .invalidMemoryRead) 16 ⟨true, 16, 0⟩,
      .tx (.memory 0) 0x1000 ⟨true, 16, 0⟩,
      .tx (.endImageTx 0 .invalidTxLength) 16 ⟨true, 16, 0⟩] (by
    rw [htrace]
    exact suffix_refl _)
  exact not_answered_fallThrough hmore.answered_of_copy

end Sahara
