import BootXf.Sahara.Interface

/-!
# Sending and receiving

The bottom of `boot_sahara.c`: one transmission (`boot_sahara_handle_tx`), one reception
(`boot_sahara_handle_rx`, which rounds the length up to the transport's packet size), and the
packets that report an error or ask for data. A failed END_IMAGE_TX resets the target, and in
memory debug mode so does an unplugged cable: these never return (`Program.halt`). A transfer that
never completes is waited for without end (`Program.spin`).
-/

namespace Sahara

open Lib Program

/-- The answer of `exec_cmd`. -/
structure CmdAnswer where
  data : UInt64
  respLength : UInt32
  status : Status

/-- The answers to all calls out of the module, the n-th call taking the n-th one. -/
structure Host where
  init : Nat → BulkError
  rx : Nat → RxAnswer
  tx : Nat → TxAnswer
  execCmd : Nat → CmdAnswer
  imageLoadPostProc : Nat → Status
  preprocessHeader : Nat → Preprocessed
  getOrigHashIndex : Nat → Status × UInt32
  initHash : Nat → Bool
  updateHash : Nat → Bool
  /-- The address of the digest, or zero. -/
  finalizeHash : Nat → UInt64
  compareHash : Nat → Bool
  authenticate : Nat → Bool
  /-- `compute_hash_offsets` finds the hash of every segment inside the hash table; otherwise it
  does not return. -/
  computeHashOffsets : Nat → Bool
  memDebugSupported : Nat → Bool

/-- `boot_sahara_mem_debug_tbl`, between two calls of `mem_debug_init`. -/
structure MemDebugTbl where
  tableAddr : UInt64
  tableLen : UInt32
  verifyAddr : (base len : UInt64) → Bool
  isRestrictedAddr : (base len : UInt64) → Bool
  copyRestricted : (addr len : UInt64) → UInt64

/-- What `boot_sahara_entry` is given: the parts of the interface that do not change while it
runs. Accessor functions of the dispatch table that return a setting are that setting. -/
structure Interface where
  expectedImage : UInt32
  expectedImageType : ImageType
  /-- There is a structure at `cur_image`. -/
  curImage : Bool
  /-- The header or headers that the structure at `cur_image` points to are there. -/
  curImageValid : Bool
  saharaMode : Mode
  /-- `auth_tbl` and its `authenticate` are there. -/
  authTblValid : Bool
  authEnabled : Bool
  /-- `mem_debug_tbl`; `none` for a table with a function missing. -/
  memDebugTbl : Option (Nat → MemDebugTbl)
  memDebugTblNull : Bool
  maxPacketSize : UInt32
  maxPacketSize_pos : 0 < maxPacketSize
  maxRawDataSize : UInt32
  elfOptimizedSegmentLoad : Bool
  skipImageLoad : Bool
  validAddressRange : (start size : UInt64) → Bool
  binHeaderSize : UInt64
  binImageId : Memory → UInt32
  binImageDest : Memory → UInt64
  binImageSize : Memory → UInt64
  binImageSrc : Memory → UInt64
  /-- `sahara_ssa_enabled`. -/
  ssaEnabled : Bool
  /-- The address of the meta info buffer, or zero. -/
  metaInfoBuffer : UInt64

/-- The variables of the module, and the calls and events so far. -/
structure Globals where
  calls : Nat
  trace : List Event
  saharaState : SaharaState
  saharaDone : Bool
  saharaMode : Mode
  /-- `sahara_if->sahara_status`. -/
  saharaStatus : Status
  imageRxComplete : Bool
  isSecure : Bool
  saharaPacketBuffer : Memory
  /-- Memory at large, where images go. -/
  memory : Memory
  /-- What the last reception brought. -/
  rxData : Nat → UInt8
  /-- What the hash context has been fed with. -/
  hashed : List UInt8
  /-- What has been received for the segment that is being loaded. -/
  segmentReceived : List UInt8
  memDebugInits : Nat
  cmdExecClientCommand : UInt32
  cmdExecDataLength : UInt32
  cmdExecData : UInt64
  /-- `sahara_binary_image_info` is set. -/
  binaryImageInfo : Bool
  /-- The header the binary image info points to. -/
  binaryHeader : Memory
  elfHeader : Memory
  /-- `prog_headers->segment`, as bytes. -/
  segments : Memory
  numsegments : UInt32
  sharedSegFound : Bool
  authElf : Bool
  authBin : Bool
  /-- `is_elf_hash_table_auth_result`. -/
  hashTableAuthResult : Bool
  isEhdrPhdrHashSuccess : Bool
  parallelInit : Bool
  parallelHash : Bool
  parallelBuf : Ptr
  parallelSize : UInt32
  lastLoadedSegmentEndOffset : UInt32
  startOfSegmentLoad : Bool
  remainingElfSegmentsData : UInt32

/-- The variables at boot. -/
def Globals.boot : Globals where
  calls := 0
  trace := []
  saharaState := .entry
  saharaDone := false
  saharaMode := .last
  saharaStatus := .success
  imageRxComplete := false
  isSecure := false
  saharaPacketBuffer := Memory.zero
  memory := Memory.zero
  rxData := fun _ => 0
  hashed := []
  segmentReceived := []
  memDebugInits := 0
  cmdExecClientCommand := 0
  cmdExecDataLength := 0
  cmdExecData := 0
  binaryImageInfo := false
  binaryHeader := Memory.zero
  elfHeader := Memory.zero
  segments := Memory.zero
  numsegments := 0
  sharedSegFound := false
  authElf := false
  authBin := false
  hashTableAuthResult := false
  isEhdrPhdrHashSuccess := false
  parallelInit := false
  parallelHash := false
  parallelBuf := ⟨.memory, 0⟩
  parallelSize := 0
  lastLoadedSegmentEndOffset := 0
  startOfSegmentLoad := false
  remainingElfSegmentsData := 0

/-- The state with one more event. -/
def Globals.logged (e : Event) (g : Globals) : Globals := { g with trace := e :: g.trace }

/-- Code of the module. -/
abbrev Code := Program Globals

section Code
variable (si : Interface) (host : Host)

/-- Noting an event down. -/
def log (e : Event) : Code Unit :=
  modify (Globals.logged e)

/-- A call out of the module. -/
def ask {α : Type} (answers : Nat → α) : Code α := fun g =>
  .ret (answers g.calls) { g with calls := g.calls + 1 }

/-- A function of the authentication table; calling through a table that is not there is fatal. -/
def askAuth {α : Type} (answers : Nat → α) : Code α :=
  if si.authTblValid then ask answers else Program.halt

/-- `sahara_state = st`. -/
def setState (st : SaharaState) : Code Unit :=
  modify fun g => { g with saharaState := st }

/-- `sbl_sahara_clear_downloaded_data`, which every function of the authentication table calls
when it fails. -/
def sblSaharaClearDownloadedData (g : Globals) : Globals :=
  { g with
    hashTableAuthResult := false
    segments := Memory.zero
    numsegments := 0
    elfHeader := Memory.zero
    saharaPacketBuffer := Memory.zero }

/-- The object that a pointer points into. -/
def Globals.object (g : Globals) : Buffer → Memory
  | .packet => g.saharaPacketBuffer
  | .elfHeader => g.elfHeader
  | .progHeaders => g.segments
  | .memory => g.memory
  | _ => Memory.zero

/-- The bytes at a pointer. -/
def Globals.read (g : Globals) (p : Ptr) (n : Nat) : List UInt8 :=
  (g.object p.buffer).bytes p.offset n

/-- `update_hash`. -/
def updateHash (buf : Ptr) (size : UInt32) : Code Bool := do
  let ok ← askAuth si host.updateHash
  log (.updateHash buf size ok)
  modify fun g =>
    if ok then { g with hashed := g.hashed ++ g.read buf size.toNat }
    else sblSaharaClearDownloadedData g
  pure ok

/-- `boot_sahara_exit`. -/
def bootSaharaExit : Code Unit :=
  modify fun g => { g with saharaState := .entry, saharaDone := true }

/-- `boot_sahara_reset`, which does not return. -/
def bootSaharaReset {α : Type} : Code α := do
  bootSaharaExit
  Program.halt

/-- What the callbacks do with an error code: an unplugged cable is unrecoverable in memory debug
mode. -/
def checkCable (errCode : BulkError) : Code Unit := do
  let g ← Program.get
  when (errCode = .cableDisconnect ∧ g.saharaMode = .memoryDebug) Program.halt

/-- `boot_sahara_handle_tx`: one transmission, and how many bytes it wrote with which error. -/
def handleTx (buf : TxBuf) (length : UInt32) : Code (UInt32 × BulkError) := do
  let a ← ask host.tx
  log (.tx buf length a)
  if a.completes then do
    checkCable a.errCode
    pure (a.bytesWritten, a.errCode)
  else spin

/-- The status for a transmission of `length` bytes. -/
def txStatus (length : UInt64) (sent : UInt32 × BulkError) : Status :=
  if sent.2 = .timeout then .timeoutTx
  else if sent.2 ≠ 0 then .generalTxRxError
  else if sent.1.toUInt64 ≠ length then .invalidTxLength
  else .success

/-- `sizeof(struct sahara_packet_end_image_tx)`. -/
def sizeofEndImageTx : UInt32 := 16

/-- `boot_sahara_handle_end_image_tx`. -/
def handleEndImageTx (status : Status) : Code Unit := do
  modify fun g => { g with saharaStatus := status }
  let sent ← handleTx host (.endImageTx si.expectedImage status) sizeofEndImageTx
  let tx := txStatus sizeofEndImageTx.toUInt64 sent
  when (status ≠ .success ∨ tx ≠ .success) (setState .waitReset)
  when (tx ≠ .success) do
    modify fun g => { g with saharaStatus := tx }
    bootSaharaReset

/-- Reports a status that is not success. -/
def reportError (status : Status) : Code Unit :=
  when (status ≠ .success) (handleEndImageTx si host status)

/-- `sizeof(struct sahara_packet_read_data)`. -/
def sizeofReadData : UInt32 := 20

/-- `boot_sahara_handle_read_data`. -/
def handleReadData (imageId dataOffset dataLength : UInt32) : Code Unit := do
  let sent ← handleTx host (.readData imageId dataOffset dataLength) sizeofReadData
  reportError si host (txStatus sizeofReadData.toUInt64 sent)

/-- Puts what was received at a pointer, where the module reads it again: in the packet buffer, the
program headers and memory. -/
def deliver (dst : Ptr) (length : UInt32) (data : Nat → UInt8) (g : Globals) : Globals :=
  match dst.buffer with
  | .packet =>
      { g with
        rxData := data
        saharaPacketBuffer := g.saharaPacketBuffer.store ⟨dst.offset, length.toNat⟩ data }
  | .progHeaders =>
      { g with rxData := data, segments := g.segments.store ⟨dst.offset, length.toNat⟩ data }
  | .memory =>
      { g with rxData := data, memory := g.memory.store ⟨dst.offset, length.toNat⟩ data }
  | _ => { g with rxData := data }

/-- The length a reception is asked for: a multiple of the packet size, unless segments are loaded
in the optimized way. -/
def rxLength (length : UInt32) : UInt32 :=
  if si.elfOptimizedSegmentLoad then length
  else if length % si.maxPacketSize > 0 then
    length + (si.maxPacketSize - length % si.maxPacketSize)
  else length

/-- Hashes the chunk received before, while the next one is on its way. -/
def hashPrevious : Code Unit := do
  let g ← Program.get
  when (g.parallelHash = true) do
    let _ ← updateHash si host g.parallelBuf g.parallelSize
    modify fun g => { g with parallelHash := false }

/-- `boot_sahara_handle_rx`: one reception, and how many bytes it read with which error. -/
def handleRx (dst : Ptr) (length maxLength : UInt32) : Code (UInt32 × BulkError) :=
  if length > maxLength ∨ rxLength si length > maxLength then pure (0, .unknown)
  else do
    let a ← ask host.rx
    log (.rx dst (rxLength si length))
    modify (deliver dst (rxLength si length) a.data)
    hashPrevious si host
    if a.completes then do
      checkCable a.errCode
      modify fun g =>
        if si.elfOptimizedSegmentLoad ∧ g.startOfSegmentLoad then
          { g with remainingElfSegmentsData := g.remainingElfSegmentsData - a.bytesRead }
        else g
      pure (a.bytesRead, a.errCode)
    else spin

end Code

/-! ## What a transmission does -/

section
variable (si : Interface) (host : Host) (g : Globals)

/-- The state once a transmission has been made. -/
def Globals.sent (buf : TxBuf) (length : UInt32) : Globals :=
  { g with calls := g.calls + 1, trace := .tx buf length (host.tx g.calls) :: g.trace }

theorem checkCable_cases (errCode : BulkError) :
    checkCable errCode g = .halt g ∨ checkCable errCode g = .ret () g := by
  simp only [checkCable, get_bind, when]
  split
  · exact .inl rfl
  · exact .inr rfl

/-- A transmission never completes, ends in the error handler, or returns what it did. -/
theorem handleTx_cases (buf : TxBuf) (length : UInt32) :
    (handleTx host buf length g = .spin (g.sent host buf length)) ∨
    (handleTx host buf length g = .halt (g.sent host buf length)) ∨
    ((host.tx g.calls).completes = true ∧
      handleTx host buf length g =
        .ret ((host.tx g.calls).bytesWritten, (host.tx g.calls).errCode)
          (g.sent host buf length)) := by
  have hrun : handleTx host buf length g =
      (if (host.tx g.calls).completes then (do
        checkCable (host.tx g.calls).errCode
        pure ((host.tx g.calls).bytesWritten, (host.tx g.calls).errCode))
      else spin : Code _) (g.sent host buf length) := rfl
  rw [hrun]
  cases hc : (host.tx g.calls).completes with
  | false => exact .inl rfl
  | true =>
    right
    rcases checkCable_cases (g.sent host buf length) (host.tx g.calls).errCode with h | h
    · exact .inl (bind_halt h)
    · exact .inr ⟨rfl, bind_ret h⟩

/-- A transmission that completes without an error returns. -/
theorem handleTx_ret (buf : TxBuf) (length : UInt32) (hc : (host.tx g.calls).completes = true)
    (herr : (host.tx g.calls).errCode = 0) :
    handleTx host buf length g =
      .ret ((host.tx g.calls).bytesWritten, (host.tx g.calls).errCode)
        (g.sent host buf length) := by
  have hcable : checkCable (host.tx g.calls).errCode (g.sent host buf length) =
      .ret () (g.sent host buf length) := by
    rw [herr]
    simp [checkCable, when, BulkError.cableDisconnect]
  have hrun : handleTx host buf length g =
      (if (host.tx g.calls).completes then (do
        checkCable (host.tx g.calls).errCode
        pure ((host.tx g.calls).bytesWritten, (host.tx g.calls).errCode))
      else spin : Code _) (g.sent host buf length) := rfl
  rw [hrun, if_pos hc]
  exact bind_ret hcable

/-- The state once END_IMAGE_TX has been sent. -/
def Globals.endSent (status : Status) : Globals :=
  { g with saharaStatus := status }.sent host (.endImageTx si.expectedImage status) sizeofEndImageTx

/-- How the transmission of END_IMAGE_TX went. -/
def endTx : Status :=
  txStatus sizeofEndImageTx.toUInt64
    ((host.tx g.calls).bytesWritten, (host.tx g.calls).errCode)

/-- END_IMAGE_TX goes out; a status that is not success is followed by waiting for a reset, and a
transmission that fails by the reset itself. -/
theorem handleEndImageTx_cases (status : Status) :
    (handleEndImageTx si host status g = .spin (g.endSent si host status)) ∨
    (∃ s, handleEndImageTx si host status g = .halt s ∧
      s.trace = (g.endSent si host status).trace) ∨
    ((host.tx g.calls).completes = true ∧ endTx host g = .success ∧
      handleEndImageTx si host status g =
        .ret () (if status = .success then g.endSent si host status
          else { g.endSent si host status with saharaState := .waitReset })) := by
  have hrun : handleEndImageTx si host status g =
      (do
        let sent ← handleTx host (.endImageTx si.expectedImage status) sizeofEndImageTx
        let tx := txStatus sizeofEndImageTx.toUInt64 sent
        when (status ≠ .success ∨ tx ≠ .success) (setState .waitReset)
        when (tx ≠ .success) do
          modify fun g => { g with saharaStatus := tx }
          bootSaharaReset : Code Unit) { g with saharaStatus := status } := rfl
  rw [hrun]
  rcases handleTx_cases host { g with saharaStatus := status }
    (.endImageTx si.expectedImage status) sizeofEndImageTx with h | h | ⟨hc, h⟩
  · left
    rw [bind_run, h]
    rfl
  · right; left
    exact ⟨_, bind_halt h, rfl⟩
  · right
    rw [bind_ret h]
    by_cases htx : endTx host g = .success
    · right
      refine ⟨hc, htx, ?_⟩
      by_cases hs : status = .success <;>
        simp [endTx] at htx <;> simp [htx, hs, setState, when, bind_run, Globals.endSent]
    · left
      simp only [endTx] at htx
      simp [htx, setState, when, bind_run, bootSaharaReset, bootSaharaExit,
        Globals.endSent]

/-- An error that is reported without an error leaves the target waiting for a reset. -/
theorem handleEndImageTx_ret (status : Status) (hc : (host.tx g.calls).completes = true)
    (herr : (host.tx g.calls).errCode = 0) (hbytes : (host.tx g.calls).bytesWritten = 16)
    (hs : status ≠ .success) :
    handleEndImageTx si host status g =
      .ret () { g.endSent si host status with saharaState := .waitReset } := by
  have hsent := handleTx_ret host { g with saharaStatus := status }
    (.endImageTx si.expectedImage status) sizeofEndImageTx hc herr
  have htx : txStatus sizeofEndImageTx.toUInt64
      ((host.tx g.calls).bytesWritten, (host.tx g.calls).errCode) = .success := by
    rw [herr, hbytes]
    rfl
  simp only [handleEndImageTx, modify_bind]
  rw [bind_ret hsent]
  simp only [htx, when, if_pos (Or.inl hs), ne_eq, not_true_eq_false, if_false]
  rfl

end

/-! ## What a reception does -/

section
variable (si : Interface) (host : Host) (g : Globals)

/-- The state once a reception has been started. -/
def Globals.heard (dst : Ptr) (length : UInt32) : Globals :=
  deliver dst (rxLength si length) (host.rx g.calls).data
    { g with calls := g.calls + 1, trace := .rx dst (rxLength si length) :: g.trace }

/-- The state once the chunk received before has been hashed. -/
def Globals.hashedPrevious : Globals :=
  if g.parallelHash then
    let ok := host.updateHash g.calls
    let u : Globals := { g with
      calls := g.calls + 1
      trace := .updateHash g.parallelBuf g.parallelSize ok :: g.trace }
    { if ok then { u with hashed := u.hashed ++ u.read g.parallelBuf g.parallelSize.toNat }
      else sblSaharaClearDownloadedData u with parallelHash := false }
  else g

/-- The state once what was received has been counted. -/
def Globals.consumed (bytesRead : UInt32) : Globals :=
  if si.elfOptimizedSegmentLoad ∧ g.startOfSegmentLoad then
    { g with remainingElfSegmentsData := g.remainingElfSegmentsData - bytesRead }
  else g

theorem deliver_eq (dst : Ptr) (length : UInt32) (data : Nat → UInt8) :
    ∃ packet segments memory, deliver dst length data g =
      { g with
        rxData := data
        saharaPacketBuffer := packet
        segments := segments
        memory := memory } := by
  rcases dst with ⟨buffer, offset⟩
  cases buffer <;> exact ⟨_, _, _, rfl⟩

/-- A call of the authentication table, when it is there. -/
theorem askAuth_run {α : Type} (answers : Nat → α) (h : si.authTblValid = true) :
    askAuth si answers g = .ret (answers g.calls) { g with calls := g.calls + 1 } := by
  rw [askAuth, if_pos h]
  rfl

theorem updateHash_run (buf : Ptr) (size : UInt32) (h : si.authTblValid = true) :
    updateHash si host buf size g =
      .ret (host.updateHash g.calls)
        (let u := { g with
          calls := g.calls + 1
          trace := .updateHash buf size (host.updateHash g.calls) :: g.trace }
        if host.updateHash g.calls then { u with hashed := u.hashed ++ u.read buf size.toNat }
        else sblSaharaClearDownloadedData u) := by
  rw [updateHash, bind_ret (askAuth_run si g host.updateHash h)]
  cases hok : host.updateHash g.calls <;> rfl

theorem hashPrevious_cases :
    (si.authTblValid = false ∧ g.parallelHash = true ∧ hashPrevious si host g = .halt g) ∨
    hashPrevious si host g = .ret () (g.hashedPrevious host) := by
  simp only [hashPrevious, get_bind, Globals.hashedPrevious]
  cases hp : g.parallelHash with
  | false => exact .inr rfl
  | true =>
    cases ha : si.authTblValid with
    | false =>
      left
      refine ⟨rfl, rfl, ?_⟩
      rw [when_pos rfl]
      refine bind_halt ?_
      rw [updateHash, askAuth, ha]
      rfl
    | true =>
      right
      rw [when_pos rfl, bind_ret (updateHash_run si host g _ _ ha)]
      cases host.updateHash g.calls <;> rfl

/-- A reception is refused for its length, ends in an error handler, never completes, or returns
what it did. -/
theorem handleRx_cases (dst : Ptr) (length maxLength : UInt32) :
    ((length > maxLength ∨ rxLength si length > maxLength) ∧
      handleRx si host dst length maxLength g = .ret (0, .unknown) g) ∨
    (si.authTblValid = false ∧ g.parallelHash = true ∧
      handleRx si host dst length maxLength g = .halt (g.heard si host dst length)) ∨
    ((host.rx g.calls).completes = false ∧
      handleRx si host dst length maxLength g =
        .spin ((g.heard si host dst length).hashedPrevious host)) ∨
    ((host.rx g.calls).errCode = .cableDisconnect ∧
      handleRx si host dst length maxLength g =
        .halt ((g.heard si host dst length).hashedPrevious host)) ∨
    ((host.rx g.calls).completes = true ∧
      handleRx si host dst length maxLength g =
        .ret ((host.rx g.calls).bytesRead, (host.rx g.calls).errCode)
          (((g.heard si host dst length).hashedPrevious host).consumed si
            (host.rx g.calls).bytesRead)) := by
  by_cases hlen : length > maxLength ∨ rxLength si length > maxLength
  · exact .inl ⟨hlen, by rw [handleRx, if_pos hlen]; rfl⟩
  right
  have hrun : handleRx si host dst length maxLength g =
      (do
        hashPrevious si host
        if (host.rx g.calls).completes then do
          checkCable (host.rx g.calls).errCode
          modify (Globals.consumed si · (host.rx g.calls).bytesRead)
          pure ((host.rx g.calls).bytesRead, (host.rx g.calls).errCode)
        else spin : Code _) (g.heard si host dst length) := by
    rw [handleRx, if_neg hlen]
    rfl
  have hpending : (g.heard si host dst length).parallelHash = g.parallelHash := by
    obtain ⟨packet, segments, memory, h⟩ := deliver_eq
      { g with calls := g.calls + 1, trace := .rx dst (rxLength si length) :: g.trace } dst
      (rxLength si length) (host.rx g.calls).data
    rw [Globals.heard, h]
  rw [hrun]
  rcases hashPrevious_cases si host (g.heard si host dst length) with ⟨hauth, hp, h⟩ | h
  · exact .inl ⟨hauth, hpending ▸ hp, bind_halt h⟩
  right
  rw [bind_ret h]
  cases hc : (host.rx g.calls).completes with
  | false => exact .inl ⟨rfl, rfl⟩
  | true =>
    right
    rw [if_pos rfl]
    simp only [checkCable, bind_assoc, get_bind]
    by_cases hcable : (host.rx g.calls).errCode = .cableDisconnect ∧
        ((g.heard si host dst length).hashedPrevious host).saharaMode = .memoryDebug
    · rw [when_pos hcable]
      exact .inl ⟨hcable.1, rfl⟩
    · rw [when_neg hcable]
      exact .inr ⟨trivial, rfl⟩

end

/-! ## The trace only grows -/

/-- The trace begins with the events `t`. -/
def Extends (t : List Event) (s : Globals) : Prop := t <:+ s.trace

/-- One more event does not change how the trace begins. -/
theorem Extends.cons {t : List Event} {s s' : Globals} {e : Event} (h : Extends t s)
    (hs : s'.trace = e :: s.trace) : Extends t s' := by
  rw [Extends, hs]
  exact h.trans (List.suffix_cons ..)

section
variable {si : Interface} {host : Host} {t : List Event}

theorem grows_handleTx (buf : TxBuf) (length : UInt32) :
    Program.Keeps (Extends t) (handleTx host buf length) := by
  refine .of_state fun s hs => ?_
  have hsent : Extends t (s.sent host buf length) := hs.cons rfl
  rcases handleTx_cases host s buf length with h | h | ⟨-, h⟩ <;> rw [h] <;> exact hsent

theorem grows_handleEndImageTx (status : Status) :
    Program.Keeps (Extends t) (handleEndImageTx si host status) := by
  refine .of_state fun s hs => ?_
  rcases handleEndImageTx_cases si host s status with h | ⟨u, h, hu⟩ | ⟨-, -, h⟩ <;> rw [h]
  · exact hs.cons rfl
  · exact hs.cons hu
  · show Extends t (ite _ _ _)
    split <;> exact hs.cons rfl

theorem grows_reportError (status : Status) :
    Program.Keeps (Extends t) (reportError si host status) :=
  .when fun _ => grows_handleEndImageTx status

end

end Sahara
