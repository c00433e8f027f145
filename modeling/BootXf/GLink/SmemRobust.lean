import BootXf.Lib.Run
import BootXf.GLink.SmemReceive

/-!
# The handler of the shared-memory transport on any contents of its FIFO

Nothing is assumed here of what the other host has written. The handler's loop ends only when the
read index meets the write index, so each turn must go over the bytes of its command, and over no
byte behind the write index. A fragment for an intent that the core does not know is not gone over,
and the numbers in the other host's words are trusted in some places. The allocation of a channel's
name succeeds: the `ASSERT` behind it is not looked at.
-/

namespace GLink.Smem

open Lib List Option

/-! ## Intents -/

/-- `glink_rx_intent_type` as the core answers it. Only the two functions for packets set `pkt_sz`,
and `used` otherwise becomes zero only. -/
structure Intent extends RxIntent where
  used_le : used ≤ pktSz
  pktSz_le : pktSz ≤ size

/-! ## Commands in the FIFO -/

/-- What follows the first word of a command. -/
inductive Shape
  | packet | packetCont | openChannel | rxIntent | word
  deriving DecidableEq

/-- What the `switch` of `xport_smem_isr` goes by. -/
def shape (cmd : Nat) : Shape :=
  let id := cmdId cmd
  if id = CmdId.txData.value ∨ id = CmdId.tracerPacket.value then .packet
  else if id = CmdId.txDataCont.value ∨ id = CmdId.tracerPacketCont.value then .packetCont
  else if id = CmdId.openChannel.value then .openChannel
  else if id = CmdId.rxIntent.value then .rxIntent
  else .word

theorem shape_spec (cmd : Nat) :
    match shape cmd with
    | .packet => cmdId cmd = CmdId.txData.value ∨ cmdId cmd = CmdId.tracerPacket.value
    | .packetCont =>
      cmdId cmd = CmdId.txDataCont.value ∨ cmdId cmd = CmdId.tracerPacketCont.value
    | .openChannel => cmdId cmd = CmdId.openChannel.value
    | .rxIntent => cmdId cmd = CmdId.rxIntent.value
    | .word => ¬ (cmdId cmd = CmdId.txData.value ∨ cmdId cmd = CmdId.tracerPacket.value) ∧
      ¬ (cmdId cmd = CmdId.txDataCont.value ∨ cmdId cmd = CmdId.tracerPacketCont.value) ∧
      ¬ cmdId cmd = CmdId.openChannel.value ∧ ¬ cmdId cmd = CmdId.rxIntent.value := by
  unfold shape
  dsimp only
  by_cases h₁ : cmdId cmd = CmdId.txData.value ∨ cmdId cmd = CmdId.tracerPacket.value
  · rw [if_pos h₁]
    exact h₁
  · rw [if_neg h₁]
    by_cases h₂ : cmdId cmd = CmdId.txDataCont.value ∨ cmdId cmd = CmdId.tracerPacketCont.value
    · rw [if_pos h₂]
      exact h₂
    · rw [if_neg h₂]
      by_cases h₃ : cmdId cmd = CmdId.openChannel.value
      · rw [if_pos h₃]
        exact h₃
      · rw [if_neg h₃]
        by_cases h₄ : cmdId cmd = CmdId.rxIntent.value
        · rw [if_pos h₄]
          exact h₄
        · rw [if_neg h₄]
          exact ⟨h₁, h₂, h₃, h₄⟩

/-- `data_desc.fragment_size` of the word at the index. -/
def fragmentSize (p : Path) (ind : Ind) : Nat := (descLo (read64 p ind).1).toNat

/-- `data_desc.remaining_size` of the word at the index. -/
def remainingSize (p : Path) (ind : Ind) : Nat := (descHi (read64 p ind).1).toNat

/-- What data takes in the FIFO. -/
def roundUp (size : Nat) : Nat := (size + 7) / 8 * 8

/-- The size of a command as its sender writes it, with the index behind its first word. -/
def frameSize (p : Path) (cmd : Nat) (ind : Ind) : Nat :=
  match shape cmd with
  | .packet | .packetCont => 16 + roundUp (fragmentSize p ind)
  | .openChannel => 8 + roundUp (chNameLen (cmdArg cmd)).toNat
  | .rxIntent => 8 + 8 * (cmdArg cmd).toNat
  | .word => 8

/-- A command that is in the FIFO to its end, and whose name is one. -/
def WellFormed (p : Path) (cmd : Nat) (ind : Ind) : Prop :=
  frameSize p cmd ind ≤ 8 + getRxSize p ind ∧
    (shape cmd = .openChannel → 1 ≤ (chNameLen (cmdArg cmd)).toNat ∧
      (chNameLen (cmdArg cmd)).toNat ≤ glinkChNameLen)

/-! ## What one turn does -/

/-- The bytes that the handler goes over behind the first word. -/
def bytesRead (p : Path) (desc : Option Intent) (cmd : Nat) (ind : Ind) : Nat :=
  match shape cmd, desc with
  | .packet, none | .packetCont, none => 8
  | .packet, some _ | .packetCont, some _ => 8 + roundUp (fragmentSize p ind)
  | .openChannel, _ =>
    let nameLen := (chNameLen (cmdArg cmd)).toNat
    if nameLen > getRxSize p ind ∨ nameLen > glinkChNameLen then 0 else roundUp nameLen
  | .rxIntent, _ => 8 * (cmdArg cmd).toNat
  | .word, _ => 0

/-- A write of the handler: into a buffer of which size, where, and of how many bytes. -/
structure BufferWrite where
  size : Nat
  offset : Int
  length : Nat
  deriving DecidableEq

/-- It stays in the buffer. -/
def BufferWrite.Inside (w : BufferWrite) : Prop := 0 ≤ w.offset ∧ w.offset + w.length ≤ w.size

/-- The writes into the intent's buffer, and those into the buffer allocated for a name, the second
one of which is the zero that ends it. -/
def bufferWrites (p : Path) (desc : Option Intent) (cmd : Nat) (ind : Ind) : List BufferWrite :=
  match shape cmd, desc with
  | .packet, some d => [⟨d.size, 0, fragmentSize p ind⟩]
  | .packetCont, some d => [⟨d.size, d.used, fragmentSize p ind⟩]
  | .openChannel, _ =>
    let nameLen := (chNameLen (cmdArg cmd)).toNat
    if nameLen > getRxSize p ind ∨ nameLen > glinkChNameLen then []
    else [⟨nameLen, 0, nameLen⟩, ⟨nameLen, nameLen - 1, 1⟩]
  | _, _ => []

/-- What answers the handler in one turn: `negotiated_version.features` and `rx_get_pkt_ctx`. -/
structure Answers where
  features : UInt32
  desc : Option Intent

/-- `rx_get_pkt_ctx` as the transport's functions see its answer. -/
def Answers.pdesc (a : Answers) : Option RxIntent := a.desc.map Intent.toRxIntent

/-- The loop of `xport_smem_isr` does not go on. -/
def Ended (p : Path) : Prop :=
  ∀ rx, p.rx = some rx → rx.ind.writeInd = rx.ind.readInd ∨ rx.invalidCmd = true

instance (p : Path) : Decidable (Ended p) :=
  match h : p.rx with
  | none => isTrue fun rx hrx => by rw [h] at hrx; cases hrx
  | some rx =>
    if hend : rx.ind.writeInd = rx.ind.readInd ∨ rx.invalidCmd = true then
      isTrue fun rx' hrx => by rw [h] at hrx; cases hrx; exact hend
    else isFalse fun hall => hend (hall rx h)

/-- `xport_smem_isr`, after so many turns of its loop. -/
def isrTurns (answers : Nat → Answers) (p : Path) : Nat → Option Path :=
  turns Ended (fun n q => (isrCommand q (answers n).features (answers n).pdesc).map Prod.fst)
    (isrEnter p)

/-! ## Indices -/

/-- Indices of a FIFO of whole words. -/
structure Valid (p : Path) (ind : Ind) : Prop where
  size_mod : p.fifoSize % 8 = 0
  size_lt : p.fifoSize < 2 ^ 32
  read_lt : ind.readInd < p.fifoSize
  read_mod : ind.readInd % 8 = 0
  write_lt : ind.writeInd < p.fifoSize
  write_mod : ind.writeInd % 8 = 0

/-- Indices when so many bytes more have been read. -/
def advance (p : Path) (ind : Ind) (k : Nat) : Ind :=
  { ind with readInd := (ind.readInd + k) % p.fifoSize }

theorem advance_advance (p : Path) (ind : Ind) (k m : Nat) :
    advance p (advance p ind k) m = advance p ind (k + m) := by
  unfold advance
  rw [Nat.mod_add_mod, Nat.add_assoc]

namespace Valid
variable {p : Path} {ind : Ind}

theorem advance_zero (h : Valid p ind) : advance p ind 0 = ind := by
  unfold advance
  rw [Nat.add_zero, Nat.mod_eq_of_lt h.read_lt]

theorem advance (h : Valid p ind) {k : Nat} (hk : k % 8 = 0) : Valid p (advance p ind k) where
  size_mod := h.size_mod
  size_lt := h.size_lt
  read_lt := Nat.mod_lt _ (Nat.lt_of_le_of_lt (Nat.zero_le _) h.read_lt)
  read_mod := by
    have := h.read_mod
    show (ind.readInd + k) % p.fifoSize % 8 = 0
    rw [Nat.mod_mod_of_dvd _ (Nat.dvd_of_mod_eq_zero h.size_mod)]
    omega
  write_lt := h.write_lt
  write_mod := h.write_mod

/-- What is to be read are whole words, fewer than the FIFO has. -/
theorem getRxSize_lt (h : Valid p ind) :
    getRxSize p ind % 8 = 0 ∧ getRxSize p ind + 8 ≤ p.fifoSize := by
  have ⟨h₁, _, h₂, h₃, h₄, h₅⟩ := h
  unfold getRxSize
  split <;> omega

theorem getRxSize_eq_zero (h : Valid p ind) :
    getRxSize p ind = 0 ↔ ind.writeInd = ind.readInd := by
  have ⟨h₁, _, h₂, h₃, h₄, h₅⟩ := h
  unfold getRxSize
  split <;> omega

/-- What has been read is no longer to be read. -/
theorem getRxSize_advance (h : Valid p ind) {k : Nat} (hle : k ≤ getRxSize p ind) :
    getRxSize p (Smem.advance p ind k) = getRxSize p ind - k := by
  have hr := h.read_lt
  have hw := h.write_lt
  unfold getRxSize Smem.advance at *
  dsimp only
  rcases Nat.lt_or_ge (ind.readInd + k) p.fifoSize with hless | hround
  · rw [Nat.mod_eq_of_lt hless]
    split at hle <;> split <;> omega
  · have hk : k < p.fifoSize := by split at hle <;> omega
    rw [Nat.mod_eq_sub_mod hround, Nat.mod_eq_of_lt (by omega)]
    split at hle <;> split <;> omega

/-- Reading a word. -/
theorem read64 (h : Valid p ind) : (read64 p ind).2 = Smem.advance p ind 8 := by
  have ⟨h₁, _, h₂, h₃, _, _⟩ := h
  unfold Smem.read64 Smem.advance
  dsimp only
  rw [Writing.wrap_eq (by omega) rfl]

/-- Reading data that is there. -/
theorem readAlgn64 (h : Valid p ind) {size : Nat} (hle : size ≤ getRxSize p ind) :
    ∃ data, readAlgn64 p ind size = some (data, Smem.advance p ind (roundUp size)) := by
  have ⟨h₁, h₂, h₃, h₄, _, _⟩ := h
  have hsize := h.getRxSize_lt
  unfold Smem.readAlgn64 Smem.advance roundUp
  rw [if_neg (by omega)]
  simp only [glinkOsRoundup64_of_le (show size ≤ 0xfffffff8 by omega), bind_eq_bind,
    bind_some]
  split
  · next hrem =>
    refine ⟨_, congrArg some (Prod.ext rfl ?_)⟩
    dsimp only
    rw [Nat.mod_eq_sub_mod (by omega), Nat.mod_eq_of_lt (by omega), if_neg (by omega)]
    congr 1
    omega
  · next hrem =>
    refine ⟨_, congrArg some (Prod.ext rfl ?_)⟩
    dsimp only
    rw [Writing.wrap_eq (by omega) rfl]

theorem readIntents (h : Valid p ind) (cid : UInt16) (num : Nat) :
    (readIntents p cid num ind).2 = Smem.advance p ind (8 * num) := by
  induction num generalizing ind with
  | zero => exact h.advance_zero.symm
  | succ num ih =>
    show (Smem.readIntents p cid num (Smem.read64 p ind).2).2 = _
    rw [h.read64, ih (h.advance (by omega)), advance_advance]
    congr 1
    omega

end Valid

/-! ## One turn -/

section
variable {p : Path} {ind : Ind} {cmd : Nat}

/-- The fragment is for the intent, and all of it is there. -/
def Taken (p : Path) (d : Intent) (cmd : Nat) (ind : Ind) : Prop :=
  fragmentSize p ind ≤ getRxSize p (advance p ind 8) ∧
    match shape cmd with
    | .packet => fragmentSize p ind + remainingSize p ind < 2 ^ 32 ∧
        fragmentSize p ind + remainingSize p ind ≤ d.size
    | _ => fragmentSize p ind ≤ d.pktSz - d.used

theorem remainingSize_lt (p : Path) (ind : Ind) : remainingSize p ind < 2 ^ 32 :=
  (descHi (read64 p ind).1).toNat_lt

theorem glinkOsAdd_of_ge {x y : Nat} (h : 2 ^ 32 ≤ x + y) (hy : y < 2 ^ 32) :
    glinkOsAdd x y = none :=
  if_pos (by unfold uintMax; omega)

/-- **A first fragment.** -/
theorem processRxPacketCmd_spec (h : Valid p ind) (d : Intent) (hshape : shape cmd = .packet) :
    (Taken p d cmd ind ∧ ∃ ds, processRxPacketCmd p (some d.toRxIntent) cmd ind =
      some (ds, advance p ind (8 + roundUp (fragmentSize p ind)))) ∨
    (¬ Taken p d cmd ind ∧ processRxPacketCmd p (some d.toRxIntent) cmd ind = none) := by
  have hv := h.advance (k := 8) (by omega)
  have hrem := remainingSize_lt p ind
  have hrun : processRxPacketCmd p (some d.toRxIntent) cmd ind =
      (do
        let pktSize ← glinkOsAdd (fragmentSize p ind) (remainingSize p ind)
        if d.size < pktSize ∨ fragmentSize p ind > d.size ∨
            fragmentSize p ind > getRxSize p (advance p ind 8) then none
        else
          let read ← readAlgn64 p (advance p ind 8) (fragmentSize p ind)
          some ([.packet (cmdCid cmd) (cmdArg cmd) pktSize read.1
            (descHi (read64 p ind).1 == 0)], read.2)) := by
    rw [← h.read64]
    rfl
  unfold Taken
  rw [hshape, hrun]
  by_cases hsum : fragmentSize p ind + remainingSize p ind < 2 ^ 32
  · rw [glinkOsAdd_of_lt hsum]
    simp only [bind_eq_bind, bind_some]
    by_cases hfits : fragmentSize p ind + remainingSize p ind ≤ d.size ∧
        fragmentSize p ind ≤ getRxSize p (advance p ind 8)
    · obtain ⟨data, hdata⟩ := hv.readAlgn64 hfits.2
      rw [if_neg (by omega), hdata, advance_advance]
      exact .inl ⟨⟨hfits.2, hsum, hfits.1⟩, _, rfl⟩
    · rw [if_pos (by omega)]
      exact .inr ⟨fun hall => hfits ⟨hall.2.2, hall.1⟩, rfl⟩
  · rw [glinkOsAdd_of_ge (by omega) hrem]
    exact .inr ⟨fun hall => hsum hall.2.1, rfl⟩

/-- **A further fragment.** -/
theorem processRxPacketContCmd_spec (h : Valid p ind) (d : Intent)
    (hshape : shape cmd = .packetCont) :
    (Taken p d cmd ind ∧ ∃ ds, processRxPacketContCmd p (some d.toRxIntent) cmd ind =
      some (ds, advance p ind (8 + roundUp (fragmentSize p ind)))) ∨
    (¬ Taken p d cmd ind ∧ processRxPacketContCmd p (some d.toRxIntent) cmd ind = none) := by
  have hv := h.advance (k := 8) (by omega)
  have hrun : processRxPacketContCmd p (some d.toRxIntent) cmd ind =
      (if fragmentSize p ind > getRxSize p (advance p ind 8) ∨
          fragmentSize p ind > d.pktSz - d.used then none
      else do
        let read ← readAlgn64 p (advance p ind 8) (fragmentSize p ind)
        some ([.packetCont (cmdCid cmd) (cmdArg cmd) read.1
          (descHi (read64 p ind).1 == 0)], read.2)) := by
    rw [← h.read64]
    rfl
  unfold Taken
  rw [hshape, hrun]
  by_cases hfits : fragmentSize p ind ≤ getRxSize p (advance p ind 8) ∧
      fragmentSize p ind ≤ d.pktSz - d.used
  · obtain ⟨data, hdata⟩ := hv.readAlgn64 hfits.1
    rw [if_neg (by omega), hdata, advance_advance]
    exact .inl ⟨hfits, _, rfl⟩
  · rw [if_pos (by omega)]
    exact .inr ⟨hfits, rfl⟩

/-- An assertion fails. -/
def Stuck (p : Path) (desc : Option Intent) (cmd : Nat) (ind : Ind) : Prop :=
  (shape cmd = .packet ∨ shape cmd = .packetCont) ∧ ∃ d, desc = some d ∧ ¬ Taken p d cmd ind

/-- "Invalid channel name length." -/
def Refused (p : Path) (cmd : Nat) (ind : Ind) : Prop :=
  shape cmd = .openChannel ∧ ((chNameLen (cmdArg cmd)).toNat > getRxSize p ind ∨
    (chNameLen (cmdArg cmd)).toNat > glinkChNameLen)

instance (p : Path) (cmd : Nat) (ind : Ind) : Decidable (Refused p cmd ind) :=
  inferInstanceAs (Decidable (_ ∧ _))

/-- The index behind a command that is not invalid. -/
def Processed.ind? : Processed → Option Ind
  | .delivered _ ind => some ind
  | .readReq ind => some ind
  | .invalid => none

theorem Answers.pdesc_eq (a : Answers) : a.pdesc = a.desc.map Intent.toRxIntent := rfl

/-- A command of a fragment. -/
theorem processCmd_packet (features : UInt32) (a : Answers) (h : Valid p ind)
    (hshape : shape cmd = .packet) :
    (Stuck p a.desc cmd ind ∧ processCmd p features a.pdesc cmd ind = none) ∨
    (¬ Stuck p a.desc cmd ind ∧ ∃ ds, processCmd p features a.pdesc cmd ind =
      some (.delivered ds (advance p ind (bytesRead p a.desc cmd ind)))) := by
  have hid := shape_spec cmd
  rw [hshape] at hid
  have hrun : processCmd p features a.pdesc cmd ind =
      (processRxPacketCmd p a.pdesc cmd ind).map fun r => .delivered r.1 r.2 := if_pos hid
  rw [hrun, a.pdesc_eq]
  unfold Stuck bytesRead
  rw [hshape]
  cases a.desc with
  | none =>
    refine .inr ⟨fun hstuck => by simp at hstuck, [], ?_⟩
    simp only [← h.read64]
    rfl
  | some d =>
    rcases processRxPacketCmd_spec h d hshape with ⟨htaken, ds, hds⟩ | ⟨htaken, hnone⟩
    · refine .inr ⟨fun hstuck => ?_, ds, ?_⟩
      · obtain ⟨_, _, heq, hnot⟩ := hstuck
        cases heq
        exact hnot htaken
      · rw [map_some, hds, map_some]
    · refine .inl ⟨⟨.inl rfl, d, rfl, htaken⟩, ?_⟩
      rw [map_some, hnone, map_none]

theorem processCmd_packetCont (features : UInt32) (a : Answers) (h : Valid p ind)
    (hshape : shape cmd = .packetCont) :
    (Stuck p a.desc cmd ind ∧ processCmd p features a.pdesc cmd ind = none) ∨
    (¬ Stuck p a.desc cmd ind ∧ ∃ ds, processCmd p features a.pdesc cmd ind =
      some (.delivered ds (advance p ind (bytesRead p a.desc cmd ind)))) := by
  have hid := shape_spec cmd
  rw [hshape] at hid
  have hfirst : ¬ (cmdId cmd = CmdId.txData.value ∨ cmdId cmd = CmdId.tracerPacket.value) := by
    rcases hid with hid | hid <;> rw [hid] <;> decide
  have hrun : processCmd p features a.pdesc cmd ind =
      (processRxPacketContCmd p a.pdesc cmd ind).map fun r => .delivered r.1 r.2 :=
    (if_neg hfirst).trans (if_pos hid)
  rw [hrun, a.pdesc_eq]
  unfold Stuck bytesRead
  rw [hshape]
  cases a.desc with
  | none =>
    refine .inr ⟨fun hstuck => by simp at hstuck, [], ?_⟩
    simp only [← h.read64]
    rfl
  | some d =>
    rcases processRxPacketContCmd_spec h d hshape with ⟨htaken, ds, hds⟩ | ⟨htaken, hnone⟩
    · refine .inr ⟨fun hstuck => ?_, ds, ?_⟩
      · obtain ⟨_, _, heq, hnot⟩ := hstuck
        cases heq
        exact hnot htaken
      · rw [map_some, hds, map_some]
    · refine .inl ⟨⟨.inr rfl, d, rfl, htaken⟩, ?_⟩
      rw [map_some, hnone, map_none]

/-- OPEN_CHANNEL. -/
theorem processCmd_openChannel (features : UInt32) (a : Answers) (h : Valid p ind)
    (hshape : shape cmd = .openChannel) :
    ∃ r, processCmd p features a.pdesc cmd ind = some r ∧ r.ind? =
      if Refused p cmd ind then none else some (advance p ind (bytesRead p a.desc cmd ind)) := by
  have hid := shape_spec cmd
  rw [hshape] at hid
  unfold processCmd
  rw [hid]
  simp only [show (CmdId.openChannel.value = CmdId.txData.value ∨
      CmdId.openChannel.value = CmdId.tracerPacket.value) = False by decide,
    show (CmdId.openChannel.value = CmdId.txDataCont.value ∨
      CmdId.openChannel.value = CmdId.tracerPacketCont.value) = False by decide,
    show (CmdId.openChannel.value = CmdId.versionReq.value) = False by decide,
    show (CmdId.openChannel.value = CmdId.versionAck.value) = False by decide, if_false, if_true]
  unfold Refused bytesRead
  simp only [hshape, true_and]
  split
  · exact ⟨.invalid, rfl, rfl⟩
  · next hfits =>
    have hlen : (chNameLen (cmdArg cmd)).toNat ≤ getRxSize p ind := by omega
    obtain ⟨data, hdata⟩ := h.readAlgn64 hlen
    rw [hdata]
    exact ⟨_, rfl, rfl⟩

/-- RX_INTENT. -/
theorem processCmd_rxIntent (features : UInt32) (a : Answers) (h : Valid p ind)
    (hshape : shape cmd = .rxIntent) :
    ∃ ds, processCmd p features a.pdesc cmd ind =
      some (.delivered ds (advance p ind (bytesRead p a.desc cmd ind))) := by
  have hid := shape_spec cmd
  rw [hshape] at hid
  unfold processCmd
  rw [hid]
  simp only [show (CmdId.rxIntent.value = CmdId.txData.value ∨
      CmdId.rxIntent.value = CmdId.tracerPacket.value) = False by decide,
    show (CmdId.rxIntent.value = CmdId.txDataCont.value ∨
      CmdId.rxIntent.value = CmdId.tracerPacketCont.value) = False by decide,
    show (CmdId.rxIntent.value = CmdId.versionReq.value) = False by decide,
    show (CmdId.rxIntent.value = CmdId.versionAck.value) = False by decide,
    show (CmdId.rxIntent.value = CmdId.openChannel.value) = False by decide,
    show (CmdId.rxIntent.value = CmdId.closeChannel.value) = False by decide,
    show (CmdId.rxIntent.value = CmdId.openChannelAck.value) = False by decide,
    show (CmdId.rxIntent.value = CmdId.closeChannelAck.value) = False by decide,
    if_false, if_true]
  unfold bytesRead
  rw [hshape, h.readIntents]
  exact ⟨_, rfl⟩

/-- A command of one word, known or not. -/
theorem processCmd_word (features : UInt32) (a : Answers) (h : Valid p ind)
    (hshape : shape cmd = .word) :
    ∃ r, processCmd p features a.pdesc cmd ind = some r ∧
      r.ind? = some (advance p ind (bytesRead p a.desc cmd ind)) := by
  have hread : advance p ind (bytesRead p a.desc cmd ind) = ind := by
    unfold bytesRead
    rw [hshape]
    exact h.advance_zero
  rw [hread]
  have hid := shape_spec cmd
  rw [hshape] at hid
  obtain ⟨h₁, h₂, h₃, h₄⟩ := hid
  unfold processCmd
  simp only [if_neg h₁, if_neg h₂, if_neg h₃, if_neg h₄]
  -- each of the other commands comes to something at the same index
  repeat
    refine iteInduction (motive := fun o => ∃ r, o = some r ∧ Processed.ind? r = some ind)
      (fun _ => ⟨_, rfl, rfl⟩) (fun _ => ?_)
  exact ⟨_, rfl, rfl⟩

/-- **What one command comes to.** Nothing but a failing assertion keeps it from ending. -/
theorem processCmd_spec (features : UInt32) (a : Answers) (cmd : Nat) (h : Valid p ind) :
    (Stuck p a.desc cmd ind ∧ processCmd p features a.pdesc cmd ind = none) ∨
    (¬ Stuck p a.desc cmd ind ∧ ∃ r, processCmd p features a.pdesc cmd ind = some r ∧
      r.ind? = if Refused p cmd ind then none
        else some (advance p ind (bytesRead p a.desc cmd ind))) := by
  cases hshape : shape cmd with
  | packet =>
    have hrefused : ¬ Refused p cmd ind := fun hr => by
      rw [Refused, hshape] at hr
      cases hr.1
    rw [if_neg hrefused]
    exact (processCmd_packet features a h hshape).imp_right fun ⟨hstuck, _, hds⟩ =>
      ⟨hstuck, _, hds, rfl⟩
  | packetCont =>
    have hrefused : ¬ Refused p cmd ind := fun hr => by
      rw [Refused, hshape] at hr
      cases hr.1
    rw [if_neg hrefused]
    exact (processCmd_packetCont features a h hshape).imp_right fun ⟨hstuck, _, hds⟩ =>
      ⟨hstuck, _, hds, rfl⟩
  | openChannel =>
    refine .inr ⟨fun hstuck => ?_, processCmd_openChannel features a h hshape⟩
    rw [Stuck, hshape] at hstuck
    simp at hstuck
  | rxIntent =>
    have hrefused : ¬ Refused p cmd ind := fun hr => by
      rw [Refused, hshape] at hr
      cases hr.1
    rw [if_neg hrefused]
    obtain ⟨ds, hds⟩ := processCmd_rxIntent features a h hshape
    refine .inr ⟨fun hstuck => ?_, _, hds, rfl⟩
    rw [Stuck, hshape] at hstuck
    simp at hstuck
  | word =>
    have hrefused : ¬ Refused p cmd ind := fun hr => by
      rw [Refused, hshape] at hr
      cases hr.1
    rw [if_neg hrefused]
    refine .inr ⟨fun hstuck => ?_, processCmd_word features a h hshape⟩
    rw [Stuck, hshape] at hstuck
    simp at hstuck

end

/-! ## One turn of the loop -/

section
variable {q : Path} {rx : Rx} {a : Answers}

/-- The word that the turn reads first. -/
def firstWord (q : Path) (rx : Rx) : Nat := (read64 q rx.ind).1

/-- The indices behind it. -/
def behindWord (q : Path) (rx : Rx) : Ind := (read64 q rx.ind).2

theorem readIntents_unread (q : Path) (l : List Item) :
    readIntents { q with unread := l } = readIntents q := by
  funext cid num
  induction num with
  | zero => rfl
  | succ num ih =>
    funext ind
    unfold readIntents
    simp only [ih]
    rfl

/-- What is read does not depend on what the history says of it. -/
theorem processCmd_unread (q : Path) (l : List Item) (features : UInt32) (desc : Option RxIntent)
    (cmd : Nat) (ind : Ind) :
    processCmd { q with unread := l } features desc cmd ind =
      processCmd q features desc cmd ind := by
  have hsize : getRxSize { q with unread := l } = getRxSize q := rfl
  have hdata : readAlgn64 { q with unread := l } = readAlgn64 q := rfl
  have hpacket : processRxPacketCmd { q with unread := l } = processRxPacketCmd q := rfl
  have hcont : processRxPacketContCmd { q with unread := l } = processRxPacketContCmd q := rfl
  unfold processCmd
  rw [hsize, hdata, hpacket, hcont, readIntents_unread]

theorem endTurn_spec (q : Path) (rx : Rx) (r : Processed) :
    (endTurn q rx r).1.fifoSize = q.fifoSize ∧ (endTurn q rx r).1.rx =
      some (match r.ind? with | some ind => ⟨ind, false⟩ | none => ⟨rx.ind, true⟩) := by
  cases r <;> exact ⟨rfl, rfl⟩

/-- **What a turn of the loop comes to**: an assertion fails, or the loop stands behind the
command's bytes, or it has ended with an invalid command. -/
theorem isrCommand_spec (h : Valid q rx.ind) (hrx : q.rx = some rx) (hgoes : ¬ Ended q) :
    (Stuck q a.desc (firstWord q rx) (behindWord q rx) ∧
      isrCommand q a.features a.pdesc = none) ∨
    (¬ Stuck q a.desc (firstWord q rx) (behindWord q rx) ∧ ∃ q' b,
      isrCommand q a.features a.pdesc = some (q', b) ∧ q'.fifoSize = q.fifoSize ∧
      q'.rx = some (if Refused q (firstWord q rx) (behindWord q rx) then ⟨rx.ind, true⟩
        else ⟨advance q rx.ind (8 + bytesRead q a.desc (firstWord q rx) (behindWord q rx)),
          false⟩)) := by
  have hopen : ¬ (rx.ind.writeInd = rx.ind.readInd ∨ rx.invalidCmd = true) := fun hend =>
    hgoes fun rx' hrx' => by
      rw [hrx] at hrx'
      cases hrx'
      exact hend
  have hrun : isrCommand q a.features a.pdesc =
      (processCmd q a.features a.pdesc (firstWord q rx) (behindWord q rx)).map
        (endTurn { q with unread := q.unread.drop 1 } rx) := by
    have hturn : isrCommand q a.features a.pdesc = isrTurn q rx a.features a.pdesc := by
      unfold isrCommand
      rw [hrx, bind_some]
    rw [hturn]
    unfold isrTurn firstWord behindWord
    rw [if_neg hopen]
    dsimp only
    rw [processCmd_unread]
  have hbehind : behindWord q rx = advance q rx.ind 8 := h.read64
  have hv : Valid q (behindWord q rx) := by
    rw [hbehind]
    exact h.advance (by omega)
  rw [hrun]
  rcases processCmd_spec a.features a (firstWord q rx) hv with
    ⟨hstuck, hnone⟩ | ⟨hstuck, r, hr, hind⟩
  · exact .inl ⟨hstuck, by rw [hnone]; rfl⟩
  · refine .inr ⟨hstuck, ?_⟩
    obtain ⟨hsize, hrx'⟩ := endTurn_spec { q with unread := q.unread.drop 1 } rx r
    rw [hr, map_some]
    refine ⟨_, _, rfl, hsize, hrx'.trans ?_⟩
    rw [hind, hbehind]
    by_cases hrefused : Refused q (firstWord q rx) (advance q rx.ind 8)
    · rw [if_pos hrefused, if_pos hrefused]
    · rw [if_neg hrefused, if_neg hrefused, advance_advance]

/-- A turn as it is wanted. No assertion fails in it, it goes over no byte behind the write index, a
well-formed command is gone over exactly, whatever the core knows of its channel and its intent, and
no write goes out of its buffer. -/
structure TurnFine (q : Path) (rx : Rx) (a : Answers) : Prop where
  returns : ∃ q' b, isrCommand q a.features a.pdesc = some (q', b)
  within : 8 + bytesRead q a.desc (firstWord q rx) (behindWord q rx) ≤ getRxSize q rx.ind
  exact : WellFormed q (firstWord q rx) (behindWord q rx) → ∀ q' b,
    isrCommand q a.features a.pdesc = some (q', b) →
      8 + bytesRead q a.desc (firstWord q rx) (behindWord q rx) =
        frameSize q (firstWord q rx) (behindWord q rx) ∧
      q'.rx = some ⟨advance q rx.ind (frameSize q (firstWord q rx) (behindWord q rx)), false⟩
  inside : ∀ w ∈ bufferWrites q a.desc (firstWord q rx) (behindWord q rx), w.Inside

/-- What the code relies on in one turn. A fragment for an intent that is not known is empty or not
all there. One for an intent that is known is all there and fits. A name has a character, and the
descriptors of intents are all there. -/
@[irreducible] def Fits (p : Path) (desc : Option Intent) (cmd : Nat) (ind : Ind) : Prop :=
  match shape cmd, desc with
  | .packet, none | .packetCont, none => 8 ≤ getRxSize p ind ∧
      (fragmentSize p ind = 0 ∨ getRxSize p ind < 8 + roundUp (fragmentSize p ind))
  | .packet, some d => 8 + fragmentSize p ind ≤ getRxSize p ind ∧
      fragmentSize p ind + remainingSize p ind < 2 ^ 32 ∧
      fragmentSize p ind + remainingSize p ind ≤ d.size
  | .packetCont, some d => 8 + fragmentSize p ind ≤ getRxSize p ind ∧
      fragmentSize p ind ≤ d.pktSz - d.used
  | .openChannel, _ => chNameLen (cmdArg cmd) ≠ 0
  | .rxIntent, _ => 8 * (cmdArg cmd).toNat ≤ getRxSize p ind
  | .word, _ => True

/-- Behind the first word of a command there is that much less to read. -/
theorem getRxSize_behindWord (h : Valid q rx.ind) (hrx : q.rx = some rx) (hgoes : ¬ Ended q) :
    getRxSize q rx.ind = 8 + getRxSize q (behindWord q rx) ∧ Valid q (behindWord q rx) := by
  have hne : getRxSize q rx.ind ≠ 0 := fun hzero => hgoes fun rx' hrx' => by
    rw [hrx] at hrx'
    cases hrx'
    exact .inl (h.getRxSize_eq_zero.mp hzero)
  have hcells := h.getRxSize_lt
  have hbehind : behindWord q rx = advance q rx.ind 8 := h.read64
  rw [hbehind, h.getRxSize_advance (by omega)]
  exact ⟨by omega, h.advance (by omega)⟩

theorem roundUp_le_iff {n avail : Nat} (h : avail % 8 = 0) : roundUp n ≤ avail ↔ n ≤ avail := by
  unfold roundUp
  omega

theorem roundUp_eq_zero {n : Nat} : roundUp n = 0 ↔ n = 0 := by
  unfold roundUp
  omega

/-- What is behind a descriptor that is there. -/
theorem getRxSize_descriptor {p : Path} {ind : Ind} (h : Valid p ind)
    (hle : 8 ≤ getRxSize p ind) : getRxSize p (advance p ind 8) = getRxSize p ind - 8 :=
  h.getRxSize_advance hle

end

section
variable {p : Path} {ind : Ind} {cmd : Nat} {desc : Option Intent}

/-- No assertion fails where the command fits. -/
theorem Fits.not_stuck (h : Valid p ind) (hfits : Fits p desc cmd ind) :
    ¬ Stuck p desc cmd ind := by
  rintro ⟨hshape, d, rfl, hnot⟩
  refine hnot ?_
  unfold Fits at hfits
  unfold Taken
  rcases hshape with hshape | hshape
  · rw [hshape] at hfits ⊢
    dsimp only at hfits ⊢
    rw [getRxSize_descriptor h (by omega)]
    exact ⟨by omega, hfits.2⟩
  · rw [hshape] at hfits ⊢
    dsimp only at hfits ⊢
    rw [getRxSize_descriptor h (by omega)]
    exact ⟨by omega, hfits.2⟩

/-- Where the command fits, what is read is there. -/
theorem Fits.bytesRead_le (h : Valid p ind) (hfits : Fits p desc cmd ind) :
    bytesRead p desc cmd ind ≤ getRxSize p ind := by
  have hcells := h.getRxSize_lt
  unfold Fits at hfits
  unfold bytesRead
  cases hshape : shape cmd with
  | packet | packetCont =>
    rw [hshape] at hfits
    cases desc with
    | none => exact hfits.1
    | some d =>
      dsimp only at hfits ⊢
      unfold roundUp
      omega
  | openChannel =>
    dsimp only
    split
    · exact Nat.zero_le _
    · exact (roundUp_le_iff hcells.1).mpr (by omega)
  | rxIntent =>
    rw [hshape] at hfits
    exact hfits
  | word => exact Nat.zero_le _

/-- Where the command fits and is well formed, it is read to its end. -/
theorem Fits.bytesRead_eq (hfits : Fits p desc cmd ind) (hwell : WellFormed p cmd ind) :
    8 + bytesRead p desc cmd ind = frameSize p cmd ind ∧ ¬ Refused p cmd ind := by
  obtain ⟨hframe, hname⟩ := hwell
  unfold Fits at hfits
  unfold frameSize at hframe
  unfold bytesRead frameSize Refused
  cases hshape : shape cmd with
  | packet | packetCont =>
    rw [hshape] at hfits hframe
    refine ⟨?_, fun hrefused => by simp at hrefused⟩
    cases desc with
    | none =>
      dsimp only at hfits hframe ⊢
      have hzero : fragmentSize p ind = 0 := hfits.2.resolve_right (by omega)
      rw [hzero]
      rfl
    | some d =>
      dsimp only
      omega
  | openChannel =>
    rw [hshape] at hframe
    have hlen := hname hshape
    dsimp only at hframe ⊢
    have hle : (chNameLen (cmdArg cmd)).toNat ≤ roundUp (chNameLen (cmdArg cmd)).toNat := by
      unfold roundUp
      omega
    rw [if_neg (by omega)]
    exact ⟨rfl, fun hrefused => by omega⟩
  | rxIntent => exact ⟨rfl, fun hrefused => by simp at hrefused⟩
  | word => exact ⟨rfl, fun hrefused => by simp at hrefused⟩

/-- Where the command fits, nothing is written outside a buffer. -/
theorem Fits.inside (hfits : Fits p desc cmd ind) :
    ∀ w ∈ bufferWrites p desc cmd ind, w.Inside := by
  unfold Fits at hfits
  unfold bufferWrites
  cases hshape : shape cmd with
  | packet =>
    rw [hshape] at hfits
    cases desc with
    | none => exact fun _ hw => absurd hw not_mem_nil
    | some d =>
      intro w hw
      cases mem_singleton.mp hw
      dsimp only at hfits
      exact ⟨Int.le_refl 0, by dsimp only; omega⟩
  | packetCont =>
    rw [hshape] at hfits
    cases desc with
    | none => exact fun _ hw => absurd hw not_mem_nil
    | some d =>
      intro w hw
      cases mem_singleton.mp hw
      have hused := d.used_le
      have hsize := d.pktSz_le
      dsimp only at hfits
      exact ⟨Int.natCast_nonneg _, by dsimp only; omega⟩
  | openChannel =>
    rw [hshape] at hfits
    have hlen : (chNameLen (cmdArg cmd)).toNat ≠ 0 := fun hzero =>
      hfits (UInt16.toNat_inj.mp hzero)
    dsimp only
    split
    · exact fun _ hw => absurd hw not_mem_nil
    · intro w hw
      rcases mem_cons.mp hw with rfl | hw
      · exact ⟨Int.le_refl 0, by dsimp only; omega⟩
      · cases mem_singleton.mp hw
        exact ⟨by dsimp only; omega, by dsimp only; omega⟩
  | rxIntent => exact fun _ hw => absurd hw not_mem_nil
  | word => exact fun _ hw => absurd hw not_mem_nil

end

section
variable {q : Path} {rx : Rx} {a : Answers}

/-- A turn is as it is wanted where the command fits. -/
theorem Fits.turnFine (h : Valid q rx.ind) (hrx : q.rx = some rx) (hgoes : ¬ Ended q)
    (hfits : Fits q a.desc (firstWord q rx) (behindWord q rx)) : TurnFine q rx a := by
  obtain ⟨havail, hv⟩ := getRxSize_behindWord h hrx hgoes
  rcases isrCommand_spec (a := a) h hrx hgoes with ⟨hstuck, -⟩ | ⟨-, q', b, hrun, -, hrx'⟩
  · exact absurd hstuck (hfits.not_stuck hv)
  · refine ⟨⟨q', b, hrun⟩, ?_, fun hwell q₂ b₂ hrun₂ => ?_, hfits.inside⟩
    · have := hfits.bytesRead_le hv
      omega
    · obtain ⟨hread, hrefused⟩ := hfits.bytesRead_eq hwell
      rw [hrun] at hrun₂
      cases hrun₂
      rw [if_neg hrefused, hread] at hrx'
      exact ⟨hread, hrx'⟩

/-- A turn that is as it is wanted has a command that fits. -/
theorem TurnFine.fits (h : Valid q rx.ind) (hrx : q.rx = some rx) (hgoes : ¬ Ended q)
    (hfine : TurnFine q rx a) : Fits q a.desc (firstWord q rx) (behindWord q rx) := by
  obtain ⟨havail, hv⟩ := getRxSize_behindWord h hrx hgoes
  obtain ⟨q', b, hrun⟩ := hfine.returns
  have hwithin := hfine.within
  have hexact := fun hwell => (hfine.exact hwell q' b hrun).1
  have hinside := hfine.inside
  have hnot : ¬ Stuck q a.desc (firstWord q rx) (behindWord q rx) := fun hstuck => by
    rcases isrCommand_spec (a := a) h hrx hgoes with ⟨-, hnone⟩ | ⟨hnot, -⟩
    · rw [hrun] at hnone
      cases hnone
    · exact hnot hstuck
  generalize firstWord q rx = cmd at *
  generalize behindWord q rx = ind at *
  unfold bytesRead at hwithin hexact
  unfold bufferWrites at hinside
  unfold Fits
  cases hshape : shape cmd with
  | packet | packetCont =>
    rw [hshape] at hwithin hexact
    cases hdesc : a.desc with
    | none =>
      rw [hdesc] at hwithin hexact
      dsimp only at hwithin hexact ⊢
      refine ⟨by omega, Decidable.or_iff_not_imp_right.mpr fun hall => ?_⟩
      have hframe : frameSize q cmd ind = 16 + roundUp (fragmentSize q ind) := by
        unfold frameSize
        rw [hshape]
      have hread := hexact ⟨by omega, fun hopen => by rw [hshape] at hopen; cases hopen⟩
      exact roundUp_eq_zero.mp (by omega)
    | some d =>
      rw [hdesc] at hwithin
      dsimp only at hwithin ⊢
      have htaken : Taken q d cmd ind :=
        Classical.byContradiction fun hno => hnot ⟨by simp [hshape], d, hdesc, hno⟩
      unfold Taken at htaken
      rw [hshape, getRxSize_descriptor hv (by omega)] at htaken
      exact ⟨by omega, htaken.2⟩
  | openChannel =>
    rw [hshape] at hinside
    intro hzero
    have hend := hinside ⟨0, -1, 1⟩ (by simp [hzero])
    exact absurd hend.1 (by decide)
  | rxIntent =>
    rw [hshape] at hwithin
    dsimp only at hwithin ⊢
    omega
  | word => trivial

end

/-! ## The loop -/

/-- The handler does not run, and its FIFO has whole words, as its own read index has. -/
structure Idle (p : Path) : Prop where
  rx : p.rx = none
  size_mod : p.fifoSize % 8 = 0
  size_lt : p.fifoSize < 2 ^ 32
  read_mod : p.localReadInd % 8 = 0

/-- `xport_smem_isr` as it is wanted: its loop ends, and each turn is as wanted. -/
structure Robust (answers : Nat → Answers) (p : Path) : Prop where
  ends : ∃ n q, isrTurns answers p n = some q ∧ Ended q
  turns : ∀ (n : Nat) (q : Path) (rx : Rx), isrTurns answers p n = some q → ¬ Ended q →
    q.rx = some rx → TurnFine q rx (answers n)

/-- Each command that the loop comes to fits. -/
def AllFit (answers : Nat → Answers) (p : Path) : Prop :=
  ∀ (n : Nat) (q : Path) (rx : Rx), isrTurns answers p n = some q → ¬ Ended q → q.rx = some rx →
    Fits q (answers n).desc (firstWord q rx) (behindWord q rx)

section
variable {answers : Nat → Answers} {p : Path}

/-- The handler stands at a word. -/
def AtWord (q : Path) : Prop := ∀ rx, q.rx = some rx → Valid q rx.ind

theorem Idle.atWord (h : Idle p) : AtWord (isrEnter p) := by
  intro rx hrx
  unfold isrEnter at hrx ⊢
  dsimp only at hrx ⊢
  split at hrx
  · rw [h.rx] at hrx
    cases hrx
  · next hchecked =>
    cases hrx
    rw [if_neg hchecked]
    simp only [Bool.or_eq_true, Bool.not_eq_true', not_or, Bool.not_eq_false] at hchecked
    have ⟨hwrite, hwmod⟩ := (glinkOsFifoIndexCheck_iff (by decide)).mp hchecked.1
    have hread : p.localReadInd < p.fifoSize := by
      have := hchecked.2
      simpa [glinkOsFifoIndexCheck] using this
    exact ⟨h.size_mod, h.size_lt, hread, h.read_mod, hwrite, hwmod⟩

theorem Valid.congr {q q' : Path} {ind : Ind} (h : Valid q ind) (hsize : q'.fifoSize = q.fifoSize) :
    Valid q' ind := by
  have ⟨h₁, h₂, h₃, h₄, h₅, h₆⟩ := h
  exact ⟨by rw [hsize]; exact h₁, by rw [hsize]; exact h₂, by rw [hsize]; exact h₃, h₄,
    by rw [hsize]; exact h₅, h₆⟩

theorem bytesRead_mod (q : Path) (desc : Option Intent) (cmd : Nat) (ind : Ind) :
    bytesRead q desc cmd ind % 8 = 0 := by
  unfold bytesRead roundUp
  split <;> try dsimp only
  all_goals first | omega | (split <;> omega)

/-- A turn leaves the handler at a word. -/
theorem AtWord.turn {q q' : Path} {a : Answers} {b : Bool} (h : AtWord q)
    (hgoes : ¬ Ended q) (hrun : isrCommand q a.features a.pdesc = some (q', b)) : AtWord q' := by
  cases hrx : q.rx with
  | none => exact absurd (fun rx hsome => by rw [hrx] at hsome; cases hsome) hgoes
  | some rx =>
    have hv := h rx hrx
    rcases isrCommand_spec (a := a) hv hrx hgoes with ⟨-, hnone⟩ | ⟨-, q₂, b₂, hrun₂, hsize, hrx'⟩
    · rw [hrun] at hnone
      cases hnone
    · rw [hrun] at hrun₂
      cases hrun₂
      intro rx' hsome
      rw [hrx', Option.some.injEq] at hsome
      rw [← hsome]
      refine Valid.congr ?_ hsize
      split
      · exact hv
      · have hread := bytesRead_mod q a.desc (firstWord q rx) (behindWord q rx)
        exact hv.advance (by omega)

/-- What the handler has still to read. -/
def unreadBytes (q : Path) : Nat :=
  match q.rx with
  | none => 0
  | some rx => if rx.invalidCmd then 0 else getRxSize q rx.ind

/-- A turn in which the command fits leaves less to read. -/
theorem Fits.unreadBytes_lt {q : Path} {rx : Rx} {a : Answers} (h : Valid q rx.ind)
    (hrx : q.rx = some rx) (hgoes : ¬ Ended q)
    (hfits : Fits q a.desc (firstWord q rx) (behindWord q rx)) :
    ∃ q' b, isrCommand q a.features a.pdesc = some (q', b) ∧ unreadBytes q' < unreadBytes q := by
  obtain ⟨havail, hv⟩ := getRxSize_behindWord h hrx hgoes
  have hvalid : rx.invalidCmd = false := Bool.eq_false_iff.mpr fun hinvalid =>
    hgoes fun rx' hrx' => by
      rw [hrx] at hrx'
      cases hrx'
      exact .inr hinvalid
  have hbefore : unreadBytes q = 8 + getRxSize q (behindWord q rx) := by
    unfold unreadBytes
    rw [hrx]
    dsimp only
    rw [hvalid, havail]
    rfl
  rcases isrCommand_spec (a := a) h hrx hgoes with ⟨hstuck, -⟩ | ⟨-, q', b, hrun, hsize, hrx'⟩
  · exact absurd hstuck (hfits.not_stuck hv)
  · refine ⟨q', b, hrun, ?_⟩
    have hread := hfits.bytesRead_le hv
    rw [hbefore]
    unfold unreadBytes
    rw [hrx']
    dsimp only
    by_cases hrefused : Refused q (firstWord q rx) (behindWord q rx)
    · rw [if_pos hrefused, if_pos rfl]
      omega
    · have hafter : getRxSize q' = getRxSize q := by
        funext ind
        unfold getRxSize
        rw [hsize]
      rw [if_neg hrefused, if_neg Bool.false_ne_true, hafter, h.getRxSize_advance (by omega)]
      omega

/-- **The handler is robust exactly on the FIFOs each command of which fits**, of those that it
comes to. -/
theorem robust_iff_allFit (answers : Nat → Answers) (h : Idle p) :
    Robust answers p ↔ AllFit answers p := by
  have hword : ∀ {n q}, isrTurns answers p n = some q → AtWord q := by
    intro n q hq
    refine turns_invariant h.atWord (fun {n t u} _ ht hgoes hturn => ?_) hq
    obtain ⟨r, hrun, hu⟩ := map_eq_some_iff.mp hturn
    rw [← hu]
    exact ht.turn hgoes hrun
  constructor
  · intro hrobust n q rx hq hgoes hrx
    exact (hrobust.turns n q rx hq hgoes hrx).fits (hword hq rx hrx) hrx hgoes
  · intro hfit
    refine ⟨turns_end (I := AtWord) unreadBytes h.atWord fun n q hq hat hgoes => ?_,
      fun n q rx hq hgoes hrx => (hfit n q rx hq hgoes hrx).turnFine (hword hq rx hrx) hrx hgoes⟩
    cases hrx : q.rx with
    | none => exact absurd (fun rx hsome => by rw [hrx] at hsome; cases hsome) hgoes
    | some rx =>
      obtain ⟨q', b, hrun, hless⟩ :=
        (hfit n q rx hq hgoes hrx).unreadBytes_lt (hat rx hrx) hrx hgoes
      exact ⟨q', by rw [hrun]; rfl, hat.turn hgoes hrun, hless⟩

end

/-! ## Fragments for intents that are not known -/

/-- A FIFO with so many bytes to read from its start. -/
def received (fifo : Nat → UInt8) (fifoSize writeInd : Nat) : Path where
  fifo := fifo
  fifoSize := fifoSize
  mtuSize := 0
  desc := ⟨0, writeInd⟩
  localWriteInd := 0
  txList := []
  resumePending := false
  localReadInd := 0
  rx := none
  event := true
  accepted := []
  unread := []
  delivered := []

/-- The core knows no intent. -/
def noIntents : Nat → Answers := fun _ => ⟨0, none⟩

/-- The first word of a TX_DATA in each place of 32 bytes, of which the first eight are to be read.
-/
def onlyWords : Path := received (fun i => [9, 0, 1, 0, 1, 0, 0, 0].getD (i % 8) 0) 32 8

/-- A TX_DATA of a packet of eight bytes. -/
def onePacket : Path := received
  (fun i => [9, 0, 1, 0, 1, 0, 0, 0, 8, 0, 0, 0, 0, 0, 0, 0, 1, 2, 3, 4, 5, 6, 7, 8].getD i 0) 64 24

/-- The core knows of every channel an intent of 64 bytes that nothing has been received for. -/
def knownIntents : Nat → Answers := fun _ => ⟨0, some ⟨⟨64, 0, 0⟩, Nat.le_refl 0, Nat.zero_le 64⟩⟩

/-- The offer of an intent and, behind it, a TX_DATA of a packet of eight bytes. -/
def twoCommands : Path := received
  (fun i => [5, 0, 1, 0, 1, 0, 0, 0, 64, 0, 0, 0, 2, 0, 0, 0,
    9, 0, 1, 0, 1, 0, 0, 0, 8, 0, 0, 0, 0, 0, 0, 0, 1, 2, 3, 4, 5, 6, 7, 8].getD i 0) 64 40

/-- The packet is all there and has room, so the loop goes over both commands and ends. -/
theorem robust_iff_allFit_onePacket : Robust knownIntents twoCommands := by
  have hends : ∀ n, ∃ q, isrTurns knownIntents twoCommands (n + 2) = some q ∧ Ended q := by
    intro n
    induction n with
    | zero => exact ⟨_, rfl, by decide⟩
    | succ n ih =>
      obtain ⟨q, hq, hend⟩ := ih
      exact ⟨q, (turns_succ hq).trans (if_pos hend), hend⟩
  refine (robust_iff_allFit knownIntents ⟨rfl, rfl, by decide, rfl⟩).mpr
    fun n q rx hq hgoes hrx => ?_
  match n, hq with
  | 0, rfl =>
    cases hrx
    unfold Fits
    exact show 8 ≤ 32 by decide
  | 1, rfl =>
    cases hrx
    unfold Fits
    exact show 16 ≤ 16 ∧ 8 + 0 < 2 ^ 32 ∧ 8 + 0 ≤ 64 by decide
  | n + 2, hq =>
    obtain ⟨q', hq', hend⟩ := hends n
    cases hq'.symm.trans hq
    exact absurd hend hgoes

/-- `onlyWords`, with the handler at this place. -/
def onlyWordsAt (readInd : Nat) : Path :=
  { onlyWords with event := false, rx := some ⟨⟨readInd, 8⟩, false⟩ }

theorem onlyWords_first : isrCommand (onlyWordsAt 0) 0 none = some (onlyWordsAt 16, false) := rfl

theorem onlyWords_second : isrCommand (onlyWordsAt 16) 0 none = some (onlyWordsAt 0, false) := rfl

theorem onlyWordsAt_goes {readInd : Nat} (h : readInd ≠ 8) : ¬ Ended (onlyWordsAt readInd) := by
  intro hend
  rcases hend _ rfl with hmeet | hinvalid
  · exact h hmeet.symm
  · cases hinvalid

/-- The read index goes to and fro around the write index. -/
theorem onlyWords_turns (n : Nat) :
    isrTurns noIntents onlyWords n = some (onlyWordsAt 0) ∨
    isrTurns noIntents onlyWords n = some (onlyWordsAt 16) := by
  induction n with
  | zero => exact .inl rfl
  | succ n ih =>
    rcases ih with ih | ih
    · refine .inr ((turns_succ ih).trans ?_)
      rw [if_neg (onlyWordsAt_goes (by decide))]
      exact congrArg (Option.map Prod.fst) onlyWords_first
    · refine .inl ((turns_succ ih).trans ?_)
      rw [if_neg (onlyWordsAt_goes (by decide))]
      exact congrArg (Option.map Prod.fst) onlyWords_second

/-- The loop does not end on the one, and stands in the middle of the other's packet. -/
theorem robust_not_always : (Idle onlyWords ∧ ¬ Robust noIntents onlyWords) ∧
    (Idle onePacket ∧ ¬ Robust noIntents onePacket) := by
  refine ⟨⟨⟨rfl, rfl, by decide, rfl⟩, fun hrobust => ?_⟩,
    ⟨⟨rfl, rfl, by decide, rfl⟩, fun hrobust => ?_⟩⟩
  · obtain ⟨n, q, hq, hend⟩ := hrobust.ends
    rcases onlyWords_turns n with hturns | hturns <;> rw [hturns, Option.some.injEq] at hq
    · exact onlyWordsAt_goes (by decide) (hq ▸ hend)
    · exact onlyWordsAt_goes (by decide) (hq ▸ hend)
  · have hgoes : ¬ Ended (isrEnter onePacket) := by decide
    have hfine := hrobust.turns 0 _ ⟨⟨0, 24⟩, false⟩ rfl hgoes rfl
    obtain ⟨q', b, hrun⟩ := hfine.returns
    have hread := (hfine.exact ⟨by decide, by decide⟩ q' b hrun).1
    exact absurd hread (by decide)

end GLink.Smem
