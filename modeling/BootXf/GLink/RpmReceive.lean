import BootXf.GLink.RpmSend

/-!
# What the interrupt handler reads

One turn of the loop takes the frame of one command, wherever in the ring it lies, and hands the
command to the core (`isrTurn_frame`). As many turns as there are frames bring the read index to the
write index.
-/

namespace GLink.Rpm

open Lib List Option

/-- What a command is for the core of the other side: the ids and version numbers have 16 bits, and
a channel name has at most 31 characters. -/
def Command.received : Command → Delivery
  | .version v features => .version (v &&& 0xFFFF) features
  | .versionAck v features => .versionAck (v &&& 0xFFFF) features
  | .chOpen lcid name => .remoteOpen (lcid &&& 0xFFFF) (name.take (chNameLen - 1))
  | .chClose lcid => .remoteClose (lcid &&& 0xFFFF)
  | .chRemoteOpenAck rcid => .openAck (rcid &&& 0xFFFF)
  | .chRemoteCloseAck rcid => .closeAck (rcid &&& 0xFFFF)
  | .tx lcid data => .packet (lcid &&& 0xFFFF) data
  | .setSigs lcid sigs => .remoteSigs (lcid &&& 0xFFFF) sigs

/-! ## The first word -/

theorem mask_getLsbD : ∀ i : Fin 32, (0xFFFF#32).getLsbD i = decide (i.val < 16) := by decide

theorem CmdId.value_getLsbD (id : CmdId) :
    ∀ i : Fin 32, 16 ≤ i.val → id.value.toBitVec.getLsbD i = false := by
  cases id <;> decide

theorem firstWord_id (id : CmdId) (arg : UInt32) : firstWord id arg &&& 0xFFFF = id.value := by
  refine UInt32.toBitVec_inj.mp (BitVec.eq_of_getLsbD_eq fun i hi => ?_)
  have hmask := mask_getLsbD ⟨i, hi⟩
  have hval := CmdId.value_getLsbD id ⟨i, hi⟩
  rcases Nat.lt_or_ge i 16 with h | h
  · simp [firstWord, hmask, h]
  · simp [firstWord, hmask, hval h, Nat.not_lt.mpr h]

theorem firstWord_arg (id : CmdId) (arg : UInt32) :
    (firstWord id arg >>> 16) &&& 0xFFFF = arg &&& 0xFFFF := by
  refine UInt32.toBitVec_inj.mp (BitVec.eq_of_getLsbD_eq fun i hi => ?_)
  have hmask := mask_getLsbD ⟨i, hi⟩
  rcases Nat.lt_or_ge i 16 with h | h
  · have hin : 16 + i < 32 := by omega
    have hval : id.value.toBitVec[16 + i] = false :=
      CmdId.value_getLsbD id ⟨16 + i, hin⟩ (Nat.le_add_right 16 i)
    have hover : ¬ 16 + i < 16 := by omega
    simp [firstWord, hval, hin, hover, BitVec.getLsbD_eq_getElem hi]
  · simp [hmask, Nat.not_lt.mpr h]

/-- A word that was spelled is read back. -/
theorem ofNat_leValue (w : UInt32) : UInt32.ofNat (leValue (leBytes 4 w.toNat)) = w := by
  rw [leValue_leBytes_of_lt w.toNat_lt, UInt32.ofNat_toNat]

/-! ## Reading from the stream -/

/-- The words of a list, one after the other. -/
theorem take_drop_words {l : List UInt32} {j : Nat} (hj : j < l.length) (tail : List UInt8) :
    (((l.flatMap fun w => leBytes 4 w.toNat) ++ tail).drop (4 * j)).take 4 =
      leBytes 4 l[j].toNat := by
  induction l generalizing j with
  | nil => cases hj
  | cons w l ih =>
    rw [flatMap_cons, append_assoc]
    cases j with
    | zero => rw [Nat.mul_zero, drop_zero, take_left' (length_leBytes ..),
        getElem_cons_zero]
    | succ j =>
      rw [Nat.mul_succ, Nat.add_comm, ← drop_drop, drop_left' (length_leBytes ..),
        getElem_cons_succ]
      exact ih (by simpa using hj)

/-- The receiver at the frame of a command: `p` is its place in the stream, and the read index is
the cell of that place. -/
structure At (rx : Rx) (c : Command) (p : Nat) (bytes : List UInt8) : Prop where
  holds : ∃ (stream rest : List UInt8) (r : Nat), Ring.Holds rx.fifo.size rx.fifo.mem stream r ∧
    r ≤ p ∧ stream.drop p = bytes ++ rest
  frame : Frame c bytes
  fits : c.Fits
  size_mod : rx.fifo.size % 8 = 0
  size_le : rx.fifo.size ≤ 0x80000008
  place : p % 8 = 0
  room : bytes.length + 8 ≤ rx.fifo.size

namespace At
variable {rx : Rx} {c : Command} {p : Nat} {bytes : List UInt8}

theorem length_frame (h : At rx c p bytes) : bytes.length = (c.body.length + 7) / 8 * 8 := h.frame.2

/-- A piece of the frame, read where it is in the ring. -/
theorem get_eq (h : At rx c p bytes) {k n i : Nat} (hkn : k + n ≤ bytes.length)
    (hi : i = (p + k) % rx.fifo.size) (hend : i + n ≤ rx.fifo.size) :
    Ring.get rx.fifo.mem i n = (bytes.drop k).take n := by
  obtain ⟨stream, rest, r, hhold, hr, hdrop⟩ := h.holds
  have hlen : stream.length - p = bytes.length + rest.length := by
    rw [← length_drop, hdrop, length_append]
  rcases Nat.eq_zero_or_pos n with rfl | hn
  · rw [take_zero]
    rfl
  rw [hhold.get (p := p + k) (by omega) (by omega) hi hend, ← drop_drop, hdrop,
    drop_append_of_le_length (by omega), take_append_of_le_length (by simp; omega)]

/-- A word of the command. -/
theorem read_cmd (h : At rx c p bytes) {j i : Nat} (hj : j < c.cmd.length)
    (hi : i = (p + 4 * j) % rx.fifo.size) : msgramRead32 rx i = c.cmd[j] := by
  obtain ⟨rest, hbytes⟩ := h.frame.1
  have hsize := h.size_mod
  have hroom := h.room
  have hbody := c.length_body
  have hp := h.place
  have hlen := h.length_frame
  have hlt : i < rx.fifo.size := hi ▸ Nat.mod_lt _ (by omega)
  have hi4 : i % 4 = 0 := by
    rw [hi, Nat.mod_mod_of_dvd _ (Nat.dvd_of_mod_eq_zero (by omega : rx.fifo.size % 4 = 0))]
    omega
  unfold msgramRead32
  rw [h.get_eq (k := 4 * j) (by omega) hi (by omega), hbytes, Command.body, append_assoc,
    take_drop_words hj, ofNat_leValue]

/-- The data of the command. -/
theorem take_data (h : At rx c p bytes) {n : Nat} (hn : n ≤ (c.data.getD []).length) :
    (bytes.drop (4 * c.cmd.length)).take n = (c.data.getD []).take n := by
  obtain ⟨rest, hbytes⟩ := h.frame.1
  rw [hbytes, Command.body, append_assoc, drop_left' (length_words _), padded,
    append_assoc, take_append_of_le_length hn]

/-- A packet, read through its provider. -/
theorem readPacket_eq {lcid : UInt32} {data : List UInt8} (h : At rx (.tx lcid data) p bytes) :
    readPacket { rx with pktStartInd := (p + 16) % rx.fifo.size, pktSize := data.length }
      (data.length + 1) 0 = data := by
  have hbody := Command.length_body (.tx lcid data)
  have hlen := h.length_frame
  have hroom := h.room
  simp only [Command.cmd, Command.data, getD_some, length_cons, length_nil] at hbody
  have hlt : (p + 16) % rx.fifo.size < rx.fifo.size := Nat.mod_lt _ (by omega)
  have htake : ∀ n, n ≤ data.length → (bytes.drop 16).take n = data.take n :=
    fun n hn => h.take_data (c := .tx lcid data) hn
  generalize hstart : (p + 16) % rx.fifo.size = start at hlt
  -- the first buffer, up to the end of the packet or of the ring
  rcases Nat.eq_zero_or_pos data.length with hzero | hpos
  · rw [readPacket, pktProvider, if_pos (by simp [hzero])]
    exact (eq_nil_of_length_eq_zero hzero).symm
  rw [readPacket, pktProvider, if_neg (Nat.not_le.mpr hpos), if_neg (by simp; omega)]
  rcases Nat.lt_or_ge (rx.fifo.size - start) data.length with hwrap | hwhole
  · simp only [Nat.not_le.mpr hwrap, if_false, Nat.zero_add, Nat.sub_zero]
    obtain ⟨fuel, hfuel⟩ : ∃ fuel, data.length = fuel + 2 := ⟨data.length - 2, by omega⟩
    have hlast : (p + (16 + (rx.fifo.size - start))) % rx.fifo.size = 0 := by
      rw [← Nat.add_assoc, ← Nat.mod_add_mod, hstart, Nat.add_sub_cancel' (by omega), Nat.mod_self]
    have hrest : readPacket { rx with pktStartInd := start, pktSize := data.length } data.length
        (rx.fifo.size - start) = Ring.get rx.fifo.mem 0 (data.length - (rx.fifo.size - start)) := by
      rw [hfuel, readPacket, pktProvider, if_neg (by simp; omega), if_pos (by simp)]
      simp only [Nat.sub_self]
      rw [readPacket, pktProvider, if_pos (by simp; omega), append_nil]
    rw [hrest, h.get_eq (k := 16) (by omega) hstart.symm (by omega),
      h.get_eq (k := 16 + (rx.fifo.size - start)) (by omega) hlast.symm (by omega),
      ← drop_drop, ← take_add, Nat.add_sub_cancel' (by omega), htake _ (Nat.le_refl _),
      List.take_length]
  · simp only [hwhole, if_true, Nat.zero_add, Nat.sub_zero]
    obtain ⟨fuel, hfuel⟩ : ∃ fuel, data.length = fuel + 1 := ⟨data.length - 1, by omega⟩
    have hrest : readPacket { rx with pktStartInd := start, pktSize := data.length } data.length
        data.length = [] := by
      rw [hfuel, readPacket, pktProvider, if_pos (by simp)]
    rw [hrest, h.get_eq (k := 16) (by omega) hstart.symm (by omega), append_nil,
      htake _ (Nat.le_refl _), List.take_length]

/-- The wrap check brings an index to the cell of its place. -/
theorem checkIndexWrapAround_eq {i n size : Nat} (hi : i ≤ size)
    (hmod : i % size = n % size) : checkIndexWrapAround i size = n % size := by
  unfold checkIndexWrapAround
  split
  · have : i = size := by omega
    rw [← hmod, this, Nat.mod_self]
  · rw [← hmod, Nat.mod_eq_of_lt (by omega)]

/-- The copied characters, and the index behind them, which may be the size of the ring. -/
theorem copyName_eq (h : At rx c p bytes) {k i v : Nat} (hv : v % 4 = 0)
    (hk : v + 4 * k ≤ bytes.length) (hi : i ≤ rx.fifo.size)
    (hmod : i % rx.fifo.size = (p + v) % rx.fifo.size) :
    ∃ next, copyName rx.fifo.mem rx.fifo.size k i = ((bytes.drop v).take (4 * k), next) ∧
      next ≤ rx.fifo.size ∧ next % rx.fifo.size = (p + v + 4 * k) % rx.fifo.size := by
  have hsize := h.size_mod
  have hroom := h.room
  have hp := h.place
  induction k generalizing i v with
  | zero => exact ⟨i, rfl, hi, hmod⟩
  | succ k ih =>
    have hcell := checkIndexWrapAround_eq hi hmod
    have hlt : (p + v) % rx.fifo.size < rx.fifo.size := Nat.mod_lt _ (by omega)
    have hcell4 : (p + v) % rx.fifo.size % 4 = 0 := by
      rw [Nat.mod_mod_of_dvd _ (Nat.dvd_of_mod_eq_zero (by omega : rx.fifo.size % 4 = 0))]
      omega
    obtain ⟨next, hnext, hle, hend⟩ := ih (i := (p + v) % rx.fifo.size + 4) (v := v + 4) (by omega)
      (by omega) (by omega) (by rw [Nat.mod_add_mod, Nat.add_assoc])
    refine ⟨next, ?_, hle, hend.trans ?_⟩
    · rw [copyName, hcell]
      simp only [hnext]
      have hwords : 4 + 4 * k = 4 * (k + 1) := by omega
      rw [h.get_eq (k := v) (by omega) rfl (by omega), ← drop_drop, ← take_add, hwords]
    · congr 1
      omega

end At

/-- A string without its end, in front of one. -/
theorem cString_append {l t : List UInt8} (hl : ∀ b ∈ l, b ≠ 0) : cString (l ++ 0 :: t) = l := by
  unfold cString
  rw [takeWhile_append_of_pos (by simpa using hl)]
  simp

/-- The string that the handler makes of the characters it has copied. -/
theorem cString_name {name chars : List UInt8} {copied : Nat} (hname : ∀ b ∈ name, b ≠ 0)
    (hcopied : copied = min ((name.length + 1 + 7) / 8 * 8) chNameLen)
    (hlen : chars.length = copied)
    (hchars : ∀ n, n ≤ name.length + 1 → n ≤ copied → chars.take n = (name ++ [0]).take n) :
    cString ((chars ++ replicate (chNameLen - copied) 0).set (chNameLen - 1) 0) =
      name.take (chNameLen - 1) := by
  unfold chNameLen at hcopied ⊢
  rcases Nat.lt_or_ge name.length 32 with hshort | hlong
  · -- the end of the name has been copied
    have hend := hchars (name.length + 1) (Nat.le_refl _) (by omega)
    rw [take_of_length_le (l := name ++ [0]) (by simp)] at hend
    obtain ⟨rest, hrest⟩ : ∃ rest, chars = name ++ 0 :: rest :=
      ⟨chars.drop (name.length + 1), by
        conv => lhs; rw [← take_append_drop (name.length + 1) chars, hend]
        simp⟩
    rw [take_of_length_le (by omega), hrest, append_assoc, cons_append]
    rcases Nat.eq_or_lt_of_le (Nat.le_of_lt_succ hshort) with heq | hlt
    · rw [set_append_right _ _ (by omega), heq, Nat.sub_self, set_cons_zero,
        cString_append hname]
    · rw [set_append_right _ _ (by omega)]
      obtain ⟨k, hk⟩ : ∃ k, 31 - name.length = k + 1 := ⟨30 - name.length, by omega⟩
      rw [hk, set_cons_succ, cString_append hname]
  · have hall := hchars 31 (by omega) (by omega)
    have hc : copied = 32 := by omega
    rw [take_append_of_le_length (by omega)] at hall
    rw [hc, Nat.sub_self, replicate_zero, append_nil, set_eq_take_append_cons_drop,
      if_pos (by omega), hall, cString_append fun b hb => hname b (mem_of_mem_take hb)]

/-! ## One turn -/

/-- What the `switch` does with the frame of a command: it is handed to the core, and the index,
once it is rounded up, is at the end of the frame, perhaps one ring too far. -/
structure Taken (core : Delivery → Flags → Flags) (rx : Rx) (c : Command) (n : Nat) (rx' : Rx)
    (ind : Nat) : Prop where
  fifo : rx'.fifo = rx.fifo
  flags : rx'.flags = core c.received rx.flags
  delivered : rx'.delivered = rx.delivered ++ [c.received]
  ind_le : ind ≤ 0xfffffff8
  ind_lt : (ind + 7) / 8 * 8 < 2 * rx.fifo.size
  ind_mod : (ind + 7) / 8 * 8 % rx.fifo.size = n % rx.fifo.size

section
variable (core : Delivery → Flags → Flags) {rx : Rx} {c : Command} {p : Nat} {bytes : List UInt8}
  {lcid : UInt32}

/-- A command of one or two words. -/
theorem Taken.short (h : At rx c p bytes) (hdata : c.data = none) (hcmd : c.cmd.length ≤ 2) :
    Taken core rx c (p + bytes.length) (deliver core rx c.received) (p % rx.fifo.size + 4) := by
  have hbody := c.length_body
  rw [hdata, getD_none, length_nil] at hbody
  have hpos := c.length_cmd_pos
  have hlen := h.length_frame
  have hsize := h.size_mod
  have hle := h.size_le
  have hroom := h.room
  have hp := h.place
  have hlt : p % rx.fifo.size < rx.fifo.size := Nat.mod_lt _ (by omega)
  have hcell : p % rx.fifo.size % 8 = 0 := by
    rw [Nat.mod_mod_of_dvd _ (Nat.dvd_of_mod_eq_zero hsize)]
    exact hp
  have hend : (p % rx.fifo.size + 4 + 7) / 8 * 8 = p % rx.fifo.size + 8 := by omega
  have hbytes : bytes.length = 8 := by omega
  refine ⟨rfl, rfl, rfl, by omega, by omega, ?_⟩
  rw [hend, hbytes, Nat.mod_add_mod]

/-- A channel name. -/
theorem Taken.name {name : List UInt8} (h : At rx (.chOpen lcid name) p bytes) :
    ∃ cmdArg, glinkOsRoundup64 (name.length + 1) = some cmdArg ∧
      ¬ (cmdArg = 0 ∨ cmdArg ≥ rx.fifo.size) ∧
      let copied := min cmdArg chNameLen
      let r := copyName rx.fifo.mem rx.fifo.size (copied / 4) (p % rx.fifo.size + 4 + 4)
      cString ((r.1 ++ replicate (chNameLen - copied) 0).set (chNameLen - 1) 0) =
        name.take (chNameLen - 1) ∧
      Taken core rx (.chOpen lcid name) (p + bytes.length)
        (deliver core rx (Command.received (.chOpen lcid name)))
        ((r.2 + (cmdArg - copied)) % 2 ^ 32) := by
  obtain ⟨hname, -⟩ := h.fits
  have hbody := Command.length_body (.chOpen lcid name)
  have hlen := h.length_frame
  have hsize := h.size_mod
  have hle := h.size_le
  have hroom := h.room
  have hp := h.place
  simp only [Command.cmd, Command.data, getD_some, length_cons, length_nil,
    length_append] at hbody
  have hlt : p % rx.fifo.size < rx.fifo.size := Nat.mod_lt _ (by omega)
  have hcell : p % rx.fifo.size % 8 = 0 := by
    rw [Nat.mod_mod_of_dvd _ (Nat.dvd_of_mod_eq_zero hsize)]
    exact hp
  refine ⟨(name.length + 1 + 7) / 8 * 8, glinkOsRoundup64_of_le (by omega), by omega, ?_⟩
  generalize harg : (name.length + 1 + 7) / 8 * 8 = cmdArg
  have hbytes : bytes.length = 8 + cmdArg := by omega
  dsimp only
  generalize hcopied : min cmdArg chNameLen = copied
  have hmin : copied ≤ cmdArg ∧ copied % 8 = 0 ∧ (copied = cmdArg ∨ copied = 32) := by
    unfold chNameLen at hcopied
    omega
  have hwords : 4 * (copied / 4) = copied := by omega
  obtain ⟨next, hcopy, hnext, hmod⟩ := h.copyName_eq (k := copied / 4) (v := 8)
    (i := p % rx.fifo.size + 4 + 4) (by decide) (by omega) (by omega)
    (by rw [Nat.add_assoc, Nat.mod_add_mod])
  rw [hwords] at hmod hcopy
  rw [hcopy]
  refine ⟨?_, ?_⟩
  · refine cString_name hname (by rw [harg, hcopied]) ?_ fun n hn hnc => ?_
    · rw [length_take, length_drop]
      omega
    · rw [take_take, Nat.min_eq_left hnc]
      exact h.take_data (c := .chOpen lcid name) (by simpa [Command.data] using hn)
  · have hnext8 : next % 8 = 0 := by
      have := congrArg (· % 8) hmod
      simp only [Nat.mod_mod_of_dvd _ (Nat.dvd_of_mod_eq_zero hsize)] at this
      omega
    have hind : (next + (cmdArg - copied)) % 2 ^ 32 = next + (cmdArg - copied) :=
      Nat.mod_eq_of_lt (by omega)
    have hround : (next + (cmdArg - copied) + 7) / 8 * 8 = next + (cmdArg - copied) := by omega
    rw [hind]
    refine ⟨rfl, rfl, rfl, by omega, by omega, ?_⟩
    rw [hround, Nat.add_mod, hmod, ← Nat.add_mod]
    congr 1
    omega

/-- A packet. -/
theorem Taken.packet {data : List UInt8} (h : At rx (.tx lcid data) p bytes) :
    data.length < rx.fifo.size ∧
    let rx' := { rx with pktStartInd := (p + 16) % rx.fifo.size, pktSize := data.length }
    Taken core rx (.tx lcid data) (p + bytes.length)
      (deliver core rx' (.packet (lcid &&& 0xFFFF) (readPacket rx' (data.length + 1) 0)))
      (((p + 16) % rx.fifo.size + data.length) % 2 ^ 32) := by
  have hbody := Command.length_body (.tx lcid data)
  have hlen := h.length_frame
  have hsize := h.size_mod
  have hle := h.size_le
  have hroom := h.room
  have hp := h.place
  simp only [Command.cmd, Command.data, getD_some, length_cons, length_nil] at hbody
  have hlt : (p + 16) % rx.fifo.size < rx.fifo.size := Nat.mod_lt _ (by omega)
  have hcell : (p + 16) % rx.fifo.size % 8 = 0 := by
    rw [Nat.mod_mod_of_dvd _ (Nat.dvd_of_mod_eq_zero hsize)]
    omega
  refine ⟨by omega, ?_⟩
  dsimp only
  rw [h.readPacket_eq]
  have hind : ((p + 16) % rx.fifo.size + data.length) % 2 ^ 32 =
      (p + 16) % rx.fifo.size + data.length := Nat.mod_eq_of_lt (by omega)
  rw [hind]
  have hround : ((p + 16) % rx.fifo.size + data.length + 7) / 8 * 8 =
      (p + 16) % rx.fifo.size + (bytes.length - 16) := by omega
  refine ⟨rfl, rfl, rfl, by omega, by omega, ?_⟩
  rw [hround, Nat.mod_add_mod]
  congr 1
  omega

/-- The second word of a command that has one. -/
theorem At.read_second (h : At rx c p bytes) (hc : 1 < c.cmd.length) :
    msgramRead32 rx (p % rx.fifo.size + 4) = c.cmd[1] := by
  have hsize := h.size_mod
  have hroom := h.room
  have hp := h.place
  have hcell : p % rx.fifo.size % 8 = 0 := by
    rw [Nat.mod_mod_of_dvd _ (Nat.dvd_of_mod_eq_zero hsize)]
    exact hp
  have hlt : p % rx.fifo.size < rx.fifo.size := Nat.mod_lt _ (by omega)
  exact h.read_cmd hc (Ring.Holds.add_mod (v := p) (k := 4) (by omega)).symm

/-- The `switch`, at the frame of any command. Only behind a packet does it look whether the
interrupt is masked. -/
theorem processCmd_frame (h : At rx c p bytes) :
    ∃ rx' ind stop, processCmd core rx (msgramRead32 rx (p % rx.fifo.size)) (p % rx.fifo.size + 4) =
        some (rx', ind, stop) ∧
      (stop = true → rx'.flags.irqMask = true) ∧ Taken core rx c (p + bytes.length) rx' ind := by
  have hpos : 0 < c.cmd.length := c.length_cmd_pos
  have hfirst : msgramRead32 rx (p % rx.fifo.size) = c.cmd[0] :=
    h.read_cmd hpos (by rw [Nat.mul_zero, Nat.add_zero])
  rw [hfirst]
  cases c with
  | version v f | versionAck v f | setSigs lcid sigs =>
    have harg := h.read_second (Nat.lt_succ_self 1)
    refine ⟨_, _, false, ?_, nofun, Taken.short core h rfl (by simp [Command.cmd])⟩
    simp [processCmd, Command.cmd, firstWord_id, firstWord_arg, harg, Command.received,
      CmdId.value]
  | chClose lcid | chRemoteOpenAck rcid | chRemoteCloseAck rcid =>
    refine ⟨_, _, false, ?_, nofun, Taken.short core h rfl (by simp [Command.cmd])⟩
    simp [processCmd, Command.cmd, firstWord_id, firstWord_arg, Command.received, CmdId.value]
  | chOpen lcid name =>
    have harg := h.read_second (Nat.lt_succ_self 1)
    obtain ⟨cmdArg, hround, hok, hstring, htaken⟩ := Taken.name core h
    refine ⟨_, _, false, ?_, nofun, htaken⟩
    have hlength : (UInt32.ofNat name.length + 1).toNat = name.length + 1 := by
      have := h.fits.dataSize
      simpa [Command.dataSize, Command.data] using this
    simp only [Command.cmd, getElem_cons_succ, getElem_cons_zero] at harg
    simp only [processCmd, Command.cmd, getElem_cons_zero, firstWord_id, firstWord_arg, harg,
      hlength, hround, bind_eq_bind, bind_some, hok, hstring]
    simp [CmdId.value, Command.received]
  | tx lcid data =>
    obtain ⟨hlt, htaken⟩ := Taken.packet core h
    refine ⟨_, _, _, ?_, id, htaken⟩
    have hlength : (UInt32.ofNat data.length).toNat = data.length := h.fits.dataSize
    have hcell : ∀ n, n % 8 = 0 → n % rx.fifo.size + 8 ≤ rx.fifo.size := by
      intro n hn
      have hsize := h.size_mod
      have hroom := h.room
      have hlt : n % rx.fifo.size < rx.fifo.size := Nat.mod_lt _ (by omega)
      have hmod : n % rx.fifo.size % 8 = 0 := by
        rw [Nat.mod_mod_of_dvd _ (Nat.dvd_of_mod_eq_zero hsize)]
        exact hn
      omega
    have hp := h.place
    have hsecond := At.checkIndexWrapAround_eq (n := p + 8) (hcell p hp) (Nat.mod_add_mod ..)
    have hdata := At.checkIndexWrapAround_eq (n := p + 16) (hcell (p + 8) (by omega))
      (Nat.mod_add_mod ..)
    have harg : msgramRead32 rx ((p + 8) % rx.fifo.size) = .ofNat data.length :=
      h.read_cmd (j := 2) (Nat.lt_of_sub_eq_succ rfl) rfl
    simp only [processCmd, Command.cmd, getElem_cons_zero, firstWord_id, firstWord_arg,
      Nat.add_assoc, Nat.reduceAdd, Nat.reduceMul, hsecond, hdata, harg, hlength,
      Nat.not_le.mpr hlt, ge_iff_le, if_false]
    simp [CmdId.value]

/-- The index at the end of a frame, once it is brought back into the ring. -/
theorem sub_size_eq {e n size : Nat} (hlt : e < 2 * size) (hmod : e % size = n % size) :
    (if e ≥ size then e - size else e) = n % size := by
  rw [← hmod]
  split
  · next hge => rw [Nat.mod_eq_sub_mod hge, Nat.mod_eq_of_lt (by omega)]
  · next hlt' => exact (Nat.mod_eq_of_lt (Nat.lt_of_not_ge hlt')).symm

/-- What a turn at the frame of a command does: the command is handed to the core, and the read
index goes to the end of the frame, unless the core has reset the transport. -/
structure Turned (core : Delivery → Flags → Flags) (rx : Rx) (c : Command) (n : Nat) (rx' : Rx)
    (next : Nat) (stop : Bool) : Prop where
  flags : rx'.flags = core c.received rx.flags
  delivered : rx'.delivered = rx.delivered ++ [c.received]
  reset : rx'.flags.reset = true → stop = true
  moved : rx'.flags.reset = false → next = n % rx.fifo.size ∧
    rx'.fifo = { rx.fifo with readInd := n % rx.fifo.size } ∧
    (stop = true → rx'.flags.irqMask = true)

/-- **One turn.** -/
theorem isrTurn_frame (h : At rx c p bytes) :
    ∃ rx' next stop, isrTurn core rx (p % rx.fifo.size) = some (rx', next, stop) ∧
      Turned core rx c (p + bytes.length) rx' next stop := by
  obtain ⟨rx', ind, stop, hcmd, hstop, taken⟩ := processCmd_frame core h
  cases hreset : rx'.flags.reset with
  | true =>
    refine ⟨rx', ind, true, ?_, taken.flags, taken.delivered, fun _ => rfl, fun h => ?_⟩
    · simp only [isrTurn, hcmd, bind_eq_bind, bind_some, hreset, if_true]
    · exact absurd (hreset.symm.trans h) (by decide)
  | false =>
    have hend := sub_size_eq taken.ind_lt taken.ind_mod
    refine ⟨{ rx' with fifo := { rx'.fifo with readInd := (p + bytes.length) % rx.fifo.size } },
      _, stop, ?_, taken.flags, taken.delivered, fun h => absurd (hreset.symm.trans h) (by decide),
      fun _ => ⟨rfl, ?_, hstop⟩⟩
    · simp only [isrTurn, hcmd, bind_eq_bind, bind_some, hreset, Bool.false_eq_true,
        if_false, glinkOsRoundup64_of_le taken.ind_le, taken.fifo, hend]
    · rw [taken.fifo]

end

end GLink.Rpm
