import BootXf.GLink.RpmTransport

/-!
# What sending leaves in the FIFO

A command that is sent continues the stream that the FIFO holds by its frame: its words, its data
filled up to whole words, and bytes that bring the length to a multiple of eight.
-/

namespace GLink.Rpm

open Lib List Option

/-- A list of bytes filled up to whole words with zeros. -/
def padded (bytes : List UInt8) : List UInt8 :=
  bytes ++ replicate ((4 - bytes.length % 4) % 4) 0

theorem length_padded (bytes : List UInt8) :
    (padded bytes).length = (bytes.length + 3) / 4 * 4 := by
  simp only [padded, length_append, length_replicate]
  omega

theorem padded_of_mod (bytes : List UInt8) (h : bytes.length % 4 = 0) : padded bytes = bytes := by
  simp [padded, h]

section
variable {size r w : Nat} {mem : Nat → UInt8} {stream : List UInt8}

/-- Whole words continue the stream. -/
theorem holds_copyWords (words : List UInt8) (h : Ring.Holds size mem stream r)
    (hw : w = stream.length % size) (hsize : 0 < size)
    (hroom : stream.length + words.length ≤ r + size) (hlen : words.length ≤ size) :
    Ring.Holds size (copyWords size mem w words).1 (stream ++ words) r ∧
    (copyWords size mem w words).2 = (stream.length + words.length) % size := by
  have hlt : stream.length % size < size := Nat.mod_lt _ hsize
  have hput := h.putRound (l := words) hw (hw ▸ hlt) hroom hlen
  unfold Ring.putRound at hput
  unfold copyWords
  dsimp only
  split
  · next hrem =>
    rw [if_pos hrem] at hput
    refine ⟨hput, ?_⟩
    rw [Ring.Holds.add_mod_round] <;> omega
  · next hrem =>
    rw [if_neg hrem] at hput
    refine ⟨hput, ?_⟩
    rw [Ring.Holds.add_mod (by omega), hw]

/-- A buffer continues the stream, filled up to whole words. -/
theorem holds_writeMsgram (buffer : List UInt8) (h : Ring.Holds size mem stream r)
    (hw : w = stream.length % size) (hsize : size % 4 = 0) (hpos : 0 < size)
    (haligned : stream.length % 4 = 0) (hroom : stream.length + (padded buffer).length ≤ r + size)
    (hlen : (padded buffer).length ≤ size) :
    Ring.Holds size (writeMsgram size mem w buffer).1 (stream ++ padded buffer) r ∧
    (writeMsgram size mem w buffer).2 = (stream.length + (padded buffer).length) % size := by
  rw [length_padded] at hroom hlen ⊢
  have htake : (buffer.take (buffer.length - buffer.length % 4)).length =
      buffer.length - buffer.length % 4 := by simp
  obtain ⟨hwords, hptr⟩ := holds_copyWords
    (buffer.take (buffer.length - buffer.length % 4)) h hw hpos (by omega) (by omega)
  rw [htake] at hptr
  unfold writeMsgram
  dsimp only
  generalize copyWords size mem w (buffer.take (buffer.length - buffer.length % 4)) = c
    at hwords hptr ⊢
  obtain ⟨mem', ptr⟩ := c
  dsimp only at hwords hptr ⊢
  have hlt : ptr < size := hptr ▸ Nat.mod_lt _ hpos
  split
  · next hrem =>
    -- the place of the last word is a multiple of four, so that it is before the end
    have hptr4 : ptr % 4 = 0 := by
      rw [hptr, Nat.mod_mod_of_dvd _ (Nat.dvd_of_mod_eq_zero hsize)]
      omega
    have hlast := hwords.put
      (l := buffer.drop (buffer.length - buffer.length % 4) ++
        replicate (4 - buffer.length % 4) 0)
      (i := ptr) (by rw [length_append, htake]; exact hptr) (by simp; omega) (by simp; omega)
    rw [append_assoc, ← append_assoc (List.take _ _), take_append_drop] at hlast
    have hpad : (4 - buffer.length % 4) % 4 = 4 - buffer.length % 4 := by omega
    refine ⟨by rw [padded, hpad]; exact hlast, ?_⟩
    have hmod : (stream.length + (buffer.length + 3) / 4 * 4) % size = (ptr + 4) % size := by
      rw [hptr, Nat.mod_add_mod]
      congr 1
      omega
    rw [hmod]
    split
    · next hge =>
      have : ptr + 4 = size := by omega
      rw [this, Nat.mod_self]
    · next hge => exact (Nat.mod_eq_of_lt (by omega)).symm
  · next hrem =>
    have hrem : buffer.length % 4 = 0 := Classical.not_not.mp hrem
    have hwhole : buffer.take (buffer.length - buffer.length % 4) = buffer := by
      rw [hrem, Nat.sub_zero, List.take_length]
    rw [hwhole] at hwords
    have hpad := padded_of_mod _ hrem
    refine ⟨by rw [hpad]; exact hwords, hptr.trans ?_⟩
    congr 1
    omega

end

/-! ## The unread part of a FIFO -/

namespace Fifo

/-- A FIFO as the transport finds it: the indices pass `glink_os_fifo_index_check`. -/
structure Wf (f : Fifo) : Prop where
  size_mod : f.size % 8 = 0
  size_lt : f.size < 2 ^ 32
  read_lt : f.readInd < f.size
  read_mod : f.readInd % 8 = 0
  write_lt : f.writeInd < f.size
  write_mod : f.writeInd % 8 = 0

/-- How many bytes have not been read. -/
def used (f : Fifo) : Nat :=
  if f.readInd ≤ f.writeInd then f.writeInd - f.readInd else f.writeInd + f.size - f.readInd

/-- The bytes that have not been read. -/
def unread (f : Fifo) : List UInt8 := Ring.window f.size f.mem f.readInd f.used

variable {f : Fifo}

@[simp] theorem length_unread : f.unread.length = f.used := Ring.length_window ..

theorem Wf.used_mod (h : f.Wf) : f.used % 8 = 0 := by
  obtain ⟨h₁, -, h₂, h₃, h₄, h₅⟩ := h
  unfold used
  split <;> omega

theorem Wf.used_lt (h : f.Wf) : f.used < f.size := by
  obtain ⟨h₁, -, h₂, h₃, h₄, h₅⟩ := h
  unfold used
  split <;> omega

/-- The write index is where the unread bytes end. -/
theorem Wf.write_eq (h : f.Wf) : f.writeInd = (f.readInd + f.used) % f.size := by
  obtain ⟨-, -, hr, -, hw, -⟩ := h
  unfold used
  split
  · rw [Nat.add_sub_cancel' (by omega), Nat.mod_eq_of_lt hw]
  · have : f.readInd + (f.writeInd + f.size - f.readInd) = f.writeInd + f.size := by omega
    rw [this, Nat.add_mod_right, Nat.mod_eq_of_lt hw]

/-- A write index that is as far behind the read index says how much has not been read. -/
theorem used_of_write (mem : Nat → UInt8) {size r n : Nat} (hr : r < size) (hn : n < size) :
    (⟨mem, size, r, (r + n) % size⟩ : Fifo).used = n := by
  unfold used
  dsimp only
  rcases Nat.lt_or_ge (r + n) size with hlt | hge
  · rw [Nat.mod_eq_of_lt hlt, if_pos (by omega)]
    omega
  · rw [Nat.mod_eq_sub_mod hge, Nat.mod_eq_of_lt (by omega), if_neg (by omega)]
    omega

/-- The stream that a FIFO holds, from its first cell on. -/
def stream (f : Fifo) : List UInt8 := Ring.get f.mem 0 f.readInd ++ f.unread

theorem holds_stream : Ring.Holds f.size f.mem f.stream f.readInd :=
  Ring.holds_window f.size f.mem (Ring.length_get ..)

@[simp] theorem length_stream : f.stream.length = f.readInd + f.used := by simp [stream]

end Fifo

/-! ## Frames -/

/-- A command in the FIFO, without the bytes behind it. -/
def Command.body (c : Command) : List UInt8 :=
  (c.cmd.flatMap fun w => leBytes 4 w.toNat) ++ padded (c.data.getD [])

/-- A command in the FIFO. -/
def Frame (c : Command) (bytes : List UInt8) : Prop :=
  (∃ rest, bytes = c.body ++ rest) ∧ bytes.length = (c.body.length + 7) / 8 * 8

/-- A channel name is a string, and the sizes are those of a `uint32`. -/
def Command.Fits : Command → Prop
  | .chOpen _ name => (∀ b ∈ name, b ≠ 0) ∧ name.length + 1 < 2 ^ 32
  | .tx _ data => data.length < 2 ^ 32
  | _ => True

theorem length_words (l : List UInt32) :
    (l.flatMap fun w => leBytes 4 w.toNat).length = 4 * l.length := by
  induction l with
  | nil => rfl
  | cons w l ih =>
    rw [flatMap_cons, length_append, ih, length_leBytes, length_cons]
    omega

theorem Command.Fits.dataSize {c : Command} (h : c.Fits) :
    c.dataSize = (c.data.getD []).length := by
  cases c with
  | chOpen lcid name =>
    have h := h.2
    simp only [Command.dataSize, Command.data, getD_some, length_append,
      length_cons, length_nil, UInt32.toNat_add, UInt32.toNat_ofNat']
    rw [Nat.mod_eq_of_lt (a := name.length) (by omega)]
    exact Nat.mod_eq_of_lt h
  | tx lcid data => exact Nat.mod_eq_of_lt h
  | _ => rfl

theorem Command.length_cmd_pos (c : Command) : 0 < c.cmd.length := by
  cases c <;> exact Nat.succ_pos _

theorem Command.length_body (c : Command) :
    c.body.length = 4 * c.cmd.length + ((c.data.getD []).length + 3) / 4 * 4 := by
  rw [body, length_append, length_words, length_padded]

/-- The space that the transport computes is what is not in use. -/
theorem Fifo.Wf.avail {f : Fifo} (hf : f.Wf) :
    (if f.writeInd < f.readInd then f.readInd - f.writeInd
      else f.size - f.writeInd + f.readInd) = f.size - f.used := by
  obtain ⟨-, -, hr, -, hw, -⟩ := hf
  unfold Fifo.used
  split <;> split <;> omega

theorem Fifo.Wf.check {f : Fifo} (hf : f.Wf) :
    glinkOsFifoIndexCheck f.size f.writeInd 8 = true ∧
    glinkOsFifoIndexCheck f.size f.readInd 8 = true :=
  ⟨(glinkOsFifoIndexCheck_iff (by decide)).mpr ⟨hf.write_lt, hf.write_mod⟩,
    (glinkOsFifoIndexCheck_iff (by decide)).mpr ⟨hf.read_lt, hf.read_mod⟩⟩

/-- The data is as long as the size that is sent for it. -/
theorem Command.Fits.take {c : Command} (h : c.Fits) {data : List UInt8} (hd : c.data = some data) :
    data.take c.dataSize = data := by
  rw [h.dataSize, hd, getD_some, List.take_length]

/-- What writing a command leaves, when there is room for it and eight bytes more: the write index
that the alignment bytes lead to, and the stream with a frame of the command at its end. -/
theorem holds_frame {f : Fifo} (hf : f.Wf) {c : Command} (hc : c.Fits) {reserve : Nat}
    (hreserve : reserve = (c.body.length + 7) / 8 * 8) (hroom : f.used + reserve + 8 ≤ f.size)
    {mem : Nat → UInt8} {w : Nat} (hwrite : writeCmd f c.cmd c.data c.dataSize = (mem, w)) :
    w + (reserve - c.body.length) ≤ f.size ∧
    (w + (reserve - c.body.length)) % f.size = (f.readInd + (f.used + reserve)) % f.size ∧
    ∃ bytes, Frame c bytes ∧ Ring.Holds f.size mem (f.stream ++ bytes) f.readInd := by
  obtain ⟨hsize, -, hr, hrmod, -, -⟩ := id hf
  have hused := hf.used_mod
  have hbody := c.length_body
  have hlen := length_words c.cmd
  have hwords := padded_of_mod (c.cmd.flatMap fun w => leBytes 4 w.toNat) (by omega)
  have hend : f.writeInd = f.stream.length % f.size := by
    rw [Fifo.length_stream]
    exact hf.write_eq
  obtain ⟨hhold₁, hw₁⟩ := holds_writeMsgram (c.cmd.flatMap fun w => leBytes 4 w.toNat)
    f.holds_stream hend (by omega) (by omega) (by rw [Fifo.length_stream]; omega)
    (by rw [hwords, Fifo.length_stream]; omega) (by rw [hwords]; omega)
  rw [hwords] at hhold₁ hw₁
  have hdata : Ring.Holds f.size mem (f.stream ++ c.body) f.readInd ∧
      w = (f.stream.length + c.body.length) % f.size := by
    unfold writeCmd at hwrite
    cases hd : c.data with
    | none =>
      rw [hd] at hwrite
      obtain ⟨rfl, rfl⟩ := Prod.mk.inj hwrite
      have hb : c.body = c.cmd.flatMap fun w => leBytes 4 w.toNat := by
        simp [Command.body, hd, padded]
      rw [hb]
      exact ⟨hhold₁, hw₁⟩
    | some data =>
      rw [hd, getD_some] at hbody
      rw [hd] at hwrite
      dsimp only at hwrite
      rw [hc.take hd] at hwrite
      have hpad := length_padded data
      obtain ⟨hhold₂, hw₂⟩ := holds_writeMsgram data hhold₁
        (hw₁.trans (by rw [length_append])) (by omega) (by omega)
        (by rw [length_append, Fifo.length_stream]; omega)
        (by rw [length_append, Fifo.length_stream, length_padded]; omega)
        (by rw [length_padded]; omega)
      rw [hwrite] at hhold₂ hw₂
      have hb : c.body = (c.cmd.flatMap fun w => leBytes 4 w.toNat) ++ padded data := by
        simp [Command.body, hd]
      rw [hb, ← append_assoc]
      refine ⟨hhold₂, hw₂.trans ?_⟩
      rw [length_append, length_append, Nat.add_assoc]
  obtain ⟨hhold, hw⟩ := hdata
  have hlt : w < f.size := hw ▸ Nat.mod_lt _ (by omega)
  have hw4 : w % 4 = 0 := by
    rw [hw, Nat.mod_mod_of_dvd _ (Nat.dvd_of_mod_eq_zero (by omega : f.size % 4 = 0)),
      Fifo.length_stream]
    omega
  have hskip : w + (reserve - c.body.length) ≤ f.size := by omega
  refine ⟨hskip, ?_, c.body ++ Ring.get mem w (reserve - c.body.length), ?_, ?_⟩
  · rw [hw, Nat.mod_add_mod, Fifo.length_stream]
    congr 1
    omega
  · refine ⟨⟨_, rfl⟩, ?_⟩
    rw [length_append, Ring.length_get, ← hreserve]
    omega
  · rw [← append_assoc]
    refine hhold.skip ?_ hskip ?_
    · rw [length_append]
      exact hw
    · rw [length_append, Fifo.length_stream]
      omega

/-- A command that no FIFO has room for. -/
def Command.TooLong (c : Command) : Prop := 2 ^ 32 < c.body.length + 16

/-- The sums that ERR_FATAL guards: they do not fit, or they are the size of the command and that of
its frame. -/
theorem Command.Fits.sums {c : Command} (hc : c.Fits) :
    ((∀ total, glinkOsAdd (4 * c.cmd.length) c.dataSize = some total →
      glinkOsRoundup64 total = none) ∧ c.TooLong) ∨
    ∃ total reserve, glinkOsAdd (4 * c.cmd.length) c.dataSize = some total ∧
      glinkOsRoundup64 total = some reserve ∧ reserve = (c.body.length + 7) / 8 * 8 ∧
      (reserve - total) / 4 * 4 = reserve - c.body.length := by
  have hbody := c.length_body
  have hpos := c.length_cmd_pos
  rw [← hc.dataSize] at hbody
  generalize htotal : 4 * c.cmd.length + c.dataSize = total at hbody
  unfold Command.TooLong
  rcases Nat.lt_or_ge total (2 ^ 32) with hsum | hsum
  case inr =>
    rw [glinkOsAdd, if_pos (by unfold uintMax; omega)]
    exact .inl ⟨nofun, by omega⟩
  rw [glinkOsAdd_of_lt (htotal ▸ hsum), htotal]
  rcases Nat.lt_or_ge total 0xfffffff9 with hfits | hfatal
  · exact .inr ⟨total, _, rfl, glinkOsRoundup64_of_le (by omega), by omega, by omega⟩
  · refine .inl ⟨?_, by omega⟩
    rintro _ ⟨⟩
    exact if_pos (by unfold uintMax; omega)

section
variable {c : Command} (f : Fifo) (hc : c.Fits)
include hc

/-- Sending in reset changes nothing, which is reported as success. -/
theorem send_reset : (c.send true f = none ∧ c.TooLong) ∨ c.send true f = some (f, .success) := by
  unfold Command.send sendCmd
  rcases hc.sums with ⟨hnone, hlong⟩ | ⟨total, reserve, htotal, hreserve, -, -⟩
  · refine .inl ⟨bind_eq_none_iff.mpr fun total htotal => ?_, hlong⟩
    rw [hnone total htotal, bind_eq_bind, bind_none]
  · right
    simp only [htotal, hreserve, bind_eq_bind, bind_some, if_true]

/-- Indices that do not pass the check. -/
theorem send_of_check (hcheck : (!glinkOsFifoIndexCheck f.size f.writeInd 8 ||
      !glinkOsFifoIndexCheck f.size f.readInd 8) = true) :
    (c.send false f = none ∧ c.TooLong) ∨ c.send false f = some (f, .failure) := by
  unfold Command.send sendCmd
  rcases hc.sums with ⟨hnone, hlong⟩ | ⟨total, reserve, htotal, hreserve, -, -⟩
  · refine .inl ⟨bind_eq_none_iff.mpr fun total htotal => ?_, hlong⟩
    rw [hnone total htotal, bind_eq_bind, bind_none]
  · right
    simp only [htotal, hreserve, bind_eq_bind, bind_some, Bool.false_eq_true, if_false,
      hcheck, if_true]

/-- **Sending a command** into a FIFO with indices that pass the check. -/
theorem send_of_wf {f : Fifo} (hf : f.Wf) :
    (c.send false f = none ∧ c.TooLong) ∨
    (∃ status, status ≠ .success ∧ c.send false f = some (f, status)) ∨
    ∃ f', c.send false f = some (f', .success) ∧ f'.Wf ∧ f'.size = f.size ∧
      f'.readInd = f.readInd ∧ ∃ bytes, Frame c bytes ∧ f'.unread = f.unread ++ bytes := by
  obtain ⟨hcw, hcr⟩ := hf.check
  have hlt := hf.size_lt
  have hmod := hf.size_mod
  unfold Command.send sendCmd
  simp only [hcw, hcr, hf.avail, bind_eq_bind, Bool.false_eq_true, Bool.not_true,
    Bool.or_self, if_false]
  rcases hc.sums with ⟨hnone, hlong⟩ | ⟨total, reserve, htotal, hround, hreserve, halign⟩
  · refine .inl ⟨bind_eq_none_iff.mpr fun total htotal => ?_, hlong⟩
    rw [hnone total htotal, bind_none]
  rw [htotal, bind_some, hround, bind_some]
  rcases Nat.lt_or_ge (reserve + 8) (2 ^ 32) with hneeded | hneeded
  case inr =>
    refine .inl ⟨?_, by unfold Command.TooLong; omega⟩
    rw [glinkOsAdd, if_pos (by unfold uintMax; omega), bind_none]
  rw [glinkOsAdd_of_lt hneeded, bind_some]
  right
  split
  · exact .inl ⟨_, by decide, rfl⟩
  · next hroom =>
    right
    obtain ⟨hle, hw, bytes, hframe, hhold⟩ := holds_frame hf hc hreserve
      (by have := hf.used_lt; omega) (Prod.eta (writeCmd f c.cmd c.data c.dataSize)).symm
    rw [halign]
    generalize (writeCmd f c.cmd c.data c.dataSize).2 + (reserve - c.body.length) = w at hle hw ⊢
    have hused : f.used + reserve < f.size := by have := hf.used_lt; omega
    have hwrap : (if w ≥ f.size then w - f.size else w) =
        (f.readInd + (f.used + reserve)) % f.size := by
      rw [← hw]
      split
      · have : w = f.size := by omega
        rw [this, Nat.mod_self, Nat.sub_self]
      · exact (Nat.mod_eq_of_lt (by omega)).symm
    rw [hwrap]
    have hused' := Fifo.used_of_write (writeCmd f c.cmd c.data c.dataSize).1 hf.read_lt hused
    refine ⟨_, rfl, ⟨hmod, hlt, hf.read_lt, hf.read_mod, Nat.mod_lt _ (by omega), ?_⟩, rfl, rfl,
      bytes, hframe, ?_⟩
    · have h8 := hf.read_mod
      have hu8 := hf.used_mod
      rw [Nat.mod_mod_of_dvd _ (Nat.dvd_of_mod_eq_zero hmod)]
      omega
    · unfold Fifo.unread
      rw [hused']
      have hbytes := hframe.2
      have := hhold.window (i := f.readInd) rfl
      rw [length_append, Fifo.length_stream, hbytes, ← hreserve, Fifo.stream,
        append_assoc, drop_left' (Ring.length_get ..)] at this
      have hn : f.readInd + f.used + reserve - f.readInd = f.used + reserve := by omega
      rw [hn] at this
      exact this

/-- **Sending a command.** For any two indices, the command is rejected and nothing has changed, or
the unread bytes are the ones before with a frame of the command behind them, and the write index
has not come up to the read index. ERR_FATAL is for commands that no FIFO has room for. -/
theorem send_cases (hsize : f.size % 8 = 0) (hlt : f.size < 2 ^ 32) :
    (c.send false f = none ∧ c.TooLong) ∨
    (∃ status, status ≠ .success ∧ c.send false f = some (f, status)) ∨
    f.Wf ∧ ∃ f', c.send false f = some (f', .success) ∧ f'.Wf ∧ f'.size = f.size ∧
      f'.readInd = f.readInd ∧ ∃ bytes, Frame c bytes ∧ f'.unread = f.unread ++ bytes := by
  cases hcheck : !glinkOsFifoIndexCheck f.size f.writeInd 8 ||
      !glinkOsFifoIndexCheck f.size f.readInd 8 with
  | true =>
    rcases send_of_check f hc hcheck with hnone | hsome
    · exact .inl hnone
    · exact .inr (.inl ⟨_, by decide, hsome⟩)
  | false =>
    obtain ⟨hw, hr⟩ := Bool.or_eq_false_iff.mp hcheck
    rw [Bool.not_eq_false', glinkOsFifoIndexCheck_iff (by decide)] at hw hr
    have hf : f.Wf := ⟨hsize, hlt, hr.1, hr.2, hw.1, hw.2⟩
    rcases send_of_wf hc hf with hnone | hrejected | hwritten
    · exact .inl hnone
    · exact .inr (.inl hrejected)
    · exact .inr (.inr ⟨hf, hwritten⟩)

end

end GLink.Rpm
