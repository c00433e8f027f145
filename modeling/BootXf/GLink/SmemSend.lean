import BootXf.GLink.SmemTransport
import BootXf.Lib.Framing

/-!
# What the sender leaves in the FIFO

Seen from the sender, a path continues a stream of bytes (`Writing`). There is space for so many
bytes as the ring has cells without those that are still to be read, and the two functions that
write leave eight of them (`Writing.write64`, `Writing.writeAlgn64`). What is written for an item
is its frame.
-/

namespace GLink.Smem

open Lib List Option

/-- The sender's view of a path: `stream` is all that has been written, and `r` is the place that
the shared read index says. -/
structure Writing (p : Path) (stream : List UInt8) (r : Nat) : Prop where
  holds : Ring.Holds p.fifoSize p.fifo stream r
  size_mod : p.fifoSize % 8 = 0
  size_lt : p.fifoSize < 2 ^ 32
  read_le : r ≤ stream.length
  room : stream.length + 8 ≤ r + p.fifoSize
  read_mod : r % 8 = 0
  length_mod : stream.length % 8 = 0
  read : p.desc.readInd = r % p.fifoSize
  write : p.localWriteInd = stream.length % p.fifoSize

namespace Writing
variable {p : Path} {stream : List UInt8} {r : Nat}

/-- The space in the FIFO. -/
def avail (p : Path) (stream : List UInt8) (r : Nat) : Nat := p.fifoSize - (stream.length - r)

theorem avail_mod (h : Writing p stream r) : avail p stream r % 8 = 0 := by
  have h₁ := h.size_mod
  have h₂ := h.read_le
  have h₃ := h.room
  have h₄ := h.read_mod
  have h₅ := h.length_mod
  unfold avail
  omega

theorem le_avail (h : Writing p stream r) : 8 ≤ avail p stream r := by
  have h₂ := h.read_le
  have h₃ := h.room
  unfold avail
  omega

theorem avail_le (p : Path) (stream : List UInt8) (r : Nat) : avail p stream r ≤ p.fifoSize :=
  Nat.sub_le ..

theorem size_pos (h : Writing p stream r) : 0 < p.fifoSize :=
  Nat.lt_of_lt_of_le (by decide) (Nat.le_trans h.le_avail (avail_le ..))

theorem read_lt (h : Writing p stream r) : p.desc.readInd < p.fifoSize :=
  h.read ▸ Nat.mod_lt _ h.size_pos

theorem write_lt (h : Writing p stream r) : p.localWriteInd < p.fifoSize :=
  h.write ▸ Nat.mod_lt _ h.size_pos

theorem write_mod (h : Writing p stream r) : p.localWriteInd % 8 = 0 := by
  rw [h.write, Nat.mod_mod_of_dvd _ (Nat.dvd_of_mod_eq_zero h.size_mod)]
  exact h.length_mod

theorem check (h : Writing p stream r) :
    glinkOsFifoIndexCheck p.fifoSize p.desc.readInd 0 = true := by
  simp [glinkOsFifoIndexCheck, h.read_lt]

/-- The space that the transport computes. -/
theorem avail_eq (h : Writing p stream r) :
    (if p.desc.readInd > p.localWriteInd then p.desc.readInd - p.localWriteInd
      else p.fifoSize - p.localWriteInd + p.desc.readInd) = avail p stream r := by
  have hr := h.read_lt
  have hroom := h.room
  have hle := h.read_le
  have hw : p.localWriteInd = (p.desc.readInd + (stream.length - r)) % p.fifoSize := by
    rw [h.read, Nat.mod_add_mod, Nat.add_sub_cancel' hle, h.write]
  unfold avail
  rcases Nat.lt_or_ge (p.desc.readInd + (stream.length - r)) p.fifoSize with hlt | hge
  · rw [Nat.mod_eq_of_lt hlt] at hw
    rw [if_neg (by omega)]
    omega
  · rw [Nat.mod_eq_sub_mod hge, Nat.mod_eq_of_lt (by omega)] at hw
    rw [if_pos (by omega)]
    omega

/-- The space that `xport_smem_write64` computes is the same. -/
theorem avail_eq' (h : Writing p stream r) :
    (if p.desc.readInd > p.localWriteInd then p.desc.readInd - p.localWriteInd
      else p.fifoSize - (p.localWriteInd - p.desc.readInd)) = avail p stream r := by
  rw [← h.avail_eq]
  have hw := h.write_lt
  split <;> omega

/-- The view when more has been written. -/
theorem extend (h : Writing p stream r) {fifo : Nat → UInt8} {w : Nat} {l : List UInt8}
    (hholds : Ring.Holds p.fifoSize fifo (stream ++ l) r) (hmod : l.length % 8 = 0)
    (hfits : l.length + 8 ≤ avail p stream r) (hw : w = (stream.length + l.length) % p.fifoSize) :
    Writing { p with fifo := fifo, localWriteInd := w } (stream ++ l) r where
  holds := hholds
  size_mod := h.size_mod
  size_lt := h.size_lt
  read_le := by
    have := h.read_le
    rw [length_append]
    omega
  room := by
    have := h.read_le
    unfold avail at hfits
    rw [length_append]
    dsimp only
    omega
  read_mod := h.read_mod
  length_mod := by
    have := h.length_mod
    rw [length_append]
    omega
  read := h.read
  write := by
    rw [length_append]
    exact hw

/-- An index behind a piece, brought back to the start of the FIFO when it is at the end. -/
theorem wrap_eq {w n size : Nat} (hw : w ≤ size) (hmod : w % size = n % size) :
    (if w ≥ size then 0 else w) = n % size := by
  split
  · have : w = size := by omega
    rw [← hmod, this, Nat.mod_self]
  · rw [← hmod, Nat.mod_eq_of_lt (by omega)]

/-- **Writing a word**, with `reserve` bytes more to be free. -/
theorem write64 (h : Writing p stream r) (reserve value : Nat) (hreserve : 16 + reserve < 2 ^ 32) :
    (avail p stream r < 16 + reserve ∧ Smem.write64 p reserve value = some (false, p)) ∨
    (16 + reserve ≤ avail p stream r ∧ ∃ fifo w,
      Smem.write64 p reserve value = some (true, { p with fifo := fifo, localWriteInd := w }) ∧
      Writing { p with fifo := fifo, localWriteInd := w } (stream ++ leBytes 8 value) r) := by
  unfold Smem.write64
  simp only [h.check, h.avail_eq', glinkOsAdd_of_lt hreserve, Bool.not_true, Bool.false_eq_true,
    if_false, bind_eq_bind, bind_some]
  rcases Nat.lt_or_ge (avail p stream r) (16 + reserve) with hless | hfits
  · exact .inl ⟨hless, if_pos hless⟩
  · refine .inr ⟨hfits, _, _, if_neg (Nat.not_lt.mpr hfits), ?_⟩
    have hlt := h.write_lt
    have hmod := h.write_mod
    have hsize := h.size_mod
    have hroom := h.read_le
    have hend : p.localWriteInd + 8 ≤ p.fifoSize := by omega
    refine h.extend (h.holds.put h.write (by simpa using hend) ?_) (by simp) (by simp; omega) ?_
    · unfold avail at hfits
      simp
      omega
    · refine wrap_eq hend ?_
      rw [h.write, Nat.mod_add_mod, length_leBytes]

/-- The copying of data, which leaves what is in the cells between its end and the next multiple of
eight. -/
theorem copyAlgn64 (h : Writing p stream r) (data : List UInt8)
    (hfits : 8 + (data.length + 7) / 8 * 8 ≤ avail p stream r) :
    let c := Smem.copyAlgn64 p data ((data.length + 7) / 8 * 8)
    ∃ pad, (data ++ pad).length = (data.length + 7) / 8 * 8 ∧
      Ring.Holds p.fifoSize c.1 (stream ++ (data ++ pad)) r ∧ c.2 ≤ p.fifoSize ∧
      c.2 % p.fifoSize = (stream.length + (data.length + 7) / 8 * 8) % p.fifoSize := by
  have hlt := h.write_lt
  have hmod := h.write_mod
  have hsize := h.size_mod
  have hread := h.read_le
  have havail := avail_le p stream r
  have hspace : stream.length + (data.length + 7) / 8 * 8 ≤ r + p.fifoSize := by
    unfold avail at hfits
    omega
  have hput := h.holds.putRound (l := data) h.write hlt (by omega) (by omega)
  -- the place behind the data, and the place behind the cells that are passed over
  obtain ⟨w, hw, hend, hcopy⟩ : ∃ w, w % p.fifoSize = (stream.length + data.length) % p.fifoSize ∧
      w + ((data.length + 7) / 8 * 8 - data.length) ≤ p.fifoSize ∧
      (w = p.fifoSize → data.length % 8 = 0) ∧
      Smem.copyAlgn64 p data ((data.length + 7) / 8 * 8) =
        (Ring.putRound p.fifoSize p.fifo p.localWriteInd data,
          w + ((data.length + 7) / 8 * 8 - data.length)) := by
    unfold Smem.copyAlgn64 Ring.putRound
    dsimp only
    split
    · next hrem =>
      refine ⟨data.length - (p.fifoSize - p.localWriteInd), ?_, by omega, by omega, ?_⟩
      · have hround : (stream.length + data.length) % p.fifoSize =
            stream.length % p.fifoSize + data.length - p.fifoSize :=
          Ring.Holds.add_mod_round (by rw [← h.write]; omega) (by rw [← h.write]; omega)
        rw [hround, ← h.write, Nat.mod_eq_of_lt (by omega)]
        omega
      · congr 1
        omega
    · next hrem =>
      refine ⟨p.localWriteInd + data.length, ?_, by omega, by omega, ?_⟩
      · rw [h.write, Nat.mod_add_mod]
      · congr 1
        omega
  obtain ⟨hfull, hcopy⟩ := hcopy
  rw [hcopy]
  dsimp only
  generalize Ring.putRound p.fifoSize p.fifo p.localWriteInd data = fifo at hput ⊢
  have htotal : data.length + ((data.length + 7) / 8 * 8 - data.length) =
      (data.length + 7) / 8 * 8 := by omega
  refine ⟨Ring.get fifo (w % p.fifoSize) ((data.length + 7) / 8 * 8 - data.length), by simp; omega,
    ?_, hend, ?_⟩
  · rw [← append_assoc]
    refine hput.skip ?_ ?_ ?_
    · rw [hw, length_append]
    · rcases Nat.eq_or_lt_of_le (Nat.le_trans (Nat.le_add_right w _) hend) with heq | hless
      · have := hfull heq
        have : (data.length + 7) / 8 * 8 - data.length = 0 := by omega
        rw [this]
        exact Nat.le_of_lt (Nat.mod_lt _ h.size_pos)
      · rw [Nat.mod_eq_of_lt hless]
        exact hend
    · rw [length_append]
      omega
  · rw [Nat.add_mod, hw, ← Nat.add_mod, Nat.add_assoc, htotal]

/-- **Writing data**, filled up to the next multiple of eight. -/
theorem writeAlgn64 (h : Writing p stream r) (data : List UInt8)
    (hlen : data.length ≤ 0xffffffe8) :
    (avail p stream r < 8 + (data.length + 7) / 8 * 8 ∧
      Smem.writeAlgn64 p data = some (false, p)) ∨
    (8 + (data.length + 7) / 8 * 8 ≤ avail p stream r ∧ ∃ fifo w pad,
      (data ++ pad).length = (data.length + 7) / 8 * 8 ∧
      Smem.writeAlgn64 p data = some (true, { p with fifo := fifo, localWriteInd := w }) ∧
      Writing { p with fifo := fifo, localWriteInd := w } (stream ++ (data ++ pad)) r) := by
  unfold Smem.writeAlgn64
  simp only [glinkOsRoundup64_of_le (Nat.le_trans hlen (by decide)), h.check, h.avail_eq,
    glinkOsAdd_of_lt (a := 8) (b := (data.length + 7) / 8 * 8) (by omega), Bool.not_true,
    Bool.false_eq_true, if_false, bind_eq_bind, bind_some]
  rcases Nat.lt_or_ge (avail p stream r) (8 + (data.length + 7) / 8 * 8) with hless | hfits
  · exact .inl ⟨hless, if_pos hless⟩
  · obtain ⟨pad, hpad, hholds, hle, hmod⟩ := h.copyAlgn64 data hfits
    refine .inr ⟨hfits, _, _, pad, hpad, if_neg (Nat.not_lt.mpr hfits), ?_⟩
    refine h.extend hholds (by omega) (by omega) ?_
    rw [hpad]
    exact wrap_eq hle hmod

/-- The view depends only on the FIFO, the shared read index and the local write index. -/
theorem of_eq {p' : Path} (h : Writing p stream r) (hfifo : p'.fifo = p.fifo)
    (hsize : p'.fifoSize = p.fifoSize) (hread : p'.desc.readInd = p.desc.readInd)
    (hwrite : p'.localWriteInd = p.localWriteInd) : Writing p' stream r := by
  constructor
  · rw [hsize, hfifo]
    exact h.holds
  · rw [hsize]
    exact h.size_mod
  · rw [hsize]
    exact h.size_lt
  · exact h.read_le
  · rw [hsize]
    exact h.room
  · exact h.read_mod
  · exact h.length_mod
  · rw [hread, hsize]
    exact h.read
  · rw [hwrite, hsize]
    exact h.write

end Writing

/-! ## Frames -/

/-- An item in the FIFO, without the bytes behind it. -/
def Item.body : Item → List UInt8
  | .command c => leBytes 8 c.raw64 ++ c.attachment.getD []
  | .fragment f => leBytes 8 f.txCmd ++ leBytes 8 f.dataDesc ++ f.data
  | .readReq arg0 arg => leBytes 8 (raw64 .readReq arg0 arg)

/-- An item in the FIFO. -/
def Frame (i : Item) (bytes : List UInt8) : Prop :=
  (∃ pad, bytes = i.body ++ pad) ∧ bytes.length = (i.body.length + 7) / 8 * 8

/-- A channel name is a string that the core has room for, in `GLINK_CH_NAME_LEN` characters. -/
def Command.Fits : Command → Prop
  | .chOpen _ name _ => (∀ b ∈ name, b ≠ 0) ∧ name.length < glinkChNameLen
  | _ => True

instance : (c : Command) → Decidable c.Fits
  | .chOpen _ name _ =>
    inferInstanceAs (Decidable ((∀ b ∈ name, b ≠ 0) ∧ name.length < glinkChNameLen))
  | .version .. | .versionAck .. | .chClose .. | .chRemoteOpenAck .. | .chRemoteCloseAck ..
  | .rxIntentReq .. | .remoteRxIntentReqAck .. | .localRxIntent .. | .localRxDone
    .. | .setSigs .. =>
    inferInstanceAs (Decidable True)

/-- What is left of a packet has a size of 32 bits, as that of an intent. -/
def Fragment.Fits (f : Fragment) : Prop := f.data.length + f.remaining.toNat < 2 ^ 32

/-- What the core sends. -/
def Item.Fits : Item → Prop
  | .command c => c.Fits
  | .fragment f => f.Fits
  | .readReq .. => True

/-- The frames of some items, one after the other. -/
abbrev Frames : List Item → List UInt8 → Prop :=
  Framed fun i bytes => Frame i bytes ∧ i.Fits

theorem Item.length_body (i : Item) : 8 ≤ i.body.length := by
  cases i <;> simp [Item.body]

theorem Frame.length_mod {i : Item} {bytes : List UInt8} (h : Frame i bytes) :
    8 ≤ bytes.length ∧ bytes.length % 8 = 0 := by
  have hlen := h.2
  have hbody := i.length_body
  omega

/-- The attachment is as long as the size that is sent for it, and short. -/
theorem Command.Fits.attachment {c : Command} (h : c.Fits) :
    c.attachmentSize = (c.attachment.getD []).length ∧ c.attachmentSize ≤ 32 := by
  cases c with
  | chOpen cid name prio =>
    have hlen := h.2
    unfold glinkChNameLen at hlen
    have hsize : (nameLen name).toNat = name.length + 1 := by
      simp only [nameLen, UInt16.toNat_add, UInt16.toNat_ofNat', UInt16.reduceToNat]
      omega
    simp only [attachmentSize, Command.attachment, hsize, getD_some, length_append,
      length_cons, length_nil, Nat.zero_add, true_and]
    exact hlen
  | localRxIntent cid size liid => simp [attachmentSize, Command.attachment]
  | _ => exact ⟨rfl, Nat.zero_le 32⟩

/-- The length of a command's frame. -/
def Command.space (c : Command) : Nat := 8 + (c.attachmentSize + 7) / 8 * 8

theorem Command.Fits.length_frame {c : Command} (h : c.Fits) {bytes : List UInt8}
    (hframe : Frame (.command c) bytes) : bytes.length = c.space := by
  have hlen := hframe.2
  simp only [Item.body, length_append, length_leBytes, ← h.attachment.1] at hlen
  unfold Command.space
  omega

/-! ## Writing items -/

/-- A path with an item more in its FIFO, not yet published. -/
structure Wrote (p : Path) (stream : List UInt8) (r : Nat) (i : Item) (p' : Path)
    (bytes : List UInt8) : Prop where
  path : ∃ fifo w, p' = { p with fifo := fifo, localWriteInd := w, unread := p.unread ++ [i] }
  frame : Frame i bytes
  writing : Writing p' (stream ++ bytes) r

namespace Writing
variable {p : Path} {stream : List UInt8} {r : Nat}

/-- A command and its attachment, which need sixteen bytes more than they take. -/
theorem writeCmd (h : Writing p stream r) {c : Command} (hc : c.Fits) :
    (avail p stream r < 16 + c.space ∧ Smem.writeCmd p c = some (false, p)) ∨
    (16 + c.space ≤ avail p stream r ∧ ∃ p' bytes, Smem.writeCmd p c = some (true, p') ∧
      Wrote p stream r (.command c) p' bytes) := by
  obtain ⟨hsize, hshort⟩ := hc.attachment
  unfold Smem.writeCmd Command.space
  simp only [glinkOsRoundup64_of_le (Nat.le_trans hshort (by decide)), bind_eq_bind,
    bind_some]
  rcases h.write64 ((c.attachmentSize + 7) / 8 * 8 + 8) c.raw64 (by omega) with
    ⟨hless, hno⟩ | ⟨hfits, fifo, w, hyes, hword⟩
  · refine .inl ⟨by omega, ?_⟩
    rw [hno]
    rfl
  refine .inr ⟨by omega, ?_⟩
  rw [hyes]
  simp only [bind_some, Bool.not_true, Bool.false_eq_true, if_false]
  cases hatt : c.attachment with
  | none =>
    refine ⟨_, leBytes 8 c.raw64, rfl, ⟨_, _, rfl⟩, ⟨⟨[], ?_⟩, ?_⟩, hword.of_eq rfl rfl rfl rfl⟩
    · simp [Item.body, hatt]
    · simp [Item.body, hatt]
  | some attachment =>
    rw [hatt, getD_some] at hsize
    dsimp only
    rw [hsize, List.take_length]
    rcases hword.writeAlgn64 attachment (by omega) with
      ⟨hless, -⟩ | ⟨-, fifo', w', pad, hpad, hyes', hdata⟩
    · -- the space for the attachment has been reserved
      have hread := h.read_le
      unfold avail at hfits hless
      rw [length_append, length_leBytes] at hless
      dsimp only at hless
      omega
    · rw [hyes']
      refine ⟨_, leBytes 8 c.raw64 ++ (attachment ++ pad), rfl, ⟨_, _, rfl⟩, ⟨⟨pad, ?_⟩, ?_⟩, ?_⟩
      · simp [Item.body, hatt]
      · rw [length_append, hpad]
        simp [Item.body, hatt]
        omega
      · rw [← append_assoc]
        exact hdata.of_eq rfl rfl rfl rfl

/-- A READ_REQ, which needs eight bytes more than it takes. -/
theorem writeReadReq (h : Writing p stream r) (arg0 : UInt16) (arg : UInt32) :
    (avail p stream r = 8 ∧ Smem.writeReadReq p arg0 arg = some (false, p)) ∨
    (16 ≤ avail p stream r ∧ ∃ p' bytes, Smem.writeReadReq p arg0 arg = some (true, p') ∧
      Wrote p stream r (.readReq arg0 arg) p' bytes) := by
  unfold Smem.writeReadReq
  rcases h.write64 0 (raw64 .readReq arg0 arg) (by decide) with
    ⟨hless, hno⟩ | ⟨hfits, fifo, w, hyes, hword⟩
  · have h₁ := h.avail_mod
    have h₂ := h.le_avail
    refine .inl ⟨by omega, ?_⟩
    rw [hno]
    rfl
  · refine .inr ⟨hfits, _, leBytes 8 (raw64 .readReq arg0 arg), ?_, ⟨_, _, rfl⟩, ⟨⟨[], ?_⟩, ?_⟩,
      hword.of_eq rfl rfl rfl rfl⟩
    · rw [hyes]
      rfl
    · simp [Item.body]
    · simp [Item.body]

end Writing

end GLink.Smem
