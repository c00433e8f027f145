import BootXf.GLink.SmemPath

/-!
# What the receiver takes out of the FIFO

The reading functions answer the pieces of the stream at the receiver's place (`Reading`), each
command is read as it was written (`processCmd_command`, `processCmd_fragment`), and so one turn of
the handler's loop hands one item to the core (`At.isrCommand`).
-/

namespace GLink.Smem

open Lib List Option

/-! ## Words -/

theorem CmdId.value_lt (id : CmdId) : id.value.toNat < 2 ^ 16 := id.value.toNat_lt

theorem raw64_lt (id : CmdId) (cid : UInt16) (arg : UInt32) : raw64 id cid arg < 256 ^ 8 := by
  have h₁ := id.value_lt
  have h₂ := cid.toNat_lt
  have h₃ := arg.toNat_lt
  unfold raw64
  omega

@[simp] theorem cmdId_raw64 (id : CmdId) (cid : UInt16) (arg : UInt32) :
    cmdId (raw64 id cid arg) = id.value := by
  have h₁ := id.value_lt
  refine UInt16.toNat_inj.mp ?_
  rw [cmdId, UInt16.toNat_ofNat', raw64]
  omega

@[simp] theorem cmdCid_raw64 (id : CmdId) (cid : UInt16) (arg : UInt32) :
    cmdCid (raw64 id cid arg) = cid := by
  have h₁ := id.value_lt
  have h₂ := cid.toNat_lt
  refine UInt16.toNat_inj.mp ?_
  rw [cmdCid, UInt16.toNat_ofNat', raw64]
  omega

@[simp] theorem cmdArg_raw64 (id : CmdId) (cid : UInt16) (arg : UInt32) :
    cmdArg (raw64 id cid arg) = arg := by
  have h₁ := id.value_lt
  have h₂ := cid.toNat_lt
  have h₃ := arg.toNat_lt
  refine UInt32.toNat_inj.mp ?_
  rw [cmdArg, UInt32.toNat_ofNat', raw64]
  omega

@[simp] theorem chNameLen_chArg (len prio : UInt16) : chNameLen (chArg len prio) = len := by
  have h₁ := len.toNat_lt
  have h₂ := prio.toNat_lt
  refine UInt16.toNat_inj.mp ?_
  rw [chNameLen, UInt16.toNat_ofNat', chArg, UInt32.toNat_ofNat']
  omega

@[simp] theorem chPrio_chArg (len prio : UInt16) : chPrio (chArg len prio) = prio := by
  have h₁ := len.toNat_lt
  have h₂ := prio.toNat_lt
  refine UInt16.toNat_inj.mp ?_
  rw [chPrio, UInt16.toNat_ofNat', chArg, UInt32.toNat_ofNat']
  omega

theorem desc64_lt (lo hi : UInt32) : desc64 lo hi < 256 ^ 8 := by
  have h₁ := lo.toNat_lt
  have h₂ := hi.toNat_lt
  unfold desc64
  omega

@[simp] theorem descLo_desc64 (lo hi : UInt32) : descLo (desc64 lo hi) = lo := by
  have h₁ := lo.toNat_lt
  refine UInt32.toNat_inj.mp ?_
  rw [descLo, UInt32.toNat_ofNat', desc64]
  omega

@[simp] theorem descHi_desc64 (lo hi : UInt32) : descHi (desc64 lo hi) = hi := by
  have h₁ := lo.toNat_lt
  have h₂ := hi.toNat_lt
  refine UInt32.toNat_inj.mp ?_
  rw [descHi, UInt32.toNat_ofNat', desc64]
  omega

/-! ## Reading from the stream -/

/-- The handler at the place `v` of the stream, with `n` in front of it. -/
structure Reading (p : Path) (stream : List UInt8) (n v : Nat) : Prop where
  holds : Ring.Holds p.fifoSize p.fifo stream v
  size_mod : p.fifoSize % 8 = 0
  size_lt : p.fifoSize < 2 ^ 32
  place : v % 8 = 0
  le : v ≤ n
  within : n ≤ stream.length
  room : n < v + p.fifoSize

namespace Reading
variable {p : Path} {stream : List UInt8} {n v : Nat}

theorem lt (h : Reading p stream n v) : v % p.fifoSize < p.fifoSize := by
  have h₁ := h.le
  have h₂ := h.room
  exact Nat.mod_lt _ (by omega)

theorem cell_mod (h : Reading p stream n v) : v % p.fifoSize % 8 = 0 := by
  rw [Nat.mod_mod_of_dvd _ (Nat.dvd_of_mod_eq_zero h.size_mod)]
  exact h.place

/-- Going on. -/
theorem move (h : Reading p stream n v) {k : Nat} (hk : k % 8 = 0) (hle : v + k ≤ n) :
    Reading p stream n (v + k) where
  holds := h.holds.mono (Nat.le_add_right v k)
  size_mod := h.size_mod
  size_lt := h.size_lt
  place := by
    have := h.place
    omega
  le := hle
  within := h.within
  room := by
    have := h.room
    omega

/-- What is to be read is what lies between the two places. -/
theorem getRxSize_eq (h : Reading p stream n v) :
    getRxSize p ⟨v % p.fifoSize, n % p.fifoSize⟩ = n - v := by
  have hle := h.le
  have hroom := h.room
  have hlt := h.lt
  have hn : n % p.fifoSize = (v % p.fifoSize + (n - v)) % p.fifoSize := by
    rw [Nat.mod_add_mod, Nat.add_sub_cancel' hle]
  unfold getRxSize
  dsimp only
  rcases Nat.lt_or_ge (v % p.fifoSize + (n - v)) p.fifoSize with hless | hround
  · rw [Nat.mod_eq_of_lt hless] at hn
    rw [if_neg (by omega)]
    omega
  · have hend : v % p.fifoSize + (n - v) - p.fifoSize < p.fifoSize := by omega
    rw [Nat.mod_eq_sub_mod hround, Nat.mod_eq_of_lt hend] at hn
    rw [if_pos (by omega)]
    omega

/-- **Reading a word.** -/
theorem read64 (h : Reading p stream n v) (hle : v + 8 ≤ n) :
    Smem.read64 p ⟨v % p.fifoSize, n % p.fifoSize⟩ =
      (leValue ((stream.drop v).take 8), ⟨(v + 8) % p.fifoSize, n % p.fifoSize⟩) := by
  have hlt := h.lt
  have hcell := h.cell_mod
  have hsize := h.size_mod
  have hwithin := h.within
  unfold Smem.read64
  dsimp only
  rw [h.holds.get (Nat.le_refl v) (by omega) rfl (by omega),
    Writing.wrap_eq (by omega) (Nat.mod_add_mod ..)]

/-- **Reading data**, up to the next multiple of eight. -/
theorem readAlgn64 (h : Reading p stream n v) {len : Nat} (hle : v + (len + 7) / 8 * 8 ≤ n)
    (hlen : len ≤ 0xfffffff8) :
    Smem.readAlgn64 p ⟨v % p.fifoSize, n % p.fifoSize⟩ len =
      some ((stream.drop v).take len,
        ⟨(v + (len + 7) / 8 * 8) % p.fifoSize, n % p.fifoSize⟩) := by
  have hlt := h.lt
  have hcell := h.cell_mod
  have hsize := h.size_mod
  have hwithin := h.within
  have hroom := h.room
  have hget := h.holds.getRound (n := len) (Nat.le_refl v) (by omega) rfl hlt (by omega)
  unfold Ring.getRound at hget
  unfold Smem.readAlgn64
  rw [if_neg (by rw [h.getRxSize_eq]; omega)]
  simp only [glinkOsRoundup64_of_le hlen, bind_eq_bind, bind_some]
  split
  · next hrem =>
    rw [if_pos hrem] at hget
    have hend : (v + (len + 7) / 8 * 8) % p.fifoSize =
        v % p.fifoSize + (len + 7) / 8 * 8 - p.fifoSize :=
      Ring.Holds.add_mod_round (by omega) (by omega)
    have hless : v % p.fifoSize + (len + 7) / 8 * 8 - p.fifoSize < p.fifoSize := by omega
    have hind : (len + 7) / 8 * 8 - (p.fifoSize - v % p.fifoSize) =
        v % p.fifoSize + (len + 7) / 8 * 8 - p.fifoSize := by omega
    simp only [hget, hind, hend, ge_iff_le, Nat.not_le.mpr hless, if_false]
  · next hrem =>
    rw [if_neg hrem] at hget
    have hend : (if v % p.fifoSize + (len + 7) / 8 * 8 ≥ p.fifoSize then 0
        else v % p.fifoSize + (len + 7) / 8 * 8) = (v + (len + 7) / 8 * 8) % p.fifoSize :=
      Writing.wrap_eq (by omega) (Nat.mod_add_mod ..)
    simp only [hget, hend]

end Reading

/-- A string without its end, in front of one. -/
theorem cString_append {l t : List UInt8} (hl : ∀ b ∈ l, b ≠ 0) : cString (l ++ 0 :: t) = l := by
  unfold cString
  rw [takeWhile_append_of_pos (by simpa using hl)]
  simp

/-! ## Reading items -/

/-- The handler at the frame of an item. -/
structure AtFrame (p : Path) (stream : List UInt8) (n l : Nat) (i : Item) (bytes : List UInt8) :
    Prop where
  reading : Reading p stream n l
  drop : ∃ tail, stream.drop l = bytes ++ tail
  frame : Frame i bytes
  fits : i.Fits
  le : l + bytes.length ≤ n

/-- What the core must have when the handler comes to a fragment: a descriptor for its intent, with
room for the packet, or for the fragment behind those of the packet that came before. -/
def Known (desc : Option RxIntent) (f : Fragment) : Prop :=
  ∃ d, desc = some d ∧
    if f.first then f.data.length + f.remaining.toNat ≤ d.size
    else f.data.length ≤ d.pktSz - d.used

instance (desc : Option RxIntent) (f : Fragment) : Decidable (Known desc f) :=
  match desc with
  | none => .isFalse nofun
  | some d =>
    decidable_of_iff (if f.first then f.data.length + f.remaining.toNat ≤ d.size
      else f.data.length ≤ d.pktSz - d.used) ⟨fun h => ⟨d, rfl, h⟩, fun ⟨_, rfl, h⟩ => h⟩

section
variable {p : Path} {stream bytes : List UInt8} {n l : Nat} {i : Item} {c : Command} {f : Fragment}

/-- A piece of the item. -/
theorem AtFrame.take_drop (h : AtFrame p stream n l i bytes) {k m : Nat}
    (hkm : k + m ≤ i.body.length) : (stream.drop (l + k)).take m = (i.body.drop k).take m := by
  obtain ⟨tail, hdrop⟩ := h.drop
  obtain ⟨⟨pad, hbytes⟩, -⟩ := h.frame
  rw [← drop_drop, hdrop, hbytes, append_assoc,
    drop_append_of_le_length (by omega),
    take_append_of_le_length (by rw [length_drop]; omega)]

/-- A word of the item. -/
theorem AtFrame.read64 (h : AtFrame p stream n l i bytes) {k w : Nat} (hk : k % 8 = 0)
    (hkm : k + 8 ≤ i.body.length) (hword : (i.body.drop k).take 8 = leBytes 8 w)
    (hw : w < 256 ^ 8) :
    Smem.read64 p ⟨(l + k) % p.fifoSize, n % p.fifoSize⟩ =
      (w, ⟨(l + k + 8) % p.fifoSize, n % p.fifoSize⟩) := by
  have hle := h.le
  have hlen := h.frame.2
  rw [(h.reading.move hk (by omega)).read64 (by omega), h.take_drop hkm, hword,
    leValue_leBytes_of_lt hw]

/-- A command without an attachment is one word. -/
theorem AtFrame.length_of_attachment (h : AtFrame p stream n l (.command c) bytes)
    (hc : c.attachment = none) : bytes.length = 8 := by
  have hlen := h.frame.2
  simpa [Item.body, hc] using hlen

/-- **A command** is handed on as it was sent. -/
theorem processCmd_command (h : AtFrame p stream n l (.command c) bytes)
    (features : UInt32) (desc : Option RxIntent) :
    ∃ d, (Item.command c).received features = some d ∧
      processCmd p features desc c.raw64 ⟨(l + 8) % p.fifoSize, n % p.fifoSize⟩ =
        some (.delivered [d] ⟨(l + bytes.length) % p.fifoSize, n % p.fifoSize⟩) := by
  cases c with
  | chOpen cid name prio =>
    refine ⟨_, rfl, ?_⟩
    obtain ⟨hname, hshort⟩ := h.fits
    have hlen := h.frame.2
    have hle := h.le
    have hsize := (Command.Fits.attachment (c := .chOpen cid name prio) h.fits).1
    simp only [Command.attachmentSize, Command.attachment, getD_some, length_append,
      length_cons, length_nil] at hsize
    have hbody : (Item.command (.chOpen cid name prio)).body.length = 8 + (name.length + 1) := by
      simp [Item.body, Command.attachment]
    unfold glinkChNameLen at hshort
    have hread : Smem.readAlgn64 p ⟨(l + 8) % p.fifoSize, n % p.fifoSize⟩ (name.length + 1) =
        some (name ++ [0], ⟨(l + bytes.length) % p.fifoSize, n % p.fifoSize⟩) := by
      rw [(h.reading.move (k := 8) (by decide) (by omega)).readAlgn64 (by omega) (by omega),
        h.take_drop (by omega)]
      have hend : l + 8 + (name.length + 1 + 7) / 8 * 8 = l + bytes.length := by omega
      have hchars : ((Item.command (.chOpen cid name prio)).body.drop 8).take (name.length + 1) =
          name ++ [0] := by
        simp [Item.body, Command.attachment, take_of_length_le]
      rw [hend, hchars]
    have hset : (name ++ [0]).set name.length 0 = name ++ 0 :: [] := by
      rw [set_append_right _ _ (Nat.le_refl _), Nat.sub_self, set_cons_zero]
    have hrx : ¬ (name.length + 1 > getRxSize p ⟨(l + 8) % p.fifoSize, n % p.fifoSize⟩ ∨
        name.length + 1 > glinkChNameLen) := by
      rw [(h.reading.move (k := 8) (by decide) (by omega)).getRxSize_eq]
      unfold glinkChNameLen
      omega
    simp only [processCmd, Command.raw64, cmdId_raw64, cmdCid_raw64, cmdArg_raw64,
      chNameLen_chArg, chPrio_chArg, hsize, hrx, if_false, hread, bind_eq_bind,
      bind_some, Nat.zero_add, Nat.add_sub_cancel, hset, cString_append hname]
    simp [CmdId.value]
  | localRxIntent cid size liid =>
    refine ⟨_, rfl, ?_⟩
    have hlen : bytes.length = 16 := by simpa [Item.body, Command.attachment] using h.frame.2
    have hread := h.read64 (k := 8) (w := desc64 size liid) (by decide)
      (by simp [Item.body, Command.attachment])
      (by simp [Item.body, Command.attachment, take_of_length_le]) (desc64_lt size liid)
    simp [processCmd, Command.raw64, CmdId.value, readIntents, hread, hlen, Nat.add_assoc]
  | localRxDone cid liid reuse =>
    refine ⟨_, rfl, ?_⟩
    rw [h.length_of_attachment rfl]
    cases reuse <;> simp [processCmd, Command.raw64, CmdId.value]
  | remoteRxIntentReqAck cid granted =>
    refine ⟨_, rfl, ?_⟩
    rw [h.length_of_attachment rfl]
    cases granted <;> simp [processCmd, Command.raw64, CmdId.value]
  | _ =>
    refine ⟨_, rfl, ?_⟩
    rw [h.length_of_attachment rfl]
    simp [processCmd, Command.raw64, CmdId.value]

/-- The data of a fragment, behind its descriptor. -/
theorem AtFrame.read_data (h : AtFrame p stream n l (.fragment f) bytes) :
    getRxSize p ⟨(l + 8 + 8) % p.fifoSize, n % p.fifoSize⟩ = n - (l + 16) ∧
    f.data.length ≤ n - (l + 16) ∧
    Smem.readAlgn64 p ⟨(l + 8 + 8) % p.fifoSize, n % p.fifoSize⟩ f.data.length =
      some (f.data, ⟨(l + bytes.length) % p.fifoSize, n % p.fifoSize⟩) := by
  have hfits : f.data.length + f.remaining.toNat < 2 ^ 32 := h.fits
  have hle := h.le
  have hlen := h.frame.2
  have hbody : (Item.fragment f).body.length = 16 + f.data.length := by
    simp [Item.body]
    omega
  have hreading := h.reading.move (k := 16) (by decide) (by omega)
  refine ⟨hreading.getRxSize_eq, by omega, ?_⟩
  have hend : l + 16 + (f.data.length + 7) / 8 * 8 = l + bytes.length := by omega
  have hdata : ((Item.fragment f).body.drop 16).take f.data.length = f.data := by
    have hwords : (leBytes 8 f.txCmd ++ leBytes 8 f.dataDesc).length = 16 := by simp
    rw [Item.body, drop_left' hwords, List.take_length]
  have hroom := hreading.room
  have hsize := hreading.size_lt
  rw [Nat.add_assoc l 8 8, hreading.readAlgn64 (by omega) (by omega), h.take_drop (by omega), hend,
    hdata]

/-- **A fragment** is handed on as it was sent, when the core knows its intent. -/
theorem processCmd_fragment (h : AtFrame p stream n l (.fragment f) bytes)
    (features : UInt32) {desc : Option RxIntent} (known : Known desc f) :
    ∃ d, (Item.fragment f).received features = some d ∧
      processCmd p features desc f.txCmd ⟨(l + 8) % p.fifoSize, n % p.fifoSize⟩ =
        some (.delivered [d] ⟨(l + bytes.length) % p.fifoSize, n % p.fifoSize⟩) := by
  obtain ⟨intent, rfl, room⟩ := known
  obtain ⟨hrx, hle, hdata⟩ := h.read_data
  have hfits : f.data.length + f.remaining.toNat < 2 ^ 32 := h.fits
  have hdesc : Smem.read64 p ⟨(l + 8) % p.fifoSize, n % p.fifoSize⟩ =
      (f.dataDesc, ⟨(l + 8 + 8) % p.fifoSize, n % p.fifoSize⟩) :=
    h.read64 (k := 8) (by decide) (by simp [Item.body]; omega)
      (by simp [Item.body]) (desc64_lt ..)
  have hlo : (descLo f.dataDesc).toNat = f.data.length := by
    rw [Fragment.dataDesc, descLo_desc64, UInt32.toNat_ofNat', Nat.mod_eq_of_lt (by omega)]
  have hhi : descHi f.dataDesc = f.remaining := descHi_desc64 ..
  unfold Fragment.txCmd
  cases hfirst : f.first with
  | true =>
    rw [hfirst, if_pos rfl] at room
    have hprocess : ∀ id, processRxPacketCmd p (some intent) (raw64 id f.cid f.iid)
        ⟨(l + 8) % p.fifoSize, n % p.fifoSize⟩ =
        some ([.packet f.cid f.iid (f.data.length + f.remaining.toNat) f.data (f.remaining == 0)],
          ⟨(l + bytes.length) % p.fifoSize, n % p.fifoSize⟩) := by
      intro id
      have hok : ¬ (intent.size < f.data.length + f.remaining.toNat ∨
          f.data.length > intent.size ∨
          f.data.length > getRxSize p ⟨(l + 8 + 8) % p.fifoSize, n % p.fifoSize⟩) := by
        rw [hrx]
        omega
      simp only [processRxPacketCmd, hdesc, hlo, hhi, glinkOsAdd_of_lt hfits, bind_eq_bind,
        bind_some, hok, if_false, hdata, cmdCid_raw64, cmdArg_raw64]
    refine ⟨_, by rw [Item.received, hfirst, if_pos rfl], ?_⟩
    cases f.tracer <;> simp [processCmd, hprocess, CmdId.value]
  | false =>
    rw [hfirst, if_neg Bool.false_ne_true] at room
    have hprocess : ∀ id, processRxPacketContCmd p (some intent) (raw64 id f.cid f.iid)
        ⟨(l + 8) % p.fifoSize, n % p.fifoSize⟩ =
        some ([.packetCont f.cid f.iid f.data (f.remaining == 0)],
          ⟨(l + bytes.length) % p.fifoSize, n % p.fifoSize⟩) := by
      intro id
      have hok : ¬ (f.data.length > getRxSize p ⟨(l + 8 + 8) % p.fifoSize, n % p.fifoSize⟩ ∨
          f.data.length > intent.pktSz - intent.used) := by
        rw [hrx]
        omega
      simp only [processRxPacketContCmd, hdesc, hlo, hhi, bind_eq_bind, hok, if_false, hdata,
        bind_some, cmdCid_raw64, cmdArg_raw64]
    refine ⟨_, by rw [Item.received, hfirst, if_neg Bool.false_ne_true], ?_⟩
    cases f.tracer <;> simp [processCmd, hprocess, CmdId.value]

end

/-! ## The handler -/

namespace Path.At
variable {p : Path} {stream : List UInt8} {r l n : Nat} {snap rest : List Item}

/-- The places of the frames are multiples of eight. -/
theorem place_mod (h : p.At stream r l n snap rest) : n % 8 = 0 ∧ l % 8 = 0 := by
  have hlen := h.writing.length_mod
  have hl := h.place_le
  have hn := h.snap_le
  have hframe : ∀ (i : Item) (bytes : List UInt8), Frame i bytes ∧ i.Fits → bytes.length % 8 = 0 :=
    fun i bytes hi => hi.1.length_mod.2
  have hrest := h.restFrames.length_mod hframe
  have hsnap := h.snapFrames.length_mod hframe
  rw [length_drop] at hrest hsnap
  rw [length_take] at hsnap
  omega

/-- The handler's view of a path. -/
theorem reading (h : p.At stream r l n snap rest) : Reading p stream n l where
  holds := h.writing.holds.mono h.read_le
  size_mod := h.writing.size_mod
  size_lt := h.writing.size_lt
  place := h.place_mod.2
  le := h.place_le
  within := h.snap_le
  room := by
    have h₁ := h.writing.room
    have h₂ := h.read_le
    have h₃ := h.snap_le
    omega

/-- What has not been read is behind the receiver's place. -/
theorem frames (h : p.At stream r l n snap rest) : Frames p.unread (stream.drop l) := by
  have hl := h.place_le
  have hn := h.snap_le
  have hall := h.snapFrames.append h.restFrames
  rw [← drop_append_of_le_length (by rw [length_take]; omega), take_append_drop]
    at hall
  exact h.unread ▸ hall

/-- The handler begins. -/
theorem isrEnter (h : p.At stream r l n snap rest) (hrx : p.rx = none) :
    (Smem.isrEnter p).rx.isSome ∧
      (Smem.isrEnter p).At stream r r stream.length (snap ++ rest) [] ∧
      (Smem.isrEnter p).txList = p.txList ∧ (Smem.isrEnter p).resumePending = p.resumePending ∧
      (Smem.isrEnter p).fifoSize = p.fifoSize := by
  have hw := h.writing.write_lt
  have hwm := h.writing.write_mod
  have hr := h.writing.read_lt
  have hplaces := h.rx
  rw [hrx] at hplaces
  obtain ⟨rfl, rfl⟩ := hplaces
  have hread := h.writing.read
  have hwrite := h.writing.write
  have hpub := h.published
  have hlocal := h.localRead
  have hcheck : (!glinkOsFifoIndexCheck p.fifoSize p.desc.writeInd 8 ||
      !glinkOsFifoIndexCheck p.fifoSize p.localReadInd 0) = false := by
    simp [glinkOsFifoIndexCheck, hpub, hlocal, hw, hwm, hr]
  have henter : Smem.isrEnter p =
      { p with event := false, rx := some ⟨⟨p.localReadInd, p.desc.writeInd⟩, false⟩ } := by
    unfold Smem.isrEnter
    simp only [hcheck, Bool.false_eq_true, if_false]
  rw [henter]
  refine ⟨rfl, ?_, rfl, rfl, rfl⟩
  exact
    { h with
      writing := h.writing.of_eq rfl rfl rfl rfl
      read_le := Nat.le_refl _
      place_le := h.snap_le
      snap_le := Nat.le_refl _
      unread := by rw [append_nil]; exact h.unread
      snapFrames := by
        rw [List.take_length, ← h.unread]
        exact h.frames
      restFrames := by rw [drop_length]; exact .nil
      rx := by
        dsimp only
        rw [hlocal, hread, hpub, hwrite] }

/-- What one turn of the loop does: an item is handed to the core, or a READ_REQ has the shared read
index updated and sends an interrupt back. -/
inductive Turned (p : Path) (stream : List UInt8) (r n : Nat) (snap rest : List Item) (p' : Path) :
    Bool → Prop
  | delivered (i : Item) (snap' : List Item) (l' : Nat) : snap = i :: snap' → i.isSent = true →
      p'.At stream r l' n snap' rest → Turned p stream r n snap rest p' false
  | readReq (arg0 : UInt16) (arg : UInt32) (snap' : List Item) (l' : Nat) :
      snap = .readReq arg0 arg :: snap' → r + 8 ≤ l' → p'.At stream l' l' n snap' rest →
      Turned p stream r n snap rest p' true

/-- **One turn of the handler's loop.** -/
theorem isrCommand (h : p.At stream r l n snap rest) {rx : Rx} (hrx : p.rx = some rx)
    (hmore : rx.ind.writeInd ≠ rx.ind.readInd) (features : UInt32) {desc : Option RxIntent}
    (known : ∀ f, p.unread.head? = some (.fragment f) → Known desc f) :
    ∃ p' back, Smem.isrCommand p features desc = some (p', back) ∧
      (p'.rx.isSome ∧ p'.txList = p.txList ∧ p'.resumePending = p.resumePending ∧
        p'.event = p.event ∧ p'.fifoSize = p.fifoSize) ∧
      Turned p stream r n snap rest p' back := by
  have hplaces := h.rx
  rw [hrx] at hplaces
  dsimp only at hplaces
  subst hplaces
  -- there is an item in front of the handler's end
  cases snap with
  | nil =>
    have hnil := h.snapFrames.of_nil
    have hl := h.place_le
    have hn := h.snap_le
    have hlen := congrArg List.length hnil
    rw [length_drop, length_take, length_nil] at hlen
    have : l = n := by omega
    rw [this] at hmore
    exact absurd rfl hmore
  | cons i snap' =>
    obtain ⟨bytes, left, hdrop, ⟨hframe, hfits⟩, hleft⟩ := h.snapFrames.of_cons
    have hl := h.place_le
    have hn := h.snap_le
    have hlen := congrArg List.length hdrop
    rw [length_drop, length_take, length_append] at hlen
    have hat : AtFrame p stream n l i bytes := by
      refine ⟨h.reading, ⟨left ++ stream.drop n, ?_⟩, hframe, hfits, by omega⟩
      rw [← append_assoc, ← hdrop, ← drop_append_of_le_length
        (by rw [length_take]; omega), take_append_drop]
    obtain ⟨hpos, hmod⟩ := hframe.length_mod
    have hfirst : ∀ {w : Nat}, i.body.take 8 = leBytes 8 w → w < 256 ^ 8 →
        Smem.read64 p ⟨l % p.fifoSize, n % p.fifoSize⟩ =
          (w, ⟨(l + 8) % p.fifoSize, n % p.fifoSize⟩) := fun {w} hword hw =>
      hat.read64 (k := 0) rfl (by rw [Nat.zero_add]; exact i.length_body) hword hw
    have hnext : Frames snap' ((stream.take n).drop (l + bytes.length)) := by
      rw [← drop_drop, hdrop, drop_left]
      exact hleft
    -- the rest of the turn, behind the first word
    let q : Path := { p with unread := p.unread.drop 1 }
    have hq : AtFrame q stream n l i bytes :=
      { hat with reading := { hat.reading with holds := hat.reading.holds } }
    have hunread : q.unread = snap' ++ rest := congrArg (List.drop 1) h.unread
    have hist : History p.accepted (i :: q.unread) p.txList p.delivered := by
      rw [hunread, ← cons_append, ← h.unread]
      exact h.history
    have hr := h.read_le
    have hturn : ∀ w, i.body.take 8 = leBytes 8 w → w < 256 ^ 8 →
        Smem.isrCommand p features desc =
          (processCmd q features desc w ⟨(l + 8) % p.fifoSize, n % p.fifoSize⟩).map
            (endTurn q ⟨⟨l % p.fifoSize, n % p.fifoSize⟩, false⟩) := by
      intro w hword hw
      have hgo : ¬ (n % p.fifoSize = l % p.fifoSize ∨ false = true) := by
        rintro (heq | hno)
        · exact hmore heq
        · cases hno
      rw [Smem.isrCommand, hrx, bind_some, Smem.isrTurn, if_neg hgo, hfirst hword hw]
    have hdeliver : ∀ w {d : Delivery}, i.body.take 8 = leBytes 8 w → w < 256 ^ 8 →
        i.received features = some d →
        processCmd q features desc w ⟨(l + 8) % p.fifoSize, n % p.fifoSize⟩ =
          some (.delivered [d] ⟨(l + bytes.length) % p.fifoSize, n % p.fifoSize⟩) →
        i.isSent = true →
        ∃ p' back, Smem.isrCommand p features desc = some (p', back) ∧
          (p'.rx.isSome ∧ p'.txList = p.txList ∧ p'.resumePending = p.resumePending ∧
            p'.event = p.event ∧ p'.fifoSize = p.fifoSize) ∧
          Turned p stream r n (i :: snap') rest p' back := by
      intro w d hword hw hd hprocess hsent
      refine ⟨(endTurn q ⟨⟨l % p.fifoSize, n % p.fifoSize⟩, false⟩
        (.delivered [d] ⟨(l + bytes.length) % p.fifoSize, n % p.fifoSize⟩)).1, false,
        (hturn w hword hw).trans (congrArg _ hprocess), ⟨rfl, rfl, rfl, rfl, rfl⟩,
        .delivered i snap' (l + bytes.length) rfl hsent ?_⟩
      exact
        { h with
          writing := h.writing.of_eq rfl rfl rfl rfl
          read_le := by omega
          place_le := by omega
          unread := hunread
          snapFrames := hnext
          rx := rfl
          history := hist.deliver features hd }
    cases i with
    | command c =>
      obtain ⟨d, hd, hprocess⟩ := processCmd_command hq features desc
      exact hdeliver c.raw64 (by simp [Item.body])
        (by cases c <;> exact raw64_lt ..) hd hprocess rfl
    | fragment f =>
      have hknown := known f (by rw [h.unread]; rfl)
      obtain ⟨d, hd, hprocess⟩ := processCmd_fragment hq features hknown
      exact hdeliver f.txCmd (by simp [Item.body]) (raw64_lt ..) hd hprocess rfl
    | readReq arg0 arg =>
      have hlen8 : bytes.length = 8 := by simpa [Item.body] using hframe.2
      rw [hlen8] at hnext hlen
      have hprocess : processCmd q features desc (raw64 .readReq arg0 arg)
          ⟨(l + 8) % p.fifoSize, n % p.fifoSize⟩ =
          some (.readReq ⟨(l + 8) % p.fifoSize, n % p.fifoSize⟩) := by
        simp [processCmd, CmdId.value]
      have hplace := h.place_mod.2
      have hroom := h.writing.room
      refine ⟨(endTurn q ⟨⟨l % p.fifoSize, n % p.fifoSize⟩, false⟩
        (.readReq ⟨(l + 8) % p.fifoSize, n % p.fifoSize⟩)).1, true,
        (hturn (raw64 .readReq arg0 arg) (by simp [Item.body, take_of_length_le])
          (raw64_lt ..)).trans (congrArg _ hprocess),
        ⟨rfl, rfl, rfl, rfl, rfl⟩, .readReq arg0 arg snap' (l + 8) rfl (by omega) ?_⟩
      exact
        { h with
          writing :=
            { h.writing with
              holds := h.writing.holds.mono (by omega)
              read_le := by omega
              room := Nat.le_trans hroom (Nat.add_le_add_right (by omega : r ≤ l + 8) p.fifoSize)
              read_mod := by omega
              read := rfl }
          localRead := rfl
          read_le := Nat.le_refl _
          place_le := by omega
          unread := hunread
          snapFrames := hnext
          rx := rfl
          history := hist.dropReadReq }

/-- The loop is done, and the handler publishes that it has read all that was there at its begin. -/
theorem isrLeave (h : p.At stream r l n snap rest) {rx : Rx} (hrx : p.rx = some rx)
    (hdone : rx.ind.writeInd = rx.ind.readInd) :
    ∃ p', Smem.isrLeave p = some p' ∧ snap = [] ∧ p'.At stream n n n [] rest ∧ p'.rx = none ∧
      p'.txList = p.txList ∧ p'.resumePending = p.resumePending ∧ p'.event = p.event ∧
      p'.fifoSize = p.fifoSize := by
  have hplaces := h.rx
  rw [hrx] at hplaces
  dsimp only at hplaces
  subst hplaces
  have hl := h.place_le
  have hn := h.snap_le
  have hr := h.read_le
  have hroom := h.writing.room
  have heq : l = n := by
    rcases Nat.lt_or_ge l n with hlt | hge
    · exact absurd hdone.symm (Ring.Holds.mod_ne hlt (by omega))
    · omega
  have hsnap : snap = [] := by
    have hframes := h.snapFrames
    rw [drop_eq_nil_of_le (by rw [length_take]; omega)] at hframes
    refine hframes.eq_nil fun i hi => ?_
    have hpos := hi.1.length_mod.1
    exact absurd hpos (by decide)
  subst hsnap heq
  let q : Path := { p with
    localReadInd := l % p.fifoSize
    desc := { p.desc with readInd := l % p.fifoSize }
    rx := none }
  refine ⟨q, ?_, rfl, ?_, rfl, rfl, rfl, rfl, rfl⟩
  · simp only [Smem.isrLeave, hrx, bind_eq_bind, bind_some, true_or, if_true, q]
  exact
    { h with
      writing :=
        { h.writing with
          holds := h.writing.holds.mono hr
          read_le := hn
          room := Nat.le_trans hroom (Nat.add_le_add_right hr p.fifoSize)
          read_mod := h.place_mod.2
          read := rfl }
      localRead := rfl
      read_le := Nat.le_refl _
      rx := ⟨rfl, rfl⟩ }

end Path.At

end GLink.Smem
