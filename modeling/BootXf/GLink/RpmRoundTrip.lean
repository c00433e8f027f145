import BootXf.GLink.RpmReceive
import BootXf.Lib.Framing

/-!
# The round trip

Whatever is sent into a FIFO lengthens its unread part by frames (`sendAll_frames`), and the handler
takes one frame after the other from it until it is empty, unless a callback of the core resets the
transport or masks its interrupt (`isr_frames`).
-/

namespace GLink.Rpm

open Lib List Option

/-- The frames of some commands, one after the other. -/
abbrev Frames : List Command → List UInt8 → Prop :=
  Framed fun c bytes => Frame c bytes ∧ c.Fits

/-- No frame is empty. -/
theorem Frame.length_pos {c : Command} {bytes : List UInt8} (h : Frame c bytes) :
    8 ≤ bytes.length ∧ bytes.length % 8 = 0 := by
  have hlen := h.2
  have hbody := c.length_body
  have hpos := c.length_cmd_pos
  omega

/-! ## Sending -/

/-- Sending one command after the other, each with the reset flag of its time: the FIFO behind the
last one, and the commands that were written. -/
def sendAll (f : Fifo) : List (Bool × Command) → Option (Fifo × List Command)
  | [] => some (f, [])
  | (reset, c) :: cs => do
    let (f', status) ← c.send reset f
    let (f'', written) ← sendAll f' cs
    some (f'', if !reset && status == .success then c :: written else written)

/-- The commands that were written are in the FIFO, behind those that were there before. -/
theorem sendAll_frames {f f' : Fifo} {before written : List Command} {cs : List (Bool × Command)}
    (hf : f.Wf) (hbefore : Frames before f.unread) (hcs : ∀ c ∈ cs, c.2.Fits)
    (h : sendAll f cs = some (f', written)) :
    f'.Wf ∧ f'.size = f.size ∧ Frames (before ++ written) f'.unread := by
  induction cs generalizing f before written with
  | nil =>
    cases h
    exact ⟨hf, rfl, by rwa [append_nil]⟩
  | cons rc cs ih =>
    obtain ⟨reset, c⟩ := rc
    obtain ⟨⟨f₁, status⟩, hsend, h⟩ := bind_eq_some_iff.mp h
    obtain ⟨⟨f₂, later⟩, hrest, h⟩ := bind_eq_some_iff.mp h
    have hc : c.Fits := hcs _ (mem_cons_self ..)
    have hcs' : ∀ c ∈ cs, c.2.Fits := fun d hd => hcs d (mem_cons_of_mem _ hd)
    cases h
    -- nothing written: the FIFO is the one before
    have hsame : f₁ = f → f'.Wf ∧ f'.size = f.size ∧ Frames (before ++ later) f'.unread := by
      rintro rfl
      exact ih hf hbefore hcs' hrest
    cases reset with
    | true =>
      rcases send_reset f hc with ⟨hnone, -⟩ | hsome
      · exact nomatch hnone.symm.trans hsend
      · cases hsome.symm.trans hsend
        exact hsame rfl
    | false =>
      rcases send_of_wf hc hf with ⟨hnone, -⟩ | ⟨status', hne, hsome⟩ |
        ⟨f'', hsome, hf'', hsize, -, bytes, hframe, hunread⟩
      · exact nomatch hnone.symm.trans hsend
      · cases hsome.symm.trans hsend
        have hno : (!false && status == .success) = false := by simpa using hne
        rw [hno]
        exact hsame rfl
      · cases hsome.symm.trans hsend
        obtain ⟨hwf, hsz, hframes⟩ := ih hf'' (hunread ▸ hbefore.snoc ⟨hframe, hc⟩) hcs' hrest
        refine ⟨hwf, hsz.trans hsize, ?_⟩
        rw [append_assoc] at hframes
        exact hframes

/-! ## Receiving -/

/-- The handler within the stream of the FIFO: at the place `p` the frames of `cs` are still to be
read. -/
structure Reading (f : Fifo) (stream : List UInt8) (r p : Nat) (cs : List Command) : Prop where
  holds : Ring.Holds f.size f.mem stream r
  begun : r ≤ p
  within : p ≤ stream.length
  frames : Frames cs (stream.drop p)
  size_mod : f.size % 8 = 0
  place : p % 8 = 0
  room : stream.length < p + f.size
  length_mod : stream.length % 8 = 0
  read : f.readInd = p % f.size
  write : f.writeInd = stream.length % f.size

namespace Reading
variable {f : Fifo} {stream : List UInt8} {r p : Nat} {cs : List Command} {c : Command}

theorem of_wf (hf : f.Wf) (h : Frames cs f.unread) : Reading f f.stream f.readInd f.readInd cs where
  holds := f.holds_stream
  begun := Nat.le_refl _
  within := by simp
  frames := by rwa [Fifo.stream, drop_left' (Ring.length_get ..)]
  size_mod := hf.size_mod
  place := hf.read_mod
  room := by
    have := hf.used_lt
    simpa using this
  length_mod := by
    have h₁ := hf.read_mod
    have h₂ := hf.used_mod
    rw [Fifo.length_stream]
    omega
  read := (Nat.mod_eq_of_lt hf.read_lt).symm
  write := by simpa using hf.write_eq

/-- What has not been read. -/
theorem unread_eq (h : Reading f stream r p cs) : f.unread = stream.drop p := by
  have hwithin := h.within
  have hroom := h.room
  have hw : f.writeInd = (p % f.size + (stream.length - p)) % f.size := by
    rw [Nat.mod_add_mod, Nat.add_sub_cancel' hwithin]
    exact h.write
  have hused : f.used = stream.length - p := by
    have hroom' : 0 < f.size ∧ stream.length - p < f.size := by omega
    have := Fifo.used_of_write f.mem (Nat.mod_lt p hroom'.1) hroom'.2
    rw [← hw, ← h.read] at this
    exact this
  rw [Fifo.unread, hused, h.read]
  exact (h.holds.mono h.begun).window (Nat.mod_mod _ _)

/-- Nothing is left. -/
theorem read_eq_write (h : Reading f stream r p []) : f.readInd = f.writeInd := by
  have hend : stream.length - p = 0 := by
    rw [← length_drop, h.frames.of_nil, length_nil]
  have hwithin := h.within
  have : p = stream.length := by omega
  rw [h.read, h.write, this]

/-- While frames are left, the indices are different. -/
theorem write_ne_read (h : Reading f stream r p (c :: cs)) :
    f.writeInd ≠ p % f.size := by
  obtain ⟨bytes, rest, hdrop, ⟨hframe, -⟩, -⟩ := h.frames.of_cons
  have hlen := congrArg List.length hdrop
  have hpos := hframe.length_pos.1
  rw [length_drop, length_append] at hlen
  rw [h.write]
  exact (Ring.Holds.mod_ne (by omega) h.room).symm

/-- The next frame, and how the handler stands behind it. -/
theorem next {rx : Rx} (h : Reading rx.fifo stream r p (c :: cs))
    (hle : rx.fifo.size ≤ 0x80000008) :
    ∃ bytes, At rx c p bytes ∧
      Reading { rx.fifo with readInd := (p + bytes.length) % rx.fifo.size } stream r
        (p + bytes.length) cs := by
  obtain ⟨bytes, rest, hdrop, ⟨hframe, hfits⟩, hrest⟩ := h.frames.of_cons
  have hlen := congrArg List.length hdrop
  have hwithin := h.within
  have hroom := h.room
  have hsize := h.size_mod
  have hplace := h.place
  have hmod := h.length_mod
  obtain ⟨-, hbytes⟩ := hframe.length_pos
  rw [length_drop, length_append] at hlen
  refine ⟨bytes, ⟨⟨stream, rest, r, h.holds, h.begun, hdrop⟩, hframe, hfits, hsize, hle, hplace,
    by omega⟩, ?_⟩
  refine ⟨h.holds, Nat.le_add_right_of_le h.begun, by omega, ?_, hsize, by omega,
    by dsimp only; omega, hmod, rfl, h.write⟩
  rw [← drop_drop, hdrop, drop_left]
  exact hrest

end Reading

section
variable (core : Delivery → Flags → Flags) {rx : Rx} {stop : Bool}

/-- What the handler leaves: it has handed some of the commands to the core, the first ones, and
unless the transport has been reset the others are still in the FIFO. It stops before the last one
only if its interrupt is masked. -/
structure Handled (core : Delivery → Flags → Flags) (rx : Rx) (cs : List Command) (rx' : Rx)
    (done rest : List Command) : Prop where
  parts : cs = done ++ rest
  delivered : rx'.delivered = rx.delivered ++ done.map Command.received
  flags : rx'.flags = (done.map Command.received).foldl (fun flags d => core d flags) rx.flags
  left : rx'.flags.reset = true ∨
    Frames rest rx'.fifo.unread ∧ (rest = [] → rx'.fifo.readInd = rx'.fifo.writeInd) ∧
    rx'.fifo = { rx.fifo with readInd := rx'.fifo.readInd } ∧
    (rest = [] ∨ rx'.flags.irqMask = true)

/-- One command, and then others. -/
theorem Handled.cons {rx rx₁ rx' : Rx} {c : Command} {cs done rest : List Command} {n : Nat}
    (hfifo : rx₁.fifo = { rx.fifo with readInd := n })
    (hflags : rx₁.flags = core c.received rx.flags)
    (hdelivered : rx₁.delivered = rx.delivered ++ [c.received])
    (h : Handled core rx₁ cs rx' done rest) : Handled core rx (c :: cs) rx' (c :: done) rest := by
  refine ⟨by rw [h.parts, cons_append], ?_, ?_, h.left.imp id ?_⟩
  · rw [h.delivered, hdelivered, map_cons, append_assoc, singleton_append]
  · rw [h.flags, hflags, map_cons, foldl_cons]
  · rintro ⟨hframes, hempty, hsame, hmask⟩
    refine ⟨hframes, hempty, ?_, hmask⟩
    rw [hfifo] at hsame
    exact hsame

theorem isrLoop_done {writeInd readInd fuel : Nat} (h : writeInd = readInd ∨ stop = true) :
    isrLoop core writeInd fuel rx readInd stop = some rx := by
  cases fuel <;> rw [isrLoop, if_pos h]

theorem isrLoop_turn {writeInd readInd next fuel : Nat} {rx rx₁ : Rx}
    (h : writeInd ≠ readInd) (hturn : isrTurn core rx readInd = some (rx₁, next, stop)) :
    isrLoop core writeInd (fuel + 1) rx readInd false =
      isrLoop core writeInd fuel rx₁ next stop := by
  rw [isrLoop, if_neg (by simpa using h), hturn]
  rfl

/-- The loop, from any frame on, with as many turns as there are frames. -/
theorem isrLoop_frames {stream : List UInt8} {r p fuel : Nat} {cs : List Command}
    (h : Reading rx.fifo stream r p cs) (hle : rx.fifo.size ≤ 0x80000008)
    (hfuel : cs.length ≤ fuel) :
    ∃ rx' done rest, isrLoop core rx.fifo.writeInd fuel rx (p % rx.fifo.size) false = some rx' ∧
      Handled core rx cs rx' done rest := by
  induction cs generalizing rx p fuel with
  | nil =>
    refine ⟨rx, [], [], ?_, rfl, by simp, rfl, .inr ⟨?_, fun _ => h.read_eq_write, rfl, .inl rfl⟩⟩
    · exact isrLoop_done core (.inl (h.read ▸ h.read_eq_write.symm))
    · rw [h.unread_eq]
      exact h.frames
  | cons c cs ih =>
    obtain ⟨fuel, rfl⟩ := Nat.exists_eq_succ_of_ne_zero (Nat.ne_zero_of_lt hfuel)
    obtain ⟨bytes, hat, hnext⟩ := h.next hle
    obtain ⟨rx₁, next, stop, hturn, turned⟩ := isrTurn_frame core hat
    rw [Nat.succ_eq_add_one, isrLoop_turn core h.write_ne_read hturn]
    cases hreset : rx₁.flags.reset with
    | true =>
      exact ⟨rx₁, [c], cs, isrLoop_done core (.inr (turned.reset hreset)), rfl, turned.delivered,
        turned.flags, .inl hreset⟩
    | false =>
      obtain ⟨rfl, hfifo, hmask⟩ := turned.moved hreset
      rw [← hfifo] at hnext
      cases hstop : stop with
      | true =>
        refine ⟨rx₁, [c], cs, isrLoop_done core (.inr rfl), rfl, turned.delivered,
          turned.flags, .inr ⟨?_, ?_, ?_, .inr (hmask hstop)⟩⟩
        · rw [hnext.unread_eq]
          exact hnext.frames
        · rintro rfl
          exact hnext.read_eq_write
        · rw [hfifo]
      | false =>
        have hsize : rx₁.fifo.size = rx.fifo.size := by rw [hfifo]
        have hwrite : rx₁.fifo.writeInd = rx.fifo.writeInd := by rw [hfifo]
        obtain ⟨rx', done, rest, hrun, handled⟩ := ih hnext (hsize ▸ hle)
          (Nat.le_of_succ_le_succ hfuel)
        rw [hsize, hwrite] at hrun
        exact ⟨rx', c :: done, rest, hrun, handled.cons core hfifo turned.flags turned.delivered⟩

/-- **The handler.** When the transport comes out of a reset, the core is told first that the link
is up. -/
theorem isr_frames {cs : List Command} {fuel : Nat} (hf : rx.fifo.Wf)
    (hle : rx.fifo.size ≤ 0x80000008) (hframes : Frames cs rx.fifo.unread)
    (hfuel : cs.length ≤ fuel) :
    ∃ rx' done rest, isr core fuel rx = some (rx', .success) ∧ cs = done ++ rest ∧
      let deliveries := (if rx.flags.reset then [.linkUp] else []) ++ done.map Command.received
      rx'.delivered = rx.delivered ++ deliveries ∧
      rx'.flags = deliveries.foldl (fun flags d => core d flags) { rx.flags with reset := false } ∧
      (rx'.flags.reset = true ∨
        Frames rest rx'.fifo.unread ∧ (rest = [] → rx'.fifo.readInd = rx'.fifo.writeInd) ∧
        rx'.fifo = { rx.fifo with readInd := rx'.fifo.readInd } ∧
        (rest = [] ∨ rx'.flags.irqMask = true)) := by
  obtain ⟨hcw, hcr⟩ := hf.check
  have reading := Reading.of_wf hf hframes
  have hloop : ∀ {rx₀ rx' : Rx}, isrLoop core rx.fifo.writeInd fuel rx₀
      (rx.fifo.readInd % rx.fifo.size) false = some rx' →
      isrLoop core rx.fifo.writeInd fuel rx₀ rx.fifo.readInd false = some rx' :=
    fun h => (congrArg (isrLoop core _ _ _ · false) reading.read).trans h
  cases hreset : rx.flags.reset with
  | true =>
    have reading' : Reading (deliver core { rx with flags := { rx.flags with reset := false } }
      .linkUp).fifo rx.fifo.stream rx.fifo.readInd rx.fifo.readInd cs := reading
    obtain ⟨rx', done, rest, hrun, handled⟩ := isrLoop_frames core reading' hle hfuel
    refine ⟨rx', done, rest, ?_, handled.parts, ?_, ?_, handled.left⟩
    · simp only [isr, hreset, if_true, deliver, hcw, hcr, Bool.not_true, Bool.or_self,
        Bool.false_eq_true, if_false]
      exact bind_eq_some_iff.mpr ⟨rx', hloop hrun, rfl⟩
    · rw [handled.delivered, deliver, append_assoc]
      rfl
    · rw [handled.flags]
      rfl
  | false =>
    obtain ⟨rx', done, rest, hrun, handled⟩ := isrLoop_frames core reading hle hfuel
    have hflags : ({ rx.flags with reset := false } : Flags) = rx.flags := by rw [← hreset]
    refine ⟨rx', done, rest, ?_, handled.parts, handled.delivered, ?_, handled.left⟩
    · simp only [isr, hreset, hcw, hcr, Bool.not_true, Bool.or_self, Bool.false_eq_true, if_false]
      exact bind_eq_some_iff.mpr ⟨rx', hloop hrun, rfl⟩
    · rw [hflags]
      exact handled.flags

end

/-- **The round trip.** A command is rejected, or its frame is put behind the unread bytes; in
reset it is neither. Of the commands that were written the handler delivers the first ones, in
order, and leaves the others in the FIFO: none, unless a callback of the core has masked the
interrupt. Only when a callback resets the transport nothing is said about the FIFO. -/
theorem round_trip (core : Delivery → Flags → Flags) {f : Fifo} (hsize : f.size % 8 = 0)
    (hle : f.size ≤ 0x80000008) :
    (∀ c : Command, c.Fits →
      ((c.send true f = none ∧ c.TooLong) ∨ c.send true f = some (f, .success)) ∧
      ((c.send false f = none ∧ c.TooLong) ∨
        (∃ status, status ≠ .success ∧ c.send false f = some (f, status)) ∨
        f.Wf ∧ ∃ f', c.send false f = some (f', .success) ∧ f'.Wf ∧ f'.size = f.size ∧
          f'.readInd = f.readInd ∧ ∃ bytes, Frame c bytes ∧ f'.unread = f.unread ++ bytes)) ∧
    (f.Wf → ∀ before, Frames before f.unread → ∀ cs, (∀ c ∈ cs, c.2.Fits) →
      ∀ f' written, sendAll f cs = some (f', written) → ∀ rx, rx.fifo = f' →
      ∀ fuel, (before ++ written).length ≤ fuel →
      ∃ rx' done rest, isr core fuel rx = some (rx', .success) ∧ before ++ written = done ++ rest ∧
        let deliveries := (if rx.flags.reset then [.linkUp] else []) ++ done.map Command.received
        rx'.delivered = rx.delivered ++ deliveries ∧
        rx'.flags = deliveries.foldl (fun flags d => core d flags)
          { rx.flags with reset := false } ∧
        (rx'.flags.reset = true ∨
          Frames rest rx'.fifo.unread ∧ (rest = [] → rx'.fifo.readInd = rx'.fifo.writeInd) ∧
          rx'.fifo = { f' with readInd := rx'.fifo.readInd } ∧
          (rest = [] ∨ rx'.flags.irqMask = true))) := by
  refine ⟨fun c hc => ⟨send_reset f hc, send_cases f hc hsize (by omega)⟩, ?_⟩
  rintro hf before hbefore cs hcs f' written hsend rx rfl fuel hfuel
  obtain ⟨hf', hsize', hframes⟩ := sendAll_frames hf hbefore hcs hsend
  exact isr_frames core hf' (hsize'.symm ▸ hle) hframes hfuel

/-- An empty FIFO whose indices are near its end. -/
def emptyFifo : Fifo := ⟨fun _ => 0, 64, 40, 40⟩

/-- A channel is opened, a close is lost in reset, and a packet goes round the end of the FIFO. -/
theorem round_trip_wraps :
    ∃ f' rx', sendAll emptyFifo [(false, .chOpen 3 [97, 98, 99]), (true, .chClose 9),
        (false, .tx 3 [1, 2, 3, 4, 5])] =
      some (f', [.chOpen 3 [97, 98, 99], .tx 3 [1, 2, 3, 4, 5]]) ∧
      isr (fun _ flags => flags) 2 ⟨f', ⟨false, false⟩, 0, 0, []⟩ = some (rx', .success) ∧
      rx'.delivered = [.remoteOpen 3 [97, 98, 99], .packet 3 [1, 2, 3, 4, 5]] ∧
      rx'.fifo.readInd = rx'.fifo.writeInd := by
  have hf : emptyFifo.Wf := by constructor <;> decide
  obtain ⟨⟨f', written⟩, hsend, hwritten⟩ := map_eq_some_iff.mp (by decide +kernel :
    (sendAll emptyFifo [(false, .chOpen 3 [97, 98, 99]), (true, .chClose 9),
        (false, .tx 3 [1, 2, 3, 4, 5])]).map (·.2) =
      some [.chOpen 3 [97, 98, 99], .tx 3 [1, 2, 3, 4, 5]])
  dsimp only at hwritten
  subst hwritten
  obtain ⟨rx', done, rest, hrun, hparts, hdelivered, hflags, hleft⟩ :=
    (round_trip (fun _ flags => flags) (f := emptyFifo) (by decide) (by decide)).2 hf [] .nil _
      (by simp [Command.Fits]) f' _ hsend ⟨f', ⟨false, false⟩, 0, 0, []⟩ rfl 2 (by decide)
  have hquiet : ∀ l : List Delivery,
      l.foldl (fun flags _ => flags) (⟨false, false⟩ : Flags) = ⟨false, false⟩ := by
    intro l
    induction l with
    | nil => rfl
    | cons _ _ ih => exact ih
  rw [hflags.trans (hquiet _)] at hleft
  obtain ⟨-, hempty, -, hrest⟩ := hleft.resolve_left (by decide)
  have hrest := hrest.resolve_right (by decide)
  subst hrest
  rw [append_nil] at hparts
  subst hparts
  exact ⟨f', rx', hsend, hrun, hdelivered, hempty rfl⟩

/-- A send that is dropped but reported as success, a name that arrives without its end, and a
command that the handler leaves in the FIFO because its interrupt has been masked. -/
theorem round_trip_exceptions :
    Command.send true emptyFifo (.chClose 9) = some (emptyFifo, .success) ∧
    ((sendAll emptyFifo [(false, .chOpen 3 (replicate 32 97))]).bind fun r =>
      (isr (fun _ flags => flags) 1 ⟨r.1, ⟨false, false⟩, 0, 0, []⟩).map fun r => r.1.delivered) =
        some [.remoteOpen 3 (replicate 31 97)] ∧
    ((sendAll emptyFifo [(false, .tx 3 [1]), (false, .chClose 3)]).bind fun r =>
      (isr (fun _ _ => ⟨false, true⟩) 2 ⟨r.1, ⟨false, false⟩, 0, 0, []⟩).map fun r =>
        (r.1.delivered, r.1.fifo.readInd, r.1.fifo.writeInd)) =
        some ([.packet 3 [1]], 0, 8) := by
  refine ⟨rfl, ?_, ?_⟩ <;> decide +kernel

end GLink.Rpm
