import BootXf.GLink.SmemReceive
import BootXf.Lib.Run
import Mathlib.Logic.Function.Basic

/-!
# Two hosts

Either host sends commands and fragments, and its interrupt handler reads from the other one, in any
order. The handler takes one command after the other, so that anything may happen in between, and
goes through the list after it has released the lock of its receiving side.

`channel_faithful`: in every run the two paths are as their invariant says, so that what has been
handed to a core is in front of what the other host has accepted, and no step gets stuck.
-/

namespace GLink.Smem

open Lib Option Function

/-- The path on which each host sends, and the handlers of each host that are past the release of
`rx_link_lock` and have not gone through the list. -/
structure Link where
  path : Host → Path
  handlers : Host → Nat

/-- What happens. -/
inductive Event
  | send (h : Host) (c : Command) (memory : Bool) (arg0 : UInt16) (arg : UInt32)
  | tx (h : Host) (features : UInt32) (cid : UInt16) (pctx : Pctx) (fragData : List UInt8)
      (arg0 : UInt16) (arg : UInt32)
  | isrEnter (h : Host)
  | isrCommand (h : Host) (features : UInt32) (desc : Option RxIntent)
  | isrLeave (h : Host)
  | isrDrain (h : Host)

/-- A path replaced. -/
def Link.setPath (l : Link) (h : Host) (p : Path) : Link :=
  { l with path := update l.path h p }

@[simp] theorem Link.setPath_self (l : Link) (h : Host) (p : Path) : (l.setPath h p).path h = p :=
  update_self ..

theorem Link.setPath_ne (l : Link) {h k : Host} (p : Path) (hk : k ≠ h) :
    (l.setPath h p).path k = l.path k := update_of_ne hk ..

/-- One step. A handler begins when no other one of its host holds `rx_link_lock`. -/
def Link.step (l : Link) : Event → Option Link
  | .send h c memory arg0 arg =>
    (sendCmd (l.path h) c memory arg0 arg).map fun r => l.setPath h r.1
  | .tx h features cid pctx fragData arg0 arg =>
    (tx (l.path h) features cid pctx fragData arg0 arg).map fun r => l.setPath h r.1
  | .isrEnter h =>
    if (l.path h.other).rx.isSome then none
    else some (l.setPath h.other (isrEnter (l.path h.other)))
  | .isrCommand h features desc =>
    (isrCommand (l.path h.other) features desc).map fun r =>
      -- the interrupt that goes back is one for the other host
      let back := { l.path h with event := (l.path h).event || r.2 }
      (l.setPath h.other r.1).setPath h back
  | .isrLeave h =>
    (isrLeave (l.path h.other)).map fun p =>
      { l.setPath h.other p with handlers := update l.handlers h (l.handlers h + 1) }
  | .isrDrain h =>
    if l.handlers h = 0 then none
    else
      (isrDrain (l.path h)).map fun p =>
        { l.setPath h p with handlers := update l.handlers h (l.handlers h - 1) }

/-- The core knows the intent of a fragment that is next. -/
def KnownNext (desc : Option RxIntent) : Option Item → Prop
  | some (.fragment f) => Known desc f
  | _ => True

instance (desc : Option RxIntent) : (i : Option Item) → Decidable (KnownNext desc i)
  | some (.fragment f) => inferInstanceAs (Decidable (Known desc f))
  | some (.command _) | some (.readReq ..) | none => inferInstanceAs (Decidable True)

/-- What the core and its clients promise: names are short strings, the provider of a packet has no
more than what is left of it, and the receiver knows the intents that it is sent packets for. -/
def Event.Promised (l : Link) : Event → Prop
  | .send _ c .. => c.Fits
  | .tx _ _ _ pctx fragData .. =>
    fragData.length ≤ pctx.sizeRemaining ∧ pctx.sizeRemaining < 2 ^ 32
  | .isrCommand h _ desc => KnownNext desc (l.path h.other).unread.head?
  | _ => True

instance (l : Link) : (e : Event) → Decidable (e.Promised l)
  | .send _ c .. => inferInstanceAs (Decidable c.Fits)
  | .tx _ _ _ pctx fragData .. => inferInstanceAs (Decidable
      (fragData.length ≤ pctx.sizeRemaining ∧ pctx.sizeRemaining < 2 ^ 32))
  | .isrCommand h _ desc =>
    inferInstanceAs (Decidable (KnownNext desc (l.path h.other).unread.head?))
  | .isrEnter _ | .isrLeave _ | .isrDrain _ => inferInstanceAs (Decidable True)

/-- When a step of the handler is due. -/
def Event.Due (l : Link) : Event → Prop
  | .isrEnter h => (l.path h.other).rx = none
  | .isrCommand h .. => ∃ rx, (l.path h.other).rx = some rx ∧ rx.ind.writeInd ≠ rx.ind.readInd
  | .isrLeave h => ∃ rx, (l.path h.other).rx = some rx ∧ rx.ind.writeInd = rx.ind.readInd
  | .isrDrain h => l.handlers h ≠ 0
  | _ => True

/-- The steps of a run. -/
def Step (l : Link) (e : Event) (l' : Link) : Prop := e.Promised l ∧ l.step e = some l'

/-- Two hosts whose FIFOs have been allocated. -/
def Link.initial (fifo : Host → Nat → UInt8) (fifoSize mtuSize : Host → Nat) : Link where
  path h := ⟨fifo h, fifoSize h, mtuSize h, ⟨0, 0⟩, 0, [], false, 0, none, false, [], [], []⟩
  handlers _ := 0

/-- The place that the receiver has come to, as an index. -/
def Path.place (p : Path) : Nat :=
  match p.rx with
  | some rx => rx.ind.readInd
  | none => p.localReadInd

/-- The cells between that place and the write index. -/
def Path.contents (p : Path) : List UInt8 :=
  Ring.window p.fifoSize p.fifo p.place (getRxSize p ⟨p.place, p.desc.writeInd⟩)

/-- The invariant of a path, whatever has been written and read. -/
def Path.Sound (p : Path) : Prop := ∃ stream r l n snap rest, p.At stream r l n snap rest

namespace Path.At
variable {p : Path} {stream : List UInt8} {r l n : Nat} {snap rest : List Item}

theorem sound (h : p.At stream r l n snap rest) : p.Sound := ⟨stream, r, l, n, snap, rest, h⟩

/-- The receiver's place is an index into the stream. -/
theorem place_eq (h : p.At stream r l n snap rest) : p.place = l % p.fifoSize := by
  have hrx := h.rx
  unfold Path.place
  cases hp : p.rx with
  | some rx =>
    rw [hp] at hrx
    exact congrArg (fun rx => rx.ind.readInd) hrx
  | none =>
    rw [hp] at hrx
    rw [h.localRead, h.writing.read, hrx.1]

/-- The cells that have not been read spell what is still to be handed on. -/
theorem frames_contents (h : p.At stream r l n snap rest) : Frames p.unread p.contents := by
  have h₁ := h.writing.room
  have h₂ := h.read_le
  have h₃ := h.place_le
  have h₄ := h.snap_le
  have hread : Reading p stream stream.length l :=
    { h.reading with
      le := Nat.le_trans h₃ h₄
      within := Nat.le_refl _
      room := by omega }
  have hwindow := (h.writing.holds.mono h₂).window (i := l % p.fifoSize) (Nat.mod_mod _ _)
  unfold Path.contents
  rw [h.place_eq, h.published, h.writing.write, hread.getRxSize_eq, hwindow]
  exact h.frames

/-- The write index has not come up to the read index. -/
theorem used_le (h : p.At stream r l n snap rest) :
    getRxSize p ⟨p.desc.readInd, p.localWriteInd⟩ + 8 ≤ p.fifoSize := by
  have h₁ := h.writing.room
  have h₂ := h.writing.read_le
  have hread : Reading p stream stream.length r :=
    { holds := h.writing.holds
      size_mod := h.writing.size_mod
      size_lt := h.writing.size_lt
      place := h.writing.read_mod
      le := h₂
      within := Nat.le_refl _
      room := by omega }
  rw [h.writing.read, h.writing.write, hread.getRxSize_eq]
  omega

end Path.At

/-! ## Runs -/

/-- Both paths are as their invariant says. -/
def Link.Sound (l : Link) : Prop := ∀ h, (l.path h).Sound

namespace Link.Sound
variable {l l' : Link} {e : Event}

/-- One path is replaced. -/
theorem setPath (sound : l.Sound) (h : Host) {p : Path} (hp : p.Sound) : (l.setPath h p).Sound := by
  intro k
  rcases Decidable.em (k = h) with rfl | hk
  · rw [Link.setPath_self]
    exact hp
  · rw [Link.setPath_ne _ _ hk]
    exact sound k

theorem initial {fifo : Host → Nat → UInt8} {fifoSize mtuSize : Host → Nat}
    (hsize : ∀ h, fifoSize h % 8 = 0 ∧ 0 < fifoSize h ∧ fifoSize h < 2 ^ 32) :
    (Link.initial fifo fifoSize mtuSize).Sound := by
  intro h
  obtain ⟨hmod, hpos, hlt⟩ := hsize h
  refine ⟨[], 0, 0, 0, [], [], ?_⟩
  exact
    { writing :=
        { holds := Ring.Holds.of_read (Nat.le_refl _)
          size_mod := hmod
          size_lt := hlt
          read_le := Nat.le_refl _
          room := by dsimp only [Link.initial, List.length_nil]; omega
          read_mod := rfl
          length_mod := rfl
          read := rfl
          write := rfl }
      published := rfl
      localRead := rfl
      read_le := Nat.le_refl _
      place_le := Nat.le_refl _
      snap_le := Nat.le_refl _
      unread := rfl
      snapFrames := .nil
      restFrames := .nil
      rx := ⟨rfl, rfl⟩
      history := ⟨[], rfl, .nil⟩
      fits := nofun }

/-- A step that is made was due. -/
theorem due (sound : l.Sound) (hstep : l.step e = some l') : e.Due l := by
  cases e with
  | send | tx => trivial
  | isrEnter h =>
    simp only [Link.step] at hstep
    split at hstep
    · cases hstep
    · next hrx => exact not_isSome_iff_eq_none.mp hrx
  | isrCommand h features desc =>
    obtain ⟨r, hr, -⟩ := map_eq_some_iff.mp hstep
    obtain ⟨rx, hrx, hturn⟩ := bind_eq_some_iff.mp hr
    refine ⟨rx, hrx, fun heq => ?_⟩
    rw [isrTurn, if_pos (.inl heq)] at hturn
    cases hturn
  | isrLeave h =>
    obtain ⟨p, hp, -⟩ := map_eq_some_iff.mp hstep
    obtain ⟨rx, hrx, hleave⟩ := bind_eq_some_iff.mp hp
    refine ⟨rx, hrx, ?_⟩
    obtain ⟨_, _, _, _, _, _, hat⟩ := sound h.other
    have hplaces := hat.rx
    rw [hrx] at hplaces
    dsimp only at hplaces
    split at hleave
    · next hdone =>
      rcases hdone with heq | hinvalid
      · exact heq
      · rw [hplaces] at hinvalid
        cases hinvalid
    · cases hleave
  | isrDrain h =>
    simp only [Link.step] at hstep
    split at hstep
    · cases hstep
    · next hne => exact hne

/-- **One step**, when it is due: it can be made, and it keeps the invariant. -/
theorem step (sound : l.Sound) (hdue : e.Due l) (promised : e.Promised l) :
    ∃ l', l.step e = some l' ∧ l'.Sound := by
  cases e with
  | send h c memory arg0 arg =>
    obtain ⟨stream, r, k, n, snap, rest, hat⟩ := sound h
    obtain ⟨p', status, hsend, -, -, sent⟩ := hat.sendCmd promised memory arg0 arg
    refine ⟨_, congrArg (Option.map _) hsend, sound.setPath h ?_⟩
    cases sent with
    | written bytes _ _ _ hat' => exact hat'.sound
    | refused heq => exact heq ▸ hat.sound
    | queued _ asked =>
      cases asked with
      | written _ _ _ _ hat' | full _ hat' => exact hat'.sound
  | tx h features cid pctx fragData arg0 arg =>
    obtain ⟨stream, r, k, n, snap, rest, hat⟩ := sound h
    obtain ⟨p', pctx', status, htx, -, sent⟩ := hat.tx features cid promised.1 promised.2 arg0 arg
    refine ⟨_, congrArg (Option.map _) htx, sound.setPath h ?_⟩
    cases sent with
    | same heq => exact heq ▸ hat.sound
    | waits _ heq =>
      rw [heq]
      exact (hat.keep true (l.path h).event hat.history hat.fits).sound
    | written _ _ _ _ _ _ _ hat' => exact hat'.sound
    | asked _ asked =>
      cases asked with
      | written _ _ _ _ hat' | full _ hat' => exact hat'.sound
  | isrEnter h =>
    obtain ⟨stream, r, k, n, snap, rest, hat⟩ := sound h.other
    obtain ⟨-, hat', -⟩ := hat.isrEnter hdue
    refine ⟨_, if_neg ?_, sound.setPath h.other hat'.sound⟩
    rw [hdue]
    exact Bool.false_ne_true
  | isrCommand h features desc =>
    obtain ⟨stream, r, k, n, snap, rest, hat⟩ := sound h.other
    obtain ⟨rx, hrx, hmore⟩ := hdue
    have known : ∀ f, (l.path h.other).unread.head? = some (.fragment f) → Known desc f := by
      intro f hf
      have hp : KnownNext desc (l.path h.other).unread.head? := promised
      rw [hf] at hp
      exact hp
    obtain ⟨p', back, hcmd, -, turned⟩ := hat.isrCommand hrx hmore features known
    refine ⟨_, congrArg (Option.map _) hcmd, Link.Sound.setPath (sound.setPath h.other ?_) h ?_⟩
    · cases turned with
      | delivered _ _ _ _ _ hat' => exact hat'.sound
      | readReq _ _ _ _ _ _ hat' => exact hat'.sound
    · obtain ⟨stream', r', k', n', snap', rest', hat'⟩ := sound h
      exact (hat'.keep (l.path h).resumePending ((l.path h).event || back) hat'.history
        hat'.fits).sound
  | isrLeave h =>
    obtain ⟨stream, r, k, n, snap, rest, hat⟩ := sound h.other
    obtain ⟨rx, hrx, hdone⟩ := hdue
    obtain ⟨p', hleave, -, hat', -⟩ := hat.isrLeave hrx hdone
    exact ⟨_, congrArg (Option.map _) hleave, sound.setPath h.other hat'.sound⟩
  | isrDrain h =>
    obtain ⟨stream, r, k, n, snap, rest, hat⟩ := sound h
    obtain ⟨p', sent, left, bytes, hdrain, drained⟩ := hat.isrDrain
    exact ⟨_, (if_neg hdue).trans (congrArg (Option.map _) hdrain),
      sound.setPath h drained.at'.sound⟩

end Link.Sound

/-- **The FIFO is a faithful ordered channel.** In every run, on each of the two paths: what has
been accepted is what has been handed to the other core, then what is in the FIFO, then what waits
in the list, in this order; the cells that have not been read spell the part that is in the FIFO;
and the write index is at least eight bytes behind the read index. Every step that is due can be
made. -/
theorem channel_faithful {fifo : Host → Nat → UInt8} {fifoSize mtuSize : Host → Nat}
    (hsize : ∀ h, fifoSize h % 8 = 0 ∧ 0 < fifoSize h ∧ fifoSize h < 2 ^ 32) {hist : List Event}
    {l : Link} (run : Run Step (Link.initial fifo fifoSize mtuSize) hist l) :
    (∀ h, let p := l.path h
      (∃ done, p.accepted = done ++ (p.unread.filter Item.isSent ++ p.txList.map .command) ∧
        Handed done p.delivered) ∧
      Frames p.unread p.contents ∧
      getRxSize p ⟨p.desc.readInd, p.localWriteInd⟩ + 8 ≤ p.fifoSize) ∧
    ∀ e : Event, e.Due l → e.Promised l → ∃ l', Step l e l' := by
  have sound : l.Sound := run.state_invariant (.initial hsize) fun sound hstep => by
    obtain ⟨promised, hstep⟩ := hstep
    obtain ⟨l', hmade, sound'⟩ := sound.step (sound.due hstep) promised
    cases hmade.symm.trans hstep
    exact sound'
  refine ⟨fun h => ?_, fun e hdue promised => ?_⟩
  · obtain ⟨stream, r, k, n, snap, rest, hat⟩ := sound h
    exact ⟨hat.history, hat.frames_contents, hat.used_le⟩
  · obtain ⟨l', hmade, -⟩ := sound.step hdue promised
    exact ⟨l', promised, hmade⟩

/-- A step for which the promises are checked. -/
def Link.play (l : Link) (e : Event) : Option Link := if e.Promised l then l.step e else none

theorem Link.step_of_play {l l' : Link} {e : Event} (h : l.play e = some l') : Step l e l' := by
  unfold Link.play at h
  split at h
  · next promised => exact ⟨promised, h⟩
  · cases h

/-- Two hosts with FIFOs of 64 bytes. -/
def smallLink : Link := .initial (fun _ _ => 0) (fun _ => 64) (fun _ => 32)

/-- The left host opens a channel, announces an intent and negotiates, until a command has to wait.
The right host reads, the left one writes what waits, round the end of its FIFO, and sends a
packet. -/
def roundScript : List Event :=
  let open' := Command.chOpen 5 [97, 98] 0
  [.send .left open' true 0 0, .send .left (.localRxIntent 5 100 1) true 0 0,
    .send .left (.version 1 3) true 0 0, .send .left (.versionAck 1 3) true 0 0,
    .send .left (.setSigs 5 9) true 0 0,
    .isrEnter .right, .isrCommand .right 3 none, .isrCommand .right 3 none,
    .isrCommand .right 3 none, .isrCommand .right 3 none, .isrCommand .right 3 none,
    .isrLeave .right, .isrDrain .right,
    .isrEnter .left, .isrLeave .left, .isrDrain .left,
    .tx .left 3 5 ⟨7, 12, 12, false⟩ [1, 2, 3, 4, 5, 6, 7, 8, 9, 10, 11, 12] 0 0,
    .isrEnter .right, .isrCommand .right 3 none, .isrCommand .right 3 (some ⟨16, 0, 0⟩)]

/-- Everything that was sent has been handed on. -/
theorem channel_faithful_round :
    ∃ (hist : List Event) (l : Link), Run Step smallLink hist l ∧
      (l.path .left).delivered =
        [.remoteOpen 5 [97, 98] 0, .remoteRxIntentPut 5 1 100, .version 1 3, .versionAck 1 3,
          .remoteSigs 5 9, .packet 5 7 12 [1, 2, 3, 4, 5, 6, 7, 8, 9, 10, 11, 12] true] ∧
      ∃ done, (l.path .left).accepted = done ++ ((l.path .left).unread.filter Item.isSent ++
        (l.path .left).txList.map .command) ∧ Handed done (l.path .left).delivered := by
  have hexec : (execute Link.play smallLink roundScript).map (fun l => (l.path .left).delivered) =
      some [.remoteOpen 5 [97, 98] 0, .remoteRxIntentPut 5 1 100, .version 1 3, .versionAck 1 3,
        .remoteSigs 5 9, .packet 5 7 12 [1, 2, 3, 4, 5, 6, 7, 8, 9, 10, 11, 12] true] := by
    decide +kernel
  obtain ⟨l, hl, hdelivered⟩ := map_eq_some_iff.mp hexec
  have run : Run Step smallLink _ l := Run.of_execute Link.step_of_play .start hl
  have faithful := (channel_faithful (fun _ => by decide) run).1 .left
  exact ⟨_, l, run, hdelivered, faithful.1⟩

end GLink.Smem
