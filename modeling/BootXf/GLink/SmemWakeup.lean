import BootXf.GLink.SmemLink

/-!
# Wake-ups

A host that has commands in its list or a packet that waits is to be interrupted when there is
space again. What makes sure of it is a READ_REQ in its FIFO that the other host has not come to,
or an interrupt of its own that has not been handled to the end (`Link.Armed`). Writing a READ_REQ
may fail only when the FIFO is full up to eight bytes, and then a READ_REQ is the last that was
written (`Path.At.Last`).

The handler goes through the list without asking for an interrupt when it stops before the end.
`wakeup_kept`: in a run whose handlers write the whole list, or have been asked for another
interrupt, no wake-up is lost; and a handler that does neither loses it.
-/

namespace GLink.Smem

open Lib List Option Function

/-- Something waits for space. -/
def Path.Blocked (p : Path) : Prop := p.txList ≠ [] ∨ p.resumePending = true

/-- A READ_REQ that has not been read. -/
def Path.Asking (p : Path) : Prop := ∃ arg0 arg, Item.readReq arg0 arg ∈ p.unread

/-- Another handler of a host has to go through its list: an interrupt is pending, or its handler is
reading, or more than `n` of its handlers are past that. -/
def Link.Interrupted (l : Link) (h : Host) (n : Nat) : Prop :=
  (l.path h.other).event = true ∨ (l.path h.other).rx.isSome ∨ n < l.handlers h

/-- A host that will be able to go on. -/
def Link.Armed (l : Link) (h : Host) : Prop := (l.path h).Asking ∨ l.Interrupted h 0

/-- The space in the FIFO of a path. -/
def Path.space (p : Path) : Nat := p.fifoSize - getRxSize p ⟨p.desc.readInd, p.localWriteInd⟩

/-- A handler that goes through the list either has space for all of it, and eight bytes for each of
two READ_REQ more, or is not the last that will do so. -/
def Event.Rearms (l : Link) : Event → Prop
  | .isrDrain h =>
    (l.path h).txList = [] ∨ Path.At.totalSpace (l.path h).txList + 16 ≤ (l.path h).space ∨
      (l.path h).Asking ∨ l.Interrupted h 1
  | _ => True

instance (p : Path) : Decidable p.Blocked := inferInstanceAs (Decidable (_ ∨ _))

theorem Path.asking_iff {p : Path} : p.Asking ↔ ∃ i ∈ p.unread, i.isSent = false := by
  refine ⟨fun ⟨arg0, arg, hmem⟩ => ⟨_, hmem, rfl⟩, fun ⟨i, hmem, hsent⟩ => ?_⟩
  cases i with
  | command | fragment => cases hsent
  | readReq arg0 arg => exact ⟨arg0, arg, hmem⟩

instance (p : Path) : Decidable p.Asking := decidable_of_iff' _ Path.asking_iff

instance (l : Link) (h : Host) (n : Nat) : Decidable (l.Interrupted h n) :=
  inferInstanceAs (Decidable (_ ∨ _ ∨ _))

instance (l : Link) (h : Host) : Decidable (l.Armed h) := inferInstanceAs (Decidable (_ ∨ _))

instance (l : Link) : (e : Event) → Decidable (e.Rearms l)
  | .isrDrain _ => inferInstanceAs (Decidable (_ ∨ _ ∨ _ ∨ _))
  | .send .. | .tx .. | .isrEnter _ | .isrCommand .. | .isrLeave _ =>
    inferInstanceAs (Decidable True)

open Writing (avail)

namespace Path.At
variable {p p' : Path} {stream bytes : List UInt8} {r l n : Nat} {snap rest : List Item}

theorem space_eq (h : p.At stream r l n snap rest) : p.space = avail p stream r := by
  have h₁ := h.writing.room
  have h₂ := h.writing.read_le
  have hread : Reading p stream stream.length r :=
    { holds := h.writing.holds
      size_mod := h.writing.size_mod
      size_lt := h.writing.size_lt
      place := h.writing.read_mod
      le := h₂
      within := Nat.le_refl _
      room := by omega }
  unfold Path.space avail
  rw [h.writing.read, h.writing.write, hread.getRxSize_eq]

/-- When nothing more can be written, a READ_REQ was the last. -/
def Last (p : Path) (stream : List UInt8) (r : Nat) : Prop :=
  avail p stream r = 8 → ∃ arg0 arg, p.unread.getLast? = some (.readReq arg0 arg)

/-- A FIFO that is full up to eight bytes has a READ_REQ in it. -/
theorem Last.asking (last : Last p stream r) (hfull : avail p stream r = 8) : p.Asking := by
  obtain ⟨arg0, arg, hlast⟩ := last hfull
  exact ⟨arg0, arg, mem_of_getLast? hlast⟩

/-- What has been written, with sixteen bytes left. -/
theorem Last.of_written (h : p.At stream r l n snap rest) (hsize : p'.fifoSize = p.fifoSize)
    (hspace : bytes.length + 16 ≤ avail p stream r) : Last p' (stream ++ bytes) r := by
  intro hfull
  have hread := h.writing.read_le
  unfold avail at hspace hfull
  rw [length_append, hsize] at hfull
  omega

/-- A READ_REQ has been asked for: it is in the FIFO, and the last there when the FIFO is full. -/
theorem Asked.last (h : p.At stream r l n snap rest) (hsize : p'.fifoSize = p.fifoSize)
    (last : Last p stream r) (asked : Asked p stream r l n snap rest p') :
    p'.Asking ∧ ∃ stream' rest', p'.At stream' r l n snap rest' ∧ Last p' stream' r := by
  cases asked with
  | written arg0 arg bytes hspace hat =>
    have hunread := hat.unread
    refine ⟨⟨arg0, arg, by rw [hunread]; simp⟩, _, _, hat, fun _ => ⟨arg0, arg, ?_⟩⟩
    rw [hunread, ← append_assoc]
    simp
  | full hfull hat =>
    have hunread : p'.unread = p.unread := hat.unread.trans h.unread.symm
    have last' : Last p' stream r := by
      unfold Last avail
      rw [hunread, hsize]
      exact last
    refine ⟨last'.asking ?_, stream, rest, hat, last'⟩
    unfold avail
    rw [hsize]
    exact hfull

end Path.At

/-- A path on which a full FIFO always has a READ_REQ at its end. -/
def Path.Watched (p : Path) : Prop :=
  16 ≤ p.fifoSize ∧
    ∃ stream r l n snap rest, p.At stream r l n snap rest ∧ Path.At.Last p stream r

/-- More in the FIFO. -/
theorem Path.Asking.mono {p p' : Path} (h : p.Asking) {items : List Item}
    (hunread : p'.unread = p.unread ++ items) : p'.Asking := by
  obtain ⟨arg0, arg, hmem⟩ := h
  exact ⟨arg0, arg, hunread ▸ mem_append_left items hmem⟩

theorem Path.Asking.of_eq {p p' : Path} (h : p.Asking) (hunread : p'.unread = p.unread) :
    p'.Asking := by
  obtain ⟨arg0, arg, hmem⟩ := h
  exact ⟨arg0, arg, hunread ▸ hmem⟩

/-- What the two sending functions do to a path: when something waits behind them that did not wait
before, a READ_REQ is in the FIFO. -/
structure Path.Goes (p p' : Path) : Prop where
  keeps : p.Keeps p'
  watched : p'.Watched
  asking : p.Asking → p'.Asking
  blocked : p'.Blocked → p.Blocked ∨ p'.Asking

namespace Path.Watched
variable {p p' : Path} {arg0 : UInt16} {arg : UInt32} {status : GlinkStatus} {features : UInt32}

theorem sound (h : p.Watched) : p.Sound := by
  obtain ⟨-, stream, r, l, n, snap, rest, hat, -⟩ := h
  exact hat.sound

/-- The receiver's interrupt and the waiting of a packet are of no account. -/
theorem keep (h : p.Watched) (resumePending event : Bool) :
    { p with resumePending := resumePending, event := event }.Watched := by
  obtain ⟨hsize, stream, r, l, n, snap, rest, hat, last⟩ := h
  exact ⟨hsize, stream, r, l, n, snap, rest,
    hat.keep resumePending event hat.history hat.fits, last⟩

/-- `xport_smem_send_cmd`. -/
theorem sendCmd (h : p.Watched) {c : Command} (hc : c.Fits) {memory : Bool}
    (hsend : Smem.sendCmd p c memory arg0 arg = some (p', status)) : p.Goes p' := by
  obtain ⟨hsize, stream, r, l, n, snap, rest, hat, last⟩ := id h
  obtain ⟨q, status', hq, hresume, keeps, sent⟩ := hat.sendCmd hc memory arg0 arg
  cases hq.symm.trans hsend
  have hsize' : 16 ≤ p'.fifoSize := keeps.fifoSize.symm ▸ hsize
  cases sent with
  | written bytes hlist hlist' hspace hat' =>
    have hunread := hat'.unread
    rw [← append_assoc, ← hat.unread] at hunread
    refine ⟨keeps,
      ⟨hsize', _, _, _, _, _, _, hat', Path.At.Last.of_written hat keeps.fifoSize hspace⟩,
      fun asking => asking.mono hunread, fun blocked => .inl (blocked.imp ?_ ?_)⟩
    · exact fun hne => absurd hlist' hne
    · exact hresume.symm.trans
  | refused heq =>
    subst heq
    exact ⟨keeps, h, id, .inl⟩
  | queued _ asked =>
    obtain ⟨asking, stream', rest', hat', last'⟩ := Path.At.Asked.last hat keeps.fifoSize last asked
    exact ⟨keeps, ⟨hsize', _, _, _, _, _, _, hat', last'⟩, fun _ => asking, fun _ => .inr asking⟩

/-- `xport_smem_tx`. -/
theorem tx (h : p.Watched) {cid : UInt16} {pctx pctx' : Pctx}
    {fragData : List UInt8} (hprovided : fragData.length ≤ pctx.sizeRemaining)
    (hrest : pctx.sizeRemaining < 2 ^ 32)
    (htx : Smem.tx p features cid pctx fragData arg0 arg = some (p', pctx', status)) :
    p.Goes p' := by
  obtain ⟨hsize, stream, r, l, n, snap, rest, hat, last⟩ := id h
  obtain ⟨q, pctx'', status', hq, keeps, sent⟩ := hat.tx features cid hprovided hrest arg0 arg
  cases hq.symm.trans htx
  have hsize' : 16 ≤ p'.fifoSize := keeps.fifoSize.symm ▸ hsize
  cases sent with
  | same heq =>
    subst heq
    exact ⟨keeps, h, id, .inl⟩
  | waits hlist heq =>
    subst heq
    exact ⟨keeps, h.keep true p.event, id, fun _ => .inl (.inl hlist)⟩
  | written f bytes hresume hlist hresume' hlist' hspace hat' =>
    have hunread := hat'.unread
    rw [← append_assoc, ← hat.unread] at hunread
    refine ⟨keeps,
      ⟨hsize', _, _, _, _, _, _, hat', Path.At.Last.of_written hat keeps.fifoSize hspace⟩,
      fun asking => asking.mono hunread, ?_⟩
    rintro (hne | hwaits)
    · exact absurd hlist' hne
    · exact absurd (hresume'.symm.trans hwaits) (by decide)
  | asked _ asked =>
    obtain ⟨asking, stream', rest', hat', last'⟩ := Path.At.Asked.last hat keeps.fifoSize last asked
    exact ⟨keeps, ⟨hsize', _, _, _, _, _, _, hat', last'⟩, fun _ => asking, fun _ => .inr asking⟩

/-- The list in `xport_smem_isr`: what is in the FIFO behind it has more commands in it, and nothing
waits any more exactly when there was space for the whole list. -/
theorem isrDrain (h : p.Watched) (hdrain : Smem.isrDrain p = some p') :
    p.Keeps p' ∧ p'.Watched ∧ (p'.Asking ↔ p.Asking) ∧
      (p'.Blocked ↔ ¬ (p.txList = [] ∨ Path.At.totalSpace p.txList + 16 ≤ p.space)) := by
  obtain ⟨hsize, stream, r, l, n, snap, rest, hat, last⟩ := id h
  obtain ⟨q, sent, left, bytes, hq, drained⟩ := hat.isrDrain
  cases hq.symm.trans hdrain
  have hunread := drained.at'.unread
  rw [← append_assoc, ← hat.unread] at hunread
  have hsize' : 16 ≤ p'.fifoSize := drained.keeps.fifoSize.symm ▸ hsize
  refine ⟨drained.keeps, ⟨hsize', _, _, _, _, _, _, drained.at', ?_⟩, ⟨?_, fun asking =>
    asking.mono hunread⟩, ?_⟩
  · rcases drained.space with ⟨rfl, rfl⟩ | hspace
    · unfold Path.At.Last avail
      rw [hunread, map_nil, append_nil, append_nil, drained.keeps.fifoSize]
      exact last
    · exact Path.At.Last.of_written hat drained.keeps.fifoSize hspace
  · rintro ⟨arg0, arg, hmem⟩
    rw [hunread] at hmem
    rcases mem_append.mp hmem with hold | hnew
    · exact ⟨arg0, arg, hold⟩
    · simp at hnew
  · rw [hat.space_eq, ← drained.all, Path.Blocked, drained.txList, drained.resumePending]
    simp

/-- The handler begins. -/
theorem isrEnter (h : p.Watched) (hrx : p.rx = none) :
    (Smem.isrEnter p).Watched ∧ (Smem.isrEnter p).rx.isSome ∧
      (Smem.isrEnter p).unread = p.unread ∧ (Smem.isrEnter p).txList = p.txList ∧
      (Smem.isrEnter p).resumePending = p.resumePending := by
  obtain ⟨hsize, stream, r, l, n, snap, rest, hat, last⟩ := h
  obtain ⟨hsome, hat', hlist, hresume, hfifo⟩ := hat.isrEnter hrx
  have hunread : (Smem.isrEnter p).unread = p.unread := by
    rw [hat'.unread, append_nil, ← hat.unread]
  refine ⟨⟨hfifo.symm ▸ hsize, _, _, _, _, _, _, hat', ?_⟩, hsome, hunread, hlist, hresume⟩
  unfold Path.At.Last avail
  rw [hunread, hfifo]
  exact last

/-- One turn of the loop: a READ_REQ that is taken sends an interrupt back. -/
theorem isrCommand (h : p.Watched) {rx : Rx} (hrx : p.rx = some rx)
    (hmore : rx.ind.writeInd ≠ rx.ind.readInd) {desc : Option RxIntent}
    {back : Bool} (known : KnownNext desc p.unread.head?)
    (hcmd : Smem.isrCommand p features desc = some (p', back)) :
    p'.Watched ∧ p'.rx.isSome ∧ p'.txList = p.txList ∧ p'.resumePending = p.resumePending ∧
      p'.event = p.event ∧ (p.Asking → p'.Asking ∨ back = true) := by
  obtain ⟨hsize, stream, r, l, n, snap, rest, hat, last⟩ := h
  obtain ⟨q, back', hq, ⟨hsome, hlist, hresume, hevent, hfifo⟩, turned⟩ :=
    hat.isrCommand hrx hmore features fun f hf => (by
      rw [hf] at known
      exact known : Known desc f)
  cases hq.symm.trans hcmd
  have hsize' : 16 ≤ p'.fifoSize := hfifo.symm ▸ hsize
  have hunread := hat.unread
  cases turned with
  | delivered i snap' l' heq hsent hat' =>
    have hunread' := hat'.unread
    rw [heq, cons_append, ← hunread'] at hunread
    refine ⟨⟨hsize', _, _, _, _, _, _, hat', fun hfull => ?_⟩, hsome, hlist, hresume, hevent, ?_⟩
    · -- what is last is behind the item, which is no READ_REQ
      obtain ⟨arg0, arg, hlast⟩ := last (by unfold avail at hfull ⊢; rw [← hfifo]; exact hfull)
      rw [hunread] at hlast
      cases hrest : p'.unread with
      | nil =>
        rw [hrest] at hlast
        cases hlast
        cases hsent
      | cons j js => exact ⟨arg0, arg, by rw [hrest, getLast?_cons_cons] at hlast; exact hlast⟩
    · rintro ⟨arg0, arg, hmem⟩
      rw [hunread] at hmem
      rcases mem_cons.mp hmem with heq | hmem
      · rw [← heq] at hsent
        cases hsent
      · exact .inl ⟨arg0, arg, hmem⟩
  | readReq arg0 arg snap' l' heq hl' hat' =>
    refine ⟨⟨hsize', _, _, _, _, _, _, hat', fun hfull => ?_⟩, hsome, hlist, hresume, hevent,
      fun _ => .inr rfl⟩
    -- the shared read index has moved on
    have h₁ := hat.writing.room
    have h₂ := hat'.writing.read_le
    unfold avail at hfull
    rw [hfifo] at hfull
    omega

/-- The handler has read what was there. -/
theorem isrLeave (h : p.Watched) {rx : Rx} (hrx : p.rx = some rx)
    (hdone : rx.ind.writeInd = rx.ind.readInd) (hleave : Smem.isrLeave p = some p') :
    p'.Watched ∧ p'.unread = p.unread ∧ p'.txList = p.txList ∧
      p'.resumePending = p.resumePending ∧ p'.event = p.event := by
  obtain ⟨hsize, stream, r, l, n, snap, rest, hat, last⟩ := h
  obtain ⟨q, hq, rfl, hat', -, hlist, hresume, hevent, hfifo⟩ := hat.isrLeave hrx hdone
  cases hq.symm.trans hleave
  have hunread : p'.unread = p.unread := hat'.unread.trans hat.unread.symm
  refine ⟨⟨hfifo.symm ▸ hsize, _, _, _, _, _, _, hat', fun hfull => ?_⟩, hunread, hlist, hresume,
    hevent⟩
  rw [hunread]
  refine last ?_
  have h₁ := hat.writing.room
  have h₂ := hat.read_le
  have h₃ := hat.place_le
  have h₄ := hat.snap_le
  unfold avail at hfull ⊢
  rw [hfifo] at hfull
  omega

end Path.Watched

/-! ## Links -/

/-- On both paths a full FIFO always has a READ_REQ at its end. -/
def Link.Watched (l : Link) : Prop := ∀ h, (l.path h).Watched

/-- No wake-up is lost. -/
def Link.Woken (l : Link) : Prop := ∀ h, (l.path h).Blocked → l.Armed h

theorem Link.setPath_other (l : Link) (h : Host) (p : Path) :
    (l.setPath h p).path h.other = l.path h.other := l.setPath_ne p (Host.other_ne h)

theorem Link.setPath_of_other (l : Link) (h : Host) (p : Path) :
    (l.setPath h.other p).path h = l.path h := l.setPath_ne p (Host.ne_other h)

/-- A property of all hosts is one of a host and the other one. -/
theorem Host.forall_of {P : Host → Prop} {h : Host} (self : P h) (other : P h.other) :
    ∀ k, P k := by
  intro k
  rcases Decidable.em (k = h) with rfl | hk
  · exact self
  · have heq : k = h.other := by cases k <;> cases h <;> first | rfl | exact absurd rfl hk
    exact heq ▸ other

/-- What a step must not take away. -/
theorem Link.Interrupted.mono {l l' : Link} {h : Host} {n n' : Nat} (hint : l.Interrupted h n)
    (hevent : (l.path h.other).event = true → (l'.path h.other).event = true)
    (hrx : (l.path h.other).rx.isSome → (l'.path h.other).rx.isSome)
    (hhandlers : n < l.handlers h → n' < l'.handlers h) : l'.Interrupted h n' :=
  hint.imp hevent (.imp hrx hhandlers)

namespace Link.Watched
variable {l l' : Link} {h : Host}

theorem sound (h : l.Watched) : l.Sound := fun k => (h k).sound

theorem initial {fifo : Host → Nat → UInt8} {fifoSize mtuSize : Host → Nat}
    (hsize : ∀ h, fifoSize h % 8 = 0 ∧ 16 ≤ fifoSize h ∧ fifoSize h < 2 ^ 32) :
    (Link.initial fifo fifoSize mtuSize).Watched := by
  intro h
  obtain ⟨hmod, hle, hlt⟩ := hsize h
  have sound : (Link.initial fifo fifoSize mtuSize).Sound := .initial fun h =>
    ⟨(hsize h).1, Nat.lt_of_lt_of_le (by decide) (hsize h).2.1, (hsize h).2.2⟩
  obtain ⟨stream, r, k, n, snap, rest, hat⟩ := sound h
  refine ⟨hle, stream, r, k, n, snap, rest, hat, fun hfull => ?_⟩
  -- both indices are zero, so that the whole FIFO is free
  rw [← hat.space_eq] at hfull
  have hspace : ((Link.initial fifo fifoSize mtuSize).path h).space = fifoSize h := rfl
  omega

/-- One path is replaced. -/
theorem setPath (watched : l.Watched) (h : Host) {p : Path} (hp : p.Watched) :
    (l.setPath h p).Watched := by
  refine Host.forall_of (h := h) ?_ ?_
  · rwa [Link.setPath_self]
  · rw [Link.setPath_other]
    exact watched h.other

/-- The two functions that send. -/
theorem goes (watched : l.Watched) (h : Host) {p' : Path} (hgoes : (l.path h).Goes p') :
    (l.setPath h p').Watched ∧ (l.Woken → (l.setPath h p').Woken) := by
  refine ⟨watched.setPath h hgoes.watched, fun woken => Host.forall_of (h := h) ?_ ?_⟩
  · intro blocked
    rw [Link.setPath_self] at blocked
    unfold Link.Armed
    rw [Link.setPath_self]
    rcases hgoes.blocked blocked with before | asking
    · refine (woken h before).imp hgoes.asking fun hint => hint.mono ?_ ?_ id
      · rw [Link.setPath_other]
        exact id
      · rw [Link.setPath_other]
        exact id
    · exact .inl asking
  · intro blocked
    rw [Link.setPath_other] at blocked
    unfold Link.Armed
    rw [Link.setPath_other]
    refine (woken h.other blocked).imp id fun hint => hint.mono ?_ ?_ id
    · rw [Host.other_other, Link.setPath_self]
      exact hgoes.keeps.event
    · rw [Host.other_other, Link.setPath_self, hgoes.keeps.rx]
      exact id

/-- A handler begins. -/
theorem enter (watched : l.Watched) (hstep : l.step (.isrEnter h) = some l') :
    l'.Watched ∧ (l.Woken → l'.Woken) := by
  have hrx : (l.path h.other).rx = none := watched.sound.due hstep
  obtain ⟨watched', hsome, hunread, hlist, hresume⟩ := (watched h.other).isrEnter hrx
  have hl' : l' = l.setPath h.other (isrEnter (l.path h.other)) := by
    simp only [Link.step] at hstep
    split at hstep
    · cases hstep
    · exact (Option.some.inj hstep).symm
  subst hl'
  refine ⟨watched.setPath h.other watched', fun woken => Host.forall_of (h := h) ?_ ?_⟩
  · -- the handler itself will go through the list
    intro _
    refine .inr (.inr (.inl ?_))
    rw [Link.setPath_self]
    exact hsome
  · intro blocked
    rw [Link.setPath_self, Path.Blocked, hlist, hresume] at blocked
    refine (woken h.other blocked).imp ?_ fun hint => hint.mono ?_ ?_ id
    · intro asking
      rw [Link.setPath_self]
      exact asking.of_eq hunread
    · rw [Host.other_other, Link.setPath_of_other]
      exact id
    · rw [Host.other_other, Link.setPath_of_other]
      exact id

/-- A turn of the loop of a handler. -/
theorem command (watched : l.Watched) {features : UInt32} {desc : Option RxIntent}
    (known : KnownNext desc (l.path h.other).unread.head?)
    (hstep : l.step (.isrCommand h features desc) = some l') :
    l'.Watched ∧ (l.Woken → l'.Woken) := by
  obtain ⟨rx, hrx, hmore⟩ := watched.sound.due hstep
  obtain ⟨⟨p', back⟩, hcmd, rfl⟩ := map_eq_some_iff.mp hstep
  obtain ⟨watched', hsome, hlist, hresume, hevent, hasking⟩ :=
    (watched h.other).isrCommand hrx hmore known hcmd
  dsimp only
  refine ⟨setPath (watched.setPath h.other watched') h ((watched h).keep _ _), fun woken =>
    Host.forall_of (h := h) ?_ ?_⟩
  · intro _
    refine .inr (.inr (.inl ?_))
    rw [Link.setPath_other, Link.setPath_self]
    exact hsome
  · intro blocked
    rw [Link.setPath_other, Link.setPath_self, Path.Blocked, hlist, hresume] at blocked
    unfold Link.Armed Link.Interrupted
    rw [Link.setPath_other, Link.setPath_self, Host.other_other, Link.setPath_self]
    rcases woken h.other blocked with asking | hint
    · rcases hasking asking with asking | hback
      · exact .inl asking
      · -- the READ_REQ that has been read sends the interrupt
        refine .inr (.inl ?_)
        dsimp only
        rw [hback, Bool.or_true]
    · unfold Link.Interrupted at hint
      rw [Host.other_other] at hint
      refine .inr (hint.imp (fun hevent => ?_) id)
      dsimp only
      rw [hevent, Bool.true_or]

/-- A handler has read what was there: it will go through the list. -/
theorem leave (watched : l.Watched) (hstep : l.step (.isrLeave h) = some l') :
    l'.Watched ∧ (l.Woken → l'.Woken) := by
  obtain ⟨rx, hrx, hdone⟩ := watched.sound.due hstep
  obtain ⟨p', hleave, rfl⟩ := map_eq_some_iff.mp hstep
  obtain ⟨watched', hunread, hlist, hresume, hevent⟩ := (watched h.other).isrLeave hrx hdone hleave
  refine ⟨watched.setPath h.other watched', fun woken => Host.forall_of (h := h) ?_ ?_⟩
  · intro _
    refine .inr (.inr (.inr ?_))
    dsimp only
    rw [update_self]
    exact Nat.succ_pos _
  · intro blocked
    dsimp only at blocked
    rw [Link.setPath_self, Path.Blocked, hlist, hresume] at blocked
    refine (woken h.other blocked).imp ?_ fun hint => hint.mono ?_ ?_ ?_
    · intro asking
      dsimp only
      rw [Link.setPath_self]
      exact asking.of_eq hunread
    · dsimp only
      rw [Host.other_other, Link.setPath_of_other]
      exact id
    · dsimp only
      rw [Host.other_other, Link.setPath_of_other]
      exact id
    · dsimp only
      rw [update_of_ne (Host.other_ne h)]
      exact id

/-- A handler goes through the list. -/
theorem drain (watched : l.Watched) (hstep : l.step (.isrDrain h) = some l') :
    l'.Watched ∧ (l.Woken → ((Event.isrDrain h).Rearms l ↔ l'.Woken)) := by
  have hpos : l.handlers h ≠ 0 := watched.sound.due hstep
  obtain ⟨p', hdrain, rfl⟩ := map_eq_some_iff.mp ((if_neg hpos).symm.trans hstep)
  obtain ⟨keeps, watched', hasking, hblocked⟩ := (watched h).isrDrain hdrain
  have hself : ∀ n, (Link.mk (l.setPath h p').path
      (update l.handlers h (l.handlers h - 1))).Interrupted h n ↔
        l.Interrupted h (n + 1) := by
    intro n
    unfold Link.Interrupted
    dsimp only
    rw [Link.setPath_other, update_self]
    exact or_congr Iff.rfl (or_congr Iff.rfl (by omega))
  refine ⟨watched.setPath h watched', fun woken => ⟨fun rearms => ?_, fun woken' => ?_⟩⟩
  · refine Host.forall_of (h := h) ?_ ?_
    · intro blocked
      dsimp only at blocked
      rw [Link.setPath_self, hblocked] at blocked
      rcases rearms with hnil | hspace | asking | hint
      · exact absurd (.inl hnil) blocked
      · exact absurd (.inr hspace) blocked
      · refine .inl ?_
        dsimp only
        rw [Link.setPath_self]
        exact hasking.mpr asking
      · exact .inr ((hself 0).mpr hint)
    · intro blocked
      dsimp only at blocked
      rw [Link.setPath_other] at blocked
      refine (woken h.other blocked).imp ?_ fun hint => hint.mono ?_ ?_ ?_
      · dsimp only
        rw [Link.setPath_other]
        exact id
      · dsimp only
        rw [Host.other_other, Link.setPath_self]
        exact keeps.event
      · dsimp only
        rw [Host.other_other, Link.setPath_self, keeps.rx]
        exact id
      · dsimp only
        rw [update_of_ne (Host.other_ne h)]
        exact id
  · -- what the handler leaves behind is to be armed
    have hwoken := woken' h
    dsimp only at hwoken
    rw [Link.setPath_self, hblocked, Link.Armed, hself 0] at hwoken
    dsimp only at hwoken
    rw [Link.setPath_self, hasking] at hwoken
    unfold Event.Rearms
    rcases Decidable.em ((l.path h).txList = [] ∨
        Path.At.totalSpace (l.path h).txList + 16 ≤ (l.path h).space) with hall | hleft
    · exact hall.imp id .inl
    · exact .inr (.inr (hwoken hleft))

/-- **One step.** It keeps the invariant of the paths, and no wake-up is lost by it exactly when it
rearms. -/
theorem step (watched : l.Watched) {e : Event} (hstep : Step l e l') :
    l'.Watched ∧ (l.Woken → (e.Rearms l ↔ l'.Woken)) := by
  have always : ∀ {e : Event}, e.Rearms l → l'.Watched ∧ (l.Woken → l'.Woken) →
      l'.Watched ∧ (l.Woken → (e.Rearms l ↔ l'.Woken)) := fun rearms kept =>
    ⟨kept.1, fun woken => ⟨fun _ => kept.2 woken, fun _ => rearms⟩⟩
  obtain ⟨promised, hstep⟩ := hstep
  cases e with
  | send h c memory arg0 arg =>
    obtain ⟨⟨p', status⟩, hsend, rfl⟩ := map_eq_some_iff.mp hstep
    exact always trivial (watched.goes h ((watched h).sendCmd promised hsend))
  | tx h features cid pctx fragData arg0 arg =>
    obtain ⟨⟨p', pctx', status⟩, htx, rfl⟩ := map_eq_some_iff.mp hstep
    exact always trivial (watched.goes h ((watched h).tx promised.1 promised.2 htx))
  | isrEnter h => exact always trivial (watched.enter hstep)
  | isrCommand h features desc => exact always trivial (watched.command promised hstep)
  | isrLeave h => exact always trivial (watched.leave hstep)
  | isrDrain h => exact watched.drain hstep

end Link.Watched

/-- Nothing waits at the beginning. -/
theorem Link.Woken.initial {fifo : Host → Nat → UInt8} {fifoSize mtuSize : Host → Nat} :
    (Link.initial fifo fifoSize mtuSize).Woken := by
  rintro h (hne | hwaits)
  · exact absurd rfl hne
  · cases hwaits

/-- **No wake-up is lost in a run whose handlers rearm**: a host that has commands in its list or a
packet that waits has a READ_REQ in its FIFO that has not been read, or an interrupt of its own that
has not been handled to the end. After such a run a wake-up is lost by each step of a handler that
does not. -/
theorem wakeup_kept {fifo : Host → Nat → UInt8} {fifoSize mtuSize : Host → Nat}
    (hsize : ∀ h, fifoSize h % 8 = 0 ∧ 16 ≤ fifoSize h ∧ fifoSize h < 2 ^ 32) {hist : List Event}
    {l : Link}
    (run : Run (fun l e l' => Step l e l' ∧ e.Rearms l)
      (Link.initial fifo fifoSize mtuSize) hist l) :
    (∀ h, (l.path h).Blocked → l.Armed h) ∧
      ∀ (e : Event) (l' : Link), Step l e l' → ¬ e.Rearms l →
        ∃ h, (l'.path h).Blocked ∧ ¬ l'.Armed h := by
  have kept : l.Watched ∧ l.Woken := by
    refine run.state_invariant (P := fun l => l.Watched ∧ l.Woken) ⟨.initial hsize, .initial⟩ ?_
    rintro l e l' ⟨watched, woken⟩ ⟨hstep, rearms⟩
    obtain ⟨watched', hiff⟩ := watched.step hstep
    exact ⟨watched', (hiff woken).mp rearms⟩
  refine ⟨kept.2, fun e l' hstep hnot => ?_⟩
  apply Classical.byContradiction
  intro hall
  refine hnot (((kept.1.step hstep).2 kept.2).mpr fun h blocked => ?_)
  exact Classical.byContradiction fun hunarmed => hall ⟨h, blocked, hunarmed⟩

/-- A step of a run that rearms. -/
def Link.playRearming (l : Link) (e : Event) : Option Link := if e.Rearms l then l.play e else none

theorem Link.step_of_playRearming {l l' : Link} {e : Event} (h : l.playRearming e = some l') :
    Step l e l' ∧ e.Rearms l := by
  unfold Link.playRearming at h
  split at h
  · next rearms => exact ⟨Link.step_of_play h, rearms⟩
  · cases h

/-- The left host opens three channels with names of 31 characters, of which the FIFO has space for
one. The right host reads it and both READ_REQs, and the left one is interrupted. -/
def threeOpens : List Event :=
  let open' := Command.chOpen 5 (replicate 31 97) 0
  [.send .left open' true 0 0, .send .left open' true 0 0, .send .left open' true 0 0,
    .isrEnter .right, .isrCommand .right 0 none, .isrCommand .right 0 none,
    .isrCommand .right 0 none, .isrLeave .right, .isrDrain .right, .isrEnter .left, .isrLeave .left]

/-- Two commands wait for a handler that has space for one of them. -/
theorem wakeup_kept_threeOpens :
    ∃ (hist : List Event) (l l' : Link),
      Run (fun l e l' => Step l e l' ∧ e.Rearms l) smallLink hist l ∧ (l.path .left).Blocked ∧
        l.Armed .left ∧ Step l (.isrDrain .left) l' ∧ ∃ h, (l'.path h).Blocked ∧ ¬ l'.Armed h := by
  have hexec : (execute Link.playRearming smallLink threeOpens).bind (fun l =>
      if (l.path .left).Blocked ∧ ¬ (Event.isrDrain .left).Rearms l then
        (l.play (.isrDrain .left)).map fun l' => (l, l')
      else none) |>.isSome := by
    decide +kernel
  obtain ⟨⟨l, l'⟩, hsome⟩ := isSome_iff_exists.mp hexec
  obtain ⟨l₁, hl, hcheck⟩ := bind_eq_some_iff.mp hsome
  split at hcheck
  · next hcond =>
    obtain ⟨l₂, hplay, heq⟩ := map_eq_some_iff.mp hcheck
    cases heq
    have run : Run (fun l e l' => Step l e l' ∧ e.Rearms l) smallLink _ l :=
      Run.of_execute Link.step_of_playRearming .start hl
    have kept := wakeup_kept (fun _ => by decide) run
    have hstep := Link.step_of_play hplay
    exact ⟨_, l, l', run, hcond.1, kept.1 .left hcond.1, hstep, kept.2 _ l' hstep hcond.2⟩
  · cases hcheck

/-- The handler of the left host writes the second command, and nobody will tell it about the
third. -/
theorem wakeup_lost :
    ∃ (hist : List Event) (l : Link), Run Step smallLink hist l ∧ (l.path .left).Blocked ∧
      ¬ l.Armed .left := by
  have hexec : (execute Link.play smallLink (threeOpens ++ [.isrDrain .left])).map
      (fun l => decide ((l.path .left).Blocked ∧ ¬ l.Armed .left)) = some true := by
    decide +kernel
  obtain ⟨l, hl, hlost⟩ := map_eq_some_iff.mp hexec
  have run : Run Step smallLink _ l := Run.of_execute Link.step_of_play .start hl
  exact ⟨_, l, run, of_decide_eq_true hlost⟩

end GLink.Smem
