import BootXf.GLink.SmemSend

/-!
# The invariant of a path

The FIFO holds the frames of what has been written and not read, behind the place that the receiver
has come to; what has been accepted is what has been handed to the core, what is in the FIFO, and
what waits in the list, in this order (`Path.At`). Every function of the sender keeps it and says
what it has added (`At.sendCmd`, `At.tx`, `At.isrDrain`).
-/

namespace GLink.Smem

open Lib List Option

/-- What an item is for the receiver's core, which has negotiated some features. -/
def Item.received (features : UInt32) : Item → Option Delivery
  | .command (.version v f) => some (.version v f)
  | .command (.versionAck v f) => some (.versionAck v f)
  | .command (.chOpen cid name prio) => some (.remoteOpen cid name (receivedPrio features prio))
  | .command (.chClose cid _) => some (.remoteClose cid)
  | .command (.chRemoteOpenAck cid prio) => some (.openAck cid (receivedPrio features prio))
  | .command (.chRemoteCloseAck cid _) => some (.closeAck cid)
  | .command (.rxIntentReq cid size) => some (.remoteRxIntentReq cid size)
  | .command (.remoteRxIntentReqAck cid granted) => some (.rxIntentReqAck cid granted)
  | .command (.localRxIntent cid size liid) => some (.remoteRxIntentPut cid liid size)
  | .command (.localRxDone cid liid reuse) => some (.txDone cid liid reuse)
  | .command (.setSigs cid sigs) => some (.remoteSigs cid sigs)
  | .fragment f =>
    if f.first then
      some (.packet f.cid f.iid (f.data.length + f.remaining.toNat) f.data (f.remaining == 0))
    else some (.packetCont f.cid f.iid f.data (f.remaining == 0))
  | .readReq .. => none

/-- Everything but a READ_REQ. -/
def Item.isSent : Item → Bool
  | .readReq .. => false
  | _ => true

@[simp] theorem Item.isSent_command (c : Command) : (Item.command c).isSent = true := rfl
@[simp] theorem Item.isSent_fragment (f : Fragment) : (Item.fragment f).isSent = true := rfl
@[simp] theorem Item.isSent_readReq (arg0 : UInt16) (arg : UInt32) :
    (Item.readReq arg0 arg).isSent = false := rfl

/-- What has been handed to the core of some items, with the features of the time. -/
inductive Handed : List Item → List Delivery → Prop
  | nil : Handed [] []
  | snoc {items : List Item} {ds : List Delivery} {i : Item} {d : Delivery} (features : UInt32) :
      Handed items ds → i.received features = some d → Handed (items ++ [i]) (ds ++ [d])

/-- The order of things: handed to the core, in the FIFO, in the list. -/
def History (accepted unread : List Item) (queue : List Command)
    (delivered : List Delivery) : Prop :=
  ∃ done, accepted = done ++ (unread.filter Item.isSent ++ queue.map .command) ∧
    Handed done delivered

namespace History
variable {accepted unread : List Item} {queue : List Command} {delivered : List Delivery}

/-- An item that is written at once. -/
theorem accept {i : Item} (h : History accepted unread [] delivered) (hi : i.isSent = true) :
    History (accepted ++ [i]) (unread ++ [i]) [] delivered := by
  obtain ⟨done, rfl, handed⟩ := h
  exact ⟨done, by simp [filter_append, hi], handed⟩

/-- An item that has to wait. -/
theorem enqueue {c : Command} (h : History accepted unread queue delivered) :
    History (accepted ++ [.command c]) unread (queue ++ [c]) delivered := by
  obtain ⟨done, rfl, handed⟩ := h
  exact ⟨done, by simp, handed⟩

/-- The first items of the list are written. -/
theorem dequeue {sent left : List Command} (h : History accepted unread (sent ++ left) delivered) :
    History accepted (unread ++ sent.map .command) left delivered := by
  obtain ⟨done, rfl, handed⟩ := h
  have hsent : (sent.map Item.command).filter Item.isSent = sent.map .command :=
    filter_eq_self.mpr (by simp)
  exact ⟨done, by simp [filter_append, hsent], handed⟩

/-- A READ_REQ is not for the core. -/
theorem readReq (h : History accepted unread queue delivered) (arg0 : UInt16) (arg : UInt32) :
    History accepted (unread ++ [.readReq arg0 arg]) queue delivered := by
  obtain ⟨done, rfl, handed⟩ := h
  exact ⟨done, by simp [filter_append], handed⟩

/-- The first item of the FIFO is handed on. -/
theorem deliver {i : Item} {d : Delivery} (features : UInt32)
    (h : History accepted (i :: unread) queue delivered) (hd : i.received features = some d) :
    History accepted unread queue (delivered ++ [d]) := by
  obtain ⟨done, rfl, handed⟩ := h
  have hi : i.isSent = true := by
    cases i with
    | readReq => cases hd
    | _ => rfl
  exact ⟨done ++ [i], by simp [hi], handed.snoc features hd⟩

/-- Or it is a READ_REQ. -/
theorem dropReadReq {arg0 : UInt16} {arg : UInt32}
    (h : History accepted (.readReq arg0 arg :: unread) queue delivered) :
    History accepted unread queue delivered := h

end History

/-- What the sender's functions leave alone. They only raise the receiver's interrupt. -/
structure Path.Keeps (p p' : Path) : Prop where
  fifoSize : p'.fifoSize = p.fifoSize
  rx : p'.rx = p.rx
  event : p.event = true → p'.event = true

/-- **The invariant of a path.** `stream` is what has been written to the FIFO, the shared read
index says that `r` of it has been read, and the receiver has come to `l`. While its handler runs
it reads up to `n`, which was the end of the stream when the handler began; `snap` is in front of
`n` and `rest` behind it. -/
structure Path.At (p : Path) (stream : List UInt8) (r l n : Nat)
    (snap rest : List Item) : Prop where
  writing : Writing p stream r
  published : p.desc.writeInd = p.localWriteInd
  localRead : p.localReadInd = p.desc.readInd
  read_le : r ≤ l
  place_le : l ≤ n
  snap_le : n ≤ stream.length
  unread : p.unread = snap ++ rest
  snapFrames : Frames snap ((stream.take n).drop l)
  restFrames : Frames rest (stream.drop n)
  rx : match p.rx with
    | none => l = r ∧ n = r
    | some rx => rx = ⟨⟨l % p.fifoSize, n % p.fifoSize⟩, false⟩
  history : History p.accepted p.unread p.txList p.delivered
  fits : ∀ c ∈ p.txList, c.Fits

namespace Path.At
variable {p p' : Path} {stream bytes : List UInt8} {r l n : Nat} {snap rest : List Item}
  {txList : List Command} {c : Command}

/-- An item more in the FIFO, and published. -/
theorem write (h : p.At stream r l n snap rest) {i : Item} (wrote : Wrote p stream r i p' bytes)
    (hi : i.Fits) (resumePending : Bool) {accepted : List Item}
    (history : History accepted (p.unread ++ [i]) txList p.delivered)
    (fits : ∀ c ∈ txList, c.Fits) :
    (sendEvent { p' with
      accepted := accepted, txList := txList, resumePending := resumePending }).At
      (stream ++ bytes) r l n snap (rest ++ [i]) := by
  obtain ⟨⟨fifo, w, rfl⟩, hframe, hwriting⟩ := wrote
  have hn := h.snap_le
  refine
    { writing := hwriting.of_eq rfl rfl rfl rfl
      published := rfl
      localRead := h.localRead
      read_le := h.read_le
      place_le := h.place_le
      snap_le := by rw [length_append]; omega
      unread := ?_
      snapFrames := ?_
      restFrames := ?_
      rx := h.rx
      history := history
      fits := fits }
  · rw [← append_assoc, ← h.unread]
    rfl
  · rw [take_append_of_le_length hn]
    exact h.snapFrames
  · rw [drop_append_of_le_length hn]
    exact h.restFrames.snoc ⟨hframe, hi⟩

/-- Nothing new in the FIFO. -/
theorem keep (h : p.At stream r l n snap rest) (resumePending event : Bool) {accepted : List Item}
    (history : History accepted p.unread txList p.delivered) (fits : ∀ c ∈ txList, c.Fits) :
    { p with
      accepted := accepted, txList := txList, resumePending := resumePending
      event := event }.At stream r l n snap rest :=
  { h with writing := h.writing.of_eq rfl rfl rfl rfl, history := history, fits := fits }

open Writing (avail avail_le)

/-- What a READ_REQ adds, when there is space for it. Without space the path stays as it is. -/
inductive Asked (p : Path) (stream : List UInt8) (r l n : Nat) (snap rest : List Item) (p' : Path) :
    Prop
  | written (arg0 : UInt16) (arg : UInt32) (bytes : List UInt8) :
      16 ≤ avail p stream r → p'.At (stream ++ bytes) r l n snap (rest ++ [.readReq arg0 arg]) →
      Asked p stream r l n snap rest p'
  | full : avail p stream r = 8 → p'.At stream r l n snap rest → Asked p stream r l n snap rest p'

/-- What `xport_smem_send_cmd` comes to: the command is written, or there is no memory for the list,
or the command waits in the list and a READ_REQ has been asked for. -/
inductive SentCmd (p : Path) (stream : List UInt8) (r l n : Nat) (snap rest : List Item)
    (c : Command) (p' : Path) : Prop
  | written (bytes : List UInt8) : p.txList = [] → p'.txList = [] →
      bytes.length + 16 ≤ avail p stream r →
      p'.At (stream ++ bytes) r l n snap (rest ++ [.command c]) →
      SentCmd p stream r l n snap rest c p'
  | refused : p' = p → SentCmd p stream r l n snap rest c p'
  | queued : p'.txList = p.txList ++ [c] → Asked p stream r l n snap rest p' →
      SentCmd p stream r l n snap rest c p'

/-- A command that has not been written. -/
theorem queueCmd (h : p.At stream r l n snap rest) (hc : c.Fits) (memory : Bool)
    (arg0 : UInt16) (arg : UInt32) :
    ∃ p' status, Smem.queueCmd p c memory arg0 arg = some (p', status) ∧
      p'.resumePending = p.resumePending ∧ p.Keeps p' ∧
      SentCmd p stream r l n snap rest c p' := by
  cases memory with
  | false => exact ⟨p, _, rfl, rfl, ⟨rfl, rfl, id⟩, .refused rfl⟩
  | true =>
    have hfits : ∀ d ∈ p.txList ++ [c], d.Fits := by
      intro d hd
      rcases mem_append.mp hd with hd | hd
      · exact h.fits d hd
      · rw [mem_singleton.mp hd]
        exact hc
    let q : Path := { p with txList := p.txList ++ [c], accepted := p.accepted ++ [.command c] }
    have hq : q.At stream r l n snap rest :=
      { h with
        writing := h.writing.of_eq rfl rfl rfl rfl
        history := h.history.enqueue, fits := hfits }
    rcases hq.writing.writeReadReq arg0 arg with ⟨hfull, hno⟩ | ⟨hspace, p', bytes, hyes, wrote⟩
    · refine ⟨sendEvent q, .success, ?_, rfl, ⟨rfl, rfl, fun _ => rfl⟩,
        .queued rfl (.full hfull ?_)⟩
      · exact congrArg (·.bind fun r => some (sendEvent r.2, GlinkStatus.success)) hno
      · exact { hq with published := rfl, writing := hq.writing.of_eq rfl rfl rfl rfl }
    · have hat := hq.write wrote trivial p.resumePending (hq.history.readReq arg0 arg) hfits
      obtain ⟨⟨_, _, rfl⟩, -, -⟩ := wrote
      refine ⟨_, .success, ?_, ?_, ?_, .queued ?_ (.written arg0 arg bytes hspace hat)⟩
      · exact congrArg (·.bind fun r => some (sendEvent r.2, GlinkStatus.success)) hyes
      · rfl
      · exact ⟨rfl, rfl, fun _ => rfl⟩
      · rfl

/-- **`xport_smem_send_cmd`.** -/
theorem sendCmd (h : p.At stream r l n snap rest) (hc : c.Fits) (memory : Bool)
    (arg0 : UInt16) (arg : UInt32) :
    ∃ p' status, Smem.sendCmd p c memory arg0 arg = some (p', status) ∧
      p'.resumePending = p.resumePending ∧ p.Keeps p' ∧
      SentCmd p stream r l n snap rest c p' := by
  unfold Smem.sendCmd
  cases hlist : p.txList with
  | cons d ds => exact h.queueCmd hc memory arg0 arg
  | nil =>
    rcases h.writing.writeCmd hc with ⟨-, hno⟩ | ⟨hspace, p', bytes, hyes, wrote⟩
    · simp only [isEmpty_nil, if_true, hno, bind_eq_bind, bind_some,
        Bool.false_eq_true, if_false]
      exact h.queueCmd hc memory arg0 arg
    · simp only [isEmpty_nil, if_true, hyes, bind_eq_bind, bind_some]
      have hlen := hc.length_frame wrote.frame
      have hist := h.history
      rw [hlist] at hist
      have hat :=
        h.write wrote hc p.resumePending (hlist ▸ hist.accept (i := .command c) rfl) h.fits
      obtain ⟨⟨_, _, rfl⟩, -, -⟩ := wrote
      refine ⟨_, .success, rfl, ?_, ?_, .written bytes hlist ?_ (by omega) hat⟩
      · rfl
      · exact ⟨rfl, rfl, fun _ => rfl⟩
      · exact hlist

/-- What `xport_smem_tx` comes to: nothing, or the list is not empty and it waits behind it, or a
fragment is written, or it waits and a READ_REQ has been asked for. -/
inductive SentTx (p : Path) (stream : List UInt8) (r l n : Nat)
    (snap rest : List Item) (p' : Path) :
    Prop
  | same : p' = p → SentTx p stream r l n snap rest p'
  | waits : p.txList ≠ [] → p' = { p with resumePending := true } →
      SentTx p stream r l n snap rest p'
  | written (f : Fragment) (bytes : List UInt8) : p.resumePending = false → p.txList = [] →
      p'.resumePending = false → p'.txList = [] → bytes.length + 16 ≤ avail p stream r →
      p'.At (stream ++ bytes) r l n snap (rest ++ [.fragment f]) →
      SentTx p stream r l n snap rest p'
  | asked : p'.txList = p.txList → Asked p stream r l n snap rest p' →
    SentTx p stream r l n snap rest p'

/-- The two writes of a fragment. -/
theorem writeFragment (h : Writing p stream r) (f : Fragment)
    (hspace : f.data.length + 32 ≤ avail p stream r) (hlen : f.data.length ≤ 0xffffffe8) :
    ∃ p₁ p₂ bytes, Smem.writeAlgn64 p (leBytes 8 f.txCmd ++ leBytes 8 f.dataDesc) =
      some (true, p₁) ∧
      Smem.writeAlgn64 p₁ f.data = some (true, p₂) ∧ bytes.length + 16 ≤ avail p stream r ∧
      Wrote p stream r (.fragment f) { p₂ with unread := p₂.unread ++ [.fragment f] } bytes := by
  have hmod := h.avail_mod
  rcases h.writeAlgn64 (leBytes 8 f.txCmd ++ leBytes 8 f.dataDesc) (by simp) with
    ⟨hless, -⟩ | ⟨-, fifo, w, pad, hpad, hyes, hwords⟩
  · simp at hless
    omega
  have hnil : pad = [] := by
    simp only [length_append, length_leBytes] at hpad
    exact eq_nil_of_length_eq_zero (by omega)
  rw [hnil, append_nil] at hwords
  rcases hwords.writeAlgn64 f.data hlen with
    ⟨hless, -⟩ | ⟨-, fifo', w', pad', hpad', hyes', hdata⟩
  · have hread := h.read_le
    simp only [avail, length_append, length_leBytes] at hless hspace hmod
    omega
  · refine ⟨_, _, leBytes 8 f.txCmd ++ leBytes 8 f.dataDesc ++ (f.data ++ pad'), hyes, hyes', ?_,
      ⟨⟨_, _, rfl⟩, ⟨⟨pad', ?_⟩, ?_⟩, ?_⟩⟩
    · rw [length_append, hpad']
      simp only [length_append, length_leBytes]
      omega
    · simp [Item.body]
    · rw [length_append, hpad']
      simp [Item.body]
      omega
    · rw [← append_assoc]
      exact hdata.of_eq rfl rfl rfl rfl

/-- **`xport_smem_tx`**, when the provider has no more than what is left of the packet. -/
theorem tx (h : p.At stream r l n snap rest) (features : UInt32) (cid : UInt16) {pctx : Pctx}
    {fragData : List UInt8} (hprovided : fragData.length ≤ pctx.sizeRemaining)
    (hsize : pctx.sizeRemaining < 2 ^ 32) (arg0 : UInt16) (arg : UInt32) :
    ∃ p' pctx' status, Smem.tx p features cid pctx fragData arg0 arg = some (p', pctx', status) ∧
      p.Keeps p' ∧ SentTx p stream r l n snap rest p' := by
  unfold Smem.tx
  split
  · exact ⟨p, _, _, rfl, ⟨rfl, rfl, id⟩, .same rfl⟩
  rw [if_neg (Nat.not_lt.mpr hprovided)]
  dsimp only
  cases hresume : p.resumePending with
  | true => exact ⟨p, _, _, if_pos rfl, ⟨rfl, rfl, id⟩, .same rfl⟩
  | false =>
  rw [if_neg Bool.false_ne_true, h.writing.avail_eq]
  rcases Decidable.em (p.txList = []) with hlist | hlist
  case inr =>
    exact ⟨{ p with resumePending := true }, _, _, if_pos (by simpa using hlist), ⟨rfl, rfl, id⟩,
      .waits hlist rfl⟩
  rw [if_neg (by simp [hlist])]
  split
  · next hspace =>
    generalize hf : fragment cid pctx
      ((fragData.take p.mtuSize).take (avail p stream r - 32)) = f
    have hdata : f.data.length ≤ fragData.length ∧ f.data.length ≤ avail p stream r - 32 := by
      rw [← hf]
      simp only [fragment, length_take]
      omega
    have hbound := h.writing.size_lt
    have havail := avail_le p stream r
    obtain ⟨p₁, p₂, bytes, hwords, hyes, hlen, wrote⟩ :=
      writeFragment h.writing f (by omega) (by omega)
    have hfits : f.Fits := by
      have hremaining : f.remaining = .ofNat (pctx.sizeRemaining - f.data.length) := by
        rw [← hf]
        rfl
      unfold Fragment.Fits
      rw [hremaining, UInt32.toNat_ofNat', Nat.mod_eq_of_lt (by omega)]
      omega
    have hist := h.history
    rw [hlist] at hist
    have hat := h.write wrote (i := .fragment f) hfits p.resumePending
      (hlist ▸ hist.accept (i := .fragment f) rfl) h.fits
    obtain ⟨⟨_, _, heq⟩, -, -⟩ := wrote
    have hfifo := congrArg Path.fifoSize heq
    have hrx := congrArg Path.rx heq
    have hkeeps : p.Keeps (sendEvent { p₂ with
        unread := p₂.unread ++ [.fragment f]
        accepted := p₂.accepted ++ [.fragment f] }) := ⟨hfifo, hrx, fun _ => rfl⟩
    simp only [hwords, hyes, bind_eq_bind, bind_some, Bool.not_true,
      Bool.false_eq_true, if_false]
    refine ⟨_, _, _, rfl, hkeeps, .written f bytes hresume hlist ?_ ?_ hlen ?_⟩
    · have := congrArg Path.resumePending heq
      exact this.trans hresume
    · have := congrArg Path.txList heq
      exact this.trans hlist
    · have hacc := congrArg Path.accepted heq
      have htx := congrArg Path.txList heq
      have hres := congrArg Path.resumePending heq
      dsimp only at hacc htx hres
      rw [← hacc, ← htx, ← hres] at hat
      exact hat
  · next hspace =>
    let q : Path := { p with resumePending := true }
    have hq : q.At stream r l n snap rest := { h with writing := h.writing.of_eq rfl rfl rfl rfl }
    rcases hq.writing.writeReadReq arg0 arg with ⟨hfull, hno⟩ | ⟨hroom, p', bytes, hyes, wrote⟩
    · refine ⟨q, pctx, .success, ?_, ⟨rfl, rfl, id⟩, .asked rfl (.full hfull hq)⟩
      exact congrArg (·.bind fun r => some (if r.1 then sendEvent r.2 else r.2, pctx,
        GlinkStatus.success)) hno
    · have hat := hq.write wrote trivial true (hq.history.readReq arg0 arg) h.fits
      obtain ⟨⟨_, _, rfl⟩, -, -⟩ := wrote
      refine ⟨_, pctx, .success, ?_, ?_, .asked ?_ (.written arg0 arg bytes hroom hat)⟩
      · exact congrArg (·.bind fun r => some (if r.1 then sendEvent r.2 else r.2, pctx,
          GlinkStatus.success)) hyes
      · exact ⟨rfl, rfl, fun _ => rfl⟩
      · rfl

/-- The bytes that the commands of a list take. -/
def totalSpace (cs : List Command) : Nat := (cs.map Command.space).sum

/-- The loop over the list writes as many of its commands as there is space for. -/
theorem drainList (h : Writing p stream r) {cs : List Command} (hcs : ∀ c ∈ cs, c.Fits) :
    ∃ p' sent left bytes, Smem.drainList p cs = some p' ∧ cs = sent ++ left ∧
      (∃ fifo w, p' = { p with
        fifo := fifo, localWriteInd := w, unread := p.unread ++ sent.map .command
        txList := left }) ∧
      Frames (sent.map .command) bytes ∧ Writing p' (stream ++ bytes) r ∧
      (sent = [] ∨ bytes.length + 16 ≤ avail p stream r) ∧
      (left = [] ↔ cs = [] ∨ totalSpace cs + 16 ≤ avail p stream r) := by
  induction cs generalizing p stream with
  | nil =>
    refine ⟨{ p with txList := [] }, [], [], [], rfl, rfl, ⟨p.fifo, p.localWriteInd, ?_⟩, .nil, ?_,
      .inl rfl, by simp⟩
    · rw [map_nil, append_nil]
    · rw [append_nil]
      exact h.of_eq rfl rfl rfl rfl
  | cons c cs ih =>
    have hc : c.Fits := hcs c (mem_cons_self ..)
    have htotal : totalSpace (c :: cs) = c.space + totalSpace cs := by simp [totalSpace]
    rcases h.writeCmd hc with ⟨hless, hno⟩ | ⟨hspace, p₁, bytes, hyes, wrote⟩
    · refine ⟨{ p with txList := c :: cs }, [], c :: cs, [], ?_, rfl,
        ⟨p.fifo, p.localWriteInd, ?_⟩, .nil, ?_, .inl rfl, ?_⟩
      · rw [Smem.drainList, hno]
        rfl
      · rw [map_nil, append_nil]
      · rw [append_nil]
        exact h.of_eq rfl rfl rfl rfl
      · simp only [reduceCtorEq, false_or, false_iff]
        omega
    · have hlen := hc.length_frame wrote.frame
      have hread := h.read_le
      have hleft : avail p₁ (stream ++ bytes) r + c.space = avail p stream r := by
        obtain ⟨⟨_, _, rfl⟩, -, -⟩ := wrote
        have hroom := h.room
        simp only [avail, length_append] at hspace ⊢
        omega
      obtain ⟨p', sent, left, bytes', hrun, rfl, hpath, hframes, hwriting, hsent, hall⟩ :=
        ih wrote.writing fun d hd => hcs d (mem_cons_of_mem c hd)
      refine ⟨p', c :: sent, left, bytes ++ bytes', ?_, rfl, ?_, ?_, ?_, .inr ?_, ?_⟩
      · rw [Smem.drainList, hyes]
        exact hrun
      · obtain ⟨⟨_, _, rfl⟩, -, -⟩ := wrote
        obtain ⟨fifo, w, rfl⟩ := hpath
        exact ⟨fifo, w, by simp⟩
      · exact .cons ⟨wrote.frame, hc⟩ hframes
      · rw [← append_assoc]
        exact hwriting
      · rw [length_append]
        rcases hsent with rfl | hsent
        · cases hframes
          simp only [length_nil]
          omega
        · omega
      · simp only [reduceCtorEq, false_or, hall, htotal]
        constructor
        · rintro (hnil | hfits)
          · simp only [hnil, totalSpace, map_nil, sum_nil]
            omega
          · omega
        · intro hfits
          right
          omega

/-- What `xport_smem_isr` does with the list: some commands are written, the first ones, and all of
them if there is space for all. -/
structure Drained (p : Path) (stream : List UInt8) (r l n : Nat) (snap rest : List Item)
    (p' : Path) (sent left : List Command) (bytes : List UInt8) : Prop where
  keeps : p.Keeps p'
  resumePending : p'.resumePending = false
  parts : p.txList = sent ++ left
  txList : p'.txList = left
  at' : p'.At (stream ++ bytes) r l n snap (rest ++ sent.map .command)
  space : sent = [] ∧ bytes = [] ∨ bytes.length + 16 ≤ avail p stream r
  all : left = [] ↔ p.txList = [] ∨ totalSpace p.txList + 16 ≤ avail p stream r

/-- **The list in `xport_smem_isr`.** -/
theorem isrDrain (h : p.At stream r l n snap rest) :
    ∃ p' sent left bytes, Smem.isrDrain p = some p' ∧
      Drained p stream r l n snap rest p' sent left bytes := by
  unfold Smem.isrDrain
  rcases Decidable.em (p.txList = []) with hlist | hlist
  · refine ⟨{ p with resumePending := false }, [], [], [], ?_, ?_⟩
    · simp [hlist]
    · refine ⟨⟨rfl, rfl, id⟩, rfl, hlist, hlist, ?_, .inl ⟨rfl, rfl⟩, by simp [hlist]⟩
      rw [append_nil, map_nil, append_nil]
      exact { h with writing := h.writing.of_eq rfl rfl rfl rfl }
  · obtain ⟨p', sent, left, bytes, hrun, hparts, hpath, hframes, hwriting, hsent, hall⟩ :=
      drainList h.writing h.fits
    have hn := h.snap_le
    have hist := h.history
    rw [hparts] at hist
    refine ⟨{ sendEvent p' with resumePending := false }, sent, left, bytes, ?_, ?_⟩
    · dsimp only
      rw [if_neg (by simpa using hlist), hrun]
      rfl
    obtain ⟨fifo, w, rfl⟩ := hpath
    refine ⟨⟨rfl, rfl, fun _ => rfl⟩, rfl, hparts, rfl, ?_, ?_, hall⟩
    · exact
        { writing := hwriting.of_eq rfl rfl rfl rfl
          published := rfl
          localRead := h.localRead
          read_le := h.read_le
          place_le := h.place_le
          snap_le := by rw [length_append]; omega
          unread := by rw [← append_assoc, ← h.unread]; rfl
          snapFrames := by rw [take_append_of_le_length hn]; exact h.snapFrames
          restFrames := by
            rw [drop_append_of_le_length hn]
            exact h.restFrames.append hframes
          rx := h.rx
          history := hist.dequeue
          fits := fun c hc => h.fits c (hparts ▸ mem_append_right sent hc) }
    · rcases hsent with rfl | hsent
      · exact .inl ⟨rfl, hframes.of_nil⟩
      · exact .inr hsent

end Path.At

end GLink.Smem
