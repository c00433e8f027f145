import BootXf.RpmClient.Kvp
import BootXf.RpmClient.MessageQueue

/-!
# Acknowledgements

A packet from the resource power manager is a pair, the value of which is a sequence of pairs
again. Nothing is assumed of its bytes. `rpm_wire_recv` goes on to the end of that sequence and
does not look at what `kvp_get` returns: where a pair is not all there, it either does not get on,
or goes by a value of an earlier pair. A variable that is not initialised is `none`.
-/

namespace RpmClient

open Lib

/-- `REQ_KEY`. -/
def reqKey : UInt32 := 0x00716572

/-- `MSG__KEY`. -/
def msgKey : UInt32 := 0x2367736d

/-- `ERR_KEY`. -/
def errKey : UInt32 := 0x00727265

/-- The variables of `rpm_wire_recv`: a pointer is a place in the message's buffer, or NULL. What
its calls of `kvp_get` came to is history. -/
structure Recv where
  message : Kvp
  key : Option UInt32
  value : Option (Option Nat)
  messageId : Option (Option Nat)
  error : Option (Option Nat)
  got : List KvpGet

/-- `rpm_wire_recv` before its loop. -/
def recvStart (message : Kvp) : Recv := ⟨message, none, none, some none, some none, []⟩

/-- `kvp_get(message, &key, &length, &value)`. -/
def recvGet (s : Recv) : Recv :=
  let r := kvpGet s.message
  let s := { s with message := r.2, got := s.got ++ [r.1] }
  match r.1 with
  | .failed => s
  | .truncated type _ => { s with key := some type }
  | .null type => { s with key := some type, value := some none }
  | .value type _ start => { s with key := some type, value := some (some start) }

/-- One turn of the loop of `rpm_wire_recv`. -/
def recvTurn (s : Recv) : Recv :=
  let s := recvGet s
  if s.key = some msgKey then { s with messageId := s.value }
  else if s.key = some errKey then { s with error := s.value }
  else s

/-- The loop of `rpm_wire_recv` does not go on. -/
def Recv.Ended (s : Recv) : Prop := kvpEof s.message = true

instance (s : Recv) : Decidable s.Ended := inferInstanceAs (Decidable (_ = _))

/-- `rpm_wire_recv`, after so many turns of its loop. -/
def recvTurns (s : Recv) : Nat → Option Recv := turns Recv.Ended (fun _ s => some (recvTurn s)) s

section
variable {W : Type _} (send : W → Msg → Bool × W)

/-- `rpm_wire_recv` behind its loop. -/
def rpmWireFinish (q : Mq W) (s : Recv) : Option (Mq W) :=
  match s.messageId with
  | some (some i) => (rpmMqCompleted q (s.message.word i)).bind (rpmMqFlushLimit send)
  | _ => some q

end

/-- `rpmclient_glink_isr`, up to the call of `rpm_wire_recv`, which is the service of `REQ_KEY`. -/
def rpmclientGlinkIsr (rxBuffer : Nat → UInt8) (size : Nat) : Option Recv :=
  match (kvpGet (kvpSwapbuffer rxBuffer size)).1 with
  | .failed => none
  | .truncated .. => none
  | .null type => if type = reqKey then some (recvStart (kvpSwapbuffer rxBuffer 0)) else none
  | .value type length start =>
    if type = reqKey then
      some (recvStart (kvpSwapbuffer (fun i => rxBuffer (start + i)) length.toNat))
    else none

/-- `rpmclient_vector_glink_isr`, which copies the packet into `rx_buffer`, up to the call of
`rpm_wire_recv`. It returns, or ends in ERR_FATAL, where there is none. -/
def rpmclientVectorGlinkIsr (rxBuffer : Nat → UInt8) (size : Nat) : Option Recv :=
  if size = 0 then none
  else if size > 64 then none
  else rpmclientGlinkIsr rxBuffer size

/-! ## What is wanted -/

/-- A value is in the buffer that `kvp_get` was given. -/
def KvpGet.Inside (size : Nat) : KvpGet → Prop
  | .value _ length start => start + length.toNat ≤ size
  | _ => True

/-- What the `switch` goes by has been set. -/
def KvpGet.Sets : KvpGet → Prop
  | .failed => False
  | .truncated type _ => type ≠ msgKey ∧ type ≠ errKey
  | _ => True

/-- The place of the message identifier behind one pair more. -/
def pickId (i : Option Nat) : KvpGet → Option Nat
  | .value type _ start => if type = msgKey then some start else i
  | .null type => if type = msgKey then none else i
  | _ => i

/-- Where the message identifier is that the pairs carry: that of the last of its key, if it has a
value. -/
def carriedId (got : List KvpGet) : Option Nat := got.foldl pickId none

/-- A turn as it is wanted: only the packet is read, and the `switch` goes by what has been set. -/
structure RecvFine (size : Nat) (s : Recv) : Prop where
  reads : 8 ≤ kvpBytesAvailable s.message → 8 + (s.message.readIdx + 8) ≤ size
  inside : (kvpGet s.message).1.Inside s.message.buffer.size
  sets : (kvpGet s.message).1.Sets

/-- The end as it is wanted: what is completed is what the packet carries. -/
structure RecvDone (W : Type) (size : Nat) (s : Recv) : Prop where
  reads : ∀ i, carriedId s.got = some i → 8 + (i + 4) ≤ size
  completes : ∀ (send : W → Msg → Bool × W) (q : Mq W), rpmWireFinish send q s =
    match carriedId s.got with
    | none => some q
    | some i => (rpmMqCompleted q (s.message.word i)).bind (rpmMqFlushLimit send)

/-- The handling of a packet as it is wanted. -/
structure AckRobust (W : Type) (rxBuffer : Nat → UInt8) (size : Nat) : Prop where
  inside : size ≤ 64 → (kvpGet (kvpSwapbuffer rxBuffer size)).1.Inside size
  ends : ∀ s, rpmclientVectorGlinkIsr rxBuffer size = some s →
    ∃ n t, recvTurns s n = some t ∧ t.Ended
  turns : ∀ (s : Recv) (n : Nat) (t : Recv), rpmclientVectorGlinkIsr rxBuffer size = some s →
    recvTurns s n = some t → ¬ t.Ended → RecvFine size t
  done : ∀ (s : Recv) (n : Nat) (t : Recv), rpmclientVectorGlinkIsr rxBuffer size = some s →
    recvTurns s n = some t → t.Ended → RecvDone W size t

/-- A length that can be rounded up to four. -/
def Rounds (length : UInt32) : Prop := length.toNat ≤ 0xfffffffc

instance (length : UInt32) : Decidable (Rounds length) := inferInstanceAs (Decidable (_ ≤ _))

/-- What the loop relies on: another header is there, a length can be rounded up, and a pair whose
value is not there is of another key. -/
def KvpGet.Fits : KvpGet → Prop
  | .failed => False
  | .truncated type _ => type ≠ msgKey ∧ type ≠ errKey
  | .null _ => True
  | .value _ length _ => Rounds length

/-- What the turns of the loop rely on, for the packet and for each pair that the loop comes to. -/
structure TurnsFit (rxBuffer : Nat → UInt8) (size : Nat) : Prop where
  packet : size ≤ 64 → ∀ type length start,
    (kvpGet (kvpSwapbuffer rxBuffer size)).1 = .value type length start → Rounds length
  pairs : ∀ (s : Recv) (n : Nat) (t : Recv), rpmclientVectorGlinkIsr rxBuffer size = some s →
    recvTurns s n = some t → ¬ t.Ended → (kvpGet t.message).1.Fits

/-- A word of a packet. -/
def wordAt (bytes : Nat → UInt8) (i : Nat) : UInt32 := .ofNat (leValue (Ring.get bytes i 4))

/-- The next multiple of four. -/
def roundUp (n : Nat) : Nat := (n + 3) / 4 * 4

/-- A header with so many bytes behind it: its length can be rounded up, and if the value is not all
there it is of another key. -/
structure HeaderFits (type length : UInt32) (room : Nat) : Prop where
  rounds : Rounds length
  missing : room < roundUp length.toNat → type ≠ msgKey ∧ type ≠ errKey

/-- The bytes from a place on are pairs up to the end: in front of the end there is a whole header,
and a value that is not all there takes no bytes. -/
inductive PairsFit (bytes : Nat → UInt8) (size : Nat) : Nat → Prop
  | done {i : Nat} (hend : size ≤ i) : PairsFit bytes size i
  | pair {i : Nat} (hgoes : i < size) (header : i + 8 ≤ size)
      (fits : HeaderFits (wordAt bytes i) (wordAt bytes (i + 4)) (size - (i + 8)))
      (rest : PairsFit bytes size (i + 8 +
        if size - (i + 8) < roundUp (wordAt bytes (i + 4)).toNat then 0
        else roundUp (wordAt bytes (i + 4)).toNat)) :
      PairsFit bytes size i

/-- The packets that are handled as it is wanted. -/
structure AckFits (rxBuffer : Nat → UInt8) (size : Nat) : Prop where
  packet : 8 ≤ size → size ≤ 64 → Rounds (wordAt rxBuffer 4)
  message : size ≤ 64 → wordAt rxBuffer 0 = reqKey →
    8 + roundUp (wordAt rxBuffer 4).toNat ≤ size →
      PairsFit (fun i => rxBuffer (8 + i)) (wordAt rxBuffer 4).toNat 0

/-! ## What `kvp_get` comes to -/

section
variable {k : Kvp} {type length : UInt32} {start : Nat}

/-- **What `kvp_get` comes to**, with the place behind it. -/
theorem kvpGet_spec (k : Kvp) :
    (kvpGet k).2.buffer = k.buffer ∧
    match (kvpGet k).1 with
    | .failed => kvpBytesAvailable k < 8 ∧ (kvpGet k).2.readIdx = k.readIdx
    | .truncated .. => 8 ≤ kvpBytesAvailable k ∧ (kvpGet k).2.readIdx = k.readIdx + 8
    | .null _ => 8 ≤ kvpBytesAvailable k ∧ (kvpGet k).2.readIdx = k.readIdx + 8
    | .value _ length start => 8 ≤ kvpBytesAvailable k ∧ length ≠ 0 ∧ start = k.readIdx + 8 ∧
        (start + align32 length.toNat ≤ k.buffer.size ∨ align32 length.toNat = 0) ∧
        (kvpGet k).2.readIdx = start + align32 length.toNat := by
  refine ⟨kvpGet_buffer k, ?_⟩
  by_cases hnone : kvpBytesAvailable k < 8
  · have hrun : kvpGet k = (.failed, k) := if_pos hnone
    rw [hrun]
    exact ⟨hnone, rfl⟩
  · have hthere := Nat.le_of_not_lt hnone
    by_cases hnull : k.word (k.readIdx + 4) = 0
    · have hrun : kvpGet k = (.null (k.word k.readIdx), { k with readIdx := k.readIdx + 8 }) :=
        (if_neg hnone).trans (if_pos hnull)
      rw [hrun]
      exact ⟨hthere, rfl⟩
    · by_cases htail : kvpBytesAvailable { k with readIdx := k.readIdx + 8 } <
          align32 (k.word (k.readIdx + 4)).toNat
      · have hrun : kvpGet k = (.truncated (k.word k.readIdx) (k.word (k.readIdx + 4)),
            { k with readIdx := k.readIdx + 8 }) :=
          (if_neg hnone).trans ((if_neg hnull).trans (if_pos htail))
        rw [hrun]
        exact ⟨hthere, rfl⟩
      · have hrun : kvpGet k = (.value (k.word k.readIdx) (k.word (k.readIdx + 4)) (k.readIdx + 8),
            { k with readIdx := k.readIdx + 8 + align32 (k.word (k.readIdx + 4)).toNat }) :=
          (if_neg hnone).trans ((if_neg hnull).trans (if_neg htail))
        rw [hrun]
        refine ⟨hthere, hnull, rfl, ?_, rfl⟩
        unfold kvpBytesAvailable at htail
        dsimp only at htail ⊢
        split at htail <;> omega

/-- The type and the length of a value are those of its header. -/
theorem kvpGet_words (k : Kvp) (type length : UInt32) (start : Nat)
    (h : (kvpGet k).1 = .value type length start) :
    type = k.word k.readIdx ∧ length = k.word (k.readIdx + 4) := by
  unfold kvpGet at h
  dsimp only at h
  split at h
  · cases h
  · split at h
    · cases h
    · split at h
      · cases h
      · cases h
        exact ⟨rfl, rfl⟩

/-- A value that is there is in the buffer exactly when its length can be rounded up. -/
theorem kvpGet_inside_iff (hsize : k.buffer.size ≤ 64)
    (h : (kvpGet k).1 = .value type length start) :
    (kvpGet k).1.Inside k.buffer.size ↔ Rounds length := by
  have hspec := (kvpGet_spec k).2
  rw [h] at hspec ⊢
  obtain ⟨havail, hlength, hstart, hinside, -⟩ := hspec
  have hlt := length.toNat_lt
  have hpos : length.toNat ≠ 0 := fun hzero => hlength (UInt32.toNat_inj.mp hzero)
  unfold KvpGet.Inside Rounds
  unfold align32 at hinside
  dsimp only
  omega

/-- The header is read where it is there. -/
theorem header_le (h : 8 ≤ kvpBytesAvailable k) : k.readIdx + 8 ≤ k.buffer.size := by
  unfold kvpBytesAvailable at h
  split at h <;> omega

end

/-! ## The loop -/

theorem carriedId_append (got : List KvpGet) (r : KvpGet) :
    carriedId (got ++ [r]) = pickId (carriedId got) r := by
  unfold carriedId
  rw [List.foldl_append]
  rfl

section
variable {s t : Recv}

theorem recvTurn_message (s : Recv) : (recvTurn s).message = (kvpGet s.message).2 ∧
    (recvTurn s).got = s.got ++ [(kvpGet s.message).1] := by
  have hget : (recvGet s).message = (kvpGet s.message).2 ∧
      (recvGet s).got = s.got ++ [(kvpGet s.message).1] := by
    unfold recvGet
    dsimp only
    split <;> exact ⟨rfl, rfl⟩
  unfold recvTurn
  dsimp only
  split
  · exact hget
  · split <;> exact hget

/-- The identifier is that which the pairs carry, as long as each turn goes by what has been set. -/
theorem recvTurn_messageId (hid : s.messageId = some (carriedId s.got))
    (hsets : (kvpGet s.message).1.Sets) :
    (recvTurn s).messageId = some (carriedId (recvTurn s).got) := by
  rw [(recvTurn_message s).2, carriedId_append]
  unfold recvTurn recvGet
  dsimp only
  cases hget : (kvpGet s.message).1 with
  | failed =>
    rw [hget] at hsets
    exact absurd hsets id
  | truncated type length =>
    rw [hget] at hsets
    have hmsg : ¬ some type = some msgKey := fun heq => hsets.1 (Option.some.inj heq)
    have herr : ¬ some type = some errKey := fun heq => hsets.2 (Option.some.inj heq)
    dsimp only
    rw [if_neg hmsg, if_neg herr]
    exact hid
  | null type | value type length start =>
    dsimp only [pickId]
    by_cases hmsg : type = msgKey
    · rw [if_pos (congrArg some hmsg), if_pos hmsg]
    · rw [if_neg (fun heq => hmsg (Option.some.inj heq)), if_neg hmsg]
      split <;> exact hid

/-- The loop does not change what it goes through. -/
theorem recvTurns_buffer {n : Nat} (h : recvTurns s n = some t) :
    t.message.buffer = s.message.buffer :=
  turns_invariant (I := fun t => t.message.buffer = s.message.buffer) rfl
    (fun {n t u} _ hkept _ hturn => by
      cases hturn
      rw [(recvTurn_message t).1, kvpGet_buffer, hkept]) h

end

/-! ## The packet -/

section
variable {rxBuffer : Nat → UInt8} {size : Nat} {s : Recv}

/-- What `rpm_wire_recv` is called with: nothing, or the value of the packet. -/
theorem rpmclientVectorGlinkIsr_spec (h : rpmclientVectorGlinkIsr rxBuffer size = some s) :
    size ≤ 64 ∧ s.messageId = some (carriedId s.got) ∧ carriedId s.got = none ∧
      (s.message.buffer.size = 0 ∨ ∃ type length,
        (kvpGet (kvpSwapbuffer rxBuffer size)).1 = .value type length 8 ∧
        s.message.buffer.size = length.toNat) := by
  unfold rpmclientVectorGlinkIsr at h
  split at h
  · cases h
  · split at h
    · cases h
    · next hsize =>
      refine ⟨Nat.le_of_not_lt hsize, ?_⟩
      have hspec := (kvpGet_spec (kvpSwapbuffer rxBuffer size)).2
      unfold rpmclientGlinkIsr at h
      cases hget : (kvpGet (kvpSwapbuffer rxBuffer size)).1 with
      | failed =>
        rw [hget] at h
        cases h
      | truncated type length =>
        rw [hget] at h
        cases h
      | null type =>
        rw [hget] at h
        dsimp only at h
        split at h
        · cases h
          exact ⟨rfl, rfl, .inl rfl⟩
        · cases h
      | value type length start =>
        rw [hget] at h hspec
        obtain ⟨-, -, hstart, -⟩ := hspec
        dsimp only at h
        split at h
        · cases h
          refine ⟨rfl, rfl, .inr ⟨type, length, ?_, rfl⟩⟩
          rw [hstart]
          rfl
        · cases h

/-- The message is in the packet. -/
theorem message_le (h : rpmclientVectorGlinkIsr rxBuffer size = some s)
    (hinside : size ≤ 64 → (kvpGet (kvpSwapbuffer rxBuffer size)).1.Inside size) :
    s.message.buffer.size = 0 ∨ 8 + s.message.buffer.size ≤ size := by
  obtain ⟨hsize, -, -, hnone | ⟨type, length, hget, hlength⟩⟩ := rpmclientVectorGlinkIsr_spec h
  · exact .inl hnone
  · have hvalue := hinside hsize
    rw [hget] at hvalue
    exact .inr (by rw [hlength]; exact hvalue)

/-- What holds between the turns of the loop. -/
structure Receiving (s t : Recv) : Prop where
  buffer : t.message.buffer = s.message.buffer
  messageId : t.messageId = some (carriedId t.got)
  inside : ∀ i, carriedId t.got = some i → i + 4 ≤ s.message.buffer.size

/-- A turn in which the pair fits. -/
theorem Receiving.turn {t : Recv} (h : Receiving s t) (hfits : (kvpGet t.message).1.Fits) :
    Receiving s (recvTurn t) := by
  obtain ⟨hbuffer, hspec⟩ := kvpGet_spec t.message
  obtain ⟨hmessage, hgot⟩ := recvTurn_message t
  refine ⟨by rw [hmessage, hbuffer, h.buffer], recvTurn_messageId h.messageId ?_, fun i hi => ?_⟩
  · cases hget : (kvpGet t.message).1 with
    | failed | truncated type length =>
      rw [hget] at hfits
      exact hfits
    | null type | value type length start => trivial
  · rw [hgot, carriedId_append] at hi
    cases hget : (kvpGet t.message).1 with
    | failed =>
      rw [hget] at hi
      exact h.inside i hi
    | truncated type length =>
      rw [hget] at hi
      exact h.inside i hi
    | null type =>
      rw [hget] at hi
      dsimp only [pickId] at hi
      split at hi
      · cases hi
      · exact h.inside i hi
    | value type length start =>
      rw [hget] at hi hspec hfits
      dsimp only [pickId] at hi
      split at hi
      · cases hi
        obtain ⟨-, hlength, -, hvalue, -⟩ := hspec
        have hpos : length.toNat ≠ 0 := fun hzero => hlength (UInt32.toNat_inj.mp hzero)
        have hrounds : length.toNat ≤ 0xfffffffc := hfits
        rw [h.buffer] at hvalue
        unfold align32 at hvalue
        omega
      · exact h.inside i hi

/-- What is left of the message. -/
def Recv.left (t : Recv) : Nat := t.message.buffer.size - t.message.readIdx

/-- A turn in which the pair fits goes on. -/
theorem left_lt {t : Recv} (hgoes : ¬ t.Ended) (hfits : (kvpGet t.message).1.Fits) :
    (recvTurn t).left < t.left := by
  obtain ⟨hbuffer, hspec⟩ := kvpGet_spec t.message
  obtain ⟨hmessage, -⟩ := recvTurn_message t
  have hbefore : t.message.readIdx < t.message.buffer.size := by
    unfold Recv.Ended kvpEof at hgoes
    exact Nat.lt_of_not_le fun hle => hgoes (decide_eq_true hle)
  unfold Recv.left
  rw [hmessage, hbuffer]
  cases hget : (kvpGet t.message).1 with
  | failed =>
    rw [hget] at hfits
    exact absurd hfits id
  | truncated type length | null type =>
    rw [hget] at hspec
    obtain ⟨-, hidx⟩ := hspec
    omega
  | value type length start =>
    rw [hget] at hspec
    obtain ⟨-, -, hstart, -, hidx⟩ := hspec
    omega

end

section
variable {W : Type} {rxBuffer : Nat → UInt8} {size : Nat}

/-- Handling a packet is as it is wanted where all that it relies on is there. -/
theorem TurnsFit.robust (h : TurnsFit rxBuffer size) : AckRobust W rxBuffer size := by
  have hinside : size ≤ 64 → (kvpGet (kvpSwapbuffer rxBuffer size)).1.Inside size := fun hsize => by
    cases hget : (kvpGet (kvpSwapbuffer rxBuffer size)).1 with
    | value type length start =>
      have hiff := kvpGet_inside_iff hsize hget
      rw [hget] at hiff
      exact hiff.mpr (h.packet hsize type length start hget)
    | failed => trivial
    | truncated type length => trivial
    | null type => trivial
  have hreceiving : ∀ {s : Recv} {n : Nat} {t : Recv},
      rpmclientVectorGlinkIsr rxBuffer size = some s → recvTurns s n = some t → Receiving s t := by
    intro s n t hs ht
    obtain ⟨-, hid, hnone, -⟩ := rpmclientVectorGlinkIsr_spec hs
    refine turns_invariant (I := Receiving s) ⟨rfl, hid, fun i hi => ?_⟩
      (fun {n t u} hreached hreceiving hgoes hturn => ?_) ht
    · rw [hnone] at hi
      cases hi
    · cases hturn
      exact hreceiving.turn (h.pairs s n t hs hreached hgoes)
  refine ⟨hinside, fun s hs => ?_, fun s n t hs ht hgoes => ?_, fun s n t hs ht hend => ?_⟩
  · exact turns_end (I := fun _ => True) Recv.left trivial fun n t ht _ hgoes =>
      ⟨recvTurn t, rfl, trivial, left_lt hgoes (h.pairs s n t hs ht hgoes)⟩
  · have hfits := h.pairs s n t hs ht hgoes
    have hbuffer := (hreceiving hs ht).buffer
    have hle := message_le hs hinside
    have hsmall : t.message.buffer.size ≤ 64 := by
      have := (rpmclientVectorGlinkIsr_spec hs).1
      rw [hbuffer]
      omega
    refine ⟨fun havail => ?_, ?_, ?_⟩
    · have hheader := header_le havail
      rw [hbuffer] at hheader
      omega
    · cases hget : (kvpGet t.message).1 with
      | value type length start =>
        have hiff := kvpGet_inside_iff hsmall hget
        rw [hget] at hiff hfits
        exact hiff.mpr hfits
      | failed => trivial
      | truncated type length => trivial
      | null type => trivial
    · cases hget : (kvpGet t.message).1 with
      | failed | truncated type length =>
        rw [hget] at hfits
        exact hfits
      | null type | value type length start => trivial
  · obtain ⟨-, hid, hread⟩ := hreceiving hs ht
    refine ⟨fun i hi => ?_, fun send q => ?_⟩
    · have := hread i hi
      have := message_le hs hinside
      omega
    · unfold rpmWireFinish
      rw [hid]
      cases carriedId t.got <;> rfl

/-- Where handling a packet is as it is wanted, all that it relies on is there. -/
theorem AckRobust.turnsFit (h : AckRobust W rxBuffer size) : TurnsFit rxBuffer size := by
  refine ⟨fun hsize type length start hget => ?_, fun s n t hs ht hgoes => ?_⟩
  · exact (kvpGet_inside_iff hsize hget).mp (h.inside hsize)
  · obtain ⟨-, hinside, hsets⟩ := h.turns s n t hs ht hgoes
    have hbuffer := recvTurns_buffer ht
    have hsmall : t.message.buffer.size ≤ 64 := by
      have := (rpmclientVectorGlinkIsr_spec hs).1
      have := message_le hs h.inside
      rw [hbuffer]
      omega
    cases hget : (kvpGet t.message).1 with
    | failed =>
      rw [hget] at hsets
      exact hsets
    | truncated type length =>
      rw [hget] at hsets
      exact hsets
    | null type => trivial
    | value type length start => exact (kvpGet_inside_iff hsmall hget).mp hinside

end

/-! ## The bytes of a packet -/

section
variable {k : Kvp}

theorem align32_of_rounds {length : UInt32} (h : Rounds length) :
    align32 length.toNat = roundUp length.toNat := by
  unfold Rounds at h
  unfold align32 roundUp
  omega

theorem align32_of_not_rounds {length : UInt32} (h : ¬ Rounds length) :
    align32 length.toNat = 0 := by
  have hlt := length.toNat_lt
  unfold Rounds at h
  unfold align32
  omega

/-- **One pair of the bytes is one turn of the loop.** -/
theorem pairsFit_iff (hgoes : kvpEof k ≠ true) :
    PairsFit k.buffer.bytes k.buffer.size k.readIdx ↔
      (kvpGet k).1.Fits ∧ PairsFit k.buffer.bytes k.buffer.size (kvpGet k).2.readIdx := by
  have hbefore : k.readIdx < k.buffer.size :=
    Nat.lt_of_not_le fun hle => hgoes (decide_eq_true hle)
  have hpair : PairsFit k.buffer.bytes k.buffer.size k.readIdx ↔ k.readIdx + 8 ≤ k.buffer.size ∧
      HeaderFits (k.word k.readIdx) (k.word (k.readIdx + 4)) (k.buffer.size - (k.readIdx + 8)) ∧
      PairsFit k.buffer.bytes k.buffer.size (k.readIdx + 8 +
        if k.buffer.size - (k.readIdx + 8) < roundUp (k.word (k.readIdx + 4)).toNat then 0
        else roundUp (k.word (k.readIdx + 4)).toNat) := by
    refine ⟨fun h => ?_, fun ⟨header, fits, rest⟩ => .pair hbefore header fits rest⟩
    cases h with
    | done hend => omega
    | pair _ header fits rest => exact ⟨header, fits, rest⟩
  have havail : kvpBytesAvailable k = k.buffer.size - k.readIdx := if_neg (Nat.not_le.mpr hbefore)
  have hbehind : kvpBytesAvailable { k with readIdx := k.readIdx + 8 } =
      k.buffer.size - (k.readIdx + 8) := by
    unfold kvpBytesAvailable
    dsimp only
    split <;> omega
  rw [hpair]
  by_cases hnone : kvpBytesAvailable k < 8
  · have hrun : kvpGet k = (.failed, k) := if_pos hnone
    rw [hrun]
    refine ⟨fun ⟨header, _⟩ => ?_, fun ⟨hfits, _⟩ => absurd hfits id⟩
    omega
  · have header : k.readIdx + 8 ≤ k.buffer.size := by omega
    by_cases hnull : k.word (k.readIdx + 4) = 0
    · have hrun : kvpGet k = (.null (k.word k.readIdx), { k with readIdx := k.readIdx + 8 }) :=
        (if_neg hnone).trans (if_pos hnull)
      have hzero : roundUp (k.word (k.readIdx + 4)).toNat = 0 := by
        rw [hnull]
        rfl
      rw [hrun, hzero, if_neg (Nat.not_lt_zero _), Nat.add_zero]
      have hfits : HeaderFits (k.word k.readIdx) (k.word (k.readIdx + 4))
          (k.buffer.size - (k.readIdx + 8)) := by
        refine ⟨?_, fun hlt => ?_⟩
        · rw [hnull]
          exact Nat.zero_le _
        · rw [hzero] at hlt
          exact absurd hlt (Nat.not_lt_zero _)
      exact ⟨fun h => ⟨trivial, h.2.2⟩, fun h => ⟨header, hfits, h.2⟩⟩
    · by_cases htail : kvpBytesAvailable { k with readIdx := k.readIdx + 8 } <
          align32 (k.word (k.readIdx + 4)).toNat
      · have hrun : kvpGet k = (.truncated (k.word k.readIdx) (k.word (k.readIdx + 4)),
            { k with readIdx := k.readIdx + 8 }) :=
          (if_neg hnone).trans ((if_neg hnull).trans (if_pos htail))
        have hrounds : Rounds (k.word (k.readIdx + 4)) := by
          refine Decidable.not_not.mp fun hnot => ?_
          rw [align32_of_not_rounds hnot] at htail
          exact absurd htail (Nat.not_lt_zero _)
        rw [hbehind, align32_of_rounds hrounds] at htail
        rw [hrun, if_pos htail, Nat.add_zero]
        exact ⟨fun h => ⟨h.2.1.missing htail, h.2.2⟩,
          fun h => ⟨header, ⟨hrounds, fun _ => h.1⟩, h.2⟩⟩
      · have hrun : kvpGet k = (.value (k.word k.readIdx) (k.word (k.readIdx + 4)) (k.readIdx + 8),
            { k with readIdx := k.readIdx + 8 + align32 (k.word (k.readIdx + 4)).toNat }) :=
          (if_neg hnone).trans ((if_neg hnull).trans (if_neg htail))
        rw [hrun]
        by_cases hrounds : Rounds (k.word (k.readIdx + 4))
        · rw [hbehind, align32_of_rounds hrounds] at htail
          rw [if_neg htail, align32_of_rounds hrounds]
          exact ⟨fun h => ⟨h.2.1.rounds, h.2.2⟩,
            fun h => ⟨header, ⟨hrounds, fun hlt => absurd hlt htail⟩, h.2⟩⟩
        · exact ⟨fun h => absurd h.2.1.rounds hrounds, fun h => absurd h.1 hrounds⟩

end

section
variable {rxBuffer : Nat → UInt8} {size : Nat} {s t : Recv}

/-- The loop comes to pairs that fit where the bytes are such pairs. -/
theorem PairsFit.turns (hfits : PairsFit s.message.buffer.bytes s.message.buffer.size
    s.message.readIdx) {n : Nat} (ht : recvTurns s n = some t) (hgoes : ¬ t.Ended) :
    (kvpGet t.message).1.Fits := by
  have hinv : PairsFit t.message.buffer.bytes t.message.buffer.size t.message.readIdx := by
    refine turns_invariant
      (I := fun t => PairsFit t.message.buffer.bytes t.message.buffer.size t.message.readIdx) hfits
      (fun {n t u} _ hpairs hgoes hturn => ?_) ht
    cases hturn
    rw [(recvTurn_message t).1, kvpGet_buffer]
    exact ((pairsFit_iff hgoes).mp hpairs).2
  exact ((pairsFit_iff hgoes).mp hinv).1

/-- The bytes are such pairs where the loop comes to pairs that fit. -/
theorem pairsFit_of_turns (hfits : ∀ n t, recvTurns s n = some t → ¬ t.Ended →
    (kvpGet t.message).1.Fits) {n : Nat} (ht : recvTurns s n = some t) :
    PairsFit t.message.buffer.bytes t.message.buffer.size t.message.readIdx := by
  -- on what is left of the message
  generalize hleft : t.left = left
  induction left using Nat.strongRecOn generalizing n t with
  | ind left ih =>
    by_cases hend : t.Ended
    · exact .done (of_decide_eq_true hend)
    · have hpair := hfits n t ht hend
      have hnext : recvTurns s (n + 1) = some (recvTurn t) := by
        unfold recvTurns
        rw [turns_succ ht, if_neg hend]
      have hrest := ih (recvTurn t).left (by rw [← hleft]; exact left_lt hend hpair) hnext rfl
      rw [(recvTurn_message t).1, kvpGet_buffer] at hrest
      exact (pairsFit_iff hend).mpr ⟨hpair, hrest⟩

/-- What `rpm_wire_recv` is called with, in terms of the bytes of the packet. -/
theorem rpmclientVectorGlinkIsr_bytes (h : rpmclientVectorGlinkIsr rxBuffer size = some s) :
    s.message.readIdx = 0 ∧ (s.message.buffer.size = 0 ∨
      wordAt rxBuffer 0 = reqKey ∧ 8 ≤ size ∧ 8 + align32 (wordAt rxBuffer 4).toNat ≤ size ∧
      s.message = kvpSwapbuffer (fun i => rxBuffer (8 + i)) (wordAt rxBuffer 4).toNat) := by
  unfold rpmclientVectorGlinkIsr at h
  split at h
  · cases h
  · split at h
    · cases h
    · have hspec := (kvpGet_spec (kvpSwapbuffer rxBuffer size)).2
      have hwords := kvpGet_words (kvpSwapbuffer rxBuffer size)
      unfold rpmclientGlinkIsr at h
      cases hget : (kvpGet (kvpSwapbuffer rxBuffer size)).1 with
      | failed =>
        rw [hget] at h
        cases h
      | truncated type length =>
        rw [hget] at h
        cases h
      | null type =>
        rw [hget] at h
        dsimp only at h
        split at h
        · cases h
          exact ⟨rfl, .inl rfl⟩
        · cases h
      | value type length start =>
        rw [hget] at h hspec
        obtain ⟨havail, -, hstart, hinside, -⟩ := hspec
        obtain ⟨htype, hlength⟩ := hwords type length start hget
        dsimp only at h
        split at h
        · next hservice =>
          cases h
          have hsize : 8 ≤ size := header_le havail
          have hlength : length = wordAt rxBuffer 4 := hlength
          have hstart : start = 8 := hstart
          refine ⟨rfl, .inr ⟨htype.symm.trans hservice, hsize, ?_, ?_⟩⟩
          · rw [← hlength]
            rw [hstart] at hinside
            rcases hinside with hinside | hzero
            · exact hinside
            · omega
          · rw [← hlength, hstart]
            rfl
        · cases h

/-- What the turns of the loop rely on, in terms of the bytes of the packet. -/
theorem turnsFit_iff_ackFits (rxBuffer : Nat → UInt8) (size : Nat) :
    TurnsFit rxBuffer size ↔ AckFits rxBuffer size := by
  -- the packet is a pair with a value that is there
  have hvalue : ∀ (_ : 8 ≤ size) (_ : wordAt rxBuffer 4 ≠ 0)
      (_ : 8 + align32 (wordAt rxBuffer 4).toNat ≤ size),
      (kvpGet (kvpSwapbuffer rxBuffer size)).1 =
        .value (wordAt rxBuffer 0) (wordAt rxBuffer 4) 8 := by
    intro hsize hlength hroom
    have havail : ∀ i, i ≤ size → kvpBytesAvailable ⟨bytearraySwapbuffer rxBuffer size, i⟩ =
        size - i := by
      intro i hi
      have hsame : (bytearraySwapbuffer rxBuffer size).size = size := rfl
      unfold kvpBytesAvailable
      dsimp only
      rw [hsame]
      split <;> omega
    have hheader : ¬ kvpBytesAvailable (kvpSwapbuffer rxBuffer size) < 8 := by
      have := havail 0 (Nat.zero_le _)
      unfold kvpSwapbuffer
      omega
    have htail : ¬ kvpBytesAvailable { kvpSwapbuffer rxBuffer size with
        readIdx := (kvpSwapbuffer rxBuffer size).readIdx + 8 } <
          align32 (wordAt rxBuffer 4).toNat := by
      have := havail (0 + 8) hsize
      unfold kvpSwapbuffer
      dsimp only
      omega
    exact congrArg Prod.fst ((if_neg hheader).trans ((if_neg hlength).trans (if_neg htail)))
  refine ⟨fun h => ⟨fun hheader hsize => ?_, fun hsize htype hroom => ?_⟩,
    fun h => ⟨fun hsize type length start hget => ?_, fun s n t hs ht hgoes => ?_⟩⟩
  · refine Decidable.not_not.mp fun hnot => hnot ?_
    have hlength : wordAt rxBuffer 4 ≠ 0 := fun hzero => hnot (by rw [hzero]; exact Nat.zero_le _)
    refine h.packet hsize _ _ _ (hvalue hheader hlength ?_)
    rw [align32_of_not_rounds hnot]
    exact hheader
  · by_cases hlength : wordAt rxBuffer 4 = 0
    · rw [hlength]
      exact .done (Nat.le_refl 0)
    · have hrounds : Rounds (wordAt rxBuffer 4) := by
        unfold roundUp at hroom
        unfold Rounds
        omega
      rw [← align32_of_rounds hrounds] at hroom
      have hrun : rpmclientVectorGlinkIsr rxBuffer size = some (recvStart
          (kvpSwapbuffer (fun i => rxBuffer (8 + i)) (wordAt rxBuffer 4).toNat)) := by
        unfold rpmclientVectorGlinkIsr rpmclientGlinkIsr
        rw [if_neg (by omega), if_neg (by omega), hvalue (by omega) hlength hroom]
        exact if_pos htype
      exact pairsFit_of_turns (fun n t ht => h.pairs _ n t hrun ht) (n := 0) rfl
  · have hwords := kvpGet_words (kvpSwapbuffer rxBuffer size) type length start hget
    have hspec := (kvpGet_spec (kvpSwapbuffer rxBuffer size)).2
    rw [hget] at hspec
    have hlength : length = wordAt rxBuffer 4 := hwords.2
    rw [hlength]
    exact h.packet (header_le hspec.1) hsize
  · obtain ⟨hidx, hbytes⟩ := rpmclientVectorGlinkIsr_bytes hs
    refine PairsFit.turns ?_ ht hgoes
    rw [hidx]
    rcases hbytes with hnone | ⟨htype, hheader, hroom, hmessage⟩
    · rw [hnone]
      exact .done (Nat.le_refl 0)
    · have hsize := (rpmclientVectorGlinkIsr_spec hs).1
      rw [align32_of_rounds (h.packet hheader hsize)] at hroom
      rw [hmessage]
      exact h.message hsize htype hroom

/-- **Handling a packet is as it is wanted exactly where its bytes are pairs that fit.** -/
theorem ackRobust_iff_ackFits (W : Type) (rxBuffer : Nat → UInt8) (size : Nat) :
    AckRobust W rxBuffer size ↔ AckFits rxBuffer size :=
  ⟨fun h => (turnsFit_iff_ackFits rxBuffer size).mp h.turnsFit,
    fun h => ((turnsFit_iff_ackFits rxBuffer size).mpr h).robust⟩

/-- What is needed for a message to be gone through, once its bytes are there. -/
theorem AckRobust.pairsFit (h : AckRobust W rxBuffer size) (hsize : size ≤ 64)
    (htype : wordAt rxBuffer 0 = reqKey) (hroom : 8 + roundUp (wordAt rxBuffer 4).toNat ≤ size) :
    PairsFit (fun i => rxBuffer (8 + i)) (wordAt rxBuffer 4).toNat 0 :=
  ((turnsFit_iff_ackFits rxBuffer size).mp h.turnsFit).message hsize htype hroom

end

/-- A message of four bytes. -/
def shortTail : Nat → UInt8 :=
  fun i => ([0x72, 0x65, 0x71, 0, 4, 0, 0, 0, 0, 0, 0, 0] : List UInt8).getD i 0

/-- A message that ends behind the header of its identifier. -/
def missingId : Nat → UInt8 :=
  fun i =>
    ([0x72, 0x65, 0x71, 0, 8, 0, 0, 0, 0x6d, 0x73, 0x67, 0x23, 4, 0, 0, 0] : List UInt8).getD i 0

/-- A packet with a length that cannot be rounded up. -/
def greatLength : Nat → UInt8 :=
  fun i => ([0x72, 0x65, 0x71, 0, 0xfd, 0xff, 0xff, 0xff] : List UInt8).getD i 0

/-- Not every packet is handled as it is wanted. -/
theorem ackRobust_not_always : ¬ AckRobust Unit shortTail 12 ∧ ¬ AckRobust Unit missingId 16 ∧
    ¬ AckRobust Unit greatLength 8 := by
  refine ⟨fun h => ?_, fun h => ?_, fun h => ?_⟩
  · cases h.pairsFit (by decide) (by decide) (by decide) with
    | done hend => exact absurd hend (by decide)
    | pair _ header => exact absurd header (by decide)
  · cases h.pairsFit (by decide) (by decide) (by decide) with
    | done hend => exact absurd hend (by decide)
    | pair _ _ fits => exact absurd (fits.missing (by decide)).1 (by decide)
  · exact absurd (((turnsFit_iff_ackFits _ _).mp h.turnsFit).packet (by decide) (by decide))
      (by decide)

end RpmClient
