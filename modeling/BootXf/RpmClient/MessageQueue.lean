import BootXf.Lib.Run

/-!
# The message queue

Messages to the resource power manager are sent at once, except that those of the active set wait
in a queue while two messages are in flight. A message that is completed is retired, but not before
those that were sent before it. Message ids are of 32 bits and begin again at one. What sending
comes to is the answer of `send`: whether `rpm_wire_send` has sent anything, which it has not for a
message that is redundant. ERR_FATAL is `none`.
-/

namespace RpmClient

/-- `rpm_set_type`. -/
inductive RpmSet
  | active | sleep | nextActive
  deriving DecidableEq

/-- `rpm_msg_t`, with the id before it is brought to 32 bits. -/
structure Msg where
  msgId : UInt32
  set : RpmSet
  resource : UInt32
  id : UInt32
  seq : Nat
  deriving DecidableEq

/-- `rpm_mq_t`, with what `rpm_wire_send` works on. The rest is history: the next id before it is
brought to 32 bits, the messages that were posted, those that were sent, each with the number of
those in flight then, those that were completed or found redundant, and those that were retired, all
with the oldest first. -/
structure Mq (W : Type _) where
  nextMsgId : UInt32
  completed : List Msg
  inFlight : List Msg
  enqueued : List Msg
  wire : W
  seq : Nat
  posted : List Msg
  sent : List (Msg × Nat)
  finished : List Msg
  retired : List Msg

variable {W : Type _}

/-- `rpm_mq_create`. -/
def rpmMqCreate (wire : W) : Mq W where
  nextMsgId := 1
  completed := []
  inFlight := []
  enqueued := []
  wire := wire
  seq := 1
  posted := []
  sent := []
  finished := []
  retired := []

/-- `RPM_CONCURRENT_MESSAGE_LIMIT`. -/
def rpmConcurrentMessageLimit : Nat := 2

/-- `get_msg_id`, which passes over zero. -/
def getMsgId (q : Mq W) : UInt32 × Nat × Mq W :=
  if q.nextMsgId ≠ 0 then
    (q.nextMsgId, q.seq, { q with nextMsgId := q.nextMsgId + 1, seq := q.seq + 1 })
  else (q.nextMsgId + 1, q.seq + 1,
    { q with nextMsgId := q.nextMsgId + 1 + 1, seq := q.seq + 1 + 1 })

/-- `msg_age`. -/
def msgAge (nextMsgId : UInt32) : Option Msg → UInt32
  | none => 0
  | some m => nextMsgId - m.msgId

/-- `pull_from_queue`: whether the message was the head, the message, and the queue without it. -/
def pullFromQueue (wasHead : Bool) : List Msg → UInt32 → Option (Bool × Msg × List Msg)
  | [], _ => none
  | m :: q, msgId =>
    if msgId = m.msgId then some (wasHead, m, q)
    else (pullFromQueue false q msgId).map fun r => (r.1, r.2.1, m :: r.2.2)

/-- The loop of `rpm_mq_completed` that finds the place for a message in the completed queue. -/
def insertCompleted (nextMsgId : UInt32) (completed : Msg) : List Msg → List Msg
  | [] => [completed]
  | m :: q =>
    if msgAge nextMsgId (some m) < msgAge nextMsgId (some completed) then completed :: m :: q
    else m :: insertCompleted nextMsgId completed q

/-- `rpm_mq_completed`. -/
def rpmMqCompleted (q : Mq W) (msgId : UInt32) : Option (Mq W) :=
  (pullFromQueue true q.inFlight msgId).map fun (wasOldest, completed, inFlight) =>
    let q := { q with inFlight := inFlight }
    if !wasOldest then
      { q with completed := insertCompleted q.nextMsgId completed q.completed }
    else
      let oldestInFlightAge := msgAge q.nextMsgId q.inFlight.head?
      let unblocked := fun m => decide (msgAge q.nextMsgId (some m) > oldestInFlightAge)
      { q with
        completed := q.completed.dropWhile unblocked
        retired := q.retired ++ completed :: q.completed.takeWhile unblocked }

section
variable (send : W → Msg → Bool × W)

/-- `_rpm_mq_send`. -/
def mqSend (q : Mq W) (m : Msg) : Option (Bool × Mq W) :=
  let r := send q.wire m
  let q := { q with
    inFlight := q.inFlight ++ [m]
    sent := q.sent ++ [(m, q.inFlight.length)]
    wire := r.2 }
  if r.1 then some (true, q)
  else (rpmMqCompleted { q with finished := q.finished ++ [m] } m.msgId).map fun q => (false, q)

/-- The loop of `rpm_mq_flush_limit`, over the messages that are enqueued. -/
def flushLimit (q : Mq W) : List Msg → Option (Mq W)
  | [] => some { q with enqueued := [] }
  | m :: ms =>
    if q.inFlight.length < rpmConcurrentMessageLimit then
      (mqSend send { q with enqueued := ms } m).bind fun r => flushLimit r.2 ms
    else some { q with enqueued := m :: ms }

/-- `rpm_mq_flush_limit`. -/
def rpmMqFlushLimit (q : Mq W) : Option (Mq W) := flushLimit send q q.enqueued

/-- `rpm_mq_put`. -/
def rpmMqPut (q : Mq W) (set : RpmSet) (resource id : UInt32) : Option (UInt32 × Mq W) :=
  let (msgId, seq, q) := getMsgId q
  let m : Msg := ⟨msgId, set, resource, id, seq⟩
  let q := { q with posted := q.posted ++ [m] }
  if set = .active ∧ q.inFlight.length ≥ rpmConcurrentMessageLimit then
    some (msgId, { q with enqueued := q.enqueued ++ [m] })
  else
    (mqSend send q m).bind fun r =>
      (if r.1 then some r.2 else rpmMqFlushLimit send r.2).map fun q => (msgId, q)

/-! ## Runs -/

/-- What happens to the queue: a message is posted, or one in flight is completed. -/
inductive MqEvent
  | put (set : RpmSet) (resource id : UInt32)
  | complete (m : Msg)

/-- A completion comes for a message in flight. -/
def MqEvent.Allowed (q : Mq W) : MqEvent → Prop
  | .put .. => True
  | .complete m => m ∈ q.inFlight

/-- What it comes to. A completion is `rpm_mq_completed` followed by `rpm_mq_flush_limit`. -/
def mqStep (q : Mq W) : MqEvent → Option (Mq W)
  | .put set resource id => (rpmMqPut send q set resource id).map Prod.snd
  | .complete m =>
    (rpmMqCompleted { q with finished := q.finished ++ [m] } m.msgId).bind (rpmMqFlushLimit send)

/-- A step of the queue. -/
def MqStep (q : Mq W) (e : MqEvent) (q' : Mq W) : Prop := e.Allowed q ∧ mqStep send q e = some q'

end

end RpmClient
