import BootXf.Lib.Checked
import BootXf.Lib.Run
import Mathlib.Logic.Function.Basic

/-!
# Events of a resource

The calls on events change the counts of the resource at once and queue the rest as actions; the
event thread takes the actions in order. Every event has an address of its own, which is not used
again, so that an access to an event after it has been freed is a `Fault` and not an access to
another one. A call, and an action, is one step: the locks of the resource are not modelled.
-/

namespace Npa.Events

open List Option Function

/-- `npa_event_trigger_type`, under the names that the framework gives to the reserved values. -/
inductive TriggerType
  | resourceAvailable | systemEvent | syncEvent | changeEvent | watermarkEvent | thresholdEvent
  deriving DecidableEq

/-- The trigger type of an event is a bit field: the type, `NPA_TRIGGER_DISABLED_FLAG` and
`NPA_TRIGGER_DESTROY_FLAG`. -/
structure TriggerField where
  type : TriggerType
  disabledFlag : Bool
  destroyFlag : Bool
  deriving DecidableEq

/-- The bit field of a type without flags. -/
def TriggerType.field (type : TriggerType) : TriggerField := ⟨type, false, false⟩

/-- The types that `reg_count` counts. -/
def TriggerType.registered : TriggerType → Bool
  | .changeEvent | .watermarkEvent | .thresholdEvent => true
  | .resourceAvailable | .systemEvent | .syncEvent => false

/-- `npa_event`. The bounds are a union: watermarks are signed, thresholds are not. A callback with
its context is a number. -/
structure Event where
  triggerType : TriggerField
  lo : UInt32
  hi : UInt32
  callback : Nat

/-- `npa_event_type`, with `NPA_EVENT_SYSTEM` and `NPA_EVENT_SYNC`. -/
inductive EventType
  | hiWatermark | loWatermark | change | thresholdLo | thresholdNominal | thresholdHi
  | system | sync
  deriving DecidableEq

/-- What a callback is given: `npa_event_data`, the event that a system event is about, or the state
of a sync event. -/
inductive EventData
  | resource (state : UInt32) (headroom : Int32)
  | event (event : Nat)
  | sync (state : Option UInt32)
  deriving DecidableEq

/-- A call of `npa_trigger_callback_event`. -/
structure Notification where
  event : Nat
  type : EventType
  data : EventData
  deriving DecidableEq

/-- `npa_event_action`. -/
inductive Action
  | newEvent (event : Nat)
  | triggerSystemEvent (event : Nat)
  | triggerSyncEvent (event : Nat) (state : Option UInt32)
  | setWatermark (event : Nat) (hi lo : Int32) (state : UInt32) (headroom : Int32)
  | setThreshold (event : Nat) (hi lo : UInt32) (state : UInt32) (headroom : Int32)
  | destroy (event : Nat)
  | trigger (oldState newState : UInt32) (oldHeadroom newHeadroom : Int32)

namespace Action

/-- The event that an action links. -/
def linking : Action → Option Nat
  | .newEvent e => some e
  | _ => none

/-- The event that an action is about. -/
def about : Action → Option Nat
  | .newEvent e | .triggerSystemEvent e | .triggerSyncEvent e _ | .setWatermark e .. |
    .setThreshold e .. | .destroy e => some e
  | .trigger .. => none

/-- What the event of an action is like while the action waits. -/
def Fits : Action → Event → Prop
  | .destroy _, event => event.triggerType.destroyFlag = true
  | .triggerSyncEvent _ _, event => event.triggerType.type = .syncEvent
  | .setWatermark .., event => event.triggerType.type = .watermarkEvent
  | .setThreshold .., event => event.triggerType.type = .thresholdEvent
  | _, _ => True

end Action

/-- `npa_event_header`. -/
structure EventHeader where
  event : List Nat
  sysEvent : List Nat
  regCount : Nat
  sysCount : Nat
  syncCount : Nat

/-- A resource with its events and the queue of `npa_event_queue_handle`. The resource has either a
header or, before it is instantiated, a list of events that wait for it. What callbacks were told
and what was freed is recorded, the newest last. -/
structure State where
  instantiated : Bool
  activeState : UInt32
  activeHeadroom : Int32
  header : Option EventHeader
  available : List Nat
  events : Nat → Option Event
  created : Nat
  queue : List Action
  told : List Notification
  freed : List Nat

/-- How a call or an action goes wrong: an event is used that is not allocated, a `CORE_VERIFY`
fails, a header that is not there is used, or an event is linked where the header is. -/
inductive Fault
  | useAfterFree (event : Nat)
  | fatal
  | nullPointer
  | headerOverwritten
  deriving DecidableEq

namespace State

def init (instantiated : Bool) (activeState : UInt32) (activeHeadroom : Int32) : State :=
  ⟨instantiated, activeState, activeHeadroom, none, [], fun _ => none, 0, [], [], []⟩

def get (s : State) (e : Nat) : Except Fault Event :=
  match s.events e with
  | some event => .ok event
  | none => .error (.useAfterFree e)

def set (s : State) (e : Nat) (event : Option Event) : State :=
  { s with events := update s.events e event }

/-- `Core_WorkQueuePut`. -/
def put (s : State) (a : Action) : State := { s with queue := s.queue ++ [a] }

def setHeader (s : State) (header : EventHeader) : State := { s with header := some header }

def tell (s : State) (ns : List Notification) : State := { s with told := s.told ++ ns }

/-- The system event is triggered for an event if there is one. -/
def triggerSystem (s : State) (header : EventHeader) (e : Nat) : State :=
  if header.sysCount ≠ 0 then s.put (.triggerSystemEvent e) else s

/-- `_npa_update_resource_state`. -/
def updateResourceState (s : State) (newState : UInt32) (newHeadroom : Int32) : State :=
  let t := { s with activeState := newState, activeHeadroom := newHeadroom }
  match s.header with
  | some header =>
    if 0 < header.regCount ∧ (newState ≠ s.activeState ∨ newHeadroom ≠ s.activeHeadroom) then
      t.put (.trigger s.activeState newState s.activeHeadroom newHeadroom)
    else t
  | none => t

/-- The header, as it is when the first event that is not for availability is created. -/
def eventHeader (s : State) : EventHeader := s.header.getD ⟨[], [], 0, 0, 0⟩

/-- `npa_new_event`, with the event or NULL. -/
def newEvent (s : State) (type : TriggerType) (callback : Nat) :
    Except Fault (Option Nat × State) :=
  if type = .resourceAvailable then
    if s.instantiated then .error .headerOverwritten
    else
      let t := s.set s.created (some ⟨type.field, 0, 0, callback⟩)
      .ok (some s.created,
        { t with created := s.created + 1, available := s.created :: s.available })
  else if s.instantiated = false then .ok (none, s)
  else
    let header := s.eventHeader
    let allocated (field : TriggerField) (h : EventHeader) : State :=
      { s with
        header := some h
        events := update s.events s.created (some ⟨field, 0, 0, callback⟩)
        created := s.created + 1
        queue := s.queue ++ [.newEvent s.created] }
    match type with
    | .systemEvent =>
      if 0 < header.sysCount then .ok (none, s.setHeader header)
      else
        let h := { header with sysCount := header.sysCount + 1 }
        .ok (some s.created, (allocated type.field h).put (.triggerSystemEvent s.created))
    | .syncEvent =>
      if header.syncCount ≠ 0 then .error .fatal
      else .ok (some s.created, allocated type.field { header with syncCount := 1 })
    | .changeEvent =>
      let h := { header with regCount := header.regCount + 1 }
      .ok (some s.created, (allocated type.field h).triggerSystem h s.created)
    | .watermarkEvent | .thresholdEvent =>
      let h := { header with regCount := header.regCount + 1 }
      .ok (some s.created, allocated { type.field with disabledFlag := true } h)
    | .resourceAvailable => .error .fatal

/-- `npa_destroy_event_handle`. -/
def destroyEventHandle (s : State) (e : Nat) : Except Fault State := do
  let event ← s.get e
  let destroyed := { event with triggerType := { event.triggerType with destroyFlag := true } }
  let t := (s.set e (some destroyed)).put (.destroy e)
  if event.triggerType.type.registered then
    match t.header with
    | none => .error .fatal
    | some header =>
      .ok ((t.setHeader { header with regCount := header.regCount - 1 }).triggerSystem header e)
  else .ok t

/-- The system event with this callback on a list. -/
def findCallback (s : State) (callback : Nat) : List Nat → Except Fault (Option Nat)
  | [] => .ok none
  | e :: l => do
    let event ← s.get e
    if event.callback = callback then
      if event.triggerType.type = .systemEvent then .ok (some e) else .error .fatal
    else s.findCallback callback l

/-- `npa_resource_remove_system_event_callback`. -/
def removeSystemEventCallback (s : State) (callback : Nat) : Except Fault State :=
  if s.instantiated = false then .ok s
  else
    match s.header with
    | none => .error .nullPointer
    | some header => do
      match ← s.findCallback callback header.sysEvent with
      | none => .ok s
      | some e => s.destroyEventHandle e

/-- The end of `npa_set_event_watermarks` and `npa_set_event_thresholds`. -/
def putBounds (s : State) (e : Nat) (a : Action) : Except Fault State := do
  let _ ← s.get e
  match s.header with
  | none => .error .nullPointer
  | some header => .ok ((s.put a).triggerSystem header e)

/-- `npa_set_event_watermarks`. -/
def setEventWatermarks (s : State) (e : Nat) (hiWatermark loWatermark : Int32) :
    Except Fault State :=
  s.putBounds e (.setWatermark e hiWatermark loWatermark s.activeState s.activeHeadroom)

/-- `npa_set_event_thresholds`. -/
def setEventThresholds (s : State) (e : Nat) (loThreshold hiThreshold : UInt32) :
    Except Fault State :=
  s.putBounds e (.setThreshold e hiThreshold loThreshold s.activeState s.activeHeadroom)

/-- `npa_post_sync_event`. -/
def postSyncEvent (s : State) (e : Nat) (state : Option UInt32) : State :=
  s.put (.triggerSyncEvent e state)

/-- A walk along a list of events, each of which may be notified. -/
def scan (s : State) (f : Nat → Event → Except Fault (List Notification)) :
    List Nat → Except Fault (List Notification)
  | [] => .ok []
  | e :: l => do
    let event ← s.get e
    let here ← f e event
    let rest ← s.scan f l
    return here ++ rest

/-- `npa_event_action_trigger_system_event`. -/
def actionTriggerSystemEvent (s : State) (e : Nat) : Except Fault State := do
  let triggerEvent ← s.get e
  match s.header with
  | none => .error .fatal
  | some header =>
    if header.sysEvent = [] then .error .fatal
    else if triggerEvent.triggerType = TriggerType.systemEvent.field then
      let ns ← s.scan (fun a event => .ok <|
        if event.triggerType = TriggerType.changeEvent.field ∨
            event.triggerType = TriggerType.watermarkEvent.field ∨
            event.triggerType = TriggerType.thresholdEvent.field then
          [⟨e, .system, .event a⟩]
        else []) header.event
      return s.tell ns
    else if triggerEvent.triggerType.type.registered = false then .error .fatal
    else
      let ns ← s.scan (fun a event => .ok <|
        if event.triggerType = TriggerType.systemEvent.field then [⟨a, .system, .event e⟩] else [])
        header.sysEvent
      return s.tell ns

/-- `npa_event_action_trigger_sync_event`. -/
def actionTriggerSyncEvent (s : State) (e : Nat) (state : Option UInt32) : Except Fault State := do
  let _ ← s.get e
  return s.tell [⟨e, .sync, .sync state⟩]

/-- The list that an event is on, by its trigger type as it is now: `true` for the system events. -/
def onSysEvent (event : Event) : Bool := event.triggerType = TriggerType.systemEvent.field

/-- `npa_event_action_new_event`. -/
def actionNewEvent (s : State) (e : Nat) : Except Fault State := do
  let event ← s.get e
  match s.header with
  | none => .error .fatal
  | some header =>
    if onSysEvent event then return s.setHeader { header with sysEvent := e :: header.sysEvent }
    else return s.setHeader { header with event := e :: header.event }

/-- What a watermark event is told when its watermarks are set. -/
def watermarkSet (lo hi headroom : Int32) : Option EventType :=
  if headroom < lo then some .loWatermark
  else if headroom > hi then some .hiWatermark
  else none

/-- What a threshold event is told when its thresholds are set. -/
def thresholdSet (lo hi state : UInt32) : Option EventType :=
  if state < lo then some .thresholdLo
  else if hi < state then some .thresholdHi
  else some .thresholdNominal

/-- The part that `npa_event_action_set_watermark` and `npa_event_action_set_threshold` share:
`enabled` is whether the bounds are in order. -/
def actionSet (s : State) (e : Nat) (type : TriggerType) (enabled : Bool) (lo hi : UInt32)
    (told : Option EventType) (data : EventData) : Except Fault State := do
  let event ← s.get e
  if enabled then
    if event.triggerType.destroyFlag then return s
    else if { event.triggerType with disabledFlag := false } ≠ type.field then .error .fatal
    else
      let t := s.set e (some { event with triggerType := type.field, lo := lo, hi := hi })
      return t.tell (told.toList.map (⟨e, ·, data⟩))
  else
    return s.set e (some { event with
      triggerType := { event.triggerType with disabledFlag := true }, lo := lo, hi := hi })

/-- `npa_event_action_set_watermark`. -/
def actionSetWatermark (s : State) (e : Nat) (hi lo : Int32) (state : UInt32) (headroom : Int32) :
    Except Fault State :=
  s.actionSet e .watermarkEvent (lo ≤ hi) lo.toUInt32 hi.toUInt32 (watermarkSet lo hi headroom)
    (.resource state headroom)

/-- `npa_event_action_set_threshold`. -/
def actionSetThreshold (s : State) (e : Nat) (hi lo : UInt32) (state : UInt32) (headroom : Int32) :
    Except Fault State :=
  s.actionSet e .thresholdEvent (lo ≤ hi) lo hi (thresholdSet lo hi state)
    (.resource state headroom)

/-- The look for an event on a list: every event that is passed is read for the next one. -/
def search (s : State) (e : Nat) : List Nat → Except Fault Bool
  | [] => .ok false
  | a :: l =>
    if a = e then .ok true
    else do
      let _ ← s.get a
      s.search e l

/-- `npa_event_action_destroy`. Where it answers DAL_ERROR nothing changes. -/
def actionDestroy (s : State) (e : Nat) : Except Fault State := do
  let event ← s.get e
  match s.header with
  | none => return s
  | some header =>
    let found ← s.search e (if onSysEvent event then header.sysEvent else header.event)
    if found = false then return s
    else if event.triggerType.destroyFlag = false then .error .fatal
    else
      let h := if onSysEvent event then { header with sysEvent := header.sysEvent.erase e }
        else { header with event := header.event.erase e }
      let t := (s.setHeader h).set e none
      return { t with freed := t.freed ++ [e] }

/-- What a watermark event is told when the headroom changes. -/
def watermarkPassed (lo hi oldHeadroom newHeadroom : Int32) : Option EventType :=
  if newHeadroom ≠ oldHeadroom then
    if oldHeadroom > newHeadroom then
      if oldHeadroom > lo ∧ lo ≥ newHeadroom then some .loWatermark else none
    else if oldHeadroom < hi ∧ hi ≤ newHeadroom then some .hiWatermark
    else none
  else none

/-- What a threshold event is told when the state changes. -/
def thresholdPassed (lo hi oldState newState : UInt32) : Option EventType :=
  if newState ≠ oldState then
    if newState < lo ∧ oldState ≥ lo then some .thresholdLo
    else if newState > hi ∧ oldState ≤ hi then some .thresholdHi
    else if (lo ≤ newState ∧ newState ≤ hi) ∧ (oldState < lo ∨ oldState > hi) then
      some .thresholdNominal
    else none
  else none

/-- What one event is told when the resource changes. -/
def onTrigger (event : Event) (oldState newState : UInt32) (oldHeadroom newHeadroom : Int32) :
    Except Fault (Option EventType) :=
  if event.triggerType.disabledFlag ∨ event.triggerType.destroyFlag then .ok none
  else
    match event.triggerType.type with
    | .changeEvent => .ok (if newState ≠ oldState then some .change else none)
    | .watermarkEvent =>
      .ok (watermarkPassed event.lo.toInt32 event.hi.toInt32 oldHeadroom newHeadroom)
    | .thresholdEvent => .ok (thresholdPassed event.lo event.hi oldState newState)
    | .syncEvent => .ok none
    | .resourceAvailable | .systemEvent => .error .fatal

/-- `npa_event_action_trigger`. -/
def actionTrigger (s : State) (oldState newState : UInt32) (oldHeadroom newHeadroom : Int32) :
    Except Fault State :=
  match s.header with
  | none => .error .fatal
  | some header => do
    let ns ← s.scan (fun e event => do
      let type ← onTrigger event oldState newState oldHeadroom newHeadroom
      return type.toList.map (⟨e, ·, .resource newState newHeadroom⟩)) header.event
    return s.tell ns

def perform (s : State) : Action → Except Fault State
  | .newEvent e => s.actionNewEvent e
  | .triggerSystemEvent e => s.actionTriggerSystemEvent e
  | .triggerSyncEvent e state => s.actionTriggerSyncEvent e state
  | .setWatermark e hi lo state headroom => s.actionSetWatermark e hi lo state headroom
  | .setThreshold e hi lo state headroom => s.actionSetThreshold e hi lo state headroom
  | .destroy e => s.actionDestroy e
  | .trigger oldState newState oldHeadroom newHeadroom =>
    s.actionTrigger oldState newState oldHeadroom newHeadroom

/-- The event thread takes the next action. -/
def process (s : State) : Except Fault State :=
  match s.queue with
  | [] => .ok s
  | a :: queue => { s with queue := queue }.perform a

end State

/-- The calls on a resource, and the event thread's turns. -/
inductive Call
  | newEvent (type : TriggerType) (callback : Nat)
  | destroyEventHandle (event : Nat)
  | removeSystemEventCallback (callback : Nat)
  | setEventWatermarks (event : Nat) (hiWatermark loWatermark : Int32)
  | setEventThresholds (event : Nat) (loThreshold hiThreshold : UInt32)
  | updateResourceState (state : UInt32) (headroom : Int32)
  | postSyncEvent (event : Nat) (state : Option UInt32)
  | process

def State.step (s : State) : Call → Except Fault State
  | .newEvent type callback => (s.newEvent type callback).map (·.2)
  | .destroyEventHandle e => s.destroyEventHandle e
  | .removeSystemEventCallback callback => s.removeSystemEventCallback callback
  | .setEventWatermarks e hi lo => s.setEventWatermarks e hi lo
  | .setEventThresholds e lo hi => s.setEventThresholds e lo hi
  | .updateResourceState state headroom => .ok (s.updateResourceState state headroom)
  | .postSyncEvent e state => .ok (s.postSyncEvent e state)
  | .process => s.process

/-- An event that its owner may use: it has been created with a type and not been destroyed. -/
def State.InUse (s : State) (e : Nat) (p : TriggerType → Prop) : Prop :=
  ∃ event, s.events e = some event ∧ event.triggerType.destroyFlag = false ∧
    p event.triggerType.type

/-- What callers are told to keep to: a handle is not used again after it has been destroyed, and
watermarks, thresholds and sync posts are for events of their own type. -/
def State.Permits (s : State) : Call → Prop
  | .destroyEventHandle e => s.InUse e fun _ => True
  | .setEventWatermarks e _ _ => s.InUse e (· = .watermarkEvent)
  | .setEventThresholds e _ _ => s.InUse e (· = .thresholdEvent)
  | .postSyncEvent e _ => s.InUse e (· = .syncEvent)
  | .newEvent _ _ | .removeSystemEventCallback _ | .updateResourceState _ _ | .process => True

/-- A step of the resource and its events. -/
def Step (s : State) (c : Call) (t : State) : Prop := s.Permits c ∧ s.step c = .ok t

instance {s : State} {e : Nat} {p : TriggerType → Prop} [DecidablePred p] :
    Decidable (s.InUse e p) :=
  match h : s.events e with
  | none => isFalse fun ⟨_, hev, _⟩ => nomatch h.symm.trans hev
  | some event =>
    decidable_of_iff (event.triggerType.destroyFlag = false ∧ p event.triggerType.type)
      ⟨fun hp => ⟨event, h, hp⟩, fun ⟨_, hev, hp⟩ => Option.some.inj (h.symm.trans hev) ▸ hp⟩

instance (s : State) (c : Call) : Decidable (s.Permits c) := by
  cases c <;> unfold State.Permits <;> infer_instance

/-- A call that is permitted and does not go wrong. -/
def State.next (s : State) (c : Call) : Option State :=
  if s.Permits c then (s.step c).toOption else none

theorem State.step_of_next {s t : State} {c : Call} (h : s.next c = some t) : Step s c t := by
  unfold State.next at h
  split at h
  · next hp =>
    refine ⟨hp, ?_⟩
    cases hs : s.step c with
    | error f =>
      rw [hs] at h
      cases h
    | ok u =>
      rw [hs] at h
      cases h
      rfl
  · cases h

/-- Calls that are carried out are a run. -/
theorem State.run_of_execute {s t : State} {cs : List Call}
    (h : Lib.execute State.next s cs = some t) : Lib.Run Step s cs.reverse t := by
  refine Lib.Run.of_execute_start (f := State.next) ?_ h
  exact fun h => step_of_next h

section
variable {s t : State} {e a : Nat} {event : Event}

namespace State

@[simp] theorem get_eq_ok : s.get e = .ok event ↔ s.events e = some event := by
  unfold get
  split <;> simp_all

theorem get_of_eq (h : s.events e = some event) : s.get e = .ok event := get_eq_ok.mpr h

/-- The action that a system event adds to the queue. -/
def systemActions (header : EventHeader) (e : Nat) : List Action :=
  if header.sysCount ≠ 0 then [.triggerSystemEvent e] else []

variable {x : Action} {header : EventHeader}

theorem mem_systemActions (hx : x ∈ systemActions header e) :
    x = .triggerSystemEvent e := by
  unfold systemActions at hx
  split at hx
  · exact mem_singleton.mp hx
  · cases hx

theorem triggerSystem_eq (header : EventHeader) :
    s.triggerSystem header e = { s with queue := s.queue ++ systemActions header e } := by
  unfold triggerSystem systemActions
  split
  · rfl
  · rw [append_nil]

variable {type : TriggerType} {callback : Nat} {r : Option Nat}

/-- **What a new event brings**: a waiting event on a resource that is not there yet, nothing at
all, or an event that is counted and on its way to a list. -/
theorem newEvent_ok (h : s.newEvent type callback = .ok (r, t)) :
    (type = .resourceAvailable ∧ s.instantiated = false ∧ r = some s.created ∧
      t = { s with
        events := update s.events s.created (some ⟨type.field, 0, 0, callback⟩)
        created := s.created + 1
        available := s.created :: s.available }) ∨
    (r = none ∧ (s.instantiated = false ∧ t = s ∨
      type = .systemEvent ∧ 0 < s.eventHeader.sysCount ∧ t = s.setHeader s.eventHeader)) ∨
    (type ≠ .resourceAvailable ∧ s.instantiated = true ∧ r = some s.created ∧
      (type = .systemEvent → s.eventHeader.sysCount = 0) ∧
      ∃ disabled sync more, (∀ x ∈ more, x = .triggerSystemEvent s.created) ∧
        (disabled = true ↔ type = .watermarkEvent ∨ type = .thresholdEvent) ∧
        (type.registered = true → s.eventHeader.sysCount = 0 → more = []) ∧
        t = { s with
          header := some
            { s.eventHeader with
              regCount := s.eventHeader.regCount + if type.registered then 1 else 0
              sysCount := s.eventHeader.sysCount + if type = .systemEvent then 1 else 0
              syncCount := sync }
          events := update s.events s.created (some ⟨⟨type, disabled, false⟩, 0, 0, callback⟩)
          created := s.created + 1
          queue := s.queue ++ .newEvent s.created :: more }) := by
  unfold newEvent at h
  by_cases hav : type = .resourceAvailable
  · rw [if_pos hav] at h
    by_cases hi : s.instantiated = true
    · rw [if_pos hi] at h
      cases h
    · rw [if_neg hi] at h
      cases h
      exact .inl ⟨hav, Bool.eq_false_iff.mpr hi, rfl, rfl⟩
  rw [if_neg hav] at h
  by_cases hi : s.instantiated = false
  · rw [if_pos hi] at h
    cases h
    exact .inr (.inl ⟨rfl, .inl ⟨hi, rfl⟩⟩)
  · rw [if_neg hi] at h
    have hi : s.instantiated = true := (Bool.not_eq_false _).mp hi
    cases type with
    | resourceAvailable => exact absurd rfl hav
    | systemEvent =>
      by_cases hsys : 0 < s.eventHeader.sysCount
      · simp only [if_pos hsys] at h
        cases h
        exact .inr (.inl ⟨rfl, .inr ⟨rfl, hsys, rfl⟩⟩)
      · simp only [if_neg hsys] at h
        cases h
        exact .inr (.inr ⟨nofun, hi, rfl, fun _ => by omega, false, s.eventHeader.syncCount,
          [.triggerSystemEvent s.created], fun x hx => mem_singleton.mp hx, by decide, nofun,
          by simp [put, TriggerType.field, TriggerType.registered]⟩)
    | syncEvent =>
      by_cases hsync : s.eventHeader.syncCount ≠ 0
      · simp only [if_pos hsync] at h
        cases h
      · simp only [if_neg hsync] at h
        cases h
        exact .inr (.inr ⟨nofun, hi, rfl, nofun, false, 1, [], nofun, by decide, nofun, rfl⟩)
    | changeEvent =>
      cases h
      refine .inr (.inr ⟨nofun, hi, rfl, nofun, false, s.eventHeader.syncCount,
        systemActions s.eventHeader s.created, fun _ hx => mem_systemActions hx, by decide,
        fun _ hsys => ?_, ?_⟩)
      · rw [systemActions, if_neg (not_not_intro hsys)]
      · rw [triggerSystem_eq]
        simp [systemActions, TriggerType.field, TriggerType.registered]
    | watermarkEvent | thresholdEvent =>
      cases h
      exact .inr (.inr ⟨nofun, hi, rfl, nofun, true, s.eventHeader.syncCount, [], nofun,
        by decide, fun _ _ => rfl, rfl⟩)

/-- What a destroyed event becomes until it is freed. -/
def destroyed (event : Event) : Event :=
  { event with triggerType := { event.triggerType with destroyFlag := true } }

/-- The count goes down for an event that was counted. -/
def uncounted (header : EventHeader) (type : TriggerType) : EventHeader :=
  { header with regCount := header.regCount - if type.registered then 1 else 0 }

theorem uncounted_of_not (h : type.registered = false) : uncounted header type = header := by
  rw [uncounted, h]
  rfl

/-- **What the destruction of an event does at once.** -/
theorem destroyEventHandle_ok (h : s.destroyEventHandle e = .ok t) :
    ∃ event more, s.events e = some event ∧ (∀ x ∈ more, x = .triggerSystemEvent e) ∧
      (s.eventHeader.sysCount = 0 → more = []) ∧
      (event.triggerType.type.registered = false → more = []) ∧
      (event.triggerType.type.registered = true → s.header.isSome = true) ∧
      t = { s with
        header := s.header.map (uncounted · event.triggerType.type)
        events := update s.events e (some (destroyed event))
        queue := s.queue ++ .destroy e :: more } := by
  obtain ⟨event, hev, h⟩ := Lib.bind_eq_ok.mp h
  refine ⟨event, ?_⟩
  by_cases hreg : event.triggerType.type.registered = true
  · rw [if_pos hreg] at h
    cases hh : s.header with
    | none =>
      simp only [set, put, hh] at h
      cases h
    | some header =>
      simp only [set, put, hh, triggerSystem_eq] at h
      cases h
      refine ⟨systemActions header e, get_eq_ok.mp hev, fun x hx => mem_systemActions hx,
        fun hsys => ?_, fun hno => absurd hreg (by rw [hno]; decide), fun _ => rfl, ?_⟩
      · rw [systemActions, if_neg (not_not_intro (by rw [eventHeader, hh] at hsys; exact hsys))]
      · simp [setHeader, uncounted, hreg, destroyed]
  · rw [if_neg hreg] at h
    cases h
    have hmap : s.header.map (uncounted · event.triggerType.type) = s.header := by
      rw [funext fun _ => uncounted_of_not (Bool.eq_false_iff.mpr hreg)]
      exact Option.map_id'
    refine ⟨[], get_eq_ok.mp hev, nofun, fun _ => rfl, fun _ => rfl,
      fun hreg' => absurd hreg' hreg, ?_⟩
    rw [hmap]
    rfl

variable {l : List Nat}

/-- A search finds a system event with the callback. -/
theorem findCallback_some (h : s.findCallback callback l = .ok (some e)) :
    ∃ event, s.events e = some event ∧ event.triggerType.type = .systemEvent ∧
      event.callback = callback := by
  induction l with
  | nil => cases h
  | cons a l ih =>
    obtain ⟨event, hev, h⟩ := Lib.bind_eq_ok.mp h
    by_cases hcb : event.callback = callback
    · rw [if_pos hcb] at h
      by_cases hsys : event.triggerType.type = .systemEvent
      · rw [if_pos hsys] at h
        cases h
        exact ⟨event, get_eq_ok.mp hev, hsys, hcb⟩
      · rw [if_neg hsys] at h
        cases h
    · rw [if_neg hcb] at h
      exact ih h

/-- Removing a callback destroys one system event, or none. -/
theorem removeSystemEventCallback_ok (h : s.removeSystemEventCallback callback = .ok t) :
    t = s ∨ ∃ e event, s.events e = some event ∧ event.triggerType.type = .systemEvent ∧
      event.callback = callback ∧ s.destroyEventHandle e = .ok t := by
  unfold removeSystemEventCallback at h
  by_cases hi : s.instantiated = false
  · rw [if_pos hi] at h
    cases h
    exact .inl rfl
  · rw [if_neg hi] at h
    cases hh : s.header with
    | none => rw [hh] at h; cases h
    | some header =>
      rw [hh] at h
      obtain ⟨r, hr, h⟩ := Lib.bind_eq_ok.mp h
      cases r with
      | none =>
        cases h
        exact .inl rfl
      | some e =>
        obtain ⟨event, hev, htype, hcb⟩ := findCallback_some hr
        exact .inr ⟨e, event, hev, htype, hcb, h⟩

theorem putBounds_ok (h : s.putBounds e x = .ok t) :
    ∃ event header, s.events e = some event ∧ s.header = some header ∧
      t = { s with queue := s.queue ++ x :: systemActions header e } := by
  obtain ⟨event, hev, h⟩ := Lib.bind_eq_ok.mp h
  cases hh : s.header with
  | none => rw [hh] at h; cases h
  | some header =>
    rw [hh] at h
    cases h
    refine ⟨event, header, get_eq_ok.mp hev, rfl, ?_⟩
    rw [triggerSystem_eq]
    simp [put, hh]

/-! What the actions do. -/

/-- A walk notifies of each event what there is for it. -/
theorem mem_scan {f : Nat → Event → Except Fault (List Notification)}
    {ns : List Notification} (h : s.scan f l = .ok ns) {n : Notification} (hn : n ∈ ns) :
    ∃ a ∈ l, ∃ event here, s.events a = some event ∧ f a event = .ok here ∧ n ∈ here := by
  induction l generalizing ns with
  | nil =>
    cases h
    cases hn
  | cons a l ih =>
    obtain ⟨event, hev, h⟩ := Lib.bind_eq_ok.mp h
    obtain ⟨here, hhere, h⟩ := Lib.bind_eq_ok.mp h
    obtain ⟨rest, hrest, h⟩ := Lib.bind_eq_ok.mp h
    cases h
    rcases mem_append.mp hn with hn | hn
    · exact ⟨a, mem_cons_self, event, here, get_eq_ok.mp hev, hhere, hn⟩
    · obtain ⟨b, hb, hrest⟩ := ih hrest hn
      exact ⟨b, mem_cons_of_mem a hb, hrest⟩

/-- A system event is only told to system events. -/
theorem actionTriggerSystemEvent_ok (h : s.actionTriggerSystemEvent e = .ok t) :
    (∃ event, s.events e = some event) ∧ ∃ ns, t = s.tell ns ∧
      ∀ n ∈ ns, ∃ event, s.events n.event = some event ∧
        event.triggerType.type = .systemEvent := by
  obtain ⟨trigger, htrigger, h⟩ := Lib.bind_eq_ok.mp h
  refine ⟨⟨trigger, get_eq_ok.mp htrigger⟩, ?_⟩
  cases hh : s.header with
  | none => rw [hh] at h; cases h
  | some header =>
    rw [hh] at h
    by_cases hnil : header.sysEvent = []
    · simp only [if_pos hnil] at h
      cases h
    simp only [if_neg hnil] at h
    by_cases hsys : trigger.triggerType = TriggerType.systemEvent.field
    · rw [if_pos hsys] at h
      obtain ⟨ns, hns, h⟩ := Lib.bind_eq_ok.mp h
      cases h
      refine ⟨ns, rfl, fun n hn => ?_⟩
      obtain ⟨a, -, event, here, hev, hhere, hin⟩ := mem_scan hns hn
      cases hhere
      split at hin
      · obtain rfl := mem_singleton.mp hin
        exact ⟨trigger, get_eq_ok.mp htrigger, by rw [hsys]; rfl⟩
      · cases hin
    rw [if_neg hsys] at h
    split at h
    · cases h
    · obtain ⟨ns, hns, h⟩ := Lib.bind_eq_ok.mp h
      cases h
      refine ⟨ns, rfl, fun n hn => ?_⟩
      obtain ⟨a, -, event, here, hev, hhere, hin⟩ := mem_scan hns hn
      cases hhere
      split at hin
      · next hfield =>
        obtain rfl := mem_singleton.mp hin
        exact ⟨event, hev, by rw [hfield]; rfl⟩
      · cases hin

theorem actionTriggerSyncEvent_ok {state : Option UInt32}
    (h : s.actionTriggerSyncEvent e state = .ok t) :
    (∃ event, s.events e = some event) ∧ t = s.tell [⟨e, .sync, .sync state⟩] := by
  obtain ⟨event, hev, h⟩ := Lib.bind_eq_ok.mp h
  cases h
  exact ⟨⟨event, get_eq_ok.mp hev⟩, rfl⟩

/-- The header with an event linked in. -/
def linked (header : EventHeader) (event : Event) (e : Nat) : EventHeader :=
  if onSysEvent event then { header with sysEvent := e :: header.sysEvent }
  else { header with event := e :: header.event }

theorem actionNewEvent_ok (h : s.actionNewEvent e = .ok t) :
    ∃ event header, s.events e = some event ∧ s.header = some header ∧
      t = { s with header := some (linked header event e) } := by
  obtain ⟨event, hev, h⟩ := Lib.bind_eq_ok.mp h
  cases hh : s.header with
  | none => rw [hh] at h; cases h
  | some header =>
    refine ⟨event, header, get_eq_ok.mp hev, rfl, ?_⟩
    rw [hh] at h
    unfold linked
    dsimp only at h
    split at h <;> rename_i hon <;> cases h <;> simp [setHeader, hon]

variable {told : Option EventType} {enabled : Bool} {lo hi : UInt32} {data : EventData}

/-- The bounds are set, and the event is told; a destroyed one is left alone, or disabled. -/
theorem actionSet_ok (h : s.actionSet e type enabled lo hi told data = .ok t) :
    ∃ event, s.events e = some event ∧
      ((enabled = true ∧ event.triggerType.destroyFlag = true ∧ t = s) ∨
        (enabled = true ∧ event.triggerType.destroyFlag = false ∧ event.triggerType.type = type ∧
          t = (s.set e (some { event with triggerType := type.field, lo := lo, hi := hi })).tell
            (told.toList.map (⟨e, ·, data⟩))) ∨
        (enabled = false ∧ t = s.set e (some { event with
          triggerType := { event.triggerType with disabledFlag := true }
          lo := lo, hi := hi }))) := by
  obtain ⟨event, hev, h⟩ := Lib.bind_eq_ok.mp h
  refine ⟨event, get_eq_ok.mp hev, ?_⟩
  cases enabled with
  | false =>
    cases h
    exact .inr (.inr ⟨rfl, rfl⟩)
  | true =>
    rw [if_pos rfl] at h
    by_cases hdestroy : event.triggerType.destroyFlag = true
    · rw [if_pos hdestroy] at h
      cases h
      exact .inl ⟨rfl, hdestroy, rfl⟩
    rw [if_neg hdestroy] at h
    by_cases htype : { event.triggerType with disabledFlag := false } ≠ type.field
    · rw [if_pos htype] at h
      cases h
    · rw [if_neg htype] at h
      cases h
      refine .inr (.inl ⟨rfl, Bool.eq_false_iff.mpr hdestroy, ?_, rfl⟩)
      exact congrArg TriggerField.type (not_not.mp htype)

/-- An event that a search finds is on the list. -/
theorem mem_of_search (h : s.search e l = .ok true) : e ∈ l := by
  induction l with
  | nil => cases h
  | cons a l ih =>
    unfold search at h
    by_cases ha : a = e
    · exact ha ▸ mem_cons_self
    · rw [if_neg ha] at h
      obtain ⟨-, -, h⟩ := Lib.bind_eq_ok.mp h
      exact mem_cons_of_mem a (ih h)

/-- The header with an event unlinked. -/
def unlinked (header : EventHeader) (event : Event) (e : Nat) : EventHeader :=
  if onSysEvent event then { header with sysEvent := header.sysEvent.erase e }
  else { header with event := header.event.erase e }

/-- The list that an event is looked for on. -/
def listOf (header : EventHeader) (event : Event) : List Nat :=
  if onSysEvent event then header.sysEvent else header.event

/-- What is left of an event that is destroyed. -/
theorem actionDestroy_ok (h : s.actionDestroy e = .ok t) :
    ∃ event, s.events e = some event ∧ (t = s ∧ (∀ header, s.header = some header →
        s.search e (listOf header event) = .ok false) ∨
      ∃ header, s.header = some header ∧ e ∈ listOf header event ∧
        event.triggerType.destroyFlag = true ∧
        t = { s with
          header := some (unlinked header event e)
          events := update s.events e none
          freed := s.freed ++ [e] }) := by
  obtain ⟨event, hev, h⟩ := Lib.bind_eq_ok.mp h
  refine ⟨event, get_eq_ok.mp hev, ?_⟩
  cases hh : s.header with
  | none =>
    rw [hh] at h
    cases h
    exact .inl ⟨rfl, nofun⟩
  | some header =>
    rw [hh] at h
    obtain ⟨found, hfound, h⟩ := Lib.bind_eq_ok.mp h
    cases found with
    | false =>
      cases h
      exact .inl ⟨rfl, by rintro _ ⟨⟩; exact hfound⟩
    | true =>
      refine .inr ⟨header, rfl, mem_of_search hfound, ?_⟩
      by_cases hdestroy : event.triggerType.destroyFlag = true
      · simp only [hdestroy] at h
        cases h
        exact ⟨hdestroy, rfl⟩
      · simp only [hdestroy] at h
        cases h

/-- A trigger tells every event of the list. -/
theorem actionTrigger_ok {oldState newState : UInt32} {oldHeadroom newHeadroom : Int32}
    (h : s.actionTrigger oldState newState oldHeadroom newHeadroom = .ok t) :
    ∃ header ns, s.header = some header ∧ t = s.tell ns ∧
      s.scan (fun e event => do
        let type ← onTrigger event oldState newState oldHeadroom newHeadroom
        return type.toList.map (⟨e, ·, .resource newState newHeadroom⟩)) header.event = .ok ns := by
  unfold actionTrigger at h
  cases hh : s.header with
  | none => rw [hh] at h; cases h
  | some header =>
    rw [hh] at h
    obtain ⟨ns, hns, h⟩ := Lib.bind_eq_ok.mp h
    cases h
    exact ⟨header, ns, rfl, rfl, hns⟩

/-! The invariant that holds whatever is destroyed. -/

/-- Whether an event counts: it is registered and not destroyed. -/
def live (s : State) (e : Nat) : Bool :=
  match s.events e with
  | some event => event.triggerType.type.registered && !event.triggerType.destroyFlag
  | none => false

/-- The events that are on a list or on their way to one. -/
def links (s : State) : List Nat :=
  s.eventHeader.event ++ s.eventHeader.sysEvent ++ s.queue.filterMap Action.linking

/-- An action waits for an event that there is, or was, and that it fits. -/
structure Suits (s : State) (x : Action) : Prop where
  bound : ∀ a, x.about = some a → a < s.created
  fits : ∀ a event, x.about = some a → s.events a = some event → x.Fits event

/-- Events keep their types and stay destroyed. -/
structure Later (s t : State) : Prop where
  created : s.created ≤ t.created
  events : ∀ a event, a < s.created → t.events a = some event → ∃ event', s.events a = some event' ∧
    event.triggerType.type = event'.triggerType.type ∧
    (event'.triggerType.destroyFlag = true → event.triggerType.destroyFlag = true)

/-- **The order of things**: numbers from `created` on are not used yet, an event is linked once,
the actions suit their events, and the count is that of the events that count. -/
structure Orderly (s : State) : Prop where
  fresh : ∀ e, s.created ≤ e → s.events e = none
  bound : ∀ e ∈ s.links, e < s.created
  nodup : s.links.Nodup
  queued : ∀ x ∈ s.queue, s.Suits x
  counted : s.eventHeader.regCount = (List.range s.created).countP s.live

theorem Suits.later (h : s.Suits x) (hl : s.Later t) : t.Suits x := by
  refine ⟨fun a ha => Nat.lt_of_lt_of_le (h.bound a ha) hl.created, fun a event ha hev => ?_⟩
  obtain ⟨event', hev', htype, hflag⟩ := hl.events a event (h.bound a ha) hev
  have hfits := h.fits a event' ha hev'
  cases x with
  | destroy _ => exact hflag hfits
  | triggerSyncEvent | setWatermark | setThreshold => exact htype.trans hfits
  | newEvent | triggerSystemEvent | trigger => trivial

theorem live_eq_true (hlive : s.live e = true) : ∃ event, s.events e = some event ∧
    event.triggerType.type.registered = true ∧ event.triggerType.destroyFlag = false := by
  unfold live at hlive
  split at hlive
  · next event hev =>
    rw [Bool.and_eq_true, Bool.not_eq_true'] at hlive
    exact ⟨event, hev, hlive⟩
  · cases hlive

theorem live_of_events (hev : s.events e = some event) :
    s.live e = (event.triggerType.type.registered && !event.triggerType.destroyFlag) := by
  rw [live, hev]

theorem Orderly.lt_created (h : s.Orderly) (hev : s.events e = some event) : e < s.created := by
  refine Nat.lt_of_not_le fun hle => ?_
  rw [h.fresh e hle] at hev
  cases hev

/-- While an event counts there is a header, and its count is not zero. -/
theorem Orderly.header_of_live (h : s.Orderly) (hlive : s.live e = true) :
    ∃ header, s.header = some header ∧ 0 < header.regCount := by
  obtain ⟨event, hev, -⟩ := live_eq_true hlive
  have hpos : 0 < s.eventHeader.regCount := by
    rw [h.counted]
    exact countP_pos_iff.mpr ⟨e, mem_range.mpr (h.lt_created hev), hlive⟩
  cases hh : s.header with
  | none => simp [eventHeader, hh] at hpos
  | some header =>
    rw [eventHeader, hh] at hpos
    exact ⟨header, rfl, hpos⟩

theorem orderly_init {instantiated : Bool} {state : UInt32} {headroom : Int32} :
    (init instantiated state headroom).Orderly :=
  ⟨fun _ _ => rfl, nofun, .nil, nofun, rfl⟩

theorem filterMap_of_all {p : Action → Prop} {xs : List Action} (hxs : ∀ x ∈ xs, p x)
    (hp : ∀ x, p x → x.linking = none) : xs.filterMap Action.linking = [] :=
  filterMap_eq_nil_iff.mpr fun x hx => hp x (hxs x hx)

theorem live_update_of_ne {event' : Option Event} (hne : a ≠ e)
    (hev : t.events = update s.events e event') : t.live a = s.live a := by
  unfold live
  rw [hev, update_of_ne hne]

/-- Events made before a new one count as before. -/
theorem Orderly.countP_new (h : s.Orderly)
    (hev : t.events = update s.events s.created (some event))
    (hcreated : t.created = s.created + 1) (hkept : event.triggerType.destroyFlag = false) :
    (List.range t.created).countP t.live =
      s.eventHeader.regCount + if event.triggerType.type.registered then 1 else 0 := by
  rw [hcreated, range_succ, countP_append, h.counted]
  congr 1
  · refine countP_congr fun a ha => ?_
    rw [live_update_of_ne (Nat.ne_of_lt (mem_range.mp ha)) hev]
  · have hlive : t.live s.created = event.triggerType.type.registered := by
      rw [live_of_events (by rw [hev, update_self]), hkept, Bool.not_false, Bool.and_true]
    rw [countP_singleton, hlive]

theorem later_of_new (hev : t.events = update s.events s.created (some event))
    (hcreated : t.created = s.created + 1) : s.Later t := by
  refine ⟨by omega, fun a event' ha hev' => ⟨event', ?_, rfl, id⟩⟩
  rwa [hev, update_of_ne (Nat.ne_of_lt ha)] at hev'

/-- What a new number brings does not disturb the order. -/
theorem Orderly.created (h : s.Orderly) (hev : t.events = update s.events s.created (some event))
    (hcreated : t.created = s.created + 1) (hkept : event.triggerType.destroyFlag = false)
    (hlinks : t.links.Perm s.links ∨ t.links.Perm (s.created :: s.links))
    (hqueue : ∀ x ∈ t.queue, x ∈ s.queue ∨ t.Suits x)
    (hcount : t.eventHeader.regCount =
      s.eventHeader.regCount + if event.triggerType.type.registered then 1 else 0) : t.Orderly where
  fresh e he := by
    rw [hev, update_of_ne (by omega)]
    exact h.fresh e (by omega)
  bound e he := by
    rw [hcreated]
    rcases hlinks with hp | hp
    · exact Nat.lt_succ_of_lt (h.bound e (hp.subset he))
    · rcases mem_cons.mp (hp.subset he) with rfl | he
      · exact Nat.lt_succ_self _
      · exact Nat.lt_succ_of_lt (h.bound e he)
  nodup := by
    rcases hlinks with hp | hp
    · exact hp.nodup_iff.mpr h.nodup
    · refine hp.nodup_iff.mpr (nodup_cons.mpr ⟨fun hin => ?_, h.nodup⟩)
      exact Nat.lt_irrefl _ (h.bound _ hin)
  queued x hx := (hqueue x hx).elim (fun hx => (h.queued x hx).later (later_of_new hev hcreated)) id
  counted := by rw [hcount, h.countP_new hev hcreated hkept]

/-- A new event keeps the queue orderly. -/
theorem Orderly.newEvent (h : s.Orderly)
    (hs : s.newEvent type callback = .ok (r, t)) : t.Orderly := by
  rcases newEvent_ok hs with ⟨rfl, -, -, ht⟩ | ⟨-, ⟨-, rfl⟩ | ⟨-, -, rfl⟩⟩ |
    ⟨-, -, -, -, disabled, sync, more, hmore, -, -, ht⟩
  · subst ht
    exact h.created rfl rfl rfl (.inl (.refl _)) (fun _ hx => .inl hx) rfl
  · exact h
  · exact ⟨h.fresh, h.bound, h.nodup,
      fun x hx => (h.queued x hx).later ⟨Nat.le_refl _, fun a event _ hev => ⟨event, hev, rfl, id⟩⟩,
      h.counted⟩
  · have hnone : more.filterMap Action.linking = [] :=
      filterMap_of_all hmore fun x hx => by rw [hx]; rfl
    refine h.created (by rw [ht]) (by rw [ht]) rfl (.inr ?_) (fun x hx => ?_) (by rw [ht]; rfl)
    · rw [ht]
      simp only [links, eventHeader, getD_some, filterMap_append, filterMap_cons,
        Action.linking, hnone, ← append_assoc]
      exact perm_append_singleton _ _
    · have hlt : s.created < t.created := by
        rw [ht]
        exact Nat.lt_succ_self _
      rw [ht] at hx
      refine (mem_append.mp hx).imp_right fun hx => ?_
      rcases mem_cons.mp hx with rfl | hx
      · exact ⟨by rintro _ ⟨⟩; exact hlt, fun _ _ _ _ => trivial⟩
      · rw [hmore x hx]
        exact ⟨by rintro _ ⟨⟩; exact hlt, fun _ _ _ _ => trivial⟩

theorem eventHeader_map (header : Option EventHeader)
    (hreg : type.registered = true → header.isSome = true) :
    (header.map (uncounted · type)).getD ⟨[], [], 0, 0, 0⟩ =
      uncounted (header.getD ⟨[], [], 0, 0, 0⟩) type := by
  cases header with
  | some _ => rfl
  | none =>
    rw [uncounted_of_not]
    · rfl
    · exact Bool.eq_false_iff.mpr fun h => absurd (hreg h) nofun

/-- One element less satisfies a condition. -/
theorem countP_of_one {p q : Nat → Bool} (hn : l.Nodup) (ha : a ∈ l)
    (hp : p a = true) (hq : q a = false) (hrest : ∀ b, b ≠ a → q b = p b) :
    l.countP q + 1 = l.countP p := by
  induction l with
  | nil => cases ha
  | cons b l ih =>
    obtain ⟨hb, hn⟩ := nodup_cons.mp hn
    by_cases hba : b = a
    · subst hba
      have htail : l.countP q = l.countP p :=
        countP_congr fun c hc => by rw [hrest c fun heq => hb (heq ▸ hc)]
      rw [countP_cons_of_neg (by simp [hq]), countP_cons_of_pos hp, htail]
    · have ih := ih hn ((mem_cons.mp ha).resolve_left (Ne.symm hba))
      rw [countP_cons, countP_cons, hrest b hba, ← ih]
      omega

/-- A first destroy keeps the queue orderly. -/
theorem Orderly.destroyEventHandle (h : s.Orderly) (hs : s.destroyEventHandle e = .ok t)
    (hfirst : ∀ event, s.events e = some event → event.triggerType.type.registered = true →
      event.triggerType.destroyFlag = false) : t.Orderly := by
  obtain ⟨event, more, hev, hmore, -, -, hreg, ht⟩ := destroyEventHandle_ok hs
  have hlt := h.lt_created hev
  have hevents : t.events = update s.events e (some (destroyed event)) := by rw [ht]
  have hheader : t.eventHeader = uncounted s.eventHeader event.triggerType.type := by
    rw [ht]
    exact eventHeader_map s.header hreg
  have hlinks : t.links = s.links := by
    rw [links, hheader, ht]
    simp only [filterMap_append, filterMap_cons, Action.linking,
      filterMap_of_all hmore fun x hx => by rw [hx]; rfl, append_nil]
    rfl
  have hlater : s.Later t := by
    refine ⟨Nat.le_of_eq (by rw [ht]), fun a event' _ hev' => ?_⟩
    rw [hevents] at hev'
    by_cases hae : a = e
    · rw [hae, update_self] at hev'
      cases hev'
      exact ⟨event, hae ▸ hev, rfl, fun _ => rfl⟩
    · rw [update_of_ne hae] at hev'
      exact ⟨event', hev', rfl, id⟩
  have hcreated : t.created = s.created := by rw [ht]
  refine ⟨fun a ha => ?_, fun a ha => ?_, hlinks ▸ h.nodup, fun x hx => ?_, ?_⟩
  · rw [hcreated] at ha
    rw [hevents, update_of_ne (by omega)]
    exact h.fresh a ha
  · rw [hcreated]
    exact h.bound a (hlinks ▸ ha)
  · rw [ht] at hx
    rcases mem_append.mp hx with hx | hx
    · exact (h.queued x hx).later hlater
    · rcases mem_cons.mp hx with rfl | hx
      · refine ⟨by rintro _ ⟨⟩; exact hcreated ▸ hlt, ?_⟩
        rintro _ event' ⟨⟩ hev'
        rw [hevents, update_self] at hev'
        cases hev'
        rfl
      · rw [hmore x hx]
        exact ⟨by rintro _ ⟨⟩; exact hcreated ▸ hlt, fun _ _ _ _ => trivial⟩
  · have hgone : t.live e = false := by
      rw [live_of_events (by rw [hevents, update_self])]
      exact Bool.and_false _
    rw [hheader, hcreated]
    show s.eventHeader.regCount - _ = _
    rw [h.counted]
    by_cases hr : event.triggerType.type.registered = true
    · have hlive : s.live e = true := by
        rw [live_of_events hev, hr, hfirst event hev hr]
        rfl
      rw [if_pos hr, ← countP_of_one nodup_range (mem_range.mpr hlt) hlive hgone
        fun b hb => live_update_of_ne hb hevents]
      rfl
    · rw [if_neg hr, Nat.sub_zero]
      refine countP_congr fun a _ => ?_
      by_cases hae : a = e
      · rw [hae, hgone, live_of_events hev, Bool.eq_false_iff.mpr hr, Bool.false_and]
      · rw [live_update_of_ne hae hevents]

/-- What neither makes nor destroys an event keeps the order. -/
theorem Orderly.transfer (h : s.Orderly) (hcreated : t.created = s.created)
    (hsub : ∀ a ∈ t.links, a ∈ s.links) (hnodup : t.links.Nodup)
    (hqueue : ∀ x ∈ t.queue, x ∈ s.queue ∨ s.Suits x) (hlater : s.Later t)
    (hnone : ∀ a, s.events a = none → t.events a = none) (hlive : ∀ a, t.live a = s.live a)
    (hcount : t.eventHeader.regCount = s.eventHeader.regCount) : t.Orderly where
  fresh a ha := hnone a (h.fresh a (hcreated ▸ ha))
  bound a ha := by
    rw [hcreated]
    exact h.bound a (hsub a ha)
  nodup := hnodup
  queued x hx := ((hqueue x hx).elim (h.queued x) id).later hlater
  counted := by
    rw [hcount, hcreated, funext hlive]
    exact h.counted

/-- What only queues actions keeps the order, when they link nothing and suit their events. -/
theorem Orderly.queue (h : s.Orderly) (more : List Action)
    (hlink : more.filterMap Action.linking = []) (hsuits : ∀ x ∈ more, s.Suits x)
    (hheader : t.header = s.header) (hevents : t.events = s.events)
    (hcreated : t.created = s.created) (hqueue : t.queue = s.queue ++ more) : t.Orderly := by
  have hlinks : t.links = s.links := by
    rw [links, links, eventHeader, eventHeader, hheader, hqueue, filterMap_append, hlink,
      append_nil]
  refine h.transfer hcreated (fun a ha => hlinks ▸ ha) (hlinks ▸ h.nodup) (fun x hx => ?_)
    ⟨Nat.le_of_eq hcreated.symm, fun a event _ hev => ⟨event, hevents ▸ hev, rfl, id⟩⟩
    (fun a ha => hevents ▸ ha) (fun a => ?_) ?_
  · rw [hqueue] at hx
    exact (mem_append.mp hx).imp_right (hsuits x)
  · rw [live, live, hevents]
  · rw [eventHeader, eventHeader, hheader]

/-- An action that sets bounds neither links nor frees. -/
theorem Orderly.putBounds (h : s.Orderly) (hs : s.putBounds e x = .ok t)
    (hx : x.linking = none) (habout : x.about = some e)
    (hfits : ∀ event, s.events e = some event → x.Fits event) : t.Orderly := by
  obtain ⟨event, header, hev, -, ht⟩ := putBounds_ok hs
  have hlt := h.lt_created hev
  refine h.queue (x :: systemActions header e) ?_ (fun y hy => ?_) (by rw [ht]) (by rw [ht])
    (by rw [ht]) (by rw [ht])
  · rw [filterMap_cons_none hx]
    exact filterMap_of_all (fun _ hx => mem_systemActions hx) fun x hx => by rw [hx]; rfl
  · rcases mem_cons.mp hy with rfl | hy
    · refine ⟨fun a ha => ?_, fun a event ha hev => ?_⟩ <;> rw [habout] at ha <;> cases ha
      · exact hlt
      · exact hfits event hev
    · rw [mem_systemActions hy]
      exact ⟨by rintro _ ⟨⟩; exact hlt, fun _ _ _ _ => trivial⟩

/-- The action that a change of the resource queues. -/
def posted (s : State) (newState : UInt32) (newHeadroom : Int32) : List Action :=
  match s.header with
  | some header =>
    if 0 < header.regCount ∧ (newState ≠ s.activeState ∨ newHeadroom ≠ s.activeHeadroom) then
      [.trigger s.activeState newState s.activeHeadroom newHeadroom]
    else []
  | none => []

theorem updateResourceState_eq (newState : UInt32) (newHeadroom : Int32) :
    s.updateResourceState newState newHeadroom =
      { s with
        activeState := newState
        activeHeadroom := newHeadroom
        queue := s.queue ++ s.posted newState newHeadroom } := by
  unfold updateResourceState posted
  cases hh : s.header with
  | none => simp
  | some header =>
    dsimp only
    split
    · simp [put]
    · simp

theorem mem_posted {newState : UInt32} {newHeadroom : Int32}
    (hx : x ∈ s.posted newState newHeadroom) :
    x = .trigger s.activeState newState s.activeHeadroom newHeadroom := by
  unfold posted at hx
  split at hx
  · split at hx
    · exact mem_singleton.mp hx
    · cases hx
  · cases hx

theorem Orderly.updateResourceState (h : s.Orderly) (newState : UInt32) (newHeadroom : Int32) :
    (s.updateResourceState newState newHeadroom).Orderly := by
  rw [updateResourceState_eq]
  refine h.queue _ (filterMap_of_all (fun _ hx => mem_posted hx) fun x hx => by rw [hx]; rfl)
    (fun x hx => ?_) rfl rfl rfl rfl
  rw [mem_posted hx]
  exact ⟨nofun, fun _ _ _ _ => trivial⟩

variable {queue : List Action}

/-- An action that does not link is taken from the queue, and events keep what counts of them. -/
theorem Orderly.taken (h : s.Orderly) (hq : s.queue = x :: queue)
    (hx : x.linking = none) (hcreated : t.created = s.created) (hheader : t.header = s.header)
    (hqueue : t.queue = queue)
    (hevents : ∀ a, (t.events a).map (fun event =>
        (event.triggerType.type, event.triggerType.destroyFlag)) =
      (s.events a).map fun event => (event.triggerType.type, event.triggerType.destroyFlag)) :
    t.Orderly := by
  have hlinks : t.links = s.links := by
    rw [links, links, eventHeader, eventHeader, hheader, hqueue, hq, filterMap_cons_none hx]
  have hnone : ∀ a, s.events a = none → t.events a = none := fun a ha => by
    have heq := hevents a
    rw [ha] at heq
    exact map_eq_none_iff.mp heq
  have hsome : ∀ a event, t.events a = some event → ∃ event', s.events a = some event' ∧
      event.triggerType.type = event'.triggerType.type ∧
      event.triggerType.destroyFlag = event'.triggerType.destroyFlag := fun a event hev => by
    have heq := hevents a
    rw [hev] at heq
    obtain ⟨event', hev', hsame⟩ := map_eq_some_iff.mp heq.symm
    exact ⟨event', hev', (congrArg Prod.fst hsame).symm, (congrArg Prod.snd hsame).symm⟩
  refine h.transfer hcreated (fun a ha => hlinks ▸ ha) (hlinks ▸ h.nodup)
    (fun y hy => .inl ?_) ⟨Nat.le_of_eq hcreated.symm, fun a event _ hev => ?_⟩ hnone
    (fun a => ?_) ?_
  · rw [hq]
    exact mem_cons_of_mem x (hqueue ▸ hy)
  · obtain ⟨event', hev', htype, hflag⟩ := hsome a event hev
    exact ⟨event', hev', htype, fun hd => hflag.trans hd⟩
  · cases hev : t.events a with
    | none =>
      have hev' : s.events a = none := by
        have heq := hevents a
        rw [hev] at heq
        exact map_eq_none_iff.mp heq.symm
      rw [live, live, hev, hev']
    | some event =>
      obtain ⟨event', hev', htype, hflag⟩ := hsome a event hev
      rw [live_of_events hev, live_of_events hev', htype, hflag]
  · rw [eventHeader, eventHeader, hheader]

theorem Orderly.actionNewEvent (h : s.Orderly) (hq : s.queue = .newEvent e :: queue)
    (hs : ({ s with queue := queue } : State).actionNewEvent e = .ok t) : t.Orderly := by
  obtain ⟨event, header, hev, hh, ht⟩ := actionNewEvent_ok hs
  have hheader : s.eventHeader = header := by
    rw [eventHeader, show s.header = some header from hh]
    rfl
  have hperm : t.links.Perm s.links := by
    rw [links, links, hheader, ht, hq]
    show List.Perm ((linked header event e).event ++ (linked header event e).sysEvent ++ _) _
    simp only [filterMap_cons, Action.linking]
    unfold linked
    split
    · simp only [append_assoc, cons_append]
      refine List.Perm.append_left _ ?_
      exact perm_middle.symm
    · simp only [append_assoc, cons_append]
      rw [← append_assoc, ← append_assoc]
      exact perm_middle.symm
  have hevents : t.events = s.events := by rw [ht]
  refine h.transfer (by rw [ht]) (fun a ha => hperm.subset ha) (hperm.nodup_iff.mpr h.nodup)
    (fun x hx => .inl ?_)
    ⟨Nat.le_of_eq (by rw [ht]), fun a event _ hev => ⟨event, hevents ▸ hev, rfl, id⟩⟩
    (fun a ha => hevents ▸ ha) (fun a => ?_) ?_
  · rw [ht] at hx
    rw [hq]
    exact mem_cons_of_mem _ hx
  · rw [live, live, hevents]
  · rw [hheader, ht]
    show (linked header event e).regCount = _
    unfold linked
    split <;> rfl

/-- Carrying out a destroy keeps the queue orderly. -/
theorem Orderly.actionDestroy (h : s.Orderly) (hq : s.queue = .destroy e :: queue)
    (hs : ({ s with queue := queue } : State).actionDestroy e = .ok t) : t.Orderly := by
  obtain ⟨event, hev, ⟨ht, -⟩ | ⟨header, hh, -, hdestroy, ht⟩⟩ := actionDestroy_ok hs
  · subst ht
    exact h.taken hq rfl rfl rfl rfl fun _ => rfl
  · have hheader : s.eventHeader = header := by
      rw [eventHeader, show s.header = some header from hh]
      rfl
    have hsub : t.links.Sublist s.links := by
      rw [links, links, hheader, ht, hq]
      show List.Sublist
        ((unlinked header event e).event ++ (unlinked header event e).sysEvent ++ _) _
      simp only [filterMap_cons, Action.linking]
      unfold unlinked
      split
      · exact (erase_sublist.append_left _).append_right _
      · exact (erase_sublist.append_right _).append_right _
    have hevents : t.events = update s.events e none := by rw [ht]
    refine h.transfer (by rw [ht]) (fun a ha => hsub.subset ha) (h.nodup.sublist hsub)
      (fun x hx => .inl ?_) ⟨Nat.le_of_eq (by rw [ht]), fun a event _ hev => ?_⟩ (fun a ha => ?_)
      (fun a => ?_) ?_
    · rw [ht] at hx
      rw [hq]
      exact mem_cons_of_mem _ hx
    · rw [hevents] at hev
      by_cases hae : a = e
      · rw [hae, update_self] at hev
        cases hev
      · rw [update_of_ne hae] at hev
        exact ⟨event, hev, rfl, id⟩
    · rw [hevents]
      by_cases hae : a = e
      · rw [hae, update_self]
      · rw [update_of_ne hae]
        exact ha
    · by_cases hae : a = e
      · rw [hae, live_of_events (s := s) hev, hdestroy, Bool.not_true,
          Bool.and_false, live, hevents,
          update_self]
      · exact live_update_of_ne hae hevents
    · rw [hheader, ht]
      show (unlinked header event e).regCount = _
      unfold unlinked
      split <;> rfl

/-- What setting bounds leaves of the events. -/
theorem actionSet_keeps (h : s.actionSet e type enabled lo hi told data = .ok t) (a : Nat) :
    (t.events a).map (fun event => (event.triggerType.type, event.triggerType.destroyFlag)) =
      (s.events a).map fun event => (event.triggerType.type, event.triggerType.destroyFlag) := by
  obtain ⟨event, hev, ⟨-, -, rfl⟩ | ⟨-, hdestroy, htype, rfl⟩ | ⟨-, rfl⟩⟩ := actionSet_ok h
  · rfl
  · by_cases hae : a = e
    · subst hae
      simp [set, tell, hev, htype, hdestroy, TriggerType.field]
    · simp [set, tell, update_of_ne hae]
  · by_cases hae : a = e
    · subst hae
      simp [set, hev]
    · simp [set, update_of_ne hae]

/-- What setting bounds leaves of the rest. -/
theorem actionSet_frame (h : s.actionSet e type enabled lo hi told data = .ok t) :
    t.header = s.header ∧ t.created = s.created ∧ t.queue = s.queue ∧ t.freed = s.freed := by
  obtain ⟨event, hev, ⟨-, -, rfl⟩ | ⟨-, -, -, rfl⟩ | ⟨-, rfl⟩⟩ := actionSet_ok h <;>
    exact ⟨rfl, rfl, rfl, rfl⟩

/-- **An action keeps the order.** -/
theorem Orderly.perform (h : s.Orderly)
    (hq : s.queue = x :: queue) (hs : ({ s with queue := queue } : State).perform x = .ok t) :
    t.Orderly := by
  cases x with
  | newEvent e => exact h.actionNewEvent hq hs
  | triggerSystemEvent e =>
    obtain ⟨-, ns, rfl, -⟩ := actionTriggerSystemEvent_ok hs
    exact h.taken hq rfl rfl rfl rfl fun _ => rfl
  | triggerSyncEvent e state =>
    obtain ⟨-, rfl⟩ := actionTriggerSyncEvent_ok hs
    exact h.taken hq rfl rfl rfl rfl fun _ => rfl
  | setWatermark e hi lo state headroom | setThreshold e hi lo state headroom =>
    obtain ⟨hheader, hcreated, hqueue, -⟩ := actionSet_frame hs
    exact h.taken hq rfl hcreated hheader hqueue
      fun a => actionSet_keeps (s := { s with queue := queue }) hs a
  | destroy e => exact h.actionDestroy hq hs
  | trigger oldState newState oldHeadroom newHeadroom =>
    obtain ⟨header, ns, -, rfl, -⟩ := actionTrigger_ok hs
    exact h.taken hq rfl rfl rfl rfl fun _ => rfl

theorem newEvent_of_step (hs : s.step (.newEvent type callback) = .ok t) :
    ∃ r, s.newEvent type callback = .ok (r, t) := by
  dsimp only [step] at hs
  cases hnew : s.newEvent type callback with
  | error f =>
    rw [hnew] at hs
    cases hs
  | ok r =>
    rw [hnew] at hs
    cases hs
    exact ⟨r.1, rfl⟩

end State

/-- **A step keeps the order.** -/
theorem State.Orderly.step {c : Call} (h : s.Orderly) (hs : Step s c t) : t.Orderly := by
  obtain ⟨hpermits, hs⟩ := hs
  cases c with
  | newEvent type callback =>
    obtain ⟨r, hs⟩ := State.newEvent_of_step hs
    exact h.newEvent hs
  | destroyEventHandle e =>
    obtain ⟨event, hev, hflag, -⟩ := hpermits
    refine h.destroyEventHandle hs fun event' hev' _ => ?_
    rw [hev] at hev'
    cases hev'
    exact hflag
  | removeSystemEventCallback callback =>
    rcases removeSystemEventCallback_ok hs with rfl | ⟨e, event, hev, htype, -, hs⟩
    · exact h
    · refine h.destroyEventHandle hs fun event' hev' hreg => ?_
      rw [hev] at hev'
      cases hev'
      rw [htype] at hreg
      cases hreg
  | setEventWatermarks e hi lo | setEventThresholds e lo hi =>
    obtain ⟨event, hev, -, htype⟩ := hpermits
    refine h.putBounds hs rfl rfl fun event' hev' => ?_
    rw [hev] at hev'
    cases hev'
    exact htype
  | updateResourceState state headroom =>
    cases hs
    exact h.updateResourceState state headroom
  | postSyncEvent e state =>
    cases hs
    obtain ⟨event, hev, -, htype⟩ := hpermits
    refine h.queue [.triggerSyncEvent e state] rfl (fun x hx => ?_) rfl rfl rfl rfl
    rw [mem_singleton.mp hx]
    refine ⟨by rintro _ ⟨⟩; exact h.lt_created hev, ?_⟩
    rintro _ event' ⟨⟩ hev'
    rw [hev] at hev'
    cases hev'
    exact htype
  | process =>
    unfold State.step State.process at hs
    cases hq : s.queue with
    | nil =>
      simp only [hq] at hs
      cases hs
      exact h
    | cons x queue =>
      simp only [hq] at hs
      exact h.perform hq hs


end

end Npa.Events
