import BootXf.Npa.Events

/-!
# What watermark and threshold events are told

An owner sees the bounds it sets and the changes of the resource, in the order of the calls. A
`Rule` says what it is told of each: `Kind.documented` is the description of the regions,
`Kind.rule` what the actions compute. The replies of the code's rule to the calls so far are what
the owner is told once the queue is empty, and the two rules agree as long as the headroom never
meets a bound of a watermark event (`Kind.Fits`).
-/

namespace Npa.Events

open List Option Function

/-- The events that have bounds. -/
inductive Kind
  | watermark | threshold
  deriving DecidableEq

def Kind.type : Kind → TriggerType
  | .watermark => .watermarkEvent
  | .threshold => .thresholdEvent

/-- A resource as events see it. -/
structure Value where
  state : UInt32
  headroom : Int32
  deriving DecidableEq

/-- What the owner of an event does or sees: bounds are set, or the resource changes. -/
inductive Input
  | set (lo hi : UInt32)
  | update (value : Value)

/-- What an event is told: whether bounds are in order, what follows when they are set, and what
follows a change. -/
structure Rule where
  ordered : UInt32 → UInt32 → Bool
  onSet : UInt32 → UInt32 → Value → Option EventType
  onUpdate : UInt32 → UInt32 → Value → Value → Option EventType

/-- An event as a rule sees it: the bounds in force and the resource. -/
structure Watch where
  bounds : Option (UInt32 × UInt32)
  value : Value

namespace Rule

/-- What is told of an input. -/
def reply (r : Rule) (w : Watch) : Input → Option (EventType × Value)
  | .set lo hi => if r.ordered lo hi then (r.onSet lo hi w.value).map (·, w.value) else none
  | .update value => w.bounds.bind fun b => (r.onUpdate b.1 b.2 w.value value).map (·, value)

/-- What an input leaves behind. Bounds that are not in order disable the event. -/
def next (r : Rule) (w : Watch) : Input → Watch
  | .set lo hi => { w with bounds := if r.ordered lo hi then some (lo, hi) else none }
  | .update value => { w with value := value }

/-- What is told of inputs, the oldest first. -/
def replies (r : Rule) (w : Watch) : List Input → List (EventType × Value)
  | [] => []
  | i :: is => (r.reply w i).toList ++ r.replies (r.next w i) is

def after (r : Rule) (w : Watch) (is : List Input) : Watch := is.foldl r.next w

end Rule

/-- The regions of a threshold event. -/
inductive Region
  | low | nominal | high
  deriving DecidableEq

def region (lo hi state : UInt32) : Region :=
  if state < lo then .low else if hi < state then .high else .nominal

def Region.event : Region → EventType
  | .low => .thresholdLo
  | .nominal => .thresholdNominal
  | .high => .thresholdHi

/-- The description of the events. A threshold event is told the region when its thresholds are set
and when the region changes. A watermark event is told when the headroom passes above the high
watermark or below the low one, and when it is there as the watermarks are set. -/
def Kind.documented : Kind → Rule
  | .threshold =>
    { ordered lo hi := lo ≤ hi
      onSet lo hi v := some (region lo hi v.state).event
      onUpdate lo hi v v' :=
        if region lo hi v.state = region lo hi v'.state then none
        else some (region lo hi v'.state).event }
  | .watermark =>
    { ordered lo hi := lo.toInt32 ≤ hi.toInt32
      onSet lo hi v :=
        if hi.toInt32 < v.headroom then some .hiWatermark
        else if v.headroom < lo.toInt32 then some .loWatermark
        else none
      onUpdate lo hi v v' :=
        if ¬ hi.toInt32 < v.headroom ∧ hi.toInt32 < v'.headroom then some .hiWatermark
        else if ¬ v.headroom < lo.toInt32 ∧ v'.headroom < lo.toInt32 then some .loWatermark
        else none }

/-- What the actions compute. -/
def Kind.rule : Kind → Rule
  | .threshold =>
    { ordered lo hi := lo ≤ hi
      onSet lo hi v := State.thresholdSet lo hi v.state
      onUpdate lo hi v v' := State.thresholdPassed lo hi v.state v'.state }
  | .watermark =>
    { ordered lo hi := lo.toInt32 ≤ hi.toInt32
      onSet lo hi v := State.watermarkSet lo.toInt32 hi.toInt32 v.headroom
      onUpdate lo hi v v' :=
        State.watermarkPassed lo.toInt32 hi.toInt32 v.headroom v'.headroom }

/-- A change of the headroom that does not meet a watermark: it neither reaches one from inside nor
leaves one to the outside. -/
def Misses (lo hi old new : Int32) : Prop :=
  ¬ (old < hi ∧ new = hi) ∧ ¬ (old = hi ∧ hi < new) ∧ ¬ (lo < old ∧ new = lo) ∧
    ¬ (old = lo ∧ new < lo)

instance (lo hi old new : Int32) : Decidable (Misses lo hi old new) :=
  inferInstanceAs (Decidable (_ ∧ _))

/-- An input misses the watermarks in force. -/
def Watch.Misses (w : Watch) : Input → Prop
  | .set _ _ => True
  | .update value =>
    match w.bounds with
    | none => True
    | some b => Events.Misses b.1.toInt32 b.2.toInt32 w.value.headroom value.headroom

instance (w : Watch) (i : Input) : Decidable (w.Misses i) :=
  match i with
  | .set _ _ => isTrue trivial
  | .update value =>
    match h : w.bounds with
    | none => isTrue (by rw [Watch.Misses, h]; trivial)
    | some b =>
      decidable_of_iff (Events.Misses b.1.toInt32 b.2.toInt32 w.value.headroom value.headroom)
        (by rw [Watch.Misses, h])

/-- Each input misses the watermarks that are in force then. -/
def WatermarksMissed : Watch → List Input → Prop
  | _, [] => True
  | w, i :: is => w.Misses i ∧ WatermarksMissed (Kind.watermark.rule.next w i) is

instance decidableWatermarksMissed : (w : Watch) → (is : List Input) →
    Decidable (WatermarksMissed w is)
  | _, [] => isTrue trivial
  | w, i :: is =>
    have := decidableWatermarksMissed (Kind.watermark.rule.next w i) is
    inferInstanceAs (Decidable (_ ∧ _))

/-- **The inputs on which the code follows the description**: changes of the headroom miss the
watermarks in force. There is no condition on thresholds. -/
def Kind.Fits : Kind → Watch → List Input → Prop
  | .threshold => fun _ _ => True
  | .watermark => WatermarksMissed

/-! The two rules compared. -/

theorem thresholdSet_eq (lo hi state : UInt32) :
    State.thresholdSet lo hi state = some (region lo hi state).event := by
  unfold State.thresholdSet region
  split
  · rfl
  · split <;> rfl

/-- **Thresholds: the classification of a change is that of its two ends.** -/
theorem thresholdPassed_eq {lo hi old new : UInt32} (hle : lo ≤ hi) :
    State.thresholdPassed lo hi old new =
      if region lo hi old = region lo hi new then none else some (region lo hi new).event := by
  rw [UInt32.le_iff_toNat_le] at hle
  unfold State.thresholdPassed region
  simp only [ne_eq, ← UInt32.toNat_inj, gt_iff_lt, ge_iff_le, UInt32.lt_iff_toNat_lt,
    UInt32.le_iff_toNat_le]
  grind [Region.event]

theorem watermarkSet_eq {lo hi headroom : Int32} (hle : lo ≤ hi) :
    State.watermarkSet lo hi headroom =
      if hi < headroom then some .hiWatermark
      else if headroom < lo then some .loWatermark
      else none := by
  rw [Int32.le_iff_toInt_le] at hle
  unfold State.watermarkSet
  simp only [gt_iff_lt, Int32.lt_iff_toInt_lt]
  grind

/-- **Watermarks: a change is told as described exactly if it misses the watermarks.** -/
theorem watermarkPassed_eq_iff {lo hi old new : Int32} (hle : lo ≤ hi) :
    State.watermarkPassed lo hi old new =
        (if ¬ hi < old ∧ hi < new then some .hiWatermark
        else if ¬ old < lo ∧ new < lo then some .loWatermark
        else none) ↔
      Misses lo hi old new := by
  rw [Int32.le_iff_toInt_le] at hle
  unfold State.watermarkPassed Misses
  simp only [ne_eq, ← Int32.toInt_inj, gt_iff_lt, ge_iff_le, Int32.lt_iff_toInt_lt,
    Int32.le_iff_toInt_le]
  grind

section
variable {kind : Kind} {w : Watch} {e : Nat} {event : Event} {s t : State} {lo hi : UInt32}
  {a : Nat} {i : Input} {ns : List Notification} {type : TriggerType}

/-- Bounds in force are in order. -/
def Watch.Ordered (kind : Kind) (w : Watch) : Prop :=
  ∀ lo hi, w.bounds = some (lo, hi) → kind.rule.ordered lo hi = true

theorem Watch.Ordered.next (h : w.Ordered kind) (i : Input) :
    (kind.rule.next w i).Ordered kind := by
  cases i with
  | set lo hi =>
    intro lo' hi' hb
    by_cases ho : kind.rule.ordered lo hi = true
    · simp only [Rule.next, if_pos ho] at hb
      cases hb
      exact ho
    · simp only [Rule.next, if_neg ho] at hb
      cases hb
  | update value => exact h

theorem ordered_documented : kind.documented.ordered = kind.rule.ordered := by
  cases kind <;> rfl

theorem next_documented (i : Input) : kind.documented.next w i = kind.rule.next w i := by
  cases i with
  | set lo hi => simp only [Rule.next, ordered_documented]
  | update value => simp only [Rule.next]

theorem onSet_documented (ho : kind.rule.ordered lo hi = true) (v : Value) :
    kind.rule.onSet lo hi v = kind.documented.onSet lo hi v := by
  cases kind with
  | threshold => exact thresholdSet_eq lo hi v.state
  | watermark => exact watermarkSet_eq (of_decide_eq_true ho)

theorem onUpdate_documented {v v' : Value} (ho : kind.rule.ordered lo hi = true)
    (hmiss : kind = .watermark → Misses lo.toInt32 hi.toInt32 v.headroom v'.headroom) :
    kind.rule.onUpdate lo hi v v' = kind.documented.onUpdate lo hi v v' := by
  cases kind with
  | threshold => exact thresholdPassed_eq (of_decide_eq_true ho)
  | watermark => exact (watermarkPassed_eq_iff (of_decide_eq_true ho)).mpr (hmiss rfl)

/-- One input is answered as described when it fits. -/
theorem reply_documented {is : List Input} (ho : w.Ordered kind)
    (hfit : kind.Fits w (i :: is)) : kind.rule.reply w i = kind.documented.reply w i := by
  cases i with
  | set lo hi =>
    simp only [Rule.reply, ordered_documented]
    by_cases hle : kind.rule.ordered lo hi = true
    · rw [if_pos hle, if_pos hle, onSet_documented hle]
    · rw [if_neg hle, if_neg hle]
  | update value =>
    cases hb : w.bounds with
    | none => simp only [Rule.reply, hb, bind_none]
    | some b =>
      simp only [Rule.reply, hb, bind_some]
      rw [onUpdate_documented (ho b.1 b.2 hb) fun hk => ?_]
      subst hk
      have hmiss := hfit.1
      rw [Watch.Misses, hb] at hmiss
      exact hmiss

theorem Kind.Fits.tail {is : List Input} (hfit : kind.Fits w (i :: is)) :
    kind.Fits (kind.rule.next w i) is := by
  cases kind with
  | threshold => trivial
  | watermark => exact hfit.2

/-- **Where inputs fit, the code's replies are those of the description.** -/
theorem replies_documented {is : List Input} (ho : w.Ordered kind) (hfit : kind.Fits w is) :
    kind.rule.replies w is = kind.documented.replies w is := by
  induction is generalizing w with
  | nil => simp only [Rule.replies]
  | cons i is ih =>
    simp only [Rule.replies]
    rw [reply_documented ho hfit, next_documented, ih (ho.next i) hfit.tail]

theorem Kind.Fits.of_append {is js : List Input} (hfit : kind.Fits w (is ++ js)) :
    kind.Fits w is := by
  cases kind with
  | threshold => trivial
  | watermark =>
    induction is generalizing w with
    | nil => trivial
    | cons i is ih => exact ⟨hfit.1, ih hfit.2⟩

theorem Rule.replies_append (r : Rule) (w : Watch) (is js : List Input) :
    r.replies w (is ++ js) = r.replies w is ++ r.replies (r.after w is) js := by
  induction is generalizing w with
  | nil => rfl
  | cons i is ih =>
    show _ ++ r.replies _ (is ++ js) = _ ++ _ ++ _
    rw [ih, append_assoc]
    rfl

theorem Rule.after_append (r : Rule) (w : Watch) (is js : List Input) :
    r.after w (is ++ js) = r.after (r.after w is) js := foldl_append

/-- A change that changes nothing is told to nobody. -/
theorem onUpdate_same (lo hi : UInt32) (v : Value) : kind.rule.onUpdate lo hi v v = none := by
  cases kind with
  | threshold => exact if_neg (not_not_intro rfl)
  | watermark => exact if_neg (not_not_intro rfl)

/-! The inputs of a run, and what of them still waits. -/

/-- What the owner of an event does or sees in a call. -/
def Call.inputs (e : Nat) : Call → List Input
  | .setEventWatermarks a hi lo => if a = e then [.set lo.toUInt32 hi.toUInt32] else []
  | .setEventThresholds a lo hi => if a = e then [.set lo hi] else []
  | .updateResourceState state headroom => [.update ⟨state, headroom⟩]
  | .newEvent _ _ | .destroyEventHandle _ | .removeSystemEventCallback _ | .postSyncEvent _ _ |
    .process => []

/-- The inputs of a history, the oldest first. -/
def inputs (e : Nat) : List Call → List Input
  | [] => []
  | c :: h => inputs e h ++ c.inputs e

/-- The action that sets bounds of an event. -/
def Kind.action (e : Nat) (lo hi : UInt32) (v : Value) : Kind → Action
  | .watermark => .setWatermark e hi.toInt32 lo.toInt32 v.state v.headroom
  | .threshold => .setThreshold e hi lo v.state v.headroom

/-- The actions that touch an event of a kind: all that name it but the system's. -/
def Action.touches (e : Nat) : Action → Bool
  | .newEvent a | .triggerSyncEvent a _ | .setWatermark a .. | .setThreshold a .. | .destroy a =>
    a = e
  | .triggerSystemEvent _ | .trigger .. => false

def Action.isTrigger : Action → Bool
  | .trigger .. => true
  | _ => false

/-- **The queue holds the inputs that wait**, from the value that the event has seen to the value of
the resource: a change with the values before and after it, bounds with the value at the call. A
change that changes nothing is not queued. -/
inductive Pending (kind : Kind) (e : Nat) : Value → List Action → List Input → Value → Prop
  | done (v : Value) : Pending kind e v [] [] v
  | same {v w : Value} {q : List Action} {is : List Input} :
    Pending kind e v q is w → Pending kind e v q (.update v :: is) w
  | update {v v' w : Value} {q : List Action} {is : List Input} : Pending kind e v' q is w →
    Pending kind e v (.trigger v.state v'.state v.headroom v'.headroom :: q) (.update v' :: is) w
  | set {v w : Value} {q : List Action} {is : List Input} (lo hi : UInt32) :
    Pending kind e v q is w →
    Pending kind e v (kind.action e lo hi v :: q) (.set lo hi :: is) w
  | other {v w : Value} {x : Action} {q : List Action} {is : List Input} :
    x.touches e = false → x.isTrigger = false → Pending kind e v q is w →
    Pending kind e v (x :: q) is w

namespace Pending

variable {v v' u : Value} {q q' : List Action} {is js : List Input} {x : Action}

theorem append (h : Pending kind e v q is u) (h' : Pending kind e u q' js v') :
    Pending kind e v (q ++ q') (is ++ js) v' := by
  induction h with
  | done => exact h'
  | same _ ih => exact .same (ih h')
  | update _ ih => exact .update (ih h')
  | set lo hi _ ih => exact .set lo hi (ih h')
  | other htouch htrigger _ ih => exact .other htouch htrigger (ih h')

theorem others {xs : List Action} (hxs : ∀ x ∈ xs, x.touches e = false ∧ x.isTrigger = false) :
    Pending kind e v xs [] v := by
  induction xs with
  | nil => exact .done v
  | cons x xs ih =>
    obtain ⟨htouch, htrigger⟩ := hxs x mem_cons_self
    exact .other htouch htrigger (ih fun y hy => hxs y (mem_cons_of_mem x hy))

/-- **What the next action is about**: after some changes that change nothing it is an action of
another event, the next change, or the next bounds. -/
theorem uncons (h : Pending kind e v (x :: q) is u) :
    ∃ n js, is = replicate n (.update v) ++ js ∧
      ((x.touches e = false ∧ x.isTrigger = false ∧ Pending kind e v q js u) ∨
        (∃ v' ks, x = .trigger v.state v'.state v.headroom v'.headroom ∧ js = .update v' :: ks ∧
          Pending kind e v' q ks u) ∨
        ∃ lo hi ks, x = kind.action e lo hi v ∧ js = .set lo hi :: ks ∧
          Pending kind e v q ks u) := by
  generalize hq : x :: q = xs at h
  induction h with
  | done => cases hq
  | same _ ih =>
    obtain ⟨n, js, rfl, hnext⟩ := ih hq
    exact ⟨n + 1, js, rfl, hnext⟩
  | update h _ =>
    cases hq
    exact ⟨0, _, rfl, .inr (.inl ⟨_, _, rfl, rfl, h⟩)⟩
  | set lo hi h _ =>
    cases hq
    exact ⟨0, _, rfl, .inr (.inr ⟨lo, hi, _, rfl, rfl, h⟩)⟩
  | other htouch htrigger h _ =>
    cases hq
    exact ⟨0, _, rfl, .inl ⟨htouch, htrigger, h⟩⟩

/-- What waits when nothing is queued changes nothing. -/
theorem of_nil (h : Pending kind e v [] is u) : ∃ n, is = replicate n (.update v) := by
  generalize hq : [] = xs at h
  induction h with
  | done => exact ⟨0, rfl⟩
  | same _ ih =>
    obtain ⟨n, rfl⟩ := ih hq
    exact ⟨n + 1, rfl⟩
  | update | set | other => cases hq

end Pending

/-- Changes that change nothing leave everything as it is. -/
theorem replicate_same (kind : Kind) (w : Watch) (n : Nat) :
    kind.rule.replies w (replicate n (.update w.value)) = [] ∧
      kind.rule.after w (replicate n (.update w.value)) = w := by
  induction n with
  | zero => exact ⟨rfl, rfl⟩
  | succ n ih =>
    have hreply : kind.rule.reply w (.update w.value) = none := by
      cases hb : w.bounds with
      | none => simp only [Rule.reply, hb, bind_none]
      | some b => simp only [Rule.reply, hb, bind_some, onUpdate_same, map_none]
    refine ⟨?_, ih.2⟩
    show (kind.rule.reply w (.update w.value)).toList ++ _ = []
    rw [hreply]
    exact ih.1

/-! Told so far, and the frame of an action. -/

/-- What an event has been told. -/
def State.toldTo (s : State) (e : Nat) : List Notification := s.told.filter (·.event = e)

/-- A reply as the callback sees it. -/
def notice (e : Nat) (n : EventType × Value) : Notification :=
  ⟨e, n.1, .resource n.2.state n.2.headroom⟩

def State.value (s : State) : Value := ⟨s.activeState, s.activeHeadroom⟩

theorem toldTo_tell (ns : List Notification) :
    (s.tell ns).toldTo e = s.toldTo e ++ ns.filter (·.event = e) := filter_append ..

theorem filter_eq_nil (h : ∀ n ∈ ns, n.event ≠ e) :
    ns.filter (·.event = e) = [] :=
  filter_eq_nil_iff.mpr fun n hn => by simpa using h n hn

/-- A walk that tells events about themselves tells an event once, if it is on the list. -/
theorem filter_scan {f : Nat → Event → Except Fault (List Notification)} {l : List Nat}
    (hf : ∀ a event here, f a event = .ok here → ∀ n ∈ here, n.event = a)
    (hn : l.Nodup) (h : s.scan f l = .ok ns) (hev : s.events e = some event) (he : e ∈ l) :
    f e event = .ok (ns.filter (·.event = e)) := by
  induction l generalizing ns with
  | nil => cases he
  | cons a l ih =>
    obtain ⟨event', hev', h⟩ := Lib.bind_eq_ok.mp h
    obtain ⟨here, hhere, h⟩ := Lib.bind_eq_ok.mp h
    obtain ⟨rest, hrest, h⟩ := Lib.bind_eq_ok.mp h
    cases h
    obtain ⟨ha, hn⟩ := nodup_cons.mp hn
    rw [filter_append]
    by_cases hae : a = e
    · subst hae
      have hnone : rest.filter (·.event = a) = [] := by
        refine filter_eq_nil fun n hn' heq => ?_
        obtain ⟨b, hb, event'', here', -, hhere', hin⟩ := State.mem_scan hrest hn'
        rw [hf b event'' here' hhere' n hin] at heq
        exact ha (heq ▸ hb)
      have hall : here.filter (·.event = a) = here :=
        filter_eq_self.mpr fun n hn' => by simpa using hf a event' here hhere n hn'
      rw [State.get_eq_ok, hev] at hev'
      cases hev'
      rw [hnone, hall, append_nil, hhere]
    · have hnone : here.filter (·.event = e) = [] :=
        filter_eq_nil fun n hn' heq => hae ((hf a event' here hhere n hn').symm.trans heq)
      rw [hnone, nil_append]
      exact ih hn hrest ((mem_cons.mp he).resolve_left (Ne.symm hae))

/-- The walk of a change. -/
theorem onTrigger_event {os ns : UInt32} {oh nh : Int32} (a : Nat) (event : Event)
    (here : List Notification)
    (h : (do
      let type ← State.onTrigger event os ns oh nh
      return type.toList.map (⟨a, ·, .resource ns nh⟩) : Except Fault _) = .ok here) :
    ∀ n ∈ here, n.event = a := by
  obtain ⟨type, -, h⟩ := Lib.bind_eq_ok.mp h
  cases h
  intro n hn
  obtain ⟨type', -, rfl⟩ := List.mem_map.mp hn
  rfl

/-- An action that leaves an event in peace: it does not name it and is no change the event can
see, or the event is gone. -/
def Spares (s : State) (e : Nat) (x : Action) : Prop :=
  (∀ event, s.events e = some event → event.triggerType.destroyFlag = true) ∨
    x.touches e = false ∧ (x.isTrigger = true → e ∉ s.eventHeader.event)

theorem kind_ne_system (kind : Kind) : kind.type ≠ .systemEvent := by
  cases kind <;> nofun

theorem kind_ne_sync (kind : Kind) : kind.type ≠ .syncEvent := by
  cases kind <;> nofun

theorem kind_registered (kind : Kind) : kind.type.registered = true := by
  cases kind <;> rfl

theorem toldTo_actionSet {enabled : Bool} {told : Option EventType} {data : EventData}
    (hspare : (∀ event, s.events e = some event → event.triggerType.destroyFlag = true) ∨ a ≠ e)
    (hs : s.actionSet a type enabled lo hi told data = .ok t) : t.toldTo e = s.toldTo e := by
  obtain ⟨event, hev, ⟨-, -, rfl⟩ | ⟨-, hdestroy, -, rfl⟩ | ⟨-, rfl⟩⟩ := State.actionSet_ok hs
  · rfl
  · have hne : a ≠ e := hspare.elim (fun hgone heq => by
      rw [heq] at hev
      rw [hgone event hev] at hdestroy
      cases hdestroy) id
    rw [toldTo_tell, filter_eq_nil fun n hn => ?_, append_nil]
    · rfl
    · obtain ⟨type', -, rfl⟩ := List.mem_map.mp hn
      exact hne
  · rfl

/-- **An action that spares an event tells it nothing.** -/
theorem toldTo_perform {x : Action}
    (hkind : ∀ event, s.events e = some event → event.triggerType.type = kind.type)
    (hsuits : s.Suits x) (hspare : Spares s e x) (hs : s.perform x = .ok t) :
    t.toldTo e = s.toldTo e := by
  cases x with
  | newEvent a =>
    obtain ⟨_, _, -, -, rfl⟩ := State.actionNewEvent_ok hs
    rfl
  | triggerSystemEvent a =>
    obtain ⟨-, ns, rfl, hns⟩ := State.actionTriggerSystemEvent_ok hs
    rw [toldTo_tell, filter_eq_nil fun n hn heq => ?_, append_nil]
    obtain ⟨event, hev, htype⟩ := hns n hn
    exact kind_ne_system kind ((hkind event (heq ▸ hev)).symm.trans htype)
  | triggerSyncEvent a state =>
    obtain ⟨⟨event, hev⟩, rfl⟩ := State.actionTriggerSyncEvent_ok hs
    rw [toldTo_tell, filter_eq_nil fun n hn heq => ?_, append_nil]
    rw [mem_singleton.mp hn] at heq
    have htype : event.triggerType.type = .syncEvent := hsuits.fits a event rfl hev
    exact kind_ne_sync kind ((hkind event (heq ▸ hev)).symm.trans htype)
  | setWatermark a hi lo state headroom | setThreshold a hi lo state headroom =>
    exact toldTo_actionSet (hspare.imp_right fun h => of_decide_eq_false h.1) hs
  | destroy a =>
    obtain ⟨_, -, ⟨rfl, -⟩ | ⟨_, -, -, -, rfl⟩⟩ := State.actionDestroy_ok hs <;> rfl
  | trigger os ns oh nh =>
    obtain ⟨header, told, hh, rfl, hscan⟩ := State.actionTrigger_ok hs
    rw [toldTo_tell, filter_eq_nil fun n hn heq => ?_, append_nil]
    obtain ⟨a, ha, event, here, hev, hhere, hin⟩ := State.mem_scan hscan hn
    have hae : a = e := (onTrigger_event a event here hhere n hin).symm.trans heq
    rcases hspare with hgone | ⟨-, hunlinked⟩
    · obtain ⟨type, htype, hhere⟩ := Lib.bind_eq_ok.mp hhere
      rw [State.onTrigger, if_pos (.inr (hgone event (hae ▸ hev)))] at htype
      cases htype
      cases hhere
      cases hin
    · refine hunlinked rfl ?_
      rw [State.eventHeader, hh]
      exact hae ▸ ha

/-- **The frame of an action** for an event that it does not name: the event and its place. -/
theorem perform_frame {x : Action} (hev : s.events e = some event) (htouch : x.touches e = false)
    (hs : s.perform x = .ok t) :
    t.events e = some event ∧ t.queue = s.queue ∧ t.value = s.value ∧
      (e ∈ t.eventHeader.event ↔ e ∈ s.eventHeader.event) := by
  have hset : ∀ {a : Nat} {type : TriggerType} {enabled : Bool} {lo hi : UInt32}
      {told : Option EventType} {data : EventData}, a ≠ e →
      s.actionSet a type enabled lo hi told data = .ok t → t.events e = some event ∧
        t.queue = s.queue ∧ t.value = s.value ∧
        (e ∈ t.eventHeader.event ↔ e ∈ s.eventHeader.event) := by
    intro a type enabled lo hi told data hne hs
    obtain ⟨event', -, ⟨-, -, rfl⟩ | ⟨-, -, -, rfl⟩ | ⟨-, rfl⟩⟩ := State.actionSet_ok hs
    · exact ⟨hev, rfl, rfl, .rfl⟩
    · exact ⟨(update_of_ne hne.symm ..).trans hev, rfl, rfl, .rfl⟩
    · exact ⟨(update_of_ne hne.symm ..).trans hev, rfl, rfl, .rfl⟩
  cases x with
  | newEvent a =>
    have hne : e ≠ a := fun heq => of_decide_eq_false htouch heq.symm
    obtain ⟨event', header, -, hh, rfl⟩ := State.actionNewEvent_ok hs
    refine ⟨hev, rfl, rfl, ?_⟩
    show e ∈ (State.linked header event' a).event ↔ _
    rw [State.eventHeader, hh, State.linked]
    split
    · rfl
    · exact ⟨fun h => (mem_cons.mp h).resolve_left hne, mem_cons_of_mem a⟩
  | triggerSystemEvent a =>
    obtain ⟨-, ns, rfl, -⟩ := State.actionTriggerSystemEvent_ok hs
    exact ⟨hev, rfl, rfl, .rfl⟩
  | triggerSyncEvent a state =>
    obtain ⟨-, rfl⟩ := State.actionTriggerSyncEvent_ok hs
    exact ⟨hev, rfl, rfl, .rfl⟩
  | setWatermark a hi lo state headroom | setThreshold a hi lo state headroom =>
    exact hset (of_decide_eq_false htouch) hs
  | destroy a =>
    have hne : e ≠ a := fun heq => of_decide_eq_false htouch heq.symm
    obtain ⟨event', -, ⟨rfl, -⟩ | ⟨header, hh, -, -, rfl⟩⟩ := State.actionDestroy_ok hs
    · exact ⟨hev, rfl, rfl, .rfl⟩
    · refine ⟨(update_of_ne hne ..).trans hev, rfl, rfl, ?_⟩
      show e ∈ (State.unlinked header event' a).event ↔ _
      rw [State.eventHeader, hh, State.unlinked]
      split
      · rfl
      · exact mem_erase_of_ne hne
  | trigger os ns oh nh =>
    obtain ⟨header, told, -, rfl, -⟩ := State.actionTrigger_ok hs
    exact ⟨hev, rfl, rfl, .rfl⟩

/-! The invariant of one event. -/

/-- An event has the bounds that a rule has in force. -/
def Event.Follows (event : Event) (w : Watch) : Prop :=
  match w.bounds with
  | none => event.triggerType.disabledFlag = true
  | some b => event.triggerType.disabledFlag = false ∧ event.lo = b.1 ∧ event.hi = b.2

/-- **What waits for an event**: all that is queued once it is linked, and before that what is
queued behind the action that links it. -/
def Waiting (kind : Kind) (e : Nat) (w : Watch) (s : State) (pend : List Input) : Prop :=
  (e ∈ s.eventHeader.event ∧ Pending kind e w.value s.queue pend s.value) ∨
    e ∉ s.eventHeader.event ∧ ∃ q q', s.queue = q ++ .newEvent e :: q' ∧
      (∀ x ∈ q, x.touches e = false) ∧ w.bounds = none ∧ Pending kind e w.value q' pend s.value

/-- **An event keeps up with its inputs**: it has been told what the rule replies to those that are
done, and the others wait. -/
def Aligned (kind : Kind) (v₀ : Value) (e : Nat) (is : List Input) (s : State) (event : Event) :
    Prop :=
  ∃ done pend, is = done ++ pend ∧
    s.toldTo e = (kind.rule.replies ⟨none, v₀⟩ done).map (notice e) ∧
    event.Follows (kind.rule.after ⟨none, v₀⟩ done) ∧
    Waiting kind e (kind.rule.after ⟨none, v₀⟩ done) s pend

variable {v₀ : Value} {is js : List Input} {c : Call} {h : List Call}

/-- More inputs wait when more actions are queued. -/
theorem Aligned.append {more : List Action} (h : Aligned kind v₀ e is s event)
    (htold : t.toldTo e = s.toldTo e) (hheader : e ∈ t.eventHeader.event ↔ e ∈ s.eventHeader.event)
    (hqueue : t.queue = s.queue ++ more) (hmore : Pending kind e s.value more js t.value) :
    Aligned kind v₀ e (is ++ js) t event := by
  obtain ⟨done, pend, rfl, htold', hfollows, hwait⟩ := h
  refine ⟨done, pend ++ js, append_assoc .., htold.trans htold', hfollows, ?_⟩
  rcases hwait with ⟨hin, hpend⟩ | ⟨hout, q, q', hq, htouch, hbounds, hpend⟩
  · exact .inl ⟨hheader.mpr hin, hqueue ▸ hpend.append hmore⟩
  · refine .inr ⟨fun hin => hout (hheader.mp hin), q, q' ++ more, ?_, htouch, hbounds,
      hpend.append hmore⟩
    rw [hqueue, hq, append_assoc]
    rfl

/-- What is queued for other events changes nothing. -/
theorem Aligned.others (h : Aligned kind v₀ e is s event) (more : List Action)
    (htold : t.toldTo e = s.toldTo e) (hheader : e ∈ t.eventHeader.event ↔ e ∈ s.eventHeader.event)
    (hqueue : t.queue = s.queue ++ more) (hvalue : t.value = s.value)
    (hmore : ∀ x ∈ more, x.touches e = false ∧ x.isTrigger = false) :
    Aligned kind v₀ e is t event := by
  have hpend : Pending kind e s.value more [] t.value := by
    rw [hvalue]
    exact .others hmore
  have happend := h.append htold hheader hqueue hpend
  rwa [append_nil] at happend

/-- What an event is told of a change. -/
theorem onTrigger_eq {w : Watch} {v' : Value} (htype : event.triggerType.type = kind.type)
    (hlive : event.triggerType.destroyFlag = false) (hfollows : event.Follows w) :
    (do
      let type ← State.onTrigger event w.value.state v'.state w.value.headroom v'.headroom
      return type.toList.map (⟨e, ·, .resource v'.state v'.headroom⟩) : Except Fault _) =
    .ok ((kind.rule.reply w (.update v')).toList.map (notice e)) := by
  cases hb : w.bounds with
  | none =>
    rw [Event.Follows, hb] at hfollows
    rw [State.onTrigger, if_pos (.inl hfollows)]
    simp only [Rule.reply, hb, bind_none, toList_none, map_nil]
    rfl
  | some b =>
    rw [Event.Follows, hb] at hfollows
    obtain ⟨henabled, hlo, hhi⟩ := hfollows
    rw [State.onTrigger, if_neg (by simp [henabled, hlive])]
    simp only [Rule.reply, hb, bind_some]
    cases kind with
    | threshold =>
      rw [htype, hlo, hhi]
      show Except.ok _ = Except.ok _
      simp only [Kind.rule]
      cases State.thresholdPassed b.1 b.2 w.value.state v'.state <;> rfl
    | watermark =>
      rw [htype, hlo, hhi]
      show Except.ok _ = Except.ok _
      simp only [Kind.rule]
      cases State.watermarkPassed b.1.toInt32 b.2.toInt32 w.value.headroom v'.headroom <;> rfl

theorem perform_action (lo hi : UInt32) (v : Value) :
    s.perform (kind.action e lo hi v) = s.actionSet e kind.type (kind.rule.ordered lo hi) lo hi
      (kind.rule.onSet lo hi v) (.resource v.state v.headroom) := by
  cases kind <;> rfl

/-- **Bounds that are set** are in force afterwards, and the event is told what the rule says. -/
theorem perform_set {w : Watch} (hev : s.events e = some event)
    (htype : event.triggerType.type = kind.type) (hlive : event.triggerType.destroyFlag = false)
    (hs : s.perform (kind.action e lo hi w.value) = .ok t) :
    ∃ event', t.events e = some event' ∧ event'.triggerType.type = kind.type ∧
      event'.triggerType.destroyFlag = false ∧ event'.Follows (kind.rule.next w (.set lo hi)) ∧
      t.toldTo e = s.toldTo e ++ (kind.rule.reply w (.set lo hi)).toList.map (notice e) ∧
      t.queue = s.queue ∧ t.value = s.value ∧ t.header = s.header := by
  rw [perform_action] at hs
  obtain ⟨event', hev', hcase⟩ := State.actionSet_ok hs
  rw [hev] at hev'
  cases hev'
  rcases hcase with ⟨-, hd, -⟩ | ⟨ho, -, -, rfl⟩ | ⟨ho, rfl⟩
  · rw [hlive] at hd
    cases hd
  · refine ⟨_, update_self .., rfl, rfl, ?_, ?_, rfl, rfl, rfl⟩
    · rw [Rule.next, if_pos ho]
      exact ⟨rfl, rfl, rfl⟩
    · rw [toldTo_tell]
      simp only [Rule.reply, if_pos ho]
      cases kind.rule.onSet lo hi w.value with
      | none => rfl
      | some type =>
        show _ ++ filter _ [_] = _ ++ [_]
        rw [filter_cons_of_pos (by simp)]
        rfl
  · have hno : ¬ kind.rule.ordered lo hi = true := Bool.eq_false_iff.mp ho
    refine ⟨_, update_self .., htype, hlive, ?_, ?_, rfl, rfl, rfl⟩
    · simp only [Event.Follows, Rule.next, if_neg hno]
    · simp only [Rule.reply, if_neg hno, toList_none, map_nil, append_nil]
      rfl

/-- What is done grows by inputs that are not told and one that is. -/
theorem Aligned.advance {w : Watch} {n : Nat} {done : List Input}
    (hw : w = kind.rule.after ⟨none, v₀⟩ done) :
    kind.rule.replies ⟨none, v₀⟩ (done ++ (replicate n (.update w.value) ++ [i])) =
        kind.rule.replies ⟨none, v₀⟩ done ++ (kind.rule.reply w i).toList ∧
      kind.rule.after ⟨none, v₀⟩ (done ++ (replicate n (.update w.value) ++ [i])) =
        kind.rule.next w i := by
  obtain ⟨hreplies, hafter⟩ := replicate_same kind w n
  rw [Rule.replies_append, Rule.replies_append, Rule.after_append,
    Rule.after_append, ← hw, hreplies,
    hafter]
  exact ⟨congrArg (_ ++ ·) (append_nil _), rfl⟩

/-- **The next action keeps an event aligned.** -/
theorem Aligned.perform {x : Action} {q : List Action} (h : Aligned kind v₀ e is s event)
    (horderly : s.Orderly) (hq : s.queue = x :: q) (hev : s.events e = some event)
    (htype : event.triggerType.type = kind.type) (hlive : event.triggerType.destroyFlag = false)
    (hs : ({ s with queue := q } : State).perform x = .ok t) :
    ∃ event', t.events e = some event' ∧ event'.triggerType.type = kind.type ∧
      event'.triggerType.destroyFlag = false ∧ Aligned kind v₀ e is t event' := by
  have hkind : ∀ event', s.events e = some event' → event'.triggerType.type = kind.type := by
    intro event' hev'
    rw [hev] at hev'
    cases hev'
    exact htype
  have hsuits : s.Suits x := horderly.queued x (hq ▸ mem_cons_self)
  -- an action that spares the event only leaves the queue
  have hspared : ∀ {w pend done}, x.touches e = false →
      (x.isTrigger = true → e ∉ s.eventHeader.event) → is = done ++ pend →
      s.toldTo e = (kind.rule.replies ⟨none, v₀⟩ done).map (notice e) →
      w = kind.rule.after ⟨none, v₀⟩ done → event.Follows w →
      Waiting kind e w { s with queue := q } pend →
      ∃ event', t.events e = some event' ∧ event'.triggerType.type = kind.type ∧
        event'.triggerType.destroyFlag = false ∧ Aligned kind v₀ e is t event' := by
    intro w pend done htouch htrigger his htold hw hfollows hwait
    have htold' := toldTo_perform (s := { s with queue := q }) hkind ⟨hsuits.bound, hsuits.fits⟩
      (.inr ⟨htouch, htrigger⟩) hs
    obtain ⟨hev', hqueue, hvalue, hheader⟩ :=
      perform_frame (s := { s with queue := q }) hev htouch hs
    refine ⟨event, hev', htype, hlive, done, pend, his, htold'.trans htold, hw ▸ hfollows, ?_⟩
    rw [← hw]
    rcases hwait with ⟨hin, hpend⟩ | ⟨hout, q₁, q₂, hq₁, htouch₁, hbounds, hpend⟩
    · exact .inl ⟨hheader.mpr hin, by rw [hqueue, hvalue]; exact hpend⟩
    · exact .inr ⟨fun hin => hout (hheader.mp hin), q₁, q₂, hqueue.trans hq₁, htouch₁, hbounds,
        by rw [hvalue]; exact hpend⟩
  obtain ⟨done, pend, his, htold, hfollows, hwait⟩ := h
  generalize hw : kind.rule.after ⟨none, v₀⟩ done = w at hfollows hwait
  rcases hwait with ⟨hin, hpend⟩ | ⟨hout, q₁, q₂, hq₁, htouch₁, hbounds, hpend⟩
  · rw [hq] at hpend
    obtain ⟨n, js, rfl, ⟨htouch, htrigger, hnext⟩ | ⟨v', ks, rfl, rfl, hnext⟩ |
      ⟨lo, hi, ks, rfl, rfl, hnext⟩⟩ := hpend.uncons
    · -- it is for another event
      have hsame := replicate_same kind w n
      refine hspared (w := w) htouch (fun ht => ?_) (his.trans (append_assoc ..).symm) ?_ ?_
        hfollows (.inl ⟨hin, hnext⟩)
      · rw [htrigger] at ht
        cases ht
      · rw [htold, Rule.replies_append, hw, hsame.1, append_nil]
      · rw [Rule.after_append, hw, hsame.2]
    · -- a change that the event sees
      obtain ⟨header, told, hh, ht, hscan⟩ := State.actionTrigger_ok hs
      obtain ⟨hreplies, hafter⟩ := Aligned.advance (n := n) (i := .update v') hw.symm
      have hin' : e ∈ header.event := by
        rw [State.eventHeader, show s.header = some header from hh] at hin
        exact hin
      have hnodup : header.event.Nodup := by
        have hn := horderly.nodup
        rw [State.links, State.eventHeader, show s.header = some header from hh] at hn
        exact ((nodup_append.mp ((nodup_append.mp hn).1)).1)
      have hfilter := filter_scan onTrigger_event hnodup hscan hev hin'
      rw [onTrigger_eq htype hlive hfollows] at hfilter
      refine ⟨event, by rw [ht]; exact hev, htype, hlive,
        done ++ (replicate n (.update w.value) ++ [.update v']), ks, ?_, ?_, ?_, ?_⟩
      · rw [his]
        simp
      · rw [hreplies, ht, toldTo_tell, map_append, ← htold]
        exact congrArg (_ ++ ·) (Except.ok.inj hfilter).symm
      · rw [hafter]
        exact hfollows
      · rw [hafter, ht]
        exact .inl ⟨hin, hnext⟩
    · -- its bounds
      obtain ⟨hreplies, hafter⟩ := Aligned.advance (n := n) (i := .set lo hi) hw.symm
      obtain ⟨event', hev', htype', hlive', hfollows', htold', hqueue, hvalue, hheader⟩ :=
        perform_set (s := { s with queue := q }) hev htype hlive hs
      refine ⟨event', hev', htype', hlive',
        done ++ (replicate n (.update w.value) ++ [.set lo hi]), ks, ?_, ?_, ?_, ?_⟩
      · rw [his]
        simp
      · rw [hreplies, htold', map_append, ← htold]
        rfl
      · rw [hafter]
        exact hfollows'
      · rw [hafter, Waiting, State.eventHeader, hheader, hqueue, hvalue]
        exact .inl ⟨hin, hnext⟩
  · rw [hq] at hq₁
    cases q₁ with
    | nil =>
      -- it is linked now
      cases hq₁
      obtain ⟨event', header, hev', hh, ht⟩ := State.actionNewEvent_ok hs
      obtain rfl : event = event' := Option.some.inj (hev.symm.trans hev')
      have hnot : State.onSysEvent event = false := by
        refine decide_eq_false fun heq => kind_ne_system kind ?_
        rw [← htype, heq]
        rfl
      refine ⟨event, by rw [ht]; exact hev, htype, hlive, done, pend, his, by rw [ht]; exact htold,
        hw ▸ hfollows, .inl ?_⟩
      rw [ht, hw]
      refine ⟨?_, hpend⟩
      show e ∈ (State.linked header event e).event
      rw [State.linked, if_neg (by simp [hnot])]
      exact mem_cons_self
    | cons y q₁ =>
      cases hq₁
      exact hspared (htouch₁ x mem_cons_self) (fun _ => hout) his htold hw.symm hfollows
        (.inr ⟨hout, q₁, q₂, rfl, fun y hy => htouch₁ y (mem_cons_of_mem x hy), hbounds, hpend⟩)

/-! Runs. -/

/-- What a run keeps of an event, made or not. -/
structure Kept (kind : Kind) (v₀ : Value) (e : Nat) (h : List Call) (s : State) : Prop where
  orderly : s.Orderly
  value : (kind.rule.after ⟨none, v₀⟩ (inputs e h)).value = s.value
  early : s.created ≤ e → (kind.rule.after ⟨none, v₀⟩ (inputs e h)).bounds = none ∧
    kind.rule.replies ⟨none, v₀⟩ (inputs e h) = [] ∧ s.toldTo e = []
  aligned : ∀ event, s.events e = some event → event.triggerType.type = kind.type →
    event.triggerType.destroyFlag = false → Aligned kind v₀ e (inputs e h) s event

theorem created_perform {x : Action} (hs : s.perform x = .ok t) :
    t.created = s.created ∧ t.value = s.value := by
  have hset : ∀ {a : Nat} {type : TriggerType} {enabled : Bool} {lo hi : UInt32}
      {told : Option EventType} {data : EventData},
      s.actionSet a type enabled lo hi told data = .ok t →
        t.created = s.created ∧ t.value = s.value := by
    intro a type enabled lo hi told data hs
    obtain ⟨_, -, ⟨-, -, rfl⟩ | ⟨-, -, -, rfl⟩ | ⟨-, rfl⟩⟩ := State.actionSet_ok hs <;>
      exact ⟨rfl, rfl⟩
  cases x with
  | newEvent a =>
    obtain ⟨_, _, -, -, rfl⟩ := State.actionNewEvent_ok hs
    exact ⟨rfl, rfl⟩
  | triggerSystemEvent a =>
    obtain ⟨-, _, rfl, -⟩ := State.actionTriggerSystemEvent_ok hs
    exact ⟨rfl, rfl⟩
  | triggerSyncEvent a state =>
    obtain ⟨-, rfl⟩ := State.actionTriggerSyncEvent_ok hs
    exact ⟨rfl, rfl⟩
  | setWatermark a hi lo state headroom | setThreshold a hi lo state headroom => exact hset hs
  | destroy a =>
    obtain ⟨_, -, ⟨rfl, -⟩ | ⟨_, -, -, -, rfl⟩⟩ := State.actionDestroy_ok hs <;> exact ⟨rfl, rfl⟩
  | trigger os ns oh nh =>
    obtain ⟨_, _, -, rfl, -⟩ := State.actionTrigger_ok hs
    exact ⟨rfl, rfl⟩

/-- The value that a call leaves. -/
def Call.value (v : Value) : Call → Value
  | .updateResourceState state headroom => ⟨state, headroom⟩
  | _ => v

theorem destroyEventHandle_frame (hs : s.destroyEventHandle a = .ok t) :
    t.created = s.created ∧ t.value = s.value ∧ t.told = s.told ∧
      t.eventHeader.event = s.eventHeader.event ∧
      ∃ event' more, s.events a = some event' ∧
        t.events = update s.events a (some (State.destroyed event')) ∧
        (∀ x ∈ more, x = .triggerSystemEvent a) ∧ t.queue = s.queue ++ .destroy a :: more := by
  obtain ⟨event', more, hev, hmore, -, -, hreg, rfl⟩ := State.destroyEventHandle_ok hs
  refine ⟨rfl, rfl, rfl, ?_, event', more, hev, rfl, hmore, rfl⟩
  have hheader := congrArg EventHeader.event (State.eventHeader_map s.header hreg)
  exact hheader

/-- What a call leaves: the numbers only grow, and the value is that of the last change. -/
theorem Step.created_value (hs : Step s c t) :
    s.created ≤ t.created ∧ t.value = c.value s.value := by
  obtain ⟨-, hs⟩ := hs
  cases c with
  | newEvent type callback =>
    obtain ⟨r, hs⟩ := State.newEvent_of_step hs
    rcases State.newEvent_ok hs with ⟨-, -, -, rfl⟩ | ⟨-, ⟨-, rfl⟩ | ⟨-, -, rfl⟩⟩ |
      ⟨-, -, -, -, _, _, _, -, -, -, rfl⟩
    · exact ⟨Nat.le_succ _, rfl⟩
    · exact ⟨Nat.le_refl _, rfl⟩
    · exact ⟨Nat.le_refl _, rfl⟩
    · exact ⟨Nat.le_succ _, rfl⟩
  | destroyEventHandle a =>
    obtain ⟨hcreated, hvalue, -⟩ := destroyEventHandle_frame hs
    exact ⟨Nat.le_of_eq hcreated.symm, hvalue⟩
  | removeSystemEventCallback callback =>
    rcases State.removeSystemEventCallback_ok hs with rfl | ⟨a, _, -, -, -, hs⟩
    · exact ⟨Nat.le_refl _, rfl⟩
    · obtain ⟨hcreated, hvalue, -⟩ := destroyEventHandle_frame hs
      exact ⟨Nat.le_of_eq hcreated.symm, hvalue⟩
  | setEventWatermarks a hi lo | setEventThresholds a lo hi =>
    obtain ⟨_, _, -, -, rfl⟩ := State.putBounds_ok hs
    exact ⟨Nat.le_refl _, rfl⟩
  | updateResourceState state headroom =>
    cases hs
    rw [State.updateResourceState_eq]
    exact ⟨Nat.le_refl _, rfl⟩
  | postSyncEvent a state =>
    cases hs
    exact ⟨Nat.le_refl _, rfl⟩
  | process =>
    dsimp only [State.step, State.process] at hs
    split at hs
    · cases hs
      exact ⟨Nat.le_refl _, rfl⟩
    · obtain ⟨hcreated, hvalue⟩ := created_perform hs
      exact ⟨Nat.le_of_eq hcreated.symm, hvalue⟩

/-- The value after the inputs of a call. -/
theorem after_inputs {w : Watch} (c : Call) :
    (kind.rule.after w (c.inputs e)).value = c.value w.value := by
  cases c with
  | setEventWatermarks a hi lo | setEventThresholds a lo hi =>
    by_cases hae : a = e
    · rw [Call.inputs, if_pos hae]
      rfl
    · rw [Call.inputs, if_neg hae]
      rfl
  | updateResourceState state headroom => rfl
  | newEvent | destroyEventHandle | removeSystemEventCallback | postSyncEvent | process => rfl

/-- A call that is not for an event only shows it changes. -/
theorem replies_call {w : Watch} (hc : ∀ i ∈ c.inputs e, ∃ v, i = .update v)
    (hb : w.bounds = none) :
    kind.rule.replies w (c.inputs e) = [] ∧ (kind.rule.after w (c.inputs e)).bounds = none := by
  generalize c.inputs e = is at hc
  induction is generalizing w with
  | nil => exact ⟨rfl, hb⟩
  | cons i is ih =>
    obtain ⟨v, rfl⟩ := hc i mem_cons_self
    obtain ⟨hreplies, hafter⟩ := ih (w := kind.rule.next w (.update v)) hb
      fun j hj => hc j (mem_cons_of_mem _ hj)
    refine ⟨?_, hafter⟩
    rw [Rule.replies, hreplies, Rule.reply, hb]
    rfl

/-- **Nobody but an event in use is told anything.** -/
theorem Step.toldTo (hs : Step s c t) (kind : Kind) (horderly : s.Orderly)
    (hgone : ∀ event, s.events e = some event → event.triggerType.type = kind.type ∧
      event.triggerType.destroyFlag = true) : t.toldTo e = s.toldTo e := by
  obtain ⟨-, hs⟩ := hs
  cases c with
  | newEvent type callback =>
    obtain ⟨r, hs⟩ := State.newEvent_of_step hs
    rcases State.newEvent_ok hs with ⟨-, -, -, rfl⟩ | ⟨-, ⟨-, rfl⟩ | ⟨-, -, rfl⟩⟩ |
      ⟨-, -, -, -, _, _, _, -, -, -, rfl⟩ <;> rfl
  | destroyEventHandle a =>
    obtain ⟨-, -, htold, -⟩ := destroyEventHandle_frame hs
    rw [State.toldTo, State.toldTo, htold]
  | removeSystemEventCallback callback =>
    rcases State.removeSystemEventCallback_ok hs with rfl | ⟨a, _, -, -, -, hs⟩
    · rfl
    · obtain ⟨-, -, htold, -⟩ := destroyEventHandle_frame hs
      rw [State.toldTo, State.toldTo, htold]
  | setEventWatermarks a hi lo | setEventThresholds a lo hi =>
    obtain ⟨_, _, -, -, rfl⟩ := State.putBounds_ok hs
    rfl
  | updateResourceState state headroom =>
    cases hs
    rw [State.updateResourceState_eq]
    rfl
  | postSyncEvent a state =>
    cases hs
    rfl
  | process =>
    dsimp only [State.step, State.process] at hs
    split at hs
    · cases hs
      rfl
    · next x q hq =>
      have hsuits := horderly.queued x (hq ▸ mem_cons_self)
      exact toldTo_perform (s := { s with queue := q }) (fun event hev => (hgone event hev).1)
        ⟨hsuits.bound, hsuits.fits⟩ (.inl fun event hev => (hgone event hev).2) hs

/-- An event that is not made yet is not on a list. -/
theorem not_mem_of_created (h : s.Orderly) (he : s.created ≤ e) : e ∉ s.eventHeader.event :=
  fun hin => Nat.lt_irrefl _ (Nat.lt_of_lt_of_le
    (h.bound e (mem_append_left _ (mem_append_left _ hin))) he)

/-- A new event starts out aligned, with everything so far behind it. -/
theorem Kept.newEvent {callback : Nat} {r : Option Nat}
    (hk : Kept kind v₀ e h s) (hs : s.newEvent type callback = .ok (r, t))
    (hev : t.events e = some event) (htype : event.triggerType.type = kind.type)
    (hlive : event.triggerType.destroyFlag = false) : Aligned kind v₀ e (inputs e h) t event := by
  rcases State.newEvent_ok hs with ⟨rfl, -, -, rfl⟩ | ⟨-, ⟨-, rfl⟩ | ⟨-, -, rfl⟩⟩ |
    ⟨-, -, -, -, disabled, sync, more, hmore, hdisabled, -, rfl⟩
  · by_cases he : e = s.created
    · rw [he] at hev
      cases (update_self ..).symm.trans hev
      cases kind <;> cases htype
    · have hev' : s.events e = some event := (update_of_ne he ..).symm.trans hev
      exact hk.aligned event hev' htype hlive
  · exact hk.aligned event hev htype hlive
  · obtain ⟨done, pend, his, htold, hfollows, hwait⟩ := hk.aligned event hev htype hlive
    exact ⟨done, pend, his, htold, hfollows, hwait⟩
  · by_cases he : e = s.created
    · subst he
      cases (update_self ..).symm.trans hev
      obtain ⟨hbounds, hreplies, htold⟩ := hk.early (Nat.le_refl _)
      refine ⟨inputs s.created h, [], (append_nil _).symm, ?_, ?_, .inr ⟨?_, s.queue, more, rfl,
        fun x hx => ?_, hbounds, ?_⟩⟩
      · rw [hreplies]
        exact htold
      · rw [Event.Follows, hbounds]
        refine hdisabled.mpr ?_
        cases kind
        · exact .inl htype
        · exact .inr htype
      · have hout : s.created ∉ s.eventHeader.event :=
          not_mem_of_created hk.orderly (Nat.le_refl _)
        exact hout
      · have hbound := (hk.orderly.queued x hx).bound
        cases x with
        | triggerSystemEvent | trigger => rfl
        | newEvent a | triggerSyncEvent a | setWatermark a | setThreshold a | destroy a =>
          exact decide_eq_false (Nat.ne_of_lt (hbound a rfl))
      · rw [hk.value]
        exact .others fun x hx => by rw [hmore x hx]; exact ⟨rfl, rfl⟩
    · have hev' : s.events e = some event := (update_of_ne he ..).symm.trans hev
      refine (hk.aligned event hev' htype hlive).others _ rfl .rfl rfl rfl fun x hx => ?_
      rcases mem_cons.mp hx with rfl | hx
      · exact ⟨decide_eq_false (Ne.symm he), rfl⟩
      · rw [hmore x hx]
        exact ⟨rfl, rfl⟩

/-- The destruction of another event. -/
theorem Kept.destroyEventHandle (hk : Kept kind v₀ e h s)
    (hs : s.destroyEventHandle a = .ok t) (hev : t.events e = some event)
    (htype : event.triggerType.type = kind.type) (hlive : event.triggerType.destroyFlag = false) :
    Aligned kind v₀ e (inputs e h) t event := by
  obtain ⟨-, hvalue, htold, hheader, event', more, -, hevents, hmore, hqueue⟩ :=
    destroyEventHandle_frame hs
  by_cases hae : e = a
  · rw [hevents, hae, update_self] at hev
    cases hev
    cases hlive
  · rw [hevents, update_of_ne hae] at hev
    refine (hk.aligned event hev htype hlive).others _ (by rw [State.toldTo, State.toldTo, htold])
      (by rw [hheader]) hqueue hvalue fun x hx => ?_
    rcases mem_cons.mp hx with rfl | hx
    · exact ⟨decide_eq_false (Ne.symm hae), rfl⟩
    · rw [hmore x hx]
      exact ⟨rfl, rfl⟩

/-- Bounds are queued with the value of the resource, for the event itself or another one. -/
theorem Kept.putBounds (hk : Kept kind v₀ e h s) (k : Kind)
    (lo hi : UInt32) (hin : s.InUse a (· = k.type))
    (hs : s.putBounds a (k.action a lo hi s.value) = .ok t) (hev : t.events e = some event)
    (htype : event.triggerType.type = kind.type) (hlive : event.triggerType.destroyFlag = false) :
    Aligned kind v₀ e (inputs e h ++ if a = e then [.set lo hi] else []) t event := by
  obtain ⟨-, header, -, -, rfl⟩ := State.putBounds_ok hs
  have haligned := hk.aligned event hev htype hlive
  have hothers : ∀ x ∈ State.systemActions header a, x.touches e = false ∧ x.isTrigger = false :=
    fun x hx => by rw [State.mem_systemActions hx]; exact ⟨rfl, rfl⟩
  by_cases hae : a = e
  · subst hae
    obtain rfl : k = kind := by
      obtain ⟨event', hev', -, hk'⟩ := hin
      cases hev.symm.trans hev'
      have heq := htype.symm.trans hk'
      cases k <;> cases kind <;> first | rfl | cases heq
    rw [if_pos rfl]
    exact haligned.append rfl .rfl rfl (.set lo hi (.others hothers))
  · rw [if_neg hae, append_nil]
    refine haligned.others _ rfl .rfl rfl rfl fun x hx => ?_
    rcases mem_cons.mp hx with rfl | hx
    · cases k
      · exact ⟨decide_eq_false hae, rfl⟩
      · exact ⟨decide_eq_false hae, rfl⟩
    · exact hothers x hx

/-- A change of the resource is queued for an event in use, unless nothing changes. -/
theorem Kept.update {state : UInt32} {headroom : Int32} (hk : Kept kind v₀ e h s)
    (hev : s.events e = some event) (htype : event.triggerType.type = kind.type)
    (hlive : event.triggerType.destroyFlag = false) :
    Aligned kind v₀ e (inputs e h ++ [.update ⟨state, headroom⟩])
      (s.updateResourceState state headroom) event := by
  rw [State.updateResourceState_eq]
  have hl : s.live e = true := by
    rw [State.live_of_events hev, htype, kind_registered, hlive]
    rfl
  obtain ⟨header, hh, hpos⟩ := hk.orderly.header_of_live hl
  refine (hk.aligned event hev htype hlive).append rfl .rfl rfl ?_
  rw [State.posted, hh]
  dsimp only
  split
  · have hchange : Pending kind e s.value
        [.trigger s.value.state (Value.mk state headroom).state s.value.headroom headroom]
        [.update ⟨state, headroom⟩] ⟨state, headroom⟩ := .update (.done _)
    exact hchange
  · next hsame =>
    have hsame : state = s.activeState ∧ headroom = s.activeHeadroom := by
      by_cases hst : state = s.activeState
      · exact ⟨hst, Classical.byContradiction fun hhd => hsame ⟨hpos, .inr hhd⟩⟩
      · exact absurd ⟨hpos, .inl hst⟩ hsame
    obtain ⟨rfl, rfl⟩ := hsame
    exact .same (.done _)

/-- An event is after an action what it was before, but for its bounds. -/
theorem events_perform {x : Action} (hs : s.perform x = .ok t) (hev : t.events e = some event) :
    ∃ event', s.events e = some event' ∧ event.triggerType.type = event'.triggerType.type ∧
      event.triggerType.destroyFlag = event'.triggerType.destroyFlag := by
  cases x with
  | newEvent a =>
    obtain ⟨_, _, -, -, rfl⟩ := State.actionNewEvent_ok hs
    exact ⟨event, hev, rfl, rfl⟩
  | triggerSystemEvent a =>
    obtain ⟨-, _, rfl, -⟩ := State.actionTriggerSystemEvent_ok hs
    exact ⟨event, hev, rfl, rfl⟩
  | triggerSyncEvent a state =>
    obtain ⟨-, rfl⟩ := State.actionTriggerSyncEvent_ok hs
    exact ⟨event, hev, rfl, rfl⟩
  | setWatermark a hi lo state headroom | setThreshold a hi lo state headroom =>
    have hkeeps := State.actionSet_keeps hs e
    rw [hev] at hkeeps
    obtain ⟨event', hev', hsame⟩ := map_eq_some_iff.mp hkeeps.symm
    exact ⟨event', hev', (congrArg Prod.fst hsame).symm, (congrArg Prod.snd hsame).symm⟩
  | destroy a =>
    obtain ⟨_, -, ⟨rfl, -⟩ | ⟨_, -, -, -, rfl⟩⟩ := State.actionDestroy_ok hs
    · exact ⟨event, hev, rfl, rfl⟩
    · by_cases hae : e = a
      · rw [hae] at hev
        cases (update_self ..).symm.trans hev
      · exact ⟨event, (update_of_ne hae ..).symm.trans hev, rfl, rfl⟩
  | trigger os ns oh nh =>
    obtain ⟨_, _, -, rfl, -⟩ := State.actionTrigger_ok hs
    exact ⟨event, hev, rfl, rfl⟩

theorem Kept.perform {x : Action} {q : List Action} (hk : Kept kind v₀ e h s)
    (hq : s.queue = x :: q) (hs : ({ s with queue := q } : State).perform x = .ok t)
    (hev : t.events e = some event) (htype : event.triggerType.type = kind.type)
    (hlive : event.triggerType.destroyFlag = false) : Aligned kind v₀ e (inputs e h) t event := by
  obtain ⟨event', hev', htype', hlive'⟩ := events_perform hs hev
  obtain ⟨event'', hev'', -, -, haligned⟩ := (hk.aligned event' hev' (htype'.symm.trans htype)
    (hlive'.symm.trans hlive)).perform hk.orderly hq hev' (htype'.symm.trans htype)
    (hlive'.symm.trans hlive) hs
  rw [hev] at hev''
  cases hev''
  exact haligned

/-- **A step keeps what a run keeps of an event.** -/
theorem Kept.step (hk : Kept kind v₀ e h s) (hs : Step s c t) :
    Kept kind v₀ e (c :: h) t := by
  obtain ⟨hcreated, hvalue⟩ := hs.created_value
  refine ⟨hk.orderly.step hs, ?_, fun he => ?_, fun event hev htype hlive => ?_⟩
  · rw [inputs, Rule.after_append, after_inputs, hk.value, hvalue]
  · have he' := Nat.le_trans hcreated he
    obtain ⟨hbounds, hreplies, htold⟩ := hk.early he'
    have hnone := hk.orderly.fresh e he'
    have hchanges : ∀ i ∈ c.inputs e, ∃ v, i = .update v := by
      have hset : ∀ {a : Nat} {p : TriggerType → Prop} {js : List Input}, s.InUse a p →
          ∀ i ∈ (if a = e then js else []), ∃ v, i = .update v := by
        intro a p js hin i hi
        obtain ⟨event, hev, -⟩ := hin
        have hne : a ≠ e := fun heq => by
          rw [heq, hnone] at hev
          cases hev
        rw [if_neg hne] at hi
        cases hi
      cases c with
      | setEventWatermarks a hi lo => exact hset (p := (· = .watermarkEvent)) hs.1
      | setEventThresholds a lo hi => exact hset (p := (· = .thresholdEvent)) hs.1
      | updateResourceState state headroom => exact fun i hi => ⟨_, mem_singleton.mp hi⟩
      | newEvent | destroyEventHandle | removeSystemEventCallback | postSyncEvent | process =>
        exact nofun
    obtain ⟨hreplies', hafter'⟩ := replies_call hchanges hbounds
    refine ⟨?_, ?_, ?_⟩
    · rw [inputs, Rule.after_append]
      exact hafter'
    · rw [inputs, Rule.replies_append, hreplies, hreplies']
      rfl
    · rw [hs.toldTo kind hk.orderly fun event hev => ?_, htold]
      rw [hnone] at hev
      cases hev
  · obtain ⟨hpermits, hs⟩ := hs
    cases c with
    | newEvent type callback =>
      obtain ⟨r, hs⟩ := State.newEvent_of_step hs
      rw [inputs, Call.inputs, append_nil]
      exact hk.newEvent hs hev htype hlive
    | destroyEventHandle a =>
      rw [inputs, Call.inputs, append_nil]
      exact hk.destroyEventHandle hs hev htype hlive
    | removeSystemEventCallback callback =>
      rw [inputs, Call.inputs, append_nil]
      rcases State.removeSystemEventCallback_ok hs with rfl | ⟨a, _, -, -, -, hs⟩
      · exact hk.aligned event hev htype hlive
      · exact hk.destroyEventHandle hs hev htype hlive
    | setEventWatermarks a hi lo =>
      exact hk.putBounds .watermark lo.toUInt32 hi.toUInt32 hpermits hs hev htype hlive
    | setEventThresholds a lo hi =>
      exact hk.putBounds .threshold lo hi hpermits hs hev htype hlive
    | updateResourceState state headroom =>
      cases hs
      rw [State.updateResourceState_eq] at hev
      exact hk.update hev htype hlive
    | postSyncEvent a state =>
      cases hs
      have hev' : s.events e = some event := hev
      rw [inputs, Call.inputs, append_nil]
      refine (hk.aligned event hev' htype hlive).others [.triggerSyncEvent a state] rfl .rfl rfl
        rfl fun x hx => ?_
      rw [mem_singleton.mp hx]
      obtain ⟨event', hev'', -, hsync⟩ := hpermits
      refine ⟨decide_eq_false fun heq => ?_, rfl⟩
      rw [heq, hev'] at hev''
      cases hev''
      exact kind_ne_sync kind (htype.symm.trans hsync)
    | process =>
      rw [inputs, Call.inputs, append_nil]
      dsimp only [State.step, State.process] at hs
      cases hq : s.queue with
      | nil =>
        rw [hq] at hs
        cases hs
        exact hk.aligned event hev htype hlive
      | cons x q =>
        rw [hq] at hs
        exact hk.perform hq hs hev htype hlive

theorem kept_init (kind : Kind) (v₀ : Value) (e : Nat) (instantiated : Bool) :
    Kept kind v₀ e [] (State.init instantiated v₀.state v₀.headroom) :=
  ⟨State.orderly_init, rfl, fun _ => ⟨rfl, rfl, rfl⟩, nofun⟩

/-- **What is asked of the notifications of an event**, for the calls so far: an event in use has
been told what the description says of the inputs that are done, and of all of them once the queue
is empty; one that is destroyed is told nothing more. -/
structure NotifiedAsDocumented (kind : Kind) (v₀ : Value) (e : Nat) (h : List Call) (s : State) :
    Prop where
  told : ∀ event, s.events e = some event → event.triggerType.type = kind.type →
    event.triggerType.destroyFlag = false →
    (∃ done pend, inputs e h = done ++ pend ∧
      s.toldTo e = (kind.documented.replies ⟨none, v₀⟩ done).map (notice e)) ∧
    (s.queue = [] →
      s.toldTo e = (kind.documented.replies ⟨none, v₀⟩ (inputs e h)).map (notice e))
  gone : (∀ event, s.events e = some event → event.triggerType.type = kind.type ∧
      event.triggerType.destroyFlag = true) → ∀ c t, Step s c t → t.toldTo e = s.toldTo e

/-- **Events are notified as described in every run** in which the headroom misses the watermarks in
force; for threshold events in every run. -/
theorem notified_as_documented (v₀ : Value) {instantiated : Bool} {h : List Call}
    (run : Lib.Run Step (State.init instantiated v₀.state v₀.headroom) h s) (kind : Kind) (e : Nat)
    (hfit : kind.Fits ⟨none, v₀⟩ (inputs e h)) : NotifiedAsDocumented kind v₀ e h s := by
  have hk : Kept kind v₀ e h s :=
    run.invariant (P := Kept kind v₀ e) (kept_init kind v₀ e instantiated)
      fun _ hk hs => hk.step hs
  refine ⟨fun event hev htype hlive => ?_, fun hgone c t hs => hs.toldTo kind hk.orderly hgone⟩
  obtain ⟨done, pend, his, htold, -, hwait⟩ := hk.aligned event hev htype hlive
  have hnone : Watch.Ordered kind ⟨none, v₀⟩ := nofun
  refine ⟨⟨done, pend, his, ?_⟩, fun hq => ?_⟩
  · rw [htold, replies_documented hnone (Kind.Fits.of_append (his ▸ hfit))]
  · rcases hwait with ⟨-, hpend⟩ | ⟨-, q, q', hq', -⟩
    · rw [hq] at hpend
      obtain ⟨n, rfl⟩ := hpend.of_nil
      rw [htold, ← replies_documented hnone hfit, his, Rule.replies_append,
        (replicate_same kind _ n).1,
        append_nil]
    · rw [hq] at hq'
      cases q <;> cases hq'

end

/-- A resource whose headroom rises past a high watermark of 3 and falls past a low one of -3. -/
def watermarkCalls (hi lo : Int32) : List Call :=
  [.newEvent .watermarkEvent 0, .process, .setEventWatermarks 0 hi lo, .process,
    .updateResourceState 5 5, .process, .updateResourceState 0 (-5), .process]

theorem notified_watermark : ∃ s,
    Lib.execute State.next (State.init true 0 0) (watermarkCalls 3 (-3)) = some s ∧
    NotifiedAsDocumented .watermark ⟨0, 0⟩ 0 (watermarkCalls 3 (-3)).reverse s ∧
    s.toldTo 0 = [⟨0, .hiWatermark, .resource 5 5⟩, ⟨0, .loWatermark, .resource 0 (-5)⟩] := by
  have hexec : Lib.execute State.next (State.init true 0 0) (watermarkCalls 3 (-3)) = some _ := rfl
  refine ⟨_, hexec, notified_as_documented ⟨0, 0⟩ (State.run_of_execute hexec) .watermark 0 ?_, ?_⟩
  · show WatermarksMissed _ _
    decide
  · decide

/-- **With both watermarks at zero**, as the description suggests, a resource that becomes
oversubscribed from a headroom of zero tells nobody. -/
theorem oversubscribed_untold : ∃ s,
    Lib.Run Step (State.init true 0 0) (watermarkCalls 0 0).reverse s ∧
    ¬ NotifiedAsDocumented .watermark ⟨0, 0⟩ 0 (watermarkCalls 0 0).reverse s := by
  refine ⟨_, State.run_of_execute rfl, fun h => ?_⟩
  have hall := (h.told _ rfl rfl rfl).2 rfl
  exact absurd hall (by decide)

end Npa.Events
