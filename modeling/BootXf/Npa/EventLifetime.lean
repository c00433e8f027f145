import BootXf.Npa.Events

/-!
# The lifetime of events

The actions that wait for an event are, in order, the one that links it, those that use it and the
one that frees it (`Fate`). That holds in every run in which no event that counts is destroyed
while there is a system event, and no system event is destroyed at all (`State.Careful`): a system
event is told of a destroyed event behind the action that frees it, and a destroyed system event is
looked for on the wrong list.
-/

namespace Npa.Events

open List Option Function

/-- A condition on an event, if it is there. -/
def State.If (s : State) (e : Nat) (p : Event → Prop) : Prop :=
  match s.events e with
  | some event => p event
  | none => True

/-- The calls that keep events in order. -/
def State.Careful (s : State) : Call → Prop
  | .newEvent type _ => type = .resourceAvailable → s.instantiated = false
  | .destroyEventHandle e => s.If e fun event =>
    event.triggerType.type ≠ .resourceAvailable ∧ event.triggerType.type ≠ .systemEvent ∧
      (event.triggerType.type.registered = true → s.eventHeader.sysCount = 0)
  | .removeSystemEventCallback callback => ∀ e < s.created, s.If e fun event =>
    event.triggerType.type = .systemEvent → event.callback ≠ callback
  | .setEventWatermarks _ _ _ | .setEventThresholds _ _ _ | .updateResourceState _ _ |
    .postSyncEvent _ _ | .process => True

instance {s : State} {e : Nat} {p : Event → Prop} [DecidablePred p] : Decidable (s.If e p) := by
  unfold State.If
  split <;> infer_instance

instance (s : State) : (c : Call) → Decidable (s.Careful c)
  | .newEvent _ _ => inferInstanceAs (Decidable (_ → _))
  | .destroyEventHandle e => inferInstanceAs (Decidable (s.If e _))
  | .removeSystemEventCallback callback =>
    inferInstanceAs (Decidable (∀ e < s.created, s.If e fun event =>
    event.triggerType.type = .systemEvent → event.callback ≠ callback))
  | .setEventWatermarks _ _ _ | .setEventThresholds _ _ _ | .updateResourceState _ _ |
    .postSyncEvent _ _ | .process => inferInstanceAs (Decidable True)

/-- A step with a careful call. -/
def CarefulStep (s : State) (c : Call) (t : State) : Prop := s.Careful c ∧ Step s c t

/-- The actions that use an event that is linked: they neither link nor free it. -/
def Action.uses : Action → Bool
  | .newEvent _ | .destroy _ => false
  | _ => true

namespace State

/-- The actions that wait for an event. -/
def actionsOf (s : State) (e : Nat) : List Action := s.queue.filter (·.about = some e)

/-- Whether an event is on the list of its type. -/
def Listed (s : State) (e : Nat) (event : Event) : Prop :=
  if event.triggerType.type = .systemEvent then e ∈ s.eventHeader.sysEvent
  else e ∈ s.eventHeader.event

/-- The end of what waits for an event: it is freed last, if it is destroyed. -/
def ending (e : Nat) (event : Event) : List Action :=
  if event.triggerType.destroyFlag then [.destroy e] else []

/-- **What waits for an event**: it is linked first, if that has not been done, then used, and
freed at last. -/
def Fate (s : State) (e : Nat) (event : Event) : Prop :=
  ∃ used, (∀ x ∈ used, x.uses = true) ∧
    (s.Listed e event ∧ s.actionsOf e = used ++ ending e event ∨
      s.actionsOf e = .newEvent e :: used ++ ending e event)

/-- **Events are sound**: what waits for an event has its order, nothing waits for one that is
freed, and one is freed once, after it has been destroyed. -/
structure Sound (h : List Call) (s : State) : Prop where
  orderly : s.Orderly
  fate : ∀ e event, s.events e = some event → event.triggerType.type ≠ .resourceAvailable →
    s.Fate e event
  idle : ∀ e, (∀ event, s.events e = some event → event.triggerType.type = .resourceAvailable) →
    s.actionsOf e = [] ∧ e ∉ s.eventHeader.event ∧ e ∉ s.eventHeader.sysEvent
  system : ∀ e event, s.events e = some event → event.triggerType.type = .systemEvent →
    event.triggerType = TriggerType.systemEvent.field
  available : ∀ e event, s.events e = some event → event.triggerType.type = .resourceAvailable →
    event.triggerType.destroyFlag = false
  sysCount : 0 < s.eventHeader.sysCount → ∃ e event, s.events e = some event ∧
    event.triggerType.type = .systemEvent
  freed : ∀ e, e ∈ s.freed ↔ e < s.created ∧ s.events e = none
  once : s.freed.Nodup
  asked : ∀ e, .destroyEventHandle e ∈ h ↔ e < s.created ∧ ∀ event, s.events e = some event →
    event.triggerType.destroyFlag = true

theorem if_iff (s : State) {e : Nat} {event : Event} {p : Event → Prop}
    (hev : s.events e = some event) : s.If e p ↔ p event := by
  rw [If, hev]

variable {s t : State} {e a : Nat} {event : Event} {h : List Call} {more : List Action}
  {x : Action} {q : List Action} {c : Call} {header : EventHeader} {l : List Nat}
  {type : TriggerType} {α : Type}

theorem sound_init {instantiated : Bool} {state : UInt32} {headroom : Int32} :
    Sound [] (init instantiated state headroom) where
  orderly := orderly_init
  fate := nofun
  idle _ _ := ⟨rfl, nofun, nofun⟩
  system := nofun
  available := nofun
  sysCount := nofun
  freed _ := ⟨nofun, fun ⟨hlt, _⟩ => absurd hlt (Nat.not_lt_zero _)⟩
  once := .nil
  asked _ := ⟨nofun, fun ⟨hlt, _⟩ => absurd hlt (Nat.not_lt_zero _)⟩

theorem actionsOf_append (hqueue : t.queue = s.queue ++ more) :
    t.actionsOf e = s.actionsOf e ++ more.filter (·.about = some e) := by
  rw [actionsOf, actionsOf, hqueue, filter_append]

theorem actionsOf_cons (hq : s.queue = x :: q)
    (hqueue : t.queue = q) (hx : x.about = some e) : s.actionsOf e = x :: t.actionsOf e := by
  rw [actionsOf, actionsOf, hqueue, hq, filter_cons_of_pos (by simp [hx])]

theorem actionsOf_other (hq : s.queue = x :: q)
    (hqueue : t.queue = q) (hx : x.about ≠ some e) : t.actionsOf e = s.actionsOf e := by
  rw [actionsOf, actionsOf, hqueue, hq, filter_cons_of_neg (by simp [hx])]

/-- What waits for an event finds it there. -/
theorem Sound.alive (hs : Sound h s) (hx : x ∈ s.queue) (ha : x.about = some a) :
    ∃ event, s.events a = some event ∧ event.triggerType.type ≠ .resourceAvailable := by
  refine Classical.byContradiction fun hno => ?_
  have hidle : s.actionsOf a = [] := (hs.idle a fun event hev =>
    Classical.byContradiction fun htype => hno ⟨event, hev, htype⟩).1
  have hmem : x ∈ s.actionsOf a := mem_filter.mpr ⟨hx, by simp [ha]⟩
  rw [hidle] at hmem
  cases hmem

/-- What is on a list is there. -/
theorem Sound.listed (hs : Sound h s) (ha : a ∈ s.eventHeader.event ∨ a ∈ s.eventHeader.sysEvent) :
    ∃ event, s.events a = some event := by
  refine Classical.byContradiction fun hno => ?_
  obtain ⟨-, hevent, hsys⟩ := hs.idle a fun event hev => absurd ⟨event, hev⟩ hno
  exact ha.elim hevent hsys

/-! What a used event leaves. -/

/-- More actions wait that use events in use. -/
theorem Fate.queue (hf : s.Fate e event) (hev : s.events e = some event)
    (hheader : t.header = s.header) (hqueue : t.queue = s.queue ++ more)
    (hmore : ∀ x ∈ more, x.uses = true ∧ ∀ a, x.about = some a →
      ∃ event, s.events a = some event ∧ event.triggerType.destroyFlag = false) :
    t.Fate e event := by
  obtain ⟨used, hused, hcase⟩ := hf
  have hlisted : t.Listed e event ↔ s.Listed e event := by
    rw [Listed, Listed, eventHeader, eventHeader, hheader]
  cases hflag : event.triggerType.destroyFlag with
  | true =>
    have hnone : more.filter (·.about = some e) = [] := by
      refine filter_eq_nil_iff.mpr fun x hx habout => ?_
      obtain ⟨event', hev', hlive⟩ := (hmore x hx).2 e (of_decide_eq_true habout)
      rw [hev] at hev'
      cases hev'
      rw [hflag] at hlive
      cases hlive
    refine ⟨used, hused, ?_⟩
    rw [actionsOf_append hqueue, hnone, append_nil, hlisted]
    exact hcase
  | false =>
    have hend : ending e event = [] := by
      rw [ending, hflag]
      rfl
    refine ⟨used ++ more.filter (·.about = some e), fun x hx => ?_, ?_⟩
    · exact (mem_append.mp hx).elim (hused x) fun hx => (hmore x (mem_filter.mp hx).1).1
    · simp only [hend, append_nil] at hcase ⊢
      rw [actionsOf_append hqueue, hlisted]
      rcases hcase with ⟨hl, hc⟩ | hc
      · exact .inl ⟨hl, by rw [hc]⟩
      · exact .inr (by rw [hc]; rfl)

/-- **Using events in use keeps them sound.** -/
theorem Sound.queue (hs : Sound h s) (more : List Action) (horderly : t.Orderly)
    (hheader : t.header = s.header) (hevents : t.events = s.events)
    (hcreated : t.created = s.created) (hfreed : t.freed = s.freed)
    (hqueue : t.queue = s.queue ++ more)
    (hmore : ∀ x ∈ more, x.uses = true ∧ ∀ a, x.about = some a → ∃ event, s.events a = some event ∧
      event.triggerType.type ≠ .resourceAvailable ∧ event.triggerType.destroyFlag = false)
    (hc : ∀ e, c ≠ .destroyEventHandle e) : Sound (c :: h) t := by
  have hh : t.eventHeader = s.eventHeader := by rw [eventHeader, eventHeader, hheader]
  refine ⟨horderly, fun e event hev htype => ?_, fun e hidle => ?_, fun e event hev => ?_,
    fun e event hev => ?_, ?_, fun e => ?_, hfreed ▸ hs.once, fun e => ?_⟩
  · rw [hevents] at hev
    refine (hs.fate e event hev htype).queue hev hheader hqueue fun x hx =>
      ⟨(hmore x hx).1, fun a ha => ?_⟩
    obtain ⟨event', hev', -, hlive⟩ := (hmore x hx).2 a ha
    exact ⟨event', hev', hlive⟩
  · rw [hevents] at hidle
    obtain ⟨hnone, hlist⟩ := hs.idle e hidle
    refine ⟨?_, hh ▸ hlist⟩
    rw [actionsOf_append hqueue, hnone, nil_append]
    refine filter_eq_nil_iff.mpr fun x hx habout => ?_
    obtain ⟨event', hev', htype, -⟩ := (hmore x hx).2 e (of_decide_eq_true habout)
    exact htype (hidle event' hev')
  · rw [hevents] at hev
    exact hs.system e event hev
  · rw [hevents] at hev
    exact hs.available e event hev
  · rw [hh, hevents]
    exact hs.sysCount
  · rw [hfreed, hcreated, hevents]
    exact hs.freed e
  · rw [hcreated, hevents, ← hs.asked e]
    exact ⟨fun hin => (mem_cons.mp hin).resolve_left fun heq => hc e heq.symm,
      mem_cons_of_mem c⟩

/-- What waits behind an action that uses an event. -/
theorem Fate.tail (hf : s.Fate e event) (hq : s.queue = x :: q)
    (huses : x.uses = true) (hqueue : t.queue = q)
    (hheader : t.header = s.header) : t.Fate e event := by
  have hlisted : t.Listed e event ↔ s.Listed e event := by
    rw [Listed, Listed, eventHeader, eventHeader, hheader]
  obtain ⟨used, hused, hcase⟩ := hf
  by_cases hx : x.about = some e
  · rw [actionsOf_cons hq hqueue hx] at hcase
    rcases hcase with ⟨hl, hc⟩ | hc
    · cases used with
      | nil =>
        unfold ending at hc
        split at hc
        · obtain ⟨rfl, -⟩ := List.cons.inj hc
          cases huses
        · exact absurd hc (cons_ne_nil _ _)
      | cons y used =>
        obtain ⟨-, hc⟩ := List.cons.inj hc
        exact ⟨used, fun y hy => hused y (mem_cons_of_mem _ hy), .inl ⟨hlisted.mpr hl, hc⟩⟩
    · obtain ⟨rfl, -⟩ := List.cons.inj hc
      cases huses
  · rw [← actionsOf_other hq hqueue hx] at hcase
    exact ⟨used, hused, by rw [hlisted]; exact hcase⟩

/-- What an event keeps when it is used. -/
def SameFor (event event' : Event) : Prop :=
  event.triggerType.type = event'.triggerType.type ∧
    event.triggerType.destroyFlag = event'.triggerType.destroyFlag

theorem Fate.same {event' : Event} (hf : s.Fate e event') (hsame : SameFor event event') :
    s.Fate e event := by
  obtain ⟨used, hused, hcase⟩ := hf
  have hend : ending e event = ending e event' := by rw [ending, ending, hsame.2]
  have hlisted : s.Listed e event ↔ s.Listed e event' := by rw [Listed, Listed, hsame.1]
  exact ⟨used, hused, by rw [hend, hlisted]; exact hcase⟩

/-- **An action that uses an event leaves all of them sound.** -/
theorem Sound.used (hs : Sound h s) (hq : s.queue = x :: q)
    (horderly : t.Orderly) (huses : x.uses = true) (hqueue : t.queue = q)
    (hheader : t.header = s.header) (hcreated : t.created = s.created) (hfreed : t.freed = s.freed)
    (hsome : ∀ a event, t.events a = some event → ∃ event', s.events a = some event' ∧
      SameFor event event')
    (hnone : ∀ a event, s.events a = some event → ∃ event', t.events a = some event' ∧
      SameFor event event')
    (hsystem : ∀ a event, t.events a = some event → event.triggerType.type = .systemEvent →
      s.events a = some event) : Sound (.process :: h) t := by
  have hh : t.eventHeader = s.eventHeader := by rw [eventHeader, eventHeader, hheader]
  have hgone : ∀ a, t.events a = none ↔ s.events a = none := by
    refine fun a => ⟨fun ha => ?_, fun ha => ?_⟩
    · cases hev : s.events a with
      | none => rfl
      | some event =>
        obtain ⟨event', hev', -⟩ := hnone a event hev
        rw [ha] at hev'
        cases hev'
    · cases hev : t.events a with
      | none => rfl
      | some event =>
        obtain ⟨event', hev', -⟩ := hsome a event hev
        rw [ha] at hev'
        cases hev'
  refine ⟨horderly, fun e event hev htype => ?_, fun e hidle => ?_, fun e event hev htype => ?_,
    fun e event hev htype => ?_, fun hpos => ?_, fun e => ?_, hfreed ▸ hs.once, fun e => ?_⟩
  · obtain ⟨event', hev', hsame⟩ := hsome e event hev
    exact (((hs.fate e event' hev' (hsame.1 ▸ htype)).tail hq huses hqueue hheader).same hsame)
  · obtain ⟨hactions, hlist⟩ := hs.idle e fun event hev => by
      obtain ⟨event', hev', hsame⟩ := hnone e event hev
      exact hsame.1.trans (hidle event' hev')
    refine ⟨?_, hh ▸ hlist⟩
    by_cases hx : x.about = some e
    · rw [actionsOf_cons hq hqueue hx] at hactions
      cases hactions
    · rw [actionsOf_other hq hqueue hx, hactions]
  · exact hs.system e event (hsystem e event hev htype) htype
  · obtain ⟨event', hev', hsame⟩ := hsome e event hev
    exact hsame.2.trans (hs.available e event' hev' (hsame.1.symm.trans htype))
  · obtain ⟨e, event, hev, htype⟩ := hs.sysCount (hh ▸ hpos)
    obtain ⟨event', hev', hsame⟩ := hnone e event hev
    exact ⟨e, event', hev', hsame.1.symm.trans htype⟩
  · rw [hfreed, hcreated, hgone]
    exact hs.freed e
  · rw [hcreated]
    have hiff : (∀ event, t.events e = some event → event.triggerType.destroyFlag = true) ↔
        ∀ event, s.events e = some event → event.triggerType.destroyFlag = true := by
      refine ⟨fun hall event hev => ?_, fun hall event hev => ?_⟩
      · obtain ⟨event', hev', hsame⟩ := hnone e event hev
        exact hsame.2.trans (hall event' hev')
      · obtain ⟨event', hev', hsame⟩ := hsome e event hev
        exact hsame.2.trans (hall event' hev')
    rw [hiff, ← hs.asked e]
    exact ⟨fun hin => (mem_cons.mp hin).resolve_left (by simp), mem_cons_of_mem _⟩

/-- Setting bounds uses an event: a system event is never meant. -/
theorem Sound.actionSet {enabled : Bool}
    {lo hi : UInt32} {told : Option EventType} {data : EventData} (hs : Sound h s)
    (hq : s.queue = x :: q) (horderly : t.Orderly) (huses : x.uses = true)
    (hfits : ∀ event, s.events a = some event → event.triggerType.type = type)
    (htype : type ≠ .systemEvent)
    (hset : ({ s with queue := q } : State).actionSet a type enabled lo hi told data = .ok t) :
    Sound (.process :: h) t := by
  obtain ⟨hheader, hcreated, hqueue, hfreed⟩ := actionSet_frame hset
  have hkeeps := actionSet_keeps hset
  refine hs.used hq horderly huses hqueue hheader hcreated hfreed (fun b event hev => ?_)
    (fun b event hev => ?_) (fun b event hev hsys => ?_)
  · have heq := hkeeps b
    rw [hev] at heq
    obtain ⟨event', hev', hsame⟩ := map_eq_some_iff.mp heq.symm
    exact ⟨event', hev', (congrArg Prod.fst hsame).symm, (congrArg Prod.snd hsame).symm⟩
  · have heq := hkeeps b
    rw [show ({ s with queue := q } : State).events b = some event from hev] at heq
    obtain ⟨event', hev', hsame⟩ := map_eq_some_iff.mp heq
    exact ⟨event', hev', (congrArg Prod.fst hsame).symm, (congrArg Prod.snd hsame).symm⟩
  · obtain ⟨event', hev', hcase⟩ := actionSet_ok hset
    have hne : b ≠ a := by
      rintro rfl
      have heq := hkeeps b
      rw [hev, hev'] at heq
      have htype' : event.triggerType.type = event'.triggerType.type := by
        injection heq with heq
        exact congrArg Prod.fst heq
      exact htype ((hfits event' hev').symm.trans (htype'.symm.trans hsys))
    rcases hcase with ⟨-, -, rfl⟩ | ⟨-, -, -, rfl⟩ | ⟨-, rfl⟩
    · exact hev
    · exact (update_of_ne hne ..).symm.trans hev
    · exact (update_of_ne hne ..).symm.trans hev

theorem mem_linked (hne : a ≠ e) :
    (a ∈ (linked header event e).event ↔ a ∈ header.event) ∧
      (a ∈ (linked header event e).sysEvent ↔ a ∈ header.sysEvent) := by
  unfold linked
  split <;> simp [hne]

theorem mem_unlinked (hne : a ≠ e) :
    (a ∈ (unlinked header event e).event ↔ a ∈ header.event) ∧
      (a ∈ (unlinked header event e).sysEvent ↔ a ∈ header.sysEvent) := by
  unfold unlinked
  split <;> simp [mem_erase_of_ne hne]

theorem onSysEvent_iff (hs : Sound h s) (hev : s.events e = some event) :
    onSysEvent event = true ↔ event.triggerType.type = .systemEvent := by
  refine ⟨fun hon => ?_, fun htype => decide_eq_true (hs.system e event hev htype)⟩
  rw [of_decide_eq_true hon]
  rfl

/-- An action at the front of what waits for an event. -/
theorem Fate.front (hf : s.Fate e event) (hq : s.queue = x :: q)
    (hqueue : t.queue = q) (hx : x.about = some e) (huses : x.uses = false) :
    (x = .newEvent e ∧ ∃ used, (∀ x ∈ used, x.uses = true) ∧
        t.actionsOf e = used ++ ending e event) ∨
      x = .destroy e ∧ event.triggerType.destroyFlag = true ∧ s.Listed e event ∧
        t.actionsOf e = [] := by
  obtain ⟨used, hused, ⟨hl, hc⟩ | hc⟩ := hf
  · rw [actionsOf_cons hq hqueue hx] at hc
    cases used with
    | nil =>
      cases hflag : event.triggerType.destroyFlag with
      | false =>
        rw [ending, hflag] at hc
        exact absurd hc (cons_ne_nil _ _)
      | true =>
        rw [ending, hflag] at hc
        obtain ⟨hx, hnil⟩ := List.cons.inj hc
        exact .inr ⟨hx, rfl, hl, hnil⟩
    | cons y used =>
      obtain ⟨rfl, -⟩ := List.cons.inj hc
      rw [hused x mem_cons_self] at huses
      cases huses
  · rw [actionsOf_cons hq hqueue hx] at hc
    obtain ⟨hx, hrest⟩ := List.cons.inj hc
    exact .inl ⟨hx, used, hused, hrest⟩

theorem Fate.other (hf : s.Fate e event) (hq : s.queue = x :: q)
    (hqueue : t.queue = q) (hx : x.about ≠ some e) (hlisted : t.Listed e event ↔ s.Listed e event) :
    t.Fate e event := by
  obtain ⟨used, hused, hcase⟩ := hf
  refine ⟨used, hused, ?_⟩
  rw [hlisted, actionsOf_other hq hqueue hx]
  exact hcase

/-- **Linking an event leaves all of them sound.** -/
theorem Sound.actionNewEvent (hs : Sound h s) (hq : s.queue = .newEvent e :: q)
    (horderly : t.Orderly) (hnew : ({ s with queue := q } : State).actionNewEvent e = .ok t) :
    Sound (.process :: h) t := by
  obtain ⟨event, header, hev, hh, rfl⟩ := actionNewEvent_ok hnew
  obtain ⟨event', hev', htype⟩ := hs.alive (hq ▸ mem_cons_self) rfl
  cases hev.symm.trans hev'
  have hheader : s.eventHeader = header := by
    rw [eventHeader, show s.header = some header from hh]
    rfl
  have hlisted : ∀ {a event'}, a ≠ e → (Listed
      { s with queue := q, header := some (linked header event e) } a event' ↔
      s.Listed a event') := by
    intro a event' hne
    unfold Listed
    rw [hheader]
    split
    · exact (mem_linked hne).2
    · exact (mem_linked hne).1
  refine ⟨horderly, fun a event' hev'' htype' => ?_, fun a hidle => ?_, hs.system, hs.available, ?_,
    hs.freed, hs.once, fun a => ?_⟩
  · have hfate := hs.fate a event' hev'' htype'
    by_cases hae : a = e
    · subst hae
      cases hev.symm.trans hev''
      rcases hfate.front hq (t :=
        { s with queue := q, header := some (linked header event a) }) rfl rfl
        rfl with ⟨-, used, hused, hactions⟩ | ⟨hx, -⟩
      · refine ⟨used, hused, .inl ⟨?_, hactions⟩⟩
        unfold Listed
        show if _ then a ∈ (linked header event a).sysEvent else a ∈ (linked header event a).event
        unfold linked
        split
        · next hsys =>
          rw [if_pos ((onSysEvent_iff hs hev).mpr hsys)]
          exact mem_cons_self
        · next hsys =>
          rw [if_neg (fun hon => hsys ((onSysEvent_iff hs hev).mp hon))]
          exact mem_cons_self
      · cases hx
    · exact hfate.other hq rfl (fun heq => hae (Option.some.inj heq).symm) (hlisted hae)
  · obtain ⟨hactions, hevent, hsys⟩ := hs.idle a hidle
    have hae : a ≠ e := by
      rintro rfl
      exact htype (hidle event hev)
    rw [hheader] at hevent hsys
    refine ⟨?_, fun hin => hevent ((mem_linked hae).1.mp hin), fun hin =>
      hsys ((mem_linked hae).2.mp hin)⟩
    rw [← hactions]
    exact actionsOf_other hq rfl fun heq => hae (Option.some.inj heq).symm
  · intro hpos
    refine hs.sysCount ?_
    rw [hheader]
    have hsame : (linked header event e).sysCount = header.sysCount := by
      unfold linked
      split <;> rfl
    exact hsame ▸ hpos
  · refine Iff.trans ?_ (hs.asked a)
    exact ⟨fun hin => (mem_cons.mp hin).resolve_left (by simp), mem_cons_of_mem _⟩

/-- An event that is on a list is found. -/
theorem search_of_mem (he : e ∈ l) : s.search e l ≠ .ok false := by
  induction l with
  | nil => cases he
  | cons b l ih =>
    unfold search
    by_cases hbe : b = e
    · rw [if_pos hbe]
      simp
    · rw [if_neg hbe]
      intro hsearch
      obtain ⟨-, -, hrest⟩ := Lib.bind_eq_ok.mp hsearch
      exact ih ((mem_cons.mp he).resolve_left (Ne.symm hbe)) hrest

/-- **Freeing an event leaves all of them sound.** -/
theorem Sound.actionDestroy (hs : Sound h s) (hq : s.queue = .destroy e :: q)
    (horderly : t.Orderly) (hdestroy : ({ s with queue := q } : State).actionDestroy e = .ok t) :
    Sound (.process :: h) t := by
  obtain ⟨event, hev, htype⟩ := hs.alive (hq ▸ mem_cons_self) rfl
  rcases (hs.fate e event hev htype).front hq (t := { s with queue := q }) rfl rfl rfl with
    ⟨hx, -⟩ | ⟨-, hflag, hlisted, hactions⟩
  · cases hx
  have hsys : event.triggerType.type ≠ .systemEvent := fun hsys => by
    rw [hs.system e event hev hsys] at hflag
    cases hflag
  have hon : onSysEvent event = false :=
    Bool.eq_false_iff.mpr fun hon => hsys ((onSysEvent_iff hs hev).mp hon)
  have hin : e ∈ s.eventHeader.event := by
    rw [Listed, if_neg hsys] at hlisted
    exact hlisted
  obtain ⟨event', hev', hcase⟩ := actionDestroy_ok hdestroy
  cases hev.symm.trans hev'
  rcases hcase with ⟨-, hlost⟩ | ⟨header, hh, -, -, rfl⟩
  · cases hh : s.header with
    | none =>
      rw [eventHeader, hh] at hin
      cases hin
    | some header =>
      rw [eventHeader, hh] at hin
      refine absurd (hlost header hh) (search_of_mem ?_)
      rw [listOf, hon]
      exact hin
  have hheader : s.eventHeader = header := by
    rw [eventHeader, show s.header = some header from hh]
    rfl
  have hnodup := hs.orderly.nodup
  rw [links, hheader] at hnodup
  rw [hheader] at hin
  obtain ⟨hlists, -, -⟩ := nodup_append.mp hnodup
  obtain ⟨hevent, -, hdisjoint⟩ := nodup_append.mp hlists
  have hnone : ∀ {a}, a ≠ e → update s.events e none a = s.events a :=
    fun hne => update_of_ne hne ..
  refine ⟨horderly, fun a event' hev'' htype' => ?_, fun a hidle => ?_, fun a event' hev'' => ?_,
    fun a event' hev'' => ?_, ?_, fun a => ?_, ?_, fun a => ?_⟩
  · have hae : a ≠ e := by
      rintro rfl
      cases (update_self ..).symm.trans hev''
    refine (hs.fate a event' ((hnone hae).symm.trans hev'') htype').other hq rfl
      (fun heq => hae (Option.some.inj heq).symm) ?_
    unfold Listed
    rw [hheader]
    split
    · exact (mem_unlinked hae).2
    · exact (mem_unlinked hae).1
  · by_cases hae : a = e
    · subst hae
      refine ⟨hactions, fun hin' => ?_, fun hin' => ?_⟩
      · have hin' : a ∈ (unlinked header event a).event := hin'
        rw [unlinked, hon] at hin'
        exact hevent.not_mem_erase hin'
      · have hin' : a ∈ (unlinked header event a).sysEvent := hin'
        rw [unlinked, hon] at hin'
        exact hdisjoint a hin a hin' rfl
    · obtain ⟨hactions', hevent', hsys'⟩ := hs.idle a fun event' hev'' =>
        hidle event' ((hnone hae).trans hev'')
      rw [hheader] at hevent' hsys'
      refine ⟨?_, fun hin' => hevent' ((mem_unlinked hae).1.mp hin'),
        fun hin' => hsys' ((mem_unlinked hae).2.mp hin')⟩
      rw [← hactions']
      exact actionsOf_other hq rfl fun heq => hae (Option.some.inj heq).symm
  · have hae : a ≠ e := by
      rintro rfl
      cases (update_self ..).symm.trans hev''
    exact hs.system a event' ((hnone hae).symm.trans hev'')
  · have hae : a ≠ e := by
      rintro rfl
      cases (update_self ..).symm.trans hev''
    exact hs.available a event' ((hnone hae).symm.trans hev'')
  · intro hpos
    have hsame : (unlinked header event e).sysCount = header.sysCount := by
      unfold unlinked
      split <;> rfl
    obtain ⟨a, event', hev'', htype'⟩ := hs.sysCount (by rw [hheader]; exact hsame ▸ hpos)
    have hae : a ≠ e := by
      rintro rfl
      cases hev.symm.trans hev''
      exact hsys htype'
    exact ⟨a, event', (hnone hae).trans hev'', htype'⟩
  · by_cases hae : a = e
    · subst hae
      exact ⟨fun _ => ⟨hs.orderly.lt_created hev, update_self ..⟩,
        fun _ => mem_append_right _ mem_cons_self⟩
    · refine Iff.trans ?_ ((hs.freed a).trans (and_congr_right fun _ => by rw [← hnone hae]))
      exact ⟨fun hin' => (mem_append.mp hin').resolve_right fun hin' =>
        hae (mem_singleton.mp hin'), mem_append_left _⟩
  · refine nodup_append.mpr ⟨hs.once, nodup_cons.mpr ⟨not_mem_nil, .nil⟩, fun b hb c hc => ?_⟩
    rw [mem_singleton.mp hc]
    rintro rfl
    have hgone := ((hs.freed b).mp hb).2
    rw [show s.events b = some event from hev] at hgone
    cases hgone
  · refine Iff.trans ⟨fun hin' => (mem_cons.mp hin').resolve_left (by simp),
      mem_cons_of_mem _⟩ ((hs.asked a).trans (and_congr_right fun _ => ?_))
    by_cases hae : a = e
    · subst hae
      refine ⟨fun _ event' hev'' => ?_, fun _ event' hev'' => ?_⟩
      · cases (update_self ..).symm.trans hev''
      · cases hev.symm.trans hev''
        exact hflag
    · rw [← hnone hae]

theorem SameFor.refl (event : Event) : SameFor event event := ⟨rfl, rfl⟩

/-- **An action leaves events sound.** -/
theorem Sound.perform (hs : Sound h s) (hq : s.queue = x :: q)
    (hperform : ({ s with queue := q } : State).perform x = .ok t) : Sound (.process :: h) t := by
  have horderly := hs.orderly.perform hq hperform
  have hsuits := hs.orderly.queued x (hq ▸ mem_cons_self)
  have hkept : ∀ {u : State}, u.Orderly → x.uses = true → u.queue = q → u.header = s.header →
      u.created = s.created → u.freed = s.freed → u.events = s.events →
        Sound (.process :: h) u := by
    intro u horderly huses hqueue hheader hcreated hfreed hevents
    refine hs.used hq horderly huses hqueue hheader hcreated hfreed ?_ ?_ ?_ <;> rw [hevents]
    · exact fun a event hev => ⟨event, hev, .refl event⟩
    · exact fun a event hev => ⟨event, hev, .refl event⟩
    · exact fun a event hev _ => hev
  cases x with
  | newEvent a => exact hs.actionNewEvent hq horderly hperform
  | triggerSystemEvent a =>
    obtain ⟨-, _, rfl, -⟩ := actionTriggerSystemEvent_ok hperform
    exact hkept horderly rfl rfl rfl rfl rfl rfl
  | triggerSyncEvent a state =>
    obtain ⟨-, rfl⟩ := actionTriggerSyncEvent_ok hperform
    exact hkept horderly rfl rfl rfl rfl rfl rfl
  | setWatermark a hi lo state headroom | setThreshold a hi lo state headroom =>
    exact hs.actionSet hq horderly rfl (fun event hev => hsuits.fits a event rfl hev) nofun hperform
  | destroy a => exact hs.actionDestroy hq horderly hperform
  | trigger os ns oh nh =>
    obtain ⟨_, _, -, rfl, -⟩ := actionTrigger_ok hperform
    exact hkept horderly rfl rfl rfl rfl rfl rfl

/-- Nothing waits for an event that is not made yet. -/
theorem Sound.actionsOf_created (hs : Sound h s) : s.actionsOf s.created = [] :=
  (hs.idle s.created fun event hev => by
    rw [hs.orderly.fresh _ (Nat.le_refl _)] at hev
    cases hev).1

/-- A call that destroys nothing leaves what has been asked for. -/
theorem asked_cons (hc : ∀ e, c ≠ .destroyEventHandle e) :
    .destroyEventHandle e ∈ c :: h ↔ .destroyEventHandle e ∈ h :=
  ⟨fun hin => (mem_cons.mp hin).resolve_left fun heq => hc e heq.symm, mem_cons_of_mem c⟩

/-- **A new event is sound, and so are the others.** -/
theorem Sound.created (hs : Sound h s) (hc : ∀ e, c ≠ .destroyEventHandle e) (horderly : t.Orderly)
    (hevents : t.events = update s.events s.created (some event))
    (hcreated : t.created = s.created + 1) (hfreed : t.freed = s.freed)
    (hheader : t.eventHeader = header) (hevent : header.event = s.eventHeader.event)
    (hsysEvent : header.sysEvent = s.eventHeader.sysEvent)
    (hsysCount : 0 < header.sysCount → 0 < s.eventHeader.sysCount ∨
      event.triggerType.type = .systemEvent)
    (hqueue : t.queue = s.queue ++ more) (hflag : event.triggerType.destroyFlag = false)
    (hmore : ∀ x ∈ more, x.about = some s.created)
    (havailable : event.triggerType.type = .resourceAvailable → more = [])
    (hfate : event.triggerType.type ≠ .resourceAvailable →
      ∃ used, (∀ x ∈ used, x.uses = true) ∧ more = .newEvent s.created :: used)
    (hsystem : event.triggerType.type = .systemEvent →
      event.triggerType = TriggerType.systemEvent.field) : Sound (c :: h) t := by
  have hself : t.events s.created = some event := by rw [hevents, update_self]
  have hother : ∀ {a}, a ≠ s.created → t.events a = s.events a := fun hne => by
    rw [hevents, update_of_ne hne]
  have hactions : ∀ {a}, a ≠ s.created → t.actionsOf a = s.actionsOf a := fun {a} hne => by
    rw [actionsOf_append hqueue, filter_eq_nil_iff.mpr fun x hx habout => ?_, append_nil]
    rw [hmore x hx] at habout
    exact hne (Option.some.inj (of_decide_eq_true habout)).symm
  have hactions' : t.actionsOf s.created = more := by
    rw [actionsOf_append hqueue, hs.actionsOf_created, nil_append]
    exact filter_eq_self.mpr fun x hx => by simp [hmore x hx]
  have hnone : s.events s.created = none := hs.orderly.fresh _ (Nat.le_refl _)
  refine ⟨horderly, fun a event' hev htype => ?_, fun a hidle => ?_, fun a event' hev htype => ?_,
    fun a event' hev htype => ?_, fun hpos => ?_, fun a => ?_, hfreed ▸ hs.once, fun a => ?_⟩
  · by_cases hae : a = s.created
    · subst hae
      cases hself.symm.trans hev
      obtain ⟨used, hused, hmore'⟩ := hfate htype
      refine ⟨used, hused, .inr ?_⟩
      rw [hactions', ending, hflag, hmore']
      exact (append_nil _).symm
    · obtain ⟨used, hused, hcase⟩ := hs.fate a event' ((hother hae).symm.trans hev) htype
      refine ⟨used, hused, ?_⟩
      rw [hactions hae, Listed, hheader, hevent, hsysEvent]
      exact hcase
  · by_cases hae : a = s.created
    · subst hae
      rw [hactions', havailable (hidle event hself), hheader, hevent, hsysEvent]
      exact ⟨rfl, (hs.idle s.created fun event hev => by rw [hnone] at hev; cases hev).2⟩
    · rw [hactions hae, hheader, hevent, hsysEvent]
      exact hs.idle a fun event' hev => hidle event' ((hother hae).trans hev)
  · by_cases hae : a = s.created
    · subst hae
      cases hself.symm.trans hev
      exact hsystem htype
    · exact hs.system a event' ((hother hae).symm.trans hev) htype
  · by_cases hae : a = s.created
    · subst hae
      cases hself.symm.trans hev
      exact hflag
    · exact hs.available a event' ((hother hae).symm.trans hev) htype
  · rcases hsysCount (hheader ▸ hpos) with hpos | htype
    · obtain ⟨a, event', hev, htype⟩ := hs.sysCount hpos
      have hae : a ≠ s.created := by
        rintro rfl
        rw [hnone] at hev
        cases hev
      exact ⟨a, event', (hother hae).trans hev, htype⟩
    · exact ⟨s.created, event, hself, htype⟩
  · rw [hfreed, hcreated, hs.freed]
    by_cases hae : a = s.created
    · subst hae
      rw [hself]
      exact ⟨fun hlt => absurd hlt.1 (Nat.lt_irrefl _), fun hlt => absurd hlt.2 (some_ne_none _)⟩
    · rw [hother hae]
      exact and_congr_left fun _ => by omega
  · rw [asked_cons hc, hs.asked, hcreated]
    by_cases hae : a = s.created
    · subst hae
      refine ⟨fun hlt => absurd hlt.1 (Nat.lt_irrefl _), fun hlt => ?_⟩
      have hdestroyed := hlt.2 event hself
      rw [hflag] at hdestroyed
      cases hdestroyed
    · rw [hother hae]
      exact and_congr_left fun _ => by omega

theorem Sound.newEvent {callback : Nat} {r : Option Nat} (hs : Sound h s)
    (hnew : s.newEvent type callback = .ok (r, t)) : Sound (.newEvent type callback :: h) t := by
  have horderly := hs.orderly.newEvent hnew
  rcases newEvent_ok hnew with ⟨rfl, -, -, rfl⟩ | ⟨-, ⟨-, rfl⟩ | ⟨-, -, rfl⟩⟩ |
    ⟨htype, -, -, hsys, disabled, sync, more, hmore, hdisabled, -, rfl⟩
  · exact hs.created nofun horderly rfl rfl rfl rfl rfl rfl .inl (append_nil _).symm rfl nofun
      (fun _ => rfl) (fun hne => absurd rfl hne) nofun
  · exact hs.queue [] hs.orderly rfl rfl rfl rfl (append_nil _).symm nofun nofun
  · exact ⟨horderly, hs.fate, hs.idle, hs.system, hs.available, hs.sysCount, hs.freed, hs.once,
      fun e => (asked_cons (by rintro _ ⟨⟩)).trans (hs.asked e)⟩
  · refine hs.created nofun horderly rfl rfl rfl rfl rfl rfl
      (fun hpos => ?_) rfl rfl (fun x hx => ?_)
      (fun heq => absurd heq htype) (fun _ => ⟨more, fun x hx => ?_, rfl⟩) (fun heq => ?_)
    · by_cases heq : type = .systemEvent
      · exact .inr heq
      · rw [if_neg heq] at hpos
        exact .inl hpos
    · rcases mem_cons.mp hx with rfl | hx
      · rfl
      · rw [hmore x hx]
        rfl
    · rw [hmore x hx]
      rfl
    · have heq : type = .systemEvent := heq
      have hd : disabled = false := Bool.eq_false_iff.mpr fun hd => by
        rcases hdisabled.mp hd with h | h <;> rw [heq] at h <;> cases h
      rw [heq, hd]
      rfl

/-- Bounds use an event in use. -/
theorem Sound.putBounds (hs : Sound h s) (horderly : t.Orderly)
    (hput : s.putBounds e x = .ok t) (huses : x.uses = true) (habout : x.about = some e)
    (hev : s.events e = some event) (hflag : event.triggerType.destroyFlag = false)
    (htype : event.triggerType.type ≠ .resourceAvailable) (hc : ∀ e, c ≠ .destroyEventHandle e) :
    Sound (c :: h) t := by
  obtain ⟨_, header, -, -, rfl⟩ := putBounds_ok hput
  refine hs.queue _ horderly rfl rfl rfl rfl rfl (fun y hy => ?_) hc
  have huse : y.uses = true ∧ y.about = some e := by
    rcases mem_cons.mp hy with rfl | hy
    · exact ⟨huses, habout⟩
    · rw [mem_systemActions hy]
      exact ⟨rfl, rfl⟩
  refine ⟨huse.1, fun a ha => ?_⟩
  cases huse.2.symm.trans ha
  exact ⟨event, hev, htype, hflag⟩

/-- **The destruction of an event leaves all of them sound.** -/
theorem Sound.destroyEventHandle (hs : Sound h s) (hdestroy : s.destroyEventHandle e = .ok t)
    (hcareful : s.Careful (.destroyEventHandle e)) (hin : s.InUse e fun _ => True) :
    Sound (.destroyEventHandle e :: h) t := by
  obtain ⟨event, hev, hflag, -⟩ := hin
  obtain ⟨havailable, hnotsys, hsysCount⟩ := (s.if_iff hev).mp hcareful
  have horderly : t.Orderly := by
    refine hs.orderly.destroyEventHandle hdestroy fun event' hev' _ => ?_
    cases hev.symm.trans hev'
    exact hflag
  obtain ⟨event', more, hev', -, hnone, hnone', hreg, rfl⟩ := destroyEventHandle_ok hdestroy
  cases hev.symm.trans hev'
  -- no system event is told of it
  obtain rfl : more = [] := by
    cases hr : event.triggerType.type.registered with
    | false => exact hnone' hr
    | true => exact hnone (hsysCount hr)
  have hheader := eventHeader_map s.header hreg
  generalize ht : ({ s with
    header := s.header.map (uncounted · event.triggerType.type)
    events := update s.events e (some (destroyed event))
    queue := s.queue ++ [.destroy e] } : State) = t at horderly ⊢
  have hevents : t.events = update s.events e (some (destroyed event)) := by rw [← ht]
  have hheader' : t.eventHeader = uncounted s.eventHeader event.triggerType.type := by
    rw [← ht]
    exact hheader
  have hqueue : t.queue = s.queue ++ [.destroy e] := by rw [← ht]
  have hcreated : t.created = s.created := by rw [← ht]
  have hfreed : t.freed = s.freed := by rw [← ht]
  have hself : t.events e = some (destroyed event) := by rw [hevents, update_self]
  have hother : ∀ {a}, a ≠ e → t.events a = s.events a := fun hne => by
    rw [hevents, update_of_ne hne]
  have hactions : ∀ {a}, a ≠ e → t.actionsOf a = s.actionsOf a := fun {a} hne => by
    rw [actionsOf_append hqueue, filter_eq_nil_iff.mpr fun x hx habout => ?_, append_nil]
    rw [mem_singleton.mp hx] at habout
    exact hne (Option.some.inj (of_decide_eq_true habout)).symm
  have hlisted : ∀ a event', t.Listed a event' ↔ s.Listed a event' := fun a event' => by
    rw [Listed, Listed, hheader']
    rfl
  refine ⟨horderly, fun a event' hev'' htype => ?_, fun a hidle => ?_,
    fun a event' hev'' htype => ?_,
    fun a event' hev'' htype => ?_, fun hpos => ?_, fun a => ?_, hfreed ▸ hs.once, fun a => ?_⟩
  · by_cases hae : a = e
    · subst hae
      cases hself.symm.trans hev''
      obtain ⟨used, hused, hcase⟩ := hs.fate a event hev htype
      have hend : ending a event = [] := by
        rw [ending, hflag]
        rfl
      refine ⟨used, hused, ?_⟩
      have happend : t.actionsOf a = s.actionsOf a ++ ending a (destroyed event) := by
        rw [actionsOf_append hqueue, filter_cons_of_pos (by simp [Action.about])]
        rfl
      simp only [hend, append_nil] at hcase
      rw [happend]
      rcases hcase with ⟨hl, hc⟩ | hc
      · exact .inl ⟨(hlisted a _).mpr hl, by rw [hc]⟩
      · exact .inr (by rw [hc])
    · obtain ⟨used, hused, hcase⟩ := hs.fate a event' ((hother hae).symm.trans hev'') htype
      refine ⟨used, hused, ?_⟩
      rw [hactions hae, hlisted]
      exact hcase
  · have hae : a ≠ e := by
      rintro rfl
      have htype := hidle (destroyed event) hself
      exact havailable htype
    rw [hactions hae, hheader']
    exact hs.idle a fun event' hev'' => hidle event' ((hother hae).trans hev'')
  · have hae : a ≠ e := by
      rintro rfl
      cases hself.symm.trans hev''
      exact hnotsys htype
    exact hs.system a event' ((hother hae).symm.trans hev'') htype
  · have hae : a ≠ e := by
      rintro rfl
      cases hself.symm.trans hev''
      exact havailable htype
    exact hs.available a event' ((hother hae).symm.trans hev'') htype
  · rw [hheader'] at hpos
    obtain ⟨a, event', hev'', htype⟩ := hs.sysCount hpos
    have hae : a ≠ e := by
      rintro rfl
      cases hev.symm.trans hev''
      exact hnotsys htype
    exact ⟨a, event', (hother hae).trans hev'', htype⟩
  · rw [hfreed, hcreated, hs.freed]
    by_cases hae : a = e
    · subst hae
      rw [hself, hev]
      simp
    · rw [hother hae]
  · rw [hcreated]
    by_cases hae : a = e
    · subst hae
      refine ⟨fun _ => ⟨hs.orderly.lt_created hev, fun event' hev'' => ?_⟩,
        fun _ => mem_cons_self⟩
      cases hself.symm.trans hev''
      rfl
    · rw [hother hae, ← hs.asked]
      refine ⟨fun hin => (mem_cons.mp hin).resolve_left fun heq => hae ?_,
        mem_cons_of_mem _⟩
      cases heq
      rfl

/-- **A careful step leaves events sound.** -/
theorem Sound.step (hs : Sound h s) (hstep : CarefulStep s c t) : Sound (c :: h) t := by
  obtain ⟨hcareful, hpermits, hok⟩ := hstep
  have horderly := hs.orderly.step ⟨hpermits, hok⟩
  cases c with
  | newEvent type callback =>
    obtain ⟨r, hnew⟩ := newEvent_of_step hok
    exact hs.newEvent hnew
  | destroyEventHandle e => exact hs.destroyEventHandle hok hcareful hpermits
  | removeSystemEventCallback callback =>
    rcases removeSystemEventCallback_ok hok with rfl | ⟨e, event, hev, htype, hcallback, -⟩
    · exact hs.queue [] hs.orderly rfl rfl rfl rfl (append_nil _).symm nofun nofun
    · exact absurd hcallback ((s.if_iff hev).mp (hcareful e (hs.orderly.lt_created hev)) htype)
  | setEventWatermarks e hi lo | setEventThresholds e lo hi =>
    obtain ⟨event, hev, hflag, htype⟩ := hpermits
    exact hs.putBounds horderly hok rfl rfl hev hflag (by rw [htype]; nofun) nofun
  | updateResourceState state headroom =>
    cases hok
    rw [updateResourceState_eq] at horderly ⊢
    refine hs.queue _ horderly rfl rfl rfl rfl rfl (fun x hx => ?_) nofun
    rw [mem_posted hx]
    exact ⟨rfl, nofun⟩
  | postSyncEvent e state =>
    cases hok
    obtain ⟨event, hev, hflag, htype⟩ := hpermits
    refine hs.queue [.triggerSyncEvent e state] horderly rfl rfl rfl rfl rfl
      (fun x hx => ?_) nofun
    rw [mem_singleton.mp hx]
    refine ⟨rfl, ?_⟩
    rintro _ ⟨⟩
    exact ⟨event, hev, by rw [htype]; nofun, hflag⟩
  | process =>
    dsimp only [State.step, State.process] at hok
    cases hq : s.queue with
    | nil =>
      rw [hq] at hok
      cases hok
      exact hs.queue [] hs.orderly rfl rfl rfl rfl (append_nil _).symm nofun nofun
    | cons x q =>
      rw [hq] at hok
      exact hs.perform hq hok

/-! No action touches an event that is freed. -/

/-- Something that does not touch an event that is not there. -/
def Safe {α : Type} (r : Except Fault α) : Prop := ∀ e, r ≠ .error (.useAfterFree e)

theorem Safe.ok (a : α) : Safe (.ok a : Except Fault α) := nofun

theorem Safe.fatal : Safe (.error .fatal : Except Fault α) := nofun

theorem Safe.bind {α β : Type} {r : Except Fault α} {f : α → Except Fault β} (hr : Safe r)
    (hf : ∀ a, r = .ok a → Safe (f a)) : Safe (r >>= f) := by
  cases r with
  | error fault => exact fun e heq => hr e (congrArg Except.error (Except.error.inj heq))
  | ok a => exact hf a rfl

theorem Safe.get (hev : s.events e = some event) : Safe (s.get e) := by
  rw [get_of_eq hev]
  exact .ok event

theorem Safe.scan {f : Nat → Event → Except Fault (List Notification)}
    (halive : ∀ a ∈ l, ∃ event, s.events a = some event) (hf : ∀ a event, Safe (f a event)) :
    Safe (s.scan f l) := by
  induction l with
  | nil => exact .ok []
  | cons a l ih =>
    obtain ⟨event, hev⟩ := halive a mem_cons_self
    exact (Safe.get hev).bind fun event _ => (hf a event).bind fun here _ =>
      (ih fun b hb => halive b (mem_cons_of_mem a hb)).bind fun rest _ => .ok _

theorem Safe.search (halive : ∀ a ∈ l, ∃ event, s.events a = some event) :
    Safe (s.search e l) := by
  induction l with
  | nil => exact .ok false
  | cons a l ih =>
    obtain ⟨event, hev⟩ := halive a mem_cons_self
    unfold State.search
    split
    · exact .ok true
    · exact (Safe.get hev).bind fun _ _ => ih fun b hb => halive b (mem_cons_of_mem a hb)

theorem Safe.onTrigger {os ns : UInt32} {oh nh : Int32} : Safe (onTrigger event os ns oh nh) := by
  unfold State.onTrigger
  split
  · exact .ok none
  · split <;> first | exact .ok _ | exact .fatal

/-- **The next action is safe** when its event and what is on the lists are there. -/
theorem Safe.perform (habout : ∀ a, x.about = some a → ∃ event, s.events a = some event)
    (halive : ∀ a, a ∈ s.eventHeader.event ∨ a ∈ s.eventHeader.sysEvent →
      ∃ event, s.events a = some event) : Safe (s.perform x) := by
  have hlists : ∀ {header : EventHeader}, s.header = some header →
      (∀ a ∈ header.event, ∃ event, s.events a = some event) ∧
        ∀ a ∈ header.sysEvent, ∃ event, s.events a = some event := by
    intro header hh
    rw [eventHeader, hh] at halive
    exact ⟨fun a ha => halive a (.inl ha), fun a ha => halive a (.inr ha)⟩
  have hset : ∀ {a : Nat} {type : TriggerType} {enabled : Bool} {lo hi : UInt32}
      {told : Option EventType} {data : EventData}, (∃ event, s.events a = some event) →
      Safe (s.actionSet a type enabled lo hi told data) := by
    rintro a type enabled lo hi told data ⟨event, hev⟩
    refine (Safe.get hev).bind fun event _ => ?_
    split
    · split
      · exact .ok _
      · split
        · exact .fatal
        · exact .ok _
    · exact .ok _
  cases x with
  | newEvent a =>
    obtain ⟨event, hev⟩ := habout a rfl
    refine (Safe.get hev).bind fun event _ => ?_
    split
    · exact .fatal
    · split <;> exact .ok _
  | triggerSystemEvent a =>
    obtain ⟨event, hev⟩ := habout a rfl
    refine (Safe.get hev).bind fun event _ => ?_
    split
    · exact .fatal
    · next header hh =>
      split
      · exact .fatal
      · split
        · exact (Safe.scan (hlists hh).1 fun _ _ => .ok _).bind fun _ _ => .ok _
        · split
          · exact .fatal
          · exact (Safe.scan (hlists hh).2 fun _ _ => .ok _).bind fun _ _ => .ok _
  | triggerSyncEvent a state =>
    obtain ⟨event, hev⟩ := habout a rfl
    exact (Safe.get hev).bind fun _ _ => .ok _
  | setWatermark a hi lo state headroom | setThreshold a hi lo state headroom =>
    exact hset (habout a rfl)
  | destroy a =>
    obtain ⟨event, hev⟩ := habout a rfl
    refine (Safe.get hev).bind fun event _ => ?_
    split
    · exact .ok _
    · next header hh =>
      refine (Safe.search fun b hb => ?_).bind fun found _ => ?_
      · split at hb
        · exact (hlists hh).2 b hb
        · exact (hlists hh).1 b hb
      · split
        · exact .ok _
        · split
          · exact .fatal
          · exact .ok _
  | trigger os ns oh nh =>
    show Safe (s.actionTrigger os ns oh nh)
    unfold actionTrigger
    split
    · exact .fatal
    · next header hh =>
      exact (Safe.scan (hlists hh).1 fun _ _ => Safe.onTrigger.bind fun _ _ => .ok _).bind
        fun _ _ => .ok _

theorem Sound.safe (hs : Sound h s) : Safe s.process := by
  unfold State.process
  split
  · exact .ok s
  · next x q hq =>
    refine Safe.perform (s := { s with queue := q }) (fun a ha => ?_) fun a ha => hs.listed ha
    obtain ⟨event, hev, -⟩ := hs.alive (hq ▸ mem_cons_self) ha
    exact ⟨event, hev⟩

end State

/-- **What is asked of the lifetime of events** after the calls so far: the next action does not
touch a freed event, a destroyed event is still to be freed or is freed and on no list, none is
freed twice or without being destroyed, the count is that of the events that count, and a system
event can be added when there is none in use. -/
structure LifetimeKept (h : List Call) (s : State) : Prop where
  safe : State.Safe s.process
  removed : ∀ e, .destroyEventHandle e ∈ h → .destroy e ∈ s.queue ∨
    e ∈ s.freed ∧ e ∉ s.eventHeader.event ∧ e ∉ s.eventHeader.sysEvent
  once : s.freed.Nodup
  asked : ∀ e ∈ s.freed, .destroyEventHandle e ∈ h
  counted : s.eventHeader.regCount = (List.range s.created).countP s.live
  again : s.instantiated = true → (¬ ∃ e, s.InUse e (· = .systemEvent)) → ∀ callback,
    ∃ e t, s.newEvent .systemEvent callback = .ok (some e, t)

theorem State.Sound.kept {h : List Call} {s : State} (hs : s.Sound h) : LifetimeKept h s where
  safe := hs.safe
  removed e he := by
    obtain ⟨hlt, hflag⟩ := (hs.asked e).mp he
    cases hev : s.events e with
    | none =>
      refine .inr ⟨(hs.freed e).mpr ⟨hlt, hev⟩, (hs.idle e fun event hev' => ?_).2⟩
      rw [hev] at hev'
      cases hev'
    | some event =>
      have hflag := hflag event hev
      have htype : event.triggerType.type ≠ .resourceAvailable := fun htype => by
        rw [hs.available e event hev htype] at hflag
        cases hflag
      obtain ⟨used, -, hcase⟩ := hs.fate e event hev htype
      have hmem : .destroy e ∈ s.actionsOf e := by
        have hend : State.ending e event = [.destroy e] := by
          rw [State.ending, hflag]
          rfl
        rw [hend] at hcase
        rcases hcase with ⟨-, hc⟩ | hc <;> rw [hc] <;> simp
      exact .inl (mem_filter.mp hmem).1
  once := hs.once
  asked e he := by
    obtain ⟨hlt, hev⟩ := (hs.freed e).mp he
    refine (hs.asked e).mpr ⟨hlt, fun event hev' => ?_⟩
    rw [hev] at hev'
    cases hev'
  counted := hs.orderly.counted
  again hi hnone callback := by
    have hzero : ¬ 0 < s.eventHeader.sysCount := fun hpos => by
      obtain ⟨e, event, hev, htype⟩ := hs.sysCount hpos
      exact hnone ⟨e, event, hev, by rw [hs.system e event hev htype]; rfl, htype⟩
    unfold State.newEvent
    rw [if_neg nofun, if_neg (by rw [hi]; nofun)]
    dsimp only
    rw [if_neg hzero]
    exact ⟨_, _, rfl⟩

/-- **Events are kept in every run of careful calls.** -/
theorem lifetime_kept {instantiated : Bool} {state : UInt32} {headroom : Int32} {h : List Call}
    {s : State} (run : Lib.Run CarefulStep (State.init instantiated state headroom) h s) :
    LifetimeKept h s :=
  (run.invariant (P := State.Sound) State.sound_init fun _ hs hstep => hs.step hstep).kept

/-- A careful call that is carried out. -/
def State.nextCareful (s : State) (c : Call) : Option State :=
  if s.Careful c then s.next c else none

theorem State.carefulStep_of_next {s t : State} {c : Call} (h : s.nextCareful c = some t) :
    CarefulStep s c t := by
  unfold State.nextCareful at h
  split at h
  · next hc => exact ⟨hc, step_of_next h⟩
  · cases h

theorem State.carefulRun_of_execute {s t : State} {cs : List Call}
    (h : Lib.execute State.nextCareful s cs = some t) : Lib.Run CarefulStep s cs.reverse t := by
  refine Lib.Run.of_execute_start (f := State.nextCareful) ?_ h
  exact fun h => carefulStep_of_next h

/-- A change event is created, told of a change and destroyed. -/
def changeCalls : List Call :=
  [.newEvent .changeEvent 0, .process, .updateResourceState 1 0, .destroyEventHandle 0, .process,
    .process]

theorem lifetime_kept_change : ∃ s,
    Lib.execute State.nextCareful (State.init true 0 0) changeCalls = some s ∧ s.freed = [0] ∧
    LifetimeKept changeCalls.reverse s := by
  have hexec : Lib.execute State.nextCareful (State.init true 0 0) changeCalls = some _ := rfl
  exact ⟨_, hexec, rfl, lifetime_kept (State.carefulRun_of_execute hexec)⟩

/-- **With a system event, a destroyed change event is used after it has been freed; and a system
event that has been removed keeps others out.** -/
theorem lifetime_broken :
    (∃ h s, Lib.Run Step (State.init true 0 0) h s ∧ s.process = .error (.useAfterFree 1)) ∧
    ∃ h s, Lib.Run Step (State.init true 0 0) h s ∧ s.queue = [] ∧
      (¬ ∃ e, s.InUse e (· = .systemEvent)) ∧
      (s.newEvent .systemEvent 1).toOption.map (·.1) = some none ∧ s.freed = [] := by
  have hdestroyed :
      Lib.execute State.next (State.init true 0 0) [.newEvent .systemEvent 0, .process,
    .process, .newEvent .changeEvent 1, .process, .process, .destroyEventHandle 1, .process] =
    some _ := rfl
  have hremoved : Lib.execute State.next (State.init true 0 0) [.newEvent .systemEvent 0, .process,
    .process, .removeSystemEventCallback 0, .process] = some _ := rfl
  refine ⟨⟨_, _, State.run_of_execute hdestroyed, rfl⟩,
    ⟨_, _, State.run_of_execute hremoved, rfl, ?_, rfl, rfl⟩⟩
  rintro ⟨e, event, hev, hflag, -⟩
  by_cases he : e = 0
  · subst he
    cases hev
    cases hflag
  · have hnone : (none : Option Event) = some event := by
      rw [← hev]
      show none = update (update (fun _ => none) 0 _) 0 _ e
      rw [update_of_ne he, update_of_ne he]
    cases hnone

end Npa.Events
