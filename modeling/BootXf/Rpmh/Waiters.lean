import BootXf.Rpmh.Driver

/-!
# Who waits for the requests of a client

The threads that wait for a request of a client and the callbacks that it has asked for are on one
list, the barriers of its handle. When a request completes, `check_for_events` goes through the list
and starts again from its head after each waiter that it has triggered. Callbacks return before the
list is looked at again, and a wait that polls leaves nothing on the list.
-/

namespace Rpmh.Wait

open List

/-- `rpmh_barrier_enum`. -/
inductive BarrierType
  | barrierSingle | barrierAll | callbackSingle | callbackAll
  deriving DecidableEq

def BarrierType.isAll : BarrierType → Bool
  | barrierAll | callbackAll => true
  | barrierSingle | callbackSingle => false

def BarrierType.isCallback : BarrierType → Bool
  | callbackSingle | callbackAll => true
  | barrierSingle | barrierAll => false

/-- `active_events_t`. `waiter` is the event of a thread; a callback that has been asked for has
none and is numbered alike. -/
structure ActiveEvent where
  reqId : UInt32
  barrierType : BarrierType
  waiter : Nat
  deriving DecidableEq

/-- A waiter triggered: the event of a thread is set, or the callback is called with an id. -/
structure Trigger where
  waiter : Nat
  calledWith : Option UInt32
  deriving DecidableEq

/-- How a waiter is triggered, with the id for the callback. -/
def ActiveEvent.triggerWith (e : ActiveEvent) (reqId : UInt32) : Trigger :=
  ⟨e.waiter, if e.barrierType.isCallback then some reqId else none⟩

/-- `rpmh_client_t` with its barriers. -/
structure Handle where
  client : Client
  barriers : List ActiveEvent

/-- The condition of `check_for_events` on a waiter. -/
def isTriggered (k : Client) (reqId : UInt32) (e : ActiveEvent) : Bool :=
  (e.barrierType.isAll && e.reqId < k.oldestReqId) || (!e.barrierType.isAll && k.reqId == reqId)

/-- `check_for_events`: the barriers that are left, and who has been triggered. -/
def checkForEvents (k : Client) (reqId : UInt32) (barriers : List ActiveEvent) :
    List ActiveEvent × List Trigger :=
  match _h : barriers.find? (isTriggered k reqId) with
  | none => (barriers, [])
  | some e =>
    -- the list is looked at from its head again
    let rest := checkForEvents k reqId (barriers.erase e)
    (rest.1, e.triggerWith reqId :: rest.2)
termination_by barriers.length
decreasing_by
  have hmem := mem_of_find?_eq_some _h
  have hpos := length_pos_of_mem hmem
  rw [length_erase_of_mem hmem]
  omega

/-- `rpmh_client_command_finish`. -/
def commandFinish (h : Handle) (reqId : UInt32) : Handle × List Trigger :=
  if reqId ∈ h.client.cmdsInProgress then
    let client := h.client.commandFinish reqId
    let checked := checkForEvents client reqId h.barriers
    (⟨client, checked.1⟩, checked.2)
  else (h, [])

/-- The test of `rpmh_client_wait_on_cmd` and `rpmh_client_register_req_notification`. -/
def mustWait (k : Client) (reqId : UInt32) (barrierType : BarrierType) : Bool :=
  reqId ∈ k.cmdsInProgress || (barrierType.isAll && k.oldestReqId < reqId)

/-- `rpmh_client_wait_on_cmd` and `rpmh_client_register_req_notification`. Without a request to wait
for the thread goes on, or the callback is called, at once. -/
def register (h : Handle) (e : ActiveEvent) : Handle × List Trigger :=
  if mustWait h.client e.reqId e.barrierType then ({ h with barriers := h.barriers ++ [e] }, [])
  else (h, [e.triggerWith e.reqId])

/-- What happens to a client. -/
inductive Op
  | issue
  | complete (reqId : UInt32)
  | register (reqId : UInt32) (barrierType : BarrierType)

/-- A handle, with the requests that have completed, the waiters that there have been and who has
been triggered. -/
structure State where
  handle : Handle
  completed : List UInt32
  registered : List ActiveEvent
  triggered : List Trigger

/-- A handle as created. -/
def State.created (explicitCmds : Option (List CommandSet)) : State :=
  ⟨⟨.new explicitCmds, []⟩, [], [], []⟩

def State.after (s : State) : Op → State
  | .issue => { s with handle := { s.handle with client := s.handle.client.commandAdd } }
  | .complete reqId =>
    let done := commandFinish s.handle reqId
    { s with
      handle := done.1
      completed := if reqId ∈ s.handle.client.cmdsInProgress then s.completed ++ [reqId]
        else s.completed
      triggered := s.triggered ++ done.2 }
  | .register reqId barrierType =>
    let e : ActiveEvent := ⟨reqId, barrierType, s.registered.length⟩
    let done := register s.handle e
    { s with
      handle := done.1
      registered := s.registered ++ [e]
      triggered := s.triggered ++ done.2 }

/-- Waits are for requests that have been issued, and the ids do not reach `CMD_EMPTY`. -/
def Op.Allowed (s : State) : Op → Prop
  | .issue => s.handle.client.reqId.toNat + 1 < cmdEmpty.toNat
  | .complete _ => True
  | .register reqId _ => 0 < reqId.toNat ∧ reqId ≤ s.handle.client.reqId

/-- Every step is allowed. -/
def Allowed (s : State) : List Op → Prop
  | [] => True
  | op :: ops => op.Allowed s ∧ Allowed (s.after op) ops

/-- What a waiter waits for has happened. -/
def State.Due (s : State) (e : ActiveEvent) : Prop :=
  if e.barrierType.isAll then ∀ i : UInt32, 0 < i.toNat → i ≤ e.reqId → i ∈ s.completed
  else e.reqId ∈ s.completed

/-- **Everybody is awake who should be**: a waiter has been triggered once when what it waits for
has happened, a callback with the id that it was registered for, and not at all before. -/
def State.Woken (s : State) : Prop :=
  ∀ e ∈ s.registered,
    (s.Due e → s.triggered.filter (·.waiter = e.waiter) = [e.triggerWith e.reqId]) ∧
    (¬ s.Due e → s.triggered.filter (·.waiter = e.waiter) = [])

/-- Everybody is awake who should be in every state of a run. -/
def AlwaysWoken (s : State) : List Op → Prop
  | [] => s.Woken
  | op :: ops => s.Woken ∧ AlwaysWoken (s.after op) ops

/-- **When a completion triggers the right waiters**: those for this request alone are on the list
only if it is the newest of the client, those for another one alone only if it is not the newest,
and a callback for all requests up to one, with only this one left of them, is for this one. -/
def Handle.Fits (h : Handle) (reqId : UInt32) : Prop :=
  ∀ e ∈ h.barriers,
    (e.barrierType.isAll = false → (e.reqId = reqId ↔ h.client.reqId = reqId)) ∧
    (e.barrierType = .callbackAll →
      (∀ i ∈ h.client.cmdsInProgress, i ≤ e.reqId → i = reqId) → e.reqId = reqId)

def Op.Fits (s : State) : Op → Prop
  | .complete reqId => reqId ∈ s.handle.client.cmdsInProgress → s.handle.Fits reqId
  | .issue | .register .. => True

/-- Every completion triggers the right waiters. -/
def AllFit (s : State) : List Op → Prop
  | [] => True
  | op :: ops => op.Fits s ∧ AllFit (s.after op) ops

/-! ## The ids of a client -/

/-- The requests in progress are in the order of their ids, and the others have completed. -/
structure Orderly (k : Client) (completed : List UInt32) : Prop where
  sorted : k.cmdsInProgress.Pairwise (· < ·)
  issued : ∀ i ∈ k.cmdsInProgress, 0 < i.toNat ∧ i ≤ k.reqId
  done : ∀ i : UInt32, i ∈ completed ↔ 0 < i.toNat ∧ i ≤ k.reqId ∧ i ∉ k.cmdsInProgress
  oldest : k.oldestReqId = k.cmdsInProgress.headD cmdEmpty
  bound : k.reqId < cmdEmpty

section
variable {k : Client} {completed : List UInt32} {reqId r : UInt32}

theorem orderly_new (explicitCmds : Option (List CommandSet)) :
    Orderly (.new explicitCmds) [] where
  sorted := .nil
  issued := nofun
  done i := by
    constructor
    · exact nofun
    · rintro ⟨hpos, hle, -⟩
      rw [UInt32.le_iff_toNat_le] at hle
      exact absurd hle (Nat.not_le_of_lt hpos)
  oldest := rfl
  bound := show (0 : UInt32) < cmdEmpty by decide

/-- Which requests are older than the oldest one. -/
theorem Orderly.lt_oldest (h : Orderly k completed) (hr : r ≤ k.reqId) :
    r < k.oldestReqId ↔ ∀ i ∈ k.cmdsInProgress, r < i := by
  rw [h.oldest]
  have hsorted := h.sorted
  cases hcmds : k.cmdsInProgress with
  | nil => exact ⟨nofun, fun _ => UInt32.lt_of_le_of_lt hr h.bound⟩
  | cons first rest =>
    rw [hcmds] at hsorted
    constructor
    · intro hlt i hi
      rcases mem_cons.mp hi with rfl | hi
      · exact hlt
      · exact UInt32.lt_trans hlt (rel_of_pairwise_cons hsorted hi)
    · exact fun hall => hall first mem_cons_self

theorem Orderly.nodup (h : Orderly k completed) : k.cmdsInProgress.Nodup :=
  h.sorted.imp fun {a b} (hlt : a < b) => UInt32.ne_of_lt hlt

theorem Orderly.commandAdd (h : Orderly k completed)
    (hroom : k.reqId.toNat + 1 < cmdEmpty.toNat) : Orderly k.commandAdd completed := by
  have hempty : cmdEmpty.toNat = 2 ^ 32 - 1 := rfl
  have hnext : (k.reqId + 1).toNat = k.reqId.toNat + 1 := by
    rw [UInt32.toNat_add]
    show (k.reqId.toNat + 1) % 2 ^ 32 = _
    omega
  have hnew : k.reqId < k.reqId + 1 := by
    rw [UInt32.lt_iff_toNat_lt]
    omega
  constructor
  · show (k.cmdsInProgress ++ [k.reqId + 1]).Pairwise _
    refine pairwise_append.mpr ⟨h.sorted, pairwise_singleton .., fun i hi j hj => ?_⟩
    rw [mem_singleton.mp hj]
    exact UInt32.lt_of_le_of_lt (h.issued i hi).2 hnew
  · intro i hi
    rcases mem_append.mp hi with hi | hi
    · exact ⟨(h.issued i hi).1, UInt32.le_trans (h.issued i hi).2 (UInt32.le_of_lt hnew)⟩
    · rw [mem_singleton.mp hi]
      exact ⟨by omega, UInt32.le_refl _⟩
  · intro i
    show _ ↔ _ ∧ i ≤ k.reqId + 1 ∧ i ∉ k.cmdsInProgress ++ [k.reqId + 1]
    rw [h.done, mem_append, mem_singleton, not_or]
    constructor
    · rintro ⟨hpos, hle, hnot⟩
      exact ⟨hpos, UInt32.le_trans hle (UInt32.le_of_lt hnew), hnot,
        fun heq => UInt32.lt_irrefl _ (UInt32.lt_of_lt_of_le hnew (heq ▸ hle))⟩
    · rintro ⟨hpos, hle, hnot, hne⟩
      refine ⟨hpos, ?_, hnot⟩
      rw [UInt32.le_iff_toNat_le] at hle ⊢
      have hne := mt UInt32.toNat.inj hne
      omega
  · show (if k.oldestReqId < k.reqId + 1 then k.oldestReqId else k.reqId + 1) =
      (k.cmdsInProgress ++ [k.reqId + 1]).headD cmdEmpty
    rw [h.oldest]
    cases hcmds : k.cmdsInProgress with
    | nil =>
      refine if_neg fun hlt => ?_
      rw [UInt32.lt_iff_toNat_lt] at hlt
      have : ([] : List UInt32).headD cmdEmpty = cmdEmpty := rfl
      rw [this] at hlt
      omega
    | cons first rest =>
      have hle := (h.issued first (hcmds ▸ mem_cons_self)).2
      exact if_pos (UInt32.lt_of_le_of_lt hle hnew)
  · show k.reqId + 1 < cmdEmpty
    rw [UInt32.lt_iff_toNat_lt]
    omega

theorem commandFinish_client (hmem : reqId ∈ k.cmdsInProgress) :
    k.commandFinish reqId =
      { k with
        cmdsInProgress := k.cmdsInProgress.erase reqId
        oldestReqId := (k.cmdsInProgress.erase reqId).headD cmdEmpty
        numReqsInProgress := k.numReqsInProgress - 1 } := by
  rw [Client.commandFinish, if_pos hmem]

theorem Orderly.commandFinish (h : Orderly k completed) (hmem : reqId ∈ k.cmdsInProgress) :
    Orderly (k.commandFinish reqId) (completed ++ [reqId]) := by
  rw [commandFinish_client hmem]
  constructor
  · exact h.sorted.sublist erase_sublist
  · exact fun i hi => h.issued i (mem_of_mem_erase hi)
  · intro i
    show _ ↔ _ ∧ _ ∧ i ∉ k.cmdsInProgress.erase reqId
    rw [mem_append, mem_singleton, h.done, h.nodup.mem_erase_iff]
    constructor
    · rintro (⟨hpos, hle, hnot⟩ | rfl)
      · exact ⟨hpos, hle, fun hin => hnot hin.2⟩
      · exact ⟨(h.issued i hmem).1, (h.issued i hmem).2, fun hin => hin.1 rfl⟩
    · rintro ⟨hpos, hle, hnot⟩
      by_cases heq : i = reqId
      · exact .inr heq
      · exact .inl ⟨hpos, hle, fun hin => hnot ⟨heq, hin⟩⟩
  · rfl
  · exact h.bound

end

/-! ## The waiters -/

section
variable {k : Client} {reqId : UInt32}

/-- What starting again from the head comes to: who is to be triggered is, in their order. -/
theorem checkForEvents_eq (barriers : List ActiveEvent) :
    checkForEvents k reqId barriers =
      (barriers.filter (! isTriggered k reqId ·),
        (barriers.filter (isTriggered k reqId)).map (·.triggerWith reqId)) := by
  induction barriers using checkForEvents.induct k reqId with
  | case1 barriers hnone =>
    have hall := find?_eq_none.mp hnone
    rw [checkForEvents]
    split
    case h_2 e he => cases hnone.symm.trans he
    case h_1 =>
      have hleft : barriers.filter (! isTriggered k reqId ·) = barriers :=
        filter_eq_self.mpr fun e he => by simpa using hall e he
      have hwoken : barriers.filter (isTriggered k reqId) = [] := filter_eq_nil_iff.mpr hall
      rw [hleft, hwoken]
      rfl
  | case2 barriers e he ih =>
    rw [checkForEvents]
    split
    case h_1 hnone => cases he.symm.trans hnone
    case h_2 e' he' =>
      obtain rfl : e = e' := Option.some.inj (he.symm.trans he')
      obtain ⟨hmet, as, bs, rfl, has⟩ := find?_eq_some_iff_append.mp he
      have hnot : e ∉ as := fun hin => by simpa [hmet] using has e hin
      have herase : (as ++ e :: bs).erase e = as ++ bs := by
        rw [erase_append_right _ hnot, erase_cons_head]
      have hleft : as.filter (isTriggered k reqId) = [] :=
        filter_eq_nil_iff.mpr fun a ha => by simpa using has a ha
      rw [ih, herase]
      simp [filter_append, hmet, hleft]

end

/-- A waiter that is due, by the ids of the client. -/
theorem due_iff {s : State} (h : Orderly s.handle.client s.completed) {e : ActiveEvent}
    (hpos : 0 < e.reqId.toNat) (hle : e.reqId ≤ s.handle.client.reqId) :
    s.Due e ↔
      if e.barrierType.isAll then e.reqId < s.handle.client.oldestReqId
      else e.reqId ∉ s.handle.client.cmdsInProgress := by
  unfold State.Due
  split
  · rw [h.lt_oldest hle]
    constructor
    · intro hdone i hi
      refine UInt32.not_le.mp fun hle' => ?_
      exact ((h.done i).mp (hdone i (h.issued i hi).1 hle')).2.2 hi
    · intro hnewer i hi hle'
      refine (h.done i).mpr ⟨hi, UInt32.le_trans hle' hle, fun hin => ?_⟩
      exact UInt32.not_le.mpr (hnewer i hin) hle'
  · rw [h.done]
    exact ⟨fun hin => hin.2.2, fun hnot => ⟨hpos, hle, hnot⟩⟩

/-- The test before a wait finds out whether there is something to wait for. -/
theorem mustWait_iff {s : State} (h : Orderly s.handle.client s.completed) {e : ActiveEvent}
    (hpos : 0 < e.reqId.toNat) (hle : e.reqId ≤ s.handle.client.reqId) :
    mustWait s.handle.client e.reqId e.barrierType = true ↔ ¬ s.Due e := by
  rw [due_iff h hpos hle, mustWait]
  by_cases hall : e.barrierType.isAll = true
  · rw [if_pos hall, hall]
    simp only [Bool.true_and, Bool.or_eq_true, decide_eq_true_eq]
    have hself := h.lt_oldest hle
    constructor
    · rintro (hin | hlt) hold
      · exact UInt32.lt_irrefl _ (hself.mp hold _ hin)
      · exact UInt32.lt_asymm hlt hold
    · intro hold
      by_cases heq : s.handle.client.oldestReqId = e.reqId
      · -- the oldest one is the request itself
        left
        have hoff := h.oldest
        cases hcmds : s.handle.client.cmdsInProgress with
        | nil =>
          rw [hcmds] at hoff
          exact absurd h.bound
            (UInt32.not_lt.mpr (by rw [← show _ = cmdEmpty from hoff, heq]; exact hle))
        | cons first rest =>
          rw [hcmds] at hoff
          rw [← heq, hoff]
          exact mem_cons_self
      · exact .inr (UInt32.lt_of_le_of_ne (UInt32.not_lt.mp hold) heq)
  · rw [if_neg hall, Bool.eq_false_iff.mpr hall]
    simp

/-- **The invariant**: the waiters on the list are those whose request has not completed, and the
others have been triggered. -/
structure Tracks (s : State) : Prop where
  orderly : Orderly s.handle.client s.completed
  different : s.registered.Pairwise (·.waiter ≠ ·.waiter)
  numbered : ∀ e ∈ s.registered, e.waiter < s.registered.length
  known : ∀ t ∈ s.triggered, t.waiter < s.registered.length
  issued : ∀ e ∈ s.registered, 0 < e.reqId.toNat ∧ e.reqId ≤ s.handle.client.reqId
  listed : s.handle.barriers.Sublist s.registered
  waiting : ∀ e ∈ s.registered, e ∈ s.handle.barriers ↔ ¬ s.Due e
  woken : s.Woken

theorem tracks_created (explicitCmds : Option (List CommandSet)) :
    Tracks (.created explicitCmds) where
  orderly := orderly_new explicitCmds
  different := .nil
  numbered := nofun
  known := nofun
  issued := nofun
  listed := .slnil
  waiting := nofun
  woken := nofun

section
variable {s : State} {e : ActiveEvent}

/-- Waiters with one number are one. -/
theorem Tracks.eq_of_waiter (h : Tracks s) {e' : ActiveEvent} (he : e ∈ s.registered)
    (he' : e' ∈ s.registered) (heq : e.waiter = e'.waiter) : e = e' := by
  obtain ⟨i, hi, rfl⟩ := mem_iff_getElem.mp he
  obtain ⟨j, hj, rfl⟩ := mem_iff_getElem.mp he'
  have hdiff := pairwise_iff_getElem.mp h.different
  rcases Nat.lt_trichotomy i j with hlt | rfl | hlt
  · exact absurd heq (hdiff i j hi hj hlt)
  · rfl
  · exact absurd heq.symm (hdiff j i hj hi hlt)

/-- A client issues a request. -/
theorem Tracks.issue (h : Tracks s) (hallowed : Op.issue.Allowed s) : Tracks (s.after .issue) where
  orderly := h.orderly.commandAdd hallowed
  different := h.different
  numbered := h.numbered
  known := h.known
  issued e he := by
    refine ⟨(h.issued e he).1, UInt32.le_trans (h.issued e he).2 ?_⟩
    show _ ≤ s.handle.client.reqId + 1
    rw [UInt32.le_iff_toNat_le, UInt32.toNat_add]
    have hempty : cmdEmpty.toNat = 2 ^ 32 - 1 := rfl
    have hroom : s.handle.client.reqId.toNat + 1 < cmdEmpty.toNat := hallowed
    show _ ≤ (_ + 1) % 2 ^ 32
    omega
  listed := h.listed
  waiting := h.waiting
  woken := h.woken

/-- A waiter is registered. -/
theorem Tracks.register (h : Tracks s) {reqId : UInt32} {barrierType : BarrierType}
    (hallowed : (Op.register reqId barrierType).Allowed s) :
    Tracks (s.after (.register reqId barrierType)) := by
  let e : ActiveEvent := ⟨reqId, barrierType, s.registered.length⟩
  have hfresh : ∀ d ∈ s.registered, d.waiter ≠ e.waiter :=
    fun d hd => Nat.ne_of_lt (h.numbered d hd)
  have hunknown : s.triggered.filter (·.waiter = e.waiter) = [] :=
    filter_eq_nil_iff.mpr fun t ht => by
      simpa using Nat.ne_of_lt (h.known t ht)
  have hnew : e ∉ s.registered := fun hin => hfresh e hin rfl
  have hlen : (s.registered ++ [e]).length = s.registered.length + 1 := by simp
  have hmust := mustWait_iff h.orderly (e := e) hallowed.1 hallowed.2
  have hdifferent : (s.registered ++ [e]).Pairwise (·.waiter ≠ ·.waiter) := by
    refine pairwise_append.mpr ⟨h.different, pairwise_singleton .., fun d hd d' hd' => ?_⟩
    rw [mem_singleton.mp hd']
    exact hfresh d hd
  have hnumbered : ∀ d ∈ s.registered ++ [e], d.waiter < (s.registered ++ [e]).length := by
    intro d hd
    rw [hlen]
    rcases mem_append.mp hd with hd | hd
    · exact Nat.lt_succ_of_lt (h.numbered d hd)
    · rw [mem_singleton.mp hd]
      exact Nat.lt_succ_self _
  have hissued : ∀ d ∈ s.registered ++ [e], 0 < d.reqId.toNat ∧
      d.reqId ≤ s.handle.client.reqId := by
    intro d hd
    rcases mem_append.mp hd with hd | hd
    · exact h.issued d hd
    · rw [mem_singleton.mp hd]
      exact hallowed
  by_cases hwait : mustWait s.handle.client reqId barrierType = true
  · have hnot : ¬ s.Due e := hmust.mp hwait
    have hafter : s.after (.register reqId barrierType) =
        ⟨⟨s.handle.client, s.handle.barriers ++ [e]⟩, s.completed, s.registered ++ [e],
          s.triggered⟩ := by
      simp [State.after, Wait.register, hwait, e]
    rw [hafter]
    refine ⟨h.orderly, hdifferent, hnumbered, ?_, hissued, h.listed.append (.refl _), ?_, ?_⟩
    · exact fun t ht => hlen ▸ Nat.lt_succ_of_lt (h.known t ht)
    · intro d hd
      show d ∈ s.handle.barriers ++ [e] ↔ ¬ s.Due d
      rcases mem_append.mp hd with hd | hd
      · rw [← h.waiting d hd, mem_append, mem_singleton]
        exact or_iff_left fun heq => hnew (heq ▸ hd)
      · rw [mem_singleton.mp hd]
        exact iff_of_true (mem_append_right _ mem_cons_self) hnot
    · intro d hd
      rcases mem_append.mp hd with hd | hd
      · exact h.woken d hd
      · rw [mem_singleton.mp hd]
        exact ⟨fun hdue => absurd hdue hnot, fun _ => hunknown⟩
  · have hdue : s.Due e := Classical.not_not.mp fun hnot => hwait (hmust.mpr hnot)
    have hafter : s.after (.register reqId barrierType) =
        ⟨s.handle, s.completed, s.registered ++ [e], s.triggered ++ [e.triggerWith reqId]⟩ := by
      simp [State.after, Wait.register, hwait, e]
    rw [hafter]
    refine ⟨h.orderly, hdifferent, hnumbered, ?_, hissued,
      h.listed.trans (sublist_append_left ..), ?_, ?_⟩
    · intro t ht
      rw [hlen]
      rcases mem_append.mp ht with ht | ht
      · exact Nat.lt_succ_of_lt (h.known t ht)
      · rw [mem_singleton.mp ht]
        exact Nat.lt_succ_self _
    · intro d hd
      show d ∈ s.handle.barriers ↔ ¬ s.Due d
      rcases mem_append.mp hd with hd | hd
      · exact h.waiting d hd
      · rw [mem_singleton.mp hd]
        exact iff_of_false (fun hin => hnew (h.listed.subset hin)) (not_not_intro hdue)
    · intro d hd
      show (s.Due d → (s.triggered ++ [e.triggerWith reqId]).filter _ = _) ∧
        (¬ s.Due d → (s.triggered ++ [e.triggerWith reqId]).filter _ = _)
      rw [filter_append]
      rcases mem_append.mp hd with hd | hd
      · have hother : [e.triggerWith reqId].filter (·.waiter = d.waiter) = [] := by
          simpa [ActiveEvent.triggerWith] using (hfresh d hd).symm
        rw [hother, append_nil]
        exact h.woken d hd
      · rw [mem_singleton.mp hd]
        refine ⟨fun _ => ?_, fun hnot => absurd hdue hnot⟩
        rw [hunknown]
        simp [ActiveEvent.triggerWith, e]

end

/-! ## Completions -/

/-- The new triggers that are for one waiter. -/
theorem filter_triggers {l : List ActiveEvent} {reqId : UInt32} (e : ActiveEvent)
    (hdiff : l.Pairwise (·.waiter ≠ ·.waiter)) (he : e ∈ l) (p : ActiveEvent → Bool) :
    ((l.filter p).map (·.triggerWith reqId)).filter (·.waiter = e.waiter) =
      if p e then [e.triggerWith reqId] else [] := by
  induction l with
  | nil => cases he
  | cons d l ih =>
    obtain ⟨hd, hl⟩ := pairwise_cons.mp hdiff
    have hothers : ∀ b : ActiveEvent, (∀ a ∈ l, b.waiter ≠ a.waiter) →
        ((l.filter p).map (·.triggerWith reqId)).filter (·.waiter = b.waiter) = [] := by
      intro b hb
      refine filter_eq_nil_iff.mpr fun t ht => ?_
      obtain ⟨a, ha, rfl⟩ := mem_map.mp ht
      exact fun heq => hb a (mem_of_mem_filter ha) (of_decide_eq_true heq).symm
    rcases mem_cons.mp he with rfl | he
    · by_cases hp : p e = true
      · rw [filter_cons_of_pos hp, map_cons, filter_cons_of_pos (by
          simp [ActiveEvent.triggerWith]), hothers e hd, if_pos hp]
      · rw [filter_cons_of_neg hp, hothers e hd, if_neg hp]
    · have hne := hd e he
      by_cases hp : p d = true
      · have hother : ¬ decide ((d.triggerWith reqId).waiter = e.waiter) = true :=
          fun heq => hne (of_decide_eq_true heq)
        rw [filter_cons_of_pos hp, map_cons,
          filter_cons_of_neg (p := fun t : Trigger => decide (t.waiter = e.waiter)) hother,
          ih hl he]
      · rw [filter_cons_of_neg hp, ih hl he]

section
variable {s : State} {reqId : UInt32}

/-- The state after the completion of a request. -/
theorem after_complete (hmem : reqId ∈ s.handle.client.cmdsInProgress) :
    s.after (.complete reqId) =
      { s with
        handle := ⟨s.handle.client.commandFinish reqId,
          s.handle.barriers.filter (! isTriggered (s.handle.client.commandFinish reqId) reqId ·)⟩
        completed := s.completed ++ [reqId]
        triggered := s.triggered ++ (s.handle.barriers.filter
          (isTriggered (s.handle.client.commandFinish reqId) reqId)).map
            (·.triggerWith reqId) } := by
  rw [State.after, commandFinish, if_pos hmem, if_pos hmem]
  dsimp only
  rw [checkForEvents_eq]

/-- The completion of a request that is not in progress. -/
theorem after_complete_none (hmem : reqId ∉ s.handle.client.cmdsInProgress) :
    s.after (.complete reqId) = s := by
  rw [State.after, commandFinish, if_neg hmem, if_neg hmem, append_nil]

/-- A waiter on the list is triggered by a completion as it should be. -/
def WokenBy (s : State) (reqId : UInt32) (e : ActiveEvent) : Prop :=
  ((s.after (.complete reqId)).Due e ↔
      isTriggered (s.handle.client.commandFinish reqId) reqId e = true) ∧
    (isTriggered (s.handle.client.commandFinish reqId) reqId e = true →
      e.triggerWith reqId = e.triggerWith e.reqId)

/-- What was due stays due. -/
theorem Due.complete {e : ActiveEvent} (hmem : reqId ∈ s.handle.client.cmdsInProgress)
    (hdue : s.Due e) : (s.after (.complete reqId)).Due e := by
  rw [after_complete hmem]
  unfold State.Due at hdue ⊢
  split
  · rename_i hall
    rw [if_pos hall] at hdue
    exact fun i hpos hle => mem_append_left _ (hdue i hpos hle)
  · rename_i hall
    rw [if_neg hall] at hdue
    exact mem_append_left _ hdue

/-- The triggers of one waiter after a completion. -/
theorem Tracks.filter_after (h : Tracks s) (hmem : reqId ∈ s.handle.client.cmdsInProgress)
    {e : ActiveEvent} (he : e ∈ s.registered) :
    (s.after (.complete reqId)).triggered.filter (·.waiter = e.waiter) =
      s.triggered.filter (·.waiter = e.waiter) ++
        if e ∈ s.handle.barriers ∧
          isTriggered (s.handle.client.commandFinish reqId) reqId e = true
        then [e.triggerWith reqId] else [] := by
  rw [after_complete hmem]
  show (s.triggered ++ _).filter _ = _
  rw [filter_append]
  congr 1
  by_cases hin : e ∈ s.handle.barriers
  · rw [filter_triggers e (h.different.sublist h.listed) hin]
    simp [hin]
  · rw [if_neg fun hboth => hin hboth.1]
    refine filter_eq_nil_iff.mpr fun t ht => ?_
    obtain ⟨d, hd, rfl⟩ := mem_map.mp ht
    have hd := mem_of_mem_filter hd
    have hne : d.waiter ≠ e.waiter := fun heq =>
      hin (h.eq_of_waiter (h.listed.subset hd) he heq ▸ hd)
    exact fun heq => hne (of_decide_eq_true heq)

/-- **A completion keeps everybody awake who should be exactly when it triggers each waiter of the
list as it should.** -/
theorem Tracks.woken_after_iff (h : Tracks s) (hmem : reqId ∈ s.handle.client.cmdsInProgress) :
    (s.after (.complete reqId)).Woken ↔ ∀ e ∈ s.handle.barriers, WokenBy s reqId e := by
  have hregistered : (s.after (.complete reqId)).registered = s.registered := by
    rw [after_complete hmem]
  constructor
  · intro hwoken e hin
    have he := h.listed.subset hin
    have hnot := (h.waiting e he).mp hin
    obtain ⟨hyes, hno⟩ := hwoken e (hregistered ▸ he)
    rw [h.filter_after hmem he, (h.woken e he).2 hnot, nil_append] at hyes hno
    by_cases htrig : isTriggered (s.handle.client.commandFinish reqId) reqId e = true
    · rw [if_pos ⟨hin, htrig⟩] at hyes hno
      have hdue := Classical.not_not.mp fun hnot => cons_ne_nil _ _ (hno hnot)
      exact ⟨iff_of_true hdue htrig, fun _ => head_eq_of_cons_eq (hyes hdue)⟩
    · rw [if_neg fun hboth => htrig hboth.2] at hyes
      exact ⟨iff_of_false (fun hdue => cons_ne_nil _ _ (hyes hdue).symm) htrig,
        fun hpos => absurd hpos htrig⟩
  · intro hall e he
    rw [hregistered] at he
    rw [h.filter_after hmem he]
    by_cases hin : e ∈ s.handle.barriers
    · obtain ⟨hdue, hid⟩ := hall e hin
      rw [(h.woken e he).2 ((h.waiting e he).mp hin), nil_append, hdue]
      constructor
      · intro htrig
        rw [if_pos ⟨hin, htrig⟩, hid htrig]
      · intro htrig
        rw [if_neg fun hboth => htrig hboth.2]
    · have hdue : s.Due e := Classical.not_not.mp fun hnot => hin ((h.waiting e he).mpr hnot)
      rw [if_neg fun hboth => hin hboth.1, append_nil]
      exact ⟨fun _ => (h.woken e he).1 hdue, fun hnot => absurd (Due.complete hmem hdue) hnot⟩

/-- The two conditions on a completion agree. -/
theorem Tracks.fits_iff (h : Tracks s) (hmem : reqId ∈ s.handle.client.cmdsInProgress) :
    s.handle.Fits reqId ↔ ∀ e ∈ s.handle.barriers, WokenBy s reqId e := by
  refine forall₂_congr fun e hin => ?_
  have he := h.listed.subset hin
  obtain ⟨hpos, hle⟩ := h.issued e he
  have hnot := (h.waiting e he).mp hin
  have hafter : Orderly (s.after (.complete reqId)).handle.client
      (s.after (.complete reqId)).completed := by
    rw [after_complete hmem]
    exact h.orderly.commandFinish hmem
  have hclient : (s.after (.complete reqId)).handle.client =
      s.handle.client.commandFinish reqId := by rw [after_complete hmem]
  have hids : (s.handle.client.commandFinish reqId).reqId = s.handle.client.reqId := by
    rw [commandFinish_client hmem]
  have hcmds : (s.handle.client.commandFinish reqId).cmdsInProgress =
      s.handle.client.cmdsInProgress.erase reqId := by rw [commandFinish_client hmem]
  have hdue := due_iff hafter hpos (by rw [hclient, hids]; exact hle)
  rw [hclient] at hdue
  rw [WokenBy, hdue]
  by_cases hall : e.barrierType.isAll = true
  · have htrig : isTriggered (s.handle.client.commandFinish reqId) reqId e = true ↔
        e.reqId < (s.handle.client.commandFinish reqId).oldestReqId := by
      simp [isTriggered, hall]
    rw [if_pos hall, htrig]
    have holdest : e.reqId < (s.handle.client.commandFinish reqId).oldestReqId ↔
        ∀ i ∈ s.handle.client.cmdsInProgress, i ≤ e.reqId → i = reqId := by
      rw [← hclient, hafter.lt_oldest (by rw [hclient, hids]; exact hle), hclient, hcmds]
      constructor
      · intro hlt i hi hle'
        refine Classical.not_not.mp fun hne => ?_
        exact UInt32.not_le.mpr (hlt i ((mem_erase_of_ne hne).mpr hi)) hle'
      · intro honly i hi
        obtain ⟨hne, hi⟩ := h.orderly.nodup.mem_erase_iff.mp hi
        exact UInt32.not_le.mp fun hle' => hne (honly i hi hle')
    rw [holdest]
    constructor
    · rintro ⟨-, hcall⟩
      refine ⟨Iff.rfl, fun honly => ?_⟩
      cases htype : e.barrierType with
      | callbackAll => rw [hcall htype honly]
      | barrierAll => simp [ActiveEvent.triggerWith, htype, BarrierType.isCallback]
      | barrierSingle => simp [htype, BarrierType.isAll] at hall
      | callbackSingle => simp [htype, BarrierType.isAll] at hall
    · rintro ⟨-, hcall⟩
      refine ⟨fun hnone => absurd hall (by rw [hnone]; decide), fun htype honly => ?_⟩
      have hsame := hcall honly
      simp only [ActiveEvent.triggerWith, htype, BarrierType.isCallback, if_true] at hsame
      injection hsame with _ hsame
      exact (Option.some.inj hsame).symm
  · have hnall := Bool.eq_false_iff.mpr hall
    have htrig : isTriggered (s.handle.client.commandFinish reqId) reqId e = true ↔
        s.handle.client.reqId = reqId := by
      simp [isTriggered, hnall, hids]
    have hin : e.reqId ∈ s.handle.client.cmdsInProgress := by
      have hdue := due_iff h.orderly hpos hle
      rw [if_neg hall] at hdue
      exact Classical.not_not.mp fun hout => hnot (hdue.mpr hout)
    have hout : e.reqId ∉ (s.handle.client.commandFinish reqId).cmdsInProgress ↔
        e.reqId = reqId := by
      rw [hcmds, h.orderly.nodup.mem_erase_iff]
      constructor
      · exact fun hne => Classical.not_not.mp fun hdiff => hne ⟨hdiff, hin⟩
      · exact fun heq hboth => hboth.1 heq
    rw [if_neg hall, htrig, hout]
    constructor
    · rintro ⟨hiff, -⟩
      exact ⟨hiff hnall, fun hnewest => by rw [(hiff hnall).mpr hnewest]⟩
    · rintro ⟨hiff, -⟩
      exact ⟨fun _ => hiff, fun htype => absurd (by rw [htype]; rfl) hall⟩

/-- A completion that triggers the right waiters. -/
theorem Tracks.complete (h : Tracks s) (hfits : (Op.complete reqId).Fits s) :
    Tracks (s.after (.complete reqId)) := by
  by_cases hmem : reqId ∈ s.handle.client.cmdsInProgress
  · have hall := (h.fits_iff hmem).mp (hfits hmem)
    have hwoken := (h.woken_after_iff hmem).mpr hall
    have heq := after_complete hmem
    have hdue : ∀ e ∈ s.registered,
        e ∈ s.handle.barriers.filter
            (! isTriggered (s.handle.client.commandFinish reqId) reqId ·) ↔
          ¬ (s.after (.complete reqId)).Due e := by
      intro e he
      rw [mem_filter]
      by_cases hin : e ∈ s.handle.barriers
      · rw [(hall e hin).1]
        simp [hin]
      · have hbefore := Classical.not_not.mp fun hnot => hin ((h.waiting e he).mpr hnot)
        exact iff_of_false (fun hboth => hin hboth.1) (not_not_intro (Due.complete hmem hbefore))
    rw [heq] at hwoken hdue ⊢
    refine ⟨h.orderly.commandFinish hmem, h.different, h.numbered, ?_, ?_,
      filter_sublist.trans h.listed, hdue, hwoken⟩
    · intro t ht
      rcases mem_append.mp ht with ht | ht
      · exact h.known t ht
      · obtain ⟨e, he, rfl⟩ := mem_map.mp ht
        exact h.numbered e (h.listed.subset (mem_of_mem_filter he))
    · intro e he
      show _ ∧ e.reqId ≤ (s.handle.client.commandFinish reqId).reqId
      rw [commandFinish_client hmem]
      exact h.issued e he
  · rw [after_complete_none hmem]
    exact h

/-- One step of a run. -/
theorem Tracks.step (h : Tracks s) {op : Op} (hallowed : op.Allowed s) :
    op.Fits s ↔ (s.after op).Woken := by
  cases op with
  | issue => exact iff_of_true trivial (h.issue hallowed).woken
  | register reqId barrierType => exact iff_of_true trivial (h.register hallowed).woken
  | complete reqId =>
    by_cases hmem : reqId ∈ s.handle.client.cmdsInProgress
    · rw [h.woken_after_iff hmem, ← h.fits_iff hmem]
      exact ⟨fun hfits => hfits hmem, fun hfits _ => hfits⟩
    · rw [after_complete_none hmem]
      exact iff_of_true (fun hin => absurd hin hmem) h.woken

theorem Tracks.after (h : Tracks s) {op : Op} (hallowed : op.Allowed s) (hfits : op.Fits s) :
    Tracks (s.after op) := by
  cases op with
  | issue => exact h.issue hallowed
  | register reqId barrierType => exact h.register hallowed
  | complete reqId => exact h.complete hfits

/-- A run from a state of the invariant. -/
theorem Tracks.run (h : Tracks s) {ops : List Op} (hallowed : Allowed s ops) :
    AlwaysWoken s ops ↔ AllFit s ops := by
  induction ops generalizing s with
  | nil => exact iff_of_true h.woken trivial
  | cons op ops ih =>
    constructor
    · rintro ⟨-, hrest⟩
      have hwoken : (s.after op).Woken := by
        cases ops with
        | nil => exact hrest
        | cons => exact hrest.1
      have hfits := (h.step hallowed.1).mpr hwoken
      exact ⟨hfits, (ih (h.after hallowed.1 hfits) hallowed.2).mp hrest⟩
    · rintro ⟨hfits, hrest⟩
      exact ⟨h.woken, (ih (h.after hallowed.1 hfits) hallowed.2).mpr hrest⟩

end

/-- **In every run the waiters of a client wake when they should exactly as long as each completion
triggers the right ones.** -/
theorem alwaysWoken_iff_allFit (explicitCmds : Option (List CommandSet)) {ops : List Op}
    (hallowed : Allowed (.created explicitCmds) ops) :
    AlwaysWoken (.created explicitCmds) ops ↔ AllFit (.created explicitCmds) ops :=
  (tracks_created explicitCmds).run hallowed

/-- Two requests, a thread that waits for the newer one and a callback for both; the newer one
completes. -/
def twoWaiters : List Op :=
  [.issue, .issue, .register 2 .barrierSingle, .register 2 .callbackAll, .complete 2, .issue]

/-- The thread wakes, the callback stays. -/
theorem alwaysWoken_iff_allFit_one : AlwaysWoken (.created none) twoWaiters := by
  have hallowed : Allowed (.created none) twoWaiters :=
    ⟨show 0 + 1 < cmdEmpty.toNat by decide, show 1 + 1 < cmdEmpty.toNat by decide,
      ⟨by decide, show (2 : UInt32) ≤ 2 by decide⟩, ⟨by decide, show (2 : UInt32) ≤ 2 by decide⟩,
      trivial, show 2 + 1 < cmdEmpty.toNat by decide, trivial⟩
  refine (alwaysWoken_iff_allFit none hallowed).mpr
    ⟨trivial, trivial, trivial, trivial, fun _ => ?_, trivial, trivial⟩
  rintro e (_ | ⟨_, _ | ⟨_, hnil⟩⟩)
  · exact ⟨fun _ => Iff.rfl, nofun⟩
  · exact ⟨nofun, fun _ _ => rfl⟩
  · cases hnil

/-- **A thread wakes though its request is in progress, and stays asleep when it completes.** Two
requests are issued and the first one is waited for: the completion of the second one triggers the
wait. With the completions the other way round the wait is not triggered by its own. -/
theorem wakes_for_another :
    Allowed (.created none) [.issue, .issue, .register 1 .barrierSingle, .complete 2] ∧
      ¬ AlwaysWoken (.created none) [.issue, .issue, .register 1 .barrierSingle, .complete 2] ∧
      ¬ AlwaysWoken (.created none) [.issue, .issue, .register 1 .barrierSingle, .complete 1] := by
  have hallowed : ∀ i : UInt32, Allowed (.created none)
      [.issue, .issue, .register 1 .barrierSingle, .complete i] := fun i =>
    ⟨show 0 + 1 < cmdEmpty.toNat by decide, show 1 + 1 < cmdEmpty.toNat by decide,
      ⟨by decide, show (1 : UInt32) ≤ 2 by decide⟩, trivial, trivial⟩
  refine ⟨hallowed 2, ?_, ?_⟩
  · rw [alwaysWoken_iff_allFit none (hallowed 2)]
    rintro ⟨-, -, -, hfits, -⟩
    have hone := (hfits (by decide) ⟨1, .barrierSingle, 0⟩ (by decide)).1 rfl
    exact absurd (hone.mpr (by decide)) (by decide)
  · rw [alwaysWoken_iff_allFit none (hallowed 1)]
    rintro ⟨-, -, -, hfits, -⟩
    have hone := (hfits (by decide) ⟨1, .barrierSingle, 0⟩ (by decide)).1 rfl
    exact absurd (hone.mp rfl) (by decide)

end Rpmh.Wait
