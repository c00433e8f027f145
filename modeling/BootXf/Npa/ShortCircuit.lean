import BootXf.Lib.Run
import BootXf.Npa.Request

/-!
# Redundant requests are short-circuited

A client compares a request with its active one and does not issue it when the two are the same,
unless `issue_request` points at one of the unconditional functions. These set the pointer back
after the request, and the request, when it is fire-and-forget, sets it to an unconditional function
while it is processed: the order of the assignments decides which of them is lost. This module has
what decides it for one client, synchronous or asynchronous; a request of an asynchronous client
is processed by the workloop, at any time after the event has been triggered, so also before the
caller has set the pointer back.
-/

namespace Npa.ShortCircuit

open Lib

/-- What `issue_request` points at. -/
inductive IssueFcn
  | sync | syncUnconditional | async | asyncUnconditional
  deriving DecidableEq

/-- What became of a request when `issue_request` returned. -/
inductive Service
  | processed | enqueued | redundant
  deriving DecidableEq

/-- The two ways to create a client. -/
inductive Kind
  | sync | async
  deriving DecidableEq

/-- The part of `npa_client` that short-circuiting reads and writes, with values of any type.
`enqueued` is the event between its trigger and the workloop; `resetting` is the caller inside
`npa_enqueue_async_request_unconditional`, before the assignment that follows the request. -/
@[ext]
structure Issuer (V : Type) where
  active : V
  pending : V
  sequence : UInt32
  fireAndForget : Bool
  issueRequest : IssueFcn
  enqueued : Bool
  resetting : Bool
  deriving DecidableEq

/-- The function that a client is created with. -/
def Kind.requestFcn : Kind → IssueFcn
  | .sync => .syncUnconditional
  | .async => .asyncUnconditional

/-- How a client of a kind is serviced. -/
def Kind.service : Kind → Service
  | .sync => .processed
  | .async => .enqueued

variable {V : Type}

/-- `npa_new_client`, `zero` being the value of a cleared request. -/
def Issuer.new (zero : V) (kind : Kind) : Issuer V :=
  ⟨zero, zero, 0, false, kind.requestFcn, false, false⟩

/-! ## The functions -/

/-- `npa_set_next_request_passthrough`, the client's part. -/
def npaSetNextRequestPassthrough (c : Issuer V) : Issuer V :=
  { c with
    issueRequest := if c.issueRequest = .async then .asyncUnconditional else .syncUnconditional }

/-- `_npa_request_serviced`. -/
def npaRequestServiced (c : Issuer V) : Issuer V := { c with fireAndForget := false }

/-- `npa_process_request`, for an update function that leaves `pending` in the pending slot and a
resource whose sequence number is `sequence`. -/
def npaProcessRequest (c : Issuer V) (pending : V) (sequence : UInt32) : Issuer V :=
  let c := { c with
    active := pending
    pending := c.active
    sequence := sequence + sequenceIncrement }
  npaRequestServiced (if c.fireAndForget then npaSetNextRequestPassthrough c else c)

/-- The branch of a request that is not new, the same in both functions. -/
def completeRedundant (c : Issuer V) : Issuer V :=
  npaRequestServiced { c with sequence := c.sequence ||| redundantRequest }

/-- `npa_issue_sync_request`. -/
def npaIssueSyncRequest (c : Issuer V) (newRequest : Bool) (pending : V) (sequence : UInt32) :
    Issuer V × Service :=
  if newRequest then (npaProcessRequest c pending sequence, .processed)
  else (completeRedundant c, .redundant)

/-- `npa_issue_sync_request_unconditional`. -/
def npaIssueSyncRequestUnconditional (c : Issuer V) (newRequest : Bool) (pending : V)
    (sequence : UInt32) : Issuer V × Service :=
  if c.sequence = 0 ∨ c.fireAndForget = false then
    let (c, service) := npaIssueSyncRequest c true pending sequence
    ({ c with issueRequest := .sync }, service)
  else npaIssueSyncRequest c newRequest pending sequence

/-- `npa_enqueue_async_request`. -/
def npaEnqueueAsyncRequest (c : Issuer V) (newRequest : Bool) : Issuer V × Service :=
  if newRequest then ({ c with enqueued := true }, .enqueued)
  else (completeRedundant c, .redundant)

/-- `npa_enqueue_async_request_unconditional`, up to the assignment after the request. -/
def npaEnqueueAsyncRequestUnconditional (c : Issuer V) (newRequest : Bool) :
    Issuer V × Service :=
  if c.sequence = 0 ∨ c.fireAndForget = false then
    let (c, service) := npaEnqueueAsyncRequest c true
    ({ c with resetting := true }, service)
  else npaEnqueueAsyncRequest c newRequest

/-- `client->issue_request( client, new_request )`. -/
def issueRequest (c : Issuer V) (newRequest : Bool) (pending : V) (sequence : UInt32) :
    Issuer V × Service :=
  match c.issueRequest with
  | .sync => npaIssueSyncRequest c newRequest pending sequence
  | .syncUnconditional => npaIssueSyncRequestUnconditional c newRequest pending sequence
  | .async => npaEnqueueAsyncRequest c newRequest
  | .asyncUnconditional => npaEnqueueAsyncRequestUnconditional c newRequest

/-! ## Runs of a client -/

/-- What happens to a client. A request comes with its value, with whether the function that issues
it takes it as new in any case, and with what its processing finds. -/
inductive Op (V : Type)
  | setRequestAttribute
  | issue (value : V) (unconditional : Bool) (pending : V) (sequence : UInt32)
  | workloop (pending : V) (sequence : UInt32)
  | reset

/-- What a run shows of it: a request with its attribute, its value, the active value before it and
how it was serviced, and the attribute of what the workloop processed. -/
inductive Event (V : Type)
  | attribute
  | issued (fireAndForget : Bool) (value active : V) (service : Service)
  | processed (fireAndForget : Bool)
  | reset

/-- The next request waits for the one before it, as `npa_create_async_client_cb` asks the user
to. -/
def Op.apply [DecidableEq V] (c : Issuer V) : Op V → Option (Issuer V × Event V)
  | .setRequestAttribute => some ({ c with fireAndForget := true }, .attribute)
  | .issue value unconditional pending sequence =>
    if c.enqueued ∨ c.resetting then none
    else
      let r := issueRequest { c with pending := value } (unconditional || c.active != value)
        pending sequence
      some (r.1, .issued c.fireAndForget value c.active r.2)
  | .workloop pending sequence =>
    if c.enqueued then
      some ({ npaProcessRequest c pending sequence with enqueued := false },
        .processed c.fireAndForget)
    else none
  | .reset =>
    if c.resetting then some ({ c with issueRequest := .async, resetting := false }, .reset)
    else none

/-- The steps of a client that meet a condition. -/
def Step [DecidableEq V] (P : Issuer V → Op V → Prop) (c : Issuer V) (e : Event V)
    (t : Issuer V) : Prop :=
  ∃ op, P c op ∧ op.apply c = some (t, e)

/-- No request has been issued. -/
def First : List (Event V) → Prop
  | [] => True
  | .issued _ _ _ _ :: _ => False
  | _ :: h => First h

/-- A fire-and-forget request has been processed, and no other request has been issued since. -/
def Owed : List (Event V) → Prop
  | [] => False
  | .issued fireAndForget _ _ service :: h =>
    fireAndForget = true ∧ (service = .processed ∨ Owed h)
  | .processed fireAndForget :: h => fireAndForget = true ∨ Owed h
  | _ :: h => Owed h

/-- What a request has to show after a history: the first one, and the first one that is not
fire-and-forget after one that is, are passed through; one that is skipped has the active value;
and it is serviced as the client was created. -/
structure Passes (kind : Kind) (h : List (Event V)) (fireAndForget : Bool) (value active : V)
    (service : Service) : Prop where
  first : First h → service ≠ .redundant
  owed : Owed h → fireAndForget = false → service ≠ .redundant
  redundant : service = .redundant → value = active
  kind : service = .redundant ∨ service = kind.service

/-- Every request of a history is serviced as it has to be. -/
def Kept (kind : Kind) : List (Event V) → Prop
  | [] => True
  | .issued fireAndForget value active service :: h =>
    Passes kind h fireAndForget value active service ∧ Kept kind h
  | _ :: h => Kept kind h

/-- When no assignment to the pointer is lost: the synchronous function is not left to set the
pointer back after a fire-and-forget request, and the workloop finds the function that
`npa_set_next_request_passthrough` compares with. -/
def Op.Meets (c : Issuer V) : Op V → Prop
  | .issue _ _ _ _ =>
    c.fireAndForget = true → c.issueRequest = .syncUnconditional → c.sequence ≠ 0
  | .workloop _ _ => c.fireAndForget = true → c.issueRequest = .async
  | _ => True

/-! ## What issuing a request does -/

section
variable {c : Issuer V} (newRequest : Bool) (pending : V) (sequence : UInt32)

@[simp] theorem npaProcessRequest_issueRequest :
    (npaProcessRequest c pending sequence).issueRequest =
      if c.fireAndForget then
        if c.issueRequest = .async then .asyncUnconditional else .syncUnconditional
      else c.issueRequest := by
  unfold npaProcessRequest npaRequestServiced npaSetNextRequestPassthrough
  cases c.fireAndForget <;> rfl

@[simp] theorem npaProcessRequest_enqueued :
    (npaProcessRequest c pending sequence).enqueued = c.enqueued := by
  unfold npaProcessRequest npaRequestServiced npaSetNextRequestPassthrough
  cases c.fireAndForget <;> rfl

@[simp] theorem npaProcessRequest_resetting :
    (npaProcessRequest c pending sequence).resetting = c.resetting := by
  unfold npaProcessRequest npaRequestServiced npaSetNextRequestPassthrough
  cases c.fireAndForget <;> rfl

@[simp] theorem npaProcessRequest_fireAndForget :
    (npaProcessRequest c pending sequence).fireAndForget = false := by
  unfold npaProcessRequest npaRequestServiced
  cases c.fireAndForget <;> rfl

/-- A new request through the unconditional synchronous function. -/
theorem issueRequest_syncUnconditional (fcn : c.issueRequest = .syncUnconditional) :
    (issueRequest c true pending sequence).2 = .processed := by
  by_cases hc : c.sequence = 0 ∨ c.fireAndForget = false
  all_goals simp [issueRequest, fcn, npaIssueSyncRequestUnconditional, hc, npaIssueSyncRequest]

/-- A synchronous client's request, when no assignment is lost: it is processed, and the pointer
says afterwards whether it was fire-and-forget; or it is skipped, and the pointer stays. -/
theorem issueRequest_sync (fcn : c.issueRequest = .sync ∨ c.issueRequest = .syncUnconditional)
    (kept : c.fireAndForget = true → c.issueRequest = .syncUnconditional → c.sequence ≠ 0) :
    let r := issueRequest c newRequest pending sequence
    (r.1.enqueued = c.enqueued ∧ r.1.resetting = c.resetting) ∧
    (r.2 = .processed ∧
        r.1.issueRequest = (if c.fireAndForget then .syncUnconditional else .sync) ∨
      r.2 = .redundant ∧ newRequest = false ∧ r.1.issueRequest = c.issueRequest ∧
        (c.issueRequest = .syncUnconditional → c.fireAndForget = true ∧ c.sequence ≠ 0)) := by
  rcases fcn with fcn | fcn
  · cases newRequest with
    | false => simp [issueRequest, fcn, npaIssueSyncRequest, completeRedundant, npaRequestServiced]
    | true => simp [issueRequest, fcn, npaIssueSyncRequest]
  · cases hf : c.fireAndForget with
    | false =>
      simp [issueRequest, fcn, npaIssueSyncRequestUnconditional, hf, npaIssueSyncRequest]
    | true =>
      have hq := kept hf fcn
      cases newRequest with
      | false =>
        simp [issueRequest, fcn, npaIssueSyncRequestUnconditional, hf, hq, npaIssueSyncRequest,
          completeRedundant, npaRequestServiced]
      | true =>
        simp [issueRequest, fcn, npaIssueSyncRequestUnconditional, hf, hq, npaIssueSyncRequest]

/-- An asynchronous client's request: it is enqueued, and only through the unconditional function
is the pointer to be set back; or it is skipped, and the pointer stays. -/
theorem issueRequest_async (fcn : c.issueRequest = .async ∨ c.issueRequest = .asyncUnconditional)
    (idle : c.enqueued = false) (returned : c.resetting = false) :
    let r := issueRequest c newRequest pending sequence
    r.1.issueRequest = c.issueRequest ∧
    (r.2 = .enqueued ∧ r.1.enqueued = true ∧ r.1.fireAndForget = c.fireAndForget ∧
        (r.1.resetting = true → c.issueRequest = .asyncUnconditional) ∨
      r.2 = .redundant ∧ newRequest = false ∧ r.1.enqueued = false ∧ r.1.resetting = false ∧
        (c.issueRequest = .asyncUnconditional → c.fireAndForget = true ∧ c.sequence ≠ 0)) := by
  rcases fcn with fcn | fcn
  · cases newRequest with
    | false =>
      simp [issueRequest, fcn, npaEnqueueAsyncRequest, completeRedundant, npaRequestServiced, idle,
        returned]
    | true => simp [issueRequest, fcn, npaEnqueueAsyncRequest, returned]
  · by_cases hc : c.sequence = 0 ∨ c.fireAndForget = false
    · simp [issueRequest, fcn, npaEnqueueAsyncRequestUnconditional, hc, npaEnqueueAsyncRequest]
    · obtain ⟨hq, hf⟩ := not_or.mp hc
      have hf : c.fireAndForget = true := by simpa using hf
      cases newRequest with
      | false =>
        simp [issueRequest, fcn, npaEnqueueAsyncRequestUnconditional, hq, hf,
          npaEnqueueAsyncRequest, completeRedundant, npaRequestServiced, idle, returned]
      | true =>
        simp [issueRequest, fcn, npaEnqueueAsyncRequestUnconditional, hq, hf,
          npaEnqueueAsyncRequest]

end

/-! ## The invariants -/

/-- What the pointer of a synchronous client says about its history. -/
structure SyncPointer (h : List (Event V)) (c : Issuer V) : Prop where
  fcn : c.issueRequest = .sync ∨ c.issueRequest = .syncUnconditional
  idle : c.enqueued = false
  returned : c.resetting = false
  first : First h → c.issueRequest = .syncUnconditional ∧ c.sequence = 0
  owed : Owed h → c.issueRequest = .syncUnconditional

/-- What the pointer of an asynchronous client says about its history. While a fire-and-forget
request waits for the workloop, the pointer may be on its way back. -/
structure AsyncPointer (h : List (Event V)) (c : Issuer V) : Prop where
  fcn : c.issueRequest = .async ∨ c.issueRequest = .asyncUnconditional
  unreturned : c.resetting = true → c.issueRequest = .asyncUnconditional
  first : First h →
    c.issueRequest = .asyncUnconditional ∧ c.sequence = 0 ∧ c.enqueued = false ∧
      c.resetting = false
  owed : Owed h →
    c.issueRequest = .asyncUnconditional ∧ c.resetting = false ∨
      c.enqueued = true ∧ c.fireAndForget = true

/-- The invariant of a client created with either function. -/
def Pointer : Kind → List (Event V) → Issuer V → Prop
  | .sync => SyncPointer
  | .async => AsyncPointer

/-- A new client's pointer. -/
theorem Pointer.new (zero : V) (kind : Kind) : Pointer kind [] (Issuer.new zero kind) := by
  cases kind with
  | sync => exact ⟨.inr rfl, rfl, rfl, fun _ => ⟨rfl, rfl⟩, fun h => h.elim⟩
  | async => exact ⟨.inr rfl, fun _ => rfl, fun _ => ⟨rfl, rfl, rfl, rfl⟩, fun h => h.elim⟩

section
variable [DecidableEq V] {h : List (Event V)} {c t : Issuer V} {e : Event V} {op : Op V}
  {unconditional : Bool} {value active : V} {kind : Kind}

/-- A request that is issued. -/
theorem Op.apply_issue {value : V} {pending : V} {sequence : UInt32}
    (happly : (Op.issue value unconditional pending sequence).apply c = some (t, e)) :
    (c.enqueued = false ∧ c.resetting = false) ∧
    ∃ r, r = issueRequest { c with pending := value } (unconditional || c.active != value)
        pending sequence ∧
      t = r.1 ∧ e = .issued c.fireAndForget value c.active r.2 := by
  simp only [Op.apply] at happly
  split at happly
  · cases happly
  · next hidle =>
    cases happly
    exact ⟨by simpa using hidle, _, rfl, rfl, rfl⟩

/-- A request that is not taken as new has the active value. -/
theorem eq_of_not_new (hnew : (unconditional || active != value) = false) : value = active := by
  simp only [Bool.or_eq_false_iff, bne_eq_false_iff_eq] at hnew
  exact hnew.2.symm

omit [DecidableEq V] in
/-- Between two requests the pointer of an asynchronous client has what is owed. -/
theorem AsyncPointer.owedIdle (inv : AsyncPointer h c) (hidle : c.enqueued = false)
    (how : Owed h) : c.issueRequest = .asyncUnconditional ∧ c.resetting = false := by
  obtain hp | ⟨hen, -⟩ := inv.owed how
  · exact hp
  · simp [hidle] at hen

/-- A step of a synchronous client. -/
theorem SyncPointer.step (inv : SyncPointer h c) (meets : op.Meets c)
    (happly : op.apply c = some (t, e)) :
    SyncPointer (e :: h) t ∧ (Kept .sync h → Kept .sync (e :: h)) := by
  cases op with
  | setRequestAttribute =>
    cases happly
    exact ⟨⟨inv.fcn, inv.idle, inv.returned, inv.first, inv.owed⟩, id⟩
  | workloop pending sequence => simp [Op.apply, inv.idle] at happly
  | reset => simp [Op.apply, inv.returned] at happly
  | issue value unconditional pending sequence =>
    obtain ⟨-, r, hr, rfl, rfl⟩ := Op.apply_issue happly
    obtain ⟨⟨hen, hre⟩, hcase⟩ := issueRequest_sync (c := { c with pending := value })
      (unconditional || c.active != value) pending sequence inv.fcn meets
    rw [← hr] at hen hre hcase
    obtain ⟨hs, hptr⟩ | ⟨hs, hnew, hptr, hun⟩ := hcase
    · refine ⟨⟨?_, hen.trans inv.idle, hre.trans inv.returned, fun h => h.elim, fun how => ?_⟩,
        fun hk => ⟨⟨?_, ?_, ?_, .inr hs⟩, hk⟩⟩
      · rw [hptr]
        split <;> simp
      · rw [hptr]
        exact if_pos how.1
      all_goals simp [hs]
    · refine ⟨⟨hptr ▸ inv.fcn, hen.trans inv.idle, hre.trans inv.returned, fun h => h.elim,
        fun how => ?_⟩, fun hk => ⟨⟨fun hfirst => ?_, fun how hf => ?_, fun _ => ?_, .inl hs⟩, hk⟩⟩
      · obtain ⟨-, hproc | how⟩ := how
        · simp [hs] at hproc
        · rw [hptr]
          exact inv.owed how
      · obtain ⟨hp, hq⟩ := inv.first hfirst
        exact absurd hq (hun hp).2
      · have hf' := (hun (inv.owed how)).1
        simp [hf] at hf'
      · exact eq_of_not_new hnew

/-- A step of an asynchronous client. -/
theorem AsyncPointer.step (inv : AsyncPointer h c) (meets : op.Meets c)
    (happly : op.apply c = some (t, e)) :
    AsyncPointer (e :: h) t ∧ (Kept .async h → Kept .async (e :: h)) := by
  cases op with
  | setRequestAttribute =>
    cases happly
    exact ⟨⟨inv.fcn, inv.unreturned, inv.first,
      fun how => (inv.owed how).imp_right fun hw => ⟨hw.1, rfl⟩⟩, id⟩
  | workloop pending sequence =>
    simp only [Op.apply] at happly
    split at happly
    · next hen =>
      cases happly
      have hfirst : ¬ First h := fun hf => by simp [(inv.first hf).2.2.1] at hen
      cases hf : c.fireAndForget with
      | true =>
        have hasync : c.issueRequest = .async := meets hf
        have hret : c.resetting = false := by
          cases hre : c.resetting with
          | false => rfl
          | true => simp [inv.unreturned hre] at hasync
        have hptr : (npaProcessRequest c pending sequence).issueRequest = .asyncUnconditional := by
          simp [hf, hasync]
        exact ⟨⟨.inr hptr, fun _ => hptr, fun h => absurd h hfirst,
          fun _ => .inl ⟨hptr, by simp [hret]⟩⟩, id⟩
      | false =>
        have hptr : (npaProcessRequest c pending sequence).issueRequest = c.issueRequest := by
          simp [hf]
        refine ⟨⟨?_, fun hr => ?_, fun h => absurd h hfirst, fun how => .inl ⟨?_, ?_⟩⟩, id⟩
        · exact hptr ▸ inv.fcn
        · exact hptr.trans (inv.unreturned (by simpa using hr))
        all_goals
          obtain hp | ⟨-, hw⟩ := inv.owed (how.resolve_left Bool.false_ne_true)
        · exact hptr.trans hp.1
        · simp [hf] at hw
        · simpa using hp.2
        · simp [hf] at hw
    · cases happly
  | reset =>
    simp only [Op.apply] at happly
    split at happly
    · next hre =>
      cases happly
      refine ⟨⟨.inl rfl, fun hr => ?_, fun hfirst => ?_, fun how => .inr ?_⟩, id⟩
      · cases hr
      · have := (inv.first hfirst).2.2.2
        simp [hre] at this
      · obtain ⟨-, hr⟩ | hw := inv.owed how
        · simp [hre] at hr
        · exact hw
    · cases happly
  | issue value unconditional pending sequence =>
    obtain ⟨⟨hidle, hret⟩, r, hr, rfl, rfl⟩ := Op.apply_issue happly
    obtain ⟨hptr, hcase⟩ := issueRequest_async (c := { c with pending := value })
      (unconditional || c.active != value) pending sequence inv.fcn hidle hret
    rw [← hr] at hptr hcase
    obtain ⟨hs, hen, hf, hre⟩ | ⟨hs, hnew, hen, hre, hun⟩ := hcase
    · refine ⟨⟨hptr ▸ inv.fcn, fun h => hptr ▸ hre h, fun h => h.elim,
        fun how => .inr ⟨hen, hf.trans how.1⟩⟩, fun hk => ⟨⟨?_, ?_, ?_, .inr hs⟩, hk⟩⟩
      all_goals simp [hs]
    · refine ⟨⟨hptr ▸ inv.fcn, fun h => ?_, fun h => h.elim, fun how => .inl ⟨?_, hre⟩⟩,
        fun hk => ⟨⟨fun hfirst => ?_, fun how hf => ?_, fun _ => ?_, .inl hs⟩, hk⟩⟩
      · simp [hre] at h
      · obtain ⟨-, hproc | how⟩ := how
        · simp [hs] at hproc
        · rw [hptr]
          exact (inv.owedIdle hidle how).1
      · obtain ⟨hp, hq, -⟩ := inv.first hfirst
        exact absurd hq (hun hp).2
      · have hf' := (hun (inv.owedIdle hidle how).1).1
        simp [hf] at hf'
      · exact eq_of_not_new hnew

/-- A step of a client that meets its condition. -/
theorem Pointer.step (inv : Pointer kind h c) (meets : op.Meets c)
    (happly : op.apply c = some (t, e)) :
    Pointer kind (e :: h) t ∧ (Kept kind h → Kept kind (e :: h)) := by
  cases kind with
  | sync => exact SyncPointer.step inv meets happly
  | async => exact AsyncPointer.step inv meets happly

/-- Over a run whose steps meet their condition. -/
theorem Pointer.of_run {zero : V}
    (run : Run (Step Op.Meets) (Issuer.new zero kind) h c) : Pointer kind h c ∧ Kept kind h :=
  run.invariant (P := fun h c => Pointer kind h c ∧ Kept kind h) ⟨.new zero kind, trivial⟩
    fun _ ⟨inv, kept⟩ ⟨_, meets, happly⟩ =>
      let ⟨inv', keep⟩ := inv.step meets happly
      ⟨inv', keep kept⟩

/-! ## Where the condition fails -/

omit [DecidableEq V] in
/-- A request that is not fire-and-forget is skipped although it is owed a passage. -/
theorem not_kept_of_skipped (how : Owed h) :
    ¬ Kept kind (.issued false value active .redundant :: h) :=
  fun hk => hk.1.owed how rfl rfl

/-- A client whose pointer is not an unconditional function skips the active value. -/
theorem apply_issue_active (hidle : c.enqueued = false) (hret : c.resetting = false)
    (hf : c.fireAndForget = false) (hptr : c.issueRequest = .sync ∨ c.issueRequest = .async) :
    ∃ t, (Op.issue c.active false c.active 0).apply c =
      some (t, .issued false c.active c.active .redundant) := by
  refine ⟨completeRedundant { c with pending := c.active }, ?_⟩
  obtain hptr | hptr := hptr
  all_goals
    simp [Op.apply, hidle, hret, issueRequest, hptr, npaIssueSyncRequest, npaEnqueueAsyncRequest,
      hf]

/-- A synchronous client that issues a fire-and-forget request while its sequence number is zero
skips the next request that has the same value. -/
theorem SyncPointer.unmet (inv : SyncPointer h c) (unmet : ¬ op.Meets c)
    (happly : op.apply c = some (t, e)) :
    ∃ h' u, Run (Step fun _ _ => True) t h' u ∧ ¬ Kept .sync (h' ++ e :: h) := by
  cases op with
  | setRequestAttribute => exact absurd trivial unmet
  | workloop pending sequence => simp [Op.apply, inv.idle] at happly
  | reset => exact absurd trivial unmet
  | issue value unconditional pending sequence =>
    simp only [Op.Meets, Classical.not_imp, Classical.not_not] at unmet
    obtain ⟨hf, hptr, hq⟩ := unmet
    obtain ⟨-, r, hr, rfl, rfl⟩ := Op.apply_issue happly
    have hs : r.2 = .processed := by
      simp [hr, issueRequest, hptr, npaIssueSyncRequestUnconditional, hq, npaIssueSyncRequest]
    have hfields : r.1.enqueued = false ∧ r.1.resetting = false ∧ r.1.fireAndForget = false ∧
        r.1.issueRequest = .sync := by
      simp [hr, issueRequest, hptr, npaIssueSyncRequestUnconditional, hq, npaIssueSyncRequest,
        inv.idle, inv.returned]
    obtain ⟨hen, hre, hfnf, hsync⟩ := hfields
    obtain ⟨u, hu⟩ := apply_issue_active hen hre hfnf (.inl hsync)
    exact ⟨[_], u, Run.start.step ⟨_, trivial, hu⟩, not_kept_of_skipped ⟨hf, .inl hs⟩⟩

/-- An asynchronous client whose fire-and-forget request is processed while its pointer is not
`npa_enqueue_async_request` processes the next request itself, or, if the pointer was on its way
back, skips the next request that has the same value. -/
theorem AsyncPointer.unmet (inv : AsyncPointer h c) (unmet : ¬ op.Meets c)
    (happly : op.apply c = some (t, e)) :
    ∃ h' u, Run (Step fun _ _ => True) t h' u ∧ ¬ Kept .async (h' ++ e :: h) := by
  cases op with
  | setRequestAttribute => exact absurd trivial unmet
  | issue value unconditional pending sequence =>
    simp only [Op.Meets, Classical.not_imp] at unmet
    obtain hptr | hptr := inv.fcn
    all_goals
      have := unmet.2.1
      simp [hptr] at this
  | reset => exact absurd trivial unmet
  | workloop pending sequence =>
    simp only [Op.Meets, Classical.not_imp] at unmet
    obtain ⟨hf, hptr⟩ := unmet
    simp only [Op.apply] at happly
    split at happly
    case isFalse => cases happly
    cases happly
    have howed : Owed (.processed c.fireAndForget :: h) := .inl hf
    have hsync : (npaProcessRequest c pending sequence).issueRequest = .syncUnconditional := by
      simp [hf, hptr]
    cases hre : c.resetting with
    | true =>
      let back : Issuer V := { npaProcessRequest c pending sequence with
        enqueued := false, issueRequest := .async, resetting := false }
      have hback : Op.reset.apply
          { npaProcessRequest c pending sequence with enqueued := false } =
          some (back, .reset) := by
        simp [Op.apply, hre, back]
      obtain ⟨u, hu⟩ := apply_issue_active (c := back) rfl rfl (by simp [back]) (.inr rfl)
      exact ⟨[_, _], u, (Run.start.step ⟨_, trivial, hback⟩).step ⟨_, trivial, hu⟩,
        not_kept_of_skipped (h := .reset :: .processed c.fireAndForget :: h) howed⟩
    | false =>
      let next : Issuer V := { npaProcessRequest c pending sequence with enqueued := false }
      have hs : (issueRequest { next with pending := c.active } true c.active 0).2 =
          .processed :=
        issueRequest_syncUnconditional _ _ hsync
      have hu : (Op.issue c.active true c.active 0).apply next =
          some ((issueRequest { next with pending := c.active } true c.active 0).1,
            .issued next.fireAndForget c.active next.active .processed) := by
        rw [← hs]
        simp [Op.apply, next, hre]
      refine ⟨[_], _, Run.start.step ⟨_, trivial, hu⟩, fun hk => ?_⟩
      cases hk.1.kind with
      | inl hs => cases hs
      | inr hs => cases hs

/-- **Short-circuiting is safe while no assignment to the pointer is lost.** In a run of a client,
created in either way, whose steps meet their condition, every request is serviced as it has to be;
and after a step that does not meet it the client goes wrong within two steps. -/
theorem requests_pass (zero : V) (kind : Kind)
    (run : Run (Step Op.Meets) (Issuer.new zero kind) h c) :
    Kept kind h ∧ ∀ (op : Op V) t e, op.apply c = some (t, e) → ¬ op.Meets c →
      ∃ h' u, Run (Step fun _ _ => True) t h' u ∧ ¬ Kept kind (h' ++ e :: h) := by
  obtain ⟨inv, kept⟩ := Pointer.of_run run
  refine ⟨kept, fun op t e happly unmet => ?_⟩
  cases kind with
  | sync => exact SyncPointer.unmet inv unmet happly
  | async => exact AsyncPointer.unmet inv unmet happly

end

/-- A synchronous client that begins with a request for its cleared value and then issues 3 twice,
the first time fire-and-forget. -/
theorem requests_pass_twice :
    Kept .sync [.issued false (3 : UInt32) 3 .processed, .issued true 3 0 .processed, .attribute,
      .issued false 0 0 .processed] :=
  (requests_pass (0 : UInt32) .sync (((((Run.start.step
    ⟨.issue 0 false 0 0, fun h => absurd h (by decide), rfl⟩).step
    ⟨.setRequestAttribute, trivial, rfl⟩).step
    ⟨.issue 3 false 3 0x100, fun _ h => absurd h (by decide), rfl⟩)).step
    ⟨.issue 3 false 3 0x200, fun h => absurd h (by decide), rfl⟩)).1

/-- The first request of a client being fire-and-forget, the next one is skipped; and an
asynchronous client that issues two such requests processes the next one itself. -/
theorem passthrough_is_lost :
    (∃ h c, Run (Step fun _ _ => True) (Issuer.new (0 : UInt32) .sync) h c ∧ ¬ Kept .sync h) ∧
    ∃ h c, Run (Step fun _ _ => True) (Issuer.new (0 : UInt32) .async) h c ∧ ¬ Kept .async h := by
  refine ⟨⟨[.issued false 5 5 .redundant, .issued true 5 0 .processed, .attribute], _,
    ((Run.start.step ⟨.setRequestAttribute, trivial, rfl⟩).step
      ⟨.issue 5 false 5 0, trivial, rfl⟩).step ⟨.issue 5 false 5 0, trivial, rfl⟩,
    not_kept_of_skipped ⟨rfl, .inl rfl⟩⟩, ?_⟩
  refine ⟨[.issued false 7 6 .processed, .processed true, .issued true 6 5 .enqueued, .attribute,
    .processed true, .reset, .issued true 5 0 .enqueued, .attribute], _,
    (((((((Run.start.step ⟨.setRequestAttribute, trivial, rfl⟩).step
      ⟨.issue 5 false 0 0, trivial, rfl⟩).step ⟨.reset, trivial, rfl⟩).step
      ⟨.workloop 5 0, trivial, rfl⟩).step ⟨.setRequestAttribute, trivial, rfl⟩).step
      ⟨.issue 6 false 0 0, trivial, rfl⟩).step ⟨.workloop 6 0x100, trivial, rfl⟩).step
      ⟨.issue 7 false 7 0x200, trivial, rfl⟩, fun hk => ?_⟩
  cases hk.1.kind with
  | inl hs => cases hs
  | inr hs => cases hs

end Npa.ShortCircuit
