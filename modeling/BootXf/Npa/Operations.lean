import BootXf.Npa.Request

/-!
# What a call of the client interface does

Every call but the creation of a client and the setting of an attribute prepares the client, may
set the maximum of the resource, and issues a request. `Op.apply_eq` says so once. An issued request
is either redundant or processed (`issueRequest_redundant`, `issueRequest_served`), and `Served`
lists what processing leaves behind, so that the later modules never unfold the pipeline.
-/

namespace Npa

open List Option

/-! ## The client list -/

/-- A client of a resource, with the clients before and behind it. -/
structure Splits (r : Resource) (c : Client) (before after : List Client) : Prop where
  clients : r.clients = before ++ c :: after
  apart : ∀ x ∈ before ++ after, x.handle ≠ c.handle

/-- A client with a handle has its place in the list. -/
theorem Resource.Distinct.splits {r : Resource} (hd : r.Distinct) {h : Handle} {c : Client}
    (hc : r.client? h = some c) : c.handle = h ∧ ∃ before after, Splits r c before after := by
  have hh : c.handle = h := by simpa using find?_some hc
  obtain ⟨before, after, hsplit⟩ := append_of_mem (mem_of_find?_eq_some hc)
  rw [Resource.Distinct, hsplit, map_append, map_cons] at hd
  obtain ⟨-, hcons, hne⟩ := nodup_append.mp hd
  refine ⟨hh, before, after, hsplit, fun x hx heq => ?_⟩
  rcases mem_append.mp hx with hx | hx
  · exact hne _ (List.mem_map_of_mem hx) _ mem_cons_self heq
  · exact (nodup_cons.mp hcons).1 (heq ▸ List.mem_map_of_mem hx)

namespace Splits
variable {r : Resource} {c c' : Client} {before after : List Client}

/-- The handles differ if those around a client do. -/
theorem distinct_iff (h : Splits r c before after) :
    r.Distinct ↔ ((before ++ after).map (·.handle)).Nodup := by
  have hc : c.handle ∉ (before ++ after).map (·.handle) := by
    intro hmem
    obtain ⟨x, hx, heq⟩ := List.mem_map.mp hmem
    exact h.apart x hx heq
  have hperm : (r.clients.map (·.handle)).Perm ((c :: (before ++ after)).map (·.handle)) := by
    rw [h.clients]
    exact perm_middle.map _
  rw [Resource.Distinct, hperm.nodup_iff, map_cons, nodup_cons]
  exact ⟨fun hn => hn.2, fun hn => ⟨hc, hn⟩⟩

/-- Writing to the client. -/
theorem put (h : Splits r c before after) (hh : c'.handle = c.handle) :
    Splits (r.put c') c' before after := by
  refine ⟨?_, fun x hx => hh ▸ h.apart x hx⟩
  have hkeep : ∀ l : List Client, (∀ x ∈ l, x ∈ before ++ after) →
      l.map (fun x => if x.handle = c'.handle then c' else x) = l := by
    intro l hl
    conv => rhs; rw [← List.map_id l]
    refine map_congr_left fun x hx => ?_
    rw [if_neg (hh ▸ h.apart x (hl x hx)), id]
  rw [Resource.put, h.clients, map_append, map_cons, if_pos hh.symm,
    hkeep before fun x hx => mem_append_left _ hx,
    hkeep after fun x hx => mem_append_right _ hx]

/-- Unlinking the client. -/
theorem unlink (h : Splits r c before after) :
    r.clients.filter (fun x => x.handle != c.handle) = before ++ after := by
  have hkeep : ∀ l : List Client, (∀ x ∈ l, x ∈ before ++ after) →
      l.filter (fun x => x.handle != c.handle) = l := by
    intro l hl
    refine filter_eq_self.mpr fun x hx => ?_
    simpa using h.apart x (hl x hx)
  rw [h.clients, filter_append, filter_cons_of_neg (by simp),
    hkeep before fun x hx => mem_append_left _ hx,
    hkeep after fun x hx => mem_append_right _ hx]

theorem congr {s : Resource} (h : Splits r c before after) (hs : s.clients = r.clients) :
    Splits s c before after := ⟨hs.trans h.clients, h.apart⟩

end Splits

/-! ## Issuing and processing -/

/-- Whether `issue_request` takes a request of the client to the update function. -/
def Client.reaches (client : Client) (newRequest : Bool) : Bool :=
  match client.issueRequest with
  | .sync => newRequest
  | .syncUnconditional =>
    client.sequence == 0 || !client.requestAttr.fireAndForget || newRequest

theorem Client.not_new_of_not_reaches {client : Client} {newRequest : Bool}
    (h : client.reaches newRequest = false) : newRequest = false := by
  unfold reaches at h
  split at h
  · exact h
  · exact (Bool.or_eq_false_iff.mp h).2

/-- What processing a request of `c` on `r` leaves behind when the update function answers `a`. -/
structure Served (r : Resource) (c : Client) (a : Aggregation) (r' : Resource) (c' : Client) :
    Prop where
  definition : r'.definition = r.definition
  clients : r'.clients = (r.put c).clients
  internalState : r'.internalState = a.internalState
  requestState : r'.requestState = a.requestState
  activeMax : r'.activeMax = r.activeMax
  activeHeadroom : r'.activeHeadroom = (a.requestState - r.activeMax).toInt32
  sequence : r'.sequence = r.sequence + sequenceIncrement
  driverCalls : r'.driverCalls = r.driverCalls ∨
    r'.driverCalls = ⟨min a.requestState r.activeMax, a.requestState, r.activeMax⟩ :: r.driverCalls
  handle : c'.handle = c.handle
  type : c'.type = c.type
  active : c'.active = a.pending
  clientSequence : c'.sequence = r'.sequence
  requestAttr : c'.requestAttr = .default

section
variable {plugin : Plugin} {driver : Driver} {r : Resource} {c : Client} {new : Bool}
  {a : Aggregation}

/-- What the driver step leaves alone. -/
theorem npaInvokeDriverFunction_kept (driver : Driver) (r : Resource) (c : Client) :
    (npaInvokeDriverFunction driver r c).definition = r.definition ∧
    (npaInvokeDriverFunction driver r c).clients = r.clients ∧
    (npaInvokeDriverFunction driver r c).internalState = r.internalState ∧
    (npaInvokeDriverFunction driver r c).requestState = r.requestState ∧
    (npaInvokeDriverFunction driver r c).activeMax = r.activeMax ∧
    (npaInvokeDriverFunction driver r c).sequence = r.sequence := by
  simp only [npaInvokeDriverFunction]
  split <;> exact ⟨rfl, rfl, rfl, rfl, rfl, rfl⟩

/-- The state that the driver is handed, and the headroom that the driver step leaves. -/
theorem npaInvokeDriverFunction_driven (driver : Driver) (r : Resource) (c : Client) :
    (npaInvokeDriverFunction driver r c).activeHeadroom = (r.requestState - r.activeMax).toInt32 ∧
    ((npaInvokeDriverFunction driver r c).driverCalls = r.driverCalls ∨
      (npaInvokeDriverFunction driver r c).driverCalls =
        ⟨min r.requestState r.activeMax, r.requestState, r.activeMax⟩ :: r.driverCalls) := by
  simp only [npaInvokeDriverFunction]
  split
  · exact ⟨rfl, .inr rfl⟩
  · exact ⟨rfl, .inl rfl⟩

/-- The active request after the slots have been swapped, whatever else has been written to the
client structure by then. -/
theorem active_of_swapped {c c' : Client} (hw : c'.work = c.work) (hi : c'.index = !c.index) :
    c'.active = c.pending := by
  cases h : c.index <;> simp [Client.active, Client.pending, hw, hi, h]

theorem npaProcessRequest_served (driver : Driver) (ha : plugin.updateFcn (r.put c) c = some a) :
    ∃ r' c', npaProcessRequest plugin driver r c = some (r', c') ∧ Served r c a r' c' := by
  have hupdate : npaInvokeUpdateFunction plugin (r.put c) c =
      some ({ r.put c with internalState := a.internalState, requestState := a.requestState },
        c.setPending a.pending) := by
    simp [npaInvokeUpdateFunction, ha]
  simp only [npaProcessRequest, hupdate, bind_eq_bind, bind_some]
  generalize hu : ({ r.put c with
    internalState := a.internalState, requestState := a.requestState } : Resource) = u
  obtain ⟨hdef, hcl, hint, hreq, hmax, hseq⟩ := npaInvokeDriverFunction_kept driver u
    (c.setPending a.pending)
  obtain ⟨hhead, hcalls⟩ := npaInvokeDriverFunction_driven driver u (c.setPending a.pending)
  generalize npaInvokeDriverFunction driver u (c.setPending a.pending) = d at *
  have hactive : ∀ c' : Client, c'.work = (c.setPending a.pending).work → c'.index = !c.index →
      c'.active = a.pending := by
    intro c' hw hi
    exact (active_of_swapped (c := c.setPending a.pending) hw hi).trans
      (Client.setPending_pending ..)
  subst hu
  split
  · exact ⟨_, _, rfl, hdef, hcl, hint, hreq, hmax, hhead, congrArg (· + sequenceIncrement) hseq,
      hcalls, rfl, rfl, hactive _ rfl rfl, rfl, rfl⟩
  · exact ⟨_, _, rfl, hdef, hcl, hint, hreq, hmax, hhead, congrArg (· + sequenceIncrement) hseq,
      hcalls, rfl, rfl, hactive _ rfl rfl, rfl, rfl⟩

/-- Only the function pointer of the client may change after the request has been processed. -/
theorem Served.setIssueRequest {r' : Resource} {c' : Client} (h : Served r c a r' c')
    (f : IssueRequest) : Served r c a r' { c' with issueRequest := f } :=
  ⟨h.definition, h.clients, h.internalState, h.requestState, h.activeMax, h.activeHeadroom,
    h.sequence, h.driverCalls, h.handle, h.type, h.active, h.clientSequence, h.requestAttr⟩

/-- A request that reaches the update function. -/
theorem issueRequest_served (driver : Driver) (hreach : c.reaches new = true)
    (ha : plugin.updateFcn (r.put c) c = some a) :
    ∃ r' c', issueRequest plugin driver r c new = some (r', c') ∧ Served r c a r' c' := by
  obtain ⟨r', c', hproc, hserved⟩ := npaProcessRequest_served driver ha
  unfold Client.reaches at hreach
  unfold issueRequest
  cases hf : c.issueRequest with
  | sync =>
    rw [hf] at hreach
    exact ⟨r', c', by simp [npaIssueSyncRequest, hreach, hproc], hserved⟩
  | syncUnconditional =>
    rw [hf] at hreach
    simp only [npaIssueSyncRequestUnconditional]
    split
    · exact ⟨r', { c' with issueRequest := .sync },
        by simp [npaIssueSyncRequest, hproc], hserved.setIssueRequest .sync⟩
    · next hcond =>
      have hnew : new = true := by simpa [not_or.mp hcond] using hreach
      exact ⟨r', c', by simp [npaIssueSyncRequest, hnew, hproc], hserved⟩

/-- A request that the update function cannot take. -/
theorem issueRequest_fatal (hreach : c.reaches new = true)
    (ha : plugin.updateFcn (r.put c) c = none) : issueRequest plugin driver r c new = none := by
  have hproc : npaProcessRequest plugin driver r c = none := by
    simp [npaProcessRequest, npaInvokeUpdateFunction, ha]
  unfold Client.reaches at hreach
  unfold issueRequest
  cases hf : c.issueRequest with
  | sync =>
    rw [hf] at hreach
    simp [npaIssueSyncRequest, hreach, hproc]
  | syncUnconditional =>
    rw [hf] at hreach
    simp only [npaIssueSyncRequestUnconditional]
    split
    · simp [npaIssueSyncRequest, hproc]
    · next hcond =>
      have hnew : new = true := by simpa [not_or.mp hcond] using hreach
      simp [npaIssueSyncRequest, hnew, hproc]

/-- A client after a redundant request. -/
def Client.redundant (client : Client) : Client :=
  npaRequestServiced { client with sequence := client.sequence ||| redundantRequest }

@[simp] theorem Client.redundant_type (c : Client) : c.redundant.type = c.type := rfl
@[simp] theorem Client.redundant_active (c : Client) : c.redundant.active = c.active := rfl

/-- A redundant request is not passed on. -/
theorem issueRequest_redundant (hreach : c.reaches new = false) :
    issueRequest plugin driver r c new = some (r, c.redundant) := by
  unfold Client.reaches at hreach
  unfold issueRequest
  cases hf : c.issueRequest with
  | sync =>
    rw [hf] at hreach
    simp [npaIssueSyncRequest, hreach, Client.redundant]
  | syncUnconditional =>
    rw [hf] at hreach
    simp only [Bool.or_eq_false_iff, beq_eq_false_iff_ne, Bool.not_eq_false'] at hreach
    obtain ⟨⟨hseq, hfnf⟩, hnew⟩ := hreach
    simp [npaIssueSyncRequestUnconditional, npaIssueSyncRequest, hseq, hfnf, hnew,
      Client.redundant]

end

/-! ## The calls -/

namespace Op

/-- The address of the client that a call is about. -/
def handle : Op → Handle
  | createSyncClient h _ | setRequestAttribute h _ | issueScalarRequest h _
  | issueScalarRequestUnconditional h _ | modifyRequiredRequest h _ | issueImpulseRequest h
  | issueInternalRequest h _ | completeRequest h | cancelRequest h | issueLimitMaxRequest h _
  | setClientTypeRequired h | setClientTypeSuppressible h | destroyClient h => h

/-- Whether a call issues a request. -/
def issues : Op → Bool
  | createSyncClient .. | setRequestAttribute .. => false
  | _ => true

section
variable (plugin : Plugin) (driver : Driver) (r : Resource) (c : Client)

/-- What the interface asks of the client of a call: the work model that the call is for, and for a
change of type what `npa_verify_new_client_type` checks. `NPA_REQUEST_CHANGED_TYPE` is for the
framework to set. -/
def Accepts : Op → Prop
  | createSyncClient .. => True
  | setRequestAttribute _ attr => attr.changedType = false
  | issueScalarRequest .. | issueScalarRequestUnconditional .. => c.type ≠ .limitMax
  | modifyRequiredRequest .. => c.type = .required
  | issueImpulseRequest _ => c.type = .impulse
  | issueInternalRequest .. => c.type = .internal
  | completeRequest _ | cancelRequest _ | destroyClient _ => True
  | issueLimitMaxRequest .. => c.type = .limitMax
  | setClientTypeRequired _ =>
    c.type = .suppressible ∧ npaVerifyNewClientType plugin r c.type .required
  | setClientTypeSuppressible _ =>
    c.type = .required ∧ npaVerifyNewClientType plugin r c.type .suppressible

/-- The documented use of the interface: a call is about a live client of the right kind, and the
pool hands out only structures that are not in use. -/
def Proper (op : Op) : Prop :=
  match op with
  | createSyncClient h _ => r.client? h = none
  | op => ∃ c ∈ r.client? op.handle, op.Accepts plugin r c

instance decidableAccepts (op : Op) : Decidable (op.Accepts plugin r c) :=
  match op with
  | createSyncClient .. | completeRequest _ | cancelRequest _ | destroyClient _ =>
    inferInstanceAs (Decidable True)
  | setRequestAttribute _ attr => inferInstanceAs (Decidable (attr.changedType = false))
  | issueScalarRequest .. | issueScalarRequestUnconditional .. =>
    inferInstanceAs (Decidable (c.type ≠ .limitMax))
  | modifyRequiredRequest .. => inferInstanceAs (Decidable (c.type = .required))
  | issueImpulseRequest _ => inferInstanceAs (Decidable (c.type = .impulse))
  | issueInternalRequest .. => inferInstanceAs (Decidable (c.type = .internal))
  | issueLimitMaxRequest .. => inferInstanceAs (Decidable (c.type = .limitMax))
  | setClientTypeRequired _ => inferInstanceAs (Decidable
      (c.type = .suppressible ∧ npaVerifyNewClientType plugin r c.type .required))
  | setClientTypeSuppressible _ => inferInstanceAs (Decidable
      (c.type = .required ∧ npaVerifyNewClientType plugin r c.type .suppressible))

instance decidableProper (op : Op) : Decidable (op.Proper plugin r) :=
  match op with
  | createSyncClient h _ => inferInstanceAs (Decidable (r.client? h = none))
  | setRequestAttribute .. | issueScalarRequest .. | issueScalarRequestUnconditional ..
  | modifyRequiredRequest .. | issueImpulseRequest _ | issueInternalRequest .. | completeRequest _
  | cancelRequest _ | issueLimitMaxRequest .. | setClientTypeRequired _
  | setClientTypeSuppressible _ | destroyClient _ =>
    decidableExistsMem _

/-- The client as a call hands it to `issue_request`. -/
def prepared : Op → Client
  | createSyncClient .. | setRequestAttribute .. | issueImpulseRequest _ => c
  | issueScalarRequest _ state | issueScalarRequestUnconditional _ state
  | issueInternalRequest _ state | issueLimitMaxRequest _ state => c.setPending state
  | modifyRequiredRequest _ delta => c.setPending (modifiedRequest c.active delta)
  | completeRequest _ | cancelRequest _ =>
    (npaSetRequestAttribute c fireAndForgetAttr).setPending 0
  | destroyClient _ =>
    (npaSetRequestAttribute { c with issueRequest := .sync } fireAndForgetAttr).setPending 0
  | setClientTypeRequired _ => Client.setPending { c with
      type := .required
      requestAttr := { c.requestAttr with changedType := true } } c.active
  | setClientTypeSuppressible _ => Client.setPending { c with
      type := .suppressible
      requestAttr := { c.requestAttr with changedType := true } } c.active

/-- The `new_request` that a call hands to `issue_request`. -/
def isNew : Op → Bool
  | createSyncClient .. | setRequestAttribute .. => false
  | issueScalarRequest _ state => c.active != state
  | modifyRequiredRequest _ delta => delta != 0
  | completeRequest _ | cancelRequest _ | destroyClient _ => c.active != 0
  | issueLimitMaxRequest _ max => max != c.active
  | issueScalarRequestUnconditional .. | issueImpulseRequest _ | issueInternalRequest ..
  | setClientTypeRequired _ | setClientTypeSuppressible _ => true

/-- The maximum of the resource when a call issues its request. -/
def newMax : Op → UInt32
  | issueLimitMaxRequest _ max => limitedMax r c max
  | completeRequest _ | cancelRequest _ | destroyClient _ =>
    if c.type = .limitMax then limitedMax r c 0 else r.activeMax
  | _ => r.activeMax

/-- Unlinking the client, for `npa_destroy_client`. -/
def unlink : Op → Resource → Resource
  | destroyClient h, s => { s with clients := s.clients.filter fun c => c.handle != h }
  | _, s => s

variable {plugin driver r c} {op : Op} {s : Resource}

/-- A terminated request, of a limit or of any other client. -/
theorem npaTerminateRequest_eq :
    npaTerminateRequest plugin driver r c =
      issueRequest plugin driver
        { r with activeMax := if c.type = .limitMax then limitedMax r c 0 else r.activeMax }
        ((npaSetRequestAttribute c fireAndForgetAttr).setPending 0) (c.active != 0) := by
  have hmax : limitedMax r (npaSetRequestAttribute c fireAndForgetAttr) 0 = limitedMax r c 0 := rfl
  have hactive : (npaSetRequestAttribute c fireAndForgetAttr).active = c.active := rfl
  simp only [npaTerminateRequest, npaIssueLimitMaxRequest]
  by_cases hlim : c.type = .limitMax
  · have htype : (npaSetRequestAttribute c fireAndForgetAttr).type = .limitMax := hlim
    simp only [htype, hlim, if_true, hmax, hactive]
    rw [bne_comm]
  · have htype : (npaSetRequestAttribute c fireAndForgetAttr).type ≠ .limitMax := hlim
    simp only [htype, hlim, if_false, hactive]

/-- **What a call does**, its client being found. -/
theorem apply_eq (hissue : op.issues = true) (hc : r.client? op.handle = some c)
    (hacc : op.Accepts plugin r c) :
    op.apply plugin driver r =
      (issueRequest plugin driver { r with activeMax := op.newMax r c } (op.prepared c)
        (op.isNew c)).map fun p => op.unlink (p.1.put p.2) := by
  cases op with
  | createSyncClient | setRequestAttribute => cases hissue
  | completeRequest h | cancelRequest h =>
    simp only [apply, withClient, handle, prepared, isNew, newMax, unlink] at hc ⊢
    simp only [hc, bind_eq_bind, bind_some, npaTerminateRequest_eq]
    cases issueRequest plugin driver _ _ _ <;> rfl
  | destroyClient h =>
    have hterm : npaTerminateRequest plugin driver r { c with issueRequest := .sync } =
        issueRequest plugin driver { r with activeMax := (destroyClient h).newMax r c }
          ((destroyClient h).prepared c) ((destroyClient h).isNew c) := npaTerminateRequest_eq
    simp only [apply, npaDestroyClient, withClient, handle, unlink] at hc ⊢
    simp only [hc, bind_eq_bind, bind_some, hterm]
    cases issueRequest plugin driver _ _ _ <;> rfl
  | issueLimitMaxRequest h max =>
    simp only [apply, withClient, handle, prepared, isNew, newMax, unlink, Accepts] at hc hacc ⊢
    simp only [hc, bind_eq_bind, bind_some, npaIssueLimitMaxRequest, hacc, if_true]
    cases issueRequest plugin driver _ _ _ <;> rfl
  | setClientTypeRequired h =>
    have hset : npaSetClientTypeRequired plugin driver r c =
        issueRequest plugin driver r ((setClientTypeRequired h).prepared c) true := by
      rw [npaSetClientTypeRequired, if_pos hacc.1, setClientType, if_pos hacc.2]
      rfl
    simp only [apply, withClient, handle, isNew, newMax, unlink] at hc ⊢
    simp only [hc, bind_eq_bind, bind_some, hset]
    cases issueRequest plugin driver _ _ _ <;> rfl
  | setClientTypeSuppressible h =>
    have hset : npaSetClientTypeSuppressible plugin driver r c =
        issueRequest plugin driver r ((setClientTypeSuppressible h).prepared c) true := by
      rw [npaSetClientTypeSuppressible, if_pos hacc.1, setClientType, if_pos hacc.2]
      rfl
    simp only [apply, withClient, handle, isNew, newMax, unlink] at hc ⊢
    simp only [hc, bind_eq_bind, bind_some, hset]
    cases issueRequest plugin driver _ _ _ <;> rfl
  | issueScalarRequest h state | issueScalarRequestUnconditional h state
  | modifyRequiredRequest h delta | issueImpulseRequest h | issueInternalRequest h state =>
    simp only [apply, withClient, handle, prepared, isNew, newMax, unlink] at hc ⊢
    simp only [hc, bind_eq_bind, bind_some, npaIssueScalarRequest,
      npaIssueScalarRequestUnconditional, npaModifyRequiredRequest, npaIssueImpulseRequest,
      npaIssueInternalRequest]
    cases issueRequest plugin driver _ _ _ <;> rfl

@[simp] theorem prepared_handle (op : Op) (c : Client) : (op.prepared c).handle = c.handle := by
  cases op <;> rfl

@[simp] theorem prepared_active (op : Op) (c : Client) : (op.prepared c).active = c.active := by
  cases op with
  | createSyncClient | setRequestAttribute | issueImpulseRequest => rfl
  | _ => exact Client.setPending_active ..

@[simp] theorem prepared_sequence (op : Op) (c : Client) :
    (op.prepared c).sequence = c.sequence := by
  cases op <;> rfl

/-- The type that a call changes the client to, if it does. -/
def newType? : Op → Option ClientType
  | setClientTypeRequired _ => some .required
  | setClientTypeSuppressible _ => some .suppressible
  | _ => none

/-- An operation may change the type of its client. -/
theorem prepared_type (op : Op) (c : Client) :
    (op.prepared c).type = op.newType?.getD c.type := by
  cases op <;> rfl

theorem prepared_changedType (op : Op) (c : Client) :
    (op.prepared c).requestAttr.changedType =
      (c.requestAttr.changedType || op.newType?.isSome) := by
  cases op <;> simp [prepared, newType?, npaSetRequestAttribute, RequestAttr.or, fireAndForgetAttr]

/-- A client is taken out, or nothing happens. -/
theorem unlink_cases {before after : List Client}
    (h : Splits s c before after) (hh : c.handle = op.handle) :
    (op.unlink s).clients = before ++ after ∨ op.unlink s = s := by
  cases op with
  | destroyClient h' =>
    have hh' : c.handle = h' := hh
    exact .inl (hh' ▸ h.unlink)
  | _ => exact .inr rfl

theorem of_unlink_ne (h : op.unlink s ≠ s) :
    ∃ h', op = destroyClient h' := by
  cases op with
  | destroyClient h' => exact ⟨h', rfl⟩
  | _ => exact absurd rfl h

theorem unlink_distinct {before after : List Client}
    (h : Splits s c before after) (hh : c.handle = op.handle)
    (hn : ((before ++ after).map (·.handle)).Nodup) : (op.unlink s).Distinct := by
  rcases unlink_cases h hh with hun | hun
  · rw [Resource.Distinct, hun]
    exact hn
  · rw [hun]
    exact h.distinct_iff.mpr hn

@[simp] theorem unlink_definition (op : Op) (s : Resource) :
    (op.unlink s).definition = s.definition := by cases op <;> rfl

@[simp] theorem unlink_activeMax (op : Op) (s : Resource) :
    (op.unlink s).activeMax = s.activeMax := by cases op <;> rfl

@[simp] theorem unlink_requestState (op : Op) (s : Resource) :
    (op.unlink s).requestState = s.requestState := by cases op <;> rfl

@[simp] theorem unlink_internalState (op : Op) (s : Resource) :
    (op.unlink s).internalState = s.internalState := by cases op <;> rfl

@[simp] theorem unlink_activeHeadroom (op : Op) (s : Resource) :
    (op.unlink s).activeHeadroom = s.activeHeadroom := by cases op <;> rfl

@[simp] theorem unlink_sequence (op : Op) (s : Resource) :
    (op.unlink s).sequence = s.sequence := by cases op <;> rfl

@[simp] theorem unlink_driverCalls (op : Op) (s : Resource) :
    (op.unlink s).driverCalls = s.driverCalls := by cases op <;> rfl

/-- **What can come of a call.** A client is refused or created, an attribute is set, or a request
turns out redundant or is processed. -/
inductive Effect (plugin : Plugin) (r : Resource) : Op → Resource → Prop
  | refused {h : Handle} {type : ClientType} : Effect plugin r (createSyncClient h type) r
  | created {h : Handle} {type : ClientType} :
      plugin.supportedClients &&& type.bits = type.bits → r.client? h = none →
      Effect plugin r (createSyncClient h type) { r with clients := Client.new h type :: r.clients }
  | attributed {h : Handle} {attr : RequestAttr} {c : Client} : r.client? h = some c →
      attr.changedType = false →
      Effect plugin r (setRequestAttribute h attr) (r.put (npaSetRequestAttribute c attr))
  | redundant {op : Op} {c : Client} : op.issues = true → r.client? op.handle = some c →
      op.Accepts plugin r c → (op.prepared c).reaches (op.isNew c) = false →
      Effect plugin r op
        (op.unlink ({ r with activeMax := op.newMax r c }.put (op.prepared c).redundant))
  | served {op : Op} {c : Client} {a : Aggregation} {r' : Resource} {c' : Client} :
      op.issues = true → r.client? op.handle = some c → op.Accepts plugin r c →
      (op.prepared c).reaches (op.isNew c) = true →
      plugin.updateFcn ({ r with activeMax := op.newMax r c }.put (op.prepared c))
        (op.prepared c) = some a →
      Served { r with activeMax := op.newMax r c } (op.prepared c) a r' c' →
      Effect plugin r op (op.unlink (r'.put c'))

/-- A call goes through unless its request reaches an update function that cannot take it, and it
has one of the effects. -/
theorem apply_effect (driver : Driver) (hp : op.Proper plugin r)
    (htakes : ∀ {c}, op.issues = true → r.client? op.handle = some c →
      (op.prepared c).reaches (op.isNew c) = true → ∃ a,
        plugin.updateFcn ({ r with activeMax := op.newMax r c }.put (op.prepared c))
          (op.prepared c) = some a) :
    ∃ s, op.apply plugin driver r = some s ∧ Effect plugin r op s := by
  by_cases hissue : op.issues = true
  · obtain ⟨c, hc, hacc⟩ : ∃ c, r.client? op.handle = some c ∧ op.Accepts plugin r c := by
      cases op with
      | createSyncClient => cases hissue
      | _ => exact hp
    rw [apply_eq hissue hc hacc]
    cases hreach : (op.prepared c).reaches (op.isNew c) with
    | false =>
      rw [issueRequest_redundant hreach]
      exact ⟨_, rfl, .redundant hissue hc hacc hreach⟩
    | true =>
      obtain ⟨a, ha⟩ := htakes hissue hc hreach
      obtain ⟨r', c', hrun, hserved⟩ := issueRequest_served driver hreach ha
      rw [hrun]
      exact ⟨_, rfl, .served hissue hc hacc hreach ha hserved⟩
  · cases op with
    | createSyncClient h type =>
      refine ⟨_, rfl, ?_⟩
      unfold npaCreateSyncClient
      split
      · exact .refused
      · next hsup =>
        split
        · exact .refused
        · exact .created (by simpa using hsup) hp
    | setRequestAttribute h attr =>
      obtain ⟨c, hc, hacc⟩ := hp
      refine ⟨r.put (npaSetRequestAttribute c attr), ?_, .attributed hc hacc⟩
      simp only [handle, mem_def] at hc
      simp [apply, withClient, hc]
    | _ => exact absurd rfl hissue

/-- A call that goes through has one of the effects. -/
theorem effect (hp : op.Proper plugin r)
    (hs : op.apply plugin driver r = some s) : Effect plugin r op s := by
  have htakes : ∀ {c}, op.issues = true → r.client? op.handle = some c →
      (op.prepared c).reaches (op.isNew c) = true → ∃ a,
        plugin.updateFcn ({ r with activeMax := op.newMax r c }.put (op.prepared c))
          (op.prepared c) = some a := by
    intro c hissue hc hreach
    refine ne_none_iff_exists'.mp fun hnone => ?_
    obtain ⟨c', hc', hacc⟩ : ∃ c, r.client? op.handle = some c ∧ op.Accepts plugin r c := by
      cases op with
      | createSyncClient => cases hissue
      | _ => exact hp
    obtain rfl : c' = c := Option.some.inj (hc'.symm.trans hc)
    rw [apply_eq hissue hc hacc, issueRequest_fatal hreach hnone] at hs
    cases hs
  obtain ⟨s', hs', heffect⟩ := apply_effect driver hp htakes
  obtain rfl : s' = s := Option.some.inj (hs'.symm.trans hs)
  exact heffect

/-- The client list around the client of a call, before it and when it has been written back. -/
theorem splits_put {h : Handle} (hd : r.Distinct) (hc : r.client? h = some c) (t : Resource)
    (ht : t.clients = r.clients) (cf : Client) (hcf : cf.handle = c.handle) :
    ∃ before after, Splits r c before after ∧ Splits (t.put cf) cf before after ∧
      cf.handle = h := by
  obtain ⟨hh, before, after, hsplit⟩ := hd.splits hc
  exact ⟨before, after, hsplit, (hsplit.congr ht).put hcf, hcf.trans hh⟩

/-- The same when the request of the call has been processed. -/
theorem splits_served {a : Aggregation} {r' : Resource} {c' : Client} (hd : r.Distinct)
    (hc : r.client? op.handle = some c)
    (hserved : Served { r with activeMax := op.newMax r c } (op.prepared c) a r' c') :
    ∃ before after, Splits r c before after ∧
      Splits ({ r with activeMax := op.newMax r c }.put (op.prepared c)) (op.prepared c) before
        after ∧
      Splits (r'.put c') c' before after ∧ c'.handle = op.handle := by
  obtain ⟨before, after, hsplit, hput, hh⟩ := splits_put hd hc
    { r with activeMax := op.newMax r c } rfl (op.prepared c) (prepared_handle op c)
  exact ⟨before, after, hsplit, hput, (hput.congr hserved.clients).put hserved.handle,
    hserved.handle.trans hh⟩

/-- The addresses of live client structures go on to differ. -/
theorem Effect.distinct (hd : r.Distinct) (he : Effect plugin r op s) :
    s.Distinct := by
  cases he with
  | refused => exact hd
  | created hsup hnone =>
    refine nodup_cons.mpr ⟨fun hmem => ?_, hd⟩
    obtain ⟨x, hx, heq⟩ := List.mem_map.mp hmem
    have := find?_eq_none.mp hnone x hx
    exact this (by simpa [Client.new] using heq)
  | @attributed h attr c hc =>
    obtain ⟨before, after, hsplit, hput, hh⟩ :=
      splits_put hd hc r rfl (npaSetRequestAttribute c attr) rfl
    exact hput.distinct_iff.mpr (hsplit.distinct_iff.mp hd)
  | @redundant op c hissue hc =>
    obtain ⟨before, after, hsplit, hput, hh⟩ := splits_put hd hc
      { r with activeMax := op.newMax r c } rfl (op.prepared c).redundant (prepared_handle ..)
    exact unlink_distinct hput hh (hsplit.distinct_iff.mp hd)
  | served hissue hc hacc hreach ha hserved =>
    obtain ⟨before, after, hsplit, -, hput, hh⟩ := splits_served hd hc hserved
    exact unlink_distinct hput hh (hsplit.distinct_iff.mp hd)

end

end Op

/-- The steps of a resource under its interface, used as documented. -/
def ClientStep (plugin : Plugin) (driver : Driver) (r : Resource) (op : Op) (s : Resource) : Prop :=
  op.Proper plugin r ∧ op.apply plugin driver r = some s

/-- A step carried out. -/
def clientStep (plugin : Plugin) (driver : Driver) (r : Resource) (op : Op) : Option Resource :=
  if op.Proper plugin r then op.apply plugin driver r else none

theorem ClientStep.of_eq_some {plugin : Plugin} {driver : Driver} {r s : Resource} {op : Op}
    (h : clientStep plugin driver r op = some s) : ClientStep plugin driver r op s := by
  unfold clientStep at h
  split at h
  · next hp => exact ⟨hp, h⟩
  · cases h

end Npa
