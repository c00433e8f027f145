import BootXf.Npa.Resource

/-!
# The standard plugin library

A plugin's update function is told which client has a new request and brings the resource's
aggregates up to date. The functions are incremental: most of them correct the aggregate they keep
and go over the client list only when they have to. A fatal check is `none`.
-/

namespace Npa

/-- What an update function leaves behind: the aggregates, the request state it returns, and the
pending request of the client, which it may remap. -/
structure Aggregation where
  internalState : InternalState
  requestState : UInt32
  pending : UInt32

/-- `npa_resource_plugin`, for scalar resources. The request of a `LIMIT_MAX` client is a limit, not
a vote, and an update function leaves it alone. -/
structure Plugin where
  updateFcn : Resource → Client → Option Aggregation
  supportedClients : UInt32
  keepsLimits : ∀ {r : Resource} {client : Client} {a : Aggregation}, client.type = .limitMax →
    updateFcn r client = some a → a.pending = client.pending

namespace InternalState

/-- Assigning to one element. -/
def set (state : InternalState) (i : Fin 4) (v : UInt32) : InternalState :=
  fun j => if j = i then v else state j

variable (state : InternalState) {i j : Fin 4} (v : UInt32)

@[simp] theorem set_self : state.set i v i = v := if_pos rfl

theorem set_of_ne (h : j ≠ i) : state.set i v j = state j := if_neg h

end InternalState

/-! ## What the update functions share -/

/-- `NPA_REMAP_MAX_REQUEST`: the pending request, a request for `NPA_MAX_STATE` being one for the
maximum of the resource. -/
def remapMaxRequest (r : Resource) (client : Client) : UInt32 :=
  if client.pending = 0xffffffff then r.definition.max else client.pending

/-- A loop over the client list that takes up the active requests of some of the clients. -/
def scanActive (step : UInt32 → UInt32 → UInt32) (select : Client → Bool) (clients : List Client)
    (start : UInt32) : UInt32 :=
  clients.foldl (fun acc c => if select c then step acc c.active else acc) start

/-- `c != client && client->type == c->type`. -/
def sameType (client c : Client) : Bool := c.handle != client.handle && client.type == c.type

/-- `prev_type == c->type`, the type that a client changed from being the other one. -/
def previousType (index : Index) (c : Client) : Bool := index.other.clientType == c.type

/-- `switch (client->type)` with one body for required and suppressible clients and none for the
others. The body gives the aggregates and the remapped request. -/
def switchType (combine : UInt32 → UInt32 → UInt32) (r : Resource) (client : Client)
    (body : Index → InternalState × UInt32) : Aggregation :=
  let (state, pending) :=
    match client.type.index? with
    | some index => body index
    | none => (r.internalState, client.pending)
  ⟨state, combine (state Index.required.slot) (state Index.suppressible.slot), pending⟩

/-! ## Minimum and maximum -/

/-- The body that `npa_min_update_fcn` and `npa_max_update_fcn` share, up to when a request beats
an aggregate. -/
def extremumBody (better : UInt32 → UInt32 → Bool) (r : Resource) (client : Client)
    (index : Index) : InternalState × UInt32 :=
  let request := remapMaxRequest r client
  let current := r.internalState index.slot
  let take := fun acc request => if better request acc then request else acc
  let extremum :=
    if better request current then request
    else if current = client.active ∧ client.requestAttr.changedType = false then
      -- the client may have held the extremum: look for the next one
      scanActive take (sameType client) r.clients request
    else current
  let state := r.internalState.set index.slot extremum
  if client.requestAttr.changedType ∧ state index.other.slot = client.active then
    -- the client may have held the extremum of the type it changed from
    (state.set index.other.slot (scanActive take (previousType index) r.clients 0), request)
  else (state, request)

/-- When a request lowers a minimum; zero is no request. -/
def minBetter (request current : UInt32) : Bool :=
  request != 0 && (current == 0 || request < current)

/-- How the minimum function combines its two aggregates. -/
def minCombine (required suppressible : UInt32) : UInt32 :=
  if suppressible = 0 then required
  else if required = 0 then suppressible
  else min required suppressible

/-- `npa_min_update_fcn`. -/
def npaMinUpdateFcn (r : Resource) (client : Client) : Option Aggregation :=
  some (switchType minCombine r client (extremumBody minBetter r client))

/-- When a request raises a maximum. -/
def maxBetter (request current : UInt32) : Bool := current < request

/-- `npa_max_update_fcn`. -/
def npaMaxUpdateFcn (r : Resource) (client : Client) : Option Aggregation :=
  some (switchType max r client (extremumBody maxBetter r client))

/-! ## Sum and binary -/

/-- The index that the active request of a client has been counted for: after a change of type the
previous one. -/
def countedAt (client : Client) (index : Index) : Index :=
  if client.requestAttr.changedType then index.other else index

/-- The body of `npa_sum_update_fcn`. -/
def sumBody (r : Resource) (client : Client) (index : Index) : InternalState × UInt32 :=
  let request := remapMaxRequest r client
  let counted := countedAt client index
  let state := r.internalState.set counted.slot (r.internalState counted.slot - client.active)
  (state.set index.slot (state index.slot + request), request)

/-- `npa_sum_update_fcn`. -/
def npaSumUpdateFcn (r : Resource) (client : Client) : Option Aggregation :=
  some (switchType (· + ·) r client (sumBody r client))

/-- `(request == 0) ? 0 : 1`. -/
def nonzero (request : UInt32) : UInt32 := if request = 0 then 0 else 1

/-- `( count ) ? resource->active_max : 0`. -/
def binaryState (activeMax count : UInt32) : UInt32 := if count = 0 then 0 else activeMax

/-- The body of `npa_binary_update_fcn`. -/
def binaryBody (r : Resource) (client : Client) (index : Index) : InternalState × UInt32 :=
  let counted := countedAt client index
  let left := r.internalState counted.countSlot - nonzero client.active
  let state := r.internalState.set counted.countSlot left
  let state :=
    if client.requestAttr.changedType then
      state.set index.other.slot (binaryState r.activeMax left)
    else state
  let count := state index.countSlot + nonzero client.pending
  let state := state.set index.countSlot count
  (state.set index.slot (binaryState r.activeMax count), client.pending)

/-- `npa_binary_update_fcn`. -/
def npaBinaryUpdateFcn (r : Resource) (client : Client) : Option Aggregation :=
  some (switchType max r client (binaryBody r client))

/-! ## Or and binary-and -/

/-- `_internal_index`: a client type without an index is a fatal error. -/
def internalIndex (client : Client) : Option Index := client.type.index?

/-- The body that the or and the binary-and function share: the request with what the other clients
of the type request, and after a change of type the requests of the previous type from zero. -/
def recomputeBody (step : UInt32 → UInt32 → UInt32) (state : InternalState) (r : Resource)
    (client : Client) (index : Index) : InternalState :=
  let state := state.set index.slot (scanActive step (sameType client) r.clients client.pending)
  if client.requestAttr.changedType then
    state.set index.other.slot (scanActive step (previousType index) r.clients 0)
  else state

/-- `npa_or_update_fcn`. -/
def npaOrUpdateFcn (r : Resource) (client : Client) : Option Aggregation := do
  let index ← internalIndex client
  let state := recomputeBody (· ||| ·) r.internalState r client index
  some ⟨state, state Index.required.slot ||| state Index.suppressible.slot, client.pending⟩

/-- `npa_binary_and_update_fcn`. The aggregates start from one at the first request to the
resource. -/
def npaBinaryAndUpdateFcn (r : Resource) (client : Client) : Option Aggregation := do
  let index ← internalIndex client
  let state :=
    if r.sequence = 0 then
      (r.internalState.set Index.required.slot 1).set Index.suppressible.slot 1
    else r.internalState
  let state := recomputeBody (fun acc request => acc &&& nonzero request) state r client index
  some ⟨state, state Index.required.slot &&& state Index.suppressible.slot, client.pending⟩

/-! ## The plugins -/

/-- The client types that most standard plugins support: `INTERNAL`, `REQUIRED`, `SUPPRESSIBLE`,
`LIMIT_MAX` and `IMPULSE`. -/
def standardClients : UInt32 :=
  ClientType.internal.bits ||| ClientType.required.bits ||| ClientType.suppressible.bits |||
    ClientType.limitMax.bits ||| ClientType.impulse.bits

/-- The client of a limit keeps its request. -/
theorem switchType_limitMax {combine : UInt32 → UInt32 → UInt32} {r : Resource} {client : Client}
    {body : Index → InternalState × UInt32} (h : client.type = .limitMax) :
    (switchType combine r client body).pending = client.pending := by
  simp [switchType, h, ClientType.index?]

def npaMinPlugin : Plugin where
  updateFcn := npaMinUpdateFcn
  supportedClients := standardClients
  keepsLimits h ha := by cases ha; exact switchType_limitMax h

def npaMaxPlugin : Plugin where
  updateFcn := npaMaxUpdateFcn
  supportedClients := standardClients
  keepsLimits h ha := by cases ha; exact switchType_limitMax h

def npaSumPlugin : Plugin where
  updateFcn := npaSumUpdateFcn
  supportedClients := standardClients
  keepsLimits h ha := by cases ha; exact switchType_limitMax h

def npaBinaryPlugin : Plugin where
  updateFcn := npaBinaryUpdateFcn
  supportedClients := standardClients
  keepsLimits h ha := by cases ha; exact switchType_limitMax h

def npaOrPlugin : Plugin where
  updateFcn := npaOrUpdateFcn
  supportedClients := standardClients
  keepsLimits h ha := by simp [npaOrUpdateFcn, internalIndex, h, ClientType.index?] at ha

def npaBinaryAndPlugin : Plugin where
  updateFcn := npaBinaryAndUpdateFcn
  supportedClients := standardClients
  keepsLimits h ha := by simp [npaBinaryAndUpdateFcn, internalIndex, h, ClientType.index?] at ha

end Npa
