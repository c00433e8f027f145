import Mathlib.Data.UInt

/-!
# NPA resources and their clients

A resource keeps a list of clients. A client has two work slots, one with the request in force
(`active`) and one with the request being made (`pending`); `index` says which is which, and
processing a request flips it. The last element of this record, `driverCalls`, is not in the source:
it collects what the driver function has been handed, newest first.
-/

namespace Npa

/-! ## Clients -/

/-- `npa_client_type`. -/
inductive ClientType
  | reserved1 | internal | custom1 | custom2 | custom3 | custom4 | required | isochronous | impulse
  | limitMax | vector | suppressible | suppressibleVector | custom5 | custom6
  deriving DecidableEq

/-- The value of a client type, as the plugins' bit fields use it. -/
def ClientType.bits : ClientType → UInt32
  | reserved1 => 0x1
  | internal => 0x2
  | custom1 => 0x4
  | custom2 => 0x8
  | custom3 => 0x10
  | custom4 => 0x20
  | required => 0x40
  | isochronous => 0x80
  | impulse => 0x100
  | limitMax => 0x200
  | vector => 0x400
  | suppressible => 0x800
  | suppressibleVector => 0x1400
  | custom5 => 0x2000
  | custom6 => 0x4000

/-- `request_attr`: `NPA_REQUEST_FIRE_AND_FORGET`, `_NEXT_AWAKE` and `_CHANGED_TYPE`. -/
structure RequestAttr where
  fireAndForget : Bool
  nextAwake : Bool
  changedType : Bool
  deriving DecidableEq

/-- `NPA_REQUEST_DEFAULT`. -/
def RequestAttr.default : RequestAttr := ⟨false, false, false⟩

/-- `|=` on request attributes. -/
def RequestAttr.or (a b : RequestAttr) : RequestAttr :=
  ⟨a.fireAndForget || b.fireAndForget, a.nextAwake || b.nextAwake, a.changedType || b.changedType⟩

/-- What `client->issue_request` points to, for a synchronous client. -/
inductive IssueRequest
  | sync
  | syncUnconditional
  deriving DecidableEq

/-- The address of a client structure. -/
abbrev Handle := Nat

/-- `npa_client`. -/
structure Client where
  handle : Handle
  type : ClientType
  work : UInt32 × UInt32
  index : Bool
  sequence : UInt32
  requestAttr : RequestAttr
  issueRequest : IssueRequest
  deriving DecidableEq

namespace Client
variable (c : Client) (v : UInt32)

/-- `NPA_ACTIVE_REQUEST(client).state`. -/
def active : UInt32 := if c.index then c.work.2 else c.work.1

/-- `NPA_PENDING_REQUEST(client).state`. -/
def pending : UInt32 := if c.index then c.work.1 else c.work.2

/-- `NPA_PENDING_REQUEST(client).state = v`. -/
def setPending : Client :=
  { c with work := if c.index then (v, c.work.2) else (c.work.1, v) }

/-- `client->index ^= 1`. -/
def swap : Client := { c with index := !c.index }

@[simp] theorem setPending_pending : (c.setPending v).pending = v := by
  cases h : c.index <;> simp [pending, setPending, h]

@[simp] theorem setPending_active : (c.setPending v).active = c.active := by
  cases h : c.index <;> simp [active, setPending, h]

@[simp] theorem setPending_type : (c.setPending v).type = c.type := rfl
@[simp] theorem setPending_requestAttr : (c.setPending v).requestAttr = c.requestAttr := rfl

end Client

/-! ## Resources -/

/-- The resource attributes that the request path reads. -/
structure ResourceAttr where
  driverUnconditional : Bool
  singleClient : Bool
  driverUnconditionalFirst : Bool
  allowClientTypeChange : Bool
  deriving DecidableEq

/-- What a resource and its node are defined with: `max` and `attributes` of
`npa_resource_definition`, `dependency_count` of `npa_node_definition`. -/
structure Definition where
  max : UInt32
  attributes : ResourceAttr
  dependencyCount : UInt32
  deriving DecidableEq

/-- The two kinds of request that a resource aggregates apart: `NPA_REQUIRED_INDEX` and
`NPA_SUPPRESSIBLE_INDEX`. -/
inductive Index
  | required
  | suppressible
  deriving DecidableEq

namespace Index

/-- `index ^ 1`. -/
def other : Index → Index
  | required => suppressible
  | suppressible => required

/-- The element of `internal_state` at an index. -/
def slot : Index → Fin 4
  | required => 0
  | suppressible => 1

/-- The element of `internal_state` at `index + 2`. -/
def countSlot : Index → Fin 4
  | required => 2
  | suppressible => 3

/-- The client type that an index stands for. -/
def clientType : Index → ClientType
  | required => .required
  | suppressible => .suppressible

@[simp] theorem other_ne (ix : Index) : ix.other ≠ ix := by cases ix <;> decide

@[simp] theorem ne_other (ix : Index) : ix ≠ ix.other := by cases ix <;> decide

theorem eq_or_eq_other (ix jx : Index) : jx = ix ∨ jx = ix.other := by
  cases ix <;> cases jx <;> decide

variable {ix jx : Index}

@[simp] theorem slot_inj : ix.slot = jx.slot ↔ ix = jx := by
  cases ix <;> cases jx <;> decide

@[simp] theorem countSlot_inj : ix.countSlot = jx.countSlot ↔ ix = jx := by
  cases ix <;> cases jx <;> decide

@[simp] theorem slot_ne_countSlot (ix jx : Index) : ix.slot ≠ jx.countSlot := by
  cases ix <;> cases jx <;> decide

@[simp] theorem countSlot_ne_slot (ix jx : Index) : ix.countSlot ≠ jx.slot := by
  cases ix <;> cases jx <;> decide

@[simp] theorem clientType_inj : ix.clientType = jx.clientType ↔ ix = jx := by
  cases ix <;> cases jx <;> decide

end Index

/-- The index of a client type that has one. -/
def ClientType.index? : ClientType → Option Index
  | required => some .required
  | suppressible => some .suppressible
  | _ => none

theorem ClientType.index?_eq_some {t : ClientType} {ix : Index} :
    t.index? = some ix ↔ t = ix.clientType := by
  cases t <;> cases ix <;> decide

/-- `internal_state`: the two aggregates, and the two counts of the binary plugin. -/
abbrev InternalState := Fin 4 → UInt32

/-- One invocation of the driver function: the state it was handed, and the aggregated request and
the maximum that the resource had then. -/
structure DriverCall where
  state : UInt32
  requestState : UInt32
  activeMax : UInt32
  deriving DecidableEq

/-- `npa_resource`. -/
structure Resource where
  definition : Definition
  clients : List Client
  requestState : UInt32
  activeState : UInt32
  requiredState : UInt32
  suppressibleState : UInt32
  internalState : InternalState
  activeMax : UInt32
  activeHeadroom : Int32
  activeAttr : ResourceAttr
  sequence : UInt32
  driverCalls : List DriverCall

namespace Resource
variable (r : Resource)

/-- The client at an address. -/
def client? (h : Handle) : Option Client := r.clients.find? (fun c => c.handle == h)

/-- Writing to a client structure that is linked into the resource. -/
def put (client : Client) : Resource :=
  { r with clients := r.clients.map fun c => if c.handle = client.handle then client else c }

/-- `NPA_RESOURCE_REQUIRED_REQUEST` and `NPA_RESOURCE_SUPPRESSIBLE_REQUEST`. -/
def aggregatedRequest (ix : Index) : UInt32 := min (r.internalState ix.slot) r.activeMax

/-- The addresses of live client structures differ. -/
def Distinct : Prop := (r.clients.map (·.handle)).Nodup

end Resource

end Npa
