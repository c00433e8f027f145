import BootXf.Npa.Resource

/-!
# Requests to a dependency

A driver function passes a request on to a resource that its own depends on, by a required client of
that resource, by a suppressible one, or by both when the type of the client that it serves has just
changed. The update and the driver function of the dependency are those of whoever defined it: the
one may rewrite the pending request that it is given, and both keep a state of their own. Outside a
transaction the node of the dependency is locked by its mutex.
-/

namespace Npa.Dependency

/-- `npa_work_request`. -/
structure WorkRequest where
  state : UInt32
  vector : Nat
  deriving DecidableEq

/-- A client of the dependency. -/
structure Client where
  work : WorkRequest × WorkRequest
  index : Bool
  sequence : UInt32
  requestAttr : RequestAttr
  deriving DecidableEq

namespace Client
variable (c : Client) (v : WorkRequest)

/-- `NPA_ACTIVE_REQUEST`. -/
def active : WorkRequest := if c.index then c.work.2 else c.work.1

/-- `NPA_PENDING_REQUEST`. -/
def pending : WorkRequest := if c.index then c.work.1 else c.work.2

def setPending : Client := { c with work := if c.index then (v, c.work.2) else (c.work.1, v) }

/-- `index ^= 1`. -/
def swap : Client := { c with index := !c.index }

/-- `_npa_request_serviced`. -/
def serviced : Client := { c with requestAttr := .default }

@[simp] theorem setPending_active : (c.setPending v).active = c.active := by
  cases h : c.index <;> simp [active, setPending, h]

@[simp] theorem setPending_pending : (c.setPending v).pending = v := by
  cases h : c.index <;> simp [pending, setPending, h]

@[simp] theorem pending_sequence (n : UInt32) :
    ({ c with sequence := n } : Client).pending = c.pending := rfl

/-- The request that was pending is active once the client has been served. -/
theorem swap_serviced_active : c.swap.serviced.active = c.pending := by
  cases h : c.index <;> simp [swap, serviced, active, pending, h]

@[simp] theorem active_sequence (n : UInt32) :
    ({ c with sequence := n } : Client).active = c.active :=
  rfl

end Client

/-- The required client and the suppressible one. -/
inductive Kind
  | required | suppressible
  deriving DecidableEq

/-- The dependency: its two clients, the client that it serves, and how often its node is locked.
`internal` is what its update and driver functions keep. -/
structure Resource (σ : Type) where
  internal : σ
  required : Client
  suppressible : Client
  sequence : UInt32
  currentClient : Option Kind
  activeAttr : ResourceAttr
  attributes : ResourceAttr
  held : Nat

/-- The update function, which leaves a pending request, and the driver function. -/
structure Plugin (σ : Type) where
  update : Resource σ → Kind → σ × WorkRequest
  driver : Resource σ → Kind → σ

/-- The client that the driver function serves. -/
structure CurrentClient where
  type : ClientType
  requestAttr : RequestAttr

/-- What a request is for: a state, or a vector with the number of its elements. -/
inductive Request
  | scalar (state : UInt32)
  | vector (numElems : UInt32) (vector : Nat)

/-- `npa_setup_dependency_request`, with whether there is a required client and a suppressible one:
the client to go by, and which of them are to be used. -/
def setup (cur : CurrentClient) (req sup : Bool) : Option (Kind × Bool × Bool) :=
  if cur.requestAttr.changedType then
    if req ∧ sup then some (.required, true, true) else none
  else if cur.type = .vector ∨ cur.type = .required then
    if req then some (.required, true, false) else none
  else
    if sup then some (.suppressible, false, true) else none

section
variable {σ : Type} (plugin : Plugin σ)

namespace Resource
variable (r : Resource σ)

def client : Kind → Client
  | .required => r.required
  | .suppressible => r.suppressible

def put (k : Kind) (c : Client) : Resource σ :=
  match k with
  | .required => { r with required := c }
  | .suppressible => { r with suppressible := c }

/-- The client is served: its update function is invoked, and it gets the number of the request. -/
def invokeUpdateFunction (k : Kind) : Resource σ :=
  let r := { r with currentClient := some k }
  let updated := plugin.update r k
  { r with internal := updated.1 }.put k
    { (r.client k).setPending updated.2 with sequence := r.sequence }

/-- The request of one of the clients. A scalar one that is active already is redundant. -/
def request (k : Kind) : Request → Resource σ
  | .scalar state =>
    let c := (r.client k).setPending { (r.client k).pending with state := state }
    if c.active.state ≠ state then (r.put k c).invokeUpdateFunction plugin k
    else r.put k { c with sequence := c.sequence ||| 1 }
  | .vector numElems vector =>
    (r.put k ((r.client k).setPending ⟨numElems, vector⟩)).invokeUpdateFunction plugin k

/-- `npa_teardown_dependency_request`, with both clients and outside a transaction. -/
def teardown : Resource σ :=
  { r with
    required := r.required.swap.serviced
    suppressible := r.suppressible.swap.serviced
    held := r.held - 1 }

/-- `npa_issue_dependency_request` and `npa_issue_dependency_vector_request`, outside a
transaction. -/
def issueDependencyRequest (cur : CurrentClient) (req sup : Option Request) :
    Option (Resource σ) :=
  (setup cur req.isSome sup.isSome).map fun (dependencyClient, useReq, useSup) =>
    let r := { r with held := r.held + 1, sequence := r.sequence + 0x100 }
    let r := match req with
      | some q => if useReq then r.request plugin .required q else r
      | none => r
    let r := match sup with
      | some q => if useSup then r.request plugin .suppressible q else r
      | none => r
    let r := { r with
      internal := plugin.driver r dependencyClient
      currentClient := none
      activeAttr := r.attributes }
    -- the clients that are not used are NULL by now
    if useReq ∧ useSup then r.teardown else r

end Resource

/-- The state that a request is for. -/
def Request.state : Request → UInt32
  | .scalar state => state
  | .vector numElems _ => numElems

/-! ## What a request does -/

section
variable {r : Resource σ} {k j : Kind} {c : Client} {q : Request}

@[simp] theorem client_put_self : (r.put k c).client k = c := by cases k <;> rfl

theorem client_put_of_ne (h : j ≠ k) : (r.put k c).client j = r.client j := by
  cases j <;> cases k <;> first | rfl | exact absurd rfl h

@[simp] theorem held_put : (r.put k c).held = r.held := by cases k <;> rfl

/-- What a request leaves alone: the lock, the other client, and all of its own client but the
pending request and the sequence. -/
structure Requested (r : Resource σ) (k : Kind) (r' : Resource σ) : Prop where
  held : r'.held = r.held
  other : ∀ j, j ≠ k → r'.client j = r.client j
  index : (r'.client k).index = (r.client k).index
  active : (r'.client k).active = (r.client k).active

theorem requested (r : Resource σ) (k : Kind) (q : Request) :
    Requested r k (r.request plugin k q) := by
  have hupdate : ∀ c : Client, c.index = (r.client k).index → c.active = (r.client k).active →
      Requested r k ((r.put k c).invokeUpdateFunction plugin k) := by
    intro c hindex hactive
    refine ⟨?_, fun j hj => ?_, ?_, ?_⟩
    · cases k <;> rfl
    · cases j <;> cases k <;> first | rfl | exact absurd rfl hj
    · cases k <;> exact hindex
    · rw [← hactive]
      cases k <;> exact (Client.active_sequence ..).trans (Client.setPending_active ..)
  cases q with
  | vector numElems vector => exact hupdate _ rfl (Client.setPending_active ..)
  | scalar state =>
    rw [Resource.request]
    dsimp only
    split
    · exact hupdate _ rfl (Client.setPending_active ..)
    · refine ⟨held_put, fun j hj => client_put_of_ne hj, ?_, ?_⟩
      · rw [client_put_self]
        rfl
      · rw [client_put_self]
        exact (Client.active_sequence ..).trans (Client.setPending_active ..)

/-- A scalar request for the state that is active is redundant: nothing is updated. -/
theorem request_of_redundant (r : Resource σ) (k : Kind) (state : UInt32)
    (h : (r.client k).active.state = state) :
    (r.request plugin k (.scalar state)).internal = r.internal ∧
      ((r.request plugin k (.scalar state)).client k).sequence = (r.client k).sequence ||| 1 := by
  rw [Resource.request]
  dsimp only
  rw [if_neg (by rw [Client.setPending_active, h]; exact fun hne => hne rfl), client_put_self]
  exact ⟨by cases k <;> rfl, rfl⟩

/-- A vector is passed to the update function, which leaves the pending request. -/
theorem request_of_vector (r : Resource σ) (k : Kind) (numElems : UInt32) (vector : Nat) :
    ∃ u : Resource σ, u.currentClient = some k ∧ (u.client k).pending = ⟨numElems, vector⟩ ∧
      ((r.request plugin k (.vector numElems vector)).client k).pending =
      (plugin.update u k).2 := by
  refine ⟨{ r.put k ((r.client k).setPending ⟨numElems, vector⟩) with currentClient := some k },
    rfl,
    ?_, ?_⟩
  · cases k <;> exact Client.setPending_pending _ _
  · rw [Resource.request]
    unfold Resource.invokeUpdateFunction
    dsimp only
    rw [client_put_self]
    exact (Client.pending_sequence _ _).trans (Client.setPending_pending _ _)

end

/-- The request of the client was passed to the update function, and what that left is active. -/
def Updated (r' : Resource σ) (k : Kind) (v : WorkRequest) : Prop :=
  ∃ u : Resource σ, u.currentClient = some k ∧ (u.client k).pending = v ∧
    (r'.client k).active = (plugin.update u k).2

/-- **Balanced**: the node is locked as often as before, and the requests that were pending are
active, with the attributes of both clients cleared. -/
structure Balanced (r r' : Resource σ) : Prop where
  held : r'.held = r.held
  swapped : ∀ k, (r'.client k).index = !(r.client k).index
  cleared : ∀ k, (r'.client k).requestAttr = .default

/-- **Recognised as redundant**: with these scalar requests nothing is updated, and both clients
have their requests marked. What the driver function makes of it is its own. -/
def Recognised (cur : CurrentClient) (r : Resource σ) (req sup : UInt32) : Prop :=
  ∃ r', r.issueDependencyRequest plugin cur (some (.scalar req)) (some (.scalar sup)) = some r' ∧
    (∃ r₀ k, r₀.internal = r.internal ∧ r'.internal = plugin.driver r₀ k) ∧
    r'.required.sequence = r.required.sequence ||| 1 ∧
    r'.suppressible.sequence = r.suppressible.sequence ||| 1

/-- The call with both clients, by its steps. -/
theorem issueDependencyRequest_eq (r : Resource σ) {cur : CurrentClient}
    (hchanged : cur.requestAttr.changedType = true) (req sup : Request) :
    ∃ r₀ r₁ r₂ : Resource σ,
      r₀ = { r with held := r.held + 1, sequence := r.sequence + 0x100 } ∧
      r₁ = r₀.request plugin .required req ∧ r₂ = r₁.request plugin .suppressible sup ∧
      r.issueDependencyRequest plugin cur (some req) (some sup) = some { r₂ with
        internal := plugin.driver r₂ .required
        currentClient := none
        activeAttr := r₂.attributes }.teardown := by
  refine ⟨_, _, _, rfl, rfl, rfl, ?_⟩
  rw [Resource.issueDependencyRequest, setup, if_pos hchanged, if_pos ⟨rfl, rfl⟩]
  rfl

/-- **Requests with both clients are balanced**, scalar or vectors. When the update function has
kept the states that were asked for, the same scalar requests are recognised as redundant next.
Vectors are always passed to the update function, and what it leaves of them is active. -/
theorem balanced_of_changedType (r r' : Resource σ) (cur : CurrentClient)
    (hchanged : cur.requestAttr.changedType = true) (req sup : Option Request)
    (hrun : r.issueDependencyRequest plugin cur req sup = some r') :
    Balanced r r' ∧
      (∀ qreq qsup, req = some qreq → sup = some qsup →
        r'.required.active.state = qreq.state → r'.suppressible.active.state = qsup.state →
        Recognised plugin cur r' qreq.state qsup.state) ∧
      ∀ numElems vector,
        (req = some (.vector numElems vector) → Updated plugin r' .required ⟨numElems, vector⟩) ∧
        (sup = some (.vector numElems vector) →
          Updated plugin r' .suppressible ⟨numElems, vector⟩) := by
  obtain ⟨qreq, rfl⟩ : ∃ q, req = some q := by
    cases req with
    | none =>
      rw [Resource.issueDependencyRequest, setup, if_pos hchanged, if_neg (by simp)] at hrun
      cases hrun
    | some q => exact ⟨q, rfl⟩
  obtain ⟨qsup, rfl⟩ : ∃ q, sup = some q := by
    cases sup with
    | none =>
      rw [Resource.issueDependencyRequest, setup, if_pos hchanged, if_neg (by simp)] at hrun
      cases hrun
    | some q => exact ⟨q, rfl⟩
  obtain ⟨r₀, r₁, r₂, hr₀, hr₁, hr₂, heq⟩ := issueDependencyRequest_eq plugin r hchanged qreq qsup
  cases hrun.symm.trans heq
  have hreq := requested plugin r₀ .required qreq
  have hsup := requested plugin r₁ .suppressible qsup
  rw [← hr₁] at hreq
  rw [← hr₂] at hsup
  refine ⟨⟨?_, fun k => ?_, fun k => by cases k <;> rfl⟩, ?_, fun numElems vector => ⟨?_, ?_⟩⟩
  · show r₂.held - 1 = r.held
    rw [hsup.held, hreq.held, hr₀]
    rfl
  · cases k with
    | required =>
      show (!r₂.required.index) = !r.required.index
      rw [show r₂.required = r₁.required from hsup.other .required nofun,
        show r₁.required.index = r₀.required.index from hreq.index, hr₀]
    | suppressible =>
      show (!r₂.suppressible.index) = !r.suppressible.index
      rw [show r₂.suppressible.index = r₁.suppressible.index from hsup.index,
        show r₁.suppressible = r₀.suppressible from hreq.other .suppressible nofun, hr₀]
  · intro qreq' qsup' h h' hactive hactive'
    obtain rfl := Option.some.inj h
    obtain rfl := Option.some.inj h'
    generalize { r₂ with
      internal := plugin.driver r₂ .required
      currentClient := none
      activeAttr := r₂.attributes }.teardown = s at hactive hactive' ⊢
    obtain ⟨s₀, s₁, s₂, hs₀, hs₁, hs₂, heq⟩ := issueDependencyRequest_eq plugin s hchanged
      (.scalar qreq.state) (.scalar qsup.state)
    have hfirst := request_of_redundant plugin s₀ .required qreq.state (by
      rw [hs₀]
      exact hactive)
    have hkept := requested plugin s₀ .required (.scalar qreq.state)
    rw [← hs₁] at hfirst hkept
    have hsupp : s₁.suppressible = s.suppressible := by
      rw [show s₁.suppressible = s₀.suppressible from hkept.other .suppressible nofun, hs₀]
    have hsecond := request_of_redundant plugin s₁ .suppressible qsup.state (by
      show s₁.suppressible.active.state = _
      rw [hsupp]
      exact hactive')
    have hkept' := requested plugin s₁ .suppressible (.scalar qsup.state)
    rw [← hs₂] at hsecond hkept'
    refine ⟨_, heq, ⟨s₂, .required, ?_, rfl⟩, ?_, ?_⟩
    · rw [hsecond.1, hfirst.1, hs₀]
    · show s₂.required.sequence = _
      rw [show s₂.required = s₁.required from hkept'.other .required nofun,
        show s₁.required.sequence = s₀.required.sequence ||| 1 from hfirst.2, hs₀]
    · show s₂.suppressible.sequence = _
      rw [show s₂.suppressible.sequence = s₁.suppressible.sequence ||| 1 from hsecond.2, hsupp]
  · intro h
    obtain rfl := Option.some.inj h
    obtain ⟨u, hclient, hpending, hleft⟩ := request_of_vector plugin r₀ .required numElems vector
    refine ⟨u, hclient, hpending, ?_⟩
    show r₂.required.swap.serviced.active = _
    rw [show r₂.required = r₁.required from hsup.other .required nofun,
      Client.swap_serviced_active, ← hleft,
      hr₁]
    rfl
  · intro h
    obtain rfl := Option.some.inj h
    obtain ⟨u, hclient, hpending, hleft⟩ :=
      request_of_vector plugin r₁ .suppressible numElems vector
    refine ⟨u, hclient, hpending, ?_⟩
    show r₂.suppressible.swap.serviced.active = _
    rw [Client.swap_serviced_active, ← hleft, hr₂]
    rfl

end

/-- An update function that leaves the pending request as it is. -/
def keeping : Plugin Unit := ⟨fun r k => ((), (r.client k).pending), fun _ _ => ()⟩

/-- A dependency that nothing has been asked of. -/
def idle : Resource Unit :=
  let c : Client := ⟨(⟨0, 0⟩, ⟨0, 0⟩), false, 0, .default⟩
  ⟨(), c, c, 0, none, ⟨false, false, false, false⟩, ⟨false, false, false, false⟩, 0⟩

/-- A client whose type has changed. -/
def changed : CurrentClient := ⟨.suppressible, ⟨false, false, true⟩⟩

theorem balanced_of_changedType_idle :
    ∃ r', idle.issueDependencyRequest keeping changed (some (.scalar 3)) (some (.scalar 4)) =
        some r' ∧ Balanced idle r' ∧ Recognised keeping changed r' 3 4 := by
  have hstates : (idle.issueDependencyRequest keeping changed (some (.scalar 3))
      (some (.scalar 4))).map (fun r => (r.required.active.state, r.suppressible.active.state)) =
        some (3, 4) := by decide +kernel
  obtain ⟨r', hrun, hr'⟩ := Option.map_eq_some_iff.mp hstates
  have hboth := balanced_of_changedType keeping idle r' changed rfl (some (.scalar 3))
    (some (.scalar 4)) hrun
  injection hr' with hreq hsup
  exact ⟨r', hrun, hboth.1, hboth.2.1 (.scalar 3) (.scalar 4) rfl rfl hreq hsup⟩

/-- **Unbalanced for a required client, and no vector is redundant.** A request for a required
client leaves the node locked, with the request pending; and a vector that is requested again is
updated again. -/
theorem required_unbalanced :
    (idle.issueDependencyRequest keeping ⟨.required, .default⟩ (some (.scalar 3)) none).map
        (fun r => (r.held, r.required.active.state, r.required.pending.state)) =
      some (idle.held + 1, 0, 3) ∧
    ((idle.issueDependencyRequest keeping changed (some (.vector 1 0x1000))
        (some (.vector 1 0x2000))).bind fun r =>
      (r.issueDependencyRequest keeping changed (some (.vector 1 0x1000))
        (some (.vector 1 0x2000))).map fun r' =>
          decide (r'.required.sequence = r.required.sequence ||| 1)) = some false := by
  constructor <;> decide +kernel

end Npa.Dependency
