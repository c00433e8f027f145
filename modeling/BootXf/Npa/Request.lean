import BootXf.Npa.Plugins

/-!
# The request pipeline

How a request of a synchronous client reaches the resource: the client functions of the interface
fill the pending slot and issue the request, redundant requests stop there, and the others run the
update function and, when something changed, the driver function. The functions below take the
client structure along with the resource; `withClient` is the outermost layer, which finds it by its
address and writes it back. A fatal check is `none`.
-/

namespace Npa

/-- A node's driver function: the state that the hardware ends up in when it is asked for one. -/
abbrev Driver := Resource → Client → UInt32 → UInt32

/-! ## Processing a request -/

section
variable (plugin : Plugin) (driver : Driver)

/-- `_npa_update_resource_state`, less the events. -/
def npaUpdateResourceState (r : Resource) (newState : UInt32) : Resource :=
  { r with
    activeState := newState
    activeHeadroom := (r.requestState - r.activeMax).toInt32 }

/-- `npa_invoke_update_function`. -/
def npaInvokeUpdateFunction (r : Resource) (client : Client) : Option (Resource × Client) := do
  let a ← plugin.updateFcn r client
  some ({ r with internalState := a.internalState, requestState := a.requestState },
    client.setPending a.pending)

/-- When `npa_invoke_driver_function` calls the driver rather than leave the state as it is. -/
def driverIsCalled (r : Resource) (client : Client) (newState : UInt32) : Bool :=
  r.activeAttr.driverUnconditional || newState != r.activeState ||
    r.requiredState != r.aggregatedRequest .required ||
    (r.definition.dependencyCount != 0 &&
      r.suppressibleState != r.aggregatedRequest .suppressible) ||
    client.requestAttr.changedType

/-- `npa_invoke_driver_function`, for a resource without `NPA_RESOURCE_VECTOR_STATE`. -/
def npaInvokeDriverFunction (r : Resource) (client : Client) : Resource :=
  let newState := min r.requestState r.activeMax
  if driverIsCalled r client newState then
    npaUpdateResourceState
      { r with
        requiredState := r.aggregatedRequest .required
        suppressibleState := r.aggregatedRequest .suppressible
        driverCalls := ⟨newState, r.requestState, r.activeMax⟩ :: r.driverCalls }
      (driver r client newState)
  else npaUpdateResourceState r newState

/-- `_npa_request_serviced`, less the log and the callback of asynchronous clients. -/
def npaRequestServiced (client : Client) : Client := { client with requestAttr := .default }

/-- `npa_set_next_request_passthrough`. -/
def npaSetNextRequestPassthrough (r : Resource) (client : Client) : Resource × Client :=
  ({ r with activeAttr := { r.activeAttr with driverUnconditional := true } },
    { client with issueRequest := .syncUnconditional })

/-- `NPA_SEQUENCE_INCREMENT`. -/
def sequenceIncrement : UInt32 := 0x100

/-- `npa_process_request` outside a transaction. The update function finds the client in the
resource's list as its caller left it. -/
def npaProcessRequest (r : Resource) (client : Client) : Option (Resource × Client) := do
  let (r, client) ← npaInvokeUpdateFunction plugin (r.put client) client
  let r := npaInvokeDriverFunction driver r client
  let r := { r with sequence := r.sequence + sequenceIncrement }
  let client := { client with sequence := r.sequence }.swap
  let r := { r with activeAttr := r.definition.attributes }
  let (r, client) :=
    if client.requestAttr.fireAndForget then npaSetNextRequestPassthrough r client else (r, client)
  some (r, npaRequestServiced client)

/-! ## Issuing a request -/

/-- `NPA_REDUNDANT_REQUEST`. -/
def redundantRequest : UInt32 := 0x1

/-- `npa_issue_sync_request`. -/
def npaIssueSyncRequest (r : Resource) (client : Client) (newRequest : Bool) :
    Option (Resource × Client) :=
  if newRequest then npaProcessRequest plugin driver r client
  else some (r, npaRequestServiced { client with sequence := client.sequence ||| redundantRequest })

/-- `npa_issue_sync_request_unconditional`. -/
def npaIssueSyncRequestUnconditional (r : Resource) (client : Client) (newRequest : Bool) :
    Option (Resource × Client) := do
  if client.sequence = 0 ∨ client.requestAttr.fireAndForget = false then
    let (r, client) ← npaIssueSyncRequest plugin driver r client true
    some (r, { client with issueRequest := .sync })
  else npaIssueSyncRequest plugin driver r client newRequest

/-- `client->issue_request( client, new_request )`. -/
def issueRequest (r : Resource) (client : Client) (newRequest : Bool) :
    Option (Resource × Client) :=
  match client.issueRequest with
  | .sync => npaIssueSyncRequest plugin driver r client newRequest
  | .syncUnconditional => npaIssueSyncRequestUnconditional plugin driver r client newRequest

/-- `npa_set_request_attribute`. -/
def npaSetRequestAttribute (client : Client) (attr : RequestAttr) : Client :=
  { client with requestAttr := client.requestAttr.or attr }

/-- `NPA_REQUEST_FIRE_AND_FORGET` alone. -/
def fireAndForgetAttr : RequestAttr := ⟨true, false, false⟩

/-- `npa_issue_scalar_request`. -/
def npaIssueScalarRequest (state : UInt32) (r : Resource) (client : Client) :
    Option (Resource × Client) :=
  issueRequest plugin driver r (client.setPending state) (client.active != state)

/-- `npa_issue_scalar_request_unconditional`. -/
def npaIssueScalarRequestUnconditional (state : UInt32) (r : Resource) (client : Client) :
    Option (Resource × Client) :=
  issueRequest plugin driver r (client.setPending state) true

/-- The request that `npa_modify_required_request` makes of the active one: the sum, held between
zero and `UINT32_MAX`. -/
def modifiedRequest (active : UInt32) (delta : Int32) : UInt32 :=
  let result : Int := active.toNat + delta.toInt
  if result < 0 then 0
  else if 0xffffffff < result then 0xffffffff
  else .ofNat result.toNat

/-- `npa_modify_required_request`. -/
def npaModifyRequiredRequest (delta : Int32) (r : Resource) (client : Client) :
    Option (Resource × Client) :=
  issueRequest plugin driver r (client.setPending (modifiedRequest client.active delta))
    (delta != 0)

/-- `npa_issue_impulse_request`. -/
def npaIssueImpulseRequest (r : Resource) (client : Client) : Option (Resource × Client) :=
  issueRequest plugin driver r client true

/-- `npa_issue_internal_request`, with what the user of the client has put into the pending slot. -/
def npaIssueInternalRequest (state : UInt32) (r : Resource) (client : Client) :
    Option (Resource × Client) :=
  issueRequest plugin driver r (client.setPending state) true

/-- The walk of `npa_issue_limit_max_request` over the clients: the least of the definition's
maximum and the limits, with the client's own limit replaced. -/
def lowestLimit (r : Resource) (client : Client) (max : UInt32) : UInt32 :=
  r.clients.foldl
    (fun activeMax maxClient =>
      if maxClient.type = .limitMax then
        let req := if maxClient.handle = client.handle then max else maxClient.active
        if req ≠ 0 ∧ req < activeMax then req else activeMax
      else activeMax)
    r.definition.max

/-- The maximum that `npa_issue_limit_max_request` sets before it issues the request. -/
def limitedMax (r : Resource) (client : Client) (max : UInt32) : UInt32 :=
  if max ≠ 0 ∧ max < r.activeMax then max
  else if client.active = r.activeMax then lowestLimit r client max
  else r.activeMax

/-- `npa_issue_limit_max_request`. -/
def npaIssueLimitMaxRequest (max : UInt32) (r : Resource) (client : Client) :
    Option (Resource × Client) :=
  if client.type = .limitMax then
    issueRequest plugin driver { r with activeMax := limitedMax r client max }
      (client.setPending max) (max != client.active)
  else none

/-- `npa_terminate_request`. -/
def npaTerminateRequest (r : Resource) (client : Client) : Option (Resource × Client) :=
  let client := npaSetRequestAttribute client fireAndForgetAttr
  if client.type = .limitMax then npaIssueLimitMaxRequest plugin driver 0 r client
  else issueRequest plugin driver r (client.setPending 0) (client.active != 0)

/-- `npa_verify_new_client_type`. -/
def npaVerifyNewClientType (r : Resource) (oldType newType : ClientType) : Bool :=
  r.activeAttr.allowClientTypeChange &&
    plugin.supportedClients &&& newType.bits == newType.bits &&
    ((newType == .required && oldType == .suppressible) ||
      (newType == .vector && oldType == .suppressibleVector) ||
      (newType == .suppressible && oldType == .required) ||
      (newType == .suppressibleVector && oldType == .vector)) &&
    (!r.activeAttr.singleClient || r.clients.all fun c => c.type != newType)

/-- What `npa_set_client_type_required` and `npa_set_client_type_suppressible` share, from the new
type on. -/
def setClientType (newType : ClientType) (r : Resource) (client : Client) :
    Option (Resource × Client) :=
  if npaVerifyNewClientType plugin r client.type newType then
    let client := { client with
      type := newType
      requestAttr := { client.requestAttr with changedType := true } }
    issueRequest plugin driver r (client.setPending client.active) true
  else none

/-- `npa_set_client_type_required`. -/
def npaSetClientTypeRequired (r : Resource) (client : Client) : Option (Resource × Client) :=
  setClientType plugin driver (if client.type = .suppressible then .required else .vector) r client

/-- `npa_set_client_type_suppressible`. -/
def npaSetClientTypeSuppressible (r : Resource) (client : Client) : Option (Resource × Client) :=
  setClientType plugin driver
    (if client.type = .required then .suppressible else .suppressibleVector)
    r client

/-! ## The interface, by the address of the client -/

/-- `f( client )` for the client at an address. -/
def withClient (r : Resource) (h : Handle) (f : Resource → Client → Option (Resource × Client)) :
    Option Resource := do
  let client ← r.client? h
  let (r, client) ← f r client
  some (r.put client)

/-- A client structure as `npa_new_client` fills it for a synchronous client. -/
def Client.new (h : Handle) (type : ClientType) : Client :=
  ⟨h, type, (0, 0), false, 0, .default, .syncUnconditional⟩

/-- `npa_create_sync_client`, the pool having handed out the structure at `h`: a type that the
plugin does not support gives no client, and neither does a second client of a type on a
single-client resource. -/
def npaCreateSyncClient (r : Resource) (h : Handle) (type : ClientType) : Resource :=
  if plugin.supportedClients &&& type.bits ≠ type.bits then r
  else if r.activeAttr.singleClient ∧ r.clients.any (fun c => c.type == type) then r
  else { r with clients := Client.new h type :: r.clients }

/-- `npa_destroy_client`. -/
def npaDestroyClient (r : Resource) (h : Handle) : Option Resource := do
  let r ← withClient r h fun r client =>
    npaTerminateRequest plugin driver r { client with issueRequest := .sync }
  some { r with clients := r.clients.filter fun c => c.handle != h }

/-- A call of the client interface. -/
inductive Op
  | createSyncClient (h : Handle) (type : ClientType)
  | setRequestAttribute (h : Handle) (attr : RequestAttr)
  | issueScalarRequest (h : Handle) (state : UInt32)
  | issueScalarRequestUnconditional (h : Handle) (state : UInt32)
  | modifyRequiredRequest (h : Handle) (delta : Int32)
  | issueImpulseRequest (h : Handle)
  | issueInternalRequest (h : Handle) (state : UInt32)
  | completeRequest (h : Handle)
  | cancelRequest (h : Handle)
  | issueLimitMaxRequest (h : Handle) (max : UInt32)
  | setClientTypeRequired (h : Handle)
  | setClientTypeSuppressible (h : Handle)
  | destroyClient (h : Handle)

/-- What a call does to the resource. -/
def Op.apply (r : Resource) : Op → Option Resource
  | createSyncClient h type => some (npaCreateSyncClient plugin r h type)
  | setRequestAttribute h attr =>
    withClient r h fun r client => some (r, npaSetRequestAttribute client attr)
  | issueScalarRequest h state => withClient r h (npaIssueScalarRequest plugin driver state)
  | issueScalarRequestUnconditional h state =>
    withClient r h (npaIssueScalarRequestUnconditional plugin driver state)
  | modifyRequiredRequest h delta => withClient r h (npaModifyRequiredRequest plugin driver delta)
  | issueImpulseRequest h => withClient r h (npaIssueImpulseRequest plugin driver)
  | issueInternalRequest h state => withClient r h (npaIssueInternalRequest plugin driver state)
  | completeRequest h | cancelRequest h => withClient r h (npaTerminateRequest plugin driver)
  | issueLimitMaxRequest h max => withClient r h (npaIssueLimitMaxRequest plugin driver max)
  | setClientTypeRequired h => withClient r h (npaSetClientTypeRequired plugin driver)
  | setClientTypeSuppressible h => withClient r h (npaSetClientTypeSuppressible plugin driver)
  | destroyClient h => npaDestroyClient plugin driver r h

end

/-! ## Resources from their creation on -/

/-- A resource as `npa_create_node` leaves it, the driver having answered `initState` with
`answer`. -/
def Resource.create (definition : Definition) (initState answer : UInt32) : Resource where
  definition := definition
  clients := []
  requestState := 0
  activeState := answer
  requiredState := 0
  suppressibleState := 0
  internalState := fun _ => 0
  activeMax := definition.max
  activeHeadroom := (initState - definition.max).toInt32
  activeAttr :=
    { definition.attributes with
      driverUnconditional := definition.attributes.driverUnconditional ||
        definition.attributes.driverUnconditionalFirst }
  sequence := 0
  driverCalls := []

end Npa
