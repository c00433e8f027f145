import BootXf.Lib.Settlement
import BootXf.Npa.TransactionTable

/-!
# Transactions, requests and the locks they take

What one thread does between `npa_begin_transaction` and `npa_end_transaction`, and outside of it. A
request runs the driver of its resource, which may issue requests in turn; `Script` is what a driver
does, as a tree. The locks can be taken again by the thread that has them, so a mutex counts how
often it has been taken and given back. Two parts of the state are not in the source: these counts,
and the log of the requests. A call that ends in a failed check is an error, and the check is named;
two of the checks are not up to the callers, and `Check.inner` picks these out.
-/

namespace Npa.Locking

open Lib

/-- The lock of a node. -/
abbrev NodeLock := Nat

/-- The mutexes that a thread takes. -/
inductive Mutex
  | node (lock : NodeLock)
  | transaction (lock : TransactionLock)
  deriving DecidableEq

/-- How often a mutex has been taken and given back. -/
structure Count where
  acquired : Nat
  released : Nat
  deriving DecidableEq

/-- The pointers that no call changes: `client->resource` and `resource->node_lock`. -/
structure Pointers where
  resource : Handle → ResourceHandle
  nodeLock : ResourceHandle → NodeLock

/-- `resource->transaction`, and `NPA_RESOURCE_FORKED` in `resource->sequence`. -/
structure ResourceMark where
  transaction : Option TransactionHandle
  forked : Bool

/-- The checks that end a call. -/
inductive Check
  /-- The structure is there and `CORE_VERIFY_PTR( transaction->lock )`. -/
  | defined
  /-- `CORE_VERIFY( current != transaction )`. -/
  | recursive
  /-- `CORE_VERIFY( ( transaction->attributes & NPA_TRANSACTION_SHARED_LOCK ) == 0 )`. -/
  | shared
  /-- `CORE_VERIFY_PTR( current = npa_get_current_transaction() )`. -/
  | current
  /-- `CORE_VERIFY( transaction->depth == 0 )`. -/
  | depth
  /-- The checks of `npa_setup_dependency_request`. -/
  | dependencyClients
  /-- `CORE_VERIFY( top == resource )`. -/
  | activeResource
  /-- A mutex is given back by a thread that has taken it. -/
  | held
  deriving DecidableEq

/-- The checks that are between the functions themselves. -/
def Check.inner : Check → Bool
  | activeResource | held => true
  | _ => false

/-- The state of a thread: the transactions, the current one (`npa_transaction_key`), the resources,
the mutexes, and the requests so far. -/
structure Thread where
  table : TransactionTable
  current : Option TransactionHandle
  marks : ResourceHandle → ResourceMark
  mutexes : Mutex → Count
  log : List (Settlement Handle)

namespace Thread
variable (s : Thread)

/-- Writing to a transaction structure. -/
def modify (t : TransactionHandle) (f : Transaction → Transaction) : Thread :=
  { s with table := s.table.modify t f }

/-- Writing to the marks of a resource. -/
def mark (r : ResourceHandle) (f : ResourceMark → ResourceMark) : Thread :=
  { s with marks := fun r' => if r' = r then f (s.marks r) else s.marks r' }

/-- `Core_MutexLock`. -/
def coreMutexLock (m : Mutex) : Thread :=
  { s with
    mutexes := fun m' => if m' = m then ⟨(s.mutexes m).acquired + 1, (s.mutexes m).released⟩
      else s.mutexes m' }

/-- `Core_MutexUnlock`. -/
def coreMutexUnlock (m : Mutex) : Except Check Thread :=
  if (s.mutexes m).released < (s.mutexes m).acquired then
    .ok { s with
      mutexes := fun m' => if m' = m then ⟨(s.mutexes m).acquired, (s.mutexes m).released + 1⟩
        else s.mutexes m' }
  else .error .held

/-- An event of the requests. -/
def note (e : Settlement Handle) : Thread := { s with log := e :: s.log }

/-- `npa_request_serviced`. -/
def npaRequestServiced (client : Handle) : Thread := s.note (.reported client)

/-- `npa_mark_resource_forked`. -/
def npaMarkResourceForked (r : ResourceHandle) : Thread :=
  s.mark r fun m => { m with forked := true }

/-- A transaction that is there. -/
def transaction (t : TransactionHandle) : Except Check Transaction :=
  match s.table.transactions t with
  | some tr => .ok tr
  | none => .error .defined

end Thread

variable (p : Pointers)

/-- `npa_request_enter_transaction`. -/
def npaRequestEnterTransaction (t : TransactionHandle) (client : Handle) (s : Thread) : Thread :=
  let r := p.resource client
  ((s.coreMutexLock (.node (p.nodeLock r))).mark r fun m => { m with transaction := some t }).modify
    t
    fun tr => { tr with activeResources := r :: tr.activeResources }

/-- `npa_list_PopFront( &transaction->active_resources )`. -/
def popActive (tr : Transaction) : Transaction :=
  { tr with activeResources := tr.activeResources.tail }

/-- The resource and the client of a request that is left for the end of the transaction. -/
def defer (r : ResourceHandle) (client : Handle) (tr : Transaction) : Transaction :=
  { tr with
    lockedResources := tr.lockedResources ++ [r]
    pendingClients := tr.pendingClients ++ [client] }

/-- `npa_request_exit_transaction` for a forked resource: the calling resource, which is on top of
the stack now, is forked as well. -/
def leaveForked (t : TransactionHandle) (client : Handle) (active : List ResourceHandle)
    (s : Thread) : Thread :=
  let s := match active.head? with
    | some top => s.npaMarkResourceForked top
    | none => s
  (s.modify t (defer (p.resource client) client)).note (.returned client true)

/-- `npa_request_exit_transaction`. -/
def npaRequestExitTransaction (t : TransactionHandle) (client : Handle) (s : Thread) :
    Except Check Thread := do
  let r := p.resource client
  let tr ← s.transaction t
  if tr.activeResources.head? = some r then
    let s := s.modify t popActive
    if (s.marks r).forked then
      .ok (leaveForked p t client tr.activeResources.tail s)
    else
      let s ← (s.mark r fun m => { m with transaction := none }).coreMutexUnlock
        (.node (p.nodeLock r))
      .ok ((s.note (.returned client false)).npaRequestServiced client)
  else .error .activeResource

/-- `npa_process_request`, with what its driver does. -/
def npaProcessRequest (client : Handle) (driver : Thread → Except Check Thread) (s : Thread) :
    Except Check Thread :=
  let s := s.note (.issued client)
  match s.current with
  | some t => do
    let s ← driver (npaRequestEnterTransaction p t client s)
    npaRequestExitTransaction p t client s
  | none => do
    let s ← driver (s.coreMutexLock (.node (p.nodeLock (p.resource client))))
    let s ← s.coreMutexUnlock (.node (p.nodeLock (p.resource client)))
    .ok ((s.note (.returned client false)).npaRequestServiced client)

/-- `npa_issue_sync_request`. -/
def npaIssueSyncRequest (client : Handle) (new : Bool) (driver : Thread → Except Check Thread)
    (s : Thread) : Except Check Thread :=
  if new then npaProcessRequest p client driver s
  else
    .ok (((s.note (.issued client)).note (.returned client false)).npaRequestServiced client)

/-- `npa_setup_dependency_request`: the client that is used, and which of the two are left. -/
def npaSetupDependencyRequest (changedType : Bool) (type : ClientType) (req sup : Option Handle) :
    Except Check (Handle × Option Handle × Option Handle) :=
  if changedType then
    match req, sup with
    | some rc, some sc =>
      if p.resource rc = p.resource sc then .ok (rc, some rc, some sc)
      else .error .dependencyClients
    | _, _ => .error .dependencyClients
  else if type = .vector ∨ type = .required then
    match req with
    | some rc => .ok (rc, some rc, none)
    | none => .error .dependencyClients
  else
    match sup with
    | some sc => .ok (sc, none, some sc)
    | none => .error .dependencyClients

/-- `npa_teardown_dependency_request`. -/
def npaTeardownDependencyRequest (req sup : Option Handle) (r : ResourceHandle) (s : Thread) :
    Except Check Thread :=
  match (s.marks r).transaction with
  | some t =>
    match req, sup with
    | some rc, _ => npaRequestExitTransaction p t rc s
    | none, some sc => npaRequestExitTransaction p t sc s
    | none, none => .ok s
  | none =>
    let s := match req with
      | some rc => (s.note (.returned rc false)).npaRequestServiced rc
      | none => s
    let s := match sup with
      | some sc => (s.note (.returned sc false)).npaRequestServiced sc
      | none => s
    s.coreMutexUnlock (.node (p.nodeLock r))

/-- The request of a dependency client, where there is one. -/
def Thread.noteIssued (s : Thread) : Option Handle → Thread
  | some c => s.note (.issued c)
  | none => s

/-- `npa_issue_dependency_request` and `npa_issue_dependency_vector_request`. The teardown is for
two clients only. -/
def npaIssueDependencyRequest (changedType : Bool) (type : ClientType) (req sup : Option Handle)
    (driver : Thread → Except Check Thread) (s : Thread) : Except Check Thread := do
  let (client, req, sup) ← npaSetupDependencyRequest p changedType type req sup
  let r := p.resource client
  let s := (s.noteIssued sup).noteIssued req
  let s ← driver (match s.current with
    | some t => npaRequestEnterTransaction p t client s
    | none => s.coreMutexLock (.node (p.nodeLock r)))
  if req.isSome ∧ sup.isSome then npaTeardownDependencyRequest p req sup r s else .ok s

/-- `npa_transaction_lock_resource`. -/
def npaTransactionLockResource (t : TransactionHandle) (s : Thread) (r : ResourceHandle) : Thread :=
  (s.coreMutexLock (.node (p.nodeLock r))).modify t fun tr =>
    { tr with lockedResources := r :: tr.lockedResources }

/-- `npa_begin_transaction`. -/
def npaBeginTransaction (t : TransactionHandle) (s : Thread) : Except Check Thread := do
  let tr ← s.transaction t
  match tr.lock with
  | none => .error .defined
  | some l =>
    match s.current with
    | some current =>
      if current = t then .error .recursive
      else if tr.attributes.sharedLock then .error .shared
      else .ok (s.modify current fun tr => { tr with depth := tr.depth + 1 })
    | none =>
      let s := { s.coreMutexLock (.transaction l) with current := some t }
      .ok (if tr.attributes.pessimisticLocking then
        tr.resourceList.foldl (npaTransactionLockResource p t) s else s)

/-- `npa_transaction_unlock_resource`. -/
def npaTransactionUnlockResource (s : Thread) (r : ResourceHandle) : Except Check Thread :=
  (s.mark r fun _ => ⟨none, false⟩).coreMutexUnlock (.node (p.nodeLock r))

/-- What `npa_end_transaction` does to the current transaction once the extensions are through. -/
def releaseTransaction (t : TransactionHandle) (s : Thread) : Except Check Thread := do
  let tr ← s.transaction t
  let s ← tr.lockedResources.foldlM (npaTransactionUnlockResource p) s
  let s := s.modify t fun tr => { tr with lockedResources := [], pendingClients := [] }
  match tr.lock with
  | none => .error .defined
  | some l =>
    let s ← { s with current := none }.coreMutexUnlock (.transaction l)
    .ok (tr.pendingClients.foldl Thread.npaRequestServiced (s.note .settled))

/-- `npa_end_transaction`. The functions of the extensions are called as `flush`. -/
def npaEndTransaction (t : TransactionHandle) (flush : Thread → Except Check Thread) (s : Thread) :
    Except Check Thread :=
  match s.current with
  | none => .error .current
  | some current =>
    if current = t then do
      let tr ← s.transaction t
      if tr.depth = 0 then
        let s ← flush s
        releaseTransaction p t s
      else .error .depth
    else do
      let _ ← s.transaction t
      .ok (s.modify current fun tr => { tr with depth := tr.depth - 1 })

/-! ## Scripts -/

/-- What a driver does: it issues requests, ordinary ones or those to its dependencies, marks
resources as forked, and brackets some of that in a transaction. -/
inductive Script
  | done
  | request (client : Handle) (new : Bool) (driver rest : Script)
  | dependencyRequest (changedType : Bool) (type : ClientType) (req sup : Option Handle)
      (driver rest : Script)
  | markForked (r : ResourceHandle) (rest : Script)
  | transaction (t : TransactionHandle) (body flush rest : Script)

/-- Running a script. -/
def Script.run : Script → Thread → Except Check Thread
  | done => .ok
  | request client new driver rest => fun s => do
    let s ← npaIssueSyncRequest p client new driver.run s
    rest.run s
  | dependencyRequest changedType type req sup driver rest => fun s => do
    let s ← npaIssueDependencyRequest p changedType type req sup driver.run s
    rest.run s
  | markForked r rest => fun s => rest.run (s.npaMarkResourceForked r)
  | transaction t body flush rest => fun s => do
    let s ← npaBeginTransaction p t s
    let s ← body.run s
    let s ← npaEndTransaction p t flush.run s
    rest.run s

/-- What a thread does of its own: transactions need not be bracketed here. -/
inductive ThreadOp
  | beginTransaction (t : TransactionHandle)
  | requests (script : Script)
  | endTransaction (t : TransactionHandle) (flush : Script)

/-- Carrying out a call. -/
def ThreadOp.apply (s : Thread) : ThreadOp → Except Check Thread
  | beginTransaction t => npaBeginTransaction p t s
  | requests script => script.run p s
  | endTransaction t flush => npaEndTransaction p t (flush.run p) s

end Npa.Locking
