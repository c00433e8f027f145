import BootXf.Lib.Run
import BootXf.Npa.Resource
import BootXf.Npa.TransactionResources

/-!
# Defining and destroying transactions

The transactions that exist, the list of the defined ones and the mutexes that go with them.
Handles and mutexes are numbered as they are created and no number comes twice, so that a look at a
structure that has been freed shows: it is the end of the run, as a failed check is. A call is one
step, since definitions exclude each other by `npa_transaction_lock`.
-/

namespace Npa

open Lib

/-- The address of a transaction structure. -/
abbrev TransactionHandle := Nat

/-- The mutex of a transaction. -/
abbrev TransactionLock := Nat

/-- `attributes`: `NPA_TRANSACTION_PESSIMISTIC_LOCKING` and `NPA_TRANSACTION_SHARED_LOCK`. -/
structure TransactionAttributes where
  pessimisticLocking : Bool
  sharedLock : Bool
  deriving DecidableEq

/-- `npa_transaction`. The lock is not there before the definition is complete. -/
structure Transaction where
  attributes : TransactionAttributes
  lock : Option TransactionLock
  depth : UInt32
  resourceList : List ResourceHandle
  activeResources : List ResourceHandle
  lockedResources : List ResourceHandle
  pendingClients : List Handle
  deriving DecidableEq

namespace Transaction

/-- A cleared structure with its attributes. -/
def new (attributes : TransactionAttributes) : Transaction := ⟨attributes, none, 0, [], [], [], []⟩

/-- `attributes |= NPA_TRANSACTION_SHARED_LOCK`. -/
def share (tr : Transaction) : Transaction :=
  { tr with attributes := { tr.attributes with sharedLock := true } }

@[simp] theorem share_sharedLock (tr : Transaction) : tr.share.attributes.sharedLock = true := rfl

end Transaction

/-- The transactions by handle, `none` for what has not been created or has been destroyed;
`npa_transaction_list`, newest first; and the mutexes. -/
structure TransactionTable where
  transactions : TransactionHandle → Option Transaction
  transactionList : List TransactionHandle
  locks : List TransactionLock
  nextTransaction : TransactionHandle
  nextLock : TransactionLock

namespace TransactionTable

/-- Before the first definition. -/
def initial : TransactionTable := ⟨fun _ => none, [], [], 0, 0⟩

variable (s : TransactionTable)

/-- Writing to a transaction structure. -/
def modify (t : TransactionHandle) (f : Transaction → Transaction) : TransactionTable :=
  { s with transactions := fun u => if u = t then (s.transactions u).map f else s.transactions u }

theorem modify_self (t : TransactionHandle) (f : Transaction → Transaction) :
    (s.modify t f).transactions t = (s.transactions t).map f := if_pos rfl

theorem modify_of_ne {t u : TransactionHandle} (h : u ≠ t) (f : Transaction → Transaction) :
    (s.modify t f).transactions u = s.transactions u := if_neg h

end TransactionTable

/-! ## The functions -/

/-- The two loops of `npa_transaction_find_resource_overlap`. The inner one runs `it1` to the end of
its list, and for the next `it2` it is still there. -/
def overlaps (it1 : List ResourceHandle) : List ResourceHandle → Bool
  | [] => false
  | data :: it2 => if it1.contains data then true else overlaps [] it2

/-- Only the first element of the second list is looked for. -/
theorem overlaps_iff {l₁ l₂ : List ResourceHandle} :
    overlaps l₁ l₂ = true ↔ ∃ r ∈ l₂.head?, r ∈ l₁ := by
  have hnil : ∀ l, overlaps [] l = false := by
    intro l
    induction l with
    | nil => rfl
    | cons r l ih => simpa [overlaps] using ih
  cases l₂ with
  | nil => simp [overlaps]
  | cons r l => simp [overlaps, hnil]

variable (g : ResourceGraph)

/-- `npa_transaction_find_resource_overlap`, for a transaction `t2` that is being defined and one
that has been before. -/
def npaTransactionFindResourceOverlap (t2 : TransactionHandle) (s : TransactionTable)
    (t1 : TransactionHandle) : Option TransactionTable :=
  (s.transactions t1).bind fun tr1 => (s.transactions t2).bind fun tr2 =>
    if overlaps tr1.resourceList tr2.resourceList then
      some ((s.modify t2 fun tr => { tr.share with lock := tr1.lock }).modify t1 Transaction.share)
    else
      some s

/-- `transaction->lock = Core_MutexCreate(...)`. -/
def TransactionTable.createLock (s : TransactionTable) (t : TransactionHandle) : TransactionTable :=
  { s.modify t fun tr => { tr with lock := some s.nextLock } with
    locks := s.nextLock :: s.locks, nextLock := s.nextLock + 1 }

/-- `npa_transaction_resources_available`. -/
def npaTransactionResourcesAvailable (t : TransactionHandle) (resources : List ResourceHandle)
    (s : TransactionTable) : Option TransactionTable := do
  let tr ← s.transactions t
  if resources = [] then none
  let (list, diamond) ← g.resourceList (tr.resourceList ++ resources)
  let s := s.modify t fun tr =>
    { tr with
      resourceList := list
      attributes.pessimisticLocking := tr.attributes.pessimisticLocking || diamond }
  let s ← s.transactionList.foldlM (npaTransactionFindResourceOverlap t) s
  let tr ← s.transactions t
  let s := if tr.lock = none then s.createLock t else s
  some { s with transactionList := t :: s.transactionList }

/-- `npa_define_transaction`, up to the callback that completes it. -/
def npaDefineTransaction (attributes : TransactionAttributes) (s : TransactionTable) :
    TransactionTable :=
  { s with
    transactions := fun u =>
      if u = s.nextTransaction then some (.new attributes) else s.transactions u
    nextTransaction := s.nextTransaction + 1 }

/-- `Core_MutexDestroy`, which tolerates `NULL`. -/
def coreMutexDestroy (lock : Option TransactionLock) (s : TransactionTable) :
    Option TransactionTable :=
  match lock with
  | none => some s
  | some l => if l ∈ s.locks then some { s with locks := s.locks.filter (· != l) } else none

/-- `npa_destroy_transaction`. The transaction stays in `npa_transaction_list`. -/
def npaDestroyTransaction (t : TransactionHandle) (s : TransactionTable) :
    Option TransactionTable := do
  let tr ← s.transactions t
  if tr.activeResources ≠ [] then none
  if tr.lockedResources ≠ [] then none
  let s ← if tr.attributes.sharedLock then coreMutexDestroy tr.lock s else some s
  some { s with transactions := fun u => if u = t then none else s.transactions u }

/-! ## Calls -/

/-- The calls on transactions. `resourcesAvailable` is the callback that completes a definition;
`use` is whatever `npa_begin_transaction`, requests and `npa_end_transaction` do to a transaction.
-/
inductive TransactionOp
  | define (attributes : TransactionAttributes)
  | resourcesAvailable (t : TransactionHandle) (resources : List ResourceHandle)
  | use (t : TransactionHandle) (depth : UInt32) (active locked : List ResourceHandle)
      (pending : List Handle)
  | destroy (t : TransactionHandle)

namespace TransactionOp

/-- Carrying out a call. -/
def apply (s : TransactionTable) : TransactionOp → Option TransactionTable
  | define attributes => some (npaDefineTransaction attributes s)
  | resourcesAvailable t resources => npaTransactionResourcesAvailable g t resources s
  | use t depth active locked pending =>
    some (s.modify t fun tr =>
      { tr with
        depth, activeResources := active, lockedResources := locked, pendingClients := pending })
  | destroy t => npaDestroyTransaction t s

/-- What the callers see to: a definition names a resource at least, it is completed once, and a
transaction is destroyed once, when it has been ended. -/
def Proper (s : TransactionTable) : TransactionOp → Prop
  | define _ => True
  | resourcesAvailable t resources =>
    t < s.nextTransaction ∧ resources ≠ [] ∧ ∀ tr ∈ s.transactions t, tr.lock = none
  | use _ _ _ _ _ => True
  | destroy t => ∃ tr ∈ s.transactions t, tr.activeResources = [] ∧ tr.lockedResources = []

end TransactionOp

end Npa
