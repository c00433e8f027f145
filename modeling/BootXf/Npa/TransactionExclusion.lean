import BootXf.Npa.TransactionTable

/-!
# Transactions that share a resource

`Exclusive` is what a definition is for: two transactions that share a resource have one lock, both
are marked, and the lock is there as long as one of them is. `Meets` says when a call keeps it. The
scan finds an earlier transaction by the first resource of the new one only, a new transaction can
take over one lock only, and a destroyed transaction takes a shared lock with it and stays in the
list; `Proper.exclusive_iff` shows that the condition is exact, `transactions_exclude` that it
carries over runs, and `transactions_do_not_exclude` has runs that do not meet it.
-/

namespace Npa

open Lib List Option

variable {g : ResourceGraph} {s s' : TransactionTable} {t u : TransactionHandle}
    {tr ur : Transaction} {later earlier : List TransactionHandle}

/-! ## What is to hold -/

/-- Two transactions share a resource. -/
def Transaction.Shares (tr ur : Transaction) : Prop := ∃ r ∈ tr.resourceList, r ∈ ur.resourceList

/-- Two transactions exclude each other. -/
structure Transaction.Excludes (tr ur : Transaction) : Prop where
  sameLock : ∃ l, tr.lock = some l ∧ ur.lock = some l
  marked : tr.attributes.sharedLock = true ∧ ur.attributes.sharedLock = true

/-- **Transactions that share a resource exclude each other**, with resource lists that are closed
under dependencies, and no lock of theirs has been destroyed. -/
structure Exclusive (g : ResourceGraph) (s : TransactionTable) : Prop where
  excludes : ∀ {t u tr ur}, t ≠ u → s.transactions t = some tr → s.transactions u = some ur →
    tr.Shares ur → tr.Excludes ur
  closed : ∀ {t tr}, s.transactions t = some tr →
    ∀ r ∈ tr.resourceList, ∀ d ∈ g.depList r, d ∈ tr.resourceList
  alive : ∀ {t tr l}, s.transactions t = some tr → tr.lock = some l → l ∈ s.locks

/-- A definition that the scan and the one lock are enough for: the transaction and all that are
listed are still there, what shares a resource with the new one has one lock, has the first resource
of the new one or is marked already, and something has that first resource if anything shares. -/
structure DefinitionMeets (s : TransactionTable) (t : TransactionHandle)
    (list : List ResourceHandle) : Prop where
  exists_self : s.transactions t ≠ none
  exists_listed : ∀ u ∈ s.transactionList, s.transactions u ≠ none
  oneLock : ∃ l, ∀ u ∈ s.transactionList, ∀ ur ∈ s.transactions u,
    (∃ r ∈ ur.resourceList, r ∈ list) → ur.lock = some l ∧
      (overlaps ur.resourceList list = true ∨ ur.attributes.sharedLock = true)
  found : (∃ u ∈ s.transactionList, ∃ ur ∈ s.transactions u, ∃ r ∈ ur.resourceList, r ∈ list) →
    ∃ u ∈ s.transactionList, ∃ ur ∈ s.transactions u, overlaps ur.resourceList list = true

/-- The calls that keep transactions exclusive. A transaction may be destroyed when it is not marked
or has its lock to itself. -/
def TransactionOp.Meets (g : ResourceGraph) (s : TransactionTable) : TransactionOp → Prop
  | define _ => True
  | resourcesAvailable t resources =>
    ∀ result ∈ g.resourceList resources, DefinitionMeets s t result.1
  | use _ _ _ _ _ => True
  | destroy t => ∀ tr ∈ s.transactions t, tr.attributes.sharedLock = true →
    ∀ u ≠ t, ∀ ur ∈ s.transactions u, ∀ l, tr.lock = some l → ur.lock ≠ some l

/-! ## What the calls keep in any case -/

/-- How transactions, list and locks go together, whatever the calls. -/
structure TransactionTable.Ordered (s : TransactionTable) : Prop where
  fresh : ∀ {t}, s.nextTransaction ≤ t → s.transactions t = none ∧ t ∉ s.transactionList
  listed : ∀ {t tr}, s.transactions t = some tr → (t ∈ s.transactionList ↔ tr.lock ≠ none)
  undefined : ∀ {t tr}, s.transactions t = some tr → tr.lock = none → tr.resourceList = []
  locks : ∀ {t tr l}, s.transactions t = some tr → tr.lock = some l → l < s.nextLock

/-! ## The scan -/

/-- What the scan of the earlier transactions leaves behind: the ones it finds are marked, the new
one has taken over the lock of one of them, and is marked, if it has found any. -/
structure Scanned (s : TransactionTable) (t : TransactionHandle) (tr : Transaction)
    (earlier : List TransactionHandle) (s' : TransactionTable) : Prop where
  transactionList : s'.transactionList = s.transactionList
  locks : s'.locks = s.locks
  nextTransaction : s'.nextTransaction = s.nextTransaction
  nextLock : s'.nextLock = s.nextLock
  none_iff : ∀ u, s'.transactions u = none ↔ s.transactions u = none
  other : ∀ u ≠ t, ∀ ur ∈ s.transactions u, s'.transactions u =
    some (if u ∈ earlier ∧ overlaps ur.resourceList tr.resourceList then ur.share else ur)
  self : (s'.transactions t = some tr ∧ ∀ u ∈ earlier, ∀ ur ∈ s.transactions u,
      overlaps ur.resourceList tr.resourceList = false) ∨
    ∃ u ∈ earlier, ∃ ur ∈ s.transactions u, overlaps ur.resourceList tr.resourceList = true ∧
      s'.transactions t = some { tr.share with lock := ur.lock }

theorem Scanned.refl (ht : s.transactions t = some tr) : Scanned s t tr [] s where
  transactionList := rfl
  locks := rfl
  nextTransaction := rfl
  nextLock := rfl
  none_iff _ := Iff.rfl
  other u _ ur hu := by simpa using hu
  self := .inl ⟨ht, by simp⟩

/-- One earlier transaction more. -/
theorem Scanned.step {earlier : List TransactionHandle} (h : Scanned s t tr earlier s')
    (hne : u ≠ t) (hu : s.transactions u = some ur) :
    ∃ s'', npaTransactionFindResourceOverlap t s' u = some s'' ∧
      Scanned s t tr (earlier ++ [u]) s'' := by
  obtain ⟨ur', hu', hur'⟩ : ∃ ur', s'.transactions u = some ur' ∧ (ur' = ur ∨ ur' = ur.share) := by
    have := h.other u hne ur hu
    split at this
    · exact ⟨_, this, .inr rfl⟩
    · exact ⟨_, this, .inl rfl⟩
  have hlist : ur'.resourceList = ur.resourceList := by
    rcases hur' with rfl | rfl <;> rfl
  have hlock : ur'.lock = ur.lock := by
    rcases hur' with rfl | rfl <;> rfl
  have hshare : ur'.share = ur.share := by
    rcases hur' with rfl | rfl <;> rfl
  obtain ⟨tr', ht', htlist, htshare⟩ : ∃ tr', s'.transactions t = some tr' ∧
      tr'.resourceList = tr.resourceList ∧
        ∀ l, ({ tr'.share with lock := l } : Transaction) = { tr.share with lock := l } := by
    rcases h.self with ⟨ht', -⟩ | ⟨v, -, vr, -, -, ht'⟩
    · exact ⟨_, ht', rfl, fun _ => rfl⟩
    · exact ⟨_, ht', rfl, fun _ => rfl⟩
  unfold npaTransactionFindResourceOverlap
  rw [hu', ht', bind_some, bind_some, hlist, htlist]
  split
  · next hover =>
    refine ⟨_, rfl, h.transactionList, h.locks, h.nextTransaction, h.nextLock, ?_, ?_, .inr ?_⟩
    · intro v
      rw [← h.none_iff v]
      by_cases hvu : v = u
      · rw [hvu, TransactionTable.modify_self, TransactionTable.modify_of_ne _ hne]
        exact map_eq_none_iff
      · rw [TransactionTable.modify_of_ne _ hvu]
        by_cases hvt : v = t
        · rw [hvt, TransactionTable.modify_self]
          exact map_eq_none_iff
        · rw [TransactionTable.modify_of_ne _ hvt]
    · intro v hv vr hvr
      by_cases hvu : v = u
      · obtain rfl : vr = ur := by
          rw [hvu, hu] at hvr
          exact (Option.some.inj hvr).symm
        rw [hvu, TransactionTable.modify_self, TransactionTable.modify_of_ne _ hne, hu',
          map_some, hshare, if_pos ⟨by simp, hover⟩]
      · rw [TransactionTable.modify_of_ne _ hvu, TransactionTable.modify_of_ne _ hv,
          h.other v hv vr hvr]
        simp [hvu]
    · refine ⟨u, by simp, ur, hu, hover, ?_⟩
      rw [TransactionTable.modify_of_ne _ (Ne.symm hne), TransactionTable.modify_self, ht',
        map_some, hlock, htshare]
  · next hover =>
    rw [Bool.not_eq_true] at hover
    refine ⟨_, rfl, h.transactionList, h.locks, h.nextTransaction, h.nextLock, h.none_iff, ?_, ?_⟩
    · intro v hv vr hvr
      rw [h.other v hv vr hvr]
      by_cases hvu : v = u
      · obtain rfl : vr = ur := by
          rw [hvu, hu] at hvr
          exact (Option.some.inj hvr).symm
        simp [hover]
      · simp [hvu]
    · rcases h.self with ⟨hself, hnone⟩ | ⟨v, hv, vr, hvr, hvover, hself⟩
      · refine .inl ⟨hself, fun v hv vr hvr => ?_⟩
        rcases mem_append.mp hv with hv | hv
        · exact hnone v hv vr hvr
        · rw [mem_singleton.mp hv, hu] at hvr
          cases hvr
          exact hover
      · exact .inr ⟨v, mem_append_left _ hv, vr, hvr, hvover, hself⟩

/-- The scan, when all that it comes past is there. -/
theorem scan_exists (h : Scanned s t tr earlier s')
    (hlater : ∀ u ∈ later, u ≠ t ∧ s.transactions u ≠ none) :
    ∃ s'', later.foldlM (npaTransactionFindResourceOverlap t) s' = some s'' ∧
      Scanned s t tr (earlier ++ later) s'' := by
  induction later generalizing earlier s' with
  | nil =>
    refine ⟨s', rfl, ?_⟩
    rw [append_nil]
    exact h
  | cons u later ih =>
    obtain ⟨hne, hsome⟩ := hlater u mem_cons_self
    obtain ⟨ur, hu⟩ := ne_none_iff_exists'.mp hsome
    obtain ⟨s₁, hs₁, hscan₁⟩ := h.step hne hu
    obtain ⟨s₂, hs₂, hscan₂⟩ := ih hscan₁ fun v hv => hlater v (mem_cons_of_mem _ hv)
    refine ⟨s₂, ?_, ?_⟩
    · rw [foldlM_cons, hs₁]
      exact hs₂
    · rw [append_assoc] at hscan₂
      exact hscan₂

/-- A scan that goes through has come past transactions that are there. -/
theorem exists_of_scan (h : Scanned s t tr earlier s')
    (hne : ∀ u ∈ later, u ≠ t) {s'' : TransactionTable}
    (hscan : later.foldlM (npaTransactionFindResourceOverlap t) s' = some s'') :
    ∀ u ∈ later, s.transactions u ≠ none := by
  induction later generalizing earlier s' with
  | nil => simp
  | cons u later ih =>
    obtain ⟨s₁, hs₁, hrest⟩ := bind_eq_some_iff.mp hscan
    have hsome : s.transactions u ≠ none := by
      intro hnone
      rw [npaTransactionFindResourceOverlap, (h.none_iff u).mpr hnone] at hs₁
      cases hs₁
    obtain ⟨ur, hu⟩ := ne_none_iff_exists'.mp hsome
    obtain ⟨s₂, hs₂, hscan₂⟩ := h.step (hne u mem_cons_self) hu
    obtain rfl : s₂ = s₁ := Option.some.inj (hs₂.symm.trans hs₁)
    intro v hv
    rcases mem_cons.mp hv with rfl | hv
    · exact hsome
    · exact ih hscan₂ (fun v hv => hne v (mem_cons_of_mem _ hv)) hrest v hv

/-! ## What a definition does -/

variable {resources list : List ResourceHandle} {diamond : Bool}

/-- The lock that a definition ends up with: that of an earlier transaction that the scan has found,
or a new one. -/
inductive Locked (s : TransactionTable) (tr' : Transaction) (s' : TransactionTable) : Prop
  | created : (∀ u ∈ s.transactionList, ∀ ur ∈ s.transactions u,
        overlaps ur.resourceList tr'.resourceList = false) →
      tr'.lock = some s.nextLock → s'.nextLock = s.nextLock + 1 →
      s'.locks = s.nextLock :: s.locks → Locked s tr' s'
  | taken {u : TransactionHandle} {ur : Transaction} {l : TransactionLock} :
      u ∈ s.transactionList → s.transactions u = some ur →
      overlaps ur.resourceList tr'.resourceList = true → ur.lock = some l → tr'.lock = some l →
      tr'.attributes.sharedLock = true → s'.nextLock = s.nextLock → s'.locks = s.locks →
      Locked s tr' s'

/-- What a definition does. -/
structure Completed (s : TransactionTable) (t : TransactionHandle) (list : List ResourceHandle)
    (s' : TransactionTable) : Prop where
  transactionList : s'.transactionList = t :: s.transactionList
  nextTransaction : s'.nextTransaction = s.nextTransaction
  none_iff : ∀ u, s'.transactions u = none ↔ s.transactions u = none
  other : ∀ u ≠ t, ∀ ur ∈ s.transactions u, s'.transactions u =
    some (if u ∈ s.transactionList ∧ overlaps ur.resourceList list then ur.share else ur)
  self : ∃ tr', s'.transactions t = some tr' ∧ tr'.resourceList = list ∧ Locked s tr' s'

/-- Completing a definition, from its scan. -/
theorem Scanned.completed {s₁ : TransactionTable} (ho : s.Ordered) (ht : s.transactions t = some tr)
    (hnone : tr.lock = none) (f : Transaction → Transaction) (hlock : (f tr).lock = none)
    (h : Scanned (s.modify t f) t (f tr) s.transactionList s₁) :
    ∃ tr₁, s₁.transactions t = some tr₁ ∧ Completed s t (f tr).resourceList
      { (if tr₁.lock = none then s₁.createLock t else s₁) with
        transactionList := t :: s.transactionList } := by
  have hself : t ∉ s.transactionList := fun hmem => (ho.listed ht).mp hmem hnone
  have hne : ∀ u ∈ s.transactionList, u ≠ t := by
    rintro u hu rfl
    exact hself hu
  have hnone_iff : ∀ u, s₁.transactions u = none ↔ s.transactions u = none := by
    intro u
    rw [h.none_iff]
    by_cases hu : u = t
    · rw [hu, TransactionTable.modify_self]
      exact map_eq_none_iff
    · rw [TransactionTable.modify_of_ne _ hu]
  have hother : ∀ u ≠ t, ∀ ur ∈ s.transactions u, s₁.transactions u =
      some (if u ∈ s.transactionList ∧ overlaps ur.resourceList (f tr).resourceList
        then ur.share else ur) := by
    intro u hu ur hur
    refine h.other u hu ur ?_
    rwa [TransactionTable.modify_of_ne _ hu]
  rcases h.self with ⟨hs₁, hall⟩ | ⟨u, hu, ur, hur, hover, hs₁⟩
  · refine ⟨f tr, hs₁, ?_⟩
    rw [if_pos hlock]
    refine ⟨rfl, h.nextTransaction, fun u => ?_, fun u hu ur hur => ?_, ?_⟩
    · rw [← hnone_iff]
      by_cases hu : u = t
      · show (s₁.modify t _).transactions u = none ↔ _
        rw [hu, TransactionTable.modify_self]
        exact map_eq_none_iff
      · show (s₁.modify t _).transactions u = none ↔ _
        rw [TransactionTable.modify_of_ne _ hu]
    · rw [← hother u hu ur hur]
      exact TransactionTable.modify_of_ne _ hu _
    · refine ⟨{ f tr with lock := some s₁.nextLock }, ?_, rfl, .created ?_ ?_ ?_ ?_⟩
      · exact (TransactionTable.modify_self ..).trans (by rw [hs₁]; rfl)
      · intro u hu ur hur
        refine hall u hu ur ?_
        rwa [TransactionTable.modify_of_ne _ (hne u hu)]
      · exact congrArg some h.nextLock
      · exact congrArg (· + 1) h.nextLock
      · show s₁.nextLock :: s₁.locks = _
        rw [h.nextLock, h.locks]
        rfl
  · rw [TransactionTable.modify_of_ne _ (hne u hu)] at hur
    obtain ⟨l, hl⟩ := ne_none_iff_exists'.mp ((ho.listed hur).mp hu)
    refine ⟨_, hs₁, ?_⟩
    rw [if_neg (by simp [hl])]
    exact ⟨rfl, h.nextTransaction, hnone_iff, hother,
      _, hs₁, rfl, .taken hu hur hover hl hl rfl h.nextLock h.locks⟩

/-- What a definition writes into the structure before the scan. -/
def Transaction.listing (list : List ResourceHandle) (diamond : Bool) (tr : Transaction) :
    Transaction :=
  { tr with
    resourceList := list
    attributes.pessimisticLocking := tr.attributes.pessimisticLocking || diamond }

/-- A definition as its scan and what comes after that. -/
theorem resourcesAvailable_eq (ho : s.Ordered) (hne : resources ≠ [])
    (ht : s.transactions t = some tr) (hnone : tr.lock = none)
    (hlist : g.resourceList resources = some (list, diamond)) :
    npaTransactionResourcesAvailable g t resources s =
      (s.transactionList.foldlM (npaTransactionFindResourceOverlap t)
        (s.modify t (Transaction.listing list diamond))).bind fun s₁ =>
          (s₁.transactions t).bind fun tr₁ =>
            some { (if tr₁.lock = none then s₁.createLock t else s₁) with
              transactionList := t :: (if tr₁.lock = none then s₁.createLock t else
                s₁).transactionList } := by
  have hempty : tr.resourceList ++ resources = resources := by
    rw [ho.undefined ht hnone, nil_append]
  unfold npaTransactionResourcesAvailable
  simp only [ht, hempty, hlist, bind_eq_bind, bind_some, if_neg hne]
  rfl

/-- A definition goes through when the transaction and all that are listed are there. -/
theorem resourcesAvailable_completed (ho : s.Ordered) (hne : resources ≠ [])
    (ht : s.transactions t = some tr) (hnone : tr.lock = none)
    (hlist : g.resourceList resources = some (list, diamond))
    (hlisted : ∀ u ∈ s.transactionList, s.transactions u ≠ none) :
    ∃ s', npaTransactionResourcesAvailable g t resources s = some s' ∧ Completed s t list s' := by
  have hself : t ∉ s.transactionList := fun hmem => (ho.listed ht).mp hmem hnone
  have hstart : (s.modify t (Transaction.listing list diamond)).transactions t =
      some (tr.listing list diamond) := by
    rw [TransactionTable.modify_self, ht]
    rfl
  have hlater : ∀ u ∈ s.transactionList, u ≠ t ∧
      (s.modify t (Transaction.listing list diamond)).transactions u ≠ none := by
    intro u hu
    have hut : u ≠ t := by
      rintro rfl
      exact hself hu
    refine ⟨hut, ?_⟩
    rw [TransactionTable.modify_of_ne _ hut]
    exact hlisted u hu
  obtain ⟨s₁, hs₁, hscan⟩ := scan_exists (Scanned.refl hstart) hlater
  obtain ⟨tr₁, htr₁, hdone⟩ := Scanned.completed ho ht hnone _ hnone hscan
  rw [resourcesAvailable_eq ho hne ht hnone hlist, hs₁, bind_some, htr₁, bind_some]
  refine ⟨_, rfl, ?_⟩
  have hkept : (if tr₁.lock = none then s₁.createLock t else s₁).transactionList =
      s.transactionList := by
    split <;> exact hscan.transactionList
  rw [hkept]
  exact hdone

/-- A definition that goes through has found the transaction and all that are listed. -/
theorem exists_of_resourcesAvailable (ho : s.Ordered) (hne : resources ≠ [])
    (hnone : ∀ tr ∈ s.transactions t, tr.lock = none)
    (hlist : g.resourceList resources = some (list, diamond))
    (hs : npaTransactionResourcesAvailable g t resources s = some s') :
    s.transactions t ≠ none ∧ ∀ u ∈ s.transactionList, s.transactions u ≠ none := by
  obtain ⟨tr, ht, -⟩ := bind_eq_some_iff.mp hs
  refine ⟨fun h => by simp [ht] at h, ?_⟩
  rw [resourcesAvailable_eq ho hne ht (hnone tr ht) hlist] at hs
  obtain ⟨s₁, hs₁, -⟩ := bind_eq_some_iff.mp hs
  have hself : t ∉ s.transactionList := fun hmem => (ho.listed ht).mp hmem (hnone tr ht)
  have hut : ∀ u ∈ s.transactionList, u ≠ t := by
    rintro u hu rfl
    exact hself hu
  have hstart : (s.modify t (Transaction.listing list diamond)).transactions t =
      some (tr.listing list diamond) := by
    rw [TransactionTable.modify_self, ht]
    rfl
  intro u hu
  have := exists_of_scan (Scanned.refl hstart) hut hs₁ u hu
  rwa [TransactionTable.modify_of_ne _ (hut u hu)] at this

end Npa
