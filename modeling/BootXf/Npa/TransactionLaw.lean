import BootXf.Npa.TransactionExclusion

/-!
# When transactions exclude each other

`Ordered.step` is the invariant of the table in any run. `exclusive_define` to `exclusive_destroy`
say, call by call, when `Exclusive` survives; `Proper.exclusive_iff` puts them together and
`transactions_exclude` is the run.
-/

namespace Npa

open Lib List Option

variable {g : ResourceGraph} {s s' : TransactionTable} {t u : TransactionHandle}
    {tr ur : Transaction}
  {op : TransactionOp} {list : List ResourceHandle} {tr' : Transaction}

theorem Transaction.Shares.symm (h : tr.Shares ur) : ur.Shares tr := by
  obtain ⟨r, hr, hr'⟩ := h
  exact ⟨r, hr', hr⟩

theorem Transaction.Excludes.symm (h : tr.Excludes ur) : ur.Excludes tr := by
  obtain ⟨⟨l, hl, hl'⟩, hm, hm'⟩ := h
  exact ⟨⟨l, hl', hl⟩, hm', hm⟩

/-- What the scan finds shares a resource. -/
theorem shares_of_overlaps {l₁ l₂ : List ResourceHandle} (h : overlaps l₁ l₂ = true) :
    ∃ r ∈ l₁, r ∈ l₂ := by
  obtain ⟨r, hr, hmem⟩ := overlaps_iff.mp h
  exact ⟨r, hmem, mem_of_mem_head? hr⟩

/-! ## The other transactions during a definition -/

/-- Another transaction keeps its lock and its resources, and is marked if the scan finds it. -/
theorem Completed.other_of_some {ur' : Transaction} (h : Completed s t list s') (hu : u ≠ t)
    (hur' : s'.transactions u = some ur') : ∃ ur, s.transactions u = some ur ∧
      ur'.lock = ur.lock ∧ ur'.resourceList = ur.resourceList ∧
      (ur'.attributes.sharedLock = true ↔ ur.attributes.sharedLock = true ∨
        u ∈ s.transactionList ∧ overlaps ur.resourceList list = true) := by
  obtain ⟨ur, hur⟩ := ne_none_iff_exists'.mp fun hnone => by
    rw [(h.none_iff u).mpr hnone] at hur'
    cases hur'
  have heq := (h.other u hu ur hur).symm.trans hur'
  refine ⟨ur, hur, ?_⟩
  split at heq
  · next hover =>
    cases heq
    exact ⟨rfl, rfl, by simp [hover]⟩
  · next hover =>
    cases heq
    exact ⟨rfl, rfl, by simp [hover]⟩

theorem Locked.exists_lock (h : Locked s tr' s') : ∃ l, tr'.lock = some l := by
  cases h with
  | created _ hl => exact ⟨_, hl⟩
  | taken _ _ _ _ hl => exact ⟨_, hl⟩

theorem Locked.nextLock_le (h : Locked s tr' s') :
    s.nextLock ≤ s'.nextLock := by
  cases h with
  | created _ _ hnext =>
    rw [hnext]
    exact Nat.le_succ _
  | taken _ _ _ _ _ _ hnext => exact Nat.le_of_eq hnext.symm

theorem Locked.mem_locks {l : TransactionLock} (h : Locked s tr' s')
    (hl : l ∈ s.locks) : l ∈ s'.locks := by
  cases h with
  | created _ _ _ hlocks =>
    rw [hlocks]
    exact mem_cons_of_mem _ hl
  | taken _ _ _ _ _ _ _ hlocks => rwa [hlocks]

/-! ## The table in any run -/

theorem TransactionTable.ordered_initial : TransactionTable.initial.Ordered where
  fresh _ := ⟨rfl, not_mem_nil⟩
  listed h := by cases h
  undefined h := by cases h
  locks h := by cases h

namespace TransactionTable.Ordered

theorem define (ho : s.Ordered) (attributes : TransactionAttributes) :
    (npaDefineTransaction attributes s).Ordered := by
  have hcases : ∀ {u ur}, (npaDefineTransaction attributes s).transactions u = some ur →
      u = s.nextTransaction ∧ ur = .new attributes ∨ s.transactions u = some ur := by
    intro u ur h
    by_cases hu : u = s.nextTransaction
    · exact .inl ⟨hu, (Option.some.inj ((if_pos hu).symm.trans h)).symm⟩
    · exact .inr ((if_neg hu).symm.trans h)
  refine ⟨fun {u} hu => ?_, fun {u ur} hur => ?_, fun {u ur} hur hnone => ?_,
    fun {u ur l} hur hl => ?_⟩
  · have hu : s.nextTransaction + 1 ≤ u := hu
    have hfresh := ho.fresh (Nat.le_of_succ_le hu)
    exact ⟨(if_neg (Nat.ne_of_gt hu)).trans hfresh.1, hfresh.2⟩
  · rcases hcases hur with ⟨rfl, rfl⟩ | hur
    · exact ⟨fun h => absurd h (ho.fresh (Nat.le_refl _)).2, fun h => absurd rfl h⟩
    · exact ho.listed hur
  · rcases hcases hur with ⟨rfl, rfl⟩ | hur
    · rfl
    · exact ho.undefined hur hnone
  · rcases hcases hur with ⟨rfl, rfl⟩ | hur
    · cases hl
    · exact ho.locks hur hl

theorem completed (ho : s.Ordered) (ht : t < s.nextTransaction) (h : Completed s t list s') :
    s'.Ordered := by
  obtain ⟨tr', htr', hlist, hlocked⟩ := h.self
  obtain ⟨l', hl'⟩ := hlocked.exists_lock
  refine ⟨fun {u} hu => ?_, fun {u ur'} hur' => ?_, fun {u ur'} hur' hnone => ?_,
    fun {u ur' l} hur' hl => ?_⟩
  · rw [h.nextTransaction] at hu
    obtain ⟨hnone, hnot⟩ := ho.fresh hu
    rw [h.none_iff, h.transactionList]
    refine ⟨hnone, fun hmem => ?_⟩
    rcases mem_cons.mp hmem with rfl | hmem
    · exact absurd ht (Nat.not_lt.mpr hu)
    · exact hnot hmem
  · rw [h.transactionList]
    by_cases hu : u = t
    · subst hu
      cases hur'.symm.trans htr'
      simp [hl']
    · obtain ⟨ur, hur, hlock, -⟩ := h.other_of_some hu hur'
      rw [hlock, ← ho.listed hur]
      simp [hu]
  · by_cases hu : u = t
    · subst hu
      cases hur'.symm.trans htr'
      rw [hl'] at hnone
      cases hnone
    · obtain ⟨ur, hur, hlock, hres, -⟩ := h.other_of_some hu hur'
      rw [hres]
      exact ho.undefined hur (hlock.symm.trans hnone)
  · by_cases hu : u = t
    · subst hu
      cases hur'.symm.trans htr'
      cases hlocked with
      | created _ hnew hnext =>
        rw [hnext]
        cases hnew.symm.trans hl
        exact Nat.lt_succ_self _
      | taken _ hv _ hlock hsame _ hnext =>
        rw [hnext]
        cases hsame.symm.trans hl
        exact ho.locks hv hlock
    · obtain ⟨ur, hur, hlock, -⟩ := h.other_of_some hu hur'
      exact Nat.lt_of_lt_of_le (ho.locks hur (hlock.symm.trans hl)) hlocked.nextLock_le

/-- Writing to a structure without changing its lock and its resources. -/
theorem modify (ho : s.Ordered) {f : Transaction → Transaction}
    (hf : ∀ tr, (f tr).lock = tr.lock ∧ (f tr).resourceList = tr.resourceList) :
    (s.modify t f).Ordered := by
  have hcases : ∀ {u ur'}, (s.modify t f).transactions u = some ur' →
      ∃ ur, s.transactions u = some ur ∧ ur'.lock = ur.lock ∧
        ur'.resourceList = ur.resourceList := by
    intro u ur' h
    by_cases hu : u = t
    · rw [hu, TransactionTable.modify_self] at h
      obtain ⟨ur, hur, rfl⟩ := map_eq_some_iff.mp h
      exact ⟨ur, hu ▸ hur, hf ur⟩
    · rw [TransactionTable.modify_of_ne _ hu] at h
      exact ⟨ur', h, rfl, rfl⟩
  refine ⟨fun {u} hu => ?_, fun {u ur'} hur' => ?_, fun {u ur'} hur' hnone => ?_,
    fun {u ur' l} hur' hl => ?_⟩
  · obtain ⟨hnone, hnot⟩ := ho.fresh hu
    refine ⟨?_, hnot⟩
    by_cases hut : u = t
    · rw [hut, TransactionTable.modify_self, ← hut, hnone]
      rfl
    · rwa [TransactionTable.modify_of_ne _ hut]
  · obtain ⟨ur, hur, hlock, -⟩ := hcases hur'
    rw [hlock]
    exact ho.listed hur
  · obtain ⟨ur, hur, hlock, hres⟩ := hcases hur'
    rw [hres]
    exact ho.undefined hur (hlock.symm.trans hnone)
  · obtain ⟨ur, hur, hlock, -⟩ := hcases hur'
    exact ho.locks hur (hlock.symm.trans hl)

/-- Freeing a structure, whichever locks there are then. -/
theorem clear (ho : s.Ordered) (locks : List TransactionLock) :
    ({ s with
      locks, transactions := fun u => if u = t then none else s.transactions u } :
        TransactionTable).Ordered := by
  have hcases : ∀ {u ur}, (if u = t then none else s.transactions u) = some ur →
      s.transactions u = some ur := by
    intro u ur h
    split at h
    · cases h
    · exact h
  refine ⟨fun {u} hu => ⟨?_, (ho.fresh hu).2⟩, fun hur => ho.listed (hcases hur),
    fun hur => ho.undefined (hcases hur), fun hur => ho.locks (hcases hur)⟩
  show (if u = t then none else s.transactions u) = none
  rw [(ho.fresh hu).1, ite_self]

end TransactionTable.Ordered

/-! ## When a call keeps transactions exclusive -/

theorem exclusive_define (he : Exclusive g s) (attributes : TransactionAttributes) :
    Exclusive g (npaDefineTransaction attributes s) := by
  have hcases : ∀ {u ur}, (npaDefineTransaction attributes s).transactions u = some ur →
      ur = .new attributes ∨ s.transactions u = some ur := by
    intro u ur h
    by_cases hu : u = s.nextTransaction
    · exact .inl (Option.some.inj ((if_pos hu).symm.trans h)).symm
    · exact .inr ((if_neg hu).symm.trans h)
  refine ⟨fun {t u tr ur} hne htr hur hshares => ?_, fun {u ur} hur => ?_,
    fun {u ur l} hur hl => ?_⟩
  · obtain ⟨r, hr, hr'⟩ := hshares
    rcases hcases htr with rfl | htr
    · cases hr
    · rcases hcases hur with rfl | hur
      · cases hr'
      · exact he.excludes hne htr hur ⟨r, hr, hr'⟩
  · rcases hcases hur with rfl | hur
    · exact fun r hr => by cases hr
    · exact he.closed hur
  · rcases hcases hur with rfl | hur
    · cases hl
    · exact he.alive hur hl

/-- Writing to a structure without changing its lock, its resources and its mark. -/
theorem Exclusive.modify (he : Exclusive g s) {f : Transaction → Transaction}
    (hf : ∀ tr, (f tr).lock = tr.lock ∧ (f tr).resourceList = tr.resourceList ∧
      (f tr).attributes = tr.attributes) : Exclusive g (s.modify t f) := by
  have hcases : ∀ {u ur'}, (s.modify t f).transactions u = some ur' →
      ∃ ur, s.transactions u = some ur ∧ ur'.lock = ur.lock ∧ ur'.resourceList = ur.resourceList ∧
        ur'.attributes = ur.attributes := by
    intro u ur' h
    by_cases hu : u = t
    · rw [hu, TransactionTable.modify_self] at h
      obtain ⟨ur, hur, rfl⟩ := map_eq_some_iff.mp h
      exact ⟨ur, hu ▸ hur, hf ur⟩
    · rw [TransactionTable.modify_of_ne _ hu] at h
      exact ⟨ur', h, rfl, rfl, rfl⟩
  refine ⟨fun {v u vr' ur'} hne hvr' hur' hshares => ?_, fun {u ur'} hur' => ?_,
    fun {u ur' l} hur' hl => ?_⟩
  · obtain ⟨vr, hvr, hvl, hvres, hva⟩ := hcases hvr'
    obtain ⟨ur, hur, hul, hures, hua⟩ := hcases hur'
    unfold Transaction.Shares at hshares
    rw [hvres, hures] at hshares
    obtain ⟨hlock, hmarked⟩ := he.excludes hne hvr hur hshares
    refine ⟨?_, ?_⟩
    · rwa [hvl, hul]
    · rwa [hva, hua]
  · obtain ⟨ur, hur, -, hres, -⟩ := hcases hur'
    rw [hres]
    exact he.closed hur
  · obtain ⟨ur, hur, hlock, -⟩ := hcases hur'
    exact he.alive hur (hlock.symm.trans hl)

/-- **A completed definition keeps transactions exclusive exactly under its condition.** -/
theorem Completed.exclusive_iff (ho : s.Ordered) (he : Exclusive g s)
    (hclosed : ∀ r ∈ list, ∀ d ∈ g.depList r, d ∈ list) (hself : t ∉ s.transactionList)
    (h : Completed s t list s') :
    Exclusive g s' ↔
      (∃ l, ∀ u ∈ s.transactionList, ∀ ur ∈ s.transactions u, (∃ r ∈ ur.resourceList, r ∈ list) →
        ur.lock = some l ∧
          (overlaps ur.resourceList list = true ∨ ur.attributes.sharedLock = true)) ∧
      ((∃ u ∈ s.transactionList, ∃ ur ∈ s.transactions u, ∃ r ∈ ur.resourceList, r ∈ list) →
        ∃ u ∈ s.transactionList, ∃ ur ∈ s.transactions u, overlaps ur.resourceList
          list = true) := by
  obtain ⟨tr', htr', rfl, hlocked⟩ := h.self
  have hne : ∀ u ∈ s.transactionList, u ≠ t := by
    rintro u hu rfl
    exact hself hu
  constructor
  · intro he'
    obtain ⟨l', hl'⟩ := hlocked.exists_lock
    -- what an earlier transaction that shares looks like after the definition
    have hshared : ∀ u ∈ s.transactionList, ∀ ur ∈ s.transactions u,
        (∃ r ∈ ur.resourceList, r ∈ tr'.resourceList) → ur.lock = some l' ∧
          (overlaps ur.resourceList tr'.resourceList = true ∨
            ur.attributes.sharedLock = true) := by
      intro u hu ur hur hshares
      obtain ⟨ur', hur'⟩ := ne_none_iff_exists'.mp fun hnone => by
        rw [(h.none_iff u).mp hnone] at hur
        cases hur
      obtain ⟨vr, hvr, hlock, hres, hmark⟩ := h.other_of_some (hne u hu) hur'
      obtain rfl : vr = ur := Option.some.inj (hvr.symm.trans hur)
      have hex := he'.excludes (hne u hu) hur' htr' (by
        unfold Transaction.Shares
        rwa [hres])
      obtain ⟨l, hl, hl''⟩ := hex.sameLock
      cases hl'.symm.trans hl''
      refine ⟨hlock.symm.trans hl, ?_⟩
      rcases hmark.mp hex.marked.1 with hm | ⟨-, hm⟩
      · exact .inr hm
      · exact .inl hm
    refine ⟨⟨l', hshared⟩, ?_⟩
    rintro ⟨u, hu, ur, hur, hshares⟩
    cases hlocked with
    | created _ hnew =>
      have hlt := ho.locks hur (hshared u hu ur hur hshares).1
      cases hnew.symm.trans hl'
      exact absurd hlt (Nat.lt_irrefl _)
    | taken hv hvr hover => exact ⟨_, hv, _, hvr, hover⟩
  · rintro ⟨⟨l, hone⟩, hfound⟩
    -- the new transaction against one of the others
    have hnew : ∀ {u ur'}, u ≠ t → s'.transactions u = some ur' → ur'.Shares tr' →
        ur'.Excludes tr' := by
      intro u ur' hu hur' hshares
      obtain ⟨ur, hur, hlock, hres, hmark⟩ := h.other_of_some hu hur'
      unfold Transaction.Shares at hshares
      rw [hres] at hshares
      have hmem : u ∈ s.transactionList := by
        refine (ho.listed hur).mpr fun hnone => ?_
        obtain ⟨r, hr, -⟩ := hshares
        rw [ho.undefined hur hnone] at hr
        cases hr
      obtain ⟨hl, hscan⟩ := hone u hmem ur hur hshares
      have hmarked : ur'.attributes.sharedLock = true := by
        rcases hscan with hover | hm
        · exact hmark.mpr (.inr ⟨hmem, hover⟩)
        · exact hmark.mpr (.inl hm)
      cases hlocked with
      | created hnone =>
        obtain ⟨v, hv, vr, hvr, hover⟩ := hfound ⟨u, hmem, ur, hur, hshares⟩
        rw [hnone v hv vr hvr] at hover
        cases hover
      | taken hv hvr hover hvl hl' hm =>
        cases (hone _ hv _ hvr (shares_of_overlaps hover)).1.symm.trans hvl
        exact ⟨⟨l, hlock.trans hl, hl'⟩, hmarked, hm⟩
    refine ⟨fun {v u vr' ur'} hvu hvr' hur' hshares => ?_, fun {u ur'} hur' => ?_,
      fun {u ur' l'} hur' hl' => ?_⟩
    · by_cases hv : v = t
      · subst hv
        cases hvr'.symm.trans htr'
        exact (hnew (Ne.symm hvu) hur' hshares.symm).symm
      · by_cases hu : u = t
        · subst hu
          cases hur'.symm.trans htr'
          exact hnew hv hvr' hshares
        · obtain ⟨vr, hvr, hvlock, hvres, hvmark⟩ := h.other_of_some hv hvr'
          obtain ⟨ur, hur, hulock, hures, humark⟩ := h.other_of_some hu hur'
          unfold Transaction.Shares at hshares
          rw [hvres, hures] at hshares
          obtain ⟨hlock, hm, hm'⟩ := he.excludes hvu hvr hur hshares
          refine ⟨?_, hvmark.mpr (.inl hm), humark.mpr (.inl hm')⟩
          rwa [hvlock, hulock]
    · by_cases hu : u = t
      · subst hu
        cases hur'.symm.trans htr'
        exact hclosed
      · obtain ⟨ur, hur, -, hres, -⟩ := h.other_of_some hu hur'
        rw [hres]
        exact he.closed hur
    · by_cases hu : u = t
      · subst hu
        cases hur'.symm.trans htr'
        cases hlocked with
        | created _ hnew _ hlocks =>
          cases hnew.symm.trans hl'
          rw [hlocks]
          exact mem_cons_self
        | taken _ hvr _ hvl hsame _ _ hlocks =>
          cases hsame.symm.trans hl'
          rw [hlocks]
          exact he.alive hvr hvl
      · obtain ⟨ur, hur, hlock, -⟩ := h.other_of_some hu hur'
        exact hlocked.mem_locks (he.alive hur (hlock.symm.trans hl'))

/-- Freeing a structure keeps transactions exclusive exactly if the locks that are left have the
locks of the others. -/
theorem Exclusive.clear_iff (he : Exclusive g s) (locks : List TransactionLock) :
    Exclusive g { s with
        locks, transactions := fun u => if u = t then none else s.transactions u } ↔
      ∀ u ≠ t, ∀ ur ∈ s.transactions u, ∀ l, ur.lock = some l → l ∈ locks := by
  have hcases : ∀ {u ur}, (if u = t then none else s.transactions u) = some ur →
      u ≠ t ∧ s.transactions u = some ur := by
    intro u ur h
    split at h
    · cases h
    · next hu => exact ⟨hu, h⟩
  constructor
  · intro he' u hu ur hur l hl
    exact he'.alive ((if_neg hu).trans hur) hl
  · intro hlocks
    exact ⟨fun hne htr hur => he.excludes hne (hcases htr).2 (hcases hur).2,
      fun hur => he.closed (hcases hur).2,
      fun {u ur l} hur hl => hlocks u (hcases hur).1 ur (hcases hur).2 l hl⟩

/-- Destroying a transaction that has been ended, step by step. -/
theorem npaDestroyTransaction_eq (ht : s.transactions t = some tr)
    (hactive : tr.activeResources = []) (hlocked : tr.lockedResources = []) :
    npaDestroyTransaction t s =
      (if tr.attributes.sharedLock then coreMutexDestroy tr.lock s else some s).map fun s =>
        { s with transactions := fun u => if u = t then none else s.transactions u } := by
  unfold npaDestroyTransaction
  simp only [ht, hactive, hlocked, bind_eq_bind, bind_some, ne_eq, not_true_eq_false,
    if_false]
  split
  · cases coreMutexDestroy tr.lock s <;> rfl
  · rfl

/-- **Destroying a transaction keeps the others exclusive exactly if it does not take a lock of
theirs with it.** -/
theorem exclusive_destroy (he : Exclusive g s) (hp : (TransactionOp.destroy t).Proper s) :
    (∃ s', npaDestroyTransaction t s = some s' ∧ Exclusive g s') ↔
      (TransactionOp.destroy t).Meets g s := by
  obtain ⟨tr, htr, hactive, hlocked⟩ := hp
  have htr : s.transactions t = some tr := htr
  rw [npaDestroyTransaction_eq htr hactive hlocked]
  have hmeets : (TransactionOp.destroy t).Meets g s ↔ (tr.attributes.sharedLock = true →
      ∀ u ≠ t, ∀ ur ∈ s.transactions u, ∀ l, tr.lock = some l → ur.lock ≠ some l) :=
    ⟨fun h => h tr htr, fun h tr' htr' => by
      cases htr.symm.trans htr'
      exact h⟩
  rw [hmeets]
  have hkeep : Exclusive g { s with
      transactions := fun u => if u = t then none else s.transactions u } :=
    (he.clear_iff s.locks).mpr fun u _ ur hur l hl => he.alive hur hl
  cases hm : tr.attributes.sharedLock with
  | false => simpa using hkeep
  | true =>
    cases hl : tr.lock with
    | none => simpa [coreMutexDestroy] using hkeep
    | some l =>
      have hmem : l ∈ s.locks := he.alive htr hl
      have hiff := he.clear_iff (t := t) (s.locks.filter (· != l))
      simp only [coreMutexDestroy, if_pos hmem, if_true, map_some, Option.some.injEq,
        exists_eq_left', forall_const, hiff]
      constructor
      · rintro h u hu ur hur l' rfl hl'
        have := h u hu ur hur l hl'
        simp at this
      · intro h u hu ur hur l' hl'
        have hne : l' ≠ l := by
          rintro rfl
          exact h u hu ur hur l' rfl hl'
        simpa [hne] using he.alive hur hl'

/-! ## The law -/

/-- A step under a call that meets its condition. -/
structure ExclusionStep (g : ResourceGraph) (s : TransactionTable) (op : TransactionOp)
    (s' : TransactionTable) : Prop where
  proper : op.Proper s
  meets : op.Meets g s
  applied : op.apply g s = some s'

/-- **Any call keeps the table in order.** -/
theorem TransactionTable.Ordered.step (ho : s.Ordered) (hp : op.Proper s)
    (hs : op.apply g s = some s') : s'.Ordered := by
  cases op with
  | define attributes =>
    cases hs
    exact ho.define attributes
  | use t depth active locked pending =>
    cases hs
    exact ho.modify fun _ => ⟨rfl, rfl⟩
  | resourcesAvailable t resources =>
    obtain ⟨ht, hne, hnone⟩ := hp
    obtain ⟨list, diamond, hlist, -⟩ := g.resourceList_closed hne
    obtain ⟨hself, hlisted⟩ := exists_of_resourcesAvailable ho hne hnone hlist hs
    obtain ⟨tr, htr⟩ := ne_none_iff_exists'.mp hself
    obtain ⟨s₁, hs₁, hdone⟩ :=
      resourcesAvailable_completed ho hne htr (hnone tr htr) hlist hlisted
    obtain rfl : s₁ = s' := Option.some.inj (hs₁.symm.trans hs)
    exact ho.completed ht hdone
  | destroy t =>
    obtain ⟨tr, htr, hactive, hlocked⟩ := hp
    rw [TransactionOp.apply, npaDestroyTransaction_eq htr hactive hlocked] at hs
    obtain ⟨s₁, hs₁, rfl⟩ := map_eq_some_iff.mp hs
    obtain ⟨locks, rfl⟩ : ∃ locks, s₁ = { s with locks } := by
      unfold coreMutexDestroy at hs₁
      split at hs₁
      · split at hs₁
        · exact ⟨_, (Option.some.inj hs₁).symm⟩
        · split at hs₁
          · exact ⟨_, (Option.some.inj hs₁).symm⟩
          · cases hs₁
      · exact ⟨_, (Option.some.inj hs₁).symm⟩
    exact ho.clear locks

/-- **The condition is exact.** From a state in which transactions are exclusive, a call goes
through to such a state if and only if it meets its condition. -/
theorem TransactionOp.Proper.exclusive_iff (ho : s.Ordered) (he : Exclusive g s)
    (hp : op.Proper s) : (∃ s', op.apply g s = some s' ∧ Exclusive g s') ↔ op.Meets g s := by
  cases op with
  | define attributes =>
    exact ⟨fun _ => trivial, fun _ => ⟨_, rfl, exclusive_define he attributes⟩⟩
  | use t depth active locked pending =>
    exact ⟨fun _ => trivial, fun _ => ⟨_, rfl, he.modify fun _ => ⟨rfl, rfl, rfl⟩⟩⟩
  | destroy t => exact exclusive_destroy he hp
  | resourcesAvailable t resources =>
    obtain ⟨ht, hne, hnone⟩ := hp
    obtain ⟨list, diamond, hlist, hreach⟩ := g.resourceList_closed hne
    have hclosed : ∀ r ∈ list, ∀ d ∈ g.depList r, d ∈ list := fun r hr d hd =>
      (hreach d).mpr (.next ((hreach r).mp hr) hd)
    have hself : ∀ tr ∈ s.transactions t, t ∉ s.transactionList := fun tr htr hmem =>
      (ho.listed htr).mp hmem (hnone tr htr)
    have hmeets : (TransactionOp.resourcesAvailable t resources).Meets g s ↔
        DefinitionMeets s t list :=
      ⟨fun h => h _ hlist, fun h result hresult => by
        cases hlist.symm.trans hresult
        exact h⟩
    rw [hmeets]
    constructor
    · rintro ⟨s', hs', he'⟩
      obtain ⟨hthere, hlisted⟩ := exists_of_resourcesAvailable ho hne hnone hlist hs'
      obtain ⟨tr, htr⟩ := ne_none_iff_exists'.mp hthere
      obtain ⟨s₁, hs₁, hdone⟩ :=
        resourcesAvailable_completed ho hne htr (hnone tr htr) hlist hlisted
      obtain rfl : s₁ = s' := Option.some.inj (hs₁.symm.trans hs')
      obtain ⟨hone, hfound⟩ := (hdone.exclusive_iff ho he hclosed (hself tr htr)).mp he'
      exact ⟨hthere, hlisted, hone, hfound⟩
    · intro h
      obtain ⟨tr, htr⟩ := ne_none_iff_exists'.mp h.exists_self
      obtain ⟨s', hs', hdone⟩ :=
        resourcesAvailable_completed ho hne htr (hnone tr htr) hlist h.exists_listed
      exact ⟨s', hs',
        (hdone.exclusive_iff ho he hclosed (hself tr htr)).mpr ⟨h.oneLock, h.found⟩⟩

theorem exclusive_initial : Exclusive g .initial where
  excludes _ h := by cases h
  closed h := by cases h
  alive h := by cases h

/-- **The law of exclusion.** In every run whose calls meet their condition, transactions that share
a resource exclude each other and have a lock that is there. In every state of it, a call leads on
to such a state exactly if it meets its condition. -/
theorem transactions_exclude {g : ResourceGraph} {h : List TransactionOp} {s : TransactionTable}
    (run : Run (ExclusionStep g) .initial h s) :
    Exclusive g s ∧ ∀ op : TransactionOp, op.Proper s →
      ((∃ s', op.apply g s = some s' ∧ Exclusive g s') ↔ op.Meets g s) := by
  have hkept : s.Ordered ∧ Exclusive g s := by
    refine run.state_invariant (P := fun s => s.Ordered ∧ Exclusive g s)
      ⟨TransactionTable.ordered_initial, exclusive_initial⟩ ?_
    rintro s op s' ⟨ho, he⟩ hs
    obtain ⟨s₁, hs₁, he₁⟩ := (hs.proper.exclusive_iff ho he).mpr hs.meets
    obtain rfl : s₁ = s' := Option.some.inj (hs₁.symm.trans hs.applied)
    exact ⟨ho.step hs.proper hs.applied, he₁⟩
  exact ⟨hkept.2, fun op hp => hp.exclusive_iff hkept.1 hkept.2⟩

/-- The attributes of a transaction as most callers want them. -/
def defaultAttributes : TransactionAttributes := ⟨false, false⟩

/-- The first transaction of `transactions_exclude_two`, when it is defined. -/
def firstTransaction : Transaction := ⟨defaultAttributes, some 0, 0, [2, 4], [], [], []⟩

instance decidableProper (s : TransactionTable) : (op : TransactionOp) → Decidable (op.Proper s)
  | .define _ | .use _ _ _ _ _ => isTrue trivial
  | .resourcesAvailable t resources => inferInstanceAs (Decidable (t < s.nextTransaction ∧
      resources ≠ [] ∧ ∀ tr ∈ s.transactions t, tr.lock = none))
  | .destroy t => inferInstanceAs (Decidable (∃ tr ∈ s.transactions t, tr.activeResources = [] ∧
      tr.lockedResources = []))

/-- Two transactions, the second of which uses a resource that the first depends on. -/
theorem transactions_exclude_two : ∃ s : TransactionTable,
    Run (ExclusionStep diamondGraph) .initial [.resourcesAvailable 1 [4], .define defaultAttributes,
      .resourcesAvailable 0 [2], .define defaultAttributes] s ∧ Exclusive diamondGraph s := by
  have run₁ : Run (ExclusionStep diamondGraph) .initial [.define defaultAttributes]
      (npaDefineTransaction defaultAttributes .initial) :=
    Run.start.step ⟨trivial, trivial, rfl⟩
  have hproper₂ : (TransactionOp.resourcesAvailable 0 [2]).Proper
      (npaDefineTransaction defaultAttributes .initial) := by decide
  have hmeets₂ : (TransactionOp.resourcesAvailable 0 [2]).Meets diamondGraph
      (npaDefineTransaction defaultAttributes .initial) := by
    have hempty : (npaDefineTransaction defaultAttributes .initial).transactionList = [] := rfl
    intro result _
    refine ⟨by decide, ?_, ⟨0, ?_⟩, ?_⟩ <;> simp [hempty]
  obtain ⟨s₂, hs₂, -⟩ := ((transactions_exclude run₁).2 _ hproper₂).mpr hmeets₂
  have hdefine : ExclusionStep diamondGraph s₂ (.define defaultAttributes)
      (npaDefineTransaction defaultAttributes s₂) := ⟨trivial, trivial, rfl⟩
  have run₃ := (run₁.step ⟨hproper₂, hmeets₂, hs₂⟩).step hdefine
  have hseen : ((TransactionOp.resourcesAvailable 0 [2]).apply diamondGraph
      (npaDefineTransaction defaultAttributes .initial)).map (fun s =>
        (s.transactionList, s.transactions 0, s.nextTransaction)) =
      some ([0], some firstTransaction, 1) := by
    decide +kernel
  rw [hs₂] at hseen
  obtain ⟨hlist, hfirst, hnext⟩ : s₂.transactionList = [0] ∧
      s₂.transactions 0 = some firstTransaction ∧ s₂.nextTransaction = 1 := by
    simpa using hseen
  have hproper₄ : (TransactionOp.resourcesAvailable 1 [4]).Proper
      (npaDefineTransaction defaultAttributes s₂) := by
    refine ⟨?_, by simp, ?_⟩
    · simp [npaDefineTransaction, hnext]
    · simp [npaDefineTransaction, hnext, Transaction.new]
  have hmeets₄ : (TransactionOp.resourcesAvailable 1 [4]).Meets diamondGraph
      (npaDefineTransaction defaultAttributes s₂) := by
    intro result hresult
    have hfour : diamondGraph.resourceList [4] = some ([4], false) := by decide
    cases hfour.symm.trans hresult
    refine ⟨?_, ?_, ⟨0, ?_⟩, fun _ => ⟨0, ?_⟩⟩
    · simp [npaDefineTransaction, hnext]
    · simp [npaDefineTransaction, hnext, hlist, hfirst]
    · simp [npaDefineTransaction, hnext, hlist, hfirst, firstTransaction, overlaps]
    · simp [npaDefineTransaction, hnext, hlist, hfirst, firstTransaction, overlaps]
  obtain ⟨s₄, hs₄, he⟩ := ((transactions_exclude run₃).2 _ hproper₄).mpr hmeets₄
  exact ⟨s₄, run₃.step ⟨hproper₄, hmeets₄, hs₄⟩, he⟩

/-- The steps of callers that see to what they have to, whether their calls meet the condition or
not. -/
def TransactionStep (g : ResourceGraph) (s : TransactionTable) (op : TransactionOp)
    (s' : TransactionTable) : Prop :=
  op.Proper s ∧ op.apply g s = some s'

/-- Carrying out a call of such a caller. -/
def transactionStep (g : ResourceGraph) (s : TransactionTable) (op : TransactionOp) :
    Option TransactionTable :=
  if op.Proper s then op.apply g s else none

theorem TransactionStep.of_eq_some (h : transactionStep g s op = some s') :
    TransactionStep g s op s' := by
  unfold transactionStep at h
  split at h
  · next hp => exact ⟨hp, h⟩
  · cases h

/-- Defining a transaction of such resources, as the transaction `t`. -/
def defined (t : TransactionHandle) (resources : List ResourceHandle) : List TransactionOp :=
  [.define defaultAttributes, .resourcesAvailable t resources]

/-- **Where transactions that share a resource do not exclude each other.** The second transaction
shares its second resource with the first, and has a lock of its own. The third shares with two that
have nothing in common, and excludes one of them. Destroying the first of two takes the lock of the
other with it. After the destruction of a transaction, the next definition runs into its structure,
which has been freed. -/
theorem transactions_do_not_exclude :
    (∃ s tr ur, Run (TransactionStep diamondGraph) .initial
        (defined 0 [4] ++ defined 1 [5, 4]).reverse s ∧
      s.transactions 0 = some tr ∧ s.transactions 1 = some ur ∧ tr.Shares ur ∧
      ¬ tr.Excludes ur) ∧
    (∃ s tr ur vr, Run (TransactionStep diamondGraph) .initial
        (defined 0 [4] ++ defined 1 [5] ++ defined 2 [4, 5]).reverse s ∧
      s.transactions 0 = some tr ∧ s.transactions 1 = some ur ∧ s.transactions 2 = some vr ∧
      tr.Shares vr ∧ ur.Shares vr ∧ tr.Excludes vr ∧ ¬ ur.Excludes vr) ∧
    (∃ s tr l, Run (TransactionStep diamondGraph) .initial
        (defined 0 [4] ++ defined 1 [4] ++ [TransactionOp.destroy 0]).reverse s ∧
      s.transactions 1 = some tr ∧ tr.lock = some l ∧ l ∉ s.locks) ∧
    ∃ s, Run (TransactionStep diamondGraph) .initial
        (defined 0 [4] ++ [TransactionOp.destroy 0] ++
          [TransactionOp.define defaultAttributes]).reverse s ∧
      (TransactionOp.resourcesAvailable 1 [4]).Proper s ∧
      (TransactionOp.resourcesAvailable 1 [4]).apply diamondGraph s = none := by
  refine ⟨?_, ?_, ?_, ?_⟩
  · have hexec : (execute (transactionStep diamondGraph) .initial
        (defined 0 [4] ++ defined 1 [5, 4])).map (fun s => (s.transactions 0, s.transactions 1)) =
          some (some ⟨defaultAttributes, some 0, 0, [4], [], [], []⟩,
            some ⟨defaultAttributes, some 1, 0, [5, 4], [], [], []⟩) := by
      decide +kernel
    obtain ⟨s, hs, hseen⟩ := map_eq_some_iff.mp hexec
    obtain ⟨htr, hur⟩ := Prod.mk.inj hseen
    have run := Run.of_execute TransactionStep.of_eq_some .start hs
    rw [append_nil] at run
    refine ⟨s, _, _, run, htr, hur, ⟨4, by decide, by decide⟩, fun h => ?_⟩
    obtain ⟨l, hl, hl'⟩ := h.sameLock
    cases hl
    cases hl'
  · have hexec : (execute (transactionStep diamondGraph) .initial
        (defined 0 [4] ++ defined 1 [5] ++ defined 2 [4, 5])).map (fun s =>
          (s.transactions 0, s.transactions 1, s.transactions 2)) =
          some (some ⟨⟨false, true⟩, some 0, 0, [4], [], [], []⟩,
            some ⟨defaultAttributes, some 1, 0, [5], [], [], []⟩,
            some ⟨⟨false, true⟩, some 0, 0, [4, 5], [], [], []⟩) := by
      decide +kernel
    obtain ⟨s, hs, hseen⟩ := map_eq_some_iff.mp hexec
    obtain ⟨htr, hrest⟩ := Prod.mk.inj hseen
    obtain ⟨hur, hvr⟩ := Prod.mk.inj hrest
    have run := Run.of_execute TransactionStep.of_eq_some .start hs
    rw [append_nil] at run
    refine ⟨s, _, _, _, run, htr, hur, hvr, ⟨4, by decide, by decide⟩, ⟨5, by decide, by decide⟩,
      ⟨⟨0, rfl, rfl⟩, rfl, rfl⟩, fun h => ?_⟩
    obtain ⟨l, hl, hl'⟩ := h.sameLock
    cases hl
    cases hl'
  · have hexec : (execute (transactionStep diamondGraph) .initial
        (defined 0 [4] ++ defined 1 [4] ++ [TransactionOp.destroy 0])).map (fun s =>
          (s.transactions 1, s.locks)) =
          some (some ⟨⟨false, true⟩, some 0, 0, [4], [], [], []⟩, []) := by
      decide +kernel
    obtain ⟨s, hs, hseen⟩ := map_eq_some_iff.mp hexec
    obtain ⟨htr, hlocks⟩ := Prod.mk.inj hseen
    have run := Run.of_execute TransactionStep.of_eq_some .start hs
    rw [append_nil] at run
    refine ⟨s, _, 0, run, htr, rfl, ?_⟩
    rw [hlocks]
    exact not_mem_nil
  · have hexec : (execute (transactionStep diamondGraph) .initial
        (defined 0 [4] ++ [TransactionOp.destroy 0] ++
          [TransactionOp.define defaultAttributes])).map (fun s =>
            (decide ((TransactionOp.resourcesAvailable 1 [4]).Proper s),
              ((TransactionOp.resourcesAvailable 1 [4]).apply diamondGraph s).isNone)) =
          some (true, true) := by
      decide +kernel
    obtain ⟨s, hs, hseen⟩ := map_eq_some_iff.mp hexec
    obtain ⟨hproper, hnone⟩ := Prod.mk.inj hseen
    have run := Run.of_execute TransactionStep.of_eq_some .start hs
    rw [append_nil] at run
    exact ⟨s, run, of_decide_eq_true hproper, isNone_iff_eq_none.mp hnone⟩

end Npa
