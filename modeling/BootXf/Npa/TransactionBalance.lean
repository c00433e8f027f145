import BootXf.Npa.TransactionCalls

/-!
# What a request leaves behind

`Thread.Sound` holds between any two steps of a thread: what is not the current transaction is
empty, a resource that points to a transaction is active or locked, and no mutex has been given
back more often than taken. `Grown` is what a call may do: the stack of active resources is as it
was, the locks that have been taken are those of the resources that have been added to the locked
ones, and the requests are accounted for. A request does that if its driver does
(`issueSyncRequest_grown`, `issueDependencyRequest_grown`).
-/

namespace Npa.Locking

open Lib List Option

variable {p : Pointers} {s s' : Thread} {t : TransactionHandle} {tr : Transaction}
  {Q R : Thread → Prop} {x : Except Check Thread}

/-! ## What is to be read off a state -/

namespace Thread

/-- How often a mutex is held. -/
def held (s : Thread) (m : Mutex) : Nat := (s.mutexes m).acquired - (s.mutexes m).released

/-- The structure of the current transaction. -/
def currentTransaction (s : Thread) : Option Transaction := s.current.bind s.table.transactions

/-- The resources on the stack of the current transaction. -/
def active (s : Thread) : List ResourceHandle :=
  (s.currentTransaction.map (·.activeResources)).getD []

/-- The resources that stay locked until the end of the current transaction. -/
def locked (s : Thread) : List ResourceHandle :=
  (s.currentTransaction.map (·.lockedResources)).getD []

/-- The clients whose requests wait for the end of the current transaction. -/
def pending (s : Thread) : List Handle := (s.currentTransaction.map (·.pendingClients)).getD []

/-- How often the lock of a node is to be given back at the end of the transaction. -/
def lockedOn (p : Pointers) (s : Thread) (n : NodeLock) : Nat :=
  s.locked.countP (p.nodeLock · == n)

/-- A state between two steps. -/
structure Sound (s : Thread) : Prop where
  there : ∀ {t}, s.current = some t → s.table.transactions t ≠ none
  idle : ∀ {u ur}, s.table.transactions u = some ur → s.current ≠ some u →
    ur.activeResources = [] ∧ ur.lockedResources = [] ∧ ur.pendingClients = []
  marked : ∀ {r}, (s.marks r).transaction ≠ none → r ∈ s.active ∨ r ∈ s.locked
  balanced : ∀ m, (s.mutexes m).released ≤ (s.mutexes m).acquired

theorem currentTransaction_of (hc : s.current = some t) :
    s.currentTransaction = s.table.transactions t := by
  rw [currentTransaction, hc]
  rfl

theorem currentTransaction_none (hc : s.current = none) : s.currentTransaction = none := by
  rw [currentTransaction, hc]
  rfl

theorem forked_transaction (r r' : ResourceHandle) :
    ((s.npaMarkResourceForked r').marks r).transaction = (s.marks r).transaction := by
  simp only [npaMarkResourceForked, mark]
  by_cases hr : r = r'
  · simp [hr]
  · simp [hr]

/-- A lock is held once more. -/
theorem held_lock (m m' : Mutex) (h : ∀ m, (s.mutexes m).released ≤ (s.mutexes m).acquired) :
    (s.coreMutexLock m).held m' = s.held m' + if m' = m then 1 else 0 := by
  have := h m
  unfold held coreMutexLock
  by_cases hm : m' = m
  · simp only [hm, if_true]
    omega
  · simp [hm]

theorem balanced_lock (m : Mutex) (h : ∀ m, (s.mutexes m).released ≤ (s.mutexes m).acquired)
    (m' : Mutex) :
    ((s.coreMutexLock m).mutexes m').released ≤ ((s.coreMutexLock m).mutexes m').acquired := by
  have := h m
  unfold coreMutexLock
  by_cases hm : m' = m
  · simp only [hm, if_true]
    omega
  · simpa [hm] using h m'

/-- What giving a mutex back does, apart from the count. -/
structure Unlocked (s : Thread) (m : Mutex) (s' : Thread) : Prop where
  table : s'.table = s.table
  current : s'.current = s.current
  marks : s'.marks = s.marks
  log : s'.log = s.log
  held : ∀ m', s'.held m' + (if m' = m then 1 else 0) = s.held m'
  balanced : (∀ m, (s.mutexes m).released ≤ (s.mutexes m).acquired) →
    ∀ m, (s'.mutexes m).released ≤ (s'.mutexes m).acquired

/-- A lock that is held can be released. -/
theorem unlocked {m : Mutex} (h : 0 < s.held m) :
    ∃ s', s.coreMutexUnlock m = .ok s' ∧ Unlocked s m s' := by
  have hlt : (s.mutexes m).released < (s.mutexes m).acquired := by
    unfold held at h
    omega
  refine ⟨_, if_pos hlt, rfl, rfl, rfl, rfl, fun m' => ?_, fun hb m' => ?_⟩
  · unfold Thread.held
    by_cases hm : m' = m
    · simp only [hm, if_true]
      omega
    · simp [hm]
  · by_cases hm : m' = m
    · simp only [hm, if_true]
      omega
    · simpa [hm] using hb m'

theorem Unlocked.currentTransaction {m : Mutex} (h : Unlocked s m s') :
    s'.currentTransaction = s.currentTransaction := by
  rw [Thread.currentTransaction, h.current, h.table]
  rfl

end Thread

/-! ## Outcomes -/

/-- A call comes to a state that has a property, or ends in a check that is up to the callers. -/
def Outcome (Q : Thread → Prop) : Except Check Thread → Prop
  | .ok s => Q s
  | .error c => c.inner = false

/-- The rule of a sequence. -/
theorem Outcome.bind
    {f : Thread → Except Check Thread} (hx : Outcome Q x) (hf : ∀ s, Q s → Outcome R (f s)) :
    Outcome R (x >>= f) := by
  cases x with
  | ok s => exact hf s hx
  | error c => exact hx

theorem Outcome.mono (hx : Outcome Q x) (h : ∀ s, Q s → R s) : Outcome R x := by
  cases x with
  | ok s => exact h s hx
  | error c => exact hx

/-- What a script does. -/
structure Grown (p : Pointers) (s s' : Thread) : Prop where
  sound : s'.Sound
  current : s'.current = s.current
  locks : ∀ u, (s'.table.transactions u).map (·.lock) = (s.table.transactions u).map (·.lock)
  active : s'.active = s.active
  locked : ∀ n, s.lockedOn p n ≤ s'.lockedOn p n
  held : ∀ n, s'.held (.node n) + s.lockedOn p n = s.held (.node n) + s'.lockedOn p n
  transactionHeld : ∀ l, s'.held (.transaction l) = s.held (.transaction l)
  log : ∀ {unreturned}, Account.replay s.log = some ⟨unreturned, [], s.pending⟩ →
    Account.replay s'.log = some ⟨unreturned, [], s'.pending⟩

theorem Grown.refl (hs : s.Sound) : Grown p s s :=
  ⟨hs, rfl, fun _ => rfl, rfl, fun _ => Nat.le_refl _, fun _ => rfl, fun _ => rfl, id⟩

/-- Two scripts, one after the other. -/
theorem Grown.trans {s'' : Thread} (h : Grown p s s') (h' : Grown p s' s'') : Grown p s s'' where
  sound := h'.sound
  current := h'.current.trans h.current
  locks u := (h'.locks u).trans (h.locks u)
  active := h'.active.trans h.active
  locked n := Nat.le_trans (h.locked n) (h'.locked n)
  held n := by
    have := h.held n
    have := h'.held n
    omega
  transactionHeld l := (h'.transactionHeld l).trans (h.transactionHeld l)
  log hlog := h'.log (h.log hlog)

/-! ## Entering and leaving a resource -/

theorem modify_locks (table : TransactionTable) (f : Transaction → Transaction)
    (hf : ∀ tr, (f tr).lock = tr.lock) (u : TransactionHandle) :
    ((table.modify t f).transactions u).map (·.lock) = (table.transactions u).map (·.lock) := by
  by_cases hu : u = t
  · rw [hu, TransactionTable.modify_self]
    cases table.transactions t with
    | none => rfl
    | some tr => exact congrArg some (hf tr)
  · rw [TransactionTable.modify_of_ne _ hu]

theorem modify_modify (table : TransactionTable) (f f' : Transaction → Transaction) :
    (table.modify t f).modify t f' = table.modify t fun tr => f' (f tr) := by
  unfold TransactionTable.modify
  congr 1
  funext u
  by_cases hu : u = t
  · simp [hu, Function.comp_def]
  · simp [hu]

/-- What is to be read off a state after the structure of the current transaction has changed. -/
theorem Thread.view (s' : Thread) (htr : s.table.transactions t = some tr)
    {f : Transaction → Transaction}
    (hcurrent : s'.current = some t) (htable : s'.table = s.table.modify t f) :
    s'.active = (f tr).activeResources ∧ s'.locked = (f tr).lockedResources ∧
      s'.pending = (f tr).pendingClients := by
  have hcur : s'.currentTransaction = some (f tr) := by
    rw [currentTransaction_of hcurrent, htable, TransactionTable.modify_self, htr]
    rfl
  unfold active locked pending
  rw [hcur]
  exact ⟨rfl, rfl, rfl⟩

/-- The same before it has changed. -/
theorem Thread.view_before (hc : s.current = some t) (htr : s.table.transactions t = some tr) :
    s.active = tr.activeResources ∧ s.locked = tr.lockedResources ∧
      s.pending = tr.pendingClients := by
  unfold active locked pending
  rw [currentTransaction_of hc, htr]
  exact ⟨rfl, rfl, rfl⟩

/-- Soundness of a state in which the structure of the current transaction has changed. -/
theorem Thread.Sound.of_modified (hs : s.Sound) (hc : s.current = some t)
    (f : Transaction → Transaction) (hcurrent : s'.current = some t)
    (htable : s'.table = s.table.modify t f)
    (hmarked : ∀ {r}, (s'.marks r).transaction ≠ none → r ∈ s'.active ∨ r ∈ s'.locked)
    (hbalanced : ∀ m, (s'.mutexes m).released ≤ (s'.mutexes m).acquired) : s'.Sound := by
  refine ⟨fun {u} hu => ?_, fun {u ur} hur hne => ?_, hmarked, hbalanced⟩
  · obtain rfl : t = u := Option.some.inj (hcurrent.symm.trans hu)
    rw [htable, TransactionTable.modify_self]
    exact fun h => hs.there hc (map_eq_none_iff.mp h)
  · have hut : u ≠ t := by
      rintro rfl
      exact hne hcurrent
    rw [htable, TransactionTable.modify_of_ne _ hut] at hur
    refine hs.idle hur ?_
    rw [hc]
    exact fun h => hut (Option.some.inj h).symm

variable {client : Handle} {rest : List ResourceHandle}

/-- What entering a resource does. -/
structure Entered (p : Pointers) (client : Handle) (s s' : Thread) : Prop where
  sound : s'.Sound
  current : s'.current = s.current
  locks : ∀ u, (s'.table.transactions u).map (·.lock) = (s.table.transactions u).map (·.lock)
  active : s'.active = p.resource client :: s.active
  locked : s'.locked = s.locked
  pending : s'.pending = s.pending
  held : ∀ m, s'.held m =
    s.held m + if m = .node (p.nodeLock (p.resource client)) then 1 else 0
  log : s'.log = s.log

/-- A request enters the transaction. -/
theorem entered (p : Pointers) (client : Handle) (hs : s.Sound) (hc : s.current = some t) :
    Entered p client s (npaRequestEnterTransaction p t client s) := by
  obtain ⟨tr, htr⟩ := ne_none_iff_exists'.mp (hs.there hc)
  obtain ⟨hactive, hlocked, hpending⟩ := Thread.view_before hc htr
  obtain ⟨hactive', hlocked', hpending'⟩ :=
    Thread.view (npaRequestEnterTransaction p t client s) htr hc rfl
  refine ⟨hs.of_modified hc _ hc rfl (fun {r} hr => ?_) (s.balanced_lock _ hs.balanced), rfl,
    modify_locks s.table _ fun _ => rfl, ?_, ?_, ?_, fun m => s.held_lock _ m hs.balanced, rfl⟩
  · rw [hactive', hlocked', ← hactive, ← hlocked]
    by_cases hres : r = p.resource client
    · exact .inl (hres ▸ mem_cons_self)
    · have hold : (npaRequestEnterTransaction p t client s).marks r = s.marks r := if_neg hres
      rw [hold] at hr
      exact (hs.marked hr).imp_left (mem_cons_of_mem _)
  · rw [hactive', hactive]
  · rw [hlocked', hlocked]
  · rw [hpending', hpending]

/-- What leaving a resource does: the lock is kept and the client waits if the resource is forked,
else the lock is given back and the request reported. -/
inductive Left (p : Pointers) (client : Handle) (s s' : Thread) : Prop
  | deferred : s'.locked = s.locked ++ [p.resource client] → s'.pending = s.pending ++ [client] →
      (∀ m, s'.held m = s.held m) → s'.log = .returned client true :: s.log → Left p client s s'
  | serviced : s'.locked = s.locked → s'.pending = s.pending →
      (∀ m, s'.held m + (if m = .node (p.nodeLock (p.resource client)) then 1 else 0) = s.held m) →
      s'.log = .reported client :: .returned client false :: s.log → Left p client s s'

/-- What leaving a resource does in either case. -/
structure Exited (p : Pointers) (client : Handle) (rest : List ResourceHandle) (s s' : Thread) :
    Prop where
  sound : s'.Sound
  current : s'.current = s.current
  locks : ∀ u, (s'.table.transactions u).map (·.lock) = (s.table.transactions u).map (·.lock)
  active : s'.active = rest
  left : Left p client s s'

/-- A request leaves the transaction that it entered. -/
theorem exited (hs : s.Sound) (hc : s.current = some t)
    (hactive : s.active = p.resource client :: rest)
    (hheld : 0 < s.held (.node (p.nodeLock (p.resource client)))) :
    ∃ s', npaRequestExitTransaction p t client s = .ok s' ∧ Exited p client rest s s' := by
  obtain ⟨tr, htr⟩ := ne_none_iff_exists'.mp (hs.there hc)
  obtain ⟨hact, hlock, hpend⟩ := Thread.view_before hc htr
  have htop : tr.activeResources = p.resource client :: rest := hact.symm.trans hactive
  have htransaction : s.transaction t = .ok tr := by
    unfold Thread.transaction
    rw [htr]
  have hmarked : ∀ {r}, (s.marks r).transaction ≠ none → r ≠ p.resource client →
      r ∈ rest ∨ r ∈ tr.lockedResources := by
    intro r hr hne
    have := hs.marked hr
    rw [hactive, hlock, mem_cons] at this
    exact this.imp_left fun h => h.resolve_left hne
  unfold npaRequestExitTransaction
  simp only [htransaction, bind, Except.bind, htop, head?_cons, tail_cons, if_true]
  split
  · refine ⟨_, rfl, ?_⟩
    obtain ⟨htable, htransactions⟩ :
        (leaveForked p t client rest (s.modify t popActive)).table =
          s.table.modify t (fun tr => defer (p.resource client) client (popActive tr)) ∧
        ∀ r, ((leaveForked p t client rest (s.modify t popActive)).marks r).transaction =
          (s.marks r).transaction := by
      unfold leaveForked
      cases rest.head? with
      | some top => exact ⟨modify_modify .., fun r => Thread.forked_transaction r top⟩
      | none => exact ⟨modify_modify .., fun r => rfl⟩
    obtain ⟨hcurrent, hmutexes, hlog⟩ :
        (leaveForked p t client rest (s.modify t popActive)).current = some t ∧
        (leaveForked p t client rest (s.modify t popActive)).mutexes = s.mutexes ∧
        (leaveForked p t client rest (s.modify t popActive)).log =
          .returned client true :: s.log := by
      unfold leaveForked
      cases rest.head? with
      | some top => exact ⟨hc, rfl, rfl⟩
      | none => exact ⟨hc, rfl, rfl⟩
    generalize leaveForked p t client rest (s.modify t popActive) = s' at *
    obtain ⟨hactive', hlocked', hpending'⟩ := Thread.view _ htr hcurrent htable
    have hactive₂ : s'.active = rest := by
      rw [hactive']
      simp [defer, popActive, htop]
    refine ⟨hs.of_modified hc _ hcurrent htable (fun {r} hr => ?_)
      (by rw [hmutexes]; exact hs.balanced),
      hcurrent.trans hc.symm, fun u => ?_, hactive₂, .deferred ?_ ?_ ?_ hlog⟩
    · rw [htransactions] at hr
      rw [hactive₂, hlocked']
      by_cases hres : r = p.resource client
      · exact .inr (by simp [defer, hres])
      · exact (hmarked hr hres).imp_right fun h => mem_append_left _ h
    · rw [htable]
      exact modify_locks s.table (fun tr => defer _ client (popActive tr)) (fun _ => rfl) u
    · rw [hlocked', hlock]
      rfl
    · rw [hpending', hpend]
      rfl
    · intro m
      unfold Thread.held
      rw [hmutexes]
  · obtain ⟨s₁, hs₁, hun⟩ := Thread.unlocked (m := .node (p.nodeLock (p.resource client)))
      (s := (s.modify t popActive).mark (p.resource client) fun m => { m with transaction := none })
      hheld
    rw [hs₁]
    refine ⟨_, rfl, ?_⟩
    have hcurrent : ((s₁.note (.returned client false)).npaRequestServiced client).current =
        some t := hun.current.trans hc
    have htable : ((s₁.note (.returned client false)).npaRequestServiced client).table =
        s.table.modify t popActive := hun.table
    obtain ⟨hactive', hlocked', hpending'⟩ := Thread.view _ htr hcurrent htable
    have hactive₂ : ((s₁.note (.returned client false)).npaRequestServiced client).active =
        rest := by
      rw [hactive']
      simp [popActive, htop]
    refine ⟨hs.of_modified hc _ hcurrent htable (fun {r} hr => ?_) (hun.balanced hs.balanced),
      hcurrent.trans hc.symm, fun u => ?_, hactive₂,
      .serviced (hlocked'.trans hlock.symm) (hpending'.trans hpend.symm) hun.held ?_⟩
    · have hr' : ((((s.modify t popActive).mark (p.resource client) fun m =>
          { m with transaction := none }).marks r).transaction) ≠ none := by
        rw [← hun.marks]
        exact hr
      have hres : r ≠ p.resource client := by
        rintro rfl
        simp [Thread.mark] at hr'
      rw [hactive₂, hlocked']
      have hold : ((s.modify t popActive).mark (p.resource client) fun m =>
          { m with transaction := none }).marks r = s.marks r := if_neg hres
      rw [hold] at hr'
      exact hmarked hr' hres
    · rw [htable]
      exact modify_locks s.table popActive (fun _ => rfl) u
    · show _ :: _ :: s₁.log = _
      rw [hun.log]
      rfl

/-! ## Requests -/

/-- Outside of transactions nothing is active or pending. -/
theorem Thread.view_none (hc : s.current = none) : s.active = [] ∧ s.locked = [] ∧
    s.pending = [] := by
  unfold active locked pending
  rw [currentTransaction_none hc]
  exact ⟨rfl, rfl, rfl⟩

theorem Thread.lockedOn_none (hc : s.current = none) (n : NodeLock) : s.lockedOn p n = 0 := by
  unfold lockedOn
  rw [(view_none hc).2.1]
  rfl

/-- Outside of a transaction. -/
theorem grown_outside (hc : s.current = none) (hs' : s'.Sound) (hc' : s'.current = none)
    (hlocks : ∀ u, (s'.table.transactions u).map (·.lock) = (s.table.transactions u).map (·.lock))
    (hheld : ∀ m, s'.held m = s.held m)
    (hlog : ∀ {unreturned}, Account.replay s.log = some ⟨unreturned, [], []⟩ →
      Account.replay s'.log = some ⟨unreturned, [], []⟩) : Grown p s s' := by
  refine ⟨hs', hc'.trans hc.symm, hlocks, ?_, fun n => ?_, fun n => ?_,
    fun l => hheld _, fun h => ?_⟩
  · rw [(Thread.view_none hc).1, (Thread.view_none hc').1]
  · rw [Thread.lockedOn_none hc, Thread.lockedOn_none hc']
  · rw [Thread.lockedOn_none hc, Thread.lockedOn_none hc', hheld]
  · rw [(Thread.view_none hc).2.2] at h
    rw [(Thread.view_none hc').2.2]
    exact hlog h

/-- Outside of transactions a script releases what it locks. -/
theorem Grown.held_outside (h : Grown p s s') (hc : s.current = none) (m : Mutex) :
    s'.held m = s.held m := by
  cases m with
  | node n =>
    have := h.held n
    rw [Thread.lockedOn_none hc, Thread.lockedOn_none (h.current.trans hc)] at this
    exact this
  | transaction l => exact h.transactionHeld l

/-- Outside of transactions a script leaves no request open. -/
theorem Grown.log_outside (h : Grown p s s') (hc : s.current = none) {unreturned : List Handle}
    (hlog : Account.replay s.log = some ⟨unreturned, [], []⟩) :
    Account.replay s'.log = some ⟨unreturned, [], []⟩ := by
  have := @h.log unreturned
  rw [(Thread.view_none hc).2.2, (Thread.view_none (h.current.trans hc)).2.2] at this
  exact this hlog

/-- Soundness looks at the log only in passing. -/
theorem Thread.Sound.note (hs : s.Sound) (e : Settlement Handle) : (s.note e).Sound :=
  ⟨hs.there, hs.idle, hs.marked, hs.balanced⟩

/-- A lock keeps the thread sound. -/
theorem Thread.Sound.lock (hs : s.Sound) (m : Mutex) : (s.coreMutexLock m).Sound :=
  ⟨hs.there, hs.idle, hs.marked, s.balanced_lock m hs.balanced⟩

/-- A release keeps the thread sound. -/
theorem Thread.Unlocked.sound {m : Mutex} (h : Unlocked s m s') (hs : s.Sound) : s'.Sound := by
  have hcur := h.currentTransaction
  refine ⟨?_, ?_, fun {r} hr => ?_, h.balanced hs.balanced⟩
  · rw [h.current, h.table]
    exact hs.there
  · rw [h.current, h.table]
    exact hs.idle
  · rw [h.marks] at hr
    unfold Thread.active Thread.locked
    rw [hcur]
    exact hs.marked hr

/-- What a driver may do, from any state between two steps. -/
def Driven (p : Pointers) (current : Option TransactionHandle)
    (driver : Thread → Except Check Thread) : Prop :=
  ∀ s : Thread, s.Sound → s.current = current → Outcome (Grown p s) (driver s)

variable {driver : Thread → Except Check Thread}

/-- A request in a transaction. -/
theorem processRequest_inside (hs : s.Sound) (hc : s.current = some t)
    (hdriver : Driven p (some t) driver) :
    Outcome (Grown p s) (npaProcessRequest p client driver s) := by
  have hent := entered p client (hs.note (.issued client)) hc
  have hcurrent : (s.note (.issued client)).current = some t := hc
  unfold npaProcessRequest
  simp only [hcurrent]
  refine (hdriver _ hent.sound (hent.current.trans hc)).bind fun s₂ hg => ?_
  generalize npaRequestEnterTransaction p t client (s.note (.issued client)) = s₁ at *
  have hactive₂ : s₂.active = p.resource client :: s.active := hg.active.trans hent.active
  have hon₁ : ∀ n, s₁.lockedOn p n = s.lockedOn p n := fun n => congrArg (countP _) hent.locked
  have hheld₁ : ∀ m, s₁.held m =
    s.held m + if m = .node (p.nodeLock (p.resource client)) then 1 else 0 := hent.held
  have hpos : 0 < s₂.held (.node (p.nodeLock (p.resource client))) := by
    have := hg.held (p.nodeLock (p.resource client))
    have := hg.locked (p.nodeLock (p.resource client))
    have := hheld₁ (.node (p.nodeLock (p.resource client)))
    rw [if_pos rfl] at this
    omega
  obtain ⟨s₃, hs₃, hex⟩ := exited hg.sound (hg.current.trans (hent.current.trans hc)) hactive₂ hpos
  rw [hs₃]
  have hissued : ∀ {unreturned}, Account.replay s.log = some ⟨unreturned, [], s.pending⟩ →
      Account.replay s₂.log = some ⟨client :: unreturned, [], s₂.pending⟩ := by
    intro unreturned hlog
    refine hg.log ?_
    rw [hent.log, hent.pending]
    exact Account.replay_issued hlog
  refine ⟨hex.sound, hex.current.trans (hg.current.trans hent.current),
    fun u => (hex.locks u).trans ((hg.locks u).trans (hent.locks u)), hex.active, ?_, ?_, ?_, ?_⟩
  · intro n
    have := hg.locked n
    rw [hon₁] at this
    cases hex.left with
    | deferred hlocked =>
      unfold Thread.lockedOn at *
      rw [hlocked, countP_append]
      omega
    | serviced hlocked =>
      unfold Thread.lockedOn at *
      rwa [hlocked]
  · intro n
    have := hg.held n
    have := hheld₁ (.node n)
    rw [hon₁] at *
    cases hex.left with
    | deferred hlocked _ hheld =>
      have hon₃ : s₃.lockedOn p n = s₂.lockedOn p n +
          if (Mutex.node n) = .node (p.nodeLock (p.resource client)) then 1 else 0 := by
        unfold Thread.lockedOn
        rw [hlocked, countP_append]
        by_cases hn : p.nodeLock (p.resource client) = n
        · simp [hn]
        · simp [hn, Ne.symm hn]
      rw [hheld, hon₃]
      omega
    | serviced hlocked _ hheld =>
      have hon₃ : s₃.lockedOn p n = s₂.lockedOn p n := congrArg (countP _) hlocked
      have := hheld (.node n)
      rw [hon₃]
      omega
  · intro l
    have h₁ := hheld₁ (.transaction l)
    have h₂ := hg.transactionHeld l
    cases hex.left with
    | deferred _ _ hheld => simp_all
    | serviced _ _ hheld =>
      have := hheld (.transaction l)
      simp_all
  · intro unreturned hlog
    have := hissued hlog
    cases hex.left with
    | deferred _ hpending _ hlog₃ =>
      rw [hlog₃, hpending]
      exact Account.replay_deferred this
    | serviced _ hpending _ hlog₃ =>
      rw [hlog₃, hpending]
      exact Account.replay_returned this

/-- A request outside of a transaction. -/
theorem processRequest_outside (hs : s.Sound) (hc : s.current = none)
    (hdriver : Driven p none driver) :
    Outcome (Grown p s) (npaProcessRequest p client driver s) := by
  have hcurrent : (s.note (.issued client)).current = none := hc
  unfold npaProcessRequest
  simp only [hcurrent]
  refine (hdriver _ ((hs.note (.issued client)).lock _) hc).bind fun s₂ hg => ?_
  have hheld : ∀ m, s₂.held m = s.held m +
      if m = .node (p.nodeLock (p.resource client)) then 1 else 0 := fun m =>
    (hg.held_outside hc m).trans ((s.note (.issued client)).held_lock _ m hs.balanced)
  obtain ⟨s₃, hs₃, hun⟩ := Thread.unlocked (s := s₂)
    (m := .node (p.nodeLock (p.resource client))) (by rw [hheld, if_pos rfl]; omega)
  have hc₃ : s₃.current = none := hun.current.trans (hg.current.trans hc)
  rw [hs₃]
  refine grown_outside hc (((hun.sound hg.sound).note _).note _) hc₃ (fun u => ?_) (fun m => ?_) ?_
  · show (s₃.table.transactions u).map _ = _
    rw [hun.table]
    exact hg.locks u
  · have := hun.held m
    have := hheld m
    show s₃.held m = s.held m
    omega
  · intro unreturned hlog
    show Account.replay (_ :: _ :: s₃.log) = _
    rw [hun.log]
    exact Account.replay_returned (hg.log_outside hc (Account.replay_issued hlog))

/-- A request, if its driver does what a driver may. -/
theorem issueSyncRequest_grown {new : Bool} (hs : s.Sound)
    (hdriver : new = true → Driven p s.current driver) :
    Outcome (Grown p s) (npaIssueSyncRequest p client new driver s) := by
  unfold npaIssueSyncRequest
  cases new with
  | true =>
    rw [if_pos rfl]
    cases hc : s.current with
    | some t => exact processRequest_inside hs hc (hc ▸ hdriver rfl)
    | none => exact processRequest_outside hs hc (hc ▸ hdriver rfl)
  | false =>
    rw [if_neg (by simp)]
    exact ⟨((hs.note _).note _).note _, rfl, fun _ => rfl, rfl,
      fun _ => Nat.le_refl _, fun _ => rfl,
      fun _ => rfl, fun hlog => Account.replay_returned (Account.replay_issued hlog)⟩

/-- A dependency request for both clients, outside of a transaction. -/
theorem issueDependencyRequest_grown {type : ClientType} {req sup : Option Handle} (hs : s.Sound)
    (hc : s.current = none) (hdriver : Driven p none driver) :
    Outcome (Grown p s) (npaIssueDependencyRequest p true type req sup driver s) := by
  unfold npaIssueDependencyRequest npaSetupDependencyRequest
  rw [if_pos rfl]
  cases req with
  | none => exact rfl
  | some rc =>
    cases sup with
    | none => exact rfl
    | some sc =>
      by_cases hres : p.resource rc = p.resource sc
      · simp only [hres, if_true, bind, Except.bind, Thread.noteIssued, isSome_some,
          and_self]
        have hcurrent : ((s.note (.issued sc)).note (.issued rc)).current = none := hc
        simp only [hcurrent]
        refine Outcome.bind (Q := Grown p (((s.note (.issued sc)).note (.issued rc)).coreMutexLock
          (.node (p.nodeLock (p.resource sc)))))
          (hdriver _ (((hs.note _).note _).lock _) hc) fun s₂ hg => ?_
        have hc₂ : s₂.current = none := hg.current.trans hc
        have hheld : ∀ m, s₂.held m = s.held m +
            if m = .node (p.nodeLock (p.resource sc)) then 1 else 0 := fun m =>
          (hg.held_outside hc m).trans
            (((s.note (.issued sc)).note (.issued rc)).held_lock _ m hs.balanced)
        have hmark : (s₂.marks (p.resource sc)).transaction = none := by
          refine eq_none_iff_forall_ne_some.mpr fun t ht => ?_
          have := hg.sound.marked (r := p.resource sc) (by rw [ht]; simp)
          rw [(Thread.view_none hc₂).1, (Thread.view_none hc₂).2.1] at this
          simp at this
        unfold npaTeardownDependencyRequest
        simp only [hmark]
        obtain ⟨s₃, hs₃, hun⟩ := Thread.unlocked
          (s := (((s₂.note (.returned rc false)).npaRequestServiced rc).note
            (.returned sc false)).npaRequestServiced sc)
          (m := .node (p.nodeLock (p.resource sc)))
          (by show 0 < s₂.held _; rw [hheld, if_pos rfl]; omega)
        rw [hs₃]
        refine grown_outside hc
          (hun.sound ((((hg.sound.note _).note _).note _).note _)) (hun.current.trans hc₂)
          (fun u => ?_) (fun m => ?_) ?_
        · rw [hun.table]
          exact hg.locks u
        · have h₃ : s₃.held m + (if m = .node (p.nodeLock (p.resource sc)) then 1 else 0) =
              s₂.held m := hun.held m
          have := hheld m
          omega
        · intro unreturned hlog
          rw [hun.log]
          exact Account.replay_returned (Account.replay_returned (hg.log_outside hc
            (Account.replay_issued (Account.replay_issued hlog))))
      · simp only [hres, if_false]
        exact rfl

end Npa.Locking
