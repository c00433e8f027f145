import BootXf.Npa.TransactionScripts

/-!
# The locks and reports of transactions

A thread begins transactions, issues requests and ends transactions, in any order.
`lock_discipline` says what holds between these calls as long as every dependency request is torn
down: nothing is active; outside of a transaction every mutex has been given back as often as it has
been taken, and every request has been reported once; no call runs into one of the checks that are
between the functions. `dependency_requests_leak` has the calls that are not torn down.
-/

namespace Npa.Locking

open Lib Option

variable {p : Pointers} {s s' : Thread} {t : TransactionHandle} {tr : Transaction} {op : ThreadOp}

/-- A thread that has not done anything, for transactions that have been defined. -/
def Thread.idle (table : TransactionTable) (forked : ResourceHandle → Bool) : Thread where
  table := table
  current := none
  marks r := ⟨none, forked r⟩
  mutexes _ := ⟨0, 0⟩
  log := []

/-- Transactions that are not in use. -/
def TransactionsIdle (table : TransactionTable) : Prop :=
  ∀ {t tr}, table.transactions t = some tr →
    tr.activeResources = [] ∧ tr.lockedResources = [] ∧ tr.pendingClients = []

/-- What is to hold between two calls of a thread. -/
structure Balanced (s : Thread) : Prop where
  active : ∀ {t tr}, s.table.transactions t = some tr → tr.activeResources = []
  released : s.current = none → ∀ m, (s.mutexes m).acquired = (s.mutexes m).released
  accounted : Account.replay s.log = some ⟨[], [], s.pending⟩
  reported : s.current = none → ∀ c, s.log.count (.issued c) = s.log.count (.reported c)

/-- The calls whose requests are all torn down. -/
def ThreadOp.TornDown (s : Thread) : ThreadOp → Prop
  | beginTransaction _ => True
  | requests script => script.TornDown s.current.isSome
  | endTransaction t flush => s.current = some t → flush.TornDown true

/-- A step under such a call. -/
def DisciplinedStep (p : Pointers) (s : Thread) (op : ThreadOp) (s' : Thread) : Prop :=
  op.TornDown s ∧ op.apply p s = .ok s'

/-! ## The invariant -/

/-- A thread that is not in a transaction. -/
structure Thread.Quiet (s : Thread) : Prop where
  sound : s.Sound
  current : s.current = none
  held : ∀ m, s.held m = 0
  log : Account.replay s.log = some ⟨[], [], []⟩

/-- A thread between two calls: it is in no transaction, or in one that it has begun when it was in
none. -/
inductive InCourse (p : Pointers) (s : Thread) : Prop
  | outside : s.Quiet → InCourse p s
  | inside {s₀ : Thread} {t : TransactionHandle} {tr : Transaction} {l : TransactionLock} :
      s₀.Quiet → s₀.table.transactions t = some tr → tr.lock = some l →
      Grown p (s₀.started t l) s → InCourse p s

theorem Thread.Quiet.grown (h : s.Quiet) (hg : Grown p s s') : s'.Quiet where
  sound := hg.sound
  current := hg.current.trans h.current
  held m := (hg.held_outside h.current m).trans (h.held m)
  log := hg.log_outside h.current h.log

theorem InCourse.sound (h : InCourse p s) : s.Sound := by
  cases h with
  | outside hq => exact hq.sound
  | inside _ _ _ hg => exact hg.sound

theorem InCourse.grown (h : InCourse p s) (hg : Grown p s s') : InCourse p s' := by
  cases h with
  | outside hq => exact .outside (hq.grown hg)
  | inside hq htr hl hg₀ => exact .inside hq htr hl (hg₀.trans hg)

/-- **A call of the thread.** -/
theorem InCourse.step (h : InCourse p s) (hop : op.TornDown s) :
    Outcome (InCourse p) (op.apply p s) := by
  cases op with
  | requests script => exact (Script.run_grown h.sound hop).mono fun _ hg => h.grown hg
  | beginTransaction t =>
    cases hc : s.current with
    | none =>
      have hq : s.Quiet := by
        cases h with
        | outside hq => exact hq
        | inside _ _ _ hg =>
          have := hg.current.symm.trans hc
          cases this
      refine (begin_outside hq.sound hc).mono fun s' ⟨tr, l, htr, hl, hg⟩ => ?_
      exact .inside hq htr hl hg
    | some current => exact (begin_inside h.sound hc).mono fun _ hg => h.grown hg.1
  | endTransaction t flush =>
    cases h with
    | outside hq =>
      show Outcome _ (npaEndTransaction p t (flush.run p) s)
      unfold npaEndTransaction
      rw [hq.current]
      exact rfl
    | @inside s₀ t₀ tr l hq htr hl hg =>
      have hc : s.current = some t₀ := hg.current
      by_cases ht : t₀ = t
      · subst ht
        refine (end_outside hq.sound hq.current htr hl hg fun s₁ hs₁ hc₁ => ?_).mono
          fun s' hg' => .outside (hq.grown hg')
        exact Script.run_grown hs₁ (hc₁ ▸ hop hc)
      · exact (end_inside hg.sound hc ht).mono fun s' hg' => .inside hq htr hl (hg.trans hg')

/-- What is to hold, from the invariant. -/
theorem InCourse.balanced (h : InCourse p s) : Balanced s := by
  have haccounted : Account.replay s.log = some ⟨[], [], s.pending⟩ := by
    cases h with
    | outside hq =>
      rw [(Thread.view_none hq.current).2.2]
      exact hq.log
    | inside hq htr _ hg =>
      refine hg.log ?_
      rw [(started_sound hq.sound hq.current htr).2.2.2]
      exact hq.log
  have hquiet : s.current = none → s.Quiet := by
    intro hc
    cases h with
    | outside hq => exact hq
    | inside _ _ _ hg => cases hg.current.symm.trans hc
  refine ⟨fun {u ur} hur => ?_, fun hc m => ?_, haccounted, fun hc c => ?_⟩
  · by_cases hcu : s.current = some u
    · cases h with
      | outside hq => cases hq.current.symm.trans hcu
      | inside hq htr _ hg =>
        rw [← (Thread.view_before hcu hur).1, hg.active]
        exact (started_sound hq.sound hq.current htr).2.1
    · exact (h.sound.idle hur hcu).1
  · have hheld := (hquiet hc).held m
    have hle := h.sound.balanced m
    unfold Thread.held at hheld
    omega
  · have hcount := Account.count_issued haccounted c
    rw [(Thread.view_none hc).2.2] at hcount
    simpa using hcount

theorem quiet_idle {table : TransactionTable} (htable : TransactionsIdle table)
    (forked : ResourceHandle → Bool) : (Thread.idle table forked).Quiet where
  sound :=
    { there := fun h => by cases h
      idle := fun hur _ => htable hur
      marked := fun h => absurd rfl h
      balanced := fun _ => Nat.le_refl _ }
  current := rfl
  held _ := rfl
  log := rfl

/-- **The law of the locks.** In every run whose requests are torn down, from transactions that are
not in use, the state between two calls is balanced: no resource is active; outside of a transaction
every mutex has been released as often as acquired and every request has been reported once; and a
request is reported when it returns, or at the end of the transaction if its resource is forked. A
further call leads to such a state again, or ends in a check that is up to the callers. -/
theorem lock_discipline {table : TransactionTable} {forked : ResourceHandle → Bool}
    {h : List ThreadOp} (htable : TransactionsIdle table)
    (run : Run (DisciplinedStep p) (.idle table forked) h s) :
    Balanced s ∧ ∀ op : ThreadOp, op.TornDown s → Outcome Balanced (op.apply p s) := by
  have hcourse : InCourse p s := by
    refine run.state_invariant (.outside (quiet_idle htable forked)) ?_
    rintro s op s' hs ⟨hop, happly⟩
    have := hs.step hop
    rw [happly] at this
    exact this
  exact ⟨hcourse.balanced, fun op hop => (hcourse.step hop).mono fun s' hs' => hs'.balanced⟩

/-! ## Runs -/

/-- The clients two and twelve are clients of the resource two, and so on; each resource has a node
of its own. -/
def plainPointers : Pointers := ⟨(· % 10), id⟩

/-- A transaction of the resources one and two. -/
def plainTable : TransactionTable where
  transactions t := if t = 0 then some ⟨⟨false, false⟩, some 0, 0, [1, 2], [], [], []⟩ else none
  transactionList := [0]
  locks := [0]
  nextTransaction := 1
  nextLock := 1

theorem transactionsIdle_plainTable : TransactionsIdle plainTable := by
  intro t tr htr
  have htr : (if t = 0 then some ⟨⟨false, false⟩, some 0, 0, [1, 2], [], [], []⟩ else none) =
      some tr := htr
  split at htr
  · cases htr
    exact ⟨rfl, rfl, rfl⟩
  · cases htr

/-- Carrying out a call that does not end in a check. -/
def threadStep (s : Thread) (op : ThreadOp) : Option Thread :=
  match op.apply plainPointers s with
  | .ok s' => some s'
  | .error _ => none

theorem apply_of_threadStep (h : threadStep s op = some s') :
    op.apply plainPointers s = .ok s' := by
  unfold threadStep at h
  split at h
  · next heq => exact heq.trans (congrArg Except.ok (Option.some.inj h))
  · cases h

/-- A request whose driver issues an ordinary request to a resource that is then forked. -/
def forkedRequest : Script :=
  .request 1 true (.request 2 true (.markForked 2 .done) .done) .done

/-- The locks and the reports of a transaction with that request. -/
theorem lock_discipline_forked : ∃ s : Thread,
    Run (DisciplinedStep plainPointers) (.idle plainTable fun _ => false)
      [.endTransaction 0 .done, .requests forkedRequest, .beginTransaction 0] s ∧
    s.current = none ∧ s.mutexes (.node 2) = ⟨1, 1⟩ ∧ s.log.count (.reported 2) = 1 ∧
    Balanced s := by
  have hexec : (execute threadStep (.idle plainTable fun _ => false) [.beginTransaction 0,
      .requests forkedRequest, .endTransaction 0 .done]).map (fun s => (s.current,
        s.mutexes (.node 2), s.log.count (.reported 2))) = some (none, ⟨1, 1⟩, 1) := by
    decide +kernel
  obtain ⟨s₃, hs, hseen⟩ := map_eq_some_iff.mp hexec
  obtain ⟨s₁, h₁, hs⟩ := bind_eq_some_iff.mp hs
  obtain ⟨s₂, h₂, hs⟩ := bind_eq_some_iff.mp hs
  obtain ⟨s₃', h₃, hend⟩ := bind_eq_some_iff.mp hs
  obtain rfl : s₃' = s₃ := Option.some.inj hend
  have hdone : ∀ inside, forkedRequest.TornDown inside := fun _ =>
    ⟨fun _ => ⟨fun _ => trivial, trivial⟩, trivial⟩
  have run : Run (DisciplinedStep plainPointers) (.idle plainTable fun _ => false)
      [.endTransaction 0 .done, .requests forkedRequest, .beginTransaction 0] s₃' :=
    ((Run.start.step ⟨trivial, apply_of_threadStep h₁⟩).step
      ⟨hdone _, apply_of_threadStep h₂⟩).step ⟨fun _ => trivial, apply_of_threadStep h₃⟩
  obtain ⟨hcurrent, hrest⟩ := Prod.mk.inj hseen
  obtain ⟨hmutex, hreported⟩ := Prod.mk.inj hrest
  exact ⟨s₃', run, hcurrent, hmutex, hreported,
    (lock_discipline transactionsIdle_plainTable run).1⟩

/-- The steps of a thread whose requests may be of any kind. -/
def ThreadStep (p : Pointers) (s : Thread) (op : ThreadOp) (s' : Thread) : Prop :=
  op.apply p s = .ok s'

/-- A request whose driver issues a dependency request for a required client. -/
def dependencyForOne : Script :=
  .request 1 true (.dependencyRequest false .required (some 2) none .done .done) .done

/-- A request whose driver issues a dependency request for a client that changes its type. -/
def dependencyForBoth : Script :=
  .request 1 true (.dependencyRequest true .required (some 2) (some 12) .done .done) .done

/-- **Dependency requests that are not torn down.** Outside of a transaction, the lock of the
dependency is never given back. In a transaction, the request that has caused the dependency request
runs into a check. For a client that changes its type in a transaction, only one of the two requests
is reported. -/
theorem dependency_requests_leak :
    (∃ s : Thread, Run (ThreadStep plainPointers) (.idle plainTable fun _ => false)
      [.requests dependencyForOne] s ∧ s.current = none ∧ s.mutexes (.node 2) = ⟨1, 0⟩) ∧
    (∃ s : Thread, Run (ThreadStep plainPointers) (.idle plainTable fun _ => false)
        [.beginTransaction 0] s ∧
      (ThreadOp.requests dependencyForOne).apply plainPointers s = .error .activeResource) ∧
    ∃ s : Thread, Run (ThreadStep plainPointers) (.idle plainTable fun _ => false)
        [.endTransaction 0 .done, .requests dependencyForBoth, .beginTransaction 0] s ∧
      s.current = none ∧ s.log.count (.issued 12) = 1 ∧ s.log.count (.reported 12) = 0 := by
  refine ⟨?_, ?_, ?_⟩
  · have hexec : (execute threadStep (.idle plainTable fun _ => false)
        [.requests dependencyForOne]).map (fun s => (s.current, s.mutexes (.node 2))) =
          some (none, ⟨1, 0⟩) := by
      decide +kernel
    obtain ⟨s, hs, hseen⟩ := map_eq_some_iff.mp hexec
    obtain ⟨hcurrent, hmutex⟩ := Prod.mk.inj hseen
    exact ⟨s, Run.of_execute apply_of_threadStep .start hs, hcurrent, hmutex⟩
  · have hexec : (execute threadStep (.idle plainTable fun _ => false)
        [.beginTransaction 0]).map (fun s =>
          match (ThreadOp.requests dependencyForOne).apply plainPointers s with
          | .ok _ => none
          | .error c => some c) = some (some .activeResource) := by
      decide +kernel
    obtain ⟨s, hs, hseen⟩ := map_eq_some_iff.mp hexec
    refine ⟨s, Run.of_execute apply_of_threadStep .start hs, ?_⟩
    split at hseen
    · cases hseen
    · next heq => exact heq.trans (congrArg Except.error (Option.some.inj hseen))
  · have hexec : (execute threadStep (.idle plainTable fun _ => false) [.beginTransaction 0,
        .requests dependencyForBoth, .endTransaction 0 .done]).map (fun s => (s.current,
          s.log.count (.issued 12), s.log.count (.reported 12))) = some (none, 1, 0) := by
      decide +kernel
    obtain ⟨s, hs, hseen⟩ := map_eq_some_iff.mp hexec
    obtain ⟨hcurrent, hrest⟩ := Prod.mk.inj hseen
    obtain ⟨hissued, hreported⟩ := Prod.mk.inj hrest
    exact ⟨s, Run.of_execute apply_of_threadStep .start hs, hcurrent, hissued, hreported⟩

end Npa.Locking
