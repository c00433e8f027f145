import BootXf.Npa.TransactionBalance

/-!
# What a script leaves behind

Beginning and ending a transaction, and with them the scripts. `Grown` composes, so that a script is
balanced if its requests are torn down (`Script.run_grown`, an induction over the script). A
transaction that begins and ends inside of one is `release_grown`.
-/

namespace Npa.Locking

open Lib List

variable {p : Pointers} {s s' : Thread} {t : TransactionHandle} {tr : Transaction}
  {l : TransactionLock} {current : TransactionHandle} {flush : Thread → Except Check Thread}

/-! ## Beginning and ending -/

/-- Only the depth of the current transaction changes. -/
theorem grown_depth (hs : s.Sound) (hc : s.current = some t) (f : UInt32 → UInt32) :
    Grown p s (s.modify t fun tr => { tr with depth := f tr.depth }) := by
  obtain ⟨tr, htr⟩ := Option.ne_none_iff_exists'.mp (hs.there hc)
  obtain ⟨hactive, hlocked, hpending⟩ := Thread.view_before hc htr
  obtain ⟨hactive', hlocked', hpending'⟩ := Thread.view
    (s.modify t fun tr => { tr with depth := f tr.depth }) htr hc rfl
  have hl : (s.modify t fun tr => { tr with depth := f tr.depth }).locked = s.locked :=
    hlocked'.trans hlocked.symm
  have hon : ∀ n, (s.modify t fun tr => { tr with depth := f tr.depth }).lockedOn p n =
      s.lockedOn p n := fun n => congrArg (countP _) hl
  refine ⟨hs.of_modified hc _ hc rfl (fun hr => ?_) hs.balanced, rfl,
    modify_locks s.table (fun tr => { tr with depth := f tr.depth }) fun _ => rfl,
    hactive'.trans hactive.symm, fun n => Nat.le_of_eq (hon n).symm, fun n => ?_, fun _ => rfl,
    fun hlog => ?_⟩
  · rw [hactive', hlocked', ← hactive, ← hlocked]
    exact hs.marked hr
  · rw [hon]
    rfl
  · rw [hpending', ← hpending]
    exact hlog

/-- Locking a resource before it is used. -/
theorem lockResource_grown (hs : s.Sound) (hc : s.current = some t) (r : ResourceHandle) :
    Grown p s (npaTransactionLockResource p t s r) := by
  obtain ⟨tr, htr⟩ := Option.ne_none_iff_exists'.mp (hs.there hc)
  obtain ⟨hactive, hlocked, hpending⟩ := Thread.view_before hc htr
  obtain ⟨hactive', hlocked', hpending'⟩ := Thread.view
    (npaTransactionLockResource p t s r) htr hc rfl
  have hon : ∀ n, (npaTransactionLockResource p t s r).lockedOn p n =
      s.lockedOn p n + if (Mutex.node n) = .node (p.nodeLock r) then 1 else 0 := by
    intro n
    unfold Thread.lockedOn
    rw [hlocked', hlocked, countP_cons]
    by_cases hn : p.nodeLock r = n
    · simp [hn]
    · simp [hn, Ne.symm hn]
  have hheld : ∀ m, (npaTransactionLockResource p t s r).held m =
      s.held m + if m = .node (p.nodeLock r) then 1 else 0 := fun m => s.held_lock _ m hs.balanced
  refine ⟨hs.of_modified hc _ hc rfl (fun {r'} hr => ?_) (s.balanced_lock _ hs.balanced), rfl,
    modify_locks s.table (fun tr => { tr with lockedResources := r :: tr.lockedResources })
      fun _ => rfl,
    hactive'.trans hactive.symm, fun n => ?_, fun n => ?_, fun l => ?_, fun hlog => ?_⟩
  · rw [hactive', hlocked', ← hactive, ← hlocked]
    exact (hs.marked hr).imp_right (mem_cons_of_mem _)
  · rw [hon]
    omega
  · rw [hon, hheld]
    omega
  · rw [hheld, if_neg (by simp)]
    rfl
  · rw [hpending', ← hpending]
    exact hlog

theorem lockResources_grown (hs : s.Sound) (hc : s.current = some t) (rs : List ResourceHandle) :
    Grown p s (rs.foldl (npaTransactionLockResource p t) s) := by
  induction rs generalizing s with
  | nil => exact .refl hs
  | cons r rs ih =>
    have hg := lockResource_grown (p := p) hs hc r
    exact hg.trans (ih hg.sound (hg.current.trans hc))

/-- The state of a thread that has the lock of the transaction that it begins. -/
def Thread.started (s : Thread) (t : TransactionHandle) (l : TransactionLock) : Thread :=
  { s.coreMutexLock (.transaction l) with current := some t }

/-- A transaction that is about to begin has nothing to release yet. -/
theorem started_sound (hs : s.Sound) (hc : s.current = none)
    (htr : s.table.transactions t = some tr) :
    (s.started t l).Sound ∧ (s.started t l).active = [] ∧ (s.started t l).locked = [] ∧
      (s.started t l).pending = [] := by
  obtain ⟨hactive, hlocked, hpending⟩ := hs.idle htr (by rw [hc]; simp)
  obtain ⟨hactive', hlocked', hpending'⟩ :=
    Thread.view_before (s := s.started t l) (t := t) rfl htr
  refine ⟨⟨fun {u} hu => ?_, fun hur _ => hs.idle hur (by rw [hc]; simp), fun {r} hr => ?_,
    s.balanced_lock _ hs.balanced⟩, hactive'.trans hactive, hlocked'.trans hlocked,
    hpending'.trans hpending⟩
  · obtain rfl : t = u := Option.some.inj hu
    show s.table.transactions t ≠ none
    rw [htr]
    simp
  · have := hs.marked hr
    rw [(Thread.view_none hc).1, (Thread.view_none hc).2.1] at this
    simp at this

/-- Beginning a transaction outside of any other. -/
theorem begin_outside (hs : s.Sound) (hc : s.current = none) :
    Outcome (fun s' => ∃ tr l, s.table.transactions t = some tr ∧ tr.lock = some l ∧
      Grown p (s.started t l) s') (npaBeginTransaction p t s) := by
  unfold npaBeginTransaction Thread.transaction
  cases htr : s.table.transactions t with
  | none => exact rfl
  | some tr =>
    simp only [bind, Except.bind]
    cases hl : tr.lock with
    | none => exact rfl
    | some l =>
      simp only [hc]
      have hstart := (started_sound (l := l) hs hc htr).1
      refine ⟨tr, l, rfl, hl, ?_⟩
      split
      · exact lockResources_grown hstart rfl _
      · exact .refl hstart

/-- Beginning a transaction inside of another. -/
theorem begin_inside (hs : s.Sound) (hc : s.current = some current) :
    Outcome (fun s' => Grown p s s' ∧ current ≠ t) (npaBeginTransaction p t s) := by
  unfold npaBeginTransaction Thread.transaction
  cases htr : s.table.transactions t with
  | none => exact rfl
  | some tr =>
    simp only [bind, Except.bind]
    cases hl : tr.lock with
    | none => exact rfl
    | some l =>
      simp only [hc]
      split
      · exact rfl
      · next hne =>
        split
        · exact rfl
        · exact ⟨grown_depth hs hc (· + 1), hne⟩

/-- What giving back the locks of some resources does. -/
structure Released (p : Pointers) (rs : List ResourceHandle) (s s' : Thread) : Prop where
  table : s'.table = s.table
  current : s'.current = s.current
  log : s'.log = s.log
  held : ∀ n, s'.held (.node n) + rs.countP (p.nodeLock · == n) = s.held (.node n)
  transactionHeld : ∀ l, s'.held (.transaction l) = s.held (.transaction l)
  balanced : ∀ m, (s'.mutexes m).released ≤ (s'.mutexes m).acquired
  marked : ∀ {r}, (s'.marks r).transaction ≠ none → r ∉ rs ∧ (s.marks r).transaction ≠ none

/-- The locks of some resources, which are all held often enough, are given back. -/
theorem released (rs : List ResourceHandle)
    (hb : ∀ m, (s.mutexes m).released ≤ (s.mutexes m).acquired)
    (hheld : ∀ n, rs.countP (p.nodeLock · == n) ≤ s.held (.node n)) :
    ∃ s', rs.foldlM (npaTransactionUnlockResource p) s = .ok s' ∧ Released p rs s s' := by
  induction rs generalizing s with
  | nil => exact ⟨s, rfl, rfl, rfl, rfl, fun _ => rfl, fun _ => rfl, hb, fun h => ⟨by simp, h⟩⟩
  | cons r rs ih =>
    have hcons : ∀ n, (r :: rs).countP (p.nodeLock · == n) =
        rs.countP (p.nodeLock · == n) + if (Mutex.node n) = .node (p.nodeLock r) then 1 else 0 := by
      intro n
      rw [countP_cons]
      by_cases hn : p.nodeLock r = n
      · simp [hn]
      · simp [hn, Ne.symm hn]
    obtain ⟨s₁, hs₁, hun⟩ := Thread.unlocked (s := s.mark r fun _ => ⟨none, false⟩)
      (m := .node (p.nodeLock r)) (by
        have := hheld (p.nodeLock r)
        rw [hcons, if_pos rfl] at this
        exact Nat.lt_of_lt_of_le (Nat.succ_pos _) this)
    have hheld₁ : ∀ n, s₁.held (.node n) +
        (if (Mutex.node n) = .node (p.nodeLock r) then 1 else 0) = s.held (.node n) := fun n =>
      hun.held (.node n)
    obtain ⟨s₂, hs₂, hrel⟩ := ih (hun.balanced hb) (s := s₁) fun n => by
      have := hheld n
      have := hheld₁ n
      rw [hcons] at *
      omega
    refine ⟨s₂, ?_, hrel.table.trans hun.table, hrel.current.trans hun.current,
      hrel.log.trans hun.log, fun n => ?_, fun l => ?_, hrel.balanced, fun {r'} hr' => ?_⟩
    · rw [foldlM_cons, npaTransactionUnlockResource, hs₁]
      exact hs₂
    · have := hrel.held n
      have := hheld₁ n
      rw [hcons]
      omega
    · have h₁ : s₁.held (.transaction l) +
          (if (Mutex.transaction l) = .node (p.nodeLock r) then 1 else 0) =
            s.held (.transaction l) := hun.held (.transaction l)
      rw [if_neg (by simp)] at h₁
      exact (hrel.transactionHeld l).trans h₁
    · obtain ⟨hnot, hmark⟩ := hrel.marked hr'
      rw [hun.marks] at hmark
      have hne : r' ≠ r := by
        rintro rfl
        simp [Thread.mark] at hmark
      have hold : (s.mark r fun _ => ⟨none, false⟩).marks r' = s.marks r' := if_neg hne
      rw [hold] at hmark
      exact ⟨fun h => hnot ((mem_cons.mp h).resolve_left hne), hmark⟩

/-- The reports at the end of a transaction. -/
theorem serviced (clients : List Handle) (s : Thread) :
    (clients.foldl Thread.npaRequestServiced s).log =
      (clients.map Settlement.reported).reverse ++ s.log ∧
    (clients.foldl Thread.npaRequestServiced s).table = s.table ∧
    (clients.foldl Thread.npaRequestServiced s).current = s.current ∧
    (clients.foldl Thread.npaRequestServiced s).marks = s.marks ∧
    (clients.foldl Thread.npaRequestServiced s).mutexes = s.mutexes := by
  induction clients generalizing s with
  | nil => exact ⟨rfl, rfl, rfl, rfl, rfl⟩
  | cons c clients ih =>
    obtain ⟨hlog, htable, hcurrent, hmarks, hmutexes⟩ := ih (s.npaRequestServiced c)
    refine ⟨?_, htable, hcurrent, hmarks, hmutexes⟩
    rw [foldl_cons, hlog, map_cons, reverse_cons, append_assoc]
    rfl

/-- **The end of the outermost transaction.** What has been locked since the transaction was begun
is given back, and what waits for its end is reported. -/
theorem release_grown (hs : s.Sound) (hc : s.current = none)
    (htr : s.table.transactions t = some tr) (hl : tr.lock = some l)
    (hg : Grown p (s.started t l) s') : Outcome (Grown p s) (releaseTransaction p t s') := by
  obtain ⟨-, hactive₀, hlocked₀, hpending₀⟩ := started_sound (l := l) hs hc htr
  have hc' : s'.current = some t := hg.current
  obtain ⟨tr', htr'⟩ := Option.ne_none_iff_exists'.mp (hg.sound.there hc')
  obtain ⟨hactive, hlocked, hpending⟩ := Thread.view_before hc' htr'
  have hl' : tr'.lock = some l := by
    have := hg.locks t
    rw [htr', show (s.started t l).table.transactions t = some tr from htr] at this
    exact (Option.some.inj this).trans hl
  have hnode : ∀ n, s'.held (.node n) =
      s.held (.node n) + tr'.lockedResources.countP (p.nodeLock · == n) := by
    intro n
    have := hg.held n
    have h₀ : (s.started t l).held (.node n) = s.held (.node n) := by
      refine (s.held_lock (.transaction l) (.node n) hs.balanced).trans ?_
      rw [if_neg (by simp)]
      rfl
    unfold Thread.lockedOn at this
    rw [hlocked₀, countP_nil, h₀, hlocked] at this
    exact this
  obtain ⟨s₁, hs₁, hrel⟩ := released (p := p) tr'.lockedResources hg.sound.balanced
    fun n => by
      rw [hnode]
      omega
  have htransaction : ∀ l', s₁.held (.transaction l') =
      s.held (.transaction l') + if (Mutex.transaction l') = .transaction l then 1 else 0 := by
    intro l'
    rw [hrel.transactionHeld, hg.transactionHeld]
    exact s.held_lock (.transaction l) (.transaction l') hs.balanced
  obtain ⟨s₂, hs₂, hun⟩ := Thread.unlocked (m := .transaction l)
    (s := { s₁.modify t fun tr => { tr with lockedResources := [], pendingClients := [] } with
      current := none })
    (by
      show 0 < s₁.held _
      rw [htransaction, if_pos rfl]
      omega)
  have htable : s₂.table =
      s'.table.modify t fun tr => { tr with lockedResources := [], pendingClients := [] } := by
    rw [hun.table]
    show s₁.table.modify t _ = _
    rw [hrel.table]
  unfold releaseTransaction Thread.transaction
  rw [htr']
  simp only [bind, Except.bind]
  rw [show foldlM (npaTransactionUnlockResource p) s' tr'.lockedResources = _ from hs₁]
  simp only [hl']
  rw [hs₂]
  obtain ⟨hlog₃, htable₃, hcurrent₃, hmarks₃, hmutexes₃⟩ :=
    serviced tr'.pendingClients (s₂.note .settled)
  show Grown p s (tr'.pendingClients.foldl Thread.npaRequestServiced (s₂.note .settled))
  generalize tr'.pendingClients.foldl Thread.npaRequestServiced (s₂.note .settled) = s₃ at *
  have hc₃ : s₃.current = none := hcurrent₃.trans hun.current
  have htable₃' := htable₃.trans htable
  refine grown_outside hc ⟨fun h => ?_, fun {u ur} hur _ => ?_, fun {r} hr => ?_, ?_⟩ hc₃
    (fun u => ?_) (fun m => ?_) fun {unreturned} hlog => ?_
  · rw [hc₃] at h
    cases h
  · rw [htable₃'] at hur
    by_cases hu : u = t
    · rw [hu, TransactionTable.modify_self, htr'] at hur
      cases hur
      exact ⟨(hactive.symm.trans hg.active).trans hactive₀, rfl, rfl⟩
    · rw [TransactionTable.modify_of_ne _ hu] at hur
      refine hg.sound.idle hur ?_
      rw [hc']
      exact fun h => hu (Option.some.inj h).symm
  · rw [hmarks₃] at hr
    have hr₂ : (s₁.marks r).transaction ≠ none := by
      have : s₂.marks = s₁.marks := hun.marks
      rw [← this]
      exact hr
    obtain ⟨hnot, hmark⟩ := hrel.marked hr₂
    have := hg.sound.marked hmark
    rw [hg.active, hactive₀, hlocked] at this
    exact absurd (this.resolve_left (by simp)) hnot
  · rw [hmutexes₃]
    exact hun.balanced hrel.balanced
  · rw [htable₃']
    refine (modify_locks s'.table
      (fun tr => { tr with lockedResources := [], pendingClients := [] }) (fun _ => rfl) u).trans ?_
    exact hg.locks u
  · have h₃ : s₃.held m = s₂.held m := by
      unfold Thread.held
      rw [hmutexes₃]
      rfl
    have h₂ : s₂.held m + (if m = .transaction l then 1 else 0) = s₁.held m := hun.held m
    rw [h₃]
    cases m with
    | node n =>
      have := hrel.held n
      have := hnode n
      rw [if_neg (by simp)] at h₂
      omega
    | transaction l' =>
      have := htransaction l'
      omega
  · rw [hlog₃]
    show Account.replay (_ ++ .settled :: s₂.log) = _
    rw [hun.log]
    show Account.replay (_ ++ .settled :: s₁.log) = _
    rw [hrel.log, ← hpending]
    refine Account.replay_settled (hg.log ?_)
    rw [hpending₀]
    exact hlog

/-- Ending the transaction that a thread has begun. -/
theorem end_outside (hs : s.Sound)
    (hc : s.current = none) (htr : s.table.transactions t = some tr) (hl : tr.lock = some l)
    (hg : Grown p (s.started t l) s') (hflush : Driven p (some t) flush) :
    Outcome (Grown p s) (npaEndTransaction p t flush s') := by
  have hc' : s'.current = some t := hg.current
  obtain ⟨tr', htr'⟩ := Option.ne_none_iff_exists'.mp (hg.sound.there hc')
  unfold npaEndTransaction Thread.transaction
  simp only [hc', if_true, htr', bind, Except.bind]
  split
  · exact (hflush s' hg.sound hc').bind fun s₂ hg₂ => release_grown hs hc htr hl (hg.trans hg₂)
  · exact rfl

/-- Ending a transaction that is not the current one. -/
theorem end_inside (hs : s.Sound) (hc : s.current = some current) (hne : current ≠ t) :
    Outcome (Grown p s) (npaEndTransaction p t flush s) := by
  unfold npaEndTransaction Thread.transaction
  simp only [hc, if_neg hne]
  cases s.table.transactions t with
  | none => exact rfl
  | some tr => exact grown_depth hs hc (· - 1)

/-! ## Scripts -/

/-- The scripts whose requests are all torn down: a dependency request is one of a client that
changes its type, for both dependency clients, and is not in a transaction. -/
def Script.TornDown : Bool → Script → Prop
  | _, done => True
  | inside, request _ new driver rest => (new = true → driver.TornDown inside) ∧
    rest.TornDown inside
  | inside, dependencyRequest changedType _ _ _ driver rest =>
    (inside = false ∧ changedType = true) ∧ driver.TornDown inside ∧ rest.TornDown inside
  | inside, markForked _ rest => rest.TornDown inside
  | inside, transaction _ body flush rest =>
    body.TornDown true ∧ (inside = false → flush.TornDown true) ∧ rest.TornDown inside

/-- A mark does not change what there is to be balanced. -/
theorem markForked_grown (hs : s.Sound) (r : ResourceHandle) :
    Grown p s (s.npaMarkResourceForked r) := by
  refine ⟨⟨hs.there, hs.idle, fun {r'} hr => ?_, hs.balanced⟩, rfl, fun _ => rfl, rfl,
    fun _ => Nat.le_refl _, fun _ => rfl, fun _ => rfl, id⟩
  rw [Thread.forked_transaction] at hr
  exact hs.marked hr

/-- **A script is balanced.** The induction is on the script: a driver is a part of its request. -/
theorem Script.run_grown {script : Script} (hs : s.Sound)
    (hclean : script.TornDown s.current.isSome) : Outcome (Grown p s) (script.run p s) := by
  induction script generalizing s with
  | done => exact .refl hs
  | request client new driver rest ihdriver ihrest =>
    obtain ⟨hdriver, hrest⟩ := hclean
    refine (issueSyncRequest_grown hs fun hnew s₁ hs₁ hc₁ => ?_).bind fun s₁ hg => ?_
    · exact ihdriver hs₁ (hc₁ ▸ hdriver hnew)
    · exact (ihrest hg.sound (hg.current ▸ hrest)).mono fun s₂ hg₂ => hg.trans hg₂
  | dependencyRequest changedType type req sup driver rest ihdriver ihrest =>
    obtain ⟨⟨hinside, rfl⟩, hdriver, hrest⟩ := hclean
    have hc : s.current = none :=
      Option.isSome_eq_false_iff.mp hinside |> Option.isNone_iff_eq_none.mp
    rw [hc] at hdriver
    refine (issueDependencyRequest_grown hs hc fun s₁ hs₁ hc₁ => ?_).bind fun s₁ hg => ?_
    · exact ihdriver hs₁ (hc₁ ▸ hdriver)
    · exact (ihrest hg.sound (hg.current ▸ hrest)).mono fun s₂ hg₂ => hg.trans hg₂
  | markForked r rest ih =>
    have hg := markForked_grown (p := p) hs r
    exact (ih hg.sound hclean).mono fun s₂ hg₂ => hg.trans hg₂
  | transaction t body flush rest ihbody ihflush ihrest =>
    obtain ⟨hbody, hflush, hrest⟩ := hclean
    have hblock : Outcome (Grown p s) (do
        let s ← npaBeginTransaction p t s
        let s ← body.run p s
        npaEndTransaction p t (flush.run p) s) := by
      cases hc : s.current with
      | none =>
        refine (begin_outside hs hc).bind fun s₁ ⟨tr, l, htr, hl, hg₁⟩ => ?_
        have hc₁ : s₁.current = some t := hg₁.current
        refine (ihbody hg₁.sound (hc₁ ▸ hbody)).bind fun s₂ hg₂ => ?_
        refine end_outside hs hc htr hl (hg₁.trans hg₂) fun s₃ hs₃ hc₃ => ?_
        exact ihflush hs₃ (hc₃ ▸ hflush (by rw [hc]; rfl))
      | some current =>
        refine (begin_inside hs hc).bind fun s₁ ⟨hg₁, hne⟩ => ?_
        have hc₁ : s₁.current = some current := hg₁.current.trans hc
        refine (ihbody hg₁.sound (hc₁ ▸ hbody)).bind fun s₂ hg₂ => ?_
        exact (end_inside hg₂.sound (hg₂.current.trans hc₁) hne).mono fun s₃ hg₃ =>
          (hg₁.trans hg₂).trans hg₃
    have hrun : (Script.transaction t body flush rest).run p s = (do
        let s ← npaBeginTransaction p t s
        let s ← body.run p s
        npaEndTransaction p t (flush.run p) s) >>= fun s => rest.run p s := by
      simp only [Script.run, bind_assoc]
    rw [hrun]
    refine hblock.bind fun s₁ hg => ?_
    exact (ihrest hg.sound (hg.current ▸ hrest)).mono fun s₂ hg₂ => hg.trans hg₂

end Npa.Locking
