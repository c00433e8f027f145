import BootXf.Rpmh.Invariant
import BootXf.Lib.Run
import Mathlib.Logic.ExistsUnique

/-!
# Active requests

The clients of one DRV issue active command sets, in any order and at any time, the hardware
executes the AMCs that it has been given, in any order, and `rpmh_finish_amc` takes one of those
that are done.

`active_requests_kept`: in every run no command is lost and none is sent over another one, and RPMh
is sent the latest active vote of every resource.
-/

namespace Rpmh

open Lib List Option Function

/-- The invariant of the driver. The lists of commands are named, since a command that is being sent
is in neither queue, or in both. -/
structure Driver.Active (s : Driver) (w : Watch) (c : DrvConfig) (inFlight enqueued : List Cmd)
    (owed : List UInt32) (latest : UInt32 → Option UInt32) : Prop where
  voters : Voters w s.resources s.sent latest inFlight enqueued owed
  placed : Placed s.tcs s.hw c inFlight
  queued : Queued (·.Ready s.resources) inFlight enqueued s.freeCmds s.nextCmd s.issued s.finished

namespace Driver.Active
variable {s : Driver} {w : Watch} {c : DrvConfig} {inFlight inFlight' enqueued enqueued' : List Cmd}
  {owed : List UInt32} {latest : UInt32 → Option UInt32} {cmd : Cmd} {i : Nat} {set : CommandSet}

theorem perm (h : s.Active w c inFlight enqueued owed latest) (hf : inFlight.Perm inFlight')
    (he : enqueued.Perm enqueued') : s.Active w c inFlight' enqueued' owed latest :=
  ⟨h.voters.perm hf he, h.placed.perm hf, h.queued.perm hf he⟩

/-- The queues and the clients are of no account. -/
theorem keep (h : s.Active w c inFlight enqueued owed latest) (inFlight' enqueued' : List Cmd)
    (client : Nat → Client) :
    { s with inFlight := inFlight', enqueued := enqueued', client := client }.Active w c inFlight
      enqueued owed latest :=
  ⟨h.voters, h.placed, h.queued⟩

/-- **Sending a command** of which every resource is idle, when an AMC is idle. -/
theorem tcsSend (h : s.Active w c inFlight (cmd :: enqueued) owed latest)
    (hidle : ∀ a ∈ cmd.addresses, (s.resources.votes a).state = .idle)
    (hi : s.idleAmc c = some i) :
    ∃ s', s.tcsSend c cmd = .ok (true, s') ∧ s'.Active w c (cmd :: inFlight) enqueued owed latest ∧
      s'.inFlight = s.inFlight ∧ s'.enqueued = s.enqueued ∧ s'.client = s.client := by
  obtain ⟨hlt, hstate⟩ := idleAmc_eq_some hi
  have ready := h.queued.ready cmd (mem_append_right _ mem_cons_self)
  have hnew : cmd ∉ inFlight := fun hmem =>
    (nodup_append.mp h.queued.nodup).2.2 cmd hmem cmd mem_cons_self rfl
  -- what is in progress is of another command
  have hdisjoint : ∀ x ∈ inFlight, cmd.addresses.Disjoint x.addresses := fun x hx a ha hax => by
    have hbusy := (h.voters.busy a).mpr ⟨x, hx, hax⟩
    rw [hidle a ha] at hbusy
    cases hbusy
  obtain ⟨t', hsend, hvotes, hhas⟩ := sendData_eq .active true
    (fun a => ((s.resources.votes a).localVotes .active).data) ready.nodup ready.has hidle
    fun a ha => DrvVotes.getData_active (h.voters.plain a) (ready.valid a ha)
  generalize hcmds : (cmd.details.map fun d =>
    (d.address, ((s.resources.votes d.address).localVotes .active).data)) = cmds at hsend
  have hne : cmds ≠ [] := fun hnil => ready.ne (map_eq_nil_iff.mp (hcmds.trans hnil))
  have hdata : sendData cmd.set cmd.amc cmd.details s.resources = .ok (cmds, t') := by
    rw [ready.set, ready.amc]
    exact hsend
  refine ⟨_, tcsSend_eq hi ready.length (h.placed.hw_idle hstate) hdata hne, ?_, rfl, rfl, rfl⟩
  refine ⟨?_, ?_, ?_⟩
  · refine h.voters.launch ready.valid hvotes fun b => ?_
    unfold Driver.program
    dsimp only
    rw [ready.amc, if_pos rfl, ← hcmds]
    exact receive_map (fun a => ((s.resources.votes a).localVotes .active).data) ready.nodup
  · have hplaced := h.placed.launch hlt hstate hnew cmds
    unfold Driver.program Driver.setTcs
    dsimp only
    rw [update_self, update_idem, ready.amc, if_pos rfl]
    exact hplaced
  · refine (h.queued.launch hdisjoint).mono fun x hx =>
      hx.mono (fun b hb => (hhas b).mpr hb) fun b hvalid => ?_
    show ((t'.votes b).localVotes .active).valid = true
    rw [hvotes]
    split
    · exact hvalid
    · exact hvalid

/-- The command on an AMC that is done. -/
theorem on_amc (h : s.Active w c inFlight enqueued owed latest) (hirq : (s.hw i).irq = true) :
    i < c.numAmcs ∧ (s.tcs i).state = .amcWaitForDone ∧
      ∃ cmd ∈ inFlight, (s.tcs i).cmds = some cmd := by
  obtain ⟨hi, hwait, -⟩ := h.placed.irq i hirq
  refine ⟨hi, hwait, ?_⟩
  rcases h.placed.amc i hi with ⟨hidle, -⟩ | ⟨-, hcmd⟩
  · rw [hwait] at hidle
    cases hidle
  · exact hcmd

/-- **Finishing a command** on an AMC that is done. -/
theorem finishActiveAmc (h : s.Active w c s.inFlight enqueued [] latest)
    (hirq : (s.hw i).irq = true) :
    ∃ cmd s', s.finishActiveAmc i = .ok (cmd, s') ∧ cmd ∈ s.inFlight ∧ cmd.client.isSome ∧
      s'.Active w c s'.inFlight enqueued [] latest ∧ s'.enqueued = s.enqueued ∧
      s'.client = s.client := by
  obtain ⟨hi, hwait, cmd, hcmd, hon⟩ := h.on_amc hirq
  have ready := h.queued.ready cmd (mem_append_left _ hcmd)
  obtain ⟨queue, hpull, hperm⟩ := pullFromQueue_eq hcmd fun x hx hptr =>
    h.queued.eq_of_ptr hx hcmd hptr
  obtain ⟨t', hfinish, hvotes, hhas⟩ := finishResources_eq ready.nodup ready.has
  have h' := h.perm hperm (List.Perm.refl _)
  have hnew : cmd ∉ queue := (nodup_cons.mp (nodup_append.mp h'.queued.nodup).1).1
  have hdisjoint := (pairwise_cons.mp h'.queued.disjoint).1
  have hrun : s.finishActiveAmc i = .ok (cmd, Driver.setTcs
      { s with
        hw := update s.hw i { s.hw i with irq := false }
        inFlight := queue
        resources := t'
        freeCmds := s.freeCmds ++ [cmd.ptr]
        finished := s.finished ++ [cmd.seq] } i ⟨.amcIdle, none⟩) := by
    unfold Driver.finishActiveAmc Driver.tcsCleanUp
    rw [hwait, hon]
    dsimp only
    rw [finishCmd_eq (s := { s with hw := update s.hw i { s.hw i with irq := false } })
      .active hpull hfinish]
    rfl
  refine ⟨cmd, _, hrun, hcmd, ready.client, ⟨?_, ?_, ?_⟩, rfl, rfl⟩
  · exact h'.voters.finish hdisjoint hvotes
  · exact h'.placed.finish hirq hon hnew
  · refine h'.queued.finish.mono fun x hx =>
      hx.mono (fun b hb => (hhas b).mpr hb) fun b hvalid => ?_
    show ((t'.votes b).localVotes .active).valid = true
    rw [hvotes]
    split
    · rwa [DrvVotes.finish_valid]
    · exact hvalid

/-- A resource that is not idle, or an AMC that is not, is one of a command in flight. -/
theorem inFlight_ne_nil (h : s.Active w c inFlight enqueued owed latest)
    (hblocked : (∃ a, (s.resources.votes a).state ≠ .idle) ∨ s.idleAmc c = none) :
    inFlight ≠ [] := by
  rcases hblocked with ⟨a, hstate⟩ | hnone
  · have hbusy : (s.resources.votes a).state = .inProgress := by
      cases hv : (s.resources.votes a).state with
      | idle => exact absurd hv hstate
      | inProgress => rfl
    obtain ⟨cmd, hcmd, -⟩ := (h.voters.busy a).mp hbusy
    exact ne_nil_of_mem hcmd
  · rcases h.placed.amc 0 c.amcs_pos with ⟨hidle, -⟩ | ⟨-, cmd, hcmd, -⟩
    · exact absurd hidle (idleAmc_eq_none hnone c.amcs_pos)
    · exact ne_nil_of_mem hcmd

/-- `rpmh_cmdq_send_cmd_at_head` sends the command at the head, or leaves it since another one is in
flight. -/
theorem sendCmdAtHead (h : s.Active w c s.inFlight s.enqueued [] latest) :
    (∃ s', s.sendCmdAtHead c = .ok (true, s') ∧ s'.Active w c s'.inFlight s'.enqueued [] latest ∧
      s.enqueued.length = s'.enqueued.length + 1) ∨
    (s.sendCmdAtHead c = .ok (false, s) ∧ (s.enqueued ≠ [] → s.inFlight ≠ [])) := by
  unfold Driver.sendCmdAtHead
  cases henq : s.enqueued with
  | nil => exact .inr ⟨rfl, fun hne => absurd rfl hne⟩
  | cons cmd enqueued =>
    rw [henq] at h
    have ready := h.queued.ready cmd (mem_append_right _ mem_cons_self)
    have hlen : cmd.details.length ≤ 16 := ready.length
    dsimp only
    rw [resourcesIdle_eq ready.has, ok_bind]
    rcases Decidable.em
      (∀ a ∈ cmd.addresses, (s.resources.votes a).state = .idle) with hidle | hbusy
    · rw [decide_eq_true hidle, if_pos rfl, decide_eq_true hlen, verify_true, ok_bind]
      cases hamc : s.idleAmc c with
      | none =>
        have hsend : s.tcsSend c cmd = .ok (false, s) := by
          unfold Driver.tcsSend
          rw [hamc]
        rw [hsend]
        exact .inr ⟨rfl, fun _ => h.inFlight_ne_nil (.inr hamc)⟩
      | some i =>
        obtain ⟨s', hsend, h', hin, -⟩ := h.tcsSend hidle hamc
        rw [hsend]
        refine .inl ⟨_, rfl, ?_, rfl⟩
        have hperm : (cmd :: s.inFlight).Perm (s'.inFlight ++ [cmd]) :=
          hin ▸ (perm_append_singleton _ _).symm
        exact (h'.perm hperm (List.Perm.refl _)).keep _ _ _
    · rw [decide_eq_false hbusy, if_neg Bool.false_ne_true]
      refine .inr ⟨rfl, fun _ => h.inFlight_ne_nil (.inl ?_)⟩
      apply Classical.byContradiction
      intro hall
      exact hbusy fun a _ => Classical.byContradiction fun hne => hall ⟨a, hne⟩

/-- The loop of `rpmh_finish_amc` ends when the head cannot be sent. -/
theorem sendQueued (h : s.Active w c s.inFlight s.enqueued [] latest) {fuel : Nat}
    (hfuel : s.enqueued.length < fuel) :
    ∃ s', Driver.sendQueued c fuel s = .ok s' ∧ s'.Active w c s'.inFlight s'.enqueued [] latest ∧
      (s'.enqueued ≠ [] → s'.inFlight ≠ []) := by
  induction fuel generalizing s with
  | zero => exact absurd hfuel (Nat.not_lt_zero _)
  | succ fuel ih =>
    rw [Driver.sendQueued]
    rcases h.sendCmdAtHead with ⟨s', hsend, h', hlen⟩ | ⟨hsend, hprogress⟩
    · rw [hsend]
      exact ih h' (by omega)
    · rw [hsend]
      exact ⟨s, rfl, h, hprogress⟩

/-- `set_new_req`, of resources that have been voted for: there is one command more to send. -/
theorem setNewReq {k : Nat}
    (h : s.Active w c inFlight enqueued set.addresses latest) (hset : set.set = .active)
    (hne : set.commands ≠ []) (hlen : set.commands.length ≤ imageTcsSize)
    (hnodup : set.addresses.Nodup) (has : s.resources.HasAll set.addresses)
    (hvalid : ∀ a ∈ set.addresses, ((s.resources.votes a).localVotes .active).valid = true) :
    ∃ cmd s', s.setNewReq (some k) set = .ok (cmd,
        decide (∀ a ∈ cmd.addresses, (s'.resources.votes a).state = .idle), s') ∧
      s'.Active w c inFlight (cmd :: enqueued) [] latest ∧ s'.inFlight = s.inFlight ∧
      s'.enqueued = s.enqueued := by
  have haddresses : (s.newReq (some k) set).addresses = set.addresses := addresses_newReq
  have ready : (s.newReq (some k) set).Ready s.resources :=
    { set := hset
      amc := rfl
      client := rfl
      length := Nat.le_trans (Nat.le_of_eq (length_map _)) hlen
      ne := fun hnil => hne (map_eq_nil_iff.mp hnil)
      nodup := haddresses ▸ hnodup
      has := haddresses ▸ has
      valid := haddresses ▸ hvalid }
  obtain ⟨freeCmds, nextCmd, hkeeps⟩ := s.newCmd_keeps
  have hptr := s.newCmd_cases
  rw [hkeeps] at hptr
  refine ⟨s.newReq (some k) set,
    { s with freeCmds := freeCmds, nextCmd := nextCmd, issued := s.issued + 1 }, ?_, ?_, rfl, rfl⟩
  · have hreq : s.setNewReq (some k) set = _ := setNewReq_eq hlen has
    rw [hkeeps, isNone_some, Bool.false_or] at hreq
    rw [haddresses]
    exact hreq
  · exact ⟨h.voters.create haddresses.symm, h.placed, h.queued.create ready hptr⟩

/-- `rpmh_cmdq_send_cmd_set`, of resources that have been voted for. -/
theorem sendCmdSet {k : Nat} (h : s.Active w c s.inFlight s.enqueued set.addresses latest)
    (hset : set.set = .active) (hne : set.commands ≠ [])
    (hlen : set.commands.length ≤ imageTcsSize) (hnodup : set.addresses.Nodup)
    (has : s.resources.HasAll set.addresses)
    (hvalid : ∀ a ∈ set.addresses, ((s.resources.votes a).localVotes .active).valid = true) :
    ∃ r s', s.sendCmdSet c (some k) set = .ok (r, s') ∧
      s'.Active w c s'.inFlight s'.enqueued [] latest ∧ (s'.enqueued ≠ [] → s'.inFlight ≠ []) := by
  obtain ⟨cmd, s₁, hnew, h₁, hin, henq⟩ := h.setNewReq (k := k) hset hne hlen hnodup has hvalid
  unfold Driver.sendCmdSet
  rw [hnew, ok_bind, hset]
  dsimp only
  rw [isSome_some, verify_true, ok_bind]
  have hwait : (s₁.idleAmc c = none ∨ ∃ a, (s₁.resources.votes a).state ≠ .idle) →
      ∃ r s', (Except.ok (cmd.reqId, { s₁ with enqueued := s₁.enqueued ++ [cmd] }) :
          Except Fatal (UInt32 × Driver)) = .ok (r, s') ∧
        s'.Active w c s'.inFlight s'.enqueued [] latest ∧
          (s'.enqueued ≠ [] → s'.inFlight ≠ []) := by
    intro hblocked
    refine ⟨_, _, rfl, ?_, fun _ => hin.symm ▸ h₁.inFlight_ne_nil hblocked.symm⟩
    have hperm : (cmd :: s.enqueued).Perm (s₁.enqueued ++ [cmd]) :=
      henq ▸ (perm_append_singleton _ _).symm
    exact hin.symm ▸ (h₁.perm (List.Perm.refl _) hperm).keep _ _ _
  rcases Decidable.em (∀ a ∈ cmd.addresses, (s₁.resources.votes a).state = .idle) with hidle | hbusy
  · cases hamc : s₁.idleAmc c with
    | none =>
      rw [Driver.isAmcFree, hamc, isSome_none, Bool.and_false, if_neg Bool.false_ne_true]
      exact hwait (.inl hamc)
    | some i =>
      rw [Driver.isAmcFree, hamc, decide_eq_true hidle, isSome_some, Bool.and_true,
        if_pos rfl]
      obtain ⟨s₂, hsend, h₂, hin₂, henq₂, -⟩ :=
        (h₁.keep (s₁.inFlight ++ [cmd]) s₁.enqueued s₁.client).tcsSend hidle hamc
      rw [hsend]
      have hperm : (cmd :: s.inFlight).Perm s₂.inFlight := by
        rw [hin₂, ← hin]
        exact (perm_append_singleton _ _).symm
      refine ⟨_, s₂, rfl, ?_, fun _ => ?_⟩
      · rw [henq₂, henq]
        exact h₂.perm hperm (List.Perm.refl _)
      · rw [hin₂]
        exact concat_ne_nil _ _
  · rw [decide_eq_false hbusy, Bool.false_and, if_neg Bool.false_ne_true]
    refine hwait (.inr ?_)
    apply Classical.byContradiction
    intro hall
    exact hbusy fun a _ => Classical.byContradiction fun hne => hall ⟨a, hne⟩

/-- **Issuing a command set**, up to its wait. -/
theorem issueCommandSet (set : CommandSet) (k : Nat) (stuck : Bool)
    (h : s.Active w c s.inFlight s.enqueued [] latest)
    (hprogress : s.enqueued ≠ [] → s.inFlight ≠ []) (hset : set.set = .active)
    (hlen : set.commands.length ≤ imageTcsSize) (hnodup : set.addresses.Nodup) :
    (∃ r s', s.issueCommandSet c k set stuck = .ok (r, s') ∧
      s'.Active w c s'.inFlight s'.enqueued []
        (receive latest (set.commands.map fun command => (command.address, command.data))) ∧
      (s'.enqueued ≠ [] → s'.inFlight ≠ [])) ∨
    (s.issueCommandSet c k set stuck = .error .tcsStuck ∧ stuck = true) := by
  have hvoters := h.voters.vote (s.client k).explicitCmds.isSome hnodup
  obtain ⟨hvotes, hhas, hdirty⟩ :=
    updateAll_eq (t := s.resources) .active (s.client k).explicitCmds.isSome hnodup
  unfold Driver.issueCommandSet
  rw [decide_eq_true hlen, verify_true, ok_bind, hset]
  dsimp only
  rw [if_pos rfl]
  generalize updateAll .active (s.client k).explicitCmds.isSome set.commands s.resources = r at *
  -- each of the resources has a valid vote now
  have hvalid : ∀ a ∈ set.addresses, ((r.1.votes a).localVotes .active).valid = true := by
    intro a ha
    obtain ⟨command, hmem, rfl⟩ := List.mem_map.mp ha
    rw [(hvotes _).1 command hmem rfl]
    exact DrvVotes.update_valid
  have hqueued : Queued (·.Ready r.1) s.inFlight s.enqueued s.freeCmds s.nextCmd s.issued
      s.finished := by
    refine h.queued.mono fun x hx => hx.mono (fun b hb => (hhas b).mpr (.inr hb)) fun b hb => ?_
    rcases Decidable.em (b ∈ set.addresses) with hmem | hmem
    · exact hvalid b hmem
    · rw [(hvotes b).2 hmem]
      exact hb
  rcases hr : r.2 with _ | _
  · rw [hr, if_neg Bool.false_ne_true] at hvoters
    exact .inl ⟨_, _, rfl, ⟨hvoters, h.placed, hqueued⟩, hprogress⟩
  · rw [hr, if_pos rfl] at hvoters
    rw [Bool.not_true, if_neg Bool.false_ne_true]
    cases stuck with
    | true => exact .inr ⟨rfl, rfl⟩
    | false =>
      have hne : set.commands ≠ [] := by
        intro hnil
        have hclean := hdirty.mpr (by simp [hnil])
        rw [hr] at hclean
        cases hclean
      let s₁ : Driver := { s with
        resources := r.1
        client := update s.client k (s.client k).commandAdd }
      have h₁ : s₁.Active w c s₁.inFlight s₁.enqueued set.addresses _ :=
        ⟨hvoters, h.placed, hqueued⟩
      exact .inl (h₁.sendCmdSet hset hne hlen hnodup (fun a ha => (hhas a).mpr (.inl ha)) hvalid)

/-- **A completion.** -/
theorem finishAmc (h : s.Active w c s.inFlight s.enqueued [] latest)
    (hprogress : s.enqueued ≠ [] → s.inFlight ≠ []) :
    (∃ s', s.finishAmc c = .ok s' ∧ s'.Active w c s'.inFlight s'.enqueued [] latest ∧
      (s'.enqueued ≠ [] → s'.inFlight ≠ [])) ∨
    (s.finishAmc c = .error .reqId ∧ ∃ cmd ∈ s.inFlight, cmd.reqId = 0) := by
  unfold Driver.finishAmc
  cases hi : s.finishedTcs c with
  | none => exact .inl ⟨s, rfl, h, hprogress⟩
  | some i =>
    have hirq := finishedTcs_eq_some hi
    obtain ⟨cmd, s', hfinish, hcmd, hclient, h', henq, -⟩ := h.finishActiveAmc hirq
    dsimp only
    rw [if_pos (h.on_amc hirq).1, hfinish, ok_bind]
    dsimp only
    rcases Decidable.em (cmd.reqId = 0) with hzero | hne
    · refine .inr ⟨?_, cmd, hcmd, hzero⟩
      rw [hzero]
      rfl
    · rw [bne_iff_ne.mpr hne, verify_true, ok_bind]
      obtain ⟨k, hk⟩ := isSome_iff_exists.mp hclient
      rw [hk]
      dsimp only
      rw [← henq] at h'
      have hkept := h'.keep s'.inFlight s'.enqueued
        (update s'.client k ((s'.client k).commandFinish cmd.reqId))
      exact .inl (hkept.sendQueued (Nat.lt_succ_self _))

end Driver.Active

/-! ## Runs -/

/-- What happens. -/
inductive Event
  | issue (client : Nat) (commands : List Command) (stuck : Bool)
  | complete (i : Nat)
  | finishAmc

/-- One step: a client issues a set of active commands, the hardware has executed an AMC, or a
completion is taken. -/
def Driver.step (c : DrvConfig) (s : Driver) : Event → Except Fatal Driver
  | .issue k commands stuck => (s.issueCommandSet c k ⟨.active, commands⟩ stuck).map (·.2)
  | .complete i =>
    if (s.hw i).busy then
      .ok { s with hw := update s.hw i { s.hw i with busy := false, irq := true } }
    else .ok s
  | .finishAmc => s.finishAmc c

/-- What the clients promise. -/
def Event.Promised : Event → Prop
  | .issue _ commands _ => commands.length ≤ imageTcsSize ∧ (commands.map (·.address)).Nodup
  | _ => True

/-- The steps of a run. -/
def Step (c : DrvConfig) (s : Driver) (e : Event) (s' : Driver) : Prop :=
  e.Promised ∧ s.step c e = .ok s'

/-- A driver after `rpmh_client_init`, with clients some of which are explicit. -/
def Driver.initial (c : DrvConfig) (explicitCmds : Nat → Option (List CommandSet)) : Driver where
  resources := .empty
  tcs i := ⟨if i < c.numAmcs then .amcIdle else .nonAmc, none⟩
  inFlight := []
  enqueued := []
  sleepAmcs := []
  wakeAmcs := []
  freeCmds := []
  nextCmd := 0
  client k := .new (explicitCmds k)
  hw _ := ⟨false, false, []⟩
  sent _ := none
  issued := 0
  finished := []

theorem Driver.Active.initial {w : Watch} (c : DrvConfig)
    (explicitCmds : Nat → Option (List CommandSet)) (heach : ∀ {a}, w.each a .new) :
    (Driver.initial c explicitCmds).Active w c [] [] [] fun _ => none := by
  have hvotes : ∀ a, (Driver.initial c explicitCmds).resources.votes a = .new := fun a =>
    Resources.votes_empty
  refine ⟨⟨fun a => ?_, fun a => ?_, fun a hwatch => ?_, fun a hwatch => ?_, fun a => ?_,
    fun a => ?_⟩, ⟨fun i hi => ?_, nofun, ?_, nofun, nofun, fun i hi => ?_⟩,
    ⟨nofun, .nil, .nil, nofun, .nil⟩⟩
  · rw [hvotes]
    exact .inl rfl
  · rw [hvotes]
    exact ⟨nofun, fun ⟨cmd, hcmd, _⟩ => absurd hcmd not_mem_nil⟩
  · rw [hvotes]
    exact .inl nofun
  · rw [Resources.atRpmh, hvotes]
    rfl
  · rw [hvotes]
    exact heach
  · rw [hvotes]
    rfl
  · exact .inl ⟨if_pos hi, rfl⟩
  · intro i _ j _ cmd hcmd
    cases hcmd
  · show (if i < c.numAmcs then TcsState.amcIdle else .nonAmc) ≠ _
    rw [if_neg (Nat.not_lt.mpr hi)]
    intro h
    cases h

/-- The latest active vote for each resource, of the sets that have been issued. -/
def latestVotes : List Event → UInt32 → Option UInt32
  | [] => fun _ => none
  | .issue _ commands _ :: es =>
    receive (latestVotes es) (commands.map fun command => (command.address, command.data))
  | _ :: es => latestVotes es

/-- Every resource is watched. RPMh is sent nothing that nobody has voted for. -/
def watchAll : Watch where
  settles _ := True
  sends _ := True
  each _ v := v.voteAtRpmh.valid = true → (v.localVotes .active).valid = true
  sent := fun _ hvalid _ => hvalid
  finish := fun heach hat => DrvVotes.finish_valid.trans (heach hat)
  vote := fun _ _ => DrvVotes.update_valid

/-- The invariant of a run. -/
def Driver.Kept (c : DrvConfig) (hist : List Event) (s : Driver) : Prop :=
  s.Active watchAll c s.inFlight s.enqueued [] (latestVotes hist) ∧
    (s.enqueued ≠ [] → s.inFlight ≠ [])

namespace Driver.Kept
variable {c : DrvConfig} {hist : List Event} {s : Driver} {e : Event}

theorem initial (c : DrvConfig) (explicitCmds : Nat → Option (List CommandSet)) :
    (Driver.initial c explicitCmds).Kept c [] :=
  ⟨.initial c explicitCmds nofun, fun hne => absurd rfl hne⟩

/-- **One step.** It keeps the invariant; only a TCS that is stuck and an id that has wrapped are
fatal. -/
theorem step (h : s.Kept c hist) (promised : e.Promised) :
    (∃ s', s.step c e = .ok s' ∧ s'.Kept c (e :: hist)) ∨
    (s.step c e = .error .tcsStuck ∧ ∃ k commands, e = .issue k commands true) ∨
    (s.step c e = .error .reqId ∧ ∃ cmd ∈ s.inFlight, cmd.reqId = 0) := by
  cases e with
  | issue k commands stuck =>
    rcases h.1.issueCommandSet ⟨.active, commands⟩ k stuck h.2 rfl promised.1 promised.2 with
        ⟨r, s', hissue, h', hprogress⟩ | ⟨hissue, rfl⟩
    · exact .inl ⟨s', by rw [Driver.step, hissue]; rfl, h', hprogress⟩
    · exact .inr (.inl ⟨by rw [Driver.step, hissue]; rfl, k, commands, rfl⟩)
  | complete i =>
    refine .inl ?_
    rw [Driver.step]
    split
    · next hbusy => exact ⟨_, rfl, ⟨h.1.voters, h.1.placed.complete hbusy, h.1.queued⟩, h.2⟩
    · exact ⟨s, rfl, h.1, h.2⟩
  | finishAmc =>
    rcases h.1.finishAmc h.2 with ⟨s', hfinish, h', hprogress⟩ | hfatal
    · exact .inl ⟨s', hfinish, h', hprogress⟩
    · exact .inr (.inr hfatal)

/-- Between steps nothing is owed: what RPMh does not have is enqueued. -/
theorem enqueued_of_differs (h : s.Kept c hist) {a data : UInt32}
    (hlatest : latestVotes hist a = some data)
    (hdiffers : ¬ ((s.resources.votes a).voteAtRpmh.valid = true ∧
      (s.resources.votes a).voteAtRpmh.data = data)) :
    ∃ cmd ∈ s.enqueued, a ∈ cmd.addresses := by
  rw [h.1.voters.latest] at hlatest
  split at hlatest
  · next hvalid =>
    rcases h.1.voters.settled a trivial with hsettled | howed | henq
    · exact absurd (Option.some.inj hlatest ▸ hsettled hvalid) hdiffers
    · cases howed
    · exact henq
  · cases hlatest

/-- With nothing enqueued, RPMh was last sent the latest votes. -/
theorem sent_eq (h : s.Kept c hist) (henq : s.enqueued = []) (a : UInt32) :
    s.sent a = latestVotes hist a := by
  have hsettled : (s.resources.votes a).Settled := by
    rcases h.1.voters.settled a trivial with hsettled | howed | ⟨cmd, hcmd, -⟩
    · exact hsettled
    · cases howed
    · rw [henq] at hcmd
      cases hcmd
  rw [h.1.voters.sent a trivial, Resources.atRpmh, h.1.voters.latest]
  rcases hvalid : ((s.resources.votes a).localVotes .active).valid with _ | _
  · rcases hat : (s.resources.votes a).voteAtRpmh.valid with _ | _
    · rfl
    · exact absurd (hvalid.symm.trans (h.1.voters.each a hat)) (by decide)
  · obtain ⟨hat, hdata⟩ := hsettled hvalid
    rw [hat, hdata]

/-- An AMC waits for the one command in flight that is on it. -/
theorem wait_iff (h : s.Kept c hist) (i : Nat) :
    (s.tcs i).state = .amcWaitForDone ↔
      i < c.numAmcs ∧ ∃! cmd, cmd ∈ s.inFlight ∧ (s.tcs i).cmds = some cmd := by
  constructor
  · intro hwait
    have hi : i < c.numAmcs := Nat.lt_of_not_le fun hle => h.1.placed.others i hle hwait
    rcases h.1.placed.amc i hi with ⟨hidle, -⟩ | ⟨-, cmd, hcmd, hon⟩
    · rw [hwait] at hidle
      cases hidle
    · exact ⟨hi, cmd, ⟨hcmd, hon⟩, fun x hx => Option.some.inj (hx.2.symm.trans hon)⟩
  · rintro ⟨hi, cmd, ⟨-, hon⟩, -⟩
    rcases h.1.placed.amc i hi with ⟨-, hnone⟩ | ⟨hwait, -⟩
    · rw [hnone] at hon
      cases hon
    · exact hwait

end Driver.Kept

/-- **No active request is lost, and none overlaps another one.** In every run: a TCS waits for
completion when it is an AMC with exactly one command in flight on it, and each command in flight
is on exactly one; no resource is in two commands in flight; every command that has been issued is
in flight, enqueued or finished, and in one of these once; a resource of which RPMh does not have
the latest active vote is in an enqueued command; with nothing enqueued RPMh was last sent the
latest vote of every resource; while commands are enqueued, some are in flight. Every step can be
made, unless a TCS is stuck or the id of a request has wrapped to 0: no check of a voter is fatal.
-/
theorem active_requests_kept {c : DrvConfig} {explicitCmds : Nat → Option (List CommandSet)}
    {hist : List Event} {s : Driver} (run : Run (Step c) (.initial c explicitCmds) hist s) :
    (∀ i, (s.tcs i).state = .amcWaitForDone ↔
      i < c.numAmcs ∧ ∃! cmd, cmd ∈ s.inFlight ∧ (s.tcs i).cmds = some cmd) ∧
    (∀ cmd ∈ s.inFlight, ∃! i, i < c.numAmcs ∧ (s.tcs i).cmds = some cmd) ∧
    (s.inFlight.Pairwise fun x y => x.addresses.Disjoint y.addresses) ∧
    ((s.inFlight ++ s.enqueued).map (·.seq) ++ s.finished).Perm (List.range s.issued) ∧
    (∀ a data, latestVotes hist a = some data →
      ¬ ((s.resources.votes a).voteAtRpmh.valid = true ∧
        (s.resources.votes a).voteAtRpmh.data = data) →
      ∃ cmd ∈ s.enqueued, a ∈ cmd.addresses) ∧
    (s.enqueued = [] → ∀ a, s.sent a = latestVotes hist a) ∧
    (s.enqueued ≠ [] → s.inFlight ≠ []) ∧
    ∀ e : Event, e.Promised →
      (∃ s', Step c s e s') ∨
      (s.step c e = .error .tcsStuck ∧ ∃ k commands, e = .issue k commands true) ∨
      (s.step c e = .error .reqId ∧ ∃ cmd ∈ s.inFlight, cmd.reqId = 0) := by
  have kept : s.Kept c hist := by
    refine run.invariant (P := fun hist s => s.Kept c hist) (.initial c explicitCmds) ?_
    rintro hist s e s' - h ⟨promised, hstep⟩
    rcases h.step promised with ⟨s'', hmade, h'⟩ | ⟨hfatal, -⟩ | ⟨hfatal, -⟩
    · cases hmade.symm.trans hstep
      exact h'
    · cases hfatal.symm.trans hstep
    · cases hfatal.symm.trans hstep
  refine ⟨kept.wait_iff, fun cmd hcmd => ?_, kept.1.queued.disjoint,
    kept.1.queued.seqs, fun a data => kept.enqueued_of_differs, kept.sent_eq, kept.2,
    fun e promised => ?_⟩
  · obtain ⟨i, hi, hon⟩ := kept.1.placed.placed cmd hcmd
    exact ⟨i, ⟨hi, hon⟩, fun j ⟨hj, hjon⟩ => kept.1.placed.once j hj i hi cmd hjon hon⟩
  · exact (kept.step promised).imp (fun ⟨s', hstep, _⟩ => ⟨s', promised, hstep⟩) id

/-- Two AMCs. -/
def twoAmcs : DrvConfig where
  numAmcs := 2
  sleepStart := 2
  wakeStart := 5
  numTcs := 8
  priority _ := .useCase
  amcs_pos := by decide
  amcs_le := by decide
  sleep_le := by decide
  wake_le := by decide

instance (e : Event) : Decidable e.Promised :=
  match e with
  | .issue .. => inferInstanceAs (Decidable (_ ∧ _))
  | .complete _ | .finishAmc => inferInstanceAs (Decidable True)

/-- A step for which the promises are checked. -/
def Driver.play (c : DrvConfig) (s : Driver) (e : Event) : Option Driver :=
  if e.Promised then (s.step c e).toOption else none

theorem step_of_play {c : DrvConfig} {s s' : Driver} {e : Event} (h : s.play c e = some s') :
    Step c s e s' := by
  unfold Driver.play at h
  split at h
  · next promised =>
    refine ⟨promised, ?_⟩
    cases hstep : s.step c e with
    | error f =>
      rw [hstep] at h
      cases h
    | ok t =>
      rw [hstep] at h
      cases h
      rfl
  · cases h

/-- A set has to wait for one of its resources, another one overtakes it, and a third one is
redundant. They complete in another order than they were sent. -/
def overtaking : List Event :=
  [.issue 0 [⟨1, 10, true⟩, ⟨2, 20, true⟩] false, .issue 1 [⟨2, 21, true⟩, ⟨3, 30, true⟩] false,
    .issue 0 [⟨3, 31, true⟩] false, .issue 1 [⟨1, 10, true⟩] false, .complete 1, .finishAmc,
    .complete 0, .finishAmc, .complete 0, .finishAmc]

/-- Nothing is left in the queues, and RPMh has what was voted for last. -/
theorem active_requests_kept_overtaking :
    ∃ (hist : List Event) (s : Driver),
      Run (Step twoAmcs) (.initial twoAmcs fun _ => none) hist s ∧ s.enqueued = [] ∧
        s.issued = 3 ∧ s.sent 3 = some 31 ∧ ∀ a, s.sent a = latestVotes hist a := by
  have hexec : (execute (Driver.play twoAmcs) (.initial twoAmcs fun _ => none) overtaking).map
      (fun s => (s.enqueued, s.issued, s.sent 3)) = some ([], 3, some 31) := by
    decide +kernel
  obtain ⟨s, hs, heq⟩ := map_eq_some_iff.mp hexec
  have run : Run (Step twoAmcs) (.initial twoAmcs fun _ => none) _ s :=
    Run.of_execute step_of_play .start hs
  simp only [Prod.mk.injEq] at heq
  exact ⟨_, s, run, heq.1, heq.2.1, heq.2.2, (active_requests_kept run).2.2.2.2.2.1 heq.1⟩

end Rpmh
