import BootXf.Rpmh.Driver

/-!
# What the functions of the driver do

Each is said for commands that name a resource once, by what it leaves of each voter: a function
that goes through the resources of a command changes those, and no other one.
-/

namespace Rpmh

open Lib List

variable {t : Resources} {address b : UInt32} {ds : List CmdDetails}
  {sent : UInt32 → Option UInt32} {cmds : List (UInt32 × UInt32)} {data : UInt32}

/-- A command of which every resource is in the table. -/
def Resources.HasAll (t : Resources) (addresses : List UInt32) : Prop := ∀ a ∈ addresses, t.Has a

/-- `rpmh_resource_command_val_at_rpmh`, of an idle voter that has the data. -/
theorem Resources.valAtRpmh_eq {set : RpmhSet} (amc : Bool) (h : t.Has address)
    (hstate : (t.votes address).state = .idle) (hdata : (t.votes address).getData set = .ok data) :
    t.valAtRpmh address set amc =
      .ok (data, t.put address ((t.votes address).sent data amc)) := by
  unfold Resources.valAtRpmh
  rw [h.voter, ok_bind, DrvVotes.valAtRpmh_eq hstate hdata]
  rfl

/-- `rpmh_resource_command_finish`. -/
theorem Resources.finish_eq (h : t.Has address) :
    t.finish address = .ok (t.put address ((t.votes address).finish address)) := by
  unfold Resources.finish
  rw [h.voter]
  rfl

/-- **The data of a command.** Every voter of it has been sent what `value` says. -/
theorem sendData_eq (set : RpmhSet) (amc : Bool) (value : UInt32 → UInt32)
    (hnodup : (ds.map (·.address)).Nodup) (has : t.HasAll (ds.map (·.address)))
    (hidle : ∀ a ∈ ds.map (·.address), (t.votes a).state = .idle)
    (hdata : ∀ a ∈ ds.map (·.address), (t.votes a).getData set = .ok (value a)) :
    ∃ t', sendData set amc ds t = .ok (ds.map fun d => (d.address, value d.address), t') ∧
      (∀ b, t'.votes b =
        if b ∈ ds.map (·.address) then (t.votes b).sent (value b) amc else t.votes b) ∧
      ∀ b, t'.Has b ↔ t.Has b := by
  induction ds generalizing t with
  | nil => exact ⟨t, rfl, fun b => rfl, fun b => Iff.rfl⟩
  | cons d ds ih =>
    rw [map_cons] at hnodup has hidle hdata
    obtain ⟨hnot, hnodup⟩ := nodup_cons.mp hnodup
    have hhas := has _ mem_cons_self
    have hval := Resources.valAtRpmh_eq amc hhas (hidle _ mem_cons_self)
      (hdata _ mem_cons_self)
    -- the voters of the others are what they were
    have hothers : ∀ a ∈ ds.map (·.address),
        (t.put d.address ((t.votes d.address).sent (value d.address) amc)).votes a =
          t.votes a := by
      intro a ha
      rw [Resources.votes_put hhas, if_neg]
      rintro rfl
      exact hnot ha
    obtain ⟨t', hsend, hvotes, hhas'⟩ := ih hnodup
      (fun a ha => (Resources.has_put hhas).mpr (has a (mem_cons_of_mem _ ha)))
      (fun a ha => hothers a ha ▸ hidle a (mem_cons_of_mem _ ha))
      (fun a ha => hothers a ha ▸ hdata a (mem_cons_of_mem _ ha))
    refine ⟨t', ?_, fun b => ?_, fun b => (hhas' b).trans (Resources.has_put hhas)⟩
    · rw [sendData, hval, ok_bind]
      dsimp only
      rw [hsend]
      rfl
    · rw [hvotes, map_cons]
      split
      · next hb => rw [hothers b hb, if_pos (mem_cons_of_mem _ hb)]
      · next hb =>
        rw [Resources.votes_put hhas]
        split
        · next heq => rw [heq, if_pos mem_cons_self]
        · next hne =>
          rw [if_neg fun hmem => (mem_cons.mp hmem).elim hne hb]

/-- A resource that no command is for. -/
theorem receive_of_not_mem (h : b ∉ cmds.map (·.1)) : receive sent cmds b = sent b := by
  induction cmds generalizing sent with
  | nil => rfl
  | cons cmd cmds ih =>
    rw [map_cons, mem_cons, not_or] at h
    rw [receive, ih h.2, Function.update_of_ne h.1]

/-- A resource that there is one command for. -/
theorem receive_of_mem (hnodup : (cmds.map (·.1)).Nodup) (h : (b, data) ∈ cmds) :
    receive sent cmds b = some data := by
  induction cmds generalizing sent with
  | nil => cases h
  | cons cmd cmds ih =>
    obtain ⟨hnot, hnodup⟩ := nodup_cons.mp hnodup
    rw [receive]
    rcases mem_cons.mp h with rfl | h
    · rw [receive_of_not_mem hnot, Function.update_self]
    · exact ih hnodup h

/-- What RPMh has after a command. -/
theorem receive_map (value : UInt32 → UInt32) (hnodup : (ds.map (·.address)).Nodup) :
    receive sent (ds.map fun d => (d.address, value d.address)) b =
      if b ∈ ds.map (·.address) then some (value b) else sent b := by
  have hmap : (ds.map fun d => (d.address, value d.address)).map (·.1) = ds.map (·.address) := by
    rw [map_map]
    rfl
  split
  · next hb =>
    obtain ⟨d, hd, rfl⟩ := mem_map.mp hb
    exact receive_of_mem (hmap ▸ hnodup) (mem_map.mpr ⟨d, hd, rfl⟩)
  · next hb => exact receive_of_not_mem (hmap ▸ hb)

/-- Looking whether all voters are idle. -/
theorem resourcesIdle_eq {addresses : List UInt32} (has : t.HasAll addresses) :
    resourcesIdle t addresses = .ok (decide (∀ a ∈ addresses, (t.votes a).state = .idle)) := by
  induction addresses with
  | nil => simp [resourcesIdle]
  | cons a as ih =>
    rw [resourcesIdle, (has a mem_cons_self).voter,
      ih fun b hb => has b (mem_cons_of_mem _ hb)]
    refine congrArg Except.ok (Bool.eq_iff_iff.mpr ?_)
    simp

/-- The voters of a command that has finished. -/
theorem finishResources_eq (hnodup : (ds.map (·.address)).Nodup)
    (has : t.HasAll (ds.map (·.address))) :
    ∃ t', finishResources ds t = .ok t' ∧
      (∀ b, t'.votes b =
        if b ∈ ds.map (·.address) then (t.votes b).finish b else t.votes b) ∧
      ∀ b, t'.Has b ↔ t.Has b := by
  induction ds generalizing t with
  | nil => exact ⟨t, rfl, fun b => rfl, fun b => Iff.rfl⟩
  | cons d ds ih =>
    rw [map_cons] at hnodup has
    obtain ⟨hnot, hnodup⟩ := nodup_cons.mp hnodup
    have hhas := has _ mem_cons_self
    obtain ⟨t', hfinish, hvotes, hhas'⟩ := ih hnodup fun a ha =>
      (Resources.has_put (v := (t.votes d.address).finish d.address) hhas).mpr
        (has a (mem_cons_of_mem _ ha))
    refine ⟨t', ?_, fun b => ?_, fun b => (hhas' b).trans (Resources.has_put hhas)⟩
    · rw [finishResources, Resources.finish_eq hhas]
      exact hfinish
    · rw [hvotes, Resources.votes_put hhas]
      rcases Decidable.em (b = d.address) with rfl | hne
      · rw [if_neg hnot, if_pos rfl, map_cons, if_pos mem_cons_self]
      · simp [hne]

/-- `pull_from_queue`, of a command that is the only one at its address. -/
theorem pullFromQueue_eq {queue : List Cmd} {cmd : Cmd} (hmem : cmd ∈ queue)
    (honly : ∀ x ∈ queue, x.ptr = cmd.ptr → x = cmd) :
    ∃ queue', pullFromQueue queue cmd.ptr = .ok (cmd, queue') ∧ queue.Perm (cmd :: queue') := by
  obtain ⟨x, as, bs, has, hx, hsplit, herase⟩ :=
    exists_of_eraseP (p := fun x => x.ptr == cmd.ptr) hmem (beq_self_eq_true _)
  obtain rfl := honly x (hsplit ▸ mem_append_right _ mem_cons_self) (beq_iff_eq.mp hx)
  have hfind : queue.find? (fun y => y.ptr == x.ptr) = some x :=
    find?_eq_some_iff_append.mpr ⟨hx, as, bs, hsplit, fun y hy => by
      rw [Bool.not_eq_true', Bool.eq_false_iff]
      exact has y hy⟩
  refine ⟨as ++ bs, ?_, hsplit ▸ perm_middle⟩
  unfold pullFromQueue
  rw [hfind, herase]

/-- **The votes of a command set.** -/
theorem updateAll_eq (set : RpmhSet) (explicitCmd : Bool) {commands : List Command}
    (hnodup : (commands.map (·.address)).Nodup) :
    (∀ b, (∀ command ∈ commands, command.address = b →
        (updateAll set explicitCmd commands t).1.votes b =
          (t.votes b).update b set command.data explicitCmd) ∧
      (b ∉ commands.map (·.address) →
        (updateAll set explicitCmd commands t).1.votes b = t.votes b)) ∧
    (∀ b, (updateAll set explicitCmd commands t).1.Has b ↔
      b ∈ commands.map (·.address) ∨ t.Has b) ∧
    ((updateAll set explicitCmd commands t).2 = false ↔ ∀ b ∈ commands.map (·.address),
      (((updateAll set explicitCmd commands t).1.votes b).localVotes set).dirty.isDirty =
        false) := by
  induction commands generalizing t with
  | nil => exact ⟨fun b => ⟨nofun, fun _ => rfl⟩, fun b => by simp [updateAll], by simp [updateAll]⟩
  | cons command commands ih =>
    rw [map_cons] at hnodup
    obtain ⟨hnot, hnodup⟩ := nodup_cons.mp hnodup
    obtain ⟨hvotes, hhas, hdirty⟩ :=
      ih (t := (t.update set explicitCmd command.address command.data).1) hnodup
    rw [updateAll]
    dsimp only
    have hself : (updateAll set explicitCmd commands
        (t.update set explicitCmd command.address command.data).1).1.votes command.address =
          (t.votes command.address).update command.address set command.data explicitCmd := by
      rw [(hvotes _).2 hnot, Resources.votes_update, if_pos rfl]
    refine ⟨fun b => ⟨fun cmd hcmd hb => ?_, fun hb => ?_⟩, fun b => ?_, ?_⟩
    · rcases mem_cons.mp hcmd with rfl | hcmd
      · subst hb
        exact hself
      · rw [(hvotes b).1 cmd hcmd hb, Resources.votes_update, if_neg]
        rintro rfl
        exact hnot (hb ▸ mem_map_of_mem hcmd)
    · rw [map_cons, mem_cons, not_or] at hb
      rw [(hvotes b).2 hb.2, Resources.votes_update, if_neg hb.1]
    · rw [hhas, Resources.has_update, map_cons, mem_cons, or_left_comm, or_assoc]
    · rw [Bool.or_eq_false_iff, hdirty, Resources.update_snd, map_cons, forall_mem_cons,
        hself]

/-! ## AMCs -/

namespace Driver
variable {s : Driver} {c : DrvConfig} {i : Nat} {cmds : List (UInt32 × UInt32)}
  {client : Option Nat} {set : CommandSet} {cmd : Cmd}

theorem idleAmc_eq_some (h : s.idleAmc c = some i) :
    i < c.numAmcs ∧ (s.tcs i).state = .amcIdle := by
  have hmem := mem_of_find?_eq_some h
  have hstate := find?_some h
  exact ⟨mem_range.mp hmem, beq_iff_eq.mp hstate⟩

theorem idleAmc_eq_none (h : s.idleAmc c = none) (hi : i < c.numAmcs) :
    (s.tcs i).state ≠ .amcIdle := by
  have hnot := find?_eq_none.mp h i (mem_range.mpr hi)
  exact fun hstate => hnot (beq_iff_eq.mpr hstate)

theorem finishedTcs_eq_some (h : s.finishedTcs c = some i) : (s.hw i).irq = true := by
  have hirq := find?_some h
  exact hirq

theorem addresses_newReq :
    (s.newReq client set).addresses = set.addresses := by
  unfold Cmd.addresses newReq CommandSet.details
  rw [map_map]
  rfl

/-- A new command is a free one, or one that has been allocated. -/
theorem newCmd_cases :
    s.freeCmds = s.newCmd.1 :: s.newCmd.2.freeCmds ∧ s.newCmd.2.nextCmd = s.nextCmd ∨
      s.freeCmds = [] ∧ s.newCmd.2.freeCmds = [] ∧ s.newCmd.1 = s.nextCmd ∧
        s.newCmd.2.nextCmd = s.nextCmd + 1 := by
  unfold newCmd
  split
  · next heq => exact .inl ⟨heq, rfl⟩
  · next heq => exact .inr ⟨heq, heq, rfl, rfl⟩

/-- The other fields. -/
theorem newCmd_keeps :
    ∃ freeCmds nextCmd, s.newCmd.2 = { s with freeCmds := freeCmds, nextCmd := nextCmd } := by
  unfold newCmd
  split
  · exact ⟨_, _, rfl⟩
  · exact ⟨_, _, rfl⟩

/-- `set_new_req`, of resources that are in the table. -/
theorem setNewReq_eq (hlen : set.commands.length ≤ 16) (has : s.resources.HasAll set.addresses) :
    s.setNewReq client set = .ok (s.newReq client set,
      client.isNone || decide (∀ a ∈ set.addresses, (s.resources.votes a).state = .idle),
      { s.newCmd.2 with issued := s.issued + 1 }) := by
  unfold setNewReq
  rw [decide_eq_true hlen, verify_true, ok_bind, resourcesIdle_eq has]
  rfl

/-- `cmdq_finish_cmd`, of a command that is in its queue. -/
theorem finishCmd_eq (set : RpmhSet) {queue : List Cmd} {t : Resources}
    (hpull : pullFromQueue (s.queue set) cmd.ptr = .ok (cmd, queue))
    (hfinish : finishResources cmd.details s.resources = .ok t) :
    s.finishCmd cmd set = .ok { s.setQueue set queue with
      resources := t
      freeCmds := s.freeCmds ++ [cmd.ptr]
      finished := s.finished ++ [cmd.seq] } := by
  unfold finishCmd
  rw [hpull, ok_bind]
  dsimp only
  rw [hfinish]
  rfl

/-- `tcs_send_internal`, of commands that it can send. -/
theorem tcsSendInternal_eq {t : Resources}
    (hlen : cmd.details.length ≤ imageTcsSize) (hbusy : (s.hw i).busy = false)
    (hdata : sendData cmd.set cmd.amc cmd.details s.resources = .ok (cmds, t))
    (hne : cmds ≠ []) : s.tcsSendInternal cmd i = .ok (s.program cmd i cmds t) := by
  unfold tcsSendInternal
  rw [decide_eq_true hlen, hbusy, hdata]
  cases cmds with
  | nil => exact absurd rfl hne
  | cons => rfl

/-- `tcs_send`, when an AMC is idle. -/
theorem tcsSend_eq {t : Resources}
    (hi : s.idleAmc c = some i) (hlen : cmd.details.length ≤ imageTcsSize)
    (hbusy : (s.hw i).busy = false)
    (hdata : sendData cmd.set cmd.amc cmd.details s.resources = .ok (cmds, t)) (hne : cmds ≠ []) :
    s.tcsSend c cmd =
      .ok (true, (s.setTcs i { s.tcs i with state := .amcWaitForDone }).program cmd i cmds t) := by
  unfold tcsSend
  rw [hi]
  dsimp only
  rw [tcsSendInternal_eq (s := s.setTcs i _) hlen hbusy hdata hne]
  rfl

end Driver

end Rpmh
