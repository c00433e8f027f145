import BootXf.Rpmh.Sending
import Mathlib.Data.List.Perm.Basic
import Mathlib.Data.List.Pairwise

/-!
# The invariant of active requests

It is said of the parts of the driver and of a list of commands in flight and one of enqueued
commands, of either of which the order is of no account: the voters (`Voters`), the TCSs (`Placed`)
and the commands themselves (`Queued`). `owed` are resources of a command set that has been voted
for and not been issued yet.

A command is created (`create`), sent (`launch`) and finished (`finish`); each lemma says what this
does to the three parts. What else is to be kept of each voter, and of which resources, is a
parameter (`Watch`).
-/

namespace Rpmh

open Lib List Function

/-- A command that may be sent when its resources are idle. -/
structure Cmd.Ready (cmd : Cmd) (t : Resources) : Prop where
  set : cmd.set = .active
  amc : cmd.amc = true
  client : cmd.client.isSome
  length : cmd.details.length ≤ imageTcsSize
  ne : cmd.details ≠ []
  nodup : cmd.addresses.Nodup
  has : t.HasAll cmd.addresses
  valid : ∀ a ∈ cmd.addresses, ((t.votes a).localVotes .active).valid = true

/-- What is watched: the resources that RPMh is to have the active vote of, those of which the
driver knows what RPMh has, and a property of each voter that sending, finishing and voting keep.
-/
structure Watch where
  settles : UInt32 → Prop
  sends : UInt32 → Prop
  each : UInt32 → DrvVotes → Prop
  sent : ∀ {a : UInt32} {v : DrvVotes}, each a v → (v.localVotes .active).valid = true →
    each a (v.sent (v.localVotes .active).data true)
  finish : ∀ {a : UInt32} {v : DrvVotes}, each a v → each a (v.finish a)
  vote : ∀ {a data : UInt32} {v : DrvVotes} {explicitCmd : Bool}, each a v →
    each a (v.update a .active data explicitCmd)

/-- The voters: which of them are in progress, which RPMh has the active vote of, the value that
RPMh was sent and the latest active vote. -/
structure Voters (w : Watch) (t : Resources) (sent latest : UInt32 → Option UInt32)
    (inFlight enqueued : List Cmd) (owed : List UInt32) : Prop where
  plain : ∀ a, (t.votes a).Plain
  busy : ∀ a, (t.votes a).state = .inProgress ↔ ∃ cmd ∈ inFlight, a ∈ cmd.addresses
  settled : ∀ a, w.settles a →
    (t.votes a).Settled ∨ a ∈ owed ∨ ∃ cmd ∈ enqueued, a ∈ cmd.addresses
  sent : ∀ a, w.sends a → sent a = t.atRpmh a
  each : ∀ a, w.each a (t.votes a)
  latest : ∀ a, latest a =
    if ((t.votes a).localVotes .active).valid then some ((t.votes a).localVotes .active).data
    else none

/-- The AMCs: each is idle or has a command in flight, and each command in flight is on one of
them. -/
structure Placed (tcs : Nat → Tcs) (hw : Nat → HwTcs) (c : DrvConfig) (inFlight : List Cmd) :
    Prop where
  amc : ∀ i < c.numAmcs,
    ((tcs i).state = .amcIdle ∧ (tcs i).cmds = none) ∨
      ((tcs i).state = .amcWaitForDone ∧ ∃ cmd ∈ inFlight, (tcs i).cmds = some cmd)
  placed : ∀ cmd ∈ inFlight, ∃ i < c.numAmcs, (tcs i).cmds = some cmd
  once : ∀ i < c.numAmcs, ∀ j < c.numAmcs, ∀ cmd,
    (tcs i).cmds = some cmd → (tcs j).cmds = some cmd → i = j
  busy : ∀ i, (hw i).busy = true → i < c.numAmcs ∧ (tcs i).state = .amcWaitForDone
  irq : ∀ i, (hw i).irq = true →
    i < c.numAmcs ∧ (tcs i).state = .amcWaitForDone ∧ (hw i).busy = false
  others : ∀ i, c.numAmcs ≤ i → (tcs i).state ≠ .amcWaitForDone

/-- The commands: each can be sent, no two in flight share a resource, and each that has been
issued is in one place. -/
structure Queued (ready : Cmd → Prop) (inFlight enqueued : List Cmd) (freeCmds : List Nat)
    (nextCmd issued : Nat) (finished : List Nat) : Prop where
  ready : ∀ cmd ∈ inFlight ++ enqueued, ready cmd
  disjoint : inFlight.Pairwise fun x y => x.addresses.Disjoint y.addresses
  ptrs : ((inFlight ++ enqueued).map (·.ptr) ++ freeCmds).Nodup
  ptrs_lt : ∀ p ∈ (inFlight ++ enqueued).map (·.ptr) ++ freeCmds, p < nextCmd
  seqs : ((inFlight ++ enqueued).map (·.seq) ++ finished).Perm (List.range issued)

variable {w : Watch} {t t' : Resources} {sent sent' latest : UInt32 → Option UInt32} {c : DrvConfig}
  {inFlight inFlight' enqueued enqueued' : List Cmd} {owed : List UInt32} {tcs : Nat → Tcs}
  {hw : Nat → HwTcs} {cmd : Cmd} {ready ready' : Cmd → Prop} {freeCmds finished : List Nat}
  {nextCmd issued i : Nat}

/-! ## Voters -/

namespace Voters

theorem perm (h : Voters w t sent latest inFlight enqueued owed) (hf : inFlight.Perm inFlight')
    (he : enqueued.Perm enqueued') : Voters w t sent latest inFlight' enqueued' owed :=
  { h with
    busy := fun a => (h.busy a).trans (exists_congr fun _ => and_congr_left' hf.mem_iff)
    settled := fun a hwatch => (h.settled a hwatch).imp id (.imp id fun ⟨cmd, hcmd, ha⟩ =>
      ⟨cmd, he.mem_iff.mp hcmd, ha⟩) }

/-- What was owed is enqueued. -/
theorem create (h : Voters w t sent latest inFlight enqueued owed) (howed : owed = cmd.addresses) :
    Voters w t sent latest inFlight (cmd :: enqueued) [] :=
  { h with
    settled := fun a hwatch => (h.settled a hwatch).imp id fun hor => .inr (hor.elim
      (fun ha => ⟨cmd, mem_cons_self, howed ▸ ha⟩)
      fun ⟨x, hx, ha⟩ => ⟨x, mem_cons_of_mem _ hx, ha⟩) }

/-- The voters of a command that is sent: RPMh has their votes, and they are in progress. -/
theorem launch (h : Voters w t sent latest inFlight (cmd :: enqueued) owed)
    (hvalid : ∀ a ∈ cmd.addresses, ((t.votes a).localVotes .active).valid = true)
    (hvotes : ∀ b, t'.votes b =
      if b ∈ cmd.addresses then (t.votes b).sent ((t.votes b).localVotes .active).data true
      else t.votes b)
    (hsent : ∀ b, sent' b =
      if b ∈ cmd.addresses then some ((t.votes b).localVotes .active).data else sent b) :
    Voters w t' sent' latest (cmd :: inFlight) enqueued owed where
  plain a := by
    rw [hvotes]
    split
    · exact h.plain a
    · exact h.plain a
  busy a := by
    rw [hvotes]
    constructor
    · intro hbusy
      split at hbusy
      · next ha => exact ⟨cmd, mem_cons_self, ha⟩
      · obtain ⟨x, hx, ha⟩ := (h.busy a).mp hbusy
        exact ⟨x, mem_cons_of_mem _ hx, ha⟩
    · rintro ⟨x, hx, ha⟩
      split
      · rfl
      · next hnot =>
        rcases mem_cons.mp hx with rfl | hx
        · exact absurd ha hnot
        · exact (h.busy a).mpr ⟨x, hx, ha⟩
  settled a hwatch := by
    rw [hvotes]
    split
    · exact .inl fun _ => ⟨rfl, rfl⟩
    · next hnot =>
      refine (h.settled a hwatch).imp id (.imp id ?_)
      rintro ⟨x, hx, ha⟩
      rcases mem_cons.mp hx with rfl | hx
      · exact absurd ha hnot
      · exact ⟨x, hx, ha⟩
  sent a hwatch := by
    rw [hsent, Resources.atRpmh, hvotes]
    split
    · rfl
    · exact h.sent a hwatch
  each a := by
    rw [hvotes]
    split
    · next ha => exact w.sent (h.each a) (hvalid a ha)
    · exact h.each a
  latest a := by
    rw [hvotes]
    split
    · exact h.latest a
    · exact h.latest a

/-- The voters of a command that has finished. -/
theorem finish (h : Voters w t sent latest (cmd :: inFlight) enqueued owed)
    (hdisjoint : ∀ x ∈ inFlight, cmd.addresses.Disjoint x.addresses)
    (hvotes : ∀ b, t'.votes b =
      if b ∈ cmd.addresses then (t.votes b).finish b else t.votes b) :
    Voters w t' sent latest inFlight enqueued owed where
  plain a := by
    rw [hvotes]
    split
    · exact DrvVotes.dirtyUpdate_plain
    · exact h.plain a
  busy a := by
    rw [hvotes]
    constructor
    · intro hbusy
      split at hbusy
      · cases hbusy
      · next hnot =>
        obtain ⟨x, hx, ha⟩ := (h.busy a).mp hbusy
        rcases mem_cons.mp hx with rfl | hx
        · exact absurd ha hnot
        · exact ⟨x, hx, ha⟩
    · rintro ⟨x, hx, ha⟩
      rw [if_neg fun hcmd => hdisjoint x hx hcmd ha]
      exact (h.busy a).mpr ⟨x, mem_cons_of_mem _ hx, ha⟩
  settled a hwatch := by
    rw [hvotes]
    split
    · refine (h.settled a hwatch).imp (fun hsettled hvalid => ?_) id
      rw [DrvVotes.finish_valid] at hvalid
      rw [DrvVotes.finish_data]
      exact hsettled hvalid
    · exact h.settled a hwatch
  sent a hwatch := by
    rw [Resources.atRpmh, hvotes]
    split
    · exact h.sent a hwatch
    · exact h.sent a hwatch
  each a := by
    rw [hvotes]
    split
    · exact w.finish (h.each a)
    · exact h.each a
  latest a := by
    rw [hvotes]
    split
    · rw [DrvVotes.finish_valid, DrvVotes.finish_data]
      exact h.latest a
    · exact h.latest a

/-- The votes of a command set: what is dirty is owed. -/
theorem vote {commands : List Command} (h : Voters w t sent latest inFlight enqueued [])
    (explicitCmd : Bool) (hnodup : (commands.map (·.address)).Nodup) :
    Voters w (updateAll .active explicitCmd commands t).1 sent
      (receive latest (commands.map fun command => (command.address, command.data))) inFlight
      enqueued
      (if (updateAll .active explicitCmd commands t).2 then commands.map (·.address) else []) := by
  obtain ⟨hvotes, -, hdirty⟩ :=
    updateAll_eq (t := t) .active explicitCmd hnodup
  generalize updateAll .active explicitCmd commands t = r at hvotes hdirty
  have hmap : (commands.map fun command => (command.address, command.data)).map (·.1) =
      commands.map (·.address) := by
    rw [map_map]
    rfl
  -- each voter is what it was, or has a new vote
  have hcases : ∀ a,
      (∃ data, a ∈ commands.map (·.address) ∧
        r.1.votes a = (t.votes a).update a .active data explicitCmd ∧
        receive latest (commands.map fun command => (command.address, command.data)) a =
          some data) ∨
      (a ∉ commands.map (·.address) ∧ r.1.votes a = t.votes a ∧
        receive latest (commands.map fun command => (command.address, command.data)) a =
          latest a) := by
    intro a
    rcases Decidable.em (a ∈ commands.map (·.address)) with ha | ha
    · obtain ⟨command, hmem, rfl⟩ := mem_map.mp ha
      exact .inl ⟨command.data, ha, (hvotes _).1 command hmem rfl,
        receive_of_mem (hmap ▸ hnodup) (mem_map.mpr ⟨command, hmem, rfl⟩)⟩
    · exact .inr ⟨ha, (hvotes a).2 ha, receive_of_not_mem (hmap ▸ ha)⟩
  refine ⟨fun a => ?_, fun a => ?_, fun a hwatch => ?_, fun a hwatch => ?_, fun a => ?_,
    fun a => ?_⟩
  · rcases hcases a with ⟨data, -, hvote, -⟩ | ⟨-, hvote, -⟩ <;> rw [hvote]
    · exact DrvVotes.dirtyUpdate_plain
    · exact h.plain a
  · rcases hcases a with ⟨data, -, hvote, -⟩ | ⟨-, hvote, -⟩ <;> rw [hvote]
    · exact h.busy a
    · exact h.busy a
  · rcases hcases a with ⟨data, ha, hvote, -⟩ | ⟨-, hvote, -⟩
    · rcases hr : r.2 with _ | _
      · -- nothing is dirty, so that this one is not
        refine .inl (DrvVotes.activeDirty_isDirty.mp ?_)
        have hclean := hdirty.mp hr a ha
        rw [hvote] at hclean ⊢
        exact hclean
      · exact .inr (.inl ha)
    · rw [hvote]
      exact (h.settled a hwatch).imp id (.imp nofun id)
  · rcases hcases a with ⟨data, -, hvote, -⟩ | ⟨-, hvote, -⟩ <;> rw [Resources.atRpmh, hvote]
    · exact h.sent a hwatch
    · exact h.sent a hwatch
  · rcases hcases a with ⟨data, -, hvote, -⟩ | ⟨-, hvote, -⟩ <;> rw [hvote]
    · exact w.vote (h.each a)
    · exact h.each a
  · rcases hcases a with ⟨data, -, hvote, hlatest⟩ | ⟨-, hvote, hlatest⟩ <;> rw [hvote, hlatest]
    · rw [DrvVotes.update_valid, DrvVotes.update_data]
      rfl
    · exact h.latest a

end Voters

/-! ## TCSs -/

namespace Placed

theorem perm (h : Placed tcs hw c inFlight) (hf : inFlight.Perm inFlight') :
    Placed tcs hw c inFlight' :=
  { h with
    amc := fun i hi => (h.amc i hi).imp id (.imp id fun ⟨cmd, hcmd, hi⟩ =>
      ⟨cmd, hf.mem_iff.mp hcmd, hi⟩)
    placed := fun cmd hcmd => h.placed cmd (hf.mem_iff.mpr hcmd) }

/-- What an idle AMC is in hardware. -/
theorem hw_idle (h : Placed tcs hw c inFlight) (hstate : (tcs i).state = .amcIdle) :
    (hw i).busy = false := by
  rcases hbusy : (hw i).busy with _ | _
  · rfl
  · rw [(h.busy i hbusy).2] at hstate
    cases hstate

/-- A command that is put on an idle AMC. -/
theorem launch (h : Placed tcs hw c inFlight) (hi : i < c.numAmcs)
    (hstate : (tcs i).state = .amcIdle) (hnew : cmd ∉ inFlight) (cmds : List (UInt32 × UInt32)) :
    Placed (update tcs i ⟨.amcWaitForDone, some cmd⟩)
      (update hw i ⟨true, false, cmds⟩) c (cmd :: inFlight) where
  amc j hj := by
    rcases Decidable.em (j = i) with rfl | hne
    · rw [update_self]
      exact .inr ⟨rfl, cmd, mem_cons_self, rfl⟩
    · rw [update_of_ne hne]
      exact (h.amc j hj).imp id (.imp id fun ⟨x, hx, hjx⟩ => ⟨x, mem_cons_of_mem _ hx, hjx⟩)
  placed x hx := by
    rcases mem_cons.mp hx with rfl | hx
    · exact ⟨i, hi, by rw [update_self]⟩
    · obtain ⟨j, hj, hjx⟩ := h.placed x hx
      refine ⟨j, hj, ?_⟩
      rw [update_of_ne]
      · exact hjx
      · -- the command is not on the idle AMC
        rintro rfl
        rcases h.amc j hj with ⟨-, hnone⟩ | ⟨hwait, -⟩
        · rw [hnone] at hjx
          cases hjx
        · rw [hstate] at hwait
          cases hwait
  once := by
    -- a command on another AMC is in flight
    have hothers : ∀ j < c.numAmcs, ∀ x, (tcs j).cmds = some x → x ≠ cmd := by
      rintro j hj x hjx rfl
      rcases h.amc j hj with ⟨-, hnone⟩ | ⟨-, y, hy, hjy⟩
      · rw [hnone] at hjx
        cases hjx
      · rw [hjy] at hjx
        cases hjx
        exact hnew hy
    intro j hj k hk x hjx hkx
    rcases Decidable.em (j = i) with rfl | hji
    · rcases Decidable.em (k = j) with rfl | hkj
      · rfl
      · rw [update_self] at hjx
        rw [update_of_ne hkj] at hkx
        cases hjx
        exact absurd rfl (hothers k hk _ hkx)
    · rw [update_of_ne hji] at hjx
      rcases Decidable.em (k = i) with rfl | hki
      · rw [update_self] at hkx
        cases hkx
        exact absurd rfl (hothers j hj _ hjx)
      · rw [update_of_ne hki] at hkx
        exact h.once j hj k hk x hjx hkx
  busy j hbusy := by
    rcases Decidable.em (j = i) with rfl | hne
    · rw [update_self]
      exact ⟨hi, rfl⟩
    · rw [update_of_ne hne] at hbusy ⊢
      exact h.busy j hbusy
  irq j hirq := by
    rcases Decidable.em (j = i) with rfl | hne
    · rw [update_self] at hirq
      cases hirq
    · rw [update_of_ne hne] at hirq ⊢
      rw [update_of_ne hne]
      exact h.irq j hirq
  others j hj := by
    rw [update_of_ne (Nat.ne_of_gt (Nat.lt_of_lt_of_le hi hj))]
    exact h.others j hj

/-- An AMC of which the command has finished. -/
theorem finish (h : Placed tcs hw c (cmd :: inFlight)) (hirq : (hw i).irq = true)
    (hcmd : (tcs i).cmds = some cmd) (hnew : cmd ∉ inFlight) :
    Placed (update tcs i ⟨.amcIdle, none⟩)
      (update hw i { hw i with irq := false }) c inFlight := by
  obtain ⟨hi, -, hdone⟩ := h.irq i hirq
  have hothers : ∀ j < c.numAmcs, j ≠ i → (tcs j).cmds ≠ some cmd := fun j hj hne hj' =>
    hne (h.once j hj i hi cmd hj' hcmd)
  refine ⟨fun j hj => ?_, fun x hx => ?_, ?_, fun j hbusy => ?_, fun j hirq' => ?_, fun j hj => ?_⟩
  · rcases Decidable.em (j = i) with rfl | hne
    · rw [update_self]
      exact .inl ⟨rfl, rfl⟩
    · rw [update_of_ne hne]
      refine (h.amc j hj).imp id (.imp id ?_)
      rintro ⟨x, hx, hjx⟩
      rcases mem_cons.mp hx with rfl | hx
      · exact absurd hjx (hothers j hj hne)
      · exact ⟨x, hx, hjx⟩
  · obtain ⟨j, hj, hjx⟩ := h.placed x (mem_cons_of_mem _ hx)
    refine ⟨j, hj, ?_⟩
    rw [update_of_ne]
    · exact hjx
    · rintro rfl
      rw [hcmd] at hjx
      cases hjx
      exact hnew hx
  · intro j hj k hk x hjx hkx
    rcases Decidable.em (j = i) with rfl | hji
    · rw [update_self] at hjx
      cases hjx
    · rcases Decidable.em (k = i) with rfl | hki
      · rw [update_self] at hkx
        cases hkx
      · rw [update_of_ne hji] at hjx
        rw [update_of_ne hki] at hkx
        exact h.once j hj k hk x hjx hkx
  · rcases Decidable.em (j = i) with rfl | hne
    · rw [update_self] at hbusy
      exact absurd (hdone.symm.trans hbusy) (by decide)
    · rw [update_of_ne hne] at hbusy ⊢
      exact h.busy j hbusy
  · rcases Decidable.em (j = i) with rfl | hne
    · rw [update_self] at hirq'
      cases hirq'
    · rw [update_of_ne hne] at hirq' ⊢
      rw [update_of_ne hne]
      exact h.irq j hirq'
  · rw [update_of_ne (Nat.ne_of_gt (Nat.lt_of_lt_of_le hi hj))]
    exact h.others j hj

/-- The hardware has executed an AMC. -/
theorem complete (h : Placed tcs hw c inFlight) (hbusy : (hw i).busy = true) :
    Placed tcs (update hw i { hw i with busy := false, irq := true }) c inFlight :=
  { h with
    busy := fun j hj => by
      rcases Decidable.em (j = i) with rfl | hne
      · rw [update_self] at hj
        cases hj
      · rw [update_of_ne hne] at hj
        exact h.busy j hj
    irq := fun j hj => by
      rcases Decidable.em (j = i) with rfl | hne
      · rw [update_self]
        exact ⟨(h.busy j hbusy).1, (h.busy j hbusy).2, rfl⟩
      · rw [update_of_ne hne] at hj ⊢
        exact h.irq j hj }

end Placed

/-! ## Commands -/

/-- Votes that stay valid. -/
theorem Cmd.Ready.mono (h : cmd.Ready t) (has : ∀ b, t.Has b → t'.Has b)
    (hvalid : ∀ b, ((t.votes b).localVotes .active).valid = true →
      ((t'.votes b).localVotes .active).valid = true) : cmd.Ready t' :=
  { h with
    has := fun a ha => has a (h.has a ha)
    valid := fun a ha => hvalid a (h.valid a ha) }

namespace Queued

theorem mono (h : Queued ready inFlight enqueued freeCmds nextCmd issued finished)
    (hready : ∀ cmd, ready cmd → ready' cmd) :
    Queued ready' inFlight enqueued freeCmds nextCmd issued finished :=
  { h with ready := fun cmd hcmd => hready cmd (h.ready cmd hcmd) }

theorem perm (h : Queued ready inFlight enqueued freeCmds nextCmd issued finished)
    (hf : inFlight.Perm inFlight') (he : enqueued.Perm enqueued') :
    Queued ready inFlight' enqueued' freeCmds nextCmd issued finished := by
  have hboth := hf.append he
  have hptrs := (hboth.map (·.ptr)).append_right freeCmds
  exact
    { ready := fun cmd hcmd => h.ready cmd (hboth.mem_iff.mpr hcmd)
      disjoint := hf.pairwise h.disjoint fun hxy _ ha hb => hxy hb ha
      ptrs := hptrs.nodup_iff.mp h.ptrs
      ptrs_lt := fun p hp => h.ptrs_lt p (hptrs.mem_iff.mpr hp)
      seqs := ((hboth.map (·.seq)).append_right finished).symm.trans h.seqs }

/-- A command that goes from the enqueued ones to those in flight. -/
theorem launch (h : Queued ready inFlight (cmd :: enqueued) freeCmds nextCmd issued finished)
    (hdisjoint : ∀ x ∈ inFlight, cmd.addresses.Disjoint x.addresses) :
    Queued ready (cmd :: inFlight) enqueued freeCmds nextCmd issued finished := by
  have hmove : (inFlight ++ cmd :: enqueued).Perm (cmd :: inFlight ++ enqueued) :=
    perm_middle
  have hptrs := (hmove.map (·.ptr)).append_right freeCmds
  exact
    { ready := fun x hx => h.ready x (hmove.mem_iff.mpr hx)
      disjoint := pairwise_cons.mpr ⟨hdisjoint, h.disjoint⟩
      ptrs := hptrs.nodup_iff.mp h.ptrs
      ptrs_lt := fun p hp => h.ptrs_lt p (hptrs.mem_iff.mpr hp)
      seqs := ((hmove.map (·.seq)).append_right finished).symm.trans h.seqs }

/-- A command that has finished. -/
theorem finish (h : Queued ready (cmd :: inFlight) enqueued freeCmds nextCmd issued finished) :
    Queued ready inFlight enqueued (freeCmds ++ [cmd.ptr]) nextCmd issued
      (finished ++ [cmd.seq]) := by
  have hmove : ∀ (f : Cmd → Nat) (xs : List Nat),
      ((cmd :: inFlight ++ enqueued).map f ++ xs).Perm
        ((inFlight ++ enqueued).map f ++ (xs ++ [f cmd])) := fun f xs => by
    rw [← append_assoc]
    exact (perm_append_singleton _ _).symm
  exact
    { ready := fun x hx => h.ready x (mem_cons_of_mem _ hx)
      disjoint := (pairwise_cons.mp h.disjoint).2
      ptrs := (hmove (·.ptr) freeCmds).nodup_iff.mp h.ptrs
      ptrs_lt := fun p hp => h.ptrs_lt p ((hmove (·.ptr) freeCmds).mem_iff.mpr hp)
      seqs := (hmove (·.seq) finished).symm.trans h.seqs }

/-- A new command. -/
theorem create (h : Queued ready inFlight enqueued freeCmds nextCmd cmd.seq finished)
    (hready : ready cmd) {freeCmds' : List Nat} {nextCmd' : Nat}
    (hptr : freeCmds = cmd.ptr :: freeCmds' ∧ nextCmd' = nextCmd ∨
      freeCmds = [] ∧ freeCmds' = [] ∧ cmd.ptr = nextCmd ∧ nextCmd' = nextCmd + 1) :
    Queued ready inFlight (cmd :: enqueued) freeCmds' nextCmd' (cmd.seq + 1) finished := by
  have hmove : (inFlight ++ cmd :: enqueued).Perm (cmd :: (inFlight ++ enqueued)) :=
    perm_middle
  have hptrs := (hmove.map (·.ptr)).append_right freeCmds'
  have hseqs := (hmove.map (·.seq)).append_right finished
  refine ⟨fun x hx => ?_, h.disjoint, hptrs.nodup_iff.mpr ?_, fun p hp => ?_, hseqs.trans ?_⟩
  · rcases mem_cons.mp (hmove.mem_iff.mp hx) with rfl | hx
    · exact hready
    · exact h.ready x hx
  · rcases hptr with ⟨rfl, -⟩ | ⟨rfl, rfl, hnext, -⟩
    · exact (perm_middle.nodup_iff).mp h.ptrs
    · refine nodup_cons.mpr ⟨fun hmem => ?_, h.ptrs⟩
      have hlt : cmd.ptr < nextCmd := h.ptrs_lt _ hmem
      exact absurd hlt (hnext ▸ Nat.lt_irrefl _)
  · have hp := hptrs.mem_iff.mp hp
    rcases hptr with ⟨rfl, rfl⟩ | ⟨rfl, rfl, hnext, rfl⟩
    · exact h.ptrs_lt p (perm_middle.mem_iff.mpr hp)
    · rcases mem_cons.mp hp with rfl | hp
      · exact hnext ▸ Nat.lt_succ_self _
      · exact Nat.lt_succ_of_lt (h.ptrs_lt p hp)
  · rw [range_succ]
    exact (h.seqs.cons cmd.seq).trans (perm_append_singleton _ _).symm

/-- A command of which the pointer is one of another command is that command. -/
theorem eq_of_ptr (h : Queued ready inFlight enqueued freeCmds nextCmd issued finished) {x y : Cmd}
    (hx : x ∈ inFlight) (hy : y ∈ inFlight) (hptr : x.ptr = y.ptr) : x = y := by
  have hnodup := (nodup_append.mp h.ptrs).1
  exact inj_on_of_nodup_map hnodup (mem_append_left _ hx) (mem_append_left _ hy) hptr

/-- A command is in one of the two places, once. -/
theorem nodup (h : Queued ready inFlight enqueued freeCmds nextCmd issued finished) :
    (inFlight ++ enqueued).Nodup :=
  List.Nodup.of_map _ (nodup_append.mp h.ptrs).1

end Queued

end Rpmh
