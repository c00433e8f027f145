import BootXf.Npa.Aggregation

/-!
# Aggregation over a history of requests
-/

namespace Npa

open Lib List

/-! ## What a call leaves to its client -/

section
variable {plugin : Plugin} {r : Resource} {op : Op} {c : Client} {ix : Index}

/-- The active request of the client of a call has been counted for the type that the client had
before the call. -/
theorem Op.countedAt_prepared (hacc : op.Accepts plugin r c)
    (hquiet : c.requestAttr.changedType = false) (hix : (op.prepared c).type = ix.clientType) :
    c.type = (countedAt (op.prepared c) ix).clientType := by
  have hchanged := op.prepared_changedType c
  rw [hquiet, Bool.false_or] at hchanged
  rw [op.prepared_type] at hix
  cases op with
  | setClientTypeRequired | setClientTypeSuppressible =>
    rw [countedAt, hchanged, hacc.1]
    cases ix <;> first | rfl | cases hix
  | _ =>
    rw [countedAt, hchanged]
    exact hix

/-- A call that changes the type of its client starts and ends at a type with an index. -/
theorem Op.unindexed_prepared (hacc : op.Accepts plugin r c)
    (hix : (op.prepared c).type.index? = none) : c.type.index? = none := by
  cases op with
  | setClientTypeRequired | setClientTypeSuppressible => cases hix
  | _ => exact hix

/-- A redundant call changes no type. -/
theorem Op.prepared_type_of_not_new (hnew : op.isNew c = false) :
    (op.prepared c).type = c.type := by
  cases op with
  | setClientTypeRequired | setClientTypeSuppressible => cases hnew
  | _ => rfl

end

/-! ## No change of type is pending between the calls -/

/-- `NPA_REQUEST_CHANGED_TYPE` is only set while the change is being processed. -/
def Resource.Quiet (r : Resource) : Prop := ∀ c ∈ r.clients, c.requestAttr.changedType = false

section
variable {plugin : Plugin} {r s : Resource} {op : Op} {c cf : Client} {before after : List Client}

theorem quiet_unlink {t : Resource} (op : Op) (hq : r.Quiet) (hr : Splits r c before after)
    (ht : Splits t cf before after) (hh : cf.handle = op.handle)
    (hcf : cf.requestAttr.changedType = false) : (op.unlink t).Quiet := by
  have hothers : ∀ x ∈ before ++ after, x.requestAttr.changedType = false := by
    intro x hx
    refine hq x ?_
    rw [hr.clients]
    rcases mem_append.mp hx with hx | hx
    · exact mem_append_left _ hx
    · exact mem_append_right _ (mem_cons_of_mem _ hx)
  rcases op.unlink_cases ht hh with hun | hun
  · intro x hx
    rw [hun] at hx
    exact hothers x hx
  · intro x hx
    rw [hun, ht.clients] at hx
    rcases mem_append.mp hx with hx | hx
    · exact hothers x (mem_append_left _ hx)
    · rcases mem_cons.mp hx with rfl | hx
      · exact hcf
      · exact hothers x (mem_append_right _ hx)

theorem Resource.Quiet.effect (hd : r.Distinct) (hq : r.Quiet) (he : op.Effect plugin r s) :
    s.Quiet := by
  cases he with
  | refused => exact hq
  | created =>
    intro x hx
    rcases mem_cons.mp hx with rfl | hx
    · rfl
    · exact hq x hx
  | @attributed h attr c hc hattr =>
    obtain ⟨before, after, hsplit, hput, hh⟩ :=
      Op.splits_put hd hc r rfl (npaSetRequestAttribute c attr) rfl
    have hchanged : (npaSetRequestAttribute c attr).requestAttr.changedType = false := by
      have := hq c (mem_of_find?_eq_some hc)
      simp [npaSetRequestAttribute, RequestAttr.or, this, hattr]
    exact quiet_unlink (.setRequestAttribute h attr) hq hsplit hput hh hchanged
  | @redundant op c hissue hc hacc hreach =>
    obtain ⟨before, after, hsplit, hput, hh⟩ := Op.splits_put hd hc
      { r with activeMax := op.newMax r c } rfl (op.prepared c).redundant (Op.prepared_handle ..)
    exact quiet_unlink op hq hsplit hput hh rfl
  | @served op c a r' c' hissue hc hacc hreach ha hserved =>
    obtain ⟨before, after, hsplit, -, hput, hh⟩ := Op.splits_served hd hc hserved
    exact quiet_unlink op hq hsplit hput hh (by rw [hserved.requestAttr]; rfl)

end

/-! ## Aggregates over a step -/

/-- Some elements of the internal state are the aggregates of the live clients. -/
def Holds (op : UInt32 → UInt32 → UInt32) (weight : UInt32 → UInt32) (slot : Index → Fin 4)
    (r : Resource) : Prop :=
  ∀ ix, r.internalState (slot ix) = aggregateOf op weight r.clients ix

section
variable {f : UInt32 → UInt32 → UInt32} {weight : UInt32 → UInt32} {slot : Index → Fin 4}
  {plugin : Plugin} {r s : Resource} {op : Op} {c cf : Client} {before after : List Client}

/-- The share of one client in an aggregate. -/
theorem aggregateOf_splits [Std.Associative f] [Std.Commutative f] (h : Splits r c before after)
    (jx : Index) :
    aggregateOf f weight r.clients jx =
      if c.type = jx.clientType then f (weight c.active) (aggregateOf f weight (before ++ after) jx)
      else aggregateOf f weight (before ++ after) jx := by
  rw [h.clients]
  split
  · next htype =>
    simp only [aggregateOf, requestsOf, filter_append, filter_cons_of_pos, htype,
      beq_self_eq_true, map_append, map_cons]
    exact aggregate_middle ..
  · next htype => simp [aggregateOf, requestsOf, htype]

theorem aggregateOf_cons_zero [hid : Std.LawfulIdentity f 0] (hw : weight 0 = 0)
    (hc : c.active = 0) (clients : List Client) (jx : Index) :
    aggregateOf f weight (c :: clients) jx = aggregateOf f weight clients jx := by
  by_cases htype : c.type = jx.clientType
  · simp [aggregateOf, requestsOf, htype, hc, hw, hid.left_id]
  · simp [aggregateOf, requestsOf, htype]

variable [Std.Associative f] [Std.Commutative f] [hid : Std.LawfulIdentity f 0]

/-- The end of a call, once the client has been written back: an unlinked client has no share. -/
theorem holds_unlink {t : Resource} (hw : weight 0 = 0) (ht : Splits t cf before after)
    (hh : cf.handle = op.handle) (h : Holds f weight slot t)
    (hgone : op.unlink t ≠ t → cf.active = 0 ∨ cf.type.index? = none) :
    Holds f weight slot (op.unlink t) := by
  by_cases hun : op.unlink t = t
  · rw [hun]
    exact h
  · intro jx
    rw [Op.unlink_internalState, h jx, (op.unlink_cases ht hh).resolve_right hun,
      aggregateOf_splits ht]
    split
    · next htype =>
      have hzero : cf.active = 0 := (hgone hun).resolve_right fun hnone => by
        rw [htype] at hnone
        cases jx <;> cases hnone
      rw [hzero, hw, hid.left_id]
    · rfl

/-- **One step of an aggregate.** -/
theorem Holds.effect (hw : weight 0 = 0) (hagg : Aggregates f weight slot plugin.updateFcn)
    (hd : r.Distinct) (hq : r.Quiet) (h : Holds f weight slot r) (he : op.Effect plugin r s) :
    Holds f weight slot s := by
  cases he with
  | refused => exact h
  | created =>
    intro jx
    refine (h jx).trans (aggregateOf_cons_zero hw ?_ r.clients jx).symm
    rfl
  | @attributed h' attr c hc =>
    obtain ⟨before, after, hsplit, hput, -⟩ :=
      Op.splits_put hd hc r rfl (npaSetRequestAttribute c attr) rfl
    intro jx
    refine (h jx).trans ?_
    rw [aggregateOf_splits hsplit, aggregateOf_splits hput]
    rfl
  | @redundant op c hissue hc hacc hreach =>
    have hnew := Client.not_new_of_not_reaches hreach
    obtain ⟨before, after, hsplit, hput, hh⟩ := Op.splits_put hd hc
      { r with activeMax := op.newMax r c } rfl (op.prepared c).redundant (Op.prepared_handle ..)
    refine holds_unlink hw hput hh (fun jx => (h jx).trans ?_) fun hun => .inl ?_
    · rw [aggregateOf_splits hsplit, aggregateOf_splits hput, Client.redundant_type,
        Client.redundant_active, op.prepared_active, op.prepared_type_of_not_new hnew]
    · obtain ⟨h', rfl⟩ := Op.of_unlink_ne hun
      exact (Op.prepared_active _ c).trans (by simpa [Op.isNew] using hnew)
  | @served op c a r' c' hissue hc hacc hreach ha hserved =>
    obtain ⟨before, after, hsplit, hprepared, hput, hh⟩ := Op.splits_served hd hc hserved
    have hquiet := hq c (mem_of_find?_eq_some hc)
    cases hix : (op.prepared c).type.index? with
    | none =>
      have hnone := op.unindexed_prepared hacc hix
      have htype : c'.type.index? = none := by rw [hserved.type, hix]
      refine holds_unlink hw hput hh (fun jx => ?_) fun _ => .inr htype
      have hne : ∀ {t : ClientType}, t.index? = none → t ≠ jx.clientType := by
        rintro t ht rfl
        cases jx <;> cases ht
      rw [aggregateOf_splits hput, if_neg (hne htype), show (r'.put c').internalState =
        a.internalState from hserved.internalState, hagg.unindexed hix ha]
      refine (h jx).trans ?_
      rw [aggregateOf_splits hsplit, if_neg (hne hnone)]
    | some ix =>
      have htype := ClientType.index?_eq_some.mp hix
      have hcounted := op.countedAt_prepared hacc hquiet htype
      obtain ⟨hslots, hzero⟩ := hagg.indexed hprepared htype (fun jx => by
        refine (h jx).trans ?_
        rw [aggregateOf_splits hsplit, hcounted, op.prepared_active, voted]
        simp only [Index.clientType_inj, eq_comm]) ha
      refine holds_unlink hw hput hh (fun jx => ?_) fun hun => .inl ?_
      · rw [aggregateOf_splits hput, hserved.type, htype, hserved.active, show
          (r'.put c').internalState = a.internalState from hserved.internalState, hslots jx, voted]
        simp only [Index.clientType_inj, eq_comm]
      · obtain ⟨h', rfl⟩ := Op.of_unlink_ne hun
        exact hserved.active.trans (hzero (Client.setPending_pending ..))

end

end Npa
