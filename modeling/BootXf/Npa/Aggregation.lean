import BootXf.Lib.Aggregate
import BootXf.Lib.Run
import BootXf.Npa.Operations

/-!
# The aggregates of a resource
-/

namespace Npa

open Lib List

/-! ## The choices of the extremum functions -/

theorem toNat_pick_minBetter (x y : UInt32) :
    (pick minBetter x y).toNat =
      if x.toNat ≠ 0 ∧ (y.toNat = 0 ∨ x.toNat < y.toNat) then x.toNat else y.toNat := by
  simp only [pick, minBetter, apply_ite UInt32.toNat, Bool.and_eq_true, bne_iff_ne, Bool.or_eq_true,
    beq_iff_eq, decide_eq_true_eq, ← UInt32.toNat_inj, UInt32.lt_iff_toNat_lt, ne_eq,
    UInt32.toNat_zero]

theorem toNat_pick_maxBetter (x y : UInt32) :
    (pick maxBetter x y).toNat = max x.toNat y.toNat := by
  simp only [pick, maxBetter, apply_ite UInt32.toNat, decide_eq_true_eq, UInt32.lt_iff_toNat_lt]
  split <;> omega

instance : Std.Commutative (pick minBetter) where
  comm x y := by
    simp only [← UInt32.toNat_inj, toNat_pick_minBetter]
    split <;> split <;> omega

instance : Std.Associative (pick minBetter) where
  assoc x y z := by
    simp only [← UInt32.toNat_inj, toNat_pick_minBetter]
    repeat' split
    all_goals omega

instance : Std.LawfulIdentity (pick minBetter) 0 where
  left_id x := by simp [← UInt32.toNat_inj, toNat_pick_minBetter]
  right_id x := by
    rw [← UInt32.toNat_inj, toNat_pick_minBetter, UInt32.toNat_zero]
    by_cases hx : x.toNat = 0 <;> simp [hx]

instance : Std.Commutative (pick maxBetter) where
  comm x y := by
    simp only [← UInt32.toNat_inj, toNat_pick_maxBetter]
    omega

instance : Std.Associative (pick maxBetter) where
  assoc x y z := by
    simp only [← UInt32.toNat_inj, toNat_pick_maxBetter]
    omega

instance : Std.LawfulIdentity (pick maxBetter) 0 where
  left_id x := by simp [← UInt32.toNat_inj, toNat_pick_maxBetter]
  right_id x := by simp [← UInt32.toNat_inj, toNat_pick_maxBetter]

instance lawfulIdentity_or : Std.LawfulIdentity (fun x y : UInt32 => x ||| y) 0 where
  left_id _ := UInt32.zero_or
  right_id _ := UInt32.or_zero

/-! ## The client lists that an update function goes over -/

/-- The active requests of the clients behind an index. -/
def requestsOf (clients : List Client) (ix : Index) : List UInt32 :=
  (clients.filter fun c => c.type == ix.clientType).map (·.active)

section
variable {r : Resource} {c : Client} {before after : List Client} {ix : Index}

theorem scanActive_eq_foldl (step : UInt32 → UInt32 → UInt32) (select : Client → Bool)
    (clients : List Client) (start : UInt32) :
    scanActive step select clients start =
      ((clients.filter select).map (·.active)).foldl step start := by
  unfold scanActive
  induction clients generalizing start with
  | nil => rfl
  | cons x clients ih =>
    rw [foldl_cons, ih]
    cases hx : select x <;> simp [hx]

/-- A scan that takes up requests with an operation. -/
theorem scanActive_eq (op : UInt32 → UInt32 → UInt32) [Std.Associative op]
    [Std.LawfulIdentity op 0] (select : Client → Bool) (clients : List Client) (start : UInt32) :
    scanActive op select clients start =
      op start (aggregate op 0 ((clients.filter select).map (·.active))) := by
  rw [scanActive_eq_foldl]
  exact foldl_eq_op_aggregate ..

/-- The other clients of the client's type. -/
theorem filter_sameType (h : Splits r c before after) (hix : c.type = ix.clientType) :
    (r.clients.filter (sameType c)).map (·.active) = requestsOf (before ++ after) ix := by
  have hothers : ∀ l : List Client, (∀ x ∈ l, x ∈ before ++ after) →
      l.filter (sameType c) = l.filter fun x => x.type == ix.clientType := by
    intro l hl
    refine filter_congr fun x hx => ?_
    have hne : (x.handle != c.handle) = true := by simpa using h.apart x (hl x hx)
    rw [sameType, hne, Bool.true_and, hix, BEq.comm]
  have hself : sameType c c = false := by simp [sameType]
  rw [requestsOf, h.clients, filter_append, filter_cons_of_neg (by simp [hself]),
    filter_append, hothers before fun x hx => mem_append_left _ hx,
    hothers after fun x hx => mem_append_right _ hx]

/-- The clients of the type that the client changed from. -/
theorem filter_previousType (h : Splits r c before after) (hix : c.type = ix.clientType) :
    (r.clients.filter (previousType ix)).map (·.active) =
      requestsOf (before ++ after) ix.other := by
  have hself : previousType ix c = false := by
    rw [previousType, hix, beq_eq_false_iff_ne]
    exact fun heq => Index.other_ne ix (Index.clientType_inj.mp heq)
  have hflip : ∀ x, previousType ix x = (x.type == ix.other.clientType) := fun x => BEq.comm
  rw [requestsOf, h.clients, filter_append, filter_cons_of_neg (by simp [hself]),
    filter_append, filter_congr fun x _ => hflip x, filter_congr fun x _ => hflip x]

end

/-! ## What the update functions compute

An aggregate is the fold of an operation over what the requests weigh: themselves, or for the counts
of the binary function one each. The index that a client's active request counts for is the one it
had before a change of type.
-/

/-- The aggregate of the clients behind an index. -/
def aggregateOf (op : UInt32 → UInt32 → UInt32) (weight : UInt32 → UInt32) (clients : List Client)
    (ix : Index) : UInt32 :=
  aggregate op 0 ((requestsOf clients ix).map weight)

/-- Aggregates with one more request behind an index. -/
def voted (op : UInt32 → UInt32 → UInt32) (ix : Index) (request : UInt32) (others : Index → UInt32)
    (jx : Index) : UInt32 :=
  if jx = ix then op request (others jx) else others jx

/-- What is asked of an update function that keeps aggregates in some elements of the internal
state: it replaces the active request of the client by the one it leaves pending, and it leaves
clients without an index alone. -/
structure Aggregates (op : UInt32 → UInt32 → UInt32) (weight : UInt32 → UInt32)
    (slot : Index → Fin 4) (updateFcn : Resource → Client → Option Aggregation) : Prop where
  indexed : ∀ {r : Resource} {c : Client} {before after : List Client} {ix : Index}
    {a : Aggregation}, Splits r c before after → c.type = ix.clientType →
    (∀ jx, r.internalState (slot jx) = voted op (countedAt c ix) (weight c.active)
      (aggregateOf op weight (before ++ after)) jx) →
    updateFcn r c = some a →
    (∀ jx, a.internalState (slot jx) = voted op ix (weight a.pending)
      (aggregateOf op weight (before ++ after)) jx) ∧ (c.pending = 0 → a.pending = 0)
  unindexed : ∀ {r : Resource} {c : Client} {a : Aggregation}, c.type.index? = none →
    updateFcn r c = some a → a.internalState = r.internalState

section
variable {r : Resource} {c : Client} {before after : List Client} {ix : Index}
  {combine : UInt32 → UInt32 → UInt32} {better : UInt32 → UInt32 → Bool} {state : InternalState}
  {slot : Index → Fin 4} {v : UInt32} {others : Index → UInt32}

theorem remapMaxRequest_zero (r : Resource) (h : c.pending = 0) : remapMaxRequest r c = 0 := by
  rw [remapMaxRequest, h, if_neg (by decide)]

theorem switchType_indexed (combine : UInt32 → UInt32 → UInt32) (r : Resource)
    (body : Index → InternalState × UInt32) (hix : c.type = ix.clientType) :
    (switchType combine r c body).internalState = (body ix).1 ∧
      (switchType combine r c body).pending = (body ix).2 := by
  rw [switchType, ClientType.index?_eq_some.mpr hix]
  exact ⟨rfl, rfl⟩

theorem switchType_unindexed {body : Index → InternalState × UInt32} (hix : c.type.index? = none) :
    (switchType combine r c body).internalState = r.internalState := by
  rw [switchType, hix]

/-- **The extremum functions.** -/
theorem extremumBody_spec [Std.Associative (pick better)]
    [hcomm : Std.Commutative (pick better)] [hid : Std.LawfulIdentity (pick better) 0]
    (h : Splits r c before after) (hix : c.type = ix.clientType)
    (hold : ∀ jx, r.internalState jx.slot =
      voted (pick better) (countedAt c ix) c.active
        (aggregateOf (pick better) id (before ++ after)) jx) :
    (extremumBody better r c ix).2 = remapMaxRequest r c ∧
    ∀ jx, (extremumBody better r c ix).1 jx.slot =
      voted (pick better) ix (remapMaxRequest r c)
        (aggregateOf (pick better) id (before ++ after)) jx := by
  have htake : (fun acc request => if better request acc then request else acc) = pick better := by
    funext acc request
    exact hcomm.comm request acc
  have hscan : ∀ start, scanActive (fun acc request => if better request acc then request else acc)
      (sameType c) r.clients start = pick better start
      (aggregateOf (pick better) id (before ++ after) ix) := by
    intro start
    rw [htake, aggregateOf, map_id, ← filter_sameType h hix]
    exact scanActive_eq ..
  have hprevious : scanActive (fun acc request => if better request acc then request else acc)
      (previousType ix) r.clients 0 = aggregateOf (pick better) id (before ++ after) ix.other := by
    rw [htake, aggregateOf, map_id, ← filter_previousType h hix]
    exact (scanActive_eq ..).trans (hid.left_id _)
  generalize aggregateOf (pick better) id (before ++ after) = others at *
  cases hchanged : c.requestAttr.changedType with
  | false =>
    have hheld : countedAt c ix = ix := by simp [countedAt, hchanged]
    rw [hheld] at hold
    have hcurrent : r.internalState ix.slot = pick better c.active (others ix) := by
      rw [hold ix, voted, if_pos rfl]
    have hother : r.internalState ix.other.slot = others ix.other := by
      rw [hold ix.other, voted, if_neg ix.other_ne]
    simp only [extremumBody, hchanged, hscan, and_true, Bool.false_eq_true, false_and, if_false]
    refine ⟨trivial, fun jx => ?_⟩
    rcases ix.eq_or_eq_other jx with rfl | rfl
    · rw [InternalState.set_self, voted, if_pos rfl]
      exact pick_refresh hcurrent
    · rw [InternalState.set_of_ne _ _ (by simp), voted, if_neg ix.other_ne, hother]
  | true =>
    have hheld : countedAt c ix = ix.other := by simp [countedAt, hchanged]
    rw [hheld] at hold
    have hcurrent : r.internalState ix.slot = others ix := by
      rw [hold ix, voted, if_neg ix.other_ne.symm]
    have hother : r.internalState ix.other.slot = pick better c.active (others ix.other) := by
      rw [hold ix.other, voted, if_pos rfl]
    have hslot : ix.other.slot ≠ ix.slot := by simp
    simp only [extremumBody, hchanged, hprevious, reduceCtorEq, and_false, if_false, true_and,
      InternalState.set_of_ne _ _ hslot]
    -- the aggregate of the previous type, found again where the client held it
    have hgone := pick_refresh_gone hother
    split
    · next hheld =>
      refine ⟨rfl, fun jx => ?_⟩
      dsimp only
      rcases ix.eq_or_eq_other jx with rfl | rfl
      · rw [InternalState.set_of_ne _ _ hslot.symm, InternalState.set_self, voted, if_pos rfl,
          hcurrent, pick]
      · rw [InternalState.set_self, voted, if_neg ix.other_ne]
    · next hheld =>
      refine ⟨rfl, fun jx => ?_⟩
      rw [if_neg hheld] at hgone
      dsimp only
      rcases ix.eq_or_eq_other jx with rfl | rfl
      · rw [InternalState.set_self, voted, if_pos rfl, hcurrent, pick]
      · rw [InternalState.set_of_ne _ _ hslot, voted, if_neg ix.other_ne, hgone]

theorem aggregates_extremum [Std.Associative (pick better)] [Std.Commutative (pick better)]
    [Std.LawfulIdentity (pick better) 0] :
    Aggregates (pick better) id Index.slot
      fun r c => some (switchType combine r c (extremumBody better r c)) where
  indexed {r c before after ix a} h hix hold ha := by
    cases ha
    obtain ⟨hstate, hpending⟩ := switchType_indexed combine r (extremumBody better r c) hix
    obtain ⟨hrequest, hslots⟩ := extremumBody_spec h hix hold
    rw [hstate, hpending, hrequest]
    exact ⟨hslots, remapMaxRequest_zero r⟩
  unindexed hix ha := by
    cases ha
    exact switchType_unindexed hix

/-- Subtracting a request where it was counted leaves the others. -/
theorem set_counted_sub {jx kx : Index} (hslot : ∀ {ix jx}, slot ix = slot jx → ix = jx)
    (hold : ∀ jx, state (slot jx) = voted (· + ·) kx v others jx) :
    state.set (slot kx) (state (slot kx) - v) (slot jx) = others jx := by
  by_cases hjx : jx = kx
  · rw [hjx, InternalState.set_self, hold kx, voted, if_pos rfl, UInt32.add_comm]
    exact UInt32.add_sub_cancel ..
  · rw [InternalState.set_of_ne _ _ fun heq => hjx (hslot heq), hold jx, voted, if_neg hjx]

/-- Adding a request where it counts now. -/
theorem set_counted_add {ix jx : Index} (hslot : ∀ {ix jx}, slot ix = slot jx → ix = jx)
    (hold : ∀ jx, state (slot jx) = others jx) :
    state.set (slot ix) (state (slot ix) + v) (slot jx) = voted (· + ·) ix v others jx := by
  by_cases hjx : jx = ix
  · rw [hjx, InternalState.set_self, hold ix, voted, if_pos rfl, UInt32.add_comm]
  · rw [InternalState.set_of_ne _ _ fun heq => hjx (hslot heq), hold jx, voted, if_neg hjx]

/-- `npa_sum_update_fcn`: the old request is subtracted where it was counted. -/
theorem aggregates_sum : Aggregates (· + ·) id Index.slot npaSumUpdateFcn where
  indexed {r c before after ix a} h hix hold ha := by
    cases ha
    obtain ⟨hstate, hpending⟩ := switchType_indexed (· + ·) r (sumBody r c) hix
    rw [hstate, hpending]
    refine ⟨fun jx => ?_, remapMaxRequest_zero r⟩
    exact set_counted_add Index.slot_inj.mp fun jx => set_counted_sub Index.slot_inj.mp hold
  unindexed hix ha := by
    cases ha
    exact switchType_unindexed hix

/-- `npa_or_update_fcn`: both aggregates are computed from the requests. -/
theorem aggregates_or : Aggregates (· ||| ·) id Index.slot npaOrUpdateFcn where
  indexed {r c before after ix a} h hix hold ha := by
    have hscan : ∀ start, scanActive (· ||| ·) (sameType c) r.clients start =
        start ||| aggregateOf (· ||| ·) id (before ++ after) ix := by
      intro start
      rw [aggregateOf, map_id, ← filter_sameType h hix]
      exact scanActive_eq ..
    have hprevious : scanActive (· ||| ·) (previousType ix) r.clients 0 =
        aggregateOf (· ||| ·) id (before ++ after) ix.other := by
      rw [aggregateOf, map_id, ← filter_previousType h hix]
      exact (scanActive_eq ..).trans UInt32.zero_or
    have hother : c.requestAttr.changedType = false → r.internalState ix.other.slot =
        aggregateOf (· ||| ·) id (before ++ after) ix.other := by
      intro hchanged
      rw [hold ix.other]
      simp [countedAt, hchanged, voted]
    simp only [npaOrUpdateFcn, internalIndex, ClientType.index?_eq_some.mpr hix,
      Option.bind_eq_bind,
      Option.bind_some, recomputeBody, hscan, hprevious] at ha
    generalize aggregateOf (· ||| ·) id (before ++ after) = others at *
    cases ha
    refine ⟨fun jx => ?_, id⟩
    dsimp only
    rcases ix.eq_or_eq_other jx with rfl | rfl
    · rw [voted, if_pos rfl]
      split
      · rw [InternalState.set_of_ne _ _ (by simp), InternalState.set_self, id]
      · rw [InternalState.set_self, id]
    · rw [voted, if_neg ix.other_ne]
      split
      · rw [InternalState.set_self]
      · next hchanged =>
        rw [InternalState.set_of_ne _ _ (by simp), hother (by simpa using hchanged)]
  unindexed hix ha := by
    simp [npaOrUpdateFcn, internalIndex, hix] at ha

/-- `npa_binary_update_fcn` counts the requests that are not zero. -/
theorem aggregates_binary : Aggregates (· + ·) nonzero Index.countSlot npaBinaryUpdateFcn where
  indexed {r c before after ix a} h hix hold ha := by
    cases ha
    obtain ⟨hstate, hpending⟩ := switchType_indexed max r (binaryBody r c) hix
    rw [hstate, hpending]
    refine ⟨fun jx => ?_, fun hzero => hzero⟩
    have hleft : ∀ kx, r.internalState.set (countedAt c ix).countSlot
        (r.internalState (countedAt c ix).countSlot - nonzero c.active) kx.countSlot =
          aggregateOf (· + ·) nonzero (before ++ after) kx :=
      fun kx => set_counted_sub Index.countSlot_inj.mp hold
    simp only [binaryBody]
    rw [InternalState.set_of_ne _ _ (by simp)]
    refine set_counted_add Index.countSlot_inj.mp fun kx => ?_
    -- the aggregate of the previous type is written in between, and no count is
    split
    · rw [InternalState.set_of_ne _ _ (by simp), hleft]
    · exact hleft kx
  unindexed hix ha := by
    cases ha
    exact switchType_unindexed hix

/-- What the binary function makes of its counts. -/
def BinarySlots (state : InternalState) (activeMax : UInt32) : Prop :=
  ∀ ix : Index, state ix.slot = binaryState activeMax (state ix.countSlot)

theorem binarySlots_updated {a : Aggregation} (h : BinarySlots r.internalState r.activeMax)
    (ha : npaBinaryUpdateFcn r c = some a) : BinarySlots a.internalState r.activeMax := by
  cases ha
  cases hix : c.type.index? with
  | none =>
    rw [switchType_unindexed hix]
    exact h
  | some ix =>
    rw [(switchType_indexed max r (binaryBody r c) (ClientType.index?_eq_some.mp hix)).1]
    intro jx
    simp only [binaryBody]
    rcases ix.eq_or_eq_other jx with rfl | rfl
    · rw [InternalState.set_self, InternalState.set_of_ne _ _ (by simp), InternalState.set_self]
    · rw [InternalState.set_of_ne _ _ (by simp), InternalState.set_of_ne _ _ (by simp),
        InternalState.set_of_ne _ _ (by simp), InternalState.set_of_ne _ _ (by simp)]
      split
      · next hchanged =>
        rw [InternalState.set_self, InternalState.set_of_ne _ _ (by simp)]
        simp [countedAt, hchanged]
      · next hchanged =>
        rw [InternalState.set_of_ne _ _ (by simp), h ix.other]
        have : countedAt c ix = ix := by simp [countedAt, hchanged]
        rw [this, InternalState.set_of_ne _ _ (by simp)]

end

end Npa
