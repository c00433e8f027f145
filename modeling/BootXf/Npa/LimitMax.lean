import BootXf.Lib.Aggregate
import BootXf.Lib.Run
import BootXf.Lib.Word
import BootXf.Npa.Operations

/-!
# The maximum of a resource

A `LIMIT_MAX` client does not vote for a state: its non-zero active request is a limit. What limits
are in force is said by the calls alone (`limitsInForce`): a client's limit is the last one that it
set, until its request is completed or cancelled or the client destroyed. The maximum of the
resource is lowered as soon as a limit below it is set, and found again by a walk over the
clients only when the client whose limit changes held it (`limitedMax`). `limitedMax_eq` shows that
both are the least of the definition's maximum and the limits, with the new limit already counted,
so that the request which then swaps the client's slots finds the maximum it leads to.
-/

namespace Npa

open Lib List

/-- The limit that a call sets for its client, zero being none. -/
def Op.newLimit : Op → Option UInt32
  | issueLimitMaxRequest _ max => some max
  | completeRequest _ | cancelRequest _ | destroyClient _ => some 0
  | _ => none

/-- The limit in force for a client after the calls so far, the newest first. -/
def limitInForce (h : Handle) : List Op → UInt32
  | [] => 0
  | op :: before =>
    if op.handle = h then op.newLimit.getD (limitInForce h before) else limitInForce h before

/-- The limits in force after the calls so far: each stands there as often as there were calls for
its client. -/
def limitsInForce (history : List Op) : List UInt32 :=
  (history.map fun op => limitInForce op.handle history).filter (· != 0)

/-- The limits that some clients hold: the non-zero requests of the `LIMIT_MAX` ones. -/
def limitsOf (clients : List Client) : List UInt32 :=
  ((clients.filter fun c => c.type == .limitMax).map (·.active)).filter (· != 0)

/-- The least of a maximum and some limits. -/
def leastLimit (maximum : UInt32) (limits : List UInt32) : UInt32 := aggregate min maximum limits

/-- One more limit, zero being none. -/
def limitWith (limit least : UInt32) : UInt32 := if limit ≠ 0 then min limit least else least

/-! ## The limits of a client list -/

section
variable {r : Resource} {c : Client} {before after : List Client} {maximum : UInt32}

theorem leastLimit_splits (h : Splits r c before after) :
    leastLimit maximum (limitsOf r.clients) =
      if c.type = .limitMax then
        limitWith c.active (leastLimit maximum (limitsOf (before ++ after)))
      else leastLimit maximum (limitsOf (before ++ after)) := by
  rw [h.clients]
  by_cases htype : c.type = .limitMax
  · by_cases hzero : c.active = 0
    · simp [limitsOf, limitWith, htype, hzero]
    · simp only [limitsOf, filter_append, filter_cons_of_pos, htype, beq_self_eq_true,
        map_append, map_cons, bne_iff_ne, ne_eq, hzero, not_false_eq_true, if_true,
        limitWith, leastLimit]
      exact aggregate_middle ..
  · simp [limitsOf, htype]

/-- One step of the walk. -/
theorem limitWith_eq (limit least : UInt32) :
    (if limit ≠ 0 ∧ limit < least then limit else least) = limitWith limit least := by
  unfold limitWith
  by_cases hzero : limit = 0
  · simp [hzero]
  · simp [hzero, uint32_min_eq]

theorem limitWith_choice (limit least : UInt32) :
    limitWith limit least = limit ∨ limitWith limit least = least := by
  rw [← limitWith_eq]
  split
  · exact .inl rfl
  · exact .inr rfl

theorem limitWith_le (limit least : UInt32) : limitWith limit least ≤ least := by
  rw [← limitWith_eq]
  split
  · next h => exact UInt32.le_of_lt h.2
  · exact UInt32.le_refl _

/-- The walk over a list whose clients hold their limits in their active slots. -/
theorem foldl_limits (clients : List Client) (start : UInt32) :
    clients.foldl (fun least x => if x.type = .limitMax then
        if x.active ≠ 0 ∧ x.active < least then x.active else least
      else least) start = leastLimit start (limitsOf clients) := by
  rw [leastLimit, ← foldl_eq_aggregate]
  induction clients generalizing start with
  | nil => rfl
  | cons x clients ih =>
    rw [foldl_cons, ih]
    by_cases htype : x.type = .limitMax
    · rw [if_pos htype, limitWith_eq]
      by_cases hzero : x.active = 0
      · simp [limitsOf, limitWith, htype, hzero]
      · have hcomm : min x.active start = min start x.active := Std.Commutative.comm ..
        simp [limitsOf, limitWith, htype, hzero, hcomm]
    · simp [limitsOf, htype]

/-- The walk finds the least limit, the client's own one being the new one. -/
theorem lowestLimit_eq (h : Splits r c before after) (htype : c.type = .limitMax) (limit : UInt32) :
    lowestLimit r c limit =
      limitWith limit (leastLimit r.definition.max (limitsOf (before ++ after))) := by
  -- the other clients are looked at as they are
  have hothers : ∀ (l : List Client) (start : UInt32), (∀ x ∈ l, x.handle ≠ c.handle) →
      l.foldl (fun activeMax maxClient =>
        if maxClient.type = .limitMax then
          let req := if maxClient.handle = c.handle then limit else maxClient.active
          if req ≠ 0 ∧ req < activeMax then req else activeMax
        else activeMax) start = leastLimit start (limitsOf l) := by
    intro l start hl
    rw [← foldl_limits]
    induction l generalizing start with
    | nil => rfl
    | cons x l ih =>
      simp only [foldl_cons, if_neg (hl x mem_cons_self)]
      exact ih _ fun y hy => hl y (mem_cons_of_mem _ hy)
  have hafter : ∀ start, leastLimit (limitWith limit start) (limitsOf after) =
      limitWith limit (leastLimit start (limitsOf after)) := by
    intro start
    unfold limitWith
    split
    · exact aggregate_op_start ..
    · rfl
  unfold lowestLimit
  rw [h.clients, foldl_append, foldl_cons,
    hothers before _ fun x hx => h.apart x (mem_append_left _ hx)]
  simp only [htype, if_true]
  rw [limitWith_eq, hothers after _ fun x hx => h.apart x (mem_append_right _ hx), hafter]
  simp only [limitsOf, filter_append, map_append, leastLimit]
  rw [← foldl_eq_aggregate, ← foldl_eq_aggregate, ← foldl_eq_aggregate, foldl_append]

/-- The maximum of a resource is the least of the definition's maximum and the limits held. -/
def Resource.MaxInForce (r : Resource) : Prop :=
  r.activeMax = leastLimit r.definition.max (limitsOf r.clients)

/-- **The two ways of setting the maximum agree**: the new limit takes the place of the client's
old one, whether it is taken over at once, the walk is made, or the maximum is left alone. -/
theorem limitedMax_eq (h : Splits r c before after) (htype : c.type = .limitMax)
    (hmax : r.MaxInForce) (limit : UInt32) :
    limitedMax r c limit =
      limitWith limit (leastLimit r.definition.max (limitsOf (before ++ after))) := by
  rw [Resource.MaxInForce, leastLimit_splits h, if_pos htype] at hmax
  rw [limitedMax, lowestLimit_eq h htype, hmax]
  generalize leastLimit r.definition.max (limitsOf (before ++ after)) = others
  split
  · -- below the maximum, so below the other limits
    next hlow =>
    have hle := limitWith_le c.active others
    rw [← limitWith_eq, if_pos ⟨hlow.1, UInt32.lt_of_lt_of_le hlow.2 hle⟩]
  · next hlow =>
    split
    · rfl
    · next hheld =>
      -- the client did not hold the maximum, so the others did
      have hothers : limitWith c.active others = others :=
        (limitWith_choice c.active others).resolve_left fun h => hheld h.symm
      rw [hothers] at hlow ⊢
      rw [← limitWith_eq, if_neg hlow]

end

/-! ## The maximum over a step -/

section
variable {plugin : Plugin} {driver : Driver} {r s : Resource} {op : Op} {c : Client}
  {before after : List Client}

/-- The maximum that a call sets, its client's pending request being the new limit. -/
theorem Op.newMax_eq (hissue : op.issues = true) (hacc : op.Accepts plugin r c)
    (h : Splits r c before after) (hmax : r.MaxInForce) :
    op.newMax r c =
      if c.type = .limitMax then
        limitWith (op.prepared c).pending
          (leastLimit r.definition.max (limitsOf (before ++ after)))
      else leastLimit r.definition.max (limitsOf (before ++ after)) := by
  have hkept : c.type ≠ .limitMax →
      r.activeMax = leastLimit r.definition.max (limitsOf (before ++ after)) := by
    intro htype
    rw [hmax, leastLimit_splits h, if_neg htype]
  cases op with
  | createSyncClient | setRequestAttribute => cases hissue
  | issueLimitMaxRequest h' limit =>
    have htype : c.type = .limitMax := hacc
    have hpending : ((Op.issueLimitMaxRequest h' limit).prepared c).pending = limit :=
      Client.setPending_pending ..
    rw [if_pos htype, hpending]
    exact limitedMax_eq h htype hmax limit
  | completeRequest | cancelRequest | destroyClient =>
    simp only [Op.newMax, Op.prepared, Client.setPending_pending]
    split
    · next htype => exact limitedMax_eq h htype hmax 0
    · next htype => exact hkept htype
  | issueScalarRequest | issueScalarRequestUnconditional =>
    have htype : c.type ≠ .limitMax := hacc
    rw [if_neg htype]
    exact hkept htype
  | modifyRequiredRequest | issueImpulseRequest | issueInternalRequest =>
    have htype : c.type ≠ .limitMax := fun hlim => by cases hacc.symm.trans hlim
    rw [if_neg htype]
    exact hkept htype
  | setClientTypeRequired | setClientTypeSuppressible =>
    have htype : c.type ≠ .limitMax := fun hlim => by cases hacc.1.symm.trans hlim
    rw [if_neg htype]
    exact hkept htype

/-- A redundant limit is the one in force. -/
theorem Op.pending_of_not_new (hissue : op.issues = true) (hacc : op.Accepts plugin r c)
    (htype : c.type = .limitMax) (hnew : op.isNew c = false) :
    (op.prepared c).pending = c.active := by
  cases op with
  | createSyncClient | setRequestAttribute => cases hissue
  | issueLimitMaxRequest =>
    rw [Op.prepared, Client.setPending_pending]
    simpa [Op.isNew] using hnew
  | completeRequest | cancelRequest | destroyClient =>
    simp only [Op.prepared, Client.setPending_pending]
    exact Eq.symm (by simpa [Op.isNew] using hnew)
  | issueScalarRequest | issueScalarRequestUnconditional => exact absurd htype hacc
  | modifyRequiredRequest | issueImpulseRequest | issueInternalRequest =>
    cases hacc.symm.trans htype
  | setClientTypeRequired | setClientTypeSuppressible => cases hacc.1.symm.trans htype

/-- A call neither makes a `LIMIT_MAX` client of another one nor the other way round. -/
theorem Op.prepared_limitMax (hacc : op.Accepts plugin r c) :
    (op.prepared c).type = .limitMax ↔ c.type = .limitMax := by
  cases op with
  | setClientTypeRequired | setClientTypeSuppressible => simp [Op.prepared, hacc.1]
  | _ => rfl

/-- The end of a call, once the client has been written back: the maximum fits the limits, and an
unlinked client has none. -/
theorem maxInForce_unlink {t : Resource} {cf : Client} (h : Splits t cf before after)
    (hh : cf.handle = op.handle)
    (hmax : t.activeMax =
      if cf.type = .limitMax then
        limitWith cf.active (leastLimit t.definition.max (limitsOf (before ++ after)))
      else leastLimit t.definition.max (limitsOf (before ++ after)))
    (hgone : op.unlink t ≠ t → cf.type = .limitMax → cf.active = 0) :
    (op.unlink t).MaxInForce := by
  rw [Resource.MaxInForce, Op.unlink_activeMax, Op.unlink_definition]
  by_cases hun : op.unlink t = t
  · rw [hun, leastLimit_splits h, hmax]
  · rw [(Op.unlink_cases h hh).resolve_right hun, hmax]
    split
    · next htype => simp [limitWith, hgone hun htype]
    · rfl

/-- A redundant request leaves the maximum alone, whichever way it is set. -/
theorem Op.newMax_of_redundant (hissue : op.issues = true) (hacc : op.Accepts plugin r c)
    (h : Splits r c before after) (hmax : r.MaxInForce) (hnew : op.isNew c = false) :
    op.newMax r c = r.activeMax := by
  rw [op.newMax_eq hissue hacc h hmax, hmax, leastLimit_splits h]
  split
  · next htype => rw [op.pending_of_not_new hissue hacc htype hnew]
  · rfl

/-- **One step of the maximum.** -/
theorem Resource.MaxInForce.effect (hd : r.Distinct) (hmax : r.MaxInForce)
    (he : op.Effect plugin r s) : s.MaxInForce := by
  cases he with
  | refused => exact hmax
  | @created h type =>
    have hnew : limitsOf (Client.new h type :: r.clients) = limitsOf r.clients := by
      cases type <;> simp [limitsOf, Client.new, Client.active]
    rw [Resource.MaxInForce, hnew]
    exact hmax
  | @attributed h attr c hc =>
    obtain ⟨before, after, hsplit, hput, -⟩ :=
      Op.splits_put hd hc r rfl (npaSetRequestAttribute c attr) rfl
    rw [Resource.MaxInForce, leastLimit_splits hput]
    rw [Resource.MaxInForce, leastLimit_splits hsplit] at hmax
    exact hmax
  | @redundant op c hissue hc hacc hreach =>
    have hnew := Client.not_new_of_not_reaches hreach
    obtain ⟨before, after, hsplit, hput, hh⟩ := Op.splits_put hd hc
      { r with activeMax := op.newMax r c } rfl (op.prepared c).redundant (Op.prepared_handle ..)
    have hactive : (op.prepared c).redundant.active = c.active := op.prepared_active c
    refine maxInForce_unlink hput hh ?_ fun hun htype => ?_
    · show op.newMax r c = _
      rw [op.newMax_eq hissue hacc hsplit hmax, Client.redundant_type, hactive]
      simp only [op.prepared_limitMax hacc]
      split
      · next htype => rw [op.pending_of_not_new hissue hacc htype hnew]; rfl
      · rfl
    · obtain ⟨h, rfl⟩ := Op.of_unlink_ne hun
      rw [hactive]
      simpa [Op.isNew] using hnew
  | @served op c a r' c' hissue hc hacc hreach ha hserved =>
    obtain ⟨before, after, hsplit, -, hput, hh⟩ := Op.splits_served hd hc hserved
    have htype : c'.type = .limitMax ↔ c.type = .limitMax := by
      rw [hserved.type, op.prepared_limitMax hacc]
    have hactive : c.type = .limitMax → c'.active = (op.prepared c).pending := fun hlim =>
      hserved.active.trans (plugin.keepsLimits ((op.prepared_limitMax hacc).mpr hlim) ha)
    refine maxInForce_unlink hput hh ?_ fun hun hlim => ?_
    · show r'.activeMax = _
      rw [hserved.activeMax, show (r'.put c').definition = r.definition from hserved.definition,
        op.newMax_eq hissue hacc hsplit hmax]
      simp only [htype]
      split
      · next hlim => rw [hactive hlim]
      · rfl
    · obtain ⟨h, rfl⟩ := Op.of_unlink_ne hun
      rw [hactive (htype.mp hlim)]
      exact Client.setPending_pending ..

/-- **What one step hands to the driver**: at most one state, the least of the aggregated request
and the maximum that the step leaves behind, and the headroom is then their difference. -/
theorem Op.Effect.driven (he : op.Effect plugin r s) :
    s.driverCalls = r.driverCalls ∨
      s.driverCalls = ⟨min s.requestState s.activeMax, s.requestState, s.activeMax⟩ ::
        r.driverCalls ∧
        s.activeHeadroom = (s.requestState - s.activeMax).toInt32 := by
  cases he with
  | refused | created | attributed => exact .inl rfl
  | redundant => exact .inl (Op.unlink_driverCalls ..)
  | served hissue hc hacc hreach ha hserved =>
    simp only [Op.unlink_driverCalls, Op.unlink_requestState, Op.unlink_activeMax,
      Op.unlink_activeHeadroom]
    refine hserved.driverCalls.imp id fun hcalls => ⟨?_, ?_⟩
    · exact hcalls.trans (by rw [← hserved.requestState, ← hserved.activeMax]; rfl)
    · exact hserved.activeHeadroom.trans (by rw [← hserved.requestState, ← hserved.activeMax]; rfl)

/-- The headroom fits, or the resource is still as it was created. -/
def Resource.HeadroomFits (definition : Definition) (initState : UInt32) (r : Resource) : Prop :=
  r.activeHeadroom = (r.requestState - r.activeMax).toInt32 ∨
    r.driverCalls = [] ∧ r.requestState = 0 ∧ r.activeMax = definition.max ∧
      r.activeHeadroom = (initState - definition.max).toInt32

theorem Resource.HeadroomFits.effect {definition : Definition} {initState : UInt32}
    (hd : r.Distinct) (hmax : r.MaxInForce) (hfits : r.HeadroomFits definition initState)
    (he : op.Effect plugin r s) : s.HeadroomFits definition initState := by
  cases he with
  | refused | created | attributed => exact hfits
  | @redundant op c hissue hc hacc hreach =>
    obtain ⟨-, before, after, hsplit⟩ := hd.splits hc
    have hkept := op.newMax_of_redundant hissue hacc hsplit hmax
      (Client.not_new_of_not_reaches hreach)
    simp only [Resource.HeadroomFits, Op.unlink_driverCalls, Op.unlink_requestState,
      Op.unlink_activeMax, Op.unlink_activeHeadroom, Resource.put, hkept]
    exact hfits
  | served hissue hc hacc hreach ha hserved =>
    refine .inl ?_
    simp only [Op.unlink_requestState, Op.unlink_activeMax, Op.unlink_activeHeadroom]
    exact hserved.activeHeadroom.trans (by rw [← hserved.requestState, ← hserved.activeMax]; rfl)

theorem Op.Effect.definition (he : op.Effect plugin r s) : s.definition = r.definition := by
  cases he with
  | refused | created | attributed => rfl
  | redundant => exact Op.unlink_definition ..
  | served _ _ _ _ _ hserved => exact (Op.unlink_definition ..).trans hserved.definition

end

/-! ## Limits held and limits in force -/

/-- The limit that a client holds. -/
def Client.limit (c : Client) : UInt32 := if c.type = .limitMax then c.active else 0

/-- The limit that the client at an address holds. -/
def Resource.limitAt (r : Resource) (h : Handle) : UInt32 := ((r.client? h).map (·.limit)).getD 0

section
variable {plugin : Plugin} {r s t : Resource} {op : Op} {c cf : Client} {before after : List Client}
  {history : List Op}

/-- The limit at an address: that of the client, or of one of the others. -/
theorem Splits.limitAt (h : Splits r c before after) (k : Handle) :
    r.limitAt k = if c.handle = k then c.limit
      else (((before ++ after).find? (·.handle == k)).map (·.limit)).getD 0 := by
  rw [Resource.limitAt, Resource.client?, h.clients, find?_append, find?_append]
  split
  · next hk =>
    have hbefore : before.find? (·.handle == k) = none := by
      refine find?_eq_none.mpr fun x hx => ?_
      simpa [← hk] using h.apart x (mem_append_left _ hx)
    rw [hbefore, find?_cons_of_pos (by simpa using hk)]
    rfl
  · next hk => rw [find?_cons_of_neg (by simpa using hk)]

/-- The end of a call, once the client has been written back. -/
theorem limitAt_unlink (hr : Splits r c before after) (ht : Splits t cf before after)
    (hh : c.handle = op.handle) (hf : cf.handle = op.handle)
    (hlimit : cf.limit = op.newLimit.getD c.limit) (k : Handle) :
    (op.unlink t).limitAt k =
      if op.handle = k then op.newLimit.getD (r.limitAt k) else r.limitAt k := by
  have hkept : t.limitAt k =
      if op.handle = k then op.newLimit.getD (r.limitAt k) else r.limitAt k := by
    rw [ht.limitAt, hr.limitAt, hh, hf]
    split
    · exact hlimit
    · rfl
  by_cases hun : op.unlink t = t
  · rw [hun]
    exact hkept
  · obtain ⟨h', rfl⟩ := Op.of_unlink_ne hun
    have hclients := (Op.unlink_cases ht hf).resolve_right hun
    by_cases hk : (Op.destroyClient h').handle = k
    · have hnone : (before ++ after).find? (·.handle == k) = none := by
        refine find?_eq_none.mpr fun x hx => ?_
        have hne : x.handle ≠ k := (hf.trans hk) ▸ ht.apart x hx
        simpa using hne
      rw [Resource.limitAt, Resource.client?, hclients, hnone, if_pos hk]
      rfl
    · rw [Resource.limitAt, Resource.client?, hclients, hr.limitAt, hh, if_neg hk, if_neg hk]

/-- What a call sets for a `LIMIT_MAX` client is the request that it issues. -/
theorem Op.newLimit_eq (hissue : op.issues = true) (hacc : op.Accepts plugin r c)
    (htype : c.type = .limitMax) : op.newLimit = some (op.prepared c).pending := by
  cases op with
  | createSyncClient | setRequestAttribute => cases hissue
  | issueLimitMaxRequest | completeRequest | cancelRequest | destroyClient =>
    simp [Op.newLimit, Op.prepared]
  | issueScalarRequest | issueScalarRequestUnconditional => exact absurd htype hacc
  | modifyRequiredRequest | issueImpulseRequest | issueInternalRequest =>
    cases hacc.symm.trans htype
  | setClientTypeRequired | setClientTypeSuppressible => cases hacc.1.symm.trans htype

/-- No call sets a limit for another client. -/
theorem Op.newLimit_other (hacc : op.Accepts plugin r c) (htype : c.type ≠ .limitMax) :
    op.newLimit.getD 0 = 0 := by
  cases op with
  | issueLimitMaxRequest => exact absurd hacc htype
  | _ => rfl

/-- The limit that a client holds after its call has been issued. -/
theorem limit_of_issued (hissue : op.issues = true) (hacc : op.Accepts plugin r c)
    (htype : cf.type = .limitMax ↔ c.type = .limitMax)
    (hactive : c.type = .limitMax → cf.active = (op.prepared c).pending) :
    cf.limit = op.newLimit.getD c.limit := by
  unfold Client.limit
  by_cases hlim : c.type = .limitMax
  · rw [if_pos (htype.mpr hlim), hactive hlim, op.newLimit_eq hissue hacc hlim]
    rfl
  · rw [if_neg (mt htype.mp hlim), if_neg hlim, op.newLimit_other hacc hlim]

/-- **One step of the limits**: a call changes the limit of its client alone, to the one it sets. -/
theorem Op.Effect.limitAt (hd : r.Distinct) (he : op.Effect plugin r s) (k : Handle) :
    s.limitAt k = if op.handle = k then op.newLimit.getD (r.limitAt k) else r.limitAt k := by
  cases he with
  | refused => exact (ite_self _).symm
  | @created h type _ hnone =>
    refine Eq.trans ?_ (ite_self _).symm
    rw [Resource.limitAt, Resource.client?]
    by_cases hk : h = k
    · rw [find?_cons_of_pos (by simpa [Client.new] using hk), Resource.limitAt, ← hk, hnone]
      cases type <;> rfl
    · rw [find?_cons_of_neg (by simpa [Client.new] using hk)]
      rfl
  | @attributed h attr c hc =>
    obtain ⟨before, after, hsplit, hput, -⟩ :=
      Op.splits_put hd hc r rfl (npaSetRequestAttribute c attr) rfl
    refine Eq.trans ?_ (ite_self _).symm
    rw [hput.limitAt, hsplit.limitAt]
    rfl
  | @redundant op c hissue hc hacc hreach =>
    have hnew := Client.not_new_of_not_reaches hreach
    obtain ⟨before, after, hsplit, hput, hh⟩ := Op.splits_put hd hc
      { r with activeMax := op.newMax r c } rfl (op.prepared c).redundant (Op.prepared_handle ..)
    refine limitAt_unlink hsplit hput ((Op.prepared_handle op c).symm.trans hh) hh
      (limit_of_issued hissue hacc (op.prepared_limitMax hacc) fun hlim => ?_) k
    rw [op.pending_of_not_new hissue hacc hlim hnew]
    exact op.prepared_active c
  | @served op c a r' c' hissue hc hacc hreach ha hserved =>
    obtain ⟨before, after, hsplit, -, hput, hh⟩ := Op.splits_served hd hc hserved
    have hhc : c.handle = op.handle := (hd.splits hc).1
    refine limitAt_unlink hsplit hput hhc hh (limit_of_issued hissue hacc ?_ fun hlim => ?_) k
    · rw [hserved.type, op.prepared_limitMax hacc]
    · exact hserved.active.trans (plugin.keepsLimits ((op.prepared_limitMax hacc).mpr hlim) ha)

/-- A client with a limit in force has been called. -/
theorem called_of_limitInForce {k : Handle} (h : limitInForce k history ≠ 0) :
    ∃ op ∈ history, op.handle = k := by
  induction history with
  | nil => exact absurd rfl h
  | cons op history ih =>
    by_cases hk : op.handle = k
    · exact ⟨op, mem_cons_self, hk⟩
    · rw [limitInForce, if_neg hk] at h
      obtain ⟨op', hmem, hk⟩ := ih h
      exact ⟨op', mem_cons_of_mem _ hmem, hk⟩

/-- A client is found at its address. -/
theorem client?_of_mem (hd : r.Distinct) (hc : c ∈ r.clients) : r.client? c.handle = some c := by
  cases hfind : r.client? c.handle with
  | none => exact absurd (find?_eq_none.mp hfind c hc) (by simp)
  | some d =>
    obtain ⟨hh, before, after, hsplit⟩ := hd.splits hfind
    rw [hsplit.clients, mem_append, mem_cons] at hc
    rcases hc with hc | rfl | hc
    · exact absurd hh.symm (hsplit.apart c (mem_append_left _ hc))
    · rfl
    · exact absurd hh.symm (hsplit.apart c (mem_append_right _ hc))

/-- **The limits held are those in force.** -/
theorem mem_limitsOf_iff (hd : r.Distinct)
    (h : ∀ k, r.limitAt k = limitInForce k history) (x : UInt32) :
    x ∈ limitsOf r.clients ↔ x ∈ limitsInForce history := by
  simp only [limitsOf, limitsInForce, mem_filter, mem_map, bne_iff_ne, ne_eq,
    beq_iff_eq]
  constructor
  · rintro ⟨⟨c, ⟨hc, htype⟩, rfl⟩, hne⟩
    have hfind : r.client? c.handle = some c := client?_of_mem hd hc
    have hlimit : limitInForce c.handle history = c.active := by
      rw [← h, Resource.limitAt, hfind]
      exact if_pos htype
    obtain ⟨op, hop, hh⟩ := called_of_limitInForce (hlimit ▸ hne)
    exact ⟨⟨op, hop, hh ▸ hlimit⟩, hne⟩
  · rintro ⟨⟨op, -, rfl⟩, hne⟩
    refine ⟨?_, hne⟩
    rw [← h, Resource.limitAt] at hne ⊢
    cases hfind : r.client? op.handle with
    | none =>
      rw [hfind] at hne
      exact absurd rfl hne
    | some c =>
      rw [hfind] at hne
      by_cases htype : c.type = .limitMax
      · exact ⟨c, ⟨mem_of_find?_eq_some hfind, htype⟩, (if_pos htype).symm⟩
      · exact absurd (if_neg htype) hne

end

/-! ## The maximum over a run -/

/-- What holds of the maximum in every state of a run. -/
structure Resource.Limited (definition : Definition) (initState : UInt32)
    (r : Resource) : Prop where
  defined : r.definition = definition
  distinct : r.Distinct
  maxInForce : r.MaxInForce
  headroom : r.HeadroomFits definition initState
  driven : ∀ call ∈ r.driverCalls, call.state = min call.requestState call.activeMax

section
variable {plugin : Plugin} {driver : Driver} {definition : Definition} {initState answer : UInt32}

theorem Resource.limited_create :
    (Resource.create definition initState answer).Limited definition initState where
  defined := rfl
  distinct := nodup_nil
  maxInForce := rfl
  headroom := .inr ⟨rfl, rfl, rfl, rfl⟩
  driven _ h := by cases h

theorem Resource.Limited.step {r s : Resource} {op : Op} (h : r.Limited definition initState)
    (hs : ClientStep plugin driver r op s) : s.Limited definition initState := by
  have he := Op.effect hs.1 hs.2
  refine ⟨he.definition.trans h.defined, he.distinct h.distinct,
    h.maxInForce.effect h.distinct he, h.headroom.effect h.distinct h.maxInForce he, ?_⟩
  rcases he.driven with hcalls | ⟨hcalls, -⟩
  · rw [hcalls]
    exact h.driven
  · intro call hcall
    rw [hcalls] at hcall
    rcases mem_cons.mp hcall with rfl | hcall
    · rfl
    · exact h.driven call hcall

/-- Over a run the limits held are those that the calls have set. -/
theorem limitAt_of_run {h : List Op} {r : Resource}
    (run : Run (ClientStep plugin driver) (Resource.create definition initState answer) h r)
    (k : Handle) : r.limitAt k = limitInForce k h := by
  induction run with
  | start => rfl
  | @step h s t op run hs ih =>
    have hlim : s.Limited definition initState :=
      run.state_invariant Resource.limited_create fun hl hs => hl.step hs
    rw [(Op.effect hs.1 hs.2).limitAt hlim.distinct, ih, limitInForce]

/-- **The law of the maximum.** From the creation of a scalar resource on, whatever limits are set,
cancelled and destroyed between other requests, the maximum is the least of the definition's
maximum and the non-zero limits that these calls leave in force. Every state that a call hands to
the driver is the least of the aggregated request and the maximum it leaves behind, and the
headroom is then the difference of the two; it stays so once the driver has been called, and from
the start where the initial state is zero. -/
theorem limit_max_law {h : List Op} {r : Resource}
    (run : Run (ClientStep plugin driver) (Resource.create definition initState answer) h r) :
    r.activeMax = leastLimit definition.max (limitsInForce h) ∧
    (∀ call ∈ r.driverCalls, call.state = min call.requestState call.activeMax) ∧
    (r.driverCalls ≠ [] ∨ initState = 0 →
      r.activeHeadroom = (r.requestState - r.activeMax).toInt32) ∧
    ∀ op s, ClientStep plugin driver r op s →
      s.driverCalls = r.driverCalls ∨
      s.driverCalls = ⟨min s.requestState s.activeMax, s.requestState, s.activeMax⟩ ::
        r.driverCalls ∧
        s.activeHeadroom = (s.requestState - s.activeMax).toInt32 := by
  have hlim : r.Limited definition initState :=
    run.state_invariant Resource.limited_create fun hl hs => hl.step hs
  refine ⟨?_, hlim.driven, ?_, fun op s hs => (Op.effect hs.1 hs.2).driven⟩
  · rw [← hlim.defined, hlim.maxInForce]
    exact aggregate_congr _ _ (mem_limitsOf_iff hlim.distinct (limitAt_of_run run))
  · intro hstart
    rcases hlim.headroom with hfits | ⟨hcalls, hreq, hmax, hhead⟩
    · exact hfits
    · have hinit : initState = 0 := hstart.resolve_left fun hne => hne hcalls
      rw [hhead, hreq, hmax, hinit]

end

/-- Two clients set limits of five and three after another one has requested eight. The limit of
three is cancelled, the client with that of five destroyed, and a limit of seven set. -/
def limitsComeAndGo : List Op :=
  [.createSyncClient 1 .limitMax, .createSyncClient 2 .required, .createSyncClient 3 .limitMax,
    .issueScalarRequest 2 8, .issueLimitMaxRequest 1 5, .issueLimitMaxRequest 3 3,
    .cancelRequest 3, .destroyClient 1, .issueLimitMaxRequest 3 7]

/-- A resource with a maximum of ten, under those calls. -/
theorem limit_max_law_five : ∃ r : Resource,
    Run (ClientStep npaMaxPlugin fun _ _ state => state)
      (Resource.create ⟨10, ⟨false, false, false, false⟩, 0⟩ 0 0) limitsComeAndGo.reverse r ∧
    r.driverCalls =
      [⟨7, 8, 7⟩, ⟨8, 8, 10⟩, ⟨5, 8, 5⟩, ⟨3, 8, 3⟩, ⟨5, 8, 5⟩, ⟨8, 8, 10⟩] ∧
    r.activeMax = leastLimit 10 (limitsInForce limitsComeAndGo.reverse) ∧
    leastLimit 10 (limitsInForce limitsComeAndGo.reverse) = 7 := by
  have hexec : (execute (clientStep npaMaxPlugin fun _ _ state => state)
      (Resource.create ⟨10, ⟨false, false, false, false⟩, 0⟩ 0 0) limitsComeAndGo).map
        (·.driverCalls) =
      some [⟨7, 8, 7⟩, ⟨8, 8, 10⟩, ⟨5, 8, 5⟩, ⟨3, 8, 3⟩, ⟨5, 8, 5⟩, ⟨8, 8, 10⟩] := by
    decide +kernel
  obtain ⟨r, hr, hcalls⟩ := Option.map_eq_some_iff.mp hexec
  have run := Run.of_execute_start ClientStep.of_eq_some hr
  exact ⟨r, run, hcalls, (limit_max_law run).1, by decide +kernel⟩

end Npa
