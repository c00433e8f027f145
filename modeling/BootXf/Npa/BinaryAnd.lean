import BootXf.Npa.AggregationReference

/-!
# The binary-and plugin

The binary-and function computes the aggregate of the type that a request is for from all clients of
the type, and never looks at the other one. `AndFits` is what its aggregates are then worth along a
run whose calls are all `AndVote`s.
-/

namespace Npa

open Lib List Option

/-- No client behind an index that has requested is at zero. -/
def AllOn (clients : List Client) (ix : Index) : Prop :=
  ∀ x ∈ clients, x.type = ix.clientType → x.Requested → x.active ≠ 0

/-- A one for yes and a zero for no. -/
def Truth (v : UInt32) (p : Prop) : Prop := (p → v = 1) ∧ (¬ p → v = 0)

theorem Truth.congr {v : UInt32} {p q : Prop} (h : Truth v p) (hpq : p ↔ q) : Truth v q :=
  ⟨fun hq => h.1 (hpq.mpr hq), fun hq => h.2 fun hp => hq (hpq.mp hp)⟩

/-! ## Conjunction over a list -/

/-- The scan of the binary-and function. -/
def andScan (start : UInt32) (l : List UInt32) : UInt32 :=
  l.foldl (fun acc request => acc &&& nonzero request) start

/-- A zero stays zero. -/
theorem andScan_zero (l : List UInt32) : andScan 0 l = 0 := by
  induction l with
  | nil => rfl
  | cons x l ih =>
    rw [andScan, foldl_cons, UInt32.zero_and]
    exact ih

/-- One zero makes the result zero. -/
theorem andScan_of_zero_mem {l : List UInt32} (h : 0 ∈ l) (start : UInt32) :
    andScan start l = 0 := by
  induction l generalizing start with
  | nil => cases h
  | cons x l ih =>
    rw [andScan, foldl_cons]
    rcases mem_cons.mp h with rfl | h
    · rw [nonzero, if_pos rfl, UInt32.and_zero]
      exact andScan_zero l
    · exact ih h _

/-- Without a zero the lowest bit is left. -/
theorem andScan_of_nonzero {l : List UInt32} (h : ∀ x ∈ l, x ≠ 0) (start : UInt32) :
    andScan start l = if l = [] then start else start &&& 1 := by
  induction l generalizing start with
  | nil => rfl
  | cons x l ih =>
    rw [andScan, foldl_cons, nonzero, if_neg (h x mem_cons_self)]
    refine (ih (fun y hy => h y (mem_cons_of_mem _ hy)) _).trans ?_
    split
    · rfl
    · simp [UInt32.and_assoc]

/-! ## The function -/

section
variable {r : Resource} {c : Client} {before after : List Client} {ix jx : Index} {a : Aggregation}

/-- **What the binary-and function computes.** -/
theorem npaBinaryAndUpdateFcn_spec (h : Splits r c before after) (hix : c.type = ix.clientType)
    (ha : npaBinaryAndUpdateFcn r c = some a) :
    a.pending = c.pending ∧
    a.internalState ix.slot = andScan c.pending (requestsOf (before ++ after) ix) ∧
    a.internalState ix.other.slot =
      if c.requestAttr.changedType then 0
      else if r.sequence = 0 then 1 else r.internalState ix.other.slot := by
  have hscan : ∀ start, scanActive (fun acc request => acc &&& nonzero request) (sameType c)
      r.clients start = andScan start (requestsOf (before ++ after) ix) := by
    intro start
    rw [scanActive_eq_foldl, filter_sameType h hix]
    rfl
  have hprevious : scanActive (fun acc request => acc &&& nonzero request) (previousType ix)
      r.clients 0 = 0 := by
    rw [scanActive_eq_foldl]
    exact andScan_zero _
  have hseed : ((r.internalState.set Index.required.slot 1).set Index.suppressible.slot 1)
      ix.other.slot = 1 := by
    cases ix <;> rfl
  simp only [npaBinaryAndUpdateFcn, internalIndex, ClientType.index?_eq_some.mpr hix,
    bind_eq_bind, bind_some, recomputeBody, hscan, hprevious] at ha
  cases ha
  refine ⟨rfl, ?_, ?_⟩
  · dsimp only
    split
    · rw [InternalState.set_of_ne _ _ (by simp), InternalState.set_self]
    · rw [InternalState.set_self]
  · dsimp only
    split
    · rw [InternalState.set_self]
    · rw [InternalState.set_of_ne _ _ (by simp)]
      split
      · exact hseed
      · rfl

/-- A request that reduces is worth the conjunction. -/
theorem truth_andScan {request : UInt32} {others : List Client} (h : AndReduces request others) :
    Truth (andScan request (others.map (·.active)))
      (request ≠ 0 ∧ ∀ x ∈ others, x.Requested → x.active ≠ 0) := by
  rcases h with rfl | ⟨x, hx, hreq, hzero⟩ | ⟨hall, hone⟩
  · rw [andScan_zero]
    exact ⟨fun hp => absurd rfl hp.1, fun _ => rfl⟩
  · rw [andScan_of_zero_mem (List.mem_map.mpr ⟨x, hx, hzero⟩)]
    exact ⟨fun hp => absurd hzero (hp.2 x hx hreq), fun _ => rfl⟩
  · have hactive : ∀ v ∈ others.map (·.active), v ≠ 0 := by
      intro v hv
      obtain ⟨x, hx, rfl⟩ := List.mem_map.mp hv
      exact hall x hx
    have hne : request ≠ 0 := by
      rintro rfl
      rcases hone with hone | ⟨-, hone⟩ <;> cases hone
    have hval : andScan request (others.map (·.active)) = 1 := by
      rw [andScan_of_nonzero hactive]
      rcases hone with rfl | ⟨hothers, hone⟩
      · split <;> rfl
      · rw [if_neg (by simpa using hothers), hone]
    exact ⟨fun _ => hval, fun hp => absurd ⟨hne, fun x hx _ => hall x hx⟩ hp⟩

end

/-! ## The clients behind an index -/

section
variable {r : Resource} {c : Client} {before after : List Client} {ix : Index}

theorem othersAt_splits (h : Splits r c before after) (ix : Index) :
    othersAt r c ix = (before ++ after).filter fun x => x.type == ix.clientType := by
  rw [othersAt, ← h.unlink, List.filter_filter]
  exact filter_congr fun x _ => Bool.and_comm ..

theorem allOn_splits (h : Splits r c before after) (ix : Index) :
    AllOn r.clients ix ↔
      (c.type = ix.clientType → c.Requested → c.active ≠ 0) ∧ AllOn (before ++ after) ix := by
  rw [h.clients]
  constructor
  · intro hall
    refine ⟨hall c (by simp), fun x hx => hall x ?_⟩
    simp only [mem_append, mem_cons] at hx ⊢
    exact hx.imp id .inr
  · rintro ⟨hc, hall⟩ x hx
    simp only [mem_append, mem_cons] at hx
    rcases hx with hx | rfl | hx
    · exact hall x (mem_append_left _ hx)
    · exact hc
    · exact hall x (mem_append_right _ hx)

theorem allOn_othersAt (h : Splits r c before after) :
    AllOn (before ++ after) ix ↔ ∀ x ∈ othersAt r c ix, x.Requested → x.active ≠ 0 := by
  rw [othersAt_splits h]
  simp only [AllOn, mem_filter, beq_iff_eq, and_imp]

/-- A client at zero among the others. -/
theorem not_allOn_others (h : Splits r c before after)
    (hx : ∃ x ∈ othersAt r c ix, x.Requested ∧ x.active = 0) : ¬ AllOn (before ++ after) ix := by
  obtain ⟨x, hmem, hreq, hzero⟩ := hx
  exact fun hall => (allOn_othersAt h).mp hall x hmem hreq hzero

end

/-! ## A run of the binary-and plugin -/

/-- The aggregates of the binary-and plugin are the conjunctions, from the first request on, and a
client that has not requested will have its first request processed. -/
structure AndFits (r : Resource) : Prop where
  aggregates : r.sequence ≠ 0 → ∀ ix : Index, Truth (r.internalState ix.slot) (AllOn r.clients ix)
  unseeded : r.sequence = 0 → (∀ ix : Index, r.internalState ix.slot = 0) ∧
    ∀ c ∈ r.clients, ¬ c.Requested
  fresh : ∀ c ∈ r.clients, ¬ c.Requested → c.active = 0 ∧ c.issueRequest = .syncUnconditional

section
variable {r s : Resource} {op : Op} {c cf : Client} {before after : List Client}

theorem Splits.mem_of_others {x : Client} (h : Splits r c before after) (hx : x ∈ before ++ after) :
    x ∈ r.clients := by
  rw [h.clients]
  simp only [mem_append, mem_cons] at hx ⊢
  exact hx.imp id .inr

/-- The end of a call that leaves its client requested, or unlinks it. -/
theorem andFits_finish {t : Resource} (hfits : AndFits r) (hr : Splits r c before after)
    (ht : Splits t cf before after) (hh : cf.handle = op.handle) (hseq : t.sequence ≠ 0)
    (hreq : op.unlink t = t → cf.Requested)
    (hkept : ∀ ix : Index, Truth (t.internalState ix.slot) (AllOn t.clients ix))
    (hgone : op.unlink t ≠ t → ∀ ix, AllOn (before ++ after) ix → AllOn t.clients ix) :
    AndFits (op.unlink t) := by
  have hseq' : (op.unlink t).sequence ≠ 0 := by rwa [Op.unlink_sequence]
  have hothers : ∀ x ∈ before ++ after, ¬ x.Requested →
      x.active = 0 ∧ x.issueRequest = .syncUnconditional :=
    fun x hx => hfits.fresh x (hr.mem_of_others hx)
  by_cases hun : op.unlink t = t
  · rw [hun]
    refine ⟨fun _ => hkept, fun h => absurd h hseq, fun x hx hnot => ?_⟩
    rw [ht.clients] at hx
    simp only [mem_append, mem_cons] at hx
    rcases hx with hx | rfl | hx
    · exact hothers x (mem_append_left _ hx) hnot
    · exact absurd (hreq hun) hnot
    · exact hothers x (mem_append_right _ hx) hnot
  · have hclients := (op.unlink_cases ht hh).resolve_right hun
    refine ⟨fun _ ix => ?_, fun h => absurd h hseq', fun x hx hnot => ?_⟩
    · rw [Op.unlink_internalState, hclients]
      exact (hkept ix).congr ⟨fun hall => ((allOn_splits ht ix).mp hall).2, hgone hun ix⟩
    · rw [hclients] at hx
      exact hothers x hx hnot

/-- A client that has not requested has its first request processed, unless it is destroyed. -/
theorem Op.reaches_of_fresh (hnew : c.sequence = 0) (hissue : c.issueRequest = .syncUnconditional)
    (hdestroy : ∀ h, op ≠ .destroyClient h) (new : Bool) : (op.prepared c).reaches new = true := by
  have hpointer : (op.prepared c).issueRequest = .syncUnconditional := by
    cases op with
    | destroyClient h => exact absurd rfl (hdestroy h)
    | _ => exact hissue
  rw [Client.reaches, hpointer, op.prepared_sequence, hnew]
  rfl

theorem redundant_requested (c : Client) : c.redundant.Requested := by
  intro h
  have hzero : c.sequence.toNat ||| 1 = 0 := by
    rw [← UInt32.toNat_one, ← UInt32.toNat_or]
    exact congrArg UInt32.toNat h
  exact absurd (Nat.or_eq_zero_iff.mp hzero).2 (by decide)

/-- A redundant call. -/
theorem AndFits.redundant (hfits : AndFits r) (hissue : op.issues = true)
    (hr : Splits r c before after) (hh : c.handle = op.handle)
    (hreach : (op.prepared c).reaches (op.isNew c) = false) (hvote : AndVote r op c)
    (activeMax : UInt32) :
    AndFits (op.unlink ({ r with activeMax := activeMax }.put (op.prepared c).redundant)) := by
  have hnew := Client.not_new_of_not_reaches hreach
  have ht : Splits ({ r with activeMax := activeMax }.put (op.prepared c).redundant)
      (op.prepared c).redundant before after :=
    Splits.put (⟨hr.clients, hr.apart⟩ : Splits { r with activeMax := activeMax } c before after)
      (op.prepared_handle c)
  have hh' : (op.prepared c).redundant.handle = op.handle := (op.prepared_handle c).trans hh
  have htype : (op.prepared c).redundant.type = c.type := op.prepared_type_of_not_new hnew
  have hactive : (op.prepared c).redundant.active = c.active := op.prepared_active c
  have hmem : c ∈ r.clients := by rw [hr.clients]; simp
  by_cases hreq : c.Requested
  · have hseq : r.sequence ≠ 0 := fun hzero => (hfits.unseeded hzero).2 c hmem hreq
    have hall : ∀ ix, AllOn r.clients ix ↔
        AllOn ({ r with activeMax := activeMax }.put (op.prepared c).redundant).clients ix := by
      intro ix
      rw [allOn_splits hr, allOn_splits ht, htype, hactive]
      simp only [hreq, redundant_requested, true_imp_iff]
    refine andFits_finish hfits hr ht hh' hseq (fun _ => redundant_requested _)
      (fun ix => (hfits.aggregates hseq ix).congr (hall ix)) fun hun ix hothers => ?_
    obtain ⟨h, rfl⟩ := Op.of_unlink_ne hun
    rw [allOn_splits ht, htype]
    exact ⟨fun hix => absurd hothers (not_allOn_others hr (hvote.destroyed h ix rfl hix hreq)),
      hothers⟩
  · -- only the destruction of a client that has not requested is redundant
    have hfresh := hfits.fresh c hmem hreq
    have hseq : c.sequence = 0 := Classical.not_not.mp hreq
    obtain ⟨h, rfl⟩ : ∃ h, op = .destroyClient h := by
      refine Classical.not_forall_not.mp fun hne => ?_
      have hreaches := Op.reaches_of_fresh hseq hfresh.2 hne (op.isNew c)
      rw [hreaches] at hreach
      cases hreach
    have hclients : (Op.unlink (.destroyClient h) ({ r with activeMax := activeMax }.put
        (Op.prepared c (.destroyClient h)).redundant)).clients = before ++ after := by
      have hh'' : (Op.prepared c (.destroyClient h)).redundant.handle = h := hh'
      exact hh'' ▸ ht.unlink
    have hall : ∀ ix, AllOn r.clients ix ↔ AllOn (before ++ after) ix := by
      intro ix
      rw [allOn_splits hr]
      simp [hreq]
    refine ⟨fun hne ix => ?_, fun hzero => ⟨(hfits.unseeded hzero).1, ?_⟩, ?_⟩
    · rw [hclients]
      exact (hfits.aggregates hne ix).congr (hall ix)
    · rw [hclients]
      exact fun x hx => (hfits.unseeded hzero).2 x (hr.mem_of_others hx)
    · rw [hclients]
      exact fun x hx => hfits.fresh x (hr.mem_of_others hx)

/-- A call whose request is processed. -/
theorem AndFits.served {a : Aggregation} {r' : Resource} {c' : Client} (hfits : AndFits r)
    (hquiet : c.requestAttr.changedType = false) (hacc : op.Accepts npaBinaryAndPlugin r c)
    (hr : Splits r c before after)
    (hprepared : Splits ({ r with activeMax := op.newMax r c }.put (op.prepared c)) (op.prepared c)
      before after)
    (hput : Splits (r'.put c') c' before after) (hh : c'.handle = op.handle)
    (hreach : (op.prepared c).reaches (op.isNew c) = true)
    (hindex : (op.prepared c).type.index? ≠ none) (hvote : AndVote r op c)
    (ha : npaBinaryAndUpdateFcn ({ r with activeMax := op.newMax r c }.put (op.prepared c))
      (op.prepared c) = some a)
    (hserved : Served { r with activeMax := op.newMax r c } (op.prepared c) a r' c') :
    AndFits (op.unlink (r'.put c')) := by
  obtain ⟨ix, hix⟩ := ne_none_iff_exists'.mp hindex
  have htype := ClientType.index?_eq_some.mp hix
  have hcounted := op.countedAt_prepared hacc hquiet htype
  obtain ⟨hpending, hslot, hother⟩ := npaBinaryAndUpdateFcn_spec hprepared htype ha
  have hmem : c ∈ r.clients := by rw [hr.clients]; simp
  have hseq : r'.sequence ≠ 0 := by
    rw [hserved.sequence]
    exact hvote.sequence
  have hreq : c'.Requested := by
    rw [Client.Requested, hserved.clientSequence]
    exact hseq
  have hactive : c'.active = (op.prepared c).pending := hserved.active.trans hpending
  have hrequests : requestsOf (before ++ after) ix = (othersAt r c ix).map (·.active) := by
    rw [othersAt_splits hr]
    rfl
  -- the aggregate of the client's type
  have hself : Truth (a.internalState ix.slot) (c'.active ≠ 0 ∧ AllOn (before ++ after) ix) := by
    rw [hslot, hrequests, hactive]
    exact (truth_andScan (hvote.reduces ix htype hreach)).congr
      (and_congr Iff.rfl (allOn_othersAt hr).symm)
  -- the aggregate of the other type
  have hrest : Truth (a.internalState ix.other.slot) (AllOn (before ++ after) ix.other) := by
    rw [hother]
    have hchanged := op.prepared_changedType c
    rw [hquiet, Bool.false_or] at hchanged
    split
    · next hset =>
      -- the previous type is left with a zero
      have hleft : c.type = ix.other.clientType := by rw [hcounted, countedAt, if_pos hset]
      rw [hset] at hchanged
      exact ⟨fun hall => absurd hall (not_allOn_others hr
        (hvote.left ix.other hchanged.symm hleft)), fun _ => rfl⟩
    · next hset =>
      have hkept : c.type = ix.clientType := by rw [hcounted, countedAt, if_neg hset]
      have hall : AllOn r.clients ix.other ↔ AllOn (before ++ after) ix.other := by
        rw [allOn_splits hr, hkept]
        simp
      split
      · next hzero =>
        have hnone := (hfits.unseeded hzero).2
        exact ⟨fun _ => rfl, fun hnot => absurd
          (fun x hx _ hreq => absurd hreq (hnone x (hr.mem_of_others hx))) hnot⟩
      · next hne => exact (hfits.aggregates hne ix.other).congr hall
  have hkept : ∀ jx : Index, Truth ((r'.put c').internalState jx.slot)
      (AllOn (r'.put c').clients jx) := by
    intro jx
    rw [show (r'.put c').internalState = a.internalState from hserved.internalState]
    rcases ix.eq_or_eq_other jx with rfl | rfl
    · refine hself.congr ?_
      rw [allOn_splits hput, hserved.type, htype]
      simp [hreq]
    · refine hrest.congr ?_
      rw [allOn_splits hput, hserved.type, htype]
      simp
  refine andFits_finish hfits hr hput hh hseq (fun _ => hreq) hkept fun hun jx hothers => ?_
  obtain ⟨h, rfl⟩ := Op.of_unlink_ne hun
  have hold : c.Requested := by
    intro hnot
    have hzero := (hfits.fresh c hmem fun hreq => hreq hnot).1
    have hnew : (Op.isNew c (.destroyClient h)) = true := hreach
    simp [Op.isNew, hzero] at hnew
  rw [allOn_splits hput, hserved.type]
  exact ⟨fun hjx => absurd hothers (not_allOn_others hr (hvote.destroyed h jx rfl hjx hold)),
    hothers⟩

end

end Npa
