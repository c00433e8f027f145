import BootXf.Npa.BinaryAnd

/-!
# The standard plugins aggregate what they stand for

`Aggregator.Fits` is the invariant of each plugin, kept by every sound call (`Fits.effect`), and it
gives the reference (`Fits.aggregated`). `aggregation_law` puts the two together over a run, with
the fact that a sound call goes through. `aggregation_not_reference` has one run for each of the
three plugins that do not always agree with their reference.
-/

namespace Npa

open Lib List Option

/-- What a plugin keeps true of its aggregates. -/
def Aggregator.Fits (r : Resource) : Aggregator → Prop
  | minimum => Holds (pick minBetter) id Index.slot r
  | maximum => Holds (pick maxBetter) id Index.slot r
  | sum => Holds (· + ·) id Index.slot r
  | bitOr => Holds (· ||| ·) id Index.slot r
  | binary => Holds (· + ·) nonzero Index.countSlot r ∧ BinarySlots r.internalState r.activeMax ∧
    r.clients.length < 2 ^ 32
  | binaryAnd => AndFits r

/-! ## From the invariant to the reference -/

section
variable {r s : Resource} {op : Op} {c : Client} {p : Aggregator} {driver : Driver}

theorem minCombine_eq (x y : UInt32) :
    minCombine x y = ([x, y].filter (· != 0)).min?.getD 0 := by
  by_cases hx : x = 0 <;> by_cases hy : y = 0 <;> simp [minCombine, hx, hy]

theorem length_requestsOf_le (clients : List Client) (ix : Index) :
    (requestsOf clients ix).length ≤ clients.length := by
  rw [requestsOf, length_map]
  exact length_filter_le ..

theorem Aggregator.Fits.aggregate (h : p.Fits r) (ix : Index) :
    r.internalState ix.slot =
      if p = .binaryAnd ∧ r.sequence = 0 then 0 else p.reference r.activeMax (p.requests r ix) := by
  cases p with
  | minimum =>
    rw [if_neg (by simp), reference_minimum]
    exact (h ix).trans (congrArg _ (List.map_id _))
  | maximum =>
    rw [if_neg (by simp), reference_maximum]
    exact (h ix).trans (congrArg _ (List.map_id _))
  | sum | bitOr =>
    rw [if_neg (by simp)]
    exact (h ix).trans (congrArg _ (List.map_id _))
  | binary =>
    obtain ⟨hcount, hslots, hlen⟩ := h
    rw [if_neg (by simp), reference_binary, hslots ix, hcount ix]
    · rfl
    · exact Nat.lt_of_le_of_lt (length_requestsOf_le ..) hlen
  | binaryAnd =>
    by_cases hseq : r.sequence = 0
    · rw [if_pos ⟨rfl, hseq⟩]
      exact (h.unseeded hseq).1 ix
    · rw [if_neg fun hcond => hseq hcond.2]
      have hall : AllOn r.clients ix ↔
          (Aggregator.binaryAnd.requests r ix).all (· != 0) = true := by
        simp only [AllOn, Aggregator.requests, requestsOf, Client.Requested, List.all_map,
          List.all_eq_true, mem_filter, bne_iff_ne, beq_iff_eq, Function.comp, ne_eq, and_imp]
        exact ⟨fun h x hx hne ht => h x hx ht hne, fun h x hx ht hne => h x hx hne ht⟩
      obtain ⟨hone, hzero⟩ := (h.aggregates hseq ix).congr hall
      show _ = if (Aggregator.binaryAnd.requests r ix).all (· != 0) then 1 else 0
      split
      · next hp => exact hone hp
      · next hp => exact hzero hp

/-! ## The combination of the two aggregates -/

/-- What an update function returns is the combination of the aggregates it leaves behind. -/
theorem Aggregator.combined {a : Aggregation} (ha : p.plugin.updateFcn r c = some a) :
    a.requestState = p.combine (a.internalState Index.required.slot)
      (a.internalState Index.suppressible.slot) := by
  cases p with
  | minimum =>
    cases ha
    exact minCombine_eq ..
  | maximum | sum | binary =>
    cases ha
    rfl
  | bitOr | binaryAnd =>
    obtain ⟨ix, hix, hrest⟩ := bind_eq_some_iff.mp ha
    cases hrest
    rfl

/-- The update functions take every client that has an index, and those of the first four plugins
every client. -/
theorem Aggregator.Sound.takes (hsound : p.Sound r op) (hc : r.client? op.handle = some c)
    (hissue : op.issues = true) (hreach : (op.prepared c).reaches (op.isNew c) = true)
    (t : Resource) : ∃ a, p.plugin.updateFcn t (op.prepared c) = some a := by
  have htake : IndexedVote r op → ∃ ix, internalIndex (op.prepared c) = some ix := fun hvote =>
    ne_none_iff_exists'.mp (hvote c hc hissue hreach)
  cases p with
  | minimum | maximum | sum | binary => exact ⟨_, rfl⟩
  | bitOr =>
    obtain ⟨ix, hix⟩ := htake hsound
    exact ⟨_, bind_eq_some_iff.mpr ⟨ix, hix, rfl⟩⟩
  | binaryAnd =>
    obtain ⟨ix, hix⟩ := htake hsound.1
    exact ⟨_, bind_eq_some_iff.mpr ⟨ix, hix, rfl⟩⟩

end

/-! ## One step -/

section
variable {plugin : Plugin} {r s : Resource} {op : Op} {c : Client}

/-- A call creates at most one client. -/
theorem Op.Effect.length_le (hd : r.Distinct) (he : op.Effect plugin r s) :
    s.clients.length ≤ r.clients.length + 1 := by
  have hissued : ∀ {c cf : Client} {t : Resource} {before after : List Client},
      Splits r c before after → Splits t cf before after → cf.handle = op.handle →
      (op.unlink t).clients.length ≤ r.clients.length + 1 := by
    intro c cf t before after hr ht hh
    rcases op.unlink_cases ht hh with hun | hun
    · rw [hun, hr.clients, length_append, length_append, length_cons]
      omega
    · rw [hun, hr.clients, ht.clients, length_append, length_append, length_cons,
        length_cons]
      omega
  cases he with
  | refused => exact Nat.le_succ _
  | created => exact Nat.le_refl _
  | attributed =>
    rw [Resource.put, length_map]
    exact Nat.le_succ _
  | @redundant op c hissue hc =>
    obtain ⟨before, after, hsplit, hput, hh⟩ := Op.splits_put hd hc
      { r with activeMax := op.newMax r c } rfl (op.prepared c).redundant (Op.prepared_handle ..)
    exact hissued hsplit hput hh
  | served hissue hc hacc hreach ha hserved =>
    obtain ⟨before, after, hsplit, -, hput, hh⟩ := Op.splits_served hd hc hserved
    exact hissued hsplit hput hh

/-- A new maximum fits the counts when no request is other than zero. -/
theorem BinarySlots.newMax (hcount : Holds (· + ·) nonzero Index.countSlot r)
    (hslots : BinarySlots r.internalState r.activeMax) (hc : r.client? op.handle = some c)
    (hkept : MaxKept r op) : BinarySlots r.internalState (op.newMax r c) := by
  rcases hkept c hc with hmax | hzero
  · rw [hmax]
    exact hslots
  · intro ix
    have hnone : r.internalState ix.countSlot = 0 := by
      rw [hcount ix, aggregateOf]
      have hl := hzero ix
      generalize requestsOf r.clients ix = l at *
      induction l with
      | nil => rfl
      | cons x l ih =>
        rw [map_cons, aggregate_cons, ih fun y hy => hl y (mem_cons_of_mem _ hy),
          hl x mem_cons_self]
        rfl
    rw [hslots ix, hnone]
    rfl

/-- **One step of the binary plugin.** -/
theorem BinarySlots.effect (hcount : Holds (· + ·) nonzero Index.countSlot r)
    (hslots : BinarySlots r.internalState r.activeMax) (hkept : MaxKept r op)
    (he : op.Effect npaBinaryPlugin r s) : BinarySlots s.internalState s.activeMax := by
  cases he with
  | refused | created | attributed => exact hslots
  | redundant hissue hc =>
    rw [Op.unlink_internalState, Op.unlink_activeMax]
    exact hslots.newMax hcount hc hkept
  | served hissue hc hacc hreach ha hserved =>
    rw [Op.unlink_internalState, Op.unlink_activeMax]
    have hupdated := binarySlots_updated (hslots.newMax hcount hc hkept) ha
    simp only [Resource.put, hserved.internalState, hserved.activeMax]
    exact hupdated

/-- **One step of the binary-and plugin.** -/
theorem AndFits.effect (hd : r.Distinct) (hq : r.Quiet) (hfits : AndFits r)
    (hsound : Aggregator.binaryAnd.Sound r op) (he : op.Effect npaBinaryAndPlugin r s) :
    AndFits s := by
  cases he with
  | refused => exact hfits
  | @created h type =>
    have hnew : ¬ (Client.new h type).Requested := fun hreq => hreq rfl
    have hall : ∀ ix, AllOn r.clients ix ↔ AllOn (Client.new h type :: r.clients) ix := by
      intro ix
      refine ⟨fun hr x hx => ?_, fun hr x hx => hr x (mem_cons_of_mem _ hx)⟩
      rcases mem_cons.mp hx with rfl | hx
      · exact fun _ hreq => absurd hreq hnew
      · exact hr x hx
    refine ⟨fun hseq ix => (hfits.aggregates hseq ix).congr (hall ix),
      fun hseq => ⟨(hfits.unseeded hseq).1, fun x hx => ?_⟩, fun x hx hnot => ?_⟩
    · rcases mem_cons.mp hx with rfl | hx
      · exact hnew
      · exact (hfits.unseeded hseq).2 x hx
    · rcases mem_cons.mp hx with rfl | hx
      · exact ⟨rfl, rfl⟩
      · exact hfits.fresh x hx hnot
  | @attributed h attr c hc =>
    obtain ⟨before, after, hsplit, hput, -⟩ :=
      Op.splits_put hd hc r rfl (npaSetRequestAttribute c attr) rfl
    have hmem : c ∈ r.clients := mem_of_find?_eq_some hc
    have hall : ∀ ix, AllOn r.clients ix ↔
        AllOn (r.put (npaSetRequestAttribute c attr)).clients ix := by
      intro ix
      rw [allOn_splits hsplit, allOn_splits hput]
      rfl
    have hfrom : ∀ x ∈ (r.put (npaSetRequestAttribute c attr)).clients,
        x = npaSetRequestAttribute c attr ∨ x ∈ r.clients := by
      intro x hx
      rw [hput.clients] at hx
      simp only [mem_append, mem_cons] at hx
      rcases hx with hx | rfl | hx
      · exact .inr (hsplit.mem_of_others (mem_append_left _ hx))
      · exact .inl rfl
      · exact .inr (hsplit.mem_of_others (mem_append_right _ hx))
    refine ⟨fun hseq ix => (hfits.aggregates hseq ix).congr (hall ix),
      fun hseq => ⟨(hfits.unseeded hseq).1, fun x hx => ?_⟩, fun x hx hnot => ?_⟩
    · rcases hfrom x hx with rfl | hx
      · exact (hfits.unseeded hseq).2 c hmem
      · exact (hfits.unseeded hseq).2 x hx
    · rcases hfrom x hx with rfl | hx
      · exact hfits.fresh c hmem hnot
      · exact hfits.fresh x hx hnot
  | @redundant op c hissue hc hacc hreach =>
    obtain ⟨hh, before, after, hsplit⟩ := hd.splits hc
    exact hfits.redundant hissue hsplit hh hreach (hsound.2 c hc hissue) _
  | @served op c a r' c' hissue hc hacc hreach ha hserved =>
    obtain ⟨before, after, hsplit, hprepared, hput, hh⟩ := Op.splits_served hd hc hserved
    exact hfits.served (hq c (mem_of_find?_eq_some hc)) hacc hsplit hprepared hput hh hreach
      (hsound.1 c hc hissue hreach) (hsound.2 c hc hissue) ha hserved

variable {p : Aggregator} {driver : Driver}

/-- **One step of the invariant.** -/
theorem Aggregator.Fits.effect (hd : r.Distinct) (hq : r.Quiet) (hfits : p.Fits r)
    (hsound : p.Sound r op) (he : op.Effect p.plugin r s) : p.Fits s := by
  cases p with
  | minimum => exact Holds.effect rfl aggregates_extremum hd hq hfits he
  | maximum => exact Holds.effect rfl aggregates_extremum hd hq hfits he
  | sum => exact Holds.effect rfl aggregates_sum hd hq hfits he
  | bitOr => exact Holds.effect rfl aggregates_or hd hq hfits he
  | binary =>
    obtain ⟨hcount, hslots, -⟩ := hfits
    exact ⟨Holds.effect rfl aggregates_binary hd hq hcount he,
      BinarySlots.effect hcount hslots hsound.1 he,
      Nat.lt_of_le_of_lt (he.length_le hd) hsound.2⟩
  | binaryAnd => exact AndFits.effect hd hq hfits hsound he

/-- The request state goes on to be the combination of the aggregates. -/
theorem Op.Effect.combined (hcomb : r.requestState = p.combine
      (r.internalState Index.required.slot) (r.internalState Index.suppressible.slot))
    (he : op.Effect p.plugin r s) :
    s.requestState = p.combine (s.internalState Index.required.slot)
      (s.internalState Index.suppressible.slot) := by
  cases he with
  | refused | created | attributed => exact hcomb
  | redundant =>
    rw [Op.unlink_requestState, Op.unlink_internalState]
    exact hcomb
  | served hissue hc hacc hreach ha hserved =>
    rw [Op.unlink_requestState, Op.unlink_internalState]
    simp only [Resource.put, hserved.requestState, hserved.internalState]
    exact p.combined ha

/-- What holds of a resource in every state of a run of sound calls. -/
structure Aggregator.Kept (p : Aggregator) (r : Resource) : Prop where
  distinct : r.Distinct
  quiet : r.Quiet
  fits : p.Fits r
  combined : r.requestState = p.combine (r.internalState Index.required.slot)
    (r.internalState Index.suppressible.slot)

theorem Aggregator.kept_create (p : Aggregator) (definition : Definition)
    (initState answer : UInt32) : p.Kept (.create definition initState answer) where
  distinct := nodup_nil
  quiet _ h := by cases h
  fits := by
    cases p with
    | minimum | maximum | sum | bitOr => exact fun _ => rfl
    | binary => exact ⟨fun _ => rfl, fun _ => rfl, Nat.two_pow_pos 32⟩
    | binaryAnd =>
      exact ⟨fun h => absurd rfl h, fun _ => ⟨fun _ => rfl, fun _ h => by cases h⟩,
        fun _ h => by cases h⟩
  combined := by
    have hor : (0 : UInt32) = 0 ||| 0 := by decide
    have hand : (0 : UInt32) = 0 &&& 0 := by decide
    cases p with
    | minimum | maximum | sum | binary => rfl
    | bitOr => exact hor
    | binaryAnd => exact hand

theorem Aggregator.Kept.step (h : p.Kept r) (hs : SoundStep p driver r op s) : p.Kept s := by
  have he := Op.effect hs.1.1 hs.1.2
  exact ⟨he.distinct h.distinct, h.quiet.effect h.distinct he,
    h.fits.effect h.distinct h.quiet hs.2 he, he.combined h.combined⟩

end

/-! ## The law -/

/-- **The law of the aggregates.** From the creation of a resource on, along every run whose calls
are sound for its plugin, the aggregates are the ones the plugin stands for, the request state is
their combination, and no sound call runs into a fatal check. -/
theorem aggregation_law {p : Aggregator} {driver : Driver} {definition : Definition}
    {initState answer : UInt32} {h : List Op} {r : Resource}
    (run : Run (SoundStep p driver) (.create definition initState answer) h r) :
    Aggregated p r ∧
    ∀ op : Op, op.Proper p.plugin r → p.Sound r op →
      ∃ s, op.apply p.plugin driver r = some s ∧ Aggregated p s := by
  have hkept : p.Kept r := run.state_invariant (p.kept_create ..) fun hk hs => hk.step hs
  have haggregated : ∀ {r}, p.Kept r → Aggregated p r := fun hk =>
    ⟨fun ix => hk.fits.aggregate ix, hk.combined⟩
  refine ⟨haggregated hkept, fun op hp hsound => ?_⟩
  obtain ⟨s, hs, -⟩ := Op.apply_effect driver hp fun hissue hc hreach =>
    hsound.takes hc hissue hreach _
  exact ⟨s, hs, haggregated (hkept.step ⟨⟨hp, hs⟩, hsound⟩)⟩

instance decidableIndexedVote (r : Resource) (op : Op) : Decidable (IndexedVote r op) :=
  inferInstanceAs (Decidable (∀ c ∈ r.client? op.handle, op.issues = true →
    (op.prepared c).reaches (op.isNew c) = true → (op.prepared c).type.index? ≠ none))

/-- A resource that changes types and has a maximum of ten. -/
def exampleResource : Resource := .create ⟨10, ⟨false, false, false, true⟩, 0⟩ 0 0

/-- A required and a suppressible request under the or plugin. -/
def twoRequests : List Op :=
  [.createSyncClient 1 .required, .createSyncClient 2 .suppressible, .issueScalarRequest 1 6,
    .issueScalarRequest 2 9]

theorem aggregation_law_two_requests : ∃ r : Resource,
    Run (SoundStep .bitOr fun _ _ state => state) exampleResource twoRequests.reverse r ∧
    r.requestState = 15 ∧ Aggregated .bitOr r := by
  have hstep : ∀ {r : Resource} {op : Op} {s : Resource},
      (if IndexedVote r op then clientStep npaOrPlugin (fun _ _ state => state) r op else none) =
        some s → SoundStep .bitOr (fun _ _ state => state) r op s := by
    intro r op s h
    split at h
    · next hvote => exact ⟨ClientStep.of_eq_some h, hvote⟩
    · cases h
  have hexec : (execute (fun r op => if IndexedVote r op then
      clientStep npaOrPlugin (fun _ _ state => state) r op else none)
        exampleResource twoRequests).map (·.requestState) = some 15 := by
    decide +kernel
  obtain ⟨r, hr, hstate⟩ := map_eq_some_iff.mp hexec
  have run := Run.of_execute hstep .start hr
  rw [append_nil] at run
  exact ⟨r, run, hstate, (aggregation_law run).1⟩

/-- **Where the code and the references part.** The or plugin supports `LIMIT_MAX` clients, and the
first request of one is a fatal error. Under the binary plugin a limit leaves the aggregate at the
old maximum. Under the binary-and plugin a change of type leaves the aggregate of the previous type
at zero, though the client that is left requests one. -/
theorem aggregation_not_reference :
    (∃ r : Resource, Run (ClientStep npaOrPlugin fun _ _ state => state) exampleResource
        [.createSyncClient 1 .limitMax] r ∧
      (Op.issueLimitMaxRequest 1 5).Proper npaOrPlugin r ∧
      (Op.issueLimitMaxRequest 1 5).apply npaOrPlugin (fun _ _ state => state) r = none) ∧
    (∃ r : Resource, Run (ClientStep npaBinaryPlugin fun _ _ state => state) exampleResource
        [.issueLimitMaxRequest 2 5, .issueScalarRequest 1 1, .createSyncClient 2 .limitMax,
          .createSyncClient 1 .required] r ∧
      ¬ Aggregated .binary r) ∧
    ∃ r : Resource, Run (ClientStep npaBinaryAndPlugin fun _ _ state => state) exampleResource
        [.setClientTypeSuppressible 1, .issueScalarRequest 2 1, .issueScalarRequest 1 1,
          .createSyncClient 2 .required, .createSyncClient 1 .required] r ∧
      ¬ Aggregated .binaryAnd r := by
  refine ⟨?_, ?_, ?_⟩
  · have hexec : (execute (clientStep npaOrPlugin fun _ _ state => state) exampleResource
        [.createSyncClient 1 .limitMax]).map (fun r =>
          (decide ((Op.issueLimitMaxRequest 1 5).Proper npaOrPlugin r),
            ((Op.issueLimitMaxRequest 1 5).apply npaOrPlugin (fun _ _ state => state) r).isNone)) =
          some (true, true) := by
      decide +kernel
    obtain ⟨r, hr, hfatal⟩ := map_eq_some_iff.mp hexec
    obtain ⟨hproper, hnone⟩ := Prod.mk.inj hfatal
    exact ⟨r, Run.of_execute ClientStep.of_eq_some .start hr, of_decide_eq_true hproper,
      isNone_iff_eq_none.mp hnone⟩
  · have hexec : (execute (clientStep npaBinaryPlugin fun _ _ state => state) exampleResource
        [.createSyncClient 1 .required, .createSyncClient 2 .limitMax, .issueScalarRequest 1 1,
          .issueLimitMaxRequest 2 5]).map (fun r => (r.internalState Index.required.slot,
            Aggregator.binary.reference r.activeMax (Aggregator.binary.requests r .required))) =
          some (10, 5) := by
      decide +kernel
    obtain ⟨r, hr, hvalues⟩ := map_eq_some_iff.mp hexec
    obtain ⟨hslot, hreference⟩ := Prod.mk.inj hvalues
    refine ⟨r, Run.of_execute ClientStep.of_eq_some .start hr, fun h => ?_⟩
    have := h.1 .required
    rw [hslot, if_neg (by simp), hreference] at this
    cases this
  · have hexec : (execute (clientStep npaBinaryAndPlugin fun _ _ state => state) exampleResource
        [.createSyncClient 1 .required, .createSyncClient 2 .required, .issueScalarRequest 1 1,
          .issueScalarRequest 2 1, .setClientTypeSuppressible 1]).map (fun r =>
            (r.internalState Index.required.slot, r.sequence == 0,
              Aggregator.binaryAnd.reference r.activeMax
                (Aggregator.binaryAnd.requests r .required))) = some (0, false, 1) := by
      decide +kernel
    obtain ⟨r, hr, hvalues⟩ := map_eq_some_iff.mp hexec
    obtain ⟨hslot, hrest⟩ := Prod.mk.inj hvalues
    obtain ⟨hseq, hreference⟩ := Prod.mk.inj hrest
    refine ⟨r, Run.of_execute ClientStep.of_eq_some .start hr, fun h => ?_⟩
    have := h.1 .required
    rw [hslot, if_neg (by simpa using hseq), hreference] at this
    cases this

end Npa
