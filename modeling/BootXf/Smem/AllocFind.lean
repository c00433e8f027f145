import BootXf.Smem.History

/-!
# Finding what was allocated

An allocation that succeeds leaves its item in the heap, and a heap only grows
(`World.Inv.allocated`, `run_extends`). So whatever the hosts do afterwards, every lookup of the
type gives the same buffer, size and side, and so does every further allocation of it
(`alloc_then_find`). The side is the one the successful call reported: an allocation of a type that
is already there succeeds with the flags of the item, whatever flags it asked for
(`zero_size_refused`).
-/

open Lib

namespace Smem

open Option

section
variable {L : Layout} {H : Heap L} {ι : Type} [DecidableEq ι] {thisHost : ι → UInt32} {fuel : Nat}
  {w₀ w w₁ w₂ : World ι} {history history' : List (Event ι)} {g h : ι} {p q : AllocParams}
  {answer : Answer}

/-- Along a run the heap grows. -/
theorem run_extends (hfuel : L.size.toNat ≤ 16 * fuel) (hinv : w₀.Inv H)
    (run : Run (Step L thisHost fuel) w₀ history w) :
    ∃ H' : Heap L, H'.Extends H ∧ w.Inv H' := by
  refine run.state_invariant (P := fun w => ∃ H' : Heap L, H'.Extends H ∧ w.Inv H')
    ⟨H, Heap.Extends.refl H, hinv⟩ ?_
  rintro w e w' ⟨H₁, hext₁, hinv₁⟩ hstep
  obtain ⟨H₂, hext₂, hinv₂⟩ := Step.inv hfuel hinv₁ hstep
  exact ⟨H₂, hext₂.trans hext₁, hinv₂⟩

/-- The world after a call of one host. -/
theorem World.Inv.update {H' : Heap L} (hinv : w.Inv H) (hext : H'.Extends H) {m' : Memory}
    {host' : Host} (hholds : H'.Holds m') (hknown : host'.Known H') :
    ({ w.setHost g host' with mem := m' } : World ι).Inv H' where
  holds := hholds
  host x := by
    by_cases hx : x = g
    · exact .inr (by simpa [World.setHost, hx] using hknown)
    · simpa [World.setHost, hx] using (hinv.host x).imp id fun hk => hk.extends hext

/-- The item is in the heap, and the parameters describe it: its buffer, the size it was allocated
with and its side. -/
structure Describes (H : Heap L) (p r : AllocParams) (f : Heap.Found) : Prop where
  lookup : H.lookup p.smemType = some f
  size : .ofNat (Lib.roundUp f.item.requested 8) = roundUp p.size 8
  buffer : r.buffer = .ofNat (bufferAddr f.cached f.addr f.item)
  size' : r.size = roundUp p.size 8
  cached : r.isCached = f.cached

/-- Rounding an acceptable size up to 8 does not wrap. -/
theorem AllocParams.AllocOk.roundUp8 {host : UInt32} (h : p.AllocOk L.smemInfo host) :
    .ofNat (Lib.roundUp p.size.toNat 8) = roundUp p.size 8 := by
  have hsize := UInt32.le_iff_toNat_le.mp h.size_le
  have hbelow := L.below
  have habove := L.above
  exact (roundUp8_toNat (by omega)).symm

/-- **A successful allocation** leaves the item in the heap, on the side that was asked for if it
is new. -/
theorem World.Inv.allocated (hfuel : L.size.toNat ≤ 16 * fuel) (hinv : w.Inv H)
    (hstep : Step L thisHost fuel w ⟨g, .alloc p, answer⟩ w₁) (hok : answer.status = .success) :
    ∃ (H₁ : Heap L) (f : Heap.Found), w₁.Inv H₁ ∧ Describes H₁ p answer.params f ∧
      (w₁.mem ≠ w.mem → answer.params.isCached = p.isCached) := by
  simp only [Step, World.call, map_eq_some_iff, Prod.mk.injEq, Prod.exists] at hstep
  obtain ⟨_, host', m', halloc, rfl, rfl⟩ := hstep
  by_cases hparams : p.AllocOk L.smemInfo (thisHost g)
  case neg =>
    rw [allocEx_refused hparams] at halloc
    obtain ⟨rfl, rfl, rfl⟩ := Option.some.inj halloc
    cases hok
  rcases hinv.host g with hun | hknown
  · -- a host that is not set up allocates nothing
    exfalso
    have hrefuse : allocEx L.smemInfo (thisHost g) fuel w.mem p (w.host g) =
        some (⟨.outOfResources, { p with buffer := 0 }⟩, w.host g, w.mem) := by
      rw [hun]
      exact allocEx_uninit_ok hparams
    rw [hrefuse] at halloc
    obtain ⟨rfl, rfl, rfl⟩ := Option.some.inj halloc
    cases hok
  obtain ⟨a₁, host₁, m₁, halloc₁, hout⟩ := allocEx_spec hinv.holds hknown.toMapped hparams hfuel
  rw [halloc₁] at halloc
  obtain ⟨rfl, rfl, rfl⟩ := Option.some.inj halloc
  cases hout with
  | full => cases hok
  | @«exists» f host' hlookup hcurrent hcached =>
    have hsize : (p.found f).size = roundUp p.size 8 := by
      simp only at hok
      split at hok
      · exact eq_of_beq ‹_›
      · cases hok
    exact ⟨H, f, hinv.update (Heap.Extends.refl H) hinv.holds hcurrent.known,
      ⟨hlookup, hsize, rfl, hsize, found_isCached p⟩, fun h => absurd rfl h⟩
  | @fresh H₁ f host' m' hlookup hext hfound hside hreq hholds hcurrent hcached =>
    have hsize : .ofNat (Lib.roundUp f.item.requested 8) = roundUp p.size 8 := by
      rw [hreq, hparams.roundUp8]
    exact ⟨H₁, f, hinv.update hext hholds hcurrent.known,
      ⟨hfound, hsize, rfl, rfl, hside.symm⟩, fun _ => rfl⟩

/-- **Allocate, then find.** After a successful allocation of a type, whatever calls follow from
whichever hosts, a host that is set up finds the type with the same buffer, with the requested size
rounded up to 8, and with the side the allocation reported. Allocating the type again, for any
acceptable size, gives the same, with success if the rounded sizes agree and a size mismatch
otherwise, and writes nothing; a size of zero or above that of shared memory is refused. The side is
the requested one if the allocation wrote the item. -/
theorem alloc_then_find (hfuel : L.size.toNat ≤ 16 * fuel) (hinv : w₀.Inv H)
    (run : Run (Step L thisHost fuel) w₀ history w)
    (hstep : Step L thisHost fuel w ⟨g, .alloc p, answer⟩ w₁) (hok : answer.status = .success)
    (run' : Run (Step L thisHost fuel) w₁ history' w₂) (hset : w₂.host h ≠ Host.uninit)
    (htype : q.smemType = p.smemType) :
    answer.params.size = roundUp p.size 8 ∧
    (w₁.mem ≠ w.mem → answer.params.isCached = p.isCached) ∧
    (q.HostOk (thisHost h) → ∃ r host',
      getAddrEx L.smemInfo (thisHost h) fuel w₂.mem q (w₂.host h) = some (⟨.success, r⟩, host') ∧
      r.buffer = answer.params.buffer ∧ r.size = roundUp p.size 8 ∧
      r.isCached = answer.params.isCached) ∧
    (q.AllocOk L.smemInfo (thisHost h) → ∃ r host',
      allocEx L.smemInfo (thisHost h) fuel w₂.mem q (w₂.host h) =
        some (⟨if roundUp p.size 8 = roundUp q.size 8 then .success else .sizeMismatch, r⟩, host',
          w₂.mem) ∧
      r.buffer = answer.params.buffer ∧ r.size = roundUp p.size 8 ∧
      r.isCached = answer.params.isCached) ∧
    (q.size = 0 ∨ L.smemInfo.smemSize < q.size →
      allocEx L.smemInfo (thisHost h) fuel w₂.mem q (w₂.host h) =
        some (⟨.invalidParam, q⟩, w₂.host h, w₂.mem)) := by
  obtain ⟨H₀, -, hinv₀⟩ := run_extends hfuel hinv run
  obtain ⟨H₁, f, hinv₁, hdesc, hside⟩ := hinv₀.allocated hfuel hstep hok
  obtain ⟨H₂, hext, hinv₂⟩ := run_extends hfuel hinv₁ run'
  have hlookup : H₂.lookup q.smemType = some f := by
    rw [htype]
    exact hext.lookup hdesc.lookup
  have hknown := (hinv₂.host h).resolve_left hset
  have hfound : (q.found f).buffer = answer.params.buffer ∧ (q.found f).size = roundUp p.size 8 ∧
      (q.found f).isCached = answer.params.isCached :=
    ⟨hdesc.buffer.symm, hdesc.size, by rw [found_isCached, hdesc.cached]⟩
  refine ⟨hdesc.size', hside, fun hq => ?_, fun hq => ?_, fun hsize => allocEx_refused fun hq => ?_⟩
  · obtain ⟨host', hget, -, -⟩ := getAddrEx_spec q hinv₂.holds hknown.toMapped hq hfuel
    refine ⟨q.found f, host', ?_, hfound⟩
    rw [hget, Heap.answer, hlookup]
  · obtain ⟨a, host', m', halloc, hout⟩ := allocEx_spec hinv₂.holds hknown.toMapped hq hfuel
    cases hout with
    | full hnone =>
      rw [hlookup] at hnone
      cases hnone
    | fresh hnone =>
      rw [hlookup] at hnone
      cases hnone
    | @«exists» f' host' hlookup' =>
      rw [hlookup] at hlookup'
      obtain rfl := Option.some.inj hlookup'
      refine ⟨q.found f, host', ?_, hfound⟩
      rw [halloc, hfound.2.1]
      by_cases hsize : roundUp p.size 8 = roundUp q.size 8
      · rw [if_pos hsize, if_pos (beq_iff_eq.mpr hsize)]
      · rw [if_neg hsize, if_neg (by simpa using hsize)]
  · rcases hsize with hzero | hlarge
    · have hpos := hq.size_pos
      rw [hzero] at hpos
      exact absurd hpos (by decide)
    · exact absurd hlarge (UInt32.not_lt.mpr hq.size_le)

/-! ## Two hosts -/

/-- The second host finds what the first one has allocated, after the first has allocated more. -/
theorem alloc_then_find_two_hosts : ∃ (w₂ : World Bool) (r : AllocParams) (host' : Host),
    getAddrEx exampleLayout.smemInfo 0 1024 w₂.mem (request 5 0 0) (w₂.host true) =
      some (⟨.success, r⟩, host') ∧ r.size = 8 ∧ r.isCached = false := by
  let start : World Bool := World.start exampleLayout Memory.zero 0xFFFE 0xFFFE
  let call := World.call (ι := Bool) exampleLayout (fun _ => 0) 1024
  have hrun : ((start.calls exampleLayout (fun _ => 0) 1024 (exampleCalls.take 2)).bind fun w =>
      (call w false (.alloc (request 5 8 0))).bind fun (answer, w₁) =>
        (w₁.calls exampleLayout (fun _ => 0) 1024 (exampleCalls.drop 3)).map fun w₂ =>
          decide (answer.status = .success ∧ answer.params.isCached = false ∧
            w₂.host true ≠ Host.uninit)) = some true := by
    decide +kernel
  obtain ⟨w, hw, hrun⟩ := bind_eq_some_iff.mp hrun
  obtain ⟨⟨answer, w₁⟩, hstep, hrun⟩ := bind_eq_some_iff.mp hrun
  obtain ⟨w₂, hw₂, hrun⟩ := map_eq_some_iff.mp hrun
  obtain ⟨hok, hcached, hset⟩ := of_decide_eq_true hrun
  obtain ⟨history, run⟩ := World.calls_run .start hw
  obtain ⟨history', run'⟩ := World.calls_run .start hw₂
  obtain ⟨-, -, hfind, -⟩ := alloc_then_find (h := true) (q := request 5 0 0) (by decide)
    World.start_inv run hstep hok run' hset rfl
  obtain ⟨r, host', hget, -, hsize, hside⟩ := hfind ⟨by decide, by decide⟩
  exact ⟨w₂, r, host', hget, hsize, hside.trans hcached⟩

/-- A second allocation of size zero is refused, and one that asks for the other side succeeds with
the side of the item. -/
theorem zero_size_refused : ∃ (w w₁ : World Bool) (answer : Answer),
    (∃ history, Run (Step exampleLayout (fun _ => 0) 1024)
      (World.start exampleLayout Memory.zero 0xFFFE 0xFFFE) history w) ∧
    Step exampleLayout (fun _ => 0) 1024 w ⟨false, .alloc (request 5 8 0), answer⟩ w₁ ∧
    answer.status = .success ∧
    (w₁.call exampleLayout (fun _ => 0) 1024 false (.alloc (request 5 0 0))).map
      (·.1.status) = some .invalidParam ∧
    (w₁.call exampleLayout (fun _ => 0) 1024 false (.alloc (request 5 8 allocFlagCached))).map
      (fun r => (r.1.status, r.1.params.isCached)) = some (.success, false) := by
  let start : World Bool := World.start exampleLayout Memory.zero 0xFFFE 0xFFFE
  have hrun : ((start.calls exampleLayout (fun _ => 0) 1024 (exampleCalls.take 2)).bind fun w =>
      (w.call exampleLayout (fun _ => 0) 1024 false (.alloc (request 5 8 0))).map
        fun (answer, w₁) => decide (answer.status = .success ∧
          (w₁.call exampleLayout (fun _ => 0) 1024 false (.alloc (request 5 0 0))).map
            (·.1.status) = some .invalidParam ∧
          (w₁.call exampleLayout (fun _ => 0) 1024 false (.alloc (request 5 8 allocFlagCached))).map
            (fun r => (r.1.status, r.1.params.isCached)) = some (.success, false))) =
              some true := by
    decide +kernel
  obtain ⟨w, hw, hrun⟩ := bind_eq_some_iff.mp hrun
  obtain ⟨⟨answer, w₁⟩, hstep, hrun⟩ := map_eq_some_iff.mp hrun
  exact ⟨w, w₁, answer, World.calls_run .start hw, hstep, of_decide_eq_true hrun⟩

end

end Smem
