import BootXf.Lib.Run
import BootXf.Smem.Alloc

/-!
# Hosts sharing a partition

Several hosts, each with its own `smem_info_prt`, make calls on one partition; the spinlock makes a
call one step. Whatever they call, memory holds a heap and every host's view of it is bounded by it
(`World.Inv`), so the offsets are ordered, nothing overlaps and no page is mapped both ways
(`partition_invariant`). One link of the ordering is not an invariant: a host that looks up an
uncached item reads the free offset of the cached side without mapping down to it
(`cached_offset_behind`).
-/

open Lib

namespace Smem

open List Option

/-- A call of a host. -/
inductive Call where
  | init (stack : AllocParams)
  | alloc (params : AllocParams)
  | getAddr (params : AllocParams)
  deriving DecidableEq, Repr

/-- A host, its call and the answer. -/
structure Event (ι : Type) where
  host : ι
  call : Call
  answer : Answer
  deriving DecidableEq, Repr

/-- Shared memory and the hosts. -/
structure World (ι : Type) where
  mem : Memory
  host : ι → Host

section
variable {ι : Type} [DecidableEq ι] (L : Layout) (thisHost : ι → UInt32) (fuel : Nat)

/-- The host `h` has become `host`. -/
def World.setHost (w : World ι) (h : ι) (host : Host) : World ι :=
  { w with host := fun g => if g = h then host else w.host g }

/-- One call. `smem_init` does its work only once on a host. -/
def World.call (w : World ι) (h : ι) : Call → Option (Answer × World ι)
  | .init stack =>
    if w.host h = Host.uninit then
      (partInit L.smemInfo (thisHost h) fuel L.offset L.size L.cacheline w.mem stack).map
        fun (answer, host) => (answer, w.setHost h host)
    else none
  | .alloc params =>
    (allocEx L.smemInfo (thisHost h) fuel w.mem params (w.host h)).map
      fun (answer, host, mem) => (answer, { w.setHost h host with mem := mem })
  | .getAddr params =>
    (getAddrEx L.smemInfo (thisHost h) fuel w.mem params (w.host h)).map
      fun (answer, host) => (answer, w.setHost h host)

/-- One step of the system. -/
def Step (w : World ι) (e : Event ι) (w' : World ι) : Prop :=
  w.call L thisHost fuel e.host e.call = some (e.answer, w')

/-- The world at the start: a partition header as `smem_boot_toc_entry_setup` writes it, and no
host set up. -/
def World.start (m : Memory) (host0 host1 : UInt16) : World ι where
  mem := setupHeader m L.header host0 host1 L.size
  host := fun _ => Host.uninit

/-- A list of calls, one after the other. -/
def World.calls (w : World ι) : List (ι × Call) → Option (World ι)
  | [] => some w
  | (h, call) :: l => (w.call L thisHost fuel h call).bind fun (_, w') => w'.calls l

end

/-! ## The invariant -/

section
variable {L : Layout} {H H' : Heap L} {host : Host} {m : Memory} {params : AllocParams}

/-- What a host knows about the heap, however long ago its last call was. -/
structure Host.Known (H : Heap L) (host : Host) : Prop extends host.Mapped H where
  header_le : 32 ≤ host.info.offsetFreeUncached.toNat
  free_le : host.info.offsetFreeUncached.toNat ≤ host.info.offsetMappedUncached.toNat
  le_free : H.freeCached ≤ host.info.offsetFreeCached.toNat
  free_le_size : host.info.offsetFreeCached.toNat ≤ L.size.toNat

theorem Host.Current.known (h : host.Current H) : host.Known H where
  toMapped := h.toMapped
  header_le := by
    rw [h.freeUncached]
    exact H.free_le.1
  free_le := by
    rw [h.freeUncached]
    exact h.free_le
  le_free := Nat.le_of_eq h.freeCached.symm
  free_le_size := by
    rw [h.freeCached]
    exact H.free_bounds.2

theorem Host.Known.extends (h : host.Known H) (hext : H'.Extends H) : host.Known H' where
  toMapped := h.toMapped.extends hext
  header_le := h.header_le
  free_le := h.free_le
  le_free := Nat.le_trans hext.free.2 h.le_free
  free_le_size := h.free_le_size

theorem Host.Mapped.ne_uninit (h : host.Mapped H) : host ≠ Host.uninit := by
  rintro rfl
  have hpos := L.size_pos
  rw [← h.size] at hpos
  exact absurd hpos (by decide)

/-- Memory holds the heap, and every host that is set up knows of it. -/
structure World.Inv {ι : Type} (H : Heap L) (w : World ι) : Prop where
  holds : H.Holds w.mem
  host : ∀ h, w.host h = Host.uninit ∨ (w.host h).Known H

/-- Without items the two ends do not meet. -/
theorem nil_apart (L : Layout) : Lib.roundUp (32 + space 0 []) 4096 ≤
    roundDown (L.size.toNat - space L.pad []) 4096 := by
  have hpos := L.size_pos
  have hmod := L.size_aligned
  simp only [space_nil, Lib.roundUp, roundDown]
  omega

/-- The empty heap of a partition. -/
def Heap.empty (L : Layout) : Heap L where
  uncached := []
  cached := []
  apart := nil_apart L
  unique := nodup_nil

/-- A partition that has just been set up holds no items. -/
theorem setupHeader_holds {host0 host1 : UInt16} :
    (Heap.empty L).Holds (setupHeader m L.header host0 host1 L.size) := by
  have hbase := L.base_bounds
  have h12 : (L.header + 12).toNat = L.base + 12 := L.header_field (by decide)
  have h16 : (L.header + 16).toNat = L.base + 16 := L.header_field (by decide)
  refine ⟨?_, ?_, fun p hp => (by cases hp), fun p hp => (by cases hp)⟩
  · rw [setupHeader, (Memory.agreeOn_put (by omega)
      (.inl (by simp only [Span.stop, h12, h16]; omega))).u32 (by omega)]
    exact congrArg UInt32.toNat (Memory.u32_put (v := 32) (by omega))
  · rw [setupHeader, Memory.u32_put (by omega)]
    simp [Heap.freeCached, Heap.empty]

/-! ## One step -/

variable {ι : Type} [DecidableEq ι] {thisHost : ι → UInt32} {fuel : Nat} {w w' : World ι}
  {e : Event ι} {h : ι} {answer : Answer}

/-- The flags of an item that was found say on which side it is. -/
theorem found_isCached (params : AllocParams) {f : Heap.Found} :
    (params.found f).isCached = f.cached := by
  have hset : ∀ x : UInt32, (x ||| allocFlagCached) &&& allocFlagCached = allocFlagCached := by
    intro x
    apply UInt32.toBitVec_inj.mp
    ext i hi
    simpa using Or.inr
  have hclear : ∀ x : UInt32, (x &&& ~~~allocFlagCached) &&& allocFlagCached = 0 := by
    intro x
    apply UInt32.toBitVec_inj.mp
    ext i hi
    simp
  cases hf : f.cached with
  | false =>
    simp only [AllocParams.isCached, AllocParams.found, hf, Bool.false_eq_true, if_false, hclear]
    decide
  | true =>
    simp only [AllocParams.isCached, AllocParams.found, hf, if_true, hset]
    decide

/-- The call walked the cached side: it did not end on an item that it found on the uncached
side. -/
def ReachedCached (w : World ι) (e : Event ι) (w' : World ι) : Prop :=
  w'.mem ≠ w.mem ∨ e.answer.status = .notFound ∨ e.answer.status = .outOfResources ∨
    e.answer.params.isCached = true

/-- A call that names another partition is refused. -/
theorem getAddrEx_refused {thisHost : UInt32} (h : ¬ params.HostOk thisHost) :
    getAddrEx L.smemInfo thisHost fuel m params host = some (⟨.invalidParam, params⟩, host) := by
  unfold getAddrEx
  cases hr : remoteOutOfRange params with
  | true => rfl
  | false =>
    cases hc : remoteCommon thisHost params with
    | true => exact absurd ⟨hr, hc⟩ h
    | false => rfl

/-- So is an allocation that names another partition, or no valid type or size. -/
theorem allocEx_refused {thisHost : UInt32} (h : ¬ params.AllocOk L.smemInfo thisHost) :
    allocEx L.smemInfo thisHost fuel m params host = some (⟨.invalidParam, params⟩, host, m) := by
  unfold allocEx
  cases hr : remoteOutOfRange params with
  | true => rfl
  | false =>
    cases hsize : params.smemType ≥ L.smemInfo.maxItems.toUInt32 || params.size == 0
        || params.size > L.smemInfo.smemSize with
    | true => rfl
    | false =>
      cases hc : remoteCommon thisHost params with
      | false => rfl
      | true =>
        simp only [Bool.or_eq_false_iff, decide_eq_false_iff_not, beq_eq_false_iff_ne] at hsize
        obtain ⟨⟨htype, hpos⟩, hle⟩ := hsize
        refine absurd ⟨⟨hr, hc⟩, UInt32.not_le.mp htype, ?_, UInt32.not_lt.mp hle⟩ h
        exact Nat.pos_of_ne_zero fun h0 => hpos (UInt32.toNat_inj.mp h0)

/-- A host that is not set up finds nothing and allocates nothing. -/
theorem getAddrEx_uninit (L : Layout) (thisHost : UInt32) (fuel : Nat) (m : Memory)
    (params : AllocParams) :
    ∃ answer, getAddrEx L.smemInfo thisHost fuel m params Host.uninit =
      some (answer, Host.uninit) := by
  by_cases hok : params.HostOk thisHost
  · refine ⟨⟨.notFound, { params with buffer := 0 }⟩, ?_⟩
    simp only [getAddrEx, hok.1, hok.2, Bool.false_eq_true, if_false, Bool.not_true]
    rfl
  · exact ⟨_, getAddrEx_refused hok⟩

theorem allocEx_uninit_ok {thisHost : UInt32} (hok : params.AllocOk L.smemInfo thisHost) :
    allocEx L.smemInfo thisHost fuel m params Host.uninit =
      some (⟨.outOfResources, { params with buffer := 0 }⟩, Host.uninit, m) := by
  unfold allocEx
  rw [if_neg (by rw [hok.host.1]; decide), if_neg, if_neg (by rw [hok.host.2]; decide)]
  · rfl
  · have hpos := hok.size_pos
    simp only [Bool.or_eq_true, decide_eq_true_eq, beq_iff_eq, not_or, ge_iff_le, gt_iff_lt,
      UInt32.not_le, UInt32.not_lt]
    refine ⟨⟨hok.smemType, ?_⟩, hok.size_le⟩
    intro h0
    rw [h0] at hpos
    exact absurd hpos (by decide)

theorem allocEx_uninit (L : Layout) (thisHost : UInt32) (fuel : Nat) (m : Memory)
    (params : AllocParams) :
    ∃ answer, allocEx L.smemInfo thisHost fuel m params Host.uninit =
      some (answer, Host.uninit, m) := by
  by_cases hok : params.AllocOk L.smemInfo thisHost
  · exact ⟨_, allocEx_uninit_ok hok⟩
  · exact ⟨_, allocEx_refused hok⟩

/-- What `smem_part_init` starts from: the header's page mapped, nothing cached. -/
theorem initHost_mapped :
    Host.Mapped H
      { info := ⟨L.smemInfo.smemBaseAddr + L.offset.toUInt64, L.size, L.cacheline, 32, L.size,
          (mapPageAttr L.offset 32 false).size, L.size⟩
        mappings := [mapPageAttr L.offset 32 false] } := by
  have hoff := L.offset_aligned
  have hbelow := L.below
  have hinside := L.inside
  have hmod := L.size_aligned
  have hpos := L.size_pos
  have h32 : (32 : UInt32).toNat = 32 := rfl
  obtain ⟨ho, hs⟩ := mapPageAttr_spec L.offset 32 false (by omega)
  have hoffset : (mapPageAttr L.offset 32 false).offset.toNat = L.offset.toNat := by
    rw [ho, roundDown]
    omega
  have hsize : (mapPageAttr L.offset 32 false).size.toNat = 4096 := by
    rw [hs]
    simp only [Lib.roundUp, roundDown, h32]
    omega
  have hfree := H.free_le.1
  have hdown := roundDown_le (n := H.freeCached) (k := 4096)
  have hbounds := H.free_bounds
  refine ⟨rfl, rfl, rfl, ?_, ?_, hmod, ?_, Nat.le_refl _, ?_⟩
  · simp only [hsize]
  · simp only [hsize, Lib.roundUp]
    omega
  · simp only
    omega
  · intro x hx
    obtain rfl := mem_singleton.mp hx
    show if (mapPageAttr L.offset 32 false).cached = true then _ else _
    rw [if_neg (by exact Bool.false_ne_true)]
    simp only [hoffset, hsize]
    omega

theorem World.setHost_self : w.setHost h (w.host h) = w := by
  have hfun : (fun g => if g = h then w.host h else w.host g) = w.host := by
    funext g
    by_cases hg : g = h
    · rw [if_pos hg, hg]
    · rw [if_neg hg]
  rw [World.setHost, hfun]

@[simp] theorem World.setHost_host : (w.setHost h host).host h = host := if_pos rfl

theorem World.setHost_other {g h : ι} (hg : g ≠ h) : (w.setHost h host).host g = w.host g :=
  if_neg hg

/-- A walk that did not end on an uncached item found none. -/
theorem Heap.answer_reached {params : AllocParams}
    (h : (H.answer params).status = .notFound ∨ (H.answer params).status = .outOfResources ∨
      (H.answer params).params.isCached = true) :
    ∀ f, H.lookup params.smemType = some f → f.cached = true := by
  intro f hf
  simp only [Heap.answer, hf, reduceCtorEq, false_or, found_isCached] at h
  exact h

/-- The step of a host that is set up, and whose call is not refused. -/
structure Step.Accepted (H H' : Heap L) (w : World ι) (e : Event ι) (w' : World ι) : Prop where
  ext : H'.Extends H
  holds : H'.Holds w'.mem
  current : (w'.host e.host).Current H'
  other : ∀ g, g ≠ e.host → w'.host g = w.host g
  cached : ReachedCached w e w' ∨
      (w.host e.host ≠ Host.uninit ∧ (w.host e.host).CachedMapped H) ∨
      (w.host e.host = Host.uninit ∧ H.cached = []) →
    (w'.host e.host).CachedMapped H'

theorem Step.getAddr (hfuel : L.size.toNat ≤ 16 * fuel) (hinv : w.Inv H)
    (hstep : Step L thisHost fuel w ⟨h, .getAddr params, answer⟩ w') :
    (w' = w ∧ (answer.status = .invalidParam ∨ w.host h = Host.uninit)) ∨
      Step.Accepted H H w ⟨h, .getAddr params, answer⟩ w' := by
  simp only [Step, World.call, map_eq_some_iff, Prod.mk.injEq, Prod.exists] at hstep
  obtain ⟨_, host', hcall, rfl, rfl⟩ := hstep
  rcases hinv.host h with hun | hknown
  · obtain ⟨a, hget⟩ := getAddrEx_uninit L (thisHost h) fuel w.mem params
    rw [hun, hget] at hcall
    obtain ⟨-, rfl⟩ := Prod.mk.inj (Option.some.inj hcall)
    refine .inl ⟨?_, .inr hun⟩
    rw [← hun, World.setHost_self]
  by_cases hok : params.HostOk (thisHost h)
  · obtain ⟨host₁, hget, hcurrent, hcached⟩ :=
      getAddrEx_spec params hinv.holds hknown.toMapped hok hfuel
    rw [hget] at hcall
    obtain ⟨rfl, rfl⟩ := Prod.mk.inj (Option.some.inj hcall)
    refine .inr ⟨Heap.Extends.refl H, hinv.holds, ?_, fun g hg => World.setHost_other hg, ?_⟩
    · rw [World.setHost_host]
      exact hcurrent
    · rw [World.setHost_host]
      rintro (hreach | ⟨-, hold⟩ | ⟨hun, -⟩)
      · refine hcached (.inl (Heap.answer_reached (hreach.resolve_left fun hne => hne rfl)))
      · exact hcached (.inr hold)
      · exact absurd hun hknown.ne_uninit
  · rw [getAddrEx_refused hok] at hcall
    obtain ⟨rfl, rfl⟩ := Prod.mk.inj (Option.some.inj hcall)
    exact .inl ⟨World.setHost_self, .inl rfl⟩

theorem Step.alloc (hfuel : L.size.toNat ≤ 16 * fuel) (hinv : w.Inv H)
    (hstep : Step L thisHost fuel w ⟨h, .alloc params, answer⟩ w') :
    (w' = w ∧ (answer.status = .invalidParam ∨ w.host h = Host.uninit)) ∨
      ∃ H', Step.Accepted H H' w ⟨h, .alloc params, answer⟩ w' := by
  simp only [Step, World.call, map_eq_some_iff, Prod.mk.injEq, Prod.exists] at hstep
  obtain ⟨_, host', m', hcall, rfl, rfl⟩ := hstep
  rcases hinv.host h with hun | hknown
  · obtain ⟨a, halloc⟩ := allocEx_uninit L (thisHost h) fuel w.mem params
    rw [hun, halloc] at hcall
    obtain ⟨-, rfl, rfl⟩ := Option.some.inj hcall
    refine .inl ⟨?_, .inr hun⟩
    rw [← hun, World.setHost_self]
  by_cases hok : params.AllocOk L.smemInfo (thisHost h)
  · obtain ⟨a, host₁, m₁, halloc, hout⟩ := allocEx_spec hinv.holds hknown.toMapped hok hfuel
    rw [halloc] at hcall
    obtain ⟨rfl, rfl, rfl⟩ := Option.some.inj hcall
    right
    cases hout with
    | @«exists» f host' hlookup hcurrent hcached =>
      refine ⟨H, Heap.Extends.refl H, hinv.holds, ?_, fun g hg => World.setHost_other hg, ?_⟩
      · simpa using hcurrent
      · simp only [World.setHost_host]
        rintro (hreach | ⟨-, hold⟩ | ⟨hun, -⟩)
        · refine hcached (.inl ?_)
          rcases hreach with hne | hst | hst | hc
          · exact absurd rfl hne
          · simp only at hst
            split at hst <;> cases hst
          · simp only at hst
            split at hst <;> cases hst
          · rwa [← found_isCached params]
        · exact hcached (.inr hold)
        · exact absurd hun hknown.ne_uninit
    | full hlookup hcurrent hcached =>
      refine ⟨H, Heap.Extends.refl H, hinv.holds, ?_, fun g hg => World.setHost_other hg,
        fun _ => ?_⟩
      · simpa using hcurrent
      · simpa using hcached
    | @fresh H' f host' m' hlookup hext hfound hside hreq hholds hcurrent hcached =>
      refine ⟨H', hext, hholds, ?_, fun g hg => World.setHost_other hg, fun _ => ?_⟩
      · simpa using hcurrent
      · simpa using hcached
  · rw [allocEx_refused hok] at hcall
    obtain ⟨rfl, rfl, rfl⟩ := Option.some.inj hcall
    exact .inl ⟨World.setHost_self, .inl rfl⟩

theorem Step.init (hfuel : L.size.toNat ≤ 16 * fuel) (hinv : w.Inv H) {stack : AllocParams}
    (hstep : Step L thisHost fuel w ⟨h, .init stack, answer⟩ w') :
    Step.Accepted H H w ⟨h, .init stack, answer⟩ w' := by
  simp only [Step, World.call] at hstep
  by_cases hun : w.host h = Host.uninit
  case neg =>
    rw [if_neg hun] at hstep
    cases hstep
  rw [if_pos hun] at hstep
  simp only [map_eq_some_iff, Prod.mk.injEq, Prod.exists] at hstep
  obtain ⟨answer, host', hcall, rfl, rfl⟩ := hstep
  simp only [partInit] at hcall
  by_cases hok :
      ({ stack with remoteHost := thisHost h, smemType := memFirst } : AllocParams).HostOk
        (thisHost h)
  case neg =>
    rw [getAddrEx_refused hok] at hcall
    cases hcall
  obtain ⟨host₁, hget, hcurrent, hcached⟩ :=
    getAddrEx_spec _ hinv.holds initHost_mapped hok hfuel
  have hres : (H.answer { stack with remoteHost := thisHost h, smemType := memFirst }, host₁) =
      (answer, host') := by
    rw [hget] at hcall
    cases hl : H.lookup memFirst <;> simp only [Heap.answer, hl] at hcall ⊢ <;>
      exact Option.some.inj hcall
  obtain ⟨rfl, rfl⟩ := Prod.mk.inj hres
  refine ⟨Heap.Extends.refl H, hinv.holds, ?_, fun g hg => World.setHost_other hg, ?_⟩
  · simpa using hcurrent
  · simp only [World.setHost_host]
    rintro (hreach | ⟨hne, -⟩ | ⟨-, hempty⟩)
    · exact hcached (.inl (Heap.answer_reached (hreach.resolve_left fun hne => hne rfl)))
    · exact absurd hun hne
    · -- with no cached item there is nothing to map
      refine hcached (.inr ?_)
      simp only [Host.CachedMapped, Heap.freeCached, hempty, space_nil]
      omega

/-- **What a step can do**: it is refused, and nothing changes; or memory comes to hold a heap that
extends the one before, and the host is current with it. -/
theorem Step.spec (hfuel : L.size.toNat ≤ 16 * fuel) (hinv : w.Inv H)
    (hstep : Step L thisHost fuel w e w') :
    (w' = w ∧ (e.answer.status = .invalidParam ∨ w.host e.host = Host.uninit)) ∨
      ∃ H', Step.Accepted H H' w e w' := by
  obtain ⟨h, call, answer⟩ := e
  cases call with
  | init stack => exact .inr ⟨H, Step.init hfuel hinv hstep⟩
  | alloc params => exact Step.alloc hfuel hinv hstep
  | getAddr params => exact (Step.getAddr hfuel hinv hstep).imp id fun h => ⟨H, h⟩

/-- The invariant survives a step. -/
theorem Step.Accepted.inv (h : Step.Accepted H H' w e w') (hinv : w.Inv H) : w'.Inv H' where
  holds := h.holds
  host g := by
    by_cases hg : g = e.host
    · rw [hg]
      exact .inr h.current.known
    · rw [h.other g hg]
      exact (hinv.host g).imp id fun hk => hk.extends h.ext

theorem Step.inv (hfuel : L.size.toNat ≤ 16 * fuel) (hinv : w.Inv H)
    (hstep : Step L thisHost fuel w e w') : ∃ H' : Heap L, H'.Extends H ∧ w'.Inv H' := by
  rcases Step.spec hfuel hinv hstep with ⟨rfl, -⟩ | ⟨H', hacc⟩
  · exact ⟨H, Heap.Extends.refl H, hinv⟩
  · exact ⟨H', hacc.ext, hacc.inv hinv⟩

/-! ## Runs -/

variable {m₀ : Memory} {host0 host1 : UInt16} {history : List (Event ι)}

/-- Executing calls is a run. -/
theorem World.calls_run {w₀ : World ι} {l : List (ι × Call)}
    (run : Run (Step L thisHost fuel) w₀ history w) (h : w.calls L thisHost fuel l = some w') :
    ∃ history', Run (Step L thisHost fuel) w₀ history' w' := by
  induction l generalizing w history with
  | nil =>
    obtain rfl := Option.some.inj h
    exact ⟨history, run⟩
  | cons c l ih =>
    obtain ⟨⟨answer, u⟩, hcall, hrest⟩ := bind_eq_some_iff.mp h
    have hstep : Step L thisHost fuel w ⟨c.1, c.2, answer⟩ u := hcall
    exact ih (.step run hstep) hrest

omit [DecidableEq ι] in
theorem World.start_inv : (World.start (ι := ι) L m₀ host0 host1).Inv (Heap.empty L) where
  holds := setupHeader_holds
  host _ := .inl rfl

/-- Every reachable state has its heap. -/
theorem run_inv (hfuel : L.size.toNat ≤ 16 * fuel)
    (run : Run (Step L thisHost fuel) (World.start L m₀ host0 host1) history w) :
    ∃ H : Heap L, w.Inv H :=
  run.state_invariant (P := fun w => ∃ H : Heap L, w.Inv H) ⟨_, World.start_inv⟩
    fun ⟨_, hinv⟩ hstep => (Step.inv hfuel hinv hstep).imp fun _ h => h.2

/-- A host that is alone has mapped all cached items, or is not set up and the heap has none. -/
theorem run_alone (hfuel : L.size.toNat ≤ 16 * fuel)
    (run : Run (Step L thisHost fuel) (World.start L m₀ host0 host1) history w)
    (halone : ∀ e ∈ history, e.host = h) :
    ∃ H : Heap L, w.Inv H ∧ ((w.host h = Host.uninit ∧ H.cached = []) ∨
      (w.host h).Current H ∧ (w.host h).CachedMapped H) := by
  refine run.invariant (P := fun history w => (∀ e ∈ history, e.host = h) → ∃ H : Heap L,
    w.Inv H ∧ ((w.host h = Host.uninit ∧ H.cached = []) ∨
      (w.host h).Current H ∧ (w.host h).CachedMapped H)) ?_ ?_ halone
  · exact fun _ => ⟨_, World.start_inv, .inl ⟨rfl, rfl⟩⟩
  · intro history w e w' _ ih hstep halone
    have hhost := halone e mem_cons_self
    obtain ⟨H, hinv, hknown⟩ := ih fun e he => halone e (mem_cons_of_mem _ he)
    rcases Step.spec hfuel hinv hstep with ⟨rfl, -⟩ | ⟨H', hacc⟩
    · exact ⟨H, hinv, hknown⟩
    · refine ⟨H', hacc.inv hinv, .inr ?_⟩
      rw [← hhost] at hknown ⊢
      refine ⟨hacc.current, hacc.cached (.inr ?_)⟩
      exact hknown.symm.imp (fun hc => ⟨hc.1.ne_uninit, hc.2⟩) id

/-- The offsets of a host that are ordered in every reachable state. -/
def OffsetsOrdered (L : Layout) (info : PartitionInfo) : Prop :=
  32 ≤ info.offsetFreeUncached.toNat ∧
    info.offsetFreeUncached ≤ info.offsetMappedUncached ∧
    info.offsetMappedUncached ≤ info.offsetMappedCached ∧ info.offsetMappedCached ≤ L.size ∧
    info.offsetMappedUncached ≤ info.offsetFreeCached ∧ info.offsetFreeCached ≤ L.size

theorem Host.Known.ordered (h : host.Known H) : OffsetsOrdered L host.info := by
  have hmc := h.toMapped.apart h.toMapped
  have hdown := roundDown_le (n := H.freeCached) (k := 4096)
  have hfc : host.info.offsetMappedUncached.toNat ≤ host.info.offsetFreeCached.toNat :=
    Nat.le_trans h.uncached_le (Nat.le_trans H.apart (Nat.le_trans hdown h.le_free))
  refine ⟨h.header_le, ?_, ?_, ?_, ?_, ?_⟩ <;> rw [UInt32.le_iff_toNat_le]
  · exact h.free_le
  · exact hmc
  · exact h.cached_le
  · exact hfc
  · exact h.free_le_size

omit [DecidableEq ι] in
/-- What one host maps uncached ends below what any host maps cached. -/
theorem World.Inv.mappings_apart (hinv : w.Inv H) {g h : ι} {x y : Mapping}
    (hx : x ∈ (w.host g).mappings) (hy : y ∈ (w.host h).mappings) (hxc : x.cached = false)
    (hyc : y.cached = true) : x.offset.toNat + x.size.toNat ≤ y.offset.toNat := by
  rcases hinv.host g with hg | hg
  · rw [hg] at hx
    cases hx
  rcases hinv.host h with hh | hh
  · rw [hh] at hy
    cases hy
  have hxs := hg.mappings x hx
  have hys := hh.mappings y hy
  have hapart := hg.toMapped.apart hh.toMapped
  simp only [Mapping.OnSide, hxc, hyc, Bool.false_eq_true, if_false, if_true] at hxs hys
  omega

theorem Host.Current.cachedMapped (h : host.Current H) (hc : host.CachedMapped H) :
    host.info.offsetMappedCached ≤ host.info.offsetFreeCached := by
  rw [UInt32.le_iff_toNat_le, h.freeCached]
  exact hc

/-- Every call of a reachable state returns. -/
theorem World.Inv.returns (hfuel : L.size.toNat ≤ 16 * fuel) (hinv : w.Inv H) (h : ι)
    (params : AllocParams) :
    (∃ answer w', Step L thisHost fuel w ⟨h, .alloc params, answer⟩ w') ∧
      ∃ answer w', Step L thisHost fuel w ⟨h, .getAddr params, answer⟩ w' := by
  have halloc : ∃ r, allocEx L.smemInfo (thisHost h) fuel w.mem params (w.host h) = some r := by
    rcases hinv.host h with hun | hknown
    · obtain ⟨a, ha⟩ := allocEx_uninit L (thisHost h) fuel w.mem params
      exact ⟨_, by rw [hun, ha]⟩
    by_cases hok : params.AllocOk L.smemInfo (thisHost h)
    · obtain ⟨a, host', m', ha, -⟩ := allocEx_spec hinv.holds hknown.toMapped hok hfuel
      exact ⟨_, ha⟩
    · exact ⟨_, allocEx_refused hok⟩
  have hget : ∃ r, getAddrEx L.smemInfo (thisHost h) fuel w.mem params (w.host h) = some r := by
    rcases hinv.host h with hun | hknown
    · obtain ⟨a, ha⟩ := getAddrEx_uninit L (thisHost h) fuel w.mem params
      exact ⟨_, by rw [hun, ha]⟩
    by_cases hok : params.HostOk (thisHost h)
    · obtain ⟨host', ha, -, -⟩ := getAddrEx_spec params hinv.holds hknown.toMapped hok hfuel
      exact ⟨_, ha⟩
    · exact ⟨_, getAddrEx_refused hok⟩
  obtain ⟨⟨answer, host', m'⟩, hr⟩ := halloc
  obtain ⟨⟨answer', host''⟩, hq⟩ := hget
  refine ⟨⟨answer, { w.setHost h host' with mem := m' }, ?_⟩, ⟨answer', w.setHost h host'', ?_⟩⟩
  · simp only [Step, World.call, hr, map_some]
  · simp only [Step, World.call, hq, map_some]

/-- **The invariant of a shared partition.** In every reachable state memory holds a heap whose
headers, buffers and paddings lie disjoint inside the partition, with at most one item of a type;
the offsets of every host that is set up are ordered; no page is mapped both uncached and cached,
by whichever hosts; and every call returns. A host has mapped down to the free offset of the cached
side when it is the only one to make calls, and after every call that reaches the cached side. -/
theorem partition_invariant (hfuel : L.size.toNat ≤ 16 * fuel)
    (run : Run (Step L thisHost fuel) (World.start L m₀ host0 host1) history w) :
    (∃ H : Heap L, H.Holds w.mem ∧ H.spans.Pairwise Span.Disjoint ∧
      (∀ s ∈ H.spans, s.Within L.span) ∧ H.types.Nodup) ∧
    (∀ h, w.host h ≠ Host.uninit → OffsetsOrdered L (w.host h).info) ∧
    (∀ g h x y, x ∈ (w.host g).mappings → y ∈ (w.host h).mappings → x.cached = false →
      y.cached = true → x.offset.toNat + x.size.toNat ≤ y.offset.toNat) ∧
    (∀ h params, (∃ answer w', Step L thisHost fuel w ⟨h, .alloc params, answer⟩ w') ∧
      ∃ answer w', Step L thisHost fuel w ⟨h, .getAddr params, answer⟩ w') ∧
    (∀ h, (∀ e ∈ history, e.host = h) →
      (w.host h).info.offsetMappedCached ≤ (w.host h).info.offsetFreeCached) ∧
    (∀ e w', Step L thisHost fuel w e w' → e.answer.status ≠ .invalidParam →
      ReachedCached w e w' →
      (w'.host e.host).info.offsetMappedCached ≤ (w'.host e.host).info.offsetFreeCached) := by
  obtain ⟨H, hinv⟩ := run_inv hfuel run
  refine ⟨⟨H, hinv.holds, H.spans_disjoint.1, H.spans_disjoint.2, H.unique⟩, ?_, ?_, ?_, ?_, ?_⟩
  · intro h hset
    exact ((hinv.host h).resolve_left hset).ordered
  · exact fun g h x y hx hy hxc hyc => hinv.mappings_apart hx hy hxc hyc
  · exact fun h params => hinv.returns hfuel h params
  · intro h halone
    obtain ⟨H', -, ⟨hun, -⟩ | ⟨hcurrent, hcached⟩⟩ := run_alone hfuel run halone
    · rw [hun]
      exact UInt32.le_refl _
    · exact hcurrent.cachedMapped hcached
  · intro e w' hstep hvalid hreach
    rcases Step.spec hfuel hinv hstep with ⟨rfl, hst | hun⟩ | ⟨H', hacc⟩
    · exact absurd hst hvalid
    · rw [hun]
      exact UInt32.le_refl _
    · exact hacc.current.cachedMapped (hacc.cached (.inl hreach))

/-! ## Two hosts -/

/-- A partition of four pages. -/
def exampleLayout : Layout where
  smemInfo := ⟨0x86000000, 0x200000, 512⟩
  offset := 0x1000
  size := 0x4000
  cacheline := 32
  base_aligned := by decide
  offset_aligned := by decide
  size_aligned := by decide
  size_pos := by decide
  inside := by decide
  below := by decide
  cacheline_pos := by decide
  cacheline_le := by decide
  above := by decide

/-- A request for the common partition. -/
def request (smemType size flags : UInt32) : AllocParams := ⟨invalidHost, smemType, size, 0, flags⟩

/-- Both hosts are set up; the first allocates an uncached and a cached item, and the second looks
the uncached one up. -/
def exampleCalls : List (Bool × Call) :=
  [(false, .init (request 0 0 0)), (true, .init (request 0 0 0)),
    (false, .alloc (request 5 8 0)), (false, .alloc (request 6 8 allocFlagCached)),
    (true, .getAddr (request 5 0 0))]

/-- The world after the calls. -/
def exampleWorld : Option (World Bool) :=
  (World.start exampleLayout Memory.zero 0xFFFE 0xFFFE).calls exampleLayout (fun _ => 0) 1024
    exampleCalls

theorem exampleWorld_run : ∃ w history, exampleWorld = some w ∧
    Run (Step exampleLayout (fun _ => 0) 1024)
      (World.start exampleLayout Memory.zero 0xFFFE 0xFFFE) history w := by
  obtain ⟨w, hw⟩ := isSome_iff_exists.mp (show exampleWorld.isSome = true by decide +kernel)
  obtain ⟨history, run⟩ := World.calls_run .start hw
  exact ⟨w, history, hw, run⟩

theorem partition_invariant_two_hosts : ∃ w history,
    Run (Step exampleLayout (fun _ => 0) 1024)
      (World.start exampleLayout Memory.zero 0xFFFE 0xFFFE) history w ∧
    w.host true ≠ Host.uninit ∧ OffsetsOrdered exampleLayout (w.host true).info := by
  obtain ⟨w, history, hw, run⟩ := exampleWorld_run
  have hset : w.host true ≠ Host.uninit := by
    have h : exampleWorld.map (fun w => decide (w.host true = Host.uninit)) = some false := by
      decide +kernel
    rw [hw] at h
    simpa using h
  exact ⟨w, history, run, hset, (partition_invariant (by decide) run).2.1 true hset⟩

/-- The second host knows of the cached item, and has not mapped its page. -/
theorem cached_offset_behind : ∃ w history,
    Run (Step exampleLayout (fun _ => 0) 1024)
      (World.start exampleLayout Memory.zero 0xFFFE 0xFFFE) history w ∧
    w.host true ≠ Host.uninit ∧
    ¬ (w.host true).info.offsetMappedCached ≤ (w.host true).info.offsetFreeCached := by
  obtain ⟨w, history, hw, run⟩ := exampleWorld_run
  have h : exampleWorld.map (fun w => decide (w.host true ≠ Host.uninit ∧
      ¬ (w.host true).info.offsetMappedCached ≤ (w.host true).info.offsetFreeCached)) =
      some true := by
    decide +kernel
  rw [hw] at h
  have hbehind := of_decide_eq_true (Option.some.inj h)
  exact ⟨w, history, run, hbehind⟩

end

end Smem
