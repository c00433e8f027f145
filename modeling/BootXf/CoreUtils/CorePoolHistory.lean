import BootXf.CoreUtils.CorePool

/-!
# What the users of a pool rely on

A pool of some elements, made by `Core_PoolCreate`, serves as many allocations before it asks its
allocator only when a pointer has four bytes: with eight bytes it has one element less. The
elements that are handed out and those on the free list never overlap (`corePool_sound`).
-/

namespace CoreUtils.CorePool

open Lib List Option

/-! ## Serving -/

/-- The pool serves so many allocations by itself. -/
def Serves (w : PointerSize) : Nat → State → Prop
  | 0, _ => True
  | k + 1, s => ∃ r, corePoolAlloc w s none = some r ∧ r.elem ≠ none ∧ r.asked = none ∧
    Serves w k r.state

section
variable {w : PointerSize} {s : State} {memory : Memory} {a data k : Nat} {n size : UInt32}
    {free out : List Nat}
  {blocks : List Span} {answer : Option Nat}

theorem alloc_free (h : Keeps w s (a :: free) out blocks) :
    corePoolAlloc w s answer = some ⟨(corePoolPop w s).1, some a, none⟩ := by
  have hpop : corePoolPop w s = ((corePoolPop w s).1, some a) := Prod.ext rfl h.pop.1
  rw [corePoolAlloc, hpop]

/-- With no element left, the allocator may be asked. -/
def State.Asks (s : State) : Prop := s.pool.hasAllocator = true ∧ 0 < s.pool.blockSize

theorem pop_empty (h : s.pool.freeList = none) :
    corePoolPop w s = (s, none) := by rw [corePoolPop, h]

theorem alloc_refused (h : s.pool.freeList = none) (hasks : s.Asks) :
    corePoolAlloc w s none = some ⟨s, none, some s.pool.blockSize⟩ := by
  rw [corePoolAlloc, pop_empty h]
  exact if_pos hasks

theorem alloc_asks (h : s.pool.freeList = none) (hasks : s.Asks) : corePoolAlloc w s (some data) =
    (corePoolFill w s data s.pool.blockSize).map fun t =>
      ⟨(corePoolPop w t).1, (corePoolPop w t).2, some s.pool.blockSize⟩ := by
  rw [corePoolAlloc, pop_empty h]
  exact if_pos hasks

theorem alloc_idle (h : s.pool.freeList = none) (hidle : ¬ s.Asks) :
    corePoolAlloc w s answer = some ⟨s, none, none⟩ := by
  rw [corePoolAlloc, pop_empty h]
  exact if_neg hidle

/-- A pool serves as many allocations as it has elements. -/
theorem serves_iff (h : Keeps w s free out blocks) : Serves w k s ↔ k ≤ free.length := by
  induction k generalizing s free out with
  | zero => exact iff_of_true trivial (Nat.zero_le _)
  | succ k ih =>
    cases free with
    | nil =>
      refine iff_of_false ?_ (Nat.not_succ_le_zero k)
      rintro ⟨r, hr, helem, -⟩
      by_cases hasks : s.Asks
      · rw [alloc_refused h.linked hasks] at hr
        cases hr
        exact helem rfl
      · rw [alloc_idle h.linked hasks] at hr
        cases hr
        exact helem rfl
    | cons a free =>
      obtain ⟨-, hkeeps, -⟩ := h.pop
      rw [length_cons, Nat.succ_le_succ_iff, ← ih hkeeps]
      constructor
      · rintro ⟨r, hr, -, -, hserves⟩
        rw [alloc_free h] at hr
        cases hr
        exact hserves
      · exact fun hserves => ⟨_, alloc_free h, some_ne_none _, rfl, hserves⟩

/-- What there is at first. -/
structure Created (w : PointerSize) (n size : UInt32) (data : Nat) (s : State)
    (free : List Nat) : Prop where
  keeps : Keeps w s free [] [⟨data, (corePoolBlockSize w n size).toNat⟩]
  length : free.length = elements w (max size.toNat w.bytes) (corePoolBlockSize w n size).toNat
  blockSize : s.pool.blockSize = corePoolBlockSize w n size
  elemSize : s.pool.elemSize.toNat = max size.toNat w.bytes
  hasAllocator : s.pool.hasAllocator = true

/-- A pool is made unless the block is too small for its header. -/
theorem create_cases (memory : Memory)
    (hfresh : Fresh w [] ⟨data, (corePoolBlockSize w n size).toNat⟩) :
    (corePoolCreate w memory n size (some data) = none ∧
      (corePoolBlockSize w n size).toNat < sizeofBlock w) ∨
    ∃ s free, corePoolCreate w memory n size (some data) = some s ∧
      Created w n size data s free := by
  have hpos := bytes_pos (w := w)
  have hsize : (UInt32.ofNat (max size.toNat w.bytes)).toNat = max size.toNat w.bytes := by
    have hlt := size.toNat_lt
    have hbytes : w.bytes ≤ 8 := by cases w <;> decide
    exact UInt32.toNat_ofNat_of_lt' (show _ < 2 ^ 32 by omega)
  let pool : CorePoolType := ⟨none, 0, 0, none, .ofNat (max size.toNat w.bytes), 0, false⟩
  have hlarge : w.bytes ≤ pool.elemSize.toNat := hsize.symm ▸ Nat.le_max_right ..
  by_cases hzero : corePoolBlockSize w n size = 0
  · have hcreate : corePoolCreate w memory n size (some data) =
        some ⟨{ pool with hasAllocator := true }, memory⟩ := by
      rw [corePoolCreate, bind_some, corePoolInit, if_pos hzero]
      rfl
    refine .inr ⟨_, [], hcreate, .empty rfl hlarge rfl ?_, ?_, hzero.symm, hsize, rfl⟩
    · exact forall_mem_singleton.mpr ⟨hfresh.1, hfresh.2.1⟩
    · rw [hzero, elements, show (0 : UInt32).toNat - sizeofBlock w = 0 from Nat.zero_sub _,
        Nat.zero_div]
      rfl
  · have hcreate : corePoolCreate w memory n size (some data) =
        (corePoolFill w ⟨{ pool with blockSize := corePoolBlockSize w n size }, memory⟩ data
          (corePoolBlockSize w n size)).map fun s =>
            ⟨{ s.pool with hasAllocator := true }, s.memory⟩ := by
      rw [corePoolCreate, bind_some, corePoolInit, if_neg hzero, bind_some]
    rw [hcreate]
    by_cases hsmall : (corePoolBlockSize w n size).toNat < sizeofBlock w
    · exact .inl ⟨by rw [fill_small hsmall]; rfl, hsmall⟩
    · have hempty :
          Keeps w ⟨{ pool with blockSize := corePoolBlockSize w n size }, memory⟩ [] [] [] :=
        .empty rfl hlarge rfl fun _ hb => (by cases hb)
      obtain ⟨t, new, hfill, hlength, hkeeps, hblock, helem, -⟩ :=
        hempty.fill (Nat.le_of_not_lt hsmall) hfresh
      rw [append_nil] at hkeeps
      refine .inr ⟨⟨{ t.pool with hasAllocator := true }, t.memory⟩,
        new, by rw [hfill]; rfl, ⟨hkeeps.linked,
        hkeeps.large, hkeeps.apart, hkeeps.inside, hkeeps.space, hkeeps.count⟩, ?_, hblock, ?_, rfl⟩
      · rw [hlength]
        exact congrArg (elements w · _) hsize
      · rw [show t.pool.elemSize = .ofNat (max size.toNat w.bytes) from helem, hsize]

theorem toNat_corePoolBlockSize (w : PointerSize) (size : UInt32) (hn : n ≠ 0) :
    (corePoolBlockSize w n size).toNat =
    (w.bytes + 4 + n.toNat * max size.toNat w.bytes) % 2 ^ 32 := by
  rw [corePoolBlockSize, if_neg hn, UInt32.toNat_ofNat']

/-- **When a block has the elements that it is made for.** -/
theorem elements_iff (hn : n ≠ 0) :
    n.toNat ≤ elements w (max size.toNat w.bytes) (corePoolBlockSize w n size).toNat ↔
      w = .four ∧ 8 + n.toNat * max size.toNat 4 < 2 ^ 32 := by
  have hpos : 0 < n.toNat := Nat.pos_of_ne_zero fun hno => hn (UInt32.toNat_inj.mp hno)
  rw [elements, Nat.le_div_iff_mul_le (Nat.lt_of_lt_of_le bytes_pos (Nat.le_max_right ..)),
    toNat_corePoolBlockSize _ _ hn]
  cases w with
  | four =>
    have hmul : 0 < n.toNat * max size.toNat 4 := Nat.mul_pos hpos (by omega)
    show n.toNat * max size.toNat 4 ≤ (8 + n.toNat * max size.toNat 4) % 2 ^ 32 - 8 ↔ _
    constructor
    · intro hle
      exact ⟨rfl, by omega⟩
    · rintro ⟨-, hlt⟩
      omega
  | eight =>
    have hmul : 0 < n.toNat * max size.toNat 8 := Nat.mul_pos hpos (by omega)
    show n.toNat * max size.toNat 8 ≤ (12 + n.toNat * max size.toNat 8) % 2 ^ 32 - 16 ↔ _
    refine iff_of_false ?_ fun hno => by cases hno.1
    omega

end

/-! ## Growing -/

/-- The block that the allocator has given. -/
def granted : Option UInt32 → Option Nat → List Span
  | some blockSize, some data => [⟨data, blockSize.toNat⟩]
  | _, _ => []

section
variable {w : PointerSize} {s : State} {r : Allocated} {data : Nat} {free out l : List Nat}
    {blocks : List Span}
  {answer : Option Nat}

theorem FreeList.eq_nil {m : Memory} (h : FreeList w m none l) : l = [] := by
  cases l with
  | nil => rfl
  | cons a l => cases h.1

/-- **An allocation**: what it keeps to, and that the pool gets no new elements unless the
allocator is asked. -/
theorem Keeps.alloc (h : Keeps w s free out blocks) (halloc : corePoolAlloc w s answer = some r)
    (hfresh : ∀ blockSize ∈ r.asked, ∀ data ∈ answer, Fresh w blocks ⟨data, blockSize.toNat⟩) :
      ∃ free',
      Keeps w r.state free' (r.elem.toList ++ out) (granted r.asked answer ++ blocks) ∧
      (r.state.pool.blockSize = s.pool.blockSize ∧ r.state.pool.elemSize = s.pool.elemSize ∧
        r.state.pool.hasAllocator = s.pool.hasAllocator) ∧
      (r.asked = none → free'.length + (r.elem.toList ++ out).length =
        free.length + out.length) := by
  cases free with
  | cons a free =>
    rw [alloc_free h] at halloc
    cases halloc
    obtain ⟨-, hkeeps, hsame⟩ := h.pop
    refine ⟨free, hkeeps, hsame, fun _ => ?_⟩
    show free.length + (out.length + 1) = free.length + 1 + out.length
    omega
  | nil =>
    by_cases hasks : s.Asks
    · cases answer with
      | none =>
        rw [alloc_refused h.linked hasks] at halloc
        cases halloc
        exact ⟨[], h, ⟨rfl, rfl, rfl⟩, fun hno => by cases hno⟩
      | some data =>
        rw [alloc_asks h.linked hasks] at halloc
        obtain ⟨t, hfill, hr⟩ := map_eq_some_iff.mp halloc
        subst hr
        have hlarge : sizeofBlock w ≤ s.pool.blockSize.toNat := by
          refine Nat.le_of_not_lt fun hsmall => ?_
          rw [fill_small hsmall] at hfill
          cases hfill
        obtain ⟨t', new, hfill', -, hkeeps, hsame⟩ := h.fill hlarge (hfresh _ rfl data rfl)
        obtain rfl := Option.some.inj (hfill.symm.trans hfill')
        cases new with
        | nil =>
          rw [pop_empty hkeeps.linked]
          exact ⟨[], hkeeps, hsame, fun hno => by cases hno⟩
        | cons a new =>
          obtain ⟨hfirst, hkeeps', hblock, helem, hallocator⟩ := hkeeps.pop
          rw [hfirst]
          exact ⟨_, hkeeps',
            ⟨hblock.trans hsame.1, helem.trans hsame.2.1, hallocator.trans hsame.2.2⟩,
            fun hno => by cases hno⟩
    · rw [alloc_idle h.linked hasks] at halloc
      cases halloc
      exact ⟨[], h, ⟨rfl, rfl, rfl⟩, fun _ => rfl⟩

/-- **When a block that the allocator gives has an element.** -/
theorem grows_iff (h : Keeps w s free out blocks) (hempty : s.pool.freeList = none)
    (hallocator : s.pool.hasAllocator = true) (hblock : s.pool.blockSize ≠ 0)
    (hfresh : Fresh w blocks ⟨data, s.pool.blockSize.toNat⟩) :
    (∃ r a, corePoolAlloc w s (some data) = some r ∧ r.elem = some a) ↔
      sizeofBlock w + s.pool.elemSize.toNat ≤ s.pool.blockSize.toNat := by
  have hpos := Nat.lt_of_lt_of_le (bytes_pos (w := w)) h.large
  have hasks : s.Asks :=
    ⟨hallocator, Decidable.byContradiction fun hno => hblock (uint32_eq_zero_of_not_pos hno)⟩
  obtain rfl := FreeList.eq_nil (hempty ▸ h.linked)
  rw [alloc_asks hempty hasks]
  by_cases hsmall : s.pool.blockSize.toNat < sizeofBlock w
  · rw [fill_small hsmall]
    refine iff_of_false ?_ (by omega)
    rintro ⟨r, a, hno, -⟩
    cases hno
  · obtain ⟨t, new, hfill, hlength, hkeeps, -⟩ := h.fill (Nat.le_of_not_lt hsmall) hfresh
    rw [hfill]
    cases new with
    | nil =>
      have hnone := Nat.div_eq_zero_iff.mp hlength.symm
      refine iff_of_false ?_ (by omega)
      rintro ⟨r, a, hr, helem⟩
      cases hr
      have helem : (corePoolPop w t).2 = some a := helem
      rw [pop_empty hkeeps.linked] at helem
      cases helem
    | cons a new =>
      have hsome : 0 < elements w s.pool.elemSize.toNat s.pool.blockSize.toNat :=
        hlength ▸ Nat.succ_pos _
      have hdiv := (Nat.div_pos_iff.mp hsome).2
      exact iff_of_true ⟨_, a, rfl, hkeeps.pop.1⟩ (by omega)

/-- **In memory of 32-bit addresses** there are less than `2 ^ 32` elements. -/
theorem Keeps.count_lt (h : Keeps .four s free out blocks) : free.length + out.length < 2 ^ 32 := by
  have hlarge : 4 ≤ s.pool.elemSize.toNat := h.large
  have hnodup : (free ++ out).Nodup := by
    refine h.apart.imp fun {a b} hdisjoint heq => ?_
    subst heq
    simp only [Span.Disjoint, Span.stop] at hdisjoint
    omega
  have hsub : free ++ out ⊆ List.range (2 ^ 32 - 1) := by
    intro a ha
    have hspace : a + s.pool.elemSize.toNat ≤ 256 ^ 4 := (h.bounds ha).2
    rw [mem_range]
    omega
  have hlength := hnodup.length_le_of_subset hsub
  rw [length_append, length_range] at hlength
  omega

end

/-! ## Runs -/

/-- A pool, the elements that are handed out, and the blocks that the pool has been given. -/
structure World where
  state : State
  out : List Nat
  blocks : List Span

/-- A call, with what the allocator would answer, or a user who writes to the elements that are
handed out. -/
inductive Event
  | alloc (answer : Option Nat) (asked : Option UInt32) (elem : Option Nat)
  | free (data : Nat)
  | setAllocationSize (elemNum : UInt32)
  | write

/-- The allocator has been asked. -/
def Event.asks : Event → Bool
  | alloc _ asked _ => asked.isSome
  | _ => false

/-- An element has been handed out. -/
def Event.serves : Event → Bool
  | alloc _ _ elem => elem.isSome
  | _ => false

inductive Step (w : PointerSize) : World → Event → World → Prop
  | alloc {x : World} {answer : Option Nat} {r : Allocated} :
      corePoolAlloc w x.state answer = some r →
      (∀ blockSize ∈ r.asked, ∀ data ∈ answer, Fresh w x.blocks ⟨data, blockSize.toNat⟩) →
      Step w x (.alloc answer r.asked r.elem) ⟨r.state, r.elem.toList ++ x.out,
        granted r.asked answer ++ x.blocks⟩
  | free {x : World} {data : Nat} : data ∈ x.out →
      Step w x (.free data) ⟨corePoolFree w x.state data, x.out.erase data, x.blocks⟩
  | setAllocationSize {x : World} (elemNum : UInt32) :
      Step w x (.setAllocationSize elemNum)
        ⟨corePoolSetAllocationSize w x.state elemNum, x.out, x.blocks⟩
  | write {x : World} {m : Memory} :
      (∀ a, m a ≠ x.state.memory a → (∃ b ∈ x.blocks, b.Mem a.toNat) →
        ∃ e ∈ x.out, Span.Mem a.toNat ⟨e, x.state.pool.elemSize.toNat⟩) →
      Step w x .write ⟨⟨x.state.pool, m⟩, x.out, x.blocks⟩

/-- An allocation size for which each block has an element, or for which none is asked for. -/
def Adequate (w : PointerSize) (size elemNum : UInt32) : Prop :=
  elemNum = 0 ∨ (w.bytes + 4 + elemNum.toNat * max size.toNat w.bytes) % 2 ^ 32 = 0 ∨
    sizeofBlock w + max size.toNat w.bytes ≤
      (w.bytes + 4 + elemNum.toNat * max size.toNat w.bytes) % 2 ^ 32

/-- **What the users rely on**, after a pool of so many elements has been made and this has
happened. -/
structure Sound (w : PointerSize) (n : Nat) (trace : List Event) (x : World) : Prop where
  /-- The elements do not overlap, and all are counted. -/
  apart : ∃ free, FreeList w x.state.memory x.state.pool.freeList free ∧
    Apart x.state.pool.elemSize.toNat (free ++ x.out) ∧
    InBlocks w x.state.pool.elemSize.toNat x.blocks (free ++ x.out) ∧
    x.state.pool.elemCount.toNat = free.length + x.out.length
  /-- The first allocation that the pool cannot serve by itself comes after so many others. -/
  serves : ∀ answer r, corePoolAlloc w x.state answer = some r → (r.asked ≠ none ∨ r.elem = none) →
    (∀ e ∈ trace, e.asks = false) → n ≤ trace.countP Event.serves
  /-- A new block has an element. -/
  grows : ∀ data, x.state.pool.freeList = none → x.state.pool.blockSize ≠ 0 →
    Fresh w x.blocks ⟨data, x.state.pool.blockSize.toNat⟩ →
    ∃ r a, corePoolAlloc w x.state (some data) = some r ∧ r.elem = some a

section
variable {w : PointerSize} {n size : UInt32} {data : Nat} {s : State} {x : World}
    {trace : List Event}

/-- What a pool keeps to, with the elements that are handed out and those that it had before any
block was added. -/
def Invariant (w : PointerSize) (n size : UInt32) (trace : List Event) (x : World) : Prop :=
  ∃ free, Keeps w x.state free x.out x.blocks ∧
    x.state.pool.elemSize.toNat = max size.toNat w.bytes ∧
    x.state.pool.hasAllocator = true ∧ x.out.length ≤ trace.countP Event.serves ∧
    ((∀ e ∈ trace, e.asks = false) → free.length + x.out.length =
      elements w (max size.toNat w.bytes) (corePoolBlockSize w n size).toNat) ∧
    ((∃ elemNum, .setAllocationSize elemNum ∈ trace ∧
        x.state.pool.blockSize = corePoolBlockSize w elemNum x.state.pool.elemSize) ∨
      x.state.pool.blockSize = corePoolBlockSize w n size)

theorem Invariant.start {free : List Nat} (h : Created w n size data s free) :
    Invariant w n size [] ⟨s, [], [⟨data, (corePoolBlockSize w n size).toNat⟩]⟩ :=
  ⟨free, h.keeps, h.elemSize, h.hasAllocator, Nat.le_refl _, fun _ => h.length, .inr h.blockSize⟩

theorem Invariant.step {e : Event} {y : World} (h : Invariant w n size trace x)
    (hstep : Step w x e y) :
    Invariant w n size (e :: trace) y := by
  obtain ⟨free, hkeeps, hsize, hallocator, hserved, hquiet, hblock⟩ := h
  have hmore :
      ∀ {e : Event}, (∀ e' ∈ e :: trace, e'.asks = false) → ∀ e' ∈ trace, e'.asks = false :=
    fun hall e' he' => hall e' (mem_cons_of_mem _ he')
  cases hstep with
  | @alloc answer r halloc hfresh =>
    obtain ⟨free', hkeeps', ⟨hsameBlock, hsameSize, hsameAllocator⟩, hlength⟩ :=
      hkeeps.alloc halloc hfresh
    refine ⟨free', hkeeps', hsameSize ▸ hsize, hsameAllocator.trans hallocator, ?_,
      fun hall => ?_, ?_⟩
    · rw [countP_cons, length_append]
      cases helem : r.elem with
      | none =>
        exact Nat.le_trans (Nat.le_of_eq (Nat.zero_add _))
          (Nat.le_trans hserved (Nat.le_add_right ..))
      | some a =>
        exact Nat.le_trans (Nat.le_of_eq (Nat.add_comm ..)) (Nat.add_le_add_right hserved 1)
    · have hasked : r.asked = none :=
        not_isSome_iff_eq_none.mp (Bool.eq_false_iff.mp (hall _ mem_cons_self))
      exact (hlength hasked).trans (hquiet (hmore hall))
    · rw [show World.state _ = r.state from rfl, hsameBlock, hsameSize]
      exact hblock.imp_left fun ⟨k, hk, heq⟩ => ⟨k, mem_cons_of_mem _ hk, heq⟩
  | @free data hdata =>
    have hcard := length_pos_of_mem hdata
    have herase := length_erase_of_mem hdata
    refine ⟨data :: free, hkeeps.push hdata, hsize, hallocator, ?_, fun hall => ?_, ?_⟩
    · exact Nat.le_trans (Nat.le_trans (herase ▸ Nat.sub_le ..) hserved)
        (countP_cons .. ▸ Nat.le_add_right ..)
    · rw [← hquiet (hmore hall), length_cons, herase]
      omega
    · exact hblock.imp_left fun ⟨k, hk, heq⟩ => ⟨k, mem_cons_of_mem _ hk, heq⟩
  | setAllocationSize elemNum =>
    exact ⟨free, ⟨hkeeps.linked, hkeeps.large, hkeeps.apart, hkeeps.inside, hkeeps.space,
      hkeeps.count⟩, hsize,
      hallocator, hserved, fun hall => hquiet (hmore hall), .inl ⟨elemNum, mem_cons_self, rfl⟩⟩
  | @write m hwrite =>
    have hlinked : FreeList w m x.state.pool.freeList free := by
      have hlarge := hkeeps.large
      refine hkeeps.linked.congr (fun a ha => ?_) fun a ha b hb => ?_
      · have hbounds := hkeeps.bounds (mem_append_left x.out ha)
        omega
      · refine Decidable.byContradiction fun hne => ?_
        obtain ⟨c, hc, hbase, hstop⟩ := hkeeps.inside a (mem_append_left x.out ha)
        obtain ⟨hlow, hhigh⟩ := hb
        have hin : c.Mem b.toNat := by
          simp only [Span.stop] at hstop
          simp only at hlow hhigh
          exact ⟨by omega, by omega⟩
        obtain ⟨o, ho, hbo⟩ := hwrite b (fun heq => hne heq.symm) ⟨c, hc, hin⟩
        have hapart := (pairwise_append.mp hkeeps.apart).2.2 a ha o ho
        obtain ⟨hlow', hhigh'⟩ := hbo
        simp only [Span.Disjoint, Span.stop] at hapart hlow hhigh hlow' hhigh'
        omega
    exact ⟨free, ⟨hlinked, hkeeps.large, hkeeps.apart, hkeeps.inside, hkeeps.space, hkeeps.count⟩,
      hsize, hallocator,
      hserved, fun hall => hquiet (hmore hall), hblock.imp_left fun ⟨k, hk, heq⟩ =>
        ⟨k, mem_cons_of_mem _ hk, heq⟩⟩

end

section
variable {w : PointerSize} {n size : UInt32} {data : Nat} {s : State} {x : World}
    {trace : List Event} {memory : Memory}

/-- The size of a block that has been asked for is adequate. -/
theorem Adequate.le {elemNum elemSize : UInt32} (h : Adequate w size elemNum)
    (hsize : elemSize.toNat = max size.toNat w.bytes)
    (hblock : corePoolBlockSize w elemNum elemSize ≠ 0) :
    sizeofBlock w + elemSize.toNat ≤ (corePoolBlockSize w elemNum elemSize).toNat := by
  have hnumber : elemNum ≠ 0 := fun hno => hblock (if_pos hno)
  have htoNat := toNat_corePoolBlockSize w elemSize hnumber
  rw [hsize, Nat.max_assoc, Nat.max_self] at htoNat
  rcases h with hno | hno | hle
  · exact absurd hno hnumber
  · have hzero : (corePoolBlockSize w elemNum elemSize).toNat = (0 : UInt32).toNat :=
      htoNat.trans hno
    exact absurd (UInt32.toNat_inj.mp hzero) hblock
  · rw [htoNat, hsize]
    exact hle

/-- A pool that has enough at first, and asks for enough, is sound. -/
theorem Invariant.sound (h : Invariant w n size trace x) (hn : n ≠ 0) (hw : w = .four)
    (hfits : 8 + n.toNat * max size.toNat 4 < 2 ^ 32)
    (hadequate : ∀ elemNum, .setAllocationSize elemNum ∈ trace → Adequate w size elemNum) :
    Sound w n.toNat trace x := by
  obtain ⟨free, hkeeps, hsize, hallocator, hserved, hquiet, hblock⟩ := h
  have henough := (elements_iff (w := w) hn).mpr ⟨hw, hfits⟩
  subst hw
  refine ⟨⟨free, hkeeps.linked, hkeeps.apart, hkeeps.inside, ?_⟩,
    fun answer r halloc hunserved hall => ?_,
    fun data hempty hpos hfresh => (grows_iff hkeeps hempty hallocator hpos hfresh).mpr ?_⟩
  · rw [hkeeps.count]
    exact UInt32.toNat_ofNat_of_lt' hkeeps.count_lt
  · have hlength := hquiet hall
    cases free with
    | nil =>
      rw [length_nil, Nat.zero_add] at hlength
      omega
    | cons a free =>
      rw [alloc_free hkeeps] at halloc
      cases halloc
      rcases hunserved with hno | hno
      · exact absurd rfl hno
      · cases hno
  · rcases hblock with ⟨elemNum, hmem, heq⟩ | heq
    · rw [heq] at hpos ⊢
      exact (hadequate elemNum hmem).le hsize hpos
    · have hn' : 0 < n.toNat := Nat.pos_of_ne_zero fun hno => hn (UInt32.toNat_inj.mp hno)
      have hmul := Nat.le_mul_of_pos_left (max size.toNat 4) hn'
      rw [heq, hsize, toNat_corePoolBlockSize _ _ hn]
      show 8 + max size.toNat 4 ≤ (8 + n.toNat * max size.toNat 4) % 2 ^ 32
      rw [Nat.mod_eq_of_lt hfits]
      exact Nat.add_le_add_left hmul 8

/-- **A pool serves as many allocations as it was made for** exactly when a pointer has four bytes
and the size of the block fits into 32 bits. Whatever it was made for, its elements never overlap
and a new block has an element exactly when it is large enough. -/
theorem corePool_sound (hn : n ≠ 0)
    (hfresh : Fresh w [] ⟨data, (corePoolBlockSize w n size).toNat⟩) :
    ((∃ s, corePoolCreate w memory n size (some data) = some s ∧ Serves w n.toNat s) ↔
      w = .four ∧ 8 + n.toNat * max size.toNat 4 < 2 ^ 32) ∧
    ∀ s trace x, corePoolCreate w memory n size (some data) = some s →
      Run (Step w) ⟨s, [], [⟨data, (corePoolBlockSize w n size).toNat⟩]⟩ trace x →
      (∃ free, FreeList w x.state.memory x.state.pool.freeList free ∧
        Apart x.state.pool.elemSize.toNat (free ++ x.out) ∧
        InBlocks w x.state.pool.elemSize.toNat x.blocks (free ++ x.out) ∧
        x.state.pool.elemCount = .ofNat (free.length + x.out.length)) ∧
      (∀ data', x.state.pool.freeList = none → x.state.pool.blockSize ≠ 0 →
        Fresh w x.blocks ⟨data', x.state.pool.blockSize.toNat⟩ →
        ((∃ r a, corePoolAlloc w x.state (some data') = some r ∧ r.elem = some a) ↔
          sizeofBlock w + x.state.pool.elemSize.toNat ≤ x.state.pool.blockSize.toNat)) ∧
      (w = .four → 8 + n.toNat * max size.toNat 4 < 2 ^ 32 →
        (∀ elemNum, .setAllocationSize elemNum ∈ trace → Adequate w size elemNum) →
        Sound w n.toNat trace x) := by
  refine ⟨?_, fun s trace x hcreate run => ?_⟩
  · rw [← elements_iff hn]
    rcases create_cases memory hfresh with ⟨hnone, hsmall⟩ | ⟨s, free, hcreate, hcreated⟩
    · have hn' : 0 < n.toNat := Nat.pos_of_ne_zero fun hno => hn (UInt32.toNat_inj.mp hno)
      refine iff_of_false (fun ⟨s, hno, _⟩ => ?_) ?_
      · rw [hnone] at hno
        cases hno
      · rw [elements, Nat.sub_eq_zero_of_le (Nat.le_of_lt hsmall), Nat.zero_div]
        omega
    · rw [hcreate, ← hcreated.length, ← serves_iff hcreated.keeps]
      constructor
      · rintro ⟨t, ht, hserves⟩
        cases ht
        exact hserves
      · exact fun hserves => ⟨s, rfl, hserves⟩
  · have hinv : Invariant w n size trace x := by
      refine run.invariant (P := Invariant w n size) ?_ fun _ hinv hstep => hinv.step hstep
      rcases create_cases memory hfresh with ⟨hnone, -⟩ | ⟨t, free, ht, hcreated⟩
      · rw [hnone] at hcreate
        cases hcreate
      · obtain rfl := Option.some.inj (hcreate.symm.trans ht)
        exact .start hcreated
    refine ⟨?_, fun data' hempty hblock hfresh' => ?_, fun hw hfits hadequate =>
      hinv.sound hn hw hfits hadequate⟩
    · obtain ⟨free, hkeeps, -⟩ := hinv
      exact ⟨free, hkeeps.linked, hkeeps.apart, hkeeps.inside, hkeeps.count⟩
    · obtain ⟨free, hkeeps, -, hallocator, -⟩ := hinv
      exact grows_iff hkeeps hempty hallocator hblock hfresh'

/-- Three elements of eight bytes. -/
theorem corePool_sound_three :
    ∃ s, corePoolCreate .four .zero 3 8 (some 4096) = some s ∧ Serves .four 3 s :=
  (corePool_sound (by decide) (by decide)).1.mpr ⟨rfl, by decide⟩

/-- **With pointers of eight bytes** a pool of one element has none. -/
theorem create_eight : ¬ ∀ (w : PointerSize) (n size : UInt32) (memory : Memory)
    (data : Nat), n ≠ 0 →
    n.toNat * size.toNat < 2 ^ 32 → Fresh w [] ⟨data, (corePoolBlockSize w n size).toNat⟩ →
    ∃ s, corePoolCreate w memory n size (some data) = some s ∧ Serves w n.toNat s := by
  intro h
  obtain ⟨s, hcreate, r, halloc, -, hasked, -⟩ :=
    h .eight 1 8 .zero 4096 (by decide) (by decide) (by decide)
  have hcomputed : corePoolCreate .eight .zero 1 8 (some 4096) = some s := hcreate
  cases hcomputed
  cases halloc
  cases hasked

end

end CoreUtils.CorePool
