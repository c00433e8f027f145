import BootXf.Lib.LittleEndian
import BootXf.Lib.Run

/-!
# Memory pools

A pool cuts the blocks that an allocator gives it into elements of one size. The elements that are
not handed out are linked up by a pointer in their first bytes. A block has a header of a pointer
and an `unsigned int`, which take twelve bytes when a pointer has eight; `sizeof` then makes
sixteen of them, and the elements start behind the twelve.
-/

namespace CoreUtils.CorePool

open Lib List

/-- The size of a pointer. -/
inductive PointerSize
  | four | eight
  deriving DecidableEq

/-- It is also `sizeof(CorePoolElementType)`. -/
def PointerSize.bytes : PointerSize → Nat
  | four => 4
  | eight => 8

/-- `sizeof(CorePoolBlockType)`, a multiple of the size of a pointer. -/
def sizeofBlock : PointerSize → Nat
  | .four => 8
  | .eight => 16

/-- Where `aData` is in a `CorePoolBlockType`. -/
def offsetofData (w : PointerSize) : Nat := w.bytes + 4

/-- `CorePoolType`, without its lock. -/
structure CorePoolType where
  blockList : Option Nat
  blockSize : UInt32
  blockCount : UInt32
  freeList : Option Nat
  elemSize : UInt32
  elemCount : UInt32
  hasAllocator : Bool

/-- A pool, and the memory in which its blocks are. -/
structure State where
  pool : CorePoolType
  memory : Memory

/-- What `Core_PoolAlloc` comes to: the element, and the size for which the allocator has been
asked. -/
structure Allocated where
  state : State
  elem : Option Nat
  asked : Option UInt32

section
variable (w : PointerSize)

/-- `CORE_POOL_BLOCK_SIZE`, in 32 bits. -/
def corePoolBlockSize (n sizeOfN : UInt32) : UInt32 :=
  if n = 0 then 0 else .ofNat (w.bytes + 4 + n.toNat * max sizeOfN.toNat w.bytes)

def readPointer (m : Memory) (a : Nat) : Option Nat :=
  if m.leNat (.ofNat a) w.bytes = 0 then none else some (m.leNat (.ofNat a) w.bytes)

def writePointer (m : Memory) (a : Nat) (p : Option Nat) : Memory :=
  m.put (.ofNat a) w.bytes (p.getD 0)

def corePoolPush (s : State) (elem : Nat) : State :=
  ⟨{ s.pool with freeList := some elem }, writePointer w s.memory elem s.pool.freeList⟩

def corePoolPop (s : State) : State × Option Nat :=
  match s.pool.freeList with
  | none => (s, none)
  | some elem => (⟨{ s.pool with freeList := readPointer w s.memory elem }, s.memory⟩, some elem)

/-- `Core_PoolAddBlock`, with where the elements start and how many bytes are left for them. -/
def corePoolAddBlock (s : State) (data : Nat) (blockSize : UInt32) :
    Option (State × Nat × UInt32) :=
  if blockSize.toNat < sizeofBlock w then none
  else
    let memory := s.memory.put (.ofNat (data + w.bytes)) 4 blockSize.toNat
    let memory := writePointer w memory data s.pool.blockList
    some (⟨{ s.pool with blockList := some data, blockCount := s.pool.blockCount + 1 }, memory⟩,
      data + offsetofData w, blockSize - .ofNat (sizeofBlock w))

/-- The loop of `Core_PoolFill`. -/
def fillLoop : Nat → State → Nat → UInt32 → Option State
  | 0, _, _, _ => none
  | k + 1, s, data, blockSize =>
    if s.pool.elemSize ≤ blockSize then
      let s := corePoolPush w s data
      fillLoop k ⟨{ s.pool with elemCount := s.pool.elemCount + 1 }, s.memory⟩
        (data + s.pool.elemSize.toNat)
        (blockSize - s.pool.elemSize)
    else some s

def corePoolFill (s : State) (data : Nat) (blockSize : UInt32) : Option State :=
  (corePoolAddBlock w s data blockSize).bind fun (s, data, blockSize) =>
    fillLoop w (blockSize.toNat + 1) s data blockSize

def corePoolInit (memory : Memory) (elemSize : UInt32) (data : Option Nat) (blockSize : UInt32) :
    Option State :=
  let pool : CorePoolType := ⟨none, 0, 0, none, .ofNat (max elemSize.toNat w.bytes), 0, false⟩
  if blockSize = 0 then some ⟨pool, memory⟩
  else data.bind fun data => corePoolFill w ⟨{ pool with blockSize }, memory⟩ data blockSize

/-- `Core_PoolCreate`, where `DALSYS_Malloc` gives this memory. -/
def corePoolCreate (memory : Memory) (elemNum elemSize : UInt32) (data : Option Nat) :
    Option State :=
  data.bind fun data =>
    (corePoolInit w memory elemSize (some data) (corePoolBlockSize w elemNum elemSize)).map fun s =>
      ⟨{ s.pool with hasAllocator := true }, s.memory⟩

/-- `Core_PoolAlloc`, where the allocator answers this if it is asked. -/
def corePoolAlloc (s : State) (answer : Option Nat) : Option Allocated :=
  match corePoolPop w s with
  | (s, some elem) => some ⟨s, some elem, none⟩
  | (s, none) =>
    if s.pool.hasAllocator ∧ 0 < s.pool.blockSize then
      match answer with
      | none => some ⟨s, none, some s.pool.blockSize⟩
      | some data => (corePoolFill w s data s.pool.blockSize).map fun t =>
          ⟨(corePoolPop w t).1, (corePoolPop w t).2, some s.pool.blockSize⟩
    else some ⟨s, none, none⟩

def corePoolFree (s : State) (data : Nat) : State := corePoolPush w s data

def corePoolSetAllocationSize (s : State) (elemNum : UInt32) : State :=
  ⟨{ s.pool with blockSize := corePoolBlockSize w elemNum s.pool.elemSize }, s.memory⟩

end

/-! ## Pointers in memory -/

section
variable {w : PointerSize} {m m' : Memory} {a : Nat} {p : Option Nat} {l : List Nat}

theorem bytes_pos : 0 < w.bytes := by cases w <;> decide

theorem space_le : 256 ^ w.bytes ≤ 2 ^ 64 := by cases w <;> decide

/-- An address of the memory is not truncated. -/
theorem toNat_address (h : a + w.bytes ≤ 256 ^ w.bytes) : (UInt64.ofNat a).toNat = a := by
  have hspace := space_le (w := w)
  have hpos := bytes_pos (w := w)
  exact UInt64.toNat_ofNat_of_lt' (show a < 2 ^ 64 by omega)

theorem address_fits (h : a + w.bytes ≤ 256 ^ w.bytes) :
    (UInt64.ofNat a).toNat + w.bytes ≤ 2 ^ 64 := by
  rw [toNat_address h]
  exact Nat.le_trans h space_le

/-- A pointer is read from its own bytes. -/
theorem readPointer_congr (h : a + w.bytes ≤ 256 ^ w.bytes)
    (hagree : Memory.AgreeOn ⟨a, w.bytes⟩ m m') :
    readPointer w m a = readPointer w m' a := by
  rw [← toNat_address h] at hagree
  rw [readPointer, readPointer, hagree.leNat (address_fits h)]

/-- A pointer that is written is read back. -/
theorem readPointer_writePointer (h : a + w.bytes ≤ 256 ^ w.bytes)
    (hp : ∀ v ∈ p, 0 < v ∧ v < 256 ^ w.bytes) :
    readPointer w (writePointer w m a p) a = p := by
  rw [readPointer, writePointer, Memory.leNat_put (address_fits h)]
  cases p with
  | none => exact if_pos (Nat.zero_mod _)
  | some v =>
    obtain ⟨hpos, hlt⟩ := hp v rfl
    rw [Option.getD_some, Nat.mod_eq_of_lt hlt, if_neg (Nat.ne_of_gt hpos)]

/-- Writing a pointer leaves the bytes elsewhere. -/
theorem agreeOn_writePointer {s : Span} (h : a + w.bytes ≤ 256 ^ w.bytes)
    (hs : s.Disjoint ⟨a, w.bytes⟩) :
    Memory.AgreeOn s (writePointer w m a p) m :=
  Memory.agreeOn_put (address_fits h) (by rwa [toNat_address h])

/-- The free list: each element points to the next one. -/
def FreeList (w : PointerSize) (m : Memory) : Option Nat → List Nat → Prop
  | p, [] => p = none
  | p, a :: l => p = some a ∧ FreeList w m (readPointer w m a) l

/-- A free list is read from its own links. -/
theorem FreeList.congr (h : FreeList w m p l) (hl : ∀ a ∈ l, a + w.bytes ≤ 256 ^ w.bytes)
    (hagree : ∀ a ∈ l, Memory.AgreeOn ⟨a, w.bytes⟩ m m') : FreeList w m' p l := by
  induction l generalizing p with
  | nil => exact h
  | cons a l ih =>
    obtain ⟨rfl, hrest⟩ := h
    rw [readPointer_congr (hl a mem_cons_self) (hagree a mem_cons_self)] at hrest
    exact ⟨rfl, ih hrest (fun b hb => hl b (mem_cons_of_mem _ hb)) fun b hb =>
      hagree b (mem_cons_of_mem _ hb)⟩

end

/-! ## Elements -/

/-- The elements do not overlap. -/
def Apart (size : Nat) (l : List Nat) : Prop :=
  l.Pairwise fun a b => Span.Disjoint ⟨a, size⟩ ⟨b, size⟩

/-- The elements are in blocks, behind their headers. -/
def InBlocks (w : PointerSize) (size : Nat) (blocks : List Span) (l : List Nat) : Prop :=
  ∀ a ∈ l, ∃ b ∈ blocks, b.base + offsetofData w ≤ a ∧ a + size ≤ b.stop

/-- **What a pool keeps to**, with these elements free and these handed out. -/
structure Keeps (w : PointerSize) (s : State) (free out : List Nat)
    (blocks : List Span) : Prop where
  linked : FreeList w s.memory s.pool.freeList free
  large : w.bytes ≤ s.pool.elemSize.toNat
  apart : Apart s.pool.elemSize.toNat (free ++ out)
  inside : InBlocks w s.pool.elemSize.toNat blocks (free ++ out)
  space : ∀ b ∈ blocks, 0 < b.base ∧ b.stop ≤ 256 ^ w.bytes
  count : s.pool.elemCount = .ofNat (free.length + out.length)

/-- Where the elements of a block start. -/
def cut (size : Nat) : Nat → Nat → List Nat
  | _, 0 => []
  | a, k + 1 => a :: cut size (a + size) k

section
variable {w : PointerSize} {s : State} {a data size k : Nat} {blockSize : UInt32}
    {free out l l' : List Nat}
  {blocks : List Span}

theorem length_cut : (cut size a k).length = k := by
  induction k generalizing a with
  | zero => rfl
  | succ k ih => rw [cut, length_cons, ih]

/-- The pieces lie inside what is cut. -/
theorem cut_bounds {b : Nat} (hb : b ∈ cut size a k) : a ≤ b ∧ b + size ≤ a + k * size := by
  induction k generalizing a with
  | zero => cases hb
  | succ k ih =>
    rw [Nat.succ_mul]
    rcases mem_cons.mp hb with rfl | hb
    · omega
    · have hbounds := ih hb
      omega

/-- The pieces do not overlap. -/
theorem apart_cut : Apart size (cut size a k) := by
  induction k generalizing a with
  | zero => exact .nil
  | succ k ih => exact pairwise_cons.mpr ⟨fun b hb => .inl (cut_bounds hb).1, ih⟩

theorem Apart.perm (h : Apart size l) (hperm : l.Perm l') : Apart size l' :=
  hperm.pairwise h Or.symm

/-- A buffer that is given back goes in front of the free list. -/
theorem FreeList.push (h : FreeList w s.memory s.pool.freeList free)
    (ha : 0 < a ∧ a + w.bytes ≤ 256 ^ w.bytes)
    (hfree : ∀ b ∈ free, (0 < b ∧ b + w.bytes ≤ 256 ^ w.bytes) ∧
      Span.Disjoint ⟨b, w.bytes⟩ ⟨a, w.bytes⟩) :
    FreeList w (corePoolPush w s a).memory (corePoolPush w s a).pool.freeList (a :: free) := by
  have hpointer : ∀ v ∈ s.pool.freeList, 0 < v ∧ v < 256 ^ w.bytes := by
    intro v hv
    cases free with
    | nil =>
      rw [show s.pool.freeList = none from h] at hv
      cases hv
    | cons b free =>
      rw [h.1, Option.mem_some_iff] at hv
      subst hv
      have hb := (hfree b mem_cons_self).1
      have hpos := bytes_pos (w := w)
      omega
  refine ⟨rfl, ?_⟩
  show FreeList w (writePointer w s.memory a s.pool.freeList)
    (readPointer w (writePointer w s.memory a s.pool.freeList) a) free
  rw [readPointer_writePointer ha.2 hpointer]
  refine h.congr (fun b hb => (hfree b hb).1.2) fun b hb c hc => ?_
  exact (agreeOn_writePointer ha.2 (hfree b hb).2 c hc).symm

/-- **The loop** cuts what is left of a block into elements. -/
theorem fillLoop_spec (hlinked : FreeList w s.memory s.pool.freeList free)
    (hlarge : w.bytes ≤ s.pool.elemSize.toNat)
    (hdata : 0 < data ∧ data + blockSize.toNat ≤ 256 ^ w.bytes)
    (hfree : ∀ b ∈ free, (0 < b ∧ b + w.bytes ≤ 256 ^ w.bytes) ∧
      Span.Disjoint ⟨b, w.bytes⟩ ⟨data, blockSize.toNat⟩) (hk : blockSize.toNat < k) : ∃ t,
      fillLoop w k s data blockSize = some t ∧
      FreeList w t.memory t.pool.freeList
        ((cut s.pool.elemSize.toNat data (blockSize.toNat / s.pool.elemSize.toNat)).reverse ++
          free) ∧
      t.pool.elemCount = s.pool.elemCount + .ofNat (blockSize.toNat / s.pool.elemSize.toNat) ∧
      t.pool.elemSize = s.pool.elemSize ∧ t.pool.blockSize = s.pool.blockSize ∧
      t.pool.hasAllocator = s.pool.hasAllocator := by
  have hpos := bytes_pos (w := w)
  induction k generalizing s data blockSize free with
  | zero => omega
  | succ k ih =>
    rw [fillLoop]
    by_cases hle : s.pool.elemSize ≤ blockSize
    · have hle' := UInt32.le_iff_toNat_le.mp hle
      have hsub : (blockSize - s.pool.elemSize).toNat = blockSize.toNat - s.pool.elemSize.toNat :=
        UInt32.toNat_sub_of_le _ _ hle
      have hdiv : blockSize.toNat / s.pool.elemSize.toNat =
          (blockSize.toNat - s.pool.elemSize.toNat) / s.pool.elemSize.toNat + 1 := by
        rw [← Nat.add_div_right _ (by omega), Nat.sub_add_cancel hle']
      have hpush := hlinked.push (a := data) (by omega) fun b hb => ⟨(hfree b hb).1,
        (hfree b hb).2.mono (.refl _) ⟨Nat.le_refl _, by simp only; omega⟩⟩
      have hfree' : ∀ b ∈ data :: free, (0 < b ∧ b + w.bytes ≤ 256 ^ w.bytes) ∧
          Span.Disjoint ⟨b, w.bytes⟩
          ⟨data + s.pool.elemSize.toNat, (blockSize - s.pool.elemSize).toNat⟩ := by
        rw [hsub]
        refine forall_mem_cons.mpr ⟨⟨by omega, .inl (Nat.add_le_add_left hlarge _)⟩, fun b hb =>
          ⟨(hfree b hb).1, (hfree b hb).2.mono (.refl _) ⟨Nat.le_add_right .., ?_⟩⟩⟩
        simp only
        omega
      let next : CorePoolType :=
        { (corePoolPush w s data).pool with elemCount := s.pool.elemCount + 1 }
      obtain ⟨t, hloop, hlist, hcount, hsame⟩ :=
        @ih ⟨next, (corePoolPush w s data).memory⟩ _ _ _ hpush hlarge
        (by rw [hsub]; omega) hfree' (by rw [hsub]; omega)
      rw [if_pos hle, hdiv]
      refine ⟨t, hloop, ?_, ?_, hsame⟩
      · rw [cut, reverse_cons, append_assoc]
        rw [hsub] at hlist
        exact hlist
      · rw [hcount, hsub, Nat.add_comm _ 1, UInt32.ofNat_add]
        exact UInt32.add_assoc ..
    · have hlt : blockSize.toNat / s.pool.elemSize.toNat = 0 :=
        Nat.div_eq_of_lt (Nat.lt_of_not_le fun hno => hle (UInt32.le_iff_toNat_le.mpr hno))
      rw [if_neg hle, hlt]
      exact ⟨s, rfl, hlinked, (UInt32.add_zero _).symm, rfl, rfl, rfl⟩

end

/-! ## What the functions do -/

/-- A block that the allocator may give: memory that is not in use. -/
def Fresh (w : PointerSize) (blocks : List Span) (block : Span) : Prop :=
  0 < block.base ∧ block.stop ≤ 256 ^ w.bytes ∧ ∀ b ∈ blocks, Span.Disjoint b block

instance (w : PointerSize) (blocks : List Span) (block : Span) : Decidable (Fresh w blocks block) :=
  inferInstanceAs (Decidable (_ ∧ _ ∧ _))

/-- How many elements a block has. -/
def elements (w : PointerSize) (size blockSize : Nat) : Nat := (blockSize - sizeofBlock w) / size

section
variable {w : PointerSize} {s t : State} {a data size : Nat} {blockSize : UInt32}
    {free out l l' : List Nat}
  {blocks : List Span} {block : Span}

theorem offsetofData_le : offsetofData w ≤ sizeofBlock w := by cases w <;> decide

/-- A buffer is disjoint from what its block is disjoint from. -/
theorem InBlocks.disjoint (h : InBlocks w size blocks l)
    (hblocks : ∀ b ∈ blocks, Span.Disjoint b block)
    (ha : a ∈ l) : Span.Disjoint ⟨a, size⟩ block := by
  obtain ⟨b, hb, hbase, hstop⟩ := h a ha
  exact (hblocks b hb).mono ⟨Nat.le_trans (Nat.le_add_right ..) hbase, hstop⟩ (.refl _)

/-- The buffers of a pool lie inside the memory. -/
theorem Keeps.bounds (h : Keeps w s free out blocks) (ha : a ∈ free ++ out) :
    0 < a ∧ a + s.pool.elemSize.toNat ≤ 256 ^ w.bytes := by
  obtain ⟨b, hb, hbase, hstop⟩ := h.inside a ha
  obtain ⟨hpos, hspace⟩ := h.space b hb
  omega

/-- Nothing has been cut yet. -/
theorem Keeps.empty (hlist : s.pool.freeList = none) (hlarge : w.bytes ≤ s.pool.elemSize.toNat)
    (hcount : s.pool.elemCount = 0) (hspace : ∀ b ∈ blocks, 0 < b.base ∧ b.stop ≤ 256 ^ w.bytes) :
    Keeps w s [] [] blocks :=
  ⟨hlist, hlarge, .nil, fun _ ha => (by cases ha), hspace, hcount⟩

/-- The elements may be put in another order, and the parts of the pool that they do not depend on
may differ. -/
theorem Keeps.perm (h : Keeps w s free out blocks) {free' out' : List Nat}
    (hperm : (free ++ out).Perm (free' ++ out'))
    (hlinked : FreeList w t.memory t.pool.freeList free')
    (hsize : t.pool.elemSize = s.pool.elemSize) (hcount : t.pool.elemCount = s.pool.elemCount) :
    Keeps w t free' out' blocks := by
  refine ⟨hlinked, hsize ▸ h.large, hsize ▸ h.apart.perm hperm, fun a ha => ?_, h.space, ?_⟩
  · rw [hsize]
    exact h.inside a (hperm.mem_iff.mpr ha)
  · rw [hcount, h.count, ← length_append, ← length_append, hperm.length_eq]

/-- **An element is handed out.** -/
theorem Keeps.pop (h : Keeps w s (a :: free) out blocks) : (corePoolPop w s).2 = some a ∧
    Keeps w (corePoolPop w s).1 free (a :: out) blocks ∧ (corePoolPop w s).1.pool.blockSize =
      s.pool.blockSize ∧
      (corePoolPop w s).1.pool.elemSize = s.pool.elemSize ∧
      (corePoolPop w s).1.pool.hasAllocator = s.pool.hasAllocator := by
  obtain ⟨hfirst, hrest⟩ := h.linked
  have hpop :
      corePoolPop w s = (⟨{ s.pool with freeList := readPointer w s.memory a }, s.memory⟩,
      some a) := by
    rw [corePoolPop, hfirst]
  rw [hpop]
  exact ⟨rfl, h.perm perm_middle.symm hrest rfl rfl, rfl, rfl, rfl⟩

/-- **An element is given back.** -/
theorem Keeps.push (h : Keeps w s free out blocks) (ha : a ∈ out) :
    Keeps w (corePoolPush w s a) (a :: free) (out.erase a) blocks := by
  have hlarge := h.large
  have hbounds := h.bounds (mem_append_right free ha)
  refine h.perm ?_ (h.linked.push (by omega) fun b hb => ⟨?_, ?_⟩) rfl rfl
  · exact (List.Perm.append_left free (perm_cons_erase ha)).trans perm_middle
  · have hb := h.bounds (mem_append_left out hb)
    omega
  · exact ((pairwise_append.mp h.apart).2.2 b hb a ha).mono
      ⟨Nat.le_refl _, Nat.add_le_add_left hlarge _⟩
      ⟨Nat.le_refl _, Nat.add_le_add_left hlarge _⟩

/-- A block without room for its header is refused. -/
theorem fill_small (hsmall : blockSize.toNat < sizeofBlock w) :
    corePoolFill w s data blockSize = none := by
  rw [corePoolFill, corePoolAddBlock, if_pos hsmall]
  rfl

/-- **A block is cut into elements.** -/
theorem Keeps.fill (h : Keeps w s free out blocks) (hblock : sizeofBlock w ≤ blockSize.toNat)
    (hfresh : Fresh w blocks ⟨data, blockSize.toNat⟩) :
      ∃ t new, corePoolFill w s data blockSize = some t ∧
      new.length = elements w s.pool.elemSize.toNat blockSize.toNat ∧
      Keeps w t (new ++ free) out (⟨data, blockSize.toNat⟩ :: blocks) ∧
        t.pool.blockSize = s.pool.blockSize ∧
      t.pool.elemSize = s.pool.elemSize ∧ t.pool.hasAllocator = s.pool.hasAllocator := by
  obtain ⟨hpos, hstop, hother⟩ := hfresh
  have hstop : data + blockSize.toNat ≤ 256 ^ w.bytes := hstop
  have hlarge := h.large
  have hspace := space_le (w := w)
  have hoffset := offsetofData_le (w := w)
  have hheader : w.bytes + 4 = offsetofData w := rfl
  have hrest : (blockSize - .ofNat (sizeofBlock w)).toNat = blockSize.toNat - sizeofBlock w := by
    have hsize : (UInt32.ofNat (sizeofBlock w)).toNat = sizeofBlock w := by cases w <;> rfl
    have hle : UInt32.ofNat (sizeofBlock w) ≤ blockSize :=
      UInt32.le_iff_toNat_le.mpr (by rwa [hsize])
    rw [UInt32.toNat_sub_of_le _ _ hle, hsize]
  have hnumber : (UInt64.ofNat (data + w.bytes)).toNat = data + w.bytes :=
    UInt64.toNat_ofNat_of_lt' (show _ < 2 ^ 64 by omega)
  have hdisjoint : ∀ b ∈ free, Span.Disjoint ⟨b, w.bytes⟩ ⟨data, blockSize.toNat⟩ := fun b hb =>
    ((h.inside.disjoint hother (mem_append_left out hb))).mono
      ⟨Nat.le_refl _, Nat.add_le_add_left hlarge _⟩
      (.refl _)
  have hfree : ∀ b ∈ free, 0 < b ∧ b + w.bytes ≤ 256 ^ w.bytes := fun b hb => by
    have hbounds := h.bounds (mem_append_left out hb)
    omega
  have hhere : data + w.bytes ≤ 256 ^ w.bytes := by omega
  let header : Memory := s.memory.put (.ofNat (data + w.bytes)) 4 blockSize.toNat
  let memory : Memory := writePointer w header data s.pool.blockList
  have hlinked : FreeList w memory s.pool.freeList free := by
    refine h.linked.congr (fun b hb => (hfree b hb).2) fun b hb c hc => ?_
    have hheaderOf : Span.Disjoint ⟨b, w.bytes⟩ ⟨data, offsetofData w⟩ :=
      (hdisjoint b hb).mono (.refl _)
      ⟨Nat.le_refl _, Nat.add_le_add_left (Nat.le_trans hoffset hblock) _⟩
    have hwrite := agreeOn_writePointer (m := header) (p := s.pool.blockList) hhere
      (hheaderOf.mono (.refl _) ⟨Nat.le_refl _, Nat.add_le_add_left (Nat.le_add_right ..) _⟩) c hc
    have hput : Memory.AgreeOn ⟨b, w.bytes⟩ header s.memory := by
      refine Memory.agreeOn_put (by omega) ?_
      rw [hnumber]
      exact hheaderOf.mono (.refl _) ⟨Nat.le_add_right .., by simp only; omega⟩
    exact (hwrite.trans (hput c hc)).symm
  let next : CorePoolType :=
    { s.pool with blockList := some data, blockCount := s.pool.blockCount + 1 }
  obtain ⟨t, hloop, hlist, hcount, hsize, hsame⟩ :=
    fillLoop_spec (s := ⟨next, memory⟩) hlinked hlarge
      (by rw [hrest]; omega : 0 < data + offsetofData w ∧
        _ + (blockSize - .ofNat (sizeofBlock w)).toNat ≤ _)
      (fun b hb => ⟨hfree b hb, (hdisjoint b hb).mono (.refl _)
        ⟨Nat.le_add_right .., by rw [hrest]; simp only; omega⟩⟩) (Nat.lt_succ_self _)
  rw [hrest] at hlist hcount
  have hnew : ∀ b ∈ cut s.pool.elemSize.toNat (data + offsetofData w)
      (elements w s.pool.elemSize.toNat blockSize.toNat), data + offsetofData w ≤ b ∧
        b + s.pool.elemSize.toNat ≤ data + blockSize.toNat := by
    intro b hb
    have hcut := cut_bounds hb
    have hmul := Nat.div_mul_le_self (blockSize.toNat - sizeofBlock w) s.pool.elemSize.toNat
    rw [elements] at hcut
    omega
  have hsize : t.pool.elemSize = s.pool.elemSize := hsize
  refine ⟨t, _, ?_, (length_reverse).trans length_cut, ⟨hlist, hsize ▸ hlarge, ?_, ?_, ?_, ?_⟩,
    hsame.1, hsize,
    hsame.2⟩
  · rw [corePoolFill, corePoolAddBlock, if_neg (Nat.not_lt.mpr hblock)]
    exact hloop
  · rw [hsize, append_assoc]
    refine pairwise_append.mpr ⟨apart_cut.perm (reverse_perm _).symm, h.apart, fun b hb c hc => ?_⟩
    have hb := hnew b (mem_reverse.mp hb)
    exact ((h.inside.disjoint hother hc).mono (.refl _)
      ⟨Nat.le_trans (Nat.le_add_right ..) hb.1, hb.2⟩).symm
  · rw [hsize, append_assoc]
    intro b hb
    rcases mem_append.mp hb with hb | hb
    · exact ⟨_, mem_cons_self, hnew b (mem_reverse.mp hb)⟩
    · obtain ⟨c, hc, hin⟩ := h.inside b hb
      exact ⟨c, mem_cons_of_mem _ hc, hin⟩
  · exact forall_mem_cons.mpr ⟨⟨hpos, hstop⟩, h.space⟩
  · have hcount : t.pool.elemCount = s.pool.elemCount +
        .ofNat (elements w s.pool.elemSize.toNat blockSize.toNat) := hcount
    rw [hcount, h.count, length_append, length_reverse, length_cut, ← UInt32.ofNat_add]
    congr 1
    omega

end

end CoreUtils.CorePool
