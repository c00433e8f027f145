import BootXf.Lib.Pool
import BootXf.Lib.Run
import Mathlib.Data.List.Nodup

/-!
# The parallel read, serial modify list

`CorePRSMList.c` keeps a list that is read while it is modified. A reader counts itself at the
current barrier. A removed element is left at the barrier that was current until then, and a new
barrier becomes the current one; before each modification the elements of the barriers that nobody
is counted at are given back to the pool.

`prsm_iff` says in which runs no element is given back under a reader.
-/

namespace CoreUtils

open Lib LinkedList List Option Function

section
variable {Data CleanUp Reader : Type}

/-! ## The list -/

/-- `prsm_gc_barrier`, without its link. -/
structure Gcb (CleanUp : Type) where
  nref : UInt32
  elem : Option Nat
  cleanUp : Option CleanUp

/-- `CorePRSMListType` with its `prsm_lock`, and the two pools. -/
structure PrsmList (Data CleanUp : Type) where
  head : Option Nat
  gcbList : Nat
  curGcb : Nat
  elems : Pool Data
  gcbs : Pool (Gcb CleanUp)

/-- An element that is given back, and what the clean up function was called with. -/
structure Freed (Data CleanUp : Type) where
  elem : Nat
  cleaned : Option (CleanUp × Data)

/-- The barrier is taken out of the chain. -/
def unlink (next : Nat) (list : PrsmList Data CleanUp) : Option Nat → Option (PrsmList Data CleanUp)
  | none => some { list with gcbList := next }
  | some prevGcb => do
    let cell ← list.gcbs.read prevGcb
    let gcbs ← list.gcbs.write prevGcb { cell with next := some next }
    return { list with gcbs }

/-- `prsm_free_gc_barriers` from a barrier on. -/
def prsmFreeGcBarriers : Nat → Nat → Option Nat → PrsmList Data CleanUp →
    Option (PrsmList Data CleanUp × List (Freed Data CleanUp))
  | 0, _, _, _ => none
  | fuel + 1, gcb, prevGcb, list =>
    if gcb = list.curGcb then some (list, [])
    else do
      let cell ← list.gcbs.read gcb
      let next ← cell.next
      if cell.data.nref = 0 then
        let elem ← cell.data.elem
        let data ← list.elems.read elem
        let list ← unlink next list prevGcb
        let elems ← list.elems.free elem
        let gcbs ← list.gcbs.free gcb
        let (list, freed) ← prsmFreeGcBarriers fuel next prevGcb { list with elems, gcbs }
        return (list, ⟨elem, cell.data.cleanUp.map fun cleanUp => (cleanUp, data.data)⟩ :: freed)
      else prsmFreeGcBarriers fuel next (some gcb) list

/-- `Core_AtomicInc` and `Core_AtomicDec` of a barrier's `nref`. -/
def count (f : UInt32 → UInt32) (gcb : Nat) (list : PrsmList Data CleanUp) :
    Option (PrsmList Data CleanUp) := do
  let cell ← list.gcbs.read gcb
  let gcbs ← list.gcbs.write gcb { cell with data := { cell.data with nref := f cell.data.nref } }
  return { list with gcbs }

/-- `Core_PRSMList_ReadLock`. -/
def readLock (list : PrsmList Data CleanUp) : Option (PrsmList Data CleanUp × Nat) :=
  (count (· + 1) list.curGcb list).map fun locked => (locked, list.curGcb)

/-- `Core_PRSMList_ReadUnlock`. -/
def readUnlock (handle : Nat) (list : PrsmList Data CleanUp) : Option (PrsmList Data CleanUp) :=
  count (· - 1) handle list

/-- `Core_PRSMList_ModifyLock`: the handle, and what was given back. -/
def modifyLock (fuel : Nat) (list : PrsmList Data CleanUp) :
    Option (PrsmList Data CleanUp × List (Freed Data CleanUp) × Nat) := do
  let (list, freed) ← prsmFreeGcBarriers fuel list.gcbList none list
  let (list, handle) ← readLock list
  return (list, freed, handle)

/-- `Core_PRSMList_ModifyUnlock`. -/
def modifyUnlock (handle : Nat) (list : PrsmList Data CleanUp) : Option (PrsmList Data CleanUp) :=
  count (· - 1) handle list

/-- `Core_PRSMList_PushFront`, where the pool hands out the element. -/
def pushFront (fuel elem : Nat) (data : Data) (list : PrsmList Data CleanUp) :
    Option (PrsmList Data CleanUp × List (Freed Data CleanUp)) := do
  let elems ← list.elems.alloc elem ⟨data, none⟩
  let (list, freed, lock) ← modifyLock fuel { list with elems }
  let elems ← list.elems.write elem ⟨data, list.head⟩
  let list ← modifyUnlock lock { list with elems, head := some elem }
  return (list, freed)

/-- `prsm_list_on_remove`, where the pool hands out the new barrier. -/
def prsmListOnRemove (elem : Nat) (cleanUp : Option CleanUp) (newGcb : Nat)
    (list : PrsmList Data CleanUp) :
    Option (PrsmList Data CleanUp) := do
  let cell ← list.gcbs.read list.curGcb
  let gcbs ← list.gcbs.write list.curGcb { cell with
    data := { cell.data with elem := some elem, cleanUp } }
  let gcbs ← gcbs.alloc newGcb ⟨⟨0, none, none⟩, none⟩
  let cell ← gcbs.read list.curGcb
  let gcbs ← gcbs.write list.curGcb { cell with next := some newGcb }
  return { list with gcbs, curGcb := newGcb }

/-- `Core_PRSMList_PopFront`, which also answers with the element. -/
def popFront (fuel : Nat) (cleanUp : Option CleanUp) (newGcb : Nat) (list : PrsmList Data CleanUp) :
    Option (PrsmList Data CleanUp × List (Freed Data CleanUp) × Option Nat) := do
  let (list, freed, lock) ← modifyLock fuel list
  match list.head with
  | none =>
    let list ← modifyUnlock lock list
    return (list, freed, none)
  | some elem =>
    let cell ← list.elems.read elem
    let list ← prsmListOnRemove elem cleanUp newGcb { list with head := cell.next }
    let list ← modifyUnlock lock list
    return (list, freed, some elem)

/-- `Core_PRSMList_Create`, where the pool hands out the first barrier. -/
def create (elems : Pool Data) (gcbs : Pool (Gcb CleanUp)) (gcb : Nat) :
    Option (PrsmList Data CleanUp) := do
  let gcbs ← gcbs.alloc gcb ⟨⟨0, none, none⟩, none⟩
  return { head := none, gcbList := gcb, curGcb := gcb, elems, gcbs }

/-! ## Runs -/

/-- The list, and the handle that each reader who holds a lock has got. -/
structure World (Data CleanUp Reader : Type) where
  list : PrsmList Data CleanUp
  held : List (Reader × Nat)

/-- What is done to the list, with the addresses that the pools hand out. -/
inductive Op (Data CleanUp Reader : Type) where
  | readLock (reader : Reader)
  | readUnlock (reader : Reader)
  | pushFront (elem : Nat) (data : Data)
  | popFront (cleanUp : Option CleanUp) (newGcb : Nat)

/-- The operations that take the modify lock. -/
def Op.Modifies : Op Data CleanUp Reader → Prop
  | .readLock _ | .readUnlock _ => False
  | .pushFront .. | .popFront .. => True

/-- What happens to the elements and the readers. -/
inductive Event (Data CleanUp Reader : Type) where
  | locked (reader : Reader)
  | unlocked (reader : Reader)
  | pushed (elem : Nat) (data : Data)
  | popped (elem : Nat) (cleanUp : Option CleanUp)
  | freed (freed : Freed Data CleanUp)
  /-- The barriers have been gone through. -/
  | collected

variable [DecidableEq Reader]

/-- One operation. A lock is taken under a name that is not in use, and given back by who has it. -/
def step (fuel : Nat) (w : World Data CleanUp Reader) : Op Data CleanUp Reader →
    Option (World Data CleanUp Reader × List (Event Data CleanUp Reader))
  | .readLock reader =>
    if reader ∈ w.held.map (·.1) then none
    else (readLock w.list).map fun (list, handle) =>
      (⟨list, (reader, handle) :: w.held⟩, [.locked reader])
  | .readUnlock reader => do
    let handle ← w.held.lookup reader
    let list ← readUnlock handle w.list
    return (⟨list, w.held.filter (·.1 ≠ reader)⟩, [.unlocked reader])
  | .pushFront elem data => do
    let (list, freed) ← pushFront fuel elem data w.list
    return ({ w with list }, freed.map .freed ++ [.collected, .pushed elem data])
  | .popFront cleanUp newGcb => do
    let (list, freed, popped) ← popFront fuel cleanUp newGcb w.list
    return ({ w with list },
      freed.map .freed ++ .collected :: (popped.map fun elem => .popped elem cleanUp).toList)

/-- An operation and what happened. -/
abbrev Happened (Data CleanUp Reader : Type) :=
  Op Data CleanUp Reader × List (Event Data CleanUp Reader)

def Step (w : World Data CleanUp Reader) (e : Happened Data CleanUp Reader)
    (w' : World Data CleanUp Reader) : Prop :=
  ∃ fuel, step fuel w e.1 = some (w', e.2)

/-! ## What shall happen -/

/-- An element that was removed and not given back yet, with the readers who took their lock before
that and still hold it. -/
structure Removed (Data CleanUp Reader : Type) where
  elem : Nat
  data : Data
  cleanUp : Option CleanUp
  waiting : List Reader

/-- The elements in the list, those removed from it, and the readers. -/
structure Ledger (Data CleanUp Reader : Type) where
  items : List (Nat × Data)
  removed : List (Removed Data CleanUp Reader)
  readers : List Reader

variable [DecidableEq Data] [DecidableEq CleanUp]

/-- What may happen: an element is given back when it was removed and not given back since, and
nobody holds a lock from before, after its clean up function was called with its data; and nothing
is left over when nobody holds a lock. -/
def Ledger.step (l : Ledger Data CleanUp Reader) : Event Data CleanUp Reader →
    Option (Ledger Data CleanUp Reader)
  | .locked reader => some { l with readers := reader :: l.readers }
  | .unlocked reader => some { l with
      readers := l.readers.filter (· ≠ reader)
      removed := l.removed.map fun r => { r with waiting := r.waiting.filter (· ≠ reader) } }
  | .pushed elem data => some { l with items := (elem, data) :: l.items }
  | .popped elem cleanUp =>
    match l.items with
    | [] => none
    | item :: items =>
      if item.1 = elem then
        some { l with items, removed := l.removed ++ [⟨elem, item.2, cleanUp, l.readers⟩] }
      else none
  | .freed f =>
    match l.removed.find? (·.elem = f.elem) with
    | none => none
    | some r =>
      if r.waiting = [] ∧ f.cleaned = r.cleanUp.map fun cleanUp => (cleanUp, r.data) then
        some { l with removed := l.removed.filter (·.elem ≠ f.elem) }
      else none
  | .collected => if l.readers = [] ∧ l.removed ≠ [] then none else some l

/-- What happened in a run, the newest first, was what may happen. -/
def Kept (h : List (Happened Data CleanUp Reader)) : Prop :=
  (execute Ledger.step ⟨[], [], []⟩ (h.reverse.flatMap (·.2))).isSome

/-- The barriers before the current one, each with its data. -/
structure Chain (list : PrsmList Data CleanUp) (chain : List (Nat × Gcb CleanUp)) : Prop where
  segment : Segment list.gcbs.cells (some list.curGcb) chain
  first : start (some list.curGcb) chain = some list.gcbList
  current : list.curGcb ∉ chain.map (·.1)

/-- A barrier whose count is zero stands behind none that a reader still holds, nor does a reader
hold it. -/
def Orderly (w : World Data CleanUp Reader) : Prop :=
  ∀ chain, Chain w.list chain → ∀ front b back, chain = front ++ b :: back → b.2.nref = 0 →
    ∀ handle ∈ w.held, handle.2 ∉ (front ++ [b]).map (·.1)

/-- A step of which the modify lock finds the barriers orderly. -/
def OrderlyStep (w : World Data CleanUp Reader) (e : Happened Data CleanUp Reader)
    (w' : World Data CleanUp Reader) : Prop :=
  Step w e w' ∧ (e.1.Modifies → Orderly w)

end

section
variable {Data CleanUp Reader : Type}

/-! ## The barriers in memory -/

/-- A barrier before the current one, with the element that it keeps. -/
structure Barrier (Data CleanUp Reader : Type) where
  addr : Nat
  entry : Removed Data CleanUp Reader

/-- What the barrier holds in memory, where it is counted so often. -/
def Barrier.cell (refs : Nat → UInt32) (b : Barrier Data CleanUp Reader) : Nat × Gcb CleanUp :=
  (b.addr, ⟨refs b.addr, some b.entry.elem, b.entry.cleanUp⟩)

/-- What is given back with the barrier. -/
def Barrier.freed (b : Barrier Data CleanUp Reader) : Freed Data CleanUp :=
  ⟨b.entry.elem, b.entry.cleanUp.map fun cleanUp => (cleanUp, b.entry.data)⟩

/-- The memory of a list: the chain of barriers with their counts and elements, and the elements
that are still in the list. -/
structure Shape (list : PrsmList Data CleanUp) (refs : Nat → UInt32)
    (bs : List (Barrier Data CleanUp Reader)) (items : List (Nat × Data)) : Prop where
  chain : list.gcbs.Linked (some list.curGcb) (bs.map (Barrier.cell refs))
  first : start (some list.curGcb) (bs.map (Barrier.cell refs)) = some list.gcbList
  used : list.gcbs.used list.curGcb = true
  nref : (list.gcbs.cells list.curGcb).data.nref = refs list.curGcb
  nodup : (bs.map (·.addr)).Nodup
  current : list.curGcb ∉ bs.map (·.addr)
  linked : list.elems.Linked none items
  head : list.head = start none items
  stored : ∀ b ∈ bs, list.elems.used b.entry.elem = true ∧
    (list.elems.cells b.entry.elem).data = b.entry.data
  elems : (items.map (·.1) ++ bs.map (·.entry.elem)).Nodup

variable {list : PrsmList Data CleanUp} {refs : Nat → UInt32}
  {bs done rest : List (Barrier Data CleanUp Reader)} {b : Barrier Data CleanUp Reader}
  {items : List (Nat × Data)} {next : Nat} {elem : Nat} {newGcb : Nat}

theorem map_cell_addr (refs : Nat → UInt32) (bs : List (Barrier Data CleanUp Reader)) :
    (bs.map (Barrier.cell refs)).map (·.1) = bs.map (·.addr) := by
  rw [List.map_map]
  rfl

/-- Taking a barrier out of the chain. -/
theorem unlink_spec (h : Shape list refs (done ++ b :: rest) items)
    (hnext : start (some list.curGcb) (rest.map (Barrier.cell refs)) = some next) :
    ∃ first gcbs, unlink next list (done.getLast?.map (·.addr)) =
        some { list with gcbList := first, gcbs } ∧
      gcbs.Linked (some list.curGcb) ((done ++ rest).map (Barrier.cell refs)) ∧
      start (some list.curGcb) ((done ++ rest).map (Barrier.cell refs)) = some first ∧
      gcbs.used = list.gcbs.used ∧ gcbs.cells list.curGcb = list.gcbs.cells list.curGcb := by
  have hchain := h.chain
  have hnodup := h.nodup
  rw [map_append, map_cons] at hchain
  obtain ⟨hdone, hrest⟩ := Pool.linked_append.mp hchain
  have hrest' : list.gcbs.Linked (some list.curGcb) (rest.map (Barrier.cell refs)) :=
    ⟨hrest.segment.2, fun c hc => hrest.used c (mem_cons_of_mem _ hc)⟩
  rcases eq_nil_or_concat done with rfl | ⟨front, p, rfl⟩
  · exact ⟨next, list.gcbs, rfl, hrest', hnext, rfl, rfl⟩
  · rw [concat_eq_append] at *
    rw [map_append] at hdone
    obtain ⟨hfront, hlast⟩ := Pool.linked_append.mp hdone
    obtain ⟨hcell, hused⟩ := Pool.linked_singleton.mp hlast
    have hp : p.addr ∉ front.map (·.addr) ∧ p.addr ∉ rest.map (·.addr) := by
      rw [map_append, map_append, nodup_append] at hnodup
      obtain ⟨hleft, -, hdisjoint⟩ := hnodup
      rw [nodup_append] at hleft
      refine ⟨fun hmem => hleft.2.2 _ hmem _ mem_cons_self rfl, fun hmem => ?_⟩
      exact hdisjoint p.addr (mem_append_right _ mem_cons_self) _
        (mem_cons_of_mem _ hmem) rfl
    have hcurrent : p.addr ≠ list.curGcb := fun heq => h.current (by
      rw [← heq, map_append, map_append]
      exact mem_append_left _ (mem_append_right _ mem_cons_self))
    have hfront' := hfront.write (c := ⟨(list.gcbs.cells p.addr).data, some next⟩)
      (by rw [map_cell_addr]; exact hp.1)
    have hrest'' := hrest'.write (c := ⟨(list.gcbs.cells p.addr).data, some next⟩)
      (by rw [map_cell_addr]; exact hp.2)
    refine ⟨list.gcbList, ⟨update list.gcbs.cells p.addr
      ⟨(list.gcbs.cells p.addr).data, some next⟩, list.gcbs.used⟩, ?_, ?_, ?_, rfl,
      update_of_ne hcurrent.symm ..⟩
    · rw [getLast?_append]
      show unlink next list (some p.addr) = _
      simp only [unlink, Pool.read_used hused, Pool.write_used hused, bind_eq_bind, bind_some]
      rfl
    · rw [append_assoc, map_append, singleton_append, map_cons]
      refine Pool.linked_append.mpr ⟨hfront', ?_⟩
      refine (Pool.linked_append (l := [p.cell refs])).mpr
        ⟨Pool.linked_singleton.mpr ⟨?_, hused⟩, hrest''⟩
      rw [hnext, hcell]
      exact update_self ..
    · have hfirst := h.first
      rw [append_assoc, map_append, start_append] at hfirst ⊢
      exact hfirst

/-- What going through the barriers leaves alone. -/
structure Collected (list list' : PrsmList Data CleanUp)
    (gone : List (Barrier Data CleanUp Reader)) :
    Prop where
  head : list'.head = list.head
  curGcb : list'.curGcb = list.curGcb
  cells : list'.elems.cells = list.elems.cells
  used : ∀ a, a ∉ gone.map (·.entry.elem) → list'.elems.used a = list.elems.used a
  unused : ∀ a, list.gcbs.used a = false → list'.gcbs.used a = false

theorem Collected.refl (list : PrsmList Data CleanUp) :
    Collected list list ([] : List (Barrier Data CleanUp Reader)) :=
  ⟨rfl, rfl, rfl, fun _ _ => rfl, fun _ h => h⟩

theorem Collected.trans {list₁ list₂ list₃ : PrsmList Data CleanUp}
    {gone gone' : List (Barrier Data CleanUp Reader)} (h : Collected list₁ list₂ gone)
    (h' : Collected list₂ list₃ gone') : Collected list₁ list₃ (gone ++ gone') where
  head := h'.head.trans h.head
  curGcb := h'.curGcb.trans h.curGcb
  cells := h'.cells.trans h.cells
  used a ha := by
    rw [map_append, mem_append, not_or] at ha
    exact (h'.used a ha.2).trans (h.used a ha.1)
  unused a ha := h'.unused a (h.unused a ha)

/-- One barrier is taken out of the chain and given back with its element. -/
theorem release_spec (h : Shape list refs (done ++ b :: rest) items)
    (hnext : start (some list.curGcb) (rest.map (Barrier.cell refs)) = some next) :
    ∃ first gcbs elems gcbs', unlink next list (done.getLast?.map (·.addr)) =
        some { list with gcbList := first, gcbs } ∧
      list.elems.free b.entry.elem = some elems ∧ gcbs.free b.addr = some gcbs' ∧
      Shape { list with gcbList := first, gcbs := gcbs', elems } refs (done ++ rest) items ∧
      Collected list { list with gcbList := first, gcbs := gcbs', elems } [b] := by
  obtain ⟨first, gcbs, hunlink, hchain, hfirst, hused, hcurrent⟩ := unlink_spec h hnext
  have hmem : b ∈ done ++ b :: rest := mem_append_right _ mem_cons_self
  have hsub : (done ++ rest).Sublist (done ++ b :: rest) :=
    (List.Sublist.refl _).append (sublist_cons_self ..)
  have haddr : b.addr ∉ (done ++ rest).map (·.addr) := by
    have hnodup := h.nodup
    rw [map_append, map_cons, nodup_middle, nodup_cons] at hnodup
    rw [map_append]
    exact hnodup.1
  have helem : b.entry.elem ∉ items.map (·.1) ++ (done ++ rest).map (·.entry.elem) := by
    have hnodup := h.elems
    rw [map_append, map_cons, ← append_assoc, nodup_middle, nodup_cons] at hnodup
    rw [map_append, ← append_assoc]
    exact hnodup.1
  rw [mem_append, not_or] at helem
  have hbUsed : gcbs.used b.addr = true := by
    rw [hused]
    exact h.chain.used (b.cell refs) (List.mem_map_of_mem hmem)
  have hne : list.curGcb ≠ b.addr := fun heq => h.current (heq ▸ List.mem_map_of_mem hmem)
  refine ⟨first, gcbs, _, _, hunlink, Pool.free_used (h.stored b hmem).1,
    Pool.free_used hbUsed, ?_, ?_⟩
  · exact {
      chain := hchain.free (by rw [map_cell_addr]; exact haddr)
      first := hfirst
      used := (update_of_ne hne ..).trans (hused ▸ h.used)
      nref := (congrArg (·.data.nref) hcurrent).trans h.nref
      nodup := h.nodup.sublist (hsub.map _)
      current := fun hin => h.current ((hsub.map _).subset hin)
      linked := h.linked.free helem.1
      head := h.head
      stored := fun c hc => by
        obtain ⟨hcUsed, hcData⟩ := h.stored c (hsub.subset hc)
        have hcne : c.entry.elem ≠ b.entry.elem := fun heq => helem.2 (heq ▸ List.mem_map_of_mem hc)
        exact ⟨(update_of_ne hcne ..).trans hcUsed, hcData⟩
      elems := h.elems.sublist ((List.Sublist.refl _).append (hsub.map _)) }
  · exact {
      head := rfl
      curGcb := rfl
      cells := rfl
      used := fun a ha => update_of_ne (fun heq => ha (mem_singleton.mpr heq)) ..
      unused := fun a ha => by
        have hne : a ≠ b.addr := fun heq => by
          rw [← heq, hused, ha] at hbUsed
          cases hbUsed
        exact (update_of_ne hne ..).trans (hused ▸ ha) }

/-- **Going through the barriers**: those that are not counted at are given back, and no others. -/
theorem prsmFreeGcBarriers_spec (rest : List (Barrier Data CleanUp Reader)) :
    ∀ (done : List (Barrier Data CleanUp Reader)) {list : PrsmList Data CleanUp} {gcb : Nat},
      Shape list refs (done ++ rest) items →
      start (some list.curGcb) (rest.map (Barrier.cell refs)) = some gcb →
      ∃ list', (∀ fuel, prsmFreeGcBarriers fuel gcb (done.getLast?.map (·.addr)) list =
          if rest.length < fuel then
            some (list', (rest.filter fun b => refs b.addr = 0).map Barrier.freed) else none) ∧
        Shape list' refs (done ++ rest.filter fun b => refs b.addr ≠ 0) items ∧
        Collected list list' (rest.filter fun b => refs b.addr = 0) := by
  induction rest with
  | nil =>
    intro done list gcb h hgcb
    obtain rfl := Option.some.inj hgcb
    refine ⟨list, fun fuel => ?_, h, .refl list⟩
    cases fuel with
    | zero => rfl
    | succ fuel =>
      rw [prsmFreeGcBarriers, if_pos rfl]
      exact (if_pos (Nat.succ_pos fuel)).symm
  | cons b rest ih =>
    intro done list gcb h hgcb
    obtain rfl : b.addr = gcb := Option.some.inj hgcb
    have hmem : b ∈ done ++ b :: rest := mem_append_right _ mem_cons_self
    have hne : b.addr ≠ list.curGcb := fun heq => h.current (heq ▸ List.mem_map_of_mem hmem)
    have hread : list.gcbs.read b.addr = some ⟨(b.cell refs).2,
        start (some list.curGcb) (rest.map (Barrier.cell refs))⟩ := by
      have hchain := h.chain
      rw [map_append, map_cons] at hchain
      obtain ⟨-, hrest⟩ := Pool.linked_append.mp hchain
      exact (Pool.read_used (hrest.used _ mem_cons_self)).trans (congrArg some hrest.segment.1)
    obtain ⟨next, hnext⟩ :
        ∃ next, start (some list.curGcb) (rest.map (Barrier.cell refs)) = some next := by
      cases rest with
      | nil => exact ⟨_, rfl⟩
      | cons c rest => exact ⟨_, rfl⟩
    by_cases hzero : refs b.addr = 0
    · obtain ⟨first, gcbs, elems, gcbs', hunlink, helems, hgcbs, hshape, hcollected⟩ :=
        release_spec h hnext
      obtain ⟨list', hrun, hshape', hcollected'⟩ := ih done hshape hnext
      have hgone : (b :: rest).filter (fun b => refs b.addr = 0) = b :: rest.filter fun b =>
        refs b.addr = 0 :=
        filter_cons_of_pos (decide_eq_true hzero)
      have hkept : (b :: rest).filter (fun b => refs b.addr ≠ 0) = rest.filter fun b =>
        refs b.addr ≠ 0 :=
        filter_cons_of_neg (by simp only [ne_eq, hzero, not_true_eq_false, decide_false]; decide)
      rw [hgone, hkept]
      refine ⟨list', fun fuel => ?_, hshape', hcollected.trans hcollected'⟩
      cases fuel with
      | zero => exact (if_neg (Nat.not_lt_zero _)).symm
      | succ fuel =>
        have hdata := h.stored b hmem
        rw [prsmFreeGcBarriers, if_neg hne, hread, hnext]
        simp only [Barrier.cell, hzero, bind_eq_bind, bind_some, if_true, hunlink, helems, hgcbs,
          Pool.read_used hdata.1, hrun fuel, hdata.2, length_cons, Nat.succ_lt_succ_iff, map_cons]
        by_cases hfuel : rest.length < fuel
        · rw [if_pos hfuel, if_pos hfuel]
          rfl
        · rw [if_neg hfuel, if_neg hfuel]
          rfl
    · have hshape : Shape list refs ((done ++ [b]) ++ rest) items := by
        rw [append_assoc]
        exact h
      obtain ⟨list', hrun, hshape', hcollected⟩ := ih (done ++ [b]) hshape hnext
      rw [append_assoc] at hshape'
      rw [getLast?_append] at hrun
      have hgone : (b :: rest).filter (fun b => refs b.addr = 0) = rest.filter fun b =>
        refs b.addr = 0 :=
        filter_cons_of_neg (by simp only [hzero, decide_false]; decide)
      have hkept : (b :: rest).filter (fun b => refs b.addr ≠ 0) = b :: rest.filter fun b =>
        refs b.addr ≠ 0 :=
        filter_cons_of_pos (decide_eq_true hzero)
      rw [hgone, hkept]
      refine ⟨list', fun fuel => ?_, hshape', hcollected⟩
      cases fuel with
      | zero => exact (if_neg (Nat.not_lt_zero _)).symm
      | succ fuel =>
        rw [prsmFreeGcBarriers, if_neg hne, hread, hnext]
        simp only [Barrier.cell, bind_eq_bind, bind_some, if_neg hzero, length_cons,
          Nat.succ_lt_succ_iff]
        exact hrun fuel

/-- A barrier is counted at. -/
theorem count_spec (h : Shape list refs bs items) (f : UInt32 → UInt32) {gcb : Nat}
    (hgcb : gcb = list.curGcb ∨ gcb ∈ bs.map (·.addr)) :
    ∃ gcbs, count f gcb list = some { list with gcbs } ∧
      Shape { list with gcbs } (update refs gcb (f (refs gcb))) bs items ∧
      gcbs.used = list.gcbs.used := by
  have hstored : list.gcbs.used gcb = true ∧ (list.gcbs.cells gcb).data.nref = refs gcb := by
    rcases hgcb with rfl | hmem
    · exact ⟨h.used, h.nref⟩
    · obtain ⟨b, hb, rfl⟩ := List.mem_map.mp hmem
      have hcell : b.cell refs ∈ bs.map (Barrier.cell refs) := List.mem_map_of_mem hb
      exact ⟨h.chain.used _ hcell, congrArg Gcb.nref (h.chain.segment.data_of_mem hcell)⟩
  obtain ⟨hused, hnref⟩ := hstored
  refine ⟨⟨update list.gcbs.cells gcb
    ⟨{ (list.gcbs.cells gcb).data with nref := f (refs gcb) }, (list.gcbs.cells gcb).next⟩,
    list.gcbs.used⟩, ?_, ?_, rfl⟩
  · rw [count, Pool.read_used hused]
    simp only [bind_eq_bind, bind_some, Pool.write_used hused, hnref]
    rfl
  · have hcells : bs.map (Barrier.cell (update refs gcb (f (refs gcb)))) =
        (bs.map (Barrier.cell refs)).map fun c =>
          (c.1, { c.2 with nref := update refs gcb (f (refs gcb)) c.1 }) := by
      rw [List.map_map]
      rfl
    have hsegment : Segment (update list.gcbs.cells gcb
        ⟨{ (list.gcbs.cells gcb).data with nref := f (refs gcb) }, (list.gcbs.cells gcb).next⟩)
        (some list.curGcb) (bs.map (Barrier.cell (update refs gcb (f (refs gcb))))) := by
      rw [hcells]
      refine h.chain.segment.map_data fun c hc => ?_
      have hdata := h.chain.segment.data_of_mem hc
      by_cases heq : c.1 = gcb
      · rw [← heq, update_self, update_self, hdata]
      · rw [update_of_ne heq, update_of_ne heq]
        obtain ⟨b, -, rfl⟩ := List.mem_map.mp hc
        exact congrArg (fun data => Cell.mk data (list.gcbs.cells b.addr).next) hdata
    exact {
      chain := ⟨hsegment, fun c hc => by
        rw [hcells] at hc
        obtain ⟨d, hd, rfl⟩ := List.mem_map.mp hc
        exact h.chain.used d hd⟩
      first := by
        refine Eq.trans ?_ h.first
        cases bs <;> rfl
      used := h.used
      nref := by
        by_cases heq : list.curGcb = gcb
        · subst heq
          exact (congrArg (fun c : Cell (Gcb CleanUp) => c.data.nref)
            (update_self list.curGcb _ list.gcbs.cells)).trans
            (update_self list.curGcb _ refs).symm
        · rw [update_of_ne heq]
          exact (congrArg (fun c : Cell (Gcb CleanUp) => c.data.nref)
            (update_of_ne heq _ list.gcbs.cells)).trans h.nref
      nodup := h.nodup
      current := h.current
      linked := h.linked
      head := h.head
      stored := h.stored
      elems := h.elems }

/-- The barriers that go and those that stay when the modify lock is taken. -/
def gone (refs : Nat → UInt32) (bs : List (Barrier Data CleanUp Reader)) :
    List (Barrier Data CleanUp Reader) :=
  bs.filter fun b => refs b.addr = 0

def stay (refs : Nat → UInt32) (bs : List (Barrier Data CleanUp Reader)) :
    List (Barrier Data CleanUp Reader) :=
  bs.filter fun b => refs b.addr ≠ 0

theorem modifyLock_spec (h : Shape list refs bs items) : ∃ list',
    (∀ fuel, modifyLock fuel list = if bs.length < fuel then
      some (list', (gone refs bs).map Barrier.freed, list.curGcb) else none) ∧
    Shape list' (update refs list.curGcb (refs list.curGcb + 1)) (stay refs bs) items ∧
    Collected list list' (gone refs bs) := by
  obtain ⟨list₁, hrun, hshape, hcollected⟩ := prsmFreeGcBarriers_spec bs [] h h.first
  have hrun' : ∀ fuel, prsmFreeGcBarriers fuel list.gcbList none list = if bs.length < fuel then
      some (list₁, (gone refs bs).map Barrier.freed) else none := hrun
  rw [← hcollected.curGcb]
  obtain ⟨gcbs, hcount, hshape', hused⟩ := count_spec hshape (· + 1) (.inl rfl)
  refine ⟨{ list₁ with gcbs }, fun fuel => ?_, hshape', ?_⟩
  · rw [modifyLock, hrun' fuel]
    by_cases hfuel : bs.length < fuel
    · rw [if_pos hfuel, if_pos hfuel]
      simp only [bind_eq_bind, bind_some, readLock, hcount, map_some]
      rfl
    · rw [if_neg hfuel, if_neg hfuel]
      rfl
  · exact {
      head := hcollected.head
      curGcb := hcollected.curGcb
      cells := hcollected.cells
      used := hcollected.used
      unused := fun a ha => by
        show gcbs.used a = false
        rw [hused]
        exact hcollected.unused a ha }

/-- The count that was added with the lock is taken off. -/
theorem modifyUnlock_spec {handle : Nat}
    (h : Shape list (update refs handle (refs handle + 1)) bs items)
    (hhandle : handle = list.curGcb ∨ handle ∈ bs.map (·.addr)) :
    ∃ list', modifyUnlock handle list = some list' ∧ Shape list' refs bs items ∧
      list'.curGcb = list.curGcb := by
  obtain ⟨gcbs, hcount, hshape, -⟩ := count_spec h (· - 1) hhandle
  refine ⟨_, hcount, ?_, rfl⟩
  rw [update_self, UInt32.add_sub_cancel, update_idem, update_eq_self] at hshape
  exact hshape

/-- **An element is put in front.** -/
theorem pushFront_spec (h : Shape list refs bs items) (data : Data)
    (hnew : list.elems.used elem = false) : ∃ list',
    (∀ fuel, pushFront fuel elem data list = if bs.length < fuel then
      some (list', (gone refs bs).map Barrier.freed) else none) ∧
    Shape list' refs (stay refs bs) ((elem, data) :: items) ∧ list'.curGcb = list.curGcb := by
  have hne : ∀ b ∈ bs, b.entry.elem ≠ elem := fun b hb heq => by
    rw [← heq, (h.stored b hb).1] at hnew
    cases hnew
  have hshape : Shape { list with elems := ⟨update list.elems.cells elem ⟨data, none⟩,
      update list.elems.used elem true⟩ } refs bs items := {
    chain := h.chain
    first := h.first
    used := h.used
    nref := h.nref
    nodup := h.nodup
    current := h.current
    linked := h.linked.alloc hnew
    head := h.head
    stored := fun b hb => by
      refine ⟨(update_of_ne (hne b hb) ..).trans (h.stored b hb).1, ?_⟩
      exact (congrArg Cell.data (update_of_ne (hne b hb) _ list.elems.cells)).trans
        (h.stored b hb).2
    elems := h.elems }
  obtain ⟨list₁, hlock, hshape₁, hcollected⟩ := modifyLock_spec hshape
  have hused : list₁.elems.used elem = true := by
    rw [hcollected.used elem fun hmem => by
      obtain ⟨b, hb, heq⟩ := List.mem_map.mp hmem
      exact hne b (mem_filter.mp hb).1 heq]
    exact update_self ..
  have hfresh : elem ∉ items.map (·.1) ++ (stay refs bs).map (·.entry.elem) := by
    rw [mem_append, not_or]
    refine ⟨h.linked.unused_not_mem hnew, fun hmem => ?_⟩
    obtain ⟨b, hb, heq⟩ := List.mem_map.mp hmem
    exact hne b (mem_filter.mp hb).1 heq
  rw [mem_append, not_or] at hfresh
  have hshape₂ : Shape { list₁ with
      elems := { list₁.elems with cells := update list₁.elems.cells elem ⟨data, list₁.head⟩ }
      head := some elem } (update refs list.curGcb (refs list.curGcb + 1)) (stay refs bs)
      ((elem, data) :: items) := {
    chain := hshape₁.chain
    first := hshape₁.first
    used := hshape₁.used
    nref := hshape₁.nref
    nodup := hshape₁.nodup
    current := hshape₁.current
    linked := by
      refine (Pool.linked_append (l := [(elem, data)])).mpr ⟨Pool.linked_singleton.mpr ⟨?_, hused⟩,
        hshape₁.linked.write hfresh.1⟩
      rw [← hshape₁.head]
      exact update_self ..
    head := rfl
    stored := fun b hb => by
      obtain ⟨hbUsed, hbData⟩ := hshape₁.stored b hb
      refine ⟨hbUsed, (congrArg Cell.data (update_of_ne ?_ _ list₁.elems.cells)).trans hbData⟩
      exact hne b (mem_filter.mp hb).1
    elems := by
      rw [map_cons, cons_append, nodup_cons, mem_append, not_or]
      exact ⟨hfresh, hshape₁.elems⟩ }
  obtain ⟨list', hunlock, hshape', hcurrent⟩ :=
    modifyUnlock_spec hshape₂ (.inl hcollected.curGcb.symm)
  refine ⟨list', fun fuel => ?_, hshape', hcurrent.trans hcollected.curGcb⟩
  rw [pushFront, Pool.alloc_unused hnew]
  simp only [bind_eq_bind, bind_some, hlock fuel]
  by_cases hfuel : bs.length < fuel
  · simp only [if_pos hfuel, bind_some, Pool.write_used hused, hunlock]
    rfl
  · rw [if_neg hfuel, if_neg hfuel]
    rfl

/-- A removed element is left at the current barrier, behind which a new one is put. -/
theorem prsmListOnRemove_spec (h : Shape list refs bs items) (entry : Removed Data CleanUp Reader)
    (hstored : list.elems.used entry.elem = true ∧ (list.elems.cells entry.elem).data = entry.data)
    (hfresh : entry.elem ∉ items.map (·.1) ++ bs.map (·.entry.elem))
    (hnew : list.gcbs.used newGcb = false) :
    ∃ gcbs, prsmListOnRemove entry.elem entry.cleanUp newGcb list =
        some { list with gcbs, curGcb := newGcb } ∧
      Shape { list with gcbs, curGcb := newGcb } (update refs newGcb 0)
        (bs ++ [⟨list.curGcb, entry⟩]) items := by
  have hne : list.curGcb ≠ newGcb := fun heq => by
    rw [← heq, h.used] at hnew
    cases hnew
  have hnot : newGcb ∉ bs.map (·.addr) := map_cell_addr refs bs ▸ h.chain.unused_not_mem hnew
  have hrefs : bs.map (Barrier.cell (update refs newGcb 0)) = bs.map (Barrier.cell refs) := by
    refine map_congr_left fun b hb => ?_
    have hbne : b.addr ≠ newGcb := fun heq => hnot (heq ▸ List.mem_map_of_mem hb)
    rw [Barrier.cell, update_of_ne hbne]
    rfl
  refine ⟨⟨update (update (update list.gcbs.cells list.curGcb
      ⟨{ (list.gcbs.cells list.curGcb).data with
          elem := some entry.elem, cleanUp := entry.cleanUp },
        (list.gcbs.cells list.curGcb).next⟩) newGcb ⟨⟨0, none, none⟩, none⟩) list.curGcb
      ⟨{ (list.gcbs.cells list.curGcb).data with
          elem := some entry.elem, cleanUp := entry.cleanUp },
        some newGcb⟩, update list.gcbs.used newGcb true⟩, ?_, ?_⟩
  · have hused : update list.gcbs.used newGcb true list.curGcb = true :=
      (update_of_ne hne ..).trans h.used
    rw [prsmListOnRemove, Pool.read_used h.used]
    simp only [bind_eq_bind, bind_some, Pool.write_used h.used, Pool.alloc_unused, hnew,
      Pool.read_used, Pool.write_used, hused, update_of_ne hne, update_self]
    rfl
  · have hbs : Pool.Linked ⟨update (update (update list.gcbs.cells list.curGcb
        ⟨{ (list.gcbs.cells list.curGcb).data with
            elem := some entry.elem, cleanUp := entry.cleanUp },
          (list.gcbs.cells list.curGcb).next⟩) newGcb ⟨⟨0, none, none⟩, none⟩) list.curGcb
        ⟨{ (list.gcbs.cells list.curGcb).data with
            elem := some entry.elem, cleanUp := entry.cleanUp },
          some newGcb⟩, update list.gcbs.used newGcb true⟩ (some list.curGcb)
        (bs.map (Barrier.cell refs)) := by
      refine h.chain.congr (fun c hc => ?_) (fun c hc => ?_)
      · have hcurrent := Pool.ne_of_not_mem (map_cell_addr refs bs ▸ h.current) hc
        have hcnew := Pool.ne_of_not_mem (map_cell_addr refs bs ▸ hnot) hc
        exact (update_of_ne hcurrent ..).trans
          ((update_of_ne hcnew ..).trans (update_of_ne hcurrent ..))
      · exact update_of_ne (Pool.ne_of_not_mem (map_cell_addr refs bs ▸ hnot) hc) ..
    exact {
      chain := by
        rw [map_append, hrefs]
        refine Pool.linked_append.mpr ⟨hbs, Pool.linked_singleton.mpr ⟨?_, ?_⟩⟩
        · refine (update_self list.curGcb _ _).trans ?_
          show Cell.mk (Gcb.mk (list.gcbs.cells list.curGcb).data.nref _ _) _ =
            Cell.mk (Gcb.mk (update refs newGcb 0 list.curGcb) _ _) _
          rw [update_of_ne hne, h.nref]
        · exact (update_of_ne hne ..).trans h.used
      first := by
        rw [map_append, start_append, hrefs]
        exact h.first
      used := update_self ..
      nref := by
        simp only [update_of_ne hne.symm, update_self]
      nodup := by
        rw [map_append]
        exact nodup_append.mpr ⟨h.nodup, pairwise_singleton ..,
          fun a ha b hb heq => by
            obtain rfl : b = list.curGcb := mem_singleton.mp hb
            exact h.current (heq ▸ ha)⟩
      current := by
        rw [map_append, mem_append, not_or]
        exact ⟨hnot, fun hmem => hne (mem_singleton.mp hmem).symm⟩
      linked := h.linked
      head := h.head
      stored := fun b hb => by
        rcases mem_append.mp hb with hb | hb
        · exact h.stored b hb
        · obtain rfl := mem_singleton.mp hb
          exact hstored
      elems := by
        rw [map_append, ← append_assoc]
        exact nodup_append.mpr ⟨h.elems, pairwise_singleton ..,
          fun a ha b hb heq => by
            obtain rfl : b = entry.elem := mem_singleton.mp hb
            exact hfresh (heq ▸ ha)⟩ }

/-- A barrier that is in use cannot be the new one. -/
theorem prsmListOnRemove_used (elem : Nat) (cleanUp : Option CleanUp)
    (hcurrent : list.gcbs.used list.curGcb = true) (hnew : list.gcbs.used newGcb = true) :
    prsmListOnRemove elem cleanUp newGcb list = none := by
  rw [prsmListOnRemove, Pool.read_used hcurrent]
  simp only [bind_eq_bind, bind_some, Pool.write_used hcurrent, Pool.alloc,
    hnew, if_true, bind_none]

/-- Nothing is taken off the empty list. -/
theorem popFront_nil (h : Shape list refs bs []) (cleanUp : Option CleanUp) (newGcb : Nat) :
    ∃ list', (∀ fuel, popFront fuel cleanUp newGcb list = if bs.length < fuel then
        some (list', (gone refs bs).map Barrier.freed, none) else none) ∧
      Shape list' refs (stay refs bs) [] ∧ list'.curGcb = list.curGcb := by
  obtain ⟨list₁, hlock, hshape, hcollected⟩ := modifyLock_spec h
  obtain ⟨list', hunlock, hshape', hcurrent⟩ :=
    modifyUnlock_spec hshape (.inl hcollected.curGcb.symm)
  refine ⟨list', fun fuel => ?_, hshape', hcurrent.trans hcollected.curGcb⟩
  have hhead : list₁.head = none := hshape.head
  rw [popFront, hlock fuel]
  by_cases hfuel : bs.length < fuel
  · rw [if_pos hfuel, if_pos hfuel]
    simp only [bind_eq_bind, bind_some, hhead, hunlock]
    rfl
  · rw [if_neg hfuel, if_neg hfuel]
    rfl

/-- **The element in front is taken off** and left at the barrier that was the current one. -/
theorem popFront_cons {data : Data} (h : Shape list refs bs ((elem, data) :: items))
    (cleanUp : Option CleanUp) (waiting : List Reader) (newGcb : Nat) : ∃ list₁ list',
    Collected list list₁ (gone refs bs) ∧
    (∀ fuel, popFront fuel cleanUp newGcb list =
      if bs.length < fuel ∧ list₁.gcbs.used newGcb = false then
        some (list', (gone refs bs).map Barrier.freed, some elem) else none) ∧
    (list₁.gcbs.used newGcb = false → Shape list' (update refs newGcb 0)
      (stay refs bs ++ [⟨list.curGcb, ⟨elem, data, cleanUp, waiting⟩⟩]) items ∧
      list'.curGcb = newGcb) := by
  obtain ⟨list₁, hlock, hshape, hcollected⟩ := modifyLock_spec h
  have hlinked := (Pool.linked_append (l := [(elem, data)])).mp hshape.linked
  obtain ⟨hcell, hused⟩ := Pool.linked_singleton.mp hlinked.1
  have hnodup := hshape.elems
  rw [map_cons, cons_append, nodup_cons] at hnodup
  have hrest : Shape { list₁ with head := start none items }
      (update refs list.curGcb (refs list.curGcb + 1)) (stay refs bs) items :=
    { hshape with linked := hlinked.2, head := rfl, elems := hnodup.2 }
  by_cases hnew : list₁.gcbs.used newGcb = false
  · obtain ⟨gcbs, hremove, hshape₂⟩ := prsmListOnRemove_spec hrest ⟨elem, data, cleanUp, waiting⟩
      ⟨hused, congrArg Cell.data hcell⟩ hnodup.1 hnew
    have hne : list.curGcb ≠ newGcb := fun heq => by
      rw [← heq, ← hcollected.curGcb, hshape.used] at hnew
      cases hnew
    have hrefs : update (update refs list.curGcb (refs list.curGcb + 1)) newGcb 0 =
        update (update refs newGcb 0) list.curGcb
          (update refs newGcb 0 list.curGcb + 1) := by
      rw [update_of_ne hne, update_comm hne]
    rw [hrefs] at hshape₂
    obtain ⟨list', hunlock, hshape', hcurrent⟩ := modifyUnlock_spec hshape₂ (.inr (by
      rw [map_append]
      exact mem_append_right _ (mem_singleton.mpr hcollected.curGcb.symm)))
    rw [show ({ list₁ with head := start none items } : PrsmList Data CleanUp).curGcb =
      list.curGcb from
      hcollected.curGcb] at hshape'
    refine ⟨list₁, list', hcollected, fun fuel => ?_, fun _ => ⟨hshape', hcurrent⟩⟩
    rw [popFront, hlock fuel]
    by_cases hfuel : bs.length < fuel
    · rw [if_pos hfuel, if_pos ⟨hfuel, hnew⟩]
      have hhead : list₁.head = some elem := hshape.head
      simp only [bind_eq_bind, bind_some, hhead, Pool.read_used hused, hcell, hremove, hunlock]
      rfl
    · rw [if_neg hfuel, if_neg fun h : bs.length < fuel ∧ _ => hfuel h.1]
      rfl
  · refine ⟨list₁, list₁, hcollected, fun fuel => ?_, fun h => absurd h hnew⟩
    rw [popFront, hlock fuel]
    by_cases hfuel : bs.length < fuel
    · rw [if_pos hfuel, if_neg fun h : bs.length < fuel ∧ _ => hnew h.2]
      have hhead : list₁.head = some elem := hshape.head
      have hremove := prsmListOnRemove_used elem cleanUp hrest.used
        (by simpa using hnew)
      simp only [bind_eq_bind, bind_some, hhead, Pool.read_used hused, hcell, hremove,
        bind_none]
    · rw [if_neg hfuel, if_neg fun h : bs.length < fuel ∧ _ => hfuel h.1]
      rfl

/-! ## Giving back -/

theorem find_removed {rs : List (Removed Data CleanUp Reader)} (hnodup : (rs.map (·.elem)).Nodup)
    {r : Removed Data CleanUp Reader} (hr : r ∈ rs) : rs.find? (·.elem = r.elem) = some r := by
  induction rs with
  | nil => cases hr
  | cons s rs ih =>
    rw [map_cons, nodup_cons] at hnodup
    rcases mem_cons.mp hr with rfl | hr
    · exact find?_cons_of_pos (decide_eq_true rfl)
    · have hne : s.elem ≠ r.elem := fun heq => hnodup.1 (heq ▸ List.mem_map_of_mem hr)
      rw [find?_cons_of_neg (by simpa using hne)]
      exact ih hnodup.2 hr

end

section
variable {Data CleanUp Reader : Type} [DecidableEq Reader] [DecidableEq Data] [DecidableEq CleanUp]

variable {l : Ledger Data CleanUp Reader}

/-- Whether an element may be given back. -/
theorem step_freed (hnodup : (l.removed.map (·.elem)).Nodup) {b : Barrier Data CleanUp Reader}
    (hb : b.entry ∈ l.removed) : l.step (.freed b.freed) = if b.entry.waiting = [] then
      some { l with removed := l.removed.filter (·.elem ≠ b.entry.elem) } else none := by
  have hfind : l.removed.find? (·.elem = b.freed.elem) = some b.entry := find_removed hnodup hb
  simp only [Ledger.step, hfind]
  by_cases hwaiting : b.entry.waiting = []
  · rw [if_pos ⟨hwaiting, rfl⟩, if_pos hwaiting]
    rfl
  · rw [if_neg hwaiting, if_neg fun h => hwaiting h.1]

/-- The elements of some barriers may be given back when nobody waits for any of them. -/
theorem execute_freed (bs : List (Barrier Data CleanUp Reader)) :
    ∀ {l : Ledger Data CleanUp Reader}, (l.removed.map (·.elem)).Nodup →
      (bs.map (·.entry.elem)).Nodup → (∀ b ∈ bs, b.entry ∈ l.removed) →
      execute Ledger.step l ((bs.map Barrier.freed).map .freed) =
        if ∀ b ∈ bs, b.entry.waiting = [] then
          some { l with
            removed := l.removed.filter fun r => r.elem ∉ bs.map (·.entry.elem) } else none := by
  induction bs with
  | nil =>
    intro l hnodup hbs hmem
    rw [if_pos fun b hb => absurd hb not_mem_nil]
    have hall : l.removed.filter (fun r => r.elem ∉ ([] : List (Barrier Data CleanUp Reader)).map
        (·.entry.elem)) = l.removed := filter_eq_self.mpr fun r _ => decide_eq_true not_mem_nil
    rw [hall]
    rfl
  | cons b bs ih =>
    intro l hnodup hbs hmem
    rw [map_cons, nodup_cons] at hbs
    rw [map_cons, map_cons, execute, step_freed hnodup (hmem b mem_cons_self)]
    by_cases hwaiting : b.entry.waiting = []
    · rw [if_pos hwaiting, bind_some, ih ((hnodup.sublist ((filter_sublist).map _))) hbs.2 ?_]
      · rw [List.filter_filter]
        have hiff : (∀ c ∈ bs, c.entry.waiting = []) ↔ ∀ c ∈ b :: bs, c.entry.waiting = [] := by
          rw [forall_mem_cons]
          exact (and_iff_right hwaiting).symm
        have hfilter : (l.removed.filter fun r => decide (r.elem ∉ bs.map (·.entry.elem)) &&
            decide (r.elem ≠ b.entry.elem)) =
            l.removed.filter fun r => r.elem ∉ (b :: bs).map (·.entry.elem) := by
          refine filter_congr fun r _ => ?_
          rw [← Bool.decide_and, decide_eq_decide, map_cons, mem_cons, not_or]
          exact and_comm
        rw [hfilter]
        simp only [hiff]
      · intro c hc
        have hne : c.entry.elem ≠ b.entry.elem := fun heq => hbs.1 (heq ▸ List.mem_map_of_mem hc)
        exact mem_filter.mpr ⟨hmem c (mem_cons_of_mem _ hc), decide_eq_true hne⟩
    · rw [if_neg hwaiting, if_neg fun h => hwaiting (h b mem_cons_self)]
      rfl

end

section
variable {Data CleanUp Reader : Type}

/-! ## Readers -/

/-- How often a barrier is counted at by the locks that are held. -/
def refsOf (held : List (Reader × Nat)) (gcb : Nat) : UInt32 := .ofNat (held.countP (·.2 = gcb))

/-- The locks that are held, the barriers and the ledger: a reader waits with the elements of the
barrier that it is counted at and of those behind. -/
structure Tracks (current : Nat) (held : List (Reader × Nat))
    (bs : List (Barrier Data CleanUp Reader))
    (l : Ledger Data CleanUp Reader) : Prop where
  handles : ∀ h ∈ held, h.2 = current ∨ h.2 ∈ bs.map (·.addr)
  names : (held.map (·.1)).Nodup
  removed : l.removed = bs.map (·.entry)
  readers : l.readers = held.map (·.1)
  waiting : ∀ front b back, bs = front ++ b :: back →
    b.entry.waiting = (held.filter fun h => h.2 ∈ (front ++ [b]).map (·.addr)).map (·.1)

/-- The invariant of a run. -/
structure Inv (w : World Data CleanUp Reader) (bs : List (Barrier Data CleanUp Reader))
    (l : Ledger Data CleanUp Reader) : Prop where
  shape : Shape w.list (refsOf w.held) bs l.items
  tracks : Tracks w.list.curGcb w.held bs l

variable {current : Nat} {held : List (Reader × Nat)} {bs : List (Barrier Data CleanUp Reader)}
  {l : Ledger Data CleanUp Reader} {newGcb : Nat}

/-- The new barrier is nobody's. -/
theorem refsOf_new (h : Tracks current held bs l)
    (hcurrent : newGcb ≠ current) (hbs : newGcb ∉ bs.map (·.addr)) : refsOf held newGcb = 0 := by
  have hnone : held.countP (·.2 = newGcb) = 0 := by
    rw [countP_eq_zero]
    intro handle hhandle heq
    obtain rfl := of_decide_eq_true heq
    rcases h.handles handle hhandle with heq | hmem
    · exact hcurrent heq
    · exact hbs hmem
  rw [refsOf, hnone]
  rfl

theorem refsOf_lock (held : List (Reader × Nat)) (reader : Reader) (gcb : Nat) :
    refsOf ((reader, gcb) :: held) = update (refsOf held) gcb (refsOf held gcb + 1) := by
  funext a
  unfold refsOf
  rw [countP_cons]
  by_cases heq : gcb = a
  · subst heq
    rw [update_self, if_pos (decide_eq_true rfl), UInt32.ofNat_add]
    rfl
  · rw [update_of_ne (Ne.symm heq), if_neg (by simpa using heq), Nat.add_zero]

/-- A lock is taken at the current barrier. -/
theorem Tracks.lock (h : Tracks current held bs l) (hcurrent : current ∉ bs.map (·.addr))
    {reader : Reader} (hreader : reader ∉ held.map (·.1)) :
    Tracks current ((reader, current) :: held) bs { l with readers := reader :: l.readers } where
  handles := by
    intro handle hhandle
    rcases mem_cons.mp hhandle with rfl | hhandle
    · exact .inl rfl
    · exact h.handles handle hhandle
  names := nodup_cons.mpr ⟨hreader, h.names⟩
  removed := h.removed
  readers := congrArg (reader :: ·) h.readers
  waiting := by
    intro front b back hbs
    have hnot : current ∉ (front ++ [b]).map (·.addr) := fun hmem => hcurrent (by
      rw [hbs, show front ++ b :: back = (front ++ [b]) ++
        back by rw [append_assoc]; rfl, map_append]
      exact mem_append_left _ hmem)
    rw [filter_cons_of_neg (by simpa using hnot)]
    exact h.waiting front b back hbs

/-- The locks of the others. -/
def others [DecidableEq Reader] (reader : Reader) (held : List (Reader × Nat)) :
    List (Reader × Nat) :=
  held.filter (·.1 ≠ reader)

section
variable [DecidableEq Reader] {reader : Reader} {handle : Nat}

theorem perm_others (hnames : (held.map (·.1)).Nodup)
    (hlookup : held.lookup reader = some handle) :
    held.Perm ((reader, handle) :: others reader held) := by
  induction held with
  | nil => cases hlookup
  | cons h held ih =>
    obtain ⟨name, gcb⟩ := h
    rw [map_cons, nodup_cons] at hnames
    by_cases heq : name = reader
    · subst heq
      rw [lookup_cons_self] at hlookup
      obtain rfl := Option.some.inj hlookup
      have hothers : others name ((name, gcb) :: held) = held := by
        rw [others, filter_cons_of_neg (by simp), filter_eq_self]
        intro other hother
        exact decide_eq_true fun heq => hnames.1 (List.mem_map.mpr ⟨other, hother, heq⟩)
      rw [hothers]
    · have hlookup' : held.lookup reader = some handle := by
        rw [lookup_cons, show (reader == name) = false from beq_false_of_ne
          (Ne.symm heq)] at hlookup
        exact hlookup
      have hothers : others reader ((name, gcb) :: held) = (name, gcb) :: others reader held :=
        filter_cons_of_pos (decide_eq_true heq)
      rw [hothers]
      exact ((ih hnames.2 hlookup').cons _).trans (.swap ..)

theorem refsOf_unlock (hnames : (held.map (·.1)).Nodup)
    (hlookup : held.lookup reader = some handle) :
    refsOf (others reader held) = update (refsOf held) handle (refsOf held handle - 1) := by
  have hrefs : refsOf held = update (refsOf (others reader held)) handle
      (refsOf (others reader held) handle + 1) := by
    rw [← refsOf_lock _ reader]
    funext a
    exact congrArg UInt32.ofNat ((perm_others hnames hlookup).countP_eq _)
  rw [hrefs, update_self, UInt32.add_sub_cancel, update_idem, update_eq_self]

/-- The barrier, where a reader does not wait any longer. -/
def Barrier.unlocked (reader : Reader) (b : Barrier Data CleanUp Reader) :
    Barrier Data CleanUp Reader :=
  { b with entry := { b.entry with waiting := b.entry.waiting.filter (· ≠ reader) } }

/-- A lock is given back. -/
theorem Tracks.unlock (h : Tracks current held bs l) (reader : Reader) :
    Tracks current (others reader held) (bs.map (Barrier.unlocked reader)) { l with
      readers := l.readers.filter (· ≠ reader)
      removed := l.removed.map fun r => { r with waiting := r.waiting.filter (· ≠ reader) } } where
  handles := by
    intro handle hhandle
    rw [List.map_map]
    exact h.handles handle (mem_filter.mp hhandle).1
  names := h.names.sublist (filter_sublist.map _)
  removed := by
    rw [h.removed, List.map_map, List.map_map]
    rfl
  readers := by
    rw [h.readers, List.filter_map]
    rfl
  waiting := by
    intro front b back hbs
    obtain ⟨front', rest, rfl, rfl, hrest⟩ := map_eq_append_iff.mp hbs
    obtain ⟨b', back', rfl, rfl, rfl⟩ := map_eq_cons_iff.mp hrest
    have haddrs :
        ∀ a, a ∈ (front'.map (Barrier.unlocked reader) ++ [b'.unlocked reader]).map (·.addr) ↔
        a ∈ (front' ++ [b']).map (·.addr) := by
      intro a
      rw [map_append, map_append, List.map_map]
      exact Iff.rfl
    show b'.entry.waiting.filter (· ≠ reader) = _
    rw [h.waiting front' b' back' rfl, List.filter_map, List.filter_filter]
    simp only [others, List.filter_filter, haddrs, Bool.and_comm, comp_def]

theorem Shape.unlocked {list : PrsmList Data CleanUp} {refs : Nat → UInt32}
    {items : List (Nat × Data)} (h : Shape list refs bs items) (reader : Reader) :
    Shape list refs (bs.map (Barrier.unlocked reader)) items := by
  have hcells : (bs.map (Barrier.unlocked reader)).map (Barrier.cell refs) = bs.map
      (Barrier.cell refs) := by
    rw [List.map_map]
    rfl
  have haddrs : (bs.map (Barrier.unlocked reader)).map (·.addr) = bs.map (·.addr) := by
    rw [List.map_map]
    rfl
  have helems : (bs.map (Barrier.unlocked reader)).map (·.entry.elem) = bs.map (·.entry.elem) := by
    rw [List.map_map]
    rfl
  exact { h with
    chain := hcells.symm ▸ h.chain
    first := hcells.symm ▸ h.first
    nodup := haddrs.symm ▸ h.nodup
    current := haddrs.symm ▸ h.current
    stored := fun b hb => by
      obtain ⟨b', hb', rfl⟩ := List.mem_map.mp hb
      exact h.stored b' hb'
    elems := helems.symm ▸ h.elems }

end

/-- Nobody is counted at a barrier with whose element nobody waits. -/
theorem Tracks.no_holder (h : Tracks current held bs l) {b : Barrier Data CleanUp Reader}
    (hb : b ∈ bs) (hwaiting : b.entry.waiting = []) : ∀ handle ∈ held, handle.2 ≠ b.addr := by
  obtain ⟨front, back, hbs⟩ := append_of_mem hb
  rw [h.waiting front b back hbs, map_eq_nil_iff, filter_eq_nil_iff] at hwaiting
  intro handle hhandle heq
  refine hwaiting handle hhandle (decide_eq_true ?_)
  rw [heq, map_append]
  exact mem_append_right _ (mem_singleton.mpr rfl)

/-- Barriers at which nobody waits are taken out. -/
theorem Tracks.collect (h : Tracks current held bs l) {refs : Nat → UInt32}
    (hidle : ∀ b ∈ gone refs bs, b.entry.waiting = []) :
    Tracks current held (stay refs bs) { l with removed := (stay refs bs).map (·.entry) } where
  handles := by
    intro handle hhandle
    rcases h.handles handle hhandle with heq | hmem
    · exact .inl heq
    · obtain ⟨b, hb, heq⟩ := List.mem_map.mp hmem
      by_cases hzero : refs b.addr = 0
      · have hgone : b ∈ gone refs bs := mem_filter.mpr ⟨hb, decide_eq_true hzero⟩
        exact absurd heq.symm (h.no_holder hb (hidle b hgone) handle hhandle)
      · exact .inr (List.mem_map.mpr ⟨b, mem_filter.mpr ⟨hb, decide_eq_true hzero⟩, heq⟩)
  names := h.names
  removed := rfl
  readers := h.readers
  waiting := by
    intro front b back hstay
    obtain ⟨before, rest, hbs, rfl, hrest⟩ := filter_eq_append_iff.mp hstay
    obtain ⟨skipped, behind, rfl, hskipped, -, -⟩ := filter_eq_cons_iff.mp hrest
    rw [← append_assoc] at hbs
    rw [h.waiting _ b behind hbs]
    refine congrArg _ (filter_congr fun handle hhandle => decide_eq_decide.mpr ?_)
    constructor
    · intro hmem
      obtain ⟨c, hc, heq⟩ := List.mem_map.mp hmem
      have hcbs : c ∈ bs := by
        rw [hbs, show before ++ skipped ++ b :: behind = (before ++ skipped ++ [b]) ++ behind by
          rw [append_assoc (before ++ skipped)]; rfl]
        exact mem_append_left _ hc
      -- a barrier that is taken out is not the reader's
      have hnonzero : refs c.addr ≠ 0 := fun hzero => by
        have hgone : c ∈ gone refs bs := mem_filter.mpr ⟨hcbs, decide_eq_true hzero⟩
        exact h.no_holder hcbs (hidle c hgone) handle hhandle heq.symm
      refine List.mem_map.mpr ⟨c, ?_, heq⟩
      rcases mem_append.mp hc with hc | hc
      · rcases mem_append.mp hc with hc | hc
        · exact mem_append_left _ (mem_filter.mpr ⟨hc, decide_eq_true hnonzero⟩)
        · exact absurd (decide_eq_true hnonzero) (hskipped c hc)
      · exact mem_append_right _ hc
    · intro hmem
      have hsub : (before.filter (fun b => refs b.addr ≠ 0) ++ [b]).Sublist
          (before ++ skipped ++ [b]) :=
        (filter_sublist.trans (sublist_append_left ..)).append (.refl _)
      exact (hsub.map _).subset hmem

/-- A removed element waits for every reader. -/
theorem Tracks.remove (h : Tracks current held bs l) {items : List (Nat × Data)}
    {elem : Nat} {data : Data} {cleanUp : Option CleanUp} :
    Tracks newGcb held (bs ++ [⟨current, ⟨elem, data, cleanUp, l.readers⟩⟩]) { l with
      items, removed := l.removed ++ [⟨elem, data, cleanUp, l.readers⟩] } where
  handles := by
    intro handle hhandle
    rw [map_append]
    rcases h.handles handle hhandle with heq | hmem
    · exact .inr (mem_append_right _ (mem_singleton.mpr heq))
    · exact .inr (mem_append_left _ hmem)
  names := h.names
  removed := by
    rw [map_append, ← h.removed]
    rfl
  readers := h.readers
  waiting := by
    intro front b back hbs
    rcases eq_nil_or_concat back with rfl | ⟨back, last, rfl⟩
    · obtain ⟨rfl, hb⟩ := append_inj' hbs rfl
      obtain rfl := (List.cons.inj hb).1
      have hall : (held.filter fun h => h.2 ∈ (bs ++ [⟨current, ⟨elem, data, cleanUp, l.readers⟩⟩] :
          List (Barrier Data CleanUp Reader)).map (·.addr)) = held := by
        refine filter_eq_self.mpr fun handle hhandle => decide_eq_true ?_
        rw [map_append]
        rcases h.handles handle hhandle with heq | hmem
        · exact mem_append_right _ (mem_singleton.mpr heq)
        · exact mem_append_left _ hmem
      rw [hall]
      exact h.readers
    · rw [concat_eq_append, ← cons_append, ← append_assoc] at hbs
      exact h.waiting front b back (append_inj' hbs rfl).1

end

section
variable {Data CleanUp Reader : Type} {w : World Data CleanUp Reader}
  {bs : List (Barrier Data CleanUp Reader)} {l : Ledger Data CleanUp Reader}

/-! ## Runs of the list -/

theorem Inv.chain (h : Inv w bs l) : Chain w.list (bs.map (Barrier.cell (refsOf w.held))) :=
  ⟨h.shape.chain.segment, h.shape.first, map_cell_addr _ bs ▸ h.shape.current⟩

/-- The barriers are orderly when nobody waits for an element that is given back. -/
theorem Inv.orderly_iff (h : Inv w bs l) :
    Orderly w ↔ ∀ b ∈ gone (refsOf w.held) bs, b.entry.waiting = [] := by
  constructor
  · intro horderly b hb
    obtain ⟨hbs, hzero⟩ := mem_filter.mp hb
    obtain ⟨front, back, rfl⟩ := append_of_mem hbs
    rw [h.tracks.waiting front b back rfl, map_eq_nil_iff, filter_eq_nil_iff]
    intro handle hhandle hmem
    refine horderly _ h.chain (front.map (Barrier.cell (refsOf w.held))) (b.cell (refsOf w.held))
      (back.map (Barrier.cell (refsOf w.held))) (by rw [map_append, map_cons])
      (of_decide_eq_true hzero) handle hhandle ?_
    rw [map_append, map_cell_addr]
    rw [decide_eq_true_eq, map_append] at hmem
    exact hmem
  · intro hidle chain hchain front b back hfront hzero handle hhandle hmem
    have hsame : chain = bs.map (Barrier.cell (refsOf w.held)) :=
      hchain.segment.eq_before h.chain.segment hchain.current h.chain.current
        (hchain.first.trans h.chain.first.symm)
    obtain ⟨front', rest, rfl, rfl, hrest⟩ := map_eq_append_iff.mp (hsame.symm.trans hfront)
    obtain ⟨b', back', rfl, rfl, rfl⟩ := map_eq_cons_iff.mp hrest
    have hwaiting := hidle b' (mem_filter.mpr
      ⟨mem_append_right _ mem_cons_self, decide_eq_true hzero⟩)
    rw [h.tracks.waiting front' b' back' rfl, map_eq_nil_iff, filter_eq_nil_iff] at hwaiting
    refine hwaiting handle hhandle (decide_eq_true ?_)
    rw [map_append, map_cell_addr] at hmem
    rw [map_append]
    exact hmem

/-- The entries that are left. -/
theorem filter_gone {refs : Nat → UInt32} (hnodup : (bs.map (·.entry.elem)).Nodup) :
    ((bs.map (·.entry)).filter fun r => r.elem ∉ (gone refs bs).map (·.entry.elem)) =
      (stay refs bs).map (·.entry) := by
  rw [List.filter_map]
  refine congrArg _ (filter_congr fun b hb => decide_eq_decide.mpr ?_)
  constructor
  · intro hnot hzero
    exact hnot (List.mem_map.mpr ⟨b, mem_filter.mpr ⟨hb, decide_eq_true hzero⟩, rfl⟩)
  · intro hnonzero hmem
    obtain ⟨c, hc, heq⟩ := List.mem_map.mp hmem
    obtain ⟨hcbs, hzero⟩ := mem_filter.mp hc
    have hsame : c = b := inj_on_of_nodup_map hnodup hcbs hb heq
    exact hnonzero (hsame ▸ of_decide_eq_true hzero)

theorem create_inv {elems : Pool Data} {gcbs : Pool (Gcb CleanUp)} {gcb : Nat}
    {list : PrsmList Data CleanUp} (hcreate : create elems gcbs gcb = some list) :
    Inv (⟨list, []⟩ : World Data CleanUp Reader) [] ⟨[], [], []⟩ := by
  obtain ⟨gcbs', halloc, hlist⟩ := bind_eq_some_iff.mp hcreate
  obtain ⟨hnew, rfl⟩ := Pool.unused_of_alloc halloc
  cases hlist
  exact {
    shape := {
      chain := ⟨trivial, fun _ hc => absurd hc not_mem_nil⟩
      first := rfl
      used := update_self ..
      nref := congrArg (fun c : Cell (Gcb CleanUp) => c.data.nref) (update_self gcb _ gcbs.cells)
      nodup := .nil
      current := not_mem_nil
      linked := ⟨trivial, fun _ hc => absurd hc not_mem_nil⟩
      head := rfl
      stored := fun _ hb => absurd hb not_mem_nil
      elems := .nil }
    tracks := {
      handles := fun _ hhandle => absurd hhandle not_mem_nil
      names := .nil
      removed := rfl
      readers := rfl
      waiting := fun front b back hbs => absurd hbs.symm (append_ne_nil_of_right_ne_nil _
        (cons_ne_nil b back)) } }

variable [DecidableEq Reader] {op : Op Data CleanUp Reader} {reader : Reader}

theorem Inv.readLock (h : Inv w bs l) (hreader : reader ∉ w.held.map (·.1)) :
    ∃ list, (∀ fuel, step fuel w (.readLock reader) =
        some (⟨list, (reader, w.list.curGcb) :: w.held⟩, [.locked reader])) ∧
      Inv ⟨list, (reader, w.list.curGcb) :: w.held⟩ bs { l with
        readers := reader :: l.readers } := by
  obtain ⟨gcbs, hcount, hshape, -⟩ := count_spec h.shape (· + 1) (.inl rfl)
  rw [← refsOf_lock w.held reader] at hshape
  refine ⟨_, fun fuel => ?_, hshape, h.tracks.lock h.shape.current hreader⟩
  rw [step, if_neg hreader, CoreUtils.readLock, hcount]
  rfl

theorem Inv.readUnlock (h : Inv w bs l) {handle : Nat}
    (hlookup : w.held.lookup reader = some handle) :
    ∃ list, (∀ fuel, step fuel w (.readUnlock reader) =
        some (⟨list, others reader w.held⟩, [.unlocked reader])) ∧
      Inv ⟨list, others reader w.held⟩ (bs.map (Barrier.unlocked reader)) { l with
        readers := l.readers.filter (· ≠ reader)
        removed :=
          l.removed.map fun r => { r with waiting := r.waiting.filter (· ≠ reader) } } := by
  have hmem : (reader, handle) ∈ w.held :=
    (perm_others h.tracks.names hlookup).mem_iff.mpr mem_cons_self
  obtain ⟨gcbs, hcount, hshape, -⟩ := count_spec h.shape (· - 1) (h.tracks.handles _ hmem)
  rw [← refsOf_unlock h.tracks.names hlookup] at hshape
  refine ⟨_, fun fuel => ?_, hshape.unlocked reader, h.tracks.unlock reader⟩
  rw [step, hlookup]
  simp only [bind_eq_bind, bind_some, CoreUtils.readUnlock, hcount]
  rfl

/-- What the callers and the pools see to: a lock is taken under a new name and given back by who
has it, and a pool hands out what is not in use. -/
def Allowed (w : World Data CleanUp Reader) : Op Data CleanUp Reader → Prop
  | .readLock reader => reader ∉ w.held.map (·.1)
  | .readUnlock reader => reader ∈ w.held.map (·.1)
  | .pushFront elem _ => w.list.elems.used elem = false
  | .popFront _ newGcb => w.list.gcbs.used newGcb = false

/-- No operation gets stuck: the chain of barriers is gone through to its end, and only memory that
is in use is touched. -/
theorem Inv.goes (h : Inv w bs l) (hallowed : Allowed w op) :
    ∃ e w', e.1 = op ∧ Step w e w' := by
  have hsome : ∃ fuel, (CoreUtils.step fuel w op).isSome := by
    cases op with
    | readLock reader =>
      obtain ⟨list, hlock, -⟩ := h.readLock hallowed
      exact ⟨0, hlock 0 ▸ rfl⟩
    | readUnlock reader =>
      obtain ⟨⟨name, handle⟩, hmem, rfl⟩ := List.mem_map.mp hallowed
      obtain ⟨found, hlookup⟩ : ∃ found, w.held.lookup name = some found :=
        isSome_iff_exists.mp (lookup_isSome_iff.mpr ⟨_, hmem, beq_self_eq_true name⟩)
      obtain ⟨list, hunlock, -⟩ := h.readUnlock hlookup
      exact ⟨0, hunlock 0 ▸ rfl⟩
    | pushFront elem data =>
      obtain ⟨list, hrun, -⟩ := pushFront_spec h.shape data hallowed
      refine ⟨bs.length + 1, ?_⟩
      rw [CoreUtils.step, hrun, if_pos (Nat.lt_succ_self _)]
      rfl
    | popFront cleanUp newGcb =>
      refine ⟨bs.length + 1, ?_⟩
      have hshape := h.shape
      rw [CoreUtils.step]
      cases hitems : l.items with
      | nil =>
        rw [hitems] at hshape
        obtain ⟨list, hrun, -⟩ := popFront_nil hshape cleanUp newGcb
        rw [hrun, if_pos (Nat.lt_succ_self _)]
        rfl
      | cons item items =>
        rw [hitems] at hshape
        obtain ⟨list₁, list, hcollected, hrun, -⟩ := popFront_cons hshape cleanUp l.readers newGcb
        rw [hrun, if_pos ⟨Nat.lt_succ_self _, hcollected.unused newGcb hallowed⟩]
        rfl
  obtain ⟨fuel, hfuel⟩ := hsome
  obtain ⟨⟨w', events⟩, hrun⟩ := isSome_iff_exists.mp hfuel
  exact ⟨(op, events), w', rfl, fuel, hrun⟩

variable [DecidableEq Data] [DecidableEq CleanUp]

/-- The ledger while the barriers are gone through. -/
theorem Inv.execute_collect (h : Inv w bs l) (events : List (Event Data CleanUp Reader)) :
    (Orderly w → execute Ledger.step l
        (((gone (refsOf w.held) bs).map Barrier.freed).map .freed ++ .collected :: events) =
      execute Ledger.step { l with removed := (stay (refsOf w.held) bs).map (·.entry) } events) ∧
    (¬ Orderly w → execute Ledger.step l
        (((gone (refsOf w.held) bs).map Barrier.freed).map .freed ++ .collected :: events) =
        none) := by
  have hnodup : (bs.map (·.entry.elem)).Nodup := (nodup_append.mp h.shape.elems).2.1
  have hnodup' : (l.removed.map (·.elem)).Nodup := by
    rw [h.tracks.removed, List.map_map]
    exact hnodup
  have hsub : (gone (refsOf w.held) bs).Sublist bs := filter_sublist
  have hrun :=
      execute_freed (gone (refsOf w.held) bs) hnodup' (hnodup.sublist (hsub.map _)) (fun b hb => by
    rw [h.tracks.removed]
    exact List.mem_map_of_mem (hsub.subset hb))
  rw [execute_append, hrun]
  constructor
  · intro horderly
    rw [if_pos (h.orderly_iff.mp horderly), bind_some, execute, h.tracks.removed,
      filter_gone hnodup]
    have hleft : ¬ (l.readers = [] ∧ (stay (refsOf w.held) bs).map (·.entry) ≠ []) := by
      rintro ⟨hreaders, hne⟩
      rw [h.tracks.readers, map_eq_nil_iff] at hreaders
      refine hne ?_
      rw [map_eq_nil_iff, stay, filter_eq_nil_iff]
      intro b _ hnonzero
      refine of_decide_eq_true hnonzero ?_
      rw [hreaders]
      rfl
    rw [Ledger.step, if_neg hleft]
    rfl
  · intro hdisorder
    rw [if_neg fun hidle => hdisorder (h.orderly_iff.mpr hidle)]
    rfl

variable {w' : World Data CleanUp Reader} {events : List (Event Data CleanUp Reader)} {fuel : Nat}

/-- What a step with the modify lock makes of the ledger. -/
def Answers (w : World Data CleanUp Reader) (l : Ledger Data CleanUp Reader)
    (events : List (Event Data CleanUp Reader)) (w' : World Data CleanUp Reader) : Prop :=
  (Orderly w → ∃ bs l', execute Ledger.step l events = some l' ∧ Inv w' bs l') ∧
    (¬ Orderly w → execute Ledger.step l events = none)

theorem Inv.pushFront (h : Inv w bs l) {elem : Nat} {data : Data}
    (hstep : step fuel w (.pushFront elem data) = some (w', events)) : Answers w l events w' := by
  by_cases hnew : w.list.elems.used elem = false
  · obtain ⟨list, hrun, hshape, hcurrent⟩ := pushFront_spec h.shape data hnew
    rw [step, hrun fuel] at hstep
    by_cases hfuel : bs.length < fuel
    · rw [if_pos hfuel] at hstep
      cases hstep
      obtain ⟨hanswer, hnone⟩ := h.execute_collect [.pushed elem data]
      refine ⟨fun horderly => ⟨_, _, hanswer horderly, hshape, ?_⟩, hnone⟩
      have htracks := h.tracks.collect (h.orderly_iff.mp horderly)
      show Tracks list.curGcb _ _ _
      rw [hcurrent]
      exact { htracks with }
    · rw [if_neg hfuel] at hstep
      cases hstep
  · rw [step, CoreUtils.pushFront, Pool.alloc, if_pos (by simpa using hnew)] at hstep
    cases hstep

theorem Inv.popFront (h : Inv w bs l) {cleanUp : Option CleanUp} {newGcb : Nat}
    (hstep : step fuel w (.popFront cleanUp newGcb) = some (w', events)) :
    Answers w l events w' := by
  have hshape := h.shape
  rw [step] at hstep
  cases hitems : l.items with
  | nil =>
    rw [hitems] at hshape
    obtain ⟨list, hrun, hshape', hcurrent⟩ := popFront_nil hshape cleanUp newGcb
    rw [hrun fuel] at hstep
    by_cases hfuel : bs.length < fuel
    · rw [if_pos hfuel] at hstep
      cases hstep
      obtain ⟨hanswer, hnone⟩ := h.execute_collect []
      refine ⟨fun horderly => ⟨stay (refsOf w.held) bs, _, hanswer horderly, ?_, ?_⟩, hnone⟩
      · show Shape list _ _ l.items
        rw [hitems]
        exact hshape'
      · show Tracks list.curGcb _ _ _
        rw [hcurrent]
        exact h.tracks.collect (h.orderly_iff.mp horderly)
    · rw [if_neg hfuel] at hstep
      cases hstep
  | cons item items =>
    obtain ⟨elem, data⟩ := item
    rw [hitems] at hshape
    obtain ⟨list₁, list, hcollected, hrun, hdone⟩ := popFront_cons hshape cleanUp l.readers newGcb
    rw [hrun fuel] at hstep
    by_cases hfuel : bs.length < fuel ∧ list₁.gcbs.used newGcb = false
    · rw [if_pos hfuel] at hstep
      cases hstep
      obtain ⟨hshape', hcurrent⟩ := hdone hfuel.2
      obtain ⟨hanswer, hnone⟩ := h.execute_collect [.popped elem cleanUp]
      refine ⟨fun horderly => ?_, hnone⟩
      have htracks := h.tracks.collect (h.orderly_iff.mp horderly)
      have hnew := hshape'.current
      rw [hcurrent, map_append, mem_append, not_or] at hnew
      have hrefs := refsOf_new htracks (fun heq => hnew.2 (mem_singleton.mpr heq)) hnew.1
      have hsame : update (refsOf w.held) newGcb 0 = refsOf w.held := by
        rw [← hrefs, update_eq_self]
      rw [hsame] at hshape'
      refine ⟨_, { l with
        items := items
        removed := (stay (refsOf w.held) bs).map (·.entry) ++ [⟨elem, data, cleanUp, l.readers⟩] },
        (hanswer horderly).trans ?_, hshape', ?_⟩
      · rw [execute, Ledger.step]
        simp only [hitems, if_true]
        rfl
      · show Tracks list.curGcb _ _ _
        rw [hcurrent]
        exact htracks.remove
    · rw [if_neg hfuel] at hstep
      cases hstep

theorem Inv.modify (h : Inv w bs l) (hop : op.Modifies)
    (hstep : step fuel w op = some (w', events)) : Answers w l events w' := by
  cases op with
  | readLock reader => cases hop
  | readUnlock reader => cases hop
  | pushFront elem data => exact h.pushFront hstep
  | popFront cleanUp newGcb => exact h.popFront hstep

/-- **One step** keeps the invariant, when the barriers are orderly. -/
theorem Inv.step (h : Inv w bs l) {e : Happened Data CleanUp Reader} (hstep : OrderlyStep w e w') :
    ∃ bs l', execute Ledger.step l e.2 = some l' ∧ Inv w' bs l' := by
  obtain ⟨op, events⟩ := e
  obtain ⟨⟨fuel, hrun⟩, horderly⟩ := hstep
  cases op with
  | readLock reader =>
    by_cases hreader : reader ∈ w.held.map (·.1)
    · rw [CoreUtils.step, if_pos hreader] at hrun
      cases hrun
    · obtain ⟨list, hlock, hinv⟩ := h.readLock hreader
      rw [hlock fuel] at hrun
      cases hrun
      exact ⟨bs, _, rfl, hinv⟩
  | readUnlock reader =>
    cases hlookup : w.held.lookup reader with
    | none =>
      rw [CoreUtils.step, hlookup] at hrun
      cases hrun
    | some handle =>
      obtain ⟨list, hunlock, hinv⟩ := h.readUnlock hlookup
      rw [hunlock fuel] at hrun
      cases hrun
      exact ⟨_, _, rfl, hinv⟩
  | pushFront elem data => exact (h.pushFront hrun).1 (horderly trivial)
  | popFront cleanUp newGcb => exact (h.popFront hrun).1 (horderly trivial)

variable {elems : Pool Data} {gcbs : Pool (Gcb CleanUp)} {gcb : Nat} {list : PrsmList Data CleanUp}
  {h : List (Happened Data CleanUp Reader)}

/-- The events of a run, with one more step. -/
theorem execute_history (e : Happened Data CleanUp Reader) :
    execute Ledger.step ⟨[], [], []⟩ ((e :: h).reverse.flatMap (·.2)) =
      (execute Ledger.step ⟨[], [], []⟩ (h.reverse.flatMap (·.2))).bind fun l =>
        execute Ledger.step l e.2 := by
  rw [reverse_cons, flatMap_append, flatMap_singleton, execute_append]

theorem orderly_inv (hcreate : create elems gcbs gcb = some list)
    (run : Run OrderlyStep ⟨list, []⟩ h w) :
    ∃ bs l, execute Ledger.step ⟨[], [], []⟩ (h.reverse.flatMap (·.2)) = some l ∧ Inv w bs l := by
  refine run.invariant (P := fun h w => ∃ bs l,
    execute Ledger.step ⟨[], [], []⟩ (h.reverse.flatMap (·.2)) = some l ∧ Inv w bs l) ?_ ?_
  · exact ⟨[], _, rfl, create_inv hcreate⟩
  · rintro h w e w' - ⟨bs, l, hexec, hinv⟩ hstep
    obtain ⟨bs', l', hexec', hinv'⟩ := hinv.step hstep
    refine ⟨bs', l', ?_, hinv'⟩
    rw [execute_history, hexec]
    exact hexec'

/-- A run in which what happens may happen has orderly steps only. -/
theorem orderly_of_kept (hcreate : create elems gcbs gcb = some list)
    (run : Run Step ⟨list, []⟩ h w) (hkept : Kept h) : Run OrderlyStep ⟨list, []⟩ h w := by
  induction run with
  | start => exact .start
  | step run hstep ih =>
    unfold Kept at hkept
    rw [execute_history] at hkept
    obtain ⟨l', hl'⟩ := isSome_iff_exists.mp hkept
    obtain ⟨l, hl, hlast⟩ := bind_eq_some_iff.mp hl'
    have hrun := ih (isSome_iff_exists.mpr ⟨l, hl⟩)
    obtain ⟨bs, l₁, hexec, hinv⟩ := orderly_inv hcreate hrun
    obtain rfl : l = l₁ := Option.some.inj (hl.symm.trans hexec)
    refine hrun.step ⟨hstep, fun hmodifies => Classical.byContradiction fun hdisorder => ?_⟩
    obtain ⟨fuel, hfuel⟩ := hstep
    rw [(hinv.modify hmodifies hfuel).2 hdisorder] at hlast
    cases hlast

/-- **The parallel read, serial modify list**: in a run, from the creation of the list on, every
removed element is given back once, not before every reader from before its removal has given back
its lock, and none is left over when nobody reads, exactly when no step with the modify lock finds
a barrier without a count behind or at one that a reader holds; and until then no operation gets
stuck. -/
theorem prsm_iff (hcreate : create elems gcbs gcb = some list) (run : Run Step ⟨list, []⟩ h w) :
    (Kept h ↔ Run OrderlyStep ⟨list, []⟩ h w) ∧
      (Kept h → ∀ op, Allowed w op → ∃ e w', e.1 = op ∧ Step w e w') := by
  have hiff : Kept h ↔ Run OrderlyStep ⟨list, []⟩ h w := by
    refine ⟨orderly_of_kept hcreate run, fun hrun => ?_⟩
    obtain ⟨bs, l, hexec, -⟩ := orderly_inv hcreate hrun
    exact isSome_iff_exists.mpr ⟨l, hexec⟩
  refine ⟨hiff, fun hkept op hallowed => ?_⟩
  obtain ⟨bs, l, -, hinv⟩ := orderly_inv hcreate (hiff.mp hkept)
  exact hinv.goes hallowed

end

/-! ## An element that is given back under a reader -/

/-- The list as it is created. -/
def emptyList : PrsmList Unit Unit :=
  ⟨none, 0, 0, .fresh ⟨(), none⟩,
    ⟨update (fun _ => ⟨⟨0, none, none⟩, none⟩) 0 ⟨⟨0, none, none⟩, none⟩,
      update (fun _ => false) 0 true⟩⟩

/-- Nobody reads it. -/
def emptyWorld : World Unit Unit Nat := ⟨emptyList, []⟩

theorem created : create (.fresh ⟨(), none⟩) (.fresh ⟨⟨0, none, none⟩, none⟩) 0 = some emptyList :=
  rfl

/-- The elements given back in a run, the last one first. -/
def freedIn (h : List (Happened Unit Unit Nat)) : List Nat :=
  (h.flatMap (·.2)).filterMap fun
    | .freed f => some f.elem
    | _ => none

/-- Operations that go through are a run, which is kept or not as it computes. -/
theorem exists_run (ops : List (Op Unit Unit Nat)) {kept : Bool} {freed : List Nat}
    (hrun : (perform (step 4) emptyWorld [] ops).map (fun x =>
      ((execute Ledger.step ⟨[], [], []⟩ (x.2.reverse.flatMap (·.2))).isSome, freedIn x.2)) =
        some (kept, freed)) :
    ∃ h w, Run Step emptyWorld h w ∧ (Kept h ↔ kept = true) ∧ freedIn h = freed := by
  obtain ⟨⟨w, h⟩, hperform, heq⟩ := map_eq_some_iff.mp hrun
  obtain ⟨hkept, hfreed⟩ := Prod.mk.inj heq
  exact ⟨h, w, Run.of_perform (fun hstep => ⟨4, hstep⟩) .start hperform,
    Iff.of_eq (congrArg (· = true) hkept), hfreed⟩

/-- Two elements are put in, a reader takes its lock, and both elements are taken off: the second
one is left at a barrier of its own, at which nobody is counted, and goes with the next operation
while the reader still holds its lock. -/
theorem exists_not_kept : ∃ h w, Run Step emptyWorld h w ∧ ¬ Kept h := by
  obtain ⟨h, w, run, hkept, -⟩ :=
    exists_run [.pushFront 10 (), .pushFront 11 (), .readLock 1, .popFront none 1,
    .popFront none 2, .pushFront 12 ()] rfl
  exact ⟨h, w, run, fun h => Bool.false_ne_true (hkept.mp h)⟩

theorem prsm_not_kept : ¬ ∀ (list : PrsmList Unit Unit) (h : List (Happened Unit Unit Nat)) (w : _),
    create (.fresh ⟨(), none⟩) (.fresh ⟨⟨0, none, none⟩, none⟩) 0 = some list →
      Run Step ⟨list, []⟩ h w → Kept h := fun hall => by
  obtain ⟨h, w, run, hnot⟩ := exists_not_kept
  exact hnot (hall emptyList h w created run)

/-- With a reader that comes between the two removals, and both readers gone in time, the elements
go one after the other; that other run has a step that finds the barriers out of order. -/
theorem prsm_iff_run : (∃ h w, Run OrderlyStep emptyWorld h w ∧ freedIn h = [10, 11]) ∧
    ∃ h w, Run Step emptyWorld h w ∧ ¬ Run OrderlyStep emptyWorld h w := by
  constructor
  · obtain ⟨h, w, run, hkept, hfreed⟩ :=
      exists_run [.pushFront 10 (), .pushFront 11 (), .readLock 1,
      .popFront none 1, .readLock 2, .readUnlock 1, .popFront none 2, .readUnlock 2,
        .pushFront 12 ()] rfl
    exact ⟨h, w, (prsm_iff created run).1.mp (hkept.mpr rfl), hfreed⟩
  · obtain ⟨h, w, run, hnot⟩ := exists_not_kept
    exact ⟨h, w, run, fun hrun => hnot ((prsm_iff created run).1.mpr hrun)⟩

end CoreUtils
