import BootXf.Lib.LinkedList
import BootXf.Lib.Run
import Mathlib.Logic.Function.Iterate

/-!
# The intrusive queue

`inq.c`: a queue whose objects hold the link to the next one themselves, with iterators that insert
and delete in the middle. A queue denotes the list of its objects (`Inq.Denotes`), and each
operation does to the list what its name says, as long as the queue holds fewer objects than its
`unsigned` size can count (`Inq.run_denotes`).
-/

namespace Rpmh

open Lib LinkedList List Function

/-! ## The source -/

/-- `inq_t`, and the links in the objects. An object is at an address, and `none` is `NULL`. -/
structure Inq where
  links : Nat → Cell Unit
  header : Header
  size : UInt32

/-- `inq_iterator_t`. -/
structure InqIterator where
  last : Option Nat
  current : Option Nat

namespace Inq

/-- `get_link (self, object)->next = next`. -/
def setNext (q : Inq) (object : Nat) (next : Option Nat) : Inq :=
  { q with links := update q.links object ⟨(), next⟩ }

/-- `inq_create`. -/
def create (links : Nat → Cell Unit) : Inq := ⟨links, .empty, 0⟩

/-- `inq_append`. -/
def append (q : Inq) (object : Nat) : Inq :=
  let q := match q.header.tail with
    | none => { q with header := ⟨some object, some object⟩ }.setNext object none
    | some tail =>
      let q := (q.setNext tail (some object)).setNext object none
      { q with header := { q.header with tail := some object } }
  { q with size := q.size + 1 }

/-- `inq_pop`: the object that it returns, if it does not follow a head that is `NULL`. -/
def pop (q : Inq) : Option (Option Nat × Inq) :=
  if q.size = 0 then some (none, q)
  else q.header.head.map fun object =>
    let head := (q.links object).next
    let q := { q with header := ⟨head, if head = none then none else q.header.tail⟩ }
    let q := q.setNext object none
    (some object, { q with size := q.size - 1 })

/-- `inq_it_begin`. -/
def itBegin (q : Inq) : InqIterator := ⟨none, q.header.head⟩

/-- `inq_it_next`. -/
def itNext (q : Inq) (it : InqIterator) : InqIterator :=
  ⟨it.current, it.current.bind fun last => (q.links last).next⟩

/-- `inq_it_insert`. It stops for good when the iterator says that it is at the head, and is not. -/
def itInsert (q : Inq) (it : InqIterator) (object : Nat) : Option (InqIterator × Inq) :=
  match it.current with
  | none => some (⟨q.header.tail, some object⟩, q.append object)
  | some current =>
    match it.last with
    | none =>
      if some current = q.header.head then
        let q := q.setNext object q.header.head
        some (⟨none, some object⟩,
          { q with header := { q.header with head := some object }, size := q.size + 1 })
      else none
    | some last =>
      let q := (q.setNext object (some current)).setNext last (some object)
      some (⟨some last, some object⟩, { q with size := q.size + 1 })

/-- `inq_it_delete`, and the object that it returns. -/
def itDelete (q : Inq) (it : InqIterator) : Option (Option Nat × InqIterator × Inq) :=
  match it.current with
  | none => some (none, it, q)
  | some current =>
    match it.last with
    | none =>
      if some current = q.header.head then
        q.pop.map fun (deleted, q) => (deleted, ⟨none, q.header.head⟩, q)
      else none
    | some last =>
      let next := (q.links current).next
      let q := q.setNext last next
      let tail := if some current = q.header.tail then some last else q.header.tail
      some (some current, ⟨some last, next⟩,
        { q with header := { q.header with tail }, size := q.size - 1 })

end Inq

/-- A call that changes the queue. -/
inductive InqCall
  | append (object : Nat)
  | pop
  | insert (it : InqIterator) (object : Nat)
  | delete (it : InqIterator)

/-- What a call leaves, if it returns. -/
def Inq.perform (q : Inq) : InqCall → Option Inq
  | .append object => some (q.append object)
  | .pop => q.pop.map (·.2)
  | .insert it object => (q.itInsert it object).map (·.2)
  | .delete it => (q.itDelete it).map (·.2.2)

/-! ## What it is for -/

/-- The queue denotes a list of objects: they are linked up from the head to the tail, and counted.
-/
structure Inq.Denotes (q : Inq) (l : List Nat) : Prop where
  represents : Represents q.links q.header (l.map (·, ()))
  size : q.size.toNat = l.length

/-- The iterator is at a place of the list: before the object there, or at the end. -/
structure InqIterator.At (it : InqIterator) (l : List Nat) (k : Nat) : Prop where
  le : k ≤ l.length
  current : it.current = l[k]?
  last : k < l.length → it.last = if k = 0 then none else l[k - 1]?

/-- A call is made with objects that are not queued, and with iterators at a place of the list. -/
def InqCall.Allowed (l : List Nat) : InqCall → Prop
  | .append object => object ∉ l
  | .pop => True
  | .insert it object => object ∉ l ∧ ∃ k, it.At l k
  | .delete it => ∃ k, it.At l k

/-- What a call does to the list: an iterator inserts before its object and deletes it, and at the
end it appends. -/
def InqCall.specify (l : List Nat) : InqCall → List Nat
  | .append object => l ++ [object]
  | .pop => l.tail
  | .insert it object =>
    match it.current with
    | none => l ++ [object]
    | some current => l.insertIdx (l.idxOf current) object
  | .delete it =>
    match it.current with
    | none => l
    | some current => l.erase current

/-- Calls that are allowed one after the other. -/
def AllAllowed (l : List Nat) : List InqCall → Prop
  | [] => True
  | call :: calls => call.Allowed l ∧ AllAllowed (call.specify l) calls

/-- The list after some calls. -/
def specifyAll (l : List Nat) (calls : List InqCall) : List Nat :=
  calls.foldl (fun l call => call.specify l) l

/-! ## Places -/

section
variable {q : Inq} {l : List Nat} {it : InqIterator} {object k : Nat} {objects : List Nat}

/-- A list cut at a place. -/
theorem exists_cut {l : List Nat} {k : Nat} (hk : k < l.length) :
    ∃ p d r, l = p ++ d :: r ∧ p.length = k := by
  refine ⟨l.take k, l[k], l.drop (k + 1), ?_, length_take_of_le (Nat.le_of_lt hk)⟩
  rw [getElem_cons_drop, take_append_drop]

theorem insertIdx_behind (p r : List Nat) (x y : Nat) :
    (p ++ x :: r).insertIdx (p.length + 1) y = p ++ x :: y :: r := by
  induction p with
  | nil => rfl
  | cons z p ih => exact congrArg (z :: ·) ih

theorem eraseIdx_behind (p r : List Nat) (x y : Nat) :
    (p ++ x :: y :: r).eraseIdx (p.length + 1) = p ++ x :: r := by
  induction p with
  | nil => rfl
  | cons z p ih => exact congrArg (z :: ·) ih

theorem getElem?_behind (p r : List Nat) (x : Nat) : (p ++ x :: r)[p.length + 1]? = r.head? := by
  rw [getElem?_append_right (by omega), Nat.add_sub_cancel_left, getElem?_cons_succ,
    head?_eq_getElem?]

theorem start_objects : start none (l.map (·, ())) = l.head? := by
  cases l <;> rfl

namespace Inq.Denotes

theorem nodup (h : q.Denotes l) : l.Nodup := by
  have hn := h.represents.nodup
  rwa [map_map, show (fun c : Nat × Unit => c.1) ∘ (·, ()) = id from rfl, map_id] at hn

theorem head (h : q.Denotes l) : q.header.head = l.head? := by
  rw [h.represents.head, start_objects]

theorem tail (h : q.Denotes l) : q.header.tail = l.getLast? := by
  rw [h.represents.tail, getLast?_map, Option.map_map]
  exact Option.map_id'

end Inq.Denotes

namespace InqIterator.At

/-- The object at the place is the one that is looked for. -/
theorem idxOf (h : it.At l k) (hn : l.Nodup) {current : Nat} (hc : it.current = some current) :
    l.idxOf current = k ∧ k < l.length := by
  rw [h.current] at hc
  obtain ⟨hk, rfl⟩ := List.getElem?_eq_some_iff.mp hc
  exact ⟨hn.idxOf_getElem k hk, hk⟩

/-- There is one iterator at the place of an object. -/
theorem eq_of_lt {it' : InqIterator} (h : it.At l k) (h' : it'.At l k) (hk : k < l.length) :
    it = it' := by
  obtain ⟨last, current⟩ := it
  obtain ⟨last', current'⟩ := it'
  rw [InqIterator.mk.injEq]
  exact ⟨(h.last hk).trans (h'.last hk).symm, h.current.trans h'.current.symm⟩

/-- The end of the list. -/
theorem eq_length (h : it.At l k) (hc : it.current = none) : k = l.length := by
  rw [h.current, List.getElem?_eq_none_iff] at hc
  exact Nat.le_antisymm h.le hc

end InqIterator.At

theorem not_mem_objects (ha : object ∉ l) : object ∉ (l.map (·, ())).map (·.1) := by
  rwa [map_map, show (fun c : Nat × Unit => c.1) ∘ (·, ()) = id from rfl, map_id]

/-! ## The queue's own calls -/

namespace Inq

theorem denotes_create (links : Nat → Cell Unit) : (create links).Denotes [] := ⟨.empty, rfl⟩

namespace Denotes

/-- **Appending** puts an object at the end. -/
theorem append (h : q.Denotes l) (ha : object ∉ l) (hfew : l.length + 1 < 2 ^ 32) :
    (q.append object).Denotes (l ++ [object]) := by
  have hpush := h.represents.pushBack (x := ()) (not_mem_objects ha)
  have hsize : (q.size + 1).toNat = (l ++ [object]).length := by
    rw [UInt32.toNat_add, h.size, UInt32.toNat_one, Nat.mod_eq_of_lt hfew, length_append]
    rfl
  have hsame : (q.append object).links = (pushBack q.links q.header object ()).1 ∧
      (q.append object).header = (pushBack q.links q.header object ()).2 ∧
      (q.append object).size = q.size + 1 := by
    rw [Inq.append]
    cases htail : q.header.tail with
    | none => exact ⟨by rw [pushBack, htail]; rfl, by rw [pushBack, htail]; rfl, rfl⟩
    | some tail =>
      have hne : tail ≠ object := by
        rintro rfl
        rw [h.tail] at htail
        exact ha (mem_of_getLast? htail)
      rw [pushBack_of_tail htail]
      exact ⟨update_comm hne _ _ _, rfl, rfl⟩
  obtain ⟨hlinks, hheader, hcount⟩ := hsame
  constructor
  · rw [hlinks, hheader, map_append]
    exact hpush
  · rw [hcount, hsize]

/-- An empty queue has nothing to pop. -/
theorem pop_nil (h : q.Denotes []) : q.pop = some (none, q) := by
  rw [Inq.pop, if_pos (UInt32.toNat_inj.mp h.size)]

/-- **Popping** takes the first object. -/
theorem pop_cons (h : q.Denotes (object :: l)) :
    ∃ q', q.pop = some (some object, q') ∧ q'.Denotes l := by
  have hsome : ¬ q.size = 0 := by
    intro hzero
    have hsize := h.size
    rw [hzero] at hsize
    cases hsize
  have hhead : q.header.head = some object := h.head
  obtain ⟨header, hpop, -, hrest⟩ := h.represents.popFront
  rw [popFront, hhead] at hpop
  injection hpop with hpop
  injection hpop with _ hheader
  refine ⟨_, by rw [Inq.pop, if_neg hsome, hhead]; rfl, ?_, ?_⟩
  · have hfirst := (nodup_cons.mp h.nodup).1
    have hsame : (⟨(q.links object).next, if (q.links object).next = none then none
        else q.header.tail⟩ : Header) = header := by
      rw [← hheader]
      split
      · next hnone =>
        rw [hnone]
        rfl
      · rfl
    show Represents (update q.links object ⟨(), none⟩) ⟨_, _⟩ _
    rw [hsame]
    refine hrest.congr fun c hc => update_of_ne ?_ _ _
    rintro rfl
    exact not_mem_objects hfirst (mem_map_of_mem hc)
  · show (q.size - 1).toNat = _
    rw [UInt32.toNat_sub_of_le _ _ (UInt32.le_iff_toNat_le.mpr (by rw [h.size]; simp)), h.size]
    rfl

/-! ## Iterators -/

/-- An iterator begins at the first place. -/
theorem itBegin (h : q.Denotes l) : q.itBegin.At l 0 := by
  refine ⟨Nat.zero_le _, ?_, fun _ => rfl⟩
  rw [← head?_eq_getElem?]
  exact h.head

/-- **The next place** of an iterator that is not at the end. -/
theorem itNext (h : q.Denotes l) (hit : it.At l k) (hk : k < l.length) :
    (q.itNext it).At l (k + 1) := by
  obtain ⟨p, d, r, rfl, rfl⟩ := exists_cut hk
  have hcurrent := hit.current
  rw [getElem?_append_right (Nat.le_refl _), Nat.sub_self, getElem?_cons_zero] at hcurrent
  have hrep := h.represents
  rw [map_append, map_cons] at hrep
  obtain ⟨-, hnext, -⟩ := hrep.middle
  rw [start_objects] at hnext
  refine ⟨hk, ?_, fun _ => ?_⟩
  · rw [Inq.itNext, hcurrent, getElem?_behind]
    exact congrArg Cell.next hnext
  · rw [Inq.itNext, hcurrent, if_neg (Nat.succ_ne_zero _), Nat.add_sub_cancel,
      getElem?_append_right (Nat.le_refl _), Nat.sub_self, getElem?_cons_zero]

/-- **The places are those that an iterator comes to** from the beginning on. -/
theorem itNext_iterate (h : q.Denotes l) (hk : k ≤ l.length) : (q.itNext^[k] q.itBegin).At l k := by
  induction k with
  | zero => exact h.itBegin
  | succ k ih =>
    rw [iterate_succ_apply']
    exact h.itNext (ih (Nat.le_of_lt hk)) hk

/-- **Inserting** puts an object before the one at the place, and the iterator before the new
object. -/
theorem itInsert (h : q.Denotes l) (hit : it.At l k) (ha : object ∉ l)
    (hfew : l.length + 1 < 2 ^ 32) :
    ∃ it' q', q.itInsert it object = some (it', q') ∧ q'.Denotes (l.insertIdx k object) ∧
      it'.At (l.insertIdx k object) k := by
  have hlength : (l.insertIdx k object).length = l.length + 1 :=
    length_insertIdx_of_le_length hit.le _
  have hsize : (q.size + 1).toNat = (l.insertIdx k object).length := by
    rw [UInt32.toNat_add, h.size, UInt32.toNat_one, Nat.mod_eq_of_lt hfew, hlength]
  have hself : (l.insertIdx k object)[k]? = some object := by
    rw [getElem?_insertIdx_self, if_pos hit.le]
  cases hc : it.current with
  | none =>
    -- at the end
    obtain rfl := hit.eq_length hc
    refine ⟨_, _, by rw [Inq.itInsert, hc], ?_, ⟨by omega, hself.symm, fun _ => ?_⟩⟩
    · rw [insertIdx_length_self]
      exact h.append ha hfew
    · rw [insertIdx_length_self]
      dsimp only
      rw [h.tail, getLast?_eq_getElem?]
      split
      · next hnil => simp [hnil]
      · rw [getElem?_append_left (by omega)]
  | some current =>
    have hk : k < l.length := by
      rw [hit.current] at hc
      exact (List.getElem?_eq_some_iff.mp hc).1
    have hlast := hit.last hk
    cases k with
    | zero =>
      -- at the head
      rw [if_pos rfl] at hlast
      have hhead : some current = q.header.head := by
        rw [h.head, head?_eq_getElem?, ← hit.current, hc]
      refine ⟨_,
        _, by rw [Inq.itInsert, hc]; dsimp only; rw [hlast]; exact if_pos hhead, ⟨?_, hsize⟩,
        ⟨Nat.zero_le _, hself.symm, fun _ => rfl⟩⟩
      rw [insertIdx_zero, map_cons]
      refine h.represents.pushFront ?_ (not_mem_objects ha)
      rintro hnil
      rw [map_eq_nil_iff.mp hnil] at hk
      exact absurd hk (Nat.lt_irrefl _)
    | succ k =>
      -- between two objects
      obtain ⟨p, last, r, rfl, rfl⟩ := exists_cut (Nat.lt_of_succ_lt hk)
      rw [if_neg (Nat.succ_ne_zero _), Nat.add_sub_cancel, getElem?_append_right (Nat.le_refl _),
        Nat.sub_self, getElem?_cons_zero] at hlast
      have hcr : r.head? = some current := by
        rw [← hc, hit.current, getElem?_behind]
      have hinsert := insertIdx_behind p r last object
      refine ⟨_, _, by rw [Inq.itInsert, hc]; dsimp only; rw [hlast], ⟨?_, hsize⟩,
        ⟨by omega, hself.symm, fun _ => ?_⟩⟩
      · have hrep := h.represents
        rw [map_append, map_cons] at hrep
        have hinserted := hrep.insertBehind (a := object) (x := ()) ?_ ?_
        · rw [start_objects, hcr] at hinserted
          rw [hinsert, map_append, map_cons, map_cons]
          exact hinserted
        · intro hnil
          rw [map_eq_nil_iff.mp hnil] at hcr
          cases hcr
        · have hnot := not_mem_objects ha
          rwa [map_append, map_cons] at hnot
      · rw [hinsert]
        simp

/-- **Deleting** takes the object at the place, and the iterator is at the one behind it. -/
theorem itDelete (h : q.Denotes l) (hit : it.At l k) :
    ∃ it' q', q.itDelete it = some (l[k]?, it', q') ∧ q'.Denotes (l.eraseIdx k) ∧
      it'.At (l.eraseIdx k) k := by
  cases hc : it.current with
  | none =>
    -- at the end
    obtain rfl := hit.eq_length hc
    rw [eraseIdx_of_length_le (Nat.le_refl _), getElem?_eq_none (Nat.le_refl _)]
    exact ⟨it, q, by rw [Inq.itDelete, hc], h, hit⟩
  | some current =>
    have hk : k < l.length := by
      rw [hit.current] at hc
      exact (List.getElem?_eq_some_iff.mp hc).1
    have hlast := hit.last hk
    cases k with
    | zero =>
      -- at the head
      rw [if_pos rfl] at hlast
      obtain ⟨object, l, rfl⟩ := exists_cons_of_length_pos hk
      have hhead : some current = q.header.head := by
        rw [h.head, ← hc, hit.current]
        rfl
      obtain ⟨q', hpop, hrest⟩ := h.pop_cons
      refine ⟨⟨none, q'.header.head⟩, q', ?_, hrest, hrest.itBegin⟩
      rw [Inq.itDelete, hc]
      dsimp only
      rw [hlast]
      refine (if_pos hhead).trans ?_
      rw [hpop]
      rfl
    | succ k =>
      -- between two objects
      obtain ⟨p, last, r, rfl, rfl⟩ := exists_cut (Nat.lt_of_succ_lt hk)
      rw [if_neg (Nat.succ_ne_zero _), Nat.add_sub_cancel, getElem?_append_right (Nat.le_refl _),
        Nat.sub_self, getElem?_cons_zero] at hlast
      have hcurrent := hit.current
      rw [getElem?_behind] at hcurrent
      obtain ⟨r, rfl⟩ := head?_eq_some_iff.mp (hcurrent.symm.trans hc)
      have hrep := h.represents
      rw [map_append, map_cons, map_cons] at hrep
      obtain ⟨-, -, ⟨hnext, -⟩, -⟩ := hrep.middle
      dsimp only at hnext
      rw [start_objects] at hnext
      have hremoved := hrep.removeBehind
      rw [start_objects] at hremoved
      have htail : some current = q.header.tail ↔ r.map (·, ()) = [] := by
        rw [h.tail]
        constructor
        · intro heq
          cases r with
          | nil => rfl
          | cons d r =>
            have hn := h.nodup
            rw [nodup_append] at hn
            have hmem : current ∈ d :: r := by
              rw [getLast?_append, getLast?_cons_cons, getLast?_cons_cons] at heq
              refine mem_of_getLast? ?_
              simpa using heq.symm
            exact absurd hmem (nodup_cons.mp (nodup_cons.mp hn.2.1).2).1
        · intro hnil
          rw [map_eq_nil_iff.mp hnil]
          simp
      rw [getElem?_behind, eraseIdx_behind]
      refine ⟨⟨some last, r.head?⟩, _, by rw [Inq.itDelete, hc]; dsimp only; rw [hlast, hnext]; rfl,
        ⟨?_, ?_⟩, ⟨by simp, (getElem?_behind ..).symm, fun _ => ?_⟩⟩
      · rw [map_append, map_cons]
        show Represents _ ⟨_, if some current = q.header.tail then some last else q.header.tail⟩ _
        simp only [htail]
        exact hremoved
      · show (q.size - 1).toNat = _
        have hsome : (1 : UInt32) ≤ q.size := by
          rw [UInt32.le_iff_toNat_le, h.size]
          exact Nat.le_trans (Nat.succ_le_succ (Nat.zero_le _)) hk
        rw [UInt32.toNat_sub_of_le _ _ hsome, h.size]
        simp
      · simp

/-- **A call** does to the list what it is specified to do. -/
theorem perform (h : q.Denotes l) {call : InqCall} (hallowed : call.Allowed l)
    (hfew : (call.specify l).length < 2 ^ 32) :
    ∃ q', q.perform call = some q' ∧ q'.Denotes (call.specify l) := by
  cases call with
  | append object =>
    rw [InqCall.specify, length_append] at hfew
    exact ⟨_, rfl, h.append hallowed hfew⟩
  | pop =>
    cases l with
    | nil => exact ⟨q, by rw [Inq.perform, h.pop_nil]; rfl, h⟩
    | cons object l =>
      obtain ⟨q', hpop, hrest⟩ := h.pop_cons
      exact ⟨q', by rw [Inq.perform, hpop]; rfl, hrest⟩
  | insert it object =>
    obtain ⟨ha, k, hit⟩ := hallowed
    have hspecify : (InqCall.insert it object).specify l = l.insertIdx k object := by
      rw [InqCall.specify]
      cases hc : it.current with
      | none => rw [hit.eq_length hc, insertIdx_length_self]
      | some current =>
        dsimp only
        rw [(hit.idxOf h.nodup hc).1]
    rw [hspecify] at hfew ⊢
    rw [length_insertIdx_of_le_length hit.le] at hfew
    obtain ⟨it', q', hinsert, hdenotes, -⟩ := h.itInsert hit ha hfew
    exact ⟨q', by rw [Inq.perform, hinsert]; rfl, hdenotes⟩
  | delete it =>
    obtain ⟨k, hit⟩ := hallowed
    have hspecify : (InqCall.delete it).specify l = l.eraseIdx k := by
      rw [InqCall.specify]
      cases hc : it.current with
      | none => rw [hit.eq_length hc, eraseIdx_of_length_le (Nat.le_refl _)]
      | some current =>
        obtain ⟨rfl, -⟩ := hit.idxOf h.nodup hc
        exact erase_eq_eraseIdx_of_idxOf rfl
    rw [hspecify]
    obtain ⟨it', q', hdelete, hdenotes, -⟩ := h.itDelete hit
    exact ⟨q', by rw [Inq.perform, hdelete]; rfl, hdenotes⟩

/-- **Calls one after the other**, as long as the objects can be counted. -/
theorem performAll (h : q.Denotes l) {calls : List InqCall} (hallowed : AllAllowed l calls)
    (hfew : ∀ before, before <+: calls → (specifyAll l before).length < 2 ^ 32) :
    ∃ q', execute Inq.perform q calls = some q' ∧ q'.Denotes (specifyAll l calls) := by
  induction calls generalizing q l with
  | nil => exact ⟨q, rfl, h⟩
  | cons call calls ih =>
    obtain ⟨hcall, hcalls⟩ := hallowed
    obtain ⟨q₁, hperform, hdenotes⟩ := h.perform hcall (hfew [call] (prefix_append [call] calls))
    obtain ⟨q', hrest, hq'⟩ := ih hdenotes hcalls fun before hbefore =>
      hfew (call :: before) ((prefix_cons_inj call).mpr hbefore)
    refine ⟨q', ?_, hq'⟩
    rw [execute, hperform]
    exact hrest

end Denotes

end Inq

/-! ## The queue over any calls -/

/-- **The queue denotes what its calls specify**, as long as it never holds 2³² objects. All calls
return; the size is the length of the list, the tail is its last object; and an iterator that
deletes returns the object at its place and is then at the one that was behind it. The places are
those that an iterator comes to from the beginning on. -/
theorem inq_denotes (links : Nat → Cell Unit) (calls : List InqCall)
    (hallowed : AllAllowed [] calls)
    (hfew : ∀ before, before <+: calls → (specifyAll [] before).length < 2 ^ 32) :
    ∃ q, execute Inq.perform (.create links) calls = some q ∧ q.Denotes (specifyAll [] calls) ∧
      q.header.tail = (specifyAll [] calls).getLast? ∧
      (∀ k ≤ (specifyAll [] calls).length, (q.itNext^[k] q.itBegin).At (specifyAll [] calls) k) ∧
      (∀ it k, it.At (specifyAll [] calls) k → k < (specifyAll [] calls).length →
        it = q.itNext^[k] q.itBegin) ∧
      ∀ it k, it.At (specifyAll [] calls) k →
        ∃ it' q', q.itDelete it = some ((specifyAll [] calls)[k]?, it', q') ∧
          it'.At ((specifyAll [] calls).eraseIdx k) k ∧
          it'.current = if k < (specifyAll [] calls).length then (specifyAll [] calls)[k +
            1]? else none := by
  obtain ⟨q, hrun, hdenotes⟩ := (Inq.denotes_create links).performAll hallowed hfew
  refine ⟨q, hrun, hdenotes, hdenotes.tail, fun k => hdenotes.itNext_iterate,
    fun it k hit hk => hit.eq_of_lt (hdenotes.itNext_iterate (Nat.le_of_lt hk)) hk,
      fun it k hit => ?_⟩
  obtain ⟨it', q', hdelete, -, hat⟩ := hdenotes.itDelete hit
  refine ⟨it', q', hdelete, hat, ?_⟩
  rw [hat.current]
  split
  · rw [getElem?_eraseIdx_of_ge (Nat.le_refl _)]
  · next hend =>
    have hge := Nat.le_of_not_lt hend
    rw [eraseIdx_of_length_le hge, getElem?_eq_none hge]

/-- A call adds one object at most. -/
theorem length_specifyAll_le (l : List Nat) (calls : List InqCall) :
    (specifyAll l calls).length ≤ l.length + calls.length := by
  induction calls generalizing l with
  | nil => exact Nat.le_refl _
  | cons call calls ih =>
    have hone : (call.specify l).length ≤ l.length + 1 := by
      cases call with
      | append object => simp [InqCall.specify]
      | pop => simp [InqCall.specify]; omega
      | insert it object =>
        rw [InqCall.specify]
        split
        · simp
        · exact length_insertIdx_le_succ ..
      | delete it =>
        rw [InqCall.specify]
        split
        · omega
        · exact Nat.le_succ_of_le length_erase_le
    have hrest := ih (call.specify l)
    rw [specifyAll] at hrest ⊢
    rw [foldl_cons, length_cons]
    omega

/-- Two objects are queued, one is put between them and the last one is deleted. -/
theorem inq_denotes_four :
    ∃ q, execute Inq.perform (.create fun _ => ⟨(), none⟩)
        [.append 8, .append 24, .insert ⟨some 8, some 24⟩ 16, .delete ⟨some 16, some 24⟩] = some q ∧
      q.Denotes [8, 16] ∧ q.header.tail = some 16 := by
  have hbetween : InqIterator.At ⟨some 8, some 24⟩ [8, 24] 1 := ⟨by decide, rfl, fun _ => rfl⟩
  have hlast : InqIterator.At ⟨some 16, some 24⟩ [8, 16, 24] 2 := ⟨by decide, rfl, fun _ => rfl⟩
  obtain ⟨q, hrun, hdenotes, htail, -⟩ := inq_denotes (fun _ => ⟨(), none⟩)
    [.append 8, .append 24, .insert ⟨some 8, some 24⟩ 16, .delete ⟨some 16, some 24⟩]
    ⟨not_mem_nil, show 24 ∉ [8] by decide, ⟨show 16 ∉ [8, 24] by decide, 1, hbetween⟩, ⟨2, hlast⟩,
      trivial⟩
    (fun before hbefore => Nat.lt_of_le_of_lt (length_specifyAll_le [] before)
      (Nat.lt_of_le_of_lt (Nat.add_le_add_left hbefore.length_le _) (by decide)))
  exact ⟨q, hrun, hdenotes, htail⟩

/-! ## More objects than the size counts -/

theorem allAllowed_append (hn : (l ++ objects).Nodup) :
    AllAllowed l (objects.map .append) := by
  induction objects generalizing l with
  | nil => trivial
  | cons object objects ih =>
    refine ⟨?_, ih (by rwa [InqCall.specify, append_assoc])⟩
    intro hmem
    exact (nodup_append.mp hn).2.2 object hmem object mem_cons_self rfl

theorem specifyAll_append (l objects : List Nat) :
    specifyAll l (objects.map .append) = l ++ objects := by
  induction objects generalizing l with
  | nil => exact (append_nil l).symm
  | cons object objects ih =>
    rw [map_cons, specifyAll, foldl_cons]
    exact (ih _).trans (append_assoc ..)

theorem Inq.size_append (q : Inq) (object : Nat) : (q.append object).size = q.size + 1 := by
  rw [Inq.append]
  cases q.header.tail with
  | none => rfl
  | some tail => rfl

/-- Appending always returns, and counts. -/
theorem Inq.execute_append (q : Inq) (objects : List Nat) :
    ∃ q', execute Inq.perform q (objects.map .append) = some q' ∧
      q'.size = q.size + .ofNat objects.length := by
  induction objects generalizing q with
  | nil => exact ⟨q, rfl, (UInt32.add_zero _).symm⟩
  | cons object objects ih =>
    obtain ⟨q', hrun, hsize⟩ := ih (q.append object)
    refine ⟨q', hrun, ?_⟩
    rw [hsize, q.size_append, length_cons, UInt32.ofNat_add, UInt32.add_assoc,
      UInt32.add_comm (.ofNat objects.length)]
    rfl

/-- With 2³² objects in the queue the size is zero. -/
theorem Inq.size_wraps (links : Nat → Cell Unit) (hmany : objects.length = 2 ^ 32) :
    ¬ ∃ q, execute Inq.perform (.create links) (objects.map .append) = some q ∧
      q.Denotes (specifyAll [] (objects.map .append)) := by
  rintro ⟨q, hrun, hdenotes⟩
  obtain ⟨q', hrun', hsize⟩ := Inq.execute_append (.create links) objects
  obtain rfl : q = q' := Option.some.inj (hrun.symm.trans hrun')
  have hcount := hdenotes.size
  have hcreate : (Inq.create links).size = 0 := rfl
  rw [specifyAll_append, nil_append, hsize, hmany, hcreate] at hcount
  exact absurd hcount (by decide)

/-- The queue does not denote what any calls specify. -/
theorem inq_not_denotes : ¬ ∀ calls, AllAllowed [] calls →
    ∃ q, execute Inq.perform (.create fun _ => ⟨(), none⟩) calls = some q ∧
      q.Denotes (specifyAll [] calls) := by
  intro h
  obtain ⟨objects, hnodup, hmany⟩ : ∃ objects : List Nat, objects.Nodup ∧ objects.length = 2 ^ 32 :=
    ⟨List.range _, nodup_range, length_range⟩
  have hallowed : AllAllowed [] (objects.map .append) :=
    allAllowed_append (by rwa [nil_append])
  exact Inq.size_wraps _ hmany (h _ hallowed)

end

end Rpmh
