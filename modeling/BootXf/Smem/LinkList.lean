import BootXf.Lib.Run
import Mathlib.Logic.Function.Basic

/-!
# Lists of linked elements

A list header begins with a pointer as an element does, so that `smem_list_insert` and
`smem_list_delete` walk from the header on as if it were an element. `Represents` says that a heap
of such pointers holds lists.
-/

namespace Smem.LinkList

open Lib List Option

section
variable {ι α : Type}

/-! ## Memory -/

/-- A `smem_list_link_type`: at the beginning of a list, or of an element. -/
inductive Link (ι α : Type)
  | list (l : ι)
  | item (x : α)
  deriving DecidableEq

/-- The pointers and the counts of the lists. `NULL` is `none`. -/
structure Heap (ι α : Type) where
  next : Link ι α → Option α
  last : ι → Option (Link ι α)
  count : ι → Int32

/-- `smem_list_first`. -/
def smemListFirst (h : Heap ι α) (l : ι) : Option α := h.next (.list l)

/-- `smem_list_next`. -/
def smemListNext (h : Heap ι α) (x : α) : Option α := h.next (.item x)

/-- `smem_list_count`. -/
def smemListCount (h : Heap ι α) (l : ι) : Int32 := h.count l

/-- Going through the elements, of which there are fewer than so many. -/
def traverse (h : Heap ι α) : Nat → Option α → Option (List α)
  | 0, _ => none
  | _ + 1, none => some []
  | n + 1, some x => (traverse h n (smemListNext h x)).map (x :: ·)

variable [DecidableEq ι]

def Heap.setLast (h : Heap ι α) (l : ι) (p : Option (Link ι α)) : Heap ι α :=
  { h with last := fun k => if k = l then p else h.last k }

def Heap.setCount (h : Heap ι α) (l : ι) (n : Int32) : Heap ι α :=
  { h with count := fun k => if k = l then n else h.count k }

section
variable (h : Heap ι α) (k l : ι) (p : Option (Link ι α)) (n : Int32)

@[simp] theorem Heap.setLast_next : (h.setLast l p).next = h.next := rfl
@[simp] theorem Heap.setLast_last : (h.setLast l p).last k = if k = l then p else h.last k := rfl
@[simp] theorem Heap.setLast_count : (h.setLast l p).count = h.count := rfl
@[simp] theorem Heap.setCount_next : (h.setCount l n).next = h.next := rfl
@[simp] theorem Heap.setCount_last : (h.setCount l n).last = h.last := rfl
@[simp] theorem Heap.setCount_count : (h.setCount l n).count k = if k = l then n else h.count k :=
  rfl

end

variable [DecidableEq α]

def Heap.setNext (h : Heap ι α) (p : Link ι α) (x : Option α) : Heap ι α :=
  { h with next := fun q => if q = p then x else h.next q }

section
variable (h : Heap ι α) (p q : Link ι α) (x : Option α)

@[simp] theorem Heap.setNext_next : (h.setNext p x).next q = if q = p then x else h.next q := rfl
@[simp] theorem Heap.setNext_last : (h.setNext p x).last = h.last := rfl
@[simp] theorem Heap.setNext_count : (h.setNext p x).count = h.count := rfl

end

/-! ## The functions -/

/-- `smem_list_init`. -/
def smemListInit (h : Heap ι α) (l : ι) : Heap ι α :=
  ((h.setNext (.list l) none).setLast l none).setCount l 0

/-- `smem_list_append`. -/
def smemListAppend (h : Heap ι α) (l : ι) (item : α) : Heap ι α :=
  let h := h.setNext (.item item) none
  let h := match h.last l with
    | some last => (h.setNext last (some item)).setLast l (some (.item item))
    | none => (h.setNext (.list l) (some item)).setLast l (some (.item item))
  h.setCount l (h.count l + 1)

/-- The loop of `smem_list_insert`: the link behind which the item goes. It does not come to an end
in so many rounds when the links run in a circle. -/
def insertLoop (h : Heap ι α) (comp : α → Bool) : Nat → Link ι α → Option (Link ι α)
  | 0, _ => none
  | n + 1, link =>
    match h.next link with
    | none => some link
    | some x => if comp x then some link else insertLoop h comp n (.item x)

/-- `smem_list_insert`. -/
def smemListInsert (n : Nat) (h : Heap ι α) (l : ι) (item : α) (comp : α → α → Bool) :
    Option (Heap ι α) :=
  (insertLoop h (comp item) n (.list l)).map fun link =>
    let h := if h.next link = none then h.setLast l (some (.item item)) else h
    let h := h.setNext (.item item) (h.next link)
    let h := h.setNext link (some item)
    h.setCount l (h.count l + 1)

/-- The loop of `smem_list_delete`: the link in front of the item, or none when the item is not
found. -/
def deleteLoop (h : Heap ι α) (item : α) : Nat → Link ι α → Option (Option (Link ι α))
  | 0, _ => none
  | n + 1, link =>
    match h.next link with
    | none => some none
    | some x => if x = item then some (some link) else deleteLoop h item n (.item x)

/-- `smem_list_delete`. -/
def smemListDelete (n : Nat) (h : Heap ι α) (l : ι) (item : α) : Option (Heap ι α × Int32) :=
  (deleteLoop h item n (.list l)).map fun found =>
    match found with
    | none => (h, -1)
    | some link =>
      let h := h.setNext link (h.next (.item item))
      let h :=
        if h.next (.list l) = none then h.setLast l none
        else if h.next link = none then h.setLast l (some link)
        else h
      (h.setCount l (h.count l - 1), 0)

/-- `smem_list_move_all`. -/
def smemListMoveAll (h : Heap ι α) (source dest : ι) : Option (Heap ι α) :=
  let moved :=
    if h.next (.list dest) = none then some (h.setNext (.list dest) (h.next (.list source)))
    else (h.last dest).map fun last => h.setNext last (h.next (.list source))
  moved.map fun h =>
    let h := if h.last source ≠ none then h.setLast dest (h.last source) else h
    let h := h.setCount dest (h.count dest + h.count source)
    smemListInit h source

/-! ## Calls -/

/-- A call that changes a list. -/
inductive Op (ι α : Type)
  | init (l : ι)
  | append (l : ι) (item : α)
  | insert (l : ι) (item : α) (comp : α → α → Bool)
  | delete (l : ι) (item : α)
  | moveAll (source dest : ι)

/-- What a call leaves, and what it returns: zero where it returns nothing. Its loop may take so
many rounds. -/
def perform (n : Nat) (h : Heap ι α) : Op ι α → Option (Heap ι α × Int32)
  | .init l => some (smemListInit h l, 0)
  | .append l item => some (smemListAppend h l item, 0)
  | .insert l item comp => (smemListInsert n h l item comp).map (·, 0)
  | .delete l item => smemListDelete n h l item
  | .moveAll source dest => (smemListMoveAll h source dest).map (·, 0)

/-! ## What the lists are for -/

/-- The lists that an operation specifies, and what it returns. -/
def specify (lists : ι → List α) : Op ι α → (ι → List α) × Int32
  | .init l => (Function.update lists l [], 0)
  | .append l item => (Function.update lists l (lists l ++ [item]), 0)
  | .insert l item comp =>
      (Function.update lists l ((lists l).takeWhile (fun x => !comp item x) ++ item ::
      (lists l).dropWhile fun x => !comp item x), 0)
  | .delete l item =>
    if item ∈ lists l then (Function.update lists l ((lists l).erase item), 0) else (lists, -1)
  | .moveAll source dest =>
    (Function.update (Function.update lists dest (lists dest ++ lists source)) source [], 0)

/-- An element that is added is on no list. -/
def Allowed (lists : ι → List α) : Op ι α → Prop
  | .append _ item => ∀ l, item ∉ lists l
  | .insert _ item _ => ∀ l, item ∉ lists l
  | .init _ => True
  | .delete _ _ => True
  | .moveAll _ _ => True

/-- A call that is allowed and comes to an end, beside the lists that it specifies. -/
def Step (s : Heap ι α × (ι → List α)) (e : Op ι α × Int32) (t : Heap ι α × (ι → List α)) : Prop :=
  Allowed s.2 e.1 ∧ (∃ n, perform n s.1 e.1 = some (t.1, e.2)) ∧ t.2 = (specify s.2 e.1).1

/-- From a link on there are these elements. -/
def Points (next : Link ι α → Option α) : Link ι α → List α → Prop
  | p, [] => next p = none
  | p, x :: xs => next p = some x ∧ Points next (.item x) xs

/-- A heap holds lists, none of which shares an element with another. -/
structure Represents (h : Heap ι α) (lists : ι → List α) : Prop where
  points : ∀ l, Points h.next (.list l) (lists l)
  nodup : ∀ l, (lists l).Nodup
  disjoint : ∀ k l, k ≠ l → ∀ x ∈ lists k, x ∉ lists l
  last : ∀ l, h.last l = (lists l).getLast?.map .item
  count : ∀ l, h.count l = .ofNat (lists l).length

/-! ## Links -/

omit [DecidableEq ι] [DecidableEq α]

/-- The link behind some elements. -/
def endOf : Link ι α → List α → Link ι α
  | p, [] => p
  | _, x :: xs => endOf (.item x) xs

/-- From a link on there are these elements, and then others. -/
def Leads (next : Link ι α → Option α) : Link ι α → List α → Prop
  | _, [] => True
  | p, x :: xs => next p = some x ∧ Leads next (.item x) xs

variable {next next' : Link ι α → Option α} {p : Link ι α} {xs ys : List α} {l : ι} {x : α}

theorem points_append :
    Points next p (xs ++ ys) ↔ Leads next p xs ∧ Points next (endOf p xs) ys := by
  induction xs generalizing p with
  | nil => simp [Leads, endOf]
  | cons x xs ih => simp [Points, Leads, endOf, ih, and_assoc]

theorem endOf_mem (p : Link ι α) (xs : List α) : endOf p xs ∈ p :: xs.map .item := by
  induction xs generalizing p with
  | nil => exact mem_cons_self
  | cons x xs ih => exact mem_cons_of_mem _ (ih (.item x))

theorem endOf_append : endOf p (xs ++ ys) = endOf (endOf p xs) ys := by
  induction xs generalizing p with
  | nil => rfl
  | cons x xs ih => exact ih

/-- The end is the header of an empty list, or the last element. -/
theorem endOf_list (l : ι) (xs : List α) :
    endOf (.list l) xs = ((xs.getLast?.map Link.item).getD (.list l) : Link ι α) := by
  rcases eq_nil_or_concat xs with rfl | ⟨xs, x, rfl⟩
  · rfl
  · rw [concat_eq_append, endOf_append, getLast?_append]
    rfl

/-- The same elements are behind another link that leads to them: only their own links matter. -/
theorem Points.congr {q : Link ι α} (h : Points next p xs) (hp : next' q = next p)
    (hxs : ∀ x ∈ xs, next' (.item x) = next (.item x)) : Points next' q xs := by
  induction xs generalizing p q with
  | nil => exact hp.trans h
  | cons x xs ih =>
    obtain ⟨hx, hrest⟩ := h
    exact ⟨hp.trans hx, ih hrest (hxs x mem_cons_self) fun y hy => hxs y (mem_cons_of_mem _ hy)⟩

/-- A list is empty when its first pointer is `NULL`. -/
theorem Points.none_iff (hp : Points next p xs) : next p = none ↔ xs = [] := by
  cases xs with
  | nil => exact iff_of_true hp rfl
  | cons y xs =>
    refine iff_of_false (fun hno => ?_) (cons_ne_nil _ _)
    rw [hp.1] at hno
    cases hno

/-- The links in front of the end matter. -/
theorem Leads.congr (h : Leads next p xs) (hnodup : (p :: xs.map Link.item).Nodup)
    (heq : ∀ q ∈ p :: xs.map Link.item, q ≠ endOf p xs → next' q = next q) : Leads next' p xs := by
  induction xs generalizing p with
  | nil => trivial
  | cons x xs ih =>
    obtain ⟨hx, hrest⟩ := h
    obtain ⟨hp, hnodup⟩ := nodup_cons.mp hnodup
    have hne : p ≠ endOf p (x :: xs) := fun hend => hp (hend ▸ endOf_mem (.item x) xs)
    exact ⟨(heq p mem_cons_self hne).trans hx,
      ih hrest hnodup fun q hq => heq q (mem_cons_of_mem _ hq)⟩

theorem nodup_links (h : xs.Nodup) : (Link.list l :: xs.map Link.item : List (Link ι α)).Nodup := by
  refine nodup_cons.mpr
    ⟨fun hmem => ?_, List.Pairwise.map _ (fun x y hne heq => hne (Link.item.inj heq)) h⟩
  obtain ⟨x, -, heq⟩ := List.mem_map.mp hmem
  cases heq

/-- An end that is an element is one of the list, and one that is a header is its header. -/
theorem mem_of_endOf (heq : endOf (.list l) xs = (.item x : Link ι α)) : x ∈ xs := by
  have hmem := endOf_mem (.list l) xs
  rw [heq] at hmem
  obtain ⟨y, hy, hyx⟩ := List.mem_map.mp ((mem_cons.mp hmem).resolve_left fun hno => by cases hno)
  exact Link.item.inj hyx ▸ hy

theorem eq_of_endOf {k : ι} (heq : endOf (.list l) xs = (.list k : Link ι α)) : k = l := by
  have hmem := endOf_mem (.list l) xs
  rw [heq] at hmem
  rcases mem_cons.mp hmem with heq | hmem
  · exact Link.list.inj heq
  · obtain ⟨y, -, hno⟩ := List.mem_map.mp hmem
    cases hno

/-- The end of the elements in front is not one of those behind. -/
theorem endOf_ne (h : (xs ++ ys).Nodup) {y : α} (hy : y ∈ ys) :
    endOf (.list l) xs ≠ (.item y : Link ι α) :=
  fun heq => (nodup_append.mp h).2.2 y (mem_of_endOf heq) y hy rfl

/-- **An element is put in** between others, whose links are the same otherwise. -/
theorem Points.splice (h : Points next (.list l) (xs ++ ys)) (hnodup : (xs ++ ys).Nodup)
    (hx : next' (.item x) = next (endOf (.list l) xs)) (hend : next' (endOf (.list l) xs) = some x)
    (heq : ∀ q : Link ι α, q ≠ .item x → q ≠ endOf (.list l) xs → next' q = next q)
    (hfresh : x ∉ xs ++ ys) :
    Points next' (.list l) (xs ++ x :: ys) := by
  obtain ⟨hleads, hpoints⟩ := points_append.mp h
  have hne : ∀ y ∈ xs ++ ys, (.item y : Link ι α) ≠ .item x := by
    intro y hy heq
    exact hfresh (Link.item.inj heq ▸ hy)
  refine points_append.mpr ⟨hleads.congr (nodup_links (nodup_append.mp hnodup).1) ?_, hend, ?_⟩
  · intro q hq hq'
    refine heq q ?_ hq'
    rintro rfl
    rcases mem_cons.mp hq with hno | hq
    · cases hno
    · obtain ⟨y, hy, hyx⟩ := List.mem_map.mp hq
      exact hne y (mem_append_left _ hy) hyx
  · exact hpoints.congr hx fun z hz =>
      heq _ (hne z (mem_append_right _ hz)) (endOf_ne hnodup hz).symm

/-- **An element is taken out.** -/
theorem Points.unlink (h : Points next (.list l) (xs ++ x :: ys)) (hnodup : (xs ++ x :: ys).Nodup)
    (hend : next' (endOf (.list l) xs) = next (.item x))
    (heq : ∀ q : Link ι α, q ≠ endOf (.list l) xs → next' q = next q) :
    Points next' (.list l) (xs ++ ys) := by
  obtain ⟨hleads, -, hpoints⟩ := points_append.mp h
  refine points_append.mpr ⟨hleads.congr (nodup_links (nodup_append.mp hnodup).1)
    fun q _ hq => heq q hq, ?_⟩
  exact hpoints.congr hend fun z hz => heq _ (endOf_ne hnodup (mem_cons_of_mem _ hz)).symm

/-- **A list is put behind another.** -/
theorem Points.concat (h : Points next (.list l) xs) (hnodup : (xs ++ ys).Nodup) {k : ι}
    (hys : Points next (.list k) ys) (hend : next' (endOf (.list l) xs) = next (.list k))
    (heq : ∀ q : Link ι α, q ≠ endOf (.list l) xs → q ≠ .list k → next' q = next q)
    (hne : k ≠ l) : Points next' (.list l) (xs ++ ys) := by
  rw [← append_nil xs] at h
  obtain ⟨hleads, -⟩ := points_append.mp h
  refine points_append.mpr ⟨hleads.congr (nodup_links (nodup_append.mp hnodup).1) ?_, ?_⟩
  · intro q hq hq'
    refine heq q hq' ?_
    rintro rfl
    rcases mem_cons.mp hq with heq | hq
    · exact hne (Link.list.inj heq)
    · obtain ⟨y, -, hno⟩ := List.mem_map.mp hq
      cases hno
  · exact hys.congr hend fun z hz => heq _ (endOf_ne hnodup hz).symm fun hno => by cases hno

/-- **Going through a list** from its first element on. -/
theorem Points.traverse {h : Heap ι α} (hp : Points h.next p xs) {n : Nat} (hn : xs.length < n) :
    LinkList.traverse h n (h.next p) = some xs := by
  induction xs generalizing p n with
  | nil =>
    obtain ⟨n, rfl⟩ : ∃ k, n = k + 1 := ⟨n - 1, by omega⟩
    rw [show h.next p = none from hp]
    rfl
  | cons x xs ih =>
    rw [length_cons] at hn
    obtain ⟨n, rfl⟩ : ∃ k, n = k + 1 := ⟨n - 1, by omega⟩
    obtain ⟨hx, hrest⟩ := hp
    rw [hx, LinkList.traverse, smemListNext, ih hrest (by omega)]
    rfl

/-- The loops: what is looked at is in front of the link that is found. -/
theorem insertLoop_run {h : Heap ι α} (hp : Points h.next p xs) (comp : α → Bool) {n : Nat}
    (hn : xs.length < n) :
    insertLoop h comp n p = some (endOf p (xs.takeWhile fun x => !comp x)) := by
  induction xs generalizing p n with
  | nil =>
    obtain ⟨n, rfl⟩ : ∃ k, n = k + 1 := ⟨n - 1, by omega⟩
    rw [insertLoop, show h.next p = none from hp]
    rfl
  | cons x xs ih =>
    rw [length_cons] at hn
    obtain ⟨n, rfl⟩ : ∃ k, n = k + 1 := ⟨n - 1, by omega⟩
    obtain ⟨hx, hrest⟩ := hp
    rw [insertLoop, hx]
    dsimp only
    cases hcomp : comp x with
    | true => rw [if_pos rfl, takeWhile_cons_of_neg (by simp [hcomp]), endOf]
    | false =>
      rw [if_neg Bool.false_ne_true, ih hrest (by omega),
      takeWhile_cons_of_pos (by simp [hcomp]), endOf]

/-- The loop goes past the elements that are not the one. -/
theorem deleteLoop_past [DecidableEq α] {h : Heap ι α} (hp : Leads h.next p xs)
    (hx : x ∉ xs) (n : Nat) :
    deleteLoop h x (n + xs.length) p = deleteLoop h x n (endOf p xs) := by
  induction xs generalizing p with
  | nil => rfl
  | cons y xs ih =>
    obtain ⟨hy, hrest⟩ := hp
    rw [length_cons, ← Nat.add_assoc, deleteLoop, hy]
    dsimp only
    rw [if_neg fun heq : y = x => hx (heq ▸ mem_cons_self)]
    exact ih hrest fun hmem => hx (mem_cons_of_mem _ hmem)

theorem deleteLoop_found [DecidableEq α] {h : Heap ι α} (hp : Points h.next p (xs ++ x :: ys))
    (hx : x ∉ xs)
    {n : Nat} (hn : xs.length < n) : deleteLoop h x n p = some (some (endOf p xs)) := by
  obtain ⟨hleads, hfound, -⟩ := points_append.mp hp
  obtain ⟨n, rfl⟩ : ∃ k, n = k + 1 + xs.length := ⟨n - 1 - xs.length, by omega⟩
  rw [deleteLoop_past hleads hx, deleteLoop, hfound]
  exact if_pos rfl

theorem deleteLoop_missing [DecidableEq α] {h : Heap ι α} (hp : Points h.next p xs)
    (hx : x ∉ xs) {n : Nat} (hn : xs.length < n) : deleteLoop h x n p = some none := by
  rw [← append_nil xs] at hp
  obtain ⟨hleads, hend⟩ := points_append.mp hp
  obtain ⟨n, rfl⟩ : ∃ k, n = k + 1 + xs.length := ⟨n - 1 - xs.length, by omega⟩
  rw [deleteLoop_past hleads hx, deleteLoop, show h.next (endOf p xs) = none from hend]

end

/-! ## One list changes -/

section
variable {ι α : Type} [DecidableEq ι] {h h' : Heap ι α} {lists : ι → List α} {l : ι} {x : α}

/-- One list is another one, and the links of the others are as they were. -/
theorem Represents.update (hr : Represents h lists) {xs : List α}
    (hpoints : Points h'.next (.list l) xs)
    (hnodup : xs.Nodup) (hdisjoint : ∀ k, k ≠ l → ∀ x ∈ xs, x ∉ lists k)
    (hlast : h'.last l = xs.getLast?.map .item) (hcount : h'.count l = .ofNat xs.length)
    (hlists : ∀ k, k ≠ l → h'.next (.list k) = h.next (.list k))
    (hitems : ∀ k, k ≠ l → ∀ x ∈ lists k, h'.next (.item x) = h.next (.item x))
    (hlasts : ∀ k, k ≠ l → h'.last k = h.last k) (hcounts : ∀ k, k ≠ l → h'.count k = h.count k) :
    Represents h' (Function.update lists l xs) := by
  have hsame : Function.update lists l xs l = xs := Function.update_self ..
  have hother : ∀ k, k ≠ l → Function.update lists l xs k = lists k :=
    fun k hk => Function.update_of_ne hk ..
  refine ⟨fun k => ?_, fun k => ?_, fun j k hjk => ?_, fun k => ?_, fun k => ?_⟩
  · rcases eq_or_ne k l with rfl | hk
    · rw [hsame]
      exact hpoints
    · rw [hother k hk]
      exact (hr.points k).congr (hlists k hk) (hitems k hk)
  · rcases eq_or_ne k l with rfl | hk
    · rw [hsame]
      exact hnodup
    · rw [hother k hk]
      exact hr.nodup k
  · rcases eq_or_ne j l with rfl | hj
    · rw [hsame, hother k hjk.symm]
      exact hdisjoint k hjk.symm
    · rw [hother j hj]
      rcases eq_or_ne k l with rfl | hk
      · rw [hsame]
        exact fun x hx hx' => hdisjoint j hj x hx' hx
      · rw [hother k hk]
        exact hr.disjoint j k hjk
  · rcases eq_or_ne k l with rfl | hk
    · rw [hsame]
      exact hlast
    · rw [hother k hk, hlasts k hk]
      exact hr.last k
  · rcases eq_or_ne k l with rfl | hk
    · rw [hsame]
      exact hcount
    · rw [hother k hk, hcounts k hk]
      exact hr.count k

omit [DecidableEq ι] in
/-- The last link is the end of the list. -/
theorem Represents.last_getD (hr : Represents h lists) (l : ι) :
    (h.last l).getD (.list l) = endOf (.list l) (lists l) := by
  rw [hr.last, endOf_list]

omit [DecidableEq ι] in
theorem Represents.fresh_ne_end (hfresh : ∀ k, x ∉ lists k) {xs ys : List α}
    (hl : lists l = xs ++ ys) :
    endOf (.list l) xs ≠ (.item x : Link ι α) :=
  fun heq => hfresh l (hl ▸ mem_append_left _ (mem_of_endOf heq))

omit [DecidableEq ι] in
/-- The end of a list is no link of another one. -/
theorem Represents.end_ne_other (hr : Represents h lists) {xs ys : List α}
    (hl : lists l = xs ++ ys) {k : ι} (hk : k ≠ l) : endOf (.list l) xs ≠ (.list k : Link ι α) ∧
      ∀ y ∈ lists k, endOf (.list l) xs ≠ (.item y : Link ι α) :=
  ⟨fun heq => hk (eq_of_endOf heq), fun y hy heq =>
    hr.disjoint k l hk y hy (hl ▸ mem_append_left _ (mem_of_endOf heq))⟩

/-- **An element is added** behind some of the elements of a list. -/
theorem Represents.splice (hr : Represents h lists) (hfresh : ∀ k, x ∉ lists k) {xs ys : List α}
    (hl : lists l = xs ++ ys) (hx : h'.next (.item x) = h.next (endOf (.list l) xs))
    (hend : h'.next (endOf (.list l) xs) = some x)
    (heq : ∀ q : Link ι α, q ≠ .item x → q ≠ endOf (.list l) xs → h'.next q = h.next q)
    (hlast : h'.last l = if ys = [] then some (.item x) else h.last l)
    (hcount : h'.count l = h.count l + 1)
    (hlasts : ∀ k, k ≠ l → h'.last k = h.last k) (hcounts : ∀ k, k ≠ l → h'.count k = h.count k) :
    Represents h' (Function.update lists l (xs ++ x :: ys)) := by
  have hnodup := hr.nodup l
  have hpoints := hr.points l
  have hfreshl := hfresh l
  rw [hl] at hnodup hpoints hfreshl
  refine hr.update (hpoints.splice hnodup hx hend heq hfreshl) ?_ ?_ ?_ ?_ ?_ ?_ hlasts hcounts
  · exact perm_middle.nodup_iff.mpr (nodup_cons.mpr ⟨hfreshl, hnodup⟩)
  · intro k hk y hy
    rcases mem_append.mp hy with hy | hy
    · exact hr.disjoint l k hk.symm y (hl ▸ mem_append_left _ hy)
    · rcases mem_cons.mp hy with rfl | hy
      · exact hfresh k
      · exact hr.disjoint l k hk.symm y (hl ▸ mem_append_right _ hy)
  · rw [hlast, getLast?_append]
    cases ys with
    | nil => rfl
    | cons y ys =>
      rw [if_neg (cons_ne_nil _ _), hr.last, hl, getLast?_append, getLast?_cons_cons]
  · rw [hcount, hr.count, hl, length_append, length_append, length_cons, ← Nat.add_assoc,
      Int32.ofNat_add (xs.length + ys.length) 1]
    rfl
  · intro k hk
    exact heq _ (fun hno => by cases hno) (hr.end_ne_other hl hk).1.symm
  · intro k hk y hy
    refine heq _ (fun hno => ?_) ((hr.end_ne_other hl hk).2 y hy).symm
    exact hfresh k (Link.item.inj hno ▸ hy)

/-! ## Every call -/

variable [DecidableEq α]

theorem Represents.init (hr : Represents h lists) (l : ι) :
    Represents (smemListInit h l) (Function.update lists l []) := by
  refine hr.update ?_ .nil (fun _ _ _ hno => by cases hno) ?_ ?_ ?_ ?_ ?_ ?_
  · simp [smemListInit, Points]
  · simp [smemListInit]
  · simp [smemListInit]
  all_goals
    intro k hk
    simp [smemListInit, hk]

/-- An element is linked behind the last one. -/
theorem append_next (hr : Represents h lists) (l : ι) (x : α) :
    smemListAppend h l x =
      ((((h.setNext (.item x) none).setNext (endOf (.list l) (lists l)) (some x)).setLast l
      (some (.item x))).setCount l (h.count l + 1)) := by
  rw [← hr.last_getD, smemListAppend]
  dsimp only [Heap.setNext]
  cases h.last l with
  | none => rfl
  | some last => rfl

theorem Represents.append (hr : Represents h lists) (hfresh : ∀ k, x ∉ lists k) :
    Represents (smemListAppend h l x) (Function.update lists l (lists l ++ [x])) := by
  have hl : lists l = lists l ++ [] := (append_nil _).symm
  have hne := Represents.fresh_ne_end hfresh hl
  have hend := hr.points l
  rw [hl, points_append] at hend
  have hlast : h.next (endOf (.list l) (lists l)) = none := hend.2
  rw [append_next hr]
  refine hr.splice hfresh hl ?_ ?_ ?_ ?_ ?_ ?_ ?_
  · simp [hne.symm, hlast]
  · simp
  · intro q hq hq'
    simp [hq, hq']
  · simp
  · simp
  all_goals
    intro k hk
    simp [hk]

omit [DecidableEq ι] [DecidableEq α] in
/-- Nothing is linked behind the end of a list alone. -/
theorem Represents.end_iff (hr : Represents h lists) {xs ys : List α} (hl : lists l = xs ++ ys) :
    h.next (endOf (.list l) xs) = none ↔ ys = [] :=
  (points_append.mp (hl ▸ hr.points l)).2.none_iff

theorem Represents.insert (hr : Represents h lists) (hfresh : ∀ k, x ∉ lists k)
    (comp : α → α → Bool) {n : Nat}
    (hn : (lists l).length < n) : ∃ h', smemListInsert n h l x comp = some h' ∧
      Represents h' (Function.update lists l ((lists l).takeWhile (fun y => !comp x y) ++ x ::
        (lists l).dropWhile fun y => !comp x y)) := by
  have hl := (takeWhile_append_dropWhile (p := fun y => !comp x y) (l := lists l)).symm
  have hne := Represents.fresh_ne_end hfresh hl
  rw [smemListInsert, insertLoop_run (hr.points l) (comp x) hn]
  refine ⟨_, rfl, ?_⟩
  generalize (lists l).takeWhile (fun y => !comp x y) = xs at *
  generalize (lists l).dropWhile (fun y => !comp x y) = ys at *
  have hend := hr.end_iff hl
  refine hr.splice hfresh hl ?_ ?_ ?_ ?_ ?_ ?_ ?_
  · by_cases hys : ys = [] <;> simp [hne.symm, hend, hys]
  · simp
  · intro q hq hq'
    by_cases hys : ys = [] <;> simp [hq, hq', hend, hys]
  · by_cases hys : ys = [] <;> simp [hend, hys]
  · by_cases hys : ys = [] <;> simp [hend, hys]
  all_goals
    intro k hk
    by_cases hys : ys = [] <;> simp [hk, hend, hys]

theorem Represents.delete (hr : Represents h lists) (hx : x ∈ lists l) {n : Nat}
    (hn : (lists l).length < n) :
    ∃ h', smemListDelete n h l x = some (h', 0) ∧
      Represents h' (Function.update lists l ((lists l).erase x)) := by
  obtain ⟨xs, ys, hl, hxs⟩ := eq_append_cons_of_mem hx
  have hnodup := hr.nodup l
  have hpoints := hr.points l
  have herase : (lists l).erase x = xs ++ ys := by
    rw [hl, erase_append_right _ hxs, erase_cons_head]
  have hlength : xs.length < n := by
    rw [hl, length_append] at hn
    omega
  rw [herase]
  rw [hl] at hnodup hpoints
  have hnodup' : (xs ++ ys).Nodup :=
    hnodup.sublist (List.Sublist.append_left (sublist_cons_self ..) _)
  rw [smemListDelete, deleteLoop_found hpoints hxs hlength]
  refine ⟨_, rfl, ?_⟩
  generalize hlink : (endOf (.list l) xs : Link ι α) = link
  generalize hh : h.setNext link (h.next (.item x)) = h₁
  have hunlinked : Points h₁.next (.list l) (xs ++ ys) := by
    refine hpoints.unlink hnodup ?_ ?_
    · simp [← hh, hlink]
    · intro q hq
      rw [hlink] at hq
      simp [← hh, hq]
  have hempty := hunlinked.none_iff
  have hbehind : h₁.next link = none ↔ ys = [] := by
    rw [← hlink]
    exact (points_append.mp hunlinked).2.none_iff
  have hbefore : h₁.last = h.last := by simp [← hh]
  have hcount : h₁.count = h.count := by simp [← hh]
  -- the last link is set when the list is empty now, and when its last element is gone
  have hfixed : ∃ h₂ : Heap ι α, (if h₁.next (.list l) = none then h₁.setLast l none
      else if h₁.next link = none then h₁.setLast l (some link) else h₁) = h₂ ∧ h₂.next = h₁.next ∧
      h₂.count = h₁.count ∧ h₂.last l = (xs ++ ys).getLast?.map .item ∧
      ∀ k, k ≠ l → h₂.last k = h.last k := by
    refine ⟨_, rfl, ?_⟩
    by_cases hnil : xs ++ ys = []
    · rw [if_pos (hempty.mpr hnil), hnil]
      exact ⟨rfl, rfl, if_pos rfl, fun k hk => by simp [hk, hbefore]⟩
    · rw [if_neg (mt hempty.mp hnil)]
      by_cases hys : ys = []
      · rw [if_pos (hbehind.mpr hys)]
        refine ⟨rfl, rfl, ?_, fun k hk => by simp [hk, hbefore]⟩
        rw [hys, append_nil] at hnil ⊢
        obtain ⟨last, hsome⟩ := ne_none_iff_exists'.mp (mt getLast?_eq_none_iff.mp hnil)
        rw [← hlink, endOf_list, hsome]
        exact if_pos rfl
      · rw [if_neg (mt hbehind.mp hys)]
        refine ⟨rfl, rfl, ?_, fun k _ => by rw [hbefore]⟩
        obtain ⟨y, ys, rfl⟩ := exists_cons_of_ne_nil hys
        rw [hbefore, hr.last, hl, getLast?_append, getLast?_append, getLast?_cons_cons]
  obtain ⟨h₂, heq, hnext₂, hcount₂, hlast₂, hothers⟩ := hfixed
  have hresult :
      Represents (h₂.setCount l (h₂.count l - 1)) (Function.update lists l (xs ++ ys)) := by
    have hne := fun k (hk : k ≠ l) => hr.end_ne_other hl hk
    refine hr.update ?_ hnodup' ?_ ?_ ?_ ?_ ?_ ?_ ?_
    · rw [Heap.setCount_next, hnext₂]
      exact hunlinked
    · intro k hk y hy
      refine hr.disjoint l k hk.symm y ?_
      rw [hl]
      exact (List.Sublist.append_left (sublist_cons_self ..) _).subset hy
    · rw [Heap.setCount_last, hlast₂]
    · rw [Heap.setCount_count, if_pos rfl, hcount₂, hcount, hr.count, hl,
        length_append, length_append,
        length_cons, ← Nat.add_assoc, Int32.ofNat_add (xs.length + ys.length) 1]
      exact Int32.add_sub_cancel ..
    · intro k hk
      have := (hne k hk).1.symm
      rw [hlink] at this
      simp [hnext₂, ← hh, this]
    · intro k hk y hy
      have := ((hne k hk).2 y hy).symm
      rw [hlink] at this
      simp [hnext₂, ← hh, this]
    · intro k hk
      rw [Heap.setCount_last, hothers k hk]
    · intro k hk
      simp [hk, hcount₂, hcount]
  rw [← heq] at hresult
  exact hresult

/-- An element that is not there is not found. -/
theorem Represents.delete_missing (hr : Represents h lists) (hx : x ∉ lists l) {n : Nat}
    (hn : (lists l).length < n) : smemListDelete n h l x = some (h, -1) := by
  rw [smemListDelete, deleteLoop_missing (hr.points l) hx hn]
  rfl

omit [DecidableEq α] in
theorem Heap.setLast_self (h : Heap ι α) (l : ι) : h.setLast l (h.last l) = h := by
  have hsame : (fun k => if k = l then h.last l else h.last k) = h.last := by
    funext k
    split
    · next heq => rw [heq]
    · rfl
  rw [Heap.setLast, hsame]

/-- The first element of a list is linked behind the end of another one. -/
theorem smemListMoveAll_eq (hr : Represents h lists) (source dest : ι) :
    smemListMoveAll h source dest =
      some (smemListInit (((h.setNext (endOf (.list dest) (lists dest))
      (h.next (.list source))).setLast dest ((h.last source).or (h.last dest))).setCount dest
      (h.count dest + h.count source)) source) := by
  have hempty := (hr.points dest).none_iff
  have hlinked :
      (if h.next (.list dest) = none then some (h.setNext (.list dest) (h.next (.list source)))
      else (h.last dest).map fun last => h.setNext last (h.next (.list source))) =
      some (h.setNext (endOf (.list dest) (lists dest)) (h.next (.list source))) := by
    by_cases hnil : lists dest = []
    · rw [if_pos (hempty.mpr hnil), hnil]
      rfl
    · obtain ⟨last, hsome⟩ := ne_none_iff_exists'.mp (mt getLast?_eq_none_iff.mp hnil)
      rw [if_neg (mt hempty.mp hnil), hr.last, endOf_list, hsome]
      rfl
  rw [smemListMoveAll]
  dsimp only
  rw [hlinked, map_some]
  cases hlast : h.last source with
  | none =>
    have hself :=
      Heap.setLast_self (h.setNext (endOf (.list dest) (lists dest)) (h.next (.list source))) dest
    rw [Heap.setNext_last] at hself
    simp [hlast, hself]
  | some last => simp [hlast]

theorem Represents.moveAll (hr : Represents h lists) (source dest : ι) :
    ∃ h', smemListMoveAll h source dest = some h' ∧
    Represents h'
      (Function.update (Function.update lists dest (lists dest ++ lists source)) source []) := by
  rw [smemListMoveAll_eq hr]
  refine ⟨_, rfl, ?_⟩
  have hl : lists dest = lists dest ++ [] := (append_nil _).symm
  have hne := fun k (hk : k ≠ dest) => hr.end_ne_other hl hk
  rcases eq_or_ne source dest with rfl | hother
  · -- the elements run in a circle, and are on no list
    rw [Function.update_idem]
    refine hr.update ?_ .nil (fun _ _ _ hno => by cases hno) ?_ ?_ ?_ ?_ ?_ ?_
    · simp [smemListInit, Points]
    · simp [smemListInit]
    · simp [smemListInit]
    · intro k hk
      have := (hne k hk).1.symm
      simp [smemListInit, hk, this]
    · intro k hk y hy
      have := ((hne k hk).2 y hy).symm
      simp [smemListInit, this]
    all_goals
      intro k hk
      simp [smemListInit, hk]
  · have hend := (hne source hother).1
    have hdisjoint : (lists dest ++ lists source).Nodup :=
      nodup_append.mpr ⟨hr.nodup dest, hr.nodup source,
      fun x hx y hy heq => hr.disjoint source dest hother y hy (heq ▸ hx)⟩
    rw [Function.update_comm hother.symm]
    refine (hr.init source).update ?_ hdisjoint ?_ ?_ ?_ ?_ ?_ ?_ ?_
    · refine (hr.points dest).concat hdisjoint (hr.points source) ?_ ?_ hother
      · simp [smemListInit, hend]
      · intro q hq hq'
        simp [smemListInit, hq, hq']
    · intro k hk x hx hx'
      rcases eq_or_ne k source with rfl | hks
      · rw [Function.update_self] at hx'
        cases hx'
      · rw [Function.update_of_ne hks] at hx'
        rcases mem_append.mp hx with hx | hx
        · exact hr.disjoint dest k hk.symm x hx hx'
        · exact hr.disjoint source k hks.symm x hx hx'
    · rw [getLast?_append]
      simp [smemListInit, hother.symm, hr.last]
      cases (lists source).getLast? <;> rfl
    · simp [smemListInit, hother.symm, hr.count, length_append]
    · intro k hk
      have := (hne k hk).1.symm
      simp [smemListInit, this]
    · intro k hk y hy
      rcases eq_or_ne k source with rfl | hks
      · rw [Function.update_self] at hy
        cases hy
      · rw [Function.update_of_ne hks] at hy
        have := ((hne k hk).2 y hy).symm
        simp [smemListInit, this]
    all_goals
      intro k hk
      simp [smemListInit, hk]

/-- **One call** that is allowed: with rounds enough it comes to an end, and does what it
specifies. -/
theorem Represents.perform (hr : Represents h lists) {op : Op ι α} (hallowed : Allowed lists op) :
    ∃ bound, ∀ n, bound ≤ n → ∃ h', LinkList.perform n h op = some (h', (specify lists op).2) ∧
      Represents h' (specify lists op).1 := by
  cases op with
  | init l => exact ⟨0, fun n _ => ⟨_, rfl, hr.init l⟩⟩
  | append l x => exact ⟨0, fun n _ => ⟨_, rfl, hr.append hallowed⟩⟩
  | insert l x comp =>
    refine ⟨(lists l).length + 1, fun n hn => ?_⟩
    obtain ⟨h', hinsert, hr'⟩ := hr.insert hallowed comp (l := l) (Nat.lt_of_succ_le hn)
    exact ⟨h', by rw [LinkList.perform, hinsert]; rfl, hr'⟩
  | delete l x =>
    refine ⟨(lists l).length + 1, fun n hn => ?_⟩
    by_cases hx : x ∈ lists l
    · obtain ⟨h', hdelete, hr'⟩ := hr.delete hx (Nat.lt_of_succ_le hn)
      refine ⟨h', ?_, ?_⟩
      · rw [LinkList.perform, hdelete, specify, if_pos hx]
      · rw [specify, if_pos hx]
        exact hr'
    · refine ⟨h, ?_, ?_⟩
      · rw [LinkList.perform, hr.delete_missing hx (Nat.lt_of_succ_le hn), specify, if_neg hx]
      · rw [specify, if_neg hx]
        exact hr
  | moveAll source dest =>
    obtain ⟨h', hmove, hr'⟩ := hr.moveAll source dest
    exact ⟨0, fun n _ => ⟨h', by rw [LinkList.perform, hmove]; rfl, hr'⟩⟩

end

/-! ## Runs -/

section
variable {ι α : Type} [DecidableEq ι] [DecidableEq α] {trace : List (Op ι α × Int32)}

omit [DecidableEq ι] [DecidableEq α] in
/-- What the loops find does not depend on how many rounds they may take. -/
theorem insertLoop_mono {h : Heap ι α} {comp : α → Bool} {n m : Nat} {p q : Link ι α} (hnm : n ≤ m)
    (hrun : insertLoop h comp n p = some q) : insertLoop h comp m p = some q := by
  induction n generalizing m p with
  | zero => cases hrun
  | succ n ih =>
    obtain ⟨m, rfl⟩ : ∃ k, m = k + 1 := ⟨m - 1, by omega⟩
    rw [insertLoop] at hrun ⊢
    cases hnext : h.next p with
    | none =>
      rw [hnext] at hrun
      exact hrun
    | some x =>
      rw [hnext] at hrun
      dsimp only at hrun ⊢
      split at hrun
      · next hcomp => rwa [if_pos hcomp]
      · next hcomp =>
        rw [if_neg hcomp]
        exact ih (by omega) hrun

omit [DecidableEq ι] in
theorem deleteLoop_mono {h : Heap ι α} {x : α} {n m : Nat} {p : Link ι α}
    {found : Option (Link ι α)}
    (hnm : n ≤ m) (hrun : deleteLoop h x n p = some found) : deleteLoop h x m p = some found := by
  induction n generalizing m p with
  | zero => cases hrun
  | succ n ih =>
    obtain ⟨m, rfl⟩ : ∃ k, m = k + 1 := ⟨m - 1, by omega⟩
    rw [deleteLoop] at hrun ⊢
    cases hnext : h.next p with
    | none =>
      rw [hnext] at hrun
      exact hrun
    | some y =>
      rw [hnext] at hrun
      dsimp only at hrun ⊢
      split at hrun
      · next heq => rwa [if_pos heq]
      · next hne =>
        rw [if_neg hne]
        exact ih (by omega) hrun

theorem perform_mono {h : Heap ι α} {op : Op ι α} {n m : Nat} {result : Heap ι α × Int32}
    (hnm : n ≤ m) (hrun : perform n h op = some result) : perform m h op = some result := by
  cases op with
  | insert l x comp =>
    obtain ⟨h', hinsert, hresult⟩ := map_eq_some_iff.mp hrun
    obtain ⟨q, hloop, hq⟩ := map_eq_some_iff.mp hinsert
    rw [perform, smemListInsert, insertLoop_mono hnm hloop, map_some, hq, map_some, hresult]
  | delete l x =>
    obtain ⟨found, hloop, hresult⟩ := map_eq_some_iff.mp hrun
    rw [perform, smemListDelete, deleteLoop_mono hnm hloop, map_some, hresult]
  | _ => exact hrun

/-- A heap in which the lists have been initialised. -/
def Heap.initial (next : Link ι α → Option α) : Heap ι α where
  next
    | .list _ => none
    | .item x => next (.item x)
  last _ := none
  count _ := 0

omit [DecidableEq ι] [DecidableEq α] in
theorem represents_initial (next : Link ι α → Option α) : Represents (Heap.initial next) fun _ :
    ι => [] where
  points _ := rfl
  nodup _ := .nil
  disjoint _ _ _ _ hno := by cases hno
  last _ := rfl
  count _ := rfl

/-- **One step** of a run. -/
theorem Represents.step {s t : Heap ι α × (ι → List α)} {e : Op ι α × Int32}
    (hr : Represents s.1 s.2)
    (hstep : Step s e t) : Represents t.1 t.2 ∧ e.2 = (specify s.2 e.1).2 := by
  obtain ⟨hallowed, ⟨n, hperform⟩, hlists⟩ := hstep
  obtain ⟨bound, hends⟩ := hr.perform hallowed
  obtain ⟨h', hrun, hr'⟩ := hends (max bound n) (Nat.le_max_left ..)
  have heq := (perform_mono (Nat.le_max_right ..) hperform).symm.trans hrun
  obtain ⟨hheap, hanswer⟩ := Prod.mk.inj (Option.some.inj heq)
  rw [hheap, hlists]
  exact ⟨hr', hanswer⟩

theorem Represents.run {next : Link ι α → Option α}
    {s : Heap ι α × (ι → List α)} (run : Run Step (Heap.initial next, fun _ => []) trace s) :
    Represents s.1 s.2 :=
  run.state_invariant (P := fun s => Represents s.1 s.2) (represents_initial next) fun hr hstep =>
    (hr.step hstep).1

/-- What the callers of the lists rely on. -/
structure Sound (h : Heap ι α) (lists : ι → List α) : Prop where
  /-- Going from the first element on, one comes by the elements that have been specified. -/
  traversal : ∀ l n, (lists l).length < n → traverse h n (smemListFirst h l) = some (lists l)
  last : ∀ l, h.last l = (lists l).getLast?.map .item
  count : ∀ l, smemListCount h l = .ofNat (lists l).length
  distinct : ∀ l, (lists l).Nodup ∧ ∀ k, k ≠ l → ∀ x ∈ lists k, x ∉ lists l
  /-- Each call that is allowed comes to an end, and its lists are the ones specified. -/
  calls : ∀ op, Allowed lists op →
    ∃ h', Step (h, lists) (op, (specify lists op).2) (h', (specify lists op).1)
  returns : ∀ op r t, Step (h, lists) (op, r) t → r = (specify lists op).2

/-- **The lists are the ones specified**, after every sequence of calls. -/
theorem smemList_sound {next : Link ι α → Option α} {trace : List (Op ι α × Int32)} {h : Heap ι α}
    {lists : ι → List α} (run : Run Step (Heap.initial next, fun _ => []) trace (h, lists)) :
    Sound h lists := by
  have hr : Represents h lists := Represents.run run
  refine ⟨fun l n hn => (hr.points l).traverse hn, hr.last, hr.count,
    fun l => ⟨hr.nodup l, fun k hk => hr.disjoint k l hk⟩, fun op hallowed =>
      ?_, fun op r t hstep => ?_⟩
  · obtain ⟨bound, hends⟩ := hr.perform hallowed
    obtain ⟨h', hperform, -⟩ := hends bound (Nat.le_refl _)
    exact ⟨h', hallowed, ⟨bound, hperform⟩, rfl⟩
  · exact (hr.step hstep).2

/-- The lists that several operations specify. -/
def specifyAll (lists : ι → List α) (ops : List (Op ι α)) : ι → List α :=
  ops.foldl (fun lists op => (specify lists op).1) lists

/-- What they return. -/
def returnsAll (lists : ι → List α) : List (Op ι α) → List Int32
  | [] => []
  | op :: ops => (specify lists op).2 :: returnsAll (specify lists op).1 ops

/-- Each of them is allowed. -/
def AllowedAll (lists : ι → List α) : List (Op ι α) → Prop
  | [] => True
  | op :: ops => Allowed lists op ∧ AllowedAll (specify lists op).1 ops

/-- **Calls that are allowed can be made**, one after the other. -/
theorem ops_run (next : Link ι α → Option α) {h : Heap ι α}
    {lists : ι → List α} (run : Run Step (Heap.initial next, fun _ => []) trace (h, lists))
    {ops : List (Op ι α)} (hallowed : AllowedAll lists ops) : ∃ trace' h',
      Run Step (Heap.initial next, fun _ => []) trace' (h', specifyAll lists ops) ∧
        trace'.reverse.map Prod.snd = trace.reverse.map Prod.snd ++ returnsAll lists ops := by
  induction ops generalizing trace h lists with
  | nil => exact ⟨trace, h, run, by simp [returnsAll]⟩
  | cons op ops ih =>
    obtain ⟨hop, hrest⟩ := hallowed
    obtain ⟨h₁, hstep⟩ := (smemList_sound run).calls op hop
    obtain ⟨trace', h', run', hreturns⟩ := ih (run.step hstep) hrest
    exact ⟨trace', h', run', by rw [hreturns]; simp [returnsAll]⟩

end

/-- Three elements of one list, which are deleted or moved behind those of the other, where one is
inserted in its place; the second deletion finds nothing. -/
def movingOps : List (Op Bool Nat) :=
  [.append false 1, .append false 2, .append false 3, .append true 5, .append true 9,
    .insert true 7 fun item x => item < x, .delete false 2, .delete false 2, .moveAll false true,
    .append false 4]

/-- The lists after these calls. -/
theorem smemList_sound_moved : ∃ (trace : List (Op Bool Nat × Int32)) (h : Heap Bool Nat)
    (lists : Bool → List Nat), trace.reverse.map Prod.snd = [0, 0, 0, 0, 0, 0, 0, -1, 0, 0] ∧
      lists true = [5, 7, 9, 1, 3] ∧ lists false = [4] ∧ Sound h lists := by
  have hallowed : AllowedAll (fun _ : Bool => []) movingOps := by
    refine ⟨?_, ?_, ?_, ?_, ?_, ?_, trivial, trivial, trivial, ?_, trivial⟩
    all_goals
      intro l
      cases l <;> decide
  obtain ⟨trace, h, run, hreturns⟩ := ops_run (fun _ => none) .start hallowed
  exact ⟨trace, h, _, hreturns.trans (by decide), by decide, by decide, smemList_sound run⟩

section
variable {α : Type} [DecidableEq α] {addr : Nat → α}

/-- So many elements can be appended to a list. -/
theorem appends_run (next : Link Unit α → Option α) {n : Nat}
    (hinj : ∀ i < n, ∀ j < n, addr i = addr j → i = j) : ∃ trace h,
    Run Step (Heap.initial next, fun _ => []) trace (h, fun _ => (List.range n).map addr) := by
  induction n with
  | zero => exact ⟨[], _, .start⟩
  | succ n ih =>
    obtain ⟨trace, h, run⟩ := ih fun i hi j hj => hinj i (by omega) j (by omega)
    refine ⟨(.append () (addr n), 0) :: trace, smemListAppend h () (addr n),
      run.step ⟨?_, ⟨0, rfl⟩, ?_⟩⟩
    · intro l hmem
      obtain ⟨i, hi, heq⟩ := List.mem_map.mp hmem
      have hlt := mem_range.mp hi
      have := hinj i (by omega) n (by omega) heq
      omega
    · funext l
      show (List.range (n + 1)).map addr =
        Function.update (fun _ => (List.range n).map addr) ()
          ((List.range n).map addr ++ [addr n]) ()
      rw [range_succ, map_append, map_singleton, Function.update_self]

end

/-- **The count is not always the length**: after so many elements have been appended it is
negative. -/
theorem smemListCount_wraps : ∃ (trace : List (Op Unit UInt64 × Int32)) (h : Heap Unit UInt64)
    (lists : Unit → List UInt64), Run Step (Heap.initial fun _ => none, fun _ => []) trace
      (h, lists) ∧
      (lists ()).length = 2 ^ 31 ∧ (smemListCount h ()).toInt = -2147483648 := by
  have hinj : ∀ i < 2 ^ 31, ∀ j < 2 ^ 31, UInt64.ofNat (8 * (i + 1)) = UInt64.ofNat
      (8 * (j + 1)) → i = j := by
    intro i hi j hj heq
    have heq := congrArg UInt64.toNat heq
    rw [UInt64.toNat_ofNat', UInt64.toNat_ofNat'] at heq
    omega
  obtain ⟨trace, h, run⟩ := appends_run (fun _ => none) hinj
  have hr : Represents h _ := Represents.run run
  refine ⟨trace, h, _, run, ?_, ?_⟩
  · rw [length_map, length_range]
  · rw [smemListCount, hr.count, length_map, length_range]
    decide

end Smem.LinkList
