import BootXf.Lib.LinkedList
import BootXf.Npa.TransactionResources

/-!
# The resource list of a transaction in memory

`npa_transaction_resources_available` over the cells of `npa.list_pool`: the list that is walked
along is pushed to at its end and shuffled in place at the same time, and the dependencies of the
current resource are on a list of their own, in cells of the same pool. What the cells go through is
the walk of `TransactionResources`.
-/

namespace Npa

open Lib Lib.LinkedList List Function

/-- `npa.list_pool`: a cell that is handed out is none of those in use. -/
structure ListPool where
  alloc : List Nat → Nat
  fresh : ∀ live, alloc live ∉ live

/-- The lists of a definition, with the cells of the pool that are in use and where `it1` points. -/
structure Lists where
  cells : Nat → Cell ResourceHandle
  live : List Nat
  resourceList : Header
  depList : Header
  it1 : Nat
  pessimisticLocking : Bool

namespace Lists
variable (pool : ListPool)

/-- `npa_list_PushBack` on `resource_list`. -/
def pushResource (s : Lists) (data : ResourceHandle) : Lists :=
  let elem := pool.alloc s.live
  let pushed := pushBack s.cells s.resourceList elem data
  { s with cells := pushed.1, resourceList := pushed.2, live := elem :: s.live }

/-- `npa_list_PushBack` on `dep_list`. -/
def pushDep (s : Lists) (data : ResourceHandle) : Lists :=
  let elem := pool.alloc s.live
  let pushed := pushBack s.cells s.depList elem data
  { s with cells := pushed.1, depList := pushed.2, live := elem :: s.live }

/-- `npa_list_PopFront` on `dep_list`. -/
def popDep (s : Lists) : Option (ResourceHandle × Lists) :=
  (popFront s.cells s.depList).map fun popped =>
    ((s.cells popped.1).data, { s with depList := popped.2, live := s.live.erase popped.1 })

/-- A dependency of the current resource goes onto `dep_list`. -/
def addDep (s : Lists) : Option ResourceHandle → Lists
  | some d => if find s.cells d (s.live.length + 1) s.depList.head then s else s.pushDep pool d
  | none => s

/-- The loop that looks for a resource in front of the last cell: whether the resource has been met,
and its cell with the next one. -/
def search (m : Nat → Cell ResourceHandle) (ptr : ResourceHandle) :
    Nat → Option Nat → Bool × Option (Nat × Nat)
  | 0, _ => (false, none)
  | _ + 1, none => (false, none)
  | n + 1, some it2 =>
    if (m it2).data = ptr then
      match (m it2).next with
      | some next => (true, some (it2, next))
      | none => (true, none)
    else search m ptr n (m it2).next

/-- A dependency goes into `resource_list`, or to the back of it. -/
def addDependency (s : Lists) (ptr : ResourceHandle) : Lists :=
  match search s.cells ptr (s.live.length + 1) s.resourceList.head with
  | (met, none) =>
    { s.pushResource pool ptr with pessimisticLocking := s.pessimisticLocking || met }
  | (_, some (it2, next)) =>
    let s' := s.pushResource pool ptr
    { s' with
      cells := update s'.cells it2 (s'.cells next)
      live := s'.live.erase next
      it1 := if s.it1 = next then it2 else s.it1
      pessimisticLocking := true }

/-- The dependencies that have been collected go into `resource_list`. -/
def addAll : Nat → Lists → Option Lists
  | 0, _ => none
  | n + 1, s =>
    match s.popDep with
    | none => some s
    | some (ptr, s) => addAll n (s.addDependency pool ptr)

/-- The outer loop, going so many steps at most. -/
def define (g : ResourceGraph) : Nat → Lists → Option Lists
  | 0, _ => none
  | n + 1, s =>
    let s := (g.dependencies (s.cells s.it1).data).foldl (addDep pool) s
    (s.addAll pool (s.live.length + 1)).bind fun s =>
      match (s.cells s.it1).next with
      | none => some s
      | some next => define g n { s with it1 := next }

end Lists

/-- `npa_transaction_resources_available` up to the sorted list, where some cells of the pool are in
use already. -/
def transactionResourcesAvailable (pool : ListPool) (g : ResourceGraph) (n : Nat)
    (cells : Nat → Cell ResourceHandle) (live : List Nat) (resources : List ResourceHandle) :
    Option Lists :=
  let s := resources.foldl (Lists.pushResource pool) ⟨cells, live, .empty, .empty, 0, false⟩
  match s.resourceList.head with
  | none => none
  | some it1 => Lists.define pool g n { s with it1 := it1 }

/-! ## The walk in the cells -/

section
variable {pool : ListPool} {s : Lists} {w : Walk} {ptr : ResourceHandle}
  {lb la ds : List (Nat × ResourceHandle)} {l : List (Nat × ResourceHandle)}

/-- What the inner loop finds: the first cell with the resource that is not the last one. -/
theorem search_spec (ptr : ResourceHandle) {m : Nat → Cell ResourceHandle}
    (hs : Segment m none l) {n : Nat} (hn : l.length ≤ n) :
    (∃ p a b y q, l = p ++ (a, ptr) :: (b, y) :: q ∧ ptr ∉ p.map (·.2) ∧
        Lists.search m ptr (n + 1) (start none l) = (true, some (a, b))) ∨
      ptr ∉ l.dropLast.map (·.2) ∧
        Lists.search m ptr (n + 1) (start none l) = (decide (ptr ∈ l.map (·.2)), none) := by
  induction l generalizing n with
  | nil => exact .inr ⟨not_mem_nil, by simp [start, Lists.search]⟩
  | cons c l ih =>
    obtain ⟨a, x⟩ := c
    obtain ⟨hc, hl⟩ := hs
    have hstart : start none ((a, x) :: l) = some a := rfl
    rw [length_cons] at hn
    obtain ⟨n, rfl⟩ : ∃ k, n = k + 1 := ⟨n - 1, by omega⟩
    rw [hstart, Lists.search, hc]
    by_cases hx : x = ptr
    · subst hx
      rw [if_pos rfl]
      cases l with
      | nil => exact .inr ⟨not_mem_nil, by simp [start]⟩
      | cons d l => exact .inl ⟨[], a, d.1, d.2, l, rfl, not_mem_nil, rfl⟩
    · rw [if_neg hx]
      rcases ih hl (n := n) (by omega) with ⟨p, a', b, y, q, rfl, hp, hfound⟩ | ⟨hnot, hfound⟩
      · refine .inl ⟨(a, x) :: p, a', b, y, q, rfl, ?_, hfound⟩
        exact fun hin => (mem_cons.mp hin).elim (fun heq => hx heq.symm) hp
      · right
        rw [hfound]
        have hne : ¬ ptr = x := fun heq => hx heq.symm
        cases l with
        | nil => exact ⟨not_mem_nil, by simp [hne]⟩
        | cons d l =>
          refine ⟨fun hin => ?_, by simp [hne]⟩
          rw [dropLast_cons_cons, map_cons] at hin
          exact (mem_cons.mp hin).elim hne hnot

/-- **The lists in the cells stand for a state of the walk**, with what has been passed, what lies
in front of it, and the dependencies that are still to be added. -/
structure Refines (s : Lists) (w : Walk) (lb la ds : List (Nat × ResourceHandle)) : Prop where
  resources : Represents s.cells s.resourceList (lb ++ (s.it1, w.current) :: la)
  before : lb.map (·.2) = w.before
  after : la.map (·.2) = w.after
  deps : Represents s.cells s.depList ds
  live : ∀ c ∈ lb ++ (s.it1, w.current) :: la ++ ds, c.1 ∈ s.live
  apart : ∀ c ∈ lb ++ (s.it1, w.current) :: la, ∀ d ∈ ds, c.1 ≠ d.1
  pessimistic : s.pessimisticLocking = w.pessimisticLocking

/-- Cells in use are no more than there are. -/
theorem length_le_live (hn : (l.map (·.1)).Nodup)
    (hlive : ∀ c ∈ l, c.1 ∈ s.live) : l.length ≤ s.live.length := by
  rw [← length_map (·.1)]
  refine List.Nodup.length_le_of_subset hn fun a ha => ?_
  obtain ⟨c, hc, rfl⟩ := mem_map.mp ha
  exact hlive c hc

/-- A cell from the pool is none of those in use. -/
theorem alloc_ne {c : Nat × ResourceHandle} (hc : c.1 ∈ s.live) : c.1 ≠ pool.alloc s.live :=
  fun heq => pool.fresh s.live (heq ▸ hc)

theorem Refines.fresh (h : Refines s w lb la ds) (pool : ListPool) :
    pool.alloc s.live ∉ (lb ++ (s.it1, w.current) :: la).map (·.1) := by
  intro hin
  obtain ⟨c, hc, heq⟩ := mem_map.mp hin
  exact alloc_ne (h.live c (mem_append_left ds hc)) heq

/-- The dependencies are in other cells than those that a push changes. -/
theorem Refines.kept (h : Refines s w lb la ds) (pool : ListPool) (ptr : ResourceHandle) :
    ∀ d ∈ ds, (pushBack s.cells s.resourceList (pool.alloc s.live) ptr).1 d.1 = s.cells d.1 := by
  refine fun d hd => pushBack_of_ne (alloc_ne (h.live d (mem_append_right _ hd))) fun ht => ?_
  obtain ⟨c, hc, heq⟩ := Represents.tail_mem h.resources ht
  exact h.apart c hc d hd heq

/-- The resource is moved to the back, and the cell behind it is freed. -/
theorem Refines.moved (h : Refines s w lb la ds) (hne : w.current ≠ ptr)
    {p q : List (Nat × ResourceHandle)} {a b : Nat} {y : ResourceHandle}
    (hsplit : lb ++ (s.it1, w.current) :: la = p ++ (a, ptr) :: (b, y) :: q)
    (hp : ptr ∉ p.map (·.2))
    (hfound : Lists.search s.cells ptr (s.live.length + 1) s.resourceList.head =
      (true, some (a, b))) :
    ∃ lb' la', Refines (s.addDependency pool ptr) (w.addDependency ptr) lb' la' ds := by
  have hlist := fun c hc => h.live c (mem_append_left ds hc)
  have hdeps := fun c hc => h.live c (mem_append_right _ hc)
  have hpushed := h.resources.pushBack (x := ptr) (h.fresh pool)
  have hkept := h.kept pool ptr
  have hadd : s.addDependency pool ptr =
      { s.pushResource pool ptr with
        cells := update (s.pushResource pool ptr).cells a
          ((s.pushResource pool ptr).cells b)
        live := (s.pushResource pool ptr).live.erase b
        it1 := if s.it1 = b then a else s.it1
        pessimisticLocking := true } := by
    rw [Lists.addDependency, hfound]
  have hnodup := h.resources.nodup
  rw [hsplit] at hpushed hlist hnodup
  have hshuffled := Represents.shuffle (q := q ++ [(pool.alloc s.live, ptr)])
    (by rw [append_assoc] at hpushed; exact hpushed) (by simp)
  have hab : ∀ c ∈ p ++ (a, y) :: (q ++ [(pool.alloc s.live, ptr)]) ++ ds,
      c.1 ∈ (s.pushResource pool ptr).live.erase b := by
    intro c hc
    have hnb : c.1 ≠ b := by
      rintro rfl
      rcases mem_append.mp hc with hc | hc
      · have hn := hshuffled.nodup
        have hbin : (c.1, y) ∈ p ++ (a, ptr) :: (c.1, y) :: q := by simp
        have hbl := hlist _ hbin
        rw [map_append, map_cons, map_cons, nodup_append] at hnodup
        obtain ⟨-, hnq, hdisj⟩ := hnodup
        obtain ⟨haq, hnq⟩ := nodup_cons.mp hnq
        have hcq := (nodup_cons.mp hnq).1
        rcases mem_append.mp hc with hc | hc
        · exact hdisj c.1 (mem_map.mpr ⟨c, hc, rfl⟩) c.1 (by simp) rfl
        · rcases mem_cons.mp hc with rfl | hc
          · exact haq (by simp)
          · rcases mem_append.mp hc with hc | hc
            · exact hcq (mem_map.mpr ⟨c, hc, rfl⟩)
            · rw [mem_singleton.mp hc] at hbl
              exact pool.fresh _ hbl
      · exact h.apart (c.1, y) (by rw [hsplit]; simp) c hc rfl
    refine (mem_erase_of_ne hnb).mpr ?_
    show c.1 ∈ pool.alloc s.live :: s.live
    rcases mem_append.mp hc with hc | hc
    · rcases mem_append.mp hc with hc | hc
      · exact mem_cons_of_mem _ (hlist c (by simp [hc]))
      · rcases mem_cons.mp hc with rfl | hc
        · exact mem_cons_of_mem _ (hlist (a, ptr) (by simp))
        · rcases mem_append.mp hc with hc | hc
          · exact mem_cons_of_mem _ (hlist c (by simp [hc]))
          · rw [mem_singleton.mp hc]
            exact mem_cons_self
    · exact mem_cons_of_mem _ (hdeps c hc)
  have happart : ∀ c ∈ p ++ (a, y) :: (q ++ [(pool.alloc s.live, ptr)]), ∀ d ∈ ds,
      c.1 ≠ d.1 := by
    intro c hc d hd
    have hapart := h.apart
    rw [hsplit] at hapart
    rcases mem_append.mp hc with hc | hc
    · exact hapart c (by simp [hc]) d hd
    · rcases mem_cons.mp hc with rfl | hc
      · exact hapart (a, ptr) (by simp) d hd
      · rcases mem_append.mp hc with hc | hc
        · exact hapart c (by simp [hc]) d hd
        · rw [mem_singleton.mp hc]
          exact (alloc_ne (hdeps d hd)).symm
  have hds : Represents (update (s.pushResource pool ptr).cells a
      ((s.pushResource pool ptr).cells b)) s.depList ds := by
    refine h.deps.congr fun d hd => ?_
    rw [update_of_ne (happart (a, y) (by simp) d hd).symm]
    exact hkept d hd
  -- where the current resource is
  have hwhere : (∃ lb₂, lb = p ++ (a, ptr) :: lb₂ ∧ (b, y) :: q = lb₂ ++ (s.it1, w.current) :: la) ∨
      ∃ la₁, la = la₁ ++ (a, ptr) :: (b, y) :: q ∧ p = lb ++ (s.it1, w.current) :: la₁ := by
    rcases append_eq_append_iff.mp hsplit with ⟨t, rfl, hrest⟩ | ⟨t, rfl, hrest⟩
    · cases t with
      | nil =>
        exact absurd (congrArg Prod.snd (head_eq_of_cons_eq hrest)) hne
      | cons c t =>
        obtain ⟨rfl, rfl⟩ := cons_eq_cons.mp hrest
        exact .inr ⟨t, rfl, rfl⟩
    · cases t with
      | nil =>
        exact absurd (congrArg Prod.snd (head_eq_of_cons_eq hrest)).symm hne
      | cons c t =>
        obtain ⟨hc, htail⟩ := cons_eq_cons.mp hrest
        exact .inl ⟨t, by rw [hc], htail⟩
  rw [hadd]
  rcases hwhere with ⟨lb₂, rfl, hrest⟩ | ⟨la₁, rfl, rfl⟩
  · -- among those that have been passed
    have hmem : ptr ∈ w.before := by
      rw [← h.before]
      simp
    have herase : w.before.erase ptr = p.map (·.2) ++ lb₂.map (·.2) := by
      rw [← h.before, map_append, map_cons, erase_append_right _ hp,
        erase_cons_head]
    rw [Walk.addDependency, if_pos hmem, herase]
    cases lb₂ with
    | nil =>
      -- the freed cell is the current one
      obtain ⟨hb, rfl⟩ := cons_eq_cons.mp hrest
      cases hb
      rw [if_pos rfl]
      refine ⟨p, q ++ [(pool.alloc s.live, ptr)],
        ⟨hshuffled, by simp, by simp [h.after], hds, hab, happart, rfl⟩⟩
    | cons c lb₃ =>
      obtain ⟨rfl, rfl⟩ := cons_eq_cons.mp hrest
      have hit : s.it1 ≠ b := by
        rintro rfl
        rw [map_append, nodup_append] at hnodup
        have hn := (nodup_cons.mp (nodup_cons.mp hnodup.2.1).2).1
        exact hn (by simp)
      rw [if_neg hit]
      refine ⟨p ++ (a, y) :: lb₃, la ++ [(pool.alloc s.live, ptr)], ⟨?_, by simp, by
        simp [h.after], hds, ?_, ?_, rfl⟩⟩
      · refine Eq.mp (congrArg (Represents _ _) ?_) hshuffled
        simp
      · intro c hc
        exact hab c (by simpa using hc)
      · intro c hc
        exact happart c (by simpa using hc)
  · -- among those in front of the walk
    have hnb : ptr ∉ w.before := by
      rw [← h.before]
      exact fun hin => hp (by rw [map_append]; exact mem_append_left _ hin)
    have hp₁ : ptr ∉ la₁.map (·.2) := fun hin => hp (by
      rw [map_append, map_cons]
      exact mem_append_right _ (mem_cons_of_mem _ hin))
    have hafter : w.after = la₁.map (·.2) ++ ptr :: y :: q.map (·.2) := by
      rw [← h.after]
      simp
    have hin : ptr ∈ w.after.dropLast := by
      rw [hafter, dropLast_append_cons, dropLast_cons_cons]
      exact mem_append_right _ mem_cons_self
    have herase : w.after.erase ptr = la₁.map (·.2) ++ y :: q.map (·.2) := by
      rw [hafter, erase_append_right _ hp₁, erase_cons_head]
    have hit : s.it1 ≠ b := by
      rintro rfl
      rw [map_append, nodup_append] at hnodup
      exact hnodup.2.2 s.it1 (by simp) s.it1 (by simp) rfl
    rw [Walk.addDependency, if_neg hnb, if_neg hne, if_pos hin, herase, if_neg hit]
    refine ⟨lb, la₁ ++ (a, y) :: (q ++ [(pool.alloc s.live, ptr)]), ⟨?_, h.before, by simp, hds,
      ?_, ?_, rfl⟩⟩
    · refine Eq.mp (congrArg (Represents _ _) ?_) hshuffled
      simp
    · intro c hc
      exact hab c (by simpa using hc)
    · intro c hc
      exact happart c (by simpa using hc)

/-- The resource is pushed, be it that it is the last one already. -/
theorem Refines.pushed (h : Refines s w lb la ds) (hne : w.current ≠ ptr)
    (hnot : ptr ∉ (lb ++ (s.it1, w.current) :: la).dropLast.map (·.2))
    (hfound : Lists.search s.cells ptr (s.live.length + 1) s.resourceList.head =
      (decide (ptr ∈ (lb ++ (s.it1, w.current) :: la).map (·.2)), none)) :
    ∃ lb' la', Refines (s.addDependency pool ptr) (w.addDependency ptr) lb' la' ds := by
  have hdeps := fun c hc => h.live c (mem_append_right _ hc)
  have hpushed := h.resources.pushBack (x := ptr) (h.fresh pool)
  have hdrop :
      (lb ++ (s.it1, w.current) :: la).dropLast = lb ++ ((s.it1, w.current) :: la).dropLast :=
    dropLast_append_cons
  rw [hdrop, map_append, h.before] at hnot
  have hnb : ptr ∉ w.before := fun hin => hnot (mem_append_left _ hin)
  have hna : ptr ∉ w.after.dropLast := by
    intro hin
    refine hnot (mem_append_right _ ?_)
    rw [map_dropLast, map_cons, h.after]
    cases hw : w.after with
    | nil => rw [hw] at hin; cases hin
    | cons x after =>
      rw [hw] at hin
      rw [dropLast_cons_cons]
      exact mem_cons_of_mem _ hin
  have hadd : s.addDependency pool ptr =
      { s.pushResource pool ptr with
        pessimisticLocking := s.pessimisticLocking ||
          decide (ptr ∈ (lb ++ (s.it1, w.current) :: la).map (·.2)) } := by
    rw [Lists.addDependency, hfound]
  have hmet : (ptr ∈ (lb ++ (s.it1, w.current) :: la).map (·.2)) ↔ ptr ∈ w.after := by
    rw [map_append, map_cons, h.before, h.after, mem_append, mem_cons]
    constructor
    · rintro (hin | heq | hin)
      · exact absurd hin hnb
      · exact absurd heq.symm hne
      · exact hin
    · exact fun hin => .inr (.inr hin)
  rw [hadd, Walk.addDependency, if_neg hnb, if_neg hne, if_neg hna]
  refine ⟨lb, la ++ [(pool.alloc s.live, ptr)], ⟨?_, h.before, by simp [h.after],
    h.deps.congr (h.kept pool ptr), ?_, ?_, ?_⟩⟩
  · refine Eq.mp (congrArg (Represents _ _) ?_) hpushed
    simp [Lists.pushResource]
  · intro c hc
    show c.1 ∈ pool.alloc s.live :: s.live
    have hc : c ∈ lb ++ (s.it1, w.current) :: la ++ ds ∨ c = (pool.alloc s.live, ptr) := by
      simp only [mem_append, mem_cons, not_mem_nil, or_false] at hc ⊢
      tauto
    rcases hc with hc | rfl
    · exact mem_cons_of_mem _ (h.live c hc)
    · exact mem_cons_self
  · intro c hc d hd
    have hc : c ∈ lb ++ (s.it1, w.current) :: la ∨ c = (pool.alloc s.live, ptr) := by
      simp only [mem_append, mem_cons, not_mem_nil, or_false] at hc ⊢
      tauto
    rcases hc with hc | rfl
    · exact h.apart c hc d hd
    · exact (alloc_ne (hdeps d hd)).symm
  · show (_ || decide _) = (_ || _)
    rw [h.pessimistic, decide_eq_decide.mpr hmet, contains_eq_mem]

/-- **A dependency goes into the list in the cells as it does in the walk.** -/
theorem Refines.addDependency (h : Refines s w lb la ds) (pool : ListPool) (hne : w.current ≠ ptr) :
    ∃ lb' la', Refines (s.addDependency pool ptr) (w.addDependency ptr) lb' la' ds := by
  have hsearch := search_spec ptr h.resources.segment
    (length_le_live h.resources.nodup fun c hc => h.live c (mem_append_left ds hc))
  rw [← h.resources.head] at hsearch
  rcases hsearch with ⟨p, a, b, y, q, hsplit, hp, hfound⟩ | ⟨hnot, hfound⟩
  · exact h.moved hne hsplit hp hfound
  · exact h.pushed hne hnot hfound

/-- A dependency that is new goes onto the list of the dependencies. -/
def addNew (list : List ResourceHandle) : Option ResourceHandle → List ResourceHandle
  | some d => if d ∈ list then list else list ++ [d]
  | none => list

/-- The dependencies are collected in cells of their own. -/
theorem Refines.addDep (h : Refines s w lb la ds) (pool : ListPool)
    (dependency : Option ResourceHandle) :
    ∃ ds', Refines (s.addDep pool dependency) w lb la ds' ∧
      ds'.map (·.2) = addNew (ds.map (·.2)) dependency := by
  cases dependency with
  | none => exact ⟨ds, h, rfl⟩
  | some d =>
    have hdeps := fun c hc => h.live c (mem_append_right _ hc)
    have hfind := h.deps.segment.find (x := d) (length_le_live h.deps.nodup hdeps)
    rw [← h.deps.head] at hfind
    by_cases hd : d ∈ ds.map (·.2)
    · refine ⟨ds, ?_, (if_pos hd).symm⟩
      rw [Lists.addDep, hfind, decide_eq_true hd]
      exact h
    · have hadd : s.addDep pool (some d) = s.pushDep pool d := by
        rw [Lists.addDep, hfind, decide_eq_false hd]
        rfl
      have hlist := fun c hc => h.live c (mem_append_left ds hc)
      have hfresh : pool.alloc s.live ∉ ds.map (·.1) := by
        intro hin
        obtain ⟨c, hc, heq⟩ := mem_map.mp hin
        exact alloc_ne (hdeps c hc) heq
      rw [hadd]
      refine ⟨ds ++ [(pool.alloc s.live, d)],
        ⟨?_, h.before, h.after, h.deps.pushBack hfresh, ?_, ?_,
        h.pessimistic⟩, ?_⟩
      · refine h.resources.congr fun c hc => pushBack_of_ne (alloc_ne (hlist c hc)) fun ht => ?_
        obtain ⟨c', hc', heq⟩ := Represents.tail_mem h.deps ht
        exact h.apart c hc c' hc' heq.symm
      · intro c hc
        show c.1 ∈ pool.alloc s.live :: s.live
        rw [← append_assoc] at hc
        rcases mem_append.mp hc with hc | hc
        · exact mem_cons_of_mem _ (h.live c hc)
        · rw [mem_singleton.mp hc]
          exact mem_cons_self
      · intro c hc c' hc'
        rcases mem_append.mp hc' with hc' | hc'
        · exact h.apart c hc c' hc'
        · rw [mem_singleton.mp hc']
          exact alloc_ne (hlist c hc)
      · rw [map_append]
        exact (if_neg hd).symm

theorem Refines.collect (h : Refines s w lb la ds) (pool : ListPool)
    (dependencies : List (Option ResourceHandle)) :
    ∃ ds', Refines (dependencies.foldl (Lists.addDep pool) s) w lb la ds' ∧
      ds'.map (·.2) = dependencies.foldl addNew (ds.map (·.2)) := by
  induction dependencies generalizing s ds with
  | nil => exact ⟨ds, h, rfl⟩
  | cons dependency dependencies ih =>
    obtain ⟨ds₁, h₁, hds₁⟩ := h.addDep pool dependency
    obtain ⟨ds₂, h₂, hds₂⟩ := ih h₁
    rw [hds₁] at hds₂
    exact ⟨ds₂, h₂, hds₂⟩

theorem depList_eq (g : ResourceGraph) (r : ResourceHandle) :
    g.depList r = (g.dependencies r).foldl addNew [] := rfl

/-- The dependencies that have been collected are added, the first one first. -/
theorem Refines.addAll (h : Refines s w lb la ds) (pool : ListPool) {n : Nat} (hn : ds.length ≤ n)
    (hne : ∀ d ∈ ds.map (·.2), w.current ≠ d) :
    ∃ s' lb' la', s.addAll pool (n + 1) = some s' ∧
      Refines s' ((ds.map (·.2)).foldl Walk.addDependency w) lb' la' [] := by
  induction ds generalizing s w lb la n with
  | nil =>
    refine ⟨s, lb, la, ?_, h⟩
    rw [Lists.addAll, Lists.popDep, popFront_of_empty h.deps]
    rfl
  | cons d ds ih =>
    rw [length_cons] at hn
    obtain ⟨n, rfl⟩ : ∃ k, n = k + 1 := ⟨n - 1, by omega⟩
    obtain ⟨header, hpop, hdata, hrest⟩ := h.deps.popFront
    have hnodup := nodup_cons.mp h.deps.nodup
    have hpopped : s.popDep =
        some (d.2, { s with depList := header, live := s.live.erase d.1 }) := by
      rw [Lists.popDep, hpop, ← hdata]
      rfl
    have hdne := hne d.2 mem_cons_self
    have h₁ : Refines { s with depList := header, live := s.live.erase d.1 } w lb la ds := by
      refine ⟨h.resources, h.before, h.after, hrest, ?_, ?_, h.pessimistic⟩
      · intro c hc
        have hcd : c.1 ≠ d.1 := by
          rcases mem_append.mp hc with hc | hc
          · exact h.apart c hc d mem_cons_self
          · exact fun heq => hnodup.1 (mem_map.mpr ⟨c, hc, heq⟩)
        refine (mem_erase_of_ne hcd).mpr (h.live c ?_)
        rcases mem_append.mp hc with hc | hc
        · exact mem_append_left _ hc
        · exact mem_append_right _ (mem_cons_of_mem _ hc)
      · exact fun c hc c' hc' => h.apart c hc c' (mem_cons_of_mem _ hc')
    obtain ⟨lb₁, la₁, h₂⟩ := h₁.addDependency pool hdne
    have hcurrent := (Walk.added (fun _ => 0) hdne).current
    obtain ⟨s', lb', la', hrun, h₃⟩ := ih h₂ (n := n) (by omega) fun d' hd' => by
      rw [hcurrent]
      exact hne d' (mem_cons_of_mem _ hd')
    refine ⟨s', lb', la', ?_, h₃⟩
    rw [Lists.addAll, hpopped]
    exact hrun

/-- **The outer loop over the cells is the walk.** -/
theorem Refines.define (h : Refines s w lb la []) (pool : ListPool) (g : ResourceGraph) (n : Nat) :
    match g.walk n w with
    | none => Lists.define pool g n s = none
    | some w' => ∃ s' lb' la', Lists.define pool g n s = some s' ∧ Refines s' w' lb' la' [] := by
  induction n generalizing s w lb la with
  | zero => rfl
  | succ n ih =>
    have hdata : (s.cells s.it1).data = w.current := by
      have hseg := (segment_append.mp h.resources.segment).2.1
      exact congrArg Cell.data hseg
    obtain ⟨ds, hds, hmap⟩ := h.collect pool (g.dependencies w.current)
    rw [map_nil, ← depList_eq] at hmap
    have hself : ∀ d ∈ ds.map (·.2), w.current ≠ d := by
      intro d hd heq
      rw [hmap, ← heq] at hd
      exact Nat.lt_irrefl _ (g.rank_lt hd)
    obtain ⟨s₁, lb₁, la₁, hrun, h₁⟩ := hds.addAll pool (length_le_live hds.deps.nodup
      fun c hc => hds.live c (mem_append_right _ hc)) hself
    rw [hmap] at h₁
    rw [ResourceGraph.walk, Lists.define]
    rw [hdata, hrun]
    generalize hv : (g.depList w.current).foldl Walk.addDependency w = v at h₁ ⊢
    have hnext : (s₁.cells s₁.it1).next = start none la₁ := by
      have hseg := (segment_append.mp h₁.resources.segment).2.1
      exact congrArg Cell.next hseg
    rw [Option.bind_some, hnext]
    have hafter := h₁.after
    cases la₁ with
    | nil =>
      rw [← hafter]
      exact ⟨s₁, lb₁, [], rfl, h₁⟩
    | cons c la₁ =>
      rw [← hafter]
      have hlist : lb₁ ++ [(s₁.it1, v.current)] ++ (c.1, c.2) :: la₁ =
          lb₁ ++ (s₁.it1, v.current) :: c :: la₁ := by simp
      have hnext : Refines { s₁ with it1 := c.1 } ⟨v.before ++ [v.current], c.2, la₁.map (·.2),
          v.pessimisticLocking⟩ (lb₁ ++ [(s₁.it1, v.current)]) la₁ [] := by
        refine ⟨?_, by simp [h₁.before], rfl, h₁.deps, ?_, ?_, h₁.pessimistic⟩
        · rw [hlist]
          exact h₁.resources
        · rw [hlist]
          exact h₁.live
        · rw [hlist]
          exact h₁.apart
      exact ih hnext

end

/-! ## The order -/

section
variable {w : Walk} {ptr : ResourceHandle}

/-- The list after a dependency has been added. -/
theorem Walk.addDependency_list (hne : w.current ≠ ptr) :
    (w.addDependency ptr).list =
      if ptr ∈ w.list.dropLast then w.list.erase ptr ++ [ptr] else w.list ++ [ptr] := by
  have hdrop : w.list.dropLast = w.before ++ (w.current :: w.after).dropLast :=
    dropLast_append_cons
  rw [hdrop, Walk.addDependency]
  by_cases hb : ptr ∈ w.before
  · rw [if_pos hb, if_pos (mem_append_left _ hb)]
    simp [Walk.list, erase_append_left _ hb]
  · rw [if_neg hb, if_neg hne]
    have herase : w.list.erase ptr = w.before ++ w.current :: w.after.erase ptr := by
      rw [Walk.list, erase_append_right _ hb, erase_cons_tail (by simpa using hne)]
    by_cases ha : ptr ∈ w.after.dropLast
    · have hin : ptr ∈ (w.current :: w.after).dropLast := by
        cases hw : w.after with
        | nil => rw [hw] at ha; cases ha
        | cons x after =>
          rw [hw] at ha
          exact mem_cons_of_mem _ ha
      rw [if_pos ha, if_pos (mem_append_right _ hin), herase]
      simp [Walk.list]
    · have hout : ptr ∉ (w.current :: w.after).dropLast := by
        cases hw : w.after with
        | nil => exact not_mem_nil
        | cons x after =>
          rw [hw] at ha
          exact fun hin => (mem_cons.mp hin).elim (fun heq => hne heq.symm) ha
      rw [if_neg ha, if_neg fun hin => (mem_append.mp hin).elim hb hout]
      simp [Walk.list]

/-- A list stays without duplicates exactly as long as what is added is not its last element. -/
theorem Walk.nodup_add_iff (hne : w.current ≠ ptr) :
    (w.addDependency ptr).list.Nodup ↔ w.list.Nodup ∧ w.list.getLast? ≠ some ptr := by
  rw [Walk.addDependency_list hne]
  have hcons : w.list ≠ [] := by simp [Walk.list]
  have hsplit := dropLast_concat_getLast hcons
  have hlast : w.list.getLast? = some (w.list.getLast hcons) := getLast?_eq_some_getLast hcons
  by_cases hin : ptr ∈ w.list.dropLast
  · rw [if_pos hin]
    have hperm : (w.list.erase ptr ++ [ptr]).Perm w.list := by
      refine (perm_append_singleton ..).trans ?_
      exact (perm_cons_erase ((dropLast_sublist _).subset hin)).symm
    rw [hperm.nodup_iff, hlast]
    refine (and_iff_left_of_imp fun hnodup heq => ?_).symm
    rw [← hsplit, nodup_append] at hnodup
    exact hnodup.2.2 ptr hin ptr (by rw [Option.some.inj heq]; exact mem_cons_self) rfl
  · rw [if_neg hin, nodup_append, hlast]
    constructor
    · rintro ⟨hnodup, -, hdisj⟩
      refine ⟨hnodup, fun heq => ?_⟩
      exact hdisj ptr (Option.some.inj heq ▸ getLast_mem hcons) ptr mem_cons_self rfl
    · rintro ⟨hnodup, hne⟩
      refine ⟨hnodup, pairwise_singleton .., fun x hx y hy heq => ?_⟩
      obtain rfl : y = ptr := mem_singleton.mp hy
      rw [← hsplit, heq] at hx
      rcases mem_append.mp hx with hx | hx
      · exact hin hx
      · exact hne (congrArg some (mem_singleton.mp hx).symm)

theorem Walk.getLast?_add (hne : w.current ≠ ptr) :
    (w.addDependency ptr).list.getLast? = some ptr := by
  rw [Walk.addDependency_list hne]
  split <;> exact getLast?_concat ..

/-- What lies in front of the walk stays there, and what is added does so. -/
theorem Walk.mem_after_add (hne : w.current ≠ ptr) {x : ResourceHandle}
    (hx : x ∈ w.after ∨ x = ptr) : x ∈ (w.addDependency ptr).after := by
  rw [Walk.addDependency, if_neg hne]
  split
  · exact mem_append.mpr (hx.imp_right mem_singleton.mpr)
  · split
    · refine mem_append.mpr ?_
      by_cases heq : x = ptr
      · exact .inr (mem_singleton.mpr heq)
      · exact .inl ((mem_erase_of_ne heq).mpr (hx.resolve_right heq))
    · exact mem_append.mpr (hx.imp_right mem_singleton.mpr)

theorem Walk.before_add (hne : w.current ≠ ptr) :
    (w.addDependency ptr).before.Sublist w.before := by
  rw [Walk.addDependency, if_neg hne]
  split
  · exact erase_sublist
  · split <;> exact .refl _

/-- The dependencies of a resource, all added. -/
theorem Walk.addAll_spec {ds : List ResourceHandle} (hne : ∀ d ∈ ds, w.current ≠ d)
    (hds : ds.Nodup) :
    ((ds.foldl addDependency w).list.Nodup ↔
        w.list.Nodup ∧ ∀ d, ds.head? = some d → w.list.getLast? ≠ some d) ∧
      (∀ x, x ∈ w.after ∨ x ∈ ds → x ∈ (ds.foldl addDependency w).after) ∧
      (ds.foldl addDependency w).before.Sublist w.before := by
  induction ds generalizing w with
  | nil =>
    refine ⟨(and_iff_left nofun).symm, fun x hx => ?_, .refl _⟩
    exact hx.resolve_right not_mem_nil
  | cons d ds ih =>
    obtain ⟨hd, hds⟩ := nodup_cons.mp hds
    have hdne := hne d mem_cons_self
    have hcurrent := (Walk.added (fun _ => 0) hdne).current
    obtain ⟨hnodup, hafter, hbefore⟩ := ih (w := w.addDependency d)
      (fun d' hd' => hcurrent ▸ hne d' (mem_cons_of_mem _ hd')) hds
    rw [foldl_cons]
    refine ⟨?_, fun x hx => hafter x ?_, hbefore.trans (Walk.before_add hdne)⟩
    · rw [hnodup, Walk.nodup_add_iff hdne, Walk.getLast?_add hdne]
      constructor
      · rintro ⟨⟨hw, hlast⟩, -⟩
        exact ⟨hw, fun d' hd' => Option.some.inj hd' ▸ hlast⟩
      · rintro ⟨hw, hlast⟩
        refine ⟨⟨hw, hlast d rfl⟩, fun d' hd' heq => ?_⟩
        exact hd (Option.some.inj heq ▸ mem_of_head? hd')
    · rcases hx with hx | hx
      · exact .inl (Walk.mem_after_add hdne (.inl hx))
      · rcases mem_cons.mp hx with heq | hx
        · exact .inl (Walk.mem_after_add hdne (.inr heq))
        · exact .inr hx

end

variable {list : List ResourceHandle}

theorem addNew_nodup (h : list.Nodup)
    (dependency : Option ResourceHandle) : (addNew list dependency).Nodup := by
  cases dependency with
  | none => exact h
  | some d =>
    rw [addNew]
    split
    · exact h
    · rename_i hd
      refine nodup_append.mpr ⟨h, pairwise_singleton .., fun x hx y hy heq => hd ?_⟩
      rw [← mem_singleton.mp hy, ← heq]
      exact hx

theorem depList_nodup (g : ResourceGraph) (r : ResourceHandle) : (g.depList r).Nodup := by
  rw [depList_eq]
  exact foldlRecOn _ addNew .nil fun _ h d _ => addNew_nodup h d

/-- **When the list stays without duplicates**: in none of the steps is the first dependency of the
current resource the last element of the list. -/
def ResourceGraph.NeverLast (g : ResourceGraph) : Nat → Walk → Prop
  | 0, _ => True
  | n + 1, w =>
    (∀ d, (g.depList w.current).head? = some d → w.list.getLast? ≠ some d) ∧
      let w' := (g.depList w.current).foldl Walk.addDependency w
      match w'.after with
      | [] => True
      | next :: after =>
        g.NeverLast n { w' with before := w'.before ++ [w'.current], current := next, after }

section
variable {g : ResourceGraph} {w w' : Walk} {n : Nat}

theorem ResourceGraph.current_ne (g : ResourceGraph) (r : ResourceHandle) :
    ∀ d ∈ g.depList r, r ≠ d := by
  intro d hd heq
  rw [← heq] at hd
  exact Nat.lt_irrefl _ (g.rank_lt hd)

/-- **The walk ends without duplicates exactly when it starts so and never meets the last
element.** -/
theorem walk_nodup_iff (hrun : g.walk n w = some w') :
    w'.list.Nodup ↔ w.list.Nodup ∧ ∀ k, g.NeverLast k w := by
  induction n generalizing w with
  | zero => cases hrun
  | succ n ih =>
    obtain ⟨hnodup, -, -⟩ := Walk.addAll_spec (g.current_ne w.current) (depList_nodup g w.current)
    rw [ResourceGraph.walk] at hrun
    generalize hv : (g.depList w.current).foldl Walk.addDependency w = v at hrun hnodup
    cases hafter : v.after with
    | nil =>
      rw [hafter] at hrun
      cases hrun
      rw [hnodup]
      refine and_congr_right fun _ => ⟨fun hlast k => ?_, fun hall => (hall 1).1⟩
      cases k with
      | zero => trivial
      | succ k =>
        refine ⟨hlast, ?_⟩
        dsimp only
        rw [hv, hafter]
        trivial
    | cons next after =>
      rw [hafter] at hrun
      have hlist : ({ v with before := v.before ++ [v.current], current := next, after } :
          Walk).list = v.list := by simp [Walk.list, hafter]
      rw [ih hrun, hlist, hnodup, and_assoc]
      refine and_congr_right fun _ => ⟨fun hnever k => ?_, fun hall => ⟨(hall 1).1, fun k => ?_⟩⟩
      · obtain ⟨hlast, hall⟩ := hnever
        cases k with
        | zero => trivial
        | succ k =>
          refine ⟨hlast, ?_⟩
          dsimp only
          rw [hv, hafter]
          exact hall k
      · have hstep := (hall (k + 1)).2
        dsimp only at hstep
        rw [hv, hafter] at hstep
        exact hstep

/-- What has been passed is in the right order, and comes so out of the walk. -/
theorem walk_ordered (hrun : g.walk n w = some w') (hw' : w'.list.Nodup)
    (hbefore : w.before.Pairwise fun a b => a ∉ g.depList b) :
    w'.list.Pairwise fun a b => a ∉ g.depList b := by
  induction n generalizing w with
  | zero => cases hrun
  | succ n ih =>
    obtain ⟨hnodup, hmem, hsub⟩ :=
      Walk.addAll_spec (g.current_ne w.current) (depList_nodup g w.current)
    have hcurrent := (Walk.added_all (fun _ => 0) (g.current_ne w.current)).1
    have hall := (walk_nodup_iff hrun).mp hw'
    have hvnodup := hnodup.mpr ⟨hall.1, (hall.2 1).1⟩
    rw [ResourceGraph.walk] at hrun
    generalize hv : (g.depList w.current).foldl Walk.addDependency w = v at *
    -- the current resource is in front of its dependencies
    have hpassed : (v.before ++ [v.current]).Pairwise fun a b => a ∉ g.depList b := by
      refine pairwise_append.mpr ⟨hbefore.sublist hsub, pairwise_singleton .., ?_⟩
      intro a ha b hb hdep
      rw [mem_singleton.mp hb, hcurrent] at hdep
      rw [Walk.list, nodup_append] at hvnodup
      exact hvnodup.2.2 a ha a (mem_cons_of_mem _ (hmem a (.inr hdep))) rfl
    cases hafter : v.after with
    | nil =>
      rw [hafter] at hrun
      cases hrun
      rw [Walk.list, hafter]
      exact hpassed
    | cons next after =>
      rw [hafter] at hrun
      exact ih hrun hpassed

end

/-- Every resource is in front of its dependencies. -/
def ResourceGraph.TopologicalOrder (g : ResourceGraph) (list : List ResourceHandle) : Prop :=
  ∀ (i j : Nat) (r d : ResourceHandle), list[i]? = some r → list[j]? = some d →
    d ∈ g.depList r → i < j

theorem topologicalOrder_of_pairwise {g : ResourceGraph}
    (h : list.Pairwise fun a b => a ∉ g.depList b) : g.TopologicalOrder list := by
  intro i j r d hi hj hd
  obtain ⟨hilt, rfl⟩ := List.getElem?_eq_some_iff.mp hi
  obtain ⟨hjlt, rfl⟩ := List.getElem?_eq_some_iff.mp hj
  rcases Nat.lt_trichotomy i j with hlt | rfl | hlt
  · exact hlt
  · exact absurd (g.rank_lt hd) (Nat.lt_irrefl _)
  · exact absurd hd (pairwise_iff_getElem.mp h j i hjlt hilt hlt)

/-- **What the definition is to leave**: a linked list with its tail at its last element, with each
of the resources that can be reached from the given ones, once, in topological order. -/
structure Sorted (g : ResourceGraph) (resources : List ResourceHandle) (s : Lists)
    (list : List (Nat × ResourceHandle)) : Prop where
  linked : Represents s.cells s.resourceList list
  once : (list.map (·.2)).Nodup
  reachable : ∀ x, x ∈ list.map (·.2) ↔ Reachable g.depList resources x
  order : g.TopologicalOrder (list.map (·.2))

/-- The definition ends, with the list that it is to leave. -/
def DefinesSorted (pool : ListPool) (g : ResourceGraph) (cells : Nat → Cell ResourceHandle)
    (live : List Nat) (resources : List ResourceHandle) : Prop :=
  ∃ n s list, transactionResourcesAvailable pool g n cells live resources = some s ∧
    Sorted g resources s list

/-- The given resources are pushed onto the list. -/
theorem given_spec (pool : ListPool) (resources : List ResourceHandle) {s : Lists}
    {l : List (Nat × ResourceHandle)} (hl : Represents s.cells s.resourceList l)
    (hlive : ∀ c ∈ l, c.1 ∈ s.live) (hdep : s.depList = .empty)
    (hpess : s.pessimisticLocking = false) :
    ∃ l', Represents (resources.foldl (Lists.pushResource pool) s).cells
        (resources.foldl (Lists.pushResource pool) s).resourceList l' ∧
      (∀ c ∈ l', c.1 ∈ (resources.foldl (Lists.pushResource pool) s).live) ∧
      l'.map (·.2) = l.map (·.2) ++ resources ∧
      (resources.foldl (Lists.pushResource pool) s).depList = .empty ∧
      (resources.foldl (Lists.pushResource pool) s).pessimisticLocking = false := by
  induction resources generalizing s l with
  | nil => exact ⟨l, hl, hlive, (append_nil _).symm, hdep, hpess⟩
  | cons r rs ih =>
    have hfresh : pool.alloc s.live ∉ l.map (·.1) := by
      intro hin
      obtain ⟨c, hc, heq⟩ := mem_map.mp hin
      exact alloc_ne (hlive c hc) heq
    obtain ⟨l', hl', hlive', hmap, hdep', hpess'⟩ := ih (s := s.pushResource pool r)
      (hl.pushBack hfresh) (fun c hc => by
        show c.1 ∈ pool.alloc s.live :: s.live
        rcases mem_append.mp hc with hc | hc
        · exact mem_cons_of_mem _ (hlive c hc)
        · rw [mem_singleton.mp hc]
          exact mem_cons_self) hdep hpess
    refine ⟨l', hl', hlive', ?_, hdep', hpess'⟩
    rw [hmap, map_append, append_assoc]
    rfl

/-- What the definition comes to, in terms of the walk. -/
theorem transactionResourcesAvailable_eq (pool : ListPool) (g : ResourceGraph) (n : Nat)
    (cells : Nat → Cell ResourceHandle) (live : List Nat) (r : ResourceHandle)
    (rs : List ResourceHandle) :
    match g.walk n ⟨[], r, rs, false⟩ with
    | none => transactionResourcesAvailable pool g n cells live (r :: rs) = none
    | some w => ∃ s lb la, transactionResourcesAvailable pool g n cells live (r :: rs) = some s ∧
        Refines s w lb la [] := by
  obtain ⟨l, hl, hlive, hmap, hdep, hpess⟩ := given_spec pool (r :: rs)
    (s := ⟨cells, live, .empty, .empty, 0, false⟩) .empty nofun rfl rfl
  have hrun : ∀ it1, ((r :: rs).foldl (Lists.pushResource pool)
      ⟨cells, live, .empty, .empty, 0, false⟩).resourceList.head = some it1 →
      transactionResourcesAvailable pool g n cells live (r :: rs) =
        Lists.define pool g n { (r :: rs).foldl (Lists.pushResource pool)
          ⟨cells, live, .empty, .empty, 0, false⟩ with it1 := it1 } := by
    intro it1 hit1
    rw [transactionResourcesAvailable]
    dsimp only
    rw [hit1]
  generalize (r :: rs).foldl (Lists.pushResource pool) ⟨cells, live, .empty, .empty, 0, false⟩ = s
    at *
  cases l with
  | nil => cases hmap
  | cons c l =>
    obtain ⟨hr, hrs⟩ := cons_eq_cons.mp hmap
    have hrefines : Refines { s with it1 := c.1 } ⟨[], r, rs, false⟩ [] l [] := by
      refine ⟨?_, rfl, hrs, ?_, ?_, nofun, hpess⟩
      · rw [← show c.2 = r from hr]
        exact hl
      · show Represents s.cells s.depList []
        rw [hdep]
        exact .empty
      · intro d hd
        rw [append_nil] at hd
        rcases mem_cons.mp hd with rfl | hd
        · exact hlive c mem_cons_self
        · exact hlive d (mem_cons_of_mem _ hd)
    rw [hrun c.1 hl.head]
    exact hrefines.define pool g n

/-- **The list is sorted as it is to be exactly when the walk never meets the last element.** -/
theorem definesSorted_iff (pool : ListPool) (g : ResourceGraph) (cells : Nat → Cell ResourceHandle)
    (live : List Nat) (r : ResourceHandle) (rs : List ResourceHandle)
    (hdistinct : (r :: rs).Nodup) :
    DefinesSorted pool g cells live (r :: rs) ↔ ∀ n, g.NeverLast n ⟨[], r, rs, false⟩ := by
  have hdata : ∀ {s w lb la}, Refines s w lb la [] →
      (lb ++ (s.it1, w.current) :: la).map (·.2) = w.list := by
    intro s w lb la h
    rw [map_append, map_cons, h.before, h.after]
    rfl
  constructor
  · rintro ⟨n, s, list, hrun, hsorted⟩
    have heq := transactionResourcesAvailable_eq pool g n cells live r rs
    cases hwalk : g.walk n ⟨[], r, rs, false⟩ with
    | none =>
      rw [hwalk] at heq
      cases hrun.symm.trans heq
    | some w =>
      rw [hwalk] at heq
      obtain ⟨s', lb, la, hrun', href⟩ := heq
      cases hrun.symm.trans hrun'
      have hsame := hsorted.linked.eq href.resources
      have honce := hsorted.once
      rw [hsame, hdata href] at honce
      exact ((walk_nodup_iff hwalk).mp honce).2
  · intro hlast
    have hstart : Walk.Sorted g (r :: rs) ⟨[], r, rs, false⟩ :=
      ⟨fun x hx => hx, fun x hx => .start hx, fun x hx => by cases hx⟩
    obtain ⟨w, hwalk, hreach⟩ := g.walk_sorted (n := g.steps (r :: rs)) hstart (Nat.le_refl _)
    have heq := transactionResourcesAvailable_eq pool g (g.steps (r :: rs)) cells live r rs
    rw [hwalk] at heq
    obtain ⟨s, lb, la, hrun, href⟩ := heq
    have hnodup := (walk_nodup_iff hwalk).mpr ⟨hdistinct, hlast⟩
    refine ⟨_, s, _, hrun, href.resources, ?_, ?_, ?_⟩
    · rw [hdata href]
      exact hnodup
    · rw [hdata href]
      exact hreach
    · rw [hdata href]
      exact topologicalOrder_of_pairwise (walk_ordered hwalk hnodup .nil)

theorem le_foldr_max {live : List Nat} {a : Nat} (ha : a ∈ live) : a ≤ live.foldr max 0 := by
  induction live with
  | nil => cases ha
  | cons b live ih =>
    rw [foldr_cons]
    rcases mem_cons.mp ha with rfl | ha
    · exact Nat.le_max_left ..
    · exact Nat.le_trans (ih ha) (Nat.le_max_right ..)

/-- A pool that hands out the cell behind all those in use. -/
def nextCell : ListPool where
  alloc live := live.foldr max 0 + 1
  fresh _ hin := Nat.not_succ_le_self _ (le_foldr_max hin)

/-- A diamond with two bottoms: one depends on two and three, which both depend on four and five. -/
def twoBottoms : ResourceGraph where
  dependencies r := match r with
    | 1 => [some 2, some 3]
    | 2 | 3 => [some 4, some 5]
    | _ => []
  rank r := 4 - r
  acyclic {r d} h := by
    split at h
    · obtain rfl | rfl : d = 2 ∨ d = 3 := by simpa using h
      · decide
      · decide
    · obtain rfl | rfl : d = 4 ∨ d = 5 := by simpa using h
      · decide
      · decide
    · obtain rfl | rfl : d = 4 ∨ d = 5 := by simpa using h
      · decide
      · decide
    · cases h

/-- Given a bottom and the top, the bottom moves behind what depends on it. -/
theorem definesSorted_iff_two : DefinesSorted nextCell twoBottoms (fun _ => ⟨0, none⟩) [] [4, 1] :=
  (definesSorted_iff nextCell twoBottoms (fun _ => ⟨0, none⟩) [] 4 [1] (by decide)).mpr
    ((walk_nodup_iff (show twoBottoms.walk 6 ⟨[], 4, [1], false⟩ = some _ from rfl)).mp
      (by decide)).2

/-- **The smallest diamond is listed with its bottom twice.** One depends on two and three, and when
three is current, four, which both depend on, is the last element: it is pushed again. -/
theorem diamond_not_sorted :
    ¬ DefinesSorted nextCell diamondGraph (fun _ => ⟨0, none⟩) [] [1] := by
  rw [definesSorted_iff nextCell diamondGraph (fun _ => ⟨0, none⟩) [] 1 [] (by decide)]
  intro hlast
  obtain ⟨-, -, hthree, -⟩ := hlast 3
  exact hthree 4 rfl rfl

end Npa
