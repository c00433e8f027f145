import Mathlib.Logic.Function.Basic
import Mathlib.Algebra.GroupWithZero.Nat

/-!
# Linked lists in memory

The cells of a singly linked list lie at addresses of their own, and a header points to the first
one and to the last one. `Segment` says that a list of addresses with data is linked up in the
cells, and `Represents` that a header stands for such a list.
-/

namespace Lib.LinkedList

open List Function

variable {α : Type _}

/-- A cell: the data, and the address of the next cell. -/
structure Cell (α : Type _) where
  data : α
  next : Option Nat

/-- The first and the last cell of a list. -/
structure Header where
  head : Option Nat
  tail : Option Nat

/-- The header of the empty list. -/
def Header.empty : Header := ⟨none, none⟩

/-- Where a list starts that ends at `e`. -/
def start (e : Option Nat) : List (Nat × α) → Option Nat
  | [] => e
  | c :: _ => some c.1

/-- The cells hold the list, whose last cell points to `e`. -/
def Segment (m : Nat → Cell α) (e : Option Nat) : List (Nat × α) → Prop
  | [] => True
  | c :: l => m c.1 = ⟨c.2, start e l⟩ ∧ Segment m e l

/-- A header stands for a list, no two cells of which are at the same address. -/
structure Represents (m : Nat → Cell α) (h : Header) (l : List (Nat × α)) : Prop where
  segment : Segment m none l
  nodup : (l.map (·.1)).Nodup
  head : h.head = start none l
  tail : h.tail = l.getLast?.map (·.1)

/-- A cell with the data `x` is put behind the last one, at the address `a`. -/
def pushBack (m : Nat → Cell α) (h : Header) (a : Nat) (x : α) : (Nat → Cell α) × Header :=
  let m := update m a ⟨x, none⟩
  match h.tail with
  | some t => (update m t { m t with next := some a }, { h with tail := some a })
  | none => (m, ⟨some a, some a⟩)

/-- The first cell is taken off the list: its address, and the header that is left. -/
def popFront (m : Nat → Cell α) (h : Header) : Option (Nat × Header) :=
  h.head.map fun a => (a, if (m a).next = none then .empty else { h with head := (m a).next })

/-- The loop that looks for data, past so many cells at most. -/
def find [DecidableEq α] (m : Nat → Cell α) (x : α) : Nat → Option Nat → Bool
  | 0, _ => false
  | _ + 1, none => false
  | n + 1, some a => if (m a).data = x then true else find m x n (m a).next

section
variable {m m' : Nat → Cell α} {h : Header} {l l' : List (Nat × α)} {e : Option Nat} {a : Nat}
  {x : α} {c : Nat × α} {p q : List (Nat × α)}

theorem start_append : start e (l ++ l') = start (start e l') l := by
  cases l <;> rfl

theorem segment_append :
    Segment m e (l ++ l') ↔ Segment m (start e l') l ∧ Segment m e l' := by
  induction l with
  | nil => exact (iff_of_eq (true_and _)).symm
  | cons c l ih =>
    show _ = Cell.mk _ (start e (l ++ l')) ∧ Segment m e (l ++ l') ↔ (_ = _ ∧ _) ∧ _
    rw [ih, start_append, and_assoc]

/-- Only the cells of the list matter. -/
theorem Segment.congr (hs : Segment m e l) (heq : ∀ c ∈ l, m' c.1 = m c.1) : Segment m' e l := by
  induction l with
  | nil => trivial
  | cons c l ih =>
    exact ⟨(heq c mem_cons_self).trans hs.1,
      ih hs.2 fun d hd => heq d (mem_cons_of_mem _ hd)⟩

theorem Segment.update (hs : Segment m e l) (ha : a ∉ l.map (·.1)) (c : Cell α) :
    Segment (update m a c) e l :=
  hs.congr fun d hd => update_of_ne
    (fun heq : d.1 = a => ha (mem_map.mpr ⟨d, hd, heq⟩)) ..

theorem Represents.empty : Represents m .empty ([] : List (Nat × α)) := ⟨trivial, .nil, rfl, rfl⟩

theorem Represents.congr (hh : Represents m h l) (heq : ∀ c ∈ l, m' c.1 = m c.1) :
    Represents m' h l :=
  ⟨hh.segment.congr heq, hh.nodup, hh.head, hh.tail⟩

theorem pushBack_of_tail {t : Nat} (ht : h.tail = some t) :
    pushBack m h a x =
      (update (update m a ⟨x, none⟩) t
        ⟨(update m a ⟨x, none⟩ t).data, some a⟩, { h with tail := some a }) := by
  rw [pushBack, ht]

/-- **A cell is put behind the last one.** -/
theorem Represents.pushBack (hh : Represents m h l) (ha : a ∉ l.map (·.1)) :
    Represents (LinkedList.pushBack m h a x).1 (LinkedList.pushBack m h a x).2 (l ++ [(a, x)]) := by
  have hnodup : ((l ++ [(a, x)]).map (·.1)).Nodup := by
    rw [map_append, nodup_append]
    refine ⟨hh.nodup, pairwise_singleton .., fun b hb b' hb' heq => ha ?_⟩
    obtain rfl : b' = a := mem_singleton.mp hb'
    exact heq ▸ hb
  rcases eq_nil_or_concat l with rfl | ⟨l, ⟨t, y⟩, rfl⟩
  · have htail : h.tail = none := hh.tail
    rw [LinkedList.pushBack, htail]
    exact ⟨⟨update_self .., trivial⟩, hnodup, rfl, rfl⟩
  · rw [concat_eq_append] at *
    have htail : h.tail = some t := by rw [hh.tail, getLast?_append]; rfl
    obtain ⟨hl, hlast⟩ := segment_append.mp hh.segment
    have hne : t ≠ a := by
      rintro rfl
      exact ha (by simp)
    have hta : t ∉ l.map (·.1) := by
      have hn := hh.nodup
      rw [map_append, nodup_append] at hn
      exact fun hin => hn.2.2 t hin t mem_cons_self rfl
    rw [pushBack_of_tail htail]
    refine ⟨?_, hnodup, ?_, ?_⟩
    · rw [append_assoc, segment_append]
      refine ⟨(hl.update (fun hin => ha ?_) _).update hta _, ?_, ?_, trivial⟩
      · rw [map_append]
        exact mem_append_left _ hin
      · show update _ t _ t = _
        rw [update_self, update_of_ne hne, hlast.1]
        rfl
      · show update _ t _ a = _
        rw [update_of_ne hne.symm, update_self]
        rfl
    · rw [hh.head, start_append, start_append, start_append]
      rfl
    · rw [getLast?_append]
      rfl

/-- The cells that pushing changes. -/
theorem pushBack_of_ne {b : Nat} (hb : b ≠ a) (htail : h.tail ≠ some b) :
    (pushBack m h a x).1 b = m b := by
  cases ht : h.tail with
  | none =>
    rw [pushBack, ht]
    exact update_of_ne hb ..
  | some t =>
    rw [ht] at htail
    rw [pushBack_of_tail ht]
    show update _ _ _ _ = _
    rw [update_of_ne fun heq => htail (congrArg some heq.symm),
      update_of_ne hb]

/-- **The first cell is taken off.** -/
theorem Represents.popFront (hh : Represents m h (c :: l)) :
    ∃ h', LinkedList.popFront m h = some (c.1, h') ∧ (m c.1).data = c.2 ∧ Represents m h' l := by
  have hhead : h.head = some c.1 := hh.head
  obtain ⟨hc, hl⟩ := hh.segment
  have hnodup : (l.map (·.1)).Nodup := (nodup_cons.mp hh.nodup).2
  refine ⟨_, by rw [LinkedList.popFront, hhead]; rfl, by rw [hc], ?_⟩
  rw [hc]
  cases l with
  | nil => exact .empty
  | cons d l =>
    refine ⟨hl, hnodup, rfl, ?_⟩
    show h.tail = _
    rw [hh.tail, getLast?_cons_cons]

/-- The tail of a list is one of its cells. -/
theorem Represents.tail_mem (hh : Represents m h l) {t : Nat} (ht : h.tail = some t) :
    ∃ c ∈ l, c.1 = t := by
  rw [hh.tail] at ht
  obtain ⟨c, hc, rfl⟩ := Option.map_eq_some_iff.mp ht
  exact ⟨c, mem_of_getLast? hc, rfl⟩

theorem popFront_of_empty (hh : Represents m h ([] : List (Nat × α))) :
    LinkedList.popFront m h = none := by
  rw [LinkedList.popFront, show h.head = none from hh.head]
  rfl

/-- A start of a list stands for one list. -/
theorem Segment.eq (hs : Segment m none l) (hs' : Segment m none l')
    (hstart : start none l = start none l') : l = l' := by
  induction l generalizing l' with
  | nil =>
    cases l' with
    | nil => rfl
    | cons c' l' => cases hstart
  | cons c l ih =>
    cases l' with
    | nil => cases hstart
    | cons c' l' =>
      obtain ⟨a, x⟩ := c
      obtain ⟨a', x'⟩ := c'
      obtain rfl : a = a' := Option.some.inj hstart
      obtain ⟨hc, hl⟩ := hs
      obtain ⟨hc', hl'⟩ := hs'
      have hsame : Cell.mk x (start none l) = Cell.mk x' (start none l') := hc.symm.trans hc'
      injection hsame with hx hnext
      rw [hx, ih hl hl' hnext]

theorem Represents.eq (hh : Represents m h l) (hh' : Represents m h l') : l = l' :=
  hh.segment.eq hh'.segment (hh.head.symm.trans hh'.head)

/-- A chain that comes to an end does not come by a cell twice. -/
theorem Segment.nodup (hs : Segment m none l) : (l.map (·.1)).Nodup := by
  induction l with
  | nil => exact .nil
  | cons c l ih =>
    refine nodup_cons.mpr ⟨fun hmem => ?_, ih hs.2⟩
    obtain ⟨d, hd, heq⟩ := mem_map.mp hmem
    obtain ⟨p, q, rfl⟩ := append_of_mem hd
    have hrest := (segment_append.mp hs.2).2
    have hsame : c :: (p ++ d :: q) = d :: q := hs.eq hrest (congrArg some heq.symm)
    have hlength := congrArg List.length hsame
    rw [length_cons, length_append] at hlength
    omega

theorem Segment.data_of_mem (hs : Segment m e l) (hc : c ∈ l) :
    (m c.1).data = c.2 := by
  induction l with
  | nil => cases hc
  | cons d l ih =>
    rcases mem_cons.mp hc with rfl | hc
    · exact congrArg Cell.data hs.1
    · exact ih hs.2 hc

/-- Where the links stay and each cell has new data, the list has it. -/
theorem Segment.map_data (hs : Segment m e l) {g : Nat × α → α}
    (hcells : ∀ c ∈ l, m' c.1 = ⟨g c, (m c.1).next⟩) :
    Segment m' e (l.map fun c => (c.1, g c)) := by
  induction l with
  | nil => trivial
  | cons c l ih =>
    have hstart : start e (l.map fun c => (c.1, g c)) = start e l := by
      cases l <;> rfl
    refine ⟨?_, ih hs.2 fun d hd => hcells d (mem_cons_of_mem _ hd)⟩
    show m' c.1 = ⟨g c, start e (l.map fun c => (c.1, g c))⟩
    rw [hstart, hcells c mem_cons_self, hs.1]

/-- There is one list from a cell to another. -/
theorem Segment.eq_before {z : Nat} (hs : Segment m (some z) l) (hs' : Segment m (some z) l')
    (hz : z ∉ l.map (·.1)) (hz' : z ∉ l'.map (·.1))
    (hstart : start (some z) l = start (some z) l') :
    l = l' := by
  induction l generalizing l' with
  | nil =>
    cases l' with
    | nil => rfl
    | cons c' l' => exact absurd (Option.some.inj hstart ▸ mem_cons_self) hz'
  | cons c l ih =>
    cases l' with
    | nil => exact absurd (Option.some.inj hstart ▸ mem_cons_self) hz
    | cons c' l' =>
      obtain ⟨a, x⟩ := c
      obtain ⟨a', x'⟩ := c'
      obtain rfl : a = a' := Option.some.inj hstart
      obtain ⟨hc, hl⟩ := hs
      obtain ⟨hc', hl'⟩ := hs'
      have hsame : Cell.mk x (start (some z) l) = Cell.mk x' (start (some z) l') :=
        hc.symm.trans hc'
      injection hsame with hx hnext
      rw [hx, ih hl hl' (fun h => hz (mem_cons_of_mem _ h)) (fun h => hz' (mem_cons_of_mem _ h))
        hnext]

/-- Whether the data is on the list. -/
theorem Segment.find [DecidableEq α] (hs : Segment m none l) {n : Nat} (hn : l.length ≤ n) :
    LinkedList.find m x (n + 1) (start none l) = decide (x ∈ l.map (·.2)) := by
  induction l generalizing n with
  | nil => simp [start, LinkedList.find]
  | cons c l ih =>
    obtain ⟨hc, hl⟩ := hs
    obtain ⟨n, rfl⟩ : ∃ k, n = k + 1 := ⟨n - 1, by rw [length_cons] at hn; omega⟩
    rw [length_cons] at hn
    show LinkedList.find m x (n + 1 + 1) (some c.1) = _
    rw [LinkedList.find, hc]
    by_cases hx : c.2 = x
    · rw [if_pos hx]
      simp [hx]
    · rw [if_neg hx, ih hl (by omega)]
      simp [Ne.symm hx]

/-- **A cell is overwritten by the one behind it**, which is off the list then. -/
theorem Represents.shuffle {b : Nat} {y : α}
    (hh : Represents m h (p ++ (a, x) :: (b, y) :: q)) (hq : q ≠ []) :
    Represents (update m a (m b)) h (p ++ (a, y) :: q) := by
  obtain ⟨hp, ha, hb, hseg⟩ := segment_append.mp hh.segment
  have hn := hh.nodup
  rw [map_append, map_cons, map_cons, nodup_append] at hn
  obtain ⟨hnp, hnq, hdisj⟩ := hn
  have hap : a ∉ p.map (·.1) := fun hin => hdisj a hin a mem_cons_self rfl
  have hn2 := nodup_cons.mp hnq
  have haq : a ∉ q.map (·.1) := fun hin => hn2.1 (mem_cons_of_mem _ hin)
  refine ⟨?_, ?_, ?_, ?_⟩
  · rw [segment_append]
    refine ⟨hp.update hap _, ?_, hseg.update haq _⟩
    rw [update_self]
    exact hb
  · rw [map_append, map_cons, nodup_append]
    refine ⟨hnp, nodup_cons.mpr ⟨haq, (nodup_cons.mp hn2.2).2⟩, fun c hc d hd => ?_⟩
    rcases mem_cons.mp hd with rfl | hd
    · exact hdisj c hc _ mem_cons_self
    · exact hdisj c hc d (mem_cons_of_mem _ (mem_cons_of_mem _ hd))
  · rw [hh.head, start_append, start_append]
    rfl
  · rw [hh.tail]
    obtain ⟨last, rest, rfl⟩ := exists_cons_of_ne_nil hq
    simp [getLast?_append, getLast?_cons_cons]

/-- A cell in the middle: what it holds, and what is before it and behind it. -/
theorem Represents.middle (hh : Represents m h (p ++ c :: q)) :
    Segment m (some c.1) p ∧ m c.1 = ⟨c.2, start none q⟩ ∧ Segment m none q ∧
      c.1 ∉ p.map (·.1) ∧ c.1 ∉ q.map (·.1) := by
  obtain ⟨hp, hc, hq⟩ := segment_append.mp hh.segment
  have hn := hh.nodup
  rw [map_append, map_cons, nodup_append] at hn
  obtain ⟨-, hn, hdisj⟩ := hn
  refine ⟨hp, hc, hq, ?_, (nodup_cons.mp hn).1⟩
  intro hin
  exact hdisj c.1 hin c.1 mem_cons_self rfl

/-- **A cell is put in front of the first one**, of which there is one. -/
theorem Represents.pushFront (hh : Represents m h l) (hl : l ≠ []) (ha : a ∉ l.map (·.1)) :
    Represents (update m a ⟨x, h.head⟩) { h with head := some a } ((a, x) :: l) := by
  refine ⟨⟨?_, hh.segment.update ha _⟩, nodup_cons.mpr ⟨ha, hh.nodup⟩, rfl, ?_⟩
  · rw [update_self, hh.head]
  · obtain ⟨c, l, rfl⟩ := exists_cons_of_ne_nil hl
    rw [getLast?_cons_cons]
    exact hh.tail

/-- **A cell is put behind another one**, which is not the last one. -/
theorem Represents.insertBehind (hh : Represents m h (p ++ c :: q))
    (hq : q ≠ []) (ha : a ∉ (p ++ c :: q).map (·.1)) :
    Represents (update (update m a ⟨x, start none q⟩) c.1 ⟨c.2, some a⟩) h
      (p ++ c :: (a, x) :: q) := by
  obtain ⟨hp, hc, hseg, hcp, hcq⟩ := hh.middle
  simp only [map_append, map_cons, mem_append, mem_cons, not_or] at ha
  obtain ⟨hap, hac, haq⟩ := ha
  refine ⟨?_, ?_, ?_, ?_⟩
  · rw [segment_append]
    refine ⟨(hp.update hap _).update hcp _, ?_, ?_, (hseg.update haq _).update hcq _⟩
    · rw [update_self]
      rfl
    · rw [update_of_ne hac, update_self]
  · have hn := hh.nodup
    simp only [map_append, map_cons] at hn ⊢
    have hperm :
        (p.map (·.1) ++ c.1 :: a :: q.map (·.1)).Perm (a :: (p.map (·.1) ++ c.1 :: q.map (·.1))) :=
      (List.Perm.append_left _ (List.Perm.swap ..)).trans perm_middle
    refine hperm.nodup_iff.mpr (nodup_cons.mpr ⟨?_, hn⟩)
    simp only [mem_append, mem_cons, not_or]
    exact ⟨hap, hac, haq⟩
  · rw [hh.head, start_append, start_append]
    rfl
  · rw [hh.tail]
    obtain ⟨d, q, rfl⟩ := exists_cons_of_ne_nil hq
    simp [getLast?_append, getLast?_cons_cons]

/-- **The cell behind another one is taken out.** -/
theorem Represents.removeBehind {c d : Nat × α} (hh : Represents m h (p ++ c :: d :: q)) :
    Represents (update m c.1 ⟨c.2, start none q⟩)
      { h with tail := if q = [] then some c.1 else h.tail } (p ++ c :: q) := by
  obtain ⟨hp, hc, ⟨hd, hseg⟩, hcp, hcq⟩ := hh.middle
  refine ⟨?_, ?_, ?_, ?_⟩
  · rw [segment_append]
    refine ⟨hp.update hcp _, update_self .., hseg.update ?_ _⟩
    intro hin
    exact hcq (mem_cons_of_mem _ hin)
  · refine hh.nodup.sublist (List.Sublist.map _ ?_)
    exact List.Sublist.append_left (List.Sublist.cons_cons _ (sublist_cons_self ..)) _
  · show h.head = _
    rw [hh.head, start_append, start_append]
    rfl
  · show (if q = [] then some c.1 else h.tail) = _
    split
    · next hnil =>
      rw [hnil, getLast?_append]
      rfl
    · next hsome =>
      rw [hh.tail]
      obtain ⟨e, q, rfl⟩ := exists_cons_of_ne_nil hsome
      simp [getLast?_append, getLast?_cons_cons]

end

end Lib.LinkedList
