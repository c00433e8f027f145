import BootXf.Lib.LinkedList

/-!
# Cells from a pool

A pool hands out cells and takes them back. Reading, writing or giving back a cell that is not
handed out has no answer, nor has handing one out twice. `Linked` is a list whose cells are all
handed out.
-/

namespace Lib

open LinkedList List Function

/-- The cells of a pool, and which of them are handed out. -/
structure Pool (α : Type _) where
  cells : Nat → Cell α
  used : Nat → Bool

namespace Pool

variable {α : Type _} {p q : Pool α} {a b : Nat} {c : Cell α} {e : Option Nat}
    {l l' : List (Nat × α)}

/-- A pool that has handed out nothing. -/
def fresh (c : Cell α) : Pool α := ⟨fun _ => c, fun _ => false⟩

def alloc (p : Pool α) (a : Nat) (c : Cell α) : Option (Pool α) :=
  if p.used a then none else some ⟨update p.cells a c, update p.used a true⟩

def free (p : Pool α) (a : Nat) : Option (Pool α) :=
  if p.used a then some { p with used := update p.used a false } else none

def read (p : Pool α) (a : Nat) : Option (Cell α) := if p.used a then some (p.cells a) else none

def write (p : Pool α) (a : Nat) (c : Cell α) : Option (Pool α) :=
  if p.used a then some { p with cells := update p.cells a c } else none

/-- A cell that is not in use can be allocated. -/
theorem alloc_unused (h : p.used a = false) :
    p.alloc a c = some ⟨update p.cells a c, update p.used a true⟩ := by
  rw [alloc, h]
  rfl

/-- Only a cell that is not in use can be allocated. -/
theorem unused_of_alloc (h : p.alloc a c = some q) :
    p.used a = false ∧ q = ⟨update p.cells a c, update p.used a true⟩ := by
  unfold alloc at h
  split at h
  · cases h
  · next hused =>
    cases h
    exact ⟨Bool.eq_false_iff.mpr hused, rfl⟩

theorem free_used (h : p.used a = true) :
    p.free a = some { p with used := update p.used a false } := if_pos h

theorem read_used (h : p.used a = true) : p.read a = some (p.cells a) := if_pos h

theorem write_used (h : p.used a = true) :
    p.write a c = some { p with cells := update p.cells a c } := if_pos h

/-- A list in cells that are handed out. -/
structure Linked (p : Pool α) (e : Option Nat) (l : List (Nat × α)) : Prop where
  segment : Segment p.cells e l
  used : ∀ c ∈ l, p.used c.1 = true

/-- A chain is one chain behind another. -/
theorem linked_append :
    p.Linked e (l ++ l') ↔ p.Linked (start e l') l ∧ p.Linked e l' := by
  constructor
  · rintro ⟨hsegment, hused⟩
    obtain ⟨hleft, hright⟩ := segment_append.mp hsegment
    exact ⟨⟨hleft, fun c hc => hused c (mem_append_left _ hc)⟩,
      hright, fun c hc => hused c (mem_append_right _ hc)⟩
  · rintro ⟨⟨hleft, husedLeft⟩, hright, husedRight⟩
    refine ⟨segment_append.mpr ⟨hleft, hright⟩, fun c hc => ?_⟩
    rcases mem_append.mp hc with hc | hc
    · exact husedLeft c hc
    · exact husedRight c hc

/-- A chain of one cell. -/
theorem linked_singleton {x : α} :
    p.Linked e [(a, x)] ↔ p.cells a = ⟨x, e⟩ ∧ p.used a = true := by
  constructor
  · rintro ⟨⟨hcell, -⟩, hused⟩
    exact ⟨hcell, hused _ mem_cons_self⟩
  · rintro ⟨hcell, hused⟩
    exact ⟨⟨hcell, trivial⟩, forall_mem_singleton.mpr hused⟩

/-- Only the cells of the list matter. -/
theorem Linked.congr (h : p.Linked e l) (hcells : ∀ c ∈ l, q.cells c.1 = p.cells c.1)
    (hused : ∀ c ∈ l, q.used c.1 = p.used c.1) : q.Linked e l :=
  ⟨h.segment.congr hcells, fun c hc => (hused c hc).trans (h.used c hc)⟩

/-- A chain has no cell that is not in use. -/
theorem Linked.unused_not_mem (h : p.Linked e l) (ha : p.used a = false) : a ∉ l.map (·.1) :=
    fun hmem => by
  obtain ⟨c, hc, rfl⟩ := mem_map.mp hmem
  rw [h.used c hc] at ha
  cases ha

theorem ne_of_not_mem {c : Nat × α} (ha : a ∉ l.map (·.1)) (hc : c ∈ l) : c.1 ≠ a := fun heq =>
  ha (heq ▸ mem_map_of_mem hc)

/-- A chain stays when another cell is allocated. -/
theorem Linked.alloc (h : p.Linked e l) (ha : p.used a = false) :
    Linked ⟨update p.cells a c, update p.used a true⟩ e l := by
  have hnot := h.unused_not_mem ha
  exact h.congr (fun _ hc => update_of_ne (ne_of_not_mem hnot hc) ..)
    (fun _ hc => update_of_ne (ne_of_not_mem hnot hc) ..)

/-- A chain stays when another cell is freed. -/
theorem Linked.free (h : p.Linked e l) (ha : a ∉ l.map (·.1)) :
    Linked { p with used := update p.used a false } e l :=
  h.congr (fun _ _ => rfl) fun _ hc => update_of_ne (ne_of_not_mem ha hc) ..

/-- A chain stays when another cell is written. -/
theorem Linked.write (h : p.Linked e l) (ha : a ∉ l.map (·.1)) :
    Linked { p with cells := update p.cells a c } e l :=
  h.congr (fun _ hc => update_of_ne (ne_of_not_mem ha hc) ..) fun _ _ => rfl

/-- A chain is a cell and the chain that it points to. -/
theorem linked_cons {c : Nat × α} :
    p.Linked e (c :: l) ↔ p.cells c.1 = ⟨c.2, start e l⟩ ∧ p.used c.1 = true ∧ p.Linked e l := by
  constructor
  · rintro ⟨⟨hcell, hsegment⟩, hused⟩
    exact ⟨hcell, hused c mem_cons_self, hsegment, fun d hd => hused d (mem_cons_of_mem _ hd)⟩
  · rintro ⟨hcell, hused, hlinked⟩
    refine ⟨⟨hcell, hlinked.segment⟩, fun d hd => ?_⟩
    rcases mem_cons.mp hd with rfl | hd
    · exact hused
    · exact hlinked.used d hd

/-- The first cell of a list holds its value and the way to the next. -/
theorem Linked.read {c : Nat × α} (h : p.Linked e (c :: l)) :
    p.read c.1 = some ⟨c.2, start e l⟩ := by
  obtain ⟨hcell, hused, -⟩ := linked_cons.mp h
  rw [read_used hused, hcell]

/-- A chain that ends has no cell twice. -/
theorem Linked.nodup (h : p.Linked none l) : (l.map (·.1)).Nodup := h.segment.nodup

/-- A cell that is handed out is put in front of a list. -/
theorem Linked.cons (h : p.Linked e l) (ha : p.used a = true) (hnot : a ∉ l.map (·.1)) (x : α) :
    Linked { p with cells := update p.cells a ⟨x, start e l⟩ } e ((a, x) :: l) :=
  linked_cons.mpr ⟨update_self .., ha, h.write hnot⟩

/-- **A cell is put in** behind another one. -/
theorem Linked.insert {x c : Nat × α} (h : p.Linked none (l ++ c :: l')) (ha : p.used x.1 = true)
    (hnot : x.1 ∉ (l ++ c :: l').map (·.1)) :
    Linked { p with cells := update (update p.cells x.1 ⟨x.2, start none l'⟩) c.1 ⟨c.2, some x.1⟩ }
      none (l ++ c :: x :: l') := by
  have hnodup := h.nodup
  rw [map_append, map_cons, nodup_append, nodup_cons] at hnodup
  obtain ⟨-, ⟨hbehind, -⟩, hfront⟩ := hnodup
  rw [map_append, map_cons, mem_append, mem_cons, not_or, not_or] at hnot
  obtain ⟨hnotFront, hne, hnotBehind⟩ := hnot
  obtain ⟨hleft, hright⟩ := linked_append.mp h
  obtain ⟨-, hused, hright⟩ := linked_cons.mp hright
  refine linked_append.mpr ⟨?_, linked_cons.mpr ⟨update_self .., hused, ?_⟩⟩
  · have hc : c.1 ∉ l.map (·.1) := fun hmem => hfront _ hmem _ mem_cons_self rfl
    exact (hleft.write hnotFront).write hc
  · have hcons :=
        (hright.cons ha hnotBehind x.2).write (a := c.1) (c := ⟨c.2, some x.1⟩) fun hmem => by
      rcases mem_cons.mp hmem with heq | hmem
      · exact hne heq.symm
      · exact hbehind hmem
    exact hcons

/-- **A cell is taken out** behind another one, and given back. -/
theorem Linked.remove {x c : Nat × α} (h : p.Linked none (l ++ c :: x :: l')) :
    Linked ⟨update p.cells c.1 ⟨c.2, start none l'⟩, update p.used x.1 false⟩ none
      (l ++ c :: l') := by
  have hnodup := h.nodup
  rw [map_append, map_cons, map_cons, nodup_append, nodup_cons, nodup_cons] at hnodup
  obtain ⟨-, ⟨hbehind, hx, -⟩, hfront⟩ := hnodup
  rw [mem_cons, not_or] at hbehind
  obtain ⟨hleft, hright⟩ := linked_append.mp h
  obtain ⟨-, hused, hright⟩ := linked_cons.mp hright
  obtain ⟨-, -, hright⟩ := linked_cons.mp hright
  have hc : c.1 ∉ l.map (·.1) := fun hmem => hfront _ hmem _ mem_cons_self rfl
  have hx' : x.1 ∉ l.map (·.1) := fun hmem => hfront _ hmem _ (mem_cons_of_mem _ mem_cons_self) rfl
  refine linked_append.mpr ⟨(hleft.write hc).free hx', linked_cons.mpr ⟨update_self .., ?_, ?_⟩⟩
  · exact (update_of_ne hbehind.1 ..).trans hused
  · exact (hright.write hbehind.2).free hx

end Pool

end Lib
