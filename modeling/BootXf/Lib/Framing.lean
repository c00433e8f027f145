import Mathlib.Algebra.GroupWithZero.Nat

/-!
# Sequences of frames

A stream that is made of frames, each of which spells one item: `frame a l` says that `l` spells
`a`.
-/

namespace Lib

open List

variable {α β : Type _} {frame : α → List β → Prop}

/-- The frames of some items, one after the other. -/
inductive Framed (frame : α → List β → Prop) : List α → List β → Prop
  | nil : Framed frame [] []
  | cons {a : α} {as : List α} {l rest : List β} :
      frame a l → Framed frame as rest → Framed frame (a :: as) (l ++ rest)

namespace Framed

/-- Two sequences. -/
theorem append {as bs : List α} {l m : List β} (h : Framed frame as l) (h' : Framed frame bs m) :
    Framed frame (as ++ bs) (l ++ m) := by
  induction h with
  | nil => exact h'
  | cons hd _ ih =>
    rw [cons_append, append_assoc]
    exact .cons hd ih

variable {as : List α} {l : List β}

/-- One item more. -/
theorem snoc {a : α} {l m : List β} (h : Framed frame as l) (ha : frame a m) :
    Framed frame (as ++ [a]) (l ++ m) := by
  have hm := Framed.cons ha .nil
  rw [append_nil] at hm
  exact h.append hm

/-- The first frame. -/
theorem of_cons {a : α} (h : Framed frame (a :: as) l) :
    ∃ m rest, l = m ++ rest ∧ frame a m ∧ Framed frame as rest := by
  cases h with
  | cons ha hrest => exact ⟨_, _, rfl, ha, hrest⟩

/-- Nothing spells no item. -/
theorem of_nil (h : Framed frame [] l) : l = [] := by
  cases h
  rfl

/-- When no frame is empty, only nothing spells nothing. -/
theorem eq_nil (h : Framed frame as []) (hpos : ∀ a, ¬ frame a []) : as = [] := by
  generalize hl : ([] : List β) = l at h
  cases h with
  | nil => rfl
  | cons ha hrest =>
    obtain ⟨rfl, rfl⟩ := append_eq_nil_iff.mp hl.symm
    exact absurd ha (hpos _)

/-- A whole number of units, when every frame is. -/
theorem length_mod {n : Nat} (hmod : ∀ a l, frame a l → l.length % n = 0)
    (h : Framed frame as l) : l.length % n = 0 := by
  induction h with
  | nil => exact Nat.zero_mod n
  | cons ha _ ih => rw [length_append, Nat.add_mod, hmod _ _ ha, ih, Nat.add_zero, Nat.zero_mod]

end Framed

end Lib
