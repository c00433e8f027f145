import Mathlib.Algebra.GroupWithZero.Nat

/-!
# Spans of addresses

A span is a base address and a length. Membership, inclusion and disjointness are on the natural
numbers, where an end address never wraps.
-/

namespace Lib

open List

/-- The addresses from `base` on, `len` of them. -/
structure Span where
  base : Nat
  len : Nat
  deriving DecidableEq, Repr

namespace Span

/-- The address lies in the span. -/
def Mem (a : Nat) (s : Span) : Prop :=
  s.base ≤ a ∧ a < s.base + s.len

/-- The span lies inside the other one, by its two ends. -/
def Within (s t : Span) : Prop :=
  t.base ≤ s.base ∧ s.base + s.len ≤ t.base + t.len

instance (a : Nat) (s : Span) : Decidable (s.Mem a) :=
  inferInstanceAs (Decidable (_ ∧ _))

instance (s t : Span) : Decidable (s.Within t) :=
  inferInstanceAs (Decidable (_ ∧ _))

theorem Within.refl (s : Span) : s.Within s := ⟨Nat.le_refl _, Nat.le_refl _⟩

theorem Within.trans {s t u : Span} (hst : s.Within t) (htu : t.Within u) : s.Within u :=
  ⟨Nat.le_trans htu.1 hst.1, Nat.le_trans hst.2 htu.2⟩

/-- An address of an inner span is one of the outer span. -/
theorem Within.mem {s t : Span} {a : Nat} (h : s.Within t) (ha : s.Mem a) : t.Mem a :=
  ⟨Nat.le_trans h.1 ha.1, Nat.lt_of_lt_of_le ha.2 h.2⟩

/-! ## Chains of spans -/

/-- The first address behind the span. -/
def stop (s : Span) : Nat := s.base + s.len

/-- One of the two spans ends before the other one begins. -/
def Disjoint (s t : Span) : Prop :=
  s.stop ≤ t.base ∨ t.stop ≤ s.base

instance (s t : Span) : Decidable (s.Disjoint t) :=
  inferInstanceAs (Decidable (_ ∨ _))

/-- The spans follow one another without a gap, from `lo` to `hi`. -/
def Chain : Nat → List Span → Nat → Prop
  | lo, [], hi => lo = hi
  | lo, s :: l, hi => s.base = lo ∧ Chain s.stop l hi

variable {lo hi : Nat} {l : List Span}

theorem Chain.le (h : Chain lo l hi) : lo ≤ hi := by
  induction l generalizing lo with
  | nil => exact Nat.le_of_eq h
  | cons s l ih =>
    obtain ⟨rfl, h⟩ := h
    have := ih h
    simp only [stop] at this
    omega

/-- A chain of two parts is a chain of each. -/
theorem chain_append {l₁ l₂ : List Span} :
    Chain lo (l₁ ++ l₂) hi ↔ ∃ mid, Chain lo l₁ mid ∧ Chain mid l₂ hi := by
  induction l₁ generalizing lo with
  | nil => simp [Chain]
  | cons s l ih => simp only [cons_append, Chain, ih, and_assoc, exists_and_left]

/-- Every span of a chain lies between its ends. -/
theorem Chain.within (h : Chain lo l hi) :
    ∀ s ∈ l, s.Within ⟨lo, hi - lo⟩ := by
  induction l generalizing lo with
  | nil => intro s hs; cases hs
  | cons t l ih =>
    obtain ⟨rfl, h⟩ := h
    have hle := h.le
    intro s hs
    rcases mem_cons.mp hs with rfl | hs
    · simp only [Within, stop] at hle ⊢
      omega
    · obtain ⟨hlo, hhi⟩ := ih h s hs
      simp only [Within, stop] at hle hlo hhi ⊢
      omega

/-- The spans of a chain do not overlap. -/
theorem Chain.pairwise_disjoint (h : Chain lo l hi) :
    l.Pairwise Disjoint := by
  induction l generalizing lo with
  | nil => exact List.Pairwise.nil
  | cons t l ih =>
    obtain ⟨-, h⟩ := h
    refine pairwise_cons.mpr ⟨fun s hs => ?_, ih h⟩
    exact .inl (h.within s hs).1

/-- A chain is as long as its spans together. -/
theorem Chain.sum_len (h : Chain lo l hi) :
    lo + (l.map len).sum = hi := by
  induction l generalizing lo with
  | nil => exact h
  | cons s l ih =>
    obtain ⟨rfl, h⟩ := h
    have := ih h
    simp only [stop] at this
    simp only [map_cons, sum_cons]
    omega

/-- Every address between the ends of a chain lies in one of its spans. -/
theorem Chain.exists_mem {lo hi a : Nat} (h : Chain lo l hi) (hlo : lo ≤ a)
    (hhi : a < hi) : ∃ s ∈ l, s.Mem a := by
  induction l generalizing lo with
  | nil =>
    have : lo = hi := h
    omega
  | cons s l ih =>
    obtain ⟨rfl, h⟩ := h
    by_cases hs : a < s.stop
    · exact ⟨s, .head _, hlo, hs⟩
    · obtain ⟨t, ht, hmem⟩ := ih h (Nat.le_of_not_lt hs)
      exact ⟨t, .tail _ ht, hmem⟩

/-- In some order the spans follow one another without a gap, from `lo` to `hi`. -/
def Tiles (lo hi : Nat) (l : List Span) : Prop := ∃ c : List Span, c.Perm l ∧ Chain lo c hi

/-- Tiles with one more span at the upper end. -/
theorem Tiles.snoc {lo : Nat} {s : Span} (h : Tiles lo s.base l) :
    Tiles lo s.stop (s :: l) := by
  obtain ⟨c, hperm, hchain⟩ := h
  refine ⟨c ++ [s], ?_, chain_append.mpr ⟨_, hchain, rfl, rfl⟩⟩
  exact (perm_append_singleton s c).trans (hperm.cons s)

/-- Tiles with one more span at the lower end. -/
theorem Tiles.cons {hi : Nat} {s : Span} (h : Tiles s.stop hi l) :
    Tiles s.base hi (s :: l) := by
  obtain ⟨c, hperm, hchain⟩ := h
  exact ⟨s :: c, hperm.cons s, rfl, hchain⟩

theorem Tiles.perm {l l' : List Span} (h : Tiles lo hi l) (hl : l.Perm l') :
    Tiles lo hi l' := by
  obtain ⟨c, hperm, hchain⟩ := h
  exact ⟨c, hperm.trans hl, hchain⟩

theorem Tiles.within (h : Tiles lo hi l) :
    ∀ s ∈ l, s.Within ⟨lo, hi - lo⟩ := by
  obtain ⟨c, hperm, hchain⟩ := h
  exact fun s hs => hchain.within s (hperm.mem_iff.mpr hs)

theorem Tiles.pairwise_disjoint (h : Tiles lo hi l) :
    l.Pairwise Disjoint := by
  obtain ⟨c, hperm, hchain⟩ := h
  exact hperm.pairwise hchain.pairwise_disjoint Or.symm

theorem Tiles.sum_len (h : Tiles lo hi l) :
    lo + (l.map len).sum = hi := by
  obtain ⟨c, hperm, hchain⟩ := h
  rw [← hchain.sum_len, (hperm.map len).sum_nat]

/-- What lies in disjoint spans is disjoint. -/
theorem Disjoint.mono {s s' t t' : Span} (h : s'.Disjoint t') (hs : s.Within s')
    (ht : t.Within t') :
    s.Disjoint t := by
  simp only [Disjoint, Within, stop] at *
  omega

end Span

end Lib
