import Mathlib.Algebra.GroupWithZero.Nat

/-!
# Aggregates that are kept up to date

The aggregate of a collection of requests is the fold of a commutative operation over it. A
component that is told of one change at a time need not fold again: a group operation subtracts the
old request and adds the new one, and an extremum changes only when the new request beats it or the
changed request held it. `pick_refresh` is that short cut, for any strict comparison whose choice is
commutative and associative.
-/

namespace Lib

open List

section
variable {α : Type _} (op : α → α → α) (e : α)

/-- The aggregate of a list of requests, `e` being the aggregate of none. -/
def aggregate (l : List α) : α := l.foldr op e

@[simp] theorem aggregate_cons (x : α) (l : List α) :
    aggregate op e (x :: l) = op x (aggregate op e l) := rfl

variable [hassoc : Std.Associative op]

/-- A loop that starts from `a` and takes up one request after the other. -/
theorem foldl_eq_op_aggregate [hid : Std.LawfulIdentity op e] (l : List α) (a : α) :
    l.foldl op a = op a (aggregate op e l) := by
  induction l generalizing a with
  | nil => exact (hid.right_id a).symm
  | cons x l ih => rw [foldl_cons, ih, aggregate_cons, hassoc.assoc]

variable [hcomm : Std.Commutative op]

/-- Without an identity, the aggregate of none is where the loop starts. -/
theorem foldl_eq_aggregate (l : List α) : l.foldl op e = aggregate op e l := by
  induction l generalizing e with
  | nil => rfl
  | cons x l ih =>
    rw [foldl_cons, ih, aggregate_cons]
    clear ih
    induction l with
    | nil => exact hcomm.comm e x
    | cons y l ih =>
      rw [aggregate_cons, aggregate_cons, ih, ← hassoc.assoc, hcomm.comm y x, hassoc.assoc]

/-- What the loop starts from counts as one more request. -/
theorem aggregate_op_start (x : α) (l : List α) :
    aggregate op (op x e) l = op x (aggregate op e l) := by
  induction l with
  | nil => rfl
  | cons y l ih =>
    rw [aggregate_cons, ih, aggregate_cons, ← hassoc.assoc, hcomm.comm y x, hassoc.assoc]

/-- A request may stand anywhere in the list. -/
theorem aggregate_middle (l : List α) (x : α) (k : List α) :
    aggregate op e (l ++ x :: k) = op x (aggregate op e (l ++ k)) := by
  induction l with
  | nil => rfl
  | cons y l ih =>
    simp only [cons_append, aggregate_cons, ih]
    rw [← hassoc.assoc y, hcomm.comm y x, hassoc.assoc]

variable [hidem : Std.IdempotentOp op]

/-- A request that is in the list counts no second time. -/
theorem aggregate_of_mem {x : α} {l : List α} (h : x ∈ l) :
    op x (aggregate op e l) = aggregate op e l := by
  obtain ⟨before, after, rfl⟩ := append_of_mem h
  rw [aggregate_middle, ← hassoc.assoc, hidem.idempotent]

/-- **Only which requests there are counts**, not how often or where. -/
theorem aggregate_congr {l k : List α} (h : ∀ x, x ∈ l ↔ x ∈ k) :
    aggregate op e l = aggregate op e k := by
  have habsorb : ∀ {l k : List α}, (∀ x ∈ l, x ∈ k) →
      aggregate op (aggregate op e k) l = aggregate op e k := by
    intro l k hsub
    induction l with
    | nil => rfl
    | cons y l ih =>
      rw [aggregate_cons, ih fun x hx => hsub x (mem_cons_of_mem _ hx),
        aggregate_of_mem op e (hsub y mem_cons_self)]
  have hswap : ∀ k : List α, aggregate op (aggregate op e k) l = aggregate op
      (aggregate op e l) k := by
    intro k
    induction k with
    | nil => rfl
    | cons y k ih => rw [aggregate_cons, aggregate_op_start, aggregate_cons, ih]
  rw [← habsorb fun x hx => (h x).mpr hx, ← hswap, habsorb fun x hx => (h x).mp hx]

end

section
variable {α : Type _} (better : α → α → Bool)

/-- The better of two requests, the second one when neither is. -/
def pick (x y : α) : α := if better x y then x else y

theorem pick_choice (x y : α) : pick better x y = x ∨ pick better x y = y := by
  unfold pick
  split
  · exact .inl rfl
  · exact .inr rfl

variable {better}

/-- Whoever does not hold the extremum can be taken out without changing it. -/
theorem pick_of_ne {x rest : α} (h : pick better x rest ≠ x) : pick better x rest = rest :=
  (pick_choice better x rest).resolve_left h

/-- A request that beats the extremum beats the extremum of the others. -/
theorem pick_of_better [hassoc : Std.Associative (pick better)]
    [hcomm : Std.Commutative (pick better)]
    {x y rest : α} (h : better x (pick better y rest) = true) : pick better x rest = x := by
  have hx : pick better x (pick better y rest) = x := by
    rw [pick, if_pos h]
  rcases pick_choice better x rest with hpick | hpick
  · exact hpick
  · -- `x` ties with the extremum, and the extremum absorbs the others
    have hrest : pick better rest rest = rest := (pick_choice better rest rest).elim id id
    have hx' : pick better y rest = x := by
      calc pick better y rest = pick better y (pick better x rest) := by rw [hpick]
        _ = pick better x (pick better y rest) := by
          rw [← hassoc.assoc y, hcomm.comm y x, hassoc.assoc]
        _ = x := hx
    calc pick better x rest = pick better (pick better y rest) rest := by rw [hx']
      _ = pick better y (pick better rest rest) := hassoc.assoc ..
      _ = x := by rw [hrest, hx']

section
variable [DecidableEq α]

/-- **Keeping an extremum current.** When one request changes from `active` to `request`, the
others are looked at only if `active` held the extremum and `request` does not beat it. -/
theorem pick_refresh [Std.Associative (pick better)] [Std.Commutative (pick better)]
    {active request rest old : α} (hold : old = pick better active rest) :
    (if better request old then request
      else if old = active then pick better request rest else old) = pick better request rest := by
  subst hold
  split
  · next h => exact (pick_of_better h).symm
  · next h =>
    split
    · rfl
    · next hne =>
      have hrest := pick_of_ne hne
      rw [hrest] at h ⊢
      rw [pick, if_neg h]

/-- The same for a request that leaves the collection. -/
theorem pick_refresh_gone {active rest old : α} (hold : old = pick better active rest) :
    (if old = active then rest else old) = rest := by
  subst hold
  split
  · next heq => rfl
  · next hne => exact pick_of_ne hne

end

end

end Lib
