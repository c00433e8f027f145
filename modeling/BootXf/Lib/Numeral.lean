import Mathlib.Data.Nat.Digits.Defs
import Mathlib.Algebra.GroupWithZero.Nat

/-!
# Numerals

Digits are read from the most significant one on. Read in numbers below a bound, the product of what
has been read and the base wraps, and a check of the sum with the next digit sees only some of the
numerals that are too great: those at one of whose digits the sum, and not the product, passes a
multiple of the bound (`wrapped_eq`).
-/

namespace Lib

open List

/-- The value of digits of a base, the most significant first. -/
def positional (base : Nat) (ds : List Nat) : Nat := Nat.ofDigits base ds.reverse

theorem positional_append (base d : Nat) (ds : List Nat) :
    positional base (ds ++ [d]) = positional base ds * base + d := by
  unfold positional
  rw [reverse_append, reverse_singleton, singleton_append, Nat.ofDigits_cons,
    Nat.mul_comm, Nat.add_comm]

/-- Reading from the left. -/
theorem foldl_eq_positional (base : Nat) (ds : List Nat) :
    ds.foldl (fun v d => v * base + d) 0 = positional base ds := by
  unfold positional
  rw [Nat.ofDigits_eq_foldr, foldr_reverse]
  refine congrArg (fun f => ds.foldl f 0) (funext fun v => funext fun d => ?_)
  rw [Nat.mul_comm, Nat.add_comm]
  rfl

section
variable {bound base : Nat} {ds : List Nat}

/-- Reading below a bound. The product wraps, and reading fails where the sum does. -/
def wrapped (bound base : Nat) : Nat → List Nat → Option Nat
  | v, [] => some v
  | v, d :: ds =>
    if v * base % bound + d < bound then wrapped bound base (v * base % bound + d) ds else none

/-- At one of the digits behind a prefix that is worth so much the sum passes a multiple of the
bound. -/
def CrossesFrom (bound base : Nat) : Nat → List Nat → Prop
  | _, [] => False
  | v, d :: ds =>
    v * base / bound < (v * base + d) / bound ∨ CrossesFrom bound base (v * base + d) ds

instance decidableCrossesFrom (bound base : Nat) :
    ∀ (v : Nat) (ds : List Nat), Decidable (CrossesFrom bound base v ds)
  | _, [] => isFalse id
  | v, d :: ds =>
    have := decidableCrossesFrom bound base (v * base + d) ds
    inferInstanceAs (Decidable (_ ∨ _))

/-- **Reading below a bound**, from a prefix on. -/
theorem wrapped_eq (hbound : 0 < bound) {v : Nat} (hds : ∀ d ∈ ds, d < bound) :
    wrapped bound base (v % bound) ds =
      if CrossesFrom bound base v ds then none
      else some (ds.foldl (fun v d => v * base + d) v % bound) := by
  induction ds generalizing v with
  | nil =>
    have hnot : ¬ CrossesFrom bound base v [] := id
    rw [wrapped, if_neg hnot, foldl_nil]
  | cons d ds ih =>
    have hd := hds d (mem_cons_self ..)
    have hmul : v % bound * base % bound = v * base % bound := by rw [Nat.mod_mul_mod]
    have hsplit := Nat.div_add_mod (v * base) bound
    have hlt := Nat.mod_lt (v * base) hbound
    rw [wrapped, hmul, foldl_cons]
    by_cases hfits : v * base % bound + d < bound
    · have hquotient : (v * base + d) / bound = v * base / bound := by
        rw [← hsplit, Nat.add_assoc, Nat.mul_add_div hbound, Nat.div_eq_of_lt hfits, Nat.add_zero,
          Nat.mul_add_div hbound, Nat.div_eq_of_lt hlt, Nat.add_zero]
      have hrest : v * base % bound + d = (v * base + d) % bound := by
        rw [Nat.add_mod, Nat.mod_eq_of_lt hd, Nat.mod_eq_of_lt hfits]
      have hiff : CrossesFrom bound base v (d :: ds) ↔
          CrossesFrom bound base (v * base + d) ds := by
        refine ⟨fun h => h.resolve_left ?_, .inr⟩
        rw [hquotient]
        exact Nat.lt_irrefl _
      rw [if_pos hfits, hrest, ih fun e he => hds e (mem_cons_of_mem _ he)]
      exact (if_congr hiff rfl rfl).symm
    · have hcrosses : v * base / bound < (v * base + d) / bound := by
        have hge : bound * (v * base / bound + 1) ≤ v * base + d := by
          rw [Nat.mul_add, Nat.mul_one]
          omega
        exact (Nat.le_div_iff_mul_le hbound).mpr (by rw [Nat.mul_comm]; exact hge)
      have hcross : CrossesFrom bound base v (d :: ds) := .inl hcrosses
      rw [if_neg hfits, if_pos hcross]

theorem le_foldl (hbase : 0 < base) (v : Nat) (ds : List Nat) :
    v ≤ ds.foldl (fun v d => v * base + d) v := by
  induction ds generalizing v with
  | nil => exact Nat.le_refl v
  | cons d ds ih =>
    have hle := Nat.le_mul_of_pos_right v hbase
    exact Nat.le_trans (by omega) (ih (v * base + d))

/-- What is below the bound never passes it. -/
theorem not_crossesFrom_of_lt (hbase : 0 < base) {v : Nat}
    (h : ds.foldl (fun v d => v * base + d) v < bound) : ¬ CrossesFrom bound base v ds := by
  induction ds generalizing v with
  | nil => exact id
  | cons d ds ih =>
    have hle := le_foldl hbase (v * base + d) ds
    rw [foldl_cons] at h
    rintro (hcross | hrest)
    · rw [Nat.div_eq_of_lt (by omega), Nat.div_eq_of_lt (by omega)] at hcross
      exact Nat.lt_irrefl 0 hcross
    · exact ih h hrest

end

end Lib
