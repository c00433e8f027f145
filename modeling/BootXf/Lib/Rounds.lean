import Mathlib.Algebra.GroupWithZero.Nat

/-!
# Loops that take a number of rounds

A loop is modelled as a recursion over the rounds it may take, which breaks off when they do not
do. `Below` says that one result is another one unless the rounds ran out, and `Comes` is what code
comes to when it has enough of them.
-/

namespace Lib

section
variable {ε α β : Type _} {out : ε} {r r' r'' : Except ε α}

/-- A result is another one, unless the rounds ran out. -/
def Below (out : ε) (r r' : Except ε α) : Prop := r = .error out ∨ r = r'

namespace Below

theorem refl : Below out r r := .inr rfl

theorem error : Below out (.error out) r := .inl rfl

/-- A run that ends is not changed by more rounds. -/
theorem eq_of_ne (h : Below out r r') (hr : r ≠ .error out) : r' = r := (h.resolve_left hr).symm

/-- A sequence is not changed by more rounds for its parts. -/
theorem bind {f f' : α → Except ε β} (h : Below out r r') (hf : ∀ x, Below out (f x) (f' x)) :
    Below out (r >>= f) (r' >>= f') := by
  rcases h with rfl | rfl
  · exact .error
  · cases r with
    | error e => exact .refl
    | ok x => exact hf x

theorem ite {c : Prop} [Decidable c] {s s' : Except ε α} (h : Below out r r')
    (h' : Below out s s') :
    Below out (if c then r else s) (if c then r' else s') := by
  by_cases hc : c
  · rw [if_pos hc, if_pos hc]
    exact h
  · rw [if_neg hc, if_neg hc]
    exact h'

end Below

/-- What code comes to with enough rounds. -/
def Comes (f : Nat → α) (x : α) : Prop := ∃ n₀, ∀ n, n₀ ≤ n → f n = x

/-- What comes out is one value. -/
theorem Comes.unique {f : Nat → α} {x y : α} (h : Comes f x) (h' : Comes f y) : x = y := by
  obtain ⟨n, hn⟩ := h
  obtain ⟨n', hn'⟩ := h'
  rw [← hn (max n n') (Nat.le_max_left ..), hn' (max n n') (Nat.le_max_right ..)]

/-- **A number of rounds that does** is enough. -/
theorem Comes.of_below {f : Nat → Except ε α}
    (hf : ∀ n n', n ≤ n' → Below out (f n) (f n')) {n : Nat}
    (hn : f n ≠ .error out) : Comes f (f n) := ⟨n, fun _ hle => (hf _ _ hle).eq_of_ne hn⟩

end

end Lib
