import BootXf.Lib.Span
import BootXf.Lib.Word

/-!
# Byte memory with 64-bit addresses

Memory is a function from addresses to bytes. A block is a start address and a length; the address
of its `i`-th byte is `start + i` as the machine adds, so a block near the top of the address
space continues at zero. `Memory.store` puts bytes at a block, and `Memory.LocalTo` says which
blocks the difference of two memories is confined to.
-/

namespace Lib

/-- The contents of memory. -/
abbrev Memory := UInt64 → UInt8

/-- `len` addresses from `start` on, in the arithmetic of the machine. -/
structure Block where
  start : UInt64
  len : Nat
  deriving DecidableEq, Repr

namespace Block

/-- The address is one of the block's: its distance from the start, as the machine subtracts, is
below the length. -/
def Mem (a : UInt64) (b : Block) : Prop :=
  (a - b.start).toNat < b.len

instance (a : UInt64) (b : Block) : Decidable (b.Mem a) :=
  inferInstanceAs (Decidable (_ < _))

/-- The block as a span, for blocks that do not run past the top of the address space. -/
def span (b : Block) : Span := ⟨b.start.toNat, b.len⟩

/-- A block that ends inside the address space has the addresses of its span. -/
theorem mem_iff_span {b : Block} (h : b.start.toNat + b.len ≤ 2 ^ 64) {a : UInt64} :
    b.Mem a ↔ b.span.Mem a.toNat := by
  have ha := a.toNat_lt
  have hs := b.start.toNat_lt
  simp only [Mem, span, Span.Mem, UInt64.toNat_sub]
  omega

theorem not_mem_zero {a s : UInt64} : ¬ (Block.mk s 0).Mem a := by
  simp [Mem]

end Block

namespace Memory

/-- Storing at a block: its `i`-th byte becomes `f i`. -/
def store (m : Memory) (b : Block) (f : Nat → UInt8) : Memory :=
  fun a => if b.Mem a then f (a - b.start).toNat else m a

variable {m : Memory} {b : Block}

theorem store_of_mem {f : Nat → UInt8} {a : UInt64} (h : b.Mem a) :
    m.store b f a = f (a - b.start).toNat := if_pos h

theorem store_of_not_mem {f : Nat → UInt8} {a : UInt64} (h : ¬ b.Mem a) :
    m.store b f a = m a := if_neg h

theorem store_zero_len (m : Memory) (s : UInt64) (f : Nat → UInt8) : m.store ⟨s, 0⟩ f = m :=
  funext fun _ => store_of_not_mem Block.not_mem_zero

/-- What a store puts down is only read inside the block. -/
theorem store_congr {f g : Nat → UInt8} (h : ∀ i, i < b.len → f i = g i) :
    m.store b f = m.store b g := by
  funext a
  by_cases ha : b.Mem a
  · rw [store_of_mem ha, store_of_mem ha, h _ ha]
  · rw [store_of_not_mem ha, store_of_not_mem ha]

/-- **Two adjacent stores are one.** The second block starts where the first one ends, and
together they do not cover the address space more than once. -/
theorem store_store_adjacent (m : Memory) (start : UInt64) {l₁ l₂ : Nat} (f g : Nat → UInt8)
    (hlen : l₁ + l₂ ≤ 2 ^ 64) :
    (m.store ⟨start, l₁⟩ f).store ⟨start + .ofNat l₁, l₂⟩ g =
      m.store ⟨start, l₁ + l₂⟩ fun i => if i < l₁ then f i else g (i - l₁) := by
  funext a
  have ha := a.toNat_lt
  have hs := start.toNat_lt
  have hdist : (a - (start + .ofNat l₁)).toNat =
      (2 ^ 64 + (a - start).toNat - l₁ % 2 ^ 64) % 2 ^ 64 := by
    simp only [UInt64.toNat_sub, UInt64.toNat_add, UInt64.toNat_ofNat']
    omega
  have hd := (a - start).toNat_lt
  generalize hd' : (a - start).toNat = d at hdist hd
  simp only [store, Block.Mem, hd', hdist]
  by_cases h₁ : d < l₁
  · have h2 : ¬ (2 ^ 64 + d - l₁ % 2 ^ 64) % 2 ^ 64 < l₂ := by omega
    have h3 : d < l₁ + l₂ := by omega
    rw [if_neg h2, if_pos h₁, if_pos h3, if_pos h₁]
  · have heq : l₁ < 2 ^ 64 → (2 ^ 64 + d - l₁ % 2 ^ 64) % 2 ^ 64 = d - l₁ := by omega
    by_cases h4 : l₁ < 2 ^ 64
    · rw [heq h4]
      by_cases h5 : d < l₁ + l₂
      · rw [if_pos (by omega), if_pos h5, if_neg h₁]
      · rw [if_neg (by omega), if_neg h₁, if_neg h5]
    · omega

end Memory

end Lib
