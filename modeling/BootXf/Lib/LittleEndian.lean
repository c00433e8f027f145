import BootXf.Lib.Memory

/-!
# Little-endian words in byte memory

`Memory.leNat m a n` is the number the `n` bytes from `a` on spell, lowest byte first; the
fixed-width reads are its values at two, four and eight bytes, and `Memory.bytes` is the bytes
themselves. A number that was stored is read back, and `Memory.AgreeOn` is the frame: what two
memories agree on reads the same in both.
-/

namespace Lib

open List

namespace Memory

section
variable (m : Memory) (a : UInt64)

/-- Memory that holds zeros. -/
def zero : Memory := fun _ => 0

/-- The number spelled by `n` bytes, lowest first. -/
def leNat (m : Memory) (a : UInt64) : Nat → Nat
  | 0 => 0
  | n + 1 => (m a).toNat + 256 * leNat m (a + 1) n

/-- A `uint16` at an address. -/
def u16 : UInt16 := .ofNat (m.leNat a 2)

/-- A `uint32` at an address. -/
def u32 : UInt32 := .ofNat (m.leNat a 4)

/-- A `uint64` at an address. -/
def u64 : UInt64 := .ofNat (m.leNat a 8)

/-- `n` bytes from an address on. -/
def bytes (m : Memory) (a : UInt64) : Nat → List UInt8
  | 0 => []
  | n + 1 => m a :: bytes m (a + 1) n

/-- Storing a number in `n` bytes, lowest first. -/
def put (n v : Nat) : Memory := m.store ⟨a, n⟩ fun i => .ofNat (v / 256 ^ i)

end

/-! ## Reading back what was stored -/

section
variable {m m' : Memory} {a : UInt64} {n : Nat} {v : Nat}

/-- Two memories that hold the same bytes at the addresses of a span. -/
def AgreeOn (s : Span) (m m' : Memory) : Prop := ∀ a : UInt64, s.Mem a.toNat → m a = m' a

theorem AgreeOn.trans {s : Span} {m₁ m₂ m₃ : Memory} (h : AgreeOn s m₁ m₂) (h' : AgreeOn s m₂ m₃) :
    AgreeOn s m₁ m₃ := fun a ha => (h a ha).trans (h' a ha)

theorem AgreeOn.mono {s t : Span} (h : AgreeOn t m m') (hst : s.Within t) : AgreeOn s m m' :=
  fun a ha => h a (hst.mem ha)

theorem leNat_succ : m.leNat a (n + 1) = (m a).toNat + 256 * m.leNat (a + 1) n := rfl

/-- A number is read off its own bytes, also where they run over the top of the address space. -/
theorem leNat_congr (h : ∀ k, k < n → m (a + .ofNat k) = m' (a + .ofNat k)) :
    m.leNat a n = m'.leNat a n := by
  induction n generalizing a with
  | zero => rfl
  | succ n ih =>
    have hfirst : m a = m' a := by simpa using h 0 (by omega)
    rw [leNat_succ, leNat_succ, hfirst, ih]
    intro k hk
    have hnext := h (k + 1) (by omega)
    rwa [Nat.add_comm k, UInt64.ofNat_add, ← UInt64.add_assoc] at hnext

/-- A number is read off its own bytes. -/
theorem AgreeOn.leNat (h : AgreeOn ⟨a.toNat, n⟩ m m') (hend : a.toNat + n ≤ 2 ^ 64) :
    m.leNat a n = m'.leNat a n := by
  induction n generalizing a with
  | zero => rfl
  | succ n ih =>
    have ha : (⟨a.toNat, n + 1⟩ : Span).Mem a.toNat := ⟨Nat.le_refl _, by simp only; omega⟩
    rw [leNat_succ, leNat_succ, h a ha]
    rcases Nat.eq_zero_or_pos n with rfl | hn
    · rfl
    · have hnext : (a + 1).toNat = a.toNat + 1 := by
        rw [UInt64.toNat_add]
        exact Nat.mod_eq_of_lt (by show a.toNat + 1 < _; omega)
      rw [ih (h.mono ?_) (by omega)]
      simp only [Span.Within, hnext]
      omega

/-- Storing a number changes nothing beside its bytes. -/
theorem agreeOn_put {s : Span} (hend : a.toNat + n ≤ 2 ^ 64)
    (hs : s.Disjoint ⟨a.toNat, n⟩) : AgreeOn s (m.put a n v) m := by
  intro b hb
  apply store_of_not_mem
  rw [Block.mem_iff_span hend]
  rintro ⟨hlo, hhi⟩
  obtain ⟨hb₁, hb₂⟩ := hb
  simp only [Span.Disjoint, Span.stop, Block.span] at hs hlo hhi
  omega

/-- Where a number was stored, its bytes are. -/
theorem put_apply {v i : Nat} (hend : a.toNat + n ≤ 2 ^ 64) (hi : i < n) :
    m.put a n v (a + .ofNat i) = .ofNat (v / 256 ^ i) := by
  have hdist : (a + .ofNat i - a).toNat = i := by
    have ha := a.toNat_lt
    simp only [UInt64.toNat_sub, UInt64.toNat_add, UInt64.toNat_ofNat']
    omega
  unfold put
  rw [store_of_mem (by simp only [Block.Mem, hdist]; exact hi), hdist]

/-- The bytes of a number spell the number. -/
theorem leNat_of_bytes (h : ∀ i, i < n → m (a + .ofNat i) = .ofNat (v / 256 ^ i)) :
    m.leNat a n = v % 256 ^ n := by
  induction n generalizing a v with
  | zero => simp [Memory.leNat, Nat.mod_one]
  | succ n ih =>
    have hfirst : m a = .ofNat v := by simpa using h 0 (by omega)
    have hrest : m.leNat (a + 1) n = v / 256 % 256 ^ n := by
      apply ih
      intro i hi
      have := h (i + 1) (by omega)
      rw [Nat.pow_succ', ← Nat.div_div_eq_div_mul] at this
      rw [← this]
      congr 1
      apply UInt64.toNat_inj.mp
      simp only [UInt64.toNat_add, UInt64.toNat_ofNat', UInt64.toNat_one]
      omega
    rw [leNat_succ, hfirst, hrest, Nat.pow_succ', Nat.mod_mul, UInt8.toNat_ofNat']

/-- **Reading back** a number that was stored. -/
theorem leNat_put (hend : a.toNat + n ≤ 2 ^ 64) :
    (m.put a n v).leNat a n = v % 256 ^ n :=
  leNat_of_bytes fun _ hi => put_apply hend hi

theorem u16_put {v : UInt16} (hend : a.toNat + 2 ≤ 2 ^ 64) :
    (m.put a 2 v.toNat).u16 a = v := by
  have hlt : v.toNat < 256 ^ 2 := v.toNat_lt
  rw [u16, leNat_put hend, Nat.mod_eq_of_lt hlt, UInt16.ofNat_toNat]

theorem u32_put {v : UInt32} (hend : a.toNat + 4 ≤ 2 ^ 64) :
    (m.put a 4 v.toNat).u32 a = v := by
  have hlt : v.toNat < 256 ^ 4 := v.toNat_lt
  rw [u32, leNat_put hend, Nat.mod_eq_of_lt hlt, UInt32.ofNat_toNat]

theorem AgreeOn.u16 (h : AgreeOn ⟨a.toNat, 2⟩ m m') (hend : a.toNat + 2 ≤ 2 ^ 64) :
    m.u16 a = m'.u16 a := by
  rw [Memory.u16, Memory.u16, h.leNat hend]

theorem AgreeOn.u32 (h : AgreeOn ⟨a.toNat, 4⟩ m m') (hend : a.toNat + 4 ≤ 2 ^ 64) :
    m.u32 a = m'.u32 a := by
  rw [Memory.u32, Memory.u32, h.leNat hend]

end

/-! ## Many stores -/

/-- A number and where to store it. -/
structure Put where
  addr : UInt64
  len : Nat
  val : Nat

/-- The bytes a store changes. -/
def Put.span (p : Put) : Span := ⟨p.addr.toNat, p.len⟩

/-- A field of a structure: its offset, its size and its value. -/
structure Field where
  offset : Nat
  len : Nat
  val : Nat

/-- Where the fields of a structure at an address go. -/
def fieldPuts (a : UInt64) (l : List Field) : List Put :=
  l.map fun f => ⟨a + .ofNat f.offset, f.len, f.val⟩

/-- Storing one number after the other. -/
def putAll (m : Memory) (l : List Put) : Memory := l.foldl (fun m p => m.put p.addr p.len p.val) m

section
variable {m : Memory} {l : List Put} {p : Put} {size : Nat} {fs : List Field} {M : Memory}

theorem putAll_append (l' : List Put) : m.putAll (l ++ l') = (m.putAll l).putAll l' :=
  foldl_append

/-- Stores change nothing beside their bytes. -/
theorem agreeOn_putAll {s : Span} (hend : ∀ p ∈ l, p.span.stop ≤ 2 ^ 64)
    (hs : ∀ p ∈ l, s.Disjoint p.span) : AgreeOn s (m.putAll l) m := by
  induction l generalizing m with
  | nil => exact fun _ _ => rfl
  | cons p l ih =>
    have hrest := ih (m := m.put p.addr p.len p.val) (fun q hq => hend q (.tail _ hq))
      fun q hq => hs q (.tail _ hq)
    exact hrest.trans (agreeOn_put (hend p (.head _)) (hs p (.head _)))

/-- **Reading back** one of the numbers, when the stores do not overlap. -/
theorem leNat_putAll (hend : ∀ p ∈ l, p.span.stop ≤ 2 ^ 64)
    (hl : l.Pairwise fun p q => p.span.Disjoint q.span) (hp : p ∈ l) :
    (m.putAll l).leNat p.addr p.len = p.val % 256 ^ p.len := by
  induction l generalizing m with
  | nil => cases hp
  | cons q l ih =>
    obtain ⟨hq, hl⟩ := pairwise_cons.mp hl
    have htail : ∀ p ∈ l, p.span.stop ≤ 2 ^ 64 := fun p hp => hend p (.tail _ hp)
    rcases mem_cons.mp hp with rfl | hp
    · have hagree := agreeOn_putAll (m := m.put p.addr p.len p.val) htail hq
      have hstop := hend p (.head _)
      exact (hagree.leNat hstop).trans (leNat_put hstop)
    · exact ih htail hl hp

/-- The fields of a structure that does not run past the top of the address space are inside it. -/
theorem span_fieldPuts {a : UInt64} (hend : a.toNat + size ≤ 2 ^ 64)
    (hin : ∀ f ∈ fs, 0 < f.len ∧ f.offset + f.len ≤ size) :
    ∀ p ∈ fieldPuts a fs, ∃ f ∈ fs, p.span = ⟨a.toNat + f.offset, f.len⟩ := by
  intro p hp
  obtain ⟨f, hf, rfl⟩ := mem_map.mp hp
  obtain ⟨hpos, hle⟩ := hin f hf
  have hoff : (UInt64.ofNat f.offset).toNat = f.offset := by
    rw [UInt64.toNat_ofNat']
    exact Nat.mod_eq_of_lt (by have := a.toNat_lt; omega)
  refine ⟨f, hf, ?_⟩
  rw [Put.span, uint64_toNat_add (by omega), hoff]

theorem within_fieldPuts {a : UInt64}
    (hend : a.toNat + size ≤ 2 ^ 64) (hin : ∀ f ∈ fs, 0 < f.len ∧ f.offset + f.len ≤ size) :
    ∀ p ∈ fieldPuts a fs, p.span.Within ⟨a.toNat, size⟩ := by
  intro p hp
  obtain ⟨f, hf, hspan⟩ := span_fieldPuts hend hin p hp
  have hle := (hin f hf).2
  simp only [hspan, Span.Within]
  omega

/-- Fields in the order of their offsets do not overlap. -/
theorem pairwise_fieldPuts {a : UInt64}
    (hend : a.toNat + size ≤ 2 ^ 64) (hin : ∀ f ∈ fs, 0 < f.len ∧ f.offset + f.len ≤ size)
    (hfs : fs.Pairwise fun f g => f.offset + f.len ≤ g.offset) :
    (fieldPuts a fs).Pairwise fun p q => p.span.Disjoint q.span := by
  induction fs with
  | nil => exact List.Pairwise.nil
  | cons f fs ih =>
    obtain ⟨hf, hfs⟩ := pairwise_cons.mp hfs
    refine pairwise_cons.mpr ⟨fun q hq => ?_, ih (fun g hg => hin g (.tail _ hg)) hfs⟩
    obtain ⟨g, hg, hq⟩ := span_fieldPuts hend (fun g hg => hin g (.tail _ hg)) q hq
    obtain ⟨hpos, hle⟩ := hin f (.head _)
    have hoff : (UInt64.ofNat f.offset).toNat = f.offset := by
      rw [UInt64.toNat_ofNat']
      exact Nat.mod_eq_of_lt (by have := a.toNat_lt; omega)
    have hlt := hf g hg
    have hbase : (a + .ofNat f.offset).toNat = a.toNat + f.offset := by
      rw [uint64_toNat_add (by omega), hoff]
    rw [hq]
    simp only [Put.span, Span.Disjoint, Span.stop, hbase]
    omega

/-- **A structure reads back** field by field from a memory that holds the bytes stored for it. -/
theorem leNat_fields {a : UInt64} {f : Field}
    (hagree : AgreeOn ⟨a.toNat, size⟩ M (m.putAll (fieldPuts a fs)))
    (hend : a.toNat + size ≤ 2 ^ 64) (hin : ∀ f ∈ fs, 0 < f.len ∧ f.offset + f.len ≤ size)
    (hfs : fs.Pairwise fun f g => f.offset + f.len ≤ g.offset) (hf : f ∈ fs) :
    M.leNat (a + .ofNat f.offset) f.len = f.val % 256 ^ f.len := by
  have hput : (⟨a + .ofNat f.offset, f.len, f.val⟩ : Put) ∈ fieldPuts a fs := mem_map_of_mem hf
  have hwithin := within_fieldPuts hend hin _ hput
  have hstop : (a + .ofNat f.offset).toNat + f.len ≤ 2 ^ 64 := Nat.le_trans hwithin.2 hend
  rw [(hagree.mono hwithin).leNat hstop]
  refine leNat_putAll (fun p hp => ?_) (pairwise_fieldPuts hend hin hfs) hput
  exact Nat.le_trans (within_fieldPuts hend hin p hp).2 hend

theorem u16_fields {a : UInt64} {o : Nat} {v : UInt16}
    (hagree : AgreeOn ⟨a.toNat, size⟩ M (m.putAll (fieldPuts a fs)))
    (hend : a.toNat + size ≤ 2 ^ 64) (hin : ∀ f ∈ fs, 0 < f.len ∧ f.offset + f.len ≤ size)
    (hfs : fs.Pairwise fun f g => f.offset + f.len ≤ g.offset) (hf : ⟨o, 2, v.toNat⟩ ∈ fs) :
    M.u16 (a + .ofNat o) = v := by
  have hlt : v.toNat < 256 ^ 2 := v.toNat_lt
  rw [u16, leNat_fields hagree hend hin hfs hf, Nat.mod_eq_of_lt hlt, UInt16.ofNat_toNat]

theorem u32_fields {a : UInt64} {o : Nat} {v : UInt32}
    (hagree : AgreeOn ⟨a.toNat, size⟩ M (m.putAll (fieldPuts a fs)))
    (hend : a.toNat + size ≤ 2 ^ 64) (hin : ∀ f ∈ fs, 0 < f.len ∧ f.offset + f.len ≤ size)
    (hfs : fs.Pairwise fun f g => f.offset + f.len ≤ g.offset) (hf : ⟨o, 4, v.toNat⟩ ∈ fs) :
    M.u32 (a + .ofNat o) = v := by
  have hlt : v.toNat < 256 ^ 4 := v.toNat_lt
  rw [u32, leNat_fields hagree hend hin hfs hf, Nat.mod_eq_of_lt hlt, UInt32.ofNat_toNat]

end

end Memory

end Lib
