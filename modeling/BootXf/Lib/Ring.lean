import Mathlib.Algebra.GroupWithZero.Nat

/-!
# Ring buffers

A ring of `size` cells carries a stream: the element at position `v` of the stream is written to
cell `v % size`. `Holds size mem stream r` says that what has been written, but for the first `r`
elements, is still there. Writing goes on as long as the stream is at most `size` ahead of `r`, and
reading answers a piece of the stream, so that nothing about indices that start again at zero is
left for those who use a ring.
-/

namespace Lib

open List Option

namespace Ring

variable {α : Type _}

/-- Copying a list into consecutive cells from `i` on. -/
def put (mem : Nat → α) (i : Nat) (l : List α) : Nat → α :=
  fun j => if i ≤ j then l[j - i]?.getD (mem j) else mem j

/-- The contents of `n` consecutive cells from `i` on. -/
def get (mem : Nat → α) (i n : Nat) : List α := (List.range n).map fun k => mem (i + k)

@[simp] theorem length_get (mem : Nat → α) (i n : Nat) : (get mem i n).length = n := by simp [get]

theorem put_at {mem : Nat → α} {i k : Nat} {l : List α} (hk : k < l.length) :
    put mem i l (i + k) = l[k] := by
  simp [put, hk]

theorem put_of_not_mem {mem : Nat → α} {i j : Nat} {l : List α} (h : j < i ∨ i + l.length ≤ j) :
    put mem i l j = mem j := by
  unfold put
  split
  · rw [getElem?_eq_none (by omega), getD_none]
  · rfl

/-- Copying cells onto themselves. -/
theorem put_get (mem : Nat → α) (i n : Nat) : put mem i (get mem i n) = mem := by
  funext j
  unfold put
  split
  · rcases Nat.lt_or_ge (j - i) n with hlt | hge
    · rw [getElem?_eq_getElem (by simpa using hlt), getD_some]
      simp only [get, getElem_map, getElem_range]
      congr 1
      omega
    · rw [getElem?_eq_none (by simpa using hge), getD_none]
  · rfl

/-- Everything of the stream from position `r` on is in its cell. -/
def Holds (size : Nat) (mem : Nat → α) (stream : List α) (r : Nat) : Prop :=
  ∀ v, r ≤ v → (h : v < stream.length) → mem (v % size) = stream[v]

namespace Holds
variable {size r r' : Nat} {mem : Nat → α} {stream l : List α}

/-- Nothing is left to read. -/
theorem of_read (h : stream.length ≤ r) : Holds size mem stream r :=
  fun v hv hlt => absurd hlt (by omega)

/-- Reading on. -/
theorem mono (h : Holds size mem stream r) (hr : r ≤ r') : Holds size mem stream r' :=
  fun v hv hlt => h v (by omega) hlt

/-- Two positions less than `size` apart have different cells. -/
theorem mod_ne {u v : Nat} (huv : u < v) (hlt : v < u + size) : u % size ≠ v % size := by
  intro heq
  have hu := Nat.div_add_mod u size
  have hv := Nat.div_add_mod v size
  rcases Nat.lt_or_ge (u / size) (v / size) with hq | hq
  · have := Nat.mul_le_mul_left size hq
    rw [Nat.mul_succ] at this
    omega
  · have := Nat.mul_le_mul_left size hq
    omega

/-- Positions that stay before the end of the ring. -/
theorem add_mod {v k : Nat} (h : v % size + k < size) : (v + k) % size = v % size + k := by
  rw [Nat.add_mod, Nat.mod_eq_of_lt (a := k) (by omega), Nat.mod_eq_of_lt h]

/-- **Writing.** A piece that fits before the end of the ring, and whose end is at most `size` ahead
of what is still to be read, continues the stream and destroys nothing of it. -/
theorem put (h : Holds size mem stream r) {i : Nat} (hi : i = stream.length % size)
    (hend : i + l.length ≤ size) (hroom : stream.length + l.length ≤ r + size) :
    Holds size (put mem i l) (stream ++ l) r := by
  intro v hv hlt
  rw [length_append] at hlt
  rcases Nat.lt_or_ge v stream.length with hold | hnew
  · rw [getElem_append_left hold, ← h v hv hold]
    apply put_of_not_mem
    -- otherwise the cell would be that of a position of the new piece
    rcases Nat.lt_or_ge (v % size) i with hlt' | hge
    · exact .inl hlt'
    · refine .inr (Nat.le_of_not_lt fun hin => ?_)
      have hpos : (stream.length + (v % size - i)) % size = v % size := by
        rw [add_mod (by omega)]
        omega
      exact mod_ne (u := v) (v := stream.length + (v % size - i)) (by omega) (by omega) hpos.symm
  · have hcell : v % size = i + (v - stream.length) := by
      have := add_mod (by omega : stream.length % size + (v - stream.length) < size)
      rw [hi, ← this]
      congr 1
      omega
    rw [getElem_append_right hnew, hcell, put_at (by omega)]

/-- **Reading** a piece that does not go past the end of the ring. -/
theorem get (h : Holds size mem stream r) {p n i : Nat} (hp : r ≤ p)
    (hn : p + n ≤ stream.length) (hi : i = p % size) (hend : i + n ≤ size) :
    get mem i n = (stream.drop p).take n := by
  refine ext_getElem ?_ fun k h₁ h₂ => ?_
  · simp
    omega
  · have hk : k < n := by simpa using h₁
    have hcell : (p + k) % size = i + k := hi ▸ add_mod (by omega)
    have := h (p + k) (by omega) (by omega)
    rw [hcell] at this
    simp [Ring.get, this]

/-- Passing over cells takes what is in them into the stream. -/
theorem skip (h : Holds size mem stream r) {i n : Nat} (hi : i = stream.length % size)
    (hend : i + n ≤ size) (hroom : stream.length + n ≤ r + size) :
    Holds size mem (stream ++ Ring.get mem i n) r := by
  have := h.put (l := Ring.get mem i n) hi (by simpa using hend) (by simpa using hroom)
  rwa [put_get] at this

end Holds

/-! ## Going round the end -/

/-- Copying a list into the cells from `i` on, and on from the first cell when it reaches the end.
-/
def putRound (size : Nat) (mem : Nat → α) (i : Nat) (l : List α) : Nat → α :=
  if size - i ≤ l.length then put (put mem i (l.take (size - i))) 0 (l.drop (size - i))
  else put mem i l

/-- The contents of `n` cells from `i` on, read in the same way. -/
def getRound (size : Nat) (mem : Nat → α) (i n : Nat) : List α :=
  if size - i ≤ n then get mem i (size - i) ++ get mem 0 (n - (size - i)) else get mem i n

namespace Holds
variable {size r : Nat} {mem : Nat → α} {stream l : List α}

/-- The place behind a piece that reaches the end of the ring, or goes on at its start. -/
theorem add_mod_round {v k : Nat} (h : size ≤ v % size + k) (h' : v % size + k < 2 * size) :
    (v + k) % size = v % size + k - size := by
  rw [← Nat.mod_add_mod, Nat.mod_eq_sub_mod h, Nat.mod_eq_of_lt (by omega)]

/-- **Writing**, wherever the end of the ring is. -/
theorem putRound (h : Holds size mem stream r) {i : Nat} (hi : i = stream.length % size)
    (hlt : i < size) (hroom : stream.length + l.length ≤ r + size) (hlen : l.length ≤ size) :
    Holds size (putRound size mem i l) (stream ++ l) r := by
  unfold Ring.putRound
  split
  · next hrem =>
    have hfirst := h.put (l := l.take (size - i)) hi (by simp; omega) (by simp; omega)
    have hend : (stream ++ l.take (size - i)).length % size = 0 := by
      rw [length_append, length_take, Nat.min_eq_left hrem, add_mod_round] <;> omega
    have hsecond := hfirst.put (l := l.drop (size - i)) hend.symm (by simp; omega) (by simp; omega)
    rwa [append_assoc, take_append_drop] at hsecond
  · exact h.put hi (by omega) hroom

/-- **Reading**, wherever the end of the ring is. -/
theorem getRound (h : Holds size mem stream r) {p n i : Nat} (hp : r ≤ p)
    (hn : p + n ≤ stream.length) (hi : i = p % size) (hlt : i < size) (hlen : n ≤ size) :
    getRound size mem i n = (stream.drop p).take n := by
  unfold Ring.getRound
  split
  · next hrem =>
    have hend : 0 = (p + (size - i)) % size := by
      rw [add_mod_round] <;> omega
    rw [h.get hp (by omega) hi (by omega), h.get (p := p + (size - i)) (by omega) (by omega) hend
      (by omega), ← drop_drop, ← take_add, Nat.add_sub_cancel' hrem]
  · exact h.get hp hn hi (by omega)

end Holds

/-! ## Windows -/

/-- The contents of `n` cells from `i` on, going on at the start of the ring behind its end. -/
def window (size : Nat) (mem : Nat → α) (i n : Nat) : List α :=
  (List.range n).map fun k => mem ((i + k) % size)

@[simp] theorem length_window (size : Nat) (mem : Nat → α) (i n : Nat) :
    (window size mem i n).length = n := by simp [window]

/-- What a window shows is held. -/
theorem holds_window (size : Nat) (mem : Nat → α) {i n : Nat} {before : List α}
    (hbefore : before.length = i) : Holds size mem (before ++ window size mem i n) i := by
  intro v hv hlt
  rw [getElem_append_right (by omega)]
  simp only [window, getElem_map, getElem_range]
  congr 2
  omega

/-- What is held is what the window shows. -/
theorem Holds.window {size r i : Nat} {mem : Nat → α} {stream : List α}
    (h : Holds size mem stream r) (hi : i % size = r % size) :
    Ring.window size mem i (stream.length - r) = stream.drop r := by
  refine ext_getElem (by simp) fun k h₁ h₂ => ?_
  have hk : k < stream.length - r := by simpa using h₁
  have hcell : (i + k) % size = (r + k) % size := by rw [Nat.add_mod, hi, ← Nat.add_mod]
  simp only [Ring.window, getElem_map, getElem_range, getElem_drop, hcell]
  exact h (r + k) (by omega) (by omega)

end Ring

end Lib
