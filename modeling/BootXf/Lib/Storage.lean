import BootXf.Lib.Ring
import BootXf.Lib.Span
import Mathlib.Logic.Function.Basic

/-!
# Storage that is written in pieces

The contents of a device are a function from offsets to bytes. A write puts bytes at an offset, and
a log of writes is what was done in order. `Puts` says that a log leaves given bytes in a span and
touches nothing else.
-/

namespace Lib

open List Option Function

/-- The contents of a device. -/
abbrev Contents := Nat → UInt8

namespace Contents

/-- The bytes that are read at an offset. -/
def read (c : Contents) (offset n : Nat) : List UInt8 := (range' offset n).map c

@[simp] theorem length_read (c : Contents) (offset n : Nat) : (c.read offset n).length = n := by
  rw [read, length_map, length_range']

@[simp] theorem read_zero (c : Contents) (offset : Nat) : c.read offset 0 = [] := rfl

/-- What is read in two pieces. -/
theorem read_append (c : Contents) (offset n m : Nat) :
    c.read offset n ++ c.read (offset + n) m = c.read offset (n + m) := by
  rw [read, read, ← map_append, range'_append_1]
  rfl

end Contents

/-- Bytes that are put at an offset. -/
structure Write where
  offset : Nat
  data : List UInt8

namespace Write

/-- The offsets that are written. -/
def span (w : Write) : Span := ⟨w.offset, w.data.length⟩

/-- The contents after the write. -/
def write (w : Write) (c : Contents) : Contents :=
  fun a => if w.span.Mem a then w.data.getD (a - w.offset) 0 else c a

theorem write_nil (offset : Nat) (c : Contents) : (Write.mk offset []).write c = c := by
  funext a
  exact if_neg fun h => by
    obtain ⟨hlo, hhi⟩ := h
    exact Nat.not_lt.mpr hlo hhi

variable {l : List UInt8}

/-- What is written. -/
theorem write_at {offset k : Nat} (hk : k < l.length) (c : Contents) :
    (Write.mk offset l).write c (offset + k) = l[k] := by
  have hmem : (Write.mk offset l).span.Mem (offset + k) :=
    ⟨Nat.le_add_right _ _, Nat.add_lt_add_left hk _⟩
  rw [write, if_pos hmem, Nat.add_sub_cancel_left, getD_eq_getElem?_getD,
    getElem?_eq_getElem hk, getD_some]

/-- What is beside a write. -/
theorem write_of_not_mem {offset a : Nat} (h : a < offset ∨ offset + l.length ≤ a)
    (c : Contents) : (Write.mk offset l).write c a = c a := by
  refine if_neg fun hmem => ?_
  obtain ⟨hlo, hhi⟩ := hmem
  dsimp only [span] at hlo hhi
  omega

/-- The first byte, then the others. -/
theorem write_cons (offset : Nat) (b : UInt8) (l : List UInt8) (c : Contents) :
    (Write.mk offset (b :: l)).write c = (Write.mk (offset + 1) l).write (update c offset b) := by
  funext a
  rcases Nat.lt_trichotomy a offset with hlt | rfl | hgt
  · rw [write_of_not_mem (.inl hlt), write_of_not_mem (.inl (Nat.lt_succ_of_lt hlt)),
      update_of_ne (Nat.ne_of_lt hlt)]
  · rw [write_of_not_mem (.inl (Nat.lt_succ_self a)), update_self]
    exact write_at (show 0 < (b :: l).length from Nat.succ_pos _) c
  · rcases Nat.lt_or_ge (a - offset) (l.length + 1) with hin | hout
    · obtain ⟨k, rfl⟩ : ∃ k, a = offset + (k + 1) := ⟨a - offset - 1, by omega⟩
      have hk : k < l.length := by omega
      rw [write_at (Nat.succ_lt_succ hk), show offset + (k + 1) = offset + 1 +
        k by omega, write_at hk]
      rfl
    · rw [write_of_not_mem (.inr (by rw [length_cons]; omega)), write_of_not_mem (.inr (by omega)),
        update_of_ne (Nat.ne_of_gt hgt)]

/-- **Read, change and write back**: what has been put into a block is what changes. -/
theorem write_block {c : Contents} {base n offset : Nat} {buffer : Nat → UInt8}
    (hbuffer : ∀ i < n, buffer i = c (base + i)) (hin : l = [] ∨ offset + l.length ≤ n) :
    (Write.mk base ((List.range n).map (Ring.put buffer offset l))).write c =
      (Write.mk (base + offset) l).write c := by
  have hspan :
      (Write.mk base ((List.range n).map (Ring.put buffer offset l))).span = ⟨base, n⟩ := by
    rw [span, length_map, length_range]
  have hsame : ∀ i < n, (offset ≤ i → offset + l.length ≤ i) →
      Ring.put buffer offset l i = c (base + i) := fun i hi hnot => by
    rw [Ring.put_of_not_mem (by omega)]
    exact hbuffer i hi
  funext a
  unfold write
  rw [hspan]
  dsimp only
  by_cases hblock : (⟨base, n⟩ : Span).Mem a
  · have ⟨hlo, hhi⟩ := hblock
    dsimp only at hlo hhi
    rw [if_pos hblock, getD_eq_getElem?_getD, getElem?_map,
      getElem?_range (by omega), map_some, getD_some]
    by_cases hpatch : (Write.mk (base + offset) l).span.Mem a
    · have ⟨hfrom, hto⟩ := hpatch
      dsimp only [span] at hfrom hto
      have hat : a - base = offset + (a - (base + offset)) := by omega
      have hlt : a - (base + offset) < l.length := by omega
      rw [if_pos hpatch, hat, Ring.put_at hlt, getD_eq_getElem?_getD,
        getElem?_eq_getElem hlt, getD_some]
    · have hnot : offset ≤ a - base → offset + l.length ≤ a - base := fun hle =>
        Nat.le_of_not_lt fun hlt =>
          hpatch ⟨by dsimp only [span]; omega, by dsimp only [span]; omega⟩
      rw [if_neg hpatch, hsame _ (by omega) hnot, Nat.add_sub_cancel' hlo]
  · rw [if_neg hblock, if_neg]
    rintro ⟨hfrom, hto⟩
    dsimp only [span] at hfrom hto
    rcases hin with rfl | hin
    · rw [length_nil] at hto
      omega
    · exact hblock ⟨by dsimp only; omega, by dsimp only; omega⟩

/-- The contents after a log. -/
def apply (ws : List Write) (c : Contents) : Contents := ws.foldl (fun c w => w.write c) c

theorem apply_append (ws ws' : List Write) (c : Contents) :
    apply (ws ++ ws') c = apply ws' (apply ws c) := foldl_append

/-- What no write touches stays. -/
theorem apply_of_not_mem {ws : List Write} {c : Contents} {a : Nat}
    (h : ∀ w ∈ ws, ¬ w.span.Mem a) : apply ws c a = c a := by
  induction ws generalizing c with
  | nil => rfl
  | cons w ws ih =>
    have hrest := ih (c := w.write c) fun w' hw' => h w' (.tail _ hw')
    have hhere : w.write c a = c a := if_neg (h w (.head _))
    exact hrest.trans hhere

end Write

/-- The contents hold these bytes in the span. -/
def Contents.Holds (c : Contents) (s : Span) (buf : Nat → UInt8) : Prop :=
  ∀ k < s.len, c (s.base + k) = buf k

/-- The log puts bytes into the span and changes nothing else. -/
structure Puts (ws : List Write) (s : Span) (buf : Nat → UInt8) : Prop where
  within : ∀ w ∈ ws, w.span.Within s
  holds : ∀ c, (Write.apply ws c).Holds s buf

namespace Puts
variable {ws ws' : List Write} {s t : Span} {buf buf' : Nat → UInt8} {c : Contents}

theorem nil (base : Nat) (buf : Nat → UInt8) : Puts [] ⟨base, 0⟩ buf :=
  ⟨fun _ h => (not_mem_nil h).elim, fun _ _ h => (Nat.not_lt_zero _ h).elim⟩

/-- Beside the span nothing changes. -/
theorem other (h : Puts ws s buf) {a : Nat} (ha : ¬ s.Mem a) : Write.apply ws c a = c a :=
  Write.apply_of_not_mem fun w hw hmem => ha ((h.within w hw).mem hmem)

/-- What a device holds beside the span it still holds. -/
theorem keeps (h : Puts ws s buf) (hdisjoint : s.Disjoint t) (ht : c.Holds t buf') :
    (Write.apply ws c).Holds t buf' := by
  intro k hk
  rw [h.other, ht k hk]
  rintro ⟨hlo, hhi⟩
  simp only [Span.Disjoint, Span.stop] at hdisjoint
  omega

/-- A buffer that is put down in two parts. -/
theorem append {base n m : Nat} (h : Puts ws ⟨base, n⟩ buf)
    (h' : Puts ws' ⟨base + n, m⟩ fun k => buf (n + k)) : Puts (ws ++ ws') ⟨base, n + m⟩ buf where
  within w hw := by
    rcases mem_append.mp hw with hw | hw
    · obtain ⟨hlo, hhi⟩ := h.within w hw
      exact ⟨hlo, by dsimp only at hhi ⊢; omega⟩
    · obtain ⟨hlo, hhi⟩ := h'.within w hw
      exact ⟨by dsimp only at hlo ⊢; omega, by dsimp only at hhi ⊢; omega⟩
  holds c k hk := by
    rw [Write.apply_append]
    dsimp only at hk ⊢
    rcases Nat.lt_or_ge k n with hlt | hge
    · rw [h'.other (fun hmem => ?_)]
      · exact h.holds c k hlt
      · have := hmem.1
        dsimp only at this
        omega
    · have := h'.holds (Write.apply ws c) (k - n) (by dsimp only; omega)
      dsimp only at this
      rwa [Nat.add_assoc, Nat.add_sub_cancel' hge] at this

/-- One write. -/
theorem single (offset n : Nat) (buf : Nat → UInt8) :
    Puts [⟨offset, (List.range n).map buf⟩] ⟨offset, n⟩ buf where
  within w hw := by
    cases mem_singleton.mp hw
    simp only [Write.span, Span.Within, length_map, length_range]
    omega
  holds c k hk := by
    have hmem : (Write.span ⟨offset, (List.range n).map buf⟩).Mem (offset + k) := by
      simp only [Write.span, Span.Mem, length_map, length_range]
      exact ⟨Nat.le_add_right _ _, Nat.add_lt_add_left hk _⟩
    show Write.write _ c (offset + k) = buf k
    rw [Write.write, if_pos hmem, Nat.add_sub_cancel_left, getD_eq_getElem?_getD,
      getElem?_map, getElem?_range hk]
    rfl

end Puts

end Lib
