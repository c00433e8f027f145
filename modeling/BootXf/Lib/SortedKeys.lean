import Mathlib.Algebra.GroupWithZero.Nat

/-!
# Sorted keys

A table whose entries are in the order of their keys: binary search for a key, and the place at
which a new one is put in. `search_eq_some_iff` and `search_eq_none_iff` say what the search
answers, and `Sorted.insertIdx` that the order is kept.
-/

namespace Lib

open List

/-- Keys in increasing order. -/
def Sorted (xs : List Nat) : Prop := xs.Pairwise (· < ·)

/-- Binary search between `low` and `stop`, which is one behind the upper end. -/
def searchFrom (xs : List Nat) (k : Nat) : (fuel low stop : Nat) → Option Nat
  | 0, _, _ => none
  | fuel + 1, low, stop =>
    if low < stop then
      let mid := (low + (stop - 1)) / 2
      let current := xs.getD mid 0
      if current < k then searchFrom xs k fuel (mid + 1) stop
      else if k < current then searchFrom xs k fuel low mid
      else some mid
    else none

/-- Binary search. -/
def search (xs : List Nat) (k : Nat) : Option Nat := searchFrom xs k (xs.length + 1) 0 xs.length

/-- The first place that has a greater key, or the end. -/
def place (xs : List Nat) (k : Nat) : Nat := xs.findIdx (k < ·)

namespace Sorted
variable {xs : List Nat} {k : Nat} {i j a b : Nat}

theorem nodup (h : Sorted xs) : xs.Nodup := List.Pairwise.imp Nat.ne_of_lt h

theorem lt_of_lt (h : Sorted xs) (hi : xs[i]? = some a) (hj : xs[j]? = some b)
    (hlt : i < j) : a < b := by
  obtain ⟨hi', rfl⟩ := List.getElem?_eq_some_iff.mp hi
  obtain ⟨hj', rfl⟩ := List.getElem?_eq_some_iff.mp hj
  exact pairwise_iff_getElem.mp h i j hi' hj' hlt

/-- A place before a smaller key, or behind a greater one. -/
theorem index_lt (h : Sorted xs) (hi : xs[i]? = some a) (hj : xs[j]? = some b)
    (hlt : a < b) : i < j := by
  rcases Nat.lt_trichotomy i j with hij | rfl | hij
  · exact hij
  · rw [hi] at hj
    cases hj
    exact absurd hlt (Nat.lt_irrefl _)
  · exact absurd (h.lt_of_lt hj hi hij) (Nat.not_lt.mpr (Nat.le_of_lt hlt))

/-- A key has one place. -/
theorem index_unique (h : Sorted xs) {i j : Nat} (hi : xs[i]? = some k) (hj : xs[j]? = some k) :
    i = j := by
  rcases Nat.lt_trichotomy i j with hij | rfl | hij
  · exact absurd (h.lt_of_lt hi hj hij) (Nat.lt_irrefl _)
  · rfl
  · exact absurd (h.lt_of_lt hj hi hij) (Nat.lt_irrefl _)

/-- **Binary search**, over a part that the key is in when it is there at all. -/
theorem searchFrom_spec (h : Sorted xs) {fuel low stop : Nat} (hfuel : stop - low < fuel)
    (hstop : stop ≤ xs.length) (inside : ∀ i, xs[i]? = some k → low ≤ i ∧ i < stop) :
    (∃ i, searchFrom xs k fuel low stop = some i ∧ xs[i]? = some k) ∨
      (searchFrom xs k fuel low stop = none ∧ k ∉ xs) := by
  induction fuel generalizing low stop with
  | zero => exact absurd hfuel (Nat.not_lt_zero _)
  | succ fuel ih =>
    rw [searchFrom]
    rcases Nat.lt_or_ge low stop with hlt | hge
    · have hmid : (low + (stop - 1)) / 2 < xs.length := by omega
      have hcurrent : xs[(low + (stop - 1)) / 2]? = some (xs.getD ((low + (stop - 1)) / 2) 0) := by
        simp [hmid]
      simp only [if_pos hlt]
      generalize xs.getD ((low + (stop - 1)) / 2) 0 = current at hcurrent
      rcases Nat.lt_trichotomy current k with hless | rfl | hgreater
      · rw [if_pos hless]
        refine ih (by omega) hstop fun i hi => ?_
        have hafter := h.index_lt hcurrent hi hless
        have hin := inside i hi
        omega
      · rw [if_neg (Nat.lt_irrefl _), if_neg (Nat.lt_irrefl _)]
        exact .inl ⟨_, rfl, hcurrent⟩
      · rw [if_neg (Nat.not_lt.mpr (Nat.le_of_lt hgreater)), if_pos hgreater]
        refine ih (by omega) (by omega) fun i hi => ?_
        have hbefore := h.index_lt hi hcurrent hgreater
        have hin := inside i hi
        omega
    · rw [if_neg (Nat.not_lt.mpr hge)]
      refine .inr ⟨rfl, fun hmem => ?_⟩
      obtain ⟨i, hi⟩ := mem_iff_getElem?.mp hmem
      have hin := inside i hi
      omega

theorem search_spec (h : Sorted xs) :
    (∃ i, search xs k = some i ∧ xs[i]? = some k) ∨ (search xs k = none ∧ k ∉ xs) :=
  h.searchFrom_spec (by omega) (Nat.le_refl _) fun i hi =>
    ⟨Nat.zero_le _, (List.getElem?_eq_some_iff.mp hi).1⟩

theorem search_eq_some_iff (h : Sorted xs) {i : Nat} :
    search xs k = some i ↔ xs[i]? = some k := by
  rcases h.search_spec (k := k) with ⟨j, hsearch, hj⟩ | ⟨hsearch, hnot⟩
  · rw [hsearch]
    constructor
    · rintro ⟨⟩
      exact hj
    · intro hi
      rw [h.index_unique hi hj]
  · rw [hsearch]
    constructor
    · nofun
    · intro hi
      exact absurd (mem_of_getElem? hi) hnot

theorem search_eq_none_iff (h : Sorted xs) : search xs k = none ↔ k ∉ xs := by
  rcases h.search_spec (k := k) with ⟨j, hsearch, hj⟩ | ⟨hsearch, hnot⟩
  · rw [hsearch]
    exact ⟨nofun, fun hnot => absurd (mem_of_getElem? hj) hnot⟩
  · exact ⟨fun _ => hnot, fun _ => hsearch⟩

/-- What is put in at its place. -/
theorem mem_insertIdx {xs : List Nat} {k x : Nat} :
    x ∈ xs.insertIdx (place xs k) k ↔ x = k ∨ x ∈ xs :=
  List.mem_insertIdx findIdx_le_length

/-- A key that is put in at its place keeps the order. -/
theorem insertIdx (h : Sorted xs) (hnew : k ∉ xs) : Sorted (xs.insertIdx (place xs k) k) := by
  induction xs with
  | nil => exact pairwise_singleton _ _
  | cons x xs ih =>
    obtain ⟨hx, hxs⟩ := pairwise_cons.mp h
    rcases Nat.lt_or_ge k x with hlt | hge
    · have hplace : place (x :: xs) k = 0 := by simp [place, findIdx_cons, hlt]
      rw [hplace, insertIdx_zero]
      refine pairwise_cons.mpr ⟨fun y hy => ?_, h⟩
      rcases mem_cons.mp hy with rfl | hy
      · exact hlt
      · exact Nat.lt_trans hlt (hx y hy)
    · have hplace : place (x :: xs) k = place xs k + 1 := by
        simp [place, findIdx_cons, Nat.not_lt.mpr hge]
      rw [hplace, insertIdx_succ_cons]
      have hne : k ≠ x := fun heq => hnew (heq ▸ mem_cons_self)
      refine pairwise_cons.mpr ⟨fun y hy => ?_, ih hxs fun hmem =>
        hnew (mem_cons_of_mem _ hmem)⟩
      rcases mem_insertIdx.mp hy with rfl | hy
      · exact Nat.lt_of_le_of_ne hge hne.symm
      · exact hx y hy

end Sorted

end Lib
