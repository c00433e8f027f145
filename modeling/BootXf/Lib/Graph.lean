import Mathlib.Algebra.Order.BigOperators.Group.List
import Mathlib.Algebra.Order.Group.Nat
import Mathlib.Algebra.GroupWithZero.Nat

/-!
# Acyclic graphs by their successor lists

A graph is the list of successors of each vertex. `Reachable` is what a list of vertices leads to.
In a graph whose edges go down in rank, `paths` counts the paths that start at a vertex; it bounds
how often a search that follows every edge it meets comes past the vertices below.
-/

namespace Lib

open List

section
variable {V : Type _} {next : V → List V}

/-- The vertices that can be reached from some vertices, these included. -/
inductive Reachable (next : V → List V) (start : List V) : V → Prop
  | start {v : V} : v ∈ start → Reachable next start v
  | next {u v : V} : Reachable next start u → v ∈ next u → Reachable next start v

/-- A list that has the start, reachable vertices only, and every successor of its own, is what can
be reached. -/
theorem mem_iff_reachable {start l : List V} (hstart : ∀ v ∈ start, v ∈ l)
    (hreach : ∀ v ∈ l, Reachable next start v) (hnext : ∀ u ∈ l, ∀ v ∈ next u, v ∈ l) (v : V) :
    v ∈ l ↔ Reachable next start v := by
  refine ⟨hreach v, fun h => ?_⟩
  induction h with
  | start hv => exact hstart _ hv
  | next _ hv ih => exact hnext _ ih _ hv

/-- The number of paths that start at a vertex, going so many steps at most. -/
def pathsWithin (next : V → List V) : Nat → V → Nat
  | 0, _ => 1
  | n + 1, v => 1 + ((next v).map (pathsWithin next n)).sum

theorem pathsWithin_pos (n : Nat) (v : V) : 0 < pathsWithin next n v := by
  cases n with
  | zero => exact Nat.one_pos
  | succ n =>
    rw [pathsWithin]
    omega

theorem pathsWithin_succ (n : Nat) (v : V) : pathsWithin next n v ≤ pathsWithin next (n + 1) v := by
  induction n generalizing v with
  | zero => exact pathsWithin_pos 1 v
  | succ n ih =>
    rw [pathsWithin, pathsWithin]
    exact Nat.add_le_add_left (sum_le_sum fun u _ => ih u) 1

theorem pathsWithin_mono {m n : Nat} (h : m ≤ n) (v : V) :
    pathsWithin next m v ≤ pathsWithin next n v := by
  induction h with
  | refl => exact Nat.le_refl _
  | step _ ih => exact Nat.le_trans ih (pathsWithin_succ _ v)

/-- The number of paths that start at a vertex, in a graph of such ranks. -/
def paths (next : V → List V) (rank : V → Nat) (v : V) : Nat := pathsWithin next (rank v) v

/-- **The paths from the successors of a vertex are fewer than its own.** -/
theorem sum_paths_lt {rank : V → Nat} (hrank : ∀ u v, v ∈ next u → rank v < rank u) (u : V) :
    ((next u).map (paths next rank)).sum < paths next rank u := by
  rw [paths]
  cases hr : rank u with
  | zero =>
    have hnil : next u = [] := by
      refine eq_nil_iff_forall_not_mem.mpr fun v hv => ?_
      have := hrank u v hv
      omega
    rw [hnil]
    exact Nat.one_pos
  | succ n =>
    have hle : ((next u).map (paths next rank)).sum ≤ ((next u).map (pathsWithin next n)).sum := by
      refine sum_le_sum fun v hv => pathsWithin_mono ?_ v
      have := hrank u v hv
      omega
    rw [pathsWithin]
    omega

end

end Lib
