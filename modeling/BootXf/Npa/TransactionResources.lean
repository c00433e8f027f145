import BootXf.Lib.Graph

/-!
# The resource list of a transaction

The definition of a transaction lists the resources it was given and then walks along the list,
pushing the dependencies of each resource to the back. A dependency that is already listed is moved
to the back, so that it comes past the walk again; the walk ends because the resources depend on
each other without cycles. `resourceList_closed` is what comes out: the given resources and
everything they depend on.
-/

namespace Npa

open Lib List

/-- The address of a resource structure. -/
abbrev ResourceHandle := Nat

/-- The resources and what they depend on, which is without cycles: a node is created when its
dependencies are there. -/
structure ResourceGraph where
  /-- The resources behind `resource->node->dependencies`, `none` for a handle that is not set. -/
  dependencies : ResourceHandle → List (Option ResourceHandle)
  rank : ResourceHandle → Nat
  acyclic : ∀ {r d}, some d ∈ dependencies r → rank d < rank r

namespace ResourceGraph
variable (g : ResourceGraph)

/-- `dep_list`: the dependencies of a resource, each of them once. -/
def depList (r : ResourceHandle) : List ResourceHandle :=
  (g.dependencies r).foldl (fun list dependency => match dependency with
    | some d => if d ∈ list then list else list ++ [d]
    | none => list) []

theorem mem_depList (r d : ResourceHandle) : d ∈ g.depList r ↔ some d ∈ g.dependencies r := by
  have hfold : ∀ (ds : List (Option ResourceHandle)) (list : List ResourceHandle),
      d ∈ ds.foldl (fun list dependency => match dependency with
        | some d => if d ∈ list then list else list ++ [d]
        | none => list) list ↔ d ∈ list ∨ some d ∈ ds := by
    intro ds
    induction ds with
    | nil => simp
    | cons dependency ds ih =>
      intro list
      rw [foldl_cons, ih]
      cases dependency with
      | none => simp
      | some d' =>
        by_cases hd : d' ∈ list
        · simp only [if_pos hd, mem_cons, Option.some.injEq]
          constructor
          · rintro (h | h)
            · exact .inl h
            · exact .inr (.inr h)
          · rintro (h | rfl | h)
            · exact .inl h
            · exact .inl hd
            · exact .inr h
        · simp [if_neg hd, or_assoc]
  simpa [depList] using hfold (g.dependencies r) []

/-- A dependency ranks below its resource. -/
theorem rank_lt {r d : ResourceHandle} (h : d ∈ g.depList r) : g.rank d < g.rank r :=
  g.acyclic ((g.mem_depList r d).mp h)

/-- The paths from a resource are more than those from its dependencies. -/
theorem sum_paths_lt (r : ResourceHandle) :
    ((g.depList r).map (paths g.depList g.rank)).sum < paths g.depList g.rank r :=
  Lib.sum_paths_lt (fun _ _ h => g.rank_lt h) r

end ResourceGraph

/-! ## The walk -/

/-- `resource_list` during the walk: what `it1` has passed, the element it points to, and the
elements after that. -/
structure Walk where
  before : List ResourceHandle
  current : ResourceHandle
  after : List ResourceHandle
  pessimisticLocking : Bool

namespace Walk
variable (w : Walk)

/-- The list as a whole. -/
def list : List ResourceHandle := w.before ++ w.current :: w.after

/-- A dependency on its way into the list. If it is listed, there is a diamond: its first copy is
moved to the back. The shuffle-delete cannot move the last element, and there the search ends at
`NULL`, as it does when the dependency is not listed, and a copy is pushed. -/
def addDependency (ptr : ResourceHandle) : Walk :=
  if ptr ∈ w.before then
    { w with
      before := w.before.erase ptr, after := w.after ++ [ptr], pessimisticLocking := true }
  else if w.current = ptr then
    match w.after with
    | [] => { w with after := [ptr], pessimisticLocking := true }
    | next :: after =>
      { w with current := next, after := after ++ [ptr], pessimisticLocking := true }
  else if ptr ∈ w.after.dropLast then
    { w with after := w.after.erase ptr ++ [ptr], pessimisticLocking := true }
  else
    { w with
      after := w.after ++ [ptr]
      pessimisticLocking := w.pessimisticLocking || w.after.contains ptr }

end Walk

/-- The outer loop of `npa_transaction_resources_available`, going so many steps at most. -/
def ResourceGraph.walk (g : ResourceGraph) : Nat → Walk → Option Walk
  | 0, _ => none
  | n + 1, w =>
    let w := (g.depList w.current).foldl Walk.addDependency w
    match w.after with
    | [] => some w
    | next :: after => g.walk n { w with before := w.before ++ [w.current], current := next, after }

/-- The number of steps that the walk has in front of it, at most. -/
def ResourceGraph.steps (g : ResourceGraph) (resources : List ResourceHandle) : Nat :=
  (resources.map (paths g.depList g.rank)).sum

/-- The sorted resource list of a transaction, and whether there is a diamond in it. -/
def ResourceGraph.resourceList (g : ResourceGraph) :
    List ResourceHandle → Option (List ResourceHandle × Bool)
  | [] => none
  | r :: rs =>
    (g.walk (g.steps (r :: rs)) ⟨[], r, rs, false⟩).map fun w => (w.list, w.pessimisticLocking)

/-! ## What the walk keeps -/

section
variable {w : Walk} {ptr : ResourceHandle} {start : List ResourceHandle}

/-- The resources of a walk. -/
theorem Walk.mem_list {w : Walk} {x : ResourceHandle} :
    x ∈ w.list ↔ x ∈ w.before ∨ x = w.current ∨ x ∈ w.after := by
  simp [Walk.list]

/-- What adding a dependency does: it is listed then, nothing is lost, what has been passed stays
passed or goes to the back, and the part in front of the walk has gained the dependency at most. -/
structure Walk.Added (f : ResourceHandle → Nat) (w : Walk) (ptr : ResourceHandle) (w' : Walk) :
    Prop where
  current : w'.current = w.current
  mem : ∀ x, x ∈ w'.list ↔ x ∈ w.list ∨ x = ptr
  before : ∀ x ∈ w'.before, x ∈ w.before
  after : (w'.after.map f).sum ≤ (w.after.map f).sum + f ptr

theorem mem_erase_or (ptr : ResourceHandle) (l : List ResourceHandle) (x : ResourceHandle) :
    x ∈ l.erase ptr ∨ x = ptr ↔ x ∈ l ∨ x = ptr := by
  by_cases hx : x = ptr
  · simp [hx]
  · simp [hx, mem_erase_of_ne hx]

/-- Erasing a resource does not raise a sum. -/
theorem sum_map_erase_le (ptr : ResourceHandle) (f : ResourceHandle → Nat)
    (l : List ResourceHandle) :
    ((l.erase ptr).map f).sum ≤ (l.map f).sum := by
  induction l with
  | nil => exact Nat.le_refl 0
  | cons x l ih =>
    rw [erase_cons]
    split
    · simp
    · simpa using ih

theorem Walk.added (f : ResourceHandle → Nat) (hne : w.current ≠ ptr) :
    Walk.Added f w ptr (w.addDependency ptr) := by
  have hpush : ((w.after ++ [ptr]).map f).sum = (w.after.map f).sum + f ptr := by simp
  unfold Walk.addDependency
  rw [if_neg hne]
  split
  · next hbefore =>
    refine ⟨rfl, fun x => ?_, fun x hx => mem_of_mem_erase hx, Nat.le_of_eq hpush⟩
    have := mem_erase_or ptr w.before x
    simp only [Walk.mem_list, mem_append, mem_singleton]
    grind
  · split
    · next hafter =>
      refine ⟨rfl, fun x => ?_, fun x hx => hx, ?_⟩
      · have := mem_erase_or ptr w.after x
        simp only [Walk.mem_list, mem_append, mem_singleton]
        grind
      · have hle := sum_map_erase_le ptr f w.after
        simp only [map_append, sum_append, map_cons, map_nil, sum_cons,
          sum_nil]
        omega
    · refine ⟨rfl, fun x => ?_, fun x hx => hx, Nat.le_of_eq hpush⟩
      simp only [Walk.mem_list, mem_append, mem_singleton]
      grind

/-- The dependencies of a resource on their way into the list, one after the other. -/
theorem Walk.added_all (f : ResourceHandle → Nat) {ds : List ResourceHandle}
    (hne : ∀ d ∈ ds, w.current ≠ d) :
    (ds.foldl addDependency w).current = w.current ∧
    (∀ x, x ∈ (ds.foldl addDependency w).list ↔ x ∈ w.list ∨ x ∈ ds) ∧
    (∀ x ∈ (ds.foldl addDependency w).before, x ∈ w.before) ∧
    ((ds.foldl addDependency w).after.map f).sum ≤ (w.after.map f).sum + (ds.map f).sum := by
  induction ds generalizing w with
  | nil => exact ⟨rfl, by simp, fun _ h => h, by simp⟩
  | cons d ds ih =>
    have hadded := Walk.added f (hne d mem_cons_self)
    have hrest : ∀ d' ∈ ds, (w.addDependency d).current ≠ d' := by
      intro d' hd'
      rw [hadded.current]
      exact hne d' (mem_cons_of_mem _ hd')
    obtain ⟨hcurrent, hmem, hbefore, hafter⟩ := ih hrest
    rw [foldl_cons]
    refine ⟨hcurrent.trans hadded.current, fun x => ?_,
      fun x hx => hadded.before x (hbefore x hx), ?_⟩
    · rw [hmem, hadded.mem, mem_cons, or_assoc]
    · have := hadded.after
      rw [map_cons, sum_cons]
      omega

/-- What the walk keeps: the given resources are listed, nothing that they do not lead to is, and
the dependencies of what has been passed are listed. -/
structure Walk.Sorted (g : ResourceGraph) (start : List ResourceHandle) (w : Walk) : Prop where
  given : ∀ x ∈ start, x ∈ w.list
  reachable : ∀ x ∈ w.list, Reachable g.depList start x
  passed : ∀ x ∈ w.before, ∀ d ∈ g.depList x, d ∈ w.list

/-- **The walk ends, and everything that was to be listed is.** Each step takes the paths from one
resource off those that lie in front of it, and puts those from its dependencies back at most. -/
theorem ResourceGraph.walk_sorted (g : ResourceGraph) {n : Nat} (hw : w.Sorted g start)
    (hn : paths g.depList g.rank w.current + (w.after.map (paths g.depList g.rank)).sum ≤ n) :
    ∃ w', g.walk n w = some w' ∧ ∀ x, x ∈ w'.list ↔ Reachable g.depList start x := by
  induction n generalizing w with
  | zero =>
    have : 0 < paths g.depList g.rank w.current := pathsWithin_pos ..
    omega
  | succ n ih =>
    have hself : ∀ d ∈ g.depList w.current, w.current ≠ d := by
      intro d hd heq
      have := g.rank_lt hd
      rw [heq] at this
      omega
    obtain ⟨hcurrent, hmem, hbefore, hafter⟩ := Walk.added_all (paths g.depList g.rank) hself
    have hpaths := g.sum_paths_lt w.current
    generalize hv : (g.depList w.current).foldl Walk.addDependency w = v at *
    have hgiven : ∀ x ∈ start, x ∈ v.list := fun x hx => (hmem x).mpr (.inl (hw.given x hx))
    have hcur : w.current ∈ w.list := Walk.mem_list.mpr (.inr (.inl rfl))
    have hreach : ∀ x ∈ v.list, Reachable g.depList start x := by
      intro x hx
      rcases (hmem x).mp hx with hx | hx
      · exact hw.reachable x hx
      · exact .next (hw.reachable _ hcur) hx
    have hpassed : ∀ x, x ∈ v.before ∨ x = v.current → ∀ d ∈ g.depList x, d ∈ v.list := by
      rintro x (hx | rfl) d hd
      · exact (hmem d).mpr (.inl (hw.passed x (hbefore x hx) d hd))
      · rw [hcurrent] at hd
        exact (hmem d).mpr (.inr hd)
    rw [ResourceGraph.walk]
    simp only [hv]
    cases hlist : v.after with
    | nil =>
      refine ⟨v, rfl, mem_iff_reachable hgiven hreach fun x hx => hpassed x ?_⟩
      rcases Walk.mem_list.mp hx with hx | hx | hx
      · exact .inl hx
      · exact .inr hx
      · rw [hlist] at hx
        cases hx
    | cons next after =>
      have hsame : ({ v with before := v.before ++ [v.current], current := next, after } :
          Walk).list = v.list := by
        simp [Walk.list, hlist]
      refine ih ⟨?_, ?_, ?_⟩ ?_
      · rw [hsame]
        exact hgiven
      · rw [hsame]
        exact hreach
      · intro x hx
        rw [hsame]
        refine hpassed x ?_
        simpa using hx
      · rw [hlist] at hafter
        simp only [map_cons, sum_cons] at hafter ⊢
        omega

/-- **The resource list of a transaction is closed under dependencies.** It has the given resources
and what they depend on, directly or not, and nothing else. -/
theorem ResourceGraph.resourceList_closed (g : ResourceGraph)
    (hne : start ≠ []) : ∃ list diamond, g.resourceList start = some (list, diamond) ∧
      ∀ x, x ∈ list ↔ Reachable g.depList start x := by
  cases start with
  | nil => exact absurd rfl hne
  | cons r rs =>
    have hstart : Walk.Sorted g (r :: rs) ⟨[], r, rs, false⟩ :=
      ⟨fun x hx => hx, fun x hx => .start hx, fun x hx => by cases hx⟩
    obtain ⟨w, hw, hlist⟩ := g.walk_sorted (n := g.steps (r :: rs)) hstart (Nat.le_refl _)
    exact ⟨w.list, w.pessimisticLocking, by rw [ResourceGraph.resourceList, hw]; rfl, hlist⟩

end

/-- A diamond: one depends on two and three, which both depend on four. -/
def diamondGraph : ResourceGraph where
  dependencies r := match r with
    | 1 => [some 2, none, some 3]
    | 2 => [some 4]
    | 3 => [some 4]
    | _ => []
  rank r := 4 - r
  acyclic {r d} h := by
    split at h
    · obtain rfl | rfl : d = 2 ∨ d = 3 := by simpa using h
      · decide
      · decide
    · obtain rfl : d = 4 := by simpa using h
      decide
    · obtain rfl : d = 4 := by simpa using h
      decide
    · cases h

example : diamondGraph.resourceList [1] = some ([1, 2, 3, 4, 4], true) := by decide

end Npa
