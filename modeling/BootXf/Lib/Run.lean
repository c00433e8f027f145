import Mathlib.Algebra.GroupWithZero.Nat

/-!
# Runs of labelled transition systems

A component driven by calls is a step relation `Step s e t`: in state `s` the event `e` (a call
together with what it answered) leads to state `t`. A run carries its history, newest event first,
so that "since the last such call" is a recursion on the history.
-/

namespace Lib

open List Option

section
variable {S E : Type _} {Step : S → E → S → Prop} {f : S → E → Option S}

/-- The runs of a step relation from a start state, with the events so far, newest first. -/
inductive Run (Step : S → E → S → Prop) (s₀ : S) : List E → S → Prop
  | start : Run Step s₀ [] s₀
  | step {h : List E} {s t : S} {e : E} : Run Step s₀ h s → Step s e t → Run Step s₀ (e :: h) t

namespace Run

/-- **The induction rule.** What relates the empty history to the start state and survives one
step of a run relates every history to the state it leads to. -/
theorem invariant {s₀ : S} {P : List E → S → Prop} (h₀ : P [] s₀)
    (hstep : ∀ {h s e t}, Run Step s₀ h s → P h s → Step s e t → P (e :: h) t)
    {h : List E} {s : S} (run : Run Step s₀ h s) : P h s := by
  induction run with
  | start => exact h₀
  | step run hs ih => exact hstep run ih hs

/-- The induction rule for a property of the state alone. -/
theorem state_invariant {s₀ : S} {P : S → Prop} (h₀ : P s₀)
    (hstep : ∀ {s e t}, P s → Step s e t → P t) {h : List E} {s : S} (run : Run Step s₀ h s) :
    P s :=
  run.invariant (P := fun _ s => P s) h₀ (fun _ hp hs => hstep hp hs)

end Run

/-- Carrying out events, the oldest first, with a function that answers where they lead. -/
def execute (f : S → E → Option S) (s : S) : List E → Option S
  | [] => some s
  | e :: es => (f s e).bind fun t => execute f t es

theorem execute_append {s : S} {es es' : List E} :
    execute f s (es ++ es') = (execute f s es).bind fun t => execute f t es' := by
  induction es generalizing s with
  | nil => rfl
  | cons e es ih =>
    rw [cons_append, execute, execute, Option.bind_assoc]
    exact congrArg _ (funext fun t => ih)

/-- Carrying out operations that each answer something, with the history of a run. -/
def perform {O A : Type _} (f : S → O → Option (S × A)) (s : S) (h : List (O × A)) :
    List O → Option (S × List (O × A))
  | [] => some (s, h)
  | o :: os => (f s o).bind fun answer => perform f answer.1 ((o, answer.2) :: h) os

theorem Run.of_perform {O A : Type _} {Step : S → O × A → S → Prop} {f : S → O → Option (S × A)}
    (hf : ∀ {s o t a}, f s o = some (t, a) → Step s (o, a) t) {s₀ s t : S} {h h' : List (O × A)}
    {os : List O} (run : Run Step s₀ h s) (hperform : perform f s h os = some (t, h')) :
    Run Step s₀ h' t := by
  induction os generalizing s h with
  | nil =>
    cases hperform
    exact run
  | cons o os ih =>
    obtain ⟨⟨u, a⟩, hstep, hrest⟩ := bind_eq_some_iff.mp hperform
    exact ih (run.step (hf hstep)) hrest

/-- What has been carried out is a run, when the function follows the step relation. -/
theorem Run.of_execute (hf : ∀ {s e t}, f s e = some t → Step s e t)
    {s₀ s t : S} {h es : List E} (run : Run Step s₀ h s) (hexec : execute f s es = some t) :
    Run Step s₀ (es.reverse ++ h) t := by
  induction es generalizing h s with
  | nil =>
    cases hexec
    exact run
  | cons e es ih =>
    obtain ⟨u, hstep, hrest⟩ := bind_eq_some_iff.mp hexec
    rw [reverse_cons, append_assoc]
    exact ih (run.step (hf hstep)) hrest

theorem Run.of_execute_start (hf : ∀ {s e t}, f s e = some t → Step s e t)
    {s₀ t : S} {es : List E} (hexec : execute f s₀ es = some t) : Run Step s₀ es.reverse t := by
  have run := Run.of_execute hf .start hexec
  rwa [append_nil] at run

end

/-! ## Loops -/

section
variable {S : Type _} {Ended : S → Prop} [DecidablePred Ended] {turn : Nat → S → Option S} {s : S}
  {n : Nat} {t : S} {I : S → Prop}

/-- What a loop has after so many turns. The turns may differ, one of them may fail, and nothing
happens any more once the loop has ended. -/
def turns (Ended : S → Prop) [DecidablePred Ended] (turn : Nat → S → Option S) (s : S) :
    Nat → Option S
  | 0 => some s
  | n + 1 => (turns Ended turn s n).bind fun t => if Ended t then some t else turn n t

theorem turns_succ (h : turns Ended turn s n = some t) :
    turns Ended turn s (n + 1) = if Ended t then some t else turn n t := by
  rw [turns, h, bind_some]

/-- The rule for invariants. -/
theorem turns_invariant (h₀ : I s)
    (hturn : ∀ {n t u}, turns Ended turn s n = some t → I t → ¬ Ended t → turn n t = some u → I u)
    (h : turns Ended turn s n = some t) : I t := by
  induction n generalizing t with
  | zero =>
    cases h
    exact h₀
  | succ n ih =>
    obtain ⟨u, hu, hlast⟩ := bind_eq_some_iff.mp h
    split at hlast
    · cases hlast
      exact ih hu
    · next hgoes => exact hturn hu (ih hu) hgoes hlast

/-- **The rule for termination.** A loop ends when no turn fails and each makes a number smaller. -/
theorem turns_end (measure : S → Nat) (h₀ : I s)
    (hturn : ∀ n t, turns Ended turn s n = some t → I t → ¬ Ended t →
      ∃ u, turn n t = some u ∧ I u ∧ measure u < measure t) :
    ∃ n t, turns Ended turn s n = some t ∧ Ended t := by
  have hgo : ∀ n, ∃ t, turns Ended turn s n = some t ∧ I t ∧
      (Ended t ∨ measure t + n ≤ measure s) := by
    intro n
    induction n with
    | zero => exact ⟨s, rfl, h₀, .inr (Nat.le_refl _)⟩
    | succ n ih =>
      obtain ⟨t, ht, hI, hmeasure⟩ := ih
      by_cases hended : Ended t
      · exact ⟨t, by rw [turns_succ ht, if_pos hended], hI, .inl hended⟩
      · obtain ⟨u, hu, hI', hless⟩ := hturn n t ht hI hended
        have hle := hmeasure.resolve_left hended
        exact ⟨u, by rw [turns_succ ht, if_neg hended, hu], hI', .inr (by omega)⟩
  obtain ⟨t, ht, -, hend | hmeasure⟩ := hgo (measure s + 1)
  · exact ⟨_, t, ht, hend⟩
  · omega

/-- A loop that has ended at once stays where it is. -/
theorem turns_ended (hended : Ended s) (n : Nat) : turns Ended turn s n = some s := by
  induction n with
  | zero => rfl
  | succ n ih => rw [turns_succ ih, if_pos hended]

/-- A loop that ends has a last turn. -/
theorem turns_last (hgoes : ¬ Ended s) (h : turns Ended turn s n = some t) (hended : Ended t) :
    ∃ m u v, turns Ended turn s m = some u ∧ ¬ Ended u ∧ turn m u = some v ∧ Ended v := by
  induction n generalizing t with
  | zero =>
    cases h
    exact absurd hended hgoes
  | succ n ih =>
    obtain ⟨u, hu, hlast⟩ := bind_eq_some_iff.mp h
    by_cases hended' : Ended u
    · exact ih hu hended'
    · rw [if_neg hended'] at hlast
      exact ⟨n, u, t, hu, hended', hlast, hended⟩

end

end Lib
