import Mathlib.Algebra.GroupWithZero.Nat

/-!
# Code that breaks off with an error code

`Checked σ ε α` is a block `do { … } while (0)` over a state: each check either lets the code go
on or breaks off with an error, and what the code has assigned by then stays assigned. A successful
run is taken apart check by check with the `_ok` lemmas.
-/

namespace Lib

instance decidableEqExcept {ε α : Type} [DecidableEq ε] [DecidableEq α] : DecidableEq (Except ε α)
  | .error e, .error e' => decidable_of_iff (e = e') ⟨congrArg _, Except.error.inj⟩
  | .ok a, .ok a' => decidable_of_iff (a = a') ⟨congrArg _, Except.ok.inj⟩
  | .error _, .ok _ => isFalse nofun
  | .ok _, .error _ => isFalse nofun

/-- What comes after a step is done when the step is. -/
theorem bind_eq_ok {ε α β : Type} {x : Except ε α} {f : α → Except ε β} {b : β} :
    (x >>= f) = .ok b ↔ ∃ a, x = .ok a ∧ f a = .ok b := by
  cases x with
  | error _ => exact ⟨nofun, nofun⟩
  | ok a => exact ⟨fun h => ⟨a, rfl, h⟩, by rintro ⟨_, ⟨⟩, h⟩; exact h⟩

/-- Code over a state `σ` that may break off with an error `ε`. -/
def Checked (σ ε α : Type) := σ → Except ε α × σ

namespace Checked

section
variable {σ ε α β : Type}

instance : Monad (Checked σ ε) where
  pure a := fun s => (.ok a, s)
  bind p f := fun s =>
    match p s with
    | (.ok a, t) => f a t
    | (.error e, t) => (.error e, t)

/-- Breaking off. -/
def fail (e : ε) : Checked σ ε α := fun s => (.error e, s)

/-- `if (bad) { ret = e; break; }`. -/
def breakIf (bad : Bool) (e : ε) : Checked σ ε Unit := if bad then fail e else pure ()

/-- `ret = check; BREAKIF(ret != SUCCESS)`. -/
def breakOn (r : Except ε α) : Checked σ ε α := fun s => (r, s)

/-- A branch without an alternative. -/
def when (c : Prop) [Decidable c] (p : Checked σ ε Unit) : Checked σ ε Unit :=
  if c then p else pure ()

/-- Assigning to the state. -/
def update (f : σ → σ) : Checked σ ε Unit := fun s => (.ok (), f s)

/-- Reading the state. -/
def get : Checked σ ε σ := fun s => (.ok s, s)

variable {s t : σ} {a b : α} {e : ε} {p : Checked σ ε α} {f : α → Checked σ ε β} {c : Prop}
  {r : Except ε α} {bad : Bool}

@[simp] theorem pure_ok : (pure a : Checked σ ε α) s = (.ok b, t) ↔ a = b ∧ s = t := by
  simp [pure]

@[simp] theorem fail_ok : ¬ (fail e : Checked σ ε α) s = (.ok b, t) := by
  simp [fail]

@[simp] theorem get_ok {u : σ} : (get : Checked σ ε σ) s = (.ok u, t) ↔ s = u ∧ s = t := by
  simp [get]

@[simp] theorem update_ok {f : σ → σ} {u : Unit} :
    (update f : Checked σ ε Unit) s = (.ok u, t) ↔ f s = t := by
  simp [update]

@[simp] theorem breakOn_ok :
    (breakOn r : Checked σ ε α) s = (.ok b, t) ↔ r = .ok b ∧ s = t := by
  simp [breakOn]

@[simp] theorem breakIf_ok {u : Unit} :
    (breakIf bad e : Checked σ ε Unit) s = (.ok u, t) ↔ bad = false ∧ s = t := by
  cases bad <;> simp [breakIf]

/-- A sequence succeeds when its first part does, and its second part does from there. -/
theorem bind_ok {b : β} :
    (p >>= f) s = (.ok b, t) ↔ ∃ a u, p s = (.ok a, u) ∧ f a u = (.ok b, t) := by
  show (match p s with
    | (.ok a, t) => f a t
    | (.error e, t) => (.error e, t)) = _ ↔ _
  rcases p s with ⟨e | a, u⟩
  · simp
  · constructor
    · exact fun h => ⟨a, u, rfl, h⟩
    · rintro ⟨a', u', h, hf⟩
      obtain ⟨⟨⟩, rfl⟩ := Prod.mk.inj h
      exact hf

/-- A sequence goes on behind a check that it passes, from the same state. -/
theorem breakIf_bind_ok {f : Unit → Checked σ ε β} {b : β} :
    (breakIf bad e >>= f) s = (.ok b, t) ↔ bad = false ∧ f () s = (.ok b, t) := by
  rw [bind_ok]
  constructor
  · rintro ⟨u, v, hbreak, h⟩
    obtain ⟨hbad, rfl⟩ := breakIf_ok.mp hbreak
    exact ⟨hbad, h⟩
  · exact fun ⟨hbad, h⟩ => ⟨(), s, breakIf_ok.mpr ⟨hbad, rfl⟩, h⟩

/-- A sequence runs on from where its first part succeeded. -/
theorem bind_run (h : p s = (.ok a, t)) :
    (p >>= f) s = f a t := by
  show (match p s with
    | (.ok a, t) => f a t
    | (.error e, t) => (.error e, t)) = _
  rw [h]

theorem breakIf_run (h : bad = false) (s : σ) :
    (breakIf bad e : Checked σ ε Unit) s = (.ok (), s) := by
  rw [h]
  rfl

theorem breakIf_true (e : ε) (s : σ) : (breakIf true e : Checked σ ε Unit) s = (.error e, s) := rfl

theorem update_run (f : σ → σ) (s : σ) : (update f : Checked σ ε Unit) s = (.ok (), f s) := rfl

theorem when_pos [Decidable c] (h : c) (p : Checked σ ε Unit) : when c p = p := if_pos h

theorem when_neg [Decidable c] (h : ¬ c) (p : Checked σ ε Unit) : when c p = pure () :=
  if_neg h

/-- A sequence ends where its first part breaks off. -/
theorem bind_error (h : p s = (.error e, t)) :
    (p >>= f) s = (.error e, t) := by
  show (match p s with
    | (.ok a, t) => f a t
    | (.error e, t) => (.error e, t)) = _
  rw [h]

/-! ## Errors that do not occur -/

/-- The code does not break off with this error. -/
def Avoids (e : ε) (p : Checked σ ε α) : Prop := ∀ s t, p s ≠ (.error e, t)

/-- A sequence avoids an error that its parts avoid. -/
theorem Avoids.bind (hp : Avoids e p) (hf : ∀ a, Avoids e (f a)) : Avoids e (p >>= f) := by
  intro s t hrun
  rcases hfirst : p s with ⟨e' | a, u⟩
  · rw [bind_error hfirst] at hrun
    obtain ⟨herror, rfl⟩ := Prod.mk.inj hrun
    exact hp s _ (hfirst.trans (congrArg (·, u) (congrArg Except.error (Except.error.inj herror))))
  · rw [bind_run hfirst] at hrun
    exact hf a u t hrun

theorem Avoids.pure (a : α) : Avoids e (Pure.pure a : Checked σ ε α) := fun _ _ hrun => by
  cases hrun

theorem Avoids.fail {e e' : ε} (hne : e' ≠ e) : Avoids e (Checked.fail e' : Checked σ ε α) :=
  fun _ _ hrun => hne (Except.error.inj (Prod.mk.inj hrun).1)

theorem Avoids.breakIf {e e' : ε} (bad : Bool) (hne : e' ≠ e) :
    Avoids e (Checked.breakIf bad e' : Checked σ ε Unit) := by
  cases bad with
  | false => exact .pure ()
  | true => exact .fail hne

theorem Avoids.breakOn (hne : r ≠ .error e) :
    Avoids e (Checked.breakOn r : Checked σ ε α) := fun _ _ hrun => hne (Prod.mk.inj hrun).1

theorem Avoids.update (f : σ → σ) : Avoids e (Checked.update f : Checked σ ε Unit) :=
    fun _ _ hrun => by
  cases hrun

theorem Avoids.get : Avoids e (Checked.get : Checked σ ε σ) := fun _ _ hrun => by
  cases hrun

theorem Avoids.ite [Decidable c] {p q : Checked σ ε α} (hp : Avoids e p)
    (hq : Avoids e q) : Avoids e (if c then p else q) := by
  split
  · exact hp
  · exact hq

theorem Avoids.when [Decidable c] {p : Checked σ ε Unit} (hp : Avoids e p) :
    Avoids e (Checked.when c p) := .ite hp (.pure ())

/-- A sequence that succeeds, or breaks off with an error that its first part avoids, has passed
that part. -/
theorem Avoids.passed {r : Except ε β} (hp : Avoids e p)
    (hr : ∀ e', r = .error e' → e' = e) (hrun : (p >>= f) s = (r, t)) :
    ∃ a u, p s = (.ok a, u) ∧ f a u = (r, t) := by
  rcases hfirst : p s with ⟨e' | a, u⟩
  · rw [bind_error hfirst] at hrun
    obtain ⟨rfl, rfl⟩ := Prod.mk.inj hrun
    obtain rfl := hr e' rfl
    exact absurd hfirst (hp s u)
  · rw [bind_run hfirst] at hrun
    exact ⟨a, u, rfl, hrun⟩

/-! ## What a run leaves behind, however it ends -/

/-- From a state with `P`, success leaves `Q` and breaking off leaves `E`. -/
structure Triple (P : σ → Prop) (p : Checked σ ε α) (Q E : σ → Prop) : Prop where
  ok : ∀ {s t a}, P s → p s = (.ok a, t) → Q t
  error : ∀ {s t e}, P s → p s = (.error e, t) → E t

/-- A property of the state that the code keeps, however it ends. -/
abbrev Keeps (I : σ → Prop) (p : Checked σ ε α) : Prop := Triple I p I I

/-- An invariant of the state that is left. -/
theorem Triple.of_snd {I : σ → Prop} (h : ∀ s, I s → I (p s).2) :
    Keeps I p where
  ok {s t a} hs hp := by
    have := h s hs
    rwa [hp] at this
  error {s t e} hs hp := by
    have := h s hs
    rwa [hp] at this

theorem Triple.snd {I : σ → Prop} (h : Keeps I p) (hs : I s) : I (p s).2 := by
  rcases hp : p s with ⟨e | a, t⟩
  · exact h.error hs hp
  · exact h.ok hs hp

variable {P Q R E I : σ → Prop}

/-- The rule of consequence. -/
theorem Triple.mono {P' Q' E' : σ → Prop} (h : Triple P p Q E) (hP : ∀ s, P' s → P s)
    (hQ : ∀ s, Q s → Q' s) (hE : ∀ s, E s → E' s) : Triple P' p Q' E' where
  ok hs hrun := hQ _ (h.ok (hP _ hs) hrun)
  error hs hrun := hE _ (h.error (hP _ hs) hrun)

/-- Sequencing. -/
theorem Triple.bind (hp : Triple P p Q E)
    (hf : ∀ a, Triple Q (f a) R E) : Triple P (p >>= f) R E where
  ok hs hrun := by
    obtain ⟨a, u, hfirst, hrest⟩ := bind_ok.mp hrun
    exact (hf a).ok (hp.ok hs hfirst) hrest
  error {s t e} hs hrun := by
    change (match p s with
      | (.ok a, t) => f a t
      | (.error e, t) => (.error e, t)) = _ at hrun
    rcases hfirst : p s with ⟨e' | a, u⟩
    · rw [hfirst] at hrun
      obtain ⟨-, rfl⟩ := Prod.mk.inj hrun
      exact hp.error hs hfirst
    · rw [hfirst] at hrun
      exact (hf a).error (hp.ok hs hfirst) hrun

/-- What is read is the state that the rest of the code starts from. -/
theorem Triple.bind_get {f : σ → Checked σ ε α} (h : ∀ u, P u → Triple (· = u) (f u) Q E) :
    Triple P (get >>= f) Q E where
  ok {s t a} hs hrun := by
    rw [bind_run (get_ok.mpr ⟨rfl, rfl⟩)] at hrun
    exact (h s hs).ok rfl hrun
  error {s t e} hs hrun := by
    rw [bind_run (get_ok.mpr ⟨rfl, rfl⟩)] at hrun
    exact (h s hs).error rfl hrun

theorem Triple.pure (a : α) : Keeps I (Pure.pure a : Checked σ ε α) := .of_snd fun _ hs => hs

theorem Triple.fail (e : ε) : Keeps I (fail e : Checked σ ε α) := .of_snd fun _ hs => hs

theorem Triple.get : Keeps I (get : Checked σ ε σ) := .of_snd fun _ hs => hs

theorem Triple.breakOn (r : Except ε α) : Keeps I (breakOn r : Checked σ ε α) :=
  .of_snd fun _ hs => hs

theorem Triple.breakIf (bad : Bool) (e : ε) : Keeps I (breakIf bad e : Checked σ ε Unit) := by
  cases bad
  · exact Triple.pure ()
  · exact Triple.fail e

theorem Triple.when [Decidable c] {p : Checked σ ε Unit} (h : Keeps I p) :
    Keeps I (when c p) := by
  rw [Checked.when]
  split
  · exact h
  · exact Triple.pure ()

/-- An assignment never breaks off. -/
theorem Triple.update {f : σ → σ} (h : ∀ s, P s → Q (f s)) :
    Triple P (update f : Checked σ ε Unit) Q E where
  ok hs hrun := by
    obtain rfl := update_ok.mp hrun
    exact h _ hs
  error hs hrun := by cases hrun

end

end Checked

end Lib
