import Mathlib.Algebra.GroupWithZero.Nat

/-!
# Programs that may stop for good

Firmware code runs on a state and either returns, or ends in an error handler that never returns.
`Program σ α` is such code: from a state it returns a value and a state, halts in a state, or, for
a loop that was given too small a budget of iterations, spins in one. What a halted or spinning
program has done to its state stays visible, so that a safety property speaks about it too.

`Triple P p Q E` is the rule-based view: from a state with `P`, a return satisfies `Q` and every
other outcome leaves a state with `E`.
-/

namespace Lib

/-- How a run of a program ends. -/
inductive Outcome (σ α : Type) where
  | ret (a : α) (s : σ)
  | halt (s : σ)
  | spin (s : σ)
  deriving DecidableEq, Repr

namespace Outcome
variable {σ α : Type}

/-- The state a run ends in, whatever the ending. -/
def state : Outcome σ α → σ
  | ret _ s | halt s | spin s => s

/-- What an ending satisfies: `Q` of a return, `E` of any other. -/
def Ends (Q : α → σ → Prop) (E : σ → Prop) : Outcome σ α → Prop
  | ret a s => Q a s
  | halt s | spin s => E s

@[simp] theorem state_ret (a : α) (s : σ) : (ret a s).state = s := rfl
@[simp] theorem state_halt (s : σ) : (halt s : Outcome σ α).state = s := rfl
@[simp] theorem state_spin (s : σ) : (spin s : Outcome σ α).state = s := rfl

end Outcome

/-- Code over a state. -/
def Program (σ α : Type) := σ → Outcome σ α

namespace Program

section
variable {σ α β : Type} {f : α → Program σ β} {s t : σ}

instance : Monad (Program σ) where
  pure a := fun s => .ret a s
  bind p f := fun s =>
    match p s with
    | .ret a t => f a t
    | .halt t => .halt t
    | .spin t => .spin t

/-- Reading the state. -/
def get : Program σ σ := fun s => .ret s s

/-- Changing the state. -/
def modify (f : σ → σ) : Program σ Unit := fun s => .ret () (f s)

/-- The error handler: nothing runs after it. -/
def halt : Program σ α := fun s => .halt s

/-- A wait for something that never happens. -/
def spin : Program σ α := fun s => .spin s

/-- An assertion whose failure is fatal. -/
def verify (ok : Bool) : Program σ Unit := if ok then pure () else halt

/-- A branch without an alternative. -/
def when (c : Prop) [Decidable c] (p : Program σ Unit) : Program σ Unit := if c then p else pure ()

/-- A loop with local variables `b`: the body says how they change (`inl`) or what the loop
returns (`inr`). -/
def iter (body : β → Program σ (β ⊕ α)) : Nat → β → Program σ α
  | 0, _ => fun s => .spin s
  | fuel + 1, b => do
      match ← body b with
      | .inl b' => iter body fuel b'
      | .inr a => pure a

/-- A counting loop: the body at `0`, …, `n - 1`. -/
def forUpTo (body : Nat → Program σ Unit) : Nat → Program σ Unit
  | 0 => pure ()
  | n + 1 => do
      forUpTo body n
      body n

/-! ## Running -/

@[simp] theorem pure_run (a : α) (s : σ) : (pure a : Program σ α) s = .ret a s := rfl
@[simp] theorem get_run (s : σ) : (get : Program σ σ) s = .ret s s := rfl
@[simp] theorem modify_run (f : σ → σ) (s : σ) : modify f s = .ret () (f s) := rfl
@[simp] theorem halt_run (s : σ) : (halt : Program σ α) s = .halt s := rfl

@[simp] theorem spin_run (s : σ) : (spin : Program σ α) s = .spin s := rfl

@[simp] theorem verify_true : (verify true : Program σ Unit) = pure () := rfl
@[simp] theorem verify_false : (verify false : Program σ Unit) = halt := rfl

/-- A condition that holds. -/
theorem when_pos {c : Prop} [Decidable c] (h : c) (p : Program σ Unit) : when c p = p := if_pos h

/-- A condition that does not hold. -/
theorem when_neg {c : Prop} [Decidable c] (h : ¬ c) (p : Program σ Unit) : when c p = pure () :=
  if_neg h

@[simp] theorem pure_bind (a : α) (f : α → Program σ β) : (pure a >>= f) = f a := rfl
@[simp] theorem halt_bind (f : α → Program σ β) : ((halt : Program σ α) >>= f) = halt := rfl

/-- Sequencing is associative. -/
theorem bind_assoc {γ : Type} (p : Program σ α) (f : α → Program σ β) (k : β → Program σ γ) :
    (p >>= f >>= k) = (p >>= fun a => f a >>= k) := by
  funext s
  show (match (match p s with
      | .ret a t => f a t
      | .halt t => .halt t
      | .spin t => .spin t) with
    | .ret a t => k a t
    | .halt t => .halt t
    | .spin t => .spin t) = match p s with
      | .ret a t => (f a >>= k) t
      | .halt t => .halt t
      | .spin t => .spin t
  cases p s <;> rfl

/-- A sequence goes on where its first part returns. -/
theorem bind_run (p : Program σ α) (f : α → Program σ β) (s : σ) :
    (p >>= f) s = match p s with
      | .ret a t => f a t
      | .halt t => .halt t
      | .spin t => .spin t := rfl

@[simp] theorem bind_ret {p : Program σ α} {a : α} (h : p s = .ret a t) : (p >>= f) s = f a t := by
  rw [bind_run, h]

@[simp] theorem bind_halt {p : Program σ α} (h : p s = .halt t) : (p >>= f) s = .halt t := by
  rw [bind_run, h]

/-- A sequence returns when its first part does, and its second part does from there. -/
theorem bind_eq_ret {p : Program σ α} {s u : σ} {b : β} :
    (p >>= f) s = .ret b u ↔ ∃ a t, p s = .ret a t ∧ f a t = .ret b u := by
  rw [bind_run]
  cases p s with
  | ret a t =>
    constructor
    · exact fun h => ⟨a, t, rfl, h⟩
    · rintro ⟨_, _, ⟨⟩, h⟩
      exact h
  | halt t | spin t =>
    constructor
    · exact nofun
    · rintro ⟨_, _, h, -⟩
      cases h

/-- An assertion that returns has held. -/
theorem verify_eq_ret {ok : Bool} {u : Unit} :
    (verify ok : Program σ Unit) s = .ret u t ↔ ok = true ∧ s = t := by
  cases ok with
  | true =>
    constructor
    · rintro ⟨⟩
      exact ⟨rfl, rfl⟩
    · rintro ⟨-, rfl⟩
      rfl
  | false => exact ⟨nofun, nofun⟩

@[simp] theorem get_bind (f : σ → Program σ β) (s : σ) : (get >>= f) s = f s s := rfl

@[simp] theorem modify_bind (g : σ → σ) (f : Unit → Program σ β) (s : σ) :
    (modify g >>= f) s = f () (g s) := rfl

end

/-! ## Triples -/

section
variable {σ α β : Type} {P P' : σ → Prop} {Q Q' : α → σ → Prop} {E E' : σ → Prop} {p : Program σ α}
  {body : Nat → Program σ Unit} {c : Prop}

/-- From a state with `P`, a return satisfies `Q` and any other ending leaves a state with `E`. -/
structure Triple (P : σ → Prop) (p : Program σ α) (Q : α → σ → Prop) (E : σ → Prop) : Prop where
  run : ∀ s, P s → (p s).Ends Q E

/-- A property of the state that a program keeps, however it ends. -/
abbrev Keeps (I : σ → Prop) (p : Program σ α) : Prop :=
  Triple I p (fun _ => I) I

/-- An invariant holds where the program ends. -/
theorem Keeps.state {I : σ → Prop} (h : Keeps I p) {s : σ} (hs : I s) :
    I (p s).state := by
  have h := h.run s hs
  cases hp : p s <;> rw [hp] at h <;> exact h

/-- A program keeps what every outcome has. -/
theorem Keeps.of_state {I : σ → Prop} (h : ∀ s, I s → I (p s).state) :
    Keeps I p where
  run s hs := by
    have h := h s hs
    cases hp : p s <;> rw [hp] at h <;> exact h

/-- The rule of consequence. -/
theorem Triple.conseq (h : Triple P p Q E) (hP : ∀ s, P' s → P s)
    (hQ : ∀ a s, Q a s → Q' a s) (hE : ∀ s, E s → E' s) : Triple P' p Q' E' where
  run s hs := by
    have h := h.run s (hP s hs)
    cases hp : p s <;> rw [hp] at h
    · exact hQ _ _ h
    · exact hE _ h
    · exact hE _ h

/-- A value needs no step. -/
theorem Triple.pure {a : α} (h : ∀ s, P s → Q a s) : Triple P (Pure.pure a) Q E :=
  ⟨h⟩

theorem Triple.get {Q : σ → σ → Prop} (h : ∀ s, P s → Q s s) : Triple P Program.get Q E :=
  ⟨h⟩

theorem Triple.modify {f : σ → σ} {Q : Unit → σ → Prop} (h : ∀ s, P s → Q () (f s)) :
    Triple P (Program.modify f) Q E :=
  ⟨h⟩

/-- After a fatal assertion the condition holds. -/
theorem Triple.verify {ok : Bool} {Q : Unit → σ → Prop} (hQ : ok = true → ∀ s, P s → Q () s)
    (hE : ok = false → ∀ s, P s → E s) : Triple P (Program.verify ok) Q E := by
  cases ok with
  | true => exact ⟨hQ rfl⟩
  | false => exact ⟨hE rfl⟩

/-- Sequencing, through a condition on the value and state in between. -/
theorem Triple.bind {f : α → Program σ β} {R : β → σ → Prop}
    (hp : Triple P p Q E) (hf : ∀ a, Triple (Q a) (f a) R E) : Triple P (p >>= f) R E where
  run s hs := by
    have h := hp.run s hs
    rw [bind_run]
    cases hrun : p s with
    | ret a t => rw [hrun] at h; exact (hf a).run t h
    | halt t => rw [hrun] at h; exact h
    | spin t => rw [hrun] at h; exact h

/-- The rule of a choice. -/
theorem Triple.ite [Decidable c] {p q : Program σ α} (hp : c → Triple P p Q E)
    (hq : ¬ c → Triple P q Q E) : Triple P (if c then p else q) Q E := by
  split
  · exact hp ‹_›
  · exact hq ‹_›

/-- The rule of a condition. -/
theorem Triple.when [Decidable c] {p : Program σ Unit} {Q : Unit → σ → Prop}
    (hp : c → Triple P p Q E) (hn : ¬ c → ∀ s, P s → Q () s) : Triple P (Program.when c p) Q E :=
  .ite hp fun h => .pure (hn h)

/-- A branch that keeps a property. -/
theorem Keeps.when {I : σ → Prop} [Decidable c] {p : Program σ Unit}
    (hp : c → Keeps I p) : Keeps I (Program.when c p) :=
  Triple.when hp fun _ _ hs => hs

/-- **The loop rule.** An invariant of local variables and state that the body keeps holds when
the loop ends, and a loop that runs out of its budget still has it. -/
theorem Triple.iter {body : β → Program σ (β ⊕ α)} (I : β → σ → Prop)
    (hbody : ∀ b, Triple (I b) (body b) (fun r s => match r with
      | .inl b' => I b' s
      | .inr a => Q a s) E)
    (hspin : ∀ b s, I b s → E s) : ∀ fuel b, Triple (I b) (Program.iter body fuel b) Q E
  | 0, b => ⟨hspin b⟩
  | fuel + 1, b => by
      refine Triple.bind (hbody b) ?_
      rintro (b' | a)
      · exact Triple.iter I hbody hspin fuel b'
      · exact Triple.pure fun s hs => hs

/-- What every round of a loop keeps, the loop keeps. -/
theorem Keeps.iter {body : β → Program σ (β ⊕ α)} {I : σ → Prop} (hbody : ∀ b, Keeps I (body b))
    (fuel : Nat) (b : β) : Keeps I (Program.iter body fuel b) := by
  refine Triple.iter (fun _ => I) (fun b => ?_) (fun _ _ hs => hs) fuel b
  refine (hbody b).conseq (fun _ hs => hs) (fun r s hs => ?_) (fun _ hs => hs)
  cases r <;> exact hs

/-- What has come to hold after the first part of a sequence, and the rest keeps, holds at the
end. -/
theorem Keeps.after {I : σ → Prop} {f : α → Program σ β} {s t : σ} {a : α}
    (hrun : p s = .ret a t) (hf : Keeps I (f a)) (ht : I t) : I ((p >>= f) s).state := by
  rw [bind_ret hrun]
  exact hf.state ht

/-- **The counting rule.** -/
theorem Triple.forUpTo (I : Nat → σ → Prop) {n : Nat}
    (hbody : ∀ i, i < n → Triple (I i) (body i) (fun _ => I (i + 1)) E) :
    Triple (I 0) (Program.forUpTo body n) (fun _ => I n) E := by
  induction n with
  | zero => exact Triple.pure fun s hs => hs
  | succ n ih =>
      refine Triple.bind (ih fun i hi => hbody i (by omega)) ?_
      exact fun _ => hbody n (Nat.lt_succ_self n)

/-- What a counting loop has come to have by the end of one round, and every later round keeps, it
has at the end. -/
theorem Keeps.forUpTo_after {I : σ → Prop} (hbody : ∀ j, Keeps I (body j)) {i : Nat} {s t : σ}
    (hrun : Program.forUpTo body i s = .ret () t) (hI : I (body i t).state) {n : Nat}
    (hn : i < n) : I (Program.forUpTo body n s).state := by
  induction n with
  | zero => omega
  | succ n ih =>
    show I ((Program.forUpTo body n >>= fun _ => body n) s).state
    rcases Nat.eq_or_lt_of_le (Nat.le_of_lt_succ hn) with rfl | hlt
    · rw [bind_ret hrun]
      exact hI
    · have hlast := ih hlt
      rw [bind_run]
      cases hend : Program.forUpTo body n s with
      | ret a u => rw [hend] at hlast; exact (hbody n).state hlast
      | halt u => rw [hend] at hlast; exact hlast
      | spin u => rw [hend] at hlast; exact hlast

end

end Program

end Lib
