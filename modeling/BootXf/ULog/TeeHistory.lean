import BootXf.Lib.Rounds
import BootXf.ULog.Tee
import Mathlib.Data.Finset.Card

/-!
# Tees are sets

A handle denotes a set of logs: none the empty set, a log itself, and a tee its logs, of which
there are two at least. `ULogCore_TeeAdd` answers a handle of the union and `ULogCore_TeeRemove`
one of the difference, and the other handles denote what they denoted. `tees_sound` says so of
every memory that the calls may lead to.
-/

namespace ULog

open Lib LinkedList List Option

/-! ## Rounds -/

section
variable {logs : Logs} {links : Pool Nat} {m : Memory} {t log a previous k k' n n' : Nat}
    {next : Option Nat} {versionFlag2 : Bool}

/-- A search that ends is the same with more rounds. -/
theorem searchLinks_below (hn : n ≤ n') :
    Below Fault.rounds (searchLinks links log n next) (searchLinks links log n' next) := by
  induction n generalizing n' next with
  | zero => exact .error
  | succ n ih =>
    obtain ⟨n', rfl⟩ : ∃ k, n' = k + 1 := ⟨n' - 1, by omega⟩
    cases next with
    | none => exact .refl
    | some link => exact .bind .refl fun cell => .ite .refl (ih (Nat.le_of_succ_le_succ hn))

/-- More rounds do not change what a search of a tee finds. -/
theorem teeHandleSearch_below (hn : n ≤ n') :
    Below Fault.rounds (teeHandleSearch n m t log) (teeHandleSearch n' m t log) :=
  .bind .refl fun _ => searchLinks_below hn

/-- More rounds do not change where a link is put. -/
theorem insertLink_below (hn : n ≤ n') :
    Below Fault.rounds (insertLink a log n links previous next)
      (insertLink a log n' links previous next) := by
  induction n generalizing n' previous next with
  | zero => exact .error
  | succ n ih =>
    obtain ⟨n', rfl⟩ : ∃ k, n' = k + 1 := ⟨n' - 1, by omega⟩
    cases next with
    | none => exact .refl
    | some link => exact .bind .refl fun cell => .ite .refl (ih (Nat.le_of_succ_le_succ hn))

/-- More rounds do not change how a log is added. -/
theorem teeLinkAdd_below (hn : n ≤ n') :
    Below Fault.rounds (teeLinkAdd n m t log) (teeLinkAdd n' m t log) :=
  .bind .refl fun _ => .bind .refl fun _ => .bind .refl fun _ => .ite .refl
    (.bind .refl fun _ => .bind .refl fun _ => .bind (insertLink_below hn) fun _ => .refl)

/-- More rounds do not change how a log is added if it is new. -/
theorem addLog_below (hn : n ≤ n') : Below Fault.rounds (addLog n m t log) (addLog n' m t log) :=
  .bind (teeHandleSearch_below hn) fun _ => .ite .refl (teeLinkAdd_below hn)

/-- More rounds do not change how the logs of a list are added. -/
theorem addLinks_below (hn : n ≤ n') (hk : k ≤ k') :
    Below Fault.rounds (addLinks n t k m next) (addLinks n' t k' m next) := by
  induction k generalizing k' m next with
  | zero => exact .error
  | succ k ih =>
    obtain ⟨k', rfl⟩ : ∃ i, k' = i + 1 := ⟨k' - 1, by omega⟩
    cases next with
    | none => exact .refl
    | some link =>
      exact .bind .refl fun _ => .bind (addLog_below hn) fun _ => .bind .refl fun _ =>
        ih (Nat.le_of_succ_le_succ hk)

/-- More rounds do not change the first half of `TeeAdd`. -/
theorem firstTee_below {newTee : Option Nat} {versionFlag1 : Bool} (hn : n ≤ n') :
    Below Fault.rounds (firstTee n m newTee versionFlag1 a) (firstTee n' m newTee versionFlag1 a) :=
  .ite .refl (.bind .refl fun _ => .bind (teeLinkAdd_below hn) fun _ => .refl)

/-- More rounds do not change the second half of `TeeAdd`. -/
theorem addSecond_below (hn : n ≤ n') :
    Below Fault.rounds (addSecond n m t versionFlag2 a) (addSecond n' m t versionFlag2 a) :=
  .ite (.bind .refl fun _ => addLinks_below hn hn) (addLog_below hn)

/-- More rounds do not change a `TeeAdd` that ends. -/
theorem teeAdd_below {newTee h1 h2 : Option Nat} (hn : n ≤ n') :
    Below Fault.rounds (teeAdd logs n m newTee h1 h2) (teeAdd logs n' m newTee h1 h2) := by
  cases h1 with
  | none => exact .refl
  | some h1 =>
    cases h2 with
    | none => exact .refl
    | some h2 =>
      refine .bind .refl fun versionFlag1 => .bind .refl fun versionFlag2 => .ite .refl ?_
      exact .bind (firstTee_below hn) fun _ => .bind (addSecond_below hn) fun _ => .refl

/-- More rounds do not change which link is removed. -/
theorem removeLink_below {cell : Cell Tee} (hn : n ≤ n') :
    Below Fault.rounds (removeLink m t cell log n previous next)
      (removeLink m t cell log n' previous next) := by
  induction n generalizing n' previous next with
  | zero => exact .error
  | succ n ih =>
    obtain ⟨n', rfl⟩ : ∃ k, n' = k + 1 := ⟨n' - 1, by omega⟩
    cases next with
    | none => exact .refl
    | some link =>
      exact .bind .refl fun _ => .bind .refl fun _ =>
        .ite .refl (.bind .refl fun _ => ih (Nat.le_of_succ_le_succ hn))

/-- More rounds do not change how a log is removed. -/
theorem teeLinkRemove_below (hn : n ≤ n') :
    Below Fault.rounds (teeLinkRemove n m t log) (teeLinkRemove n' m t log) := by
  refine .bind .refl fun cell => ?_
  cases cell.data.link with
  | none => exact .refl
  | some link => exact .bind .refl fun _ => .ite .refl (removeLink_below hn)

/-- More rounds do not change how the logs of a list are removed. -/
theorem removeLinks_below (hn : n ≤ n') (hk : k ≤ k') :
    Below Fault.rounds (removeLinks n t k m next) (removeLinks n' t k' m next) := by
  induction k generalizing k' m next with
  | zero => exact .error
  | succ k ih =>
    obtain ⟨k', rfl⟩ : ∃ i, k' = i + 1 := ⟨k' - 1, by omega⟩
    cases next with
    | none => exact .refl
    | some link =>
      refine .bind .refl fun _ => .ite .refl (.bind .refl fun _ => ?_)
      exact .bind (teeLinkRemove_below hn) fun _ => ih (Nat.le_of_succ_le_succ hk)

/-- More rounds do not change whether the second handle has a log. -/
theorem inSecond_below (hn : n ≤ n') :
    Below Fault.rounds (inSecond n m t versionFlag2 a) (inSecond n' m t versionFlag2 a) :=
  .ite (teeHandleSearch_below hn) .refl

/-- More rounds do not change how the second handle is removed. -/
theorem removeSecond_below (hn : n ≤ n') :
    Below Fault.rounds (removeSecond n m t versionFlag2 a) (removeSecond n' m t versionFlag2 a) :=
  .ite (.bind .refl fun _ => removeLinks_below hn hn) (teeLinkRemove_below hn)

/-- More rounds do not change a `TeeRemove` that ends. -/
theorem teeRemove_below {h1 h2 : Option Nat} (hn : n ≤ n') :
    Below Fault.rounds (teeRemove logs n m h1 h2) (teeRemove logs n' m h1 h2) := by
  cases h1 with
  | none => exact .refl
  | some h1 =>
    cases h2 with
    | none => exact .refl
    | some h2 =>
      refine .bind .refl fun versionFlag1 => .bind .refl fun versionFlag2 => .ite ?_ ?_
      · exact .bind (removeSecond_below hn) fun _ => .refl
      · exact .bind (inSecond_below hn) fun _ => .refl

end

/-! ## What a handle denotes -/

/-- The logs of a list of links. -/
def logsOf (l : List (Nat × Nat)) : Finset Nat := (l.map (·.2)).toFinset

/-- A tee that is handed out has these links, each to a log and in the order of the logs'
addresses. -/
structure Holds (logs : Logs) (m : Memory) (t : Nat) (l : List (Nat × Nat)) : Prop where
  used : m.tees.used t = true
  data : (m.tees.cells t).data = ⟨teeHeaderVersion, start none l, .ofNat l.length⟩
  linked : m.links.Linked none l
  sorted : Sorted (l.map (·.2))
  known : ∀ c ∈ l, (logs.version c.2).isSome

/-- **A handle denotes a set of logs.** -/
inductive Denotes (logs : Logs) (m : Memory) : Option Nat → Finset Nat → Prop
  | null : Denotes logs m none ∅
  | log {a : Nat} : (logs.version a).isSome → Denotes logs m (some a) {a}
  | tee {t : Nat} {l : List (Nat × Nat)} : Holds logs m t l → 2 ≤ l.length →
    Denotes logs m (some t) (logsOf l)

section
variable {logs : Logs} {m m' : Memory} {lists : Nat → List (Nat × Nat)}
    {l : List (Nat × Nat)} {t a n : Nat}
  {handle h1 h2 newTee : Option Nat} {s s₁ s₂ : Finset Nat}

/-- The logs of a list of links. -/
theorem mem_logsOf {x : Nat} : x ∈ logsOf l ↔ x ∈ l.map (·.2) := List.mem_toFinset

/-- A sorted list names as many logs as it has links. -/
theorem card_logsOf (h : Sorted (l.map (·.2))) : (logsOf l).card = l.length := by
  rw [logsOf, toFinset_card_of_nodup h.nodup, length_map]

/-- A tee in use holds the logs of its list. -/
theorem Represents.holds (h : Represents logs m lists) (ht : m.tees.used t = true) :
    Holds logs m t (lists t) :=
  ⟨ht, h.data t ht, h.linked t, h.sorted t, h.known t⟩

/-- A tee has no other links. -/
theorem Represents.eq_of_holds (h : Represents logs m lists) (hl : Holds logs m t l) :
    l = lists t := by
  refine hl.linked.segment.eq (h.linked t).segment ?_
  have hlink := congrArg Tee.link (hl.data.symm.trans (h.data t hl.used))
  exact hlink

/-- A handle is that of a log, or that of a tee. -/
theorem Represents.cases_of_denotes (h : Represents logs m lists) (hd : Denotes logs m (some a) s) :
    (m.tees.used a = false ∧ (logs.version a).isSome ∧ s = {a}) ∨
      (m.tees.used a = true ∧ 2 ≤ (lists a).length ∧ s = logsOf (lists a)) := by
  cases hd with
  | log hlog =>
    refine .inl ⟨Bool.eq_false_iff.mpr fun hused => ?_, hlog, rfl⟩
    rw [h.separate a hused] at hlog
    cases hlog
  | tee hl hlength =>
    obtain rfl := h.eq_of_holds hl
    exact .inr ⟨hl.used, hlength, rfl⟩

/-- A handle that is no tee denotes one log. -/
theorem Represents.log_of_denotes (h : Represents logs m lists) (hd : Denotes logs m (some a) s)
    (ha : m.tees.used a = false) : (logs.version a).isSome ∧ s = {a} := by
  rcases h.cases_of_denotes hd with ⟨-, hlog⟩ | ⟨hused, -⟩
  · exact hlog
  · rw [ha] at hused
    cases hused

/-- A log is told from a tee by its version. -/
theorem handleIsATee_log (ht : m.tees.used a = false) (ha : (logs.version a).isSome) :
    handleIsATee logs m a = .ok false := by
  obtain ⟨version, hversion⟩ := isSome_iff_exists.mp ha
  have hread : m.tees.read a = none := if_neg (by rw [ht]; exact Bool.false_ne_true)
  rw [handleIsATee, hread, hversion]
  exact congrArg Except.ok (decide_eq_false fun hno => hno (logs.plain a version hversion))

/-- A tee in use is told by the version of its header. -/
theorem handleIsATee_tee (h : Represents logs m lists) (ht : m.tees.used a = true) :
    handleIsATee logs m a = .ok true := by
  rw [handleIsATee, Pool.read_used ht]
  show Except.ok (decide ((m.tees.cells a).data.version &&& teeBit ≠ 0)) = _
  rw [h.data a ht]
  have hbit : teeHeaderVersion &&& teeBit ≠ 0 := by decide
  exact congrArg Except.ok (decide_eq_true hbit)

/-- A handle that denotes something is told apart. -/
theorem handleIsATee_spec (h : Represents logs m lists) (hd : Denotes logs m (some a) s) :
    handleIsATee logs m a = .ok (m.tees.used a) := by
  rcases h.cases_of_denotes hd with ⟨hused, hlog, -⟩ | ⟨hused, -⟩
  · rw [hused, handleIsATee_log hused hlog]
  · rw [hused, handleIsATee_tee h hused]

/-- What the calls rely on: the tees hold lists of links, with two of them at least. -/
def Inv (logs : Logs) (m : Memory) : Prop :=
  ∃ lists, Represents logs m lists ∧ ∀ t, m.tees.used t = true → 2 ≤ (lists t).length

/-- A call has answered with a handle of this set, and the other handles denote what they denoted.
-/
structure Answers (logs : Logs) (m : Memory) (h1 : Option Nat) (s : Finset Nat)
    (r : Memory × Option Nat) : Prop where
  inv : Inv logs r.1
  denotes : Denotes logs r.1 r.2 s
  keeps : ∀ handle s, handle ≠ h1 → Denotes logs m handle s → Denotes logs r.1 handle s
  links : ∀ a, r.1.links.used a = true → m.links.used a = true ∨ a ∈ m.supply

/-- The other handles denote what they denoted when one tee changes. -/
theorem Represents.keeps (h : Represents logs m lists)
    (h' : Represents logs m' (Function.update lists t l))
    (hused : ∀ t', t' ≠ t → m'.tees.used t' = m.tees.used t')
    (hne : m.tees.used t = true → handle ≠ some t) (hd : Denotes logs m handle s) :
    Denotes logs m' handle s := by
  cases hd with
  | null => exact .null
  | log hlog => exact .log hlog
  | @tee t' l' hl hlength =>
    obtain rfl := h.eq_of_holds hl
    have hother : t' ≠ t := by
      rintro rfl
      exact hne hl.used rfl
    have hholds := h'.holds ((hused t' hother).trans hl.used)
    rw [Function.update_of_ne hother] at hholds
    exact .tee hholds hlength

/-- A tee has other links than before. -/
theorem Answers.of_tee (h : Represents logs m lists)
    (hlength : ∀ t, m.tees.used t = true → 2 ≤ (lists t).length)
    (h' : Represents logs m' (Function.update lists t l))
    (hused : m'.tees.used = Function.update m.tees.used t true)
    (hne : m.tees.used t = true → h1 = some t) (hl : 2 ≤ (logsOf l).card) (hs : logsOf l = s)
    (hlinks : ∀ a, m'.links.used a = true → m.links.used a = true ∨ a ∈ m.supply) :
    Answers logs m h1 s (m', some t) := by
  have hself : Function.update lists t l t = l := Function.update_self ..
  have ht : m'.tees.used t = true := by rw [hused, Function.update_self]
  have hother : ∀ t', t' ≠ t → m'.tees.used t' = m.tees.used t' := fun t' hne => by
    rw [hused, Function.update_of_ne hne]
  have hsorted := h'.sorted t
  rw [hself] at hsorted
  rw [card_logsOf hsorted] at hl
  refine ⟨⟨_, h', fun t' ht' => ?_⟩, ?_, fun handle s hhandle hd => ?_, hlinks⟩
  · rcases eq_or_ne t' t with rfl | hne'
    · rwa [hself]
    · rw [Function.update_of_ne hne']
      exact hlength t' ((hother t' hne').symm.trans ht')
  · have hholds := h'.holds ht
    rw [hself] at hholds
    exact hs ▸ .tee hholds hl
  · exact h.keeps h' hother (fun hused' heq => hhandle (heq.trans (hne hused').symm)) hd

/-- Nothing has changed. -/
theorem Answers.same (h : Inv logs m) (hd : Denotes logs m handle s) :
    Answers logs m h1 s (m, handle) :=
  ⟨h, hd, fun _ _ _ hd => hd, fun _ => .inl⟩

end

/-! ## Adding -/

section
variable {logs : Logs} {m m' : Memory} {lists : Nat → List (Nat × Nat)}
    {l : List (Nat × Nat)} {t a b n : Nat}
  {h1 h2 newTee : Option Nat} {s s₁ s₂ : Finset Nat}

/-- The pool has a tee left. -/
def HasTee (m : Memory) (newTee : Option Nat) : Prop := ∃ t ∈ newTee, m.tees.used t = false

/-- A tee without logs has been handed out. -/
structure Takes (logs : Logs) (lists : Nat → List (Nat × Nat)) (m : Memory)
    (r : Memory × Nat) : Prop where
  holds : Represents logs r.1 lists
  fresh : m.tees.used r.2 = false
  version : logs.version r.2 = none
  used : r.1.tees.used = Function.update m.tees.used r.2 true
  links : r.1.links = m.links
  supply : r.1.supply = m.supply

/-- Taking a tee ends with a new one, if there is one. -/
theorem takeTee_spec (h : Represents logs m lists) (hnew : ∀ t ∈ newTee, logs.version t = none) :
    Ends (HasTee m newTee) (takeTee m newTee) (Takes logs lists m) := by
  cases newTee with
  | none => exact .inl ⟨rfl, fun ⟨t, ht, _⟩ => by cases ht⟩
  | some t =>
    cases hused : m.tees.used t with
    | true =>
      refine .inl ⟨?_, ?_⟩
      · have halloc : m.tees.alloc t ⟨⟨teeHeaderVersion, none, 0⟩, none⟩ = none := if_pos hused
        rw [takeTee, halloc]
      · rintro ⟨t', ht', hunused⟩
        cases ht'
        rw [hused] at hunused
        cases hunused
    | false =>
      have hversion := hnew t rfl
      refine .inr ⟨_, by rw [takeTee, Pool.alloc_unused hused], ?_, hused, hversion, rfl, rfl, rfl⟩
      have hlists :
          Function.update lists t [] = lists := by rw [← h.unused t hused, Function.update_eq_self]
      rw [← hlists]
      refine h.update (fun _ => ?_) ⟨trivial, fun c hc => by cases hc⟩ .nil
        (fun c hc => by cases hc)
        (fun _ _ c hc => by cases hc) (fun _ => hversion) (fun _ => rfl)
        (fun t' hne => ⟨Function.update_of_ne hne .., Function.update_of_ne hne ..⟩) fun _
        _ _ _ => ⟨rfl, rfl⟩
      show (Function.update m.tees.cells t _ t).data = _
      rw [Function.update_self]
      rfl

/-- Taking a tee uses up no link. -/
theorem Takes.ample {r : Memory × Nat} {k : Nat} (h : Takes logs lists m r) (hample : Ample m k) :
    Ample r.1 k :=
  ⟨h.supply ▸ hample.length,
    h.supply ▸ hample.nodup, by rw [h.supply, h.links]; exact hample.unused⟩

/-- The first handle is a tee now, with the logs that it denoted. -/
structure Begins (logs : Logs) (lists : Nat → List (Nat × Nat)) (m : Memory)
    (a : Nat) (s : Finset Nat)
    (r : Memory × Nat) : Prop where
  holds : ∃ l, Represents logs r.1 (Function.update lists r.2 l) ∧ logsOf l = s
  used : r.1.tees.used = Function.update m.tees.used r.2 true
  first : m.tees.used r.2 = true → r.2 = a
  keeps : ∀ b s, Denotes logs m (some b) s → Denotes logs r.1 (some b) s ∧
    r.1.tees.used b = m.tees.used b
  ample : ∀ k, Ample m (k + 1) → Ample r.1 k
  supply : r.1.supply ⊆ m.supply
  links : ∀ a, r.1.links.used a = true → m.links.used a = true ∨ a ∈ m.supply

/-- The first half of `TeeAdd` ends with a tee for the logs of the first handle. -/
theorem firstTee_spec (h : Represents logs m lists) (hd : Denotes logs m (some a) s)
    (hnew : ∀ t ∈ newTee, logs.version t = none) (hn : 0 < n) :
    Ends ((m.tees.used a = false → HasTee m newTee) ∧ Ample m 1)
      (firstTee n m newTee (m.tees.used a) a)
      (Begins logs lists m a s) := by
  rcases h.cases_of_denotes hd with ⟨hused, hlog, rfl⟩ | ⟨hused, -, rfl⟩
  · rw [hused]
    show Ends _ ((takeTee m newTee).bind fun r => (teeLinkAdd n r.1 r.2 a).bind fun m =>
      .ok (m, r.2)) _
    refine Ends.bind ((takeTee_spec h hnew).mono (fun hample => hample.1 rfl) fun _ =>
      id) fun r hr => ?_
    have ht : r.1.tees.used r.2 = true := by rw [hr.used, Function.update_self]
    have hempty : lists r.2 = [] := h.unused r.2 hr.fresh
    refine Ends.bind
      ((teeLinkAdd_spec hr.holds ht (by rwa [hempty]) hlog (by rw [hempty]; simp)).mono
      (fun hample => hr.ample hample.2) fun _ => id) ?_
    rintro m₂ ⟨l, hadds⟩
    have hlogs : logsOf l = {a} := by
      refine Finset.ext fun x => ?_
      rw [mem_logsOf, hadds.mem, hempty, Finset.mem_singleton, mem_singleton]
      exact or_iff_left (by simp)
    have hother : ∀ t', t' ≠ r.2 → m₂.tees.used t' = m.tees.used t' := fun t' hne => by
      rw [hadds.tees, hr.used, Function.update_of_ne hne]
    refine .ok ⟨⟨l, hadds.holds, hlogs⟩, hadds.tees.trans hr.used, fun hno => ?_, fun b s hb =>
      ⟨?_, hother b ?_⟩,
      fun k hample => hadds.ample k (hr.ample (by rwa [Nat.add_comm] at hample)),
        hr.supply ▸ hadds.supply,
      fun a ha => ?_⟩
    · have hfresh := hr.fresh
      rw [hno] at hfresh
      cases hfresh
    · refine h.keeps hadds.holds hother (fun hno => ?_) hb
      have hfresh := hr.fresh
      rw [hno] at hfresh
      cases hfresh
    · rintro rfl
      rcases h.cases_of_denotes hb with ⟨-, hversion, -⟩ | ⟨hused, -⟩
      · rw [hr.version] at hversion
        cases hversion
      · rw [hr.fresh] at hused
        cases hused
    · have hlinks := hadds.links a ha
      rwa [hr.links, hr.supply] at hlinks
  · rw [hused]
    refine .ok ⟨⟨lists a, by rwa [Function.update_eq_self], rfl⟩, ?_, fun _ => rfl,
      fun _ _ hb => ⟨hb, rfl⟩,
      fun k hample => hample.mono (Nat.le_succ k), fun _ => id, fun _ => .inl⟩
    rw [← hused, Function.update_eq_self]

/-- What the second handle denotes is added. -/
theorem addSecond_spec (h : Represents logs m lists) (ht : m.tees.used t = true)
    (hd : Denotes logs m (some b) s) (hn : (lists t).length + s.card < n) :
    Ends (Ample m s.card) (addSecond n m t (m.tees.used b) b) fun m' =>
      ∃ new l, new.toFinset = s ∧ Adds logs lists t new m m' l := by
  rcases h.cases_of_denotes hd with ⟨hused, hlog, rfl⟩ | ⟨hused, -, rfl⟩
  · rw [hused]
    exact (addLog_spec h ht (by omega) hlog).mono id fun m' ⟨l, hadds⟩ => ⟨[b], l, rfl, hadds⟩
  · rw [card_logsOf (h.sorted b)] at hn ⊢
    rw [hused]
    show Ends _ ((held (m.tees.read b)).bind fun tee2 => addLinks n t n m tee2.data.link) _
    rw [Pool.read_used hused]
    show Ends _ (addLinks n t n m (m.tees.cells b).data.link) _
    rw [h.data b hused]
    show Ends _ (addLinks n t n m (start none (lists b))) _
    rcases eq_or_ne t b with rfl | hne
    · rw [addLinks_self [] h ht rfl (by omega) (by omega)]
      exact .ok ⟨(lists t).map (·.2), _, rfl, .refl h fun _ => id⟩
    · exact (addLinks_spec [] hne h ht rfl hn (by omega)).mono id fun m' ⟨l, hadds⟩ =>
        ⟨(lists b).map (·.2), l, rfl, hadds⟩

/-- Two logs make a tee, and so does a tee with more logs. -/
theorem two_le_card (h : Represents logs m lists) (hd₁ : Denotes logs m (some a) s₁)
    (hd₂ : Denotes logs m (some b) s₂)
    (hne : ¬ (m.tees.used a = false ∧ m.tees.used b = false ∧ a = b)) : 2 ≤ (s₁ ∪ s₂).card := by
  have hleft : s₁.card ≤ (s₁ ∪ s₂).card := Finset.card_le_card Finset.subset_union_left
  have hright : s₂.card ≤ (s₁ ∪ s₂).card := Finset.card_le_card Finset.subset_union_right
  rcases h.cases_of_denotes hd₁ with ⟨husedA, -, rfl⟩ | ⟨-, hlength, rfl⟩
  · rcases h.cases_of_denotes hd₂ with ⟨husedB, -, rfl⟩ | ⟨-, hlength, rfl⟩
    · exact (Finset.card_pair fun heq => hne ⟨husedA, husedB, heq⟩).ge
    · rw [card_logsOf (h.sorted b)] at hright
      omega
  · rw [card_logsOf (h.sorted a)] at hleft
    omega

/-- **The union.** -/
theorem teeAdd_spec (hinv : Inv logs m) (hd₁ : Denotes logs m h1 s₁) (hd₂ : Denotes logs m h2 s₂)
    (hnew : ∀ t ∈ newTee, logs.version t = none) (hn : s₁.card + s₂.card < n) :
    Ends ((∀ a ∈ h1, m.tees.used a = false → HasTee m newTee) ∧ Ample m (s₂.card + 1))
      (teeAdd logs n m newTee h1 h2) (Answers logs m h1 (s₁ ∪ s₂)) := by
  obtain ⟨lists, h, hlength⟩ := hinv
  cases h1 with
  | none =>
    cases hd₁
    rw [Finset.empty_union]
    exact .ok (.same ⟨lists, h, hlength⟩ hd₂)
  | some a =>
    cases h2 with
    | none =>
      cases hd₂
      rw [Finset.union_empty]
      exact .ok (.same ⟨lists, h, hlength⟩ hd₁)
    | some b =>
      have hflags : teeAdd logs n m newTee (some a) (some b) =
          if (!m.tees.used a && !m.tees.used b && decide (a = b)) = true then .ok (m, some a)
          else (firstTee n m newTee (m.tees.used a) a).bind fun r =>
            (addSecond n r.1 r.2 (m.tees.used b) b).bind fun m => .ok (m, some r.2) := by
        rw [teeAdd, handleIsATee_spec h hd₁, handleIsATee_spec h hd₂]
        rfl
      rw [hflags]
      by_cases hsame : m.tees.used a = false ∧ m.tees.used b = false ∧ a = b
      · obtain ⟨hused, -, rfl⟩ := hsame
        rw [if_pos (by rw [hused]; simp), (h.log_of_denotes hd₁ hused).2,
          (h.log_of_denotes hd₂ hused).2,
          Finset.union_self]
        exact .ok (.same ⟨lists, h, hlength⟩ (.log (h.log_of_denotes hd₁ hused).1))
      · rw [if_neg (by simpa [and_assoc] using hsame)]
        refine Ends.bind ((firstTee_spec h hd₁ hnew (by omega)).mono
          (fun hample => ⟨hample.1 a rfl, hample.2.mono (by omega)⟩) fun _ => id) fun r hr => ?_
        obtain ⟨l, hl, hs₁⟩ := hr.holds
        have hself : Function.update lists r.2 l r.2 = l := Function.update_self ..
        have hcard : l.length = s₁.card := by
          have hsorted := hl.sorted r.2
          rw [hself] at hsorted
          rw [← hs₁, card_logsOf hsorted]
        have hused : r.1.tees.used r.2 = true := by rw [hr.used, Function.update_self]
        rw [← (hr.keeps b s₂ hd₂).2]
        refine Ends.bind
          ((addSecond_spec hl hused (hr.keeps b s₂ hd₂).1 (by rwa [hself, hcard])).mono
          (fun hample => hr.ample _ hample.2) fun _ => id) ?_
        rintro m' ⟨new, l', hs₂, hadds⟩
        have hholds := hadds.holds
        rw [Function.update_idem] at hholds
        have hlogs : logsOf l' = s₁ ∪ s₂ := by
          refine Finset.ext fun x => ?_
          rw [mem_logsOf, hadds.mem, hself, Finset.mem_union, ← hs₁, ← hs₂, mem_logsOf,
            List.mem_toFinset, or_comm]
        refine .ok (.of_tee h hlength hholds (hadds.tees.trans hr.used)
          (fun hno => congrArg some (hr.first hno).symm)
          (hlogs ▸ two_le_card h hd₁ hd₂ hsame) hlogs fun x hx => ?_)
        rcases hadds.links x hx with hx | hx
        · exact hr.links x hx
        · exact .inr (hr.supply hx)

end

/-! ## Removing -/

section
variable {logs : Logs} {m m' m₁ : Memory} {lists : Nat → List (Nat × Nat)}
    {l : List (Nat × Nat)} {t a b n : Nat}
  {h1 h2 newTee answer : Option Nat} {s s₁ s₂ : Finset Nat} {q : Pool Nat}

/-- What the second handle denotes is removed. -/
theorem removeSecond_spec (h : Represents logs m lists) (ht : m.tees.used t = true)
    (hd : Denotes logs m (some b) s)
    (hn : (lists t).length + s.card < n) : ∃ m' l, removeSecond n m t (m.tees.used b) b = .ok m' ∧
      Removes logs lists t l m m' ∧ logsOf l = logsOf (lists t) \ s := by
  have hlogs : ∀ {p : Nat × Nat → Prop} [DecidablePred p], (∀ x : Nat × Nat, p x ↔ x.2 ∉ s) →
      logsOf ((lists t).filter p) = logsOf (lists t) \ s := by
    intro p _ hp
    refine Finset.ext fun x => ?_
    rw [mem_logsOf, Finset.mem_sdiff, mem_logsOf, List.mem_map, List.mem_map]
    constructor
    · rintro ⟨c, hc, rfl⟩
      obtain ⟨hmem, hpc⟩ := mem_filter.mp hc
      exact ⟨⟨c, hmem, rfl⟩, (hp c).mp (of_decide_eq_true hpc)⟩
    · rintro ⟨⟨c, hmem, rfl⟩, hnot⟩
      exact ⟨c, mem_filter.mpr ⟨hmem, decide_eq_true ((hp c).mpr hnot)⟩, rfl⟩
  rcases h.cases_of_denotes hd with ⟨hused, -, rfl⟩ | ⟨hused, -, rfl⟩
  · rw [hused]
    obtain ⟨m', hremove, hremoves⟩ := teeLinkRemove_spec b h ht (n := n) (by omega)
    exact ⟨m', _, hremove, hremoves, hlogs fun x => not_congr Finset.mem_singleton.symm⟩
  · rw [card_logsOf (h.sorted b)] at hn
    have hread : removeSecond n m t true b = removeLinks n t n m (start none (lists b)) := by
      show ((held (m.tees.read b)).bind fun tee2 => removeLinks n t n m tee2.data.link) = _
      rw [Pool.read_used hused]
      show removeLinks n t n m (m.tees.cells b).data.link = _
      rw [h.data b hused]
    rw [hused, hread]
    rcases eq_or_ne t b with rfl | hne
    · obtain ⟨m', hremove, hremoves⟩ :=
        removeLinks_self h ht (n := n) (k := n) (by omega) (by omega)
      exact ⟨m', [], hremove, hremoves, (Finset.sdiff_self _).symm⟩
    · obtain ⟨m', hremove, hremoves⟩ :=
        removeLinks_spec [] (k := n) hne h ht rfl (n := n) (by omega) (by omega)
      exact ⟨m', _, hremove, hremoves, hlogs fun x => not_congr mem_logsOf.symm⟩

/-- A tee has been given back, and with it the links that were left. -/
theorem Answers.of_free (h : Represents logs m lists)
    (hlength : ∀ t, m.tees.used t = true → 2 ≤ (lists t).length)
    (hr : Removes logs lists t l m m₁) (hcells : q.cells = m₁.links.cells)
    (hkept : ∀ t', t' ≠ t → ∀ c ∈ lists t', q.used c.1 = m₁.links.used c.1)
    (hused : ∀ a, q.used a = true → m₁.links.used a = true)
    (hanswer : ∀ m', Denotes logs m' answer s) :
    Answers logs m (some t) s
      (⟨{ m₁.tees with used := Function.update m₁.tees.used t false }, q, m₁.supply⟩, answer) := by
  let m' : Memory := ⟨{ m₁.tees with used := Function.update m₁.tees.used t false }, q, m₁.supply⟩
  have hself : m'.tees.used t = false := Function.update_self ..
  have hother : ∀ t', t' ≠ t → m'.tees.used t' = m.tees.used t' := fun t' hne =>
    (Function.update_of_ne hne ..).trans (congrFun hr.tees t')
  have hunused : m'.tees.used t ≠ true := by
    rw [hself]
    exact Bool.false_ne_true
  have hholds : Represents logs m' (Function.update lists t []) := by
    have hempty : Represents logs m' (Function.update (Function.update lists t l) t []) :=
      hr.holds.update (fun hno => absurd hno hunused)
      ⟨trivial, fun c hc => by cases hc⟩ .nil (fun c hc => by cases hc)
        (fun _ _ c hc => by cases hc)
      (fun hno => absurd hno hunused) (fun _ => rfl)
      (fun t' hne => ⟨Function.update_of_ne hne .., rfl⟩)
      fun t' hne c hc =>
        ⟨congrFun hcells c.1, hkept t' hne c (by rwa [Function.update_of_ne hne] at hc)⟩
    rwa [Function.update_idem] at hempty
  refine ⟨⟨_, hholds, fun t' ht' => ?_⟩, hanswer m', fun handle s hne hd => h.keeps hholds hother
    (fun _ => hne) hd,
    fun a ha => .inl (hr.links a (hused a ha))⟩
  have hne : t' ≠ t := by
    rintro rfl
    exact hunused ht'
  rw [Function.update_of_ne hne]
  exact hlength t' ((hother t' hne).symm.trans ht')

/-- **What is left of a tee.** -/
theorem collapse_spec (h : Represents logs m lists)
    (hlength : ∀ t, m.tees.used t = true → 2 ≤ (lists t).length)
    (ht : m.tees.used t = true) (hr : Removes logs lists t l m m₁) :
    ∃ r, collapse m₁ t = .ok r ∧ Answers logs m (some t) (logsOf l) r := by
  have hself : Function.update lists t l t = l := Function.update_self ..
  have ht₁ : m₁.tees.used t = true := by rwa [hr.tees]
  have hlink : (m₁.tees.cells t).data.link = start none l := by rw [hr.holds.data t ht₁, hself]
  have hlinked := hr.holds.linked t
  have hknown := hr.holds.known t
  rw [hself] at hlinked hknown
  unfold collapse
  rw [Pool.read_used ht₁]
  dsimp only [held, bind, Except.bind]
  rw [hlink, Pool.free_used ht₁]
  cases l with
  | nil =>
    exact ⟨_, rfl, .of_free h hlength hr rfl (fun _ _ _ _ => rfl) (fun _ => id) fun _ => .null⟩
  | cons c l =>
    obtain ⟨hcell, hused, -⟩ := Pool.linked_cons.mp hlinked
    have hread := hlinked.read
    show ∃ r, ((held (m₁.links.read c.1)).bind fun first => _) = _ ∧ _
    rw [hread, Pool.free_used hused]
    cases l with
    | nil =>
      refine ⟨_, rfl, .of_free h hlength hr rfl (fun t' hne d hd => Function.update_of_ne ?_ ..)
        (fun _ => used_of_update) fun _ => .log (hknown c mem_cons_self)⟩
      have hdisjoint := hr.holds.disjoint t' t hne d (by rwa [Function.update_of_ne hne])
      rw [hself] at hdisjoint
      exact fun heq => hdisjoint (heq ▸ mem_cons_self)
    | cons d l =>
      have hsorted := hr.holds.sorted t
      rw [hself] at hsorted
      have hcard := card_logsOf hsorted
      rw [length_cons, length_cons] at hcard
      refine ⟨_, rfl, .of_tee h hlength hr.holds ?_ (fun _ => rfl) (by omega) rfl fun a ha =>
        .inl (hr.links a ha)⟩
      rw [hr.tees, ← ht, Function.update_eq_self]

/-- **The difference.** -/
theorem teeRemove_spec (hinv : Inv logs m) (hd₁ : Denotes logs m h1 s₁) (hd₂ : Denotes logs m h2 s₂)
    (hn : s₁.card + s₂.card < n) : ∃ r, teeRemove logs n m h1 h2 = .ok r ∧
    Answers logs m h1 (s₁ \ s₂) r := by
  obtain ⟨lists, h, hlength⟩ := hinv
  cases h1 with
  | none =>
    cases hd₁
    rw [Finset.empty_sdiff]
    exact ⟨_, rfl, .same ⟨lists, h, hlength⟩ .null⟩
  | some a =>
    cases h2 with
    | none =>
      cases hd₂
      rw [Finset.sdiff_empty]
      exact ⟨_, rfl, .same ⟨lists, h, hlength⟩ hd₁⟩
    | some b =>
      have hflags : teeRemove logs n m (some a) (some b) =
          if m.tees.used a = true then (removeSecond n m a (m.tees.used b) b).bind
            fun m => collapse m a
          else (inSecond n m a (m.tees.used b) b).bind fun found =>
            .ok (m, if found then none else some a) := by
        rw [teeRemove, handleIsATee_spec h hd₁, handleIsATee_spec h hd₂]
        rfl
      rw [hflags]
      rcases h.cases_of_denotes hd₁ with ⟨hused, hlog, rfl⟩ | ⟨hused, -, rfl⟩
      · have hfound : inSecond n m a (m.tees.used b) b = .ok (decide (a ∈ s₂)) := by
          rcases h.cases_of_denotes hd₂ with ⟨husedB, -, rfl⟩ | ⟨husedB, -, rfl⟩
          · rw [husedB]
            exact congrArg Except.ok (decide_eq_decide.mpr Finset.mem_singleton.symm)
          · rw [card_logsOf (h.sorted b)] at hn
            rw [husedB]
            refine (teeHandleSearch_spec h husedB (by omega)).trans ?_
            exact congrArg Except.ok (decide_eq_decide.mpr mem_logsOf.symm)
        rw [if_neg (by rw [hused]; exact Bool.false_ne_true), hfound]
        by_cases hmem : a ∈ s₂
        · rw [decide_eq_true hmem, Finset.sdiff_eq_empty_iff_subset.mpr
            (Finset.singleton_subset_iff.mpr hmem)]
          exact ⟨_, rfl, .same ⟨lists, h, hlength⟩ .null⟩
        · rw [decide_eq_false hmem, Finset.sdiff_eq_self_of_disjoint
            (Finset.disjoint_singleton_left.mpr hmem)]
          exact ⟨_, rfl, .same ⟨lists, h, hlength⟩ (.log hlog)⟩
      · rw [card_logsOf (h.sorted a)] at hn
        obtain ⟨m₁, l, hremove, hremoves, hlogs⟩ := removeSecond_spec h hused hd₂ hn
        rw [if_pos hused, hremove, ← hlogs]
        exact collapse_spec h hlength hused hremoves

end

/-! ## Runs -/

/-- A call of one of the two functions, and what the pools hand out while it goes on. -/
inductive Call
  | add (h1 h2 newTee : Option Nat) (supply : List Nat)
  | remove (h1 h2 : Option Nat)

namespace Call

def first : Call → Option Nat
  | add h1 .. => h1
  | remove h1 _ => h1

def second : Call → Option Nat
  | add _ h2 .. => h2
  | remove _ h2 => h2

/-- The set that the answer is to denote. -/
def result (s₁ s₂ : Finset Nat) : Call → Finset Nat
  | add .. => s₁ ∪ s₂
  | remove .. => s₁ \ s₂

def run (logs : Logs) (m : Memory) (n : Nat) : Call → Except Fault (Memory × Option Nat)
  | add h1 h2 newTee supply => teeAdd logs n { m with supply } newTee h1 h2
  | remove h1 h2 => teeRemove logs n m h1 h2

/-- The memory in which the call goes on. -/
def memory (m : Memory) : Call → Memory
  | add _ _ _ supply => { m with supply }
  | remove .. => m

/-- A pool hands out no memory of a log. -/
def Apart (logs : Logs) : Call → Prop
  | add _ _ newTee _ => ∀ t ∈ newTee, logs.version t = none
  | remove .. => True

/-- The pools have what the call needs. -/
def Provided (m : Memory) (s₂ : Finset Nat) : Call → Prop
  | add h1 _ newTee supply =>
    (∀ a ∈ h1, m.tees.used a = false → HasTee m newTee) ∧ Ample { m with supply } (s₂.card + 1)
  | remove .. => True

end Call

/-- A handle that a caller may have: none, that of a log, or that of a tee that has not been given
back. -/
def Live (logs : Logs) (m : Memory) : Option Nat → Prop
  | none => True
  | some a => (logs.version a).isSome ∨ m.tees.used a = true

/-- A call with handles that the caller may have, and what it answers. -/
def Step (logs : Logs) (m : Memory) (e : Call × Option Nat) (m' : Memory) : Prop :=
  Live logs m e.1.first ∧ Live logs m e.1.second ∧ e.1.Apart logs ∧
    Comes (fun n => e.1.run logs m n) (.ok (m', e.2))

/-- Nothing has been handed out. -/
def Memory.empty (tees : Nat → Cell Tee) (links : Nat → Cell Nat) : Memory :=
  ⟨⟨tees, fun _ => false⟩, ⟨links, fun _ => false⟩, []⟩

/-- What the callers rely on. -/
structure Sound (logs : Logs) (m : Memory) : Prop where
  /-- A tee has links in the order of the logs, and says how many there are as far as it can. -/
  tees : ∀ t, m.tees.used t = true → ∃ l, Holds logs m t l ∧ 2 ≤ l.length
  disjoint : ∀ t t' l l', t ≠ t' → Holds logs m t l → Holds logs m t' l' →
    ∀ c ∈ l, c.1 ∉ l'.map (·.1)
  live : ∀ handle, Live logs m handle → ∃ s, Denotes logs m handle s
  unique : ∀ handle s s', Denotes logs m handle s → Denotes logs m handle s' → s = s'
  null : ∀ handle, Denotes logs m handle ∅ → handle = none
  single : ∀ handle a, Denotes logs m handle {a} → handle = some a
  /-- A call comes to an end, unless a pool has nothing to hand out, and uses nothing that has been
  given back. -/
  calls : ∀ (call : Call) (s₁ s₂ : Finset Nat), Denotes logs m call.first s₁ →
    Denotes logs m call.second s₂ →
    call.Apart logs → ∃ r, Comes (fun n => call.run logs m n) r ∧
      ((r = .error .pool ∧ ¬ call.Provided m s₂) ∨
      ∃ m' answer, r = .ok (m', answer) ∧ Denotes logs m' answer (call.result s₁ s₂) ∧
        ∀ handle s, handle ≠ call.first → Denotes logs m handle s → Denotes logs m' handle s)

section
variable {logs : Logs} {m m' : Memory} {lists : Nat → List (Nat × Nat)}
    {l : List (Nat × Nat)} {t a : Nat}
  {handle answer : Option Nat} {call : Call} {s s₁ s₂ : Finset Nat} {tees : Nat → Cell Tee}

/-- The links to come are not part of the invariant. -/
theorem Inv.supply (h : Inv logs m) (supply : List Nat) : Inv logs { m with supply } := by
  obtain ⟨lists, hr, hlength⟩ := h
  exact ⟨lists, ⟨hr.data, hr.linked, hr.sorted, hr.known, hr.disjoint, hr.separate, hr.unused⟩,
    hlength⟩

/-- What a handle denotes does not depend on the links to come. -/
theorem Denotes.supply (h : Denotes logs m handle s) (supply : List Nat) :
    Denotes logs { m with supply } handle s := by
  cases h with
  | null => exact .null
  | log hlog => exact .log hlog
  | tee hl hlength => exact .tee ⟨hl.used, hl.data, hl.linked, hl.sorted, hl.known⟩ hlength

/-- A call starts with what its handles denote. -/
theorem Denotes.memory (h : Denotes logs m handle s) (call : Call) :
    Denotes logs (call.memory m) handle s := by
  cases call with
  | add h1 h2 newTee supply => exact h.supply supply
  | remove h1 h2 => exact h

/-- More rounds than do are not needed. -/
theorem Ends.comes {α : Type} {ample : Prop} {good : α → Prop} {f : Nat → Except Fault α} {n : Nat}
    (h : Ends ample (f n) good) (hbelow : ∀ n n', n ≤ n' → Below Fault.rounds (f n) (f n')) :
    ∃ r, Comes f r ∧ Ends ample r good := by
  refine ⟨f n, .of_below hbelow fun hno => ?_, h⟩
  rcases h with ⟨herror, -⟩ | ⟨a, hok, -⟩
  · rw [herror] at hno
    cases hno
  · rw [hok] at hno
    cases hno

/-- **One call.** -/
theorem Inv.calls (h : Inv logs m) (hd₁ : Denotes logs m call.first s₁)
    (hd₂ : Denotes logs m call.second s₂)
    (hapart : call.Apart logs) : ∃ r, Comes (fun n => call.run logs m n) r ∧
      Ends (call.Provided m s₂) r
        (Answers logs (call.memory m) call.first (call.result s₁ s₂)) := by
  cases call with
  | add h1 h2 newTee supply =>
    exact Ends.comes (teeAdd_spec (h.supply supply) (hd₁.supply supply) (hd₂.supply supply) hapart
      (Nat.lt_succ_self _)) fun _ _ => teeAdd_below
  | remove h1 h2 =>
    obtain ⟨r, hr, hanswers⟩ := teeRemove_spec h hd₁ hd₂ (Nat.lt_succ_self _)
    exact Ends.comes (.inr ⟨r, hr, hanswers⟩) fun _ _ => teeRemove_below

/-- A live handle denotes a set of logs. -/
theorem Inv.denotes_of_live (h : Inv logs m) (hlive : Live logs m handle) :
    ∃ s, Denotes logs m handle s := by
  obtain ⟨lists, hr, hlength⟩ := h
  cases handle with
  | none => exact ⟨∅, .null⟩
  | some a =>
    rcases hlive with hlog | hused
    · exact ⟨{a}, .log hlog⟩
    · exact ⟨_, .tee (hr.holds hused) (hlength a hused)⟩

/-- A handle denotes one set of logs. -/
theorem Inv.denotes_unique {s' : Finset Nat} (h : Inv logs m) (hd : Denotes logs m handle s)
    (hd' : Denotes logs m handle s') : s = s' := by
  obtain ⟨lists, hr, -⟩ := h
  cases handle with
  | none =>
    cases hd
    cases hd'
    rfl
  | some a =>
    rcases hr.cases_of_denotes hd with ⟨hused, -, rfl⟩ | ⟨hused, -, rfl⟩
    · exact (hr.log_of_denotes hd' hused).2.symm
    · rcases hr.cases_of_denotes hd' with ⟨hunused, -⟩ | ⟨-, -, rfl⟩
      · rw [hused] at hunused
        cases hunused
      · rfl

/-- Only `NULL` denotes the empty set. -/
theorem Inv.null (h : Inv logs m) (hd : Denotes logs m handle ∅) : handle = none := by
  obtain ⟨lists, hr, -⟩ := h
  cases handle with
  | none => rfl
  | some a =>
    rcases hr.cases_of_denotes hd with ⟨-, -, hs⟩ | ⟨-, hlength, hs⟩
    · exact absurd hs.symm (Finset.singleton_ne_empty a)
    · rw [← card_logsOf (hr.sorted a), ← hs, Finset.card_empty] at hlength
      omega

/-- Only a log itself denotes it. -/
theorem Inv.single (h : Inv logs m) (hd : Denotes logs m handle {a}) : handle = some a := by
  have hinv := h
  obtain ⟨lists, hr, -⟩ := h
  cases handle with
  | none => exact absurd (hinv.denotes_unique hd .null) (Finset.singleton_ne_empty a)
  | some b =>
    rcases hr.cases_of_denotes hd with ⟨-, -, hs⟩ | ⟨-, hlength, hs⟩
    · rw [Finset.singleton_inj.mp hs]
    · rw [← card_logsOf (hr.sorted b), ← hs, Finset.card_singleton] at hlength
      omega

/-- The invariant gives the soundness of the memory. -/
theorem Inv.sound (h : Inv logs m) : Sound logs m where
  tees t ht := by
    obtain ⟨lists, hr, hlength⟩ := h
    exact ⟨lists t, hr.holds ht, hlength t ht⟩
  disjoint t t' l l' hne hl hl' := by
    obtain ⟨lists, hr, -⟩ := h
    rw [hr.eq_of_holds hl, hr.eq_of_holds hl']
    exact hr.disjoint t t' hne
  live _ hlive := h.denotes_of_live hlive
  unique _ _ _ hd hd' := h.denotes_unique hd hd'
  null _ hd := h.null hd
  single _ _ hd := h.single hd
  calls call s₁ s₂ hd₁ hd₂ hapart := by
    obtain ⟨r, hcomes, hends⟩ := h.calls hd₁ hd₂ hapart
    refine ⟨r, hcomes, hends.imp_right ?_⟩
    rintro ⟨⟨m', answer⟩, rfl, hanswers⟩
    exact ⟨m', answer, rfl, hanswers.denotes, fun handle s hne hd =>
      hanswers.keeps handle s hne (hd.memory call)⟩

/-- An empty memory meets the invariant. -/
theorem Inv.empty {links : Nat → Cell Nat} :
    Inv logs (.empty tees links) := by
  refine ⟨fun _ => [], ⟨fun t ht => ?_, fun _ => ⟨trivial, fun c hc => ?_⟩,
    fun _ => .nil, fun _ c hc => ?_,
    fun _ _ _ c hc => ?_, fun t ht => ?_, fun _ _ => rfl⟩, fun t ht => ?_⟩
  all_goals first | cases ht | cases hc

/-- A call answers a handle for the set that it is about. -/
theorem Inv.step (h : Inv logs m) (hstep : Step logs m (call, answer) m') :
    ∃ s₁ s₂, Denotes logs m call.first s₁ ∧ Denotes logs m call.second s₂ ∧
      Answers logs (call.memory m) call.first (call.result s₁ s₂) (m', answer) := by
  obtain ⟨hlive₁, hlive₂, hapart, hcomes⟩ := hstep
  obtain ⟨s₁, hd₁⟩ := h.denotes_of_live hlive₁
  obtain ⟨s₂, hd₂⟩ := h.denotes_of_live hlive₂
  obtain ⟨r, hcomes', hends⟩ := h.calls hd₁ hd₂ hapart
  obtain rfl := hcomes.unique hcomes'
  rcases hends with ⟨hno, -⟩ | ⟨r, hr, hanswers⟩
  · cases hno
  · cases hr
    exact ⟨s₁, s₂, hd₁, hd₂, hanswers⟩

/-- The invariant holds after every run. -/
theorem Inv.run {links : Nat → Cell Nat} {trace : List (Call × Option Nat)}
    (run : Run (Step logs) (.empty tees links) trace m) : Inv logs m := by
  refine run.state_invariant .empty ?_
  rintro m ⟨call, answer⟩ m' hinv hstep
  obtain ⟨_, _, _, _, hanswers⟩ := hinv.step hstep
  exact hanswers.inv

/-- A handle that denotes something is live. -/
theorem Denotes.live (h : Denotes logs m handle s) : Live logs m handle := by
  cases h with
  | null => trivial
  | log hlog => exact .inl hlog
  | tee hl _ => exact .inr hl.used

/-- A call answers when the pools have what it needs. -/
theorem Inv.progress (h : Inv logs m) (call : Call) (hd₁ : Denotes logs m call.first s₁)
    (hd₂ : Denotes logs m call.second s₂)
    (hapart : call.Apart logs) (hprovided : call.Provided m s₂) :
      ∃ m' answer, Step logs m (call, answer) m' ∧
      Answers logs (call.memory m) call.first (call.result s₁ s₂) (m', answer) := by
  obtain ⟨r, hcomes, ⟨-, hno⟩ | ⟨⟨m', answer⟩, rfl, hanswers⟩⟩ := h.calls hd₁ hd₂ hapart
  · exact absurd hprovided hno
  · exact ⟨m', answer, ⟨hd₁.live, hd₂.live, hapart, hcomes⟩, hanswers⟩

/-- So many logs can be put together. -/
theorem adds_run (tees : Nat → Cell Tee) (links : Nat → Cell Nat) {k n : Nat}
    (hlogs : ∀ a < k, (logs.version a).isSome) (ht : logs.version t = none) (hn : n + 2 ≤ k) :
      ∃ trace m handle,
      Run (Step logs) (.empty tees links) trace m ∧
      Denotes logs m handle (Finset.range (n + 2)) ∧ ∀ a, m.links.used a = true →
        a < 2 * n + 4 := by
  have happart : ∀ t' ∈ some t, logs.version t' = none := fun t' ht' => by
    cases ht'
    exact ht
  induction n with
  | zero =>
    obtain ⟨m, handle, hstep, hanswers⟩ := Inv.empty.progress
      (.add (some 0) (some 1) (some t) [0, 1]) (.log (hlogs 0 (by omega)))
      (.log (hlogs 1 (by omega))) happart
      ⟨fun _ _ _ => ⟨t, rfl, rfl⟩, by simp, by simp, fun _ _ => rfl⟩
    refine ⟨_, m, handle, .step .start hstep, hanswers.denotes, fun a ha => ?_⟩
    rcases hanswers.links a ha with hno | hmem
    · cases hno
    · have hmem : a ∈ [0, 1] := hmem
      simp at hmem
      omega
  | succ n ih =>
    obtain ⟨trace, m, handle, run, hd, hused⟩ := ih (by omega)
    have hunused : ∀ a ∈ [2 * n + 4, 2 * n + 5], m.links.used a = false := by
      intro a ha
      refine Bool.eq_false_iff.mpr fun hno => ?_
      have hlt := hused a hno
      simp at ha
      omega
    have htee : ∀ a ∈ handle, m.tees.used a = false → HasTee m (some t) := by
      rintro a rfl hfalse
      obtain ⟨lists, hr, -⟩ := Inv.run run
      have hcard := congrArg Finset.card (hr.log_of_denotes hd hfalse).2
      rw [Finset.card_range, Finset.card_singleton] at hcard
      omega
    obtain ⟨m', answer, hstep, hanswers⟩ := (Inv.run run).progress
      (.add handle (some (n + 2)) (some t) [2 * n + 4, 2 * n + 5]) hd
      (.log (hlogs (n + 2) (by omega))) happart
      ⟨htee, by simp, by simp, hunused⟩
    have hset : Finset.range (n + 2) ∪ {n + 2} = Finset.range (n + 3) := by
      rw [Finset.range_add_one (n := n + 2), Finset.insert_eq, Finset.union_comm]
    refine ⟨_, m', answer, run.step hstep, hset ▸ hanswers.denotes, fun a ha => ?_⟩
    rcases hanswers.links a ha with hold | hmem
    · exact Nat.lt_of_lt_of_le (hused a hold) (by omega)
    · have hmem : a ∈ [2 * n + 4, 2 * n + 5] := hmem
      simp at hmem
      omega

/-- **Tees are sets**, whatever has been called. -/
theorem tees_sound {tees : Nat → Cell Tee} {links : Nat → Cell Nat}
    {trace : List (Call × Option Nat)}
    (run : Run (Step logs) (.empty tees links) trace m) : Sound logs m :=
  (Inv.run run).sound

end

/-- There are logs at all addresses up to this one. -/
def logsBelow (k : Nat) : Logs where
  version a := if a < k then some 0 else none
  plain a v h := by
    obtain ⟨-, hv⟩ := ite_none_right_eq_some.mp h
    cases hv
    rfl

theorem logsBelow_isSome {k : Nat} : ∀ a < k, ((logsBelow k).version a).isSome := fun a ha => by
  simp [logsBelow, ha]

section
variable {logs : Logs} {m m' : Memory}

instance (logs : Logs) (m : Memory) : ∀ handle, Decidable (Live logs m handle)
  | none => inferInstanceAs (Decidable True)
  | some _ => inferInstanceAs (Decidable (_ ∨ _))

instance (logs : Logs) : ∀ call : Call, Decidable (call.Apart logs)
  | .add _ _ none _ => .isTrue nofun
  | .add _ _ (some t) _ => decidable_of_iff (logs.version t = none)
      ⟨fun h _ ht' => Option.some.inj ht' ▸ h, fun h => h t rfl⟩
  | .remove .. => inferInstanceAs (Decidable True)

/-- Several calls, one after the other, with their answers. -/
def runCalls (logs : Logs) (n : Nat) (m : Memory) : List Call → Option (Memory × List (Option Nat))
  | [] => some (m, [])
  | call :: calls =>
    if Live logs m call.first ∧ Live logs m call.second ∧ call.Apart logs then
      match call.run logs m n with
      | .ok (m, answer) =>
        (runCalls logs n m calls).map fun (m, answers) => (m, answer :: answers)
      | .error _ => none
    else none

/-- More rounds are not needed for a call that has come to its end. -/
theorem Call.comes {call : Call} {n : Nat} {answer : Option Nat}
    (h : call.run logs m n = .ok (m', answer)) :
    Comes (fun n => call.run logs m n) (.ok (m', answer)) := by
  have hne : call.run logs m n ≠ .error .rounds := by
    rw [h]
    nofun
  have hcomes : Comes (fun n => call.run logs m n) (call.run logs m n) := by
    refine .of_below (f := fun n => call.run logs m n)
      (fun n n' hn => (?_ : Below Fault.rounds _ _)) hne
    cases call with
    | add => exact teeAdd_below hn
    | remove => exact teeRemove_below hn
  rwa [h] at hcomes

/-- Calls that are executed are a run. -/
theorem runCalls_run {n : Nat} {m₀ : Memory} {calls : List Call} {trace : List (Call × Option Nat)}
    {answers : List (Option Nat)} (run : Run (Step logs) m₀ trace m)
    (h : runCalls logs n m calls = some (m', answers)) :
    ∃ trace', Run (Step logs) m₀ trace' m' := by
  induction calls generalizing m trace answers with
  | nil =>
    cases h
    exact ⟨trace, run⟩
  | cons call calls ih =>
    unfold runCalls at h
    split at h
    next hok =>
      split at h
      next m₁ answer hcall =>
        obtain ⟨⟨m₂, answers'⟩, hrest, heq⟩ := map_eq_some_iff.mp h
        cases heq
        exact ih (run.step (e := (call, answer)) ⟨hok.1, hok.2.1, hok.2.2, Call.comes hcall⟩) hrest
      · cases h
    · cases h

end

/-- A tee of two logs gets a third one; a log is put together with the tee, which makes another tee;
the tee is added to itself, and taken out of the other one, which shares its logs; and two of its
logs are taken out. -/
def teeCalls : List Call :=
  [.add (some 0) (some 1) (some 10) [20, 21], .add (some 10) (some 2) none [22],
    .add (some 3) (some 10) (some 11) [23, 24, 25, 26], .add (some 10) (some 10) none [],
    .remove (some 11) (some 10), .remove (some 10) (some 1), .remove (some 10) (some 0)]

/-- What is left of the other tee is its own log, and of the tee the third one; both tees have been
given back, with all links. -/
theorem tees_sound_pair : ∃ m,
    runCalls (logsBelow 4) 10 (.empty (fun _ => ⟨⟨0, none, 0⟩, none⟩) fun _ => ⟨0, none⟩) teeCalls =
      some (m, [some 10, some 10, some 11, some 10, some 3, some 10, some 2]) ∧
    m.tees.used 10 = false ∧ m.tees.used 11 = false ∧ Sound (logsBelow 4) m := by
  have hcalls :
      (runCalls (logsBelow 4) 10 (.empty (fun _ => ⟨⟨0, none, 0⟩, none⟩) fun _ => ⟨0, none⟩)
      teeCalls).map (fun r => (r.2, r.1.tees.used 10, r.1.tees.used 11)) =
        some ([some 10, some 10, some 11, some 10, some 3, some 10, some 2], false, false) := by
    decide +kernel
  obtain ⟨⟨m, answers⟩, hrun, heq⟩ := map_eq_some_iff.mp hcalls
  simp only [Prod.mk.injEq] at heq
  obtain ⟨rfl, hfirst, hsecond⟩ := heq
  obtain ⟨trace, run⟩ := runCalls_run .start hrun
  exact ⟨m, hrun, hfirst, hsecond, tees_sound run⟩

/-- **The number of links wraps around.** -/
theorem linkSize_wraps : ∃ trace m t l,
    Run (Step (logsBelow 4294967296)) (.empty (fun _ => ⟨⟨0, none, 0⟩, none⟩) fun _ =>
      ⟨0, none⟩) trace m ∧
      Holds (logsBelow 4294967296) m t l ∧ l.length = 4294967296 ∧
        (m.tees.cells t).data.linkSize = 0 := by
  obtain ⟨trace, m, handle, run, hd, -⟩ :=
    adds_run (fun _ => ⟨⟨0, none, 0⟩, none⟩) (fun _ => ⟨0, none⟩)
    (k := 4294967296) (t := 4294967296) (n := 4294967294) logsBelow_isSome rfl (Nat.le_refl _)
  have hinv := Inv.run run
  cases handle with
  | none =>
    have hcard := congrArg Finset.card (hinv.denotes_unique hd .null)
    rw [Finset.card_range, Finset.card_empty] at hcard
    cases hcard
  | some t =>
    obtain ⟨lists, hr, -⟩ := hinv
    rcases hr.cases_of_denotes hd with ⟨-, -, hs⟩ | ⟨hused, -, hs⟩
    · have hcard := congrArg Finset.card hs
      rw [Finset.card_range, Finset.card_singleton] at hcard
      cases hcard
    · have hcard := congrArg Finset.card hs
      rw [Finset.card_range, card_logsOf (hr.sorted t)] at hcard
      refine ⟨trace, m, t, lists t, run, hr.holds hused, hcard.symm, ?_⟩
      rw [hr.data t hused, ← hcard]
      rfl

end ULog
