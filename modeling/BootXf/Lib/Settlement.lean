import Mathlib.Algebra.GroupWithZero.Nat

/-!
# Requests that are reported at once or at a settlement

A log of requests, newest event first: a request is issued, it returns, and it is reported, at once
unless it has been deferred, in which case the next settlement reports it, in the order in which
such requests have returned. Requests nest. `Account.replay` accepts the logs that keep to this;
`count_issued` is what it comes to: whatever has been issued is reported once, or is still to be.
-/

namespace Lib

open List Option

section
variable {C : Type _} [DecidableEq C]

/-- What happens to the requests of some clients. -/
inductive Settlement (C : Type _)
  | issued (client : C)
  | returned (client : C) (deferred : Bool)
  | settled
  | reported (client : C)
  deriving DecidableEq

/-- The requests that have not returned, innermost first; those that are to be reported next; and
those that wait for the settlement. -/
structure Account (C : Type _) where
  unreturned : List C
  due : List C
  owed : List C
  deriving DecidableEq

namespace Account

/-- One event. Nothing happens while a report is due but the report. -/
def post (a : Account C) : Settlement C → Option (Account C)
  | .issued c => if a.due = [] then some { a with unreturned := c :: a.unreturned } else none
  | .returned c deferred =>
    match a.unreturned with
    | [] => none
    | top :: rest =>
      if a.due = [] ∧ top = c then
        some (if deferred then ⟨rest, [], a.owed ++ [c]⟩ else ⟨rest, [c], a.owed⟩)
      else none
  | .settled => if a.due = [] then some ⟨a.unreturned, a.owed, []⟩ else none
  | .reported c =>
    match a.due with
    | [] => none
    | next :: rest => if next = c then some { a with due := rest } else none

/-- The account of a log. -/
def replay : List (Settlement C) → Option (Account C)
  | [] => some ⟨[], [], []⟩
  | e :: log => (replay log).bind fun a => a.post e

variable {log : List (Settlement C)} {c : C} {unreturned due owed : List C}

/-- A request that is issued is not returned yet. -/
theorem replay_issued (h : replay log = some ⟨unreturned, [], owed⟩) :
    replay (.issued c :: log) = some ⟨c :: unreturned, [], owed⟩ := by
  simp [replay, h, post]

/-- A request that returns is reported. -/
theorem replay_returned (h : replay log = some ⟨c :: unreturned, [], owed⟩) :
    replay (.reported c :: .returned c false :: log) = some ⟨unreturned, [], owed⟩ := by
  simp [replay, h, post]

/-- A request that is deferred is owed a report. -/
theorem replay_deferred (h : replay log = some ⟨c :: unreturned, [], owed⟩) :
    replay (.returned c true :: log) = some ⟨unreturned, [], owed ++ [c]⟩ := by
  simp [replay, h, post]

/-- The reports of a settlement. -/
theorem replay_reports (h : replay log = some ⟨unreturned, due, owed⟩) :
    replay ((due.map Settlement.reported).reverse ++ log) = some ⟨unreturned, [], owed⟩ := by
  induction due generalizing log with
  | nil => exact h
  | cons next due ih =>
    rw [map_cons, reverse_cons, append_assoc]
    refine ih ?_
    simp [replay, h, post]

/-- Settling reports what is owed. -/
theorem replay_settled (h : replay log = some ⟨unreturned, [], owed⟩) :
    replay ((owed.map Settlement.reported).reverse ++ .settled :: log) =
      some ⟨unreturned, [], []⟩ :=
  replay_reports (by simp [replay, h, post])

/-- **Every request is reported once.** The requests of a client that have been issued are those
that have been reported and those that are still to be. -/
theorem count_issued {a : Account C} (h : replay log = some a) (c : C) :
    log.count (.issued c) = log.count (.reported c) +
      (a.unreturned.count c + a.due.count c + a.owed.count c) := by
  induction log generalizing a with
  | nil =>
    cases h
    rfl
  | cons e log ih =>
    obtain ⟨b, hb, hpost⟩ := bind_eq_some_iff.mp h
    have hlog := ih hb
    cases e with
    | issued d =>
      obtain ⟨-, heq⟩ := ite_none_right_eq_some.mp hpost
      cases heq
      by_cases hd : d = c <;> simp [hd] <;> omega
    | settled =>
      obtain ⟨hdue, heq⟩ := ite_none_right_eq_some.mp hpost
      cases heq
      rw [hdue] at hlog
      simp at hlog ⊢
      omega
    | returned d deferred =>
      unfold post at hpost
      cases hopen : b.unreturned with
      | nil => simp [hopen] at hpost
      | cons top rest =>
        simp only [hopen] at hpost hlog
        obtain ⟨⟨hdue, rfl⟩, heq⟩ := ite_none_right_eq_some.mp hpost
        rw [hdue] at hlog
        cases deferred with
        | false =>
          cases heq
          simp [count_cons] at hlog ⊢
          omega
        | true =>
          cases heq
          simp [count_cons, count_append] at hlog ⊢
          omega
    | reported d =>
      unfold post at hpost
      cases hdue : b.due with
      | nil => simp [hdue] at hpost
      | cons next rest =>
        simp only [hdue] at hpost hlog
        obtain ⟨rfl, heq⟩ := ite_none_right_eq_some.mp hpost
        cases heq
        simp [count_cons] at hlog ⊢
        omega

end Account

end

end Lib
