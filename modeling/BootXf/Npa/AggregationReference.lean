import BootXf.Lib.Word
import BootXf.Npa.AggregationHistory

/-!
# What the standard plugins stand for

`Aggregator.reference` states what a plugin aggregates, over the requests as a list and without the
code's bookkeeping; the lemmas after it read the references of the incremental plugins as folds.
`Aggregator.Sound` lists the calls under which the code agrees with the reference. Three plugins
agree always. The or function and the binary-and function run into a fatal check for the clients
that have no aggregate, the binary function keeps the maximum of the time when a count last changed,
and the binary-and function reduces neither a lone request nor what a change of type leaves behind.
-/

namespace Npa

open Lib List

/-- The standard scalar plugins that aggregate requests. -/
inductive Aggregator
  | minimum | maximum | sum | bitOr | binary | binaryAnd
  deriving DecidableEq

/-- The plugin as the source defines it. -/
def Aggregator.plugin : Aggregator → Plugin
  | minimum => npaMinPlugin
  | maximum => npaMaxPlugin
  | sum => npaSumPlugin
  | bitOr => npaOrPlugin
  | binary => npaBinaryPlugin
  | binaryAnd => npaBinaryAndPlugin

/-! ## What the plugins stand for -/

/-- The aggregate that a plugin stands for. The least and the greatest request and the union ignore
requests for zero. The binary plugin asks for the maximum when there is any request other than zero,
and the binary-and plugin for one unless some request is zero. -/
def Aggregator.reference (activeMax : UInt32) (requests : List UInt32) : Aggregator → UInt32
  | minimum => (requests.filter (· != 0)).min?.getD 0
  | maximum => requests.foldr Max.max 0
  | sum => requests.sum
  | bitOr => requests.foldr (· ||| ·) 0
  | binary => if requests.any (· != 0) then activeMax else 0
  | binaryAnd => if requests.all (· != 0) then 1 else 0

/-- The requests that a plugin aggregates behind an index: the active requests of the live clients.
For the binary-and plugin a request for zero counts, so that there clients without a request, which
have none processed yet, have to be told apart. -/
def Aggregator.requests (r : Resource) (ix : Index) : Aggregator → List UInt32
  | binaryAnd => requestsOf (r.clients.filter (·.sequence != 0)) ix
  | _ => requestsOf r.clients ix

/-- How a plugin combines the required and the suppressible aggregate. -/
def Aggregator.combine (required suppressible : UInt32) : Aggregator → UInt32
  | minimum => ([required, suppressible].filter (· != 0)).min?.getD 0
  | maximum | binary => Max.max required suppressible
  | sum => required + suppressible
  | bitOr => required ||| suppressible
  | binaryAnd => required &&& suppressible

/-- **The aggregates of a resource are those its plugin stands for.** Those of the binary-and plugin
start with the first request to the resource. -/
def Aggregated (p : Aggregator) (r : Resource) : Prop :=
  (∀ ix, r.internalState ix.slot =
    if p = .binaryAnd ∧ r.sequence = 0 then 0 else p.reference r.activeMax (p.requests r ix)) ∧
  r.requestState = p.combine (r.internalState Index.required.slot)
    (r.internalState Index.suppressible.slot)

/-! ## The references as folds -/

/-- The better of two requests for a minimum is the smaller. -/
theorem pick_minBetter_eq {x y : UInt32} (hx : x ≠ 0) (hy : y ≠ 0) :
    pick minBetter x y = min x y := by
  simp [pick, minBetter, hx, hy, uint32_min_eq]

/-- The better of two requests for a maximum is the larger. -/
theorem pick_maxBetter_eq (x y : UInt32) : pick maxBetter x y = max x y := by
  simp [pick, maxBetter, uint32_max_eq]

/-- The reference of the minimum plugin is a fold. -/
theorem reference_minimum (activeMax : UInt32) (l : List UInt32) :
    Aggregator.minimum.reference activeMax l = aggregate (pick minBetter) 0 l := by
  show (l.filter (· != 0)).min?.getD 0 = _
  induction l with
  | nil => rfl
  | cons x l ih =>
    rw [aggregate_cons, ← ih]
    by_cases hx : x = 0
    · simp [hx, Std.LawfulLeftIdentity.left_id]
    · rw [filter_cons_of_pos (by simpa using hx), min?_cons]
      cases hmin : (l.filter (· != 0)).min? with
      | none => simp [Std.LawfulRightIdentity.right_id]
      | some m =>
        have hm : m ≠ 0 := by simpa using (mem_filter.mp (min?_mem hmin)).2
        simp [pick_minBetter_eq hx hm]

/-- The reference of the maximum plugin is a fold. -/
theorem reference_maximum (activeMax : UInt32) (l : List UInt32) :
    Aggregator.maximum.reference activeMax l = aggregate (pick maxBetter) 0 l := by
  have hpick : pick maxBetter = Max.max := by
    funext x y
    exact pick_maxBetter_eq x y
  rw [hpick]
  rfl

/-- A count of requests other than zero, as long as it fits, is zero when there are none. -/
theorem count_eq_zero_iff {l : List UInt32} (hl : l.length < 2 ^ 32) :
    aggregate (· + ·) 0 (l.map nonzero) = 0 ↔ l.any (· != 0) = false := by
  have hcount : (aggregate (· + ·) 0 (l.map nonzero)).toNat = l.countP (· != 0) := by
    induction l with
    | nil => rfl
    | cons x l ih =>
      have hle := countP_le_length (p := (· != 0)) (l := l)
      rw [length_cons] at hl
      rw [map_cons, aggregate_cons, UInt32.toNat_add, ih (by omega), countP_cons]
      by_cases hx : x = 0
      · simp [nonzero, hx]
        omega
      · simp [nonzero, hx]
        omega
  rw [← UInt32.toNat_inj, hcount, UInt32.toNat_zero, countP_eq_zero]
  simp

/-- The reference of the binary plugin adds up. -/
theorem reference_binary {activeMax : UInt32} {l : List UInt32} (hl : l.length < 2 ^ 32) :
    Aggregator.binary.reference activeMax l =
      binaryState activeMax (aggregate (· + ·) 0 (l.map nonzero)) := by
  show (if l.any (· != 0) then activeMax else 0) = _
  unfold binaryState
  cases hany : l.any (· != 0) with
  | false => simp [(count_eq_zero_iff hl).mpr hany]
  | true =>
    have hne : aggregate (· + ·) 0 (l.map nonzero) ≠ 0 := by
      intro hzero
      rw [(count_eq_zero_iff hl).mp hzero] at hany
      cases hany
    simp [hne]

/-! ## When the code agrees with them -/

/-- A call whose request, if it is processed, is one of a required or a suppressible client. -/
def IndexedVote (r : Resource) (op : Op) : Prop :=
  ∀ c ∈ r.client? op.handle, op.issues = true → (op.prepared c).reaches (op.isNew c) = true →
    (op.prepared c).type.index? ≠ none

/-- A call that changes the maximum of the resource only while no request is other than zero. -/
def MaxKept (r : Resource) (op : Op) : Prop :=
  ∀ c ∈ r.client? op.handle, op.newMax r c = r.activeMax ∨
    ∀ ix, ∀ request ∈ requestsOf r.clients ix, request = 0

/-- A client that has had a request processed. -/
def Client.Requested (c : Client) : Prop := c.sequence ≠ 0

/-- The clients behind an index other than the one of a call. -/
def othersAt (r : Resource) (c : Client) (ix : Index) : List Client :=
  r.clients.filter fun x => x.handle != c.handle && x.type == ix.clientType

/-- A request that the binary-and function reduces to zero or one: it is zero, or another client
that has requested is at zero, or all others are not and the request is one, or any odd number when
there are others. -/
def AndReduces (request : UInt32) (others : List Client) : Prop :=
  request = 0 ∨ (∃ x ∈ others, x.Requested ∧ x.active = 0) ∨
    (∀ x ∈ others, x.active ≠ 0) ∧ (request = 1 ∨ others ≠ [] ∧ request &&& 1 = 1)

/-- A call under which the binary-and function agrees with its reference: its request reduces, the
clients of a type that is left and those that a destroyed client leaves behind have one at zero, and
the sequence number does not come round to zero. -/
structure AndVote (r : Resource) (op : Op) (c : Client) : Prop where
  reduces : ∀ ix, (op.prepared c).type = ix.clientType →
    (op.prepared c).reaches (op.isNew c) = true →
    AndReduces (op.prepared c).pending (othersAt r c ix)
  left : ∀ ix, op.newType?.isSome → c.type = ix.clientType →
    ∃ x ∈ othersAt r c ix, x.Requested ∧ x.active = 0
  destroyed : ∀ h ix, op = .destroyClient h → c.type = ix.clientType → c.Requested →
    ∃ x ∈ othersAt r c ix, x.Requested ∧ x.active = 0
  sequence : r.sequence + sequenceIncrement ≠ 0

/-- The calls under which a plugin's update function agrees with its reference. -/
def Aggregator.Sound (r : Resource) (op : Op) : Aggregator → Prop
  | minimum | maximum | sum => True
  | bitOr => IndexedVote r op
  | binary => MaxKept r op ∧ r.clients.length + 1 < 2 ^ 32
  | binaryAnd => IndexedVote r op ∧ ∀ c ∈ r.client? op.handle, op.issues = true → AndVote r op c

/-- The steps of a resource under such calls. -/
def SoundStep (p : Aggregator) (driver : Driver) (r : Resource) (op : Op) (s : Resource) : Prop :=
  ClientStep p.plugin driver r op s ∧ p.Sound r op

end Npa
