import BootXf.Lib.Pool
import BootXf.Lib.Run
import BootXf.Lib.SortedKeys

/-!
# Tees

A handle is a log, or a tee: a list of links to logs in the order of their addresses.
`ULogCore_TeeAdd` puts the logs of its second handle into its first one, and `ULogCore_TeeRemove`
takes them out of it. The links and the tees are from pools, and `Represents` says that the tees
that are handed out hold lists of links. The locks of the tees are left out: there is one caller,
who may take a lock twice.
-/

namespace ULog

open Lib LinkedList List

/-! ## Memory -/

/-- Why a call does not come to its end: the pool has nothing to hand out, what was given back is
used, or a loop takes more rounds than it may. -/
inductive Fault
  | pool | freed | rounds
  deriving DecidableEq

/-- The `version` of a tee, `ULOG_TYPE_TEE_HEADER_VERSION`. -/
def teeHeaderVersion : UInt32 := 0x80000001

/-- The bit of `version` that tells tees from logs. -/
def teeBit : UInt32 := 0x80000000

/-- `ULOG_TEE_TYPE`, without its link to another tee. -/
structure Tee where
  version : UInt32
  link : Option Nat
  linkSize : UInt32

/-- The logs: each has a version at its address, which is not that of a tee. -/
structure Logs where
  version : Nat → Option UInt32
  plain : ∀ a v, version a = some v → v &&& teeBit = 0

/-- The tees, the links to logs, and the links that the pool hands out next. -/
structure Memory where
  tees : Pool Tee
  links : Pool Nat
  supply : List Nat

/-- What is handed out may be used. -/
def held {α : Type} : Option α → Except Fault α
  | some a => .ok a
  | none => .error .freed

/-- `Core_PoolAlloc` of the links, with `CORE_VERIFY_PTR`. -/
def takeLink (m : Memory) : Except Fault (Memory × Nat) :=
  match m.supply with
  | [] => .error .pool
  | newlink :: supply =>
    match m.links.alloc newlink (m.links.cells newlink) with
    | none => .error .pool
    | some links => .ok ({ m with links, supply }, newlink)

/-- `Core_PoolAlloc` of the tees, with `CORE_VERIFY_PTR`. The tee is cleared, and its version is
set. -/
def takeTee (m : Memory) (newTee : Option Nat) : Except Fault (Memory × Nat) :=
  match newTee with
  | none => .error .pool
  | some tee =>
    match m.tees.alloc tee ⟨⟨teeHeaderVersion, none, 0⟩, none⟩ with
    | none => .error .pool
    | some tees => .ok ({ m with tees }, tee)

/-- `HANDLE_IS_A_TEE`. -/
def handleIsATee (logs : Logs) (m : Memory) (handle : Nat) : Except Fault Bool :=
  match m.tees.read handle with
  | some tee => .ok (tee.data.version &&& teeBit ≠ 0)
  | none => (held (logs.version handle)).map fun version => version &&& teeBit ≠ 0

/-- A tee is written. -/
def putTee (m : Memory) (tee : Nat) (cell : Cell Tee) (link : Option Nat) (linkSize : UInt32) :
    Except Fault Memory := do
  let tees ← held (m.tees.write tee { cell with data := { cell.data with link, linkSize } })
  return { m with tees }

/-! ## Searching -/

/-- The loop of `ULogCore_TeeHandleSearch`. -/
def searchLinks (links : Pool Nat) (log : Nat) : Nat → Option Nat → Except Fault Bool
  | 0, _ => .error .rounds
  | _ + 1, none => .ok false
  | n + 1, some link => do
    let cell ← held (links.read link)
    if cell.data = log then return true else searchLinks links log n cell.next

/-- `ULogCore_TeeHandleSearch`. -/
def teeHandleSearch (n : Nat) (m : Memory) (tee log : Nat) : Except Fault Bool := do
  let cell ← held (m.tees.read tee)
  searchLinks m.links log n cell.data.link

/-! ## Adding -/

/-- The new link is put between two others. -/
def linkBetween (links : Pool Nat) (newlink newlog previouslink : Nat) (next : Option Nat) :
    Except Fault (Pool Nat) := do
  let links ← held (links.write newlink ⟨newlog, next⟩)
  let previous ← held (links.read previouslink)
  held (links.write previouslink { previous with next := some newlink })

/-- The loop of `ULogCore_TeeLinkAdd`. -/
def insertLink (newlink newlog : Nat) : Nat → Pool Nat → Nat → Option Nat → Except Fault (Pool Nat)
  | 0, _, _, _ => .error .rounds
  | _ + 1, links, previouslink, none => linkBetween links newlink newlog previouslink none
  | n + 1, links, previouslink, some templink => do
    let cell ← held (links.read templink)
    if newlog < cell.data then linkBetween links newlink newlog previouslink (some templink)
    else insertLink newlink newlog n links templink cell.next

/-- The simple cases: there are no logs yet, or the new one comes before the first. -/
def comesFirst (links : Pool Nat) (newlog : Nat) : Option Nat → Except Fault Bool
  | none => .ok true
  | some link => (held (links.read link)).map fun first => decide (newlog < first.data)

/-- `ULogCore_TeeLinkAdd`. -/
def teeLinkAdd (n : Nat) (m : Memory) (tee newlog : Nat) : Except Fault Memory := do
  let (m, newlink) ← takeLink m
  let cell ← held (m.tees.read tee)
  let before ← comesFirst m.links newlog cell.data.link
  if before then
    let links ← held (m.links.write newlink ⟨newlog, cell.data.link⟩)
    putTee { m with links } tee cell (some newlink) (cell.data.linkSize + 1)
  else
    let link ← held cell.data.link
    let first ← held (m.links.read link)
    let links ← insertLink newlink newlog n m.links link first.next
    putTee { m with links } tee cell cell.data.link (cell.data.linkSize + 1)

/-- A log is added to a tee, if it is not there. -/
def addLog (n : Nat) (m : Memory) (tee log : Nat) : Except Fault Memory := do
  let found ← teeHandleSearch n m tee log
  if found then return m else teeLinkAdd n m tee log

/-- The logs of a tee are added to another one. -/
def addLinks (n : Nat) (tee : Nat) : Nat → Memory → Option Nat → Except Fault Memory
  | 0, _, _ => .error .rounds
  | _ + 1, m, none => .ok m
  | k + 1, m, some link => do
    let cell ← held (m.links.read link)
    let m ← addLog n m tee cell.data
    let cell ← held (m.links.read link)
    addLinks n tee k m cell.next

/-- The tee that is added to, which is a new one if the first handle is a log. -/
def firstTee (n : Nat) (m : Memory) (newTee : Option Nat) (versionFlag1 : Bool) (h1 : Nat) :
    Except Fault (Memory × Nat) :=
  if versionFlag1 then .ok (m, h1)
  else do
    let (m, tee) ← takeTee m newTee
    let m ← teeLinkAdd n m tee h1
    return (m, tee)

/-- The second handle is added to a tee. -/
def addSecond (n : Nat) (m : Memory) (tee1 : Nat) (versionFlag2 : Bool) (h2 : Nat) :
    Except Fault Memory :=
  if versionFlag2 then do
    let tee2 ← held (m.tees.read h2)
    addLinks n tee1 n m tee2.data.link
  else addLog n m tee1 h2

/-- `ULogCore_TeeAdd`, where the pool hands out the tee. -/
def teeAdd (logs : Logs) (n : Nat) (m : Memory) (newTee : Option Nat) :
    Option Nat → Option Nat → Except Fault (Memory × Option Nat)
  | none, h2 => .ok (m, h2)
  | some h1, none => .ok (m, some h1)
  | some h1, some h2 => do
    let versionFlag1 ← handleIsATee logs m h1
    let versionFlag2 ← handleIsATee logs m h2
    if !versionFlag1 && !versionFlag2 && h1 = h2 then return (m, some h1)
    else
      let (m, tee1) ← firstTee n m newTee versionFlag1 h1
      let m ← addSecond n m tee1 versionFlag2 h2
      return (m, some tee1)

/-! ## Removing -/

/-- The loop of `ULogCore_TeeLinkRemove`. -/
def removeLink (m : Memory) (tee : Nat) (cell : Cell Tee) (log : Nat) : Nat → Nat → Option Nat →
    Except Fault Memory
  | 0, _, _ => .error .rounds
  | _ + 1, _, none => .ok m
  | n + 1, link2, some link1 => do
    let cell1 ← held (m.links.read link1)
    let cell2 ← held (m.links.read link2)
    if cell1.data = log then
      let links ← held (m.links.write link2 { cell2 with next := cell1.next })
      let links ← held (links.free link1)
      putTee { m with links } tee cell cell.data.link (cell.data.linkSize - 1)
    else
      let link2 ← held cell2.next
      removeLink m tee cell log n link2 cell1.next

/-- `ULogCore_TeeLinkRemove`. -/
def teeLinkRemove (n : Nat) (m : Memory) (tee log : Nat) : Except Fault Memory := do
  let cell ← held (m.tees.read tee)
  match cell.data.link with
  | none => return m
  | some link =>
    let first ← held (m.links.read link)
    if first.data = log then
      let links ← held (m.links.free link)
      putTee { m with links } tee cell first.next (cell.data.linkSize - 1)
    else removeLink m tee cell log n link first.next

/-- The logs of a tee are removed from another one. -/
def removeLinks (n : Nat) (tee : Nat) : Nat → Memory → Option Nat → Except Fault Memory
  | 0, _, _ => .error .rounds
  | _ + 1, m, none => .ok m
  | k + 1, m, some link => do
    let tee1 ← held (m.tees.read tee)
    if tee1.data.link = none then return m
    else
      let cell ← held (m.links.read link)
      -- a tee may be removed from itself, so the link is read before it is removed
      let m ← teeLinkRemove n m tee cell.data
      removeLinks n tee k m cell.next

/-- What is left of a tee: none, the only log that is left, or the tee. -/
def collapse (m : Memory) (tee : Nat) : Except Fault (Memory × Option Nat) := do
  let cell ← held (m.tees.read tee)
  match cell.data.link with
  | none =>
    let tees ← held (m.tees.free tee)
    return ({ m with tees }, none)
  | some link =>
    let first ← held (m.links.read link)
    if first.next = none then
      let links ← held (m.links.free link)
      let tees ← held (m.tees.free tee)
      return ({ m with links, tees }, some first.data)
    else return (m, some tee)

/-- A log is one that the second handle stands for. -/
def inSecond (n : Nat) (m : Memory) (h1 : Nat) (versionFlag2 : Bool) (h2 : Nat) :
    Except Fault Bool :=
  if versionFlag2 then teeHandleSearch n m h2 h1 else .ok (decide (h1 = h2))

/-- The second handle is removed from a tee. -/
def removeSecond (n : Nat) (m : Memory) (tee1 : Nat) (versionFlag2 : Bool) (h2 : Nat) :
    Except Fault Memory :=
  if versionFlag2 then do
    let tee2 ← held (m.tees.read h2)
    removeLinks n tee1 n m tee2.data.link
  else teeLinkRemove n m tee1 h2

/-- `ULogCore_TeeRemove`. -/
def teeRemove (logs : Logs) (n : Nat) (m : Memory) : Option Nat → Option Nat →
    Except Fault (Memory × Option Nat)
  | none, _ => .ok (m, none)
  | some h1, none => .ok (m, some h1)
  | some h1, some h2 => do
    let versionFlag1 ← handleIsATee logs m h1
    let versionFlag2 ← handleIsATee logs m h2
    if versionFlag1 then
      let m ← removeSecond n m h1 versionFlag2 h2
      collapse m h1
    else
      let found ← inSecond n m h1 versionFlag2 h2
      return (m, if found then none else some h1)

/-! ## Lists of links -/

section
variable {logs : Logs} {m m' : Memory} {p q : Pool Nat} {lists : Nat → List (Nat × Nat)}
  {xs ys l l' : List (Nat × Nat)} {c : Nat × Nat} {a t log n : Nat} {rest : List (Nat × Nat)}
  {m₁ m₂ : Memory} {t₂ k : Nat} {d : Nat × Nat}

/-- **The search** finds a log that is there. -/
theorem searchLinks_spec (h : p.Linked none l) (hn : l.length < n) :
    searchLinks p log n (start none l) = .ok (decide (log ∈ l.map (·.2))) := by
  induction l generalizing n with
  | nil =>
    cases n with
    | zero => cases hn
    | succ n => rfl
  | cons c l ih =>
    cases n with
    | zero => cases hn
    | succ n =>
      rw [start, searchLinks, h.read]
      show (if c.2 = log then .ok true else searchLinks p log n (start none l)) = _
      rw [ih (Pool.linked_cons.mp h).2.2 (Nat.lt_of_succ_lt_succ hn), map_cons]
      by_cases heq : c.2 = log
      · rw [if_pos heq, decide_eq_true (mem_cons.mpr (.inl heq.symm))]
      · rw [if_neg heq]
        exact congrArg Except.ok (decide_eq_decide.mpr ⟨mem_cons_of_mem _, fun hmem =>
          (mem_cons.mp hmem).resolve_left fun hno => heq hno.symm⟩)

/-- A new link between two others. -/
theorem linkBetween_spec (log : Nat) (h : p.Linked none (xs ++ c :: ys)) (ha : p.used a = true)
    (hnot : a ∉ (xs ++ c :: ys).map (·.1)) : ∃ q, linkBetween p a log c.1 (start none ys) = .ok q ∧
      q.used = p.used ∧
      q.Linked none (xs ++ c :: (a, log) :: ys) ∧ ∀ b, b ≠ a → b ≠ c.1 → q.cells b = p.cells b := by
  obtain ⟨hcell, hused, -⟩ := Pool.linked_cons.mp (Pool.linked_append.mp h).2
  have hne : c.1 ≠ a := fun heq => hnot (mem_map.mpr ⟨c, mem_append_right _ mem_cons_self, heq⟩)
  let p₁ : Pool Nat := { p with cells := Function.update p.cells a ⟨log, start none ys⟩ }
  have hused₁ : p₁.used c.1 = true := hused
  have hcell₁ : p₁.cells c.1 = ⟨c.2, start none ys⟩ := (Function.update_of_ne hne ..).trans hcell
  refine ⟨{ p₁ with cells := Function.update p₁.cells c.1 ⟨c.2, some a⟩ }, ?_, rfl,
    h.insert (x := (a, log)) ha hnot, fun b hba hbc => ?_⟩
  · rw [linkBetween, Pool.write_used ha]
    show ((held (p₁.read c.1)).bind fun _ => _) = _
    rw [Pool.read_used hused₁, hcell₁]
    show held (p₁.write c.1 ⟨c.2, some a⟩) = _
    rw [Pool.write_used hused₁]
    rfl
  · exact (Function.update_of_ne hbc ..).trans (Function.update_of_ne hba ..)

/-- **The loop that looks for the place** of a new link. -/
theorem insertLink_spec (xs : List (Nat × Nat)) (log : Nat)
    (h : p.Linked none (xs ++ c :: rest)) (ha : p.used a = true)
    (hnot : a ∉ (xs ++ c :: rest).map (·.1)) (hn : rest.length < n) : ∃ q ys zs, rest = ys ++ zs ∧
      insertLink a log n p c.1 (start none rest) = .ok q ∧ q.used = p.used ∧
      q.Linked none (xs ++ c :: (ys ++ (a, log) :: zs)) ∧ (∀ d ∈ ys, d.2 ≤ log) ∧
        (∀ d ∈ zs.head?, log < d.2) ∧
      ∀ b, b ≠ a → b ∉ (xs ++ c :: rest).map (·.1) → q.cells b = p.cells b := by
  induction rest generalizing xs c n with
  | nil =>
    cases n with
    | zero => cases hn
    | succ n =>
      obtain ⟨q, hbetween, hused, hlinked, hcells⟩ := linkBetween_spec log h ha hnot
      refine ⟨q, [], [], rfl, hbetween, hused,
        hlinked, by simp, by simp, fun b hba hb => hcells b hba fun heq => ?_⟩
      exact hb (mem_map.mpr ⟨c, mem_append_right _ mem_cons_self, heq.symm⟩)
  | cons d rest ih =>
    cases n with
    | zero => cases hn
    | succ n =>
      rw [start, insertLink, (Pool.linked_cons.mp (Pool.linked_append.mp h).2).2.2.read]
      show ∃ q ys zs, d :: rest = ys ++ zs ∧ (if log < d.2 then linkBetween p a log c.1 (some d.1)
        else insertLink a log n p d.1 (start none rest)) = .ok q ∧ _
      by_cases hlt : log < d.2
      · rw [if_pos hlt]
        obtain ⟨q, hbetween, hused, hlinked, hcells⟩ := linkBetween_spec log h ha hnot
        refine ⟨q, [], d :: rest, rfl, hbetween, hused,
          hlinked, by simp, by simpa using hlt, fun b hba hb =>
          hcells b hba fun heq => ?_⟩
        exact hb (mem_map.mpr ⟨c, mem_append_right _ mem_cons_self, heq.symm⟩)
      · rw [if_neg hlt]
        have hsplit : xs ++ c :: d :: rest = (xs ++ [c]) ++ d :: rest := by rw [append_assoc]; rfl
        rw [hsplit] at h hnot ⊢
        obtain ⟨q, ys, zs, rfl, hinsert, hused, hlinked, hys, hzs, hcells⟩ :=
          ih _ h hnot (Nat.lt_of_succ_lt_succ hn)
        refine ⟨q, d :: ys, zs, rfl, hinsert, hused, ?_, ?_, hzs, hcells⟩
        · rw [append_assoc] at hlinked
          exact hlinked
        · exact forall_mem_cons.mpr ⟨Nat.le_of_not_lt hlt, hys⟩

/-- **The loop that looks for the link** of a log that is there. -/
theorem removeLink_spec (t : Nat) (cell : Cell Tee) (xs : List (Nat × Nat))
    (h : m.links.Linked none (xs ++ c :: rest))
    (hlog : log ∈ rest.map (·.2)) (hn : rest.length < n) :
      ∃ q ys d zs, rest = ys ++ d :: zs ∧ d.2 = log ∧
      removeLink m t cell log n c.1 (start none rest) =
        putTee { m with links := q } t cell cell.data.link (cell.data.linkSize - 1) ∧
      q.Linked none (xs ++ c :: (ys ++ zs)) ∧ q.used = Function.update m.links.used d.1 false ∧
      ∀ b, b ∉ (xs ++ c :: rest).map (·.1) → q.cells b = m.links.cells b := by
  induction rest generalizing xs c n with
  | nil => cases hlog
  | cons d rest ih =>
    cases n with
    | zero => cases hn
    | succ n =>
      have hhere := (Pool.linked_append.mp h).2
      obtain ⟨-, husedC, hrest⟩ := Pool.linked_cons.mp hhere
      obtain ⟨-, husedD, -⟩ := Pool.linked_cons.mp hrest
      have hreadC : m.links.read c.1 = some ⟨c.2, some d.1⟩ := hhere.read
      have hreadD := hrest.read
      rw [start, removeLink, hreadC, hreadD]
      by_cases heq : d.2 = log
      · let q₁ : Pool Nat :=
          { m.links with cells := Function.update m.links.cells c.1 ⟨c.2, start none rest⟩ }
        have husedD₁ : q₁.used d.1 = true := husedD
        refine ⟨{ q₁ with used := Function.update q₁.used d.1 false }, [], d, rest, rfl, heq,
          ?_, h.remove, rfl, fun b hb => Function.update_of_ne (fun hbc => hb ?_) ..⟩
        · show (if d.2 = log then
              (held (m.links.write c.1 ⟨c.2, start none rest⟩)).bind fun links => _
            else _) = _
          rw [if_pos heq, Pool.write_used husedC]
          show (held (q₁.free d.1)).bind _ = _
          rw [Pool.free_used husedD₁]
          rfl
        · exact mem_map.mpr ⟨c, mem_append_right _ mem_cons_self, hbc.symm⟩
      · have hlog' : log ∈ rest.map (·.2) := (mem_cons.mp hlog).resolve_left fun hno => heq hno.symm
        have hsplit : xs ++ c :: d :: rest = (xs ++ [c]) ++ d :: rest := by rw [append_assoc]; rfl
        rw [hsplit] at h ⊢
        obtain ⟨q, ys, e, zs, rfl, he, hremove, hlinked, hused, hcells⟩ :=
          ih _ h hlog' (Nat.lt_of_succ_lt_succ hn)
        refine ⟨q, d :: ys, e, zs, rfl, he, ?_, ?_, hused, hcells⟩
        · rw [← hremove]
          exact if_neg heq
        · rw [append_assoc] at hlinked
          exact hlinked

/-- A log that is not there is not found. -/
theorem removeLink_missing {cell : Cell Tee} (xs : List (Nat × Nat))
    (h : m.links.Linked none (xs ++ c :: rest))
    (hlog : log ∉ rest.map (·.2)) (hn : rest.length < n) :
    removeLink m t cell log n c.1 (start none rest) = .ok m := by
  induction rest generalizing xs c n with
  | nil =>
    cases n with
    | zero => cases hn
    | succ n => rfl
  | cons d rest ih =>
    cases n with
    | zero => cases hn
    | succ n =>
      have hhere := (Pool.linked_append.mp h).2
      have hreadC : m.links.read c.1 = some ⟨c.2, some d.1⟩ := hhere.read
      have hreadD := (Pool.linked_cons.mp hhere).2.2.read
      rw [map_cons, mem_cons, not_or] at hlog
      have hsplit : xs ++ c :: d :: rest = (xs ++ [c]) ++ d :: rest := by rw [append_assoc]; rfl
      rw [hsplit] at h
      rw [start, removeLink, hreadC, hreadD, ← ih _ h hlog.2 (Nat.lt_of_succ_lt_succ hn)]
      exact if_neg fun heq => hlog.1 heq.symm

/-! ## All the tees -/

/-- The tees that are handed out hold lists of links, each to a log and in the order of the logs'
addresses. -/
structure Represents (logs : Logs) (m : Memory) (lists : Nat → List (Nat × Nat)) : Prop where
  data : ∀ t, m.tees.used t = true →
    (m.tees.cells t).data = ⟨teeHeaderVersion, start none (lists t), .ofNat (lists t).length⟩
  linked : ∀ t, m.links.Linked none (lists t)
  sorted : ∀ t, Sorted ((lists t).map (·.2))
  known : ∀ t, ∀ c ∈ lists t, (logs.version c.2).isSome
  disjoint : ∀ t t', t ≠ t' → ∀ c ∈ lists t, c.1 ∉ (lists t').map (·.1)
  separate : ∀ t, m.tees.used t = true → logs.version t = none
  unused : ∀ t, m.tees.used t = false → lists t = []

/-- The links of one tee are others, and what there is of the other tees is as it was. -/
theorem Represents.update (h : Represents logs m lists)
    (hdata : m'.tees.used t = true →
      (m'.tees.cells t).data = ⟨teeHeaderVersion, start none l, .ofNat l.length⟩)
    (hlinked : m'.links.Linked none l) (hsorted : Sorted (l.map (·.2)))
    (hlogs : ∀ c ∈ l, (logs.version c.2).isSome)
    (hdisjoint : ∀ t', t' ≠ t → ∀ c ∈ l, c.1 ∉ (lists t').map (·.1))
    (hseparate : m'.tees.used t = true → logs.version t = none)
    (hunused : m'.tees.used t = false → l = [])
    (htees : ∀ t', t' ≠ t → m'.tees.used t' = m.tees.used t' ∧ m'.tees.cells t' = m.tees.cells t')
    (hlinks : ∀ t', t' ≠ t → ∀ c ∈ lists t', m'.links.cells c.1 = m.links.cells c.1 ∧
      m'.links.used c.1 = m.links.used c.1) : Represents logs m' (Function.update lists t l) := by
  have hself : Function.update lists t l t = l := Function.update_self ..
  have hother : ∀ {t'}, t' ≠ t → Function.update lists t l t' = lists t' :=
    fun hne => Function.update_of_ne hne ..
  constructor
  · intro t' ht'
    rcases eq_or_ne t' t with rfl | hne
    · rw [hself]
      exact hdata ht'
    · rw [hother hne, (htees t' hne).2]
      exact h.data t' ((htees t' hne).1 ▸ ht')
  · intro t'
    rcases eq_or_ne t' t with rfl | hne
    · rwa [hself]
    · rw [hother hne]
      exact (h.linked t').congr (fun c hc => (hlinks t' hne c hc).1) fun c hc =>
        (hlinks t' hne c hc).2
  · intro t'
    rcases eq_or_ne t' t with rfl | hne
    · rwa [hself]
    · rw [hother hne]
      exact h.sorted t'
  · intro t'
    rcases eq_or_ne t' t with rfl | hne
    · rwa [hself]
    · rw [hother hne]
      exact h.known t'
  · intro t₁ t₂ hne c hc
    rcases eq_or_ne t₁ t with rfl | hne₁
    · rw [hself] at hc
      rw [hother hne.symm]
      exact hdisjoint t₂ hne.symm c hc
    · rw [hother hne₁] at hc
      rcases eq_or_ne t₂ t with rfl | hne₂
      · rw [hself]
        intro hmem
        obtain ⟨d, hd, heq⟩ := mem_map.mp hmem
        exact hdisjoint t₁ hne₁ d hd (mem_map.mpr ⟨c, hc, heq.symm⟩)
      · rw [hother hne₂]
        exact h.disjoint t₁ t₂ hne c hc
  · intro t' ht'
    rcases eq_or_ne t' t with rfl | hne
    · exact hseparate ht'
    · exact h.separate t' ((htees t' hne).1 ▸ ht')
  · intro t' ht'
    rcases eq_or_ne t' t with rfl | hne
    · rw [hself]
      exact hunused ht'
    · rw [hother hne]
      exact h.unused t' ((htees t' hne).1 ▸ ht')

/-- The tees with their links, in terms of the state only. -/
theorem teeHandleSearch_spec (h : Represents logs m lists) (ht : m.tees.used t = true)
    (hn : (lists t).length < n) :
    teeHandleSearch n m t log = .ok (decide (log ∈ (lists t).map (·.2))) := by
  rw [teeHandleSearch, Pool.read_used ht]
  show searchLinks m.links log n (m.tees.cells t).data.link = _
  rw [h.data t ht]
  exact searchLinks_spec (h.linked t) hn

theorem comesFirst_spec (h : p.Linked none l) :
    comesFirst p log (start none l) = .ok (decide (∀ d ∈ l.head?, log < d.2)) := by
  cases l with
  | nil => simp [comesFirst, start]
  | cons c l =>
    rw [start, comesFirst, h.read]
    exact congrArg Except.ok (decide_eq_decide.mpr (by simp))

/-! ## What the pool has to give -/

/-- The pool has so many links left. -/
structure Ample (m : Memory) (k : Nat) : Prop where
  length : k ≤ m.supply.length
  nodup : m.supply.Nodup
  unused : ∀ a ∈ m.supply, m.links.used a = false

/-- The code ends well, or the pool has nothing to hand out although it should have. -/
def Ends {α : Type} (ample : Prop) (r : Except Fault α) (good : α → Prop) : Prop :=
  (r = .error .pool ∧ ¬ ample) ∨ ∃ a, r = .ok a ∧ good a

section
variable {α β : Type} {ample ample' : Prop} {r : Except Fault α} {good good' : α → Prop}

theorem Ends.ok {x : α} (hx : good x) : Ends ample (.ok x) good := .inr ⟨x, rfl, hx⟩

theorem Ends.mono (h : Ends ample r good) (hample : ample' → ample)
    (hgood : ∀ x, good x → good' x) :
    Ends ample' r good' := by
  rcases h with ⟨herror, hnot⟩ | ⟨x, hok, hx⟩
  · exact .inl ⟨herror, fun hno => hnot (hample hno)⟩
  · exact .inr ⟨x, hok, hgood x hx⟩

theorem Ends.bind {f : α → Except Fault β} {good : α → Prop} {good' : β → Prop}
    (h : Ends ample r good)
    (hf : ∀ x, good x → Ends ample (f x) good') : Ends ample (r.bind f) good' := by
  rcases h with ⟨rfl, hnot⟩ | ⟨x, rfl, hx⟩
  · exact .inl ⟨rfl, hnot⟩
  · exact hf x hx

end

/-- The memory after a link has been handed out. -/
def Memory.handOut (m : Memory) (newlink : Nat) (supply : List Nat) : Memory :=
  { m with links := { m.links with used := Function.update m.links.used newlink true }, supply }

/-- A link is taken from the pool, or the pool has none. -/
theorem takeLink_cases (m : Memory) : (takeLink m = .error .pool ∧ ¬ Ample m 1) ∨ ∃ newlink supply,
    m.supply = newlink :: supply ∧ m.links.used newlink = false ∧
      takeLink m = .ok (m.handOut newlink supply, newlink) := by
  rw [takeLink]
  cases hsupply : m.supply with
  | nil =>
    refine .inl ⟨rfl, fun hample => ?_⟩
    have hlength := hample.length
    rw [hsupply] at hlength
    cases hlength
  | cons newlink supply =>
    cases hused : m.links.used newlink with
    | true =>
      refine .inl ⟨?_, fun hample => ?_⟩
      · have halloc : m.links.alloc newlink (m.links.cells newlink) = none := if_pos hused
        show (match m.links.alloc newlink (m.links.cells newlink) with
          | none => _
          | some links => _) = _
        rw [halloc]
      · have hunused := hample.unused newlink (hsupply ▸ mem_cons_self)
        rw [hused] at hunused
        cases hunused
    | false =>
      refine .inr ⟨newlink, supply, rfl, hused, ?_⟩
      show (match m.links.alloc newlink (m.links.cells newlink) with
        | none => _
        | some links => _) = _
      rw [Pool.alloc_unused hused, Function.update_eq_self]
      rfl

/-! ## Adding a log -/

/-- What is there has its place, and the others stay where they are. -/
theorem teeLinkAdd_place {newlink : Nat} {supply : List Nat} (log : Nat)
    (h : Represents logs m lists)
    (ht : m.tees.used t = true) (hn : (lists t).length < n) (hfresh : m.links.used newlink = false)
    (htake : takeLink m = .ok (m.handOut newlink supply, newlink)) : ∃ q xs zs, lists t = xs ++ zs ∧
      teeLinkAdd n m t log = putTee { m with links := q, supply } t (m.tees.cells t)
        (start none (xs ++ (newlink, log) :: zs)) ((m.tees.cells t).data.linkSize + 1) ∧
      q.used = Function.update m.links.used newlink true ∧
        q.Linked none (xs ++ (newlink, log) :: zs) ∧
      (∀ d ∈ xs, d.2 ≤ log) ∧ (∀ d ∈ zs.head?, log < d.2) ∧
      ∀ b, b ≠ newlink → b ∉ (lists t).map (·.1) → q.cells b = m.links.cells b := by
  let p : Pool Nat := { m.links with used := Function.update m.links.used newlink true }
  have hnot : newlink ∉ (lists t).map (·.1) := (h.linked t).unused_not_mem hfresh
  have hlinked : p.Linked none (lists t) := (h.linked t).congr (fun _ _ => rfl) fun c hc =>
    Function.update_of_ne (Pool.ne_of_not_mem hnot hc) ..
  have hnew : p.used newlink = true := Function.update_self ..
  have hdata := h.data t ht
  rw [teeLinkAdd, htake]
  show ∃ q xs zs, lists t = xs ++ zs ∧ ((held (m.tees.read t)).bind fun cell =>
    (comesFirst p log cell.data.link).bind fun before => _) = _ ∧ _
  rw [Pool.read_used ht]
  show ∃ q xs zs, lists t = xs ++ zs ∧
    ((comesFirst p log (m.tees.cells t).data.link).bind fun before => _) = _ ∧ _
  rw [hdata, comesFirst_spec hlinked]
  show ∃ q xs zs, lists t = xs ++ zs ∧
    (if decide (∀ d ∈ (lists t).head?, log < d.2) = true then _ else _) = _ ∧ _
  by_cases hfirst : ∀ d ∈ (lists t).head?, log < d.2
  · rw [if_pos (decide_eq_true hfirst)]
    refine ⟨{ p with cells := Function.update p.cells newlink ⟨log, start none (lists t)⟩ }, [],
      lists t, rfl, ?_, rfl,
      hlinked.cons hnew hnot log, by simp, hfirst, fun b hb _ => Function.update_of_ne hb ..⟩
    show (held (p.write newlink ⟨log, start none (lists t)⟩)).bind _ = _
    rw [Pool.write_used hnew]
    rfl
  · rw [if_neg fun hno => hfirst (of_decide_eq_true hno)]
    cases hlist : lists t with
    | nil => exact absurd (by simp [hlist]) hfirst
    | cons c rest =>
      rw [hlist] at hdata hfirst hlinked hnot hn
      have hread := hlinked.read
      have hle : c.2 ≤ log := Nat.le_of_not_lt fun hno => hfirst (by simpa using hno)
      obtain ⟨q, ys, zs, rfl, hinsert, hqused, hqlinked, hys, hzs, hcells⟩ :=
        insertLink_spec [] log hlinked hnew hnot (Nat.lt_of_succ_lt hn)
      refine ⟨q, c :: ys, zs, rfl, ?_, hqused, hqlinked, forall_mem_cons.mpr ⟨hle, hys⟩,
        hzs, hcells⟩
      show ((held (p.read c.1)).bind fun first =>
        (insertLink newlink log n p c.1 first.next).bind fun links => _) = _
      rw [hread]
      show ((insertLink newlink log n p c.1 (start none (ys ++ zs))).bind fun links => _) = _
      rw [hinsert]
      rfl

/-- The memory after a tee has been written. -/
def Memory.withTee (m : Memory) (t : Nat) (cell : Cell Tee) (link : Option Nat)
    (linkSize : UInt32) : Memory :=
  { m with tees := { m.tees with
      cells :=
        Function.update m.tees.cells t { cell with data := { cell.data with link, linkSize } } } }

theorem putTee_used (ht : m.tees.used t = true) (cell : Cell Tee) (link : Option Nat)
    (linkSize : UInt32) :
    putTee m t cell link linkSize = .ok (m.withTee t cell link linkSize) := by
  rw [putTee, Pool.write_used ht]
  rfl

/-- A log is put in between those before it and those behind it. -/
theorem sorted_insert {xs zs : List (Nat × Nat)} (h : Sorted ((xs ++ zs).map (·.2)))
    (hnot : log ∉ (xs ++ zs).map (·.2)) (hxs : ∀ d ∈ xs, d.2 ≤ log)
    (hzs : ∀ d ∈ zs.head?, log < d.2) :
    Sorted ((xs ++ (a, log) :: zs).map (·.2)) := by
  rw [map_append, mem_append, not_or] at hnot
  rw [Sorted, map_append, pairwise_append] at h
  rw [Sorted, map_append, map_cons, pairwise_append, pairwise_cons]
  obtain ⟨hleft, hright, hcross⟩ := h
  have hbefore : ∀ x ∈ xs.map (·.2), x < log := by
    intro x hx
    obtain ⟨d, hd, rfl⟩ := mem_map.mp hx
    exact Nat.lt_of_le_of_ne (hxs d hd) fun heq => hnot.1 (heq ▸ hx)
  have hbehind : ∀ x ∈ zs.map (·.2), log < x := by
    intro x hx
    cases zs with
    | nil => cases hx
    | cons d zs =>
      have hd : log < d.2 := hzs d rfl
      rcases mem_cons.mp hx with rfl | hx
      · exact hd
      · exact Nat.lt_trans hd ((pairwise_cons.mp hright).1 x hx)
  refine ⟨hleft, ⟨hbehind, hright⟩, fun x hx y hy => ?_⟩
  rcases mem_cons.mp hy with rfl | hy
  · exact hbefore x hx
  · exact hcross x hx y hy

/-- Logs have been added to a tee, which has these links now. -/
structure Adds (logs : Logs) (lists : Nat → List (Nat × Nat)) (t : Nat)
    (new : List Nat) (m m' : Memory)
    (l : List (Nat × Nat)) : Prop where
  holds : Represents logs m' (Function.update lists t l)
  length : l.length ≤ new.length + (lists t).length
  mem : ∀ x, x ∈ l.map (·.2) ↔ x ∈ new ∨ x ∈ (lists t).map (·.2)
  tees : m'.tees.used = m.tees.used
  ample : ∀ k, Ample m (new.length + k) → Ample m' k
  supply : m'.supply ⊆ m.supply
  links : ∀ a, m'.links.used a = true → m.links.used a = true ∨ a ∈ m.supply

/-- **A log is added to a tee** that does not have it. -/
theorem teeLinkAdd_spec (h : Represents logs m lists) (ht : m.tees.used t = true)
    (hn : (lists t).length < n)
    (hlog : (logs.version log).isSome) (hnot : log ∉ (lists t).map (·.2)) :
    Ends (Ample m 1) (teeLinkAdd n m t log) fun m' => ∃ l, Adds logs lists t [log] m m' l := by
  rcases takeLink_cases m with ⟨herror, hample⟩ | ⟨newlink, supply, hsupply, hfresh, htake⟩
  · exact .inl ⟨by rw [teeLinkAdd, herror]; rfl, hample⟩
  obtain ⟨q, xs, zs, hsplit, hresult, hused, hlinked, hxs, hzs, hcells⟩ :=
    teeLinkAdd_place log h ht hn hfresh htake
  have hnewlink : ∀ t', newlink ∉ (lists t').map (·.1) :=
    fun t' => (h.linked t').unused_not_mem hfresh
  have hdata := h.data t ht
  let m₁ : Memory := { m with links := q, supply }
  have ht₁ : m₁.tees.used t = true := ht
  refine .inr ⟨m₁.withTee t (m.tees.cells t) (start none (xs ++ (newlink, log) :: zs))
    ((m.tees.cells t).data.linkSize + 1), hresult.trans (putTee_used ht₁ ..), xs ++
    (newlink, log) :: zs, ?_, ?_, ?_,
    rfl, ?_, hsupply ▸ subset_cons_self .., fun a ha => ?_⟩
  · refine h.update (fun _ => ?_) hlinked ?_ ?_ ?_ (fun _ => h.separate t ht) (fun hno => ?_)
      (fun t' hne => ?_)
      fun t' hne c hc => ?_
    · show (Function.update m.tees.cells t _ t).data = _
      rw [Function.update_self]
      show Tee.mk (m.tees.cells t).data.version _ _ = _
      rw [hdata, hsplit, length_append, length_append, length_cons,
        ← Nat.add_assoc, UInt32.ofNat_add (xs.length + zs.length)]
      rfl
    · exact sorted_insert (hsplit ▸ h.sorted t) (hsplit ▸ hnot) hxs hzs
    · intro c hc
      rcases mem_append.mp hc with hc | hc
      · exact h.known t c (hsplit ▸ mem_append_left _ hc)
      · rcases mem_cons.mp hc with rfl | hc
        · exact hlog
        · exact h.known t c (hsplit ▸ mem_append_right _ hc)
    · intro t' hne c hc
      rcases mem_append.mp hc with hc | hc
      · exact h.disjoint t t' hne.symm c (hsplit ▸ mem_append_left _ hc)
      · rcases mem_cons.mp hc with rfl | hc
        · exact hnewlink t'
        · exact h.disjoint t t' hne.symm c (hsplit ▸ mem_append_right _ hc)
    · have husedT : m.tees.used t = false := hno
      rw [ht] at husedT
      cases husedT
    · exact ⟨rfl, Function.update_of_ne hne ..⟩
    · have hne' : c.1 ≠ newlink := Pool.ne_of_not_mem (hnewlink t') hc
      exact ⟨hcells c.1 hne' (h.disjoint t' t hne c hc),
        (congrFun hused c.1).trans (Function.update_of_ne hne' ..)⟩
  · rw [hsplit, length_append, length_append, length_cons, length_singleton]
    omega
  · intro x
    rw [hsplit, map_append, map_cons, map_append, mem_append, mem_cons, mem_append,
      mem_singleton]
    exact or_left_comm
  · intro k hample
    have hlength := hample.length
    have hnodup := hample.nodup
    have hunused := hample.unused
    rw [hsupply] at hlength hnodup hunused
    refine ⟨?_, (nodup_cons.mp hnodup).2, fun a ha => ?_⟩
    · rw [length_singleton, length_cons] at hlength
      show k ≤ supply.length
      omega
    · show q.used a = false
      rw [hused, Function.update_of_ne fun heq : a = newlink => (nodup_cons.mp hnodup).1 (heq ▸ ha)]
      exact hunused a (mem_cons_of_mem _ ha)
  · have hused' : q.used a = true := ha
    rw [hused] at hused'
    rcases eq_or_ne a newlink with rfl | hne
    · exact .inr (hsupply ▸ mem_cons_self)
    · rw [Function.update_of_ne hne] at hused'
      exact .inl hused'

theorem Ample.mono {k k' : Nat} (h : Ample m k) (hle : k' ≤ k) : Ample m k' :=
  ⟨Nat.le_trans hle h.length, h.nodup, h.unused⟩

/-- Nothing is added that is there. -/
theorem Adds.refl {new : List Nat} (h : Represents logs m lists)
    (hnew : ∀ x ∈ new, x ∈ (lists t).map (·.2)) :
    Adds logs lists t new m m (lists t) where
  holds := by rwa [Function.update_eq_self]
  length := Nat.le_add_left ..
  mem x := (or_iff_right_of_imp (hnew x)).symm
  tees := rfl
  ample _ hample := hample.mono (Nat.le_add_left ..)
  supply _ ha := ha
  links _ ha := .inl ha

theorem Adds.trans {new new' : List Nat} (h : Adds logs lists t new m m₁ l)
    (h' : Adds logs (Function.update lists t l) t new' m₁ m₂ l') :
    Adds logs lists t (new ++ new') m m₂ l' := by
  have hlength := h.length
  have hlength' := h'.length
  have hmem' := h'.mem
  rw [Function.update_self] at hlength' hmem'
  refine ⟨?_, ?_, fun x => ?_, h'.tees.trans h.tees, fun k hample => h'.ample k (h.ample _ ?_),
    List.Subset.trans h'.supply h.supply, fun a ha => ?_⟩
  · have hholds := h'.holds
    rwa [Function.update_idem] at hholds
  · rw [length_append]
    omega
  · rw [hmem', h.mem, mem_append, or_left_comm, or_assoc]
  · rwa [length_append, Nat.add_assoc] at hample
  · rcases h'.links a ha with ha | ha
    · exact h.links a ha
    · exact .inr (h.supply ha)

/-- A log is added, if it is not there. -/
theorem addLog_spec (h : Represents logs m lists) (ht : m.tees.used t = true)
    (hn : (lists t).length < n) (hlog : (logs.version log).isSome) :
    Ends (Ample m 1) (addLog n m t log) fun m' => ∃ l, Adds logs lists t [log] m m' l := by
  rw [addLog, teeHandleSearch_spec h ht hn]
  show Ends _ (if decide (log ∈ (lists t).map (·.2)) = true then .ok m else teeLinkAdd n m t log) _
  by_cases hmem : log ∈ (lists t).map (·.2)
  · rw [if_pos (decide_eq_true hmem)]
    exact .ok ⟨_, .refl h fun x hx => mem_singleton.mp hx ▸ hmem⟩
  · rw [if_neg fun hno => hmem (of_decide_eq_true hno)]
    exact teeLinkAdd_spec h ht hn hlog hmem

/-- **The logs of another tee** are added. -/
theorem addLinks_spec (before : List (Nat × Nat)) (hne : t ≠ t₂)
    (h : Represents logs m lists) (ht : m.tees.used t = true) (hsplit : lists t₂ = before ++ rest)
    (hn : (lists t).length + rest.length < n)
    (hk : rest.length < k) : Ends (Ample m rest.length) (addLinks n t k m (start none rest))
      fun m' => ∃ l, Adds logs lists t (rest.map (·.2)) m m' l := by
  induction rest generalizing m lists before k with
  | nil =>
    cases k with
    | zero => cases hk
    | succ k => exact .ok ⟨_, .refl h (by simp)⟩
  | cons c rest ih =>
    cases k with
    | zero => cases hk
    | succ k =>
      have hread : ∀ {m₁ : Memory} {l : List (Nat × Nat)}, Represents logs m₁
          (Function.update lists t l) →
          m₁.links.read c.1 = some ⟨c.2, start none rest⟩ := by
        intro m₁ l hm₁
        have hlinked := hm₁.linked t₂
        rw [Function.update_of_ne hne.symm, hsplit] at hlinked
        exact (Pool.linked_append.mp hlinked).2.read
      have hlog := h.known t₂ c (hsplit ▸ mem_append_right _ mem_cons_self)
      have hself :
          Represents logs m (Function.update lists t (lists t)) := by rwa [Function.update_eq_self]
      rw [length_cons] at hn hk ⊢
      rw [start, addLinks, hread hself]
      show Ends _ ((addLog n m t c.2).bind fun m => (held (m.links.read c.1)).bind fun cell =>
        addLinks n t k m cell.next) _
      refine Ends.bind
        ((addLog_spec h ht (by omega) hlog).mono (fun hample : Ample m (rest.length + 1) =>
        hample.mono (Nat.le_add_left ..)) fun _ => id) ?_
      rintro m₁ ⟨l, hadds⟩
      have hlength := hadds.length
      show Ends _ ((held (m₁.links.read c.1)).bind fun cell => addLinks n t k m₁ cell.next) _
      rw [hread hadds.holds]
      have hsplit' : Function.update lists t l t₂ = (before ++ [c]) ++ rest := by
        rw [Function.update_of_ne hne.symm, hsplit, append_assoc]
        rfl
      have hn' : (Function.update lists t l t).length + rest.length < n := by
        rw [Function.update_self]
        rw [length_singleton] at hlength
        omega
      have hrest := ih (k := k) _ hadds.holds (by rw [hadds.tees]; exact ht) hsplit' hn' (by omega)
      refine hrest.mono (fun hample => hadds.ample _ ?_) ?_
      · rwa [length_singleton, Nat.add_comm]
      · rintro m₂ ⟨l', hadds'⟩
        exact ⟨l', hadds.trans hadds'⟩

/-- The logs of a tee are there already. -/
theorem addLinks_self {k : Nat} (before : List (Nat × Nat)) (h : Represents logs m lists)
    (ht : m.tees.used t = true) (hsplit : lists t = before ++ rest) (hn : (lists t).length < n)
    (hk : rest.length < k) :
    addLinks n t k m (start none rest) = .ok m := by
  induction rest generalizing before k with
  | nil =>
    cases k with
    | zero => cases hk
    | succ k => rfl
  | cons c rest ih =>
    cases k with
    | zero => cases hk
    | succ k =>
      have hlinked := h.linked t
      rw [hsplit] at hlinked
      have hread := (Pool.linked_append.mp hlinked).2.read
      have hmem : c.2 ∈ (lists t).map (·.2) :=
        mem_map_of_mem (hsplit ▸ mem_append_right _ mem_cons_self)
      have hadd : addLog n m t c.2 = .ok m := by
        rw [addLog, teeHandleSearch_spec h ht hn, decide_eq_true hmem]
        rfl
      rw [start, addLinks, hread]
      show ((addLog n m t c.2).bind fun m => (held (m.links.read c.1)).bind fun cell =>
        addLinks n t k m cell.next) = _
      rw [hadd]
      show ((held (m.links.read c.1)).bind fun cell => addLinks n t k m cell.next) = _
      rw [hread]
      exact ih (before ++ [c]) (by rw [hsplit, append_assoc]; rfl) (Nat.lt_of_succ_lt_succ hk)

/-! ## Removing a log -/

/-- What is not there is not taken out. -/
theorem filter_missing (h : log ∉ l.map (·.2)) : l.filter (·.2 ≠ log) = l :=
  filter_eq_self.mpr fun _ hc => decide_eq_true fun heq => h (heq ▸ mem_map_of_mem hc)

/-- A log is in one place of a list that is in order. -/
theorem filter_sorted (xs : List (Nat × Nat))
    (h : Sorted ((xs ++ d :: ys).map (·.2))) (hlog : d.2 = log) :
    (xs ++ d :: ys).filter (·.2 ≠ log) = xs ++ ys := by
  subst hlog
  have hnodup := h.nodup
  rw [map_append, map_cons, nodup_append, nodup_cons] at hnodup
  obtain ⟨-, ⟨hbehind, -⟩, hfront⟩ := hnodup
  have hxs : d.2 ∉ xs.map (·.2) := fun hno => hfront _ hno _ mem_cons_self rfl
  rw [filter_append, filter_cons_of_neg (by simp), filter_missing hxs, filter_missing hbehind]

/-- A link has been taken out of a tee and given back. -/
theorem Represents.removed (h : Represents logs m lists) (ht : m.tees.used t = true)
    (hsplit : lists t = xs ++ d :: ys) (hlinked : q.Linked none (xs ++ ys))
    (hused : q.used = Function.update m.links.used d.1 false)
    (hcells : ∀ b, b ∉ (lists t).map (·.1) → q.cells b = m.links.cells b) :
    Represents logs ({ m with links := q }.withTee t (m.tees.cells t) (start none (xs ++ ys))
      ((m.tees.cells t).data.linkSize - 1)) (Function.update lists t (xs ++ ys)) := by
  have hsub : ∀ c ∈ xs ++ ys, c ∈ lists t := by
    intro c hc
    rw [hsplit]
    rcases mem_append.mp hc with hc | hc
    · exact mem_append_left _ hc
    · exact mem_append_right _ (mem_cons_of_mem _ hc)
  have hsorted := h.sorted t
  rw [hsplit] at hsorted
  refine h.update (fun _ => ?_) hlinked ?_ (fun c hc => h.known t c (hsub c hc))
    (fun t' hne c hc => h.disjoint t t' hne.symm c (hsub c hc))
    (fun _ => h.separate t ht) (fun hno => ?_)
    (fun t' hne => ⟨rfl, Function.update_of_ne hne ..⟩) fun t' hne c hc => ?_
  · show (Function.update m.tees.cells t _ t).data = _
    rw [Function.update_self]
    show Tee.mk (m.tees.cells t).data.version _ _ = _
    rw [h.data t ht, hsplit, length_append, length_append, length_cons, ← Nat.add_assoc,
      UInt32.ofNat_add (xs.length + ys.length)]
    exact congrArg (Tee.mk _ _) (UInt32.add_sub_cancel ..)
  · rw [map_append, map_cons] at hsorted
    rw [map_append]
    exact List.Pairwise.sublist (List.Sublist.append_left (sublist_cons_self ..) _) hsorted
  · have husedT : m.tees.used t = false := hno
    rw [ht] at husedT
    cases husedT
  · have hnot := h.disjoint t' t hne c hc
    have hd : c.1 ≠ d.1 := fun heq =>
      hnot (heq ▸ mem_map_of_mem (hsplit ▸ mem_append_right _ mem_cons_self))
    exact ⟨hcells c.1 hnot, (congrFun hused c.1).trans (Function.update_of_ne hd ..)⟩

/-- Logs have been removed from a tee, which has these links now. -/
structure Removes (logs : Logs) (lists : Nat → List (Nat × Nat)) (t : Nat)
    (l : List (Nat × Nat)) (m m' : Memory) :
    Prop where
  holds : Represents logs m' (Function.update lists t l)
  tees : m'.tees.used = m.tees.used
  links : ∀ a, m'.links.used a = true → m.links.used a = true

theorem Removes.refl (h : Represents logs m lists) : Removes logs lists t (lists t) m m :=
  ⟨by rwa [Function.update_eq_self], rfl, fun _ => id⟩

theorem Removes.trans (h : Removes logs lists t l m m₁)
    (h' : Removes logs (Function.update lists t l) t l' m₁ m₂) : Removes logs lists t l' m m₂ := by
  have hholds := h'.holds
  rw [Function.update_idem] at hholds
  exact ⟨hholds, h'.tees.trans h.tees, fun a ha => h.links a (h'.links a ha)⟩

theorem used_of_update {used : Nat → Bool} {b : Nat} (h : Function.update used b false a = true) :
    used a = true := by
  rcases eq_or_ne a b with rfl | hne
  · rw [Function.update_self] at h
    cases h
  · rwa [Function.update_of_ne hne] at h

/-- **A log is removed from a tee.** -/
theorem teeLinkRemove_spec (log : Nat) (h : Represents logs m lists) (ht : m.tees.used t = true)
    (hn : (lists t).length < n) : ∃ m', teeLinkRemove n m t log = .ok m' ∧
    Removes logs lists t ((lists t).filter (·.2 ≠ log)) m m' := by
  have hlink : (m.tees.cells t).data.link = start none (lists t) := by rw [h.data t ht]
  have hself : Removes logs lists t (lists t) m m := .refl h
  rw [teeLinkRemove, Pool.read_used ht]
  cases hlist : lists t with
  | nil =>
    rw [hlist] at hlink hself
    refine ⟨m, ?_, hself⟩
    show (match (m.tees.cells t).data.link with | none => Except.ok m | some link => _) = _
    rw [hlink]
    rfl
  | cons c rest =>
    have hlinked := h.linked t
    have hsorted := h.sorted t
    rw [hlist] at hlink hself hlinked hsorted hn
    obtain ⟨hcell, hused, hrest⟩ := Pool.linked_cons.mp hlinked
    have hread := hlinked.read
    show ∃ m', (match (m.tees.cells t).data.link with | none => Except.ok m | some link => _) =
      Except.ok m' ∧ _
    rw [hlink]
    show ∃ m', ((held (m.links.read c.1)).bind fun first => if first.data = log then _ else _) =
      Except.ok m' ∧ _
    rw [hread]
    show ∃ m',
        (if c.2 = log then ((held (m.links.free c.1)).bind fun links => putTee { m with links } t
        (m.tees.cells t) (start none rest) ((m.tees.cells t).data.linkSize - 1))
      else removeLink m t (m.tees.cells t) log n c.1 (start none rest)) = Except.ok m' ∧ _
    by_cases hhead : c.2 = log
    · have hfilter : (c :: rest).filter (·.2 ≠ log) = rest := filter_sorted [] hsorted hhead
      have hnodup := hlinked.nodup
      rw [map_cons, nodup_cons] at hnodup
      rw [if_pos hhead, Pool.free_used hused, hfilter]
      let q : Pool Nat := { m.links with used := Function.update m.links.used c.1 false }
      have hsplit : lists t = [] ++ c :: rest := hlist
      have hremoved := h.removed (q := q) ht hsplit (hrest.free hnodup.1) rfl fun _ _ => rfl
      exact ⟨_, putTee_used (m := { m with links := q }) ht .., hremoved, rfl,
        fun _ => used_of_update⟩
    · rw [if_neg hhead]
      by_cases hmem : log ∈ rest.map (·.2)
      · obtain ⟨q, ys, d, zs, rfl, hd, hremove, hqlinked, hqused, hqcells⟩ :=
          removeLink_spec t (m.tees.cells t) [] hlinked hmem (Nat.lt_of_succ_lt hn)
        have hsplit : lists t = (c :: ys) ++ d :: zs := hlist
        have hfilter : (c :: (ys ++ d :: zs)).filter (·.2 ≠ log) = c :: (ys ++ zs) :=
          filter_sorted (c :: ys) hsorted hd
        have hremoved := h.removed ht hsplit hqlinked hqused fun b hb => hqcells b (hlist ▸ hb)
        rw [hremove, hfilter]
        refine ⟨_, putTee_used (m := { m with links := q }) ht .., ?_, rfl, fun a ha => ?_⟩
        · rw [hlink]
          exact hremoved
        · have hqa : q.used a = true := ha
          rw [hqused] at hqa
          exact used_of_update hqa
      · have hmissing : log ∉ (c :: rest).map (·.2) := by
          rw [map_cons, mem_cons, not_or]
          exact ⟨fun heq => hhead heq.symm, hmem⟩
        rw [removeLink_missing [] hlinked hmem (Nat.lt_of_succ_lt hn), filter_missing hmissing]
        exact ⟨m, rfl, hself⟩

/-- **The logs of another tee** are removed. -/
theorem removeLinks_spec (before : List (Nat × Nat)) (hne : t ≠ t₂) (h : Represents logs m lists)
    (ht : m.tees.used t = true) (hsplit : lists t₂ = before ++ rest) (hn : (lists t).length < n)
    (hk : rest.length < k) : ∃ m', removeLinks n t k m (start none rest) = .ok m' ∧
      Removes logs lists t ((lists t).filter (·.2 ∉ rest.map (·.2))) m m' := by
  induction rest generalizing m lists before k with
  | nil =>
    cases k with
    | zero => cases hk
    | succ k =>
      refine ⟨m, rfl, ?_⟩
      rw [filter_eq_self.mpr (by simp)]
      exact .refl h
  | cons c rest ih =>
    cases k with
    | zero => cases hk
    | succ k =>
      have hlinked := h.linked t₂
      rw [hsplit] at hlinked
      have hread := (Pool.linked_append.mp hlinked).2.read
      rw [start, removeLinks, Pool.read_used ht]
      show ∃ m',
        (if (m.tees.cells t).data.link =
        none then .ok m else (held (m.links.read c.1)).bind fun cell =>
        (teeLinkRemove n m t cell.data).bind fun m => removeLinks n t k m cell.next) = _ ∧ _
      rw [h.data t ht, hread]
      cases hlist : lists t with
      | nil =>
        have hself : Removes logs lists t (lists t) m m := .refl h
        rw [hlist] at hself
        exact ⟨m, rfl, hself⟩
      | cons d ds =>
        obtain ⟨m₁, hremove, hremoves⟩ := teeLinkRemove_spec c.2 h ht hn
        have hsplit' : Function.update lists t ((lists t).filter (·.2 ≠ c.2)) t₂ =
            (before ++ [c]) ++ rest := by
          rw [Function.update_of_ne hne.symm, hsplit, append_assoc]
          rfl
        have hn' : (Function.update lists t ((lists t).filter (·.2 ≠ c.2)) t).length < n := by
          rw [Function.update_self]
          exact Nat.lt_of_le_of_lt (length_filter_le ..) hn
        obtain ⟨m', hrest, hremoves'⟩ :=
          ih _ hremoves.holds (by rw [hremoves.tees]; exact ht) hsplit' hn'
          (Nat.lt_of_succ_lt_succ hk)
        have hfilter : (lists t).filter (·.2 ∉ (c :: rest).map (·.2)) =
            ((lists t).filter (·.2 ≠ c.2)).filter (·.2 ∉ rest.map (·.2)) := by
          rw [filter_filter]
          refine filter_congr fun x _ => ?_
          rw [← Bool.decide_and]
          exact decide_eq_decide.mpr (by rw [map_cons, mem_cons, not_or, and_comm])
        have hgoes : start none (lists t) ≠ none := by
          rw [hlist]
          exact Option.some_ne_none _
        rw [Function.update_self] at hremoves'
        rw [← hlist, hfilter]
        refine ⟨m', (if_neg hgoes).trans ?_, hremoves.trans hremoves'⟩
        show ((teeLinkRemove n m t c.2).bind fun m => removeLinks n t k m (start none rest)) = _
        rw [hremove]
        exact hrest

/-- **The logs of the tee itself** are removed. -/
theorem removeLinks_self {k : Nat} (h : Represents logs m lists) (ht : m.tees.used t = true)
    (hn : (lists t).length < n) (hk : (lists t).length < k) :
    ∃ m', removeLinks n t k m (start none (lists t)) = .ok m' ∧ Removes logs lists t [] m m' := by
  induction hlist : lists t generalizing m lists k with
  | nil =>
    cases k with
    | zero => cases hk
    | succ k =>
      have hself : Removes logs lists t (lists t) m m := .refl h
      rw [hlist] at hself
      exact ⟨m, rfl, hself⟩
  | cons c rest ih =>
    cases k with
    | zero => cases hk
    | succ k =>
      have hlinked := h.linked t
      have hsorted := h.sorted t
      rw [hlist] at hlinked hsorted
      have hread := hlinked.read
      have hfilter : (lists t).filter (·.2 ≠ c.2) = rest := hlist ▸ filter_sorted [] hsorted rfl
      obtain ⟨m₁, hremove, hremoves⟩ := teeLinkRemove_spec c.2 h ht hn
      rw [hfilter] at hremoves
      rw [hlist, length_cons] at hn hk
      have hrest : Function.update lists t rest t = rest := Function.update_self ..
      obtain ⟨m', hremove', hremoves'⟩ :=
        ih (k := k) hremoves.holds (by rw [hremoves.tees]; exact ht)
        (by rw [hrest]; omega) (by rw [hrest]; omega) hrest
      refine ⟨m', ?_, hremoves.trans hremoves'⟩
      rw [start, removeLinks, Pool.read_used ht]
      show (if (m.tees.cells t).data.link =
        none then .ok m else (held (m.links.read c.1)).bind fun cell =>
        (teeLinkRemove n m t cell.data).bind fun m => removeLinks n t k m cell.next) = _
      rw [h.data t ht, hread, hlist]
      show ((teeLinkRemove n m t c.2).bind fun m => removeLinks n t k m (start none rest)) = _
      rw [hremove]
      exact hremove'

end

end ULog
