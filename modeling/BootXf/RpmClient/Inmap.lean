import BootXf.Lib.Avl
import Mathlib.Data.Nat.Basic
import Mathlib.Logic.Function.Basic

/-!
# The intrusive map

Objects are linked into a tree by links of their own, which `inmap_insert` balances by rotations. A
rotation finds the pointer to the node by looking at the left pointer of the parent. `Linked` says
that links stand for a tree, and `Replaces` that the tree under a pointer has become another one.
What is done on the left and on the right is the same with the sides changed. Dereferencing `NULL`
is `none`.
-/

namespace RpmClient.Inmap

open Lib Lib.Avl List Option Function

section
variable {ω σ : Type} {key : ω → UInt32}

/-! ## Memory -/

/-- `inmap_link_t`. -/
structure Link (ω : Type) where
  left : Option ω
  right : Option ω
  height : UInt32

/-- `inmap_t`, with the links of the objects. The offsets of link and key are in how these are
read. -/
structure Map (ω : Type) where
  size : UInt32
  root : Option ω
  link : ω → Link ω

/-- `inmap_insert_t`. -/
structure Inserted (ω : Type) where
  inserted : Bool
  object : ω
  deriving DecidableEq

/-- `MAX`. -/
def max32 (a b : UInt32) : UInt32 := if b < a then a else b

def Link.child (c : Link ω) : Side → Option ω
  | .left => c.left
  | .right => c.right

def Link.setChild (c : Link ω) (p : Option ω) : Side → Link ω
  | .left => { c with left := p }
  | .right => { c with right := p }

section
variable (c : Link ω) (s : Side) (p : Option ω)

@[simp] theorem Link.child_setChild : (c.setChild p s).child s = p := by cases s <;> rfl
@[simp] theorem Link.other_setChild :
    (c.setChild p s).child s.other = c.child s.other := by cases s <;> rfl
@[simp] theorem Link.child_setChild_other :
    (c.setChild p s.other).child s = c.child s := by cases s <;> rfl
@[simp] theorem Link.height_setChild : (c.setChild p s).height = c.height := by cases s <;> rfl

theorem Link.setChild_child : c.setChild (c.child s) s = c := by cases s <;> rfl

end

/-- `inmap_create`. -/
def inmapCreate (link : ω → Link ω) : Map ω := ⟨0, none, link⟩

namespace Map

variable (m : Map ω)

variable [DecidableEq ω]

def setLink (a : ω) (c : Link ω) : Map ω := { m with link := update m.link a c }

def setChild (s : Side) (a : ω) (p : Option ω) : Map ω := m.setLink a ((m.link a).setChild p s)

def setHeight (a : ω) (height : UInt32) : Map ω := m.setLink a { m.link a with height }

end Map

/-- Where there is a pointer to an object. -/
inductive Place (ω : Type)
  | root
  | child (s : Side) (a : ω)

variable [DecidableEq ω]

def Map.get (m : Map ω) : Place ω → Option ω
  | .root => m.root
  | .child s a => (m.link a).child s

def Map.put (m : Map ω) (place : Place ω) (p : Option ω) : Map ω :=
  match place with
  | .root => { m with root := p }
  | .child s a => m.setChild s a p

/-- Which pointer of the parent is changing. -/
def Map.place (m : Map ω) (parent : Option ω) (node : ω) : Place ω :=
  match parent with
  | none => .root
  | some p => if (m.link p).left = some node then .child .left p else .child .right p

/-! ## Insertion -/

/-- `initialize_link`. -/
def initializeLink (m : Map ω) (object : ω) : Map ω := m.setLink object ⟨none, none, 1⟩

/-- The height that is stored, `0` for `NULL`. -/
def Map.height (m : Map ω) : Option ω → UInt32
  | none => 0
  | some a => (m.link a).height

/-- One more than the height that is stored, `1` for `NULL`. -/
def Map.above (m : Map ω) : Option ω → UInt32
  | none => 1
  | some a => (m.link a).height + 1

/-- The height is computed from the nodes below. -/
def Map.updateHeight (m : Map ω) (a : ω) : Map ω :=
  m.setHeight a (max32 (m.above (m.link a).left) (m.above (m.link a).right))

/-- A rotation to one side. -/
def inmapRotate (s : Side) (m : Map ω) (parent : Option ω) (node : ω) : Option (Map ω) := do
  let place := m.place parent node
  let m := m.put place ((m.link node).child s.other)
  let top ← m.get place
  let save := (m.link top).child s
  let m := m.setChild s top (some node)
  let m := m.setChild s.other node save
  let m := m.updateHeight node
  let top ← m.get place
  return m.updateHeight top

/-- `inmap_rotate_left`. -/
def inmapRotateLeft (m : Map ω) (parent : Option ω) (node : ω) : Option (Map ω) :=
  inmapRotate .left m parent node

/-- `inmap_rotate_right`. -/
def inmapRotateRight (m : Map ω) (parent : Option ω) (node : ω) : Option (Map ω) :=
  inmapRotate .right m parent node

/-- `left_height - right_height`, in an `int`. -/
def Map.balance (m : Map ω) (node : ω) : Int32 :=
  (m.height (m.link node).left - m.height (m.link node).right).toInt32

/-- `inmap_balance_tree`. -/
def inmapBalanceTree (m : Map ω) (parent : Option ω) (node : ω) : Option (Map ω) :=
  if m.balance node = -2 then do
    let right ← (m.link node).right
    if m.balance right = 1 then
      let m ← inmapRotateRight m (some node) right
      inmapRotateLeft m parent node
    else if m.balance right = -1 then inmapRotateLeft m parent node
    else return m
  else if m.balance node = 2 then do
    let left ← (m.link node).left
    if m.balance left = -1 then
      let m ← inmapRotateLeft m (some node) left
      inmapRotateRight m parent node
    else if m.balance left = 1 then inmapRotateRight m parent node
    else return m
  else some m

/-- `_inmap_insert`, for trees that are not higher than this. -/
def insertAt (key : ω → UInt32) : Nat → Map ω → Option ω → ω → ω → Option (Map ω × Inserted ω)
  | 0, _, _, _, _ => none
  | fuel + 1, m, parent, node, object =>
    if key node = key object then some (m, ⟨false, node⟩)
    else
      let s := if key object < key node then Side.left else .right
      let changed : Option (Map ω × Inserted ω) := match (m.link node).child s with
        | none =>
          let m := initializeLink m object
          let m := m.setChild s node (some object)
          -- the height may have increased
          some (m.setHeight node (max32 (m.link node).height 2), ⟨true, object⟩)
        | some child => (insertAt key fuel m (some node) child object).map fun r =>
          (r.1.updateHeight node, r.2)
      changed.bind fun r => (inmapBalanceTree r.1 parent node).map fun m => (m, r.2)

/-- `inmap_insert`. -/
def inmapInsert (key : ω → UInt32) (fuel : Nat) (m : Map ω) (object : ω) :
    Option (Map ω × Inserted ω) :=
  match m.root with
  | none => some ({ initializeLink m object with root := some object, size := 1 }, ⟨true, object⟩)
  | some root => do
    let (m, result) ← insertAt key fuel m none root object
    return (if result.inserted then { m with size := m.size + 1 } else m, result)

/-! ## Searching and visiting -/

/-- The loop of `inmap_search`. -/
def searchFrom (key : ω → UInt32) (m : Map ω) (k : UInt32) : Nat → Option ω → Option (Option ω)
  | _, none => some none
  | 0, some _ => none
  | fuel + 1, some node =>
    if k = key node then some (some node)
    else if k < key node then searchFrom key m k fuel (m.link node).left
    else searchFrom key m k fuel (m.link node).right

/-- `inmap_search`. -/
def inmapSearch (key : ω → UInt32) (fuel : Nat) (m : Map ω) (k : UInt32) : Option (Option ω) :=
  searchFrom key m k fuel m.root

/-- `_inmap_visit`. The context is what a visit changes. -/
def visitFrom (visit : σ → ω → σ) (m : Map ω) : Nat → ω → σ → Option σ
  | 0, _, _ => none
  | fuel + 1, node, context => do
    let left := (m.link node).left
    let right := (m.link node).right
    let context ← left.elim (some context) fun left => visitFrom visit m fuel left context
    let context := visit context node
    right.elim (some context) fun right => visitFrom visit m fuel right context

/-- `inmap_visit`. -/
def inmapVisit (visit : σ → ω → σ) (fuel : Nat) (m : Map ω) (context : σ) : Option σ :=
  m.root.elim (some context) fun root => visitFrom visit m fuel root context

/-- `inmap_size`. -/
def inmapSize (m : Map ω) : UInt32 := m.size

/-- `inmap_height`. -/
def inmapHeight (m : Map ω) : UInt32 := m.height m.root

/-! ## Memory again -/

namespace Map

variable {m m' m'' : Map ω} {place : Place ω} {p q : Option ω} {a b : ω} {c : Link ω} {s : Side}
    {objects objects' : List ω} {height : UInt32}

@[simp] theorem setLink_link : (m.setLink a c).link = update m.link a c := rfl

@[simp] theorem setChild_link : (m.setChild s a p).link a = (m.link a).setChild p s :=
  update_self ..
@[simp] theorem setHeight_link :
    (m.setHeight a height).link a = { m.link a with height } :=
  update_self ..

theorem setChild_link_of_ne (h : b ≠ a) : (m.setChild s a p).link b = m.link b := update_of_ne h ..

theorem setHeight_link_of_ne (h : b ≠ a) :
    (m.setHeight a height).link b = m.link b :=
  update_of_ne h ..

@[simp] theorem get_put : (m.put place p).get place = p := by
  cases place with
  | root => rfl
  | child s a => rw [get, put, setChild_link, Link.child_setChild]

theorem put_get : m.put place (m.get place) = m := by
  cases place with
  | root => rfl
  | child s a => rw [put, get, setChild, Link.setChild_child, setLink, update_eq_self]

/-- Only the links of these objects are changed. -/
structure Frame (m m' : Map ω) (objects : List ω) : Prop where
  size : m'.size = m.size
  root : m'.root = m.root
  link : ∀ a, a ∉ objects → m'.link a = m.link a

omit [DecidableEq ω] in
theorem Frame.refl (m : Map ω) (objects : List ω) : Frame m m objects := ⟨rfl, rfl, fun _ _ => rfl⟩

omit [DecidableEq ω] in
theorem Frame.trans (h : Frame m m' objects) (h' : Frame m' m'' objects) : Frame m m'' objects :=
  ⟨h'.size.trans h.size, h'.root.trans h.root, fun a ha => (h'.link a ha).trans (h.link a ha)⟩

omit [DecidableEq ω] in
theorem Frame.mono (h : Frame m m' objects) (hsub : ∀ a ∈ objects, a ∈ objects') :
    Frame m m' objects' :=
  ⟨h.size, h.root, fun a ha => h.link a fun hmem => ha (hsub a hmem)⟩

theorem Frame.setLink (h : Frame m m' objects) (ha : a ∈ objects) :
    Frame m (m'.setLink a c) objects :=
  h.trans ⟨rfl, rfl, fun b hb => update_of_ne (fun heq : b = a => hb (heq ▸ ha)) ..⟩

theorem Frame.put (h : Frame m m' objects) : Frame (m.put place p) (m'.put place p) objects := by
  cases place with
  | root => exact ⟨h.size, rfl, h.link⟩
  | child s a =>
    refine ⟨h.size, h.root, fun b hb => ?_⟩
    by_cases heq : b = a
    · rw [heq, Map.put, Map.put, setChild_link, setChild_link, h.link a (heq ▸ hb)]
    · rw [Map.put, Map.put, setChild_link_of_ne heq, setChild_link_of_ne heq, h.link b hb]

end Map

/-- A pointer that is not in one of these objects. -/
def Place.Outside (objects : List ω) : Place ω → Prop
  | .root => True
  | .child _ a => a ∉ objects

namespace Map

variable {m m' m'' : Map ω} {place : Place ω} {parent p : Option ω} {a b : ω} {s : Side}
    {objects : List ω}

omit [DecidableEq ω] in
/-- A pointer outside of the objects stays. -/
theorem Frame.get (h : Frame m m' objects) (hplace : place.Outside objects) :
    m'.get place = m.get place := by
  cases place with
  | root => exact h.root
  | child s a => exact congrArg (Link.child · s) (h.link a hplace)

theorem put_link_of_outside (hplace : place.Outside objects) (ha : a ∈ objects) :
    (m.put place p).link a = m.link a := by
  cases place with
  | root => rfl
  | child s b => exact setChild_link_of_ne fun heq => hplace (heq ▸ ha)

theorem place_outside (hparent : ∀ p, parent = some p → p ∉ objects) :
    (m.place parent a).Outside objects := by
  cases parent with
  | none => trivial
  | some p =>
    have hp := hparent p rfl
    rw [place]
    split
    · exact hp
    · exact hp

/-- The parent looks as it did. -/
theorem Frame.place_eq (h : Frame m m' objects) (hparent : ∀ p, parent = some p → p ∉ objects) :
    m'.place parent a = m.place parent a := by
  cases parent with
  | none => rfl
  | some p => rw [Map.place, Map.place, h.link p (hparent p rfl)]

end Map

/-! ## Trees in memory -/

section
variable {link link' : ω → Link ω} {m m' m'' : Map ω} {place : Place ω} {parent : Option ω}
    {a b node object : ω}
  {c : ω} {s : Side} {objects objects' : List ω} {t t' u u' v x y : BinaryTree ω}
  {l r : BinaryTree ω}

/-- The pointer to a tree. -/
def top : BinaryTree ω → Option ω
  | .nil => none
  | .node a _ _ => some a

omit [DecidableEq ω] in
@[simp] theorem top_join : top (join s a t u) = some a := by cases s <;> rfl

/-- The links are those of a tree, with its heights. -/
def Linked (link : ω → Link ω) : BinaryTree ω → Prop
  | .nil => True
  | .node a l r => (link a).left = top l ∧ (link a).right = top r ∧
      (link a).height = .ofNat (BinaryTree.node a l r).height ∧ Linked link l ∧ Linked link r

omit [DecidableEq ω] in
/-- When a join is linked. -/
theorem linked_join : Linked link (join s a t u) ↔ (link a).child s = top t ∧
    (link a).child s.other = top u ∧
    (link a).height = .ofNat (max t.height u.height + 1) ∧ Linked link t ∧ Linked link u := by
  cases s
  · exact Iff.rfl
  · rw [Nat.max_comm]
    constructor
    · rintro ⟨hleft, hright, hheight, hl, hr⟩
      exact ⟨hright, hleft, hheight, hr, hl⟩
    · rintro ⟨hleft, hright, hheight, hl, hr⟩
      exact ⟨hright, hleft, hheight, hr, hl⟩

omit [DecidableEq ω] in
/-- A tree is linked by its own links. -/
theorem Linked.congr (h : Linked link t) (hlink : ∀ a ∈ inorder t, link' a = link a) :
    Linked link' t := by
  induction t with
  | nil => trivial
  | node a l r hl hr =>
    rw [inorder_node] at hlink
    obtain ⟨hleft, hright, hheight, hlinkedLeft, hlinkedRight⟩ := h
    have hroot := hlink a (mem_append_right _ mem_cons_self)
    exact ⟨hroot ▸ hleft, hroot ▸ hright, hroot ▸ hheight,
      hl hlinkedLeft fun b hb => hlink b (mem_append_left _ hb),
      hr hlinkedRight fun b hb => hlink b (mem_append_right _ (mem_cons_of_mem _ hb))⟩

/-- The links below a node are those of two trees. -/
structure Pointed (m : Map ω) (s : Side) (a : ω) (t u : BinaryTree ω) : Prop where
  near : (m.link a).child s = top t
  far : (m.link a).child s.other = top u
  linkedNear : Linked m.link t
  linkedFar : Linked m.link u

omit [DecidableEq ω] in
theorem Linked.pointed (h : Linked m.link (join s a t u)) : Pointed m s a t u := by
  obtain ⟨hnear, hfar, -, ht, hu⟩ := linked_join.mp h
  exact ⟨hnear, hfar, ht, hu⟩

theorem max32_ofNat {x y : Nat} (hx : x < 2 ^ 32) (hy : y < 2 ^ 32) :
    max32 (.ofNat x) (.ofNat y) = .ofNat (max x y) := by
  have hlt : UInt32.ofNat y < UInt32.ofNat x ↔ y < x := by
    rw [UInt32.lt_iff_toNat_lt, UInt32.toNat_ofNat', UInt32.toNat_ofNat', Nat.mod_eq_of_lt hx,
      Nat.mod_eq_of_lt hy]
  by_cases h : y < x
  · rw [max32, if_pos (hlt.mpr h), Nat.max_eq_left (Nat.le_of_lt h)]
  · rw [max32, if_neg fun hno => h (hlt.mp hno), Nat.max_eq_right (Nat.le_of_not_lt h)]

omit [DecidableEq ω] in
/-- The height that the code reads. -/
theorem Linked.height_top (h : Linked m.link t) : m.height (top t) = .ofNat t.height := by
  cases t with
  | nil => rfl
  | node a l r => exact h.2.2.1

omit [DecidableEq ω] in
theorem Linked.above_top (h : Linked m.link t) : m.above (top t) = .ofNat (t.height + 1) := by
  cases t with
  | nil => rfl
  | node a l r =>
    rw [UInt32.ofNat_add]
    exact congrArg (· + 1) h.2.2.1

/-- The height that is computed. -/
theorem Pointed.updateHeight (h : Pointed m s a t u) (ht : t.height < 2 ^ 31)
    (hu : u.height < 2 ^ 31) :
    m.updateHeight a = m.setHeight a (.ofNat (max t.height u.height + 1)) := by
  have hnear :
      m.above ((m.link a).child s) = .ofNat (t.height + 1) := by rw [h.near, h.linkedNear.above_top]
  have hfar :
      m.above ((m.link a).child s.other) = .ofNat
      (u.height + 1) := by rw [h.far, h.linkedFar.above_top]
  rw [← Nat.add_max_add_right, Map.updateHeight]
  cases s with
  | left =>
    show m.setHeight a
      (max32 (m.above ((m.link a).child .left)) (m.above ((m.link a).child .right))) = _
    rw [hnear, show m.above ((m.link a).child .right) = _ from hfar,
      max32_ofNat (by omega) (by omega)]
  | right =>
    show m.setHeight a
      (max32 (m.above ((m.link a).child .left)) (m.above ((m.link a).child .right))) = _
    rw [hnear, show m.above ((m.link a).child .left) = _ from hfar, max32_ofNat (by omega)
      (by omega), Nat.max_comm]

/-- Computing the height makes the links those of the tree. -/
theorem Pointed.linked (h : Pointed m s a t u) (ht : t.height < 2 ^ 31) (hu : u.height < 2 ^ 31)
    (hnear : a ∉ inorder t) (hfar : a ∉ inorder u) :
    Linked (m.updateHeight a).link (join s a t u) := by
  have hothers : ∀ b, b ≠ a → (m.updateHeight a).link b = m.link b :=
    fun b hb => Map.setHeight_link_of_ne hb
  rw [h.updateHeight ht hu] at hothers ⊢
  rw [linked_join, Map.setHeight_link]
  refine ⟨?_, ?_, rfl, h.linkedNear.congr fun b hb => hothers b fun heq => hnear (heq ▸ hb),
    h.linkedFar.congr fun b hb => hothers b fun heq => hfar (heq ▸ hb)⟩
  · rw [← h.near]
    cases s <;> rfl
  · rw [← h.far]
    cases s <;> rfl

/-- The tree under a pointer has become another one, and outside of these objects nothing else has
changed. -/
structure Replaces (m : Map ω) (place : Place ω) (objects : List ω) (t : BinaryTree ω)
    (m' : Map ω) : Prop where
  frame : (m.put place (top t)).Frame m' objects
  linked : Linked m'.link t

/-- Nothing but links of the objects has changed, when the pointer stays as it is. -/
theorem Replaces.of_frame (hframe : m.Frame m' objects) (hlinked : Linked m'.link t)
    (hget : m.get place = top t) : Replaces m place objects t m' := by
  refine ⟨?_, hlinked⟩
  rwa [← hget, Map.put_get]

/-- The pointer to the root is in an object whose links may change. -/
theorem Replaces.within (h : Replaces m (.child s a) objects t m') (ha : a ∈ objects')
    (hsub : ∀ a ∈ objects, a ∈ objects') : m.Frame m' objects' :=
  ((Map.Frame.refl m objects').setLink ha).trans (h.frame.mono hsub)

/-- A tree below a node has become another one. -/
theorem Replaces.pointed (h : Replaces m (.child s.other a) objects u m') (hm : Pointed m s a t v)
    (ha : a ∉ objects) (hobjects : ∀ b ∈ objects, b ∉ inorder t) (hnode : a ∉ inorder t) :
    Pointed m' s a t u := by
  have hlink : m'.link a = (m.link a).setChild (top u) s.other := by
    rw [h.frame.link a ha, Map.put, Map.setChild_link]
  refine ⟨?_, ?_, hm.linkedNear.congr fun b hb => ?_, h.linked⟩
  · rw [hlink, ← hm.near]
    cases s <;> rfl
  · rw [hlink, Link.child_setChild]
  · rw [h.frame.link b fun hno => hobjects b hno hb, Map.put, Map.setChild_link_of_ne fun heq : b =
      a => hnode (heq ▸ hb)]

omit [DecidableEq ω] in
/-- Both sides may be swapped. -/
theorem Pointed.swap (h : Pointed m s a t u) : Pointed m s.other a u t :=
  ⟨h.far, by rw [Side.other_other]; exact h.near, h.linkedFar, h.linkedNear⟩

theorem Replaces.pointed_near (h : Replaces m (.child s a) objects t' m') (hm : Pointed m s a t v)
    (ha : a ∉ objects) (hobjects : ∀ b ∈ objects, b ∉ inorder v) (hnode : a ∉ inorder v) :
    Pointed m' s a t' v := by
  have hpointed :=
    Replaces.pointed (s := s.other) (by rwa [Side.other_other]) hm.swap ha hobjects hnode
  have hpointed := hpointed.swap
  rwa [Side.other_other] at hpointed

/-! ## Rotations in memory -/

/-- **A rotation** of the links rotates the tree. -/
theorem inmapRotate_spec (h : Pointed m s a t (join s b u v))
    (hnodup : (inorder (join s a t (join s b u v))).Nodup)
    (hplace : (m.place parent a).Outside (inorder (join s a t (join s b u v))))
    (ht : t.height < 2 ^ 30) (hu : u.height < 2 ^ 30) (hv : v.height < 2 ^ 30) :
    ∃ m', inmapRotate s m parent a = some m' ∧
      Replaces m (m.place parent a) (inorder (join s a t (join s b u v)))
        (join s b (join s a t u) v) m' := by
  obtain ⟨-, hnodupFar, hat, haFar, hdisjoint⟩ := nodup_join.mp hnodup
  obtain ⟨-, -, hbu, hbv, -⟩ := nodup_join.mp hnodupFar
  have hab : a ≠ b := fun heq => haFar (mem_inorder_join.mpr (.inl heq))
  have hau : a ∉ inorder u := fun hno => haFar (mem_inorder_join.mpr (.inr (.inl hno)))
  have hav : a ∉ inorder v := fun hno => haFar (mem_inorder_join.mpr (.inr (.inr hno)))
  have hbt : b ∉ inorder t := fun hno => hdisjoint b hno (mem_inorder_join.mpr (.inl rfl))
  obtain ⟨-, hbfar, -, hlinkedU, hlinkedV⟩ := linked_join.mp h.linkedFar
  have hbnear := (linked_join.mp h.linkedFar).1
  have hroot : (m.link a).child s.other = some b := h.far.trans top_join
  generalize hobjects : inorder (join s a t (join s b u v)) = objects at hplace ⊢
  have hmem : ∀ x, x = a ∨ x = b ∨ x ∈ inorder t ∨ x ∈ inorder u ∨ x ∈ inorder v → x ∈ objects := by
    intro x hx
    rwa [← hobjects, mem_inorder_join, mem_inorder_join, or_left_comm (a := x ∈ inorder t)]
  -- The three pointers are written, the one to the subtree last.
  let m₁ := m.put (m.place parent a) (some b)
  let m₃ := (m₁.setChild s b (some a)).setChild s.other a (top u)
  have hkept : ∀ x ∈ objects, m₁.link x = m.link x := fun x hx => Map.put_link_of_outside hplace hx
  have hlinkA : m₃.link a = (m.link a).setChild (top u) s.other := by
    rw [Map.setChild_link, Map.setChild_link_of_ne hab, hkept a (hmem a (.inl rfl))]
  have hlinkB : m₃.link b = (m.link b).setChild (some a) s := by
    rw [Map.setChild_link_of_ne hab.symm, Map.setChild_link, hkept b (hmem b (.inr (.inl rfl)))]
  have hlink : ∀ x, x ≠ a → x ≠ b → x ∈ objects → m₃.link x = m.link x := by
    intro x hxa hxb hx
    rw [Map.setChild_link_of_ne hxa, Map.setChild_link_of_ne hxb, hkept x hx]
  have hframe₃ : m₁.Frame m₃ objects :=
    ((Map.Frame.refl m₁ objects).setLink (hmem b (.inr (.inl rfl)))).setLink (hmem a (.inl rfl))
  have hpointed₃ : Pointed m₃ s a t u := by
    refine ⟨?_, ?_, h.linkedNear.congr fun x hx => ?_, hlinkedU.congr fun x hx => ?_⟩
    · rw [hlinkA, Link.child_setChild_other, h.near]
    · rw [hlinkA, Link.child_setChild]
    · exact hlink x (fun heq => hat (heq ▸ hx)) (fun heq => hbt (heq ▸ hx))
        (hmem x (.inr (.inr (.inl hx))))
    · exact hlink x (fun heq => hau (heq ▸ hx)) (fun heq => hbu (heq ▸ hx))
        (hmem x (.inr (.inr (.inr (.inl hx)))))
  -- The height of the node that went down is computed first.
  let m₄ := m₃.updateHeight a
  have hframe₄ : m₁.Frame m₄ objects := hframe₃.setLink (hmem a (.inl rfl))
  have hothers : ∀ x, x ≠ a → m₄.link x = m₃.link x := fun x hx => Map.setHeight_link_of_ne hx
  have hpointed₄ : Pointed m₄ s b (join s a t u) v := by
    refine ⟨?_, ?_, hpointed₃.linked (by omega) (by omega) hat hau, hlinkedV.congr fun x hx => ?_⟩
    · rw [hothers b hab.symm, hlinkB, Link.child_setChild, top_join]
    · rw [hothers b hab.symm, hlinkB, Link.other_setChild, hbfar]
    · have hxa : x ≠ a := fun heq => hav (heq ▸ hx)
      rw [hothers x hxa, hlink x hxa (fun heq => hbv (heq ▸ hx))
        (hmem x (.inr (.inr (.inr (.inr hx)))))]
  have hget : m₄.get (m.place parent a) = some b := (hframe₄.get hplace).trans Map.get_put
  refine ⟨m₄.updateHeight b, ?_, ?_, hpointed₄.linked ?_ (by omega) ?_ hbv⟩
  · rw [inmapRotate]
    show (((m.put (m.place parent a) ((m.link a).child s.other)).get (m.place parent a)).bind
      fun _ => _) = _
    rw [hroot, Map.get_put, bind_some]
    show (((((m₁.setChild s b (some a)).setChild s.other a
      ((m₁.link b).child s)).updateHeight a).get (m.place parent a)).bind fun _ => _) = _
    rw [hkept b (hmem b (.inr (.inl rfl))), hbnear]
    show ((m₄.get (m.place parent a)).bind fun _ => _) = _
    rw [hget]
    rfl
  · rw [top_join]
    exact hframe₄.setLink (hmem b (.inr (.inl rfl)))
  · rw [height_join]
    omega
  · rw [mem_inorder_join]
    rintro (heq | hno | hno)
    · exact hab heq.symm
    · exact hbt hno
    · exact hbu hno

/-! ## The cases of the switch -/

/-- The difference of two heights is right as an `int`. -/
theorem sub_toInt32 {x y : Nat} (hx : x < 2 ^ 30) (hy : y < 2 ^ 30) :
    (UInt32.ofNat x - UInt32.ofNat y).toInt32.toInt = (x : Int) - y := by
  rw [UInt32.toInt32_sub, UInt32.toInt32_ofNat', UInt32.toInt32_ofNat', Int32.toInt_sub,
    Int32.toInt_ofNat_of_lt (by omega), Int32.toInt_ofNat_of_lt (by omega), Int.bmod_def]
  omega

omit [DecidableEq ω] in
/-- The balance is the difference of the heights. -/
theorem balance_eq_iff (h : Linked m.link (.node a l r))
    (hl : l.height < 2 ^ 30) (hr : r.height < 2 ^ 30) (i : Int32) :
    m.balance a = i ↔ (l.height : Int) - r.height = i.toInt := by
  obtain ⟨hleft, hright, -, hlinkedLeft, hlinkedRight⟩ := h
  rw [← Int32.toInt_inj, Map.balance, hleft, hright, hlinkedLeft.height_top,
    hlinkedRight.height_top,
    sub_toInt32 hl hr]

/-- The balance of a node that is heavier by one on this side. -/
def sign : Side → Int32
  | .left => 1
  | .right => -1

section
variable (h : Linked m.link (join s a t u)) (ht : t.height < 2 ^ 30) (hu : u.height < 2 ^ 30)
include h ht hu

omit [DecidableEq ω] in
theorem balance_eq_sign : m.balance a = sign s ↔ t.height = u.height + 1 := by
  cases s with
  | left =>
    rw [balance_eq_iff h ht hu, show (sign .left).toInt = 1 from by decide]
    omega
  | right =>
    rw [balance_eq_iff h hu ht, show (sign .right).toInt = -1 from by decide]
    omega

omit [DecidableEq ω] in
theorem balance_eq_neg_sign : m.balance a = -sign s ↔ t.height + 1 = u.height := by
  cases s with
  | left =>
    rw [balance_eq_iff h ht hu, show (-sign .left).toInt = -1 from by decide]
    omega
  | right =>
    rw [balance_eq_iff h hu ht, show (-sign .right).toInt = 1 from by decide]
    omega

end

/-- What is done when the other side is too high, and the child there is this one. -/
def lightenAt (s : Side) (m : Map ω) (parent : Option ω) (node child : ω) : Option (Map ω) :=
  if m.balance child = sign s then (inmapRotate s.other m (some node) child).bind fun m =>
    inmapRotate s m parent node
  else if m.balance child = -sign s then inmapRotate s m parent node
  else some m

/-- How the code balances. -/
theorem inmapBalanceTree_eq (m : Map ω) (parent : Option ω) (node : ω) :
    inmapBalanceTree m parent node =
    if m.balance node = -2 then (m.link node).right.bind (lightenAt .left m parent node)
    else if m.balance node = 2 then (m.link node).left.bind (lightenAt .right m parent node)
    else some m := rfl

omit [DecidableEq ω] in
/-- The top is in the tree. -/
theorem top_mem (h : top t = some a) : a ∈ inorder t := by
  cases t with
  | nil => cases h
  | node b l r =>
    cases h
    exact mem_append_right _ mem_cons_self

/-- A child is found on its side. -/
theorem place_child (h : Pointed m s a t u) (hu : top u = some b) (hb : b ∉ inorder t) :
    m.place (some a) b = .child s.other a := by
  have hfar := h.far.trans hu
  have hnear := h.near
  cases s with
  | left =>
    rw [Map.place, if_neg]
    · rfl
    · exact fun heq => hb (top_mem (hnear.symm.trans heq))
  | right => exact if_pos hfar

/-- **Two rotations**, the first of them below the second one. -/
theorem inmapRotate_twice (h : Pointed m s a t (join s.other b v (join s.other c x y)))
    (hnodup : (inorder (join s a t (join s.other b v (join s.other c x y)))).Nodup)
    (hlinked : Linked m.link (join s.other b v (join s.other c x y)))
    (hparent : ∀ p, parent = some p →
      p ∉ inorder (join s a t (join s.other b v (join s.other c x y))))
    (ht : t.height < 2 ^ 29) (hv : v.height < 2 ^ 29) (hx : x.height < 2 ^ 29)
    (hy : y.height < 2 ^ 29) :
    ∃ m', (inmapRotate s.other m (some a) b).bind (fun m => inmapRotate s m parent a) = some m' ∧
      Replaces m (m.place parent a) (inorder (join s a t (join s.other b v (join s.other c x y))))
        (rotate s (join s a t (rotate s.other (join s.other b v (join s.other c x y))))) m' := by
  obtain ⟨-, hnodupFar, hat, haFar, hdisjoint⟩ := nodup_join.mp hnodup
  have hplace : m.place (some a) b = .child s.other a :=
    place_child h top_join fun hno => hdisjoint b hno (mem_inorder_join.mpr (.inl rfl))
  obtain ⟨m₁, hfirst, hreplaces⟩ := inmapRotate_spec hlinked.pointed hnodupFar
    (by rw [hplace]; exact haFar) (by omega) (by omega) (by omega)
  rw [hplace] at hreplaces
  rw [rotate_join]
  -- The second rotation finds the tree that the first one has left.
  have hpointed := hreplaces.pointed h haFar (fun z hz hno => hdisjoint z hno hz) hat
  have hinorder : inorder (join s a t (join s.other c (join s.other b v x) y)) =
      inorder (join s a t (join s.other b v (join s.other c x y))) := by
    rw [← rotate_join]
    exact inorder_join_congr s a t (inorder_rotate ..)
  have hframe : m.Frame m₁ (inorder (join s a t (join s.other b v (join s.other c x y)))) :=
    hreplaces.within (mem_inorder_join.mpr (.inl rfl)) fun z hz =>
      mem_inorder_join.mpr (.inr (.inr hz))
  rw [join_other s c (join s.other b v x) y] at hpointed hinorder ⊢
  rw [← hinorder] at hnodup hparent hframe ⊢
  have hsame : m₁.place parent a = m.place parent a := hframe.place_eq hparent
  obtain ⟨m₂, hsecond, hreplaces'⟩ := inmapRotate_spec hpointed hnodup (Map.place_outside hparent)
    (by omega) (by omega) (by rw [height_join]; omega)
  refine ⟨m₂, by rw [hfirst, bind_some, hsecond], ?_⟩
  rw [hsame] at hreplaces'
  rw [rotate_join]
  exact ⟨hframe.put.trans hreplaces'.frame, hreplaces'.linked⟩

/-- **The side that is too high** is made lighter. -/
theorem lightenAt_spec (h : Linked m.link (join s a t (join s b u v)))
    (hnodup : (inorder (join s a t (join s b u v))).Nodup)
    (hparent : ∀ p, parent = some p → p ∉ inorder (join s a t (join s b u v)))
    (hget : m.get (m.place parent a) = some a)
    (ht : t.height < 2 ^ 29) (hu : u.height < 2 ^ 29) (hv : v.height < 2 ^ 29) :
    ∃ m', lightenAt s m parent a b = some m' ∧ Replaces m (m.place parent a)
      (inorder (join s a t (join s b u v))) (lighten s (join s a t (join s b u v))) m' := by
  have hpointed := h.pointed
  have hlinked := hpointed.linkedFar
  rw [lightenAt, lighten_join, sub_join, sub_other_join]
  by_cases hinner : u.height = v.height + 1
  · rw [if_pos ((balance_eq_sign hlinked (by omega) (by omega)).mpr hinner), if_pos hinner]
    -- The child is rotated to the other side, with its own child on this side.
    obtain ⟨c, x, y, rfl⟩ := eq_join s.other (t := u) (by omega)
    rw [height_join] at hu
    rw [← join_other s b] at hnodup hpointed hlinked hparent ⊢
    exact inmapRotate_twice hpointed hnodup hlinked hparent ht hv (by omega) (by omega)
  · rw [if_neg fun hno => hinner ((balance_eq_sign hlinked (by omega) (by omega)).mp hno),
      if_neg hinner]
    by_cases houter : u.height + 1 = v.height
    · rw [if_pos ((balance_eq_neg_sign hlinked (by omega) (by omega)).mpr houter),
        if_pos houter, rotate_join]
      exact inmapRotate_spec hpointed hnodup (Map.place_outside hparent) (by omega)
        (by omega) (by omega)
    · rw [if_neg fun hno => houter ((balance_eq_neg_sign hlinked (by omega) (by omega)).mp hno),
        if_neg houter]
      exact ⟨m, rfl, .of_frame (.refl ..) h (hget.trans top_join.symm)⟩

/-- **Balancing a tree** in memory. -/
theorem inmapBalanceTree_spec (h : Linked m.link (.node a l r))
    (hnodup : (inorder (.node a l r)).Nodup)
    (hparent : ∀ p, parent = some p → p ∉ inorder (.node a l r))
    (hget : m.get (m.place parent a) = some a) (hl : l.height < 2 ^ 29) (hr : r.height < 2 ^ 29) :
    ∃ m', inmapBalanceTree m parent a = some m' ∧
      Replaces m (m.place parent a) (inorder (.node a l r)) (balance (.node a l r)) m' := by
  have hbalance := balance_eq_iff h (by omega) (by omega)
  have htwo : m.balance a = 2 ↔ l.height = r.height + 2 := by
    rw [hbalance, show (2 : Int32).toInt = 2 from by decide]
    omega
  have hminus : m.balance a = -2 ↔ l.height + 2 = r.height := by
    rw [hbalance, show (-2 : Int32).toInt = -2 from by decide]
    omega
  rw [inmapBalanceTree_eq, balance]
  by_cases hright : l.height + 2 = r.height
  · rw [if_pos (hminus.mpr hright), if_pos hright]
    obtain ⟨b, u, v, rfl⟩ := eq_join .left (t := r) (by omega)
    rw [h.2.1, top_join, bind_some]
    rw [height_join] at hr
    exact lightenAt_spec (s := .left) h hnodup hparent hget hl (by omega) (by omega)
  · rw [if_neg fun hno => hright (hminus.mp hno), if_neg hright]
    by_cases hleft : l.height = r.height + 2
    · rw [if_pos (htwo.mpr hleft), if_pos hleft]
      obtain ⟨b, u, v, rfl⟩ := eq_join .right (t := l) (by omega)
      rw [h.1, top_join, bind_some]
      rw [height_join] at hl
      exact lightenAt_spec (s := .right) h hnodup hparent hget hr (by omega) (by omega)
    · rw [if_neg fun hno => hleft (htwo.mp hno), if_neg hleft]
      exact ⟨m, rfl, .of_frame (.refl ..) h hget⟩

/-! ## Insertion in memory -/

/-- A key as a number. -/
def keyOf (key : ω → UInt32) (a : ω) : Nat := (key a).toNat

omit [DecidableEq ω] in
theorem side_eq (h : sideOf (keyOf key) object node = s) :
    (if key object < key node then Side.left else .right) = s :=
  h ▸ if_congr UInt32.lt_iff_toNat_lt rfl rfl

section
variable {fuel : Nat} (hne : key node ≠ key object) (hs : sideOf (keyOf key) object node = s)
include hne hs

/-- Insertion below a node that has no child on the side of the key. -/
theorem insertAt_leaf (hchild : (m.link node).child s = none) :
    insertAt key (fuel + 1) m parent node object =
    (inmapBalanceTree (((initializeLink m object).setChild s node (some object)).setHeight node
      (max32 (((initializeLink m object).setChild s node (some object)).link node).height 2))
        parent node).map
      fun m => (m, ⟨true, object⟩) := by
  rw [insertAt, if_neg hne]
  show (Option.bind
    (match (m.link node).child (if key object < key node then Side.left else .right) with
    | none => _ | some child => _) _) = _
  rw [side_eq hs, hchild]
  rfl

/-- Insertion below a node that has a child there. -/
theorem insertAt_child {child : ω} (hchild : (m.link node).child s = some child) :
    insertAt key (fuel + 1) m parent node object =
      (insertAt key fuel m (some node) child object).bind fun r =>
      (inmapBalanceTree (r.1.updateHeight node) parent node).map fun m => (m, r.2) := by
  rw [insertAt, if_neg hne]
  show (Option.bind
    (match (m.link node).child (if key object < key node then Side.left else .right) with
    | none => _ | some child => _) _) = _
  rw [side_eq hs, hchild]
  exact bind_map ..

end

/-- The node is balanced after an insertion below it. -/
theorem inmapBalanceTree_inserted (hordered : Ordered (keyOf key) (join s a u v))
    (hsearch : Avl.search (keyOf key) (keyOf key object) (join s a u v) = none)
    (hinsert : Avl.insert (keyOf key) object (join s a u v) = balance (join s a u' v))
    (hlinked : Linked m'.link (join s a u' v))
    (hframe : m.Frame m' (object :: inorder (join s a u v)))
    (hparent : ∀ p, parent = some p → p ∉ object :: inorder (join s a u v))
    (hget : m.get (m.place parent a) = some a) (hu : u'.height < 2 ^ 29) (hv : v.height < 2 ^ 29) :
    ∃ m'', inmapBalanceTree m' parent a = some m'' ∧ Replaces m (m.place parent a)
      (object :: inorder (join s a u v)) (Avl.insert (keyOf key) object (join s a u v)) m'' := by
  have hinorder :
      inorder (join s a u' v) = inorder (Avl.insert (keyOf key) object (join s a u v)) := by
    rw [hinsert, inorder_balance]
  have hmem : ∀ b ∈ inorder (join s a u' v), b ∈ object :: inorder (join s a u v) := by
    intro b hb
    rw [hinorder, mem_inorder_insert hordered hsearch] at hb
    exact mem_cons.mpr hb
  have hnodup : (inorder (join s a u' v)).Nodup := hinorder ▸ (hordered.insert hsearch).nodup
  have hsame : m'.place parent a = m.place parent a := hframe.place_eq hparent
  have hget' : m'.get (m'.place parent a) = some a := by
    rw [hsame, hframe.get (Map.place_outside hparent), hget]
  obtain ⟨m'', hbalance, hreplaces⟩ : ∃ m'', inmapBalanceTree m' parent a = some m'' ∧
      Replaces m' (m'.place parent a) (inorder (join s a u' v)) (balance (join s a u' v)) m'' := by
    have hparent' : ∀ p, parent = some p → p ∉ inorder (join s a u' v) :=
      fun p hp hno => hparent p hp (hmem p hno)
    cases s with
    | left => exact inmapBalanceTree_spec hlinked hnodup hparent' hget' hu hv
    | right => exact inmapBalanceTree_spec hlinked hnodup hparent' hget' hv hu
  refine ⟨m'', hbalance, ?_⟩
  rw [hsame] at hreplaces
  rw [hinsert]
  exact ⟨hframe.put.trans (hreplaces.frame.mono hmem), hreplaces.linked⟩

/-- The links after an object has been put in where there was nothing. -/
theorem initializeLink_pointed (hlinked : Linked m.link (join s a .nil v)) (hoa : object ≠ a)
    (hav : a ∉ inorder v) (hov : object ∉ inorder v) :
    Pointed ((initializeLink m object).setChild s a (some object)) s a
      (.node object .nil .nil) v := by
  obtain ⟨-, hfar, -, -, hlinkedFar⟩ := linked_join.mp hlinked
  have hlinkA : ((initializeLink m object).setChild s a (some object)).link a = (m.link a).setChild
      (some object) s := by
    rw [Map.setChild_link, initializeLink, Map.setLink_link, update_of_ne hoa.symm]
  have hlinkObject : ((initializeLink m object).setChild s a (some object)).link object =
      ⟨none, none, 1⟩ := by
    rw [Map.setChild_link_of_ne hoa, initializeLink, Map.setLink_link, update_self]
  refine ⟨by rw [hlinkA, Link.child_setChild]; rfl, by rw [hlinkA, Link.other_setChild, hfar], ?_,
    hlinkedFar.congr fun b hb => ?_⟩
  · exact ⟨by rw [hlinkObject]; rfl, by rw [hlinkObject]; rfl, by rw [hlinkObject]; rfl, trivial,
      trivial⟩
  · rw [Map.setChild_link_of_ne fun heq : b = a => hav (heq ▸ hb), initializeLink, Map.setLink_link,
      update_of_ne fun heq : b = object => hov (heq ▸ hb)]

/-- **A new object** is put in below a node. -/
theorem insertAt_below {fuel : Nat} (hlinked : Linked m.link (join s a u v))
    (hs : sideOf (keyOf key) object a = s)
    (hordered : Ordered (keyOf key) (join s a u v)) (hbalanced : Balanced (join s a u v))
    (hsearch : Avl.search (keyOf key) (keyOf key object) (join s a u v) = none)
    (hparent : ∀ p, parent = some p → p ∉ object :: inorder (join s a u v))
    (hget : m.get (m.place parent a) = some a) (hlow : (join s a u v).height < 2 ^ 28)
    (ih : ∀ child, top u = some child → Linked m.link u →
      (∀ p, some a = some p → p ∉ object :: inorder u) →
      m.get (m.place (some a) child) = some child →
        Avl.search (keyOf key) (keyOf key object) u = none →
      ∃ m', insertAt key fuel m (some a) child object = some (m', ⟨true, object⟩) ∧
        Replaces m (m.place (some a) child) (object :: inorder u)
          (Avl.insert (keyOf key) object u) m') :
    ∃ m', insertAt key (fuel + 1) m parent a object = some (m', ⟨true, object⟩) ∧
      Replaces m (m.place parent a)
      (object :: inorder (join s a u v)) (Avl.insert (keyOf key) object (join s a u v)) m' := by
  have hnot := (search_eq_none_iff hordered).mp hsearch
  have hkey : keyOf key object ≠ keyOf key a := (hnot a (mem_inorder_join.mpr (.inl rfl))).symm
  have hne : key a ≠ key object := fun heq => hkey (congrArg UInt32.toNat heq.symm)
  have hobject : object ∉ inorder (join s a u v) := fun hno => hnot object hno rfl
  have hoa : object ≠ a := fun heq => hobject (mem_inorder_join.mpr (.inl heq))
  obtain ⟨-, -, hau, hav, hdisjoint⟩ := nodup_join.mp hordered.nodup
  obtain ⟨hheight, hheight', hbalancedU, -⟩ := balanced_join.mp hbalanced
  obtain ⟨hnear, -, hstored, hlinkedU, -⟩ := linked_join.mp hlinked
  have hsearchU := (search_join hkey hs).symm.trans hsearch
  have hinsert := insert_join (t := u) (u := v) hkey hs
  have hgrown : Grown u (Avl.insert (keyOf key) object u) := hbalancedU.insert
  rw [height_join] at hlow
  have hheightU : (Avl.insert (keyOf key) object u).height < 2 ^ 29 := by
    have := hgrown.higher
    omega
  have ha : a ∈ object :: inorder (join s a u v) :=
    mem_cons_of_mem _ (mem_inorder_join.mpr (.inl rfl))
  -- In both cases the height of the node is computed from its new child.
  obtain ⟨m₂, hpointed, hframe, hresult⟩ :
      ∃ m₂, Pointed m₂ s a (Avl.insert (keyOf key) object u) v ∧
      m.Frame m₂ (object :: inorder (join s a u v)) ∧ insertAt key (fuel + 1) m parent a object =
        (inmapBalanceTree (m₂.updateHeight a) parent a).map fun m => (m, ⟨true, object⟩) := by
    cases htop : top u with
    | none =>
      obtain rfl : u = .nil := by
        cases u with
        | nil => rfl
        | node => cases htop
      have hpointed := initializeLink_pointed hlinked hoa hav fun hno =>
        hobject (mem_inorder_join.mpr (.inr (.inr hno)))
      refine ⟨_, hpointed, ((Map.Frame.refl m _).setLink mem_cons_self).setLink ha, ?_⟩
      rw [insertAt_leaf hne hs (hnear.trans htop),
        hpointed.updateHeight (by rw [BinaryTree.height, BinaryTree.height]; decide) (by omega),
        Map.setChild_link,
        Link.height_setChild, initializeLink, Map.setLink_link, update_of_ne hoa.symm, hstored,
        show (2 : UInt32) = .ofNat 2 from rfl, max32_ofNat (by omega) (by decide)]
      have hmax : max (max (BinaryTree.nil : BinaryTree ω).height v.height + 1) 2 =
          max (BinaryTree.node object .nil .nil).height v.height + 1 := by
        simp only [BinaryTree.height] at hheight' ⊢
        omega
      rw [hmax]
    | some child =>
      have hnot : a ∉ object :: inorder u := fun hno => by
        rcases mem_cons.mp hno with heq | hno
        · exact hoa heq.symm
        · exact hau hno
      have hplace : m.place (some a) child = .child s a := by
        rw [place_child hlinked.pointed.swap htop fun hno => hdisjoint child (top_mem htop) hno,
          Side.other_other]
      obtain ⟨m₁, hinserted, hreplaces⟩ :=
        ih child htop hlinkedU (fun p hp => Option.some.inj hp ▸ hnot)
        (by rw [hplace]; exact hnear.trans htop) hsearchU
      rw [hplace] at hreplaces
      have hmem : ∀ b ∈ object :: inorder u, b ∈ object :: inorder (join s a u v) := by
        intro b hb
        rw [mem_cons, mem_inorder_join]
        rcases mem_cons.mp hb with heq | hb
        · exact .inl heq
        · exact .inr (.inr (.inl hb))
      refine ⟨m₁, hreplaces.pointed_near hlinked.pointed hnot (fun b hb hno => ?_) hav,
        hreplaces.within ha hmem, ?_⟩
      · rcases mem_cons.mp hb with rfl | hb
        · exact hobject (mem_inorder_join.mpr (.inr (.inr hno)))
        · exact hdisjoint b hb hno
      · rw [insertAt_child hne hs (hnear.trans htop), hinserted]
        rfl
  have hnode : a ∉ inorder (Avl.insert (keyOf key) object u) := by
    rw [mem_inorder_insert (ordered_join hordered).1 hsearchU]
    rintro (heq | hno)
    · exact hoa heq.symm
    · exact hau hno
  obtain ⟨m', hbalance, hreplaces⟩ := inmapBalanceTree_inserted hordered hsearch hinsert
    (hpointed.linked (by omega) (by omega) hnode hav) (hframe.setLink ha) hparent hget
    hheightU (by omega)
  exact ⟨m', by rw [hresult]; exact congrArg (Option.map _) hbalance, hreplaces⟩

/-- **A new object** is put into the tree. -/
theorem insertAt_new {fuel : Nat} (hlinked : Linked m.link t) (htop : top t = some node)
    (hordered : Ordered (keyOf key) t) (hbalanced : Balanced t)
    (hsearch : Avl.search (keyOf key) (keyOf key object) t = none)
    (hparent : ∀ p, parent = some p → p ∉ object :: inorder t)
    (hget : m.get (m.place parent node) = some node) (hlow : t.height < 2 ^ 28)
    (hfuel : t.height ≤ fuel) :
    ∃ m', insertAt key fuel m parent node object = some (m', ⟨true, object⟩) ∧
      Replaces m (m.place parent node) (object :: inorder t)
        (Avl.insert (keyOf key) object t) m' := by
  induction t generalizing parent node fuel with
  | nil => cases htop
  | node a l r hl hr =>
    cases htop
    cases fuel with
    | zero => cases hfuel
    | succ fuel =>
      rw [BinaryTree.height] at hfuel
      have hlow' := hlow
      rw [BinaryTree.height] at hlow'
      obtain ⟨horderedLeft, horderedRight, -⟩ := ordered_node.mp hordered
      obtain ⟨-, -, hbalancedLeft, hbalancedRight⟩ := id hbalanced
      cases hside : sideOf (keyOf key) object a with
      | left =>
        exact insertAt_below (s := .left) hlinked hside hordered hbalanced hsearch hparent hget hlow
          fun child htop hlinked hparent hget hsearch =>
            hl hlinked htop horderedLeft hbalancedLeft hsearch hparent hget (by omega) (by omega)
      | right =>
        exact insertAt_below (s := .right) (u := r) (v := l) hlinked hside hordered hbalanced
          hsearch hparent hget hlow
          fun child htop hlinked hparent hget hsearch =>
            hr hlinked htop horderedRight hbalancedRight hsearch hparent hget (by omega) (by omega)

/-! ## Objects that are there -/

/-- Computing the height of a node anew changes nothing. -/
theorem updateHeight_linked (h : Linked m.link (join s a t u)) (ht : t.height < 2 ^ 31)
    (hu : u.height < 2 ^ 31) :
    m.updateHeight a = m := by
  rw [h.pointed.updateHeight ht hu, ← (linked_join.mp h).2.2.1, Map.setHeight, Map.setLink]
  exact congrArg (Map.mk m.size m.root) (update_eq_self ..)

/-- Nothing is done in a balanced tree. -/
theorem inmapBalanceTree_balanced (h : Linked m.link (join s a t u))
    (hbalanced : Balanced (join s a t u))
    (ht : t.height < 2 ^ 29) (hu : u.height < 2 ^ 29) : inmapBalanceTree m parent a = some m := by
  obtain ⟨hheight, hheight', -, -⟩ := balanced_join.mp hbalanced
  have hbalance : ∀ i, m.balance a = i → i.toInt ≤ 1 ∧ -1 ≤ i.toInt := by
    intro i hi
    cases s with
    | left | right =>
      have := (balance_eq_iff h (by omega) (by omega) i).mp hi
      omega
  rw [inmapBalanceTree, if_neg fun hno => absurd (hbalance _ hno) (by decide),
    if_neg fun hno => absurd (hbalance _ hno) (by decide)]

/-- **An object whose key is there** changes nothing. -/
theorem insertAt_duplicate {fuel : Nat} (hlinked : Linked m.link t) (htop : top t = some node)
    (hbalanced : Balanced t)
    {y : ω} (hsearch : Avl.search (keyOf key) (keyOf key object) t = some y)
    (hlow : t.height < 2 ^ 28)
    (hfuel : t.height ≤ fuel) : insertAt key fuel m parent node object = some (m, ⟨false, y⟩) := by
  induction t generalizing parent node fuel with
  | nil => cases htop
  | node a l r hl hr =>
    cases htop
    cases fuel with
    | zero => cases hfuel
    | succ fuel =>
      rw [BinaryTree.height] at hfuel hlow
      obtain ⟨-, -, hbalancedLeft, hbalancedRight⟩ := id hbalanced
      by_cases hkey : keyOf key object = keyOf key a
      · rw [Avl.search, if_pos hkey] at hsearch
        cases hsearch
        rw [insertAt, if_pos (UInt32.toNat_inj.mp hkey).symm]
      · have hne : key a ≠ key object := fun heq => hkey (congrArg UInt32.toNat heq.symm)
        -- What is found is below a child, in which nothing is changed.
        have hbelow : ∀ s u v, BinaryTree.node a l r = join s a u v →
            sideOf (keyOf key) object a = s →
            (∀ child, top u = some child → Linked m.link u →
              Avl.search (keyOf key) (keyOf key object) u = some y →
              insertAt key fuel m (some a) child object = some (m, ⟨false, y⟩)) →
            insertAt key (fuel + 1) m parent a object = some (m, ⟨false, y⟩) := by
          intro s u v heq hs ih
          have hheights : (join s a u v).height < 2 ^ 28 := heq ▸ hlow
          rw [height_join] at hheights
          rw [heq] at hlinked hbalanced hsearch
          rw [search_join hkey hs] at hsearch
          obtain ⟨hnear, -, -, hlinkedU, -⟩ := linked_join.mp hlinked
          cases htop : top u with
          | none =>
            cases u with
            | nil => cases hsearch
            | node => cases htop
          | some child =>
            rw [insertAt_child hne hs (hnear.trans htop), ih child htop hlinkedU hsearch, bind_some,
              updateHeight_linked hlinked (by omega) (by omega),
              inmapBalanceTree_balanced hlinked hbalanced (by omega) (by omega), map_some]
        cases hside : sideOf (keyOf key) object a with
        | left =>
          exact hbelow .left l r rfl hside fun child htop hlinked hsearch =>
            hl hlinked htop hbalancedLeft hsearch (by omega) (by omega)
        | right =>
          exact hbelow .right r l rfl hside fun child htop hlinked hsearch =>
            hr hlinked htop hbalancedRight hsearch (by omega) (by omega)

/-! ## Searching and visiting in memory -/

omit [DecidableEq ω] in
/-- **The loop of the search** finds what the tree has. -/
theorem searchFrom_spec {fuel : Nat} {k : UInt32} (hlinked : Linked m.link t)
    (hfuel : t.height ≤ fuel) :
    searchFrom key m k fuel (top t) = some (Avl.search (keyOf key) k.toNat t) := by
  induction t generalizing fuel with
  | nil => cases fuel <;> rfl
  | node a l r hl hr =>
    obtain ⟨hleft, hright, -, hlinkedLeft, hlinkedRight⟩ := hlinked
    rw [BinaryTree.height] at hfuel
    cases fuel with
    | zero => cases hfuel
    | succ fuel =>
      rw [top, searchFrom, Avl.search, hleft, hright, hl hlinkedLeft (by omega),
        hr hlinkedRight (by omega)]
      have hkey : k.toNat = keyOf key a ↔ k = key a := UInt32.toNat_inj
      have hless : k.toNat < keyOf key a ↔ k < key a := UInt32.lt_iff_toNat_lt.symm
      by_cases heq : k = key a
      · rw [if_pos heq, if_pos (hkey.mpr heq)]
      · rw [if_neg heq, if_neg fun hno => heq (hkey.mp hno)]
        by_cases hlt : k < key a
        · rw [if_pos hlt, if_pos (hless.mpr hlt)]
        · rw [if_neg hlt, if_neg fun hno => hlt (hless.mp hno)]

omit [DecidableEq ω] in
/-- **The visits** are from the left to the right. -/
theorem visitFrom_spec {fuel : Nat} {visit : σ → ω → σ} {context : σ} (hlinked : Linked m.link t)
    (hfuel : t.height ≤ fuel) :
      (top t).elim (some context) (fun node => visitFrom visit m fuel node context) =
      some ((inorder t).foldl visit context) := by
  induction t generalizing fuel context with
  | nil => rfl
  | node a l r hl hr =>
    obtain ⟨hleft, hright, -, hlinkedLeft, hlinkedRight⟩ := hlinked
    rw [BinaryTree.height] at hfuel
    cases fuel with
    | zero => cases hfuel
    | succ fuel =>
      rw [top, elim_some, visitFrom, hleft, hright, inorder_node, foldl_append, foldl_cons]
      show (((top l).elim (some context) fun left => visitFrom visit m fuel left context).bind
        fun context =>
        (top r).elim (some (visit context a)) fun right =>
          visitFrom visit m fuel right (visit context a)) = _
      rw [hl hlinkedLeft (by omega), bind_some, hr hlinkedRight (by omega)]

end

end

end RpmClient.Inmap
