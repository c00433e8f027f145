import Mathlib.Algebra.GroupWithZero.Nat
import Mathlib.Data.Tree.Basic
import Mathlib.Order.Lattice

/-!
# Balanced search trees

Insertion into binary search trees that are kept balanced by rotations, each right after an
insertion below it has made one side too high. `Balanced.insert` also says which trees an insertion
can give, since the rotations only repair trees in which the two sides below are of different
height.
-/

namespace Lib.Avl

open BinaryTree List

section
variable {α : Type _} {a b x : α} {l r t t' : BinaryTree α}

/-! ## Order -/

/-- What is in a tree, from the left to the right. -/
def inorder : BinaryTree α → List α
  | .nil => []
  | .node a l r => inorder l ++ a :: inorder r

@[simp] theorem inorder_node : inorder (.node a l r) = inorder l ++ a :: inorder r := rfl

/-- A tree has as many elements as nodes. -/
theorem length_inorder (t : BinaryTree α) : (inorder t).length = t.numNodes := by
  induction t with
  | nil => rfl
  | node a l r hl hr =>
    rw [inorder_node, length_append, length_cons, hl, hr, numNodes]
    omega

/-! ## Sides -/

inductive Side
  | left | right
  deriving DecidableEq

def Side.other : Side → Side
  | .left => .right
  | .right => .left

/-- What is below a tree on one side. -/
def sub : Side → BinaryTree α → BinaryTree α
  | .left => left
  | .right => right

/-- A tree with the given one on one side, and another one on the other side. -/
def join : Side → α → BinaryTree α → BinaryTree α → BinaryTree α
  | .left, a, t, u => .node a t u
  | .right, a, t, u => .node a u t

section
variable (s : Side) (a : α) (t u : BinaryTree α)

@[simp] theorem Side.other_other : s.other.other = s := by cases s <;> rfl
@[simp] theorem sub_join : sub s (join s a t u) = t := by cases s <;> rfl
@[simp] theorem sub_other_join : sub s.other (join s a t u) = u := by cases s <;> rfl
@[simp] theorem height_join : (join s a t u).height = max t.height u.height + 1 := by
  cases s
  · rfl
  · exact congrArg (· + 1) (Nat.max_comm ..)

theorem join_other : join s.other a t u = join s a u t := by cases s <;> rfl

/-- Every node is a join, whichever side comes first. -/
theorem node_eq_join (l r : BinaryTree α) :
    .node a l r = join s a (sub s (.node a l r)) (sub s.other (.node a l r)) := by cases s <;> rfl

end

/-- The elements of a join. -/
theorem mem_inorder_join {s : Side} {u : BinaryTree α} :
    x ∈ inorder (join s a t u) ↔ x = a ∨ x ∈ inorder t ∨ x ∈ inorder u := by
  cases s
  · rw [join, inorder_node, mem_append, mem_cons, or_left_comm]
  · rw [join, inorder_node, mem_append, mem_cons, or_left_comm, or_comm (a := x ∈ inorder u)]

theorem nodup_join {s : Side} {u : BinaryTree α} : (inorder (join s a t u)).Nodup ↔
    (inorder t).Nodup ∧ (inorder u).Nodup ∧ a ∉ inorder t ∧ a ∉ inorder u ∧
    ∀ x ∈ inorder t, x ∉ inorder u := by
  cases s
  · rw [join, inorder_node, nodup_append, nodup_cons]
    grind
  · rw [join, inorder_node, nodup_append, nodup_cons]
    grind

/-- A tree in which something is has a root, and what is on one side and on the other. -/
theorem eq_join (s : Side) (h : t.height ≠ 0) : ∃ a l r, t = join s a l r := by
  cases t with
  | nil => exact absurd rfl h
  | node a l r => exact ⟨a, _, _, node_eq_join s a l r⟩

/-! ## Rotations -/

/-- The root goes down on this side, and its child on the other side becomes the root. -/
def rotate (s : Side) (t : BinaryTree α) : BinaryTree α :=
  match t, sub s.other t with
  | .node a _ _, .node b l r => join s b (join s a (sub s t) (sub s (.node b l r)))
    (sub s.other (.node b l r))
  | _, _ => t

/-- What a rotation does to a join. -/
theorem rotate_join (s : Side) (a b : α) (t u v : BinaryTree α) :
    rotate s (join s a t (join s b u v)) = join s b (join s a t u) v := by cases s <;> rfl

/-- A rotation keeps the order of the elements. -/
theorem inorder_rotate (s : Side) (a : α) (t u : BinaryTree α) :
    inorder (rotate s (join s a t u)) = inorder (join s a t u) := by
  cases u with
  | nil => cases s <;> rfl
  | node b l r =>
    rw [node_eq_join s b l r, rotate_join]
    cases s
    · simp [join]
    · simp [join]

/-- The rotations at a root the other side of which is too high. -/
def lighten (s : Side) : BinaryTree α → BinaryTree α
  | .nil => .nil
  | .node a l r =>
    let t := .node a l r
    let u := sub s.other t
    if (sub s u).height = (sub s.other u).height + 1 then rotate s
      (join s a (sub s t) (rotate s.other u))
    else if (sub s u).height + 1 = (sub s.other u).height then rotate s t
    else t

/-- How the higher side is made lower. -/
theorem lighten_join (s : Side) (a : α) (t u : BinaryTree α) : lighten s (join s a t u) =
    if (sub s u).height = (sub s.other u).height + 1 then rotate s (join s a t (rotate s.other u))
    else if (sub s u).height + 1 = (sub s.other u).height then rotate s (join s a t u)
    else join s a t u := by cases s <;> rfl

theorem inorder_join_congr (s : Side) (a : α) (t : BinaryTree α) {u v : BinaryTree α}
    (h : inorder u = inorder v) : inorder (join s a t u) = inorder (join s a t v) := by
  cases s
  · exact congrArg (inorder t ++ a :: ·) h
  · exact congrArg (· ++ a :: inorder t) h

/-- Making a side lower keeps the order. -/
theorem inorder_lighten (s : Side) (a : α) (t u : BinaryTree α) :
    inorder (lighten s (join s a t u)) = inorder (join s a t u) := by
  rw [lighten_join]
  split
  · next hhigh =>
    obtain ⟨b, x, y, rfl⟩ := eq_join s.other (t := u) fun hnone => by
      cases u with
      | nil => cases s <;> cases hhigh
      | node => cases hnone
    rw [inorder_rotate, inorder_join_congr s a t (inorder_rotate s.other b x y)]
  · split
    · exact inorder_rotate s a t u
    · rfl

/-- A tree one side of which may be too high is put right. -/
def balance : BinaryTree α → BinaryTree α
  | .nil => .nil
  | .node a l r =>
    if l.height + 2 = r.height then lighten .left (.node a l r)
    else if l.height = r.height + 2 then lighten .right (.node a l r)
    else .node a l r

/-- A side that is two higher is made lower. -/
theorem balance_high (s : Side) (a : α) {t u : BinaryTree α} (h : t.height + 2 = u.height) :
    balance (join s a t u) = lighten s (join s a t u) := by
  cases s
  · exact if_pos h
  · rw [join, balance, if_neg (by omega), if_pos h.symm]

/-- Sides that are about level stay. -/
theorem balance_level (s : Side) (a : α) {t u : BinaryTree α} (h : t.height + 2 ≠ u.height)
    (h' : u.height + 2 ≠ t.height) : balance (join s a t u) = join s a t u := by
  cases s
  · rw [join, balance, if_neg h, if_neg h'.symm]
  · rw [join, balance, if_neg h', if_neg h.symm]

/-- Balancing keeps the order of the elements. -/
@[simp] theorem inorder_balance : inorder (balance t) = inorder t := by
  cases t with
  | nil => rfl
  | node a l r =>
    rw [balance]
    split
    · exact inorder_lighten .left a l r
    · split
      · exact inorder_lighten .right a r l
      · rfl

/-! ## Height -/

/-- Everywhere in the tree the heights of the two sides differ by one at most. -/
def Balanced : BinaryTree α → Prop
  | .nil => True
  | .node _ l r => l.height ≤ r.height + 1 ∧ r.height ≤ l.height + 1 ∧ Balanced l ∧ Balanced r

/-- When a join is balanced. -/
theorem balanced_join {s : Side} {u : BinaryTree α} : Balanced (join s a t u) ↔
    t.height ≤ u.height + 1 ∧ u.height ≤ t.height + 1 ∧ Balanced t ∧ Balanced u := by
  cases s
  · exact Iff.rfl
  · constructor
    · rintro ⟨hleft, hright, hl, hr⟩
      exact ⟨hright, hleft, hr, hl⟩
    · rintro ⟨hleft, hright, hl, hr⟩
      exact ⟨hright, hleft, hr, hl⟩

/-- A balanced tree is not high. -/
theorem Balanced.height_le (h : Balanced t) : 2 ^ (t.height / 2) ≤ t.numNodes + 1 := by
  induction t with
  | nil => simp
  | node a l r hl hr =>
    obtain ⟨hleft, hright, hbalancedLeft, hbalancedRight⟩ := h
    have hl := hl hbalancedLeft
    have hr := hr hbalancedRight
    rw [height, numNodes]
    by_cases hflat : l.height = 0 ∧ r.height = 0
    · rw [hflat.1, hflat.2]
      exact Nat.succ_le_succ (Nat.zero_le _)
    · -- Both sides are less high than the tree by two at most.
      have hone : (max l.height r.height + 1) / 2 = (max l.height r.height - 1) / 2 + 1 := by omega
      have hlow : 2 ^ ((max l.height r.height - 1) / 2) ≤ 2 ^ (l.height / 2) :=
        Nat.pow_le_pow_right (by decide) (by omega)
      have hhigh : 2 ^ ((max l.height r.height - 1) / 2) ≤ 2 ^ (r.height / 2) :=
        Nat.pow_le_pow_right (by decide) (by omega)
      rw [hone, Nat.pow_succ]
      omega

/-- A tree that is balanced, and is no higher than before or higher by one. In this case one side
is higher than the other, unless nothing was there before. -/
structure Grown (t t' : BinaryTree α) : Prop where
  balanced : Balanced t'
  higher : t'.height = t.height ∨ t'.height = t.height + 1 ∧
    (t = .nil ∨ t'.left.height ≠ t'.right.height)

theorem Balanced.grown (h : Balanced t) : Grown t t := ⟨h, .inl rfl⟩

theorem level_join {s : Side} {u : BinaryTree α} :
    (join s a t u).left.height ≠ (join s a t u).right.height ↔ t.height ≠ u.height := by
  cases s
  · exact Iff.rfl
  · exact ne_comm

/-- **A side that has grown** is brought back by the rotations. -/
theorem Grown.join {s : Side} {u u' : BinaryTree α} (ht : Balanced t)
    (hheights : t.height ≤ u.height + 1 ∧ u.height ≤ t.height + 1) (h : Grown u u') :
    Grown (join s a t u) (balance (join s a t u')) := by
  obtain ⟨hbalanced, hhigher⟩ := h
  by_cases hhigh : t.height + 2 = u'.height
  · -- The side is one higher than before, and not level itself.
    obtain ⟨hgrown, rfl | hlevel⟩ := hhigher.resolve_left (by omega)
    · rw [height] at hgrown
      omega
    obtain ⟨b, x, y, rfl⟩ := eq_join s (t := u') (by omega)
    rw [balance_high s a hhigh, lighten_join, sub_join, sub_other_join]
    obtain ⟨hx, hy, hbalancedX, hbalancedY⟩ := balanced_join.mp hbalanced
    have hlevel := level_join.mp hlevel
    rw [height_join] at hhigh hgrown
    by_cases hinner : x.height = y.height + 1
    · obtain ⟨c, v, w, rfl⟩ := eq_join s (t := x) (by omega)
      obtain ⟨hv, hw, hbalancedV, hbalancedW⟩ := balanced_join.mp hbalancedX
      rw [height_join] at hx hy hhigh hgrown hinner
      rw [if_pos (by rw [height_join]; exact hinner), ← join_other s b,
        ← join_other s c, rotate_join,
        join_other s c, join_other s b, rotate_join]
      refine ⟨?_, .inl ?_⟩
      · rw [balanced_join, balanced_join, balanced_join, height_join, height_join]
        exact ⟨by omega, by omega, ⟨by omega, by omega, ht, hbalancedV⟩, by omega, by omega,
          hbalancedW, hbalancedY⟩
      · rw [height_join, height_join, height_join, height_join]
        omega
    · rw [if_neg hinner, if_pos (by omega), rotate_join]
      refine ⟨?_, .inl ?_⟩
      · rw [balanced_join, balanced_join, height_join]
        exact ⟨by omega, by omega, ⟨by omega, by omega, ht, hbalancedX⟩, hbalancedY⟩
      · rw [height_join, height_join, height_join]
        omega
  · rw [balance_level s a hhigh (by omega)]
    refine ⟨balanced_join.mpr ⟨by omega, by omega, ht, hbalanced⟩, ?_⟩
    rw [height_join, height_join, level_join]
    omega

end

/-! ## Searching and inserting -/

section
variable {α κ : Type _} [LinearOrder κ] {key : α → κ} {k : κ} {a x : α} {l r t : BinaryTree α}

/-- The keys go up from the left to the right. -/
def Ordered (key : α → κ) (t : BinaryTree α) : Prop := (inorder t).Pairwise fun a b => key a < key b

/-- When a node is ordered. -/
theorem ordered_node : Ordered key (.node a l r) ↔ Ordered key l ∧ Ordered key r ∧
    (∀ b ∈ inorder l, key b < key a) ∧ ∀ b ∈ inorder r, key a < key b := by
  rw [Ordered, inorder_node, pairwise_append, pairwise_cons]
  constructor
  · rintro ⟨hl, ⟨hright, hr⟩, hleft⟩
    exact ⟨hl, hr, fun b hb => hleft b hb a mem_cons_self, hright⟩
  · rintro ⟨hl, hr, hleft, hright⟩
    refine ⟨hl, ⟨hright, hr⟩, fun b hb c hc => ?_⟩
    rcases mem_cons.mp hc with rfl | hc
    · exact hleft b hb
    · exact lt_trans (hleft b hb) (hright c hc)

/-- What a tree has under a key. -/
def search (key : α → κ) (k : κ) : BinaryTree α → Option α
  | .nil => none
  | .node a l r =>
    if k = key a then some a else if k < key a then search key k l else search key k r

/-- **The search finds what is there.** -/
theorem search_eq_some_iff (h : Ordered key t) : search key k t = some x ↔
    x ∈ inorder t ∧ key x = k := by
  induction t with
  | nil =>
    constructor
    · rintro ⟨⟩
    · rintro ⟨⟨⟩, -⟩
  | node a l r hl hr =>
    obtain ⟨horderedLeft, horderedRight, hleft, hright⟩ := ordered_node.mp h
    rw [search, inorder_node, mem_append, mem_cons]
    split
    · next heq =>
      constructor
      · rintro ⟨⟩
        exact ⟨.inr (.inl rfl), heq.symm⟩
      · rintro ⟨hx | rfl | hx, hkey⟩
        · exact absurd (hkey.trans heq) (ne_of_lt (hleft x hx))
        · rfl
        · exact absurd (hkey.trans heq) (ne_of_gt (hright x hx))
    · next hne =>
      split
      · next hlt =>
        rw [hl horderedLeft]
        refine ⟨fun hx => ⟨.inl hx.1, hx.2⟩, ?_⟩
        rintro ⟨hx | rfl | hx, hkey⟩
        · exact ⟨hx, hkey⟩
        · exact absurd hkey.symm hne
        · exact absurd (hkey ▸ hlt) (not_lt_of_gt (hright x hx))
      · next hnlt =>
        rw [hr horderedRight]
        refine ⟨fun hx => ⟨.inr (.inr hx.1), hx.2⟩, ?_⟩
        rintro ⟨hx | rfl | hx, hkey⟩
        · exact absurd (hkey ▸ hleft x hx) hnlt
        · exact absurd hkey.symm hne
        · exact ⟨hx, hkey⟩

/-- A search fails for the keys that are not there. -/
theorem search_eq_none_iff (h : Ordered key t) : search key k t = none ↔
    ∀ x ∈ inorder t, key x ≠ k := by
  constructor
  · intro hnone x hx hkey
    rw [(search_eq_some_iff h).mpr ⟨hx, hkey⟩] at hnone
    cases hnone
  · intro hnot
    cases hsearch : search key k t with
    | none => rfl
    | some x =>
      obtain ⟨hx, hkey⟩ := (search_eq_some_iff h).mp hsearch
      exact absurd hkey (hnot x hx)

/-- A tree with one more object, unless there is one of the same key. -/
def insert (key : α → κ) (x : α) : BinaryTree α → BinaryTree α
  | .nil => .node x .nil .nil
  | .node a l r =>
    if key x = key a then .node a l r
    else if key x < key a then balance (.node a (insert key x l) r)
    else balance (.node a l (insert key x r))

/-- The side on which a key belongs. -/
def sideOf (key : α → κ) (x a : α) : Side := if key x < key a then .left else .right

section
variable {s : Side} {u : BinaryTree α} (hne : key x ≠ key a) (hs : sideOf key x a = s)
include hne hs

/-- An insertion goes to the side of the key. -/
theorem insert_join : insert key x (join s a t u) = balance (join s a (insert key x t) u) := by
  subst hs
  by_cases hlt : key x < key a
  · rw [sideOf, if_pos hlt, join, insert, if_neg hne, if_pos hlt, join]
  · rw [sideOf, if_neg hlt, join, insert, if_neg hne, if_neg hlt, join]

/-- A search goes to the side of the key. -/
theorem search_join : search key (key x) (join s a t u) = search key (key x) t := by
  subst hs
  by_cases hlt : key x < key a
  · rw [sideOf, if_pos hlt, join, search, if_neg hne, if_pos hlt]
  · rw [sideOf, if_neg hlt, join, search, if_neg hne, if_neg hlt]

end

/-- An ordered tree has no element twice. -/
theorem Ordered.nodup (h : Ordered key t) : (inorder t).Nodup :=
  List.Pairwise.imp (fun hlt heq => absurd (congrArg key heq) (ne_of_lt hlt)) h

theorem ordered_join {s : Side} {u : BinaryTree α} (h : Ordered key (join s a t u)) :
    Ordered key t ∧ Ordered key u := by
  cases s
  · exact ⟨(ordered_node.mp h).1, (ordered_node.mp h).2.1⟩
  · exact ⟨(ordered_node.mp h).2.1, (ordered_node.mp h).1⟩

/-- **The place of a new object** is between those with smaller and those with larger keys. -/
theorem inorder_insert (h : Ordered key t) (hsearch : search key (key x) t = none) :
    ∃ xs ys, inorder t = xs ++ ys ∧ inorder (insert key x t) = xs ++ x :: ys ∧
      (∀ a ∈ xs, key a < key x) ∧ ∀ a ∈ ys, key x < key a := by
  induction t with
  | nil => exact ⟨[], [], rfl, rfl, by simp, by simp⟩
  | node a l r hl hr =>
    obtain ⟨horderedLeft, horderedRight, hleft, hright⟩ := ordered_node.mp h
    rw [search] at hsearch
    split at hsearch
    · cases hsearch
    · next hne =>
      split at hsearch
      · next hlt =>
        obtain ⟨xs, ys, hl, hinsert, hxs, hys⟩ := hl horderedLeft hsearch
        refine ⟨xs, ys ++ a :: inorder r, ?_, ?_, hxs, fun b hb => ?_⟩
        · rw [inorder_node, hl, append_assoc]
        · rw [insert, if_neg hne, if_pos hlt, inorder_balance, inorder_node, hinsert, append_assoc,
            cons_append]
        · rcases mem_append.mp hb with hb | hb
          · exact hys b hb
          · rcases mem_cons.mp hb with rfl | hb
            · exact hlt
            · exact lt_trans hlt (hright b hb)
      · next hnlt =>
        have hlt : key a < key x := lt_of_le_of_ne (not_lt.mp hnlt) fun heq => hne heq.symm
        obtain ⟨xs, ys, hr, hinsert, hxs, hys⟩ := hr horderedRight hsearch
        refine ⟨inorder l ++ a :: xs, ys, ?_, ?_, fun b hb => ?_, hys⟩
        · rw [inorder_node, hr, append_assoc, cons_append]
        · rw [insert, if_neg hne, if_neg hnlt, inorder_balance, inorder_node, hinsert, append_assoc,
            cons_append]
        · rcases mem_append.mp hb with hb | hb
          · exact lt_trans (hleft b hb) hlt
          · rcases mem_cons.mp hb with rfl | hb
            · exact hlt
            · exact hxs b hb

/-- An insertion of a new key keeps the order. -/
theorem Ordered.insert (h : Ordered key t) (hsearch : search key (key x) t = none) :
    Ordered key (insert key x t) := by
  obtain ⟨xs, ys, ht, hinsert, hxs, hys⟩ := inorder_insert h hsearch
  rw [Ordered, ht, pairwise_append] at h
  rw [Ordered, hinsert, pairwise_append, pairwise_cons]
  refine ⟨h.1, ⟨hys, h.2.1⟩, fun a ha b hb => ?_⟩
  rcases mem_cons.mp hb with rfl | hb
  · exact hxs a ha
  · exact h.2.2 a ha b hb

/-- An insertion adds one element. -/
theorem mem_inorder_insert (h : Ordered key t) (hsearch : search key (key x) t = none) :
    a ∈ inorder (insert key x t) ↔ a = x ∨ a ∈ inorder t := by
  obtain ⟨xs, ys, ht, hinsert, -, -⟩ := inorder_insert h hsearch
  rw [hinsert, ht, mem_append, mem_cons, mem_append]
  exact or_left_comm

/-- **An insertion keeps the tree balanced.** -/
theorem Balanced.insert (h : Balanced t) : Grown t (insert key x t) := by
  induction t with
  | nil => exact ⟨⟨Nat.zero_le _, Nat.zero_le _, trivial, trivial⟩, .inr ⟨rfl, .inl rfl⟩⟩
  | node a l r hl hr =>
    obtain ⟨hleft, hright, hbalancedLeft, hbalancedRight⟩ := h
    rw [Avl.insert]
    split
    · exact Balanced.grown ⟨hleft, hright, hbalancedLeft, hbalancedRight⟩
    · split
      · exact (hl hbalancedLeft).join (s := .right) hbalancedRight ⟨hright, hleft⟩
      · exact (hr hbalancedRight).join (s := .left) hbalancedLeft ⟨hleft, hright⟩

end

end Lib.Avl
