import BootXf.Lib.Run
import BootXf.RpmClient.Inmap
import Mathlib.Data.List.Dedup
import Mathlib.Data.List.Perm.Subperm

/-!
# What the intrusive map holds

The map holds, for each key, the first object of that key that has been given to `inmap_insert`.
That the tree is balanced is also what bounds its height, so that no height that is stored wraps
around.
-/

namespace RpmClient.Inmap

open Lib Lib.Avl List Option

section
variable {ω σ : Type} {key : ω → UInt32} {m m' : Map ω} {a object : ω} {t : BinaryTree ω}
    {objects : List ω}
  {k : UInt32}

/-! ## Height -/

/-- There are no more objects than keys, and so the tree is not high. -/
theorem height_le (hordered : Ordered (keyOf key) t) (hbalanced : Balanced t) : t.height ≤ 65 := by
  have hnodup : ((inorder t).map (keyOf key)).Nodup :=
    List.Pairwise.map _ (fun _ _ hlt => Nat.ne_of_lt hlt) hordered
  have hsub : (inorder t).map (keyOf key) ⊆ List.range (2 ^ 32) := by
    intro k hk
    obtain ⟨a, -, rfl⟩ := List.mem_map.mp hk
    exact mem_range.mpr (key a).toNat_lt
  have hlength := (subperm_of_subset hnodup hsub).length_le
  rw [length_map, length_range, length_inorder] at hlength
  have hpow := hbalanced.height_le
  by_contra hhigh
  have hle : 2 ^ 33 ≤ 2 ^ (t.height / 2) := Nat.pow_le_pow_right (by decide) (by omega)
  omega

/-! ## Objects and keys -/

/-- The first of the objects that has the key. -/
def holder (key : ω → UInt32) (objects : List ω) (k : UInt32) : Option ω :=
  objects.find? fun a => key a = k

theorem holder_key (h : holder key objects k = some a) : key a = k :=
  of_decide_eq_true (find?_some (p := fun a => key a = k) h)

theorem holder_append : holder key (objects ++ [object]) k =
    (holder key objects k).or (if key object = k then some object else none) := by
  rw [holder, find?_append]
  congr 1
  by_cases heq : key object = k
  · rw [if_pos heq]
    exact find?_cons_of_pos (p := fun a => key a = k) (decide_eq_true heq)
  · rw [if_neg heq]
    exact find?_cons_of_neg (p := fun a => key a = k) (by simpa using heq)

theorem holder_none (h : holder key objects k = none) (ha : a ∈ objects) : key a ≠ k := fun heq =>
  absurd (decide_eq_true heq) (by simpa using find?_eq_none.mp h a ha)

/-- The links are those of a tree that has, for each key, the first of these objects. -/
structure Represents (key : ω → UInt32) (objects : List ω) (m : Map ω)
    (t : BinaryTree ω) : Prop where
  root : m.root = top t
  linked : Linked m.link t
  ordered : Ordered (keyOf key) t
  balanced : Balanced t
  size : m.size = .ofNat t.numNodes
  mem : ∀ a, a ∈ inorder t ↔ holder key objects (key a) = some a

theorem represents_create (link : ω → Link ω) : Represents key [] (inmapCreate link) .nil where
  root := rfl
  linked := trivial
  ordered := .nil
  balanced := trivial
  size := rfl
  mem a := by
    constructor
    · rintro ⟨⟩
    · rintro ⟨⟩

/-- Searching the tree is searching the objects. -/
theorem Represents.search_eq (h : Represents key objects m t) :
    Avl.search (keyOf key) k.toNat t = holder key objects k := by
  cases hholder : holder key objects k with
  | some a =>
    have hkey := holder_key hholder
    refine (search_eq_some_iff h.ordered).mpr ⟨(h.mem a).mpr (hkey ▸ hholder), ?_⟩
    exact congrArg UInt32.toNat hkey
  | none =>
    refine (search_eq_none_iff h.ordered).mpr fun a ha heq => ?_
    rw [← UInt32.toNat_inj.mp heq, (h.mem a).mp ha] at hholder
    cases hholder

/-- The number of keys is the number of nodes. -/
theorem Represents.length_eq (h : Represents key objects m t) :
    (objects.map key).dedup.length = t.numNodes := by
  rw [← length_inorder, ← length_map key]
  have hnodup : ((inorder t).map key).Nodup :=
    List.Pairwise.map _ (fun _ _ hlt heq => absurd (congrArg UInt32.toNat heq)
      (Nat.ne_of_lt hlt)) h.ordered
  refine ((perm_ext_iff_of_nodup (nodup_dedup _) hnodup).mpr fun k => ?_).length_eq
  rw [mem_dedup, List.mem_map, List.mem_map]
  constructor
  · rintro ⟨a, ha, rfl⟩
    cases hholder : holder key objects (key a) with
    | some b =>
      have hkey := holder_key hholder
      exact ⟨b, (h.mem b).mpr (hkey ▸ hholder), hkey⟩
    | none => exact absurd rfl (holder_none hholder ha)
  · rintro ⟨a, ha, rfl⟩
    exact ⟨a, mem_of_find?_eq_some ((h.mem a).mp ha), rfl⟩

variable [DecidableEq ω] {fuel : Nat} {n n' : Nat} {r : Map ω × Inserted ω}

/-! ## One call -/

omit [DecidableEq ω] in
theorem top_eq_none (h : top t = none) : t = .nil := by
  cases t with
  | nil => rfl
  | node => cases h

/-- An object whose key is there is not put in. -/
theorem Represents.insert_duplicate (h : Represents key objects m t) {y : ω}
    (hholder : holder key objects (key object) = some y) (hfuel : t.height ≤ fuel) :
    inmapInsert key fuel m object = some (m, ⟨false, y⟩) ∧
      Represents key (objects ++ [object]) m t := by
  have hheight := height_le h.ordered h.balanced
  have hsearch : Avl.search (keyOf key) (keyOf key object) t = some y := h.search_eq.trans hholder
  refine ⟨?_, { h with mem := fun a => ?_ }⟩
  · cases htop : top t with
    | none =>
      rw [top_eq_none htop] at hsearch
      cases hsearch
    | some root =>
      rw [inmapInsert, h.root, htop]
      show (insertAt key fuel m none root object).bind _ = _
      rw [insertAt_duplicate h.linked htop h.balanced hsearch (by omega) hfuel]
      rfl
  · rw [h.mem, holder_append]
    by_cases heq : key object = key a
    · rw [← heq, hholder, some_or]
    · rw [if_neg heq, or_none]

/-- An object whose key is not there is put in. -/
theorem Represents.insert_new (h : Represents key objects m t)
    (hholder : holder key objects (key object) = none) (hfuel : t.height ≤ fuel) :
      ∃ m', inmapInsert key fuel m object = some (m', ⟨true, object⟩) ∧
      Represents key (objects ++ [object]) m' (Avl.insert (keyOf key) object t) := by
  have hheight := height_le h.ordered h.balanced
  have hsearch : Avl.search (keyOf key) (keyOf key object) t = none := h.search_eq.trans hholder
  have hmem : ∀ a, a ∈ inorder (Avl.insert (keyOf key) object t) ↔
      holder key (objects ++ [object]) (key a) = some a := by
    intro a
    rw [mem_inorder_insert h.ordered hsearch, h.mem, holder_append]
    by_cases heq : key object = key a
    · rw [← heq, hholder, none_or, if_pos rfl]
      simp [eq_comm]
    · rw [if_neg heq, or_none]
      exact or_iff_right fun hno => heq (congrArg key hno.symm)
  have hnodes : (Avl.insert (keyOf key) object t).numNodes = t.numNodes + 1 := by
    obtain ⟨xs, ys, ht, hinsert, -⟩ := inorder_insert h.ordered hsearch
    rw [← length_inorder, ← length_inorder, ht, hinsert, length_append, length_append, length_cons]
    omega
  have hordered := h.ordered.insert hsearch
  have hgrown : Grown t (Avl.insert (keyOf key) object t) := h.balanced.insert
  have hbalanced := hgrown.balanced
  cases htop : top t with
  | none =>
    obtain rfl := top_eq_none htop
    refine ⟨{ initializeLink m object with root := some object, size := 1 }, ?_, rfl, ?_, hordered,
      hbalanced, rfl, hmem⟩
    · rw [inmapInsert, h.root, htop]
    · have hlink : (initializeLink m object).link object = ⟨none, none, 1⟩ :=
        Function.update_self ..
      exact ⟨congrArg Link.left hlink, congrArg Link.right hlink, congrArg Link.height hlink,
        trivial, trivial⟩
  | some root =>
    have hobject : object ∉ inorder t :=
      fun hno => (search_eq_none_iff h.ordered).mp hsearch object hno rfl
    have hparent : ∀ p, none = some p → p ∉ object :: inorder t := by rintro p ⟨⟩
    obtain ⟨m', hinserted, hreplaces⟩ :=
      insertAt_new h.linked htop h.ordered h.balanced hsearch hparent
      (h.root.trans htop) (by omega) hfuel
    refine ⟨{ m' with size := m'.size + 1 }, ?_, ?_, hreplaces.linked, hordered,
      hbalanced, ?_, hmem⟩
    · rw [inmapInsert, h.root, htop]
      show (insertAt key fuel m none root object).bind _ = _
      rw [hinserted]
      rfl
    · exact hreplaces.frame.root
    · show m'.size + 1 = _
      rw [hreplaces.frame.size, hnodes, UInt32.ofNat_add]
      exact congrArg (· + 1) h.size

/-! ## Runs -/

/-- What is inserted does not depend on how high a tree may be. -/
theorem insertAt_mono {parent : Option ω} {node : ω}
    (hn : n ≤ n') (h : insertAt key n m parent node object = some r) :
    insertAt key n' m parent node object = some r := by
  induction n generalizing n' parent node m r with
  | zero => cases h
  | succ n ih =>
    obtain ⟨n', rfl⟩ : ∃ k, n' = k + 1 := ⟨n' - 1, by omega⟩
    by_cases heq : key node = key object
    · rw [insertAt, if_pos heq] at h ⊢
      exact h
    · cases hchild : (m.link node).child (sideOf (keyOf key) object node) with
      | none => rwa [insertAt_leaf heq rfl hchild] at h ⊢
      | some child =>
        rw [insertAt_child heq rfl hchild] at h ⊢
        obtain ⟨below, hbelow, hbalance⟩ := bind_eq_some_iff.mp h
        rw [ih (by omega) hbelow]
        exact hbalance

theorem inmapInsert_mono (hn : n ≤ n')
    (h : inmapInsert key n m object = some r) : inmapInsert key n' m object = some r := by
  rw [inmapInsert] at h ⊢
  cases hroot : m.root with
  | none => rwa [hroot] at h
  | some root =>
    rw [hroot] at h
    obtain ⟨below, hbelow, hresult⟩ := bind_eq_some_iff.mp h
    show (insertAt key n' m none root object).bind _ = _
    rw [insertAt_mono hn hbelow]
    exact hresult

/-- A call of `inmap_insert`, with what it answers. -/
def Step (key : ω → UInt32) (m : Map ω) (e : ω × Inserted ω) (m' : Map ω) : Prop :=
  ∃ fuel, inmapInsert key fuel m e.1 = some (m', e.2)

/-- The objects that have been given to `inmap_insert`, the first one first. -/
def offered (trace : List (ω × Inserted ω)) : List ω := (trace.map Prod.fst).reverse

/-- **One call**: what it answers, and what the map holds then. -/
theorem Represents.step (h : Represents key objects m t) {r : Inserted ω}
    (hstep : Step key m (object, r) m') :
    (∃ t', Represents key (objects ++ [object]) m' t') ∧
      (∀ a, holder key objects (key object) = some a → m' = m ∧ r = ⟨false, a⟩) ∧
      (holder key objects (key object) = none → r = ⟨true, object⟩) := by
  obtain ⟨fuel, hrun⟩ := hstep
  have hrun := inmapInsert_mono (Nat.le_max_left fuel t.height) hrun
  cases hholder : holder key objects (key object) with
  | some a =>
    obtain ⟨hinsert, hrepresents⟩ := h.insert_duplicate hholder (Nat.le_max_right fuel t.height)
    obtain ⟨rfl, rfl⟩ := Prod.mk.inj (Option.some.inj (hrun.symm.trans hinsert))
    exact ⟨⟨t, hrepresents⟩, fun b hb => ⟨rfl, Option.some.inj hb ▸ rfl⟩, by rintro ⟨⟩⟩
  | none =>
    obtain ⟨m₁, hinsert, hrepresents⟩ := h.insert_new hholder (Nat.le_max_right fuel t.height)
    obtain ⟨rfl, rfl⟩ := Prod.mk.inj (Option.some.inj (hrun.symm.trans hinsert))
    exact ⟨⟨_, hrepresents⟩, by rintro a ⟨⟩, fun _ => rfl⟩

theorem Represents.run {link : ω → Link ω} {trace : List (ω × Inserted ω)}
    (run : Run (Step key) (inmapCreate link) trace m) :
    ∃ t, Represents key (offered trace) m t := by
  refine run.invariant (P := fun trace m => ∃ t, Represents key (offered trace) m t)
    ⟨.nil, represents_create link⟩ ?_
  rintro trace m ⟨object, r⟩ m' - ⟨t, h⟩ hstep
  obtain ⟨ht, -⟩ := h.step hstep
  rwa [offered, map_cons, reverse_cons]

/-- What the callers of the map rely on, when these objects have been given to it. -/
structure Sound (key : ω → UInt32) (objects : List ω) (m : Map ω) : Prop where
  /-- The links are those of a balanced search tree, with its heights. -/
  tree : ∃ t, m.root = top t ∧ Linked m.link t ∧ Ordered (keyOf key) t ∧
    Balanced t ∧ t.height ≤ 65 ∧
    inmapHeight m = .ofNat t.height
  size : inmapSize m = .ofNat (objects.map key).dedup.length
  /-- Each call comes to an end. -/
  calls : ∀ object, ∃ r m', Step key m (object, r) m'
  duplicate : ∀ object a r m', holder key objects (key object) = some a →
    Step key m (object, r) m' →
    m' = m ∧ r = ⟨false, a⟩
  new : ∀ object r m', holder key objects (key object) = none → Step key m (object, r) m' →
    r = ⟨true, object⟩
  search : ∀ k n, 65 ≤ n → inmapSearch key n m k = some (holder key objects k)
  /-- Each object that is held is visited once, in the order of the keys. -/
  visit : ∃ order : List ω, order.Pairwise (fun a b => key a < key b) ∧
    (∀ a, a ∈ order ↔ holder key objects (key a) = some a) ∧
    ∀ (σ : Type) (visit : σ → ω → σ) context n, 65 ≤ n →
      inmapVisit visit n m context = some (order.foldl visit context)

theorem Represents.sound (h : Represents key objects m t) : Sound key objects m := by
  have hheight := height_le h.ordered h.balanced
  refine ⟨⟨t, h.root, h.linked, h.ordered, h.balanced, hheight, ?_⟩, ?_, fun object => ?_,
    fun object a r m' hholder hstep => (h.step hstep).2.1 a hholder,
    fun object r m' hholder hstep => (h.step hstep).2.2 hholder, fun k n hn => ?_,
    inorder t, ?_, h.mem, fun σ visit context n hn => ?_⟩
  · rw [inmapHeight, h.root, h.linked.height_top]
  · rw [h.length_eq]
    exact h.size
  · cases hholder : holder key objects (key object) with
    | some a => exact ⟨_, m, t.height, (h.insert_duplicate hholder (Nat.le_refl _)).1⟩
    | none =>
      obtain ⟨m', hinsert, -⟩ := h.insert_new hholder (Nat.le_refl _)
      exact ⟨_, m', t.height, hinsert⟩
  · rw [inmapSearch, h.root, searchFrom_spec h.linked (by omega), h.search_eq]
  · exact List.Pairwise.imp (fun hlt => UInt32.lt_iff_toNat_lt.mpr hlt) h.ordered
  · rw [inmapVisit, h.root]
    exact visitFrom_spec h.linked (by omega)

/-- **The intrusive map** after every sequence of insertions. -/
theorem inmap_sound {link : ω → Link ω} {trace : List (ω × Inserted ω)}
    (run : Run (Step key) (inmapCreate link) trace m) : Sound key (offered trace) m := by
  obtain ⟨t, h⟩ := Represents.run run
  exact h.sound

/-! ## The order of insertion -/

omit [DecidableEq ω] in
/-- Among objects of different keys each one is held. -/
theorem holder_eq_some_iff (hnodup : (objects.map key).Nodup) :
    holder key objects k = some a ↔ a ∈ objects ∧ key a = k := by
  refine ⟨fun h => ⟨mem_of_find?_eq_some h, holder_key h⟩, ?_⟩
  rintro ⟨ha, rfl⟩
  cases hb : holder key objects (key a) with
  | none => exact absurd rfl (holder_none hb ha)
  | some b => rw [inj_on_of_nodup_map hnodup (mem_of_find?_eq_some hb) ha (holder_key hb)]

/-- **The order of insertion does not matter** for objects of different keys: the trees may differ,
but every search, every visit and the size are the same; and a depth of 65 is enough for them to
come to an end. -/
theorem inmap_order_independent {link link' : ω → Link ω}
    {trace trace' : List (ω × Inserted ω)} {n : Nat}
    (run : Run (Step key) (inmapCreate link) trace m)
    (run' : Run (Step key) (inmapCreate link') trace' m')
    (hperm : (offered trace).Perm (offered trace')) (hnodup : ((offered trace).map key).Nodup)
    (hn : 65 ≤ n) :
    (∀ k, ∃ found, inmapSearch key n m k = some found ∧ inmapSearch key n m' k = some found) ∧
      inmapSize m = inmapSize m' ∧
      ∀ (visit : σ → ω → σ) context, ∃ result, inmapVisit visit n m context = some result ∧
        inmapVisit visit n m' context = some result := by
  obtain ⟨t, h⟩ := Represents.run run
  obtain ⟨t', h'⟩ := Represents.run run'
  have hsame : ∀ k, holder key (offered trace) k = holder key (offered trace') k := by
    refine fun k => Option.ext fun a => ?_
    rw [holder_eq_some_iff hnodup, holder_eq_some_iff ((hperm.map key).nodup_iff.mp hnodup),
      hperm.mem_iff]
  have horder : inorder t = inorder t' := by
    have hperm' : (inorder t).Perm (inorder t') :=
      (perm_ext_iff_of_nodup h.ordered.nodup h'.ordered.nodup).mpr
      fun a => by rw [h.mem, h'.mem, hsame]
    exact hperm'.eq_of_pairwise (fun a b _ _ hlt hgt => absurd hgt (Nat.lt_asymm hlt))
      h.ordered h'.ordered
  refine ⟨fun k => ?_, ?_, fun visit context => ?_⟩
  · exact ⟨_, h.sound.search k n hn, (h'.sound.search k n hn).trans (by rw [hsame])⟩
  · exact h.size.trans (Eq.trans (by rw [← length_inorder, horder, length_inorder]) h'.size.symm)
  · have hheight := height_le h.ordered h.balanced
    have hheight' := height_le h'.ordered h'.balanced
    refine ⟨(inorder t).foldl visit context, ?_, ?_⟩
    · rw [inmapVisit, h.root]
      exact visitFrom_spec h.linked (by omega)
    · rw [inmapVisit, h'.root, horder]
      exact visitFrom_spec h'.linked (by omega)

end

section
variable {ω : Type} [DecidableEq ω] (key : ω → UInt32)

/-- The objects are inserted one after the other: what was answered, the last call first, and the
map. -/
def insertAll (fuel : Nat) : List ω → List (ω × Inserted ω) × Map ω →
    Option (List (ω × Inserted ω) × Map ω)
  | [], s => some s
  | a :: l, s => (inmapInsert key fuel s.2 a).bind fun r => insertAll fuel l ((a, r.2) :: s.1, r.1)

variable {key}

/-- They are a run. -/
theorem insertAll_run {link : ω → Link ω} {fuel : Nat} {l : List ω}
    {trace trace' : List (ω × Inserted ω)} {m m' : Map ω}
    (run : Run (Step key) (inmapCreate link) trace m)
    (h : insertAll key fuel l (trace, m) = some (trace', m')) :
    Run (Step key) (inmapCreate link) trace' m' ∧ offered trace' = offered trace ++ l := by
  induction l generalizing trace m with
  | nil =>
    cases h
    exact ⟨run, (append_nil _).symm⟩
  | cons a l ih =>
    obtain ⟨⟨m₁, r⟩, hinsert, hrest⟩ := bind_eq_some_iff.mp h
    obtain ⟨run', hoffered⟩ := ih (run.step (e := (a, r)) ⟨fuel, hinsert⟩) hrest
    refine ⟨run', hoffered.trans ?_⟩
    simp [offered]

/-- So many objects can be inserted. -/
theorem inserts_run (key : ω → UInt32) (link : ω → Link ω) (addr : Nat → ω) (n : Nat) : ∃ trace m,
    Run (Step key) (inmapCreate link) trace m ∧ offered trace = (List.range n).map addr := by
  induction n with
  | zero => exact ⟨[], _, .start, rfl⟩
  | succ n ih =>
    obtain ⟨trace, m, run, htrace⟩ := ih
    obtain ⟨t, h⟩ := Represents.run run
    obtain ⟨r, m', hstep⟩ := h.sound.calls (addr n)
    refine ⟨_, m', run.step hstep, ?_⟩
    rw [offered, map_cons, reverse_cons, ← offered, htrace, range_succ, map_append]
    rfl

end

/-- The key of a number is its lowest octal digit. -/
def digit (a : Nat) : UInt32 := .ofNat (a % 8)

/-- A map with seven objects, whose insertion rotates the tree at its root and below it, in either
way, and another one of a key that is there. -/
theorem inmap_sound_small : ∃ (trace : List (Nat × Inserted Nat)) (m : Map Nat),
    offered trace = [5, 2, 3, 7, 6, 1, 4, 10] ∧ trace.head? = some (10, ⟨false, 2⟩) ∧
      m.root = some 3 ∧
      inmapHeight m = 4 ∧ Sound digit [5, 2, 3, 7, 6, 1, 4, 10] m := by
  have hrun : (insertAll digit 65 [5, 2, 3, 7, 6, 1, 4, 10]
      ([], inmapCreate fun _ => ⟨none, none, 0⟩)).map (fun s =>
        decide (s.1.head? = some (10, ⟨false, 2⟩) ∧ s.2.root = some 3 ∧ inmapHeight s.2 = 4)) =
      some true := by
    decide +kernel
  obtain ⟨⟨trace, m⟩, hinserted, hrun⟩ := map_eq_some_iff.mp hrun
  obtain ⟨hlast, hroot, hheight⟩ := of_decide_eq_true hrun
  obtain ⟨run, hoffered⟩ := insertAll_run .start hinserted
  have hsound := inmap_sound run
  rw [show offered trace = [5, 2, 3, 7, 6, 1, 4, 10] from hoffered] at hsound
  exact ⟨trace, m, hoffered, hlast, hroot, hheight, hsound⟩

/-- Four objects in the order of their keys, which rotates the tree, and in another order, which
does not. -/
theorem inmap_order_independent_two : ∃ (trace trace' : List (Nat × Inserted Nat)) (m m' : Map Nat),
    offered trace = [1, 2, 3, 4] ∧ offered trace' = [3, 2, 4, 1] ∧ m.root = some 2 ∧
      m'.root = some 3 ∧
      Run (Step digit) (inmapCreate fun _ => ⟨none, none, 0⟩) trace m ∧
      Run (Step digit) (inmapCreate fun _ => ⟨none, none, 0⟩) trace' m' ∧
      ∀ k, ∃ found, inmapSearch digit 65 m k = some found ∧
        inmapSearch digit 65 m' k = some found := by
  have hrun : (insertAll digit 65 [1, 2, 3, 4] ([], inmapCreate fun _ => ⟨none, none, 0⟩)).map
      (·.2.root) = some (some 2) := by decide +kernel
  have hrun' : (insertAll digit 65 [3, 2, 4, 1] ([], inmapCreate fun _ => ⟨none, none, 0⟩)).map
      (·.2.root) = some (some 3) := by decide +kernel
  obtain ⟨⟨trace, m⟩, hinserted, hroot⟩ := map_eq_some_iff.mp hrun
  obtain ⟨⟨trace', m'⟩, hinserted', hroot'⟩ := map_eq_some_iff.mp hrun'
  obtain ⟨run, h⟩ := insertAll_run .start hinserted
  obtain ⟨run', h'⟩ := insertAll_run .start hinserted'
  have h : offered trace = [1, 2, 3, 4] := h
  have h' : offered trace' = [3, 2, 4, 1] := h'
  have hsame := inmap_order_independent (σ := Unit) run run' (by rw [h, h']; decide)
    (by rw [h]; decide) (Nat.le_refl 65)
  exact ⟨trace, trace', m, m', h, h', hroot, hroot', run, run', hsame.1⟩

/-- **The size is not always the number of keys**: it is zero after an object of each key has been
inserted. -/
theorem inmapSize_wraps : ∃ (trace : List (UInt64 × Inserted UInt64)) (m : Map UInt64),
    Run (Step fun a => .ofNat (a.toNat / 32)) (inmapCreate fun _ => ⟨none, none, 0⟩) trace m ∧
      ((offered trace).map fun a => UInt32.ofNat (a.toNat / 32)).dedup.length = 2 ^ 32 ∧
      inmapSize m = 0 := by
  have hkey : ∀ i < 2 ^ 32, (UInt64.ofNat (32 * (i + 1))).toNat / 32 = i + 1 := by
    intro i hi
    rw [UInt64.toNat_ofNat']
    omega
  have hinj : ∀ i < 2 ^ 32, ∀ j < 2 ^ 32, UInt32.ofNat ((UInt64.ofNat (32 * (i + 1))).toNat / 32) =
      UInt32.ofNat ((UInt64.ofNat (32 * (j + 1))).toNat / 32) → i = j := by
    intro i hi j hj heq
    have heq := congrArg UInt32.toNat heq
    rw [hkey i hi, hkey j hj, UInt32.toNat_ofNat', UInt32.toNat_ofNat'] at heq
    omega
  obtain ⟨trace, m, run, htrace⟩ := inserts_run (fun a => .ofNat (a.toNat / 32))
    (fun _ => ⟨none, none, 0⟩) (fun i => UInt64.ofNat (32 * (i + 1))) (2 ^ 32)
  obtain ⟨t, h⟩ := Represents.run run
  have hlength :
      ((offered trace).map fun a => UInt32.ofNat (a.toNat / 32)).dedup.length = 2 ^ 32 := by
    rw [htrace, List.map_map]
    have hnodup :=
      List.Nodup.map_on (fun i hi j hj heq => hinj i (mem_range.mp hi) j (mem_range.mp hj) heq)
      (nodup_range (n := 2 ^ 32))
    exact (congrArg List.length hnodup.dedup).trans (by rw [length_map, length_range])
  refine ⟨trace, m, run, hlength, ?_⟩
  rw [h.sound.size, hlength]
  rfl

end RpmClient.Inmap
