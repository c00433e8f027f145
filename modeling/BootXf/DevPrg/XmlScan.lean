import BootXf.DevPrg.Xml

/-!
# Scanning commands

One turn of the loop over the attributes reads an attribute, stops, fails or looks outside of the
buffer (`attributesFrom_cases`). The buffer is taken apart at the pointer: what is in front of it
is not looked at any more.
-/

namespace DevPrg

open List

/-! ## Lists that are taken apart -/

section
variable {α : Type} {c d : UInt8} {l l' done rest : List UInt8} {p : UInt8 → Bool}

theorem takeWhile_append_cons (rest : List UInt8) (hl : ∀ c ∈ l, p c = true) (hd : p d = false) :
    (l ++ d :: rest).takeWhile p = l ∧ (l ++ d :: rest).dropWhile p = d :: rest := by
  induction l with
  | nil => exact ⟨takeWhile_cons_of_neg (by simp [hd]), dropWhile_cons_of_neg (by simp [hd])⟩
  | cons c l ih =>
    have hc := hl c (.head _)
    obtain ⟨htake, hdrop⟩ := ih fun c hc => hl c (.tail _ hc)
    rw [cons_append, takeWhile_cons_of_pos hc, dropWhile_cons_of_pos hc, htake, hdrop]
    exact ⟨rfl, rfl⟩

theorem takeWhile_of_all (hl : ∀ c ∈ l, p c = true) : l.takeWhile p = l := by
  induction l with
  | nil => rfl
  | cons c l ih =>
    rw [takeWhile_cons_of_pos (hl c (.head _)), ih fun c hc => hl c (.tail _ hc)]

/-- A list up to the first character that is not gone over. -/
theorem takeWhile_cases (p : UInt8 → Bool) (l : List UInt8) :
    (∀ c ∈ l, p c = true) ∨ ∃ l' d rest, l = l' ++ d :: rest ∧
    (∀ c ∈ l', p c = true) ∧ p d = false := by
  induction l with
  | nil => exact .inl fun c hc => absurd hc not_mem_nil
  | cons c l ih =>
    cases hc : p c with
    | false => exact .inr ⟨[], c, l, rfl, fun c hc => absurd hc not_mem_nil, hc⟩
    | true =>
      rcases ih with hall | ⟨l', d, rest, rfl, hl', hd⟩
      · exact .inl (forall_mem_cons.mpr ⟨hc, hall⟩)
      · exact .inr ⟨c :: l', d, rest, rfl, forall_mem_cons.mpr ⟨hc, hl'⟩, hd⟩

/-- The first occurrence of a character. -/
theorem split_first (c : UInt8) (l : List UInt8) :
    c ∉ l ∨ ∃ l' rest, l = l' ++ c :: rest ∧ c ∉ l' := by
  rcases takeWhile_cases (fun d => d ≠ c) l with hall | ⟨l', d, rest, rfl, hl', hd⟩
  · exact .inl fun hmem => by simpa using hall c hmem
  · have hd : d = c := by simpa using hd
    exact .inr ⟨l', rest, by rw [hd], fun hmem => by simpa using hl' c hmem⟩

theorem not_mem_iff_all : c ∉ l ↔ ∀ d ∈ l, decide (d ≠ c) = true :=
  ⟨fun h d hd => decide_eq_true fun heq => h (heq ▸ hd), fun h hc => by simpa using h c hc⟩

/-- Where a character stands for the first time. -/
theorem append_cons_inj (hl : c ∉ l) (hl' : c ∉ l') {rest rest' : List UInt8}
    (h : l ++ c :: rest = l' ++ c :: rest') : l = l' ∧ rest = rest' := by
  have hleft := takeWhile_append_cons (d := c) rest (not_mem_iff_all.mp hl) (by simp)
  have hright := takeWhile_append_cons (d := c) rest' (not_mem_iff_all.mp hl') (by simp)
  rw [h] at hleft
  exact ⟨hleft.1.symm.trans hright.1,
    (List.cons.inj (hleft.2.symm.trans hright.2)).2⟩

theorem findNextAttr_append (done rest : List UInt8) (hl : ∀ c ∈ l, IsBlank c)
    (hrest : ∀ c, rest.head? = some c → ¬ IsBlank c) :
    findNextAttr (done ++ (l ++ rest)) done.length = (done ++ l).length := by
  have hl : ∀ c ∈ l, decide (IsBlank c) = true := fun c hc => decide_eq_true (hl c hc)
  unfold findNextAttr
  rw [drop_left, length_append]
  cases rest with
  | nil => rw [append_nil, takeWhile_of_all hl]
  | cons c rest => rw [(takeWhile_append_cons rest hl (decide_eq_false (hrest c rfl))).1]

theorem findNextChar_append (done : List UInt8) (hl : c ∉ l) :
    findNextChar c (done ++ (l ++ c :: rest)) done.length = (done ++ l).length := by
  unfold findNextChar
  rw [drop_left, (takeWhile_append_cons rest (not_mem_iff_all.mp hl) (by simp)).1, length_append]

theorem findNextChar_none (done : List UInt8) (hl : c ∉ l) :
    findNextChar c (done ++ l) done.length = (done ++ l).length := by
  unfold findNextChar
  rw [drop_left, takeWhile_of_all (not_mem_iff_all.mp hl), length_append]

theorem set_append_cons (done : List UInt8) (c d : UInt8) (rest : List UInt8) :
    (done ++ c :: rest).set done.length d = done ++ d :: rest := by
  rw [set_append_right _ _ (Nat.le_refl _), Nat.sub_self, set_cons_zero]

theorem cStringAt_append (done : List UInt8) (hl : 0 ∉ l) :
    cStringAt (done ++ (l ++ 0 :: rest)) done.length = l := by
  unfold cStringAt
  rw [drop_left]
  exact (takeWhile_append_cons rest (not_mem_iff_all.mp hl) (by simp)).1

end

/-! ## One turn of the loop -/

/-- The attribute with its zeros. -/
def Attribute.sealed (a : Attribute) : List UInt8 :=
  a.blanks ++ (a.name ++ ([0, 34] ++ (a.value ++ [0])))

/-- Where its strings are. -/
def Attribute.pointers (a : Attribute) (ptr : Nat) : XmlAttribute :=
  ⟨ptr + a.blanks.length, ptr + a.blanks.length + a.name.length + 2⟩

/-- The loop where the pointer stands in front of blanks. -/
def attributesFrom (left : Nat) (attributes : List XmlAttribute) (done u : List UInt8) :
    Scanned (List XmlAttribute × List UInt8) :=
  attributeLoop left attributes (done ++ u) (findNextAttr (done ++ u) done.length)

section
variable {left : Nat} {attributes : List XmlAttribute} {done u rest blanks name : List UInt8}
  {a : Attribute} {c d : UInt8}

/-- The condition of the loop, where two characters are there. -/
theorem attributeLoop_cons :
    attributeLoop (left + 1) attributes (done ++ c :: d :: u) done.length =
      if c = 47 ∨ d = 62 then .found (attributes, done ++ c :: d :: u)
      else
        let buf := done ++ c :: d :: u
        let equals := findNextChar 61 buf done.length
        if buf.length ≤ equals + 3 then .null
        else
          let buf := buf.set equals 0
          if buf.getD (equals + 1) 0 ≠ 34 then .null
          else
            let quote := findNextChar 34 buf (equals + 2)
            if buf.length ≤ quote then .null
            else
              let buf := buf.set quote 0
              attributeLoop left (attributes ++ [⟨done.length, equals + 2⟩]) buf
                (findNextAttr buf (quote + 1)) := by
  have hfirst : (done ++ c :: d :: u)[done.length]? = some c := by
    rw [getElem?_append_right (Nat.le_refl _), Nat.sub_self]
    rfl
  have hsecond : (done ++ c :: d :: u)[done.length + 1]? = some d := by
    rw [getElem?_append_right (Nat.le_add_right _ _), Nat.add_sub_cancel_left]
    rfl
  rw [attributeLoop, hfirst, hsecond]
  dsimp only
  by_cases hc : c = 47
  · rw [if_pos hc, if_pos (.inl hc)]
  · by_cases hd : d = 62
    · rw [if_neg hc, if_pos hd, if_pos (.inr hd)]
    · rw [if_neg hc, if_neg hd, if_neg (not_or.mpr ⟨hc, hd⟩)]

/-- Without an equals sign. -/
theorem attributeLoop_none (hc : c ≠ 47) (hd : d ≠ 62) (hnone : 61 ∉ c :: d :: u) :
    attributeLoop (left + 1) attributes (done ++ c :: d :: u) done.length = .null := by
  rw [attributeLoop_cons, if_neg (not_or.mpr ⟨hc, hd⟩)]
  dsimp only
  rw [findNextChar_none done hnone]
  exact if_pos (Nat.le_add_right _ _)

section
variable {w value : List UInt8} (hc : c ≠ 47) (hd : d ≠ 62) (hname : 61 ∉ name)
  (h : name ++ 61 :: w = c :: d :: u)
include hc hd hname h

/-- Behind an equals sign. -/
theorem attributeLoop_name :
    attributeLoop (left + 1) attributes (done ++ (name ++ 61 :: w)) done.length =
      if w.length ≤ 2 ∨ w.head? ≠ some 34 then .null
      else
        let buf := done ++ name ++ 0 :: w
        let value := (done ++ name ++ [0, 34]).length
        let quote := findNextChar 34 buf value
        if buf.length ≤ quote then .null
        else
          let buf := buf.set quote 0
          attributeLoop left (attributes ++ [⟨done.length, value⟩]) buf
            (findNextAttr buf (quote + 1)) := by
  have hequals : findNextChar 61 (done ++ c :: d :: u) done.length = (done ++ name).length := by
    rw [← h]
    exact findNextChar_append done hname
  have hlen : (done ++ (name ++ 61 :: w)).length = (done ++ name).length + 1 + w.length := by
    simp only [length_append, length_cons]
    omega
  have hset : (done ++ (name ++ 61 :: w)).set (done ++ name).length 0 = done ++ name ++ 0 :: w := by
    rw [← append_assoc]
    exact set_append_cons ..
  have hget : (done ++ name ++ 0 :: w).getD ((done ++ name).length + 1) 0 = w.getD 0 0 := by
    rw [getD_eq_getElem?_getD, getElem?_append_right (Nat.le_add_right _ _),
      Nat.add_sub_cancel_left]
    rfl
  have hvalue : (done ++ name ++ [0, 34]).length = (done ++ name).length + 2 := by
    rw [length_append]
    rfl
  rw [h, attributeLoop_cons, if_neg (not_or.mpr ⟨hc, hd⟩)]
  dsimp only
  rw [hequals, ← h, hlen, hset, hget, hvalue]
  by_cases hshort : w.length ≤ 2
  · rw [if_pos (by omega), if_pos (.inl hshort)]
  · rw [if_neg (by omega)]
    cases w with
    | nil => exact absurd (Nat.zero_le 2) hshort
    | cons e w =>
      by_cases he : e = 34
      · have hget : ¬ (e :: w).getD 0 0 ≠ 34 := not_not_intro he
        have hhead : ¬ (e :: w).head? ≠ some 34 := not_not_intro (congrArg some he)
        rw [if_neg hget, if_neg (not_or.mpr ⟨hshort, hhead⟩)]
      · have hget : (e :: w).getD 0 0 ≠ 34 := he
        rw [if_pos hget, if_pos (.inr fun heq => he (Option.some.inj heq))]

/-- A value is read, or the loop fails. -/
theorem attributeLoop_name_cases :
    attributeLoop (left + 1) attributes (done ++ (name ++ 61 :: w)) done.length = .null ∨
      ∃ value rest, w = 34 :: (value ++ 34 :: rest) ∧ 34 ∉ value ∧ (value = [] → rest ≠ []) := by
  rw [attributeLoop_name hc hd hname h]
  by_cases hnull : w.length ≤ 2 ∨ w.head? ≠ some 34
  · exact .inl (if_pos hnull)
  · rw [if_neg hnull]
    have ⟨hlong, hhead⟩ := not_or.mp hnull
    cases w with
    | nil => exact absurd (Nat.zero_le 2) hlong
    | cons e w =>
      cases Decidable.not_not.mp hhead
      rcases split_first 34 w with hnone | ⟨value, rest, rfl, hquote⟩
      · have hbuf : done ++ name ++ 0 :: 34 :: w = done ++ name ++ [0, 34] ++ w := by
          rw [append_assoc _ [0, 34]]
          rfl
        dsimp only
        rw [hbuf, findNextChar_none _ hnone]
        exact .inl (if_pos (Nat.le_refl _))
      · refine .inr ⟨value, rest, rfl, hquote, fun hempty hnil => hlong ?_⟩
        rw [hempty, hnil]
        decide

end

/-- **An attribute** is read, and the loop goes on behind it. -/
theorem attributeLoop_value (left : Nat) (attributes : List XmlAttribute) (done : List UInt8)
    {value : List UInt8} (hc : c ≠ 47) (hd : d ≠ 62) (hname : 61 ∉ name)
    (h : name ++ 61 :: 34 :: (value ++ 34 :: rest) = c :: d :: u) (hvalue : 34 ∉ value)
    (hroom : value = [] → rest ≠ []) :
    attributeLoop (left + 1) attributes (done ++ (name ++ 61 :: 34 :: (value ++ 34 :: rest)))
        done.length =
      attributesFrom left (attributes ++ [⟨done.length, done.length + name.length + 2⟩])
        (done ++ (name ++ ([0, 34] ++ (value ++ [0])))) rest := by
  have hlong : ¬ (34 :: (value ++ 34 :: rest)).length ≤ 2 := fun hshort => by
    simp only [length_cons, length_append] at hshort
    exact hroom (length_eq_zero_iff.mp (by omega)) (length_eq_zero_iff.mp (by omega))
  have hbuf : done ++ name ++ 0 :: 34 :: (value ++ 34 :: rest) =
      done ++ name ++ [0, 34] ++ (value ++ 34 :: rest) := by
    rw [append_assoc _ [0, 34]]
    rfl
  have hset : (done ++ name ++ [0, 34] ++ (value ++ 34 :: rest)).set
      (done ++ name ++ [0, 34] ++ value).length 0 =
      done ++ (name ++ ([0, 34] ++ (value ++ [0]))) ++ rest := by
    rw [← append_assoc _ value, set_append_cons]
    simp
  have hquote : (done ++ name ++ [0, 34] ++ value).length + 1 =
      (done ++ (name ++ ([0, 34] ++ (value ++ [0])))).length := by
    simp only [length_append, length_cons, length_nil]
    omega
  have hpointer : (done ++ name ++ [0, 34]).length = done.length + name.length + 2 := by
    rw [length_append, length_append]
    rfl
  have hhead : ¬ (34 :: (value ++ 34 :: rest)).head? ≠ some 34 := not_not_intro rfl
  rw [attributeLoop_name hc hd hname h, if_neg (not_or.mpr ⟨hlong, hhead⟩)]
  dsimp only
  rw [hbuf, findNextChar_append _ hvalue, if_neg, hset, hquote, hpointer]
  · rfl
  · simp only [length_append, length_cons]
    omega

/-- What a name begins with, in front of an equals sign and a quote. -/
theorem starts_iff {w : List UInt8} (h : name ++ 61 :: 34 :: w = c :: d :: u) :
    Starts name ↔ (name = [] ∨ ¬ IsBlank c) ∧ c ≠ 47 ∧ d ≠ 62 := by
  match name, h with
  | [], h =>
    cases h
    exact ⟨fun _ => ⟨.inl rfl, by decide, by decide⟩, fun _ => ⟨nofun, by simp⟩⟩
  | [e], h =>
    cases h
    refine ⟨fun hs => ⟨.inr (hs.first _ rfl).1, (hs.first _ rfl).2, by decide⟩,
      fun hs => ⟨fun f hf => ?_, by simp⟩⟩
    cases hf
    exact ⟨hs.1.resolve_left (cons_ne_nil _ _), hs.2.1⟩
  | e :: f :: name, h =>
    cases h
    refine ⟨fun hs => ⟨.inr (hs.first _ rfl).1, (hs.first _ rfl).2, fun heq => hs.second ?_⟩,
      fun hs => ⟨fun g hg => ?_, fun heq => hs.2.2 (Option.some.inj heq)⟩⟩
    · exact congrArg some heq
    · cases hg
      exact ⟨hs.1.resolve_left (cons_ne_nil _ _), hs.2.1⟩

/-- The blanks of an attribute end where its name begins. -/
theorem not_blank_name {w : List UInt8} (hstarts : Starts name) :
    ∀ c, (name ++ 61 :: w).head? = some c → ¬ IsBlank c := by
  intro c hc
  cases name with
  | nil =>
    cases hc
    decide
  | cons e name =>
    cases hc
    exact (hstarts.first c rfl).1

theorem encode_append :
    a.encode ++ rest = a.blanks ++ (a.name ++ 61 :: 34 :: (a.value ++ 34 :: rest)) := by
  simp [Attribute.encode]

/-- **An attribute** is read, and the loop goes on behind it. -/
theorem attributesFrom_attribute (ha : a.WellFormed) (hstarts : Starts a.name)
    (hroom : a.value = [] → rest ≠ []) :
    attributesFrom (left + 1) attributes done (a.encode ++ rest) =
      attributesFrom left (attributes ++ [a.pointers done.length]) (done ++ a.sealed) rest := by
  obtain ⟨c, d, u, h⟩ : ∃ c d u, a.name ++ 61 :: 34 :: (a.value ++ 34 :: rest) = c :: d :: u := by
    match a.name with
    | [] => exact ⟨_, _, _, rfl⟩
    | [e] => exact ⟨_, _, _, rfl⟩
    | e :: f :: name => exact ⟨_, _, _, rfl⟩
  obtain ⟨-, hc, hd⟩ := (starts_iff h).mp hstarts
  have hturn :=
    attributeLoop_value left attributes (done ++ a.blanks) hc hd ha.name h ha.value hroom
  have hsealed : done ++ a.blanks ++ (a.name ++ ([0, 34] ++ (a.value ++ [0]))) =
      done ++ a.sealed := by
    rw [append_assoc]
    rfl
  conv => lhs; unfold attributesFrom
  rw [encode_append, findNextAttr_append done _ ha.blanks (not_blank_name hstarts), ← append_assoc,
    hturn, hsealed, length_append]
  rfl

/-- Where the bytes end too early the loop looks behind them. -/
theorem attributesFrom_short (hblank : ∀ c ∈ blanks, IsBlank c)
    (hrest : rest = [] ∨ ∃ c, rest = [c] ∧ ¬ IsBlank c ∧ c ≠ 47) :
    attributesFrom (left + 1) attributes done (blanks ++ rest) = .outside := by
  have hptr := findNextAttr_append done rest hblank fun c hc => by
    rcases hrest with rfl | ⟨d, rfl, hd, -⟩
    · cases hc
    · cases hc
      exact hd
  unfold attributesFrom
  rw [hptr, ← append_assoc, attributeLoop]
  rcases hrest with rfl | ⟨c, rfl, -, hslash⟩
  · rw [append_nil, getElem?_eq_none (Nat.le_refl _)]
  · have hfirst : (done ++ blanks ++ [c])[(done ++ blanks).length]? = some c := by
      rw [getElem?_append_right (Nat.le_refl _), Nat.sub_self]
      rfl
    have hnext : (done ++ blanks ++ [c])[(done ++ blanks).length + 1]? = none :=
      getElem?_eq_none (by simp only [length_append, length_singleton]; omega)
    rw [hfirst, hnext]
    exact if_neg hslash

/-- **One turn** looks outside of the buffer, stops, fails, or reads an attribute. -/
theorem attributesFrom_cases (left : Nat) (attributes : List XmlAttribute) (done u : List UInt8) :
    (attributesFrom (left + 1) attributes done u = .outside ∧ EndsShort (left + 1) u) ∨
    attributesFrom (left + 1) attributes done u = .found (attributes, done ++ u) ∨
    attributesFrom (left + 1) attributes done u = .null ∨
    ∃ (a : Attribute) (rest : List UInt8), a.WellFormed ∧ Starts a.name ∧
      (a.value = [] → rest ≠ []) ∧
      u = a.encode ++ rest := by
  rcases takeWhile_cases (fun c => IsBlank c) u with hblank | ⟨blanks, c, v, rfl, hblank, hc⟩
  · have hblank : ∀ c ∈ u, IsBlank c := fun c hc => of_decide_eq_true (hblank c hc)
    refine .inl ⟨?_, ?_⟩
    · rw [← append_nil u]
      exact attributesFrom_short hblank (.inl rfl)
    · rw [← append_nil u]
      exact .here hblank (.inl rfl)
  · have hblank : ∀ c ∈ blanks, IsBlank c := fun c hc => of_decide_eq_true (hblank c hc)
    have hc : ¬ IsBlank c := of_decide_eq_false hc
    have hptr := findNextAttr_append done (c :: v) hblank fun d hd => by
      cases hd
      exact hc
    cases v with
    | nil =>
      by_cases hslash : c = 47
      · have hfirst : (done ++ blanks ++ [c])[(done ++ blanks).length]? = some c := by
          rw [getElem?_append_right (Nat.le_refl _), Nat.sub_self]
          rfl
        unfold attributesFrom
        rw [hptr, ← append_assoc, attributeLoop, hfirst]
        exact .inr (.inl (if_pos hslash))
      · have hrest : [c] = [] ∨ ∃ d, [c] = [d] ∧ ¬ IsBlank d ∧ d ≠ 47 := .inr ⟨c, rfl, hc, hslash⟩
        exact .inl ⟨attributesFrom_short hblank hrest, .here hblank hrest⟩
    | cons d t =>
      unfold attributesFrom
      rw [hptr, ← append_assoc]
      by_cases hstop : c = 47 ∨ d = 62
      · rw [attributeLoop_cons]
        exact .inr (.inl (if_pos hstop))
      · have ⟨hslash, hclose⟩ := not_or.mp hstop
        refine .inr (.inr ?_)
        rcases split_first 61 (c :: d :: t) with hnone | ⟨name, w, h, hname⟩
        · exact .inl (attributeLoop_none hslash hclose hnone)
        · rw [h]
          refine (attributeLoop_name_cases hslash hclose hname h.symm).imp_right ?_
          rintro ⟨value, rest, rfl, hvalue, hroom⟩
          refine ⟨⟨blanks, name, value⟩, rest, ⟨hblank, hname, hvalue⟩, ?_, hroom, ?_⟩
          · exact (starts_iff h.symm).mpr ⟨.inr hc, hslash, hclose⟩
          · rw [encode_append]

/-- **Looking outside**: the bytes end too early. -/
theorem attributesFrom_outside_iff (left : Nat) (attributes : List XmlAttribute)
    (done u : List UInt8) :
    attributesFrom left attributes done u = .outside ↔ EndsShort left u := by
  induction left generalizing attributes done u with
  | zero =>
    unfold attributesFrom attributeLoop
    exact ⟨nofun, nofun⟩
  | succ left ih =>
    constructor
    · intro h
      rcases attributesFrom_cases left attributes done u with
        ⟨-, hshort⟩ | hfound | hnull | ⟨a, rest, ha, hstarts, hroom, rfl⟩
      · exact hshort
      · rw [h] at hfound
        cases hfound
      · rw [h] at hnull
        cases hnull
      · rw [attributesFrom_attribute ha hstarts hroom] at h
        exact .behind a ha hstarts hroom ((ih _ _ _).mp h)
    · intro h
      cases h with
      | here hblank hrest => exact attributesFrom_short hblank hrest
      | behind a ha hstarts hroom hrest =>
        rw [attributesFrom_attribute ha hstarts hroom]
        exact (ih _ _ _).mpr hrest

/-- What is in front of the pointer stays, and no name that is found begins with a blank. -/
theorem attributesFrom_found {r : List XmlAttribute} {buf : List UInt8}
    (h : attributesFrom left attributes done u = .found (r, buf)) :
    ∃ more u', r = attributes ++ more ∧ buf = done ++ u' ∧
      ∀ x ∈ more, ∀ c, buf[x.name]? = some c → ¬ IsBlank c := by
  induction left generalizing attributes done u with
  | zero =>
    unfold attributesFrom attributeLoop at h
    cases h
    exact ⟨[], u, (append_nil _).symm, rfl, fun x hx => absurd hx not_mem_nil⟩
  | succ left ih =>
    rcases attributesFrom_cases left attributes done u with
      ⟨houtside, -⟩ | hfound | hnull | ⟨a, rest, ha, hstarts, hroom, rfl⟩
    · rw [h] at houtside
      cases houtside
    · rw [h] at hfound
      cases hfound
      exact ⟨[], u, (append_nil _).symm, rfl, fun x hx => absurd hx not_mem_nil⟩
    · rw [h] at hnull
      cases hnull
    · rw [attributesFrom_attribute ha hstarts hroom] at h
      obtain ⟨more, u', rfl, rfl, hnames⟩ := ih h
      refine ⟨a.pointers done.length :: more, a.sealed ++ u', by simp, by simp,
        forall_mem_cons.mpr ⟨fun c hc => ?_, hnames⟩⟩
      have hname : (done ++ a.sealed ++ u')[(a.pointers done.length).name]? =
          (a.name ++ 0 :: 34 :: (a.value ++ 0 :: u'))[0]? := by
        have hsplit : done ++ a.sealed ++ u' =
            done ++ a.blanks ++ (a.name ++ 0 :: 34 :: (a.value ++ 0 :: u')) := by
          simp [Attribute.sealed]
        have hat : (a.pointers done.length).name = (done ++ a.blanks).length := by
          rw [length_append]
          rfl
        rw [hsplit, hat, getElem?_append_right (Nat.le_refl _), Nat.sub_self]
      rw [hname] at hc
      cases hempty : a.name with
      | nil =>
        rw [hempty] at hc
        cases hc
        decide
      | cons e name =>
        rw [hempty] at hc
        cases hc
        exact (hstarts.first c (by rw [hempty]; rfl)).1

end

/-! ## All attributes of a document -/

/-- Where the strings of attributes are that are written one after another. -/
def pointersFrom : Nat → List Attribute → List XmlAttribute
  | _, [] => []
  | ptr, a :: attributes => a.pointers ptr :: pointersFrom (ptr + a.encode.length) attributes

section
variable {left : Nat} {found : List XmlAttribute} {done rest : List UInt8}
  {attributes : List Attribute}

theorem length_sealed (a : Attribute) : a.sealed.length = a.encode.length := by
  simp [Attribute.sealed, Attribute.encode]

variable (left found done) in
/-- **Attributes that are as they shall be** are all read. -/
theorem attributesFrom_attributes (hall : ∀ a ∈ attributes, a.WellFormed ∧ Starts a.name)
    (hrest : rest ≠ []) :
    attributesFrom (attributes.length + left) found done
        (attributes.flatMap Attribute.encode ++ rest) =
      attributesFrom left (found ++ pointersFrom done.length attributes)
        (done ++ attributes.flatMap Attribute.sealed) rest := by
  induction attributes generalizing found done with
  | nil => simp [pointersFrom]
  | cons a attributes ih =>
    obtain ⟨⟨ha, hstarts⟩, hall⟩ := forall_mem_cons.mp hall
    have hleft : (a :: attributes).length + left = attributes.length + left + 1 := by
      rw [length_cons]
      omega
    have hroom : a.value = [] → attributes.flatMap Attribute.encode ++ rest ≠ [] :=
      fun _ hnil => hrest (append_eq_nil_iff.mp hnil).2
    rw [flatMap_cons, append_assoc, hleft, attributesFrom_attribute ha hstarts hroom, ih _ _ hall,
      flatMap_cons, length_append, length_sealed, pointersFrom, append_assoc,
      append_assoc]
    rfl

/-- Names that are not too long are compared as a whole. -/
theorem take_eq_take_iff {name name' : List UInt8} {n : Nat} (h : name'.length < n) :
    name.take n = name'.take n ↔ name' = name := by
  rw [take_of_length_le (Nat.le_of_lt h)]
  constructor
  · intro heq
    have hlen := congrArg List.length heq
    rw [length_take] at hlen
    rw [← heq, take_of_length_le (by omega)]
  · rintro rfl
    exact take_of_length_le (Nat.le_of_lt h)

/-- The name at its pointer. -/
theorem cStringAt_name {a : Attribute} (hname : 0 ∉ a.name) :
    cStringAt (done ++ ((a :: attributes).flatMap Attribute.sealed ++ rest))
      (a.pointers done.length).name = a.name := by
  have hsplit : done ++ ((a :: attributes).flatMap Attribute.sealed ++ rest) =
      done ++ a.blanks ++ (a.name ++ 0 :: 34 :: (a.value ++ 0 ::
        (attributes.flatMap Attribute.sealed ++ rest))) := by
    simp [Attribute.sealed]
  have hat : (a.pointers done.length).name = (done ++ a.blanks).length := by
    rw [length_append]
    rfl
  rw [hsplit, hat, cStringAt_append _ hname]

variable (rest) in
/-- **What is found** by a name is the first value with it. -/
theorem find_pointersFrom {name : List UInt8}
    (hall : ∀ a ∈ attributes, 0 ∉ a.name ∧ 0 ∉ a.value ∧ a.name.length < devprgMaxAttributeSize) :
    (((pointersFrom done.length attributes).find? fun x => name.take devprgMaxAttributeSize =
        (cStringAt (done ++ (attributes.flatMap Attribute.sealed ++ rest)) x.name).take
          devprgMaxAttributeSize).map XmlAttribute.value).map
      (fun p => (p, cStringAt (done ++ (attributes.flatMap Attribute.sealed ++ rest)) p)) =
      lookup name done.length attributes := by
  induction attributes generalizing done with
  | nil => rfl
  | cons a attributes ih =>
    obtain ⟨⟨hname, hvalue, hlen⟩, hall⟩ := forall_mem_cons.mp hall
    have hvalueAt : cStringAt (done ++ ((a :: attributes).flatMap Attribute.sealed ++ rest))
        (a.pointers done.length).value = a.value := by
      have hsplit : done ++ ((a :: attributes).flatMap Attribute.sealed ++ rest) =
          done ++ a.blanks ++ a.name ++ [0, 34] ++ (a.value ++ 0 ::
            (attributes.flatMap Attribute.sealed ++ rest)) := by
        simp [Attribute.sealed]
      have hat :
          (a.pointers done.length).value = (done ++ a.blanks ++ a.name ++ [0, 34]).length := by
        rw [length_append, length_append, length_append]
        rfl
      rw [hsplit, hat, cStringAt_append _ hvalue]
    rw [pointersFrom, find?_cons, cStringAt_name hname, lookup]
    by_cases heq : a.name = name
    · rw [if_pos heq, decide_eq_true ((take_eq_take_iff hlen).mpr heq)]
      exact congrArg (fun v => some (_, v)) hvalueAt
    · rw [if_neg heq, decide_eq_false fun h => heq ((take_eq_take_iff hlen).mp h)]
      have hrest := @ih (done ++ a.sealed) hall
      rw [length_append, length_sealed, append_assoc] at hrest
      rw [flatMap_cons, append_assoc]
      exact hrest

variable (done rest) in
/-- The names at the pointers. -/
theorem names_pointersFrom (hall : ∀ a ∈ attributes, 0 ∉ a.name) :
    (pointersFrom done.length attributes).map
        (fun x => cStringAt (done ++ (attributes.flatMap Attribute.sealed ++ rest)) x.name) =
      attributes.map Attribute.name := by
  induction attributes generalizing done with
  | nil => rfl
  | cons a attributes ih =>
    obtain ⟨hname, hall⟩ := forall_mem_cons.mp hall
    have hrest := @ih (done ++ a.sealed) hall
    rw [length_append, length_sealed, append_assoc] at hrest
    rw [pointersFrom, map_cons, map_cons, cStringAt_name hname, flatMap_cons,
      append_assoc, hrest]

/-- The loop stops at a slash. -/
theorem attributesFrom_slash {blanks : List UInt8} (hblank : ∀ c ∈ blanks, IsBlank c) :
    attributesFrom left found done (blanks ++ 47 :: rest) =
      .found (found, done ++ (blanks ++ 47 :: rest)) := by
  have hptr := findNextAttr_append done (47 :: rest) hblank fun c hc => by
    cases hc
    decide
  unfold attributesFrom
  rw [hptr]
  cases left with
  | zero => rfl
  | succ left =>
    have hfirst : (done ++ (blanks ++ 47 :: rest))[(done ++ blanks).length]? = some 47 := by
      rw [← append_assoc, getElem?_append_right (Nat.le_refl _), Nat.sub_self]
      rfl
    rw [attributeLoop, hfirst]
    exact if_pos rfl

end

end DevPrg
