import BootXf.DevPrg.XmlScan

/-!
# Documents and buffers

`open_cases` says what opening a buffer comes to before any attribute is looked at. From it,
`xml_iff` says for which buffers the scanner stays inside, and which documents it undoes.
-/

namespace DevPrg

open List Option

/-! ## The search for `<data>` -/

section
variable {lastOffset matched offset o k : Nat} {rest l prolog : List UInt8} {c : UInt8}

/-- One character is looked at. -/
theorem findData_cons (h : matched ≠ 0 ∨ offset < lastOffset) :
    findData lastOffset matched offset (c :: rest) =
      if c ≠ dataTag.getD matched 0 then findData lastOffset 0 (offset + 1) rest
      else if matched = 5 then .found (offset + 1)
      else findData lastOffset (matched + 1) (offset + 1) rest := by
  rw [findData, if_neg (by omega)]

/-- The search ends where the offset is too large. -/
theorem findData_stop (h : lastOffset ≤ offset) :
    findData lastOffset 0 offset l = .found offset := by
  cases l <;> rw [findData, if_pos ⟨rfl, h⟩]

/-- Characters of `<data>` are matched. -/
theorem findData_matches (h : matched ≠ 0 ∨ offset < lastOffset) (hk : matched + k ≤ 5) :
    findData lastOffset matched offset ((dataTag.drop matched).take k ++ rest) =
      findData lastOffset (matched + k) (offset + k) rest := by
  induction k generalizing matched offset with
  | zero => rfl
  | succ k ih =>
    have hcons : (dataTag.drop matched).take (k + 1) =
        dataTag.getD matched 0 :: (dataTag.drop (matched + 1)).take k := by
      rcases (by omega : matched = 0 ∨ matched = 1 ∨ matched = 2 ∨ matched = 3 ∨ matched = 4) with
        rfl | rfl | rfl | rfl | rfl <;> rfl
    rw [hcons, cons_append, findData_cons h, if_neg (not_not_intro rfl), if_neg (by omega),
      ih (.inl (Nat.succ_ne_zero _)) (by omega)]
    congr 1 <;> omega

/-- `<data>` is found. -/
theorem findData_data (h : offset < lastOffset) :
    findData lastOffset 0 offset (dataTag ++ rest) = .found (offset + 6) := by
  have hmatches : findData lastOffset 0 offset ((dataTag.drop 0).take 5 ++ 62 :: rest) =
      findData lastOffset (0 + 5) (offset + 5) (62 :: rest) :=
    findData_matches (.inr h) (Nat.le_refl 5)
  rw [findData_cons (.inl (by decide)), if_neg (by decide), if_pos rfl] at hmatches
  exact hmatches

/-- What is different is passed over. -/
theorem findData_pass (hk : k < 6) (hc : c ≠ dataTag.getD k 0) (h : offset < lastOffset) :
    findData lastOffset 0 offset (dataTag.take k ++ c :: rest) =
      findData lastOffset 0 (offset + k + 1) rest := by
  have hmatches : findData lastOffset 0 offset ((dataTag.drop 0).take k ++ c :: rest) =
      findData lastOffset (0 + k) (offset + k) (c :: rest) :=
    findData_matches (.inr h) (by omega)
  rw [Nat.zero_add, findData_cons (by omega), if_pos hc] at hmatches
  exact hmatches

variable (lastOffset offset rest) in
/-- Behind what is passed over `<data>` is found, if the search comes so far. -/
theorem findData_passed (h : Passed prolog) :
    (lastOffset ≤ offset + prolog.length ∧
      ∃ o, findData lastOffset 0 offset (prolog ++ (dataTag ++ rest)) = .found o ∧ lastOffset ≤ o) ∨
    offset + prolog.length < lastOffset ∧
      findData lastOffset 0 offset (prolog ++ (dataTag ++ rest)) =
        .found (offset + prolog.length + 6) := by
  induction h generalizing offset with
  | nil =>
    rcases Nat.lt_or_ge offset lastOffset with hlt | hge
    · exact .inr ⟨hlt, findData_data hlt⟩
    · exact .inl ⟨hge, offset, findData_stop hge, hge⟩
  | @pass k c prolog hk hc _ ih =>
    have hlen : (dataTag.take k ++ c :: prolog).length = k + 1 + prolog.length := by
      have htag : dataTag.length = 6 := rfl
      rw [length_append, length_take, length_cons, htag]
      omega
    rcases Nat.lt_or_ge offset lastOffset with hlt | hge
    · rw [append_assoc, cons_append, findData_pass hk hc hlt, hlen, ← Nat.add_assoc,
        ← Nat.add_assoc]
      exact ih _
    · exact .inl ⟨by omega, offset, findData_stop hge, hge⟩

/-- What the search comes to. -/
theorem findData_found (hm : matched < 6) (hinside : matched ≠ 0 → offset < lastOffset + matched)
    (h : findData lastOffset matched offset l = .found o) :
    lastOffset ≤ o ∨ ∃ prolog rest, Passed prolog ∧
      dataTag.take matched ++ l = prolog ++ (dataTag ++ rest) ∧
      o + matched = offset + prolog.length + 6 ∧ offset + prolog.length < lastOffset + matched := by
  induction l generalizing matched offset with
  | nil =>
    rw [findData] at h
    split at h
    · next hle =>
      cases h
      exact .inl hle.2
    · cases h
  | cons c l ih =>
    by_cases hgo : matched ≠ 0 ∨ offset < lastOffset
    · have hinside : offset < lastOffset + matched := by
        by_cases hzero : matched = 0
        · omega
        · exact hinside hzero
      rw [findData_cons hgo] at h
      split at h
      · next hc =>
        refine (ih (by decide) (fun hne => absurd rfl hne) h).imp_right ?_
        rintro ⟨prolog, rest, hpassed, rfl, ho, hlt⟩
        have hlen : (dataTag.take matched ++ c :: prolog).length = matched + 1 + prolog.length := by
          have htag : dataTag.length = 6 := rfl
          rw [length_append, length_take, length_cons, htag]
          omega
        refine ⟨dataTag.take matched ++ c :: prolog, rest, .pass hm hc hpassed, ?_, ?_, ?_⟩
        · rw [append_assoc]
          rfl
        · omega
        · omega
      · next hc =>
        have hc := Decidable.not_not.mp hc
        split at h
        · next hlast =>
          cases h
          refine .inr ⟨[], l, .nil, ?_, by rw [length_nil]; omega, hinside⟩
          rw [hc, hlast]
          rfl
        · next hlast =>
          have htake : dataTag.take (matched + 1) ++ l = dataTag.take matched ++ c :: l := by
            rw [hc]
            have hfew : matched = 0 ∨ matched = 1 ∨ matched = 2 ∨ matched = 3 ∨ matched = 4 := by
              omega
            rcases hfew with rfl | rfl | rfl | rfl | rfl <;> rfl
          refine (ih (by omega) (fun _ => by omega) h).imp_right ?_
          rintro ⟨prolog, rest, hpassed, hl, ho, hlt⟩
          exact ⟨prolog, rest, hpassed, htake ▸ hl, by omega, by omega⟩
    · rw [findData, if_pos (by omega)] at h
      cases h
      exact .inl (by omega)

/-- The search stays inside a buffer that is not shorter than `<data>`. -/
theorem findData_inside (hm : matched < 6) (hlen : lastOffset + 6 = offset + l.length)
    (hinside : matched ≠ 0 → offset < lastOffset + matched) :
    findData lastOffset matched offset l ≠ .outside := by
  induction l generalizing matched offset with
  | nil =>
    rw [length_nil] at hlen
    rw [findData, if_pos]
    · exact nofun
    · omega
  | cons c l ih =>
    rw [length_cons] at hlen
    rw [findData]
    split
    · exact nofun
    · split
      · exact ih (by decide) (by omega) fun hne => absurd rfl hne
      · split
        · exact nofun
        · exact ih (by omega) (by omega) fun _ => by omega

/-- It does not stay inside a shorter one. -/
theorem findData_outside (hlast : 6 ≤ lastOffset) (hlen : offset + l.length < 6)
    (hmatched : matched ≤ offset) : findData lastOffset matched offset l = .outside := by
  induction l generalizing matched offset with
  | nil =>
    rw [length_nil] at hlen
    rw [findData, if_neg (by omega)]
  | cons c l ih =>
    rw [length_cons] at hlen
    rw [findData, if_neg (by omega)]
    split
    · exact ih (by omega) (Nat.zero_le _)
    · rw [if_neg (by omega)]
      exact ih (by omega) (by omega)

end

/-! ## The search for a character -/

section
variable {c : UInt8} {ptr p : Nat} {l rest : List UInt8}

theorem seek_append (h : c ∉ l) : seek c ptr (l ++ c :: rest) = .found (ptr + l.length) := by
  induction l generalizing ptr with
  | nil => exact if_pos rfl
  | cons d l ih =>
    have hne : d ≠ c := fun heq => h (heq ▸ .head _)
    have hmore : l ++ c :: rest ≠ [] := append_ne_nil_of_right_ne_nil _ (cons_ne_nil _ _)
    rw [cons_append, seek, if_neg hne, if_neg hmore, ih fun hmem => h (.tail _ hmem),
      length_cons]
    congr 1
    omega

/-- A character that is not there is not found; where there is none at all the search looks
outside. -/
theorem seek_none (h : c ∉ l) : seek c ptr l = if l = [] then .outside else .null := by
  induction l generalizing ptr with
  | nil => rfl
  | cons d l ih =>
    have hne : d ≠ c := fun heq => h (heq ▸ .head _)
    rw [seek, if_neg hne, if_neg (cons_ne_nil _ _)]
    split
    · rfl
    · next hmore => rw [ih fun hmem => h (.tail _ hmem), if_neg hmore]

end

/-! ## Opening -/

/-- Everything in front of the tag. -/
def front (prolog between : List UInt8) : List UInt8 := prolog ++ (dataTag ++ (between ++ [60]))

theorem length_front (prolog between : List UInt8) :
    (front prolog between).length = prolog.length + 6 + between.length + 1 := by
  have htag : dataTag.length = 6 := rfl
  simp only [front, length_append, length_singleton, htag]
  omega

/-- What the attributes come to is the handle. -/
def handleOf (tag : Nat) (r : List XmlAttribute × List UInt8) : Scanned XmlHandle :=
  .found { inUse := true, buf := r.2, tag, attributes := r.1 }

section
variable {prolog between tag u rest : List UInt8}

/-- `<data>` and the tag are found. -/
theorem open_rest (hprolog : Passed prolog) (hbetween : 60 ∉ between)
    (hbody : 6 < between.length + 1 + rest.length) :
    devprgXmlCommandOpen (prolog ++ (dataTag ++ (between ++ 60 :: rest))) =
      (seek 32 (front prolog between).length rest).bind fun ptr =>
        (attributeLoop devprgMaxNumAttributes [] ((front prolog between ++ rest).set ptr 0)
          (findNextAttr ((front prolog between ++ rest).set ptr 0) (ptr + 1))).bind
            (handleOf (front prolog between).length) := by
  have htag : dataTag.length = 6 := rfl
  have hlen : (prolog ++ (dataTag ++ (between ++ 60 :: rest))).length =
      prolog.length + 6 + (between.length + 1 + rest.length) := by
    simp only [length_append, length_cons, htag]
    omega
  have hlast : lastOffsetOf (prolog ++ (dataTag ++ (between ++ 60 :: rest))).length =
      prolog.length + (between.length + 1 + rest.length) := by
    unfold lastOffsetOf
    rw [hlen, if_neg (by omega)]
    omega
  have hdata : findData (prolog.length + (between.length + 1 + rest.length)) 0 0
      (prolog ++ (dataTag ++ (between ++ 60 :: rest))) = .found (prolog.length + 6) := by
    rcases findData_passed (prolog.length + (between.length + 1 + rest.length)) 0
      (between ++ 60 :: rest) hprolog with ⟨hle, -⟩ | ⟨-, hfound⟩
    · omega
    · rw [hfound, Nat.zero_add]
  have hdrop : (prolog ++ (dataTag ++ (between ++ 60 :: rest))).drop (prolog.length + 6) =
      between ++ 60 :: rest := by
    rw [← drop_drop, drop_left]
    rfl
  have hfront : prolog ++ (dataTag ++ (between ++ 60 :: rest)) = front prolog between ++ rest := by
    simp [front]
  have hat : prolog.length + 6 + between.length + 1 = (front prolog between).length :=
    (length_front ..).symm
  unfold devprgXmlCommandOpen
  dsimp only
  rw [hlast, hdata]
  dsimp only [Scanned.bind]
  rw [if_neg (by omega), hdrop, seek_append hbetween]
  dsimp only [Scanned.bind]
  rw [hat, hfront, drop_left]
  rfl

/-- The attributes are looked for behind the blank after the tag. -/
theorem open_tag (hprolog : Passed prolog) (hbetween : 60 ∉ between) (htag : 32 ∉ tag)
    (hbody : 6 < between.length + 1 + (tag ++ 32 :: u).length) :
    devprgXmlCommandOpen (prolog ++ (dataTag ++ (between ++ 60 :: (tag ++ 32 :: u)))) =
      (attributesFrom devprgMaxNumAttributes [] (front prolog between ++ tag ++ [0]) u).bind
        (handleOf (front prolog between).length) := by
  have hptr : (front prolog between).length + tag.length = (front prolog between ++ tag).length :=
    length_append.symm
  have hset :
      (front prolog between ++ (tag ++ 32 :: u)).set (front prolog between ++ tag).length 0 =
      front prolog between ++ tag ++ [0] ++ u := by
    rw [← append_assoc, set_append_cons, append_assoc _ [0]]
    rfl
  have hnext : (front prolog between ++ tag).length + 1 =
      (front prolog between ++ tag ++ [0]).length := by
    rw [length_append, length_append, length_append]
    rfl
  rw [open_rest hprolog hbetween hbody, seek_append htag]
  dsimp only [Scanned.bind]
  rw [hptr, hset, hnext]
  rfl

end

variable {buf : List UInt8}

/-- A buffer that is shorter than `<data>`. -/
theorem open_short (hshort : buf.length < 6) :
    devprgXmlCommandOpen buf = .outside := by
  have hlast : 6 ≤ lastOffsetOf buf.length := by
    unfold lastOffsetOf
    rw [if_pos hshort]
    omega
  unfold devprgXmlCommandOpen
  dsimp only
  rw [findData_outside hlast (by omega) (Nat.le_refl 0)]
  rfl

/-- **Opening** looks outside of the buffer, fails, or comes to the attributes. -/
theorem open_cases (buf : List UInt8) :
    (devprgXmlCommandOpen buf = .outside ∧ CutShort buf) ∨ devprgXmlCommandOpen buf = .null ∨
    ∃ prolog between tag u, Passed prolog ∧ 60 ∉ between ∧ 32 ∉ tag ∧
      buf = prolog ++ (dataTag ++ (between ++ 60 :: (tag ++ 32 :: u))) ∧
      6 < between.length + 1 + (tag ++ 32 :: u).length := by
  rcases Nat.lt_or_ge buf.length 6 with hshort | hlong
  · exact .inl ⟨open_short hshort, .inl hshort⟩
  · have hlast : lastOffsetOf buf.length + 6 = buf.length := by
      unfold lastOffsetOf
      rw [if_neg (by omega)]
      omega
    cases hdata : findData (lastOffsetOf buf.length) 0 0 buf with
    | outside =>
      exact absurd hdata (findData_inside (by decide) (by omega) fun hne => absurd rfl hne)
    | null =>
      refine .inr (.inl ?_)
      unfold devprgXmlCommandOpen
      dsimp only
      rw [hdata]
      rfl
    | found o =>
      have hstop : lastOffsetOf buf.length ≤ o → devprgXmlCommandOpen buf = .null := fun hle => by
        unfold devprgXmlCommandOpen
        dsimp only
        rw [hdata]
        exact if_pos hle
      rcases findData_found (by decide) (fun hne => absurd rfl hne) hdata with
        hle | ⟨prolog, body, hprolog, hbuf, ho, -⟩
      · exact .inr (.inl (hstop hle))
      rcases Nat.lt_or_ge o (lastOffsetOf buf.length) with hlt | hle
      · have hbuf : buf = prolog ++ (dataTag ++ body) := hbuf
        have ho : o = prolog.length + 6 := by omega
        have hlen : buf.length = prolog.length + 6 + body.length := by
          have htag : dataTag.length = 6 := rfl
          rw [hbuf, length_append, length_append, htag]
          omega
        rcases split_first 60 body with hnone | ⟨between, rest, rfl, hbetween⟩
        · have hdrop : buf.drop o = body := by
            rw [hbuf, ho, ← drop_drop, drop_left]
            rfl
          have hmore : body ≠ [] := fun hnil => by
            rw [hnil, length_nil] at hlen
            omega
          refine .inr (.inl ?_)
          unfold devprgXmlCommandOpen
          dsimp only
          rw [hdata]
          dsimp only [Scanned.bind]
          rw [if_neg (Nat.not_le.mpr hlt), hdrop, seek_none hnone, if_neg hmore]
        · rw [length_append, length_cons] at hlen
          have hbody : 6 < between.length + 1 + rest.length := by omega
          rw [hbuf]
          rcases split_first 32 rest with hnone | ⟨tag, u, rfl, htag⟩
          · rw [open_rest hprolog hbetween hbody, seek_none hnone]
            by_cases hempty : rest = []
            · rw [if_pos hempty]
              exact .inl
                ⟨rfl, .inr ⟨prolog, between, rest, hprolog, hbetween, rfl, hbody, .inl hempty⟩⟩
            · rw [if_neg hempty]
              exact .inr (.inl rfl)
          · exact .inr (.inr ⟨prolog, between, tag, u, hprolog, hbetween, htag, rfl, hbody⟩)
      · exact .inr (.inl (hstop hle))

/-- The scanner stays inside the buffer. -/
def InBuffer (buf : List UInt8) : Prop := devprgXmlCommandOpen buf ≠ .outside

/-- **The scanner stays inside** the buffers that are not cut short. -/
theorem inBuffer_iff (buf : List UInt8) : InBuffer buf ↔ ¬ CutShort buf := by
  refine not_congr ⟨fun houtside => ?_, fun hshort => ?_⟩
  · rcases open_cases buf with ⟨-, hshort⟩ | hnull |
      ⟨prolog, between, tag, u, hprolog, hbetween, htag, rfl, hbody⟩
    · exact hshort
    · rw [houtside] at hnull
      cases hnull
    · rw [open_tag hprolog hbetween htag hbody] at houtside
      have hloop : attributesFrom devprgMaxNumAttributes [] (front prolog between ++ tag ++ [0]) u =
          .outside := by
        cases hrun :
          attributesFrom devprgMaxNumAttributes [] (front prolog between ++ tag ++ [0]) u with
        | outside => rfl
        | null =>
          rw [hrun] at houtside
          cases houtside
        | found r =>
          rw [hrun] at houtside
          cases houtside
      exact .inr ⟨prolog, between, tag ++ 32 :: u, hprolog, hbetween, rfl, hbody,
        .inr ⟨tag, u, htag, rfl, (attributesFrom_outside_iff _ _ _ _).mp hloop⟩⟩
  · rcases hshort with hshort | ⟨prolog, between, rest, hprolog, hbetween, rfl, hbody, hrest⟩
    · exact open_short hshort
    · rcases hrest with rfl | ⟨tag, u, htag, rfl, hends⟩
      · rw [open_rest hprolog hbetween hbody]
        rfl
      · rw [open_tag hprolog hbetween htag hbody, (attributesFrom_outside_iff _ _ _ _).mpr hends]
        rfl

/-! ## Documents -/

namespace Document
variable {d : Document}

theorem rest_nonempty : ∃ c u, d.rest = c :: u ∧ c ≠ 0 := by
  unfold rest
  cases hattributes : d.attributes with
  | nil =>
    cases hclosing : d.closing with
    | nil => exact ⟨47, 62 :: d.behind, rfl, by decide⟩
    | cons c closing =>
      refine ⟨c, _, rfl, fun hzero => ?_⟩
      have hblank := d.closing_ok c (by rw [hclosing]; exact .head _)
      rw [hzero] at hblank
      exact absurd hblank (by decide)
  | cons a attributes =>
    obtain ⟨ha, hsome, -, -⟩ := d.attributes_ok a (by rw [hattributes]; exact .head _)
    cases hblanks : a.blanks with
    | nil => exact absurd hblanks hsome
    | cons c blanks =>
      refine ⟨c, ?_, ?_, fun hzero => ?_⟩
      · exact blanks ++ (a.name ++ ([61, 34] ++ (a.value ++ [34]))) ++
          (attributes.flatMap Attribute.encode ++ (d.closing ++ ([47, 62] ++ d.behind)))
      · rw [flatMap_cons, Attribute.encode, hblanks, append_assoc]
        simp
      · have hblank := ha.blanks c (by rw [hblanks]; exact .head _)
        rw [hzero] at hblank
        exact absurd hblank (by decide)

/-- **Behind the blank** after the tag there are the same attributes, with a blank less. -/
theorem rest_cases {u : List UInt8} (h : d.rest = 32 :: u) : ∃ attributes closing,
    u = attributes.flatMap Attribute.encode ++ (closing ++ ([47, 62] ++ d.behind)) ∧
    attributes.map Attribute.name = d.attributes.map Attribute.name ∧
    (∀ a ∈ attributes, a.WellFormed ∧ 0 ∉ a.name ∧ 0 ∉ a.value) ∧ (∀ c ∈ closing, IsBlank c) ∧
    ∀ name ptr, lookup name ptr d.attributes = lookup name (ptr + 1) attributes := by
  have hok := d.attributes_ok
  unfold rest at h
  cases hattributes : d.attributes with
  | nil =>
    rw [hattributes] at h
    cases hclosing : d.closing with
    | nil =>
      rw [hclosing] at h
      cases h
    | cons c closing =>
      rw [hclosing] at h
      cases h
      refine ⟨[], closing, rfl, rfl, fun a ha => absurd ha not_mem_nil, fun c hc => ?_,
        fun _ _ => rfl⟩
      exact d.closing_ok c (by rw [hclosing]; exact .tail _ hc)
  | cons a attributes =>
    rw [hattributes] at h hok
    obtain ⟨⟨ha, hsome, hname, hvalue⟩, hrest⟩ := forall_mem_cons.mp hok
    cases hblanks : a.blanks with
    | nil => exact absurd hblanks hsome
    | cons c blanks =>
      have hblank : ∀ c ∈ blanks, IsBlank c := fun c hc =>
        ha.blanks c (by rw [hblanks]; exact .tail _ hc)
      rw [flatMap_cons, Attribute.encode, hblanks] at h
      refine ⟨{ a with blanks } :: attributes, d.closing, ?_, rfl,
        forall_mem_cons.mpr ⟨⟨⟨hblank, ha.name, ha.value⟩, hname, hvalue⟩, fun a ha => ?_⟩,
        d.closing_ok, fun name ptr => ?_⟩
      · rw [flatMap_cons, Attribute.encode]
        have h := (List.cons.inj h).2
        rw [← h]
        simp
      · obtain ⟨ha, -, hname, hvalue⟩ := hrest a ha
        exact ⟨ha, hname, hvalue⟩
      · have hlen : ptr + a.encode.length =
            ptr + 1 + ({ a with blanks } : Attribute).encode.length := by
          simp only [Attribute.encode, hblanks, length_append, length_cons]
          omega
        have hstart : ptr + (blanks.length + 1) = ptr + 1 + blanks.length := by omega
        rw [lookup, lookup, hlen, hblanks, length_cons, hstart]

/-- The attributes of a document that are as they shall be. -/
theorem open_fits (h : d.Fits) : ∃ attributes u' u, d.rest = 32 :: u ∧
    attributes.map Attribute.name = d.attributes.map Attribute.name ∧
    (∀ a ∈ attributes, 0 ∉ a.name ∧ 0 ∉ a.value ∧ a.name.length < devprgMaxAttributeSize) ∧
    (∀ name ptr, lookup name ptr d.attributes = lookup name (ptr + 1) attributes) ∧
    devprgXmlCommandOpen d.encode = .found
      { inUse := true
        buf :=
          front d.prolog d.between ++ d.tag ++ [0] ++ (attributes.flatMap Attribute.sealed ++ u')
        tag := d.tagAt
        attributes :=
          pointersFrom (front d.prolog d.between ++ d.tag ++ [0]).length attributes } := by
  obtain ⟨u, hu⟩ : ∃ u, d.rest = 32 :: u := by
    obtain ⟨c, u, hcons, -⟩ := d.rest_nonempty
    have hhead := h.tag
    rw [hcons] at hhead
    cases hhead
    exact ⟨u, hcons⟩
  obtain ⟨attributes, closing, rfl, hnames, hok, hclosing, hlookup⟩ := rest_cases hu
  have hfits : ∀ a ∈ attributes, Starts a.name ∧ a.name.length < devprgMaxAttributeSize := by
    intro a ha
    have hmem : a.name ∈ d.attributes.map Attribute.name := hnames ▸ List.mem_map_of_mem ha
    obtain ⟨b, hb, heq⟩ := List.mem_map.mp hmem
    rw [← heq]
    exact h.names b hb
  have htag : 32 ∉ d.tag := fun hmem => (d.tag_ok 32 hmem).1 (.inl rfl)
  have hbody := h.body
  have hencode : d.encode = d.prolog ++ (dataTag ++ (d.between ++ 60 :: (d.tag ++ 32 ::
      (attributes.flatMap Attribute.encode ++ (closing ++ ([47, 62] ++ d.behind)))))) := by
    rw [encode, body, hu]
  have hmax : attributes.length + (devprgMaxNumAttributes - attributes.length) =
      devprgMaxNumAttributes := by
    have hle := d.attributes_le
    have hlen := congrArg List.length hnames
    rw [length_map, length_map] at hlen
    omega
  have hmore : closing ++ ([47, 62] ++ d.behind) ≠ [] :=
    append_ne_nil_of_right_ne_nil _ (cons_ne_nil _ _)
  have hloop := attributesFrom_attributes (devprgMaxNumAttributes - attributes.length) []
    (front d.prolog d.between ++ d.tag ++ [0]) (fun a ha => ⟨(hok a ha).1, (hfits a ha).1⟩) hmore
  rw [hmax, cons_append, attributesFrom_slash hclosing] at hloop
  refine ⟨attributes, closing ++ ([47, 62] ++ d.behind), _, hu, hnames, fun a ha => ?_, hlookup, ?_⟩
  · exact ⟨(hok a ha).2.1, (hok a ha).2.2, (hfits a ha).2⟩
  · rw [body, hu, length_append, length_cons] at hbody
    rw [hencode, open_tag h.prolog d.between_ok htag (by omega), cons_append, hloop]
    dsimp only [Scanned.bind, handleOf]
    rw [append_assoc (front d.prolog d.between ++ d.tag ++ [0]), length_front]
    rfl

/-- **Documents that are as they shall be are undone.** -/
theorem Fits.roundTrips (h : d.Fits) : RoundTrips d := by
  obtain ⟨attributes, u', u, -, -, hok, hlookup, hopen⟩ := open_fits h
  refine ⟨_, hopen, ?_, fun name hname => ?_⟩
  · have htag : cStringAt (front d.prolog d.between ++ d.tag ++ [0] ++
        (attributes.flatMap Attribute.sealed ++ u')) d.tagAt = d.tag := by
      have hsplit : front d.prolog d.between ++ d.tag ++ [0] ++
          (attributes.flatMap Attribute.sealed ++ u') =
          front d.prolog d.between ++
            (d.tag ++ 0 :: (attributes.flatMap Attribute.sealed ++ u')) := by
        simp
      have hat : d.tagAt = (front d.prolog d.between).length := (length_front ..).symm
      rw [hsplit, hat, cStringAt_append _ fun hmem => (d.tag_ok 0 hmem).2 rfl]
    exact congrArg (fun t => some (d.tagAt, t)) htag
  · have hlen : d.tagAt + d.tag.length + 1 = (front d.prolog d.between ++ d.tag ++ [0]).length := by
      rw [length_append, length_append, length_front]
      rfl
    rw [hlookup, hlen, ← find_pointersFrom u' hok]
    rfl

end Document

/-- Where `<data>` and the tag are found. -/
theorem append_data_inj {prolog prolog' between between' r r' : List UInt8}
    (hbetween : 60 ∉ between)
    (h : prolog ++ (dataTag ++ (between ++ 60 :: r)) = prolog' ++
      (dataTag ++ (between' ++ 60 :: r')))
    (hlen : prolog.length + between.length = prolog'.length + between'.length) :
    prolog'.length ≤ prolog.length := by
  refine Nat.le_of_not_lt fun hlt => ?_
  obtain ⟨m, rfl⟩ : ∃ m, prolog' = prolog ++ m := by
    rcases append_eq_append_iff.mp h with ⟨m, hm, -⟩ | ⟨m, hm, -⟩
    · exact ⟨m, hm⟩
    · rw [hm, length_append] at hlt
      omega
  rw [append_assoc] at h
  have h := append_cancel_left h
  rw [length_append] at hlt hlen
  -- a `<data>` that is somewhere else begins behind the other one
  obtain ⟨m', rfl, hm'⟩ : ∃ m', m = dataTag ++ m' ∧
      between ++ 60 :: r = m' ++ (dataTag ++ (between' ++ 60 :: r')) := by
    rcases append_eq_append_iff.mp h with ⟨m', hm, hrest⟩ | ⟨c, hm, hrest⟩
    · exact ⟨m', hm, hrest⟩
    · cases m with
      | nil =>
        rw [length_nil] at hlt
        omega
      | cons x m =>
        cases c with
        | nil =>
          rw [append_nil] at hm
          exact ⟨[], by rw [append_nil, hm], hrest.symm⟩
        | cons y c =>
          have hy : 60 = y := (List.cons.inj hrest).1
          have htail : dataTag.tail = m ++ y :: c := by
            rw [hm]
            rfl
          have hmem : (60 : UInt8) ∈ dataTag.tail := by
            rw [htail, hy]
            exact mem_append_right _ (.head _)
          exact absurd hmem (by decide)
  have htag : dataTag.length = 6 := rfl
  rw [length_append, htag] at hlen
  have hget := congrArg (fun l : List UInt8 => l[m'.length]?) hm'
  rw [getElem?_append_left (by omega), getElem?_append_right (Nat.le_refl _),
    Nat.sub_self] at hget
  exact hbetween (mem_of_getElem? hget)

/-- Whether a name is taken for something else is told by its first characters. -/
theorem Starts.of_take {name name' : List UInt8} (h : Starts name)
    (heq : name'.take devprgMaxAttributeSize = name.take devprgMaxAttributeSize) :
    Starts name' := by
  have hget : ∀ i, i < devprgMaxAttributeSize → name'[i]? = name[i]? := fun i hi => by
    have hboth := congrArg (fun l : List UInt8 => l[i]?) heq
    rwa [getElem?_take_of_lt hi, getElem?_take_of_lt hi] at hboth
  refine ⟨fun c hc => h.first c ?_, ?_⟩
  · rw [← hget 0 (by decide)]
    exact hc
  · rw [hget 1 (by decide)]
    exact h.second

/-- The first of a list for which something is false. -/
theorem first_not {α : Type} (P : α → Prop) (l : List α) :
    (∀ a ∈ l, P a) ∨ ∃ l' a rest, l = l' ++ a :: rest ∧ (∀ b ∈ l', P b) ∧ ¬ P a := by
  induction l with
  | nil => exact .inl fun a ha => absurd ha not_mem_nil
  | cons a l ih =>
    by_cases ha : P a
    · rcases ih with hall | ⟨l', b, rest, rfl, hl', hb⟩
      · exact .inl (forall_mem_cons.mpr ⟨ha, hall⟩)
      · exact .inr ⟨a :: l', b, rest, rfl, forall_mem_cons.mpr ⟨ha, hl'⟩, hb⟩
    · exact .inr ⟨[], a, l, rfl, fun b hb => absurd hb not_mem_nil, ha⟩

variable {attributes : List Attribute} {name : List UInt8}

theorem lookup_isSome (ptr : Nat)
    (h : name ∈ attributes.map Attribute.name) : (lookup name ptr attributes).isSome := by
  induction attributes generalizing ptr with
  | nil => cases h
  | cons a attributes ih =>
    rw [lookup]
    split
    · rfl
    · next hne => exact ih _ ((mem_cons.mp h).resolve_left fun heq => hne heq.symm)

theorem lookup_eq_none (ptr : Nat)
    (h : name ∉ attributes.map Attribute.name) : lookup name ptr attributes = none := by
  induction attributes generalizing ptr with
  | nil => rfl
  | cons a attributes ih =>
    rw [lookup, if_neg fun heq => h (mem_cons.mpr (.inl heq.symm)),
      ih _ fun hmem => h (.tail _ hmem)]

/-- What a string begins with. -/
theorem getElem?_of_cStringAt {ptr : Nat} {c : UInt8}
    (h : (cStringAt buf ptr).head? = some c) : buf[ptr]? = some c := by
  have hfirst : buf[ptr]? = (buf.drop ptr)[0]? := by rw [getElem?_drop, Nat.add_zero]
  unfold cStringAt at h
  rw [hfirst]
  cases hdrop : buf.drop ptr with
  | nil =>
    rw [hdrop] at h
    cases h
  | cons d rest =>
    rw [hdrop, takeWhile_cons] at h
    split at h
    · exact h
    · cases h

/-- Blanks end where something else begins. -/
theorem blanks_inj {l l' m m' : List UInt8} (hl : ∀ c ∈ l, IsBlank c) (hl' : ∀ c ∈ l', IsBlank c)
    (hm : ∀ c, m.head? = some c → ¬ IsBlank c) (hm' : ∀ c, m'.head? = some c → ¬ IsBlank c)
    (h : l ++ m = l' ++ m') : l = l' ∧ m = m' := by
  have hptr := congrArg (fun u => findNextAttr ([] ++ u) ([] : List UInt8).length) h
  rw [findNextAttr_append [] m hl hm, findNextAttr_append [] m' hl' hm'] at hptr
  exact append_inj h hptr

/-- An attribute that is read is the one that is there, if its name does not begin with a blank. -/
theorem encode_name_inj {a a' : Attribute} {rest rest' : List UInt8} (ha : a.WellFormed)
    (ha' : a'.WellFormed) (hname : ∀ c, a.name.head? = some c → ¬ IsBlank c)
    (hstarts : Starts a'.name) (h : a.encode ++ rest = a'.encode ++ rest') : a.name = a'.name := by
  rw [encode_append, encode_append] at h
  have hhead : ∀ c, (a.name ++ 61 :: 34 :: (a.value ++ 34 :: rest)).head? = some c →
      ¬ IsBlank c := by
    intro c hc
    cases hempty : a.name with
    | nil =>
      rw [hempty] at hc
      cases hc
      decide
    | cons d name =>
      rw [hempty] at hc
      cases hc
      exact hname c (by rw [hempty]; rfl)
  obtain ⟨-, h⟩ := blanks_inj ha.blanks ha'.blanks hhead (not_blank_name hstarts) h
  exact (append_cons_inj ha.name ha'.name h).1

/-- **A name that is taken for something else** is not found. -/
theorem starts_of_found {left : Nat} {done u' : List UInt8}
    {r : List XmlAttribute} (hok : ∀ a ∈ attributes, a.WellFormed ∧ 0 ∉ a.name)
    (hleft : attributes.length ≤ left)
    (hfound : attributesFrom left [] done (attributes.flatMap Attribute.encode ++ u') =
      .found (r, buf))
    (hnames : ∀ a ∈ attributes, ∃ x ∈ r, a.name.take devprgMaxAttributeSize =
      (cStringAt buf x.name).take devprgMaxAttributeSize) :
    ∀ a ∈ attributes, Starts a.name := by
  rcases first_not (fun a => Starts a.name) attributes with hall | ⟨as, a, bs, rfl, has, ha⟩
  · exact hall
  exfalso
  rw [length_append, length_cons] at hleft
  obtain ⟨k, rfl⟩ : ∃ k, left = as.length + (k + 1) := ⟨left - as.length - 1, by omega⟩
  have hsplit : (as ++ a :: bs).flatMap Attribute.encode ++ u' =
      as.flatMap Attribute.encode ++ (a.encode ++ (bs.flatMap Attribute.encode ++ u')) := by
    simp
  have hmore : a.encode ++ (bs.flatMap Attribute.encode ++ u') ≠ [] := by
    simp [Attribute.encode]
  have hok' := fun b hb => hok b (mem_append_left _ hb)
  have hwell := (hok a (mem_append_right _ (.head _))).1
  rw [hsplit, attributesFrom_attributes _ _ _
    (fun b hb => ⟨(hok' b hb).1, has b hb⟩) hmore] at hfound
  obtain ⟨more, v, rfl, rfl, hblank⟩ := attributesFrom_found hfound
  obtain ⟨x, hx, htake⟩ := hnames a (mem_append_right _ (.head _))
  rcases mem_append.mp hx with hx | hx
  · -- the names in front of it are not taken for anything else
    have hmem : cStringAt (done ++ as.flatMap Attribute.sealed ++ v) x.name ∈
        as.map Attribute.name := by
      rw [← names_pointersFrom done v fun b hb => (hok' b hb).2,
        ← append_assoc]
      exact List.mem_map_of_mem hx
    obtain ⟨b, hb, heq⟩ := List.mem_map.mp hmem
    rw [← heq] at htake
    exact ha ((has b hb).of_take htake)
  · by_cases hname : ∀ c, a.name.head? = some c → ¬ IsBlank c
    · -- the loop stops at it
      rcases attributesFrom_cases k ([] ++ pointersFrom done.length as)
        (done ++ as.flatMap Attribute.sealed) (a.encode ++ (bs.flatMap Attribute.encode ++ u')) with
        ⟨houtside, -⟩ | hstop | hnull | ⟨a', rest', ha', hstarts, -, hsame⟩
      · rw [hfound] at houtside
        cases houtside
      · rw [hfound] at hstop
        injection hstop with hstop
        have hlen := congrArg (fun r : List XmlAttribute × List UInt8 => r.1.length) hstop
        dsimp only at hlen
        simp only [length_append] at hlen
        rw [length_eq_zero_iff.mp (by omega : more.length = 0)] at hx
        cases hx
      · rw [hfound] at hnull
        cases hnull
      · rw [encode_name_inj hwell ha' hname hstarts hsame] at ha
        exact ha hstarts
    · -- what is found behind it does not begin with a blank
      obtain ⟨c, hc⟩ := Classical.not_forall.mp hname
      obtain ⟨hhead, hc⟩ := Classical.not_imp.mp hc
      have hc := Decidable.not_not.mp hc
      have hfirst :
          (cStringAt (done ++ as.flatMap Attribute.sealed ++ v) x.name).head? = some c := by
        have hboth := congrArg head? htake
        rw [head?_take, head?_take, hhead] at hboth
        exact hboth.symm
      exact hblank x hx c (getElem?_of_cStringAt hfirst) hc

/-- What is found by a name. -/
theorem getValue_isSome_iff {handle : XmlHandle} (h : handle.inUse = true) :
    (devprgXmlGetValue handle name).isSome ↔ ∃ x ∈ handle.attributes,
      name.take devprgMaxAttributeSize =
        (cStringAt handle.buf x.name).take devprgMaxAttributeSize := by
  unfold devprgXmlGetValue
  rw [if_pos h, isSome_map, find?_isSome]
  simp only [decide_eq_true_eq]

/-- No name is longer than some number. -/
theorem length_bound (l : List (List UInt8)) : ∃ n, ∀ name ∈ l, name.length ≤ n := by
  induction l with
  | nil => exact ⟨0, fun name hname => absurd hname not_mem_nil⟩
  | cons name l ih =>
    obtain ⟨n, hn⟩ := ih
    exact ⟨max name.length n, forall_mem_cons.mpr ⟨Nat.le_max_left .., fun other hother =>
      Nat.le_trans (hn other hother) (Nat.le_max_right ..)⟩⟩

/-- **Documents that are undone** are as they shall be. -/
theorem RoundTrips.fits {d : Document} (h : RoundTrips d) : d.Fits := by
  obtain ⟨handle, hopen, htag, hvalues⟩ := h
  obtain ⟨prolog, between, tag, u, hprolog, hbetween, hblank, hencode, hbody⟩ :
      ∃ prolog between tag u,
      Passed prolog ∧ 60 ∉ between ∧ 32 ∉ tag ∧
      d.encode = prolog ++ (dataTag ++ (between ++ 60 :: (tag ++ 32 :: u))) ∧
      6 < between.length + 1 + (tag ++ 32 :: u).length := by
    rcases open_cases d.encode with ⟨houtside, -⟩ | hnull | hfound
    · rw [hopen] at houtside
      cases houtside
    · rw [hopen] at hnull
      cases hnull
    · exact hfound
  rw [hencode, open_tag hprolog hbetween hblank hbody] at hopen
  obtain ⟨r, hloop, hhandle⟩ : ∃ r, attributesFrom devprgMaxNumAttributes []
      (front prolog between ++ tag ++ [0]) u = .found r ∧
      handle =
        { inUse := true, buf := r.2, tag := (front prolog between).length, attributes := r.1 } := by
    cases hrun :
      attributesFrom devprgMaxNumAttributes [] (front prolog between ++ tag ++ [0]) u with
    | outside =>
      rw [hrun] at hopen
      cases hopen
    | null =>
      rw [hrun] at hopen
      cases hopen
    | found r =>
      rw [hrun] at hopen
      cases hopen
      exact ⟨r, rfl, rfl⟩
  obtain ⟨-, u', -, hbuf, -⟩ := @attributesFrom_found _ _ _ _ r.1 r.2 hloop
  -- it is this `<data>` that has been found, and this tag
  have hpair : (front prolog between).length = d.tagAt ∧
      cStringAt r.2 (front prolog between).length = d.tag := by
    rw [hhandle] at htag
    injection htag with htag
    injection htag with hat hstring
    exact ⟨hat, hstring⟩
  obtain ⟨hat, hstring⟩ := hpair
  have hlen : prolog.length + between.length = d.prolog.length + d.between.length := by
    rw [length_front] at hat
    unfold Document.tagAt at hat
    omega
  have hsame : d.prolog ++ (dataTag ++ (d.between ++ 60 :: (d.tag ++ d.rest))) =
      prolog ++ (dataTag ++ (between ++ 60 :: (tag ++ 32 :: u))) := hencode
  have hle := append_data_inj d.between_ok hsame hlen.symm
  have hge := append_data_inj hbetween hsame.symm hlen
  obtain ⟨rfl, hbehind⟩ := append_inj hsame (Nat.le_antisymm hge hle)
  obtain ⟨rfl, htags⟩ := append_cons_inj d.between_ok hbetween (append_cancel_left hbehind)
  have hrest : tag = d.tag ∧ d.rest = 32 :: u := by
    obtain ⟨c, v, hcons, hne⟩ := d.rest_nonempty
    rw [hbuf, append_assoc, append_assoc] at hstring
    rcases split_first 0 tag with hnone | ⟨t, t', rfl, hzero⟩
    · have htag : tag = d.tag := (cStringAt_append _ hnone).symm.trans hstring
      rw [htag] at htags
      exact ⟨htag, append_cancel_left htags⟩
    · rw [append_assoc, cons_append] at hstring
      have htag : t = d.tag := (cStringAt_append _ hzero).symm.trans hstring
      rw [htag, append_assoc, cons_append, hcons] at htags
      exact absurd (List.cons.inj (append_cancel_left htags)).1 hne
  obtain ⟨rfl, hrest⟩ := hrest
  obtain ⟨attributes, closing, rfl, hnames, hok, -, -⟩ := Document.rest_cases hrest
  -- every name is found, so that none is taken for anything else
  have hfound : ∀ name, 0 ∉ name → ((∃ x ∈ r.1, name.take devprgMaxAttributeSize =
      (cStringAt r.2 x.name).take devprgMaxAttributeSize) ↔
        name ∈ d.attributes.map Attribute.name) := fun name hname => by
    have hvalue := congrArg isSome (hvalues name hname)
    rw [isSome_map] at hvalue
    have hkept : r.1 = handle.attributes ∧ r.2 = handle.buf := by
      rw [hhandle]
      exact ⟨rfl, rfl⟩
    rw [hkept.1, hkept.2]
    refine (getValue_isSome_iff (by rw [hhandle])).symm.trans ?_
    rw [hvalue]
    refine ⟨fun hsome => ?_, lookup_isSome _⟩
    by_cases hmem : name ∈ d.attributes.map Attribute.name
    · exact hmem
    · rw [lookup_eq_none _ hmem] at hsome
      cases hsome
  have hall : ∀ a ∈ attributes, Starts a.name := by
    refine starts_of_found (fun a ha => ⟨(hok a ha).1, (hok a ha).2.1⟩) ?_ hloop fun a ha => ?_
    · have hlen := congrArg List.length hnames
      rw [length_map, length_map] at hlen
      rw [hlen]
      exact d.attributes_le
    · refine (hfound a.name (hok a ha).2.1).mpr ?_
      rw [← hnames]
      exact List.mem_map_of_mem ha
  refine ⟨hprolog, ?_, by rw [hrest]; rfl, fun b hb => ?_⟩
  · rw [Document.body, hrest, length_append, length_cons]
    omega
  · have hmem : b.name ∈ attributes.map Attribute.name := hnames ▸ List.mem_map_of_mem hb
    obtain ⟨a, ha, heq⟩ := List.mem_map.mp hmem
    rw [← heq]
    refine ⟨hall a ha, Nat.lt_of_not_le fun hlong => ?_⟩
    -- a longer name with the same beginning would be found as well
    obtain ⟨n, hn⟩ := length_bound (d.attributes.map Attribute.name)
    obtain ⟨x, hx, htake⟩ := (hfound a.name (hok a ha).2.1).mpr (hnames ▸ List.mem_map_of_mem ha)
    have hname : 0 ∉ a.name ++ replicate (n + 1) 65 := fun hzero => by
      rcases mem_append.mp hzero with hzero | hzero
      · exact (hok a ha).2.1 hzero
      · exact absurd (eq_of_mem_replicate hzero) (by decide)
    have hlonger := (hfound _ hname).mp ⟨x, hx, by
      rw [take_append_of_le_length hlong]
      exact htake⟩
    have hbound := hn _ hlonger
    rw [length_append, length_replicate] at hbound
    omega

/-- **What `devprg_xml_command_open` does**: which documents it undoes, and for which buffers it
stays inside. -/
theorem xml_iff (d : Document) (buf : List UInt8) :
    (RoundTrips d ↔ d.Fits) ∧ (InBuffer buf ↔ ¬ CutShort buf) :=
  ⟨⟨RoundTrips.fits, Document.Fits.roundTrips⟩, inBuffer_iff buf⟩

/-- `<data><nop` and a line break, ` x="1" />`. -/
def lineBreak : Document where
  prolog := []
  between := []
  tag := [110, 111, 112]
  attributes := [⟨[10, 32], [120], [49]⟩]
  closing := [32]
  behind := []
  between_ok := not_mem_nil
  tag_ok := by simp [IsBlank]
  attributes_le := by decide
  attributes_ok := forall_mem_singleton.mpr
    ⟨⟨by simp [IsBlank], by decide, by decide⟩, by decide, by decide, by decide⟩
  closing_ok := by simp [IsBlank]

/-- A line break behind the tag is taken for a part of it. Of a buffer that ends with the `<` of
the tag, or of an empty one, the byte behind it is looked at. -/
theorem not_always_undone : ¬ RoundTrips lineBreak ∧
    ¬ InBuffer (dataTag ++ [32, 32, 32, 32, 32, 32, 60]) ∧ ¬ InBuffer [] := by
  refine ⟨fun h => ?_, fun h => h rfl, fun h => h rfl⟩
  exact absurd h.fits.tag (by decide)

end DevPrg
