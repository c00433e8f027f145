import BootXf.Lib.Storage

/-!
# Short file names

`utf16_to_shortname` of `fs_unicode_utf8.c` makes the short name of a FAT file: eight characters of
the name and three of the extension, in upper case and filled up with blanks, or a checksum of the
whole file name where that does not do. `utf16_from_cp437_shortname` turns a short name back.

`toShortname_spec` says for which file names the characters themselves are stored, and that nothing
else is read or written. A dot at the end is forgotten: `shortNames_iff` says that this is all that
is lost.
-/

namespace Efs

open Lib List Option Function

/-! ## Characters -/

/-- `TO_UPPER_CASE`. -/
def toUpperCase (x : UInt16) : UInt16 := if x ≥ 97 ∧ x ≤ 122 then x + 65 - 97 else x

/-- `is_valid_char_in_short_name`: letters, digits and ``$%'-_@~`!(){}^#&``. -/
def isValidCharInShortName (ch : UInt8) : Bool :=
  if ch > 0x7F then false
  else if (ch ≥ 65 ∧ ch ≤ 90) ∨ (ch ≥ 97 ∧ ch ≤ 122) ∨ (ch ≥ 48 ∧ ch ≤ 57) then true
  else ch ∈ [36, 37, 39, 45, 95, 64, 126, 96, 33, 40, 41, 123, 125, 94, 35, 38]

/-- The upper half of `OEM_code_page_437`. -/
def oemCodePage437Upper : List UInt16 :=
  [0x00C7, 0x00FC, 0x00E9, 0x00E2, 0x00E4, 0x00E0, 0x00E5, 0x00E7,
    0x00EA, 0x00EB, 0x00E8, 0x00EF, 0x00EE, 0x00EC, 0x00C4, 0x00C5,
    0x00C9, 0x00E6, 0x00C6, 0x00F4, 0x00F6, 0x00F2, 0x00FB, 0x00F9,
    0x00FF, 0x00D6, 0x00DC, 0x00A2, 0x00A3, 0x00A5, 0x20A7, 0x0192,
    0x00E1, 0x00ED, 0x00F3, 0x00FA, 0x00F1, 0x00D1, 0x00AA, 0x00BA,
    0x00BF, 0x2310, 0x00AC, 0x00BD, 0x00BC, 0x00A1, 0x00AB, 0x00BB,
    0x2591, 0x2592, 0x2593, 0x2502, 0x2524, 0x2561, 0x2562, 0x2556,
    0x2555, 0x2563, 0x2551, 0x2557, 0x255D, 0x255C, 0x255B, 0x2510,
    0x2514, 0x2534, 0x252C, 0x251C, 0x2500, 0x253C, 0x255E, 0x255F,
    0x255A, 0x2554, 0x2569, 0x2566, 0x2560, 0x2550, 0x256C, 0x2567,
    0x2568, 0x2564, 0x2565, 0x2559, 0x2558, 0x2552, 0x2553, 0x256B,
    0x256A, 0x2518, 0x250C, 0x2588, 0x2584, 0x258C, 0x2590, 0x2580,
    0x03B1, 0x00DF, 0x0393, 0x03C0, 0x03A3, 0x03C3, 0x00B5, 0x03C4,
    0x03A6, 0x0398, 0x03A9, 0x03B4, 0x221E, 0x03C6, 0x03B5, 0x2229,
    0x2261, 0x00B1, 0x2265, 0x2264, 0x2320, 0x2321, 0x00F7, 0x2248,
    0x00B0, 0x2219, 0x00B7, 0x221A, 0x207F, 0x00B2, 0x25A0, 0x00A0]

/-- `OEM_code_page_437`: below `0x80` each character is itself. -/
def oemCodePage437 (uch : UInt8) : UInt16 :=
  if uch < 0x80 then uch.toUInt16 else oemCodePage437Upper.getD (uch.toNat - 0x80) 0

/-! ## Short names -/

/-- `struct fs_fat_shortname`: what its two pointers point to. -/
structure FatShortname where
  name : Contents
  ext : Contents

/-- `memset` to blanks. -/
def blank (n : Nat) (buf : Contents) : Contents := fun i => if i < n then 32 else buf i

/-- The first loop: the length of a text, and whether a character is not ASCII. A text is what may
be read: the characters and the zero behind them. `none` is a read behind it. -/
def measure : List UInt16 → Option (Nat × Bool)
  | [] => none
  | c :: text =>
    if c = 0 then some (0, false)
    else (measure text).map fun r => (r.1 + 1, decide (c > 0x7F) || r.2)

/-- The loop that counts the dots from the start, with so many characters left. -/
def countDots (text : List UInt16) : (left a : Nat) → Option Nat
  | 0, _ => some 0
  | left + 1, a => text[a]?.bind fun c =>
    if c ≠ 46 then some 0 else (countDots text left (a + 1)).map (· + 1)

/-- How many dots there are at the start. -/
def dotsFromStart (text : List UInt16) (len : Nat) : Option Nat :=
  text[0]?.bind fun first => if first = 46 then countDots text len 0 else some 0

/-- The loop that looks for the dot of the extension from the end. -/
def findExtension (text : List UInt16) (dotsfromstart : Nat) : (a : Nat) → Option (Option Nat)
  | 0 => some none
  | a + 1 => text[a]?.bind fun c =>
    if c = 46 then some (if a + 1 = dotsfromstart then none else some a)
    else findExtension text dotsfromstart a

/-- The loop that copies the extension, with room for so many characters; the flag is set when one
of them is not valid. -/
def copyExtension (text : List UInt16) : (left a b : Nat) → Contents → Option (Contents × Bool)
  | 0, _, _, ext => some (ext, false)
  | left + 1, a, b, ext => text[a]?.bind fun c =>
    let ch := toUpperCase c
    if ch = 0 then some (ext, false)
    else if ch = 32 ∨ isValidCharInShortName ch.toUInt8 = false then
      (copyExtension text left (a + 1) (b + 1) (update ext b 95)).map fun r => (r.1, true)
    else copyExtension text left (a + 1) (b + 1) (update ext b ch.toUInt8)

/-- The loop that copies the name; the flag is set when a character is not valid. -/
def copyName (text : List UInt16) (extdot : Option Nat) :
    (left a b : Nat) → Contents → Option (Contents × Bool)
  | 0, _, _, name => some (name, false)
  | left + 1, a, b, name => text[a]?.bind fun c =>
    let ch := toUpperCase c
    if ch = 0 then some (name, false)
    else if ch = 46 ∧ extdot = some a then some (name, false)
    else if ch = 32 ∨ isValidCharInShortName ch.toUInt8 = false then some (name, true)
    else copyName text extdot left (a + 1) (b + 1) (update name b ch.toUInt8)

/-- The loop that writes the checksum as a string, from the last digit on. -/
def putCrc : (left : Nat) → UInt64 → Contents → Contents
  | 0, _, name => name
  | a + 1, crcNum, name =>
    let cch := (crcNum &&& 0xF).toUInt8
    putCrc a (crcNum >>> 4) (update name a (cch + if cch < 10 then 48 else 55))

/-- What `utf16_to_shortname` returns and stores, and whether it was the checksum. -/
structure Stored where
  len : Nat
  shortname : FatShortname
  needsLongFilename : Bool

/-- The extension, when there is a dot for it, and whether its length or a character of it makes the
checksum necessary. -/
def storeExtension (text : List UInt16) (len : Nat) (ext : Contents) :
    Option Nat → Option (Contents × Bool)
  | none => some (ext, false)
  | some extdot => (copyExtension text 3 (extdot + 1) 0 ext).map fun r =>
    (r.1, decide (len - (extdot + 1) > 3) || r.2)

/-- Whether there is no room for the name. -/
def nameTooLong (len : Nat) : Option Nat → Bool
  | none => decide (len > 8)
  | some extdot => decide (extdot > 8)

/-- `utf16_to_shortname` behind the search for the dot. The checksum is over the characters before
the zero. -/
def storeShortname (crc30Step : Int → List UInt16 → UInt64) (pass : Int) (text : List UInt16)
    (shortname : FatShortname) (len : Nat) (notAscii : Bool) (extdot : Option Nat) :
    Option Stored := do
  let extension ← storeExtension text len (blank 3 shortname.ext) extdot
  let needsLong := decide (pass > 1) || notAscii || decide (len > 12) || extension.2 ||
    nameTooLong len extdot
  let name ← if needsLong = false then copyName text extdot 8 0 0 (blank 8 shortname.name)
    else some (blank 8 shortname.name, true)
  return {
    len
    shortname.name := if name.2 then putCrc 8 (crc30Step pass (text.take len)) name.1 else name.1
    shortname.ext := extension.1
    needsLongFilename := name.2 }

/-- `utf16_to_shortname`. -/
def utf16ToShortname (crc30Step : Int → List UInt16 → UInt64) (pass : Int) (text : List UInt16)
    (shortname : FatShortname) : Option Stored := do
  let measured ← measure text
  let dotsfromstart ← dotsFromStart text measured.1
  let extdot ← findExtension text dotsfromstart measured.1
  storeShortname crc30Step pass text shortname measured.1 measured.2 extdot

/-- How many of the first characters there are before the blanks at the end. -/
def validChars (buf : Contents) : Nat → Nat
  | 0 => 0
  | len + 1 => if buf len ≠ 32 then len + 1 else validChars buf len

/-- `utf16_from_cp437_shortname`. -/
def utf16FromCp437Shortname (shortname : FatShortname) : List UInt16 :=
  let len := validChars shortname.name 8
  let extlen := validChars shortname.ext 3
  (List.range len).map (fun i => oemCodePage437 (shortname.name i)) ++
    (if extlen ≠ 0 then [46] else []) ++
    (List.range extlen).map (fun i => oemCodePage437 (shortname.ext i)) ++ [0]

/-! ## What they shall do -/

/-- A file name: characters before a zero. -/
structure FileName where
  chars : List UInt16
  zero_not_mem : 0 ∉ chars

/-- What may be read of it. -/
def FileName.text (name : FileName) : List UInt16 := name.chars ++ [0]

/-- The names are equal up to ASCII letter case. -/
def SameUpToCase (u v : List UInt16) : Prop := u.map toUpperCase = v.map toUpperCase

/-- The same eleven bytes are stored. -/
def FatShortname.Same (s s' : FatShortname) : Prop :=
  (∀ i < 8, s.name i = s'.name i) ∧ ∀ i < 3, s.ext i = s'.ext i

/-- Nothing is read behind the file name, and only the eleven bytes are written. -/
def Confined (crc30Step : Int → List UInt16 → UInt64) (pass : Int) (name : FileName)
    (shortname : FatShortname) : Prop :=
  ∃ r, utf16ToShortname crc30Step pass name.text shortname = some r ∧
    (∀ i ≥ 8, r.shortname.name i = shortname.name i) ∧ ∀ i ≥ 3, r.shortname.ext i = shortname.ext i

/-- Turning the short name back gives the file name. -/
def TurnedBack (name : FileName) (shortname : FatShortname) : Prop :=
  ∃ chars, utf16FromCp437Shortname shortname = chars ++ [0] ∧ SameUpToCase chars name.chars

/-- Of two file names whose characters are stored, both are turned back, and they are the same if
the short names are. -/
def Faithful (crc30Step : Int → List UInt16 → UInt64) (pass pass' : Int) (u v : FileName)
    (s s' : FatShortname) : Prop :=
  ∀ r r', utf16ToShortname crc30Step pass u.text s = some r →
    utf16ToShortname crc30Step pass' v.text s' = some r' →
    r.needsLongFilename = false → r'.needsLongFilename = false →
    (r.shortname.Same r'.shortname → SameUpToCase u.chars v.chars) ∧
      TurnedBack u r.shortname ∧ TurnedBack v r'.shortname

/-! ## The loops -/

/-- A character that may stand in a short name. -/
def Valid (c : UInt16) : Prop := c ≤ 0x7F ∧ isValidCharInShortName c.toUInt8 = true

instance (c : UInt16) : Decidable (Valid c) := inferInstanceAs (Decidable (_ ∧ _))

/-- A character that the loops take for one that is not valid. -/
def bad (c : UInt16) : Bool :=
  decide (toUpperCase c = 32 ∨ isValidCharInShortName (toUpperCase c).toUInt8 = false)

/-- The byte that is stored for a valid character. -/
def stored (c : UInt16) : UInt8 := (toUpperCase c).toUInt8

/-- The byte that is stored in an extension. -/
def marked (c : UInt16) : UInt8 := if bad c then 95 else stored c

variable {c : UInt16}

/-- What holds of all ASCII characters holds of each. -/
theorem forall_ascii {P : UInt16 → Prop} (h : ∀ n < 128, P (.ofNat n)) (hc : c ≤ 0x7F) :
    P c := by
  have hlt : c.toNat < 128 := Nat.lt_succ_of_le (UInt16.le_iff_toNat_le.mp hc)
  have hn := h c.toNat hlt
  rwa [UInt16.ofNat_toNat] at hn

theorem bad_iff (hc : c ≤ 0x7F) : bad c = false ↔ Valid c :=
  forall_ascii (P := fun c => bad c = false ↔ Valid c) (by decide) hc

theorem toUpperCase_eq_zero : toUpperCase c = 0 ↔ c = 0 := by
  have hlt := c.toNat_lt
  unfold toUpperCase
  split
  · next h =>
    obtain ⟨hlo, hhi⟩ := h
    have hlo' : 97 ≤ c.toNat := UInt16.le_iff_toNat_le.mp hlo
    have hhi' : c.toNat ≤ 122 := UInt16.le_iff_toNat_le.mp hhi
    constructor
    · intro hzero
      have hsum : (c + 65 - 97).toNat = 0 := congrArg UInt16.toNat hzero
      rw [UInt16.toNat_sub, UInt16.toNat_add] at hsum
      have h65 : (65 : UInt16).toNat = 65 := rfl
      have h97 : (97 : UInt16).toNat = 97 := rfl
      omega
    · rintro rfl
      exact absurd hlo (by decide)
  · rfl

/-- Of a text that goes on with a character, it is read, and the others follow. -/
theorem drop_cons {text rest : List UInt16} {a : Nat} (h : text.drop a = c :: rest) :
    text[a]? = some c ∧ text.drop (a + 1) = rest := by
  constructor
  · have hhead := @getElem?_drop _ text a 0
    rw [h, Nat.add_zero] at hhead
    exact hhead.symm
  · rw [← tail_drop, h]
    rfl

theorem measure_eq {chars : List UInt16} (h : 0 ∉ chars) :
    measure (chars ++ [0]) = some (chars.length, chars.any fun c => decide (c > 0x7F)) := by
  induction chars with
  | nil => rfl
  | cons c chars ih =>
    obtain ⟨hc, hchars⟩ := ne_and_not_mem_of_not_mem_cons h
    rw [cons_append, measure, if_neg (Ne.symm hc), ih hchars]
    rfl

theorem countDots_eq {text l rest : List UInt16} {a : Nat} (h : text.drop a = l ++ rest) :
    countDots text l.length a = some (l.takeWhile (· = 46)).length := by
  induction l generalizing a with
  | nil => rfl
  | cons c l ih =>
    obtain ⟨hread, hrest⟩ := drop_cons h
    rw [length_cons, countDots, hread, bind_some]
    by_cases hc : c = 46
    · rw [if_neg (not_not_intro hc), ih hrest]
      simp [hc]
    · rw [if_pos hc]
      simp [hc]

/-- Without a dot in front of it nothing is found. -/
theorem findExtension_none {text : List UInt16} {dots a : Nat} (ha : a ≤ text.length)
    (h : 46 ∉ text.take a) : findExtension text dots a = some none := by
  induction a with
  | zero => rfl
  | succ a ih =>
    have hread : text[a]? = some (text.get ⟨a, ha⟩) := getElem?_eq_getElem ha
    rw [take_add_one, hread, mem_append, not_or] at h
    rw [findExtension, hread, bind_some, if_neg, ih (Nat.le_of_succ_le ha) h.1]
    intro hdot
    exact h.2 (mem_singleton.mpr hdot.symm)

/-- The last dot is found, unless it is the last one of those at the start. -/
theorem findExtension_dot (base rest : List UInt16) (dots : Nat) {ext : List UInt16}
    {k : Nat} (hext : 46 ∉ ext)
    (hk : k ≤ ext.length) : findExtension (base ++ 46 :: (ext ++ rest)) dots (base.length + 1 + k) =
      some (if base.length + 1 = dots then none else some base.length) := by
  induction k with
  | zero =>
    rw [Nat.add_zero, findExtension, getElem?_append_right (Nat.le_refl _), Nat.sub_self]
    rfl
  | succ k ih =>
    have hread : (base ++ 46 :: (ext ++ rest))[base.length + 1 + k]? = some (ext.get ⟨k, hk⟩) := by
      rw [getElem?_append_right (by omega), show base.length + 1 + k - base.length = k + 1 by omega,
        getElem?_cons_succ, getElem?_append_left hk]
      exact getElem?_eq_getElem hk
    rw [← Nat.add_assoc, findExtension, hread, bind_some, if_neg, ih (Nat.le_of_succ_le hk)]
    intro hdot
    exact hext (hdot ▸ List.get_mem ..)

theorem copyExtension_eq {text ext : List UInt16} {left a b : Nat} {buf : Contents}
    (h : text.drop a = ext ++ [0]) (hzero : 0 ∉ ext) : copyExtension text left a b buf =
      some ((Write.mk b ((ext.take left).map marked)).write buf, (ext.take left).any bad) := by
  induction left generalizing ext a b buf with
  | zero => rw [copyExtension, take_zero, map_nil, Write.write_nil, any_nil]
  | succ left ih =>
    cases ext with
    | nil =>
      obtain ⟨hread, -⟩ := drop_cons h
      rw [copyExtension, hread, bind_some, if_pos (by decide), take_nil, map_nil,
        Write.write_nil, any_nil]
    | cons c ext =>
      obtain ⟨hc, hzero⟩ := ne_and_not_mem_of_not_mem_cons hzero
      obtain ⟨hread, hrest⟩ := drop_cons h
      rw [copyExtension, hread, bind_some,
        if_neg fun hupper => hc (toUpperCase_eq_zero.mp hupper).symm, take_succ_cons, map_cons,
        any_cons, Write.write_cons]
      by_cases hbad : toUpperCase c = 32 ∨ isValidCharInShortName (toUpperCase c).toUInt8 = false
      · have hflag : bad c = true := decide_eq_true hbad
        rw [if_pos hbad, ih hrest hzero, marked, if_pos hflag, hflag]
        rfl
      · have hflag : bad c = false := decide_eq_false hbad
        rw [if_neg hbad, ih hrest hzero, marked, if_neg (by rw [hflag]; decide), hflag]
        rfl

/-- The name is copied up to where it stops, unless a character is not valid. -/
theorem copyName_spec {text base rest : List UInt16} {stop : UInt16} {extdot : Option Nat}
    {left a b : Nat} (buf : Contents) (h : text.drop a = base ++ stop :: rest)
    (hstop : stop = 0 ∨ stop = 46 ∧ extdot = some (a + base.length))
    (hearly : ∀ k < base.length, extdot ≠ some (a + k)) (hzero : 0 ∉ base)
    (hfits : base.length ≤ left) :
    ∃ buf', copyName text extdot left a b buf = some (buf', base.any bad) ∧
      (base.any bad = false → buf' = (Write.mk b (base.map stored)).write buf) ∧
      ∀ i ≥ b + left, buf' i = buf i := by
  induction left generalizing base a b buf with
  | zero =>
    obtain rfl := eq_nil_of_length_eq_zero (Nat.le_zero.mp hfits)
    exact ⟨buf, rfl, fun _ => (Write.write_nil ..).symm, fun _ _ => rfl⟩
  | succ left ih =>
    cases base with
    | nil =>
      obtain ⟨hread, -⟩ := drop_cons h
      refine ⟨buf, ?_, fun _ => (Write.write_nil ..).symm, fun _ _ => rfl⟩
      rw [copyName, hread, bind_some]
      rcases hstop with rfl | ⟨rfl, hdot⟩
      · exact if_pos (by decide)
      · rw [length_nil, Nat.add_zero] at hdot
        exact (if_neg (by decide)).trans (if_pos ⟨by decide, hdot⟩)
    | cons c base =>
      obtain ⟨hc, hzero⟩ := ne_and_not_mem_of_not_mem_cons hzero
      obtain ⟨hread, hrest⟩ := drop_cons h
      have hnot := hearly 0 (Nat.succ_pos _)
      rw [Nat.add_zero] at hnot
      rw [copyName, hread, bind_some, if_neg fun hupper => hc (toUpperCase_eq_zero.mp hupper).symm,
        if_neg fun hdot => hnot hdot.2, any_cons]
      by_cases hbad : toUpperCase c = 32 ∨ isValidCharInShortName (toUpperCase c).toUInt8 = false
      · have hflag : bad c = true := decide_eq_true hbad
        rw [if_pos hbad, hflag, Bool.true_or]
        exact ⟨buf, rfl, fun hvalid => absurd hvalid (by decide), fun _ _ => rfl⟩
      · have hflag : bad c = false := decide_eq_false hbad
        obtain ⟨buf', hrun, hcopied, hframe⟩ := ih (b := b + 1)
          (update buf b (toUpperCase c).toUInt8) hrest
          (hstop.imp_right fun h => ⟨h.1, by rw [h.2, length_cons]; congr 1; omega⟩)
          (fun k hk => by
            have hne := hearly (k + 1) (Nat.succ_lt_succ hk)
            rwa [Nat.add_comm k 1, ← Nat.add_assoc] at hne)
          hzero (Nat.le_of_succ_le_succ hfits)
        rw [if_neg hbad, hflag, Bool.false_or]
        refine ⟨buf', hrun, fun hvalid => ?_, fun i hi => ?_⟩
        · rw [hcopied hvalid, map_cons, Write.write_cons]
          rfl
        · rw [hframe i (by omega)]
          exact update_of_ne (by omega) ..

theorem putCrc_behind {left i : Nat} (crcNum : UInt64) (name : Contents) (h : left ≤ i) :
    putCrc left crcNum name i = name i := by
  induction left generalizing crcNum name with
  | zero => rfl
  | succ left ih =>
    rw [putCrc, ih _ _ (Nat.le_of_succ_le h)]
    exact update_of_ne (by omega) ..

/-! ## The dot of the extension -/

/-- How many dots a name starts with. -/
def leadingDots (chars : List UInt16) : Nat := (chars.takeWhile (· = 46)).length

/-- A name without dots behind those at its start, or one with its last dot. -/
theorem split_dot (chars : List UInt16) :
    46 ∉ chars ∨ ∃ base ext, chars = base ++ 46 :: ext ∧ 46 ∉ ext := by
  induction chars with
  | nil => exact .inl not_mem_nil
  | cons c chars ih =>
    rcases ih with hnone | ⟨base, ext, rfl, hext⟩
    · by_cases hc : c = 46
      · exact .inr ⟨[], chars, by rw [hc]; rfl, hnone⟩
      · exact .inl fun hmem => (mem_cons.mp hmem).elim (fun h => hc h.symm) hnone
    · exact .inr ⟨c :: base, ext, rfl, hext⟩

/-- Behind the last dot there is no other. -/
theorem eq_nil_of_dot {ext ext' between : List UInt16} (h : 46 :: ext = between ++ 46 :: ext')
    (hext : 46 ∉ ext) : between = [] := by
  cases between with
  | nil => rfl
  | cons c between =>
    obtain ⟨-, rfl⟩ := List.cons.inj h
    exact absurd (mem_append_right _ mem_cons_self) hext

/-- There is only one last dot. -/
theorem split_dot_unique {base ext base' ext' : List UInt16}
    (h : base ++ 46 :: ext = base' ++ 46 :: ext')
    (hext : 46 ∉ ext) (hext' : 46 ∉ ext') : base = base' ∧ ext = ext' := by
  rcases append_eq_append_iff.mp h with ⟨between, rfl, hbetween⟩ | ⟨between, rfl, hbetween⟩
  · obtain rfl := eq_nil_of_dot hbetween hext
    exact ⟨(append_nil _).symm, (List.cons.inj hbetween).2⟩
  · obtain rfl := eq_nil_of_dot hbetween hext'
    exact ⟨append_nil _, (List.cons.inj hbetween).2.symm⟩

theorem leadingDots_eq_iff {base ext : List UInt16} (hext : 46 ∉ ext) :
    base.length + 1 = leadingDots (base ++ 46 :: ext) ↔ ∀ c ∈ base, c = 46 := by
  rw [leadingDots]
  induction base with
  | nil =>
    have hfirst : ext.takeWhile (· = 46) = [] := by
      cases ext with
      | nil => rfl
      | cons c ext =>
        exact takeWhile_cons_of_neg (by simpa using (ne_of_not_mem_cons hext).symm)
    simp [hfirst]
  | cons c base ih =>
    by_cases hc : c = 46
    · subst hc
      simp only [cons_append, takeWhile_cons, decide_true, if_true, length_cons,
        forall_mem_cons, true_and, ← ih]
      omega
    · simp [hc]

/-- Which dot is taken for that of the extension: the last one, unless all characters in front of
it are dots as well. -/
inductive ExtDot (chars : List UInt16) : Option Nat → Prop
  | none (h : 46 ∉ chars) : ExtDot chars none
  | start {base ext : List UInt16} (h : chars = base ++ 46 :: ext) (hext : 46 ∉ ext)
    (hbase : ∀ c ∈ base, c = 46) : ExtDot chars none
  | dot {base ext : List UInt16} (h : chars = base ++ 46 :: ext) (hext : 46 ∉ ext)
    (hbase : ¬ ∀ c ∈ base, c = 46) : ExtDot chars (some base.length)

theorem extDot (name : FileName) : ∃ dots extdot,
    dotsFromStart name.text name.chars.length = some dots ∧
    findExtension name.text dots name.chars.length = some extdot ∧ ExtDot name.chars extdot := by
  obtain ⟨chars, hzero⟩ := name
  have hcount : dotsFromStart (chars ++ [0]) chars.length = some (leadingDots chars) := by
    cases chars with
    | nil => rfl
    | cons c chars =>
      rw [dotsFromStart, cons_append, getElem?_cons_zero, bind_some]
      by_cases hc : c = 46
      · rw [if_pos hc]
        exact countDots_eq (drop_zero ..)
      · rw [if_neg hc, leadingDots, takeWhile_cons_of_neg (by simpa using hc)]
        rfl
  rcases split_dot chars with hnone | ⟨base, ext, rfl, hext⟩
  · refine ⟨_, _, hcount, findExtension_none ?_ ?_, .none hnone⟩
    · simp [FileName.text]
    · simpa [FileName.text] using hnone
  · have hfind :=
      findExtension_dot base [0] (leadingDots (base ++ 46 :: ext)) hext (Nat.le_refl ext.length)
    have hlen : base.length + 1 + ext.length = (base ++ 46 :: ext).length := by
      rw [length_append, length_cons]
      omega
    have htext : base ++ 46 :: (ext ++ [0]) = (base ++ 46 :: ext) ++ [0] := by simp
    rw [hlen, htext] at hfind
    refine ⟨_, _, hcount, hfind, ?_⟩
    by_cases hbase : ∀ c ∈ base, c = 46
    · rw [if_pos ((leadingDots_eq_iff hext).mpr hbase)]
      exact .start rfl hext hbase
    · rw [if_neg (mt (leadingDots_eq_iff hext).mp hbase)]
      exact .dot rfl hext hbase

/-! ## Which characters are stored -/

/-- A name and an extension that a short name has room for, of valid characters. -/
structure Plain (pass : Int) (chars base ext : List UInt16) : Prop where
  pass_le : pass ≤ 1
  base_valid : ∀ c ∈ base, Valid c
  ext_valid : ∀ c ∈ ext, Valid c
  base_le : base.length ≤ 8
  ext_le : ext.length ≤ 3
  chars : chars = base ∧ ext = [] ∨ chars = base ++ 46 :: ext ∧ base ≠ []

theorem not_valid_dot : ¬ Valid 46 := by decide

section
variable {pass : Int} {chars base ext : List UInt16} {extdot : Option Nat} {l : List UInt16}

theorem Plain.dot (h : Plain pass chars base ext) (hdot : ExtDot chars extdot) :
    extdot = none ∧ chars = base ∧ ext = [] ∨ extdot = some base.length ∧
      chars = base ++ 46 :: ext := by
  have hbase : 46 ∉ base := fun hmem => not_valid_dot (h.base_valid 46 hmem)
  have hext : 46 ∉ ext := fun hmem => not_valid_dot (h.ext_valid 46 hmem)
  rcases h.chars with ⟨rfl, rfl⟩ | ⟨rfl, hne⟩
  · cases hdot with
    | none hnone => exact .inl ⟨rfl, rfl, rfl⟩
    | start hsplit => exact absurd (hsplit ▸ mem_append_right _ mem_cons_self) hbase
    | dot hsplit => exact absurd (hsplit ▸ mem_append_right _ mem_cons_self) hbase
  · cases hdot with
    | none hnone => exact absurd (mem_append_right _ mem_cons_self) hnone
    | start hsplit hext' hdots =>
      obtain ⟨rfl, -⟩ := split_dot_unique hsplit hext hext'
      obtain ⟨c, hc⟩ := exists_mem_of_ne_nil _ hne
      exact absurd (hdots c hc ▸ hc) hbase
    | dot hsplit hext' =>
      obtain ⟨rfl, -⟩ := split_dot_unique hsplit hext hext'
      exact .inr ⟨rfl, rfl⟩

theorem any_eq_false_iff (hascii : ∀ c ∈ l, c ≤ 0x7F) :
    l.any bad = false ↔ ∀ c ∈ l, Valid c := by
  rw [List.any_eq_false]
  refine forall₂_congr fun c hc => ?_
  rw [Bool.not_eq_true, bad_iff (hascii c hc)]

theorem notAscii_eq_false_iff :
    (l.any fun c => decide (c > 0x7F)) = false ↔ ∀ c ∈ l, c ≤ 0x7F := by
  simp

theorem Plain.ascii (h : Plain pass chars base ext) : ∀ c ∈ chars, c ≤ 0x7F := by
  rcases h.chars with ⟨rfl, -⟩ | ⟨rfl, -⟩
  · exact fun c hc => (h.base_valid c hc).1
  · refine forall_mem_append.mpr ⟨fun c hc => (h.base_valid c hc).1, ?_⟩
    exact forall_mem_cons.mpr ⟨by decide, fun c hc => (h.ext_valid c hc).1⟩

theorem Plain.length_le (h : Plain pass chars base ext) : chars.length ≤ 12 := by
  have hbase := h.base_le
  have hext := h.ext_le
  rcases h.chars with ⟨rfl, -⟩ | ⟨rfl, -⟩
  · omega
  · rw [length_append, length_cons]
    omega

/-- What is stored, with the dot of the extension known: only the eleven bytes are written, and the
characters themselves exactly when the name is plain. -/
structure StoredRight (pass : Int) (chars : List UInt16) (s : FatShortname)
    (r : Stored) : Prop where
  len : r.len = chars.length
  name_behind : ∀ i ≥ 8, r.shortname.name i = s.name i
  ext_behind : ∀ i ≥ 3, r.shortname.ext i = s.ext i
  plain : r.needsLongFilename = false → ∃ base ext, Plain pass chars base ext
  chars : ∀ base ext, Plain pass chars base ext → r.needsLongFilename = false ∧
    r.shortname.name = (Write.mk 0 (base.map stored)).write (blank 8 s.name) ∧
    r.shortname.ext = (Write.mk 0 (ext.map stored)).write (blank 3 s.ext)

theorem blank_behind {n i : Nat} (buf : Contents) (h : n ≤ i) : blank n buf i = buf i :=
  if_neg (Nat.not_lt.mpr h)

/-- The name is copied when nothing has been against it before, and the checksum is stored
otherwise. -/
theorem storeShortname_spec (crc30Step : Int → List UInt16 → UInt64) (s : FatShortname)
    {extension : Contents} {badExt : Bool} {text rest : List UInt16} {stop : UInt16}
    (hextension : storeExtension text chars.length (blank 3 s.ext) extdot =
      some (extension, badExt))
    (hbehind : ∀ i ≥ 3, extension i = s.ext i) (htext : text = base ++ stop :: rest)
    (hstop : stop = 0 ∨ stop = 46 ∧ extdot = some base.length)
    (hearly : ∀ k < base.length, extdot ≠ some k) (hzero : 0 ∉ base)
    (hroom : nameTooLong chars.length extdot = false → base.length ≤ 8)
    (hplain : pass ≤ 1 → (∀ c ∈ chars, c ≤ 0x7F) → chars.length ≤ 12 → badExt = false →
      nameTooLong chars.length extdot = false → base.any bad = false →
      ∃ base ext, Plain pass chars base ext)
    (hchars : ∀ base' ext, Plain pass chars base' ext → base' = base ∧ badExt = false ∧
      nameTooLong chars.length extdot = false ∧
      extension = (Write.mk 0 (ext.map stored)).write (blank 3 s.ext)) :
    ∃ r, storeShortname crc30Step pass text s chars.length (chars.any fun c => decide (c > 0x7F))
      extdot = some r ∧ StoredRight pass chars s r := by
  simp only [storeShortname, hextension, bind_eq_bind, bind_some]
  generalize hlong : (decide (pass > 1) || (chars.any fun c => decide (c > 0x7F)) ||
    decide (chars.length > 12) || badExt || nameTooLong chars.length extdot) = needsLong
  have hnone : needsLong = false ↔ pass ≤ 1 ∧ (∀ c ∈ chars, c ≤ 0x7F) ∧ chars.length ≤ 12 ∧
      badExt = false ∧ nameTooLong chars.length extdot = false := by
    rw [← hlong]
    simp only [Bool.or_eq_false_iff, decide_eq_false_iff_not, notAscii_eq_false_iff, gt_iff_lt,
      Int.not_lt, Nat.not_lt, and_assoc]
  have hallowed : ∀ {base' ext}, Plain pass chars base' ext → needsLong = false := fun hp => by
    obtain ⟨-, hbad, hfits, -⟩ := hchars _ _ hp
    exact hnone.mpr ⟨hp.pass_le, hp.ascii, hp.length_le, hbad, hfits⟩
  cases needsLong with
  | true =>
    refine ⟨_, rfl, rfl, fun i hi => ?_, hbehind, fun hflag => absurd hflag Bool.noConfusion,
      fun base' ext hp => ?_⟩
    · exact (putCrc_behind _ _ hi).trans (blank_behind _ hi)
    · cases hallowed hp
  | false =>
    obtain ⟨hpass, hascii, hlen, hbad, hfits⟩ := hnone.mp rfl
    obtain ⟨buf, hcopy, hcopied, hframe⟩ := copyName_spec (a := 0) (b := 0) (blank 8 s.name) htext
      (by rwa [Nat.zero_add])
      (fun k hk => by rw [Nat.zero_add]; exact hearly k hk) hzero (hroom hfits)
    have hname : ∀ i ≥ 8, buf i = s.name i := fun i hi =>
      (hframe i (by omega)).trans (blank_behind _ hi)
    rw [if_pos rfl, hcopy, bind_some]
    refine ⟨_, rfl, rfl, fun i hi => ?_, hbehind, fun hflag => ?_, fun base' ext hp => ?_⟩
    · dsimp only
      split
      · exact (putCrc_behind _ _ hi).trans (hname i hi)
      · exact hname i hi
    · exact hplain hpass hascii hlen hbad hfits hflag
    · obtain ⟨rfl, -, -, hext⟩ := hchars _ _ hp
      have hflag : base'.any bad = false :=
        (any_eq_false_iff fun c hc => (hp.base_valid c hc).1).mpr hp.base_valid
      refine ⟨hflag, ?_, hext⟩
      dsimp only
      rw [if_neg (by rw [hflag]; decide), hcopied hflag]

end

/-- **What is stored for a file name**, of which nothing behind the zero is read. -/
theorem toShortname_spec (crc30Step : Int → List UInt16 → UInt64) (pass : Int) (name : FileName)
    (s : FatShortname) : ∃ r, utf16ToShortname crc30Step pass name.text s = some r ∧
      StoredRight pass name.chars s r := by
  obtain ⟨dots, extdot, hdots, hfind, hextdot⟩ := extDot name
  obtain ⟨chars, hzero⟩ := name
  have hmeasure : measure (FileName.mk chars hzero).text = _ := measure_eq hzero
  simp only [utf16ToShortname, hmeasure, hdots, hfind, bind_eq_bind, bind_some]
  have hbare : extdot = none → ∃ r, storeShortname crc30Step pass (chars ++ [0]) s chars.length
      (chars.any fun c => decide (c > 0x7F)) extdot = some r ∧ StoredRight pass chars s r := by
    rintro rfl
    refine storeShortname_spec crc30Step s rfl
      (fun i hi => blank_behind _ hi) (show chars ++ [0] = chars ++ 0 :: [] from rfl) (.inl rfl)
      (fun _ _ h => by cases h) hzero
      (fun h => Nat.le_of_not_lt (of_decide_eq_false h)) ?_ ?_
    · intro hpass hascii _ _ hfits hflag
      exact ⟨chars, [], hpass, (any_eq_false_iff hascii).mp hflag, forall_mem_nil _,
        Nat.le_of_not_lt (of_decide_eq_false hfits), Nat.zero_le _, .inl ⟨rfl, rfl⟩⟩
    · intro base ext hp
      rcases hp.dot hextdot with ⟨-, rfl, rfl⟩ | ⟨h, -⟩
      · exact ⟨rfl, rfl, decide_eq_false (Nat.not_lt.mpr hp.base_le), (Write.write_nil ..).symm⟩
      · cases h
  cases hextdot with
  | none => exact hbare rfl
  | start => exact hbare rfl
  | @dot base ext hsplit hext hbase =>
    subst hsplit
    obtain ⟨hzero', hzeroext⟩ : 0 ∉ base ∧ 0 ∉ ext := by
      simp only [mem_append, mem_cons, not_or] at hzero
      exact ⟨hzero.1, hzero.2.2⟩
    have hdrop : ((base ++ 46 :: ext) ++ [0]).drop (base.length + 1) = ext ++ [0] := by
      rw [append_assoc, ← drop_drop, drop_left']
      · rfl
      · rfl
    have hlen : (base ++ 46 :: ext).length - (base.length + 1) = ext.length := by
      rw [length_append, length_cons]
      omega
    have hextension : storeExtension ((base ++ 46 :: ext) ++ [0]) (base ++ 46 :: ext).length
        (blank 3 s.ext) (some base.length) = some
          ((Write.mk 0 ((ext.take 3).map marked)).write (blank 3 s.ext),
            decide (ext.length > 3) || (ext.take 3).any bad) := by
      rw [storeExtension, copyExtension_eq hdrop hzeroext, hlen]
      rfl
    refine storeShortname_spec crc30Step s hextension (fun i hi => ?_)
      (show (base ++ 46 :: ext) ++ [0] = base ++ 46 :: (ext ++ [0]) from append_assoc ..)
      (.inr ⟨rfl, rfl⟩)
      (fun k hk h => absurd (Option.some.inj h) (Nat.ne_of_gt hk)) hzero'
      (fun h => Nat.le_of_not_lt (of_decide_eq_false h)) ?_ ?_
    · rw [Write.write_of_not_mem (.inr ?_)]
      · exact blank_behind _ hi
      · rw [Nat.zero_add, length_map, length_take]
        exact Nat.le_trans (Nat.min_le_left ..) hi
    · intro hpass hascii _ hbad hfits hflag
      obtain ⟨hbaseascii, hextascii⟩ := forall_mem_append.mp hascii
      obtain ⟨-, hextascii⟩ := forall_mem_cons.mp hextascii
      rw [Bool.or_eq_false_iff, decide_eq_false_iff_not, Nat.not_lt] at hbad
      rw [take_of_length_le hbad.1] at hbad
      refine ⟨base, ext, hpass, (any_eq_false_iff hbaseascii).mp hflag,
        (any_eq_false_iff hextascii).mp hbad.2,
        Nat.le_of_not_lt (of_decide_eq_false hfits), hbad.1, .inr ⟨rfl, ?_⟩⟩
      rintro rfl
      exact hbase (forall_mem_nil _)
    · intro base' ext' hp
      rcases hp.dot (.dot rfl hext hbase) with ⟨h, -⟩ | ⟨-, hsplit⟩
      · cases h
      · have hext' : 46 ∉ ext' := fun hmem => not_valid_dot (hp.ext_valid 46 hmem)
        obtain ⟨rfl, rfl⟩ := split_dot_unique hsplit hext hext'
        have hflag : ext.any bad = false :=
          (any_eq_false_iff fun c hc => (hp.ext_valid c hc).1).mpr hp.ext_valid
        rw [take_of_length_le hp.ext_le]
        refine ⟨rfl, ?_, decide_eq_false (Nat.not_lt.mpr hp.base_le), ?_⟩
        · rw [hflag, decide_eq_false (Nat.not_lt.mpr hp.ext_le)]
          rfl
        · refine congrArg (fun l => (Write.mk 0 l).write (blank 3 s.ext))
            (map_congr_left fun c hc => ?_)
          exact if_neg (by rw [List.any_eq_false.mp hflag c hc |> Bool.eq_false_iff.mpr]; decide)

/-! ## Turning it back -/

section
variable {pass pass' : Int} {u v : FileName} {base ext : List UInt16}
    {s : FatShortname} {buf : Contents}
  {n : Nat} {c : UInt16} {r : Stored}

theorem stored_ne_blank (hc : Valid c) : stored c ≠ 32 :=
  forall_ascii (P := fun c => Valid c → stored c ≠ 32) (by decide) hc.1 hc

/-- ASCII characters are themselves in the code page. -/
theorem oemCodePage437_stored (hc : Valid c) :
    oemCodePage437 (stored c) = toUpperCase c :=
  forall_ascii (P := fun c => oemCodePage437 (stored c) = toUpperCase c) (by decide) hc.1

/-- The bytes of a field that holds so many characters. -/
theorem stored_at (chars : List UInt16) {i : Nat} (hi : i < n) :
    (Write.mk 0 (chars.map stored)).write (blank n buf) i = (chars.map stored).getD i 32 := by
  rcases Nat.lt_or_ge i (chars.map stored).length with hin | hout
  · have hat : (Write.mk 0 (chars.map stored)).write (blank n buf) (0 + i) = _ :=
      Write.write_at hin _
    rw [Nat.zero_add] at hat
    rw [hat, getD_eq_getElem?_getD, getElem?_eq_getElem hin, getD_some]
  · rw [Write.write_of_not_mem (.inr (by omega)), getD_eq_getElem?_getD,
      getElem?_eq_none hout, getD_none]
    exact if_pos hi

/-- The blanks that fill up a field are not read back. -/
theorem validChars_eq {k : Nat} (hk : k ≤ n) (hlast : ∀ i, k = i + 1 → buf i ≠ 32)
    (hblank : ∀ i, k ≤ i → i < n → buf i = 32) : validChars buf n = k := by
  induction n with
  | zero => exact (Nat.le_zero.mp hk).symm
  | succ n ih =>
    rw [validChars]
    rcases Nat.lt_or_eq_of_le hk with hlt | rfl
    · rw [if_neg (not_not_intro (hblank n (Nat.le_of_lt_succ hlt) (Nat.lt_succ_self n)))]
      exact ih (Nat.le_of_lt_succ hlt) fun i hi hin => hblank i hi (Nat.lt_succ_of_lt hin)
    · exact if_pos (hlast n rfl)

/-- A field of valid characters is read back in upper case. -/
theorem field_turned_back (buf : Contents) {chars : List UInt16} (hvalid : ∀ c ∈ chars, Valid c)
    (h : chars.length ≤ n) :
    validChars ((Write.mk 0 (chars.map stored)).write (blank n buf)) n = chars.length ∧
      (List.range chars.length).map (fun i => oemCodePage437
        ((Write.mk 0 (chars.map stored)).write (blank n buf) i)) = chars.map toUpperCase := by
  have hat : ∀ i, (hi : i < chars.length) →
      (Write.mk 0 (chars.map stored)).write (blank n buf) i = stored (chars.get ⟨i, hi⟩) := by
    intro i hi
    rw [stored_at chars (Nat.lt_of_lt_of_le hi h), getD_eq_getElem?_getD, getElem?_map,
      getElem?_eq_getElem hi]
    rfl
  constructor
  · refine validChars_eq h (fun i hi => ?_) fun i hi hin => ?_
    · rw [hat i (hi ▸ Nat.lt_succ_self i)]
      exact stored_ne_blank (hvalid _ (List.get_mem ..))
    · rw [stored_at chars hin, getD_eq_getElem?_getD, getElem?_eq_none (by simpa using hi)]
      rfl
  · refine ext_getElem (by simp) fun i hi _ => ?_
    have hi : i < chars.length := by simpa using hi
    rw [getElem_map, getElem_range, getElem_map, hat i hi,
      oemCodePage437_stored (hvalid _ (List.get_mem ..))]
    rfl

/-- What a plain name is turned back into. -/
theorem fromShortname_eq (hp : Plain pass u.chars base ext)
    (h : StoredRight pass u.chars s r) : utf16FromCp437Shortname r.shortname =
      base.map toUpperCase ++ (if ext = [] then [] else 46 :: ext.map toUpperCase) ++ [0] := by
  obtain ⟨-, hname, hext⟩ := h.chars base ext hp
  obtain ⟨hlen, hback⟩ := field_turned_back s.name hp.base_valid hp.base_le
  obtain ⟨hlen', hback'⟩ := field_turned_back s.ext hp.ext_valid hp.ext_le
  rw [utf16FromCp437Shortname, hname, hext, hlen, hlen', hback, hback']
  cases ext with
  | nil => simp
  | cons c ext => simp

/-- A plain name that does not end with a dot, in terms of its parts. -/
theorem Plain.chars_eq (hp : Plain pass u.chars base ext) (hend : u.chars.getLast? ≠ some 46) :
    u.chars = base ++ if ext = [] then [] else 46 :: ext := by
  rcases hp.chars with ⟨hchars, rfl⟩ | ⟨hchars, -⟩
  · rw [hchars, if_pos rfl, append_nil]
  · by_cases hext : ext = []
    · subst hext
      exact absurd (by rw [hchars]; simp) hend
    · rw [hchars, if_neg hext]

theorem toUpperCase_dot : toUpperCase 46 = 46 := by decide

/-- **It is turned back exactly when it does not end with a dot.** -/
theorem turnedBack_iff (hp : Plain pass u.chars base ext)
    (h : StoredRight pass u.chars s r) : TurnedBack u r.shortname ↔ u.chars.getLast? ≠ some 46 := by
  rw [TurnedBack, fromShortname_eq hp h]
  constructor
  · rintro ⟨chars, hchars, hsame⟩ hend
    have hchars := (append_inj_left' hchars rfl).symm
    subst hchars
    rcases hp.chars with ⟨hbase, rfl⟩ | ⟨hsplit, hne⟩
    · rw [hbase] at hend
      exact not_valid_dot (hp.base_valid 46 (mem_of_getLast? hend))
    · cases ext with
      | nil =>
        have hlen := congrArg List.length hsame
        rw [hsplit] at hlen
        simp at hlen
      | cons c ext =>
        have hlast : (c :: ext).getLast? = some 46 := by
          simpa [hsplit, getLast?_append] using hend
        exact not_valid_dot (hp.ext_valid 46 (mem_of_getLast? hlast))
  · intro hend
    refine ⟨_, rfl, ?_⟩
    have hidem : ∀ {l : List UInt16}, (∀ c ∈ l, Valid c) →
        (l.map toUpperCase).map toUpperCase = l.map toUpperCase := fun hl => by
      rw [List.map_map]
      exact map_congr_left fun c hc => forall_ascii
        (P := fun c => toUpperCase (toUpperCase c) = toUpperCase c) (by decide) (hl c hc).1
    rw [SameUpToCase, hp.chars_eq hend]
    split
    · simp only [append_nil, hidem hp.base_valid]
    · simp only [map_append, map_cons, hidem hp.base_valid, hidem hp.ext_valid, toUpperCase_dot]

/-- The parts of names with the same short name are the same. -/
theorem same_of_stored {buf' : Contents} {l l' : List UInt16} (hl : ∀ c ∈ l, Valid c)
    (hl' : ∀ c ∈ l', Valid c) (hlen : l.length ≤ n) (hlen' : l'.length ≤ n)
    (hsame : ∀ i < n, (Write.mk 0 (l.map stored)).write (blank n buf) i =
      (Write.mk 0 (l'.map stored)).write (blank n buf') i) :
        l.map toUpperCase = l'.map toUpperCase := by
  obtain ⟨hvalid, hback⟩ := field_turned_back buf hl hlen
  obtain ⟨hvalid', hback'⟩ := field_turned_back buf' hl' hlen'
  have hread : ∀ m ≤ n, validChars ((Write.mk 0 (l.map stored)).write (blank n buf)) m =
      validChars ((Write.mk 0 (l'.map stored)).write (blank n buf')) m := by
    intro m hm
    induction m with
    | zero => rfl
    | succ m ih => rw [validChars, validChars, hsame m hm, ih (Nat.le_of_succ_le hm)]
  have hequal : l.length = l'.length := by
    rw [← hvalid, ← hvalid', hread n (Nat.le_refl n)]
  rw [← hback, ← hback', hequal]
  refine map_congr_left fun i hi => ?_
  rw [hsame i (Nat.lt_of_lt_of_le (mem_range.mp hi) hlen')]

/-- Of two plain names one of which ends with a dot. -/
def LosesDot (pass pass' : Int) (u v : FileName) : Prop :=
  (∃ base ext, Plain pass u.chars base ext) ∧ (∃ base ext, Plain pass' v.chars base ext) ∧
    (u.chars.getLast? = some 46 ∨ v.chars.getLast? = some 46)

/-- **What the short names tell**, for any two file names, passes and fields: nothing else is read
or written, and exactly a dot at the end is lost. -/
theorem shortNames_iff (crc30Step : Int → List UInt16 → UInt64) (pass pass' : Int) (u v : FileName)
    (s s' : FatShortname) :
    (Confined crc30Step pass u s ∧ Confined crc30Step pass' v s') ∧
      (Faithful crc30Step pass pass' u v s s' ↔ ¬ LosesDot pass pass' u v) := by
  obtain ⟨r, hrun, hr⟩ := toShortname_spec crc30Step pass u s
  obtain ⟨r', hrun', hr'⟩ := toShortname_spec crc30Step pass' v s'
  refine ⟨⟨⟨r, hrun, hr.name_behind, hr.ext_behind⟩, ⟨r', hrun', hr'.name_behind, hr'.ext_behind⟩⟩,
    ?_, ?_⟩
  · rintro hfaithful ⟨⟨base, ext, hp⟩, ⟨base', ext', hp'⟩, hend⟩
    obtain ⟨-, hback, hback'⟩ := hfaithful r r' hrun hrun' (hr.chars _ _ hp).1 (hr'.chars _ _ hp').1
    rcases hend with hend | hend
    · exact (turnedBack_iff hp hr).mp hback hend
    · exact (turnedBack_iff hp' hr').mp hback' hend
  · intro hkeeps q q' hq hq' hflag hflag'
    obtain rfl := Option.some.inj (hrun.symm.trans hq)
    obtain rfl := Option.some.inj (hrun'.symm.trans hq')
    obtain ⟨base, ext, hp⟩ := hr.plain hflag
    obtain ⟨base', ext', hp'⟩ := hr'.plain hflag'
    obtain ⟨hend, hend'⟩ : u.chars.getLast? ≠ some 46 ∧ v.chars.getLast? ≠ some 46 := by
      rw [← not_or]
      exact fun hend => hkeeps ⟨⟨base, ext, hp⟩, ⟨base', ext', hp'⟩, hend⟩
    refine ⟨fun hsame => ?_, (turnedBack_iff hp hr).mpr hend, (turnedBack_iff hp' hr').mpr hend'⟩
    obtain ⟨-, hname, hext⟩ := hr.chars _ _ hp
    obtain ⟨-, hname', hext'⟩ := hr'.chars _ _ hp'
    rw [FatShortname.Same, hname, hext, hname', hext'] at hsame
    have hbase := same_of_stored hp.base_valid hp'.base_valid hp.base_le hp'.base_le hsame.1
    have hexts := same_of_stored hp.ext_valid hp'.ext_valid hp.ext_le hp'.ext_le hsame.2
    have hnil : ext = [] ↔ ext' = [] := by
      rw [← map_eq_nil_iff (f := toUpperCase), hexts, map_eq_nil_iff]
    rw [SameUpToCase, hp.chars_eq hend, hp'.chars_eq hend', map_append, map_append, hbase]
    congr 1
    by_cases hempty : ext = []
    · rw [if_pos hempty, if_pos (hnil.mp hempty)]
    · rw [if_neg hempty, if_neg (mt hnil.mpr hempty), map_cons, map_cons, hexts]

end

/-- `a.`. -/
def aDot : FileName := ⟨[97, 46], by decide⟩

/-- `A`. -/
def bigA : FileName := ⟨[65], by decide⟩

/-- `a.` and `A` get the same short name, but are not the same name. -/
theorem shortNames_not_faithful :
    ¬ Faithful (fun _ _ => 0) 1 1 aDot bigA ⟨fun _ => 0, fun _ => 0⟩ ⟨fun _ => 0, fun _ => 0⟩ := by
  intro h
  obtain ⟨r, hrun, hr⟩ := toShortname_spec (fun _ _ => 0) 1 aDot ⟨fun _ => 0, fun _ => 0⟩
  obtain ⟨r', hrun', hr'⟩ := toShortname_spec (fun _ _ => 0) 1 bigA ⟨fun _ => 0, fun _ => 0⟩
  have hp : Plain 1 aDot.chars [97] [] :=
    ⟨by decide, forall_mem_singleton.mpr (by decide), forall_mem_nil _, by decide, by decide,
      .inr ⟨rfl, by decide⟩⟩
  have hp' : Plain 1 bigA.chars [65] [] :=
    ⟨by decide, forall_mem_singleton.mpr (by decide), forall_mem_nil _, by decide, by decide,
      .inl ⟨rfl, rfl⟩⟩
  obtain ⟨hflag, hname, hext⟩ := hr.chars _ _ hp
  obtain ⟨hflag', hname', hext'⟩ := hr'.chars _ _ hp'
  obtain ⟨hsame, -⟩ := h r r' hrun hrun' hflag hflag'
  have hstored : r.shortname.Same r'.shortname := by
    rw [FatShortname.Same, hname, hname', hext, hext']
    exact ⟨fun _ _ => rfl, fun _ _ => rfl⟩
  exact absurd (congrArg List.length (hsame hstored)) (by decide)

end Efs
