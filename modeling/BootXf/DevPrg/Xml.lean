import Mathlib.Algebra.GroupWithZero.Nat

/-!
# Commands in XML

`devprg_xml.c` scans a command in place: `devprg_xml_command_open` puts a zero behind the tag, the
names and the values, and keeps pointers to them. `xml_iff` says which documents it undoes, and for
which buffers it stays inside.

A buffer is the list of its bytes, and a pointer into it the distance from its start. What the
scanner does once it has looked outside of the buffer is not described.
-/

namespace DevPrg

/-- What `devprg_xml_command_open` comes to: it has looked outside of the buffer, it returns
`NULL`, or it returns something else. -/
inductive Scanned (α : Type)
  | outside
  | null
  | found (a : α)

namespace Scanned

/-- Going on with what has been found. -/
def bind {α β : Type} : Scanned α → (α → Scanned β) → Scanned β
  | outside, _ => outside
  | null, _ => null
  | found a, f => f a

end Scanned

/-- `<data>`. -/
def dataTag : List UInt8 := [60, 100, 97, 116, 97, 62]

/-- What `find_next_attr` goes over. -/
def IsBlank (c : UInt8) : Prop := c = 32 ∨ c = 10 ∨ c = 13

instance : DecidablePred IsBlank := fun _ => inferInstanceAs (Decidable (_ ∨ _))

/-- `find_next_attr`. -/
def findNextAttr (buf : List UInt8) (ptr : Nat) : Nat :=
  ptr + ((buf.drop ptr).takeWhile fun c => IsBlank c).length

/-- `find_next_char`. -/
def findNextChar (toFind : UInt8) (buf : List UInt8) (ptr : Nat) : Nat :=
  ptr + ((buf.drop ptr).takeWhile fun c => c ≠ toFind).length

/-- `DEVPRG_MAX_NUM_ATTRIBUTES`. -/
def devprgMaxNumAttributes : Nat := 128

/-- `DEVPRG_MAX_ATTRIBUTE_SIZE`. -/
def devprgMaxAttributeSize : Nat := 4096

/-- `len - 6`, in 64 bits. -/
def lastOffsetOf (len : Nat) : Nat := if len < 6 then 2 ^ 64 + len - 6 else len - 6

/-- The search for `<data>`, character by character, where so many have been matched. The offset is
only compared in front of the first one, and a character that is different is passed over. -/
def findData (lastOffset : Nat) : Nat → Nat → List UInt8 → Scanned Nat
  | matched, offset, [] => if matched = 0 ∧ lastOffset ≤ offset then .found offset else .outside
  | matched, offset, c :: rest =>
    if matched = 0 ∧ lastOffset ≤ offset then .found offset
    else if c ≠ dataTag.getD matched 0 then findData lastOffset 0 (offset + 1) rest
    else if matched = 5 then .found (offset + 1)
    else findData lastOffset (matched + 1) (offset + 1) rest

/-- The search for a character where the end is only compared behind each that is different. -/
def seek (toFind : UInt8) : Nat → List UInt8 → Scanned Nat
  | _, [] => .outside
  | ptr, c :: rest =>
    if c = toFind then .found ptr
    else if rest = [] then .null
    else seek toFind (ptr + 1) rest

/-- `dp_xml_attribute`. -/
structure XmlAttribute where
  name : Nat
  value : Nat
  deriving DecidableEq

/-- The loop over the attributes, of which so many more have room. -/
def attributeLoop : Nat → List XmlAttribute → List UInt8 → Nat →
    Scanned (List XmlAttribute × List UInt8)
  | 0, attributes, buf, _ => .found (attributes, buf)
  | left + 1, attributes, buf, ptr =>
    match buf[ptr]?, buf[ptr + 1]? with
    | none, _ => .outside
    | some c, next =>
      if c = 47 then .found (attributes, buf)
      else
        match next with
        | none => .outside
        | some d =>
          if d = 62 then .found (attributes, buf)
          else
            let equals := findNextChar 61 buf ptr
            if buf.length ≤ equals + 3 then .null
            else
              let buf := buf.set equals 0
              if buf.getD (equals + 1) 0 ≠ 34 then .null
              else
                let value := equals + 2
                let quote := findNextChar 34 buf value
                if buf.length ≤ quote then .null
                else
                  let buf := buf.set quote 0
                  attributeLoop left (attributes ++ [⟨ptr, value⟩]) buf
                    (findNextAttr buf (quote + 1))

/-- `dp_xml_handle`, with the buffer that it points into. -/
structure XmlHandle where
  inUse : Bool
  buf : List UInt8
  tag : Nat
  attributes : List XmlAttribute

/-- `devprg_xml_command_open`. -/
def devprgXmlCommandOpen (buf : List UInt8) : Scanned XmlHandle :=
  let lastOffset := lastOffsetOf buf.length
  (findData lastOffset 0 0 buf).bind fun offset =>
    if lastOffset ≤ offset then .null
    else
      (seek 60 offset (buf.drop offset)).bind fun ptr =>
        let tag := ptr + 1
        (seek 32 tag (buf.drop tag)).bind fun ptr =>
          let buf := buf.set ptr 0
          (attributeLoop devprgMaxNumAttributes [] buf (findNextAttr buf (ptr + 1))).bind fun r =>
            .found { inUse := true, buf := r.2, tag, attributes := r.1 }

/-- The string at a pointer. -/
def cStringAt (buf : List UInt8) (ptr : Nat) : List UInt8 := (buf.drop ptr).takeWhile fun c => c ≠ 0

/-- `devprg_xml_get_tag`. Nothing stands for the empty string that is no part of the buffer. -/
def devprgXmlGetTag (handle : XmlHandle) : Option Nat :=
  if handle.inUse then some handle.tag else none

/-- `devprg_xml_get_value`, which compares the first characters of names. -/
def devprgXmlGetValue (handle : XmlHandle) (attr : List UInt8) : Option Nat :=
  if handle.inUse then
    (handle.attributes.find? fun a => attr.take devprgMaxAttributeSize =
      (cStringAt handle.buf a.name).take devprgMaxAttributeSize).map XmlAttribute.value
  else none

/-! ## Documents -/

/-- An attribute as it is written, with the blanks in front of it. -/
structure Attribute where
  blanks : List UInt8
  name : List UInt8
  value : List UInt8

namespace Attribute

/-- How it is written. -/
def encode (a : Attribute) : List UInt8 := a.blanks ++ (a.name ++ ([61, 34] ++ (a.value ++ [34])))

/-- Blanks, a name without an equals sign, and a value without a quote. -/
structure WellFormed (a : Attribute) : Prop where
  blanks : ∀ c ∈ a.blanks, IsBlank c
  name : 61 ∉ a.name
  value : 34 ∉ a.value

end Attribute

/-- A command as the host writes it. There is something between the tag, the attributes and the
end, and no string has a zero in it. -/
structure Document where
  prolog : List UInt8
  between : List UInt8
  tag : List UInt8
  attributes : List Attribute
  closing : List UInt8
  behind : List UInt8
  between_ok : 60 ∉ between
  tag_ok : ∀ c ∈ tag, ¬ IsBlank c ∧ c ≠ 0
  attributes_le : attributes.length ≤ devprgMaxNumAttributes
  attributes_ok : ∀ a ∈ attributes, a.WellFormed ∧ a.blanks ≠ [] ∧ 0 ∉ a.name ∧ 0 ∉ a.value
  closing_ok : ∀ c ∈ closing, IsBlank c

namespace Document

/-- What is behind the tag. -/
def rest (d : Document) : List UInt8 :=
  d.attributes.flatMap Attribute.encode ++ (d.closing ++ ([47, 62] ++ d.behind))

/-- What is behind `<data>`. -/
def body (d : Document) : List UInt8 := d.between ++ (60 :: (d.tag ++ d.rest))

/-- How the command is written. -/
def encode (d : Document) : List UInt8 := d.prolog ++ (dataTag ++ d.body)

/-- Where the tag is. -/
def tagAt (d : Document) : Nat := d.prolog.length + 6 + d.between.length + 1

end Document

/-- Where the value of the first attribute with a name is, and what it is. -/
def lookup (name : List UInt8) : Nat → List Attribute → Option (Nat × List UInt8)
  | _, [] => none
  | ptr, a :: attributes =>
    if a.name = name then some (ptr + a.blanks.length + a.name.length + 2, a.value)
    else lookup name (ptr + a.encode.length) attributes

/-- A document is opened, and the tag and the values of the attributes are those that are in it, at
their places. -/
def RoundTrips (d : Document) : Prop :=
  ∃ handle, devprgXmlCommandOpen d.encode = .found handle ∧
    (devprgXmlGetTag handle).map (fun p => (p, cStringAt handle.buf p)) = some (d.tagAt, d.tag) ∧
    ∀ name, 0 ∉ name →
      (devprgXmlGetValue handle name).map (fun p => (p, cStringAt handle.buf p)) =
        lookup name (d.tagAt + d.tag.length) d.attributes

/-! ## What is undone -/

/-- What the search passes over: characters each with what has been matched of `<data>` in front. -/
inductive Passed : List UInt8 → Prop
  | nil : Passed []
  | pass {k : Nat} {c : UInt8} {rest : List UInt8} : k < 6 → c ≠ dataTag.getD k 0 → Passed rest →
      Passed (dataTag.take k ++ c :: rest)

/-- A name is not taken for the end, nor for a blank: of its characters the first is neither a
slash nor a blank, and the second is not `>`. -/
structure Starts (name : List UInt8) : Prop where
  first : ∀ c, name[0]? = some c → ¬ IsBlank c ∧ c ≠ 47
  second : name[1]? ≠ some 62

/-- Which documents are undone. -/
structure Document.Fits (d : Document) : Prop where
  prolog : Passed d.prolog
  body : 6 < d.body.length
  tag : d.rest.head? = some 32
  names : ∀ a ∈ d.attributes, Starts a.name ∧ a.name.length < devprgMaxAttributeSize

/-- The bytes behind the tag end, with blanks and at most one other character that is not a slash,
where another attribute or the end is looked for. -/
inductive EndsShort : Nat → List UInt8 → Prop
  | here {left : Nat} {blanks rest : List UInt8} : (∀ c ∈ blanks, IsBlank c) →
      (rest = [] ∨ ∃ c, rest = [c] ∧ ¬ IsBlank c ∧ c ≠ 47) → EndsShort (left + 1) (blanks ++ rest)
  | behind {left : Nat} {rest : List UInt8} (a : Attribute) : a.WellFormed → Starts a.name →
      (a.value = [] → rest ≠ []) → EndsShort left rest → EndsShort (left + 1) (a.encode ++ rest)

/-- The buffer is shorter than `<data>`, or ends behind the `<` of the tag, or behind the blank
after the tag or some attributes. -/
def CutShort (buf : List UInt8) : Prop :=
  buf.length < 6 ∨ ∃ prolog between rest, Passed prolog ∧ 60 ∉ between ∧
    buf = prolog ++ (dataTag ++ (between ++ 60 :: rest)) ∧ 6 < between.length + 1 + rest.length ∧
    (rest = [] ∨ ∃ tag u, 32 ∉ tag ∧ rest = tag ++ 32 :: u ∧ EndsShort devprgMaxNumAttributes u)

end DevPrg
