import BootXf.Lib.Bytes
import BootXf.Lib.Ring

/-!
# Key-value pairs

What is sent to the resource power manager and comes from it is a sequence of pairs, each a type, a
length and that many bytes, up to the next multiple of four. A pair is put into a byte array that
grows as it has to. Numbers are of 32 bits. `CORE_VERIFY` and ERR_FATAL are `none`.
-/

namespace RpmClient

open Lib List Option

/-! ## Byte arrays -/

/-- `bytearray_t`, with the memory from its pointer on. -/
structure Bytearray where
  staticBuffer : Bool
  size : Nat
  reserved : Nat
  bytes : Nat → UInt8

/-- Whether `Core_Malloc` gets a block. With its header of four bytes in front the size of a block
may wrap, and then the block is shorter than its header. -/
def coreMalloc (size : Nat) : Bool := size + 4 < 2 ^ 32

/-- `bytearray_create`, with what is in the memory that it gets. -/
def bytearrayCreate (bufferSize : Nat) (bytes : Nat → UInt8) : Option Bytearray :=
  if bufferSize = 0 then some ⟨false, 0, 0, bytes⟩
  else if coreMalloc bufferSize then some ⟨false, 0, bufferSize, bytes⟩
  else none

/-- `bytearray_extend`. -/
def bytearrayExtend (a : Bytearray) (numBytes : Nat) : Option Bytearray :=
  let expSize := if a.size ≥ 0x80000000 then 0xFFFFFFFF else a.size * 2
  let requiredSize := (a.size + numBytes) % 2 ^ 32
  if requiredSize < a.size then none
  else
    let newSize := if expSize > requiredSize then expSize else requiredSize
    -- `Core_Realloc`, which keeps what was there
    if coreMalloc newSize then some { a with reserved := newSize } else none

/-- `bytearray_put`. -/
def bytearrayPut (a : Bytearray) (l : List UInt8) : Option Bytearray :=
  if a.staticBuffer then some a
  else
    let newSize := (a.size + l.length) % 2 ^ 32
    if newSize < a.size then none
    else
      let extended := if newSize > a.reserved then bytearrayExtend a l.length else some a
      extended.map fun a => { a with bytes := Ring.put a.bytes a.size l, size := newSize }

/-- `bytearray_swapbuffer`. -/
def bytearraySwapbuffer (bytes : Nat → UInt8) (bufferSize : Nat) : Bytearray :=
  ⟨true, bufferSize, bufferSize, bytes⟩

/-! ## Pairs -/

/-- `kvp_t`. -/
structure Kvp where
  buffer : Bytearray
  readIdx : Nat

/-- `kvp_create`. -/
def kvpCreate (bufferSize : Nat) (bytes : Nat → UInt8) : Option Kvp :=
  (bytearrayCreate bufferSize bytes).map fun buffer => ⟨buffer, 0⟩

/-- `kvp_swapbuffer`. -/
def kvpSwapbuffer (bytes : Nat → UInt8) (bufferSize : Nat) : Kvp :=
  ⟨bytearraySwapbuffer bytes bufferSize, 0⟩

/-- `kvp_eof`. -/
def kvpEof (k : Kvp) : Bool := k.readIdx ≥ k.buffer.size

/-- `kvp_get_raw_size`. -/
def kvpGetRawSize (k : Kvp) : Nat := k.buffer.size

/-- `ALIGN_32`. -/
def align32 (n : Nat) : Nat := (n + 3) % 2 ^ 32 / 4 * 4

/-- `MAX_KVP_LENGTH`. -/
def maxKvpLength : Nat := 100

/-- `kvp_put`. -/
def kvpPut (k : Kvp) (type : UInt32) (value : List UInt8) : Option Kvp :=
  let length := value.length
  let requiredPad := align32 (length % 4) - length % 4
  if ¬ length < maxKvpLength then none
  else do
    let a ← bytearrayPut k.buffer (leBytes 4 type.toNat)
    let a ← bytearrayPut a (leBytes 4 length)
    let a ← bytearrayPut a value
    let padded := if requiredPad ≠ 0 then bytearrayPut a (replicate requiredPad 0) else some a
    padded.map fun a => { k with buffer := a }

/-- `kvp_bytes_available`. -/
def kvpBytesAvailable (k : Kvp) : Nat :=
  if k.readIdx ≥ k.buffer.size then 0 else k.buffer.size - k.readIdx

/-- What `kvp_get` comes to: it sets nothing and returns 0, sets type and length and returns 0, or
returns 1 with the value at NULL or at a place of the buffer. -/
inductive KvpGet
  | failed
  | truncated (type length : UInt32)
  | null (type : UInt32)
  | value (type length : UInt32) (start : Nat)
  deriving DecidableEq

/-- `head->type` or `head->length`. -/
def Kvp.word (k : Kvp) (i : Nat) : UInt32 := .ofNat (leValue (Ring.get k.buffer.bytes i 4))

/-- `kvp_get`. -/
def kvpGet (k : Kvp) : KvpGet × Kvp :=
  if kvpBytesAvailable k < 8 then (.failed, k)
  else
    let type := k.word k.readIdx
    let length := k.word (k.readIdx + 4)
    let k := { k with readIdx := k.readIdx + 8 }
    if length = 0 then (.null type, k)
    else if kvpBytesAvailable k < align32 length.toNat then (.truncated type length, k)
    else (.value type length k.readIdx, { k with readIdx := k.readIdx + align32 length.toNat })

/-! ## What an array spells -/

/-- An array that is not static, and what is in it. -/
structure Bytearray.Spells (a : Bytearray) (l : List UInt8) : Prop where
  owned : a.staticBuffer = false
  size : a.size = l.length
  lt : l.length < 2 ^ 32
  bytes : Ring.get a.bytes 0 l.length = l

namespace Bytearray.Spells
variable {a : Bytearray} {l m : List UInt8}

theorem cell (h : a.Spells l) {k : Nat} (hk : k < l.length) : a.bytes k = l[k] := by
  have hcell : (Ring.get a.bytes 0 l.length)[k]? = l[k]? := by rw [h.bytes]
  simpa [Ring.get, hk] using hcell

/-- A piece of it. -/
theorem get (h : a.Spells l) {i n : Nat} (hle : i + n ≤ l.length) :
    Ring.get a.bytes i n = (l.drop i).take n := by
  refine ext_getElem (by simp; omega) fun k hk _ => ?_
  have hk : k < n := by simpa using hk
  simpa [Ring.get] using h.cell (show i + k < l.length by omega)

end Bytearray.Spells

/-- What is reserved when so many bytes more have been put into an array of this size with so much
reserved, if it can grow. -/
def roomFor (reserved size n : Nat) : Option Nat :=
  if size + n ≤ reserved then some reserved
  else if size < 2 ^ 31 ∧ coreMalloc (max (2 * size) (size + n)) then
    some (max (2 * size) (size + n))
  else none

/-- Putting one piece after the other. -/
def roomForAll (reserved size : Nat) : List Nat → Option Nat
  | [] => some reserved
  | n :: ns => (roomFor reserved size n).bind fun reserved => roomForAll reserved (size + n) ns

theorem roomFor_lt {reserved size n r : Nat} (hreserved : reserved < 2 ^ 32)
    (h : roomFor reserved size n = some r) : size + n ≤ r ∧ r < 2 ^ 32 := by
  unfold roomFor coreMalloc at h
  split at h
  · cases h
    exact ⟨by assumption, hreserved⟩
  · split at h
    · next hgrows =>
      cases h
      have hless := of_decide_eq_true hgrows.2
      exact ⟨Nat.le_max_right .., by omega⟩
    · cases h

/-- Growing. -/
theorem bytearrayExtend_spec {a : Bytearray} {n : Nat} (hsize : a.size < 2 ^ 32)
    (hsum : a.size + n < 2 ^ 32) (hfull : a.reserved < a.size + n) :
    bytearrayExtend a n =
      (roomFor a.reserved a.size n).map fun reserved => { a with reserved := reserved } := by
  unfold bytearrayExtend roomFor
  rw [Nat.mod_eq_of_lt hsum, if_neg (Nat.not_lt.mpr (Nat.le_add_right ..)),
    if_neg (Nat.not_le.mpr hfull)]
  dsimp only
  rcases Nat.lt_or_ge a.size (2 ^ 31) with hless | hbig
  · have hexp : (if a.size ≥ 0x80000000 then 0xFFFFFFFF else a.size * 2) = a.size * 2 :=
      if_neg (by omega)
    have hmax : (if a.size * 2 > a.size + n then a.size * 2 else a.size + n) =
        max (2 * a.size) (a.size + n) := by
      split <;> omega
    rw [hexp, hmax]
    by_cases hmalloc : coreMalloc (max (2 * a.size) (a.size + n)) = true
    · rw [if_pos hmalloc, if_pos ⟨hless, hmalloc⟩]
      rfl
    · rw [if_neg hmalloc, if_neg fun h => hmalloc h.2]
      rfl
  · -- the size that it is to grow to is the greatest number
    have hexp : (if a.size ≥ 0x80000000 then 0xFFFFFFFF else a.size * 2) = 0xFFFFFFFF :=
      if_pos (by omega)
    have hmalloc : ¬ coreMalloc (if 0xFFFFFFFF > a.size + n then 0xFFFFFFFF else a.size + n) =
        true := by
      unfold coreMalloc
      rw [decide_eq_true_eq]
      split <;> omega
    rw [hexp, if_neg hmalloc, if_neg fun h => absurd h.1 (Nat.not_lt.mpr hbig)]
    rfl

/-- **Putting bytes.** They come behind what is there, as long as the array can grow. -/
theorem bytearrayPut_spec {a : Bytearray} {l m : List UInt8} (h : a.Spells l)
    (hreserved : a.reserved < 2 ^ 32) (hm : m.length < 2 ^ 31) :
    match roomFor a.reserved l.length m.length with
    | none => bytearrayPut a m = none
    | some r => ∃ a', bytearrayPut a m = some a' ∧ a'.Spells (l ++ m) ∧ a'.reserved = r := by
  have hlt := h.lt
  have hput : ∀ r, l.length + m.length < 2 ^ 32 →
      Bytearray.Spells ⟨false, l.length + m.length, r, Ring.put a.bytes l.length m⟩ (l ++ m) := by
    intro r hsum
    refine ⟨rfl, (length_append ..).symm, by rwa [length_append], ?_⟩
    refine ext_getElem (by simp) fun k hk hk' => ?_
    simp only [Ring.get, getElem_map, getElem_range, Nat.zero_add]
    rw [length_append] at hk'
    rcases Nat.lt_or_ge k l.length with hold | hnew
    · rw [Ring.put_of_not_mem (.inl hold), getElem_append_left hold, h.cell hold]
    · have hcell : Ring.put a.bytes l.length m (l.length + (k - l.length)) = m[k - l.length] :=
        Ring.put_at (by omega)
      rw [Nat.add_sub_cancel' hnew] at hcell
      rw [hcell, getElem_append_right hnew]
  have hrun : bytearrayPut a m =
      if (l.length + m.length) % 2 ^ 32 < l.length then none
      else (if (l.length + m.length) % 2 ^ 32 > a.reserved then bytearrayExtend a m.length
        else some a).map fun a => { a with
            bytes := Ring.put a.bytes a.size m
            size := (l.length + m.length) % 2 ^ 32 } := by
    unfold bytearrayPut
    rw [h.owned, h.size, if_neg Bool.false_ne_true]
  rw [hrun]
  rcases Nat.lt_or_ge (l.length + m.length) (2 ^ 32) with hsum | hwrap
  · rw [Nat.mod_eq_of_lt hsum, if_neg (by omega)]
    rcases Nat.lt_or_ge a.reserved (l.length + m.length) with hfull | hroom
    · rw [if_pos hfull, bytearrayExtend_spec (by rw [h.size]; exact hlt)
        (by rw [h.size]; exact hsum)
        (by rw [h.size]; exact hfull), h.size]
      cases hr : roomFor a.reserved l.length m.length with
      | none => rfl
      | some r =>
        refine ⟨_, rfl, ?_, rfl⟩
        rw [h.owned]
        exact hput r hsum
    · rw [if_neg (Nat.not_lt.mpr hroom)]
      unfold roomFor
      rw [if_pos hroom]
      refine ⟨_, rfl, ?_, rfl⟩
      dsimp only
      rw [h.owned, h.size]
      exact hput a.reserved hsum
  · have hnone : roomFor a.reserved l.length m.length = none := by
      cases hr : roomFor a.reserved l.length m.length with
      | none => rfl
      | some r => exact absurd (roomFor_lt hreserved hr) (by omega)
    rw [hnone, if_pos (by omega)]

/-- `bytearray_put`, of one piece after the other. -/
def bytearrayPuts (a : Bytearray) : List (List UInt8) → Option Bytearray
  | [] => some a
  | m :: ms => (bytearrayPut a m).bind fun a => bytearrayPuts a ms

/-- Pieces are put one after the other. -/
theorem bytearrayPuts_append (a : Bytearray) (ms ns : List (List UInt8)) :
    bytearrayPuts a (ms ++ ns) = (bytearrayPuts a ms).bind fun a => bytearrayPuts a ns := by
  induction ms generalizing a with
  | nil => rfl
  | cons m ms ih =>
    rw [cons_append, bytearrayPuts, bytearrayPuts]
    cases bytearrayPut a m with
    | none => rfl
    | some a' => exact ih a'

/-- Putting one piece after the other. -/
theorem bytearrayPuts_spec {a : Bytearray} {l : List UInt8} {ms : List (List UInt8)}
    (h : a.Spells l) (hreserved : a.reserved < 2 ^ 32) (hms : ∀ m ∈ ms, m.length < 2 ^ 31) :
    match roomForAll a.reserved l.length (ms.map List.length) with
    | none => bytearrayPuts a ms = none
    | some _ => ∃ a', bytearrayPuts a ms = some a' ∧ a'.Spells (l ++ ms.flatten) := by
  induction ms generalizing a l with
  | nil =>
    refine ⟨a, rfl, ?_⟩
    rw [flatten_nil, append_nil]
    exact h
  | cons m ms ih =>
    have hput := bytearrayPut_spec h hreserved (hms m (mem_cons_self ..))
    rw [map_cons, roomForAll]
    unfold bytearrayPuts
    cases hr : roomFor a.reserved l.length m.length with
    | none =>
      rw [hr] at hput
      dsimp only at hput
      rw [hput]
      rfl
    | some r =>
      rw [hr] at hput
      obtain ⟨a', hput, hspells, hres⟩ := hput
      have hrest := ih hspells (by rw [hres]; exact (roomFor_lt hreserved hr).2)
        fun m hm => hms m (mem_cons_of_mem _ hm)
      rw [hres, length_append, append_assoc] at hrest
      rw [hput, bind_some, bind_some, flatten_cons]
      exact hrest

/-! ## Pairs that are put -/

/-- A pair that may be put. -/
structure Pair where
  type : UInt32
  value : List UInt8
  length_lt : value.length < maxKvpLength

/-- The zeros behind its value. -/
def Pair.padding (p : Pair) : Nat := (p.value.length + 3) / 4 * 4 - p.value.length

/-- The pieces that are put one after the other. -/
def Pair.pieces (p : Pair) : List (List UInt8) :=
  [leBytes 4 p.type.toNat, leBytes 4 p.value.length, p.value] ++
    if p.padding ≠ 0 then [replicate p.padding 0] else []

/-- What they spell. -/
def Pair.frame (p : Pair) : List UInt8 :=
  leBytes 4 p.type.toNat ++ leBytes 4 p.value.length ++ p.value ++ replicate p.padding 0

/-- The raw size of a pair: eight, and its length rounded up to four. -/
def Pair.space (p : Pair) : Nat := 8 + (p.value.length + 3) / 4 * 4

@[simp] theorem Pair.length_frame (p : Pair) : p.frame.length = p.space := by
  simp only [frame, length_append, length_leBytes, length_replicate, padding, space]
  omega

theorem Pair.flatten_pieces (p : Pair) : p.pieces.flatten = p.frame := by
  unfold pieces frame
  split
  · simp
  · next hno =>
    rw [Decidable.not_not.mp hno]
    simp

theorem Pair.length_lt_of_mem {p : Pair} {m : List UInt8} (hm : m ∈ p.pieces) :
    m.length < 2 ^ 31 := by
  have hlen := p.length_lt
  unfold maxKvpLength at hlen
  have hpad : p.padding < 4 := by
    unfold padding
    omega
  unfold pieces at hm
  simp only [cons_append, nil_append, mem_cons] at hm
  rcases hm with rfl | rfl | rfl | hm
  · rw [length_leBytes]
    decide
  · rw [length_leBytes]
    decide
  · omega
  · split at hm
    · rw [mem_singleton.mp hm, length_replicate]
      omega
    · cases hm

/-- `kvp_put`, of one pair after the other. -/
def kvpPuts (k : Kvp) : List Pair → Option Kvp
  | [] => some k
  | p :: ps => (kvpPut k p.type p.value).bind fun k => kvpPuts k ps

/-- A pair is put as its pieces. -/
theorem kvpPut_eq (k : Kvp) (p : Pair) :
    kvpPut k p.type p.value =
      (bytearrayPuts k.buffer p.pieces).map fun a => { k with buffer := a } := by
  have hlen := p.length_lt
  have hpad : align32 (p.value.length % 4) - p.value.length % 4 = p.padding := by
    unfold align32 Pair.padding
    omega
  unfold kvpPut Pair.pieces
  dsimp only
  rw [hpad, if_neg (Decidable.not_not.mpr hlen)]
  by_cases hpadded : p.padding ≠ 0
  · simp only [if_pos hpadded, cons_append, nil_append, bytearrayPuts,
      bind_eq_bind, Option.map_bind, Function.comp_def, bind_fun_some]
  · simp only [if_neg hpadded, append_nil, bytearrayPuts, bind_eq_bind,
      Option.map_bind, Function.comp_def]

theorem kvpPuts_eq (k : Kvp) (ps : List Pair) :
    kvpPuts k ps =
      (bytearrayPuts k.buffer (ps.flatMap Pair.pieces)).map fun a => { k with buffer := a } := by
  induction ps generalizing k with
  | nil => rfl
  | cons p ps ih =>
    rw [kvpPuts, kvpPut_eq, flatMap_cons, bytearrayPuts_append]
    cases bytearrayPuts k.buffer p.pieces with
    | none => rfl
    | some a => exact ih { k with buffer := a }

/-! ## Pairs that are got -/

/-- `kvp_get`, so many times. -/
def kvpGets : Nat → Kvp → List KvpGet × Kvp
  | 0, k => ([], k)
  | n + 1, k => ((kvpGet k).1 :: (kvpGets n (kvpGet k).2).1, (kvpGets n (kvpGet k).2).2)

/-- The type, the length and the value that `kvp_get` answers. -/
def Kvp.answer (k : Kvp) : KvpGet → Option (UInt32 × UInt32 × List UInt8)
  | .null type => some (type, 0, [])
  | .value type length start => some (type, length, Ring.get k.buffer.bytes start length.toNat)
  | _ => none

/-- Reading stands before some bytes. -/
structure Kvp.Before (k : Kvp) (l : List UInt8) (rest : List UInt8) : Prop where
  spells : k.buffer.Spells l
  rest : l.drop k.readIdx = rest
  le : k.readIdx ≤ l.length

namespace Kvp.Before
variable {k : Kvp} {l rest : List UInt8}

theorem size (h : k.Before l rest) : k.readIdx + rest.length = k.buffer.size := by
  have hle := h.le
  rw [← h.rest, h.spells.size, length_drop]
  omega

/-- The bytes in front. -/
theorem get (h : k.Before l rest) {i n : Nat} (hle : i + n ≤ rest.length) :
    Ring.get k.buffer.bytes (k.readIdx + i) n = (rest.drop i).take n := by
  have hsize := h.size
  rw [h.spells.get (by rw [← h.spells.size]; omega), ← drop_drop, h.rest]

/-- What is available is what was not read. -/
theorem kvpBytesAvailable (h : k.Before l rest) : kvpBytesAvailable k = rest.length := by
  have hsize := h.size
  unfold RpmClient.kvpBytesAvailable
  split <;> omega

theorem kvpEof (h : k.Before l []) : kvpEof k = true := by
  have hsize := h.size
  rw [length_nil] at hsize
  unfold RpmClient.kvpEof
  exact decide_eq_true (by omega)

/-- Going on. -/
theorem move (h : k.Before l rest) {n : Nat} (hle : n ≤ rest.length) :
    Kvp.Before { k with readIdx := k.readIdx + n } l (rest.drop n) where
  spells := h.spells
  rest := by rw [← h.rest, drop_drop]
  le := by
    have hsize := h.size
    have hlen := h.spells.size
    dsimp only
    omega

end Kvp.Before

theorem Pair.take_type (p : Pair) (rest : List UInt8) :
    (p.frame ++ rest).take 4 = leBytes 4 p.type.toNat := by
  unfold frame
  rw [append_assoc, append_assoc, append_assoc,
    take_left' (length_leBytes ..)]

theorem Pair.take_length (p : Pair) (rest : List UInt8) :
    ((p.frame ++ rest).drop 4).take 4 = leBytes 4 p.value.length := by
  unfold frame
  rw [append_assoc, append_assoc, append_assoc,
    drop_left' (length_leBytes ..), take_left' (length_leBytes ..)]

theorem Pair.take_value (p : Pair) (rest : List UInt8) :
    ((p.frame ++ rest).drop 8).take p.value.length = p.value := by
  unfold frame
  rw [append_assoc, append_assoc, drop_left' (by simp), take_left' rfl]

/-- **Getting a pair** that stands in front. -/
theorem kvpGet_frame {k : Kvp} {l rest : List UInt8} {p : Pair}
    (h : k.Before l (p.frame ++ rest)) :
    k.answer (kvpGet k).1 = some (p.type, .ofNat p.value.length, p.value) ∧
      Kvp.Before (kvpGet k).2 l rest := by
  have hlen : p.value.length < 100 := p.length_lt
  have hframe : (p.frame ++ rest).length = p.space + rest.length := by
    rw [length_append, p.length_frame]
  have hspace : 8 ≤ p.space := Nat.le_add_right ..
  have havail := h.kvpBytesAvailable
  have htype : k.word k.readIdx = p.type := by
    unfold Kvp.word
    rw [← Nat.add_zero k.readIdx, h.get (by omega), drop_zero, p.take_type,
      leValue_leBytes_of_lt (UInt32.toNat_lt _), UInt32.ofNat_toNat]
  have hlength : k.word (k.readIdx + 4) = .ofNat p.value.length := by
    unfold Kvp.word
    rw [h.get (by omega), p.take_length, leValue_leBytes_of_lt (by omega)]
  have hvalue : Ring.get k.buffer.bytes (k.readIdx + 8) p.value.length = p.value := by
    rw [h.get (by unfold Pair.space at hframe; omega), p.take_value]
  have hsmall : (UInt32.ofNat p.value.length).toNat = p.value.length :=
    UInt32.toNat_ofNat_of_lt' (by unfold UInt32.size; omega)
  have hbehind := h.move (n := 8) (by omega)
  unfold kvpGet
  rw [if_neg (by omega), htype, hlength]
  dsimp only
  by_cases hnull : p.value.length = 0
  · have hzero : UInt32.ofNat p.value.length = 0 := by rw [hnull]; rfl
    have hnil : p.value = [] := length_eq_zero_iff.mp hnull
    rw [if_pos hzero]
    refine ⟨by rw [hzero, hnil]; rfl, ?_⟩
    have hdrop : (p.frame ++ rest).drop 8 = rest :=
      drop_left' (by rw [p.length_frame]; unfold Pair.space; omega)
    rwa [hdrop] at hbehind
  · have hnonzero : UInt32.ofNat p.value.length ≠ 0 := fun hzero => hnull (by
      rw [← hsmall, hzero]
      rfl)
    have halign : align32 p.value.length = (p.value.length + 3) / 4 * 4 := by
      unfold align32
      omega
    have hrest := hbehind.kvpBytesAvailable
    rw [length_drop] at hrest
    have hmove := hbehind.move (n := (p.value.length + 3) / 4 * 4) (by
      rw [length_drop]
      unfold Pair.space at hframe
      omega)
    have hdrop : ((p.frame ++ rest).drop 8).drop ((p.value.length + 3) / 4 * 4) = rest := by
      rw [drop_drop]
      exact drop_left' (p.length_frame ..)
    rw [hdrop] at hmove
    rw [if_neg hnonzero, hsmall, halign, if_neg (by
      rw [hrest]
      unfold Pair.space at hframe
      omega)]
    refine ⟨?_, hmove⟩
    unfold Kvp.answer
    dsimp only
    rw [hsmall, hvalue]

theorem kvpGet_buffer (k : Kvp) : (kvpGet k).2.buffer = k.buffer := by
  unfold kvpGet
  dsimp only
  repeat' split
  all_goals rfl

theorem answer_congr {k k' : Kvp} (h : k'.buffer = k.buffer) : k'.answer = k.answer := by
  funext r
  unfold Kvp.answer
  rw [h]

/-- Getting all pairs that stand in front. -/
theorem kvpGets_frames {k : Kvp} {l : List UInt8} {ps : List Pair}
    (h : k.Before l (ps.flatMap Pair.frame)) :
    (kvpGets ps.length k).1.map k.answer =
        ps.map (fun p => some (p.type, .ofNat p.value.length, p.value)) ∧
      Kvp.Before (kvpGets ps.length k).2 l [] := by
  induction ps generalizing k with
  | nil => exact ⟨rfl, h⟩
  | cons p ps ih =>
    obtain ⟨hfirst, hbefore⟩ := kvpGet_frame h
    obtain ⟨hrest, hend⟩ := ih hbefore
    rw [answer_congr (kvpGet_buffer k)] at hrest
    exact ⟨congr (congrArg List.cons hfirst) hrest, hend⟩

/-! ## Putting and getting -/

/-- What there is room for: no block of `2 ^ 32 - 4` bytes or more is needed, and the buffer does
not grow once `2 ^ 31` bytes are in it. -/
def Fits (bufferSize : UInt32) (ps : List Pair) : Prop :=
  coreMalloc bufferSize.toNat = true ∧
    (roomForAll bufferSize.toNat 0 ((ps.flatMap Pair.pieces).map List.length)).isSome

/-- The pairs are put, into a buffer with so much reserved, and got again, and the raw size is what
they take. -/
def Decodes (bytes : Nat → UInt8) (bufferSize : UInt32) (ps : List Pair) : Prop :=
  ∃ k, ((kvpCreate bufferSize.toNat bytes).bind fun k => kvpPuts k ps) = some k ∧
    kvpGetRawSize k = (ps.map Pair.space).sum ∧
    (kvpGets ps.length k).1.map k.answer =
      ps.map (fun p => some (p.type, .ofNat p.value.length, p.value)) ∧
    kvpEof (kvpGets ps.length k).2 = true

theorem flatten_flatMap_pieces (ps : List Pair) :
    (ps.flatMap Pair.pieces).flatten = ps.flatMap Pair.frame := by
  induction ps with
  | nil => rfl
  | cons p ps ih =>
    rw [flatMap_cons, flatten_append, p.flatten_pieces, ih, flatMap_cons]

theorem length_frames (ps : List Pair) :
    (ps.flatMap Pair.frame).length = (ps.map Pair.space).sum := by
  induction ps with
  | nil => rfl
  | cons p ps ih =>
    rw [flatMap_cons, length_append, p.length_frame, ih, map_cons, sum_cons]

theorem pieces_lt (ps : List Pair) : ∀ m ∈ ps.flatMap Pair.pieces, m.length < 2 ^ 31 := by
  intro m hm
  obtain ⟨p, -, hmp⟩ := mem_flatMap.mp hm
  exact p.length_lt_of_mem hmp

/-- A buffer that is created. -/
theorem kvpCreate_of_malloc {bufferSize : Nat} (bytes : Nat → UInt8)
    (hmalloc : coreMalloc bufferSize = true) :
    kvpCreate bufferSize bytes = some ⟨⟨false, 0, bufferSize, bytes⟩, 0⟩ := by
  unfold kvpCreate bytearrayCreate
  by_cases hzero : bufferSize = 0
  · rw [if_pos hzero, hzero]
    rfl
  · rw [if_neg hzero, if_pos hmalloc]
    rfl

theorem kvpCreate_of_not_malloc {bufferSize : Nat} (bytes : Nat → UInt8)
    (hmalloc : ¬ coreMalloc bufferSize = true) : kvpCreate bufferSize bytes = none := by
  have hzero : bufferSize ≠ 0 := fun hzero => hmalloc (by rw [hzero]; decide)
  unfold kvpCreate bytearrayCreate
  rw [if_neg hzero, if_neg hmalloc]
  rfl

section
variable {bytes : Nat → UInt8} {bufferSize : UInt32} {ps : List Pair}

/-- What the pieces of the pairs come to in an empty buffer. -/
theorem puts_empty (bytes : Nat → UInt8) (bufferSize : UInt32) (ps : List Pair) :
    match roomForAll bufferSize.toNat 0 ((ps.flatMap Pair.pieces).map List.length) with
    | none => bytearrayPuts ⟨false, 0, bufferSize.toNat, bytes⟩ (ps.flatMap Pair.pieces) = none
    | some _ => ∃ a, bytearrayPuts ⟨false, 0, bufferSize.toNat, bytes⟩ (ps.flatMap Pair.pieces) =
        some a ∧ a.Spells (ps.flatMap Pair.frame) := by
  have hempty : Bytearray.Spells ⟨false, 0, bufferSize.toNat, bytes⟩ [] :=
    ⟨rfl, rfl, by decide, rfl⟩
  have hputs := bytearrayPuts_spec hempty bufferSize.toNat_lt (pieces_lt ps)
  rwa [length_nil, nil_append, flatten_flatMap_pieces] at hputs

/-- What is put is got again where there is room for it. -/
theorem Fits.decodes (hfits : Fits bufferSize ps) : Decodes bytes bufferSize ps := by
  obtain ⟨hmalloc, hroom⟩ := hfits
  have hputs := puts_empty bytes bufferSize ps
  obtain ⟨r, hr⟩ := isSome_iff_exists.mp hroom
  rw [hr] at hputs
  obtain ⟨a, hrun, hspells⟩ := hputs
  refine ⟨⟨a, 0⟩, ?_, hspells.size.trans (length_frames ps), ?_⟩
  · rw [kvpCreate_of_malloc bytes hmalloc, bind_some, kvpPuts_eq, hrun]
    rfl
  · have hbefore : Kvp.Before ⟨a, 0⟩ (ps.flatMap Pair.frame) (ps.flatMap Pair.frame) :=
      ⟨hspells, rfl, Nat.zero_le _⟩
    obtain ⟨hgets, hend⟩ := kvpGets_frames hbefore
    exact ⟨hgets, hend.kvpEof⟩

/-- Nothing is put where there is no room for it. -/
theorem Decodes.fits (hdecodes : Decodes bytes bufferSize ps) : Fits bufferSize ps := by
  obtain ⟨k, hrun, -⟩ := hdecodes
  by_cases hmalloc : coreMalloc bufferSize.toNat = true
  · refine ⟨hmalloc, ?_⟩
    rw [kvpCreate_of_malloc bytes hmalloc, bind_some, kvpPuts_eq] at hrun
    have hputs := puts_empty bytes bufferSize ps
    cases hroom : roomForAll bufferSize.toNat 0 ((ps.flatMap Pair.pieces).map List.length) with
    | none =>
      rw [hroom] at hputs
      dsimp only at hputs
      rw [hputs] at hrun
      cases hrun
    | some r => rfl
  · rw [kvpCreate_of_not_malloc bytes hmalloc] at hrun
    cases hrun

/-- **What is put is got again exactly where there is room for it.** -/
theorem decodes_iff_fits (bytes : Nat → UInt8) (bufferSize : UInt32) (ps : List Pair) :
    Decodes bytes bufferSize ps ↔ Fits bufferSize ps :=
  ⟨Decodes.fits, Fits.decodes⟩

end

/-! ## Where there is room -/

/-- There is room for what was reserved. -/
theorem roomForAll_of_le {reserved size : Nat} {ns : List Nat} (h : size + ns.sum ≤ reserved) :
    roomForAll reserved size ns = some reserved := by
  induction ns generalizing size with
  | nil => rfl
  | cons n ns ih =>
    rw [sum_cons] at h
    have hroom : roomFor reserved size n = some reserved := if_pos (by omega)
    rw [roomForAll, hroom]
    exact ih (by omega)

theorem roomForAll_append (reserved size : Nat) (ns ms : List Nat) :
    roomForAll reserved size (ns ++ ms) =
      (roomForAll reserved size ns).bind fun r => roomForAll r (size + ns.sum) ms := by
  induction ns generalizing reserved size with
  | nil => rfl
  | cons n ns ih =>
    rw [cons_append, roomForAll, roomForAll, sum_cons, ← Nat.add_assoc]
    cases roomFor reserved size n with
    | none => rfl
    | some r => exact ih r (size + n)

/-- Below `2 ^ 31` bytes there is room. -/
theorem roomForAll_of_lt {reserved size : Nat} {ns : List Nat} (h : size + ns.sum + 4 ≤ 2 ^ 31) :
    (roomForAll reserved size ns).isSome := by
  induction ns generalizing reserved size with
  | nil => rfl
  | cons n ns ih =>
    rw [sum_cons] at h
    have hroom : ∃ r, roomFor reserved size n = some r := by
      unfold roomFor coreMalloc
      split
      · exact ⟨_, rfl⟩
      · exact ⟨_, if_pos ⟨by omega, decide_eq_true (by omega)⟩⟩
    obtain ⟨r, hr⟩ := hroom
    rw [roomForAll, hr]
    exact ih (by omega)

theorem sum_pieces (ps : List Pair) :
    ((ps.flatMap Pair.pieces).map List.length).sum = (ps.map Pair.space).sum := by
  rw [← length_flatten, flatten_flatMap_pieces, length_frames]

/-- A pair without a value. -/
def emptyPair : Pair := ⟨0, [], by decide⟩

/-- One pair more than fill a buffer of `2 ^ 31` bytes. -/
theorem not_fits_full : ¬ Fits 0x80000000 (replicate (2 ^ 28) emptyPair ++ [emptyPair]) := by
  rintro ⟨-, hroom⟩
  have hsum : ((replicate (2 ^ 28) emptyPair).flatMap Pair.pieces |>.map List.length).sum =
      2 ^ 31 := by
    rw [sum_pieces, map_replicate, sum_replicate_nat]
    rfl
  have hsize : (0x80000000 : UInt32).toNat = 2 ^ 31 := rfl
  rw [hsize, flatMap_append, map_append, roomForAll_append,
    roomForAll_of_le (by rw [hsum]; exact Nat.le_of_eq (Nat.zero_add _)), hsum] at hroom
  revert hroom
  decide

/-- Nothing is got from a buffer with more reserved than can be, or from one that would have to
grow at its limit. -/
theorem decodes_not_always : ¬ Decodes (fun _ => 0) 0xFFFFFFFF [] ∧
    ¬ Decodes (fun _ => 0) 0x80000000 (replicate (2 ^ 28) emptyPair ++ [emptyPair]) := by
  exact ⟨fun hdecodes => absurd hdecodes.fits.1 (by decide),
    fun hdecodes => not_fits_full hdecodes.fits⟩

end RpmClient
