import BootXf.RpmClient.Resource

/-!
# Sizes of requests

`rpm_get_request_size` adds eight and the length of its value for each dirty key, and 28 for the
header. What is sent has values that take a multiple of four bytes, is sent only where the resource
is dirty itself, and is a header alone where no key is left with a value. `requestSize_exact_iff`
says when the two agree.
-/

namespace RpmClient

open Lib List Option

/-! ## Requests that are noted -/

/-- A request has a value if it is valid, one that may be put, and none if it is not. -/
structure Request.Sound (r : Request) : Prop where
  valid : r.valid = true → r.data ≠ []
  invalid : r.valid = false → r.data = []
  length_lt : r.data.length < maxKvpLength

theorem noRequest_sound : noRequest.Sound := ⟨nofun, fun _ => rfl, by decide⟩

namespace KeyData

/-- The requests of the client are such. -/
def Sound (d : KeyData) : Prop := ∀ set, (d.localRequest set).Sound

section
variable (d : KeyData) (set s : RpmSet) (r : Request)

theorem localRequest_putLocal :
    (d.putLocal set r).localRequest s = if s = set then r else d.localRequest s := by
  cases set <;> cases s <;> rfl

theorem localRequest_putCached : (d.putCached set r).localRequest s = d.localRequest s := by
  cases set <;> cases s <;> rfl

theorem localRequest_dirty (dirty : RpmSet → Bool) :
    { d with dirty := dirty }.localRequest s = d.localRequest s := by
  cases s <;> rfl

end

namespace Sound
variable {d : KeyData} {set : RpmSet} {r : Request}

theorem new (key : UInt32) : (KeyData.new key).Sound := by
  intro set
  cases set <;> exact noRequest_sound

theorem putLocal (h : d.Sound) (hr : r.Sound) : (d.putLocal set r).Sound := by
  intro s
  rw [localRequest_putLocal]
  split
  · exact hr
  · exact h s

theorem putCached (h : d.Sound) : (d.putCached set r).Sound := by
  intro s
  rw [localRequest_putCached]
  exact h s

theorem putDirty (h : d.Sound) (dirty : RpmSet → Bool) : Sound { d with dirty := dirty } := by
  intro s
  rw [localRequest_dirty]
  exact h s

theorem fullInvalidate (h : d.Sound) : (d.fullInvalidate set).Sound :=
  (h.putCached.putLocal noRequest_sound).putDirty _

theorem invalidate (h : d.Sound) : (d.invalidate set).Sound :=
  (h.putLocal noRequest_sound).putDirty _

theorem update (h : d.Sound) {data : List UInt8} (hdata : data ≠ [])
    (hlen : data.length < maxKvpLength) : (d.update set data).Sound :=
  (h.putLocal ⟨fun _ => hdata, fun hvalid => Bool.noConfusion hvalid, hlen⟩).putDirty _

end Sound

end KeyData

/-- The requests of all keys are such. -/
def SoundKeys (keys : List KeyData) : Prop := ∀ d ∈ keys, d.Sound

section
variable {keys keys' : List KeyData} {set : RpmSet} {key : UInt32} {dirty dirty' : Bool}

/-- An update of a key keeps the keys sound. -/
theorem updateKey_sound (h : SoundKeys keys) {data : List UInt8} (hlen : data.length < maxKvpLength)
    (hrun : updateKey keys set key data = some (keys', dirty)) : SoundKeys keys' := by
  unfold updateKey at hrun
  obtain ⟨⟨found, i⟩, hfound, hrun⟩ := bind_eq_some_iff.mp hrun
  have hsound : SoundKeys found := by
    split at hfound
    · cases hfound
      exact h
    · split at hfound
      · cases hfound
        intro d hd
        rcases (List.mem_insertIdx (by
          rw [place]
          exact Nat.le_trans findIdx_le_length (by simp [keyPlaces]))).mp hd with rfl | hd
        · exact .new key
        · exact h d hd
      · cases hfound
  obtain ⟨d, hd, hset⟩ := map_eq_some_iff.mp hrun
  cases hset
  have hold := hsound d (mem_of_getElem? hd)
  have hnew : KeyData.Sound (if data = [] then d.invalidate set else d.update set data) := by
    split
    · exact hold.invalidate
    · next hdata => exact hold.update hdata hlen
  intro e he
  rcases mem_or_eq_of_mem_set he with he | rfl
  · exact hsound e he
  · exact hnew

/-- An update of several keys keeps them sound. -/
theorem updateKeys_sound {turns : Nat} {k : Kvp} (h : SoundKeys keys)
    (hrun : updateKeys set turns keys dirty k = some (keys', dirty')) : SoundKeys keys' := by
  induction turns generalizing keys dirty k with
  | zero =>
    cases hrun
    exact h
  | succ turns ih =>
    unfold updateKeys at hrun
    split at hrun
    · obtain ⟨⟨next, d⟩, hkey, hrest⟩ := bind_eq_some_iff.mp hrun
      exact ih (updateKey_sound h (by decide) hkey) hrest
    · split at hrun
      · cases hrun
      · next hlen =>
        obtain ⟨⟨next, d⟩, hkey, hrest⟩ := bind_eq_some_iff.mp hrun
        refine ih (updateKey_sound h ?_ hkey) hrest
        rw [Ring.length_get]
        exact Decidable.not_not.mp hlen
    · cases hrun
      exact h

/-- A post keeps the keys of a resource sound. -/
theorem rpmResourceUpdate_sound {self self' : Resource} {requestData : Option Kvp}
    (h : SoundKeys self.keys) (hrun : rpmResourceUpdate self set requestData = some self') :
    SoundKeys self'.keys := by
  cases requestData with
  | none =>
    cases hrun
    intro d hd
    obtain ⟨d, hmem, rfl⟩ := List.mem_map.mp hd
    exact (h d hmem).fullInvalidate
  | some requestData =>
    obtain ⟨⟨keys, dirty⟩, hkeys, hself⟩ := map_eq_some_iff.mp hrun
    cases hself
    exact updateKeys_sound h hkeys

end

/-! ## Messages that are composed -/

namespace KeyData

/-- What `rpm_key_compose_data` leaves of a key. -/
def told (d : KeyData) (set : RpmSet) : KeyData :=
  if d.dirty set = false then d
  else
    let request := d.localRequest set
    let d := d.putCached set (if request.valid then request else noRequest)
    { d with dirty := RpmClient.putDirty d.dirty set false }

/-- Composing the data of a key keeps it sound. -/
theorem Sound.told {d : KeyData} (h : d.Sound) (set : RpmSet) : (d.told set).Sound := by
  unfold KeyData.told
  split
  · exact h
  · exact h.putCached.putDirty _

/-- The pair that a dirty key is sent as. -/
def pair (d : KeyData) (set : RpmSet) (h : d.Sound) : Pair :=
  ⟨d.key, (d.localRequest set).data, (h set).length_lt⟩

/-- **One key.** What is wanted of a dirty key is put, a request that is not valid as an empty
value. -/
theorem compose_eq {d : KeyData} (h : d.Sound) (set : RpmSet) (message : Kvp) :
    rpmKeyComposeData d set message =
      if d.dirty set = false then some (d.told set, message)
      else (kvpPut message (d.pair set h).type (d.pair set h).value).map fun m =>
        (d.told set, m) := by
  unfold rpmKeyComposeData told
  by_cases hdirty : d.dirty set = false
  · rw [if_pos hdirty, if_pos hdirty, if_pos hdirty]
  · rw [if_neg hdirty, if_neg hdirty, if_neg hdirty]
    dsimp only [pair]
    by_cases hvalid : (d.localRequest set).valid = false
    · rw [if_pos hvalid, (h set).invalid hvalid]
    · rw [if_neg hvalid, if_neg ((h set).valid (Bool.not_eq_false _ ▸ hvalid))]

/-- What a key adds to the size of a request. -/
def share (d : KeyData) (set : RpmSet) : Nat := 8 + (d.localRequest set).data.length

end KeyData

section
variable {keys : List KeyData}

/-- **The loop over the keys** puts a pair for each dirty key. -/
theorem composeKeys_eq (h : SoundKeys keys) (set : RpmSet) : ∃ ps : List Pair,
    ps.map (fun p => 8 + p.value.length) =
      (keys.filter fun d => d.dirty set).map (fun d => d.share set) ∧
    ∀ message, composeKeys set keys message = (kvpPuts message ps).map fun m =>
      (keys.map fun d => d.told set, m, keys.countP fun d => d.counts set) := by
  induction keys with
  | nil => exact ⟨[], rfl, fun message => rfl⟩
  | cons d ds ih =>
    have hd : d.Sound := h d (mem_cons_self ..)
    obtain ⟨ps, hshares, hps⟩ := ih fun e he => h e (mem_cons_of_mem _ he)
    have hcount : (d :: ds).countP (fun d => d.counts set) =
        if d.counts set then ds.countP (fun d => d.counts set) + 1
        else ds.countP fun d => d.counts set := by
      rw [countP_cons]
      split <;> rfl
    by_cases hdirty : d.dirty set = false
    · refine ⟨ps, ?_, fun message => ?_⟩
      · rw [filter_cons_of_neg (by rw [hdirty]; exact Bool.false_ne_true)]
        exact hshares
      · rw [composeKeys, KeyData.compose_eq hd, if_pos hdirty, hcount]
        simp only [bind_eq_bind, bind_some, hps, map_cons]
        cases kvpPuts message ps <;> rfl
    · refine ⟨d.pair set hd :: ps, ?_, fun message => ?_⟩
      · rw [filter_cons_of_pos (by rw [Bool.not_eq_false] at hdirty; exact hdirty),
          map_cons, map_cons, hshares]
        rfl
      · rw [composeKeys, KeyData.compose_eq hd, if_neg hdirty, hcount, kvpPuts]
        cases kvpPut message (d.pair set hd).type (d.pair set hd).value with
        | none => rfl
        | some m =>
          simp only [bind_eq_bind, map_some, bind_some, hps, map_cons]
          cases kvpPuts m ps <;> rfl

end

/-- A byte array that is not static, with less than 4 GB reserved. -/
def Bytearray.Grows (a : Bytearray) : Prop := a.staticBuffer = false ∧ a.reserved < 2 ^ 32

/-- A byte array that grows still does after an append. -/
theorem Bytearray.Grows.put {a a' : Bytearray} {l : List UInt8} (h : a.Grows)
    (hrun : bytearrayPut a l = some a') : a'.Grows := by
  unfold bytearrayPut at hrun
  rw [h.1, if_neg Bool.false_ne_true] at hrun
  dsimp only at hrun
  split at hrun
  · cases hrun
  · split at hrun
    · obtain ⟨b, hext, hb⟩ := map_eq_some_iff.mp hrun
      cases hb
      unfold bytearrayExtend at hext
      dsimp only at hext
      generalize (if a.size ≥ 0x80000000 then 0xFFFFFFFF else a.size * 2) = expSize at hext
      generalize (if expSize > (a.size + l.length) % 2 ^ 32 then expSize
        else (a.size + l.length) % 2 ^ 32) = newSize at hext
      split at hext
      · cases hext
      · split at hext
        · next hmalloc =>
          cases hext
          have hless := of_decide_eq_true hmalloc
          exact ⟨h.1, by dsimp only; omega⟩
        · cases hext
    · cases hrun
      exact h

theorem Bytearray.Grows.puts {a a' : Bytearray} {ms : List (List UInt8)} (h : a.Grows)
    (hrun : bytearrayPuts a ms = some a') : a'.Grows := by
  induction ms generalizing a with
  | nil =>
    cases hrun
    exact h
  | cons m ms ih =>
    obtain ⟨b, hput, hrest⟩ := bind_eq_some_iff.mp hrun
    exact ih (h.put hput) hrest

/-- What the pairs take in an empty buffer, if it can take them. -/
theorem kvpPuts_clear {k k' : Kvp} {ps : List Pair} (h : k.buffer.Grows)
    (hrun : kvpPuts (kvpClear k) ps = some k') :
    k'.buffer.Grows ∧ k'.readIdx = 0 ∧ kvpGetRawSize k' = (ps.map Pair.space).sum := by
  have hempty : Bytearray.Spells (kvpClear k).buffer [] := ⟨h.1, rfl, by decide, rfl⟩
  have hputs := bytearrayPuts_spec hempty h.2 (pieces_lt ps)
  rw [kvpPuts_eq] at hrun
  obtain ⟨a, ha, hk⟩ := map_eq_some_iff.mp hrun
  cases hk
  have hgrows : (kvpClear k).buffer.Grows := h
  refine ⟨hgrows.puts ha, rfl, ?_⟩
  split at hputs
  · rw [hputs] at ha
    cases ha
  · obtain ⟨a', ha', hspells⟩ := hputs
    rw [ha'] at ha
    cases ha
    rw [nil_append, flatten_flatMap_pieces] at hspells
    exact hspells.size.trans (length_frames ps)

/-- Pairs that fit a message can be put. -/
theorem kvpPuts_clear_isSome {k : Kvp} {ps : List Pair} (h : k.buffer.Grows)
    (hps : (ps.map Pair.space).sum + 4 ≤ 2 ^ 31) : ∃ k', kvpPuts (kvpClear k) ps = some k' := by
  have hempty : Bytearray.Spells (kvpClear k).buffer [] := ⟨h.1, rfl, by decide, rfl⟩
  have hputs := bytearrayPuts_spec hempty h.2 (pieces_lt ps)
  have hroom : (roomForAll (kvpClear k).buffer.reserved ([] : List UInt8).length
      ((ps.flatMap Pair.pieces).map List.length)).isSome := by
    refine roomForAll_of_lt ?_
    rw [sum_pieces, length_nil]
    omega
  obtain ⟨r, hr⟩ := isSome_iff_exists.mp hroom
  rw [hr] at hputs
  obtain ⟨a, ha, -⟩ := hputs
  exact ⟨_, by rw [kvpPuts_eq, ha]; rfl⟩

/-! ## What is handed to the transport -/

/-- What the dirty keys add to the size of a request. -/
def Resource.shares (r : Resource) (set : RpmSet) : List Nat :=
  (r.keys.filter fun d => d.dirty set).map fun d => d.share set

/-- What the pairs of these shares take. -/
def padded (shares : List Nat) : Nat := (shares.map fun n => (n + 3) / 4 * 4).sum

/-- The space of the pairs is what is padded. -/
theorem sum_space (ps : List Pair) :
    (ps.map Pair.space).sum = padded (ps.map fun p => 8 + p.value.length) := by
  unfold padded
  rw [List.map_map]
  refine congrArg List.sum (map_congr_left fun p _ => ?_)
  unfold Pair.space
  dsimp only [Function.comp_apply]
  omega

/-- Padding does not make a message shorter. -/
theorem sum_le_padded (shares : List Nat) : shares.sum ≤ padded shares := by
  unfold padded
  induction shares with
  | nil => exact Nat.le_refl 0
  | cons n ns ih =>
    rw [map_cons, sum_cons, sum_cons]
    omega

/-- Nothing is padded exactly where all are multiples of four. -/
theorem padded_eq_sum_iff (shares : List Nat) :
    padded shares = shares.sum ↔ ∀ n ∈ shares, n % 4 = 0 := by
  induction shares with
  | nil => exact ⟨fun _ n hn => absurd hn not_mem_nil, fun _ => rfl⟩
  | cons n ns ih =>
    have hle := sum_le_padded ns
    have hpadded : padded (n :: ns) = (n + 3) / 4 * 4 + padded ns := by
      unfold padded
      rw [map_cons, sum_cons]
    rw [hpadded, sum_cons, forall_mem_cons, ← ih]
    omega

section
variable {keysBuffer : Option Kvp} {r : Resource} {set : RpmSet} {msg : Packet}

/-- `keys_buffer` is not there yet, or is a byte array of its own. -/
def SoundBuffer (keysBuffer : Option Kvp) : Prop := ∀ k, keysBuffer = some k → k.buffer.Grows

theorem SoundBuffer.get (h : SoundBuffer keysBuffer) (bytes : Nat → UInt8) :
    ∃ k, keysBuffer.or (kvpCreate 128 bytes) = some k ∧ k.buffer.Grows := by
  cases keysBuffer with
  | none =>
    refine ⟨⟨⟨false, 0, 128, bytes⟩, 0⟩, ?_, rfl, by dsimp only; decide⟩
    rw [none_or]
    exact kvpCreate_of_malloc bytes (by decide)
  | some k => exact ⟨k, rfl, h k rfl⟩

theorem length_header (msg : Packet) : msg.header.length = 28 := by
  simp only [Packet.header, length_append, length_leBytes]

/-- A message of up to 256 bytes is put. -/
theorem rpmclientPut_of_le (h : 28 + msg.data.length ≤ 256) :
    rpmclientPut msg = some (msg.header ++ msg.data) := by
  unfold rpmclientPut msgBufferSize
  rw [Nat.mod_eq_of_lt (by omega)]
  dsimp only
  rw [if_neg (Decidable.not_not.mpr h), if_neg (Nat.lt_irrefl _)]

/-- A longer message is not put. -/
theorem rpmclientPut_of_lt (h : 256 < 28 + msg.data.length) :
    rpmclientPut msg = none := by
  unfold rpmclientPut msgBufferSize
  dsimp only
  split
  · rfl
  · rw [if_pos (by omega)]

/-- A resource that is not dirty. -/
theorem rpmWireSend_clean (hbuffer : SoundBuffer keysBuffer) (bytes : Nat → UInt8) (msgId : UInt32)
    (hclean : r.dirty set = false) :
    ∃ k, rpmWireSend keysBuffer bytes msgId set r = some (none, r, k) := by
  obtain ⟨message, hget, -⟩ := hbuffer.get bytes
  have hcompose : rpmResourceComposeMessage r set (kvpClear message) =
      some (false, r, kvpClear (kvpClear message)) := if_pos hclean
  refine ⟨kvpClear (kvpClear message), ?_⟩
  unfold rpmWireSend
  rw [hget]
  simp only [bind_eq_bind, bind_some, hcompose]
  rfl

/-- What `rpm_resource_compose_message` comes to for a dirty resource. -/
theorem rpmResourceComposeMessage_spec {message : Kvp} (hmessage : message.buffer.Grows)
    (hsound : SoundKeys r.keys) (hdirty : ¬ r.dirty set = false) :
    (rpmResourceComposeMessage r set (kvpClear message) = none ∧ 256 < padded (r.shares set)) ∨
    ∃ r' k, rpmResourceComposeMessage r set (kvpClear message) =
        some (decide (r.keys.countP (fun d => d.counts set) = 0), r', k) ∧
      SoundKeys r'.keys ∧ k.buffer.Grows ∧ k.readIdx = 0 ∧
      kvpGetRawSize k = padded (r.shares set) := by
  obtain ⟨ps, hshares, hcompose⟩ := composeKeys_eq hsound set
  have hspace : (ps.map Pair.space).sum = padded (r.shares set) := by
    rw [sum_space, hshares]
    rfl
  have hrun : rpmResourceComposeMessage r set (kvpClear message) =
      (kvpPuts (kvpClear message) ps).map fun m =>
        (decide (r.keys.countP (fun d => d.counts set) = 0),
          { r with
            keys := r.keys.map fun d => d.told set
            dirty := putDirty r.dirty set false }, m) := by
    unfold rpmResourceComposeMessage
    rw [if_neg hdirty, hcompose, Option.map_map]
    rfl
  rw [hrun]
  cases hput : kvpPuts (kvpClear message) ps with
  | none =>
    refine .inl ⟨rfl, Nat.lt_of_not_le fun hle => ?_⟩
    obtain ⟨k, hk⟩ : ∃ k, kvpPuts (kvpClear message) ps = some k :=
      kvpPuts_clear_isSome hmessage (by omega)
    rw [hput] at hk
    cases hk
  | some k =>
    obtain ⟨hgrows, hidx, hsize⟩ := kvpPuts_clear hmessage hput
    refine .inr ⟨_, k, rfl, fun d hd => ?_, hgrows, hidx, hsize.trans hspace⟩
    obtain ⟨d, hmem, rfl⟩ := List.mem_map.mp hd
    exact (hsound d hmem).told set

/-- **A dirty resource.** The header is sent alone where no key is left with a value, nothing where
no key is dirty, and what does not fit the buffer of messages is an error. -/
theorem rpmWireSend_dirty (hbuffer : SoundBuffer keysBuffer) (hsound : SoundKeys r.keys)
    (bytes : Nat → UInt8) (msgId : UInt32) (hdirty : ¬ r.dirty set = false) :
    (rpmWireSend keysBuffer bytes msgId set r = none ∧ 228 < padded (r.shares set)) ∨
    ∃ sent r' k, rpmWireSend keysBuffer bytes msgId set r = some (sent, r', k) ∧
      SoundKeys r'.keys ∧ k.buffer.Grows ∧
      if r.keys.countP (fun d => d.counts set) = 0 then sent.map List.length = some 28
      else if padded (r.shares set) = 0 then sent = none
      else padded (r.shares set) ≤ 228 ∧
        sent.map List.length = some (padded (r.shares set) + 28) := by
  obtain ⟨message, hget, hgrows⟩ := hbuffer.get bytes
  unfold rpmWireSend
  rw [hget]
  simp only [bind_eq_bind, bind_some]
  obtain ⟨hrun, hlarge⟩ | ⟨r', k, hrun, hsound', hgrows', hidx, hsize⟩ :=
    rpmResourceComposeMessage_spec hgrows hsound hdirty
  · rw [hrun]
    exact .inl ⟨rfl, by omega⟩
  · rw [hrun]
    simp only [bind_some]
    have heof : kvpEof k = decide (padded (r.shares set) = 0) := by
      have hbuffer : k.buffer.size = padded (r.shares set) := hsize
      unfold kvpEof
      rw [hidx, hbuffer]
      exact decide_eq_decide.mpr (by omega)
    by_cases hfull : r.keys.countP (fun d => d.counts set) = 0
    · refine .inr ⟨some (Packet.header ⟨msgId, set, r'.type, r'.id, []⟩ ++ []), r', k, ?_, hsound',
        hgrows', ?_⟩
      · rw [decide_eq_true hfull, if_neg (fun h => Bool.noConfusion h.1), if_pos rfl,
          rpmclientPut_of_le (by dsimp only; decide)]
        rfl
      · rw [if_pos hfull, map_some, append_nil, length_header]
    · rw [decide_eq_false hfull, heof]
      by_cases hzero : padded (r.shares set) = 0
      · refine .inr ⟨none, r', k, ?_, hsound', hgrows', ?_⟩
        · rw [if_pos ⟨rfl, decide_eq_true hzero⟩]
          rfl
        · rw [if_neg hfull, if_pos hzero]
      · rw [if_neg (fun h => hzero (of_decide_eq_true h.2)), if_neg Bool.false_ne_true]
        rcases Nat.lt_or_ge 228 (padded (r.shares set)) with hlarge | hsmall
        · refine .inl ⟨?_, hlarge⟩
          rw [rpmclientPut_of_lt (by rw [Ring.length_get, hsize]; omega)]
          rfl
        · refine .inr ⟨some (Packet.header ⟨msgId, set, r'.type, r'.id,
            Ring.get k.buffer.bytes 0 (kvpGetRawSize k)⟩ ++
              Ring.get k.buffer.bytes 0 (kvpGetRawSize k)), r', k, ?_, hsound', hgrows', ?_⟩
          · rw [rpmclientPut_of_le (by rw [Ring.length_get, hsize]; omega)]
            rfl
          · rw [if_neg hfull, if_neg hzero, map_some, length_append, length_header,
              Ring.length_get, hsize, Nat.add_comm]
            exact ⟨hsmall, rfl⟩

end

/-! ## The two sizes -/

section
variable {r : Resource} {set : RpmSet}

/-- The sum of `rpm_resource_get_request_size`, in 32 bits. -/
theorem toNat_requestSize (r : Resource) (set : RpmSet) :
    (rpmResourceGetRequestSize set r).toNat =
      if (r.shares set).sum % 2 ^ 32 = 0 then 0 else ((r.shares set).sum + 28) % 2 ^ 32 := by
  have hfold : ∀ (keys : List KeyData) (n : UInt32),
      (keys.foldl (fun (numBytes : UInt32) d => if d.dirty set then
        numBytes + (8 + .ofNat (d.localRequest set).data.length) else numBytes) n).toNat =
      (n.toNat + ((keys.filter fun d => d.dirty set).map fun d => d.share set).sum) % 2 ^ 32 := by
    intro keys
    induction keys with
    | nil =>
      intro n
      exact (Nat.mod_eq_of_lt n.toNat_lt).symm
    | cons d ds ih =>
      intro n
      rw [foldl_cons, ih]
      by_cases hdirty : d.dirty set = true
      · have hshare : (n + (8 + UInt32.ofNat (d.localRequest set).data.length)).toNat =
            (n.toNat + d.share set) % 2 ^ 32 := by
          unfold KeyData.share
          rw [UInt32.toNat_add, UInt32.toNat_add, UInt32.toNat_ofNat']
          have height : (8 : UInt32).toNat = 8 := rfl
          omega
        rw [if_pos hdirty, hshare,
          filter_cons_of_pos (p := fun d : KeyData => d.dirty set) hdirty, map_cons,
          sum_cons]
        omega
      · rw [if_neg hdirty, filter_cons_of_neg (p := fun d : KeyData => d.dirty set) hdirty]
  have hsum := hfold r.keys 0
  have hpos : ∀ n : UInt32, n > 0 ↔ n.toNat ≠ 0 := fun n => by
    rw [gt_iff_lt, UInt32.lt_iff_toNat_lt, UInt32.toNat_zero]
    exact Nat.pos_iff_ne_zero
  unfold rpmResourceGetRequestSize
  generalize r.keys.foldl (fun (numBytes : UInt32) d => if d.dirty set then
    numBytes + (8 + .ofNat (d.localRequest set).data.length) else numBytes) 0 = n at hsum ⊢
  have hn : n.toNat = (r.shares set).sum % 2 ^ 32 := by
    rw [hsum, UInt32.toNat_zero, Nat.zero_add]
    rfl
  dsimp only
  by_cases hzero : (r.shares set).sum % 2 ^ 32 = 0
  · rw [if_pos hzero, if_neg (fun h => (hpos n).mp h (hn.trans hzero)), hn, hzero]
  · rw [if_neg hzero, if_pos ((hpos n).mpr (fun h => hzero (hn.symm.trans h))),
      UInt32.toNat_add, hn]
    have htwentyeight : (28 : UInt32).toNat = 28 := rfl
    omega

/-- Where the size of a request is that of what is sent. A resource that is not dirty has no dirty
key (or so many that their sum, with the header, is zero in 32 bits). One that is has a key that is
left with a value, and what its dirty keys have takes multiples of four bytes, as much as fits a
message. -/
def Resource.Predictable (r : Resource) (set : RpmSet) : Prop :=
  if r.dirty set = false then
    (r.shares set).sum % 2 ^ 32 = 0 ∨ ((r.shares set).sum + 28) % 2 ^ 32 = 0
  else
    (∃ d ∈ r.keys, d.counts set = true) ∧
    (∀ d ∈ r.keys, d.dirty set = true → (d.localRequest set).data.length % 4 = 0) ∧
    (r.shares set).sum + 28 ≤ 256

/-- The size of a request is that of what is handed to the transport. -/
def SizeExact (keysBuffer : Option Kvp) (r : Resource) (set : RpmSet) (size : UInt32) : Prop :=
  ∀ bytes msgId, ∃ sent r' k, rpmWireSend keysBuffer bytes msgId set r = some (sent, r', k) ∧
    size.toNat = sent.elim 0 List.length ∧ (size = 0 ↔ sent = none)

/-- **For one resource.** -/
theorem sizeExact_iff {keysBuffer : Option Kvp} (hbuffer : SoundBuffer keysBuffer)
    (hsound : SoundKeys r.keys) :
    SizeExact keysBuffer r set (rpmResourceGetRequestSize set r) ↔ r.Predictable set := by
  have hsize := toNat_requestSize r set
  have hzero : rpmResourceGetRequestSize set r = 0 ↔
      (rpmResourceGetRequestSize set r).toNat = 0 := UInt32.toNat_inj.symm
  unfold SizeExact Resource.Predictable
  by_cases hclean : r.dirty set = false
  · rw [if_pos hclean]
    refine ⟨fun h => ?_, fun h bytes msgId => ?_⟩
    · obtain ⟨sent, r', k, hrun, hlen, -⟩ := h (fun _ => 0) 0
      obtain ⟨k', hrun'⟩ := rpmWireSend_clean hbuffer (fun _ => 0) 0 hclean
      rw [hrun'] at hrun
      cases hrun
      rw [elim_none, hsize] at hlen
      split at hlen
      · exact .inl ‹_›
      · exact .inr hlen
    · obtain ⟨k, hrun⟩ := rpmWireSend_clean hbuffer bytes msgId hclean
      have hnone : (rpmResourceGetRequestSize set r).toNat = 0 := by
        rw [hsize]
        split
        · rfl
        · rcases h with h | h
          · exact absurd h ‹_›
          · exact h
      exact ⟨none, r, k, hrun, hnone, fun _ => rfl, fun _ => hzero.mpr hnone⟩
  · rw [if_neg hclean]
    have hle := sum_le_padded (r.shares set)
    have hfours : (∀ d ∈ r.keys, d.dirty set = true → (d.localRequest set).data.length % 4 = 0) ↔
        padded (r.shares set) = (r.shares set).sum := by
      rw [padded_eq_sum_iff]
      unfold Resource.shares KeyData.share
      simp only [List.forall_mem_map, mem_filter, and_imp]
      exact forall_congr' fun d => imp_congr_right fun _ => imp_congr_right fun _ => by omega
    have hcounts : (∃ d ∈ r.keys, d.counts set = true) ↔
        r.keys.countP (fun d => d.counts set) ≠ 0 := by
      rw [← Nat.pos_iff_ne_zero, countP_pos_iff]
    rw [hfours, hcounts]
    refine ⟨fun h => ?_, fun ⟨hvalid, heq, hfits⟩ bytes msgId => ?_⟩
    · obtain ⟨sent, r', k, hrun, hlen, hnothing⟩ := h (fun _ => 0) 0
      obtain ⟨hfail, -⟩ | ⟨sent', r'', k', hrun', -, -, hsent⟩ :=
        rpmWireSend_dirty hbuffer hsound (fun _ => 0) 0 hclean
      · rw [hfail] at hrun
        cases hrun
      · rw [hrun'] at hrun
        cases hrun
        rw [hsize] at hlen
        split at hsent
        · -- the header alone: what the keys add cannot be zero
          obtain ⟨sent, rfl, hlen'⟩ := map_eq_some_iff.mp hsent
          rw [elim_some, hlen'] at hlen
          split at hlen <;> omega
        · next hvalid =>
          split at hsent
          · next hpadded =>
            exact ⟨hvalid, by omega, by omega⟩
          · obtain ⟨hsmall, hsent⟩ := hsent
            obtain ⟨sent, rfl, hlen'⟩ := map_eq_some_iff.mp hsent
            rw [elim_some, hlen'] at hlen
            split at hlen
            · omega
            · exact ⟨hvalid, by omega, by omega⟩
    · obtain ⟨-, hlarge⟩ | ⟨sent, r', k, hrun, -, -, hsent⟩ :=
        rpmWireSend_dirty hbuffer hsound bytes msgId hclean
      · omega
      · refine ⟨sent, r', k, hrun, ?_⟩
        rw [hzero, hsize]
        rw [if_neg hvalid] at hsent
        split at hsent
        · rw [hsent, if_pos (by omega)]
          exact ⟨rfl, fun _ => rfl, fun _ => rfl⟩
        · obtain ⟨hsmall, hsent⟩ := hsent
          obtain ⟨sent, rfl, hlen⟩ := map_eq_some_iff.mp hsent
          rw [elim_some, hlen, if_neg (by omega), Nat.mod_eq_of_lt (by omega)]
          exact ⟨by omega, fun h => absurd h (by omega), nofun⟩

end

/-! ## Runs -/

/-- What holds of the client between its events. -/
structure Rpm.Sound (rpm : Rpm) : Prop where
  resources : ∀ r ∈ rpm.resources, SoundKeys r.keys
  buffer : SoundBuffer rpm.keysBuffer

theorem sound_rpmStart : rpmStart.Sound where
  resources := fun _ hr => absurd hr not_mem_nil
  buffer := nofun

namespace Rpm.Sound
variable {rpm rpm' : Rpm} {set : RpmSet} {type id : UInt32}

/-- A resource that is written back. -/
theorem put {i : Nat} {r : Resource} (h : rpm.Sound) (hr : SoundKeys r.keys) :
    Rpm.Sound { rpm with resources := rpm.resources.set i r } where
  resources := fun r' hr' => by
    rcases mem_or_eq_of_mem_set hr' with hr' | rfl
    · exact h.resources r' hr'
    · exact hr
  buffer := h.buffer

theorem add (h : rpm.Sound) (hadd : rpmAddResource rpm type id = some rpm') : rpm'.Sound := by
  unfold rpmAddResource at hadd
  dsimp only at hadd
  split at hadd
  · cases hadd
    refine ⟨fun r hr => ?_, h.buffer⟩
    rcases (List.mem_insertIdx (by
      rw [place]
      exact Nat.le_trans findIdx_le_length (by simp [identifiers]))).mp hr with rfl | hr
    · exact fun d hd => absurd hd not_mem_nil
    · exact h.resources r hr
  · cases hadd

/-- `rpm_post_request`. -/
theorem post (h : rpm.Sound) {kvps : Option Kvp}
    (hrun : rpmPost rpm set type id kvps = some rpm') : rpm'.Sound := by
  unfold rpmPost at hrun
  obtain ⟨⟨rpm₁, i⟩, hfound, hrun⟩ := bind_eq_some_iff.mp hrun
  obtain ⟨r', hupdate, hset⟩ := map_eq_some_iff.mp hrun
  cases hset
  obtain ⟨r, hr, hupdate⟩ := bind_eq_some_iff.mp hupdate
  have hsound : rpm₁.Sound := by
    cases hfind : rpmFindResource rpm type id with
    | some i =>
      rw [hfind] at hfound
      cases hfound
      exact h
    | none =>
      rw [hfind] at hfound
      obtain ⟨rpm₂, hadd, heq⟩ := map_eq_some_iff.mp hfound
      cases heq
      exact h.add hadd
  exact hsound.put (rpmResourceUpdate_sound (hsound.resources r (mem_of_getElem? hr)) hupdate)

/-- `rpm_wire_send`. -/
theorem send (h : rpm.Sound) {msgId : UInt32} {bytes : Nat → UInt8}
    (hrun : rpmSend rpm msgId set type id bytes = some rpm') : rpm'.Sound := by
  unfold rpmSend at hrun
  obtain ⟨i, -, hrun⟩ := bind_eq_some_iff.mp hrun
  obtain ⟨r, hr, hrun⟩ := bind_eq_some_iff.mp hrun
  obtain ⟨⟨sent, r', k⟩, hsend, hrun⟩ := bind_eq_some_iff.mp hrun
  cases hrun
  have hsound := h.resources r (mem_of_getElem? hr)
  have hkept : SoundKeys r'.keys ∧ k.buffer.Grows := by
    by_cases hclean : r.dirty set = false
    · obtain ⟨message, hget, hgrows⟩ := h.buffer.get bytes
      have hcompose : rpmResourceComposeMessage r set (kvpClear message) =
          some (false, r, kvpClear (kvpClear message)) := if_pos hclean
      unfold rpmWireSend at hsend
      rw [hget] at hsend
      simp only [bind_eq_bind, bind_some, hcompose] at hsend
      cases hsend
      exact ⟨hsound, hgrows⟩
    · obtain ⟨hfail, -⟩ | ⟨sent', r'', k', hsend', hsound', hgrows, -⟩ :=
        rpmWireSend_dirty h.buffer hsound bytes msgId hclean
      · rw [hfail] at hsend
        cases hsend
      · rw [hsend'] at hsend
        cases hsend
        exact ⟨hsound', hgrows⟩
  have hset : Rpm.Sound { rpm with resources := rpm.resources.set i r' } := h.put hkept.1
  exact ⟨hset.resources, fun k' hk' => by cases hk'; exact hkept.2⟩

/-- Every event keeps the state sound. -/
theorem step (h : rpm.Sound) {e : RpmEvent} (hstep : RpmStep rpm e rpm') : rpm'.Sound := by
  cases e with
  | post set type id kvps => exact h.post hstep
  | send msgId set type id bytes => exact h.send hstep

end Rpm.Sound

/-- The size that `rpm_get_request_size` answers is that of what `rpm_wire_send` hands to the
transport at this moment, and zero exactly where nothing is sent. -/
def RequestSizeExact (rpm : Rpm) (set : RpmSet) (type id : UInt32) : Prop :=
  match (rpmFindResource rpm type id).bind fun i => rpm.resources[i]? with
  | none => rpmGetRequestSize rpm set type id = 0
  | some r => SizeExact rpm.keysBuffer r set (rpmGetRequestSize rpm set type id)

/-- A resource that is there is one where it is. -/
def RequestSizePredictable (rpm : Rpm) (set : RpmSet) (type id : UInt32) : Prop :=
  ∀ r, ((rpmFindResource rpm type id).bind fun i => rpm.resources[i]?) = some r → r.Predictable set

/-- In a sound state the size is exact just if it is predictable. -/
theorem Rpm.Sound.requestSize {rpm : Rpm} (h : rpm.Sound) (set : RpmSet) (type id : UInt32) :
    RequestSizeExact rpm set type id ↔ RequestSizePredictable rpm set type id := by
  unfold RequestSizeExact RequestSizePredictable rpmGetRequestSize
  cases hfind : (rpmFindResource rpm type id).bind fun i => rpm.resources[i]? with
  | none => exact ⟨fun _ => nofun, fun _ => rfl⟩
  | some r =>
    obtain ⟨i, -, hi⟩ := bind_eq_some_iff.mp hfind
    dsimp only
    rw [sizeExact_iff h.buffer (h.resources r (mem_of_getElem? hi))]
    exact ⟨fun hpred r' hr' => by cases hr'; exact hpred, fun hpred => hpred r rfl⟩

/-- **In every state that is reached the size of a request is exact exactly where it is
predictable.** -/
theorem requestSize_exact_iff {h : List RpmEvent} {rpm : Rpm} (run : Run RpmStep rpmStart h rpm)
    (set : RpmSet) (type id : UInt32) :
    RequestSizeExact rpm set type id ↔ RequestSizePredictable rpm set type id :=
  (run.state_invariant sound_rpmStart fun hsound hstep => hsound.step hstep).requestSize set type id

/-- A pair of key one with a value of four bytes, or with one of one byte. -/
def pairOf (length : UInt8) : Kvp :=
  kvpSwapbuffer (fun i => ([1, 0, 0, 0, length, 0, 0, 0, 5, 0, 0, 0] : List UInt8).getD i 0) 12

/-- A pair that has been posted for the sleep set. -/
def postedPair (data : List UInt8) : Rpm where
  resources := [⟨7, 0, [{ KeyData.new 1 with
    sleepLocal := ⟨data, true⟩
    dirty := putDirty (fun _ => false) .sleep true }], putDirty (fun _ => false) .sleep true⟩]
  keysBuffer := none

theorem postedPair_four :
    Run RpmStep rpmStart [.post .sleep 7 0 (some (pairOf 4))] (postedPair [5, 0, 0, 0]) :=
  .step .start rfl

theorem postedPair_one :
    Run RpmStep rpmStart [.post .sleep 7 0 (some (pairOf 1))] (postedPair [5]) :=
  .step .start rfl

theorem requestSize_exact_four : RequestSizeExact (postedPair [5, 0, 0, 0]) .sleep 7 0 := by
  refine (requestSize_exact_iff postedPair_four .sleep 7 0).mpr fun r hr => ?_
  cases hr
  refine ⟨⟨_, mem_singleton_self _, by decide⟩, fun d hd _ => ?_, by decide⟩
  rw [mem_singleton.mp hd]
  decide

/-- A value of one byte takes four. -/
theorem requestSize_not_always_exact :
    ∃ h rpm, Run RpmStep rpmStart h rpm ∧ ¬ RequestSizeExact rpm .sleep 7 0 := by
  refine ⟨_, _, postedPair_one, fun hexact => ?_⟩
  have hsound := postedPair_one.state_invariant sound_rpmStart fun hsound hstep => hsound.step hstep
  have hpred := (hsound.requestSize .sleep 7 0).mp hexact _ rfl
  have hfour := hpred.2.1 _ (mem_singleton_self _) (by decide)
  exact absurd hfour (by decide)

end RpmClient
