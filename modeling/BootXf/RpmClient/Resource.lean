import BootXf.Lib.SortedKeys
import BootXf.RpmClient.Kvp
import BootXf.RpmClient.MessageQueue

/-!
# Resources

What is wanted of a resource is kept for each set and each key beside what the resource power
manager was last told, and the difference is what is sent. The next active set has no record of its
own of what was told: it takes that of the active set. A message that would leave no key with a
value is replaced by a header alone. `CORE_VERIFY` and ERR_FATAL are `none`.
-/

namespace RpmClient

open Lib

/-- `rpm_request_t`. -/
structure Request where
  data : List UInt8
  valid : Bool
  deriving DecidableEq

/-- A byte array that is empty, for a request that is not valid. -/
def noRequest : Request := ⟨[], false⟩

/-- `rpm_key_data_t`. -/
structure KeyData where
  key : UInt32
  activeAtRpm : Request
  activeLocal : Request
  sleepAtRpm : Request
  sleepLocal : Request
  nasLocal : Request
  dirty : RpmSet → Bool

/-- `rpm_resource_t`, with the two parts of its identifier. -/
structure Resource where
  type : UInt32
  id : UInt32
  keys : List KeyData
  dirty : RpmSet → Bool

/-- Writing one of the flags. -/
def putDirty (dirty : RpmSet → Bool) (set : RpmSet) (value : Bool) : RpmSet → Bool :=
  fun s => if s = set then value else dirty s

namespace KeyData

/-- `rpm_key_get_local_request`. -/
def localRequest (d : KeyData) : RpmSet → Request
  | .active => d.activeLocal
  | .sleep => d.sleepLocal
  | .nextActive => d.nasLocal

/-- `rpm_key_get_cached_request`. -/
def cached (d : KeyData) : RpmSet → Request
  | .active => d.activeAtRpm
  | .sleep => d.sleepAtRpm
  | .nextActive => d.activeAtRpm

/-- Writing through the pointer that `rpm_key_get_local_request` returns. -/
def putLocal (d : KeyData) (set : RpmSet) (r : Request) : KeyData :=
  match set with
  | .active => { d with activeLocal := r }
  | .sleep => { d with sleepLocal := r }
  | .nextActive => { d with nasLocal := r }

/-- Writing through the pointer that `rpm_key_get_cached_request` returns. -/
def putCached (d : KeyData) (set : RpmSet) (r : Request) : KeyData :=
  match set with
  | .active => { d with activeAtRpm := r }
  | .sleep => { d with sleepAtRpm := r }
  | .nextActive => { d with activeAtRpm := r }

/-- A record with the buffers of `rpm_resource_preallocate`. -/
def new (key : UInt32) : KeyData :=
  ⟨key, noRequest, noRequest, noRequest, noRequest, noRequest, fun _ => false⟩

/-- What `rpm_full_invalidate` does to a key. -/
def fullInvalidate (d : KeyData) (set : RpmSet) : KeyData :=
  let d := d.putCached set { d.cached set with valid := false }
  let d := d.putLocal set noRequest
  { d with dirty := putDirty d.dirty set false }

/-- `rpm_key_invalidate`. -/
def invalidate (d : KeyData) (set : RpmSet) : KeyData :=
  let dirty := if (d.cached set).valid then putDirty d.dirty set true else d.dirty
  { d.putLocal set noRequest with dirty := dirty }

/-- `rpm_key_update`. Values are compared where neither is empty. -/
def update (d : KeyData) (set : RpmSet) (data : List UInt8) : KeyData :=
  let dirty :=
    if (d.cached set).valid = false then putDirty d.dirty set true
    else if data ≠ [] ∧ (d.cached set).data ≠ [] then
      putDirty d.dirty set (decide (data ≠ (d.cached set).data))
    else d.dirty
  { d.putLocal set ⟨data, true⟩ with dirty := dirty }

end KeyData

/-! ## Requests -/

/-- The places of the keys. -/
def keyPlaces (keys : List KeyData) : List Nat := keys.map fun d => d.key.toNat

/-- `rpm_resource_find_key`, as an index. -/
def rpmResourceFindKey (keys : List KeyData) (key : UInt32) : Option Nat :=
  search (keyPlaces keys) key.toNat

/-- `rpm_resource_add_key`. -/
def rpmResourceAddKey (keys : List KeyData) (key : UInt32) : List KeyData :=
  keys.insertIdx (place (keyPlaces keys) key.toNat) (.new key)

/-- What `rpm_resource_update` does with one pair: the keys, and whether the key is dirty behind it.
The array of keys has to fit into a block, with 96 bytes for each. -/
def updateKey (keys : List KeyData) (set : RpmSet) (key : UInt32) (data : List UInt8) :
    Option (List KeyData × Bool) :=
  let found :=
    match rpmResourceFindKey keys key with
    | some i => some (keys, i)
    | none =>
      if coreMalloc (96 * (keys.length + 1)) then
        some (rpmResourceAddKey keys key, place (keyPlaces keys) key.toNat)
      else none
  found.bind fun (keys, i) =>
    keys[i]?.map fun d =>
      let d := if data = [] then d.invalidate set else d.update set data
      (keys.set i d, d.dirty set)

/-- The loop of `rpm_resource_update`, with so many turns left: the keys, and whether one that came
is dirty. -/
def updateKeys (set : RpmSet) : Nat → List KeyData → Bool → Kvp → Option (List KeyData × Bool)
  | 0, keys, dirty, _ => some (keys, dirty)
  | turns + 1, keys, dirty, k =>
    match kvpGet k with
    | (.null key, k) =>
      (updateKey keys set key []).bind fun (keys, d) => updateKeys set turns keys (dirty || d) k
    | (.value key length start, k) =>
      if ¬ length.toNat < maxKvpLength then none
      else
        (updateKey keys set key (Ring.get k.buffer.bytes start length.toNat)).bind fun (keys, d) =>
          updateKeys set turns keys (dirty || d) k
    | _ => some (keys, dirty)

/-- `rpm_full_invalidate`. -/
def rpmFullInvalidate (self : Resource) (set : RpmSet) : Resource :=
  { self with
    keys := self.keys.map fun d => d.fullInvalidate set
    dirty := putDirty self.dirty set true }

/-- `rpm_resource_update`. A pair takes eight bytes or more, so there are no more turns than bytes.
-/
def rpmResourceUpdate (self : Resource) (set : RpmSet) : Option Kvp → Option Resource
  | none => some (rpmFullInvalidate self set)
  | some requestData =>
    (updateKeys set requestData.buffer.size self.keys false requestData).map fun (keys, dirty) =>
      { self with keys := keys, dirty := putDirty self.dirty set dirty }

/-! ## Messages -/

/-- `rpm_resource_get_request_size`, whose sum is of 32 bits. -/
def rpmResourceGetRequestSize (set : RpmSet) (self : Resource) : UInt32 :=
  let numBytes := self.keys.foldl (fun (numBytes : UInt32) d =>
    if d.dirty set then numBytes + (8 + .ofNat (d.localRequest set).data.length) else numBytes) 0
  if numBytes > 0 then numBytes + 28 else numBytes

/-- `kvp_clear`. -/
def kvpClear (k : Kvp) : Kvp := { buffer := { k.buffer with size := 0 }, readIdx := 0 }

/-- `rpm_key_compose_data`. -/
def rpmKeyComposeData (d : KeyData) (set : RpmSet) (message : Kvp) : Option (KeyData × Kvp) :=
  if d.dirty set = false then some (d, message)
  else
    let request := d.localRequest set
    let put :=
      if request.valid = false then kvpPut message d.key []
      -- `bytearray_at` has nothing to point to
      else if request.data = [] then none
      else kvpPut message d.key request.data
    put.map fun message =>
      let told := if request.valid then request else noRequest
      let d := d.putCached set told
      ({ d with dirty := putDirty d.dirty set false }, message)

/-- A key has a value, or will have it when what is dirty has been sent. -/
def KeyData.counts (d : KeyData) (set : RpmSet) : Bool :=
  (!d.dirty set && (d.cached set).valid) || (d.localRequest set).valid

/-- The loop of `rpm_resource_compose_message`: the keys, the message and how many keys have a
value. -/
def composeKeys (set : RpmSet) : List KeyData → Kvp → Option (List KeyData × Kvp × Nat)
  | [], message => some ([], message, 0)
  | d :: ds, message => do
    let (d', message) ← rpmKeyComposeData d set message
    let (ds, message, validKeys) ← composeKeys set ds message
    return (d' :: ds, message, if d.counts set then validKeys + 1 else validKeys)

/-- `rpm_resource_compose_message`: whether the whole resource is to be invalidated, the resource
and the message. -/
def rpmResourceComposeMessage (self : Resource) (set : RpmSet) (message : Kvp) :
    Option (Bool × Resource × Kvp) :=
  if self.dirty set = false then some (false, self, kvpClear message)
  else
    (composeKeys set self.keys (kvpClear message)).map fun (keys, message, validKeys) =>
      (validKeys = 0, { self with keys := keys, dirty := putDirty self.dirty set false }, message)

/-- `RPMMessagePacket`, without its service and its size. -/
structure Packet where
  msgId : UInt32
  set : RpmSet
  type : UInt32
  id : UInt32
  data : List UInt8

/-- The number of a set. -/
def RpmSet.number : RpmSet → Nat
  | .active => 0
  | .sleep => 1
  | .nextActive => 2

/-- The header of a packet, with `REQ_KEY` for its service and a size that leaves out two words. -/
def Packet.header (msg : Packet) : List UInt8 :=
  leBytes 4 0x00716572 ++ leBytes 4 (28 + msg.data.length - 8) ++ leBytes 4 msg.msgId.toNat ++
    leBytes 4 msg.set.number ++ leBytes 4 msg.type.toNat ++ leBytes 4 msg.id.toNat ++
    leBytes 4 msg.data.length

/-- `rpm.msg_buffer_size`. -/
def msgBufferSize : Nat := 256

/-- `rpmclient_put`: what is handed to the transport. Behind a size that has wrapped the copy would
leave the buffer. -/
def rpmclientPut (msg : Packet) : Option (List UInt8) :=
  let rawBufferSize := (28 + msg.data.length) % 2 ^ 32
  if ¬ msgBufferSize ≥ rawBufferSize then none
  else if rawBufferSize < 28 + msg.data.length then none
  else some (msg.header ++ msg.data)

/-- `_rpm_wire_send`: what is handed to the transport, if anything is, the resource and
`keys_buffer`, which is created in the first call. -/
def rpmWireSend (keysBuffer : Option Kvp) (bytes : Nat → UInt8) (msgId : UInt32) (set : RpmSet)
    (resourceData : Resource) : Option (Option (List UInt8) × Resource × Kvp) := do
  let message ← keysBuffer.or (kvpCreate 128 bytes)
  let (fullInvalidate, resourceData, message) ←
    rpmResourceComposeMessage resourceData set (kvpClear message)
  if fullInvalidate = false ∧ kvpEof message = true then
    return (none, resourceData, message)
  else
    let data :=
      if fullInvalidate then [] else Ring.get message.buffer.bytes 0 (kvpGetRawSize message)
    let sent ← rpmclientPut ⟨msgId, set, resourceData.type, resourceData.id, data⟩
    return (some sent, resourceData, message)

/-! ## The client -/

/-- `rpm`, as far as it holds resources, and `keys_buffer`. -/
structure Rpm where
  resources : List Resource
  keysBuffer : Option Kvp

/-- Nothing has been posted. -/
def rpmStart : Rpm := ⟨[], none⟩

/-- `resource_identifier`. -/
def resourceIdentifier (type id : UInt32) : Nat := type.toNat * 2 ^ 32 + id.toNat

/-- The identifiers of the resources. -/
def identifiers (resources : List Resource) : List Nat :=
  resources.map fun r => resourceIdentifier r.type r.id

/-- `rpm_find_resource`, as an index. -/
def rpmFindResource (rpm : Rpm) (type id : UInt32) : Option Nat :=
  search (identifiers rpm.resources) (resourceIdentifier type id)

/-- `rpm_add_resource`. The array of pointers has to fit into a block, with eight bytes for each. -/
def rpmAddResource (rpm : Rpm) (type id : UInt32) : Option Rpm :=
  let i := place (identifiers rpm.resources) (resourceIdentifier type id)
  if coreMalloc (8 * (rpm.resources.length + 1)) then
    some { rpm with resources := rpm.resources.insertIdx i ⟨type, id, [], fun _ => false⟩ }
  else none

/-- `rpm_get_request_size`. -/
def rpmGetRequestSize (rpm : Rpm) (set : RpmSet) (type id : UInt32) : UInt32 :=
  match (rpmFindResource rpm type id).bind fun i => rpm.resources[i]? with
  | none => 0
  | some r => rpmResourceGetRequestSize set r

/-- What the client does with a resource: it notes a request, or sends what is dirty. -/
inductive RpmEvent
  | post (set : RpmSet) (type id : UInt32) (kvps : Option Kvp)
  | send (msgId : UInt32) (set : RpmSet) (type id : UInt32) (bytes : Nat → UInt8)

/-- `rpm_post_request`, as far as the resource goes. -/
def rpmPost (rpm : Rpm) (set : RpmSet) (type id : UInt32) (kvps : Option Kvp) : Option Rpm :=
  let found :=
    match rpmFindResource rpm type id with
    | some i => some (rpm, i)
    | none => (rpmAddResource rpm type id).map fun rpm' =>
        (rpm', place (identifiers rpm.resources) (resourceIdentifier type id))
  found.bind fun (rpm, i) =>
    (rpm.resources[i]?.bind fun r => rpmResourceUpdate r set kvps).map fun r =>
      { rpm with resources := rpm.resources.set i r }

/-- `rpm_wire_send`, for a resource that is there. -/
def rpmSend (rpm : Rpm) (msgId : UInt32) (set : RpmSet) (type id : UInt32) (bytes : Nat → UInt8) :
    Option Rpm := do
  let i ← rpmFindResource rpm type id
  let r ← rpm.resources[i]?
  let (_, r, keysBuffer) ← rpmWireSend rpm.keysBuffer bytes msgId set r
  return { resources := rpm.resources.set i r, keysBuffer := some keysBuffer }

/-- What an event leads to. -/
def rpmStep (rpm : Rpm) : RpmEvent → Option Rpm
  | .post set type id kvps => rpmPost rpm set type id kvps
  | .send msgId set type id bytes => rpmSend rpm msgId set type id bytes

/-- One event. -/
def RpmStep (rpm : Rpm) (e : RpmEvent) (rpm' : Rpm) : Prop := rpmStep rpm e = some rpm'

end RpmClient
