import BootXf.DevPrg.Transfer

/-!
# The chain of trust

`Trusted` is what validation is for: which traces of accepted tables and packets are justified by
signed tables, and what is left of the table in use. `chain_of_trust` says that every run of calls
has such a trace, as long as the transport takes each receive of a packet, no accepted table is
empty, and no receive is pending when a table is due. A receive that is pending then is finished in
place of that of the table, so that what lies in the buffer from before is authenticated, and what
the host sends as the table comes in unchecked afterwards.
-/

namespace DevPrg

open Lib List Option

/-! ## Justified traces -/

/-- The hashes of a table, in the order of their use. -/
def entriesOf (bytes : List UInt8) : List (List UInt8) :=
  (List.range (bytes.length / devprgHashSize)).map fun i =>
    (bytes.drop (devprgHashSize * i)).take devprgHashSize

/-- A table in use: of its hashes so many have been used. -/
structure Table where
  entries : List (List UInt8)
  capacity : Nat
  used : Nat

namespace Table

/-- The last hash of a full table is that of the next table. -/
def Full (t : Table) : Prop := t.capacity ≤ t.entries.length

instance (t : Table) : Decidable t.Full := inferInstanceAs (Decidable (_ ≤ _))

/-- What is left after a packet: a table that is not full ends with its last hash. -/
def next (t : Table) : Option Table :=
  if ¬ t.Full ∧ t.used + 1 = t.entries.length then none else some { t with used := t.used + 1 }

end Table

/-- The traces that are justified, with the table that is in use then, if any. -/
inductive Trusted (A : Authenticator) (sha : List UInt8 → List UInt8) :
    List Mark → Option Table → Prop
  | start : Trusted A sha [] none
  /-- After a failure nothing is trusted. -/
  | failed {trace : List Mark} {t : Option Table} : Trusted A sha trace t →
      Trusted A sha (.failed :: trace) none
  /-- A table is authenticated; zeros at its end are no hashes. -/
  | signedTable {trace : List Mark} {blob : List UInt8} {offset size : Nat}
      {entries zeros : List (List UInt8)} : Trusted A sha trace none →
      A.verify blob = some (offset, size) →
      entriesOf ((blob.drop offset).take size) = entries ++ zeros →
      (∀ e ∈ zeros, isZero e = true) → (∀ e ∈ entries.getLast?, isZero e = false) →
      Trusted A sha (.signedTable blob :: trace) (some ⟨entries, signedTableHashes, 0⟩)
  /-- The hash of the next table is the last one of a full table. -/
  | nextTable {trace : List Mark} {t : Table} {bytes : List UInt8} : Trusted A sha trace (some t) →
      t.Full → t.used + 1 = t.entries.length → t.entries[t.used]? = some (sha bytes) →
      Trusted A sha (.nextTable bytes :: trace)
        (some ⟨entriesOf bytes, vipTableSize / devprgHashSize, 0⟩)
  /-- The hash of a packet is the next one, and not the last one of a full table. -/
  | packet {trace : List Mark} {t : Table} {bytes : List UInt8} : Trusted A sha trace (some t) →
      (t.Full → t.used + 1 < t.entries.length) → t.entries[t.used]? = some (sha bytes) →
      Trusted A sha (.packet bytes :: trace) t.next

/-- After a failure nothing is accepted before a signed table. -/
theorem Trusted.nothing_after_failed {A : Authenticator} {sha : List UInt8 → List UInt8}
    {trace before : List Mark} {t : Option Table} (h : Trusted A sha (trace ++ .failed :: before) t)
    (htrace : ∀ blob, .signedTable blob ∉ trace) : (∀ m ∈ trace, m = .failed) ∧ t = none := by
  induction trace generalizing t with
  | nil =>
    cases h with
    | failed h => exact ⟨fun m hm => (not_mem_nil hm).elim, rfl⟩
  | cons m trace ih =>
    have hrest : ∀ blob, .signedTable blob ∉ trace := fun blob hm => htrace blob (.tail _ hm)
    cases h with
    | failed h => exact ⟨forall_mem_cons.mpr ⟨rfl, (ih h hrest).1⟩, rfl⟩
    | signedTable h => exact absurd (mem_cons_self) (htrace _)
    | nextTable h => nomatch (ih h hrest).2
    | packet h => nomatch (ih h hrest).2

/-! ## Sound calls -/

/-- The transport takes the receive of a packet, no receive is pending when a table is due, a signed
table has a hash that is not zero, and the next table has a hash. -/
def Transfer.SoundQueue (A : Authenticator) (sha : List UInt8 → List UInt8) (s : Transfer)
    (table : Received) (taken : Bool) : Prop :=
  taken = true ∧
  (s.state = .init ∨ s.state = .getNextTable → s.pending = none) ∧
  (s.state = .init → ∀ offset size, A.verify (table.bytes.take devprgVipTableSize) =
    some (offset, size) →
    ∃ e ∈ entriesOf (((table.bytes.take devprgVipTableSize).drop offset).take size),
      isZero e = false) ∧
  (s.state = .getNextTable → hashAt s.memory s.currHash = sha (table.bytes.take vipTableSize) →
    devprgHashSize ≤ table.bytes.length)

/-- The call meets the condition. -/
def Transfer.SoundCall (A : Authenticator) (sha : List UInt8 → List UInt8)
    (s : Transfer) : Call → Prop
  | .rxQueue _ _ _ table taken | .rxBlocking _ _ _ table taken _ => s.SoundQueue A sha table taken
  | .rxQueueWait _ => True

/-- One call that meets the condition. -/
def Session.SoundStep (A : Authenticator) (sha : List UInt8 → List UInt8) (s : Session) (c : Call)
    (s' : Session) : Prop :=
  s.transfer.SoundCall A sha c ∧ s.Step A sha c s'

/-! ## Tables in memory -/

/-- The last hash that is not zero, when there is one. -/
theorem lastHash_spec (zero : Int → Bool) (maxIndex : Nat) {n : Nat} (h : ∃ i < n, zero i = false) :
    0 < lastHash zero maxIndex n ∧ lastHash zero maxIndex n ≤ n ∧
      zero ((lastHash zero maxIndex n - 1 : Nat) : Int) = false ∧
      ∀ i : Nat, lastHash zero maxIndex n ≤ i → i < n → zero i = true := by
  induction n with
  | zero =>
    obtain ⟨i, hi, -⟩ := h
    exact absurd hi (Nat.not_lt_zero _)
  | succ n ih =>
    rw [lastHash]
    rcases hzero : zero n with _ | _
    · rw [if_neg Bool.false_ne_true, Nat.add_sub_cancel]
      exact ⟨Nat.succ_pos _, Nat.le_refl _, hzero, fun i hge hlt => absurd hlt (Nat.not_lt.mpr hge)⟩
    · rw [if_pos rfl]
      have hrest : ∃ i < n, zero i = false := by
        obtain ⟨i, hi, hno⟩ := h
        refine ⟨i, Nat.lt_of_le_of_ne (Nat.le_of_lt_succ hi) fun heq => ?_, hno⟩
        rw [heq, hzero] at hno
        nomatch hno
      obtain ⟨hpos, hle, hlast, hall⟩ := ih hrest
      refine ⟨hpos, Nat.le_succ_of_le hle, hlast, fun i hge hlt => ?_⟩
      rcases Nat.lt_succ_iff_lt_or_eq.mp hlt with hlt | rfl
      · exact hall i hge hlt
      · exact hzero

section
variable {s : Transfer} {memory : Int → UInt8} {bytes : List UInt8} {offset size i : Nat}
  {e : List UInt8} {earlier table : Received}

theorem entriesOf_length : (entriesOf bytes).length = bytes.length / devprgHashSize := by
  rw [entriesOf, length_map, length_range]

/-- A byte of a table, where the table is in memory. -/
theorem putTable_read {k : Nat} (hk : k < bytes.length) :
    Transfer.putTable memory bytes k = bytes[k] := by
  unfold Transfer.putTable
  rw [if_pos ⟨Int.natCast_nonneg _, Int.ofNat_lt.mpr hk⟩, Int.toNat_natCast,
    getD_eq_getElem?_getD, getElem?_eq_getElem hk, getD_some]

/-- A hash of a table, where the table is in memory. -/
theorem hashAt_putTable (hsize : offset + size ≤ bytes.length)
    (he : (entriesOf ((bytes.drop offset).take size))[i]? = some e) :
    hashAt (Transfer.putTable memory bytes) (offset + devprgHashSize * i) = e := by
  have hlen : ((bytes.drop offset).take size).length = size := by
    rw [length_take, length_drop]
    omega
  have hi : i < size / devprgHashSize := by
    have := (List.getElem?_eq_some_iff.mp he).1
    rwa [entriesOf_length, hlen] at this
  rw [entriesOf, getElem?_map, hlen, getElem?_range hi] at he
  cases he
  have hend : devprgHashSize * i + devprgHashSize ≤ size := by
    have := Nat.div_mul_le_self size devprgHashSize
    simp only [devprgHashSize] at *
    omega
  refine ext_getElem ?_ fun k hk hk' => ?_
  · rw [hashAt, length_map, length_range, length_take, length_drop, hlen]
    omega
  · rw [hashAt, length_map, length_range] at hk
    simp only [hashAt, getElem_map, getElem_range, getElem_take, getElem_drop]
    have hnat : ((offset : Int) + (devprgHashSize : Int) * i + k) =
        ((offset + devprgHashSize * i + k : Nat) : Int) := by
      omega
    have hlt : offset + devprgHashSize * i + k < bytes.length := by
      simp only [devprgHashSize] at *
      omega
    rw [hnat, putTable_read hlt]
    congr 1
    omega

/-- Without a receive that is pending, a table comes into its buffer. -/
theorem rxTable_eq (h : s.pending = none) : s.rxTable size earlier table =
    { s with
      memory := Transfer.putTable s.memory (table.bytes.take size)
      pending := none
      called := some (table.ok, (table.bytes.take size).length) } := by
  unfold Transfer.rxTable Transfer.transportRxQueue
  rw [h]
  rfl

/-- What is looked at is what came. -/
theorem tableBytes_rxTable (h : s.pending = none) :
    (s.rxTable size earlier table).tableBytes =
      if table.ok then some (table.bytes.take size) else none := by
  rw [rxTable_eq h, Transfer.tableBytes]
  cases table.ok with
  | false => rfl
  | true =>
    rw [if_pos rfl]
    refine congrArg some (ext_getElem ?_ fun k hk hk' => ?_)
    · rw [length_map, length_range]
    · rw [getElem_map, getElem_range]
      exact putTable_read hk'

end

/-! ## The table in use -/

/-- The variables of the module describe the table. -/
structure Transfer.Uses (s : Transfer) (t : Table) : Prop where
  maxIndex : s.maxIndex = t.entries.length
  maxHashes : s.maxHashes = t.capacity
  currIndex : s.currIndex = t.used
  hashes : ∀ (i : Nat) (e : List UInt8), t.entries[i]? = some e →
    hashAt s.memory (s.currHash + (devprgHashSize : Int) * ((i : Int) - t.used)) = e

/-- A receive that is pending is not one of a table. -/
def Transfer.Settled (s : Transfer) : Prop := ∀ size, s.pending ≠ some (.table, size)

/-- The invariant: the trace is justified, and the state knows the table in use. -/
def Session.Inv (A : Authenticator) (sha : List UInt8 → List UInt8) (x : Session) : Prop :=
  x.transfer.Settled ∧
  match x.transfer.state with
  | .init => Trusted A sha x.trace none
  | .getNextTable => ∃ t, Trusted A sha x.trace (some t) ∧ x.transfer.Uses t ∧ t.Full ∧
      t.used + 1 = t.entries.length
  | .data => ∃ t, Trusted A sha x.trace (some t) ∧ x.transfer.Uses t ∧ t.used < t.entries.length ∧
      (t.Full → t.used + 1 < t.entries.length)
  | .disabled => False

/-- A table has been accepted: the packet is still to be queued. -/
def Accepted (A : Authenticator) (sha : List UInt8 → List UInt8)
    (trace : List Mark) (s : Transfer) :
    Prop :=
  s.Settled ∧ s.state = .data ∧ ∃ t, Trusted A sha trace (some t) ∧ s.Uses t ∧
    t.used < t.entries.length ∧ (t.Full → t.used + 1 < t.entries.length)

/-- What the transport leaves alone unless a receive of a table finishes. -/
structure Transfer.Keeps (s s' : Transfer) : Prop where
  state : s'.state = s.state
  memory : s'.memory = s.memory
  maxIndex : s'.maxIndex = s.maxIndex
  maxHashes : s'.maxHashes = s.maxHashes
  currIndex : s'.currIndex = s.currIndex
  currHash : s'.currHash = s.currHash

section
variable {A : Authenticator} {sha : List UInt8 → List UInt8} {s s' : Transfer} {trace : List Mark}
  {earlier table packet : Received} {data size : Nat} {result : DpRes} {t : Table}

theorem Transfer.Uses.keeps (h : s.Uses t) (hkeeps : s.Keeps s') : s'.Uses t where
  maxIndex := hkeeps.maxIndex.trans h.maxIndex
  maxHashes := hkeeps.maxHashes.trans h.maxHashes
  currIndex := hkeeps.currIndex.trans h.currIndex
  hashes i e he := by
    rw [hkeeps.memory, hkeeps.currHash]
    exact h.hashes i e he

/-- Finishing the receive of a packet. -/
theorem keeps_finish (data size : Nat) (received : Received) :
    s.Keeps (s.finish (.buffer data) size received) := ⟨rfl, rfl, rfl, rfl, rfl, rfl⟩

/-- Polling, when no receive of a table is pending. -/
theorem Transfer.Settled.poll (h : s.Settled) (received : Received) :
    (s.poll received).Settled ∧ s.Keeps (s.poll received) := by
  have hsame : s.Settled ∧ s.Keeps s := ⟨h, rfl, rfl, rfl, rfl, rfl, rfl⟩
  unfold Transfer.poll
  split
  · next place size _ hpending =>
    cases place with
    | table => exact absurd hpending (h size)
    | buffer data => exact ⟨nofun, keeps_finish data size received⟩
  · exact hsame

/-- Queueing the receive of a packet. -/
theorem Transfer.Settled.rxData (h : s.Settled) (data size : Nat) (earlier : Received) :
    (s.rxData data size earlier true).1 = .success ∧
      (s.rxData data size earlier true).2.Settled ∧
      s.Keeps (s.rxData data size earlier true).2 := by
  unfold Transfer.rxData Transfer.transportRxQueue
  rcases hpending : s.pending with _ | ⟨_ | data', size'⟩
  · exact ⟨rfl, nofun, rfl, rfl, rfl, rfl, rfl, rfl⟩
  · exact absurd hpending (h size')
  · exact ⟨rfl, nofun, rfl, rfl, rfl, rfl, rfl, rfl⟩

theorem Accepted.rxData (h : Accepted A sha trace s) (data size : Nat) (earlier : Received) :
    Session.Inv A sha ⟨(s.rxData data size earlier true).2, trace⟩ := by
  obtain ⟨hsettled, hstate, t, htrusted, huses, hlt, hfull⟩ := h
  obtain ⟨-, hsettled', hkeeps⟩ := hsettled.rxData data size earlier
  refine ⟨hsettled', ?_⟩
  simp only [hkeeps.state.trans hstate]
  exact ⟨t, htrusted, huses.keeps hkeeps, hlt, hfull⟩

/-- The signed table. -/
theorem rxSignedTable_accepted (h : Trusted A sha trace none) (hpending : s.pending = none)
    (hsound : ∀ offset size, A.verify (table.bytes.take devprgVipTableSize) = some (offset, size) →
      ∃ e ∈ entriesOf (((table.bytes.take devprgVipTableSize).drop offset).take size),
        isZero e = false)
    (hok : s.rxSignedTable A earlier table = (.success, s')) :
    table.ok = true ∧
      Accepted A sha (.signedTable (table.bytes.take devprgVipTableSize) :: trace) s' := by
  rw [Transfer.rxSignedTable, tableBytes_rxTable hpending, rxTable_eq hpending] at hok
  generalize hblob : table.bytes.take devprgVipTableSize = blob at hok hsound
  cases hreceived : table.ok with
  | false =>
    rw [hreceived] at hok
    cases hok
  | true =>
    rw [hreceived, if_pos rfl] at hok
    dsimp only at hok
    split at hok
    · cases hok
    · next offset size hverify =>
      split at hok
      · cases hok
      · next hroom =>
        cases hok
        have hinside := A.inside hverify
        have hlen : ((blob.drop offset).take size).length = size := by
          rw [length_take, length_drop]
          omega
        generalize hes : entriesOf ((blob.drop offset).take size) = es
        have hcount : es.length = size / devprgHashSize := by rw [← hes, entriesOf_length, hlen]
        have hread : ∀ (i : Nat) (e : List UInt8), es[i]? = some e →
            hashAt (Transfer.putTable s.memory blob) (offset + (devprgHashSize : Int) * i) = e := by
          intro i e he
          exact hashAt_putTable hinside (hes ▸ he)
        generalize hm : lastHash (fun i => isZero (hashAt (Transfer.putTable s.memory blob)
          (offset + (devprgHashSize : Int) * i))) (size / devprgHashSize)
            (size / devprgHashSize) = m
        have hsome : ∃ i < size / devprgHashSize, (fun i : Int => isZero (hashAt
            (Transfer.putTable s.memory blob) (offset + (devprgHashSize : Int) * i)))
              i = false := by
          obtain ⟨e, he, hno⟩ := hsound offset size hverify
          rw [hes] at he
          obtain ⟨i, hi⟩ := getElem?_of_mem he
          refine ⟨i, hcount ▸ (List.getElem?_eq_some_iff.mp hi).1, ?_⟩
          dsimp only
          rw [hread i e hi]
          exact hno
        obtain ⟨hpos, hle, hlast, hzeros⟩ := lastHash_spec (fun i => isZero (hashAt
          (Transfer.putTable s.memory blob) (offset + (devprgHashSize : Int) * i)))
            (size / devprgHashSize) hsome
        rw [hm] at hpos hle hlast hzeros
        have htake : (es.take m).length = m := by
          rw [length_take, hcount]
          exact Nat.min_eq_left hle
        refine ⟨rfl, nofun, rfl, ⟨es.take m, signedTableHashes, 0⟩, ?_, ?_, ?_, ?_⟩
        · have hsplit : entriesOf ((blob.drop offset).take size) = es.take m ++ es.drop m := by
            rw [hes, take_append_drop]
          refine .signedTable h hverify hsplit ?_ ?_
          · intro e he
            obtain ⟨j, hj⟩ := getElem?_of_mem he
            rw [getElem?_drop] at hj
            have := hzeros (m + j) (Nat.le_add_right _ _)
              (hcount ▸ (List.getElem?_eq_some_iff.mp hj).1)
            rwa [hread _ e hj] at this
          · intro e he
            rw [getLast?_eq_getElem?, htake, getElem?_take_of_lt (by omega)] at he
            rwa [hread _ e he] at hlast
        · refine ⟨htake.symm, rfl, rfl, fun i e he => ?_⟩
          have hi : i < m := htake ▸ (List.getElem?_eq_some_iff.mp he).1
          rw [getElem?_take_of_lt hi] at he
          have := hread i e he
          simpa using this
        · rw [htake]
          exact hpos
        · intro hfull
          have hfull : signedTableHashes ≤ (es.take m).length := hfull
          show 0 + 1 < (es.take m).length
          simp only [signedTableHashes] at hfull
          omega

/-- The next table. -/
theorem rxNextTable_accepted (h : Trusted A sha trace (some t)) (hpending : s.pending = none)
    (huses : s.Uses t) (hfull : t.Full) (hlast : t.used + 1 = t.entries.length)
    (hsound : hashAt s.memory s.currHash = sha (table.bytes.take vipTableSize) →
      devprgHashSize ≤ table.bytes.length)
    (hok : s.rxNextTable sha earlier table = (.success, s')) :
    table.ok = true ∧
      Accepted A sha (.nextTable (table.bytes.take vipTableSize) :: trace) s' := by
  rw [Transfer.rxNextTable, tableBytes_rxTable hpending, rxTable_eq hpending] at hok
  generalize hbytes : table.bytes.take vipTableSize = bytes at hok hsound
  cases hreceived : table.ok with
  | false =>
    rw [hreceived] at hok
    cases hok
  | true =>
    rw [hreceived, if_pos rfl] at hok
    dsimp only at hok
    split at hok
    · cases hok
    · next hhash =>
      cases hok
      have hhash := Decidable.not_not.mp hhash
      have hlen : devprgHashSize ≤ bytes.length := by
        have := hsound hhash
        rw [← hbytes, length_take]
        exact Nat.le_min.mpr ⟨by decide, this⟩
      have hcount : (entriesOf bytes).length = bytes.length / devprgHashSize := entriesOf_length
      have hpos : 0 < bytes.length / devprgHashSize := Nat.div_pos hlen (by decide)
      have hentry : t.entries[t.used]? = some (sha bytes) := by
        have hlt : t.used < t.entries.length := by omega
        have := huses.hashes t.used _ (getElem?_eq_getElem hlt)
        rw [Int.sub_self, Int.mul_zero, Int.add_zero, hhash] at this
        rw [getElem?_eq_getElem hlt, this]
      refine ⟨rfl, nofun, rfl, ⟨entriesOf bytes, vipTableSize / devprgHashSize, 0⟩,
        .nextTable h hfull hlast hentry, ⟨hcount.symm, rfl, rfl, fun i e he => ?_⟩, ?_, ?_⟩
      · have hread :
            hashAt (Transfer.putTable s.memory bytes) ((0 : Nat) + devprgHashSize * i) = e := by
          refine hashAt_putTable (Nat.le_of_eq (Nat.zero_add _)) ?_
          rwa [drop_zero, List.take_length]
        simpa using hread
      · rw [hcount]
        exact hpos
      · intro hfull
        have hfull : vipTableSize / devprgHashSize ≤ (entriesOf bytes).length := hfull
        have hcap : vipTableSize / devprgHashSize = 256 := rfl
        show 0 + 1 < (entriesOf bytes).length
        omega

/-- After a failure the module waits for a signed table. -/
theorem Session.Inv.failed {t : Option Table} (hsettled : s.Settled) (h : Trusted A sha trace t) :
    Session.Inv A sha ⟨s.devprgInitVipState, .failed :: trace⟩ := ⟨hsettled, h.failed⟩

/-- There is a trusted trace in every state. -/
theorem Session.Inv.trusted {x : Session} (h : x.Inv A sha) : ∃ t, Trusted A sha x.trace t := by
  obtain ⟨-, h⟩ := h
  split at h
  · exact ⟨_, h⟩
  · obtain ⟨t, htrusted, -⟩ := h
    exact ⟨_, htrusted⟩
  · obtain ⟨t, htrusted, -⟩ := h
    exact ⟨_, htrusted⟩
  · exact h.elim

/-- What follows a table: the packet is queued, or there was a failure. -/
theorem afterTable_inv {r : DpRes × Transfer} {marks : List Mark} {t : Option Table}
    (h : Trusted A sha trace t) (hsettled : r.2.Settled)
    (haccepted : ∀ s', r = (.success, s') → Accepted A sha (marks ++ trace) s') :
    Session.Inv A sha ⟨(Transfer.afterTable r data size table true).2,
      ((if (Transfer.afterTable r data size table true).1 = .success then [] else [.failed]) ++
        if r.1 = .success then marks else []) ++ trace⟩ := by
  obtain ⟨result, s'⟩ := r
  cases result with
  | success =>
    have hinv := (haccepted s' rfl).rxData data size table
    have hresult := ((haccepted s' rfl).1.rxData data size table).1
    rw [Transfer.afterTable, if_pos hresult]
    exact hinv
  | errorReceive => exact Session.Inv.failed hsettled h
  | errorAuthentication => exact Session.Inv.failed hsettled h
  | errorStorage => exact Session.Inv.failed hsettled h

/-- Where a table was received nothing is pending. -/
theorem rxSignedTable_settled (hpending : s.pending = none) :
    (s.rxSignedTable A earlier table).2.Settled := by
  rw [Transfer.rxSignedTable, rxTable_eq hpending]
  split
  · exact nofun
  · split
    · exact nofun
    · split <;> exact nofun

/-- The same for the next table. -/
theorem rxNextTable_settled (hpending : s.pending = none) :
    (s.rxNextTable sha earlier table).2.Settled := by
  rw [Transfer.rxNextTable, rxTable_eq hpending]
  split
  · exact nofun
  · split <;> exact nofun

/-- **`devprg_rx_queue`.** -/
theorem Session.Inv.rxQueue (h : Session.Inv A sha ⟨s, trace⟩) (data size : Nat)
    (earlier : Received) (hsound : s.SoundQueue A sha table true) :
    Session.Inv A sha ⟨(s.devprgRxQueue A sha data size earlier table true).2,
      s.queueMarks A sha earlier table (s.devprgRxQueue A sha data size earlier table true).1 ++
        trace⟩ := by
  obtain ⟨-, hdue, hsigned, hnext⟩ := hsound
  obtain ⟨hsettled, h⟩ := h
  unfold Transfer.devprgRxQueue Transfer.queueMarks
  dsimp only at h hsettled
  rcases hstate : s.state with _ | _ | _ | _
  · rw [hstate] at h
    have hpending := hdue (.inl hstate)
    refine afterTable_inv h (rxSignedTable_settled hpending) fun s' hok => ?_
    obtain ⟨hreceived, haccepted⟩ := rxSignedTable_accepted h hpending (hsigned hstate) hok
    rw [tableBytes_rxTable hpending, if_pos hreceived]
    exact haccepted
  · rw [hstate] at h
    obtain ⟨t, htrusted, huses, hfull, hlast⟩ := h
    have hpending := hdue (.inr hstate)
    refine afterTable_inv htrusted (rxNextTable_settled hpending) fun s' hok => ?_
    obtain ⟨hreceived, haccepted⟩ :=
      rxNextTable_accepted htrusted hpending huses hfull hlast (hnext hstate) hok
    rw [tableBytes_rxTable hpending, if_pos hreceived]
    exact haccepted
  · rw [hstate] at h
    obtain ⟨t, htrusted, huses, hlt, hfull⟩ := h
    have haccepted : Accepted A sha trace s := ⟨hsettled, hstate, t, htrusted, huses, hlt, hfull⟩
    have hresult := (hsettled.rxData data size earlier).1
    dsimp only
    rw [if_pos hresult]
    exact haccepted.rxData data size earlier
  · rw [hstate] at h
    exact h.elim

/-- The next hash is used. -/
theorem advance_inv (hstate : s.state = .data) (hsettled : s.Settled) (huses : s.Uses t)
    (hlt : t.used < t.entries.length) (hfull : t.Full → t.used + 1 < t.entries.length)
    (h : Trusted A sha trace t.next) : Session.Inv A sha ⟨s.advance, trace⟩ := by
  obtain ⟨hmax, hcap, hcurr, hhashes⟩ := huses
  have huses' : Transfer.Uses { s with
      currIndex := s.currIndex + 1, currHash := s.currHash + devprgHashSize }
      { t with used := t.used + 1 } := by
    refine ⟨hmax, hcap, congrArg (· + 1) hcurr, fun i e he => ?_⟩
    have := hhashes i e he
    rw [← this]
    dsimp only
    congr 1
    simp only [devprgHashSize]
    omega
  unfold Transfer.advance
  dsimp only
  rw [hmax, hcap, hcurr]
  split
  · next hend =>
    have hisFull : t.Full := hend.1
    rw [Table.next, if_neg fun hno => hno.1 hisFull] at h
    refine ⟨hsettled, _, h, ⟨rfl, rfl, rfl, huses'.hashes⟩, hisFull, ?_⟩
    have := hfull hisFull
    have := hend.2
    dsimp only
    omega
  · next hmore =>
    split
    · next hend =>
      have hno : ¬ t.Full := Nat.not_le.mpr hend.1
      rw [Table.next, if_pos ⟨hno, by omega⟩] at h
      exact ⟨hsettled, h⟩
    · next hrest =>
      have hmid : ¬ (¬ t.Full ∧ t.used + 1 = t.entries.length) := by
        rintro ⟨hno, hlast⟩
        exact hrest ⟨Nat.not_le.mp hno, Nat.le_of_eq hlast.symm⟩
      rw [Table.next, if_neg hmid] at h
      refine ⟨hsettled, ?_⟩
      simp only [hstate]
      refine ⟨_, h, ⟨rfl, rfl, rfl, huses'.hashes⟩, ?_, fun hisFull => ?_⟩
      · dsimp only
        rcases Decidable.em t.Full with hisFull | hno
        · exact hfull hisFull
        · refine Nat.lt_of_le_of_ne hlt fun hlast => hmid ⟨hno, hlast⟩
      · dsimp only
        refine Nat.not_le.mp fun hle => hmore ⟨hisFull, hle⟩

/-- **`devprg_rx_queue_wait`.** -/
theorem Session.Inv.rxQueueWait (h : Session.Inv A sha ⟨s, trace⟩) {bytes : List UInt8}
    (hwait : s.devprgRxQueueWait sha packet = some (result, bytes, s')) :
    Session.Inv A sha ⟨s', Transfer.waitMarks result bytes ++ trace⟩ := by
  obtain ⟨t', htrusted'⟩ := h.trusted
  obtain ⟨hsettled, h⟩ := h
  dsimp only at h hsettled htrusted'
  unfold Transfer.devprgRxQueueWait at hwait
  rcases hstate : s.state with _ | _ | _ | _ <;> rw [hstate] at hwait h
  · cases hwait
    exact Session.Inv.failed hsettled htrusted'
  · cases hwait
    exact Session.Inv.failed hsettled htrusted'
  · obtain ⟨t, htrusted, huses, hlt, hfull⟩ := h
    obtain ⟨⟨received, rxBytes, u⟩, htransport, hwait⟩ := map_eq_some_iff.mp hwait
    obtain ⟨hsettled', hkeeps⟩ := hsettled.poll packet
    have hu : u = s.poll packet := by
      unfold Transfer.transportRxQueueWait at htransport
      dsimp only at htransport
      split at htransport <;> cases htransport <;> rfl
    subst hu
    dsimp only at hwait
    split at hwait
    · next herror =>
      cases hwait
      rw [Transfer.waitMarks, if_neg herror]
      exact Session.Inv.failed hsettled' htrusted'
    · split at hwait
      · cases hwait
        exact Session.Inv.failed hsettled' htrusted'
      · next hhash =>
        cases hwait
        have hentry : t.entries[t.used]? = some (sha ((s.poll packet).content rxBytes)) := by
          have hread := huses.hashes t.used _ (getElem?_eq_getElem hlt)
          rw [Int.sub_self, Int.mul_zero, Int.add_zero, ← hkeeps.memory, ← hkeeps.currHash,
            Decidable.not_not.mp hhash] at hread
          rw [getElem?_eq_getElem hlt, hread]
        exact advance_inv (hkeeps.state.trans hstate) hsettled' (huses.keeps hkeeps) hlt hfull
          (.packet htrusted hfull hentry)
  · exact h.elim

/-- **One call** that meets the condition. -/
theorem Session.Inv.step {x x' : Session} {c : Call} (h : x.Inv A sha)
    (hstep : x.SoundStep A sha c x') : x'.Inv A sha := by
  obtain ⟨hsound, hstep⟩ := hstep
  obtain ⟨s, trace⟩ := x
  obtain ⟨⟨marks, s'⟩, hcall, rfl⟩ := map_eq_some_iff.mp hstep
  cases c with
  | rxQueue data size earlier table taken =>
    obtain ⟨rfl, hrest⟩ := hsound
    cases hcall
    exact h.rxQueue data size earlier ⟨rfl, hrest⟩
  | rxQueueWait packet =>
    obtain ⟨⟨result, bytes, u⟩, hwait, heq⟩ := map_eq_some_iff.mp hcall
    cases heq
    exact h.rxQueueWait hwait
  | rxBlocking data size earlier table taken packet =>
    obtain ⟨rfl, hrest⟩ := hsound
    have hqueue := h.rxQueue data size earlier ⟨rfl, hrest⟩
    rw [Transfer.call] at hcall
    dsimp only at hcall
    split at hcall
    · obtain ⟨⟨result, bytes, u⟩, hwait, heq⟩ := map_eq_some_iff.mp hcall
      cases heq
      have hwait := hqueue.rxQueueWait hwait
      rwa [← append_assoc] at hwait
    · cases hcall
      exact hqueue

/-- The invariant holds at boot. -/
theorem boot_inv {memory : Int → UInt8} {buffers : Nat → Nat → UInt8} :
    Session.Inv A sha ⟨.boot memory buffers, []⟩ :=
  ⟨fun size h => (show none ≠ some (Place.table, size) from nofun) h, Trusted.start⟩

/-- **The chain of trust**: from boot on, in whatever order the calls come and whatever the host
sends, what has been accepted is justified, and the state knows the table in use. -/
theorem chain_of_trust {A : Authenticator} {sha : List UInt8 → List UInt8} {memory : Int → UInt8}
    {buffers : Nat → Nat → UInt8} {calls : List Call} {x : Session}
    (run : Run (Session.SoundStep A sha) ⟨.boot memory buffers, []⟩ calls x) :
    (∃ t, Trusted A sha x.trace t) ∧ x.Inv A sha := by
  have hinv : x.Inv A sha := run.state_invariant boot_inv fun h hstep => h.step hstep
  exact ⟨hinv.trusted, hinv⟩

end

/-! ## Runs -/

/-- A check that takes the whole blob for authenticated data. -/
def wholeBlob : Authenticator where
  verify blob := some (0, blob.length)
  inside h := by
    cases h
    exact Nat.le_of_eq (Nat.zero_add _)

/-- SHA-256 of nothing. -/
def emptyHash : List UInt8 :=
  [0xe3, 0xb0, 0xc4, 0x42, 0x98, 0xfc, 0x1c, 0x14, 0x9a, 0xfb, 0xf4, 0xc8, 0x99, 0x6f, 0xb9, 0x24,
    0x27, 0xae, 0x41, 0xe4, 0x64, 0x9b, 0x93, 0x4c, 0xa4, 0x95, 0x99, 0x1b, 0x78, 0x52, 0xb8, 0x55]

/-- SHA-256 of a zero. -/
def zeroHash : List UInt8 :=
  [0x6e, 0x34, 0x0b, 0x9c, 0xff, 0xb3, 0x7a, 0x98, 0x9c, 0xa5, 0x44, 0xe6, 0xbb, 0x78, 0x0a, 0x2c,
    0x78, 0x90, 0x1d, 0x3f, 0xb3, 0x37, 0x38, 0x76, 0x85, 0x11, 0xa3, 0x06, 0x17, 0xaf, 0xa0, 0x1d]

/-- SHA-256 of a one. -/
def oneHash : List UInt8 :=
  [0x4b, 0xf5, 0x12, 0x2f, 0x34, 0x45, 0x54, 0xc5, 0x3b, 0xde, 0x2e, 0xbb, 0x8c, 0xd2, 0xb7, 0xe3,
    0xd1, 0x60, 0x0a, 0xd6, 0x31, 0xc3, 0x85, 0xa5, 0xd7, 0xcc, 0xe2, 0x3c, 0x77, 0x85, 0x45, 0x9a]

/-- SHA-256 of 32 zeros. -/
def zerosHash : List UInt8 :=
  [0x66, 0x68, 0x7a, 0xad, 0xf8, 0x62, 0xbd, 0x77, 0x6c, 0x8f, 0xc1, 0x8b, 0x8e, 0x9f, 0x8e, 0x20,
    0x08, 0x97, 0x14, 0x85, 0x6e, 0xe2, 0x33, 0xb3, 0x90, 0x2a, 0x59, 0x1d, 0x0d, 0x5f, 0x29, 0x25]

/-- A hash that is SHA-256 where it is used here. -/
def knownHash (bytes : List UInt8) : List UInt8 :=
  if bytes = [] then emptyHash
  else if bytes = [0] then zeroHash
  else if bytes = [1] then oneHash
  else zerosHash

/-- The condition for a call, for the check that takes everything. -/
theorem soundQueue_whole_iff {sha : List UInt8 → List UInt8} {s : Transfer} {table : Received}
    {taken : Bool} : s.SoundQueue wholeBlob sha table taken ↔
      taken = true ∧ (s.state = .init ∨ s.state = .getNextTable → s.pending = none) ∧
      (s.state = .init →
        ∃ e ∈ entriesOf (table.bytes.take devprgVipTableSize), isZero e = false) ∧
      (s.state = .getNextTable → hashAt s.memory s.currHash = sha (table.bytes.take vipTableSize) →
        devprgHashSize ≤ table.bytes.length) := by
  refine and_congr_right fun _ => and_congr_right fun _ => and_congr_left fun _ => ?_
  refine ⟨fun h hstate => ?_, fun h hstate offset size hverify => ?_⟩
  · have hentry := h hstate 0 _ rfl
    rwa [drop_zero, List.take_length] at hentry
  · cases hverify
    rw [drop_zero, List.take_length]
    exact h hstate

instance (sha : List UInt8 → List UInt8) (s : Transfer) (c : Call) :
    Decidable (s.SoundCall wholeBlob sha c) :=
  match c with
  | .rxQueue _ _ _ _ _ | .rxBlocking _ _ _ _ _ _ => decidable_of_iff _ soundQueue_whole_iff.symm
  | .rxQueueWait _ => isTrue trivial

/-- A call that meets the condition, carried out. -/
def Session.soundAfter (s : Session) (c : Call) : Option Session :=
  if s.transfer.SoundCall wholeBlob knownHash c then s.after wholeBlob knownHash c else none

theorem Session.soundAfter_step {s s' : Session} {c : Call} (h : s.soundAfter c = some s') :
    s.SoundStep wholeBlob knownHash c s' := by
  unfold Session.soundAfter at h
  split at h
  · next hsound => exact ⟨hsound, h⟩
  · cases h

/-- Memory around the tables that holds the hash of nothing. -/
def hashInMemory : Int → UInt8 := fun a => emptyHash.getD a.toNat 0

/-- The module at boot. -/
def atBoot : Session := ⟨.boot hashInMemory fun _ _ => 0, []⟩

/-- Two packets of a signed table, in buffers of their own. -/
def twoPackets : List Call :=
  [.rxQueue 0 1024 ⟨true, []⟩ ⟨true, zeroHash ++ oneHash⟩ true, .rxQueueWait ⟨true, [0]⟩,
    .rxBlocking 1 1024 ⟨true, []⟩ ⟨true, []⟩ true ⟨true, [1]⟩]

theorem chain_of_trust_packet : ∃ calls x,
    Run (Session.SoundStep wholeBlob knownHash) atBoot calls x ∧
      x.trace = [.packet [1], .packet [0], .signedTable (zeroHash ++ oneHash)] ∧
      ∃ t, Trusted wholeBlob knownHash x.trace t := by
  have htrace : (execute Session.soundAfter atBoot twoPackets).map (·.trace) =
      some [.packet [1], .packet [0], .signedTable (zeroHash ++ oneHash)] := by
    decide +kernel
  obtain ⟨x, hx, htrace⟩ := map_eq_some_iff.mp htrace
  have run := Run.of_execute_start Session.soundAfter_step hx
  exact ⟨_, x, run, htrace, (chain_of_trust run).1⟩

/-- A receive is refused: the packet after it is accepted without a new table. -/
def refused : List Call :=
  [.rxQueue 0 1024 ⟨true, []⟩ ⟨true, emptyHash⟩ false,
    .rxQueue 0 1024 ⟨true, []⟩ ⟨true, []⟩ true, .rxQueueWait ⟨true, []⟩]

/-- A signed table without a hash: what lay in memory before is taken for one. -/
def emptyTable : List Call :=
  [.rxQueue 0 1024 ⟨true, []⟩ ⟨true, []⟩ true, .rxQueueWait ⟨true, []⟩]

/-- A receive is pending when a signed table is due: the table before it is authenticated again, and
the hash of 32 zeros comes into its place afterwards. -/
def staleTable : List Call :=
  [.rxQueue 0 1024 ⟨true, []⟩ ⟨true, emptyHash⟩ true,
    .rxQueue 1 1024 ⟨true, [5]⟩ ⟨true, []⟩ true, .rxQueueWait ⟨true, []⟩,
    .rxQueue 2 1024 ⟨true, replicate 32 7⟩ ⟨true, zerosHash⟩ true, .rxQueueWait ⟨true, []⟩]

/-- A packet is accepted after a failure to queue the one before, after an empty table, and with a
hash that nobody signed. -/
theorem accepts_without_trust :
    (∃ calls x, Run (Session.Step wholeBlob knownHash) atBoot calls x ∧
      x.trace = [.packet [], .failed, .signedTable emptyHash] ∧
      ∀ t, ¬ Trusted wholeBlob knownHash x.trace t) ∧
    (∃ calls x, Run (Session.Step wholeBlob knownHash) atBoot calls x ∧
      x.trace = [.packet [], .signedTable []] ∧ ∀ t, ¬ Trusted wholeBlob knownHash x.trace t) ∧
    ∃ calls x, Run (Session.Step wholeBlob knownHash) atBoot calls x ∧
      x.trace = [.packet (replicate 32 0), .signedTable emptyHash, .failed,
        .signedTable emptyHash] ∧
      ∀ t, ¬ Trusted wholeBlob knownHash x.trace t := by
  have hruns : ∀ calls {trace},
      (execute (Session.after wholeBlob knownHash) atBoot calls).map (·.trace) = some trace →
      (∀ t, ¬ Trusted wholeBlob knownHash trace t) →
      ∃ calls x, Run (Session.Step wholeBlob knownHash) atBoot calls x ∧ x.trace = trace ∧
        ∀ t, ¬ Trusted wholeBlob knownHash x.trace t := by
    intro calls trace htrace hno
    obtain ⟨x, hx, htrace⟩ := map_eq_some_iff.mp htrace
    exact ⟨_, x, Run.of_execute_start (fun h => h) hx, htrace, htrace ▸ hno⟩
  refine ⟨hruns refused (by decide +kernel) fun t h => ?_,
    hruns emptyTable (by decide +kernel) fun t h => ?_,
    hruns staleTable (by decide +kernel) fun t h => ?_⟩
  · cases h with
    | packet h => nomatch h
  · cases h with
    | packet h _ hentry =>
      cases h with
      | signedTable _ hverify hsplit =>
        cases hverify
        have hnil := append_eq_nil_iff.mp hsplit.symm
        rw [hnil.1] at hentry
        nomatch hentry
  · cases h with
    | packet h _ hentry =>
      cases h with
      | signedTable _ hverify hsplit =>
        cases hverify
        -- the only entry is the hash of nothing
        have hmem : knownHash (replicate 32 0) ∈ entriesOf emptyHash := by
          have hsplit : entriesOf emptyHash = _ := hsplit
          rw [hsplit]
          exact mem_append_left _ (mem_of_getElem? hentry)
        exact absurd hmem (by decide +kernel)

end DevPrg
