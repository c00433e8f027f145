import BootXf.Sahara.MemoryRead

/-!
# What a memory dump may read

The region table is filled by calls in any order, and cleared by `dload_mem_debug_init` before the
target's hooks fill it again. A run's history says which regions are registered: those added with
success since the table was cleared last, aligned to words.

Two things are asked of a request that is accepted. It lies inside the table itself or inside a
registered region: true of every request unless an empty region at address zero is registered,
whose last byte is computed to be the last of all addresses, so that everything is accepted. And
what shares a byte with a restricted region is not transmitted from where it lies: true of a
request exactly when it lies inside one restricted region, and, if it is a 32-bit request, does not
start at address zero or hold the buffer it is copied to.
-/

namespace Sahara

open Lib RamDump List

/-! ## Histories of the region table -/

/-- The calls that change the region table. `clearRegionTable` is the start of
`dload_mem_debug_init`, whose hooks then make calls of the other kinds. -/
inductive TableCall
  | clearRegionTable
  | lenInit
  | addRegion (savePref : DloadSavePref) (memBase length : UInt64) (desc filename : List UInt8)
  | addRestrictedRegion (memBase length : UInt64)
  deriving DecidableEq

/-- A call, and whether it reported success; calls that report nothing always do. -/
structure TableEvent where
  call : TableCall
  ok : Bool
  deriving DecidableEq

/-- What a call answers and leaves behind. -/
def TableCall.exec (d : DloadDebug) : TableCall → Bool × DloadDebug
  | clearRegionTable => (true, d.clearRegionTable)
  | lenInit => (true, d.dloadMemDebugLenInit)
  | addRegion savePref memBase length desc filename =>
      d.dloadDebugAddRegion savePref memBase length desc filename
  | addRestrictedRegion memBase length => (true, d.dloadDebugAddRestrictedRegion memBase length)

/-- One call. -/
def TableStep (d : DloadDebug) (e : TableEvent) (d' : DloadDebug) : Prop :=
  e.call.exec d = (e.ok, d')

/-- The regions registered by a history, newest event first: those added since the table was
cleared last, as aligned base and length. -/
def registered : List TableEvent → List (UInt64 × UInt64)
  | [] => []
  | ⟨.clearRegionTable, _⟩ :: _ => []
  | ⟨.addRegion _ memBase length _ _, true⟩ :: h =>
      registered h ++ [(maskWord memBase, maskWord length)]
  | _ :: h => registered h

/-- The table holds what the history registered. -/
theorem registered_of_run {h : List TableEvent} {d : DloadDebug}
    (run : Run TableStep DloadDebug.boot h d) :
    d.dloadDebugInfo.map (fun p => (p.memBase, p.length)) = registered h := by
  refine run.invariant (P := fun h d => d.dloadDebugInfo.map (fun p => (p.memBase, p.length)) =
    registered h) rfl fun {h d e d'} _ ih hstep => ?_
  obtain ⟨call, ok⟩ := e
  cases call with
  | clearRegionTable =>
    obtain ⟨rfl, rfl⟩ := Prod.mk.inj hstep
    rfl
  | lenInit =>
    obtain ⟨rfl, rfl⟩ := Prod.mk.inj hstep
    exact ih
  | addRestrictedRegion memBase length =>
    obtain ⟨rfl, rfl⟩ := Prod.mk.inj hstep
    simp only [DloadDebug.dloadDebugAddRestrictedRegion]
    split <;> exact ih
  | addRegion savePref memBase length desc filename =>
    simp only [TableStep, TableCall.exec, DloadDebug.dloadDebugAddRegion] at hstep
    split at hstep
    · obtain ⟨rfl, rfl⟩ := Prod.mk.inj hstep
      simp [registered, ih]
    · obtain ⟨rfl, rfl⟩ := Prod.mk.inj hstep
      exact ih

/-- A sequence of calls, oldest first, after a history. -/
def execCalls : List TableEvent × DloadDebug → List TableCall → List TableEvent × DloadDebug
  | s, [] => s
  | (h, d), c :: calls => execCalls (⟨c, (c.exec d).1⟩ :: h, (c.exec d).2) calls

/-- Executed calls are a run. -/
theorem execCalls_run {h : List TableEvent} {d : DloadDebug}
    (run : Run TableStep DloadDebug.boot h d) (calls : List TableCall) :
    Run TableStep DloadDebug.boot (execCalls (h, d) calls).1 (execCalls (h, d) calls).2 := by
  induction calls generalizing h d with
  | nil => exact run
  | cons c calls ih => exact ih (run.step rfl)

/-! ## Accepted requests -/

section
variable (place : TablePlace) (regions : List (UInt64 × UInt64)) (base len : UInt64)

/-- The request has a byte, does not wrap, and lies inside the table or inside one of the
regions. -/
def Confined : Prop :=
  0 < len.toNat ∧ (bytesOf base len).stop ≤ 2 ^ 64 ∧
    ((bytesOf base len).Within ⟨place.addr.toNat, sizeofDloadDebugType * numRegions⟩ ∨
      ∃ r ∈ regions, (bytesOf base len).Within (bytesOf r.1 r.2))

end

section
variable {table : TablePlace} {d : DloadDebug} {base len : UInt64}

/-- The table is no empty region, and does not wrap. -/
theorem rangeInside_table (table : TablePlace) (h : DloadDebug.rangeIsInvalid base len = false) :
    DloadDebug.rangeInside table.addr (.ofNat (sizeofDloadDebugType * numRegions)) base len = true ↔
      (bytesOf base len).Within ⟨table.addr.toNat, sizeofDloadDebugType * numRegions⟩ := by
  rw [DloadDebug.rangeInside_iff _ _ h]
  constructor
  · rintro (⟨-, hzero⟩ | ⟨-, hin⟩)
    · exact absurd hzero (by decide)
    · exact hin
  · exact fun hin => .inr ⟨table.fits, hin⟩

/-- **What is accepted**: a valid request inside the table, inside a region that does not wrap, or
any valid request at all when the empty region at address zero is there. -/
theorem verifyAddr_iff :
    d.dloadMemDebugVerifyAddr table base len = true ↔
      DloadDebug.rangeIsInvalid base len = false ∧
        ((bytesOf base len).Within ⟨table.addr.toNat, sizeofDloadDebugType * numRegions⟩ ∨
          ∃ p ∈ d.dloadDebugInfo, DloadDebug.IsZeroRegion p.memBase p.length ∨
            (bytesOf p.memBase p.length).stop ≤ 2 ^ 64 ∧
              (bytesOf base len).Within (bytesOf p.memBase p.length)) := by
  cases hvalid : DloadDebug.rangeIsInvalid base len with
  | true => simp [DloadDebug.dloadMemDebugVerifyAddr, hvalid]
  | false =>
    have htable := rangeInside_table table hvalid
    simp only [DloadDebug.dloadMemDebugVerifyAddr, hvalid, Bool.false_eq_true, if_false, true_and]
    split
    · next hin => exact iff_of_true rfl (.inl (htable.mp hin))
    · next hout =>
      rw [htable] at hout
      simp only [hout, false_or, any_eq_true, DloadDebug.rangeInside_iff _ _ hvalid]

/-- Without the empty region at address zero, what is accepted is confined. -/
theorem confined_of_verifyAddr
    (hzero : ∀ p ∈ d.dloadDebugInfo, ¬ DloadDebug.IsZeroRegion p.memBase p.length)
    (h : d.dloadMemDebugVerifyAddr table base len = true) :
    Confined table (d.dloadDebugInfo.map fun p => (p.memBase, p.length)) base len := by
  obtain ⟨hvalid, hin⟩ := verifyAddr_iff.mp h
  obtain ⟨hpos, hstop⟩ := DloadDebug.rangeIsInvalid_eq_false.mp hvalid
  refine ⟨hpos, hstop, ?_⟩
  rcases hin with hin | ⟨p, hp, hz | ⟨-, hin⟩⟩
  · exact .inl hin
  · exact absurd hz (hzero p hp)
  · exact .inr ⟨_, mem_map_of_mem hp, hin⟩

/-- With it, a request for all of memory but its last byte is accepted, and no region is as long. -/
theorem not_confined_of_zero (table : TablePlace) {p : DloadDebugType} (hp : p ∈ d.dloadDebugInfo)
    (hzero : DloadDebug.IsZeroRegion p.memBase p.length) :
    d.dloadMemDebugVerifyAddr table 0 0xFFFFFFFFFFFFFFFF = true ∧
      ¬ Confined table (d.dloadDebugInfo.map fun p => (p.memBase, p.length)) 0
        0xFFFFFFFFFFFFFFFF := by
  refine ⟨verifyAddr_iff.mpr ⟨by decide, .inr ⟨p, hp, .inl hzero⟩⟩, ?_⟩
  rintro ⟨-, -, hin | ⟨r, hr, hin⟩⟩
  · obtain ⟨hlo, hhi⟩ := hin
    have hlen : (0xFFFFFFFFFFFFFFFF : UInt64).toNat = 2 ^ 64 - 1 := rfl
    simp only [bytesOf, hlen, sizeofDloadDebugType, numRegions, UInt64.toNat_zero] at hlo hhi
    omega
  · obtain ⟨q, hq, rfl⟩ := mem_map.mp hr
    obtain ⟨hlo, hhi⟩ := hin
    have halign := q.length_aligned
    have hlt := q.length.toNat_lt
    have hlen : (0xFFFFFFFFFFFFFFFF : UInt64).toNat = 2 ^ 64 - 1 := rfl
    simp only [bytesOf, hlen, UInt64.toNat_zero] at hlo hhi
    omega

/-! ## What is transmitted -/

/-- The request shares a byte with a restricted region. -/
def SharesRestricted (d : DloadDebug) (base len : UInt64) : Prop :=
  ∃ r ∈ d.dloadRestrictedRegions, ∃ a, (bytesOf base len).Mem a ∧
    (bytesOf r.memBase r.length).Mem a

/-- No transmission added to the trace takes its data from an address of the range. -/
def SpareRange (base len : UInt64) (t : List Event) (s : Globals) : Prop :=
  ∃ evs, s.trace = evs ++ t ∧
    ∀ src n a, .tx (.memory src) n a ∈ evs → ¬ (bytesOf base len).Mem src.toNat

theorem SpareRange.refl (s : Globals) : SpareRange base len s.trace s :=
  ⟨[], rfl, fun _ _ _ h => by cases h⟩

/-- One more event that is no transmission from the range. -/
theorem SpareRange.cons {t : List Event} {s s' : Globals} {e : Event}
    (h : SpareRange base len t s) (hs : s'.trace = e :: s.trace)
    (he : ∀ src n a, e = .tx (.memory src) n a → ¬ (bytesOf base len).Mem src.toNat) :
    SpareRange base len t s' := by
  obtain ⟨evs, hevs, hall⟩ := h
  refine ⟨e :: evs, by rw [hs, hevs]; rfl, fun src n a hmem => ?_⟩
  rcases mem_cons.mp hmem with heq | hmem
  · exact he src n a heq.symm
  · exact hall src n a hmem

/-- A transmission from the range was made. -/
theorem not_spareRange {t : List Event} (told : List Event) {s : Globals}
    {src : UInt64} {n : UInt32}
    {a : TxAnswer} (hext : Extends (told ++ t) s) (htold : .tx (.memory src) n a ∈ told)
    (hsrc : (bytesOf base len).Mem src.toNat) : ¬ SpareRange base len t s := by
  rintro ⟨evs, hevs, hall⟩
  obtain ⟨later, hlater⟩ := hext
  rw [hevs, ← append_assoc] at hlater
  have := append_cancel_right hlater
  exact hall src n a (by rw [← this]; exact mem_append_right _ htold) hsrc

section
variable {si : Interface} {host : Host} {t : List Event}

theorem spare_handleTx {buf : TxBuf} {length : UInt32}
    (h : ∀ src, buf = .memory src → ¬ (bytesOf base len).Mem src.toNat) :
    Program.Keeps (SpareRange base len t) (handleTx host buf length) := by
  refine .of_state fun s hs => ?_
  have hsent : SpareRange base len t (s.sent host buf length) :=
    hs.cons rfl fun src n a heq => by
      cases heq
      exact h src rfl
  rcases handleTx_cases host s buf length with h | h | ⟨-, h⟩ <;> rw [h] <;> exact hsent

theorem spare_handleEndImageTx (status : Status) :
    Program.Keeps (SpareRange base len t) (handleEndImageTx si host status) := by
  refine .of_state fun s hs => ?_
  rcases handleEndImageTx_cases si host s status with h | ⟨u, h, hu⟩ | ⟨-, -, h⟩ <;> rw [h]
  · exact hs.cons rfl (by simp)
  · exact hs.cons hu (by simp)
  · show SpareRange base len t (ite _ _ _)
    split <;> exact hs.cons rfl (by simp)

theorem spare_reportError (status : Status) :
    Program.Keeps (SpareRange base len t) (reportError si host status) :=
  Program.Keeps.when fun _ => spare_handleEndImageTx status

theorem spare_transferPiece {tbl : MemDebugTbl}
    (h : ∀ addr n, ¬ (bytesOf base len).Mem (tbl.copyRestricted addr n).toNat) (p : Piece) :
    Program.Keeps (SpareRange base len t) (transferPiece si host tbl p) := by
  refine .ite (fun _ => .pure fun _ hs => hs) fun _ => ?_
  refine .bind (Q := fun buf s => SpareRange base len t s ∧
    ¬ (bytesOf base len).Mem buf.toNat) ?_ fun buf => ?_
  · exact .bind (.modify fun _ hs => hs.cons rfl (by simp)) fun _ => .pure fun _ hs => ⟨hs, h _ _⟩
  · refine ⟨fun s hs => ?_⟩
    refine Program.Triple.run (P := SpareRange base len t) ?_ s hs.1
    refine .bind (Program.Keeps.when fun _ => spare_handleEndImageTx _) fun _ => ?_
    refine .bind (spare_handleTx fun src heq => ?_) fun sent => ?_
    · cases heq
      exact hs.2
    · exact .ite (fun _ => .pure fun _ hs => hs) fun _ =>
        .ite (fun _ => .pure fun _ hs => hs) fun _ => .pure fun _ hs => hs

end

end

/-! ## Reads of restricted memory -/

section
variable {place : DumpPlace} {d : DloadDebug} {si : Interface} {g : Globals} {length : UInt32}

/-- The 64-bit request in the packet buffer is well-formed, and the region table accepts it. -/
def ReadAccepted64 (place : DumpPlace) (d : DloadDebug) (g : Globals) (length : UInt32) : Prop :=
  length = sizeofMemory64bitsRead ∧ length = g.saharaPacketBuffer.u32 4 ∧
    d.dloadMemDebugVerifyAddr place.table (g.saharaPacketBuffer.u64 8)
      (g.saharaPacketBuffer.u64 16) = true

/-- The start of an accepted request is one of its addresses. -/
theorem start_mem {table : TablePlace} {base len : UInt64}
    (h : d.dloadMemDebugVerifyAddr table base len = true) :
    (bytesOf base len).Mem base.toNat := by
  obtain ⟨hpos, -⟩ := DloadDebug.rangeIsInvalid_eq_false.mp (verifyAddr_iff.mp h).1
  exact ⟨Nat.le_refl _, Nat.lt_add_of_pos_right hpos⟩

/-- **An accepted 64-bit read spares its range exactly when it is restricted**, and refused. -/
theorem spare64_iff (hacc : ReadAccepted64 place d g length) :
    (∀ host, SpareRange (g.saharaPacketBuffer.u64 8) (g.saharaPacketBuffer.u64 16) g.trace
        (handleMemory64bitsRead si host (sblSaharaMemDebugTbl place d) length g).state) ↔
      d.dloadMemDebugIsRestrictedAddr (g.saharaPacketBuffer.u64 8)
        (g.saharaPacketBuffer.u64 16) = true := by
  obtain ⟨hlen, hfield, hverify⟩ := hacc
  have hok : ¬ (length ≠ sizeofMemory64bitsRead ∨ length ≠ g.saharaPacketBuffer.u32 4) := by
    rintro (h | h)
    · exact h hlen
    · exact h hfield
  cases hrestricted : d.dloadMemDebugIsRestrictedAddr (g.saharaPacketBuffer.u64 8)
    (g.saharaPacketBuffer.u64 16) with
  | true =>
    refine iff_of_true (fun host => ?_) rfl
    simp only [handleMemory64bitsRead, Program.get_bind, sblSaharaMemDebugTbl, if_neg hok, hverify,
      hrestricted, Bool.not_true, Bool.false_eq_true, if_false, if_true]
    exact (spare_reportError _).state (.refl g)
  | false =>
    refine iff_of_false (fun h => ?_) Bool.false_ne_true
    have hspare := h reportHost
    simp only [handleMemory64bitsRead, Program.get_bind, sblSaharaMemDebugTbl, if_neg hok, hverify,
      hrestricted, Bool.not_true, Bool.false_eq_true, if_false] at hspare
    refine not_spareRange [.tx (.memory (g.saharaPacketBuffer.u64 8))
      (g.saharaPacketBuffer.u64 16).toUInt32 ⟨true, 16, 0⟩] ?_ (mem_singleton.mpr rfl)
      (start_mem hverify) hspare
    exact Program.Keeps.after (handleTx_ret _ _ _ _ rfl rfl) (grows_reportError _)
      (suffix_refl _)

/-- The bytes of the 32-bit request in the packet buffer. -/
def Globals.readRange (g : Globals) : Span :=
  bytesOf (g.saharaPacketBuffer.u32 8).toUInt64 (g.saharaPacketBuffer.u32 12).toUInt64

/-- **An accepted 32-bit read spares its range exactly when it is restricted**, does not start at
address zero, which a failed copy is sent from, and does not hold the buffer it is copied to. -/
theorem spare32_iff (hacc : ReadAccepted place d g length) :
    (∀ host, SpareRange (g.saharaPacketBuffer.u32 8).toUInt64
        (g.saharaPacketBuffer.u32 12).toUInt64 g.trace
        (handleMemoryRead si host (sblSaharaMemDebugTbl place d) length g).state) ↔
      ReadRestricted d g ∧ g.saharaPacketBuffer.u32 8 ≠ 0 ∧
        ¬ g.readRange.Mem place.buffer.toNat := by
  have hstart : g.readRange.Mem (g.saharaPacketBuffer.u32 8).toUInt64.toNat := start_mem hacc.2.2
  constructor
  · intro h
    have hrestricted : ReadRestricted d g := by
      refine Decidable.byContradiction fun hdirect => ?_
      have hspare := h reportHost
      rw [handleMemoryRead_direct hacc hdirect] at hspare
      refine not_spareRange [.tx (.memory (g.saharaPacketBuffer.u32 8).toUInt64)
        (g.saharaPacketBuffer.u32 12) ⟨true, 16, 0⟩] ?_ (mem_singleton.mpr rfl) hstart hspare
      exact Program.Keeps.after (handleTx_ret _ _ _ _ rfl rfl) (grows_reportError _)
        (suffix_refl _)
    have hspare := h reportHost
    rw [handleMemoryRead_restricted hacc hrestricted] at hspare
    have hzero : g.saharaPacketBuffer.u32 8 ≠ 0 := by
      intro haddr
      refine not_spareRange
        (fallThrough si ⟨g.saharaPacketBuffer.u32 12, g.saharaPacketBuffer.u32 8⟩).reverse
        (transfer_atZero_logs hacc.left_ne_zero haddr) (mem_cons_self ..) ?_ hspare
      rw [haddr] at hstart
      exact hstart
    refine ⟨hrestricted, hzero, fun hbuf => ?_⟩
    have hpos : 0 < (g.saharaPacketBuffer.u32 8).toNat :=
      Nat.pos_of_ne_zero fun h => hzero (UInt32.toNat_inj.mp h)
    let p : Piece := ⟨g.saharaPacketBuffer.u32 12, g.saharaPacketBuffer.u32 8⟩
    rw [transferPiece_run (p := p) hacc.left_ne_zero hpos] at hspare
    refine not_spareRange [.tx (.memory place.buffer) p.size ⟨true, 16, 0⟩,
      .copyRestricted p.addr.toUInt64 p.size.toUInt64 place.buffer] ?_
      (mem_cons_self ..) hbuf hspare
    exact Program.Keeps.after (handleTx_ret _ _ _ _ rfl rfl)
      (.ite (fun _ => grows_reportError _) fun _ => grows_transfer _ _) (suffix_refl _)
  · rintro ⟨hrestricted, hzero, hbuf⟩ host
    rw [handleMemoryRead_restricted hacc hrestricted]
    refine Program.Keeps.state ?_ (.refl g)
    refine .bind (Program.Keeps.iter (spare_transferPiece fun addr n => ?_) _ _)
      fun _ => spare_reportError _
    show ¬ (bytesOf _ _).Mem (sblSaharaMemDebugCopyRestricted place addr n).toNat
    simp only [sblSaharaMemDebugCopyRestricted]
    split
    · exact hbuf
    · rintro ⟨hlo, -⟩
      refine hzero (UInt32.toNat_inj.mp ?_)
      simpa [bytesOf] using hlo

end

/-! ## Memory dumps are confined -/

/-- What is asked of the answers to accepted requests for memory that is partly restricted. -/
def SparesRestricted (place : DumpPlace) (d : DloadDebug) (si : Interface) (g : Globals)
    (length : UInt32) : Prop :=
  (ReadAccepted64 place d g length →
    SharesRestricted d (g.saharaPacketBuffer.u64 8) (g.saharaPacketBuffer.u64 16) →
    ∀ host, SpareRange (g.saharaPacketBuffer.u64 8) (g.saharaPacketBuffer.u64 16) g.trace
      (handleMemory64bitsRead si host (sblSaharaMemDebugTbl place d) length g).state) ∧
  (ReadAccepted place d g length →
    SharesRestricted d (g.saharaPacketBuffer.u32 8).toUInt64
      (g.saharaPacketBuffer.u32 12).toUInt64 →
    ∀ host, SpareRange (g.saharaPacketBuffer.u32 8).toUInt64 (g.saharaPacketBuffer.u32 12).toUInt64
      g.trace (handleMemoryRead si host (sblSaharaMemDebugTbl place d) length g).state)

/-- The request in the packet buffer lies inside one restricted region if it shares a byte with
any, and as a 32-bit request it neither starts at address zero nor holds the buffer. -/
def WhollyRestricted (place : DumpPlace) (d : DloadDebug) (g : Globals) (length : UInt32) : Prop :=
  (ReadAccepted64 place d g length →
    SharesRestricted d (g.saharaPacketBuffer.u64 8) (g.saharaPacketBuffer.u64 16) →
    d.dloadMemDebugIsRestrictedAddr (g.saharaPacketBuffer.u64 8)
      (g.saharaPacketBuffer.u64 16) = true) ∧
  (ReadAccepted place d g length →
    SharesRestricted d (g.saharaPacketBuffer.u32 8).toUInt64
      (g.saharaPacketBuffer.u32 12).toUInt64 →
    ReadRestricted d g ∧ g.saharaPacketBuffer.u32 8 ≠ 0 ∧
      ¬ g.readRange.Mem place.buffer.toNat)

/-- **Memory dumps are confined.** After any calls, every accepted request is valid and inside the
table or a registered region exactly when no empty region at address zero is registered, and what
shares a byte with a restricted region is not sent from where it lies exactly when it is wholly
restricted. -/
theorem dump_confinement (place : DumpPlace) {h : List TableEvent} {d : DloadDebug}
    (run : Run TableStep DloadDebug.boot h d) :
    ((∀ base len, d.dloadMemDebugVerifyAddr place.table base len = true →
        Confined place.table (registered h) base len) ↔
      ∀ r ∈ registered h, ¬ DloadDebug.IsZeroRegion r.1 r.2) ∧
    ∀ (si : Interface) (g : Globals) (length : UInt32),
      SparesRestricted place d si g length ↔ WhollyRestricted place d g length := by
  rw [← registered_of_run run]
  refine ⟨⟨fun hsound r hr hzero => ?_, fun hzero base len hverify => ?_⟩, fun si g length => ?_⟩
  · obtain ⟨p, hp, rfl⟩ := mem_map.mp hr
    obtain ⟨hverify, hout⟩ := not_confined_of_zero place.table hp hzero
    exact hout (hsound _ _ hverify)
  · exact confined_of_verifyAddr (fun p hp => hzero _ (mem_map_of_mem hp)) hverify
  · refine and_congr (forall_congr' fun hacc => ?_) (forall_congr' fun hacc => ?_)
    · exact imp_congr_right fun _ => spare64_iff hacc
    · exact imp_congr_right fun _ => spare32_iff hacc

/-- One page of DDR, half of it restricted. -/
def onePageCalls : List TableCall :=
  [.clearRegionTable, .lenInit, .addRegion .optionalDefSave 0x80000000 0x1000 [] [],
    .addRestrictedRegion 0x80000000 0x800]

/-- The history and the table after calls at boot. -/
def tableAfter (calls : List TableCall) : List TableEvent × DloadDebug :=
  execCalls ([], DloadDebug.boot) calls

/-- One page of DDR is registered: exactly what lies inside it, or inside the table, is
accepted. -/
theorem dump_confinement_one_page :
    registered (tableAfter onePageCalls).1 = [(0x80000000, 0x1000)] ∧
      ((∀ base len, (tableAfter onePageCalls).2.dloadMemDebugVerifyAddr lowPlace.table base len =
          true → Confined lowPlace.table (registered (tableAfter onePageCalls).1) base len) ↔
        ∀ r ∈ registered (tableAfter onePageCalls).1, ¬ DloadDebug.IsZeroRegion r.1 r.2) :=
  ⟨by decide, (dump_confinement lowPlace (execCalls_run .start onePageCalls)).1⟩

/-- Two bytes at address one, which are masked to nothing. -/
def twoByteCalls : List TableCall := [.addRegion .optionalDefSave 1 2 [] []]

/-- One page at 0x1000, half of it restricted. -/
def halfPageCalls : List TableCall :=
  [.addRegion .optionalDefSave 0x1000 0x1000 [] [], .addRestrictedRegion 0x1000 0x800]

/-- A request for the page at 0x1000 is in the packet buffer. -/
def pageRequest : Globals :=
  { Globals.boot with
    saharaPacketBuffer := ((Memory.zero.put 4 4 16).put 8 4 0x1000).put 12 4 0x1000 }

/-- With two bytes at address one registered, a read of DDR is accepted. And of a page of which half
is restricted, the whole is accepted and sent from where it lies. -/
theorem dump_not_confined :
    (Run TableStep DloadDebug.boot (tableAfter twoByteCalls).1 (tableAfter twoByteCalls).2 ∧
      (tableAfter twoByteCalls).2.dloadMemDebugVerifyAddr lowPlace.table 0x80000000 0x1000 = true ∧
      ¬ Confined lowPlace.table (registered (tableAfter twoByteCalls).1) 0x80000000 0x1000) ∧
    (Run TableStep DloadDebug.boot (tableAfter halfPageCalls).1 (tableAfter halfPageCalls).2 ∧
      ReadAccepted lowPlace (tableAfter halfPageCalls).2 pageRequest 16 ∧
      SharesRestricted (tableAfter halfPageCalls).2 0x1000 0x1000 ∧
      (handleMemoryRead (ramDumpInterface lowPlace (tableAfter halfPageCalls).2) reportHost
          (sblSaharaMemDebugTbl lowPlace (tableAfter halfPageCalls).2) 16 pageRequest).state.trace =
        [.tx (.endImageTx 0 .invalidTxLength) 16 ⟨true, 16, 0⟩,
          .tx (.memory 0x1000) 0x1000 ⟨true, 16, 0⟩]) := by
  refine ⟨⟨execCalls_run .start _, by decide, ?_⟩, execCalls_run .start _, ?_, ?_, ?_⟩
  · rintro ⟨-, -, hin | ⟨r, hr, hin⟩⟩
    · exact absurd hin (by decide)
    · have hall : registered (tableAfter twoByteCalls).1 = [(0, 0)] := by decide
      rw [hall] at hr
      rw [mem_singleton.mp hr] at hin
      exact absurd hin (by decide)
  · decide +kernel
  · exact ⟨⟨0x1000, 0x800⟩, by decide, 0x1000, by decide, by decide⟩
  · decide +kernel

end Sahara
