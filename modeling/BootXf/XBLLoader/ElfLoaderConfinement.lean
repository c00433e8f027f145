import BootXf.XBLLoader.ElfLoaderChunks
import BootXf.XBLLoader.WhitelistHistory

/-!
# Where the ELF loader writes

Every flash read of the loader is checked against the active image whitelist, and the plain load
path checks the whole range of a segment before it reads or zero-fills anything. The chunked path
checks each chunk it reads, but nothing checks the range it zero-fills.

`bootLoadElfImage_confined_iff` is the exact account for a whole image: everything written lies in
the whitelist if and only if, on the chunked path, each zero-fill that is reached does.
-/

namespace XBLLoader

open Lib Elf List Program

/-- The address lies in one entry of the active image whitelist. -/
def InImageWhitelist (env : LoaderEnv) (a : UInt64) : Prop :=
  ∃ e ∈ env.whitelist.currImageWhitelstTbl.valid, e.span.Mem a.toNat

/-- Everything written so far lies in the active image whitelist. -/
def Confined (env : LoaderEnv) (s : LoaderState) : Prop :=
  ∀ b ∈ s.written, ∀ a, b.Mem a → InImageWhitelist env a

section
variable {env : LoaderEnv} {s : LoaderState} {b : Block}

theorem Confined.store {f : Nat → UInt8} (h : Confined env s)
    (hb : ∀ a, b.Mem a → InImageWhitelist env a) : Confined env (s.store b f) := by
  intro b' hb' a ha
  rcases mem_cons.mp hb' with rfl | hb'
  · exact hb a ha
  · exact h b' hb' a ha

theorem not_confined_store (b : Block) (f : Nat → UInt8)
    (h : ¬ Confined env s) : ¬ Confined env (s.store b f) :=
  fun hc => h fun b' hb' => hc b' (mem_cons_of_mem _ hb')

/-- A range the check allows lies in one entry, and does not wrap. -/
theorem exists_entry_of_check (hwf : env.whitelist.currImageWhitelstTbl.WF) {dest size : UInt64}
    (h : bootWhitelistAddressRangeCheck env.whitelist dest size .imageBodyType = true) :
    dest.toNat + size.toNat < 2 ^ 64 ∧ ∃ e ∈ env.whitelist.currImageWhitelstTbl.valid,
      Span.Within ⟨dest.toNat, size.toNat⟩ e.span := by
  rw [bootWhitelistAddressRangeCheck_eq] at h
  obtain ⟨-, hwrap, hentry⟩ := (checkRangeAgainstWhtlst_iff hwf dest size).mp h
  exact ⟨hwrap, hentry⟩

/-- The addresses of a block that begins in a range which lies in an entry, and does not reach
past it. -/
theorem mem_entry_of_within {e : WhitelstTblEntry} {dest : UInt64} {size : Nat}
    (hwithin : Span.Within ⟨dest.toNat, size⟩ e.span) (hwrap : dest.toNat + size < 2 ^ 64)
    (hb : b.span.Within ⟨dest.toNat, size⟩) {a : UInt64} (ha : b.Mem a) :
    e.span.Mem a.toNat := by
  have hspan : b.start.toNat + b.len ≤ dest.toNat + size := hb.2
  exact hwithin.mem (hb.mem ((Block.mem_iff_span (by omega)).mp ha))

/-- What the loop of chunks keeps: whatever does not depend on more than what is written, and
survives stores into the whitelist. -/
structure StoreStable (env : LoaderEnv) (I : LoaderState → Prop) : Prop where
  frame : ∀ {s t : LoaderState}, t.written = s.written → I s → I t
  store : ∀ {s : LoaderState} {b : Block} {f : Nat → UInt8},
    (∀ a, b.Mem a → InImageWhitelist env a) → I s → I (s.store b f)

theorem StoreStable.confined : StoreStable env (Confined env) where
  frame h hc := by rw [Confined, h]; exact hc
  store hb hc := hc.store hb

theorem StoreStable.not_confined : StoreStable env (fun s => ¬ Confined env s) where
  frame h hc := by rw [Confined, h]; exact hc
  store _ hc := not_confined_store _ _ hc

variable {I : LoaderState → Prop}

/-- A flash read through the whitelist stores inside of it. -/
theorem StoreStable.keeps_read (hwf : env.whitelist.currImageWhitelstTbl.WF)
    (hI : StoreStable env I) (dest : UInt64) (off size : UInt32) :
    Program.Keeps I (bootFlashTransRead env dest off size .imageBodyType) := by
  refine Program.Triple.ite (fun hcheck => ?_) fun _ => Program.Triple.pure fun _ hs => hs
  obtain ⟨hwrap, e, he, hwithin⟩ := exists_entry_of_check hwf hcheck
  have hle := env.transIf.stored_le off size
  rw [UInt32.toNat_toUInt64] at hwrap hwithin
  refine Program.Triple.bind (Q := fun _ => I) (Program.Triple.modify fun s hs => ?_)
    fun _ => Program.Triple.pure fun _ hs => hs
  refine hI.store (fun a ha => ⟨e, he, ?_⟩) hs
  exact mem_entry_of_within hwithin hwrap ⟨Nat.le_refl _, Nat.add_le_add_left hle _⟩ ha

theorem StoreStable.keeps_modify (hI : StoreStable env I) {f : LoaderState → LoaderState}
    (hf : ∀ s, (f s).written = s.written) : Program.Keeps I (modify f) :=
  Program.Triple.modify fun s hs => hI.frame (hf s) hs

theorem keeps_verify (ok : Bool) : Program.Keeps I (verify ok) :=
  Program.Triple.verify (fun _ _ hs => hs) (fun _ _ hs => hs)

theorem StoreStable.keeps_setPmiCodeLength (hI : StoreStable env I) :
    Program.Keeps I (setPmiCodeLengthUnlessAuth env) :=
  hI.keeps_modify fun s => by split <;> rfl

/-- One round of the chunk loop. -/
theorem StoreStable.keeps_loadChunk (hwf : env.whitelist.currImageWhitelstTbl.WF)
    (hI : StoreStable env I) (c : ChunkCursor) : Program.Keeps I (loadChunk env c) := by
  refine Program.Triple.ite (fun _ => Program.Triple.pure fun _ hs => hs) fun _ => ?_
  refine Program.Triple.bind (hI.keeps_read hwf _ _ _) fun success => ?_
  refine Program.Triple.bind (keeps_verify success) fun _ => ?_
  refine Program.Triple.bind (Q := fun _ => I) (Program.Triple.get fun _ hs => hs) fun s => ?_
  refine Program.Triple.bind (keeps_verify _) fun _ => ?_
  refine Program.Triple.bind (hI.keeps_modify fun _ => rfl) fun _ => ?_
  refine Program.Triple.bind hI.keeps_setPmiCodeLength fun _ => ?_
  exact Program.Triple.pure fun _ hs => hs

/-- The file part of the chunked path. -/
theorem StoreStable.keeps_loadFileInChunks (hwf : env.whitelist.currImageWhitelstTbl.WF)
    (hI : StoreStable env I) (C : UInt32) (i : Nat) :
    Program.Keeps I (loadFileInChunks env C i) := by
  refine Program.Triple.ite (fun _ => ?_) fun _ => Program.Triple.pure fun _ hs => hs
  exact Program.Keeps.iter (hI.keeps_loadChunk hwf) _ _

end

/-! ## The chunked path -/

section
variable (env : LoaderEnv) (C : UInt32) (i : Nat)

/-- The block the chunked path zero-fills behind the file bytes. -/
def zeroBlock : Block :=
  ⟨phdrPaddr env i + phdrFilesz env i, (phdrMemszAsElf64 env i - phdrFilesz env i).toUInt32.toNat⟩

/-- There is something to zero-fill: the size in memory, as the chunked path reads it, exceeds the
file size, and the end of the file bytes does not wrap. -/
def HasZeroFill : Prop :=
  phdrMemszAsElf64 env i > phdrFilesz env i ∧
    phdrPaddr env i + phdrFilesz env i ≥ phdrPaddr env i

/-- **The zero-fill of a segment is allowed** from a state: it is not reached, because the segment
is not loaded or its file part enters the error handler, or it lies in the image whitelist. -/
def ZeroFillAllowed (s : LoaderState) : Prop :=
  env.isValidSegment i = true → HasZeroFill env i →
    FilePartLoads env C i s.totalElfSegmentsSize →
      ∀ a, (zeroBlock env i).Mem a → InImageWhitelist env a

end

section
variable {env : LoaderEnv} {C : UInt32} {i : Nat} {I : LoaderState → Prop}

theorem bootElfLoadSegInChunks_of_hasZeroFill (hvalid : env.isValidSegment i = true)
    (h : HasZeroFill env i) :
    bootElfLoadSegInChunks env C i =
      (loadFileInChunks env C i >>= fun _ => zeroFillInChunks env i) := by
  rw [bootElfLoadSegInChunks, if_pos hvalid]
  exact congrArg _ (funext fun _ => if_pos h)

theorem bootElfLoadSegInChunks_of_not_hasZeroFill (hvalid : env.isValidSegment i = true)
    (h : ¬ HasZeroFill env i) :
    bootElfLoadSegInChunks env C i = (loadFileInChunks env C i >>= fun _ => pure ()) := by
  rw [bootElfLoadSegInChunks, if_pos hvalid]
  exact congrArg _ (funext fun _ => if_neg h)

/-- The zero-fill writes its block first, whatever happens to the total afterwards. -/
theorem zeroFillInChunks_written (s : LoaderState) :
    (zeroFillInChunks env i s).state.written = zeroBlock env i :: s.written := by
  simp only [zeroFillInChunks, qmemsetZero, modify_bind, get_bind,
    verify, setPmiCodeLengthUnlessAuth]
  split
  · rw [pure_bind, modify_bind, modify_run, Outcome.state_ret]
    split <;> rfl
  · rfl

/-- The zero-fill keeps what survives the store of its block. -/
theorem StoreStable.keeps_zeroFill (hI : StoreStable env I)
    (hzero : ∀ {s : LoaderState}, I s → I (s.store (zeroBlock env i) fun _ => 0)) :
    Program.Keeps I (zeroFillInChunks env i) := by
  refine Program.Triple.bind (Q := fun _ => I) (Program.Triple.modify fun _ hs => hzero hs)
    fun _ => ?_
  refine Program.Triple.bind (Q := fun _ => I) (Program.Triple.get fun _ hs => hs) fun s => ?_
  refine Program.Triple.bind (keeps_verify _) fun _ => ?_
  refine Program.Triple.bind (hI.keeps_modify fun _ => rfl) fun _ => ?_
  exact hI.keeps_setPmiCodeLength

/-- The chunked load of a segment keeps what survives the store of its zero-fill. -/
theorem StoreStable.keeps_segInChunks (hwf : env.whitelist.currImageWhitelstTbl.WF)
    (hI : StoreStable env I)
    (hzero : ∀ {s : LoaderState}, I s → I (s.store (zeroBlock env i) fun _ => 0)) :
    Program.Keeps I (bootElfLoadSegInChunks env C i) := by
  refine Program.Triple.ite (fun _ => ?_) fun _ => Program.Triple.pure fun _ hs => hs
  refine Program.Triple.bind (hI.keeps_loadFileInChunks hwf C i) fun _ => ?_
  exact Program.Triple.ite (fun _ => hI.keeps_zeroFill hzero)
    fun _ => Program.Triple.pure fun _ hs => hs

/-- **One segment on the chunked path**: what it writes lies in the whitelist exactly when its
zero-fill is allowed. -/
theorem segInChunks_confined_iff (hwf : env.whitelist.currImageWhitelstTbl.WF)
    (hC : 0 < C.toNat) {s : LoaderState} (hs : Confined env s) :
    Confined env (bootElfLoadSegInChunks env C i s).state ↔ ZeroFillAllowed env C i s := by
  cases hvalid : env.isValidSegment i with
  | false =>
    have hrun : bootElfLoadSegInChunks env C i s = .ret () s := by
      rw [bootElfLoadSegInChunks, if_neg (by simp [hvalid])]; rfl
    rw [hrun]
    exact ⟨fun _ hv => absurd (hvalid.symm.trans hv) Bool.false_ne_true, fun _ => hs⟩
  | true =>
    have hfile := (StoreStable.confined.keeps_loadFileInChunks hwf C i).state hs
    by_cases hfill : HasZeroFill env i
    · rw [bootElfLoadSegInChunks_of_hasZeroFill hvalid hfill]
      by_cases hloads : FilePartLoads env C i s.totalElfSegmentsSize
      · obtain ⟨s', hs', -⟩ := loadFileInChunks_ret hC hloads
        rw [hs', Outcome.state_ret] at hfile
        rw [bind_ret hs', Confined, zeroFillInChunks_written]
        constructor
        · intro h _ _ _
          exact h _ mem_cons_self
        · intro h b hb a ha
          rcases mem_cons.mp hb with rfl | hb
          · exact h hvalid hfill hloads a ha
          · exact hfile b hb a ha
      · obtain ⟨s', hs'⟩ := loadFileInChunks_halt hC hloads
        rw [hs'] at hfile
        rw [bind_halt hs']
        exact ⟨fun _ _ _ hl => absurd hl hloads, fun _ => hfile⟩
    · rw [bootElfLoadSegInChunks_of_not_hasZeroFill hvalid hfill, bind_run]
      refine ⟨fun _ _ hf => absurd hf hfill, fun _ => ?_⟩
      cases hrun : loadFileInChunks env C i s <;> rw [hrun] at hfile <;> exact hfile

/-- The hash check of a loaded segment writes nothing. -/
theorem StoreStable.keeps_verifyLoadedSegment (hI : StoreStable env I) (i : Nat) :
    Program.Keeps I (verifyLoadedSegment env i) := by
  refine Program.Triple.bind (Q := fun _ => I) (Program.Triple.get fun _ hs => hs) fun s => ?_
  refine Program.Triple.bind (keeps_verify _) fun _ => ?_
  exact hI.keeps_modify fun s => by split <;> rfl

end

/-! ## The plain path -/

/-- Everything written since `w₀` lies in the entry. -/
def WroteIn (e : WhitelstTblEntry) (w₀ : List Block) (s : LoaderState) : Prop :=
  ∃ new, s.written = new ++ w₀ ∧ ∀ b ∈ new, ∀ a, b.Mem a → e.span.Mem a.toNat

section
variable {env : LoaderEnv} {i : Nat} {e : WhitelstTblEntry} {w₀ : List Block}

theorem WroteIn.store {s : LoaderState} {b : Block}
    {f : Nat → UInt8} (h : WroteIn e w₀ s) (hb : ∀ a, b.Mem a → e.span.Mem a.toNat) :
    WroteIn e w₀ (s.store b f) := by
  obtain ⟨new, hnew, hin⟩ := h
  refine ⟨b :: new, by rw [LoaderState.store, hnew]; rfl, fun b' hb' => ?_⟩
  rcases mem_cons.mp hb' with rfl | hb'
  · exact hb
  · exact hin b' hb'

/-- A valid segment of the plain path whose range passes the check: what is then read and
zero-filled lies in the entry that contains the range. -/
theorem bootElfLoadSegGeneric_keeps {dest : UInt64}
    (hwithin : Span.Within ⟨dest.toNat, (phdrMemsz env i).toNat⟩ e.span)
    (hwrap : dest.toNat + (phdrMemsz env i).toNat < 2 ^ 64) :
    Program.Keeps (WroteIn e w₀) (bootElfLoadSegGeneric env i dest .imageBodyType) := by
  refine Program.Triple.bind (Q := fun _ => WroteIn e w₀) ?_ fun _ => ?_
  · exact Program.Triple.ite (fun _ => keeps_verify _) fun _ => Program.Triple.pure fun _ hs => hs
  refine Program.Triple.bind (Q := fun _ => WroteIn e w₀) ?_ fun _ => ?_
  · refine Program.Triple.ite (fun hfile => ?_) fun _ => Program.Triple.pure fun _ hs => hs
    refine Program.Triple.bind (Q := fun _ => WroteIn e w₀) ?_ fun success => keeps_verify _
    refine Program.Triple.ite (fun _ => ?_) fun _ => Program.Triple.pure fun _ hs => hs
    refine Program.Triple.bind (Q := fun _ => WroteIn e w₀)
      (Program.Triple.modify fun s hs => hs.store fun a ha => ?_)
      fun _ => Program.Triple.pure fun _ hs => hs
    -- the read is asked for the low half of the file size, at most the size in memory
    have hle := env.transIf.stored_le (phdrOffset env i).toUInt32 (phdrFilesz env i).toUInt32
    have hmod : (phdrFilesz env i).toUInt32.toNat ≤ (phdrFilesz env i).toNat := by
      rw [UInt64.toNat_toUInt32]; exact Nat.mod_le _ _
    have hsize : (phdrFilesz env i).toNat ≤ (phdrMemsz env i).toNat :=
      UInt64.le_iff_toNat_le.mp hfile.2.2
    refine mem_entry_of_within hwithin hwrap ⟨Nat.le_refl _, ?_⟩ ha
    exact Nat.add_le_add_left (Nat.le_trans hle (Nat.le_trans hmod hsize)) _
  · refine Program.Triple.ite (fun hzero => ?_) fun _ => Program.Triple.pure fun _ hs => hs
    refine Program.Triple.modify fun s hs => hs.store fun a ha => ?_
    -- the zero-fill is asked for the low half of what follows the file bytes
    have hsize := UInt64.lt_iff_toNat_lt.mp hzero.1
    have hsub : (phdrMemsz env i - phdrFilesz env i).toNat =
        (phdrMemsz env i).toNat - (phdrFilesz env i).toNat :=
      UInt64.toNat_sub_of_le _ _ (UInt64.le_of_lt hzero.1)
    have hdest : (dest + phdrFilesz env i).toNat = dest.toNat + (phdrFilesz env i).toNat :=
      uint64_toNat_add (by omega)
    have hmod : (phdrMemsz env i - phdrFilesz env i).toUInt32.toNat ≤
        (phdrMemsz env i).toNat - (phdrFilesz env i).toNat := by
      rw [UInt64.toNat_toUInt32, hsub]; exact Nat.mod_le _ _
    refine mem_entry_of_within hwithin hwrap ⟨?_, ?_⟩ ha
    · simp only [Block.span, hdest]; omega
    · simp only [Block.span, hdest]; omega

/-- **What the plain load of a segment can do**: nothing, enter the error handler before anything
is written, or write within the one entry that contains the whole range of the segment. -/
theorem bootElfLoadSeg_cases (hwf : env.whitelist.currImageWhitelstTbl.WF) (i : Nat)
    (s : LoaderState) :
    bootElfLoadSeg env i s = .ret () s ∨ bootElfLoadSeg env i s = .halt s ∨
      ∃ e ∈ env.whitelist.currImageWhitelstTbl.valid,
        Span.Within ⟨(phdrPaddr env i).toNat, (phdrMemsz env i).toNat⟩ e.span ∧
          WroteIn e s.written (bootElfLoadSeg env i s).state := by
  cases hvalid : env.isValidSegment i with
  | false =>
    left
    rw [bootElfLoadSeg, if_neg (by simp [hvalid])]
    rfl
  | true =>
    rw [bootElfLoadSeg, if_pos hvalid]
    by_cases hmemsz : phdrMemsz env i = 0
    · left
      simp [bootElfLoadSegGeneric, verifySegmentRange, readSegment, zeroFillSegment, hmemsz]
    · cases hcheck : bootWhitelistAddressRangeCheck env.whitelist (phdrPaddr env i)
          (phdrMemsz env i) .imageBodyType with
      | false =>
        right; left
        simp [bootElfLoadSegGeneric, verifySegmentRange, hmemsz, hcheck]
      | true =>
        right; right
        obtain ⟨hwrap, e, he, hwithin⟩ := exists_entry_of_check hwf hcheck
        exact ⟨e, he, hwithin,
          (bootElfLoadSegGeneric_keeps hwithin hwrap).state ⟨[], rfl, by simp⟩⟩

/-- The plain load of a segment writes inside the whitelist. -/
theorem keeps_bootElfLoadSeg (hwf : env.whitelist.currImageWhitelstTbl.WF) (i : Nat) :
    Program.Keeps (Confined env) (bootElfLoadSeg env i) := by
  refine Program.Keeps.of_state fun s hs => ?_
  rcases bootElfLoadSeg_cases hwf i s with h | h | ⟨e, he, -, new, hnew, hin⟩
  · rw [h]; exact hs
  · rw [h]; exact hs
  · intro b hb a ha
    rw [hnew] at hb
    rcases mem_append.mp hb with hb | hb
    · exact ⟨e, he, hin b hb a ha⟩
    · exact hs b hb a ha

/-- The segment filter writes nothing. -/
theorem keeps_bootElfSegmentInWhitelist (fuel : Nat) (i : Nat) (wl : Nat → WhitelstTblEntry)
    {I : LoaderState → Prop} : Program.Keeps I (bootElfSegmentInWhitelist env fuel i wl) := by
  refine Program.Triple.bind (keeps_verify _) fun _ => ?_
  refine Program.Keeps.iter (fun n => ?_) fuel 0
  refine Program.Triple.ite (fun _ => ?_) fun _ => Program.Triple.pure fun _ hs => hs
  refine Program.Triple.bind (keeps_verify _) fun _ => ?_
  exact Program.Triple.ite (fun _ => Program.Triple.pure fun _ hs => hs)
    fun _ => Program.Triple.pure fun _ hs => hs

/-- **The plain image loop writes inside the whitelist**, whatever segments it is told to load. -/
theorem keeps_bootElfLoadAndVerifyImage (hwf : env.whitelist.currImageWhitelstTbl.WF) (fuel : Nat)
    (wl : Option (Nat → WhitelstTblEntry)) :
    Program.Keeps (Confined env) (bootElfLoadAndVerifyImage env fuel wl) := by
  refine Program.Triple.forUpTo (fun _ => Confined env) fun i _ => ?_
  cases wl with
  | none => exact keeps_bootElfLoadSeg hwf i
  | some wl =>
    refine Program.Triple.bind (keeps_bootElfSegmentInWhitelist fuel i wl) fun inside => ?_
    exact Program.Triple.ite (fun _ => keeps_bootElfLoadSeg hwf i)
      fun _ => Program.Triple.pure fun _ hs => hs

end

/-! ## The chunked image loop -/

section
variable {env : LoaderEnv} {s : LoaderState}

/-- **What a round of the chunked image loop needs**: the zero-fill of its segment is allowed. The
hash segment is not loaded. -/
def RoundAllowed (env : LoaderEnv) (i : Nat) (s : LoaderState) : Prop :=
  miPbtSegmentTypeValue (phdrFlags env i) ≠ miPbtHashSegment → ZeroFillAllowed env maxChunkSize i s

/-- The hash check of a loaded segment neither mends nor breaks the confinement. -/
theorem verifyLoadedSegment_confined_iff (i : Nat) (s : LoaderState) :
    Confined env (verifyLoadedSegment env i s).state ↔ Confined env s := by
  constructor
  · intro h
    refine Classical.byContradiction fun hnot => ?_
    exact (StoreStable.not_confined.keeps_verifyLoadedSegment i).state hnot h
  · exact fun h => (StoreStable.confined.keeps_verifyLoadedSegment i).state h

theorem loadImageSegmentInChunks_confined_iff (hwf : env.whitelist.currImageWhitelstTbl.WF)
    (i : Nat) (hs : Confined env s) :
    Confined env (loadImageSegmentInChunks env i s).state ↔ RoundAllowed env i s := by
  unfold loadImageSegmentInChunks RoundAllowed
  split
  · rename_i htype
    have hseg := segInChunks_confined_iff (C := maxChunkSize) (i := i) hwf (by decide) hs
    rw [bind_run]
    cases hrun : bootElfLoadSegInChunks env maxChunkSize i s with
    | ret a t =>
      rw [hrun] at hseg
      exact (verifyLoadedSegment_confined_iff i t).trans
        (hseg.trans ⟨fun h _ => h, fun h => h htype⟩)
    | halt t => rw [hrun] at hseg; exact hseg.trans ⟨fun h _ => h, fun h => h htype⟩
    | spin t => rw [hrun] at hseg; exact hseg.trans ⟨fun h _ => h, fun h => h htype⟩
  · rename_i htype
    exact ⟨fun _ h => absurd h htype, fun _ => (verifyLoadedSegment_confined_iff i s).mpr hs⟩

/-- Once something outside the whitelist is written, it stays written. -/
theorem keeps_not_confined (hwf : env.whitelist.currImageWhitelstTbl.WF) (i : Nat) :
    Program.Keeps (fun s => ¬ Confined env s) (loadImageSegmentInChunks env i) := by
  have hseg := StoreStable.not_confined.keeps_segInChunks (C := maxChunkSize) (i := i) hwf
    fun hs => not_confined_store _ _ hs
  have hverify : Program.Keeps (fun s => ¬ Confined env s) (verifyLoadedSegment env i) :=
    StoreStable.not_confined.keeps_verifyLoadedSegment i
  exact Program.Triple.ite (fun _ => hseg.bind fun _ => hverify) fun _ => hverify

/-- **The chunked image loop**: what it writes lies in the whitelist exactly when every round it
reaches is allowed. -/
theorem imageInChunks_confined_iff (hwf : env.whitelist.currImageWhitelstTbl.WF)
    (hs : Confined env s) :
    Confined env (bootElfLoadAndVerifyImageInChunks env s).state ↔
      ∀ i, i < env.phdrNum.toNat → ∀ t, loadSegmentsInChunks env i s = .ret () t →
        RoundAllowed env i t := by
  constructor
  · intro hend i hi t hrun
    have hafter (h : ¬ Confined env (loadImageSegmentInChunks env i t).state) : False :=
      Program.Keeps.forUpTo_after (keeps_not_confined hwf) hrun h hi hend
    have ht : Confined env t := Classical.byContradiction fun h =>
      hafter ((keeps_not_confined hwf i).state h)
    refine Classical.byContradiction fun hnot => hafter fun h => hnot ?_
    exact (loadImageSegmentInChunks_confined_iff hwf i ht).mp h
  · intro hall
    -- the loop invariant says which state the rounds so far have led to
    have hloop : Program.Triple
        (fun t => Confined env t ∧ loadSegmentsInChunks env 0 s = .ret () t)
        (bootElfLoadAndVerifyImageInChunks env)
        (fun _ t => Confined env t ∧ loadSegmentsInChunks env env.phdrNum.toNat s = .ret () t)
        (Confined env) := by
      refine Program.Triple.forUpTo
        (fun i t => Confined env t ∧ loadSegmentsInChunks env i s = .ret () t) fun i hi => ⟨?_⟩
      rintro t ⟨ht, hrun⟩
      have hround := (loadImageSegmentInChunks_confined_iff hwf i ht).mpr (hall i hi t hrun)
      cases hstep : loadImageSegmentInChunks env i t with
      | ret a u =>
        rw [hstep] at hround
        exact ⟨hround, (bind_ret hrun).trans hstep⟩
      | halt u => rw [hstep] at hround; exact hround
      | spin u => rw [hstep] at hround; exact hround
    have hend := hloop.run s ⟨hs, rfl⟩
    cases hlast : bootElfLoadAndVerifyImageInChunks env s with
    | ret a u => rw [hlast] at hend; exact hend.1
    | halt u => rw [hlast] at hend; exact hend
    | spin u => rw [hlast] at hend; exact hend

/-- A chunked load that returns has read every file byte to an address of the whitelist. -/
theorem fileBytes_inImageWhitelist (hwf : env.whitelist.currImageWhitelstTbl.WF) {C : UInt32}
    (hC : 0 < C.toNat) {i : Nat} {s s' : LoaderState} (hvalid : env.isValidSegment i = true)
    (hfile : HasFilePart env i) (hrun : bootElfLoadSegInChunks env C i s = .ret () s')
    {a : UInt64} (ha : (Block.mk (phdrPaddr env i) (phdrFilesz env i).toNat).Mem a) :
    InImageWhitelist env a := by
  have hloads : FilePartLoads env C i s.totalElfSegmentsSize := by
    refine Classical.byContradiction fun hnot => ?_
    obtain ⟨t, ht⟩ := loadFileInChunks_halt hC hnot
    rw [bootElfLoadSegInChunks, if_pos hvalid, bind_halt ht] at hrun
    cases hrun
  -- the byte belongs to the chunk of its distance from the start
  have ha' : (a - phdrPaddr env i).toNat < (phdrFilesz env i).toNat := ha
  generalize hd : (a - phdrPaddr env i).toNat = d at ha'
  have hmod := Nat.mod_lt d hC
  have hdiv := Nat.div_add_mod' d C.toNat
  have hok := hloads hfile (d / C.toNat) (by omega)
  obtain ⟨hwrap, e, he, hwithin⟩ := exists_entry_of_check hwf hok.allowed
  have hlen : (UInt64.ofNat (chunkLen env C i (d / C.toNat))).toNat =
      chunkLen env C i (d / C.toNat) := by
    rw [← toUInt64_ofNat_chunkLen, UInt32.toNat_toUInt64, toNat_ofNat_chunkLen]
  rw [hlen] at hwrap hwithin
  refine ⟨e, he, mem_entry_of_within (b := ⟨chunkDest env C i (d / C.toNat),
    chunkLen env C i (d / C.toNat)⟩) hwithin hwrap ⟨Nat.le_refl _, Nat.le_refl _⟩ ?_⟩
  have hdist : a - chunkDest env C i (d / C.toNat) =
      (a - phdrPaddr env i) - .ofNat (d / C.toNat * C.toNat) := by
    rw [chunkDest, uint64_sub_add]
  have hn := (phdrFilesz env i).toNat_lt
  have hoff : (UInt64.ofNat (d / C.toNat * C.toNat)).toNat = d / C.toNat * C.toNat := by
    rw [UInt64.toNat_ofNat', Nat.mod_eq_of_lt (by omega)]
  simp only [Block.Mem, hdist]
  rw [UInt64.toNat_sub_of_le _ _ (by rw [UInt64.le_iff_toNat_le, hoff, hd]; omega), hoff, hd,
    chunkLen]
  omega

end

/-! ## The confinement of an image load -/

/-- **Where an image load writes.** With a whitelist that calls of the whitelist module led to, and
whatever the image's headers, the flash device and the secure world say: everything an image load
writes lies in the active image whitelist if and only if, on the chunked path, every round that is
reached has its zero-fill allowed; a segment of the plain path that fits no entry enters the error
handler before anything is written; and a segment of the chunked path only returns with all of its
file bytes in the whitelist. -/
theorem bootLoadElfImage_confined_iff {env : LoaderEnv} {h : List (WhitelistCall × Bool)}
    (hrun : Run WhitelistStep .init h env.whitelist) :
    (∀ fuel wl s, Confined env s →
      (Confined env (bootLoadElfImage env fuel wl s).state ↔
        (env.elfSsaEnabled = true → ∀ i, i < env.phdrNum.toNat → ∀ t,
          loadSegmentsInChunks env i { s with totalElfSegmentsSize := 0 } = .ret () t →
            RoundAllowed env i t))) ∧
    (∀ i s, env.isValidSegment i = true → phdrMemsz env i ≠ 0 →
      (¬ ∃ e ∈ env.whitelist.currImageWhitelstTbl.valid,
        Span.Within ⟨(phdrPaddr env i).toNat, (phdrMemsz env i).toNat⟩ e.span) →
      bootElfLoadSeg env i s = .halt s) ∧
    (∀ i s s', env.isValidSegment i = true → HasFilePart env i →
      bootElfLoadSegInChunks env maxChunkSize i s = .ret () s' →
      ∀ a, (Block.mk (phdrPaddr env i) (phdrFilesz env i).toNat).Mem a →
        InImageWhitelist env a) := by
  have hwf : env.whitelist.currImageWhitelstTbl.WF := (whitelist_history hrun .imageBodyType).wf
  refine ⟨fun fuel wl s hs => ?_, fun i s hvalid hmemsz hfits => ?_,
    fun i s s' hvalid hfile hrun a ha => ?_⟩
  · cases hssa : env.elfSsaEnabled with
    | true =>
      have hload : bootLoadElfImage env fuel wl s =
          bootElfLoadAndVerifyImageInChunks env { s with totalElfSegmentsSize := 0 } := by
        rw [bootLoadElfImage, if_pos hssa]
        rfl
      have himage := imageInChunks_confined_iff hwf
        (s := { s with totalElfSegmentsSize := 0 }) (StoreStable.confined.frame rfl hs)
      rw [hload]
      exact himage.trans ⟨fun h _ => h, fun h => h rfl⟩
    | false =>
      rw [bootLoadElfImage, if_neg (by simp [hssa])]
      exact ⟨fun _ h => absurd h Bool.false_ne_true,
        fun _ => (keeps_bootElfLoadAndVerifyImage hwf fuel wl).state hs⟩
  · have hcheck : bootWhitelistAddressRangeCheck env.whitelist (phdrPaddr env i)
        (phdrMemsz env i) .imageBodyType = false := by
      cases hc : bootWhitelistAddressRangeCheck env.whitelist (phdrPaddr env i)
          (phdrMemsz env i) .imageBodyType with
      | false => rfl
      | true => exact absurd (exists_entry_of_check hwf hc).2 hfits
    simp [bootElfLoadSeg, hvalid, bootElfLoadSegGeneric, verifySegmentRange, hmemsz, hcheck]
  · exact fileBytes_inImageWhitelist hwf (by decide) hvalid hfile hrun ha

/-! ## An image whose zero-fill runs out of the whitelist -/

/-- A flash device full of zeros. -/
def blankFlash : FlashTrans where
  read _ size := ⟨true, size.toNat, fun _ => 0⟩
  stored_le _ _ := Nat.le_refl _
  stored_of_ok _ _ _ := rfl

/-- One loadable segment at the start of `ddrEntry`: a page of file bytes, and two megabytes in
memory where the whitelist has one. -/
def overrunHeader : Elf64Phdr :=
  ⟨1, 0, 0x1000, 0x80000000, 0x80000000, 0x1000, 0x200000, 0x1000⟩

/-- An image of one header. -/
def oneSegmentEnv (ssa : Bool) (phdr : Elf64Phdr) : LoaderEnv where
  elfFormat := .elfClass64
  phdrNum := 1
  phdrArray i := if i = 0 then phdr else .zero
  phdrArray32 _ := .zero
  whitelist := ddrState
  transIf := blankFlash
  isValidSegment i := i == 0
  isAuthEnabled := true
  segVerification _ _ := true
  elfSsaEnabled := ssa

/-- The loader before it has written anything. -/
def freshLoader : LoaderState := ⟨fun _ => 0xFF, [], 0, 0⟩

/-- The image of `overrunHeader`, loaded through the plain path: the overrun is caught. -/
theorem bootLoadElfImage_confined_plain :
    Run WhitelistStep .init [(⟨.imageBodyType, .setEntry ddrEntry⟩, true)]
      (oneSegmentEnv false overrunHeader).whitelist ∧
    (Confined (oneSegmentEnv false overrunHeader)
        (bootLoadElfImage (oneSegmentEnv false overrunHeader) 0 none freshLoader).state) :=
  have run : Run WhitelistStep .init [(⟨.imageBodyType, .setEntry ddrEntry⟩, true)] ddrState :=
    .step .start rfl
  have hall := @bootLoadElfImage_confined_iff (oneSegmentEnv false overrunHeader) _ run
  ⟨run, (hall.1 0 none freshLoader (fun b hb => by cases hb)).mpr (fun h => by cases h)⟩

/-- Loaded in chunks, the image of `overrunHeader` is zero-filled past the whitelist. -/
theorem chunked_zero_fill_leaves_whitelist :
    Run WhitelistStep .init [(⟨.imageBodyType, .setEntry ddrEntry⟩, true)]
      (oneSegmentEnv true overrunHeader).whitelist ∧
    Confined (oneSegmentEnv true overrunHeader) freshLoader ∧
    ¬ Confined (oneSegmentEnv true overrunHeader)
      (bootLoadElfImage (oneSegmentEnv true overrunHeader) 0 none freshLoader).state := by
  refine ⟨.step .start rfl, fun b hb => (by cases hb), fun h => ?_⟩
  have hwritten : (bootLoadElfImage (oneSegmentEnv true overrunHeader) 0 none
      freshLoader).state.written = [⟨0x80001000, 0x1ff000⟩, ⟨0x80000000, 0x1000⟩] := rfl
  obtain ⟨e, he, ha⟩ := h ⟨0x80001000, 0x1ff000⟩ (by rw [hwritten]; exact mem_cons_self)
    0x80100000 (by decide)
  have hentry : e = ddrEntry := by
    simpa using (show e ∈ [ddrEntry] from he)
  subst hentry
  exact absurd ha (by decide)

end XBLLoader
