import BootXf.DevPrg.HandleWrite

/-!
# When the program command is safe

`Progress` is what the loop keeps while the receives are sound. For the other direction the storage
takes all it is given, and the packets tell whether they were received (`goodRounds`): then
whatever goes wrong shows.
-/

namespace DevPrg

open Lib List

section
variable {io : BasicIoData} {bufSize : UInt64} {queued : DpRes} {s : WriteState} {r : Round}
  {done used rounds : List Round} {w : StorageWrite} {receives : List Receive}

/-- The number of sectors of some rounds. -/
def BasicIoData.total (io : BasicIoData) (rounds : List Round) : Nat :=
  (rounds.map fun r => io.sectors r.receive).sum

/-- The sectors received over two runs add up. -/
theorem total_append (rs rs' : List Round) : io.total (rs ++ rs') = io.total rs + io.total rs' := by
  rw [BasicIoData.total, map_append, sum_append]
  rfl

/-- The 64-bit division counts the whole sectors of a packet. -/
theorem sectorCount_toNat (io : BasicIoData) (r : Receive) :
    (r.rxBytes / io.sectorSize.toUInt64).toNat = io.sectors r := by
  rw [UInt64.toNat_div, UInt32.toNat_toUInt64]
  rfl

/-- The remainder that the code tests says whether a packet is whole sectors. -/
theorem whole_iff (r : Receive) : r.rxBytes % io.sectorSize.toUInt64 = 0 ↔ io.Whole r := by
  rw [← UInt64.toNat_inj, UInt64.toNat_mod, UInt32.toNat_toUInt64]
  rfl

/-- Whole sectors are all that was received. -/
theorem sectors_mul_of_whole {r : Receive} (h : io.Whole r) :
    io.sectors r * io.sectorSize.toNat = r.rxBytes.toNat :=
  Nat.div_mul_cancel (Nat.dvd_of_mod_eq_zero h)

/-! ## Sound receives -/

/-- What the loop keeps, after the rounds it has done. -/
structure Progress (io : BasicIoData) (queued : DpRes) (done : List Round)
    (s : WriteState) : Prop where
  remaining : s.sectorsRemaining.toNat + io.total done = io.numSectors.toNat
  start : s.startSector.toNat = (io.startSector.toNat + io.total done) % 2 ^ 64
  received : ∀ w ∈ s.writes, 0 < w.numSectors.toNat → ∃ r ∈ done, r.receive.result = .success ∧
    w.numSectors.toNat * io.sectorSize.toNat ≤ r.receive.rxBytes.toNat ∧
    ∀ k < w.numSectors.toNat * io.sectorSize.toNat, w.buffer k = r.data k
  range : ∀ w ∈ s.writes, 0 < w.numSectors.toNat → io.startSector.toNat ≤ w.startSector.toNat ∧
    w.startSector.toNat + w.numSectors.toNat ≤ io.startSector.toNat + io.total done
  stored : queued = .success →
    (∀ r ∈ done, r.receive.result = .success ∧ io.Whole r.receive ∧ r.written = .success) →
    s.error = .success ∧
    (done.flatMap Round.packet).length = io.total done * io.sectorSize.toNat ∧
    ∀ c, (Write.apply (s.writes.map (·.toWrite io)) c).Holds
      ⟨io.startSector.toNat * io.sectorSize.toNat, io.total done * io.sectorSize.toNat⟩
      fun k => (done.flatMap Round.packet).getD k 0
  failed : (∀ r ∈ done, io.Whole r.receive) →
    (queued ≠ .success ∨ ∃ r ∈ done, r.written ≠ .success) → s.error ≠ .success

/-- The bytes of a round are put down behind those of the rounds before. -/
theorem packet_puts (io : BasicIoData) (hsector : w.numSectors.toNat = io.sectors r.receive)
    (hbuffer : w.buffer = r.data) (hwhole : io.Whole r.receive) :
    Puts [w.toWrite io] ⟨w.startSector.toNat * io.sectorSize.toNat, r.receive.rxBytes.toNat⟩
      r.data := by
  rw [StorageWrite.toWrite, hsector, sectors_mul_of_whole hwhole, hbuffer]
  exact .single _ _ _

/-- The bytes of a packet are those received. -/
theorem packet_getD {k : Nat} (hk : k < r.receive.rxBytes.toNat) :
    r.packet.getD k 0 = r.data k := by
  rw [Round.packet, getD_eq_getElem?_getD, getElem?_map, getElem?_range hk]
  rfl

/-- A packet is as long as the receive reports. -/
theorem packet_length : r.packet.length = r.receive.rxBytes.toNat := by
  rw [Round.packet, length_map, length_range]

/-- `error`, before the write is decided on. -/
def errorBefore (io : BasicIoData) (s : WriteState) (r : Round) : DpRes :=
  if r.receive.result = .success ∧ r.receive.rxBytes % io.sectorSize.toUInt64 ≠ 0 then
    r.receive.result else s.error

/-- A round fails before its write, or as the write does. -/
theorem round_error : (s.round io bufSize r).error =
    if errorBefore io s r = .success then r.written else errorBefore io s r := rfl

/-- A round writes the buffer that it has received into: the next receive is into the other one. -/
theorem round_writes : (s.round io bufSize r).writes = if errorBefore io s r = .success then
    s.writes ++ [⟨s.startSector, r.receive.rxBytes / io.sectorSize.toUInt64, r.data⟩]
    else s.writes := by
  have hother : s.curr ≠ !s.curr := by cases s.curr <;> decide
  have hcurr : (if s.sectorsRemaining - r.receive.rxBytes / io.sectorSize.toUInt64 > 0 then
      fill (fill s.data s.curr r.data) (!s.curr) r.early else fill s.data s.curr r.data) s.curr =
      r.data := by
    split
    · rw [fill, if_neg hother, fill, if_pos rfl]
    · rw [fill, if_pos rfl]
  rw [← hcurr]
  rfl

/-- Whole sectors leave the error as it is. -/
theorem errorBefore_of_whole (h : io.Whole r.receive) : errorBefore io s r = s.error :=
  if_neg fun hno => hno.2 ((whole_iff _).mpr h)

/-- **One round** of a sound receive. -/
theorem Progress.round (h : Progress io queued done s) (bufSize : UInt64)
    (hle : io.sectors r.receive ≤ s.sectorsRemaining.toNat)
    (hsome : 0 < io.sectors r.receive → r.receive.result = .success ∧
      io.startSector.toNat + io.total done < 2 ^ 64) :
    Progress io queued (done ++ [r]) (s.round io bufSize r) := by
  have htotal : io.total (done ++ [r]) = io.total done + io.sectors r.receive := by
    rw [total_append]
    rfl
  have hcount := sectorCount_toNat io r.receive
  have hstart : 0 < io.sectors r.receive →
      s.startSector.toNat = io.startSector.toNat + io.total done := by
    intro hpos
    rw [h.start, Nat.mod_eq_of_lt (hsome hpos).2]
  have hmem : ∀ w ∈ (s.round io bufSize r).writes, w ∈ s.writes ∨
      w = ⟨s.startSector, r.receive.rxBytes / io.sectorSize.toUInt64, r.data⟩ := by
    intro w hw
    rw [round_writes] at hw
    split at hw
    · rcases mem_append.mp hw with hw | hw
      · exact .inl hw
      · exact .inr (mem_singleton.mp hw)
    · exact .inl hw
  refine ⟨?_, ?_, fun w hw hpos => ?_, fun w hw hpos => ?_, fun hqueued hall => ?_,
    fun hwhole hfailed => ?_⟩
  · show (s.sectorsRemaining - _).toNat + _ = _
    rw [UInt64.toNat_sub_of_le _ _ (UInt64.le_iff_toNat_le.mpr (hcount ▸ hle)), hcount, htotal,
      ← h.remaining]
    omega
  · show (s.startSector + _).toNat = _
    rw [UInt64.toNat_add, h.start, hcount, htotal]
    omega
  · rcases hmem w hw with hw | rfl
    · obtain ⟨r', hr', hrest⟩ := h.received w hw hpos
      exact ⟨r', mem_append_left _ hr', hrest⟩
    · dsimp only at hpos ⊢
      rw [hcount] at hpos ⊢
      exact ⟨r, mem_append_right _ mem_cons_self, (hsome hpos).1, Nat.div_mul_le_self .., 
        fun k _ => rfl⟩
  · rcases hmem w hw with hw | rfl
    · obtain ⟨hlo, hhi⟩ := h.range w hw hpos
      exact ⟨hlo, by omega⟩
    · dsimp only at hpos ⊢
      rw [hcount] at hpos ⊢
      rw [hstart hpos, htotal]
      omega
  · have hr := hall r (mem_append_right _ mem_cons_self)
    obtain ⟨herror, hlen, hholds⟩ := h.stored hqueued fun r' hr' => hall r' (mem_append_left _ hr')
    have hbefore : errorBefore io s r = .success := (errorBefore_of_whole hr.2.1).trans herror
    have hpackets : (done ++ [r]).flatMap Round.packet = done.flatMap Round.packet ++ r.packet := by
      rw [flatMap_append, flatMap_singleton]
    refine ⟨?_, ?_, fun c k hk => ?_⟩
    · rw [round_error, if_pos hbefore]
      exact hr.2.2
    · rw [hpackets, length_append, hlen, packet_length, htotal, Nat.add_mul,
        sectors_mul_of_whole hr.2.1]
    · have hput := packet_puts io (r := r)
        (w := ⟨s.startSector, r.receive.rxBytes / io.sectorSize.toUInt64, r.data⟩) hcount rfl hr.2.1
      have hbytes := sectors_mul_of_whole hr.2.1
      dsimp only at hk hput ⊢
      rw [htotal, Nat.add_mul, hbytes] at hk
      rw [round_writes, if_pos hbefore, map_append, Write.apply_append, hpackets,
        getD_eq_getElem?_getD]
      have hplace : 0 < r.receive.rxBytes.toNat → s.startSector.toNat * io.sectorSize.toNat =
          io.startSector.toNat * io.sectorSize.toNat + io.total done * io.sectorSize.toNat := by
        intro hpos
        rw [hstart (Nat.pos_of_ne_zero fun hzero => ?_), Nat.add_mul]
        rw [hzero, Nat.zero_mul] at hbytes
        omega
      rcases Nat.lt_or_ge k (io.total done * io.sectorSize.toNat) with hlt | hge
      · rw [getElem?_append_left (by rw [hlen]; exact hlt), ← getD_eq_getElem?_getD]
        refine (hput.other fun hmem => ?_).trans (hholds c k hlt)
        obtain ⟨hlo, hhi⟩ := hmem
        dsimp only at hlo hhi
        have := hplace (by omega)
        omega
      · rw [getElem?_append_right (by rw [hlen]; exact hge), hlen, ← getD_eq_getElem?_getD,
          packet_getD (by omega)]
        have hpos : 0 < r.receive.rxBytes.toNat := by omega
        have hold := hput.holds (Write.apply (s.writes.map (·.toWrite io)) c)
          (k - io.total done * io.sectorSize.toNat) (by dsimp only; omega)
        dsimp only at hold
        rwa [hplace hpos, Nat.add_assoc, Nat.add_sub_cancel' hge] at hold
  · rw [round_error, errorBefore_of_whole (hwhole r (mem_append_right _ mem_cons_self))]
    split
    · next hsuccess =>
      intro hwritten
      refine h.failed (fun r' hr' => hwhole r' (mem_append_left _ hr')) ?_ hsuccess
      rcases hfailed with hqueued | ⟨r', hr', hno⟩
      · exact .inl hqueued
      · rcases mem_append.mp hr' with hr' | hr'
        · exact .inr ⟨r', hr', hno⟩
        · cases mem_singleton.mp hr'
          exact absurd hwritten hno
    · next hno => exact hno

/-- **The loop** keeps what it should while the receives are sound. -/
theorem Progress.loop (h : Progress io queued done s) (bufSize : UInt64) (rounds : List Round)
    (hsound : io.SoundFrom s.sectorsRemaining.toNat (rounds.map (·.receive))) :
    NoWrap io bufSize rounds s ∧
      Progress io queued (done ++ (s.loop io bufSize rounds).1) (s.loop io bufSize rounds).2 ∧
      (s.loop io bufSize rounds).1.map (·.receive) =
        io.made s.sectorsRemaining.toNat (rounds.map (·.receive)) := by
  induction rounds generalizing done s with
  | nil => exact ⟨trivial, by rw [WriteState.loop, append_nil]; exact h, rfl⟩
  | cons r rounds ih =>
    rw [map_cons] at hsound ⊢
    rw [NoWrap, WriteState.loop, BasicIoData.made]
    rcases Decidable.em (s.sectorsRemaining = 0) with hzero | hmore
    · have hnat : s.sectorsRemaining.toNat = 0 := by
        rw [hzero]
        rfl
      rw [if_pos hzero, if_pos hnat]
      exact ⟨.inl hzero, by rw [append_nil]; exact h, rfl⟩
    · have hnat : ¬ s.sectorsRemaining.toNat = 0 := fun hno => hmore (UInt64.toNat_inj.mp hno)
      rw [BasicIoData.SoundFrom] at hsound
      obtain ⟨hle, hsome, hrest⟩ := hsound.resolve_left hnat
      have hremaining : (s.round io bufSize r).sectorsRemaining.toNat =
          s.sectorsRemaining.toNat - io.sectors r.receive := by
        have hcount := sectorCount_toNat io r.receive
        show (s.sectorsRemaining - _).toNat = _
        rw [UInt64.toNat_sub_of_le _ _ (UInt64.le_iff_toNat_le.mpr (hcount ▸ hle)), hcount]
      have hdone : io.total done = io.numSectors.toNat - s.sectorsRemaining.toNat := by
        have := h.remaining
        omega
      have hround := h.round bufSize hle fun hpos => ⟨(hsome hpos).1, by
        rw [hdone]
        exact (hsome hpos).2⟩
      obtain ⟨hwrap, hprogress, hmade⟩ := ih hround (hremaining ▸ hrest)
      rw [if_neg hmore, if_neg hnat]
      dsimp only
      refine ⟨.inr ⟨?_, hwrap⟩, ?_, ?_⟩
      · rw [UInt64.le_iff_toNat_le, sectorCount_toNat io]
        exact hle
      · rwa [append_assoc] at hprogress
      · rw [map_cons, hmade, hremaining]

/-- No sector has been written at the start. -/
theorem Progress.initial : Progress io queued [] (startWrite io bufSize queued) where
  remaining := rfl
  start := (Nat.mod_eq_of_lt io.startSector.toNat_lt).symm
  received w hw := (not_mem_nil hw).elim
  range w hw := (not_mem_nil hw).elim
  stored hqueued _ := by
    refine ⟨hqueued, ?_, fun c k hk => ?_⟩
    · rw [BasicIoData.total, flatMap_nil, map_nil, sum_nil, Nat.zero_mul]
      rfl
    · rw [BasicIoData.total, map_nil, sum_nil, Nat.zero_mul] at hk
      exact absurd hk (Nat.not_lt_zero _)
  failed _ hfailed := by
    rcases hfailed with hno | ⟨r, hr, -⟩
    · exact hno
    · exact (not_mem_nil hr).elim

/-- Sound receives make the command safe. -/
theorem alwaysSafe_of_sound (bufSize : UInt64) (h : io.SoundReceives receives) :
    AlwaysSafe io bufSize receives := by
  intro queued closed rounds hrounds
  have hstart : Progress io queued [] (startWrite io bufSize queued) := .initial
  obtain ⟨hwrap, hprogress, hmade⟩ := hstart.loop bufSize rounds (hrounds ▸ h.each)
  rw [hrounds] at hmade
  rw [nil_append] at hprogress
  generalize (startWrite io bufSize queued).loop io bufSize rounds = result at hprogress hmade
  obtain ⟨used, s⟩ := result
  dsimp only at hprogress hmade ⊢
  have hmade : used.map (·.receive) = io.made io.numSectors.toNat receives := hmade
  have hremaining := hprogress.remaining
  have hall : s.sectorsRemaining = 0 → ∀ r ∈ used, r.receive.result = .success ∧
      io.Whole r.receive := by
    intro hzero r hr
    have htotal : io.total used = io.numSectors.toNat := by
      rw [hzero] at hremaining
      exact (Nat.zero_add _).symm.trans hremaining
    refine h.all ?_ r.receive ?_
    · rw [← hmade, map_map]
      exact htotal
    · rw [← hmade]
      exact mem_map_of_mem hr
  refine ⟨hwrap, hprogress.received, fun w hw hpos => ?_, fun hzero hqueued hgood => ?_,
    fun hbad => ?_⟩
  · obtain ⟨hlo, hhi⟩ := hprogress.range w hw hpos
    exact ⟨hlo, by omega⟩
  · obtain ⟨-, hlen, hholds⟩ := hprogress.stored hqueued hgood
    have htotal : io.total used = io.numSectors.toNat := by
      rw [hzero] at hremaining
      exact (Nat.zero_add _).symm.trans hremaining
    rw [htotal] at hlen hholds
    exact ⟨hlen, hholds⟩
  · intro hack
    rw [response] at hack
    split at hack
    · next hzero =>
      have hsuccess : s.error = .success := by
        have := Option.some.inj hack
        rw [Bool.and_eq_true, decide_eq_true_eq] at this
        exact this.2
      refine hprogress.failed (fun r hr => (hall hzero r hr).2) ?_ hsuccess
      rcases hbad with hqueued | ⟨r, hr, hno⟩
      · exact .inl hqueued
      · obtain ⟨hok, hwhole⟩ := hall hzero r hr
        exact .inr ⟨r, hr, (hno.resolve_left fun hno => hno hok).resolve_left fun hno => hno hwhole⟩
    · nomatch hack

/-! ## Receives that are not sound -/

/-- The storage takes what it is given, and the bytes tell whether the receive succeeded. -/
def goodRound (r : Receive) : Round :=
  ⟨r, fun _ => if r.result = .success then 0 else 1, fun _ => 0, .success⟩

/-- What has been written stays written. -/
theorem loop_writes (hw : w ∈ s.writes) :
    w ∈ (s.loop io bufSize rounds).2.writes := by
  induction rounds generalizing s with
  | nil => exact hw
  | cons r rounds ih =>
    rw [WriteState.loop]
    split
    · exact hw
    · refine ih ?_
      rw [round_writes]
      split
      · exact mem_append_left _ hw
      · exact hw

/-- The rounds that the loop takes are among those offered. -/
theorem loop_used (hr : r ∈ (s.loop io bufSize rounds).1) : r ∈ rounds := by
  induction rounds generalizing s with
  | nil => exact hr
  | cons r' rounds ih =>
    rw [WriteState.loop] at hr
    split at hr
    · exact (not_mem_nil hr).elim
    · rcases mem_cons.mp hr with rfl | hr
      · exact .head _
      · exact .tail _ (ih hr)

/-- While nothing is wrong for the code, it goes on. -/
theorem errorBefore_good {r : Receive} (herror : s.error = .success) :
    errorBefore io s (goodRound r) = .success := by
  rw [errorBefore]
  split
  · next h => exact h.1
  · exact herror

/-- Rounds in which nothing fails leave no error. -/
theorem loop_error_good (io : BasicIoData) (bufSize : UInt64) (receives : List Receive)
    (herror : s.error = .success) :
    (s.loop io bufSize (receives.map goodRound)).2.error = .success := by
  induction receives generalizing s with
  | nil => exact herror
  | cons r receives ih =>
    rw [map_cons, WriteState.loop]
    split
    · exact herror
    · refine ih ?_
      rw [round_error, if_pos (errorBefore_good herror)]
      rfl

/-- When the writes are as they should be, the receives were sound. -/
theorem soundFrom_of_writes (herror : s.error = .success)
    (hle : s.sectorsRemaining.toNat ≤ io.numSectors.toNat)
    (hstart : s.startSector.toNat =
      (io.startSector.toNat + (io.numSectors.toNat - s.sectorsRemaining.toNat)) % 2 ^ 64)
    (hwrap : NoWrap io bufSize (receives.map goodRound) s)
    (hwrites : ∀ w ∈ (s.loop io bufSize (receives.map goodRound)).2.writes,
      0 < w.numSectors.toNat * io.sectorSize.toNat →
      w.buffer 0 = 0 ∧ io.startSector.toNat ≤ w.startSector.toNat) :
    io.SoundFrom s.sectorsRemaining.toNat receives := by
  induction receives generalizing s with
  | nil => trivial
  | cons r receives ih =>
    rw [BasicIoData.SoundFrom]
    rw [map_cons, NoWrap] at hwrap
    rw [map_cons, WriteState.loop] at hwrites
    rcases Decidable.em (s.sectorsRemaining = 0) with hzero | hmore
    · left
      rw [hzero]
      rfl
    · right
      obtain ⟨hsectors, hwrap⟩ := hwrap.resolve_left hmore
      rw [if_neg hmore] at hwrites
      dsimp only at hwrites
      have hcount := sectorCount_toNat io r
      have hsectors' : io.sectors r ≤ s.sectorsRemaining.toNat := by
        rw [← hcount]
        exact UInt64.le_iff_toNat_le.mp hsectors
      have hremaining : (s.round io bufSize (goodRound r)).sectorsRemaining.toNat =
          s.sectorsRemaining.toNat - io.sectors r := by
        show (s.sectorsRemaining - _).toNat = _
        rw [UInt64.toNat_sub_of_le _ _ hsectors]
        exact congrArg _ hcount
      refine ⟨hsectors', fun hpos => ?_, ?_⟩
      · have hmem : (⟨s.startSector, r.rxBytes / io.sectorSize.toUInt64, (goodRound r).data⟩ :
            StorageWrite) ∈ (s.round io bufSize (goodRound r)).writes := by
          rw [round_writes, if_pos (errorBefore_good herror)]
          exact mem_append_right _ mem_cons_self
        have hsize : 0 < io.sectorSize.toNat := by
          refine Nat.pos_of_ne_zero fun hzero => ?_
          rw [BasicIoData.sectors, hzero, Nat.div_zero] at hpos
          exact Nat.lt_irrefl _ hpos
        obtain ⟨hbyte, hlo⟩ := hwrites _ (loop_writes hmem) (Nat.mul_pos (hcount ▸ hpos) hsize)
        refine ⟨Decidable.byContradiction fun hno => ?_, ?_⟩
        · rw [goodRound, if_neg hno] at hbyte
          exact absurd hbyte (show ¬ (1 : UInt8) = 0 by decide)
        · dsimp only at hlo
          have := io.numSectors.toNat_lt
          omega
      · rw [← hremaining]
        refine ih ?_ (by omega) ?_ hwrap hwrites
        · rw [round_error, if_pos (errorBefore_good herror)]
          rfl
        · show (s.startSector + _).toNat = _
          rw [UInt64.toNat_add, hstart, hremaining]
          have : (r.rxBytes / io.sectorSize.toUInt64).toNat = io.sectors r := hcount
          show (_ + (r.rxBytes / io.sectorSize.toUInt64).toNat) % _ = _
          omega

/-- **The program command is safe**, whatever is in the packets and whatever the other calls
answer, exactly when the receives are sound. -/
theorem handleWrite_safe_iff (io : BasicIoData) (bufSize : UInt64) (receives : List Receive) :
    AlwaysSafe io bufSize receives ↔ io.SoundReceives receives := by
  refine ⟨fun hall => ?_, alwaysSafe_of_sound bufSize⟩
  have hrounds : (receives.map goodRound).map (·.receive) = receives := by
    rw [map_map]
    exact map_id _
  obtain ⟨hwrap, hsafe⟩ := hall .success true _ hrounds
  have heach : io.SoundFrom io.numSectors.toNat receives := by
    refine soundFrom_of_writes (s := startWrite io bufSize .success) rfl (Nat.le_refl _) ?_ hwrap
      fun w hw hpos => ?_
    · show io.startSector.toNat = (_ + (io.numSectors.toNat - io.numSectors.toNat)) % _
      rw [Nat.sub_self, Nat.add_zero, Nat.mod_eq_of_lt io.startSector.toNat_lt]
    · have hsome : 0 < w.numSectors.toNat := Nat.pos_of_mul_pos_right hpos
      obtain ⟨r, hr, hsuccess, -, hbytes⟩ := hsafe.received w hw hsome
      obtain ⟨q, -, rfl⟩ := mem_map.mp (loop_used hr)
      exact ⟨(hbytes 0 hpos).trans (if_pos hsuccess), (hsafe.range w hw hsome).1⟩
  refine ⟨heach, fun hsum r hr => ?_⟩
  have hinitial : Progress io .success [] (startWrite io bufSize .success) := .initial
  obtain ⟨-, hprogress, hmade⟩ := hinitial.loop bufSize (receives.map goodRound)
    (hrounds.symm ▸ heach)
  have herror := loop_error_good io bufSize receives
    (s := startWrite io bufSize .success) rfl
  rw [hrounds] at hmade
  rw [nil_append] at hprogress
  generalize (startWrite io bufSize .success).loop io bufSize (receives.map goodRound) = result
    at hsafe hprogress hmade herror
  obtain ⟨used, s⟩ := result
  dsimp only at hsafe hprogress hmade herror
  have hmade : used.map (·.receive) = io.made io.numSectors.toNat receives := hmade
  have htotal : io.total used = io.numSectors.toNat := by
    rw [← hsum, ← hmade, map_map]
    rfl
  have hzero : s.sectorsRemaining = 0 := by
    have := hprogress.remaining
    rw [← UInt64.toNat_inj]
    show s.sectorsRemaining.toNat = 0
    omega
  have hack : response s true = some true := by
    rw [response, if_pos hzero, herror]
    rfl
  rw [← hmade] at hr
  obtain ⟨q, hq, rfl⟩ := mem_map.mp hr
  refine Decidable.byContradiction fun hbad => hsafe.nak (.inr ⟨q, hq, ?_⟩) hack
  rcases Decidable.em (q.receive.result = .success) with hok | hno
  · exact .inr (.inl fun hwhole => hbad ⟨hok, hwhole⟩)
  · exact .inl hno

/-- A packet that fails its authentication is written and acknowledged. -/
theorem handleWrite_not_safe :
    ¬ AlwaysSafe ⟨512, 0, 1⟩ 0x8000 [⟨.errorAuthentication, 512⟩] := by
  intro hall
  obtain ⟨-, hsafe⟩ :=
    hall .success true [⟨⟨.errorAuthentication, 512⟩, fun _ => 0, fun _ => 0, .success⟩]
    rfl
  refine hsafe.nak (.inr ⟨_, .head _, .inl ?_⟩) ?_
  · decide
  · decide

/-- An acknowledgement means that the packets are on storage, when the receives are sound. -/
theorem handleWrite_acknowledged {closed : Bool}
    (hsound : io.SoundReceives (rounds.map (·.receive)))
    (hack : (handleWrite (some io) bufSize queued rounds closed).2 = some true) (c : Contents) :
    (Write.apply ((handleWrite (some io) bufSize queued rounds closed).1.map
      (·.toWrite io)) c).Holds
      ⟨io.startSector.toNat * io.sectorSize.toNat, io.numSectors.toNat * io.sectorSize.toNat⟩
      fun k => (((startWrite io bufSize queued).loop io bufSize rounds).1.flatMap
        Round.packet).getD k 0 := by
  obtain ⟨-, hsafe⟩ := alwaysSafe_of_sound bufSize hsound queued closed rounds rfl
  have hzero : ((startWrite io bufSize queued).loop io bufSize rounds).2.sectorsRemaining = 0 := by
    refine Decidable.byContradiction fun hno => ?_
    have hnone : response ((startWrite io bufSize queued).loop io bufSize rounds).2 closed = none :=
      if_neg hno
    exact nomatch hnone.symm.trans hack
  have hgood : ∀ r ∈ ((startWrite io bufSize queued).loop io bufSize rounds).1,
      r.receive.result = .success ∧ io.Whole r.receive ∧ r.written = .success := by
    intro r hr
    refine Decidable.byContradiction fun hno => hsafe.nak (.inr ⟨r, hr, ?_⟩) hack
    rw [Decidable.not_and_iff_not_or_not, Decidable.not_and_iff_not_or_not] at hno
    exact hno
  have hqueued : queued = .success :=
    Decidable.byContradiction fun hno => hsafe.nak (.inl hno) hack
  exact (hsafe.stored hzero hqueued hgood).2 c

end

end DevPrg
