import BootXf.DevPrg.HandleWrite

/-!
# Reading in chunks

`handle_read` and `handle_get_sha256` of `devprg_firehose.c` read sectors into the transfer buffer,
as many at once as fit, and send them or hash them. How much to read comes from the product of the
sectors that remain and their size, which is of 64 bits; `chunks_cover_iff` says when this covers
exactly the sectors that were asked for.

What storage answers is given, and where it fails what is in the buffer then: the interface of the
device takes numbers of 64 bits, and how a driver narrows them is not looked at. The buffers of the
build are below 4 GiB, so the 32-bit length of `devprg_sha256_update` holds every chunk. Division
by zero is zero.
-/

namespace DevPrg

open Lib List

/-- The variables that both loops go by. -/
structure Chunk where
  startSector : UInt64
  sectorsRemaining : UInt64
  readSize : UInt64

namespace Chunk

/-- Before the loop. -/
def first (sectorSize bufSize startSector numSectors : UInt64) : Chunk :=
  ⟨startSector, numSectors, readSizeOf sectorSize bufSize numSectors⟩

/-- `sector_count`. -/
def sectorCount (sectorSize : UInt64) (c : Chunk) : UInt64 := c.readSize / sectorSize

/-- Going on behind the sectors of this round. -/
def next (sectorSize bufSize : UInt64) (c : Chunk) : Chunk :=
  let more := c.sectorsRemaining - c.sectorCount sectorSize
  ⟨c.startSector + c.sectorCount sectorSize, more, readSizeOf sectorSize bufSize more⟩

end Chunk

/-- A call of `devprg_storage_read`. -/
structure StorageRead where
  startSector : UInt64
  numSectors : UInt64

/-- The sectors that a call reads. -/
def StorageRead.sectors (r : StorageRead) : List Nat :=
  range' r.startSector.toNat r.numSectors.toNat

/-- What is answered in a round: the result of `devprg_storage_read`, what is in the buffer where
that has put nothing, and whether `devprg_sha256_update` succeeds. -/
structure ReadAnswer where
  result : DpRes
  buffer : Nat → UInt8
  updated : Bool

/-- The buffer behind a call of `devprg_storage_read`. -/
def readInto (disk : Contents) (sectorSize : UInt64) (r : StorageRead) (answer : ReadAnswer) :
    Nat → UInt8 := fun i =>
  if answer.result = .success ∧ i < r.numSectors.toNat * sectorSize.toNat then
    disk (r.startSector.toNat * sectorSize.toNat + i)
  else answer.buffer i

/-- A loop over chunks: its variables, the result of the last read, whether the loop has been left,
the calls that read, and the bytes that have been sent or hashed. -/
structure ReadState where
  chunk : Chunk
  error : DpRes
  errors : Bool
  reads : List StorageRead
  bytes : List UInt8

/-- The variables before the loop. -/
def startRead (sectorSize bufSize startSector numSectors : UInt64) : ReadState :=
  ⟨.first sectorSize bufSize startSector numSectors, .success, false, [], []⟩

namespace ReadState

/-- The loop is left, or no sector remains. -/
def Ended (s : ReadState) : Prop := s.errors = true ∨ s.chunk.sectorsRemaining = 0

instance : DecidablePred Ended := fun _ => inferInstanceAs (Decidable (_ ∨ _))

/-- The call of this round. -/
def read (sectorSize : UInt64) (s : ReadState) : StorageRead :=
  ⟨s.chunk.startSector, s.chunk.sectorCount sectorSize⟩

/-- What is sent or hashed in this round. -/
def data (s : ReadState) (buffer : Nat → UInt8) : List UInt8 :=
  (List.range s.chunk.readSize.toNat).map buffer

variable (disk : Contents) (sectorSize bufSize : UInt64) (answer : ReadAnswer)

/-- One round of the loop of `handle_read`. Once a read has failed zeros are sent. -/
def sendRound (s : ReadState) : ReadState :=
  if s.error = .success then
    { chunk := s.chunk.next sectorSize bufSize
      error := answer.result
      errors := s.errors
      reads := s.reads ++ [s.read sectorSize]
      bytes := s.bytes ++ s.data (readInto disk sectorSize (s.read sectorSize) answer) }
  else
    { s with
      chunk := s.chunk.next sectorSize bufSize
      bytes := s.bytes ++ s.data fun _ => 0 }

/-- One round of the loop of `handle_get_sha256`, which is left at the first error. -/
def hashRound (s : ReadState) : ReadState :=
  let reads := s.reads ++ [s.read sectorSize]
  if answer.result ≠ .success then { s with error := answer.result, errors := true, reads }
  else if answer.updated = false then { s with errors := true, reads }
  else
    { chunk := s.chunk.next sectorSize bufSize
      error := answer.result
      errors := s.errors
      reads
      bytes := s.bytes ++ s.data (readInto disk sectorSize (s.read sectorSize) answer) }

/-- The sectors that have been read. -/
def sectors (s : ReadState) : List Nat := s.reads.flatMap StorageRead.sectors

end ReadState

section
variable (disk : Contents) (sectorSize bufSize startSector numSectors : UInt64)

/-- The loop of `handle_read`. -/
def handleRead (answers : Nat → ReadAnswer) : Nat → Option ReadState :=
  turns ReadState.Ended (fun n s => some (s.sendRound disk sectorSize bufSize (answers n)))
    (startRead sectorSize bufSize startSector numSectors)

/-- The loop of `handle_get_sha256`. -/
def handleGetSha256 (answers : Nat → ReadAnswer) : Nat → Option ReadState :=
  turns ReadState.Ended (fun n s => some (s.hashRound disk sectorSize bufSize (answers n)))
    (startRead sectorSize bufSize startSector numSectors)

/-- A loop covers the sectors that were asked for: it ends; it reads them in their order, none
twice, in chunks that fit the buffer; and where nothing fails it reads them all and takes their
bytes. -/
structure Covers (loop : (Nat → ReadAnswer) → Nat → Option ReadState) : Prop where
  ends : ∀ answers, ∃ n s, loop answers n = some s ∧ s.Ended
  inOrder : ∀ answers n s, loop answers n = some s →
    s.sectors <+: range' startSector.toNat numSectors.toNat
  fits : ∀ answers n s, loop answers n = some s → ∀ r ∈ s.reads,
    r.numSectors.toNat * sectorSize.toNat ≤ bufSize.toNat
  complete : ∀ answers n s, loop answers n = some s → s.Ended → s.error = .success →
    s.errors = false →
      s.sectors = range' startSector.toNat numSectors.toNat ∧
      s.bytes = disk.read (startSector.toNat * sectorSize.toNat)
        (numSectors.toNat * sectorSize.toNat)

/-- The sectors take less than `2 ^ 64` bytes, and the last chunk begins at a sector below
`2 ^ 64`. -/
def ChunksFit : Prop :=
  numSectors = 0 ∨ 0 < sectorSize.toNat ∧ numSectors.toNat * sectorSize.toNat < 2 ^ 64 ∧
    startSector.toNat + (numSectors.toNat - 1) / (bufSize.toNat / sectorSize.toNat) *
      (bufSize.toNat / sectorSize.toNat) < 2 ^ 64

end

/-! ## Chunks -/

namespace Chunk

section
variable {sectorSize bufSize : UInt64} {c : Chunk}

/-- What is to be read is what remains, as far as the product says. -/
def Sound (sectorSize bufSize : UInt64) (c : Chunk) : Prop :=
  c.readSize = readSizeOf sectorSize bufSize c.sectorsRemaining

theorem sound_next : (c.next sectorSize bufSize).Sound sectorSize bufSize := rfl

theorem toNat_roundDown : (bufSize / sectorSize * sectorSize).toNat =
    bufSize.toNat / sectorSize.toNat * sectorSize.toNat := by
  have hle := Nat.div_mul_le_self bufSize.toNat sectorSize.toNat
  have hlt := bufSize.toNat_lt
  rw [UInt64.toNat_mul, UInt64.toNat_div, Nat.mod_eq_of_lt (by omega)]

/-- No more is read than the product says. -/
theorem readSizeOf_le (sectorSize bufSize sectors : UInt64) :
    (readSizeOf sectorSize bufSize sectors).toNat ≤
      sectors.toNat * sectorSize.toNat % 2 ^ 64 := by
  unfold readSizeOf
  split
  · next hgreat =>
    have hlt := UInt64.lt_iff_toNat_lt.mp hgreat
    have hle := Nat.div_mul_le_self bufSize.toNat sectorSize.toNat
    rw [UInt64.toNat_mul] at hlt
    rw [toNat_roundDown]
    omega
  · exact Nat.le_of_eq (UInt64.toNat_mul _ _)

/-- **Where the product wraps** the loop does not end: what remains takes `2 ^ 64` bytes for ever.
-/
theorem wraps_next (hsound : c.Sound sectorSize bufSize)
    (hwraps : 2 ^ 64 ≤ c.sectorsRemaining.toNat * sectorSize.toNat) :
    2 ^ 64 ≤ (c.next sectorSize bufSize).sectorsRemaining.toNat * sectorSize.toNat := by
  have hread := readSizeOf_le sectorSize bufSize c.sectorsRemaining
  rw [← hsound] at hread
  have hcount : (c.sectorCount sectorSize).toNat * sectorSize.toNat ≤ c.readSize.toNat := by
    unfold sectorCount
    rw [UInt64.toNat_div]
    exact Nat.div_mul_le_self ..
  have hmod := Nat.mod_lt (c.sectorsRemaining.toNat * sectorSize.toNat) (y := 2 ^ 64) (by decide)
  have hle : c.sectorCount sectorSize ≤ c.sectorsRemaining := by
    refine UInt64.le_iff_toNat_le.mpr (Nat.le_of_not_lt fun hlt => ?_)
    have hmul := Nat.mul_le_mul_right sectorSize.toNat (Nat.le_of_lt hlt)
    omega
  have hsplit := Nat.div_add_mod (c.sectorsRemaining.toNat * sectorSize.toNat) (2 ^ 64)
  have hquot : 1 ≤ c.sectorsRemaining.toNat * sectorSize.toNat / 2 ^ 64 :=
    (Nat.le_div_iff_mul_le (by decide)).mpr (by omega)
  unfold next
  dsimp only
  rw [UInt64.toNat_sub_of_le _ _ hle, Nat.sub_mul]
  omega

/-- Where nothing remains to be divided by, nothing is read either. -/
theorem sectorCount_of_zero (hzero : sectorSize = 0) : c.sectorCount sectorSize = 0 := by
  unfold sectorCount
  rw [hzero]
  exact UInt64.toNat_inj.mp (by rw [UInt64.toNat_div]; exact Nat.div_zero _)

/-- Where the product does not wrap a round reads what remains, or as much as fits the buffer. -/
theorem sectorCount_spec (hsound : c.Sound sectorSize bufSize) (hpos : 0 < sectorSize.toNat)
    (hproduct : c.sectorsRemaining.toNat * sectorSize.toNat < 2 ^ 64) :
    (c.sectorCount sectorSize).toNat =
      min c.sectorsRemaining.toNat (bufSize.toNat / sectorSize.toNat) ∧
    c.readSize.toNat = (c.sectorCount sectorSize).toNat * sectorSize.toNat := by
  have hmul : (c.sectorsRemaining * sectorSize).toNat =
      c.sectorsRemaining.toNat * sectorSize.toNat := by
    rw [UInt64.toNat_mul, Nat.mod_eq_of_lt hproduct]
  have hread : c.readSize.toNat = min c.sectorsRemaining.toNat (bufSize.toNat / sectorSize.toNat) *
      sectorSize.toNat := by
    rw [hsound]
    unfold readSizeOf
    split
    · next hgreat =>
      have hlt := UInt64.lt_iff_toNat_lt.mp hgreat
      rw [hmul] at hlt
      have hdiv := (Nat.div_lt_iff_lt_mul hpos).mpr hlt
      rw [toNat_roundDown, Nat.min_eq_right (Nat.le_of_lt hdiv)]
    · next hfits =>
      have hle := Nat.le_of_not_lt fun hlt => hfits (UInt64.lt_iff_toNat_lt.mpr hlt)
      rw [hmul] at hle
      rw [hmul, Nat.min_eq_left ((Nat.le_div_iff_mul_le hpos).mpr hle)]
  have hcount : (c.sectorCount sectorSize).toNat =
      min c.sectorsRemaining.toNat (bufSize.toNat / sectorSize.toNat) := by
    unfold sectorCount
    rw [UInt64.toNat_div, hread, Nat.mul_div_cancel _ hpos]
  exact ⟨hcount, by rw [hcount]; exact hread⟩

end

/-- Where the loop stands when it has gone through some of the sectors. -/
structure Placed (sectorSize bufSize startSector numSectors : UInt64) (c : Chunk) : Prop where
  sound : c.Sound sectorSize bufSize
  le : c.sectorsRemaining.toNat ≤ numSectors.toNat
  whole : c.sectorsRemaining ≠ 0 →
    bufSize.toNat / sectorSize.toNat ∣ numSectors.toNat - c.sectorsRemaining.toNat
  start : c.startSector.toNat =
    (startSector.toNat + (numSectors.toNat - c.sectorsRemaining.toNat)) % 2 ^ 64

section
variable {sectorSize bufSize startSector numSectors : UInt64} {c : Chunk}

theorem placed_first :
    (first sectorSize bufSize startSector numSectors).Placed sectorSize bufSize startSector
      numSectors where
  sound := rfl
  le := Nat.le_refl _
  whole := fun _ => by
    unfold first
    rw [Nat.sub_self]
    exact Nat.dvd_zero _
  start := by
    unfold first
    rw [Nat.sub_self, Nat.add_zero, Nat.mod_eq_of_lt startSector.toNat_lt]

/-- What a round goes on by. -/
theorem next_remaining (h : c.Sound sectorSize bufSize) (hpos : 0 < sectorSize.toNat)
    (hproduct : c.sectorsRemaining.toNat * sectorSize.toNat < 2 ^ 64) :
    (c.next sectorSize bufSize).sectorsRemaining.toNat =
      c.sectorsRemaining.toNat - (c.sectorCount sectorSize).toNat ∧
    (c.sectorCount sectorSize).toNat ≤ c.sectorsRemaining.toNat := by
  have hcount := (sectorCount_spec h hpos hproduct).1
  have hle : (c.sectorCount sectorSize).toNat ≤ c.sectorsRemaining.toNat := by
    rw [hcount]
    exact Nat.min_le_left ..
  exact ⟨UInt64.toNat_sub_of_le _ _ (UInt64.le_iff_toNat_le.mpr hle), hle⟩

theorem Placed.product (h : c.Placed sectorSize bufSize startSector numSectors)
    (hproduct : numSectors.toNat * sectorSize.toNat < 2 ^ 64) :
    c.sectorsRemaining.toNat * sectorSize.toNat < 2 ^ 64 :=
  Nat.lt_of_le_of_lt (Nat.mul_le_mul_right _ h.le) hproduct

theorem Placed.next (h : c.Placed sectorSize bufSize startSector numSectors)
    (hpos : 0 < sectorSize.toNat) (hproduct : numSectors.toNat * sectorSize.toNat < 2 ^ 64)
    (hgoes : c.sectorsRemaining ≠ 0) :
    (c.next sectorSize bufSize).Placed sectorSize bufSize startSector numSectors := by
  have hcount := (sectorCount_spec h.sound hpos (h.product hproduct)).1
  obtain ⟨hmore, hless⟩ := next_remaining h.sound hpos (h.product hproduct)
  have hle := h.le
  refine ⟨sound_next, by omega, fun hmore' => ?_, ?_⟩
  · have hne : (c.next sectorSize bufSize).sectorsRemaining.toNat ≠ 0 :=
      fun hzero => hmore' (UInt64.toNat_inj.mp hzero)
    have hdone : numSectors.toNat - (c.next sectorSize bufSize).sectorsRemaining.toNat =
        numSectors.toNat - c.sectorsRemaining.toNat + bufSize.toNat / sectorSize.toNat := by
      omega
    rw [hdone]
    exact Nat.dvd_add (h.whole hgoes) (Nat.dvd_refl _)
  · have hstart : (c.next sectorSize bufSize).startSector.toNat =
        (c.startSector.toNat + (c.sectorCount sectorSize).toNat) % 2 ^ 64 := UInt64.toNat_add ..
    rw [hstart, h.start, hmore, Nat.mod_add_mod]
    congr 1
    omega

/-- Where a chunk begins, as long as the last one begins below `2 ^ 64`. -/
theorem Placed.start_eq (h : c.Placed sectorSize bufSize startSector numSectors)
    (hgoes : c.sectorsRemaining ≠ 0)
    (hlast : startSector.toNat + (numSectors.toNat - 1) / (bufSize.toNat / sectorSize.toNat) *
      (bufSize.toNat / sectorSize.toNat) < 2 ^ 64) :
    c.startSector.toNat = startSector.toNat + (numSectors.toNat - c.sectorsRemaining.toNat) := by
  obtain ⟨j, hj⟩ := h.whole hgoes
  have hne : c.sectorsRemaining.toNat ≠ 0 := fun hzero => hgoes (UInt64.toNat_inj.mp hzero)
  have hle := h.le
  have hdone : numSectors.toNat - c.sectorsRemaining.toNat ≤
      (numSectors.toNat - 1) / (bufSize.toNat / sectorSize.toNat) *
        (bufSize.toNat / sectorSize.toNat) := by
    rcases Nat.eq_zero_or_pos (bufSize.toNat / sectorSize.toNat) with hzero | hpos
    · rw [hj, hzero, Nat.zero_mul]
      exact Nat.zero_le _
    · rw [hj, Nat.mul_comm]
      refine Nat.mul_le_mul_right _ ((Nat.le_div_iff_mul_le hpos).mpr ?_)
      rw [Nat.mul_comm]
      omega
  rw [h.start, Nat.mod_eq_of_lt (by omega)]

end

end Chunk

/-! ## The loops -/

section
variable {disk : Contents} {sectorSize bufSize startSector numSectors : UInt64} {s : ReadState}
  {answer : ReadAnswer}

/-- Where nothing has failed the sectors so far have been read, and their bytes taken. -/
structure Along (disk : Contents) (sectorSize startSector numSectors : UInt64) (s : ReadState) :
    Prop where
  sectors : s.sectors = range' startSector.toNat
    (numSectors.toNat - s.chunk.sectorsRemaining.toNat)
  bytes : s.bytes = disk.read (startSector.toNat * sectorSize.toNat)
    ((numSectors.toNat - s.chunk.sectorsRemaining.toNat) * sectorSize.toNat)

/-- What holds between the rounds. -/
structure Covering (disk : Contents) (sectorSize bufSize startSector numSectors : UInt64)
    (s : ReadState) : Prop where
  placed : s.chunk.Placed sectorSize bufSize startSector numSectors
  inOrder : s.sectors <+: range' startSector.toNat numSectors.toNat
  fits : ∀ r ∈ s.reads, r.numSectors.toNat * sectorSize.toNat ≤ bufSize.toNat
  along : s.error = .success → s.errors = false → Along disk sectorSize startSector numSectors s

theorem covering_start :
    Covering disk sectorSize bufSize startSector numSectors
      (startRead sectorSize bufSize startSector numSectors) where
  placed := Chunk.placed_first
  inOrder := nil_prefix
  fits := fun r hr => absurd hr not_mem_nil
  along := fun _ _ => by
    refine ⟨?_, ?_⟩ <;> simp [startRead, Chunk.first, ReadState.sectors]

theorem range'_prefix {start n m : Nat} (h : n ≤ m) : range' start n <+: range' start m :=
  ⟨range' (start + n) (m - n), by rw [range'_append_1, Nat.add_sub_cancel' h]⟩

/-- What a read that succeeds puts into the buffer. -/
theorem data_readInto (hsuccess : answer.result = .success)
    (hsize : s.chunk.readSize.toNat = (s.chunk.sectorCount sectorSize).toNat * sectorSize.toNat) :
    s.data (readInto disk sectorSize (s.read sectorSize) answer) =
      disk.read (s.chunk.startSector.toNat * sectorSize.toNat)
        ((s.chunk.sectorCount sectorSize).toNat * sectorSize.toNat) := by
  unfold ReadState.data Contents.read
  rw [hsize, range'_eq_map_range, map_map]
  refine map_congr_left fun i hi => ?_
  exact if_pos ⟨hsuccess, mem_range.mp hi⟩

variable (answer) in
/-- **One call.** It reads the sectors behind those that have been read. -/
theorem Covering.read (h : Covering disk sectorSize bufSize startSector numSectors s)
    (herror : s.error = .success) (herrors : s.errors = false)
    (hgoes : s.chunk.sectorsRemaining ≠ 0) (hpos : 0 < sectorSize.toNat)
    (hproduct : numSectors.toNat * sectorSize.toNat < 2 ^ 64)
    (hlast : startSector.toNat + (numSectors.toNat - 1) / (bufSize.toNat / sectorSize.toNat) *
      (bufSize.toNat / sectorSize.toNat) < 2 ^ 64) :
    s.sectors ++ (s.read sectorSize).sectors = range' startSector.toNat
      (numSectors.toNat - (s.chunk.next sectorSize bufSize).sectorsRemaining.toNat) ∧
    (s.read sectorSize).numSectors.toNat * sectorSize.toNat ≤ bufSize.toNat ∧
    (answer.result = .success →
      s.bytes ++ s.data (readInto disk sectorSize (s.read sectorSize) answer) =
        disk.read (startSector.toNat * sectorSize.toNat) ((numSectors.toNat -
          (s.chunk.next sectorSize bufSize).sectorsRemaining.toNat) * sectorSize.toNat)) := by
  obtain ⟨hsectors, hbytes⟩ := h.along herror herrors
  obtain ⟨hcount, hsize⟩ := Chunk.sectorCount_spec h.placed.sound hpos (h.placed.product hproduct)
  obtain ⟨hmore, hless⟩ := Chunk.next_remaining h.placed.sound hpos (h.placed.product hproduct)
  have hstart := h.placed.start_eq hgoes hlast
  have hle := h.placed.le
  have hdone : numSectors.toNat - s.chunk.sectorsRemaining.toNat +
      (s.chunk.sectorCount sectorSize).toNat =
        numSectors.toNat - (s.chunk.next sectorSize bufSize).sectorsRemaining.toNat := by
    omega
  refine ⟨?_, ?_, fun hsuccess => ?_⟩
  · have hcall : (s.read sectorSize).sectors =
        range' s.chunk.startSector.toNat (s.chunk.sectorCount sectorSize).toNat := rfl
    rw [hsectors, hcall, hstart, range'_append_1, hdone]
  · have hcall : (s.read sectorSize).numSectors.toNat = (s.chunk.sectorCount sectorSize).toNat :=
      rfl
    have hmin := Nat.min_le_right s.chunk.sectorsRemaining.toNat
      (bufSize.toNat / sectorSize.toNat)
    rw [hcall, hcount]
    exact Nat.le_trans (Nat.mul_le_mul_right _ hmin) (Nat.div_mul_le_self ..)
  · rw [hbytes, data_readInto hsuccess hsize, hstart, Nat.add_mul, Contents.read_append,
      ← Nat.add_mul, hdone]

theorem sectors_append (s : ReadState) (r : StorageRead) :
    (s.reads ++ [r]).flatMap StorageRead.sectors = s.sectors ++ r.sectors := by
  unfold ReadState.sectors
  rw [flatMap_append, flatMap_singleton]

section
variable (hpos : 0 < sectorSize.toNat) (hproduct : numSectors.toNat * sectorSize.toNat < 2 ^ 64)
  (hlast : startSector.toNat + (numSectors.toNat - 1) / (bufSize.toNat / sectorSize.toNat) *
    (bufSize.toNat / sectorSize.toNat) < 2 ^ 64)
include hpos hproduct hlast

/-- A round of `handle_read`. -/
theorem Covering.sendRound (h : Covering disk sectorSize bufSize startSector numSectors s)
    (hgoes : ¬ s.Ended) : Covering disk sectorSize bufSize startSector numSectors
      (s.sendRound disk sectorSize bufSize answer) := by
  have hmore : s.chunk.sectorsRemaining ≠ 0 := fun hzero => hgoes (.inr hzero)
  have herrors : s.errors = false := Bool.eq_false_iff.mpr fun herrors => hgoes (.inl herrors)
  have hplaced := h.placed.next hpos hproduct hmore
  unfold ReadState.sendRound
  by_cases herror : s.error = .success
  · obtain ⟨hsectors, hfits, hbytes⟩ := h.read answer herror herrors hmore hpos hproduct
      hlast
    rw [if_pos herror]
    refine ⟨hplaced, ?_, fun r hr => ?_, fun hsuccess _ => ⟨?_, hbytes hsuccess⟩⟩
    · unfold ReadState.sectors
      rw [sectors_append, hsectors]
      exact range'_prefix (Nat.sub_le ..)
    · rcases mem_append.mp hr with hr | hr
      · exact h.fits r hr
      · rw [mem_singleton.mp hr]
        exact hfits
    · unfold ReadState.sectors
      rw [sectors_append, hsectors]
  · rw [if_neg herror]
    exact ⟨hplaced, h.inOrder, h.fits, fun hsuccess => absurd hsuccess herror⟩

/-- A round of `handle_get_sha256`. -/
theorem Covering.hashRound (h : Covering disk sectorSize bufSize startSector numSectors s)
    (herror : s.error = .success) (hgoes : ¬ s.Ended) :
    Covering disk sectorSize bufSize startSector numSectors
      (s.hashRound disk sectorSize bufSize answer) := by
  have hmore : s.chunk.sectorsRemaining ≠ 0 := fun hzero => hgoes (.inr hzero)
  have herrors : s.errors = false := Bool.eq_false_iff.mpr fun herrors => hgoes (.inl herrors)
  obtain ⟨hsectors, hfits, hbytes⟩ := h.read answer herror herrors hmore hpos hproduct
    hlast
  have hinOrder : (s.reads ++ [s.read sectorSize]).flatMap StorageRead.sectors <+:
      range' startSector.toNat numSectors.toNat := by
    rw [sectors_append, hsectors]
    exact range'_prefix (Nat.sub_le ..)
  have hall : ∀ r ∈ s.reads ++ [s.read sectorSize],
      r.numSectors.toNat * sectorSize.toNat ≤ bufSize.toNat := fun r hr => by
    rcases mem_append.mp hr with hr | hr
    · exact h.fits r hr
    · rw [mem_singleton.mp hr]
      exact hfits
  unfold ReadState.hashRound
  dsimp only
  split
  · exact ⟨h.placed, hinOrder, hall, fun _ => nofun⟩
  · next hsuccess =>
    split
    · exact ⟨h.placed, hinOrder, hall, fun _ => nofun⟩
    · refine ⟨h.placed.next hpos hproduct hmore, hinOrder, hall, fun _ _ => ⟨?_, ?_⟩⟩
      · unfold ReadState.sectors
        rw [sectors_append, hsectors]
      · exact hbytes (Decidable.not_not.mp hsuccess)

end

theorem sendRound_chunk (s : ReadState) :
    (s.sendRound disk sectorSize bufSize answer).chunk = s.chunk.next sectorSize bufSize ∧
    (s.sendRound disk sectorSize bufSize answer).errors = s.errors := by
  unfold ReadState.sendRound
  split <;> exact ⟨rfl, rfl⟩

/-- What remains gets less in a round that goes on. -/
theorem Covering.remaining_lt (h : Covering disk sectorSize bufSize startSector numSectors s)
    (hpos : 0 < sectorSize.toNat) (hproduct : numSectors.toNat * sectorSize.toNat < 2 ^ 64)
    (hbuf : sectorSize ≤ bufSize) (hgoes : s.chunk.sectorsRemaining ≠ 0) :
    (s.chunk.next sectorSize bufSize).sectorsRemaining.toNat < s.chunk.sectorsRemaining.toNat := by
  have hcount := (Chunk.sectorCount_spec h.placed.sound hpos (h.placed.product hproduct)).1
  have hmore := (Chunk.next_remaining h.placed.sound hpos (h.placed.product hproduct)).1
  have hne : s.chunk.sectorsRemaining.toNat ≠ 0 := fun hzero => hgoes (UInt64.toNat_inj.mp hzero)
  have hroom : 1 ≤ bufSize.toNat / sectorSize.toNat :=
    (Nat.le_div_iff_mul_le hpos).mpr (by rw [Nat.one_mul]; exact UInt64.le_iff_toNat_le.mp hbuf)
  omega

/-- At the end all has been read. -/
theorem Covering.complete (h : Covering disk sectorSize bufSize startSector numSectors s)
    (hended : s.Ended) (herror : s.error = .success) (herrors : s.errors = false) :
    s.sectors = range' startSector.toNat numSectors.toNat ∧
      s.bytes = disk.read (startSector.toNat * sectorSize.toNat)
        (numSectors.toNat * sectorSize.toNat) := by
  obtain ⟨hsectors, hbytes⟩ := h.along herror herrors
  have hzero : s.chunk.sectorsRemaining = 0 :=
    hended.resolve_left fun h => Bool.false_ne_true (herrors.symm.trans h)
  rw [hzero, UInt64.toNat_zero, Nat.sub_zero] at hsectors hbytes
  exact ⟨hsectors, hbytes⟩

/-- Where nothing is asked for nothing is read. -/
theorem covers_nothing {turn : (Nat → ReadAnswer) → Nat → ReadState → Option ReadState} :
    Covers disk sectorSize bufSize startSector 0 fun answers =>
      turns ReadState.Ended (turn answers) (startRead sectorSize bufSize startSector 0) := by
  have hended : (startRead sectorSize bufSize startSector 0).Ended := .inr rfl
  have hstart : Covering disk sectorSize bufSize startSector 0
      (startRead sectorSize bufSize startSector 0) := covering_start
  have hall : ∀ answers n s, turns ReadState.Ended (turn answers)
      (startRead sectorSize bufSize startSector 0) n = some s →
        s = startRead sectorSize bufSize startSector 0 := fun answers n s h => by
    rw [turns_ended hended] at h
    exact (Option.some.inj h).symm
  refine ⟨fun answers => ⟨0, _, rfl, hended⟩, fun answers n s h => ?_, fun answers n s h => ?_,
    fun answers n s h => ?_⟩ <;> rw [hall answers n s h]
  · exact hstart.inOrder
  · exact hstart.fits
  · exact fun hended => hstart.complete hended

/-- Where the chunks fit `handle_read` covers the sectors. -/
theorem ChunksFit.handleRead (h : ChunksFit sectorSize bufSize startSector numSectors)
    (hbuf : sectorSize ≤ bufSize) : Covers disk sectorSize bufSize startSector numSectors
      (handleRead disk sectorSize bufSize startSector numSectors) := by
  rcases h with rfl | ⟨hpos, hproduct, hlast⟩
  · exact covers_nothing
  · have hall : ∀ answers n s, DevPrg.handleRead disk sectorSize bufSize startSector numSectors
        answers n = some s → Covering disk sectorSize bufSize startSector numSectors s :=
      fun answers n s hs => turns_invariant covering_start
        (fun {n t u} _ ht hgoes hturn => by
          cases hturn
          exact ht.sendRound hpos hproduct hlast hgoes) hs
    refine ⟨fun answers => ?_, fun answers n s hs => (hall answers n s hs).inOrder,
      fun answers n s hs => (hall answers n s hs).fits,
      fun answers n s hs hended => (hall answers n s hs).complete hended⟩
    refine turns_end (I := Covering disk sectorSize bufSize startSector numSectors)
      (fun s => s.chunk.sectorsRemaining.toNat) covering_start fun n t _ ht hgoes => ?_
    refine ⟨_, rfl, ht.sendRound hpos hproduct hlast hgoes, ?_⟩
    rw [(sendRound_chunk t).1]
    exact ht.remaining_lt hpos hproduct hbuf fun hzero => hgoes (.inr hzero)

/-- Where the chunks fit `handle_get_sha256` covers the sectors. -/
theorem ChunksFit.handleGetSha256 (h : ChunksFit sectorSize bufSize startSector numSectors)
    (hbuf : sectorSize ≤ bufSize) : Covers disk sectorSize bufSize startSector numSectors
      (handleGetSha256 disk sectorSize bufSize startSector numSectors) := by
  rcases h with rfl | ⟨hpos, hproduct, hlast⟩
  · exact covers_nothing
  · -- before the loop is left no read has failed
    have hturn : ∀ (answer : ReadAnswer) (t : ReadState),
        Covering disk sectorSize bufSize startSector numSectors t ∧
          (t.errors = false → t.error = .success) → ¬ t.Ended →
        Covering disk sectorSize bufSize startSector numSectors
            (t.hashRound disk sectorSize bufSize answer) ∧
          ((t.hashRound disk sectorSize bufSize answer).errors = false →
            (t.hashRound disk sectorSize bufSize answer).error = .success) := by
      intro answer t ⟨ht, herror⟩ hgoes
      have herrors : t.errors = false := Bool.eq_false_iff.mpr fun herrors => hgoes (.inl herrors)
      refine ⟨ht.hashRound hpos hproduct hlast (herror herrors) hgoes, ?_⟩
      unfold ReadState.hashRound
      dsimp only
      split
      · exact nofun
      · next hsuccess =>
        split
        · exact nofun
        · exact fun _ => Decidable.not_not.mp hsuccess
    have hall : ∀ answers n s, DevPrg.handleGetSha256 disk sectorSize bufSize startSector numSectors
        answers n = some s → Covering disk sectorSize bufSize startSector numSectors s ∧
          (s.errors = false → s.error = .success) :=
      fun answers n s hs => turns_invariant
        (I := fun t => Covering disk sectorSize bufSize startSector numSectors t ∧
          (t.errors = false → t.error = .success)) ⟨covering_start, fun _ => rfl⟩
        (fun {n t u} _ ht hgoes hrun => by
          cases hrun
          exact hturn (answers n) t ht hgoes) hs
    refine ⟨fun answers => ?_, fun answers n s hs => (hall answers n s hs).1.inOrder,
      fun answers n s hs => (hall answers n s hs).1.fits,
      fun answers n s hs hended => (hall answers n s hs).1.complete hended⟩
    refine turns_end (I := fun t => Covering disk sectorSize bufSize startSector numSectors t ∧
        (t.errors = false → t.error = .success))
      (fun s => if s.errors then 0 else s.chunk.sectorsRemaining.toNat)
      ⟨covering_start, fun _ => rfl⟩
      fun n t _ ht hgoes => ?_
    have hmore : t.chunk.sectorsRemaining ≠ 0 := fun hzero => hgoes (.inr hzero)
    have herrors : t.errors = false := Bool.eq_false_iff.mpr fun herrors => hgoes (.inl herrors)
    have hne : t.chunk.sectorsRemaining.toNat ≠ 0 := fun hzero => hmore (UInt64.toNat_inj.mp hzero)
    have hless := ht.1.remaining_lt hpos hproduct hbuf hmore
    refine ⟨_, rfl, hturn (answers n) t ht hgoes, ?_⟩
    unfold ReadState.hashRound
    dsimp only
    rw [herrors, if_neg Bool.false_ne_true]
    split
    · exact Nat.pos_of_ne_zero hne
    · split
      · exact Nat.pos_of_ne_zero hne
      · exact hless

/-- A chunk that never comes to its end. -/
theorem never_ends {P : Chunk → Prop} (answers : Nat → ReadAnswer)
    (hfirst : P (.first sectorSize bufSize startSector numSectors))
    (hnext : ∀ c, P c → P (c.next sectorSize bufSize)) (hgoes : ∀ c, P c → c.sectorsRemaining ≠ 0) :
    ¬ ∃ n s, handleRead disk sectorSize bufSize startSector numSectors answers n = some s ∧
      s.Ended := by
  rintro ⟨n, s, hs, hended⟩
  obtain ⟨hP, herrors⟩ : P s.chunk ∧ s.errors = false := by
    refine turns_invariant (I := fun s => P s.chunk ∧ s.errors = false) ⟨hfirst, rfl⟩
      (fun {n t u} _ ht _ hturn => ?_) hs
    cases hturn
    rw [(sendRound_chunk t).1, (sendRound_chunk t).2]
    exact ⟨hnext t.chunk ht.1, ht.2⟩
  rcases hended with hleft | hzero
  · exact Bool.false_ne_true (herrors.symm.trans hleft)
  · exact hgoes s.chunk hP hzero

/-- A read that succeeds. -/
def readDone : ReadAnswer := ⟨.success, fun _ => 0, true⟩

/-- Where `handle_read` covers the sectors the chunks fit. -/
theorem Covers.chunksFit (h : Covers disk sectorSize bufSize startSector numSectors
    (handleRead disk sectorSize bufSize startSector numSectors)) (hbuf : sectorSize ≤ bufSize) :
    ChunksFit sectorSize bufSize startSector numSectors := by
  by_cases hnone : numSectors = 0
  · exact .inl hnone
  refine .inr ?_
  have hpos : 0 < sectorSize.toNat := by
    refine Nat.pos_of_ne_zero fun hzero => ?_
    have hzero : sectorSize = 0 := UInt64.toNat_inj.mp hzero
    refine never_ends (P := fun c => c.sectorsRemaining = numSectors) (fun _ => readDone) rfl
      (fun c hc => ?_) (fun c hc => by rw [hc]; exact hnone) (h.ends fun _ => readDone)
    unfold Chunk.next
    dsimp only
    rw [Chunk.sectorCount_of_zero hzero, hc]
    exact UInt64.sub_zero numSectors
  have hproduct : numSectors.toNat * sectorSize.toNat < 2 ^ 64 := by
    refine Nat.lt_of_not_le fun hwraps => ?_
    refine never_ends (P := fun c => c.Sound sectorSize bufSize ∧
        2 ^ 64 ≤ c.sectorsRemaining.toNat * sectorSize.toNat) (fun _ => readDone) ⟨rfl, hwraps⟩
      (fun c hc => ⟨Chunk.sound_next, Chunk.wraps_next hc.1 hc.2⟩) (fun c hc hzero => ?_)
      (h.ends fun _ => readDone)
    have hwraps := hc.2
    rw [hzero, UInt64.toNat_zero, Nat.zero_mul] at hwraps
    exact absurd hwraps (by decide)
  refine ⟨hpos, hproduct, ?_⟩
  -- the last chunk begins where the sectors that have been read end
  have hstart : ¬ (startRead sectorSize bufSize startSector numSectors).Ended :=
    fun hended => hended.elim Bool.false_ne_true hnone
  obtain ⟨n, s, hs, hended⟩ := h.ends fun _ => readDone
  obtain ⟨m, u, v, hu, hgoes, hv, hended⟩ := turns_last hstart hs hended
  have hplaced : u.chunk.Placed sectorSize bufSize startSector numSectors ∧ u.error = .success ∧
      u.errors = false ∧
      u.sectors.length = numSectors.toNat - u.chunk.sectorsRemaining.toNat := by
    refine turns_invariant (I := fun u =>
      u.chunk.Placed sectorSize bufSize startSector numSectors ∧ u.error = .success ∧
      u.errors = false ∧ u.sectors.length = numSectors.toNat - u.chunk.sectorsRemaining.toNat)
      ⟨Chunk.placed_first, rfl, rfl, by simp [startRead, Chunk.first, ReadState.sectors]⟩
      (fun {n t u} _ ht hgoes hturn => ?_) hu
    obtain ⟨hplaced, herror, herrors, hlen⟩ := ht
    have hmore : t.chunk.sectorsRemaining ≠ 0 := fun hzero => hgoes (.inr hzero)
    obtain ⟨hless, hcount⟩ := Chunk.next_remaining hplaced.sound hpos (hplaced.product hproduct)
    have hle := hplaced.le
    cases hturn
    unfold ReadState.sendRound
    rw [if_pos herror]
    refine ⟨hplaced.next hpos hproduct hmore, rfl, herrors, ?_⟩
    unfold ReadState.sectors
    rw [sectors_append, length_append, hlen]
    have hcall : (t.read sectorSize).sectors.length = (t.chunk.sectorCount sectorSize).toNat :=
      length_range' ..
    rw [hcall]
    dsimp only
    omega
  obtain ⟨hplaced, herror, herrors, hlen⟩ := hplaced
  have hmore : u.chunk.sectorsRemaining ≠ 0 := fun hzero => hgoes (.inr hzero)
  have hne : u.chunk.sectorsRemaining.toNat ≠ 0 := fun hzero => hmore (UInt64.toNat_inj.mp hzero)
  obtain ⟨hcount, -⟩ := Chunk.sectorCount_spec hplaced.sound hpos (hplaced.product hproduct)
  obtain ⟨hnext, -⟩ := Chunk.next_remaining hplaced.sound hpos (hplaced.product hproduct)
  have hle := hplaced.le
  have hroom : 1 ≤ bufSize.toNat / sectorSize.toNat :=
    (Nat.le_div_iff_mul_le hpos).mpr (by rw [Nat.one_mul]; exact UInt64.le_iff_toNat_le.mp hbuf)
  have hv' : handleRead disk sectorSize bufSize startSector numSectors (fun _ => readDone) (m + 1) =
      some v := by
    unfold handleRead
    rw [turns_succ hu, if_neg hgoes]
    exact hv
  have hprefix := h.inOrder _ _ _ hv'
  cases hv
  -- its first sector
  have hsectors : (u.sendRound disk sectorSize bufSize readDone).sectors =
      u.sectors ++ (u.read sectorSize).sectors := by
    unfold ReadState.sendRound
    rw [if_pos herror]
    exact sectors_append u _
  have hat : u.chunk.startSector.toNat =
      startSector.toNat + (numSectors.toNat - u.chunk.sectorsRemaining.toNat) := by
    rw [hsectors] at hprefix
    obtain ⟨rest, hrest⟩ := hprefix
    have hcall : (u.read sectorSize).sectors =
        range' u.chunk.startSector.toNat (u.chunk.sectorCount sectorSize).toNat := rfl
    have hget := congrArg (fun l : List Nat => l[u.sectors.length]?) hrest
    rw [append_assoc, getElem?_append_right (Nat.le_refl _), Nat.sub_self, hcall,
      getElem?_append_left (by rw [length_range']; omega), getElem?_range' (by omega),
      getElem?_range' (by omega), hlen] at hget
    have hsame := Option.some.inj hget
    omega
  have hend : (u.chunk.next sectorSize bufSize).sectorsRemaining = 0 := by
    rcases hended with hleft | hzero
    · rw [(sendRound_chunk u).2, herrors] at hleft
      cases hleft
    · rw [(sendRound_chunk u).1] at hzero
      exact hzero
  rw [hend, UInt64.toNat_zero] at hnext
  have hfew : u.chunk.sectorsRemaining.toNat ≤ bufSize.toNat / sectorSize.toNat := by omega
  obtain ⟨j, hj⟩ := hplaced.whole hmore
  have hlast : (numSectors.toNat - 1) / (bufSize.toNat / sectorSize.toNat) = j := by
    have hsplit : numSectors.toNat - 1 =
        bufSize.toNat / sectorSize.toNat * j + (u.chunk.sectorsRemaining.toNat - 1) := by omega
    rw [hsplit, Nat.mul_add_div (by omega), Nat.div_eq_of_lt (by omega), Nat.add_zero]
  have hlt := u.chunk.startSector.toNat_lt
  rw [hlast, Nat.mul_comm, ← hj, ← hat]
  exact hlt

/-- **Both loops cover the sectors exactly where the chunks fit.** -/
theorem chunks_cover_iff (disk : Contents) (startSector numSectors : UInt64)
    (hbuf : sectorSize ≤ bufSize) :
    (Covers disk sectorSize bufSize startSector numSectors
        (handleRead disk sectorSize bufSize startSector numSectors) ∧
      Covers disk sectorSize bufSize startSector numSectors
        (handleGetSha256 disk sectorSize bufSize startSector numSectors)) ↔
      ChunksFit sectorSize bufSize startSector numSectors :=
  ⟨fun h => h.1.chunksFit hbuf, fun h => ⟨h.handleRead hbuf, h.handleGetSha256 hbuf⟩⟩

end

/-- Three sectors of 4096 bytes into a buffer for two. -/
theorem chunks_cover_three :
    Covers (fun _ => 7) 4096 8192 10 3 (handleRead (fun _ => 7) 4096 8192 10 3) ∧
      Covers (fun _ => 7) 4096 8192 10 3 (handleGetSha256 (fun _ => 7) 4096 8192 10 3) :=
  (chunks_cover_iff (fun _ => 7) 10 3 (by decide)).mpr (.inr (by decide))

/-- The bytes of `2 ^ 52` sectors of 4096 bytes do not fit 64 bits. -/
theorem chunks_not_covered : ¬ Covers (fun _ => 0) 4096 8192 0 0x10000000000000
    (handleRead (fun _ => 0) 4096 8192 0 0x10000000000000) := by
  intro h
  rcases h.chunksFit (by decide) with hnone | ⟨-, hproduct, -⟩
  · exact absurd hnone (by decide)
  · exact absurd hproduct (by decide)

end DevPrg
