import BootXf.Lib.Checked
import BootXf.Lib.Storage
import BootXf.XBLLoader.ElfLoader

/-!
# Reading a partition from the SDCC device

`boot_flash_trans_sdcc_read` and `dev_sdcc_read_bytes`: a range of bytes is read as a partial first
sector through a buffer, whole sectors in blocks of at most `UINT16_MAX_VALUE`, and a partial last
sector. What is stored at the destination is kept as the list of bytes, which only grows at its end.

`devSdccReadBytes_fills` says that a read either stores exactly the bytes of the partition, or fails
and has stored no more of them than it was asked for; `sdccTrans` is the flash translation interface
that follows.
-/

namespace XBLLoader

open Lib List Checked

/-! ## The device -/

/-- `UINT16_MAX_VALUE`. -/
def uint16MaxValue : UInt32 := 0xFFFF

/-- `MAX_SECTOR_SIZE`. -/
def maxSectorSize : UInt32 := 4096

/-- An entry of `sbl_partitions` with what lies in the partition and `boot_coldplug_read` on it. A
read that reports success has stored the sectors it was asked for, any other one no more than these;
devices have sectors of at least 512 bytes. -/
structure ColdplugPartition where
  chdl : Bool
  blksz : UInt32
  content : Contents
  read : (lba lbaCount : UInt64) → Bool × List UInt8
  blksz_ge : 512 ≤ blksz.toNat
  read_length : ∀ lba n, (read lba n).2.length ≤ n.toNat * blksz.toNat
  read_ok : ∀ lba n, (read lba n).1 = true →
    (read lba n).2 = content.read (lba.toNat * blksz.toNat) (n.toNat * blksz.toNat)

/-- Code of `dev_sdcc_read_bytes` between `do` and `while (0)`: the state is what has been stored at
the destination. -/
abbrev SdccRead := Checked (List UInt8) Unit

section Code
variable (dev : ColdplugPartition)

/-- One sector is read into `dev_sdcc_buf_unalign`. -/
def readSector (startSector : UInt32) : SdccRead (List UInt8) :=
  let r := dev.read startSector.toUInt64 1
  breakOn (if r.1 then .ok r.2 else .error ())

/-- `qmemcpy` to `dest_addr`, which moves on. -/
def storeBytes (bytes : List UInt8) : SdccRead Unit :=
  update (· ++ bytes)

/-- Sectors are read to `dest_addr`. -/
def readSectors (startSector : UInt32) (blockCount : UInt16) : SdccRead Unit := do
  let r := dev.read startSector.toUInt64 blockCount.toUInt64
  storeBytes r.2
  breakIf (!r.1) ()

/-- The loop over the whole sectors. It returns `start_sector`. -/
def readRemainingSectors : Nat → UInt32 → UInt32 → SdccRead UInt32
  | 0, startSector, _ => pure startSector
  | fuel + 1, startSector, numSectors =>
    if numSectors > 0 then do
      let blockCount := if numSectors > uint16MaxValue then uint16MaxValue.toUInt16
        else numSectors.toUInt16
      readSectors dev startSector blockCount
      readRemainingSectors fuel (startSector + blockCount.toUInt32)
        (numSectors - blockCount.toUInt32)
    else pure startSector

/-- The whole sectors and the partial last one. -/
def readFromSector (startSector numSectors trailingLength : UInt32) : SdccRead Unit := do
  let numSectors := if trailingLength ≠ 0 ∧ numSectors > 0 then numSectors - 1 else numSectors
  let startSector ← readRemainingSectors dev numSectors.toNat startSector numSectors
  if trailingLength ≠ 0 then
    let buf ← readSector dev startSector
    storeBytes (buf.take trailingLength.toNat)

/-- The reads of `dev_sdcc_read_bytes`, for the sectors it has computed. -/
def readSectorRange (startSector leadingPad endSector trailingLength bytesToRead : UInt32) :
    SdccRead Unit := do
  let numSectors :=
    if trailingLength ≠ 0 then endSector - startSector + 1 else endSector - startSector
  if leadingPad > 0 then
    let buf ← readSector dev startSector
    if endSector = startSector ∧ trailingLength ≠ 0 then
      storeBytes ((buf.drop leadingPad.toNat).take bytesToRead.toNat)
    else
      storeBytes ((buf.drop leadingPad.toNat).take (dev.blksz - leadingPad).toNat)
      let numSectors := if numSectors > 0 then numSectors - 1 else numSectors
      readFromSector dev (startSector + 1) numSectors trailingLength
  else readFromSector dev startSector numSectors trailingLength

/-- `dev_sdcc_read_bytes`. A sector size that does not fit the buffer is fatal there; here it ends
as a read that fails, which is fatal in the callers. -/
def devSdccReadBytes (srcOffset : UInt64) (bytesToRead : UInt32) : SdccRead Unit := do
  let sectorSize := dev.blksz.toUInt64
  breakIf (!dev.chdl) ()
  breakIf (dev.blksz == 0) ()
  breakIf (!decide (dev.blksz ≤ maxSectorSize)) ()
  let endSectorBytes := srcOffset + bytesToRead.toUInt64
  readSectorRange dev (srcOffset / sectorSize).toUInt32 (srcOffset % sectorSize).toUInt32
    (endSectorBytes / sectorSize).toUInt32 (endSectorBytes % sectorSize).toUInt32 bytesToRead

/-- `boot_flash_trans_sdcc_read`: the device is asked for 32-bit offsets and sizes. -/
def bootFlashTransSdccRead (byteOffset size : UInt32) : Except Unit Unit × List UInt8 :=
  if size > 0 then devSdccReadBytes dev byteOffset.toUInt64 size [] else (.ok (), [])

end Code

/-! ## What is stored -/

/-- A read from `off` on has come to its end with the value `a` and `n` bytes of the partition, or
has failed with at most `n` bytes. -/
inductive Fills (c : Contents) (off n : Nat) {α : Type} (a : α) :
    Except Unit α × List UInt8 → Prop
  | done : Fills c off n a (.ok a, c.read off n)
  | failed {l : List UInt8} (h : l.length ≤ n) : Fills c off n a (.error (), l)

section
variable {α β : Type} {c : Contents} {off n k : Nat}

/-- Two reads, one after the other. -/
theorem Fills.bind {p : SdccRead α} {f : α → SdccRead β} {l : List UInt8} {a : α} {b : β}
    (hn : n ≤ k) (hp : Fills c off n a (p l)) (hf : Fills c off k b (f a (c.read off n))) :
    Fills c off k b ((p >>= f) l) := by
  generalize hr : p l = r at hp
  cases hp with
  | done => rwa [bind_run hr]
  | failed h =>
    rw [bind_error hr]
    exact .failed (Nat.le_trans h hn)

/-- A read in two parts, at `k`. -/
theorem read_split (c : Contents) (off : Nat) (h : k ≤ n) :
    c.read off n = c.read off k ++ c.read (off + k) (n - k) := by
  rw [Contents.read_append, Nat.add_sub_cancel' h]

theorem take_read (c : Contents) (off : Nat) (h : k ≤ n) :
    (c.read off n).take k = c.read off k := by
  rw [read_split c off h]
  exact take_left' (Contents.length_read c off k)

theorem drop_read (c : Contents) (off : Nat) (h : k ≤ n) :
    (c.read off n).drop k = c.read (off + k) (n - k) := by
  rw [read_split c off h]
  exact drop_left' (Contents.length_read c off k)

theorem storeBytes_fills {bytes : List UInt8} (h : bytes = c.read (off + n) k) :
    Fills c off (n + k) () (storeBytes bytes (c.read off n)) := by
  have hrun : storeBytes bytes (c.read off n) = (.ok (), c.read off (n + k)) := by
    rw [← Contents.read_append, ← h]
    rfl
  rw [hrun]
  exact .done

end

section
variable {dev : ColdplugPartition} {off n k : Nat}

/-- A sector goes into the buffer; nothing is stored. -/
theorem readSector_fills (s : UInt32) :
    Fills dev.content off n (dev.content.read (s.toNat * dev.blksz.toNat) dev.blksz.toNat)
      (readSector dev s (dev.content.read off n)) := by
  unfold readSector
  cases hok : (dev.read s.toUInt64 1).1 with
  | false => exact .failed (Nat.le_of_eq (Contents.length_read dev.content off n))
  | true =>
    have hread := dev.read_ok s.toUInt64 1 hok
    rw [UInt32.toNat_toUInt64, show (1 : UInt64).toNat = 1 from rfl, Nat.one_mul] at hread
    rw [← hread]
    exact .done

/-- Sectors of the partition are stored behind what is there. -/
theorem readSectors_fills {s : UInt32} {count : UInt16} (hs : off + n = s.toNat * dev.blksz.toNat) :
    Fills dev.content off (n + count.toNat * dev.blksz.toNat) ()
      (readSectors dev s count (dev.content.read off n)) := by
  have hlba : s.toUInt64.toNat = s.toNat := UInt32.toNat_toUInt64 s
  have hcount : count.toUInt64.toNat = count.toNat := UInt16.toNat_toUInt64 count
  have hlength := dev.read_length s.toUInt64 count.toUInt64
  rw [hcount] at hlength
  unfold readSectors
  have hstore : storeBytes (dev.read s.toUInt64 count.toUInt64).2 (dev.content.read off n) =
      (.ok (), dev.content.read off n ++ (dev.read s.toUInt64 count.toUInt64).2) := rfl
  refine Eq.mpr (congrArg _ (bind_run hstore)) ?_
  cases hok : (dev.read s.toUInt64 count.toUInt64).1 with
  | false =>
    refine .failed ?_
    rw [length_append, Contents.length_read]
    omega
  | true =>
    have hread := dev.read_ok s.toUInt64 count.toUInt64 hok
    rw [hlba, hcount, ← hs] at hread
    rw [hread, Contents.read_append]
    exact .done

/-- **The loop** stores the whole sectors from where the first one begins. -/
theorem readRemainingSectors_fills {fuel : Nat} {s num : UInt32} (hfuel : num.toNat ≤ fuel)
    (hs : off + n = s.toNat * dev.blksz.toNat) (hroom : s.toNat + num.toNat < 2 ^ 32) :
    Fills dev.content off (n + num.toNat * dev.blksz.toNat) (s + num)
      (readRemainingSectors dev fuel s num (dev.content.read off n)) := by
  induction fuel generalizing s num n with
  | zero =>
    have hnum : num = 0 := by
      apply UInt32.toNat_inj.mp
      show num.toNat = 0
      omega
    subst hnum
    rw [show (0 : UInt32).toNat = 0 from rfl, Nat.zero_mul, UInt32.add_zero]
    exact .done
  | succ fuel ih =>
    rw [readRemainingSectors]
    split
    · rename_i hpos
      have hmax : uint16MaxValue.toNat = 65535 := rfl
      rw [gt_iff_lt, UInt32.lt_iff_toNat_lt] at hpos
      generalize hcount : (if num > uint16MaxValue then uint16MaxValue.toUInt16
        else num.toUInt16) = count
      have hle : count.toNat ≤ num.toNat ∧ 0 < count.toNat := by
        subst hcount
        split
        · rename_i hbig
          rw [gt_iff_lt, UInt32.lt_iff_toNat_lt] at hbig
          have : uint16MaxValue.toUInt16.toNat = 65535 := rfl
          omega
        · rename_i hsmall
          rw [gt_iff_lt, UInt32.lt_iff_toNat_lt] at hsmall
          rw [UInt32.toNat_toUInt16]
          omega
      have hcount32 : count.toUInt32.toNat = count.toNat := UInt16.toNat_toUInt32 count
      have hnext : (s + count.toUInt32).toNat = s.toNat + count.toNat := by
        rw [UInt32.toNat_add, hcount32]
        omega
      have hrest : (num - count.toUInt32).toNat = num.toNat - count.toNat := by
        rw [UInt32.toNat_sub_of_le _ _ (UInt32.le_iff_toNat_le.mpr (by omega)), hcount32]
      have hsum : s + count.toUInt32 + (num - count.toUInt32) = s + num := by
        rw [UInt32.add_assoc, UInt32.add_comm count.toUInt32, UInt32.sub_add_cancel]
      have hbytes : count.toNat * dev.blksz.toNat + (num.toNat - count.toNat) * dev.blksz.toNat =
          num.toNat * dev.blksz.toNat := by
        rw [← Nat.add_mul, Nat.add_sub_cancel' hle.1]
      have hstart : off + (n + count.toNat * dev.blksz.toNat) =
          (s + count.toUInt32).toNat * dev.blksz.toNat := by
        rw [hnext, Nat.add_mul]
        omega
      have hfuel' : (num - count.toUInt32).toNat ≤ fuel := by omega
      have hloop := ih hfuel' hstart (by omega)
      rw [hrest, Nat.add_assoc, hbytes, hsum] at hloop
      exact Fills.bind (by omega) (readSectors_fills hs) hloop
    · rename_i hpos
      have hnum : num = 0 := by
        rw [gt_iff_lt, UInt32.lt_iff_toNat_lt] at hpos
        apply UInt32.toNat_inj.mp
        show num.toNat = 0
        have : (0 : UInt32).toNat = 0 := rfl
        omega
      subst hnum
      rw [show (0 : UInt32).toNat = 0 from rfl, Nat.zero_mul, UInt32.add_zero]
      exact .done

/-- From the start of a sector on, the whole sectors and the first bytes of the one behind them. -/
theorem readFromSector_fills {s num trailing : UInt32} {whole : Nat}
    (hs : off + n = s.toNat * dev.blksz.toNat) (hroom : s.toNat + whole < 2 ^ 32)
    (hnum : num.toNat = if trailing ≠ 0 then whole + 1 else whole)
    (htrailing : trailing.toNat ≤ dev.blksz.toNat) :
    Fills dev.content off (n + whole * dev.blksz.toNat + trailing.toNat) ()
      (readFromSector dev s num trailing (dev.content.read off n)) := by
  generalize hwhole : (if trailing ≠ 0 ∧ num > 0 then num - 1 else num) = num'
  have hnum' : num'.toNat = whole := by
    subst hwhole
    split at hnum
    · rename_i htr
      have hpos : num > 0 := by
        rw [gt_iff_lt, UInt32.lt_iff_toNat_lt, hnum]
        exact Nat.succ_pos whole
      rw [if_pos ⟨htr, hpos⟩, UInt32.toNat_sub_of_le _ _ (UInt32.le_iff_toNat_le.mpr (by
        rw [hnum]
        exact Nat.le_add_left 1 whole)), hnum]
      rfl
    · rename_i htr
      rw [if_neg fun h => htr h.1, hnum]
  unfold readFromSector
  rw [hwhole]
  have hloop := readRemainingSectors_fills (Nat.le_refl num'.toNat) hs (by omega)
  rw [hnum'] at hloop ⊢
  refine hloop.bind (by omega) ?_
  split
  · have hsector : (s + num').toNat = s.toNat + whole := by
      rw [UInt32.toNat_add, hnum']
      omega
    refine (readSector_fills (s + num')).bind (by omega) (storeBytes_fills ?_)
    rw [take_read _ _ htrailing, hsector, Nat.add_mul, ← hs, Nat.add_assoc]
  · rename_i htr
    rw [Decidable.not_not.mp htr]
    exact .done

/-- Quotient and remainder of a sum below `2 ^ 33` by a sector size, in the code's types. -/
theorem sector_of {x : UInt64} (hx : x.toNat < 2 ^ 33) (dev : ColdplugPartition) :
    (x / dev.blksz.toUInt64).toUInt32.toNat = x.toNat / dev.blksz.toNat ∧
      (x % dev.blksz.toUInt64).toUInt32.toNat = x.toNat % dev.blksz.toNat := by
  have hb := dev.blksz_ge
  have hlt := dev.blksz.toNat_lt
  have hdiv : x.toNat / dev.blksz.toNat < 2 ^ 32 := by
    rw [Nat.div_lt_iff_lt_mul (by omega)]
    omega
  have hmod := Nat.mod_lt x.toNat (show 0 < dev.blksz.toNat by omega)
  rw [UInt64.toNat_toUInt32, UInt64.toNat_toUInt32, UInt64.toNat_div, UInt64.toNat_mod,
    UInt32.toNat_toUInt64, Nat.mod_eq_of_lt hdiv, Nat.mod_eq_of_lt (by omega)]
  exact ⟨rfl, rfl⟩

/-- The reads store the range from `off` on: it begins `pad` bytes into the first sector, and ends
`trailing` bytes into the last one. -/
theorem readSectorRange_fills {start pad last trailing size : UInt32}
    (hfirst : start.toNat * dev.blksz.toNat + pad.toNat = off)
    (hbehind : last.toNat * dev.blksz.toNat + trailing.toNat = off + size.toNat)
    (hpad : pad.toNat < dev.blksz.toNat) (htrailing : trailing.toNat < dev.blksz.toNat)
    (hlast : last.toNat < 2 ^ 31) (hle : start.toNat ≤ last.toNat) :
    Fills dev.content off size.toNat ()
      (readSectorRange dev start pad last trailing size []) := by
  -- the sectors that the range touches, from the first one's to the last one's
  obtain ⟨whole, hwhole⟩ := Nat.exists_eq_add_of_le hle
  rw [hwhole, Nat.add_mul] at hbehind
  have hsub : (last - start).toNat = whole := by
    rw [UInt32.toNat_sub_of_le _ _ (UInt32.le_iff_toNat_le.mpr hle), hwhole,
      Nat.add_sub_cancel_left]
  generalize hnum : (if trailing ≠ 0 then last - start + 1 else last - start) = num
  have hnum' : num.toNat = if trailing ≠ 0 then whole + 1 else whole := by
    subst hnum
    split
    · rw [UInt32.toNat_add, hsub, show (1 : UInt32).toNat = 1 from rfl]
      omega
    · exact hsub
  have hempty : dev.content.read off 0 = [] := rfl
  unfold readSectorRange
  rw [hnum, ← hempty]
  dsimp only
  split
  · rename_i hpos
    rw [gt_iff_lt, UInt32.lt_iff_toNat_lt, show (0 : UInt32).toNat = 0 from rfl] at hpos
    refine (readSector_fills start).bind (Nat.zero_le _) ?_
    rw [drop_read _ _ (Nat.le_of_lt hpad), hfirst]
    split
    · -- the whole range lies in one sector
      rename_i hone
      have hzero : whole = 0 := by
        have := hone.1 ▸ hsub
        rw [UInt32.sub_self] at this
        exact this.symm
      subst hzero
      rw [take_read _ _ (by omega)]
      have hstored : Fills dev.content off (0 + size.toNat) ()
          (storeBytes (dev.content.read off size.toNat) (dev.content.read off 0)) :=
        storeBytes_fills rfl
      rwa [Nat.zero_add] at hstored
    · rename_i hmore
      have hsome : 0 < whole := by
        refine Nat.pos_of_ne_zero fun hzero => ?_
        subst hzero
        have heq : last = start := UInt32.toNat_inj.mp hwhole
        have htr : trailing = 0 := Decidable.not_not.mp fun h => hmore ⟨heq, h⟩
        subst htr
        rw [show (0 : UInt32).toNat = 0 from rfl] at hbehind
        omega
      obtain ⟨rest, rfl⟩ := Nat.exists_eq_add_of_lt hsome
      rw [Nat.zero_add] at hwhole hnum' hbehind
      rw [Nat.add_mul, Nat.one_mul] at hbehind
      have hnumpos : num > 0 := by
        rw [gt_iff_lt, UInt32.lt_iff_toNat_lt, hnum']
        split <;> exact Nat.succ_pos _
      have hnext : (start + 1).toNat = start.toNat + 1 := by
        rw [UInt32.toNat_add, show (1 : UInt32).toNat = 1 from rfl]
        omega
      have hfirstLen : (dev.blksz - pad).toNat = dev.blksz.toNat - pad.toNat :=
        UInt32.toNat_sub_of_le _ _ (UInt32.le_iff_toNat_le.mpr (Nat.le_of_lt hpad))
      rw [if_pos hnumpos, hfirstLen, take_read _ _ (Nat.le_refl _)]
      have hstored : Fills dev.content off (0 + (dev.blksz.toNat - pad.toNat)) ()
          (storeBytes (dev.content.read off (dev.blksz.toNat - pad.toNat))
            (dev.content.read off 0)) := storeBytes_fills rfl
      refine hstored.bind (by omega) ?_
      have hnumLess : (num - 1).toNat = if trailing ≠ 0 then rest + 1 else rest := by
        have hone : (1 : UInt32).toNat ≤ num.toNat := UInt32.lt_iff_toNat_lt.mp hnumpos
        rw [UInt32.toNat_sub_of_le _ _ (UInt32.le_iff_toNat_le.mpr hone), hnum']
        split <;> rfl
      have hat : off + (0 + (dev.blksz.toNat - pad.toNat)) =
          (start + 1).toNat * dev.blksz.toNat := by
        rw [hnext, Nat.add_mul, Nat.one_mul]
        omega
      have hrest := readFromSector_fills hat (by omega) hnumLess (Nat.le_of_lt htrailing)
      rwa [show 0 + (dev.blksz.toNat - pad.toNat) + rest * dev.blksz.toNat + trailing.toNat =
        size.toNat by omega] at hrest
  · rename_i hpos
    rw [gt_iff_lt, UInt32.lt_iff_toNat_lt, show (0 : UInt32).toNat = 0 from rfl] at hpos
    have hat : off + 0 = start.toNat * dev.blksz.toNat := by omega
    have hall := readFromSector_fills hat (by omega) hnum' (Nat.le_of_lt htrailing)
    rwa [show 0 + whole * dev.blksz.toNat + trailing.toNat = size.toNat by omega] at hall

/-- **A read of the device**: on success the bytes of the partition from the offset on, as many as
asked for; on failure no more than these. -/
theorem devSdccReadBytes_fills (dev : ColdplugPartition) (byteOffset size : UInt32) :
    Fills dev.content byteOffset.toNat size.toNat ()
      (devSdccReadBytes dev byteOffset.toUInt64 size []) := by
  have nothing : Fills dev.content byteOffset.toNat size.toNat () (.error (), []) :=
    .failed (Nat.zero_le _)
  unfold devSdccReadBytes
  dsimp only
  rcases hchdl : (!dev.chdl) with _ | _
  case true => exact nothing
  rw [bind_run (breakIf_run rfl [])]
  rcases hzero : (dev.blksz == 0) with _ | _
  case true => exact nothing
  rw [bind_run (breakIf_run rfl [])]
  rcases hmax : (!decide (dev.blksz ≤ maxSectorSize)) with _ | _
  case true => exact nothing
  rw [bind_run (breakIf_run rfl [])]
  have hb := dev.blksz_ge
  have hoff := byteOffset.toNat_lt
  have hsize := size.toNat_lt
  have hsrc : byteOffset.toUInt64.toNat = byteOffset.toNat := UInt32.toNat_toUInt64 _
  have hend : (byteOffset.toUInt64 + size.toUInt64).toNat = byteOffset.toNat + size.toNat := by
    rw [uint64_toNat_add (by rw [hsrc, UInt32.toNat_toUInt64]; omega), hsrc, UInt32.toNat_toUInt64]
  obtain ⟨hstart, hpad⟩ := sector_of (x := byteOffset.toUInt64) (by omega) dev
  obtain ⟨hlast, htr⟩ := sector_of (x := byteOffset.toUInt64 + size.toUInt64) (by omega) dev
  rw [hsrc] at hstart hpad
  rw [hend] at hlast htr
  have hpos : 0 < dev.blksz.toNat := by omega
  refine readSectorRange_fills ?_ ?_ (hpad ▸ Nat.mod_lt _ hpos) (htr ▸ Nat.mod_lt _ hpos) ?_ ?_
  · rw [hstart, hpad, Nat.mul_comm]
    exact Nat.div_add_mod _ _
  · rw [hlast, htr, Nat.mul_comm]
    exact Nat.div_add_mod _ _
  · rw [hlast, Nat.div_lt_iff_lt_mul hpos]
    omega
  · rw [hstart, hlast]
    exact Nat.div_le_div_right (Nat.le_add_right _ _)

end

/-! ## The flash translation interface -/

theorem bootFlashTransSdccRead_fills (dev : ColdplugPartition) (byteOffset size : UInt32) :
    Fills dev.content byteOffset.toNat size.toNat ()
      (bootFlashTransSdccRead dev byteOffset size) := by
  unfold bootFlashTransSdccRead
  split
  · exact devSdccReadBytes_fills dev byteOffset size
  · rename_i hsize
    rw [uint32_eq_zero_of_not_pos hsize]
    exact .done

/-- The interface of an image in a partition. -/
def sdccTrans (dev : ColdplugPartition) : FlashTrans where
  read byteOffset size :=
    let r := bootFlashTransSdccRead dev byteOffset size
    ⟨r.1.isOk, r.2.length, fun k => r.2.getD k 0⟩
  stored_le byteOffset size := by
    have h := bootFlashTransSdccRead_fills dev byteOffset size
    dsimp only
    generalize bootFlashTransSdccRead dev byteOffset size = r at h
    cases h with
    | done => exact Nat.le_of_eq (Contents.length_read _ _ _)
    | failed h => exact h
  stored_of_ok byteOffset size := by
    have h := bootFlashTransSdccRead_fills dev byteOffset size
    dsimp only
    generalize bootFlashTransSdccRead dev byteOffset size = r at h
    cases h with
    | done => exact fun _ => Contents.length_read _ _ _
    | failed h => exact nofun

/-- A read through the interface that reports success has stored the partition's bytes. -/
theorem sdccTrans_read {dev : ColdplugPartition} {byteOffset size : UInt32}
    (hok : ((sdccTrans dev).read byteOffset size).ok = true) :
    ((sdccTrans dev).read byteOffset size).stored = size.toNat ∧
      ∀ k < size.toNat, ((sdccTrans dev).read byteOffset size).byte k =
        dev.content (byteOffset.toNat + k) := by
  refine ⟨(sdccTrans dev).stored_of_ok byteOffset size hok, fun k hk => ?_⟩
  have h := bootFlashTransSdccRead_fills dev byteOffset size
  simp only [sdccTrans] at hok ⊢
  generalize bootFlashTransSdccRead dev byteOffset size = r at h hok
  cases h with
  | done =>
    simp [Contents.read, getD_eq_getElem?_getD, hk]
  | failed h => cases hok

end XBLLoader
