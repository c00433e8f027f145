import BootXf.DevPrg.Chunks
import BootXf.DevPrg.Crc
import BootXf.DevPrg.Numbers

/-!
# The patch command

`handle_patch` of `devprg_firehose.c` reads a sector into the transfer buffer, puts up to eight
bytes of a value into it and writes it back. The value is a number, or the CRC-32 of bytes that are
read into the same buffer first. That the bytes lie in the sector is not checked, and what the
check sum is taken of is only checked where the sector does not fit the buffer either:
`confined_iff_patchable` says when the command is confined.

Devices have sectors of one size, which are read and written whole; a write that fails leaves them
as they are. What the calls answer is given.
-/

namespace DevPrg

open Lib List Option

/-- `devprg_storage_type` of the devices that have sectors. -/
inductive StorageType
  | sdcc
  | spinor
  | ufs
  | nand
  deriving DecidableEq

/-- An open device: its type, and what `devprg_storage_get_info` answers. -/
structure Device where
  type : StorageType
  info : Option StorageInfo

/-- `check_sector_size`. -/
def checkSectorSize (device : Device) (xmlPageSize : UInt32) : Bool :=
  match device.type with
  | .sdcc => xmlPageSize = 512
  | .nand => device.info.any fun info => xmlPageSize = info.pageSize
  | .spinor | .ufs => xmlPageSize = 4096

/-- The attributes of the command, empty where there is none. -/
structure PatchCommand where
  filename : List UInt8
  sectorSizeInBytes : List UInt8
  startSector : List UInt8
  byteOffset : List UInt8
  sizeInBytes : List UInt8
  value : List UInt8

/-- The file is `DISK`, as `strncasecmp` compares. -/
def IsDisk (filename : List UInt8) : Prop :=
  (filename.take 4).map (fun c => if 97 ≤ c ∧ c ≤ 122 then c - 32 else c) = [68, 73, 83, 75]

instance (filename : List UInt8) : Decidable (IsDisk filename) :=
  inferInstanceAs (Decidable (_ = _))

/-- What comes before the value. -/
structure PatchHead where
  sectorSize : UInt32
  startSector : UInt64
  byteOffset : UInt32
  patchSizeInBytes : UInt32
  deriving DecidableEq

/-- What is to be patched in: a number, or a check sum of bytes from a sector on. -/
inductive PatchValue
  | plain (value : UInt64)
  | crc (startSector numBytes : UInt64)
  deriving DecidableEq

/-- What comes before the value is read, or the result is `-1`. -/
def readHead (device : Device) (cmd : PatchCommand) : Option PatchHead :=
  (getUint32Attr (some cmd.sectorSizeInBytes)).bind fun sectorSize =>
    if checkSectorSize device sectorSize = false then none
    else (getSectorValue cmd.startSector device.info).bind fun startSector =>
      (getUint32Attr (some cmd.byteOffset)).bind fun byteOffset =>
        (getUint32Attr (some cmd.sizeInBytes)).bind fun patchSizeInBytes =>
          if patchSizeInBytes > 8 then none
          else some ⟨sectorSize, startSector, byteOffset, patchSizeInBytes⟩

/-- `CRC32(`. -/
def crc32Call : List UInt8 := [67, 82, 67, 51, 50, 40]

/-- The value is read, or there is a result that the command ends with. Where a comma or a
parenthesis is missing it is what `strlcpy` has returned, the length of the string that was
searched. -/
def readValue (device : Device) (value : List UInt8) : Except Int PatchValue :=
  if value.take 6 ≠ crc32Call then
    match getSectorValue value device.info with
    | none => .error (-1)
    | some patchValue => .ok (.plain patchValue)
  else
    let string := value.drop 6
    if string.length ≥ 64 then .error string.length
    else if 44 ∉ string then .error string.length
    else
      match getSectorValue (string.takeWhile fun c => c ≠ 44) device.info with
      | none => .error (-1)
      | some crcStartSector =>
        let string := (string.dropWhile fun c => c ≠ 44).drop 1
        if string.length ≥ 64 then .error string.length
        else if 41 ∉ string then .error string.length
        else
          match convertAtoi (some (string.takeWhile fun c => c ≠ 41)) with
          | none => .error (-1)
          | some numBytesCrc => .ok (.crc crcStartSector numBytesCrc)

/-- What the calls answer. -/
structure PatchAnswers where
  opened : Bool
  crcRead : ReadAnswer
  sectorRead : ReadAnswer
  written : DpRes
  closed : Bool

/-- How the command ends: the response, what is on the device, and the parts of the transfer buffer
that have been read or written. -/
structure PatchEnd where
  ack : Bool
  disk : Contents
  accesses : List Span

section
variable (disk : Contents) (bufSize : UInt64)

/-- `crc32_over_sectors`. -/
def crc32OverSectors (startSector numBytes : UInt64) (secSize : UInt32) (answer : ReadAnswer) :
    Option UInt32 × List Span :=
  if bufSize < numBytes ∧ bufSize < secSize.toUInt64 then (none, [])
  else
    let numSectors := (numBytes - 1) / secSize.toUInt64 + 1
    let filled : Span := ⟨0, numSectors.toNat * secSize.toNat⟩
    if answer.result ≠ .success then (none, [filled])
    else
      let buffer := readInto disk secSize.toUInt64 ⟨startSector, numSectors⟩ answer
      (some (devprgCalcCrc32 buffer numBytes), [filled, ⟨0, numBytes.toUInt32.toNat⟩])

/-- The number to be patched in. -/
def patchValue (secSize : UInt32) (answer : ReadAnswer) : PatchValue → Option UInt64 × List Span
  | .plain value => (some value, [])
  | .crc startSector numBytes =>
    let crc := crc32OverSectors disk bufSize startSector numBytes secSize answer
    (crc.1.map UInt32.toUInt64, crc.2)

/-- The sector is read, patched by `memscpy` and written. -/
def patchSector (head : PatchHead) (value : UInt64) (answers : PatchAnswers) : PatchEnd :=
  let sector : Span := ⟨0, head.sectorSize.toNat⟩
  if answers.sectorRead.result ≠ .success then ⟨false, disk, [sector]⟩
  else
    let buffer := readInto disk head.sectorSize.toUInt64 ⟨head.startSector, 1⟩ answers.sectorRead
    let count := min (bufSize - head.byteOffset.toUInt64) head.patchSizeInBytes.toUInt64
    let patched := Ring.put buffer head.byteOffset.toNat ((leBytes 8 value.toNat).take count.toNat)
    let written : Write := ⟨head.startSector.toNat * head.sectorSize.toNat,
      (List.range head.sectorSize.toNat).map patched⟩
    { ack := answers.closed && answers.written = .success
      disk := if answers.written = .success then written.write disk else disk
      accesses := [sector, ⟨head.byteOffset.toNat, count.toNat⟩, sector] }

/-- `handle_patch`. -/
def handlePatch (device : Device) (cmd : PatchCommand) (answers : PatchAnswers) : PatchEnd :=
  if ¬ IsDisk cmd.filename then ⟨true, disk, []⟩
  else if answers.opened = false then ⟨false, disk, []⟩
  else
    match readHead device cmd with
    | none => ⟨false, disk, []⟩
    | some head =>
      match readValue device cmd.value with
      | .error result => ⟨answers.closed && result = 0, disk, []⟩
      | .ok value =>
        let number := patchValue disk bufSize head.sectorSize answers.crcRead value
        match number.1 with
        | none => ⟨false, disk, number.2⟩
        | some n =>
          let done := patchSector disk bufSize head n answers
          { done with accesses := number.2 ++ done.accesses }

end

/-! ## Confinement -/

/-- The value that a command names. -/
def PatchValue.number (disk : Contents) (sectorSize : UInt32) : PatchValue → Nat
  | .plain value => value.toNat
  | .crc startSector numBytes => (Crc32.crc32 (disk.read (startSector.toNat * sectorSize.toNat)
      numBytes.toNat)).toNat

/-- The bytes to be patched lie in the sector. -/
def PatchHead.InSector (head : PatchHead) : Prop :=
  head.patchSizeInBytes = 0 ∨
    head.byteOffset.toNat + head.patchSizeInBytes.toNat ≤ head.sectorSize.toNat

/-- What a patch puts on the device. -/
def PatchHead.patch (head : PatchHead) (number : Nat) : Write :=
  ⟨head.startSector.toNat * head.sectorSize.toNat + head.byteOffset.toNat,
    leBytes head.patchSizeInBytes.toNat number⟩

/-- The device is what the command says it shall be. -/
def Patched (device : Device) (cmd : PatchCommand) (disk disk' : Contents) : Prop :=
  ∃ head value, readHead device cmd = some head ∧ readValue device cmd.value = .ok value ∧
    head.InSector ∧ disk' = (head.patch (value.number disk head.sectorSize)).write disk

/-- The command stays in the buffer, and either fails and leaves the device unchanged or patches
the bytes that it names. A command for another file than `DISK` names none. -/
structure Confined (device : Device) (bufSize : UInt64) (cmd : PatchCommand) : Prop where
  inside : ∀ disk answers, ∀ a ∈ (handlePatch disk bufSize device cmd answers).accesses,
    a.len ≠ 0 → a.stop ≤ bufSize.toNat
  patched : ∀ disk answers,
    ((handlePatch disk bufSize device cmd answers).ack = false ∨ ¬ IsDisk cmd.filename) ∧
        (handlePatch disk bufSize device cmd answers).disk = disk ∨
      Patched device cmd disk (handlePatch disk bufSize device cmd answers).disk

/-- The value ends behind `CRC32(`, or behind the comma. -/
def Unfinished (device : Device) (value : List UInt8) : Prop :=
  value = crc32Call ∨ ∃ a, value = crc32Call ++ a ++ [44] ∧ 44 ∉ a ∧ a.length < 63 ∧
    (getSectorValue a device.info).isSome

/-- The buffer has room for what is read, and the patch lies in its sector. A check sum is taken of
fewer than `2 ^ 32` bytes, unless it is not needed, or is refused because neither the bytes nor a
sector fit. -/
def PatchFits (bufSize : UInt64) (head : PatchHead) : PatchValue → Prop
  | .plain _ => head.sectorSize.toNat ≤ bufSize.toNat ∧ head.InSector
  | .crc _ numBytes => bufSize < numBytes ∧ bufSize < head.sectorSize.toUInt64 ∨
      ((numBytes - 1) / head.sectorSize.toUInt64 + 1).toNat *
      head.sectorSize.toNat ≤ bufSize.toNat ∧
      numBytes.toNat % 2 ^ 32 ≤ bufSize.toNat ∧ head.sectorSize.toNat ≤ bufSize.toNat ∧
      head.InSector ∧ (head.patchSizeInBytes = 0 ∨ numBytes.toNat < 2 ^ 32)

/-- Which commands are confined. -/
structure Patchable (device : Device) (bufSize : UInt64) (cmd : PatchCommand) : Prop where
  finished : IsDisk cmd.filename → (readHead device cmd).isSome → ¬ Unfinished device cmd.value
  fits : IsDisk cmd.filename → ∀ head value, readHead device cmd = some head →
    readValue device cmd.value = .ok value → PatchFits bufSize head value

section
variable {device : Device} {disk : Contents} {bufSize : UInt64} {cmd : PatchCommand}
  {answers : PatchAnswers} {head : PatchHead} {value : PatchValue}

/-- What is left of a string that has been cut at a character. -/
theorem cut_eq {c : UInt8} {l : List UInt8} (h : c ∈ l) :
    (l.takeWhile fun d => d ≠ c) ++ [c] ++ (l.dropWhile fun d => d ≠ c).drop 1 = l := by
  induction l with
  | nil => cases h
  | cons d l ih =>
    rcases Decidable.em (d = c) with rfl | hne
    · simp
    · have hmem : c ∈ l := (mem_cons.mp h).resolve_left fun heq => hne heq.symm
      simpa [hne] using ih hmem

/-- Nothing is cut off in front of the character. -/
theorem takeWhile_append_singleton {c : UInt8} {l : List UInt8} (h : c ∉ l) :
    ((l ++ [c]).takeWhile fun d => d ≠ c) = l ∧ ((l ++ [c]).dropWhile fun d => d ≠ c) = [c] := by
  induction l with
  | nil => simp
  | cons d l ih =>
    have hne : d ≠ c := fun heq => h (heq ▸ .head _)
    have hrest := ih fun hmem => h (.tail _ hmem)
    rw [cons_append, takeWhile_cons_of_pos (by simpa using hne),
      dropWhile_cons_of_pos (by simpa using hne), hrest.1, hrest.2]
    exact ⟨rfl, rfl⟩

/-- **The values that are not read and yet end with success** are those that are not finished. -/
theorem readValue_eq_zero_iff (device : Device) (string : List UInt8) :
    readValue device string = .error 0 ↔ Unfinished device string := by
  constructor
  · intro h
    unfold readValue at h
    split at h
    · split at h <;> simp at h
    · next hcall =>
      have hcall := Decidable.not_not.mp hcall
      have hsplit : crc32Call ++ string.drop 6 = string := by
        rw [← hcall]
        exact take_append_drop 6 string
      have hempty : ∀ l : List UInt8, (.error (l.length : Int) : Except Int PatchValue) = .error 0 →
          l = [] := fun l hl => length_eq_zero_iff.mp (by injection hl with hl; omega)
      dsimp only at h
      split at h
      · next hlong => exact absurd (hempty _ h) fun hnil => by rw [hnil] at hlong; cases hlong
      · next hlen =>
        split at h
        · exact .inl (by rw [← hsplit, hempty _ h]; rfl)
        · next hcomma =>
          have hcut := cut_eq (Decidable.not_not.mp hcomma)
          split at h
          · simp at h
          · next start hstart =>
            split at h
            · next hlong => exact absurd (hempty _ h) fun hnil => by rw [hnil] at hlong; cases hlong
            · split at h
              · rw [hempty _ h, append_nil] at hcut
                refine .inr ⟨(string.drop 6).takeWhile fun c => c ≠ 44, ?_, ?_, ?_, ?_⟩
                · rw [append_assoc, hcut]
                  exact hsplit.symm
                · intro hmem
                  have hne := List.all_eq_true.mp all_takeWhile _ hmem
                  simp at hne
                · have hlen' := congrArg List.length hcut
                  rw [length_append, length_singleton] at hlen'
                  omega
                · rw [hstart]
                  rfl
              · split at h <;> simp at h
  · rintro (rfl | ⟨a, rfl, hcomma, hlen, hstart⟩)
    · rfl
    · obtain ⟨start, hstart⟩ := isSome_iff_exists.mp hstart
      obtain ⟨htake, hdrop⟩ := takeWhile_append_singleton hcomma
      have hcall : (crc32Call ++ a ++ [44]).take 6 = crc32Call := by
        rw [append_assoc]
        rfl
      have hrest : (crc32Call ++ a ++ [44]).drop 6 = a ++ [44] := by
        rw [append_assoc]
        rfl
      unfold readValue
      rw [if_neg (not_not_intro hcall), hrest]
      dsimp only
      rw [if_neg (by rw [length_append, length_singleton]; omega), if_neg (by simp), htake,
        hstart, hdrop]
      rfl

/-! ## What the command does -/

/-- As many bytes are patched as the command says, if they lie in the sector and that in the
buffer. -/
theorem count_eq (hroom : head.sectorSize.toNat ≤ bufSize.toNat) (hin : head.InSector) :
    (min (bufSize - head.byteOffset.toUInt64) head.patchSizeInBytes.toUInt64).toNat =
      head.patchSizeInBytes.toNat := by
  have hmin : min (bufSize - head.byteOffset.toUInt64) head.patchSizeInBytes.toUInt64 =
      if bufSize - head.byteOffset.toUInt64 ≤ head.patchSizeInBytes.toUInt64 then
        bufSize - head.byteOffset.toUInt64 else head.patchSizeInBytes.toUInt64 := rfl
  rw [hmin]
  split
  · next hle =>
    have hle := UInt64.le_iff_toNat_le.mp hle
    rw [UInt32.toNat_toUInt64] at hle
    refine Nat.le_antisymm hle ?_
    rcases hin with hzero | hin
    · rw [hzero]
      exact Nat.zero_le _
    · rw [UInt64.toNat_sub_of_le _ _ (UInt64.le_iff_toNat_le.mpr (by
        rw [UInt32.toNat_toUInt64]; omega)), UInt32.toNat_toUInt64]
      omega
  · exact UInt32.toNat_toUInt64 _

variable (disk) in
/-- The sector that has been read. -/
theorem readInto_sector {answer : ReadAnswer} (hread : answer.result = .success) {i : Nat}
    (hi : i < head.sectorSize.toNat) :
    readInto disk head.sectorSize.toUInt64 ⟨head.startSector, 1⟩ answer i =
      disk (head.startSector.toNat * head.sectorSize.toNat + i) := by
  unfold readInto
  rw [if_pos ⟨hread, by rw [UInt64.toNat_one, UInt32.toNat_toUInt64, Nat.one_mul]; exact hi⟩,
    UInt32.toNat_toUInt64]

/-- **A sector is patched** by what the patch puts on the device. -/
theorem patchSector_spec (hroom : head.sectorSize.toNat ≤ bufSize.toNat) (hin : head.InSector)
    (hsize : head.patchSizeInBytes ≤ 8) (n : UInt64)
    (hread : answers.sectorRead.result = .success) :
    patchSector disk bufSize head n answers =
      { ack := answers.closed && answers.written = .success
        disk := if answers.written = .success then (head.patch n.toNat).write disk else disk
        accesses := [⟨0, head.sectorSize.toNat⟩,
          ⟨head.byteOffset.toNat, head.patchSizeInBytes.toNat⟩, ⟨0, head.sectorSize.toNat⟩] } := by
  have hbytes : (leBytes 8 n.toNat).take head.patchSizeInBytes.toNat =
      leBytes head.patchSizeInBytes.toNat n.toNat :=
    take_leBytes (UInt32.le_iff_toNat_le.mp hsize) _
  have hempty : leBytes head.patchSizeInBytes.toNat n.toNat = [] ∨ head.byteOffset.toNat +
      (leBytes head.patchSizeInBytes.toNat n.toNat).length ≤ head.sectorSize.toNat := by
    rw [length_leBytes]
    exact hin.imp_left fun hzero => by rw [hzero]; rfl
  have hblock := Write.write_block (fun i hi => readInto_sector disk hread hi) hempty
  unfold patchSector
  rw [if_neg (not_not_intro hread)]
  dsimp only
  rw [count_eq hroom hin, hbytes, hblock]
  rfl

/-- What is read of a command for `DISK` decides how it is done. -/
theorem handlePatch_of_read (hdisk : IsDisk cmd.filename) (hopened : answers.opened = true)
    (hhead : readHead device cmd = some head) (hvalue : readValue device cmd.value = .ok value) :
    handlePatch disk bufSize device cmd answers =
      match (patchValue disk bufSize head.sectorSize answers.crcRead value).1 with
      | none => ⟨false, disk, (patchValue disk bufSize head.sectorSize answers.crcRead value).2⟩
      | some n =>
        { patchSector disk bufSize head n answers with
          accesses := (patchValue disk bufSize head.sectorSize answers.crcRead value).2 ++
            (patchSector disk bufSize head n answers).accesses } := by
  unfold handlePatch
  rw [if_neg (not_not_intro hdisk), if_neg (by rw [hopened]; decide), hhead]
  dsimp only
  rw [hvalue]

/-- At most eight bytes are patched. -/
theorem readHead_size (h : readHead device cmd = some head) : head.patchSizeInBytes ≤ 8 := by
  unfold readHead at h
  obtain ⟨sectorSize, -, h⟩ := bind_eq_some_iff.mp h
  split at h
  · cases h
  · obtain ⟨startSector, -, h⟩ := bind_eq_some_iff.mp h
    obtain ⟨byteOffset, -, h⟩ := bind_eq_some_iff.mp h
    obtain ⟨size, -, h⟩ := bind_eq_some_iff.mp h
    split at h
    · cases h
    · next hsize =>
      cases h
      exact UInt32.not_lt.mp hsize

/-- The sectors that are read hold the bytes. -/
theorem numSectors_cover (numBytes : UInt64) {secSize : UInt32} (hpos : 0 < secSize.toNat) :
    numBytes.toNat ≤ ((numBytes - 1) / secSize.toUInt64 + 1).toNat * secSize.toNat := by
  rcases Nat.eq_zero_or_pos numBytes.toNat with hzero | hsome
  · rw [hzero]
    exact Nat.zero_le _
  · have hlt := numBytes.toNat_lt
    have hsub : (numBytes - 1).toNat = numBytes.toNat - 1 :=
      UInt64.toNat_sub_of_le _ _ (UInt64.le_iff_toNat_le.mpr hsome)
    have hquot := Nat.div_le_self (numBytes.toNat - 1) secSize.toNat
    rw [UInt64.toNat_add, UInt64.toNat_div, hsub, UInt32.toNat_toUInt64, UInt64.toNat_one,
      Nat.mod_eq_of_lt (by omega), Nat.add_mul, Nat.one_mul]
    have hmod := Nat.mod_lt (numBytes.toNat - 1) hpos
    have hsplit := Nat.div_add_mod' (numBytes.toNat - 1) secSize.toNat
    omega

/-- What `crc32_over_sectors` comes to: it is refused, the read fails, or there is a check sum. -/
theorem crc32OverSectors_cases (disk : Contents) (bufSize startSector numBytes : UInt64)
    (secSize : UInt32) (answer : ReadAnswer) :
    crc32OverSectors disk bufSize startSector numBytes secSize answer =
      let numSectors := (numBytes - 1) / secSize.toUInt64 + 1
      if bufSize < numBytes ∧ bufSize < secSize.toUInt64 then (none, [])
      else if answer.result ≠ .success then (none, [⟨0, numSectors.toNat * secSize.toNat⟩])
      else
        (some (Crc32.crc32 ((List.range (numBytes.toNat % 2 ^ 32)).map
            (readInto disk secSize.toUInt64 ⟨startSector, numSectors⟩ answer))),
          [⟨0, numSectors.toNat * secSize.toNat⟩, ⟨0, numBytes.toNat % 2 ^ 32⟩]) := by
  unfold crc32OverSectors
  dsimp only
  rw [devprgCalcCrc32_eq]
  rfl

/-- The number that is patched in is the one that the command names. -/
theorem patchValue_number (hfits : PatchFits bufSize head value) {answer : ReadAnswer} {n : UInt64}
    (h : (patchValue disk bufSize head.sectorSize answer value).1 = some n) :
    head.InSector ∧ head.sectorSize.toNat ≤ bufSize.toNat ∧
      leBytes head.patchSizeInBytes.toNat n.toNat =
        leBytes head.patchSizeInBytes.toNat (value.number disk head.sectorSize) := by
  cases value with
  | plain v =>
    cases h
    exact ⟨hfits.2, hfits.1, rfl⟩
  | crc startSector numBytes =>
    obtain ⟨sum, hsum, rfl⟩ := map_eq_some_iff.mp h
    rw [crc32OverSectors_cases] at hsum
    rcases hfits with hrefused | ⟨hroom, -, hsector, hin, hexact⟩
    · rw [if_pos hrefused] at hsum
      cases hsum
    · refine ⟨hin, hsector, ?_⟩
      by_cases hsize : head.patchSizeInBytes = 0
      · rw [hsize]
        rfl
      have hin := hin.resolve_left hsize
      have hlt := hexact.resolve_left hsize
      have hsome : head.patchSizeInBytes.toNat ≠ 0 := fun hzero => hsize (UInt32.toNat_inj.mp hzero)
      have hpos : 0 < head.sectorSize.toNat := by omega
      have hcover := numSectors_cover numBytes hpos
      split at hsum
      · cases hsum
      · split at hsum
        · cases hsum
        · next hread =>
          cases hsum
          have hbytes : (List.range (numBytes.toNat % 2 ^ 32)).map
              (readInto disk head.sectorSize.toUInt64
                ⟨startSector, (numBytes - 1) / head.sectorSize.toUInt64 + 1⟩ answer) =
              disk.read (startSector.toNat * head.sectorSize.toNat) numBytes.toNat := by
            rw [Nat.mod_eq_of_lt hlt, Contents.read, range'_eq_map_range, List.map_map]
            refine map_congr_left fun i hi => ?_
            have hi := mem_range.mp hi
            unfold readInto
            rw [UInt32.toNat_toUInt64,
              if_pos ⟨Decidable.not_not.mp hread, by dsimp only; omega⟩]
            rfl
          rw [UInt32.toNat_toUInt64, hbytes]
          rfl

variable (disk) in
/-- What is read for a check sum stays in the buffer. -/
theorem patchValue_inside (hfits : PatchFits bufSize head value) (answer : ReadAnswer) :
    ∀ a ∈ (patchValue disk bufSize head.sectorSize answer value).2, a.stop ≤ bufSize.toNat := by
  cases value with
  | plain v => exact fun a ha => absurd ha not_mem_nil
  | crc startSector numBytes =>
    show ∀ a ∈ (crc32OverSectors disk bufSize startSector numBytes head.sectorSize answer).2,
      a.stop ≤ bufSize.toNat
    rw [crc32OverSectors_cases]
    rcases hfits with hrefused | ⟨hroom, hbytes, -⟩
    · rw [if_pos hrefused]
      exact fun a ha => absurd ha not_mem_nil
    · have hfilled : (⟨0, ((numBytes - 1) / head.sectorSize.toUInt64 + 1).toNat *
          head.sectorSize.toNat⟩ : Span).stop ≤ bufSize.toNat := by
        rw [Span.stop, Nat.zero_add]
        exact hroom
      have hsummed : (⟨0, numBytes.toNat % 2 ^ 32⟩ : Span).stop ≤ bufSize.toNat := by
        rw [Span.stop, Nat.zero_add]
        exact hbytes
      split
      · exact fun a ha => absurd ha not_mem_nil
      · split
        · exact forall_mem_singleton.mpr hfilled
        · exact forall_mem_cons.mpr ⟨hfilled, forall_mem_singleton.mpr hsummed⟩

/-- A command that ends before anything is done. -/
theorem handlePatch_early (h : ¬ IsDisk cmd.filename ∨ answers.opened = false ∨
      readHead device cmd = none ∨ ∃ result, readValue device cmd.value = .error result ∧
        result ≠ 0) :
    handlePatch disk bufSize device cmd answers = ⟨¬ IsDisk cmd.filename, disk, []⟩ := by
  unfold handlePatch
  by_cases hdisk : IsDisk cmd.filename
  · have h := h.resolve_left (not_not_intro hdisk)
    rw [if_neg (not_not_intro hdisk), decide_eq_false (not_not_intro hdisk)]
    split
    · rfl
    · next hopened =>
      split
      · rfl
      · next head hhead =>
        obtain ⟨result, hvalue, hne⟩ := (h.resolve_left hopened).resolve_left fun hnone => by
          rw [hhead] at hnone
          cases hnone
        rw [hvalue]
        dsimp only
        rw [decide_eq_false hne, Bool.and_false]
  · rw [if_pos hdisk, decide_eq_true hdisk]

/-- **Commands that are patchable are confined.** -/
theorem Patchable.confined (h : Patchable device bufSize cmd) : Confined device bufSize cmd := by
  have hboth : ∀ disk answers,
      (∀ a ∈ (handlePatch disk bufSize device cmd answers).accesses,
        a.len ≠ 0 → a.stop ≤ bufSize.toNat) ∧
      (((handlePatch disk bufSize device cmd answers).ack = false ∨ ¬ IsDisk cmd.filename) ∧
          (handlePatch disk bufSize device cmd answers).disk = disk ∨
        Patched device cmd disk (handlePatch disk bufSize device cmd answers).disk) := by
    intro disk answers
    by_cases hearly : ¬ IsDisk cmd.filename ∨ answers.opened = false ∨
      readHead device cmd = none ∨ ∃ result, readValue device cmd.value = .error result ∧ result ≠ 0
    · rw [handlePatch_early hearly]
      refine ⟨fun a ha => absurd ha not_mem_nil, .inl ⟨?_, rfl⟩⟩
      exact (Decidable.em (IsDisk cmd.filename)).imp_left fun hdisk =>
        decide_eq_false (not_not_intro hdisk)
    · simp only [not_or, Decidable.not_not, not_exists, not_and] at hearly
      obtain ⟨hdisk, hopened, hhead, hvalue⟩ := hearly
      obtain ⟨head, hhead⟩ := ne_none_iff_exists'.mp hhead
      cases hread : readValue device cmd.value with
      | error result =>
        rw [hvalue result hread] at hread
        exact absurd ((readValue_eq_zero_iff device cmd.value).mp hread)
          (h.finished hdisk (by rw [hhead]; rfl))
      | ok value =>
        have hfits := h.fits hdisk head value hhead hread
        have hinside := patchValue_inside disk hfits answers.crcRead
        rw [handlePatch_of_read hdisk (Bool.eq_true_of_not_eq_false hopened) hhead hread]
        cases hnumber : (patchValue disk bufSize head.sectorSize answers.crcRead value).1 with
        | none => exact ⟨fun a ha _ => hinside a ha, .inl ⟨.inl rfl, rfl⟩⟩
        | some n =>
          obtain ⟨hin, hroom, hsame⟩ := patchValue_number hfits hnumber
          have hsector : (⟨0, head.sectorSize.toNat⟩ : Span).stop ≤ bufSize.toNat := by
            rw [Span.stop, Nat.zero_add]
            exact hroom
          by_cases hsuccess : answers.sectorRead.result = .success
          · dsimp only
            rw [patchSector_spec hroom hin (readHead_size hhead) n hsuccess]
            refine ⟨fun a ha hsome => ?_, ?_⟩
            · rcases mem_append.mp ha with ha | ha
              · exact hinside a ha
              · rcases mem_cons.mp ha with rfl | ha
                · exact hsector
                · rcases mem_cons.mp ha with rfl | ha
                  · have hfew := hin.resolve_left fun hzero => hsome (by rw [hzero]; rfl)
                    exact Nat.le_trans hfew hroom
                  · rw [mem_singleton.mp ha]
                    exact hsector
            · by_cases hwritten : answers.written = .success
              · refine .inr ⟨head, value, hhead, hread, hin, ?_⟩
                dsimp only
                rw [if_pos hwritten]
                unfold PatchHead.patch
                rw [hsame]
              · refine .inl ⟨.inl ?_, if_neg hwritten⟩
                rw [decide_eq_false hwritten, Bool.and_false]
          · have hfailed : patchSector disk bufSize head n answers =
                ⟨false, disk, [⟨0, head.sectorSize.toNat⟩]⟩ := by
              unfold patchSector
              rw [if_pos hsuccess]
            dsimp only
            rw [hfailed]
            refine ⟨fun a ha _ => ?_, .inl ⟨.inl rfl, rfl⟩⟩
            rcases mem_append.mp ha with ha | ha
            · exact hinside a ha
            · rw [mem_singleton.mp ha]
              exact hsector
  exact ⟨fun disk answers => (hboth disk answers).1, fun disk answers => (hboth disk answers).2⟩

/-- Everything succeeds. -/
def allDone : PatchAnswers := ⟨true, readDone, readDone, .success, true⟩

/-- Where a number is patched in and everything succeeds, the command is acknowledged, and the
sector has been in the buffer. -/
theorem handlePatch_done {n : UInt64} (hdisk : IsDisk cmd.filename)
    (hhead : readHead device cmd = some head) (hvalue : readValue device cmd.value = .ok value)
    (hnumber : (patchValue disk bufSize head.sectorSize readDone value).1 = some n) :
    (handlePatch disk bufSize device cmd allDone).ack = true ∧
      (handlePatch disk bufSize device cmd allDone).disk =
        (patchSector disk bufSize head n allDone).disk ∧
      ⟨0, head.sectorSize.toNat⟩ ∈ (handlePatch disk bufSize device cmd allDone).accesses ∧
      ∀ a ∈ (patchValue disk bufSize head.sectorSize readDone value).2,
        a ∈ (handlePatch disk bufSize device cmd allDone).accesses := by
  have hread : (patchValue disk bufSize head.sectorSize allDone.crcRead value).1 = some n := hnumber
  rw [handlePatch_of_read hdisk rfl hhead hvalue, hread]
  refine ⟨rfl, rfl, mem_append_right _ (.head _), fun a ha => mem_append_left _ ha⟩

/-- Where it is confined and a number is patched in, the patch lies in its sector, and the sector
fits. -/
theorem Confined.sector (h : Confined device bufSize cmd) {n : UInt64} (hdisk : IsDisk cmd.filename)
    (hhead : readHead device cmd = some head) (hvalue : readValue device cmd.value = .ok value)
    (hnumber : (patchValue disk bufSize head.sectorSize readDone value).1 = some n) :
    head.sectorSize.toNat ≤ bufSize.toNat ∧ head.InSector ∧
      (head.patch n.toNat).write disk =
        (head.patch (value.number disk head.sectorSize)).write disk := by
  obtain ⟨hack, hdone, hsector, -⟩ := handlePatch_done hdisk hhead hvalue hnumber
  have hroom : head.sectorSize.toNat ≤ bufSize.toNat := by
    by_cases hzero : head.sectorSize.toNat = 0
    · omega
    · have hstop := h.inside disk allDone _ hsector hzero
      rwa [Span.stop, Nat.zero_add] at hstop
  obtain ⟨hfails | hother, -⟩ | ⟨head', value', hhead', hvalue', hin, hpatched⟩ :=
    h.patched disk allDone
  · exact absurd (hack.symm.trans hfails) (by decide)
  · exact absurd hdisk hother
  · rw [hhead] at hhead'
    rw [hvalue] at hvalue'
    cases hhead'
    cases hvalue'
    rw [hdone, patchSector_spec hroom hin (readHead_size hhead) n rfl] at hpatched
    exact ⟨hroom, hin, hpatched⟩

/-- The first byte of a patch. -/
theorem patch_first (hsome : head.patchSizeInBytes ≠ 0) (number : Nat) :
    (head.patch number).write disk (head.patch number).offset = .ofNat number := by
  obtain ⟨k, hk⟩ := Nat.exists_eq_succ_of_ne_zero
    fun hzero : head.patchSizeInBytes.toNat = 0 => hsome (UInt32.toNat_inj.mp hzero)
  have hdata : (head.patch number).data = .ofNat number :: leBytes k (number / 256) := by
    unfold PatchHead.patch
    rw [hk]
    rfl
  have hmem : (head.patch number).span.Mem (head.patch number).offset := by
    refine ⟨Nat.le_refl _, Nat.lt_add_of_pos_right ?_⟩
    rw [Write.span, hdata]
    exact Nat.succ_pos _
  unfold Write.write
  rw [if_pos hmem, Nat.sub_self, hdata]
  rfl

/-- Contents that are zero but for one byte. -/
def oneByte (i : Nat) (b : UInt8) : Contents := fun a => if a = i then b else 0

theorem read_oneByte (offset n : Nat) (b : UInt8) :
    (oneByte (offset + n) b).read offset (n + 1) = replicate n 0 ++ [b] := by
  have hzeros : (oneByte (offset + n) b).read offset n = replicate n 0 := by
    refine eq_replicate_iff.mpr ⟨Contents.length_read .., fun c hc => ?_⟩
    obtain ⟨a, ha, rfl⟩ := List.mem_map.mp hc
    obtain ⟨i, hi, rfl⟩ := mem_range'.mp ha
    exact if_neg (by omega)
  have hlast : (oneByte (offset + n) b).read (offset + n) 1 = [b] :=
    congrArg (fun c => [c]) (if_pos rfl)
  rw [← Contents.read_append, hzeros, hlast]

/-- **A check sum of `2 ^ 32` bytes or more** is not that of the bytes: the last one does not
count. -/
theorem Confined.bytes_lt (h : Confined device bufSize cmd) {startSector numBytes : UInt64}
    (hdisk : IsDisk cmd.filename) (hhead : readHead device cmd = some head)
    (hvalue : readValue device cmd.value = .ok (.crc startSector numBytes))
    (hnumber : ∀ disk, (patchValue disk bufSize head.sectorSize readDone
      (.crc startSector numBytes)).1 = some (Crc32.crc32 ((List.range (numBytes.toNat % 2 ^ 32)).map
        (readInto disk head.sectorSize.toUInt64
          ⟨startSector, (numBytes - 1) / head.sectorSize.toUInt64 + 1⟩ readDone))).toUInt64)
    (hsome : head.patchSizeInBytes ≠ 0) : numBytes.toNat < 2 ^ 32 := by
  refine Nat.lt_of_not_le fun hlarge => ?_
  let last := startSector.toNat * head.sectorSize.toNat + (numBytes.toNat - 1)
  have hzeros : ∀ b, (List.range (numBytes.toNat % 2 ^ 32)).map
      (readInto (oneByte last b) head.sectorSize.toUInt64
        ⟨startSector, (numBytes - 1) / head.sectorSize.toUInt64 + 1⟩ readDone) =
      replicate (numBytes.toNat % 2 ^ 32) 0 := fun b => by
    refine eq_replicate_iff.mpr ⟨by rw [length_map, length_range], fun c hc => ?_⟩
    obtain ⟨i, hi, rfl⟩ := List.mem_map.mp hc
    have hi := mem_range.mp hi
    unfold readInto
    rw [UInt32.toNat_toUInt64]
    split
    · exact if_neg (by dsimp only [last]; omega)
    · rfl
  have hbyte : ∀ b, UInt8.ofNat (Crc32.crc32 (replicate (numBytes.toNat % 2 ^ 32) 0)).toNat =
      .ofNat (Crc32.crc32 (replicate (numBytes.toNat - 1) 0 ++ [b])).toNat := fun b => by
    have hnumber := hnumber (oneByte last b)
    rw [hzeros] at hnumber
    obtain ⟨-, -, hsame⟩ := h.sector hdisk hhead hvalue hnumber
    have hread : (oneByte last b).read (startSector.toNat * head.sectorSize.toNat) numBytes.toNat =
        replicate (numBytes.toNat - 1) 0 ++ [b] := by
      have hread := read_oneByte (startSector.toNat * head.sectorSize.toNat) (numBytes.toNat - 1) b
      rwa [Nat.sub_add_cancel (by omega)] at hread
    have hcrc : PatchValue.number (oneByte last b) head.sectorSize (.crc startSector numBytes) =
        (Crc32.crc32 (replicate (numBytes.toNat - 1) 0 ++ [b])).toNat := by
      rw [← hread]
      rfl
    have hat := congrFun hsame (head.patch 0).offset
    rw [hcrc, UInt32.toNat_toUInt64] at hat
    exact (patch_first hsome _).symm.trans (hat.trans (patch_first hsome _))
  obtain ⟨b, b', hne⟩ := Crc32.crc32_last (replicate (numBytes.toNat - 1) 0)
  refine hne ?_
  have heq := congrArg UInt8.toNat ((hbyte b).symm.trans (hbyte b'))
  rwa [UInt8.toNat_ofNat', UInt8.toNat_ofNat'] at heq

/-- **Commands that are confined are patchable.** -/
theorem Confined.patchable (h : Confined device bufSize cmd) : Patchable device bufSize cmd := by
  refine ⟨fun hdisk hhead hunfinished => ?_, fun hdisk head value hhead hvalue => ?_⟩
  · -- such a command is acknowledged, though nothing is patched
    obtain ⟨head, hhead⟩ := isSome_iff_exists.mp hhead
    have hvalue := (readValue_eq_zero_iff device cmd.value).mpr hunfinished
    have hack : (handlePatch (fun _ => 0) bufSize device cmd allDone).ack = true := by
      unfold handlePatch
      rw [if_neg (not_not_intro hdisk), if_neg (by decide), hhead]
      dsimp only
      rw [hvalue]
      rfl
    obtain ⟨hfails | hother, -⟩ | ⟨head', value', -, hvalue', -⟩ := h.patched (fun _ => 0) allDone
    · exact absurd (hack.symm.trans hfails) (by decide)
    · exact absurd hdisk hother
    · rw [hvalue] at hvalue'
      cases hvalue'
  · cases value with
    | plain v =>
      have hnumber :
          (patchValue (fun _ => 0) bufSize head.sectorSize readDone (.plain v)).1 = some v :=
        rfl
      obtain ⟨hroom, hin, -⟩ := h.sector hdisk hhead hvalue hnumber
      exact ⟨hroom, hin⟩
    | crc startSector numBytes =>
      by_cases hrefused : bufSize < numBytes ∧ bufSize < head.sectorSize.toUInt64
      · exact .inl hrefused
      · have hcases := fun disk => crc32OverSectors_cases disk bufSize startSector numBytes
          head.sectorSize readDone
        have hnumber : ∀ disk, (patchValue disk bufSize head.sectorSize readDone
            (.crc startSector numBytes)).1 = some (Crc32.crc32
              ((List.range (numBytes.toNat % 2 ^ 32)).map (readInto disk head.sectorSize.toUInt64
                ⟨startSector, (numBytes - 1) / head.sectorSize.toUInt64 + 1⟩ readDone))).toUInt64 :=
          fun disk => by
            unfold patchValue
            dsimp only
            rw [hcases, if_neg hrefused]
            rfl
        have haccesses : (patchValue (fun _ => 0) bufSize head.sectorSize readDone
            (.crc startSector numBytes)).2 =
              [⟨0, ((numBytes - 1) / head.sectorSize.toUInt64 + 1).toNat *
              head.sectorSize.toNat⟩, ⟨0, numBytes.toNat % 2 ^ 32⟩] := by
          unfold patchValue
          dsimp only
          rw [hcases, if_neg hrefused]
          rfl
        obtain ⟨hroom, hin, -⟩ := h.sector hdisk hhead hvalue (hnumber fun _ => 0)
        obtain ⟨-, -, -, hreads⟩ := handlePatch_done hdisk hhead hvalue (hnumber fun _ => 0)
        have hinside : ∀ len, ⟨0, len⟩ ∈ (patchValue (fun _ => 0) bufSize head.sectorSize readDone
            (.crc startSector numBytes)).2 → len ≤ bufSize.toNat := fun len hmem => by
          by_cases hzero : len = 0
          · omega
          · have hstop := h.inside (fun _ => 0) allDone _ (hreads _ hmem) hzero
            rwa [Span.stop, Nat.zero_add] at hstop
        rw [haccesses] at hinside
        exact .inr ⟨hinside _ (.head _), hinside _ (.tail _ (.head _)), hroom, hin,
          (Decidable.em (head.patchSizeInBytes = 0)).imp_right
            (h.bytes_lt hdisk hhead hvalue hnumber)⟩

/-- **A command is confined exactly where it is patchable.** -/
theorem confined_iff_patchable (device : Device) (bufSize : UInt64) (cmd : PatchCommand) :
    Confined device bufSize cmd ↔ Patchable device bufSize cmd :=
  ⟨Confined.patchable, Patchable.confined⟩

end

/-- A command for `DISK` and sectors of 512 bytes that patches four bytes of the first one. -/
def patchAt (byteOffset value : List UInt8) : PatchCommand :=
  ⟨[68, 73, 83, 75], [53, 49, 50], [48], byteOffset, [52], value⟩

/-- Not every command is confined: with a byte offset of 510 the patch does not lie in its sector,
for `CRC32(0,1048577)` more is read than a buffer of a megabyte has room for, and `CRC32(0,` is
acknowledged. -/
theorem not_always_confined :
    ¬ Confined ⟨.sdcc, none⟩ 0x100000 (patchAt [53, 49, 48] [49]) ∧
    ¬ Confined ⟨.sdcc, none⟩ 0x100000
      (patchAt [48] (crc32Call ++ [48, 44, 49, 48, 52, 56, 53, 55, 55, 41])) ∧
    ¬ Confined ⟨.sdcc, none⟩ 0x100000 (patchAt [48] (crc32Call ++ [48, 44])) := by
  refine ⟨fun h => ?_, fun h => ?_, fun h => ?_⟩
  · have hfits := h.patchable.fits (by decide) ⟨512, 0, 510, 4⟩ (.plain 1) (by decide) (by decide)
    exact absurd hfits.2 (by unfold PatchHead.InSector; decide)
  · have hfits :=
      h.patchable.fits (by decide) ⟨512, 0, 0, 4⟩ (.crc 0 1048577) (by decide) (by decide)
    rcases hfits with hrefused | hroom
    · exact absurd hrefused (by decide)
    · exact absurd hroom.1 (by decide)
  · exact h.patchable.finished (by decide) (by decide)
      (.inr ⟨[48], rfl, by decide, by decide, by decide⟩)

end DevPrg
