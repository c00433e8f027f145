import BootXf.Smem.Boot

/-!
# Reading the table of contents

`smem_part_init` as a host with partition support runs it: it goes through the table of contents,
and for every entry that names the host it checks the header of the partition, registers it in
`smem_info_prt` under the other host of the entry and walks it once. `smem_info_prt` has a slot for
every host; the common partition is in the slot of the host itself.
-/

open Lib

namespace Smem

/-- A host that has a slot in `smem_info_prt`. -/
abbrev HostId := Fin 12

/-- `SMEM_MAX_PARTITIONS` -/
def maxPartitions : UInt32 := 20

/-- `smem_info_prt` -/
abbrev PartTable := HostId → Host

/-- Storing a slot. -/
def PartTable.set (prts : PartTable) (slot : HostId) (host : Host) : PartTable :=
  fun r => if r = slot then host else prts r

/-- The value of a host id. -/
def HostId.word (h : HostId) : UInt16 := .ofNat h.val

/-- The slot for the partition of two hosts, if one of them is the local host and it knows the
other one. -/
def remoteHost (thisHost : HostId) (host0 host1 : UInt16) : Option HostId :=
  if host0 = commonHost ∧ host1 = commonHost then some thisHost
  else
    let remote :=
      if host0 = thisHost.word then host1 else if host1 = thisHost.word then host0
      else invalidHost16
    if h : remote.toNat < 12 then some ⟨remote.toNat, h⟩ else none

section
variable (smemInfo : SmemInfo) (thisHost : HostId) (fuel : Nat) (m : Memory)

/-- The slot of `smem_part_get_addr_ex`. -/
def slotOf (remoteHost : UInt32) : HostId :=
  if remoteHost == invalidHost then thisHost else Fin.ofNat 12 remoteHost.toNat

/-- `smem_part_get_addr_ex` in the build with partition support. -/
def smemPartGetAddrEx (params : AllocParams) (prts : PartTable) : Option (Answer × PartTable) :=
  if remoteOutOfRange params then some (⟨.invalidParam, params⟩, prts)
  else
    let slot := slotOf thisHost params.remoteHost
    let host := prts slot
    if host.info.size == 0 then some (⟨.notFound, { params with buffer := 0 }⟩, prts)
    else
      let host := host.readOffsets m
      if host.info.offsetFreeUncached > host.info.offsetFreeCached
          || host.info.offsetFreeUncached > host.info.size
          || host.info.offsetFreeCached > host.info.size then
        some (⟨.outOfResources, params⟩, prts.set slot host)
      else
        (getAddrUncached smemInfo fuel m params host).map fun (answer, host) =>
          (answer, prts.set slot host)

/-- The slot of a partition before it is walked. -/
def partitionHost (hdr : UInt64) (partitionOffset size sizeCacheline : UInt32) : Host :=
  let mapping := mapPageAttr partitionOffset 32 false
  { info := ⟨hdr, size, sizeCacheline, 32, size, mapping.size, size⟩
    mappings := [mapping] }

/-- A round of `smem_part_init` for a partition of the host: `none` when an assertion fails or the
walk does. -/
def partInitPartition (remote : HostId) (partitionOffset size sizeCacheline : UInt32)
    (params : AllocParams) (prts : PartTable) : Option (AllocParams × PartTable) :=
  let hdr := smemInfo.smemBaseAddr + partitionOffset.toUInt64
  if hdr.toUInt32 &&& pageAlignMask ≠ 0 then none
  else if m.u32 hdr ≠ partitionHeaderId then none
  else if ¬ partitionOffset > 0 then none
  else if ¬ partitionOffset < smemInfo.smemSize - tocSize then none
  else if m.u32 (hdr + 8) ≠ size then some (params, prts)
  else
    let prts := prts.set remote (partitionHost hdr partitionOffset size sizeCacheline)
    let params := { params with remoteHost := .ofNat remote.val, smemType := memFirst }
    match smemPartGetAddrEx smemInfo thisHost fuel m params prts with
    | some (⟨.success, params⟩, prts) => some (params, prts)
    | some (⟨.notFound, params⟩, prts) => some (params, prts)
    | _ => none

/-- A round of `smem_part_init` for the table entry at an address. -/
def partInitEntry (entry : UInt64) (params : AllocParams) (prts : PartTable) :
    Option (AllocParams × PartTable) :=
  let size := m.u32 (entry + 4)
  match remoteHost thisHost (m.u16 (entry + 12)) (m.u16 (entry + 14)) with
  | none => some (params, prts)
  | some remote =>
    if size = 0 then some (params, prts)
    else
      partInitPartition smemInfo thisHost fuel m remote (m.u32 entry) size (m.u32 (entry + 16))
        params prts

/-- The loop of `smem_part_init`, over the entries from `i` on. -/
def partInitLoop (toc : UInt64) : Nat → UInt32 → AllocParams → PartTable →
    Option (AllocParams × PartTable)
  | 0, _, params, prts => some (params, prts)
  | n + 1, i, params, prts =>
    match partInitEntry smemInfo thisHost fuel m (toc + 32 + 48 * i.toUInt64) params prts with
    | none => none
    | some (params, prts) => partInitLoop toc n (i + 1) params prts

/-- `smem_part_init`. The `params` on its stack are not initialised. -/
def smemPartInit (stack : AllocParams) : Option PartTable :=
  let prts : PartTable := fun _ => .uninit
  let toc := smemInfo.smemBaseAddr + smemInfo.smemSize.toUInt64 - tocSize.toUInt64
  if m.u32 toc ≠ tocIdentifier then some prts
  else if m.u32 (toc + 4) ≠ 1 then none
  else if ¬ m.u32 (toc + 8) ≤ maxPartitions then none
  else
    (partInitLoop smemInfo thisHost fuel m toc (m.u32 (toc + 8)).toNat 0 stack prts).map Prod.snd

end

/-! ## A partition without items -/

section
variable {smemInfo : SmemInfo} {thisHost remote : HostId} {fuel : Nat} {m : Memory}
  {params : AllocParams} {prts : PartTable} {host : Host}

@[simp] theorem PartTable.set_self : prts.set remote host remote = host := by
  simp [PartTable.set]

theorem PartTable.set_of_ne {r : HostId} (h : r ≠ remote) :
    prts.set remote host r = prts r := if_neg h

theorem slotOf_ofNat : slotOf thisHost (.ofNat remote.val) = remote := by
  have hlt := remote.isLt
  have hval : (UInt32.ofNat remote.val).toNat = remote.val := by
    rw [UInt32.toNat_ofNat']
    exact Nat.mod_eq_of_lt (by omega)
  have hne : (UInt32.ofNat remote.val == invalidHost) = false := by
    rw [beq_eq_false_iff_ne]
    rintro heq
    have : remote.val = 0xFFFF := by rw [← hval, heq]; rfl
    omega
  rw [slotOf, hne, if_neg Bool.false_ne_true]
  apply Fin.ext
  rw [Fin.val_ofNat, hval, Nat.mod_eq_of_lt hlt]

theorem remoteOutOfRange_ofNat (h : params.remoteHost = .ofNat remote.val) :
    remoteOutOfRange params = false := by
  have hlt := remote.isLt
  have hnot : ¬ params.remoteHost ≥ numHosts := by
    have h12 : numHosts.toNat = 12 := rfl
    rw [h, ge_iff_le, UInt32.le_iff_toNat_le, UInt32.toNat_ofNat', h12]
    omega
  simp [remoteOutOfRange, hnot]

/-- The walk of a partition that holds no item finds nothing. -/
theorem getAddrUncached_empty (hfuel : 0 < fuel)
    (habove : 2 ^ 17 ≤ host.info.header.toUInt32.toNat)
    (hbelow : host.info.header.toUInt32.toNat + host.info.size.toNat < 2 ^ 32)
    (hu : host.info.offsetFreeUncached = 32) (hc : host.info.offsetFreeCached = host.info.size)
    (hmu : 32 ≤ host.info.offsetMappedUncached)
    (hmc : host.info.offsetMappedCached = host.info.size) :
    getAddrUncached smemInfo fuel m params host = some (⟨.notFound, params⟩, host) := by
  obtain ⟨n, rfl⟩ : ∃ n, fuel = n + 1 := ⟨fuel - 1, by omega⟩
  have hmapu : ensureUncachedMapping smemInfo host.info.offsetFreeUncached host = host := by
    refine if_neg ?_
    rw [hu, gt_iff_lt, UInt32.lt_iff_toNat_lt]
    exact Nat.not_lt.mpr hmu
  have hmapc : ensureCachedMapping smemInfo host.info.offsetFreeCached host = host := by
    refine if_neg ?_
    rw [hc, hmc, UInt32.lt_iff_toNat_lt]
    exact Nat.lt_irrefl _
  -- neither cursor starts within the limit of its loop
  have hup : withinLimit false (host.info.header.toUInt32.toUInt64 + 32).toUInt32
      (host.info.header.toUInt32 + host.info.offsetFreeUncached) = false := by
    have hlt := host.info.header.toUInt32.toNat_lt
    have h32 : (32 : UInt32).toNat = 32 := rfl
    have h64 : (32 : UInt64).toNat = 32 := rfl
    simp only [withinLimit, Bool.false_eq_true, if_false, decide_eq_false_iff_not,
      UInt32.lt_iff_toNat_lt, UInt64.toNat_toUInt32, UInt64.toNat_add, UInt32.toNat_toUInt64,
      UInt32.toNat_add, hu, h32, h64]
    omega
  have hdown : ∀ pad : UInt16, withinLimit true
      ((host.info.header.toUInt32 + host.info.size - pad.toUInt32).toUInt64 - 16).toUInt32
      (host.info.header.toUInt32 + host.info.offsetFreeCached) = false := by
    intro pad
    have hpad := pad.toNat_lt
    have h64 : (16 : UInt64).toNat = 16 := rfl
    generalize host.info.header.toUInt32 = hdr at habove hbelow
    simp only [withinLimit, if_true, decide_eq_false_iff_not, ge_iff_le,
      UInt32.le_iff_toNat_le, UInt64.toNat_toUInt32, UInt64.toNat_sub, UInt32.toNat_toUInt64,
      UInt32.toNat_sub, UInt32.toNat_add, UInt16.toNat_toUInt32, hc, h64]
    omega
  simp only [getAddrUncached, hmapu, scan, hup, Bool.false_eq_true, if_false, getAddrCached, hmapc,
    hdown]

end

end Smem
