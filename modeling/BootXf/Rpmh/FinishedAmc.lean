import BootXf.Rpmh.Driver
import Mathlib.Data.Nat.Bitwise

/-!
# Which command an interrupt finishes

The completion interrupt of a hardware DRV says which TCSs of its RSC have finished. Virtual DRVs
share the TCSs of a hardware DRV: `get_finished_drv` looks for the DRV whose AMCs the highest
flagged TCS is one of, and `get_finished_amc` reads the status anew and computes the index of the
TCS in the table of that DRV. The search goes through all configured DRVs, of whatever RSC, and
takes the number of AMCs of each from the mode that the hardware DRV is in.
-/

namespace Rpmh.Finish

open List

/-- `drv_config_t`: `modes` holds the `num_amcs` of each mode. -/
structure DrvConfig where
  drvId : UInt32
  hwDrv : UInt32
  tcsOffset : UInt32
  numTcs : UInt32
  modes : List UInt32

/-- The command that a TCS is busy with: the client that it is for, and the id of the request. -/
structure Request where
  client : Nat
  reqId : UInt32
  deriving DecidableEq

/-- `tcs_t`. -/
structure Tcs where
  id : UInt32
  state : TcsState
  cmds : Option Request
  deriving DecidableEq

/-- `rpmh_tcs` and `tcs_mode`. -/
structure Tables where
  tcs : Nat → Nat → Tcs
  mode : Nat → Nat

/-- What goes wrong: an assertion fails, or memory beyond a table is read. -/
inductive Fault
  | verify | outOfBounds
  deriving DecidableEq

/-- The loop of `rpmh_clz`. -/
def clzFrom : Nat → UInt32 → UInt32 → UInt32
  | 0, _, _ => 32
  | n + 1, i, num => if num &&& 0x80000000 ≠ 0 then i else clzFrom n (i + 1) (num <<< 1)

/-- `rpmh_clz`. -/
def rpmhClz (num : UInt32) : UInt32 := clzFrom 32 0 num

/-- The highest TCS that a status flags. -/
def topTcs (status : UInt32) : UInt32 := 31 - rpmhClz status

/-- `lookup_drv_index`. -/
def lookupDrvIndex (cfg : List DrvConfig) (drvId : UInt32) : Except Fault Nat :=
  match cfg.findIdx? (·.drvId == drvId) with
  | some i => .ok i
  | none => .error .verify

/-- The configuration of a DRV. -/
def drvAt (cfg : List DrvConfig) (i : Nat) : Except Fault DrvConfig :=
  match cfg[i]? with
  | some d => .ok d
  | none => .error .outOfBounds

/-- The loop of `get_finished_drv`, with the mode of the hardware DRV. -/
def searchFinished (tcsId : UInt32) (mode : Nat) : List DrvConfig → Except Fault (Option UInt32)
  | [] => .ok none
  | d :: ds =>
    let tcsIndex := tcsId - d.tcsOffset
    if tcsIndex < 0x80000000 then
      match d.modes[mode]? with
      | none => .error .outOfBounds
      | some numAmcs =>
        if tcsIndex < numAmcs then .ok (some d.drvId) else searchFinished tcsId mode ds
    else searchFinished tcsId mode ds

/-- `get_finished_drv`, with the status of each hardware DRV; `none` for `RSC_DRV_VIRTUAL_MAX`. -/
def getFinishedDrv (cfg : List DrvConfig) (t : Tables) (status : UInt32 → UInt32) (hwDrv : UInt32) :
    Except Fault (Option UInt32) := do
  let drvIndex ← lookupDrvIndex cfg hwDrv
  let drv ← drvAt cfg drvIndex
  if status drv.hwDrv ≠ 0 then searchFinished (topTcs (status drv.hwDrv)) (t.mode drvIndex) cfg
  else pure none

/-- `get_finished_amc`: the index of the DRV and that of the TCS in its table. -/
def getFinishedAmc (cfg : List DrvConfig) (t : Tables) (status : UInt32 → UInt32) (drvId : UInt32) :
    Except Fault (Option (Nat × Nat)) := do
  let drvIndex ← lookupDrvIndex cfg drvId
  let drv ← drvAt cfg drvIndex
  if status drv.hwDrv ≠ 0 then
    let tcsIndex := topTcs (status drv.hwDrv) - drv.tcsOffset
    if ¬ tcsIndex ≤ drv.numTcs then throw .verify
    if ¬ tcsIndex < drv.numTcs then throw .outOfBounds
    if (t.tcs drvIndex tcsIndex.toNat).state ≠ .amcWaitForDone then throw .verify
    pure (some (drvIndex, tcsIndex.toNat))
  else pure none

/-- What has been finished: the DRV and the TCS as the tables have them, the request, and the bit
that was cleared. -/
structure Finished where
  drvIndex : Nat
  tcsIndex : Nat
  request : Request
  clearedDrv : UInt32
  clearedTcs : UInt32
  deriving DecidableEq

/-- A TCS that is done with its command. -/
def Tables.idle (t : Tables) (i k : Nat) : Tables :=
  { t with
    tcs := fun i' k' => if i' = i ∧ k' = k then { t.tcs i k with state := .amcIdle, cmds := none }
      else t.tcs i' k' }

/-- `tcs_finish_active_amc`. -/
def tcsFinishActiveAmc (cfg : List DrvConfig) (t : Tables) (status : UInt32 → UInt32)
    (drvId : UInt32) : Except Fault (Option (Finished × Tables)) := do
  match ← getFinishedAmc cfg t status drvId with
  | none => pure none
  | some (i, k) =>
    let drv ← drvAt cfg i
    match (t.tcs i k).cmds with
    | none => throw .verify
    | some request => pure (some (⟨i, k, request, drv.hwDrv, (t.tcs i k).id⟩, t.idle i k))

/-- `rpmh_finish_amc` up to the client; the status is read twice. `none` when no AMC was found to
have completed. -/
def rpmhFinishAmc (cfg : List DrvConfig) (t : Tables) (first second : UInt32 → UInt32)
    (hwDrv : UInt32) : Except Fault (Option (Finished × Tables)) := do
  match ← getFinishedDrv cfg t first hwDrv with
  | none => pure none
  | some drvId =>
    match ← tcsFinishActiveAmc cfg t second drvId with
    | none => throw .verify
    | some (f, t') =>
      if f.request.reqId = 0 then throw .verify
      pure (some (f, t'))

/-! ## The highest flagged TCS -/

theorem and_highBit (x : UInt32) : x &&& 0x80000000 ≠ 0 ↔ 2 ^ 31 ≤ x.toNat := by
  have hx := x.toNat_lt
  have hand : (x &&& 0x80000000).toNat = x.toNat / 2 ^ 31 * 2 ^ 31 := by
    rw [UInt32.toNat_and]
    show x.toNat &&& 2 ^ 31 = _
    rw [Nat.and_two_pow]
    have hbit : (x.toNat.testBit 31).toNat = x.toNat / 2 ^ 31 := by
      rw [Nat.testBit_eq_decide_div_mod_eq]
      have hle : x.toNat / 2 ^ 31 ≤ 1 := by omega
      rcases Nat.le_one_iff_eq_zero_or_eq_one.mp hle with h | h <;> rw [h] <;> rfl
    rw [hbit]
  rw [ne_eq, ← UInt32.toNat_inj, hand]
  show ¬ _ = 0 ↔ _
  omega

/-- What the loop of `rpmh_clz` finds: the first set bit from the top. -/
theorem clzFrom_spec {num : UInt32} (hnum : num ≠ 0) :
    ∀ (n i : Nat) (x : UInt32), n + i = 32 → x.toNat = num.toNat * 2 ^ i →
      ∃ b, b < 32 ∧ num.toNat.testBit b = true ∧ clzFrom n (.ofNat i) x = 31 - .ofNat b
  | 0, i, x, hi, hx => by
    have hlt := x.toNat_lt
    obtain rfl : i = 32 := by omega
    have hpos : num.toNat ≠ 0 := fun h => hnum (UInt32.toNat.inj h)
    omega
  | n + 1, i, x, hi, hx => by
    have hlt := x.toNat_lt
    rw [clzFrom]
    by_cases hbit : x &&& 0x80000000 ≠ 0
    · rw [if_pos hbit]
      have hhigh := (and_highBit x).mp hbit
      have hsplit : 2 ^ 31 = 2 ^ (31 - i) * 2 ^ i := by
        rw [← Nat.pow_add]
        congr 1
        omega
      have hlow : 2 ^ (31 - i) ≤ num.toNat := by
        rw [hx, hsplit] at hhigh
        exact Nat.le_of_mul_le_mul_right hhigh (Nat.two_pow_pos i)
      have hup : num.toNat < 2 ^ (31 - i) * 2 := by
        rw [hx] at hlt
        have hall : 2 ^ 32 = 2 ^ (31 - i) * 2 * 2 ^ i := by
          rw [Nat.mul_right_comm, ← hsplit]
          rfl
        rw [hall] at hlt
        exact Nat.lt_of_mul_lt_mul_right hlt
      refine ⟨31 - i, by omega, ?_, UInt32.toNat.inj ?_⟩
      · rw [Nat.testBit_eq_decide_div_mod_eq]
        have hdiv : num.toNat / 2 ^ (31 - i) = 1 :=
          Nat.div_eq_of_lt_le (by omega) (by omega)
        rw [hdiv]
        rfl
      · rw [UInt32.toNat_sub_of_le _ _ (by
          rw [UInt32.le_iff_toNat_le, UInt32.toNat_ofNat']
          show (31 - i) % 2 ^ 32 ≤ 31
          omega), UInt32.toNat_ofNat', UInt32.toNat_ofNat']
        show i % 2 ^ 32 = 31 - (31 - i) % 2 ^ 32
        omega
    · rw [if_neg hbit]
      have hlow := mt (and_highBit x).mpr hbit
      have hnext := clzFrom_spec hnum n (i + 1) (x <<< 1) (by omega) (by
        rw [UInt32.toNat_shiftLeft]
        show x.toNat <<< 1 % 2 ^ 32 = _
        have hdouble : x.toNat <<< 1 = x.toNat * 2 := Nat.shiftLeft_eq ..
        rw [hdouble, Nat.mod_eq_of_lt (by omega), hx, Nat.mul_assoc, ← Nat.pow_succ])
      rwa [UInt32.ofNat_add] at hnext

/-- The highest flagged TCS is flagged. -/
theorem topTcs_flagged {status : UInt32} (h : status ≠ 0) :
    (topTcs status).toNat < 32 ∧ status.toNat.testBit (topTcs status).toNat = true := by
  obtain ⟨b, hb, hbit, hclz⟩ := clzFrom_spec h 32 0 status rfl (by omega)
  have htop : (topTcs status).toNat = b := by
    rw [topTcs, rpmhClz, show (0 : UInt32) = .ofNat 0 from rfl, hclz]
    have hle : UInt32.ofNat b ≤ 31 := by
      rw [UInt32.le_iff_toNat_le, UInt32.toNat_ofNat']
      show b % 2 ^ 32 ≤ 31
      omega
    have hsub : (31 - UInt32.ofNat b : UInt32).toNat = 31 - b := by
      rw [UInt32.toNat_sub_of_le _ _ hle, UInt32.toNat_ofNat']
      show 31 - b % 2 ^ 32 = _
      omega
    rw [UInt32.toNat_sub_of_le _ _ (by rw [UInt32.le_iff_toNat_le, hsub]; show _ ≤ 31; omega), hsub]
    show 31 - (31 - b) = b
    omega
  rw [htop]
  exact ⟨hb, hbit⟩

/-! ## Owners -/

/-- The `num_amcs` of a DRV in a mode. -/
def DrvConfig.amcsIn (d : DrvConfig) (mode : Nat) (n : UInt32) : Prop := d.modes[mode]? = some n

/-- The `k`-th TCS of the `i`-th DRV is the AMC `b` of a hardware DRV, and busy. -/
def BusyAmc (cfg : List DrvConfig) (t : Tables) (hwDrv : UInt32) (i k b : Nat) : Prop :=
  ∃ d n request, cfg[i]? = some d ∧ d.hwDrv = hwDrv ∧ d.amcsIn (t.mode i) n ∧ k < n.toNat ∧
    b = d.tcsOffset.toNat + k ∧ (t.tcs i k).state = .amcWaitForDone ∧
    (t.tcs i k).cmds = some request ∧ request.reqId ≠ 0

/-- Only busy AMCs of the hardware DRV are flagged. -/
def OnlyBusy (cfg : List DrvConfig) (t : Tables) (hwDrv status : UInt32) : Prop :=
  ∀ b, status.toNat.testBit b = true → ∃ i k, BusyAmc cfg t hwDrv i k b

/-- The TCSs of two DRVs do not overlap. -/
def DrvConfig.Apart (d e : DrvConfig) : Prop :=
  d.tcsOffset.toNat + d.numTcs.toNat ≤ e.tcsOffset.toNat ∨
    e.tcsOffset.toNat + e.numTcs.toNat ≤ d.tcsOffset.toNat

/-- A configuration: the ids are different, the AMCs are among the TCSs, the numbers of these do not
wrap around, and DRVs that share a hardware DRV share no TCS. -/
structure WellFormed (cfg : List DrvConfig) : Prop where
  ids : cfg.Pairwise fun d e => d.drvId ≠ e.drvId
  amcs : ∀ d ∈ cfg, ∀ n ∈ d.modes, n ≤ d.numTcs
  tcss : ∀ d ∈ cfg, d.tcsOffset.toNat + d.numTcs.toNat ≤ 2 ^ 32
  apart : cfg.Pairwise fun d e => d.hwDrv = e.hwDrv → d.Apart e

/-- `tcs_update_mode` has numbered the TCSs. -/
def Numbered (cfg : List DrvConfig) (t : Tables) : Prop :=
  ∀ i d, cfg[i]? = some d → ∀ k, k < d.numTcs.toNat →
    (t.tcs i k).id = .ofNat (d.tcsOffset.toNat + k)

/-- The `h`-th DRV is the hardware DRV itself. -/
def IsHardware (cfg : List DrvConfig) (h : Nat) (hwDrv : UInt32) : Prop :=
  ∃ d, cfg[h]? = some d ∧ d.drvId = hwDrv ∧ d.hwDrv = hwDrv

/-- The TCS is one of the AMCs that the DRV has in a mode. -/
def DrvConfig.Covers (d : DrvConfig) (mode : Nat) (tcs : UInt32) : Prop :=
  d.tcsOffset.toNat ≤ tcs.toNat ∧
    ∃ n, d.amcsIn mode n ∧ tcs.toNat < d.tcsOffset.toNat + n.toNat

/-- The index of the TCS is negative, or the TCS is none of the AMCs that the DRV has in the mode.
-/
def DrvConfig.Skips (d : DrvConfig) (mode : Nat) (tcs : UInt32) : Prop :=
  ¬ tcs - d.tcsOffset < 0x80000000 ∨
    ∃ n, d.amcsIn mode n ∧
      (tcs.toNat < d.tcsOffset.toNat ∨ d.tcsOffset.toNat + n.toNat ≤ tcs.toNat)

/-- **When the right DRV is found**: a DRV of the hardware DRV has the highest flagged TCS among its
AMCs, counted in the mode numbered as the hardware DRV's, no DRV before it has, and the highest TCS
that is flagged when the status is read again is still one of its TCSs. -/
def Attributable (cfg : List DrvConfig) (t : Tables) (h : Nat)
    (hwDrv first second : UInt32) : Prop :=
  ∃ (i : Nat) (d : DrvConfig), cfg[i]? = some d ∧ d.hwDrv = hwDrv ∧
    d.Covers (t.mode h) (topTcs first) ∧
    (∀ (j : Nat) (e : DrvConfig), j < i → cfg[j]? = some e → e.Skips (t.mode h) (topTcs first)) ∧
    d.tcsOffset.toNat ≤ (topTcs second).toNat ∧
    (topTcs second).toNat < d.tcsOffset.toNat + d.numTcs.toNat

/-- **A completion attributed as it should be**: the command finished is the one that a flagged TCS
of the hardware DRV was busy with, by an index into the table of its DRV, and the bit cleared is the
one of this TCS. -/
def Attributed (cfg : List DrvConfig) (t : Tables) (first second : UInt32 → UInt32)
    (hwDrv : UInt32) : Prop :=
  ∃ f t', rpmhFinishAmc cfg t first second hwDrv = .ok (some (f, t')) ∧
    ∃ d, cfg[f.drvIndex]? = some d ∧ d.hwDrv = hwDrv ∧ f.tcsIndex < d.numTcs.toNat ∧
      (second hwDrv).toNat.testBit (d.tcsOffset.toNat + f.tcsIndex) = true ∧
      (t.tcs f.drvIndex f.tcsIndex).state = .amcWaitForDone ∧
      (t.tcs f.drvIndex f.tcsIndex).cmds = some f.request ∧
      f.clearedDrv = hwDrv ∧ f.clearedTcs = .ofNat (d.tcsOffset.toNat + f.tcsIndex) ∧
      t' = t.idle f.drvIndex f.tcsIndex

section
variable {cfg : List DrvConfig} {t : Tables} {hwDrv : UInt32} {d : DrvConfig} {tcs : UInt32}
  {mode i h : Nat} {n : UInt32}

/-- What the two comparisons of the search say about a DRV. -/
theorem tcsIndex_lt_iff (hn : d.tcsOffset.toNat + n.toNat ≤ 2 ^ 32) (htcs : tcs.toNat < 32) :
    tcs - d.tcsOffset < n ↔
      d.tcsOffset.toNat ≤ tcs.toNat ∧ tcs.toNat < d.tcsOffset.toNat + n.toNat := by
  have hoff := d.tcsOffset.toNat_lt
  rw [UInt32.lt_iff_toNat_lt, UInt32.toNat_sub]
  omega

theorem WellFormed.room (hcfg : WellFormed cfg) (hd : d ∈ cfg)
    (hn : d.amcsIn mode n) : d.tcsOffset.toNat + n.toNat ≤ 2 ^ 32 := by
  have hle := UInt32.le_iff_toNat_le.mp (hcfg.amcs d hd n (mem_of_getElem? hn))
  have hroom := hcfg.tcss d hd
  omega

/-- **What the search finds**: the first DRV that has the TCS among its AMCs. -/
theorem searchFinished_eq_some (mode : Nat) (drvId : UInt32) (htcs : tcs.toNat < 32) :
    ∀ {ds : List DrvConfig},
      (∀ d ∈ ds, ∀ n, d.amcsIn mode n → d.tcsOffset.toNat + n.toNat ≤ 2 ^ 32) →
      (searchFinished tcs mode ds = .ok (some drvId) ↔
        ∃ (i : Nat) (d : DrvConfig), ds[i]? = some d ∧ d.drvId = drvId ∧ d.Covers mode tcs ∧
          ∀ (j : Nat) (e : DrvConfig), j < i → ds[j]? = some e → e.Skips mode tcs)
  | [], _ => by
    constructor
    · exact nofun
    · rintro ⟨i, d, hd, -⟩
      cases hd
  | d :: ds, hroom => by
    have ih := searchFinished_eq_some mode drvId htcs fun e he =>
      hroom e (mem_cons_of_mem _ he)
    have hnext : d.Skips mode tcs → ¬ d.Covers mode tcs →
        searchFinished tcs mode (d :: ds) = searchFinished tcs mode ds →
        (searchFinished tcs mode (d :: ds) = .ok (some drvId) ↔
          ∃ (i : Nat) (e : DrvConfig), (d :: ds)[i]? = some e ∧ e.drvId = drvId ∧
            e.Covers mode tcs ∧
            ∀ (j : Nat) (e : DrvConfig), j < i → (d :: ds)[j]? = some e → e.Skips mode tcs) := by
      intro hskips hcovers heq
      rw [heq, ih]
      constructor
      · rintro ⟨i, e, he, hid, hcov, hbefore⟩
        refine ⟨i + 1, e, he, hid, hcov, fun j f hj hf => ?_⟩
        cases j with
        | zero => exact Option.some.inj hf ▸ hskips
        | succ j => exact hbefore j f (by omega) hf
      · rintro ⟨i, e, he, hid, hcov, hbefore⟩
        cases i with
        | zero => exact absurd (Option.some.inj he ▸ hcov) hcovers
        | succ i => exact ⟨i, e, he, hid, hcov, fun j f hj hf => hbefore (j + 1) f (by omega) hf⟩
    have hbig : (0x80000000 : UInt32).toNat = 2 ^ 31 := rfl
    have hoff := d.tcsOffset.toNat_lt
    by_cases hasked : tcs - d.tcsOffset < 0x80000000
    · cases hmode : d.modes[mode]? with
      | none =>
        constructor
        · intro hsearch
          rw [searchFinished, if_pos hasked, hmode] at hsearch
          cases hsearch
        · rintro ⟨i, e, he, -, hcov, hbefore⟩
          have hnone : ∀ n, ¬ d.amcsIn mode n := fun n hn => nomatch hmode.symm.trans hn
          cases i with
          | zero =>
            cases Option.some.inj he
            obtain ⟨-, n, hn, -⟩ := hcov
            exact absurd hn (hnone n)
          | succ i =>
            rcases hbefore 0 d (by omega) rfl with hneg | ⟨n, hn, -⟩
            · exact absurd hasked hneg
            · exact absurd hn (hnone n)
      | some n =>
        have hlt := tcsIndex_lt_iff (hroom d mem_cons_self n hmode) htcs
        have hrun : searchFinished tcs mode (d :: ds) =
            if tcs - d.tcsOffset < n then .ok (some d.drvId) else searchFinished tcs mode ds := by
          rw [searchFinished, if_pos hasked, hmode]
        by_cases hin : tcs - d.tcsOffset < n
        · rw [hrun, if_pos hin]
          have hcov : d.Covers mode tcs := ⟨(hlt.mp hin).1, n, hmode, (hlt.mp hin).2⟩
          constructor
          · intro hid
            exact ⟨0, d, rfl, Option.some.inj (Except.ok.inj hid), hcov, fun j e hj =>
              absurd hj (by omega)⟩
          · rintro ⟨i, e, he, hid, -, hbefore⟩
            cases i with
            | zero => rw [Option.some.inj he, hid]
            | succ i =>
              rcases hbefore 0 d (by omega) rfl with hneg | ⟨n', hn', hout⟩
              · exact absurd hasked hneg
              · obtain rfl : n = n' := Option.some.inj (hmode.symm.trans hn')
                have := hlt.mp hin
                omega
        · have hout := mt hlt.mpr hin
          refine hnext (.inr ⟨n, hmode, by omega⟩) ?_ (hrun.trans (if_neg hin))
          rintro ⟨hlow, n', hn', hhigh⟩
          obtain rfl : n = n' := Option.some.inj (hmode.symm.trans hn')
          exact hout ⟨hlow, hhigh⟩
    · refine hnext (.inl hasked) ?_ (by rw [searchFinished, if_neg hasked])
      rintro ⟨hlow, -⟩
      rw [UInt32.lt_iff_toNat_lt, UInt32.toNat_sub, hbig] at hasked
      omega

/-- The ids of a configuration are different. -/
theorem WellFormed.eq_of_id (hcfg : WellFormed cfg) {i j : Nat} {d e : DrvConfig}
    (hd : cfg[i]? = some d) (he : cfg[j]? = some e) (hid : d.drvId = e.drvId) : i = j := by
  obtain ⟨hi, rfl⟩ := List.getElem?_eq_some_iff.mp hd
  obtain ⟨hj, rfl⟩ := List.getElem?_eq_some_iff.mp he
  have hids := pairwise_iff_getElem.mp hcfg.ids
  rcases Nat.lt_trichotomy i j with h | h | h
  · exact absurd hid (hids i j hi hj h)
  · exact h
  · exact absurd hid.symm (hids j i hj hi h)

/-- DRVs that share a hardware DRV and a TCS are the same. -/
theorem WellFormed.eq_of_tcs (hcfg : WellFormed cfg) {i j b : Nat} {d e : DrvConfig}
    (hd : cfg[i]? = some d) (he : cfg[j]? = some e) (hhw : d.hwDrv = e.hwDrv)
    (hbd : d.tcsOffset.toNat ≤ b ∧ b < d.tcsOffset.toNat + d.numTcs.toNat)
    (hbe : e.tcsOffset.toNat ≤ b ∧ b < e.tcsOffset.toNat + e.numTcs.toNat) : i = j := by
  obtain ⟨hi, rfl⟩ := List.getElem?_eq_some_iff.mp hd
  obtain ⟨hj, rfl⟩ := List.getElem?_eq_some_iff.mp he
  have hapart := pairwise_iff_getElem.mp hcfg.apart
  rcases Nat.lt_trichotomy i j with h | h | h
  · rcases hapart i j hi hj h hhw with hle | hle <;> omega
  · exact h
  · rcases hapart j i hj hi h hhw.symm with hle | hle <;> omega

theorem WellFormed.lookupDrvIndex_eq (hcfg : WellFormed cfg) (hd : cfg[i]? = some d) :
    lookupDrvIndex cfg d.drvId = .ok i := by
  obtain ⟨hi, hget⟩ := List.getElem?_eq_some_iff.mp hd
  have hfind : cfg.findIdx? (·.drvId == d.drvId) = some i := by
    rw [findIdx?_eq_some_iff_getElem]
    refine ⟨hi, by simp [hget], fun j hj hsame => ?_⟩
    have hjlt : j < cfg.length := Nat.lt_trans hj hi
    have := hcfg.eq_of_id (getElem?_eq_getElem hjlt) hd (by simpa using hsame)
    omega
  rw [lookupDrvIndex, hfind]

/-- What `get_finished_drv` does for a hardware DRV. -/
theorem WellFormed.getFinishedDrv_eq (hcfg : WellFormed cfg) (hhw : IsHardware cfg h hwDrv)
    {status : UInt32 → UInt32} (hstatus : status hwDrv ≠ 0) :
    getFinishedDrv cfg t status hwDrv = searchFinished (topTcs (status hwDrv)) (t.mode h) cfg := by
  obtain ⟨d, hd, hid, hdrv⟩ := hhw
  have hlookup := hcfg.lookupDrvIndex_eq hd
  rw [hid] at hlookup
  have hat : drvAt cfg h = .ok d := by rw [drvAt, hd]
  show (lookupDrvIndex cfg hwDrv >>= fun drvIndex => drvAt cfg drvIndex >>= fun drv =>
    if status drv.hwDrv ≠ 0 then
      searchFinished (topTcs (status drv.hwDrv)) (t.mode drvIndex) cfg
    else pure none) = _
  rw [hlookup]
  show (drvAt cfg h >>= fun drv =>
    if status drv.hwDrv ≠ 0 then searchFinished (topTcs (status drv.hwDrv)) (t.mode h) cfg
    else pure none) = _
  rw [hat]
  show (if status d.hwDrv ≠ 0 then searchFinished (topTcs (status d.hwDrv)) (t.mode h) cfg
    else pure none) = _
  rw [hdrv, if_pos hstatus]

/-- What `get_finished_amc` requires and finds. -/
theorem WellFormed.getFinishedAmc_eq_some (hcfg : WellFormed cfg) (hd : cfg[i]? = some d)
    (t : Tables) (status : UInt32 → UInt32) (i' k : Nat) :
    getFinishedAmc cfg t status d.drvId = .ok (some (i', k)) ↔
      status d.hwDrv ≠ 0 ∧ i' = i ∧ k = (topTcs (status d.hwDrv) - d.tcsOffset).toNat ∧
        k < d.numTcs.toNat ∧ (t.tcs i k).state = .amcWaitForDone := by
  have hat : drvAt cfg i = .ok d := by rw [drvAt, hd]
  have hrun : getFinishedAmc cfg t status d.drvId =
      if status d.hwDrv ≠ 0 then
        if ¬ topTcs (status d.hwDrv) - d.tcsOffset ≤ d.numTcs then .error .verify
        else if ¬ topTcs (status d.hwDrv) - d.tcsOffset < d.numTcs then .error .outOfBounds
        else if (t.tcs i (topTcs (status d.hwDrv) - d.tcsOffset).toNat).state ≠ .amcWaitForDone then
          .error .verify
        else .ok (some (i, (topTcs (status d.hwDrv) - d.tcsOffset).toNat))
      else .ok none := by
    rw [getFinishedAmc, hcfg.lookupDrvIndex_eq hd]
    show (drvAt cfg i >>= _) = _
    rw [hat]
    simp only [bind, Except.bind, throw, throwThe, MonadExceptOf.throw, pure, Except.pure]
  rw [hrun]
  by_cases hstatus : status d.hwDrv ≠ 0
  · rw [if_pos hstatus]
    by_cases hle : topTcs (status d.hwDrv) - d.tcsOffset ≤ d.numTcs
    · rw [if_neg (not_not_intro hle)]
      by_cases hlt : topTcs (status d.hwDrv) - d.tcsOffset < d.numTcs
      · rw [if_neg (not_not_intro hlt)]
        by_cases hstate : (t.tcs i (topTcs (status d.hwDrv) - d.tcsOffset).toNat).state =
            .amcWaitForDone
        · rw [if_neg (not_not_intro hstate)]
          constructor
          · intro heq
            cases heq
            exact ⟨hstatus, rfl, rfl, UInt32.lt_iff_toNat_lt.mp hlt, hstate⟩
          · rintro ⟨-, rfl, rfl, -, -⟩
            rfl
        · rw [if_pos hstate]
          constructor
          · rintro ⟨⟩
          · rintro ⟨-, -, rfl, -, hs⟩
            exact absurd hs hstate
      · rw [if_pos hlt]
        constructor
        · rintro ⟨⟩
        · rintro ⟨-, -, rfl, hk, -⟩
          exact absurd (UInt32.lt_iff_toNat_lt.mpr hk) hlt
    · rw [if_pos hle]
      constructor
      · rintro ⟨⟩
      · rintro ⟨-, -, rfl, hk, -⟩
        exact absurd (UInt32.le_iff_toNat_le.mpr (Nat.le_of_lt hk)) hle
  · rw [if_neg hstatus]
    constructor
    · rintro ⟨⟩
    · exact fun hall => absurd hall.1 hstatus

/-- What `rpmh_finish_amc` finishes once the DRV has been found. -/
theorem WellFormed.rpmhFinishAmc_eq_some (hcfg : WellFormed cfg) (hd : cfg[i]? = some d)
    {first second : UInt32 → UInt32}
    (hfound : getFinishedDrv cfg t first hwDrv = .ok (some d.drvId)) {f : Finished} {t' : Tables} :
    rpmhFinishAmc cfg t first second hwDrv = .ok (some (f, t')) ↔
      second d.hwDrv ≠ 0 ∧ f.drvIndex = i ∧
        f.tcsIndex = (topTcs (second d.hwDrv) - d.tcsOffset).toNat ∧
        f.tcsIndex < d.numTcs.toNat ∧ (t.tcs i f.tcsIndex).state = .amcWaitForDone ∧
        (t.tcs i f.tcsIndex).cmds = some f.request ∧ f.request.reqId ≠ 0 ∧
        f.clearedDrv = d.hwDrv ∧ f.clearedTcs = (t.tcs i f.tcsIndex).id ∧
        t' = t.idle i f.tcsIndex := by
  have hat : drvAt cfg i = .ok d := by rw [drvAt, hd]
  have hamc := hcfg.getFinishedAmc_eq_some hd t second
  have hrun : rpmhFinishAmc cfg t first second hwDrv =
      (tcsFinishActiveAmc cfg t second d.drvId >>= fun done =>
        match done with
        | none => throw .verify
        | some (f, t') => do
          if f.request.reqId = 0 then throw .verify
          pure (some (f, t'))) := by
    rw [rpmhFinishAmc, hfound]
    rfl
  rw [hrun, tcsFinishActiveAmc]
  cases hget : getFinishedAmc cfg t second d.drvId with
  | error e =>
    constructor
    · rintro ⟨⟩
    · rintro ⟨hs, -, hk, hlt, hstate, -⟩
      cases hget.symm.trans ((hamc i f.tcsIndex).mpr ⟨hs, rfl, hk, hlt, hstate⟩)
  | ok found =>
    cases found with
    | none =>
      constructor
      · rintro ⟨⟩
      · rintro ⟨hs, -, hk, hlt, hstate, -⟩
        cases hget.symm.trans ((hamc i f.tcsIndex).mpr ⟨hs, rfl, hk, hlt, hstate⟩)
    | some found =>
      obtain ⟨i', k⟩ := found
      obtain ⟨hs, rfl, hk, hlt, hstate⟩ := (hamc i' k).mp hget
      show (drvAt cfg i' >>= _ >>= _) = _ ↔ _
      rw [hat]
      cases hcmds : (t.tcs i' k).cmds with
      | none =>
        simp only [bind, Except.bind, throw, throwThe, MonadExceptOf.throw]
        constructor
        · rintro ⟨⟩
        · rintro ⟨-, -, hk', -, -, hsome, -⟩
          rw [hk', ← hk, hcmds] at hsome
          cases hsome
      | some request =>
        simp only [bind, Except.bind, throw, throwThe, MonadExceptOf.throw, pure, Except.pure]
        by_cases hreq : request.reqId = 0
        · rw [if_pos hreq]
          constructor
          · rintro ⟨⟩
          · rintro ⟨-, -, hk', -, -, hsome, hne, -⟩
            rw [hk', ← hk, hcmds] at hsome
            cases hsome
            exact absurd hreq hne
        · rw [if_neg hreq]
          constructor
          · intro heq
            cases heq
            exact ⟨hs, rfl, hk, hlt, hstate, hcmds, hreq, rfl, rfl, rfl⟩
          · obtain ⟨fi, fk, freq, fdrv, ftcs⟩ := f
            dsimp only
            rintro ⟨-, rfl, hk', -, -, hsome, -, rfl, rfl, rfl⟩
            obtain rfl : fk = k := hk'.trans hk.symm
            obtain rfl : request = freq := Option.some.inj (hcmds.symm.trans hsome)
            rfl

end

/-- **A completion is attributed as it should be exactly when the right DRV is found.** -/
theorem attributed_iff_attributable {cfg : List DrvConfig} {t : Tables}
    {first second : UInt32 → UInt32} {h : Nat} {hwDrv : UInt32} (hcfg : WellFormed cfg)
    (hnum : Numbered cfg t) (hhw : IsHardware cfg h hwDrv) (hfirst : first hwDrv ≠ 0)
    (hsecond : second hwDrv ≠ 0) (hbusy : OnlyBusy cfg t hwDrv (second hwDrv)) :
    Attributed cfg t first second hwDrv ↔
      Attributable cfg t h hwDrv (first hwDrv) (second hwDrv) := by
  have htop := topTcs_flagged hfirst
  have hfound := hcfg.getFinishedDrv_eq (t := t) hhw hfirst
  have hsearch := fun drvId => searchFinished_eq_some (t.mode h) drvId htop.1
    fun d hd n hn => hcfg.room hd hn
  constructor
  · rintro ⟨f, t', hrun, d, hd, hdrv, -, -⟩
    obtain ⟨drvId, hdrvId⟩ : ∃ drvId, getFinishedDrv cfg t first hwDrv = .ok (some drvId) := by
      cases hget : getFinishedDrv cfg t first hwDrv with
      | error e =>
        rw [rpmhFinishAmc, hget] at hrun
        cases hrun
      | ok found =>
        cases found with
        | none =>
          rw [rpmhFinishAmc, hget] at hrun
          cases hrun
        | some drvId => exact ⟨drvId, rfl⟩
    obtain ⟨i, e, he, rfl, hcov, hbefore⟩ := (hsearch drvId).mp (hfound.symm.trans hdrvId)
    obtain ⟨-, hi, hk, hlt, -⟩ := (hcfg.rpmhFinishAmc_eq_some he hdrvId).mp hrun
    rw [hi] at hd
    obtain rfl : e = d := Option.some.inj (he.symm.trans hd)
    have hroom := hcfg.tcss e (mem_of_getElem? he)
    have hoff := e.tcsOffset.toNat_lt
    have hlow := (topTcs_flagged hsecond).1
    rw [hk, hdrv, UInt32.toNat_sub] at hlt
    exact ⟨i, e, he, hdrv, hcov, hbefore, by omega, by omega⟩
  · rintro ⟨i, d, hd, hdrv, hcov, hbefore, hlow, hhigh⟩
    have hdrvId := hfound.trans ((hsearch d.drvId).mpr ⟨i, d, hd, rfl, hcov, hbefore⟩)
    obtain ⟨-, hflag⟩ := topTcs_flagged hsecond
    obtain ⟨i', k, e, n, request, he, hedrv, hn, hkn, hb, hstate, hcmds, hreq⟩ := hbusy _ hflag
    have hamcs := UInt32.le_iff_toNat_le.mp
      (hcfg.amcs e (mem_of_getElem? he) n (mem_of_getElem? hn))
    -- the DRV found and the one that is busy with the flagged TCS share it
    obtain rfl : i = i' := hcfg.eq_of_tcs hd he (hdrv.trans hedrv.symm) ⟨hlow, hhigh⟩
      ⟨by omega, by omega⟩
    obtain rfl : d = e := Option.some.inj (hd.symm.trans he)
    have hk : k = (topTcs (second d.hwDrv) - d.tcsOffset).toNat := by
      rw [hdrv, UInt32.toNat_sub]
      have hoff := d.tcsOffset.toNat_lt
      have htop := (topTcs (second hwDrv)).toNat_lt
      omega
    have hlt : k < d.numTcs.toNat := by omega
    refine ⟨⟨i, k, request, d.hwDrv, (t.tcs i k).id⟩, t.idle i k,
      (hcfg.rpmhFinishAmc_eq_some hd hdrvId).mpr
        ⟨hdrv ▸ hsecond, rfl, hk, hlt, hstate, hcmds, hreq, rfl, rfl, rfl⟩,
      d, hd, hdrv, hlt, ?_, hstate, hcmds, hdrv, hnum i d hd k hlt, rfl⟩
    rw [← hb]
    exact hflag

/-- A DRV with its eight TCSs from the first on, two of them AMCs. -/
def eightTcss (drvId : UInt32) : DrvConfig := ⟨drvId, drvId, 0, 8, [2]⟩

/-- Every AMC is busy, with a request for the client of its DRV. -/
def allBusy : Tables where
  tcs i k := ⟨.ofNat k, .amcWaitForDone, some ⟨i, 1⟩⟩
  mode _ := 0

/-- Two DRVs that share a hardware DRV, each with four TCSs, two of them AMCs. -/
def sharedTcss : List DrvConfig := [⟨6, 6, 0, 4, [2]⟩, ⟨7, 6, 4, 4, [2]⟩]

/-- Every AMC of the two is busy, with a request for the client of its DRV. -/
def sharedBusy : Tables where
  tcs i k := ⟨.ofNat (4 * i + k), .amcWaitForDone, some ⟨i, 1⟩⟩
  mode _ := 0

/-- When the second AMC of the other DRV is flagged between the two readings, it is the one
finished. -/
theorem attributed_iff_attributable_one :
    Attributed sharedTcss sharedBusy (fun _ => 0x11) (fun _ => 0x31) 6 := by
  have hcfg : WellFormed sharedTcss :=
    ⟨by simp [sharedTcss], by simp [sharedTcss], by simp [sharedTcss],
      by simp [sharedTcss, DrvConfig.Apart]⟩
  have hnum : Numbered sharedTcss sharedBusy := by
    intro i d hd k hk
    match i, hd with
    | 0, rfl => exact congrArg UInt32.ofNat (Nat.add_comm 0 k ▸ rfl)
    | 1, rfl => rfl
  have hbusy : OnlyBusy sharedTcss sharedBusy 6 0x31 := by
    intro b hb
    have hlt : b < 6 := by
      apply Nat.lt_of_not_le
      intro hle
      have hclear := Nat.testBit_lt_two_pow (Nat.lt_of_lt_of_le (show 0x31 < 2 ^ 6 by decide)
        (Nat.pow_le_pow_right (by decide) hle))
      exact absurd (hclear.symm.trans hb) (by decide)
    have hbits : ∀ b < 6, (0x31 : UInt32).toNat.testBit b = true → b = 0 ∨ b = 4 ∨
        b = 5 := by decide
    obtain rfl | rfl | rfl := hbits b hlt hb
    · exact ⟨0, 0, _, 2, ⟨0, 1⟩, rfl, rfl, rfl, by decide, rfl, rfl, rfl, by decide⟩
    · exact ⟨1, 0, _, 2, ⟨1, 1⟩, rfl, rfl, rfl, by decide, rfl, rfl, rfl, by decide⟩
    · exact ⟨1, 1, _, 2, ⟨1, 1⟩, rfl, rfl, rfl, by decide, rfl, rfl, rfl, by decide⟩
  refine (attributed_iff_attributable hcfg hnum ⟨_, (rfl : sharedTcss[0]? = _), rfl, rfl⟩
    (by decide) (by decide) hbusy).mpr
    ⟨1, _, rfl, rfl, ⟨by decide, 2, rfl, by decide⟩, fun j e hj he => ?_, by decide, by decide⟩
  obtain rfl := Nat.lt_one_iff.mp hj
  cases he
  exact .inr ⟨2, rfl, .inr (by decide)⟩

/-- **The command of a DRV of another RSC is finished.** Two hardware DRVs, each with eight TCSs
from the first on: the second one flags its first AMC, and the command of the first one is finished
and the bit of the first one cleared. -/
theorem finishes_other_rsc :
    WellFormed [eightTcss 6, eightTcss 7] ∧ IsHardware [eightTcss 6, eightTcss 7] 1 7 ∧
      OnlyBusy [eightTcss 6, eightTcss 7] allBusy 7 1 ∧
      (∃ t', rpmhFinishAmc [eightTcss 6, eightTcss 7] allBusy (fun _ => 1) (fun _ => 1) 7 =
        .ok (some (⟨0, 0, ⟨0, 1⟩, 6, 0⟩, t'))) ∧
      ¬ Attributed [eightTcss 6, eightTcss 7] allBusy (fun _ => 1) (fun _ => 1) 7 := by
  have hrun : rpmhFinishAmc [eightTcss 6, eightTcss 7] allBusy (fun _ => 1) (fun _ => 1) 7 =
      .ok (some (⟨0, 0, ⟨0, 1⟩, 6, 0⟩, allBusy.idle 0 0)) := rfl
  refine ⟨⟨by simp [eightTcss], by simp [eightTcss], by simp [eightTcss], by simp [eightTcss]⟩,
    ⟨_, rfl, rfl, rfl⟩, ?_, ⟨_, hrun⟩, ?_⟩
  · intro b hb
    obtain rfl : b = 0 := by
      apply Nat.eq_zero_of_not_pos
      intro hpos
      have hclear := Nat.testBit_lt_two_pow (Nat.one_lt_two_pow (Nat.ne_of_gt hpos))
      exact absurd (hclear.symm.trans hb) (by decide)
    exact ⟨1, 0, _, 2, ⟨1, 1⟩, rfl, rfl, rfl, by decide, rfl, rfl, rfl, by decide⟩
  · rintro ⟨f, t', hother, d, hd, hdrv, -⟩
    rw [hrun] at hother
    cases hother
    cases hd
    exact absurd hdrv (by decide)

end Rpmh.Finish
