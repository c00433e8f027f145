import BootXf.Lib.Word
import BootXf.XBLConfig.VerifyData

/-!
# What the hash is fed

A read that verifies has fed the hash the segment in front of the item, the item, and the segment
behind it. And a read succeeds when the calls outside do and the bytes have the digest of the hash
table.
-/

namespace XBLConfig

open Lib List Checked

/-- The machine has only gone on with its calls, and fed the hash these bytes. -/
def Fed (bytes : List UInt8) (m m' : Machine) : Prop :=
  m' = { m with tick := m'.tick, fed := m.fed ++ bytes }

section
variable {w : World} {m m' m'' : Machine} {e : XblconfigStatus} {bytes bytes' : List UInt8}
  {off off' size size' : UInt64} {data : List UInt8} {u : Unit} {p : Code Machine Unit}
  {fuel : Nat}

/-- Nothing is fed where nothing is done. -/
theorem Fed.refl (m : Machine) : Fed [] m m := by
  rw [Fed, append_nil]

/-- What is fed in two parts is fed in that order. -/
theorem Fed.trans (h : Fed bytes m m') (h' : Fed bytes' m' m'') : Fed (bytes ++ bytes') m m'' := by
  rw [Fed] at h h' ⊢
  rw [h] at h'
  rw [← append_assoc]
  exact h'

/-- Every call outside succeeds. -/
def World.Fine (w : World) : Prop := ∀ n, w.answers n = true

/-! ## The calls -/

/-- A call succeeds as the world answers. -/
theorem call_ok :
    call w e m = (.ok u, m') ↔ w.answers m.tick = true ∧ m' = { m with tick := m.tick + 1 } := by
  rw [call, bind_ok]
  constructor
  · rintro ⟨ok, t, hask, hbreak⟩
    obtain ⟨hok, rfl⟩ := Prod.mk.inj hask
    obtain ⟨hfalse, rfl⟩ := breakIf_ok.mp hbreak
    refine ⟨?_, rfl⟩
    rw [Except.ok.inj hok]
    simpa using hfalse
  · rintro ⟨hok, rfl⟩
    exact ⟨true, _, by rw [ask, hok], rfl⟩

/-- A call succeeds where nothing fails. -/
theorem call_fine (h : w.Fine) (e : XblconfigStatus) (m : Machine) :
    call w e m = (.ok (), { m with tick := m.tick + 1 }) :=
  call_ok.mpr ⟨h _, rfl⟩

/-- A buffer that is allocated has a 32-bit size. -/
theorem xcfgMalloc_ok (h : xcfgMalloc w size m = (.ok u, m')) :
    size ≤ xcfgUint32Max ∧ m' = { m with tick := m.tick + 1, live := m.live + 1 } := by
  obtain ⟨hsize, h⟩ := breakIf_bind_ok.mp h
  obtain ⟨_, _, hcall, h⟩ := bind_ok.mp h
  obtain ⟨-, rfl⟩ := call_ok.mp hcall
  obtain rfl := update_ok.mp h
  exact ⟨UInt64.not_lt.mp (of_decide_eq_false hsize), rfl⟩

/-- A buffer of a 32-bit size is allocated. -/
theorem xcfgMalloc_fine (h : w.Fine) (hsize : size ≤ xcfgUint32Max) (m : Machine) :
    xcfgMalloc w size m = (.ok (), { m with tick := m.tick + 1, live := m.live + 1 }) := by
  rw [xcfgMalloc, bind_run (breakIf_run (decide_eq_false (UInt64.not_lt.mpr hsize)) m),
    bind_run (call_fine h _ _)]
  rfl

/-- A buffer that is freed is live no more. -/
theorem xcfgFree_ok (h : xcfgFree w m = (.ok u, m')) :
    m' = { m with tick := m.tick + 1, live := m.live - 1 } := by
  obtain ⟨_, _, hcall, h⟩ := bind_ok.mp h
  obtain ⟨-, rfl⟩ := call_ok.mp hcall
  exact (update_ok.mp h).symm

/-- A buffer is freed where nothing fails. -/
theorem xcfgFree_fine (h : w.Fine) (m : Machine) :
    xcfgFree w m = (.ok (), { m with tick := m.tick + 1, live := m.live - 1 }) := by
  rw [xcfgFree, bind_run (call_fine h _ _)]
  rfl

/-- The buffer is freed behind a success. -/
theorem thenFree_ok (h : thenFree w p m = (.ok u, m')) :
    ∃ t, p m = (.ok (), t) ∧ m' = { t with tick := t.tick + 1, live := t.live - 1 } := by
  rw [thenFree] at h
  split at h
  · next t hp => exact ⟨t, hp, xcfgFree_ok h⟩
  · cases h
  · cases h

/-- Freeing the buffer keeps a success. -/
theorem thenFree_fine (h : w.Fine) (hp : p m = (.ok (), m')) :
    thenFree w p m = (.ok (), { m' with tick := m'.tick + 1, live := m'.live - 1 }) := by
  rw [thenFree, hp]
  exact xcfgFree_fine h m'

/-- Replacing the status of an error keeps the successes. -/
theorem orVerifyErr_ok {α : Type} {p : Code Machine α} {a : α} :
    orVerifyErr p m = (.ok a, m') ↔ p m = (.ok a, m') := by
  rw [orVerifyErr]
  split
  · next hp =>
    rw [hp]
    constructor <;> rintro ⟨⟩
  · exact Iff.rfl

/-- **One read** gives what is on storage. -/
theorem xcfgGetData_ok (h : xcfgGetData w off size m = (.ok data, m')) :
    data = w.storage.read off.toNat size.toNat ∧ Fed [] m m' ∧ off ≤ xcfgUint32Max := by
  obtain ⟨-, h⟩ := breakIf_bind_ok.mp h
  obtain ⟨hmax, h⟩ := breakIf_bind_ok.mp h
  obtain ⟨_, _, hopen, h⟩ := bind_ok.mp h
  obtain ⟨-, rfl⟩ := call_ok.mp hopen
  obtain ⟨_, _, hup, h⟩ := bind_ok.mp h
  obtain rfl := update_ok.mp hup
  obtain ⟨_, _, hread, h⟩ := bind_ok.mp h
  obtain ⟨-, rfl⟩ := call_ok.mp hread
  obtain ⟨_, _, hdown, h⟩ := bind_ok.mp h
  obtain rfl := update_ok.mp hdown
  obtain ⟨rfl, rfl⟩ := pure_ok.mp h
  refine ⟨rfl, ?_, ?_⟩
  · rw [Fed, append_nil]
    rfl
  · rw [Bool.or_eq_false_iff, decide_eq_false_iff_not] at hmax
    exact UInt64.not_lt.mp hmax.1

/-- Data at a 32-bit offset and of a 32-bit size is read. -/
theorem xcfgGetData_fine (h : w.Fine) (hsome : size ≠ 0) (hoff : off ≤ xcfgUint32Max)
    (hsize : size ≤ xcfgUint32Max) (m : Machine) :
    xcfgGetData w off size m =
      (.ok (w.storage.read off.toNat size.toNat), { m with tick := m.tick + 2 }) := by
  have hmax : (decide (off > xcfgUint32Max) || decide (size > xcfgUint32Max)) = false := by
    rw [decide_eq_false (UInt64.not_lt.mpr hoff), decide_eq_false (UInt64.not_lt.mpr hsize)]
    rfl
  rw [xcfgGetData, bind_run (breakIf_run (decide_eq_false hsome) m),
    bind_run (breakIf_run hmax m), bind_run (call_fine h _ _),
    bind_run (update_run _ _), bind_run (call_fine h _ _)]
  rfl

/-- An update feeds its bytes to the hash. -/
theorem partialHashUpdate_ok (h : partialHashUpdate w bytes m = (.ok u, m')) :
    Fed bytes m m' := by
  obtain ⟨_, _, hcall, h⟩ := bind_ok.mp h
  obtain ⟨-, rfl⟩ := call_ok.mp hcall
  obtain rfl := update_ok.mp h
  rfl

/-- An update succeeds where nothing fails. -/
theorem partialHashUpdate_fine (h : w.Fine) (bytes : List UInt8) (m : Machine) :
    partialHashUpdate w bytes m =
      (.ok (), { m with tick := m.tick + 1, fed := m.fed ++ bytes }) := by
  rw [partialHashUpdate, bind_run (call_fine h _ _)]
  rfl

/-! ## Hashing a part of the segment -/

/-- The loop feeds what is in front of what it leaves. -/
theorem fullChunks_ok (hend : off.toNat + size.toNat < 2 ^ 64)
    (h : fullChunks w fuel off size m = (.ok (off', size'), m')) :
    ∃ n, n + size'.toNat = size.toNat ∧ off'.toNat = off.toNat + n ∧
      Fed (w.storage.read off.toNat n) m m' := by
  induction fuel generalizing off size m with
  | zero =>
    obtain ⟨hpair, rfl⟩ := pure_ok.mp h
    obtain ⟨rfl, rfl⟩ := Prod.mk.inj hpair
    exact ⟨0, Nat.zero_add _, rfl, .refl _⟩
  | succ fuel ih =>
    rw [fullChunks] at h
    split at h
    · next hmore =>
      have hmore : 1024 < size.toNat := UInt64.lt_iff_toNat_lt.mp hmore
      obtain ⟨buff, t, hget, h⟩ := bind_ok.mp h
      obtain ⟨rfl, hget, -⟩ := xcfgGetData_ok (orVerifyErr_ok.mp hget)
      obtain ⟨_, t', hfeed, h⟩ := bind_ok.mp h
      have hfeed := partialHashUpdate_ok hfeed
      have hoff : (off + partialHashBuffSize).toNat = off.toNat + 1024 := by
        rw [UInt64.toNat_add, Nat.mod_eq_of_lt]
        · rfl
        · show off.toNat + 1024 < _
          omega
      have hsize : (size - partialHashBuffSize).toNat = size.toNat - 1024 :=
        UInt64.toNat_sub_of_le _ _ (UInt64.le_iff_toNat_le.mpr (Nat.le_of_lt hmore))
      obtain ⟨n, hn, hoff', hrest⟩ := ih (by omega) h
      refine ⟨1024 + n, by omega, by omega, ?_⟩
      rw [← Contents.read_append, ← hoff]
      exact (hget.trans hfeed).trans hrest
    · obtain ⟨hpair, rfl⟩ := pure_ok.mp h
      obtain ⟨rfl, rfl⟩ := Prod.mk.inj hpair
      exact ⟨0, Nat.zero_add _, rfl, .refl _⟩

/-- A part of the segment can be read chunk by chunk: each begins at an offset of 32 bits. -/
def Readable (off len : Nat) : Prop := ∀ k, k * 1024 < len → off + k * 1024 ≤ 0xFFFFFFFF

/-- What is behind a chunk can be read, too. -/
theorem Readable.next {off len : Nat} (h : Readable off len) :
    Readable (off + 1024) (len - 1024) := by
  intro k hk
  have hlt : (k + 1) * 1024 < len := by
    rw [Nat.add_mul, Nat.one_mul]
    exact Nat.add_lt_of_lt_sub hk
  have h := h (k + 1) hlt
  rw [Nat.add_mul, Nat.one_mul] at h
  rw [Nat.add_assoc, Nat.add_comm 1024]
  exact h

/-- What is left to read begins there too. -/
theorem Readable.start (h : Readable off.toNat size.toNat) (hsome : size ≠ 0) :
    off ≤ xcfgUint32Max := by
  have hpos : 0 < size.toNat := Nat.pos_of_ne_zero fun hno => hsome (UInt64.toNat_inj.mp hno)
  have h := h 0 (by omega)
  rw [Nat.zero_mul, Nat.add_zero] at h
  exact UInt64.le_iff_toNat_le.mpr h

/-- The full chunks are read and fed. -/
theorem fullChunks_fine (h : w.Fine) (off size : UInt64) (hend : off.toNat + size.toNat < 2 ^ 64)
    (hread : Readable off.toNat size.toNat) (hfuel : size.toNat ≤ fuel) (m : Machine) :
    ∃ off' size' m', fullChunks w fuel off size m = (.ok (off', size'), m') ∧
      size' ≤ partialHashBuffSize ∧ (size' ≠ 0 → off' ≤ xcfgUint32Max) := by
  induction fuel generalizing off size m with
  | zero =>
    refine ⟨off, size, m, rfl, UInt64.le_iff_toNat_le.mpr ?_, hread.start⟩
    rw [Nat.le_zero.mp hfuel]
    exact Nat.zero_le _
  | succ fuel ih =>
    rw [fullChunks]
    split
    · next hmore =>
      have hmore' : 1024 < size.toNat := UInt64.lt_iff_toNat_lt.mp hmore
      have hsome : size ≠ 0 := by
        rintro rfl
        exact absurd hmore' (by decide)
      have hoff : (off + partialHashBuffSize).toNat = off.toNat + 1024 := by
        rw [UInt64.toNat_add, Nat.mod_eq_of_lt]
        · rfl
        · show off.toNat + 1024 < _
          omega
      have hsize : (size - partialHashBuffSize).toNat = size.toNat - 1024 :=
        UInt64.toNat_sub_of_le _ _ (UInt64.le_iff_toNat_le.mpr (Nat.le_of_lt hmore'))
      have hread' :
          Readable (off + partialHashBuffSize).toNat (size - partialHashBuffSize).toNat := by
        rw [hoff, hsize]
        exact hread.next
      rw [bind_run (orVerifyErr_ok.mpr (xcfgGetData_fine h (by decide)
        (hread.start hsome) (by decide) m)), bind_run (partialHashUpdate_fine h _ _)]
      exact ih _ _ (by omega) hread' (by omega) _
    · next hless => exact ⟨off, size, m, rfl, UInt64.not_lt.mp hless, hread.start⟩

/-- **A part of the segment** is fed from its start to its end. -/
theorem xcfgVerifyTransientData_ok (h : xcfgVerifyTransientData w off off' m = (.ok u, m')) :
    Fed (w.storage.read off.toNat (off'.toNat - off.toNat)) m m' := by
  obtain ⟨hle, h⟩ := breakIf_bind_ok.mp h
  have hle := UInt64.not_lt.mp (of_decide_eq_false hle)
  have hsize : (off' - off).toNat = off'.toNat - off.toNat := UInt64.toNat_sub_of_le _ _ hle
  have hle := UInt64.le_iff_toNat_le.mp hle
  obtain ⟨_, t, hmalloc, h⟩ := bind_ok.mp h
  obtain ⟨-, rfl⟩ := xcfgMalloc_ok hmalloc
  obtain ⟨t, hbody, rfl⟩ := thenFree_ok h
  obtain ⟨⟨last, left⟩, t', hloop, h⟩ := bind_ok.mp hbody
  obtain ⟨n, hn, hlast, hloop⟩ := fullChunks_ok (by have := off'.toNat_lt; omega) hloop
  dsimp only at h
  suffices hend : Fed (w.storage.read last.toNat left.toNat) t' t by
    have hall := hloop.trans hend
    rw [hlast, Contents.read_append, hn, hsize] at hall
    rw [Fed] at hall ⊢
    rw [hall]
    rfl
  rw [when] at h
  split at h
  · obtain ⟨buff, t'', hget, h⟩ := bind_ok.mp h
    obtain ⟨rfl, hget, -⟩ := xcfgGetData_ok (orVerifyErr_ok.mp hget)
    exact hget.trans (partialHashUpdate_ok h)
  · next hnone =>
    obtain ⟨-, rfl⟩ := pure_ok.mp h
    have hzero : left.toNat = 0 :=
      Nat.le_zero.mp (UInt64.le_iff_toNat_le.mp (UInt64.not_lt.mp hnone))
    rw [hzero]
    exact .refl _

/-- The data between two offsets is read and fed. -/
theorem xcfgVerifyTransientData_fine (h : w.Fine) (hle : off.toNat ≤ off'.toNat)
    (hread : Readable off.toNat (off'.toNat - off.toNat)) (m : Machine) :
    ∃ m', xcfgVerifyTransientData w off off' m = (.ok (), m') := by
  have hle' : off ≤ off' := UInt64.le_iff_toNat_le.mpr hle
  have hsize : (off' - off).toNat = off'.toNat - off.toNat := UInt64.toNat_sub_of_le _ _ hle'
  rw [xcfgVerifyTransientData, bind_run (breakIf_run
    (decide_eq_false (UInt64.not_lt.mpr hle')) m), bind_run (xcfgMalloc_fine h (by decide) m)]
  obtain ⟨last, left, t, hloop, hleft, hlast⟩ := fullChunks_fine h off (off' - off)
    (by have := off'.toNat_lt; omega) (hsize ▸ hread) (Nat.le_refl _)
    { m with tick := m.tick + 1, live := m.live + 1 }
  suffices hend : ∃ t', when (left > 0) (do
      let buff ← orVerifyErr (xcfgGetData w last left)
      partialHashUpdate w buff) t = (.ok (), t') by
    obtain ⟨t', hend⟩ := hend
    exact ⟨_, thenFree_fine h ((bind_run hloop).trans hend)⟩
  rw [when]
  split
  · next hsome =>
    have hne : left ≠ 0 := by
      rintro rfl
      exact absurd hsome (by decide)
    rw [bind_run (orVerifyErr_ok.mpr (xcfgGetData_fine h hne (hlast hne)
      (UInt64.le_trans hleft (by decide)) t))]
    exact ⟨_, partialHashUpdate_fine h _ _⟩
  · exact ⟨t, rfl⟩

/-- What lies between two offsets is fed, if anything does. -/
theorem whenTransientData_ok
    (h : when (off < off') (xcfgVerifyTransientData w off off') m = (.ok u, m')) :
    Fed (w.storage.read off.toNat (off'.toNat - off.toNat)) m m' := by
  rw [when] at h
  split at h
  · exact xcfgVerifyTransientData_ok h
  · next hge =>
    obtain ⟨-, rfl⟩ := pure_ok.mp h
    rw [Nat.sub_eq_zero_of_le (UInt64.le_iff_toNat_le.mp (UInt64.not_lt.mp hge))]
    exact .refl _

/-- The data between two offsets is fed if there is any. -/
theorem whenTransientData_fine (h : w.Fine) (off off' : UInt64)
    (hread : Readable off.toNat (off'.toNat - off.toNat)) (m : Machine) :
    ∃ m', when (off < off') (xcfgVerifyTransientData w off off') m = (.ok (), m') := by
  rw [when]
  split
  · next hlt =>
    exact xcfgVerifyTransientData_fine h (Nat.le_of_lt (UInt64.lt_iff_toNat_lt.mp hlt)) hread m
  · exact ⟨m, rfl⟩

/-- What a verification feeds: the segment in front of the item, the buffer, and the segment
behind. -/
def around (c : Contents) (seg : SegmentInfo) (start size : UInt64) (buffer : List UInt8) :
    List UInt8 :=
  c.read seg.offset.toNat (start.toNat - seg.offset.toNat) ++ buffer ++
    c.read (start.toNat + size.toNat)
      (seg.offset.toNat + seg.size.toNat - (start.toNat + size.toNat))

/-- The hash starts with nothing fed. -/
theorem fed_update (h : partialHashInit w m = (.ok u, m')) :
    m' = { m with tick := m'.tick, fed := [] } := by
  obtain ⟨_, _, hcall, h⟩ := bind_ok.mp h
  obtain ⟨-, rfl⟩ := call_ok.mp hcall
  obtain rfl := update_ok.mp h
  rfl

/-- A sum that passes the overflow check. -/
theorem toNat_add_of_not_lt {a b : UInt64} (h : ¬ a + b < a) :
    (a + b).toNat = a.toNat + b.toNat ∧ a.toNat + b.toNat < 2 ^ 64 := by
  rw [uint64_add_lt_left] at h
  have hlt : a.toNat + b.toNat < 2 ^ 64 := by omega
  exact ⟨by rw [UInt64.toNat_add, Nat.mod_eq_of_lt hlt], hlt⟩

variable {δ : Type} [DecidableEq δ] {digest : List UInt8 → δ} {elf : ElfInfo δ} {seg : SegmentInfo}
  {segs : List SegmentInfo} {start : UInt64} {index : Nat} {buffer : List UInt8} {table : Nat → δ}

/-- A verification that succeeds has fed all this, and it has the digest of the table. -/
theorem xcfgVerifyData_ok {hashBuffer : Option (Nat → δ)}
    (h : xcfgVerifyData digest w start size index seg.offset seg.size buffer hashBuffer
      m = (.ok u, m')) :
    ∃ table, hashBuffer = some table ∧ m'.fed = around w.storage seg start size buffer ∧
      digest m'.fed = table index ∧ m'.live = m.live ∧ m'.openImages = m.openImages := by
  cases hashBuffer with
  | none => exact absurd h fail_ok
  | some table =>
    obtain ⟨_, t₁, hinit, h⟩ := bind_ok.mp h
    obtain ⟨_, t₂, hfront, h⟩ := bind_ok.mp h
    obtain ⟨_, t₃, hitem, h⟩ := bind_ok.mp h
    obtain ⟨hwrap, h⟩ := breakIf_bind_ok.mp h
    obtain ⟨_, t₅, hback, h⟩ := bind_ok.mp h
    obtain ⟨_, t₆, hcall, h⟩ := bind_ok.mp h
    obtain ⟨-, rfl⟩ := call_ok.mp hcall
    obtain ⟨_, _, hget, h⟩ := bind_ok.mp h
    obtain ⟨rfl, rfl⟩ := get_ok.mp hget
    obtain ⟨hdigest, rfl⟩ := breakIf_ok.mp h
    rw [Bool.or_eq_false_iff, decide_eq_false_iff_not, decide_eq_false_iff_not] at hwrap
    obtain ⟨hitemEnd, -⟩ := toNat_add_of_not_lt hwrap.1
    obtain ⟨hsegEnd, -⟩ := toNat_add_of_not_lt hwrap.2
    have hinit := fed_update hinit
    have hback := whenTransientData_ok hback
    rw [hitemEnd, hsegEnd] at hback
    have hall := ((whenTransientData_ok hfront).trans (partialHashUpdate_ok hitem)).trans hback
    rw [Fed] at hall
    rw [hinit] at hall
    refine ⟨table, rfl, ?_, Decidable.not_not.mp (of_decide_eq_false hdigest), ?_, ?_⟩
    · exact (congrArg Machine.fed hall).trans (nil_append _)
    · exact (congrArg Machine.live hall : t₅.live = _)
    · exact (congrArg Machine.openImages hall : t₅.openImages = _)

/-- Data inside a readable segment is hashed to the end. -/
theorem xcfgVerifyData_fine (h : w.Fine)
    (hitem : ¬ start + size < start) (hsegment : ¬ seg.offset + seg.size < seg.offset)
    (hfront : Readable seg.offset.toNat (start.toNat - seg.offset.toNat))
    (hback : Readable (start.toNat + size.toNat)
      (seg.offset.toNat + seg.size.toNat - (start.toNat + size.toNat)))
    (hdigest : digest (around w.storage seg start size buffer) = table index) (m : Machine) :
    ∃ m', xcfgVerifyData digest w start size index seg.offset seg.size buffer (some table) m =
      (.ok (), m') := by
  obtain ⟨hitemEnd, -⟩ := toNat_add_of_not_lt hitem
  obtain ⟨hsegEnd, -⟩ := toNat_add_of_not_lt hsegment
  have hinit : partialHashInit w m = (.ok (), { m with tick := m.tick + 1, fed := [] }) := by
    rw [partialHashInit, bind_run (call_fine h _ _)]
    rfl
  obtain ⟨t₂, hfront⟩ := whenTransientData_fine h seg.offset start hfront
    { m with tick := m.tick + 1, fed := [] }
  have hupdate := partialHashUpdate_fine h buffer t₂
  obtain ⟨t₄, hback⟩ := whenTransientData_fine h (start + size) (seg.offset + seg.size)
    (hitemEnd.symm ▸ hsegEnd.symm ▸ hback) { t₂ with tick := t₂.tick + 1, fed := t₂.fed ++ buffer }
  have hwrap : (decide (start + size < start) ||
      decide (seg.offset + seg.size < seg.offset)) = false := by
    rw [decide_eq_false hitem, decide_eq_false hsegment]
    rfl
  have hrun : xcfgVerifyData digest w start size index seg.offset seg.size buffer (some table) m =
      partialHashFinalize digest w (table index) t₄ := by
    rw [xcfgVerifyData, bind_run hinit, bind_run hfront, bind_run hupdate,
      bind_run (breakIf_run hwrap _), bind_run hback]
  have hfed : t₄.fed = around w.storage seg start size buffer := by
    have hall := ((whenTransientData_ok hfront).trans (partialHashUpdate_ok hupdate)).trans
      (whenTransientData_ok hback)
    rw [Fed, hitemEnd, hsegEnd] at hall
    exact (congrArg Machine.fed hall).trans (nil_append _)
  rw [hrun, partialHashFinalize, bind_run (call_fine h _ _),
    bind_run (get_ok.mpr ⟨rfl, rfl⟩)]
  refine ⟨_, breakIf_run (decide_eq_false (Decidable.not_not.mpr ?_)) _⟩
  rw [hfed]
  exact hdigest

/-! ## A read that verifies -/

/-- The segment that is found begins in front of the item. -/
theorem itemSegment_ok {segs : List SegmentInfo} {first : Nat}
    (h : itemSegment start size segs first = .ok (index, seg)) :
    first ≤ index ∧ segs[index - first]? = some seg ∧ seg.offset ≤ start ∧ seg.size ≥ size ∧
      seg.offset + seg.size > start ∧ ¬ seg.offset + seg.size < seg.offset := by
  induction segs generalizing first with
  | nil => cases h
  | cons s segs ih =>
    rw [itemSegment] at h
    split at h
    · cases h
    · next hwrap =>
      split at h
      · next hin =>
        obtain ⟨rfl, rfl⟩ := Prod.mk.inj (Except.ok.inj h)
        rw [Nat.sub_self]
        exact ⟨Nat.le_refl _, rfl, hin.1, hin.2.1, hin.2.2, hwrap⟩
      · obtain ⟨hfirst, hseg, hrest⟩ := ih h
        have hindex : index - first = (index - (first + 1)) + 1 := by omega
        rw [hindex, getElem?_cons_succ]
        exact ⟨by omega, hseg, hrest⟩

/-- **A read that succeeds**: the segment is none that was flagged, and around the buffer it has
the digest of its entry. -/
theorem xcfgVerifiedConfigDataRead_ok (hflags : ∀ segs, elf.segmentInfo = some segs →
      ∀ seg ∈ segs, seg.isVerified = false)
    (h : xcfgVerifiedConfigDataRead digest w elf start size m = (.ok buffer, m')) :
    ∃ segs seg index table, elf.segmentInfo = some segs ∧ segs[index]? = some seg ∧
      elf.hashBuffer = some table ∧ seg.offset ≤ start ∧
      buffer = w.storage.read start.toNat size.toNat ∧
      m'.fed = around w.storage seg start size buffer ∧ digest m'.fed = table index ∧
      m'.live = m.live ∧ m'.openImages = m.openImages := by
  obtain ⟨-, h⟩ := breakIf_bind_ok.mp h
  obtain ⟨data, t, hget, h⟩ := bind_ok.mp h
  obtain ⟨rfl, hget, -⟩ := xcfgGetData_ok hget
  obtain ⟨_, t', hvalidate, h⟩ := bind_ok.mp h
  obtain ⟨rfl, rfl⟩ := pure_ok.mp h
  obtain ⟨⟨index, seg⟩, _, hfind, hvalidate⟩ := bind_ok.mp hvalidate
  obtain ⟨hseg, rfl⟩ := breakOn_ok.mp hfind
  rw [xcfgGetConfigItemSegment] at hseg
  split at hseg
  · cases hseg
  · next segs hsegs =>
    obtain ⟨-, hindex, hle, -⟩ := itemSegment_ok hseg
    rw [Nat.sub_zero] at hindex
    have hflag := hflags segs hsegs seg (mem_of_getElem? hindex)
    dsimp only at hvalidate
    rw [hflag] at hvalidate
    obtain ⟨table, htable, hfed, hdigest, hlive, hopen⟩ := xcfgVerifyData_ok hvalidate
    rw [Fed] at hget
    rw [hget] at hlive hopen
    exact ⟨segs, seg, index, table, hsegs, hindex, htable, hle, rfl, hfed, hdigest, hlive, hopen⟩

/-- The bytes verify: they lie in a segment that can be read, and with what is around them they
have the digest of its entry. -/
structure Verifies (digest : List UInt8 → δ) (c : Contents) (elf : ElfInfo δ) (start size : UInt64)
    (buffer : List UInt8) (index : Nat) (seg : SegmentInfo) (table : Nat → δ) : Prop where
  segment : xcfgGetConfigItemSegment elf start size = .ok (index, seg)
  hashTable : elf.hashBuffer = some table
  item : ¬ start + size < start
  front : Readable seg.offset.toNat (start.toNat - seg.offset.toNat)
  back : Readable (start.toNat + size.toNat)
    (seg.offset.toNat + seg.size.toNat - (start.toNat + size.toNat))
  sameDigest : digest (around c seg start size buffer) = table index

/-- Data that verifies passes. -/
theorem Verifies.validates (h : w.Fine)
    (hv : Verifies digest w.storage elf start size buffer index seg table)
    (m : Machine) : ∃ m', xcfgValidateData digest w elf start size buffer m = (.ok (), m') := by
  rw [xcfgValidateData, bind_run (breakOn_ok.mpr ⟨hv.segment, rfl⟩)]
  dsimp only
  split
  · exact ⟨m, rfl⟩
  · have hseg := hv.segment
    rw [xcfgGetConfigItemSegment] at hseg
    split at hseg
    · cases hseg
    · obtain ⟨-, -, -, -, -, hwrap⟩ := itemSegment_ok hseg
      rw [hv.hashTable]
      exact xcfgVerifyData_fine h hv.item hwrap hv.front hv.back hv.sameDigest m

/-- A verification leaves no block behind, and no image open. -/
theorem xcfgValidateData_kept
    (h : xcfgValidateData digest w elf start size buffer m = (.ok u, m')) :
    m'.live = m.live ∧ m'.openImages = m.openImages := by
  obtain ⟨⟨index, seg⟩, _, hfind, h⟩ := bind_ok.mp h
  obtain ⟨-, rfl⟩ := breakOn_ok.mp hfind
  dsimp only at h
  split at h
  · obtain ⟨-, rfl⟩ := pure_ok.mp h
    exact ⟨rfl, rfl⟩
  · obtain ⟨-, -, -, -, hkept⟩ := xcfgVerifyData_ok h
    exact hkept

end

end XBLConfig
