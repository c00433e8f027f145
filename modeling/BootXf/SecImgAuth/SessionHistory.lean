import BootXf.Lib.Run
import BootXf.SecImgAuth.HashedSegments

/-!
# Sessions of the image handle

The library as a machine driven by calls: `sec_img_auth_init`, `sec_img_auth_verify_metadata`,
`sec_img_auth_hash_elf_segments` and the wiping of the handle, in any order, each with arguments,
memory and services of its own. Hashing succeeds only straight after a verification that
succeeded, and every end of a session leaves a clean handle.

The contexts of the encryption library are another matter. The clean-up wipes the handle before it
passes the context pointer in it to `uie_deinit`, so the pointer is null by then and no context is
ever released. A session ends with every context released once exactly when none was ever opened
(`session_kept_iff`).
-/

namespace SecImgAuth

open Lib Elf

/-! ## Calls -/

/-- A call of the library. -/
inductive SessionCall
  | init (pblVerifiedInfo : Option UInt32)
  | verify (env : SecImgEnv) (mem : Memory) (secImgId : UInt32)
      (imgData : Option SecImgAuthElfInfoType) (whitelist : Option SecImgAuthWhitelistAreaParam)
      (vInfo : Option SecImgAuthVerifiedInfo)
  | hash (env : SecImgEnv) (mem : Memory) (secImgId : UInt32)
      (vInfo : Option SecImgAuthVerifiedInfo)
  | cleanPriv

/-- What a call returns and the globals it leaves. -/
def SessionCall.run : SessionCall → SecImgState → Except SecImgAuthError Unit × SecImgState
  | .init info, s => secImgAuthInit info s
  | .verify env mem secImgId imgData whitelist vInfo, s =>
    let r := secImgAuthVerifyMetadata env mem secImgId imgData whitelist vInfo s
    (r.ret, r.state)
  | .hash env mem secImgId vInfo, s =>
    let r := secImgAuthHashElfSegments env mem secImgId vInfo s
    (r.1.ret, r.1.state)
  | .cleanPriv, s => (.ok (), { s with s_img_handle := secImgAuthCleanPriv })

/-- A call with its answer. -/
structure SessionEvent where
  call : SessionCall
  ret : Except SecImgAuthError Unit

/-- One call of a run. -/
def SessionStep (s : SecImgState) (e : SessionEvent) (t : SecImgState) : Prop :=
  e.call.run s = (e.ret, t)

/-- A call that answers as the event says leads to the globals it leaves. -/
theorem SessionStep.of_ret {s : SecImgState} {e : SessionEvent} (h : (e.call.run s).1 = e.ret) :
    SessionStep s e (e.call.run s).2 := Prod.ext h rfl

/-- The last call on the handle was a verification that succeeded. `sec_img_auth_init` is not a
call on the handle. -/
def VerifiedLast : List SessionEvent → Prop
  | [] => False
  | e :: h =>
    match e.call with
    | .init _ => VerifiedLast h
    | .verify .. => e.ret = .ok ()
    | .hash .. | .cleanPriv => False

/-- The call ends a session: a verification that fails, or a hashing. -/
def EndsSession (e : SessionEvent) : Prop :=
  match e.call with
  | .verify .. => e.ret ≠ .ok ()
  | .hash .. => True
  | .init _ | .cleanPriv => False

/-- What a call is meant to keep: hashing succeeds only straight after a successful verification;
the end of a session leaves a clean handle, and every context opened so far released once. -/
structure SessionKept (h : List SessionEvent) (e : SessionEvent) (t : SecImgState) : Prop where
  authorised : ∀ env mem secImgId vInfo, e.call = .hash env mem secImgId vInfo → e.ret = .ok () →
    VerifiedLast h
  reset : EndsSession e → t.s_img_handle = secImgAuthCleanPriv
  releasedOnce : EndsSession e → ∀ k, k < t.uieOpened → t.uieReleased.count k = 1

/-! ## What each call does to the contexts -/

section
variable {env : SecImgEnv} {secImgId : UInt32} {img : SecImgAuthElfInfoType}
  {w : SecImgAuthWhitelistAreaParam} {I : CallState → Prop}

/-- A property of the contexts alone, whatever the handle. -/
structure ContextsOnly (I : CallState → Prop) : Prop where
  congr : ∀ {s t : CallState}, t.uieOpened = s.uieOpened → t.uieReleased = s.uieReleased → I s → I t

theorem contextsOnly_opened (n : Nat) : ContextsOnly fun s => s.uieOpened = n :=
  ⟨fun ho _ hs => ho.trans hs⟩

theorem contextsOnly_released (l : List Nat) : ContextsOnly fun s => s.uieReleased = l :=
  ⟨fun _ hr hs => hr.trans hs⟩

namespace ContextsOnly
variable (hI : ContextsOnly I)
include hI

theorem setHandle (f : SecImgAuthPriv → SecImgAuthPriv) {E : CallState → Prop} :
    Checked.Triple I (setHandle f) I E :=
  .update fun s hs => hI.congr (s := s) rfl rfl hs

theorem onHandle (p : Checked SecImgAuthPriv SecImgAuthError Unit) : Checked.Keeps I (onHandle p) :=
  .of_snd fun s hs => hI.congr (s := s) rfl rfl hs

theorem cacheL1Key : Checked.Keeps I (cacheL1Key env) :=
  .bind .get fun _ => .bind (.breakIf _ _) fun _ =>
    .update fun s hs => hI.congr (s := s) rfl rfl hs

theorem verifyImage (c : Format) : Checked.Keeps I (verifyImage c env secImgId img w) :=
  .bind .get fun _ => .bind (hI.onHandle _) fun _ => .bind .get fun _ =>
    .bind (.breakOn _) fun _ => .breakOn _

/-- What a verification does to the contexts is what opening one does, and nothing fails after
it. -/
theorem verifyMetadataBody {Q : CallState → Prop} (hQ : ContextsOnly Q)
    (hopen : Checked.Triple I (openUieIfEncrypted env) Q I) :
    Checked.Triple I (verifyMetadataBody env secImgId img w) Q I := by
  unfold SecImgAuth.verifyMetadataBody
  refine .bind (.update fun s hs => hI.congr (s := s) rfl rfl hs) fun _ => ?_
  refine .bind .get fun _ => .bind (.breakOn _) fun _ => .bind (.breakOn _) fun _ => ?_
  refine .bind (hI.setHandle _) fun _ => .bind (.breakOn _) fun _ => ?_
  refine .bind (hI.setHandle _) fun _ => .bind hI.cacheL1Key fun _ => ?_
  refine .bind (hI.verifyImage _) fun _ => .bind (hI.setHandle _) fun _ => ?_
  exact .bind hopen fun _ => hQ.setHandle _

theorem zeroSegment (c : Format) (i : Nat) (h : Elf64Phdr) :
    Checked.Keeps I (zeroSegment c i h) := by
  unfold SecImgAuth.zeroSegment
  refine .bind .get fun _ => .bind (Q := I) (.update fun s hs => ?_) fun _ => ?_
  · split
    · exact hI.congr (s := s) rfl rfl hs
    · exact hs
  · refine .bind (.breakIf _ _) fun _ => .update fun s hs => ?_
    split
    · exact hI.congr (s := s) rfl rfl hs
    · exact hs

theorem zeroSegmentsFrom (c : Format) (fuel i : Nat) :
    Checked.Keeps I (zeroSegmentsFrom c fuel i) := by
  induction fuel generalizing i with
  | zero => exact .pure ()
  | succ fuel ih =>
    refine .of_snd fun s hs => ?_
    simp only [SecImgAuth.zeroSegmentsFrom]
    split
    · split
      · exact (Checked.Triple.bind (hI.zeroSegment c i _) fun _ => ih (i + 1)).snd hs
      · exact (ih (i + 1)).snd hs
    · exact hs

theorem authSegmentRound (c : Format) (hash : UInt64) (i : Nat) :
    Checked.Keeps I (authSegmentRound c env hash i) := by
  refine .of_snd fun s hs => ?_
  unfold SecImgAuth.authSegmentRound
  simp only
  split
  · exact hs
  split
  · exact hI.congr (s := s) rfl rfl hs
  · exact hs

theorem authSegmentsFrom (c : Format) (n i : Nat) (hash : UInt64) :
    Checked.Keeps I (authSegmentsFrom c env n i hash) := by
  induction n generalizing i hash with
  | zero => exact .pure ()
  | succ n ih => exact .bind (hI.authSegmentRound c hash i) fun _ => ih _ _

theorem secImgAuthSegments : Checked.Keeps I (secImgAuthSegments env) := by
  refine .of_snd fun s hs => ?_
  unfold SecImgAuth.secImgAuthSegments
  simp only
  split
  · exact hs
  split
  · exact hs
  · exact (hI.authSegmentsFrom _ _ _ _).snd hs

theorem hashElfSegmentsBody : Checked.Keeps I (hashElfSegmentsBody env) :=
  .bind .get fun _ => .bind (.breakIf _ _) fun _ => .bind (hI.zeroSegmentsFrom _ _ _) fun _ =>
    .bind hI.secImgAuthSegments fun _ => hI.setHandle _

end ContextsOnly

theorem openUieIfEncrypted_opened (n : Nat) :
    Checked.Triple (fun s => s.uieOpened = n) (openUieIfEncrypted env) (fun _ => True)
      (fun s => s.uieOpened = n) where
  ok _ _ := trivial
  error {s t e} hs hrun := by
    unfold openUieIfEncrypted at hrun
    split at hrun
    · have htriple : Checked.Triple (fun s : CallState => s.uieOpened = n) (openUie env)
          (fun _ => True) (fun s => s.uieOpened = n) :=
        .bind .get fun _ => .bind (.breakIf _ _) fun _ => .update fun _ _ => trivial
      exact htriple.error hs hrun
    · cases hrun

/-- Opening UIE releases nothing. -/
theorem openUieIfEncrypted_released (l : List Nat) :
    Checked.Keeps (fun s => s.uieReleased = l) (openUieIfEncrypted env) := by
  refine .of_snd fun s hs => ?_
  unfold openUieIfEncrypted
  split
  · have hkeeps : Checked.Keeps (fun s : CallState => s.uieReleased = l) (openUie env) :=
      .bind .get fun _ => .bind (.breakIf _ _) fun _ => .update fun _ hs => hs
    exact hkeeps.snd hs
  · exact hs

end

/-! ## What each call does to the globals -/

section
variable {env : SecImgEnv} {mem : Memory} {secImgId : UInt32}
  {imgData : Option SecImgAuthElfInfoType} {whitelist : Option SecImgAuthWhitelistAreaParam}
  {vInfo : Option SecImgAuthVerifiedInfo} {s : SecImgState}

/-- A verification releases nothing. -/
theorem verify_released :
    (secImgAuthVerifyMetadata env mem secImgId imgData whitelist vInfo s).state.uieReleased =
      s.uieReleased := by
  unfold secImgAuthVerifyMetadata
  split
  · rfl
  · rename_i img w _
    have hkeeps : Checked.Keeps _ (verifyMetadataBody env secImgId img w) :=
      (contextsOnly_released s.uieReleased).verifyMetadataBody (contextsOnly_released _)
        (openUieIfEncrypted_released _)
    have hrun := hkeeps.snd (s := ⟨s, mem, vInfo.getD ⟨0, .unset⟩⟩) rfl
    simp only [finishVerify]
    split
    · exact hrun
    · exact hrun

/-- A verification that fails leaves a clean handle and has opened no context. -/
theorem verify_failed
    (hret : (secImgAuthVerifyMetadata env mem secImgId imgData whitelist vInfo s).ret ≠ .ok ()) :
    (secImgAuthVerifyMetadata env mem secImgId imgData whitelist vInfo s).state.s_img_handle =
        secImgAuthCleanPriv ∧
      (secImgAuthVerifyMetadata env mem secImgId imgData whitelist vInfo s).state.uieOpened =
        s.uieOpened := by
  unfold secImgAuthVerifyMetadata at hret ⊢
  split at hret
  · exact ⟨rfl, rfl⟩
  · rename_i img w _
    have htriple : Checked.Triple _ (verifyMetadataBody env secImgId img w) (fun _ => True) _ :=
      (contextsOnly_opened s.uieOpened).verifyMetadataBody ⟨fun _ _ _ => trivial⟩
        (openUieIfEncrypted_opened _)
    simp only at hret ⊢
    generalize hrun : verifyMetadataBody env secImgId img w _ = run at hret ⊢
    obtain ⟨e | _, t⟩ := run
    · exact ⟨rfl, htriple.error rfl hrun⟩
    · exact absurd rfl hret

/-- Hashing leaves a clean handle, however it ends, and the contexts as they were. -/
theorem hash_ended :
    let t := (secImgAuthHashElfSegments env mem secImgId vInfo s).1.state
    t.s_img_handle = secImgAuthCleanPriv ∧ t.uieOpened = s.uieOpened ∧
      t.uieReleased = s.uieReleased := by
  cases vInfo with
  | none => exact ⟨rfl, rfl, rfl⟩
  | some v =>
    refine ⟨rfl, ?_, ?_⟩
    · have hkeeps : Checked.Keeps _ (hashElfSegmentsBody env) :=
        (contextsOnly_opened s.uieOpened).hashElfSegmentsBody
      exact hkeeps.snd (s := ⟨s, mem, v⟩) rfl
    · have hkeeps : Checked.Keeps _ (hashElfSegmentsBody env) :=
        (contextsOnly_released s.uieReleased).hashElfSegmentsBody
      exact hkeeps.snd (s := ⟨s, mem, v⟩) rfl

/-- Hashing succeeds only from the state that a successful verification leaves. -/
theorem hash_authorised
    (hret : (secImgAuthHashElfSegments env mem secImgId vInfo s).1.ret = .ok ()) :
    s.s_img_handle.state = .elfAndProgHdrsHashMatch := by
  obtain ⟨_, _, hbody, -⟩ := secImgAuthHashElfSegments_ok hret
  exact (hashElfSegmentsBody_ok hbody).1

end

/-! ## Runs -/

/-- What relates a history of calls to the globals it leads to: the handle asks for hashing only
straight after a successful verification, and no context has ever been released. -/
structure SessionInvariant (h : List SessionEvent) (s : SecImgState) : Prop where
  matched : s.s_img_handle.state = .elfAndProgHdrsHashMatch → VerifiedLast h
  released : s.uieReleased = []

variable {h : List SessionEvent} {s t : SecImgState} {e : SessionEvent}

/-- One call keeps the invariant. -/
theorem SessionInvariant.step (hinv : SessionInvariant h s) (hstep : SessionStep s e t) :
    SessionInvariant (e :: h) t := by
  obtain ⟨call, ret⟩ := e
  obtain ⟨rfl, rfl⟩ : (call.run s).1 = ret ∧ (call.run s).2 = t := Prod.mk.inj hstep
  cases call with
  | init info =>
    cases info with
    | none => exact ⟨hinv.matched, hinv.released⟩
    | some _ => exact ⟨hinv.matched, hinv.released⟩
  | verify env mem secImgId imgData whitelist vInfo =>
    refine ⟨fun hmatch => ?_, verify_released.trans hinv.released⟩
    refine Classical.byContradiction fun hret => ?_
    -- a verification that failed has left the state `INIT`
    have hclean := (verify_failed hret).1
    change (secImgAuthVerifyMetadata env mem secImgId imgData whitelist vInfo
      s).state.s_img_handle.state = _ at hmatch
    rw [hclean] at hmatch
    cases hmatch
  | hash env mem secImgId vInfo =>
    obtain ⟨hclean, -, hreleased⟩ := @hash_ended env mem secImgId vInfo s
    refine ⟨fun hmatch => ?_, hreleased.trans hinv.released⟩
    change (secImgAuthHashElfSegments env mem secImgId vInfo s).1.state.s_img_handle.state = _
      at hmatch
    rw [hclean] at hmatch
    cases hmatch
  | cleanPriv => exact ⟨fun hmatch => (nomatch hmatch), hinv.released⟩

/-- **The invariant of every run.** -/
theorem session_invariant (run : Run SessionStep bootState h s) : SessionInvariant h s := by
  have hboot : bootState.s_img_handle.state ≠ .elfAndProgHdrsHashMatch := by decide
  exact run.invariant (P := SessionInvariant) ⟨fun hmatch => absurd hmatch hboot, rfl⟩
    fun _ hinv hstep => hinv.step hstep

/-- The end of a session leaves a clean handle, and opens and releases no context. -/
theorem endsSession_step (hstep : SessionStep s e t) (hends : EndsSession e) :
    t.s_img_handle = secImgAuthCleanPriv ∧ t.uieOpened = s.uieOpened := by
  obtain ⟨call, ret⟩ := e
  obtain ⟨rfl, rfl⟩ : (call.run s).1 = ret ∧ (call.run s).2 = t := Prod.mk.inj hstep
  cases call with
  | init | cleanPriv => exact hends.elim
  | verify => exact verify_failed hends
  | hash =>
    obtain ⟨hclean, hopened, -⟩ := hash_ended
    exact ⟨hclean, hopened⟩

/-- **When a session keeps what it is meant to keep.** In every run, the next call does so exactly
when it does not end a session, or no context of the encryption library had been opened. -/
theorem session_kept_iff (run : Run SessionStep bootState h s) (hstep : SessionStep s e t) :
    SessionKept h e t ↔ (EndsSession e → s.uieOpened = 0) := by
  have hinv := session_invariant run
  have hinv' := hinv.step hstep
  constructor
  · intro hkept hends
    obtain ⟨-, hopened⟩ := endsSession_step hstep hends
    refine Classical.byContradiction fun hpos => ?_
    -- the first context is not released
    have hcount := hkept.releasedOnce hends 0 (by omega)
    rw [hinv'.released] at hcount
    cases hcount
  · intro hcond
    refine ⟨?_, fun hends => (endsSession_step hstep hends).1, fun hends k hk => ?_⟩
    · rintro env mem secImgId vInfo hcall hret
      obtain ⟨call, ret⟩ := e
      obtain rfl : call = _ := hcall
      obtain ⟨hrun, -⟩ := Prod.mk.inj hstep
      exact hinv.matched (hash_authorised (hrun.trans hret))
    · obtain ⟨-, hopened⟩ := endsSession_step hstep hends
      rw [hopened, hcond hends] at hk
      exact absurd hk (Nat.not_lt_zero k)

/-! ## An image with and without encryption -/

/-- Metadata of an image with no loadable segment and a hash segment of the given size, with the
magic number of an encryption header behind the certificate chain. -/
def sessionMetadata (filesz : Nat) : Memory :=
  twoHeaderMetadata 324 256 4 filesz
    |>.put 0x1000 7 0x010102464c457f
    |>.put (0x1000 + 52) 2 64
    |>.put (0x1000 + 54) 2 56
    |>.put 0x316C 4 0x514d5349

/-- Services that succeed, with image encryption fused on. -/
def encryptedEnv : SecImgEnv :=
  { plainEnv with uieIsImageEncryptionFuseEnabled := true, uieInit := fun _ _ => true }

/-- Verifying the image as part of the boot loader, whose signature is not looked at again. -/
def verifySession (env : SecImgEnv) (filesz : Nat) : SessionEvent :=
  ⟨.verify env (sessionMetadata filesz) 0 (some twoHeaderImage) (some ⟨0, none⟩)
    (some ⟨0, .unset⟩), .ok ()⟩

/-- Hashing it. -/
def hashSession (env : SecImgEnv) (filesz : Nat) : SessionEvent :=
  ⟨.hash env (sessionMetadata filesz) 0 (some ⟨0, .elfAndProgHdrsHashMatch⟩), .ok ()⟩

/-- The globals after the verification. -/
def verifiedSession (env : SecImgEnv) (filesz : Nat) : SecImgState :=
  ((verifySession env filesz).call.run bootState).2

/-- The globals after the hashing. -/
def hashedSession (env : SecImgEnv) (filesz : Nat) : SecImgState :=
  ((hashSession env filesz).call.run (verifiedSession env filesz)).2

/-- A session without encryption keeps what it needs. -/
theorem session_kept_unencrypted :
    SessionKept [verifySession plainEnv 364] (hashSession plainEnv 364)
      (hashedSession plainEnv 364) := by
  obtain ⟨hverify, hhash, hnone⟩ :
      ((verifySession plainEnv 364).call.run bootState).1 = .ok () ∧
      ((hashSession plainEnv 364).call.run (verifiedSession plainEnv 364)).1 = .ok () ∧
      (verifiedSession plainEnv 364).uieOpened = 0 := by decide +kernel
  have hrun : Run SessionStep bootState [verifySession plainEnv 364]
      (verifiedSession plainEnv 364) :=
    .step .start (.of_ret hverify)
  have hstep : SessionStep (verifiedSession plainEnv 364) (hashSession plainEnv 364)
      (hashedSession plainEnv 364) := .of_ret hhash
  exact (session_kept_iff hrun hstep).mpr fun _ => hnone

/-- With encryption fused on, verification opens a context, hashing succeeds, and the context is
never released. -/
theorem encrypted_context_leaks :
    let s := verifiedSession encryptedEnv 572
    let t := hashedSession encryptedEnv 572
    Run SessionStep bootState [verifySession encryptedEnv 572] s ∧
      SessionStep s (hashSession encryptedEnv 572) t ∧
      ¬ SessionKept [verifySession encryptedEnv 572] (hashSession encryptedEnv 572) t := by
  intro s t
  obtain ⟨hverify, hhash, hopened, hreleased⟩ :
      ((verifySession encryptedEnv 572).call.run bootState).1 = .ok () ∧
      ((hashSession encryptedEnv 572).call.run s).1 = .ok () ∧
      t.uieOpened = 1 ∧ t.uieReleased = [] := by decide +kernel
  refine ⟨.step .start (.of_ret hverify), .of_ret hhash, fun hkept => ?_⟩
  have hcount := hkept.releasedOnce trivial 0 (by rw [hopened]; decide)
  rw [hreleased] at hcount
  cases hcount

end SecImgAuth
