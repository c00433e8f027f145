import BootXf.DevPrg.ChainOfTrust
import BootXf.DevPrg.WriteSafety

/-!
# What reaches storage

In a session with validation `devprg_rx_queue_wait` answers the receives of `handle_write`, and
what the command writes is the beginning of a packet that a table has a hash of
(`written_trusted`).
-/

namespace DevPrg

open Lib List Option

/-- The packet was accepted. -/
def Backed (A : Authenticator) (sha : List UInt8 → List UInt8) (trace : List Mark)
    (bytes : List UInt8) :
    Prop :=
  ∃ after before t, trace = after ++ .packet bytes :: before ∧
    Trusted A sha (.packet bytes :: before) t

section
variable {A : Authenticator} {sha : List UInt8 → List UInt8} {memory : Int → UInt8}
  {buffers : Nat → Nat → UInt8} {x : Session}

/-- **After a failure nothing is accepted** until a table is signed again. -/
theorem nothing_accepted_after_failure {calls : List Call} {after before : List Mark}
    (run : Run (Session.SoundStep A sha) ⟨.boot memory buffers, []⟩ calls x)
    (htrace : x.trace = after ++ .failed :: before) (hafter : ∀ blob, .signedTable blob ∉ after) :
    ∀ m ∈ after, m = .failed := by
  have hinv := run.state_invariant boot_inv fun h hstep => h.step hstep
  obtain ⟨t, htrusted⟩ := hinv.trusted
  rw [htrace] at htrusted
  exact (htrusted.nothing_after_failed hafter).1

end

/-- A packet, the same packet where the next one is due, and the next one. -/
def oncePacket : List Call :=
  [.rxQueue 0 1024 ⟨true, []⟩ ⟨true, zeroHash ++ oneHash⟩ true, .rxQueueWait ⟨true, [0]⟩,
    .rxQueue 1 1024 ⟨true, []⟩ ⟨true, []⟩ true, .rxQueueWait ⟨true, [0]⟩, .rxQueueWait ⟨true, [1]⟩]

/-- The first packet is accepted; the second is not, and then the right one is refused. -/
theorem nothing_accepted_after_failure_twice : ∃ calls x,
    Run (Session.SoundStep wholeBlob knownHash) atBoot calls x ∧
    x.trace = [.failed] ++ .failed :: [.packet [0], .signedTable (zeroHash ++ oneHash)] ∧
    ∀ m ∈ [Mark.failed], m = .failed := by
  have htrace : (execute Session.soundAfter atBoot oncePacket).map (·.trace) =
      some ([.failed] ++ .failed :: [.packet [0], .signedTable (zeroHash ++ oneHash)]) := by
    decide +kernel
  obtain ⟨x, hx, htrace⟩ := map_eq_some_iff.mp htrace
  have run := Run.of_execute_start Session.soundAfter_step hx
  exact ⟨_, x, run, htrace, nothing_accepted_after_failure run htrace fun _ h =>
    nomatch mem_singleton.mp h⟩

/-- A round that receives one byte. -/
def byteRound (b : UInt8) : Round := ⟨⟨.success, 1⟩, fun _ => b, fun _ => 0, .success⟩

theorem byteRounds_sound :
    (⟨1, 0, 2⟩ : BasicIoData).SoundReceives ([byteRound 0, byteRound 1].map (·.receive)) :=
  ⟨Or.inr ⟨by decide, fun _ => ⟨rfl, by decide⟩, Or.inr ⟨by decide, fun _ => ⟨rfl, by decide⟩,
    trivial⟩⟩, by decide⟩

/-- A zero and a one are on storage. -/
theorem handleWrite_acknowledged_zero : ∃ c : Contents, c.Holds ⟨0, 2⟩ fun k =>
    (((startWrite ⟨1, 0, 2⟩ 1 .success).loop ⟨1, 0, 2⟩ 1 [byteRound 0, byteRound 1]).1.flatMap
      Round.packet).getD k 0 :=
  have hack : (handleWrite (some ⟨1, 0, 2⟩) 1 .success [byteRound 0, byteRound 1] true).2 =
      some true := by decide +kernel
  ⟨_, handleWrite_acknowledged byteRounds_sound hack fun _ => 7⟩

end DevPrg
