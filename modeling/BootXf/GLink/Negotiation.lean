import BootXf.GLink.Utils
import BootXf.Lib.Run
import Mathlib.Logic.Function.Basic

/-!
# The negotiation of a version

Both sides of a link send a VERSION command when the link comes up, answer the other one's with a
VERSION_ACK, and go to an older version when they are told of one that is below their own. Either
kind of command may complete the negotiation. The channels are ordered; a transport may have less
room for the version number in its commands than the core has, and `field` is what it makes of one.

An exchange is a VERSION command and the answer to it. There is never more than one for each side,
and what it carries tells where the two sides stand (`Exchange`): this is the invariant.
-/

namespace GLink

open Lib List Function

/-! ## The core -/

/-- `glink_core_version_type`. -/
structure CoreVersion where
  version : UInt32
  features : UInt32
  deriving DecidableEq

/-- `version_array`: the versions that a transport registers, the oldest first. -/
structure VersionTable where
  versions : List CoreVersion
  ascending : versions.Pairwise fun v w => v.version < w.version

/-- `glink_transport_status_type`. -/
inductive LinkStatus
  | linkDown | negotiating | linkUp
  deriving DecidableEq

/-- The part of a transport's context that the negotiation reads and writes, with the calls of
`set_version` since the last `link_up`, newest first. -/
structure Side where
  table : VersionTable
  versionIndx : Fin table.versions.length
  status : LinkStatus
  setVersion : List (UInt32 × UInt32)

/-- A VERSION and a VERSION_ACK command. -/
inductive Message
  | version (version features : UInt32)
  | versionAck (version features : UInt32)

/-- `xport_smem_negotiate_features`. -/
def negotiateFeatures (ver : CoreVersion) (features : UInt32) : UInt32 := ver.features &&& features

/-- `glink_get_current_version`. -/
def Side.currentVersion (s : Side) : CoreVersion := s.table.versions[s.versionIndx]

/-- `glink_process_negotiation_complete`. -/
def glinkProcessNegotiationComplete (s : Side) (version features : UInt32) : Side :=
  if s.status = .linkUp then s
  else { s with setVersion := (version, features) :: s.setVersion, status := .linkUp }

/-- `glink_link_up`: the side afterwards, and what it sends. -/
def glinkLinkUp (s : Side) : Side × List Message :=
  let ver := s.currentVersion
  ({ s with status := .negotiating, setVersion := [] }, [.version ver.version ver.features])

/-- `glink_rx_cmd_version`. -/
def glinkRxCmdVersion (s : Side) (version features : UInt32) : Side × List Message :=
  let ver := s.currentVersion
  if version = ver.version then
    let negotiated := negotiateFeatures ver features
    (if negotiated = features then glinkProcessNegotiationComplete s version features else s,
      [.versionAck version negotiated])
  else (s, [.versionAck ver.version ver.features])

/-- The loop of `glink_rx_cmd_version_ack`. -/
def olderVersion (versions : List CoreVersion) (version : UInt32) :
    (i : Nat) → i < versions.length → Fin versions.length
  | 0, h => ⟨0, h⟩
  | i + 1, h =>
    if version < versions[i + 1].version then olderVersion versions version i (by omega)
    else ⟨i + 1, h⟩

/-- `glink_rx_cmd_version_ack`. -/
def glinkRxCmdVersionAck (s : Side) (version features : UInt32) : Side × List Message :=
  let ver := s.currentVersion
  if ver.version = version then
    let negotiated := negotiateFeatures ver features
    if negotiated = features then (glinkProcessNegotiationComplete s version features, [])
    else (s, [.version version negotiated])
  else
    let s := { s with
      versionIndx := olderVersion s.table.versions version s.versionIndx s.versionIndx.isLt }
    (s, [.version s.currentVersion.version s.currentVersion.features])

/-- What a side does with a command. -/
def receive (s : Side) : Message → Side × List Message
  | .version version features => glinkRxCmdVersion s version features
  | .versionAck version features => glinkRxCmdVersionAck s version features

/-! ## The link -/

/-- A command as it arrives, `field` being what is left of a version number. -/
def Message.sent (field : UInt32 → UInt32) : Message → Message
  | .version v f => .version (field v) f
  | .versionAck v f => .versionAck (field v) f

/-- `(uint16)version`, as `xport_smem_tx_cmd_version` and `xport_smem_tx_cmd_version_ack` put it
into the command. -/
def smemVersionField (version : UInt32) : UInt32 := version.toUInt16.toUInt32

/-- The two sides, and for each what it has sent and the other one has not received yet, the oldest
first. -/
structure Link where
  side : Host → Side
  channel : Host → List Message

/-- What happens on a link: a transport reports it to its core, or a side takes the next command. -/
inductive Event
  | linkUp (host : Host)
  | receive (host : Host)

/-- A transport does not receive before it has reported the link, which it does once. -/
def Link.step (field : UInt32 → UInt32) (l : Link) : Event → Option Link
  | .linkUp h =>
    if (l.side h).status = .linkDown then
      let r := glinkLinkUp (l.side h)
      some { side := update l.side h r.1
             channel := update l.channel h (l.channel h ++ r.2.map (.sent field)) }
    else none
  | .receive h =>
    if (l.side h).status = .linkDown then none
    else
      match l.channel h.other with
      | [] => none
      | m :: rest =>
        let r := GLink.receive (l.side h) m
        some { side := update l.side h r.1
               channel := update (update l.channel h.other rest) h
                (l.channel h ++ r.2.map (.sent field)) }

/-- The link before it comes up, for the first time or again: the sides may have gone to an older
version the last time. -/
def Link.initial (table : Host → VersionTable)
    (versionIndx : (h : Host) → Fin (table h).versions.length) : Link where
  side h := ⟨table h, versionIndx h, .linkDown, []⟩
  channel _ := []

/-! ## What a side does with a command -/

/-- What the VERSION commands of a channel carry. -/
def requests : List Message → List (UInt32 × UInt32)
  | [] => []
  | .version v f :: l => (v, f) :: requests l
  | .versionAck _ _ :: l => requests l

/-- What the VERSION_ACK commands of a channel carry. -/
def acks : List Message → List (UInt32 × UInt32)
  | [] => []
  | .version _ _ :: l => acks l
  | .versionAck v f :: l => (v, f) :: acks l

@[simp] theorem requests_append (l l' : List Message) :
    requests (l ++ l') = requests l ++ requests l' := by
  induction l with
  | nil => rfl
  | cons m l ih => cases m <;> simp [requests, ih]

@[simp] theorem acks_append (l l' : List Message) : acks (l ++ l') = acks l ++ acks l' := by
  induction l with
  | nil => rfl
  | cons m l ih => cases m <;> simp [acks, ih]

variable {versions : List CoreVersion}

/-- The loop stops at a version that is not newer than the one asked for, or at the first one; it
never goes to a newer version, and nowhere from one that is not newer than the one asked for. -/
theorem olderVersion_le {version : UInt32} {i : Nat}
    (h : i < versions.length) : (olderVersion versions version i h).val ≤ i := by
  induction i with
  | zero => exact Nat.le_refl 0
  | succ i ih =>
    unfold olderVersion
    split
    · exact Nat.le_succ_of_le (ih _)
    · exact Nat.le_refl _

theorem olderVersion_eq {version : UInt32} {i : Nat}
    (h : i < versions.length) (hle : ¬ version < versions[i].version) :
    olderVersion versions version i h = ⟨i, h⟩ := by
  cases i with
  | zero => rfl
  | succ i =>
    unfold olderVersion
    exact if_neg hle

/-- The versions of a table grow with the index. -/
theorem VersionTable.version_le (t : VersionTable) {i j : Fin t.versions.length} (h : i ≤ j) :
    (t.versions[i]).version ≤ (t.versions[j]).version := by
  rcases Nat.lt_or_eq_of_le h with hlt | heq
  · have := pairwise_iff_getElem.mp t.ascending i j i.isLt j.isLt hlt
    simpa using UInt32.le_of_lt this
  · have : i = j := Fin.ext heq
    subst this
    exact UInt32.le_refl _

/-- A side may go to an older version. -/
theorem Side.currentVersion_le {s : Side} {i : Fin s.table.versions.length}
    (h : i ≤ s.versionIndx) :
    ({ s with versionIndx := i } : Side).currentVersion.version ≤ s.currentVersion.version :=
  s.table.version_le h

@[simp] theorem glinkProcessNegotiationComplete_currentVersion (s : Side) (v f : UInt32) :
    (glinkProcessNegotiationComplete s v f).currentVersion = s.currentVersion := by
  unfold glinkProcessNegotiationComplete
  split <;> rfl

@[simp] theorem glinkProcessNegotiationComplete_status (s : Side) (v f : UInt32) :
    (glinkProcessNegotiationComplete s v f).status = .linkUp := by
  unfold glinkProcessNegotiationComplete
  split
  · assumption
  · rfl

/-! ## The invariant -/

/-- The exchange that a side at version `va` began with one at `vb`: the commands of it that are in
the channels. An answer with the version that was asked for says that the two are at it, and has the
common features; any other answer has a version that the other side is not above. -/
inductive Exchange (va vb : CoreVersion) : List (UInt32 × UInt32) → List (UInt32 × UInt32) → Prop
  | none : Exchange va vb [] []
  | requested : Exchange va vb [(va.version, va.features)] []
  | answered {v f : UInt32} (bound : vb.version ≤ v)
    (agreed : v = va.version → vb.version = v ∧ f = va.features &&& vb.features) :
    Exchange va vb [] [(v, f)]

theorem Exchange.of_request {va vb : CoreVersion} {v f : UInt32} (rq : List (UInt32 × UInt32))
    {ak : List (UInt32 × UInt32)} (h : Exchange va vb ((v, f) :: rq) ak) :
    v = va.version ∧ f = va.features ∧ rq = [] ∧ ak = [] := by
  cases h
  exact ⟨rfl, rfl, rfl, rfl⟩

theorem Exchange.of_ack {va vb : CoreVersion} {v f : UInt32} {rq : List (UInt32 × UInt32)}
    (ak : List (UInt32 × UInt32)) (h : Exchange va vb rq ((v, f) :: ak)) :
    rq = [] ∧ ak = [] ∧ vb.version ≤ v ∧
      (v = va.version → vb.version = v ∧ f = va.features &&& vb.features) := by
  cases h with
  | answered bound agreed => exact ⟨rfl, rfl, bound, agreed⟩

/-- What holds of a side `a` with the other side `b`, the channels being `ab` and `ba`. -/
structure Balanced (a b : Side) (ab ba : List Message) : Prop where
  exchange : Exchange a.currentVersion b.currentVersion (requests ab) (acks ba)
  down : a.status = .linkDown → requests ab = [] ∧ acks ba = []
  unset : a.status ≠ .linkUp → a.setVersion = []
  up : a.status = .linkUp → a.currentVersion.version = b.currentVersion.version ∧
    a.setVersion = [(a.currentVersion.version,
      a.currentVersion.features &&& b.currentVersion.features)]

section
variable {a b : Side} {ab ba : List Message} {v f : UInt32}

/-- Completing a negotiation at a version that both sides are at, with the common features. -/
theorem Balanced.complete (ha : Balanced a b ab ba)
    (hv : a.currentVersion.version = b.currentVersion.version) (heq : v = a.currentVersion.version)
    (hf : f = a.currentVersion.features &&& b.currentVersion.features) {ab' ba' : List Message}
    (hex : Exchange a.currentVersion b.currentVersion (requests ab') (acks ba')) :
    Balanced (glinkProcessNegotiationComplete a v f) b ab' ba' := by
  refine ⟨by simpa using hex, fun hd => by simp at hd, fun hn => by simp at hn, fun _ => ?_⟩
  refine ⟨by simpa using hv, ?_⟩
  unfold glinkProcessNegotiationComplete
  split
  · next hup => exact (ha.up hup).2
  · next hup =>
    simp only [ha.unset hup, heq, hf]
    rfl

/-- A VERSION command: the exchange of the other side is answered. -/
theorem Balanced.rxCmdVersion (ha : Balanced a b ab (.version v f :: ba))
    (hb : Balanced b a (.version v f :: ba) ab) (hup : a.status ≠ .linkDown) :
    Balanced (glinkRxCmdVersion a v f).1 b (ab ++ (glinkRxCmdVersion a v f).2) ba ∧
    Balanced b (glinkRxCmdVersion a v f).1 ba (ab ++ (glinkRxCmdVersion a v f).2) := by
  obtain ⟨rfl, rfl, hrq, hak⟩ := Exchange.of_request (requests ba) hb.exchange
  have hasked : ∀ n g, requests (ab ++ [.versionAck n g]) = requests ab := by
    intro n g
    simp [requests]
  have hbdown : b.status ≠ .linkDown := fun hd => by simpa [requests] using (hb.down hd).1
  simp only [glinkRxCmdVersion]
  split
  · next hv =>
    -- the two are at one version, and the answer has their common features
    have hanswer : Exchange b.currentVersion a.currentVersion (requests ba) (acks (ab ++
        [.versionAck b.currentVersion.version
          (negotiateFeatures a.currentVersion b.currentVersion.features)])) := by
      rw [hrq, acks_append, hak]
      exact .answered (hv ▸ UInt32.le_refl _) fun _ => ⟨hv.symm, UInt32.and_comm _ _⟩
    have hb' : Balanced b a ba (ab ++ [.versionAck b.currentVersion.version
        (negotiateFeatures a.currentVersion b.currentVersion.features)]) :=
      ⟨hanswer, fun hd => absurd hd hbdown, hb.unset, hb.up⟩
    have hask : Exchange a.currentVersion b.currentVersion (requests (ab ++
        [.versionAck b.currentVersion.version
          (negotiateFeatures a.currentVersion b.currentVersion.features)])) (acks ba) := by
      rw [hasked]
      exact ha.exchange
    dsimp only
    split
    · next hf =>
      refine ⟨ha.complete hv.symm hv hf.symm hask, ?_, hb'.down, hb'.unset, ?_⟩
      · simpa using hb'.exchange
      · simpa using hb'.up
    · exact ⟨⟨hask, fun hd => absurd hd hup, ha.unset, ha.up⟩, hb'⟩
  · next hv =>
    refine ⟨⟨?_, fun hd => absurd hd hup, ha.unset, ha.up⟩,
      ⟨?_, fun hd => absurd hd hbdown, hb.unset, hb.up⟩⟩
    · rw [hasked]
      exact ha.exchange
    · rw [hrq, acks_append, hak]
      exact .answered (UInt32.le_refl _) fun h => absurd h.symm hv

/-- A VERSION_ACK command: the side completes its exchange or begins the next one. -/
theorem Balanced.rxCmdVersionAck (ha : Balanced a b ab (.versionAck v f :: ba))
    (hb : Balanced b a (.versionAck v f :: ba) ab) (hup : a.status ≠ .linkDown) :
    Balanced (glinkRxCmdVersionAck a v f).1 b (ab ++ (glinkRxCmdVersionAck a v f).2) ba ∧
    Balanced b (glinkRxCmdVersionAck a v f).1 ba (ab ++ (glinkRxCmdVersionAck a v f).2) := by
  obtain ⟨hrq, hak, hbound, hagreed⟩ := Exchange.of_ack (acks ba) ha.exchange
  have hbex : Exchange b.currentVersion a.currentVersion (requests ba) (acks ab) := hb.exchange
  simp only [glinkRxCmdVersionAck]
  split
  · next hv =>
    obtain ⟨hvb, rfl⟩ := hagreed hv.symm
    have hneg : negotiateFeatures a.currentVersion
        (a.currentVersion.features &&& b.currentVersion.features) =
        a.currentVersion.features &&& b.currentVersion.features := by
      simp [negotiateFeatures, ← UInt32.and_assoc]
    simp only [hneg, if_true, append_nil]
    refine ⟨ha.complete (hv.trans hvb.symm) hv.symm rfl ?_, ?_, ?_, hb.unset, ?_⟩
    · rw [hrq, hak]
      exact .none
    · simpa using hbex
    · exact hb.down
    · simpa using hb.up
  · next hv =>
    dsimp only
    generalize hi : olderVersion a.table.versions v a.versionIndx a.versionIndx.isLt = i
    have hle : i ≤ a.versionIndx := hi ▸ olderVersion_le a.versionIndx.isLt
    have hcur : ({ a with versionIndx := i } : Side).currentVersion.version ≤
        a.currentVersion.version := a.currentVersion_le hle
    -- a side that is at the version of the other one stays there
    have hstay : a.currentVersion.version = b.currentVersion.version →
        ({ a with versionIndx := i } : Side) = a := by
      intro heq
      have : ¬ v < a.currentVersion.version := by
        rw [heq]
        exact UInt32.not_lt.mpr hbound
      rw [← hi, olderVersion_eq a.versionIndx.isLt this]
    refine ⟨⟨?_, fun hd => absurd hd hup, ha.unset, fun h => ?_⟩,
      ⟨?_, fun hd => ?_, hb.unset, fun h => ?_⟩⟩
    · rw [requests_append, hrq, hak]
      exact .requested
    · rw [hstay (ha.up h).1]
      exact ha.up h
    · rw [acks_append, acks, acks, append_nil]
      generalize requests ba = rq, acks ab = ak at hbex
      cases hbex with
      | none => exact .none
      | requested => exact .requested
      | answered bound agreed =>
        refine .answered (UInt32.le_trans hcur bound) fun h => ?_
        rw [hstay ((agreed h).1.trans h)]
        exact agreed h
    · rw [acks_append, acks, acks, append_nil]
      exact hb.down hd
    · rw [hstay (hb.up h).1.symm]
      exact hb.up h

/-- When `link_up` comes, the side begins its exchange. -/
theorem Balanced.linkUp (ha : Balanced a b ab ba) (hb : Balanced b a ba ab)
    (hdown : a.status = .linkDown) :
    Balanced (glinkLinkUp a).1 b (ab ++ (glinkLinkUp a).2) ba ∧
    Balanced b (glinkLinkUp a).1 ba (ab ++ (glinkLinkUp a).2) := by
  obtain ⟨hrq, hak⟩ := ha.down hdown
  refine ⟨⟨?_, fun hd => ?_, fun _ => rfl, fun h => ?_⟩, ⟨?_, fun hd => ?_, hb.unset, hb.up⟩⟩
  · rw [requests_append, hrq, hak]
    exact .requested
  · cases hd
  · cases h
  · rw [acks_append]
    simp only [glinkLinkUp, acks, append_nil]
    exact hb.exchange
  · simpa [glinkLinkUp, acks] using hb.down hd

/-- Either command. -/
theorem Balanced.receive {m : Message} (ha : Balanced a b ab (m :: ba))
    (hb : Balanced b a (m :: ba) ab) (hup : a.status ≠ .linkDown) :
    Balanced (receive a m).1 b (ab ++ (receive a m).2) ba ∧
    Balanced b (receive a m).1 ba (ab ++ (receive a m).2) := by
  cases m with
  | version v f => exact ha.rxCmdVersion hb hup
  | versionAck v f => exact ha.rxCmdVersionAck hb hup

end

/-! ## What a side sends -/

section
variable {field : UInt32 → UInt32} {s : Side} {m : Message}

theorem glinkProcessNegotiationComplete_table (s : Side) (v f : UInt32) :
    (glinkProcessNegotiationComplete s v f).table = s.table := by
  unfold glinkProcessNegotiationComplete
  split <;> rfl

theorem receive_table : (receive s m).1.table = s.table := by
  cases m with
  | version v f =>
    simp only [receive, glinkRxCmdVersion]
    split
    · dsimp only
      split
      · exact glinkProcessNegotiationComplete_table s v f
      · rfl
    · rfl
  | versionAck v f =>
    simp only [receive, glinkRxCmdVersionAck]
    split
    · split
      · exact glinkProcessNegotiationComplete_table s v f
      · rfl
    · rfl

/-- The current version is one of the table. -/
theorem Side.currentVersion_mem (s : Side) : s.currentVersion ∈ s.table.versions :=
  getElem_mem s.versionIndx.isLt

/-- A field that has room for the versions of a side's table changes nothing of what it sends. -/
theorem receive_sent (hfield : ∀ ver ∈ s.table.versions, field ver.version = ver.version) :
    (receive s m).2.map (.sent field) = (receive s m).2 := by
  have hcur := hfield _ s.currentVersion_mem
  cases m with
  | version v f =>
    simp only [receive, glinkRxCmdVersion]
    split
    · next hv => simp [Message.sent, hv, hcur]
    · simp [Message.sent, hcur]
  | versionAck v f =>
    simp only [receive, glinkRxCmdVersionAck]
    split
    · next hv =>
      split
      · rfl
      · simp [Message.sent, ← hv, hcur]
    · have hmem := Side.currentVersion_mem { s with
        versionIndx := olderVersion s.table.versions v s.versionIndx s.versionIndx.isLt }
      simp [Message.sent, hfield _ hmem]

end

/-! ## Runs -/

/-- The invariant of a link, for the tables that the sides came with. -/
structure Link.Inv (table : Host → VersionTable) (l : Link) : Prop where
  table : ∀ h, (l.side h).table = table h
  balanced : ∀ h, Balanced (l.side h) (l.side h.other) (l.channel h) (l.channel h.other)

theorem Link.Inv.initial (table : Host → VersionTable)
    (versionIndx : (h : Host) → Fin (table h).versions.length) :
    (Link.initial table versionIndx).Inv table :=
  ⟨fun _ => rfl, fun _ => ⟨.none, fun _ => ⟨rfl, rfl⟩, fun _ => rfl, fun h => by cases h⟩⟩

variable {table : Host → VersionTable}

/-- What a step does at one side is enough to know of it. -/
theorem Link.Inv.update {l : Link} (inv : l.Inv table) {h : Host}
    {s : Side} {ab ba : List Message} (htable : s.table = table h)
    (ha : Balanced s (l.side h.other) ab ba) (hb : Balanced (l.side h.other) s ba ab) :
    Link.Inv table { side := update l.side h s
                     channel := update (update l.channel h.other ba) h ab } := by
  refine ⟨fun k => ?_, fun k => ?_⟩
  all_goals
    obtain rfl | rfl : k = h ∨ k = h.other := by cases k <;> cases h <;> simp [Host.other]
  · simpa using htable
  · simpa using inv.table h.other
  · simpa using ha
  · simpa using hb

/-- A step of the link. -/
theorem Link.Inv.step {field : UInt32 → UInt32}
    (hfield : ∀ h, ∀ ver ∈ (table h).versions, field ver.version = ver.version) {l l' : Link}
    {e : Event} (inv : l.Inv table) (hstep : l.step field e = some l') : l'.Inv table := by
  cases e with
  | linkUp h =>
    simp only [Link.step] at hstep
    split at hstep
    · next hdown =>
      cases hstep
      obtain ⟨ha, hb⟩ := (inv.balanced h).linkUp (by simpa using inv.balanced h.other) hdown
      have hsent : (glinkLinkUp (l.side h)).2.map (.sent field) = (glinkLinkUp (l.side h)).2 := by
        have := hfield h _ (inv.table h ▸ (l.side h).currentVersion_mem)
        simp [glinkLinkUp, Message.sent, this]
      have := inv.update (s := (glinkLinkUp (l.side h)).1) (inv.table h) ha hb
      rw [update_eq_self] at this
      rwa [hsent]
    · cases hstep
  | receive h =>
    simp only [Link.step] at hstep
    split at hstep
    · cases hstep
    · next hup =>
      split at hstep
      · cases hstep
      · next m rest hch =>
        cases hstep
        have hself := inv.balanced h
        have hother : Balanced (l.side h.other) (l.side h) (l.channel h.other) (l.channel h) := by
          simpa using inv.balanced h.other
        rw [hch] at hself hother
        obtain ⟨ha, hb⟩ := hself.receive hother hup
        rw [receive_sent (inv.table h ▸ hfield h)]
        exact inv.update (receive_table.trans (inv.table h)) ha hb

/-- **The sides agree.** On a link whose commands have room for the versions of both tables, every
side calls `set_version` at most once after its `link_up`, and when both have reached LINK_UP, they
have called it with one version, which both tables have, and with the features that the two have
in common for it. -/
theorem negotiation_agrees {table : Host → VersionTable}
    {versionIndx : (h : Host) → Fin (table h).versions.length} {field : UInt32 → UInt32}
    (hfield : ∀ h, ∀ ver ∈ (table h).versions, field ver.version = ver.version)
    {es : List Event} {l : Link}
    (run : Run (fun l e l' => l.step field e = some l') (Link.initial table versionIndx) es l) :
    (∀ h, (l.side h).setVersion.length ≤ 1) ∧
    ((∀ h, (l.side h).status = .linkUp) →
      ∃ (version : UInt32) (features : Host → UInt32),
        (∀ h, ⟨version, features h⟩ ∈ (table h).versions) ∧
        ∀ h, (l.side h).setVersion = [(version, features .left &&& features .right)]) := by
  have inv : l.Inv table :=
    run.state_invariant (P := fun l => l.Inv table) (.initial table versionIndx)
      fun inv hstep => inv.step hfield hstep
  refine ⟨fun h => ?_, fun hup => ?_⟩
  · by_cases hup : (l.side h).status = .linkUp
    · rw [((inv.balanced h).up hup).2]
      exact Nat.le_refl 1
    · rw [(inv.balanced h).unset hup]
      exact Nat.zero_le 1
  · obtain ⟨hver, hleft⟩ := (inv.balanced .left).up (hup .left)
    obtain ⟨-, hright⟩ := (inv.balanced .right).up (hup .right)
    refine ⟨(l.side .left).currentVersion.version, fun h => (l.side h).currentVersion.features,
      fun h => ?_, fun h => ?_⟩
    · have hmem := inv.table h ▸ (l.side h).currentVersion_mem
      cases h with
      | left => exact hmem
      | right =>
        rw [hver]
        exact hmem
    · cases h with
      | left => exact hleft
      | right =>
        rw [hright, hver, UInt32.and_comm]
        rfl

/-- A side that has versions 1 and 2, with a side that has version 1 only. -/
def olderPeer : Host → VersionTable
  | .left => ⟨[⟨1, 1⟩, ⟨2, 3⟩], by decide⟩
  | .right => ⟨[⟨1, 5⟩], by decide⟩

/-- Their last versions. -/
def olderPeerIndx : (h : Host) → Fin (olderPeer h).versions.length
  | .left => ⟨1, by decide⟩
  | .right => ⟨0, by decide⟩

/-- The left side goes to version 1, and both set it. -/
theorem negotiation_agrees_older :
    ∃ l, Run (fun l e l' => l.step smemVersionField e = some l')
        (Link.initial olderPeer olderPeerIndx)
        [.receive .right, .receive .left, .receive .left, .receive .right, .receive .right,
          .receive .left, .receive .left, .receive .right, .linkUp .right, .linkUp .left] l ∧
      (∀ h, (l.side h).setVersion.length ≤ 1) ∧ ∀ h, (l.side h).setVersion = [(1, 1)] := by
  have hexec : (execute (Link.step smemVersionField) (Link.initial olderPeer olderPeerIndx)
      [.linkUp .left, .linkUp .right, .receive .right, .receive .left, .receive .left,
        .receive .right, .receive .right, .receive .left, .receive .left, .receive .right]).map
      (fun l => ((l.side .left).setVersion, (l.side .right).setVersion)) =
      some ([(1, 1)], [(1, 1)]) := by decide +kernel
  obtain ⟨l, hl, hset⟩ := Option.map_eq_some_iff.mp hexec
  obtain ⟨hleft, hright⟩ := Prod.mk.inj hset
  have run : Run (fun l e l' => Link.step smemVersionField l e = some l') _ _ l :=
    Run.of_execute id .start hl
  rw [append_nil] at run
  have hfield : ∀ h, ∀ ver ∈ (olderPeer h).versions,
      smemVersionField ver.version = ver.version := by
    intro h
    cases h <;> decide
  exact ⟨l, run, (negotiation_agrees hfield run).1, fun h => by cases h <;> assumption⟩

/-- A version number that does not fit the field of the command: the left side has versions 1 and
65537, the right side has version 1. -/
def widePeer : Host → VersionTable
  | .left => ⟨[⟨1, 1⟩, ⟨0x10001, 3⟩], by decide⟩
  | .right => ⟨[⟨1, 3⟩], by decide⟩

/-- Their last versions. -/
def widePeerIndx : (h : Host) → Fin (widePeer h).versions.length
  | .left => ⟨1, by decide⟩
  | .right => ⟨0, by decide⟩

/-- The right side takes 65537 for its version 1 and sets the features that go with 65537; the left
side goes to version 1 and sets those that go with 1. -/
theorem negotiation_disagrees :
    ∃ es l, Run (fun l e l' => l.step smemVersionField e = some l')
        (Link.initial widePeer widePeerIndx) es l ∧
      (∀ h, (l.side h).status = .linkUp) ∧
      (l.side .left).setVersion = [(1, 1)] ∧ (l.side .right).setVersion = [(1, 3)] := by
  have hexec : (execute (Link.step smemVersionField) (Link.initial widePeer widePeerIndx)
      [.linkUp .left, .linkUp .right, .receive .right, .receive .left, .receive .left,
        .receive .right, .receive .right, .receive .left]).map
      (fun l => (((l.side .left).status, (l.side .right).status),
        ((l.side .left).setVersion, (l.side .right).setVersion))) =
      some ((.linkUp, .linkUp), ([(1, 1)], [(1, 3)])) := by decide +kernel
  obtain ⟨l, hl, hset⟩ := Option.map_eq_some_iff.mp hexec
  obtain ⟨hup, hcalls⟩ := Prod.mk.inj hset
  obtain ⟨hleft, hright⟩ := Prod.mk.inj hup
  have run : Run (fun l e l' => Link.step smemVersionField l e = some l') _ _ l :=
    Run.of_execute id .start hl
  exact ⟨_, l, run, fun h => by cases h <;> assumption, Prod.mk.inj hcalls⟩

end GLink
