import BootXf.RpmClient.MessageQueue

/-!
# The discipline of the message queue

As long as no message is left in the queues while `2 ^ 32` ids are given out, ages are what they
are meant to be. Then each message is retired once, when it has been completed or found redundant,
and those of the active set are sent and retired in the order in which they were posted. What
carries this is one order: retired messages, the head of those in flight, those that are completed,
the others in flight, and those that wait.
-/

namespace RpmClient

open List Option

variable {W : Type _} {send : W → Msg → Bool × W} {l : List Msg} {m : Msg} {l₁ l₂ : List Msg}

/-! ## Orders of messages -/

/-- Two messages of the active set are in the order in which they were posted. -/
def Msg.Precedes (a b : Msg) : Prop := a.set = .active → b.set = .active → a.seq < b.seq

/-- The messages of the active set are. -/
def InOrder (l : List Msg) : Prop := l.Pairwise Msg.Precedes

theorem InOrder.append_iff :
    InOrder (l₁ ++ l₂) ↔ InOrder l₁ ∧ InOrder l₂ ∧ ∀ a ∈ l₁, ∀ b ∈ l₂, a.Precedes b :=
  pairwise_append

theorem InOrder.of_sorted (h : l.Pairwise fun a b => a.seq < b.seq) : InOrder l :=
  h.imp fun hless _ _ => hless

theorem Msg.precedes_of_lt {a b : Msg} (h : a.seq < b.seq) : a.Precedes b := fun _ _ => h

/-- A message goes from the messages behind a sorted list into the list. -/
theorem InOrder.sortIn {front l l' pre post : List Msg}
    (h : InOrder (front ++ (l ++ (pre ++ m :: post)))) (hperm : l'.Perm (m :: l))
    (hsorted : l'.Pairwise fun a b => a.seq < b.seq) (hpre : m.set = .active → pre = []) :
    InOrder (front ++ (l' ++ (pre ++ post))) := by
  obtain ⟨hfront, hrest, hapart⟩ := InOrder.append_iff.mp h
  obtain ⟨hl, hback, hlback⟩ := InOrder.append_iff.mp hrest
  obtain ⟨-, hmpost, -⟩ := InOrder.append_iff.mp hback
  have hsub : (pre ++ post).Sublist (pre ++ m :: post) :=
    List.Sublist.append_left (sublist_cons_self ..) _
  refine InOrder.append_iff.mpr ⟨hfront, InOrder.append_iff.mpr
    ⟨.of_sorted hsorted, hback.sublist hsub, fun a ha b hb => ?_⟩, fun a ha b hb => ?_⟩
  · rcases mem_cons.mp (hperm.mem_iff.mp ha) with rfl | ha
    · intro hactive
      rw [hpre hactive, nil_append] at hb
      exact (pairwise_cons.mp hmpost).1 b hb hactive
    · exact hlback a ha b (hsub.subset hb)
  · refine hapart a ha b ?_
    rcases mem_append.mp hb with hb | hb
    · rcases mem_cons.mp (hperm.mem_iff.mp hb) with rfl | hb
      · exact mem_append_right _ (mem_append_right _ (mem_cons_self ..))
      · exact mem_append_left _ hb
    · exact mem_append_right _ (hsub.subset hb)

/-- A message goes to the front of a list all of which is later. -/
theorem InOrder.moveFront {front l post : List Msg}
    (h : InOrder (front ++ (l ++ m :: post))) (hless : ∀ a ∈ l, m.seq < a.seq) :
    InOrder (front ++ (m :: (l ++ post))) := by
  obtain ⟨hfront, hrest, hapart⟩ := InOrder.append_iff.mp h
  obtain ⟨hl, hback, hlback⟩ := InOrder.append_iff.mp hrest
  obtain ⟨hm, hpost⟩ := pairwise_cons.mp hback
  refine InOrder.append_iff.mpr ⟨hfront, pairwise_cons.mpr ⟨fun b hb => ?_,
    InOrder.append_iff.mpr ⟨hl, hpost, fun a ha b hb => hlback a ha b (mem_cons_of_mem _ hb)⟩⟩,
    fun a ha b hb => hapart a ha b ?_⟩
  · rcases mem_append.mp hb with hb | hb
    · exact Msg.precedes_of_lt (hless b hb)
    · exact hm b hb
  · rcases mem_cons.mp hb with rfl | hb
    · exact mem_append_right _ (mem_cons_self ..)
    · rcases mem_append.mp hb with hb | hb
      · exact mem_append_left _ hb
      · exact mem_append_right _ (mem_cons_of_mem _ hb)

/-! ## The invariant -/

/-- The messages that are not retired, with those that are about to be sent. -/
def Mq.live (q : Mq W) (pending : List Msg) : List Msg :=
  q.completed ++ q.inFlight ++ (pending ++ q.enqueued)

/-- All messages, in the order that those of the active set keep. -/
def Mq.line (q : Mq W) (pending : List Msg) : List Msg :=
  q.retired ++
    (q.inFlight.take 1 ++ (q.completed ++ (q.inFlight.drop 1 ++ (pending ++ q.enqueued))))

/-- What holds at each point of a step, with the messages that have been taken out to be sent. -/
structure Mq.Inv (q : Mq W) (pending : List Msg) : Prop where
  next : q.nextMsgId = .ofNat q.seq
  ids : ∀ m ∈ q.live pending, m.msgId = .ofNat m.seq ∧ m.seq < q.seq ∧ q.seq < m.seq + 2 ^ 32
  posted_lt : ∀ m ∈ q.posted, m.seq < q.seq
  posted : q.posted.Pairwise fun a b => a.seq < b.seq
  once : (q.retired ++ q.live pending).Perm q.posted
  finished : ∀ m ∈ q.retired ++ q.completed, m ∈ q.finished
  completed : q.completed.Pairwise fun a b => a.seq < b.seq
  empty : q.inFlight = [] → q.completed = []
  enqueued : ∀ m ∈ q.enqueued, m.set = .active
  line : InOrder (q.line pending)
  slots : ∀ m ∈ q.inFlight.drop 2, m.set ≠ .active
  sent : InOrder (q.sent.map Prod.fst ++ (pending ++ q.enqueued))
  sent_posted : ∀ r ∈ q.sent, r.1 ∈ q.posted
  limit : ∀ r ∈ q.sent, r.1.set = .active → r.2 < 2

namespace Mq.Inv
variable {q : Mq W} {pending : List Msg} {a b : Msg}

theorem seqs_nodup (h : q.Inv pending) : ((q.live pending).map Msg.seq).Nodup := by
  have hposted : (q.posted.map Msg.seq).Nodup :=
    pairwise_map.mpr (h.posted.imp fun hless heq => absurd heq (Nat.ne_of_lt hless))
  have hall := (h.once.map Msg.seq).nodup_iff.mpr hposted
  rw [map_append] at hall
  exact (nodup_append.mp hall).2.1

/-- Messages that are not retired have different ids. -/
theorem msgId_inj (h : q.Inv pending) (ha : a ∈ q.live pending)
    (hb : b ∈ q.live pending) (heq : a.msgId = b.msgId) : a.seq = b.seq := by
  obtain ⟨ha₁, ha₂, ha₃⟩ := h.ids a ha
  obtain ⟨hb₁, hb₂, hb₃⟩ := h.ids b hb
  rw [ha₁, hb₁] at heq
  have hmod := congrArg UInt32.toNat heq
  rw [UInt32.toNat_ofNat', UInt32.toNat_ofNat'] at hmod
  omega

/-- The age of a message that is not retired. -/
theorem msgAge (h : q.Inv pending) {m : Msg} (hm : m ∈ q.live pending) :
    (msgAge q.nextMsgId (some m)).toNat = q.seq - m.seq := by
  obtain ⟨hid, hlt, hwindow⟩ := h.ids m hm
  change (q.nextMsgId - m.msgId).toNat = q.seq - m.seq
  rw [h.next, hid, UInt32.toNat_sub, UInt32.toNat_ofNat', UInt32.toNat_ofNat']
  omega

theorem msgAge_lt_iff (h : q.Inv pending) (ha : a ∈ q.live pending) (hb : b ∈ q.live pending) :
    RpmClient.msgAge q.nextMsgId (some a) < RpmClient.msgAge q.nextMsgId (some b) ↔
      b.seq < a.seq := by
  obtain ⟨-, ha₂, -⟩ := h.ids a ha
  obtain ⟨-, hb₂, -⟩ := h.ids b hb
  rw [UInt32.lt_iff_toNat_lt, h.msgAge ha, h.msgAge hb]
  omega

theorem msgAge_pos (h : q.Inv pending) {a : Msg} (ha : a ∈ q.live pending) :
    0 < RpmClient.msgAge q.nextMsgId (some a) := by
  obtain ⟨-, ha₂, -⟩ := h.ids a ha
  rw [UInt32.lt_iff_toNat_lt, h.msgAge ha]
  exact Nat.sub_pos_of_lt ha₂

end Mq.Inv

/-! ## Completing -/

theorem pullFromQueue_append {pre : List Msg} (post : List Msg)
    (hpre : ∀ x ∈ pre, m.msgId ≠ x.msgId) (wasHead : Bool) :
    pullFromQueue wasHead (pre ++ m :: post) m.msgId =
      some (wasHead && pre.isEmpty, m, pre ++ post) := by
  induction pre generalizing wasHead with
  | nil =>
    rw [nil_append, pullFromQueue, if_pos rfl]
    simp
  | cons x pre ih =>
    rw [cons_append, pullFromQueue, if_neg (hpre x (mem_cons_self ..)),
      ih fun y hy => hpre y (mem_cons_of_mem _ hy)]
    simp

/-- Where a message is put into the completed queue. -/
theorem insertCompleted_spec {next : UInt32}
    (hage : ∀ x ∈ l, msgAge next (some x) < msgAge next (some m) ↔ m.seq < x.seq)
    (hne : ∀ x ∈ l, x.seq ≠ m.seq) (hsorted : l.Pairwise fun a b => a.seq < b.seq) :
    (insertCompleted next m l).Perm (m :: l) ∧
      (insertCompleted next m l).Pairwise fun a b => a.seq < b.seq := by
  induction l with
  | nil => exact ⟨.refl _, pairwise_singleton ..⟩
  | cons x l ih =>
    obtain ⟨hx, hl⟩ := pairwise_cons.mp hsorted
    have hxage := hage x (mem_cons_self ..)
    unfold insertCompleted
    split
    · next hless =>
      refine ⟨.refl _, pairwise_cons.mpr ⟨fun y hy => ?_, hsorted⟩⟩
      have hmx := hxage.mp hless
      rcases mem_cons.mp hy with rfl | hy
      · exact hmx
      · exact Nat.lt_trans hmx (hx y hy)
    · next hno =>
      obtain ⟨hperm, hpair⟩ := ih (fun y hy => hage y (mem_cons_of_mem _ hy))
        (fun y hy => hne y (mem_cons_of_mem _ hy)) hl
      refine ⟨(hperm.cons x).trans (.swap ..), pairwise_cons.mpr ⟨fun y hy => ?_, hpair⟩⟩
      have hxm := hne x (mem_cons_self ..)
      have hge : ¬ m.seq < x.seq := fun hlt => hno (hxage.mpr hlt)
      rcases mem_cons.mp (hperm.mem_iff.mp hy) with rfl | hy
      · omega
      · exact hx y hy

/-- What is left behind the front of a list in which the front goes before the rest. -/
theorem dropWhile_eq_false {f : Msg → Bool}
    (h : l.Pairwise fun a b => f b = true → f a = true) : ∀ x ∈ l.dropWhile f, f x = false := by
  induction l with
  | nil => exact fun _ hx => absurd hx not_mem_nil
  | cons a l ih =>
    obtain ⟨ha, hl⟩ := pairwise_cons.mp h
    rw [dropWhile_cons]
    split
    · exact ih hl
    · next hno =>
      intro x hx
      refine Bool.eq_false_iff.mpr fun hfx => hno ?_
      rcases mem_cons.mp hx with rfl | hx
      · exact hfx
      · exact ha x hx hfx

/-- What the completion of a message in flight comes to. -/
inductive Completes (q : Mq W) (m : Msg) : Mq W → Prop
  | later {h : Msg} {pre post completed : List Msg} :
      q.inFlight = h :: (pre ++ m :: post) → completed.Perm (m :: q.completed) →
      (completed.Pairwise fun a b => a.seq < b.seq) →
      Completes q m { q with inFlight := h :: (pre ++ post), completed := completed }
  | oldest {post unblocked completed : List Msg} :
      q.inFlight = m :: post → q.completed = unblocked ++ completed →
      (post = [] → completed = []) →
      (∀ p ∈ post.head?, ∀ c ∈ completed, p.seq < c.seq) →
      Completes q m { q with
        inFlight := post
        completed := completed
        retired := q.retired ++ m :: unblocked }

/-- **The completion of a message in flight.** It is found, and it is the right one. -/
theorem rpmMqCompleted_spec {q : Mq W} {pending : List Msg} (h : q.Inv pending)
    (hm : m ∈ q.inFlight) : ∃ q', rpmMqCompleted q m.msgId = some q' ∧ Completes q m q' := by
  obtain ⟨pre, post, hsplit⟩ := append_of_mem hm
  have hlive : ∀ x ∈ q.inFlight, x ∈ q.live pending := fun x hx =>
    mem_append_left _ (mem_append_right _ hx)
  have hlive' : ∀ x ∈ q.completed, x ∈ q.live pending := fun x hx =>
    mem_append_left _ (mem_append_left _ hx)
  have hnodup := h.seqs_nodup
  unfold Mq.live at hnodup
  rw [map_append, map_append] at hnodup
  obtain ⟨hfront, -, -⟩ := nodup_append.mp hnodup
  obtain ⟨-, hflight, hapart⟩ := nodup_append.mp hfront
  rw [hsplit, map_append, map_cons] at hflight
  have hpre : ∀ x ∈ pre, m.msgId ≠ x.msgId := fun x hx heq => by
    have hseq := h.msgId_inj (hlive m hm)
      (hlive x (by rw [hsplit]; exact mem_append_left _ hx)) heq
    exact (nodup_append.mp hflight).2.2 x.seq (List.mem_map_of_mem hx) m.seq
      (mem_cons_self ..) hseq.symm
  have hne : ∀ x ∈ q.completed, x.seq ≠ m.seq := fun x hx =>
    hapart x.seq (List.mem_map_of_mem hx) m.seq (List.mem_map_of_mem hm)
  have hpull := pullFromQueue_append post hpre true
  rw [← hsplit] at hpull
  unfold rpmMqCompleted
  rw [hpull, map_some]
  refine ⟨_, rfl, ?_⟩
  cases pre with
  | cons x pre =>
    obtain ⟨hperm, hpair⟩ := insertCompleted_spec
      (fun x hx => h.msgAge_lt_iff (hlive' x hx) (hlive m hm)) hne h.completed
    exact .later hsplit hperm hpair
  | nil =>
    have hsplit' := (takeWhile_append_dropWhile (p := fun m =>
      decide (msgAge q.nextMsgId (some m) > msgAge q.nextMsgId post.head?)) (l := q.completed)).symm
    cases post with
    | nil =>
      have hall : ∀ x ∈ q.completed,
          decide (msgAge q.nextMsgId (some x) > msgAge q.nextMsgId none) = true :=
        fun x hx => decide_eq_true (h.msgAge_pos (hlive' x hx))
      refine .oldest hsplit hsplit' (fun _ => ?_) fun p hp => by cases hp
      refine eq_nil_iff_forall_not_mem.mpr fun x hx => ?_
      have hfalse := dropWhile_eq_false (h.completed.imp_of_mem fun ha _ _ _ => hall _ ha) x hx
      exact Bool.eq_false_iff.mp hfalse (hall x ((dropWhile_sublist _).subset hx))
    | cons p post =>
      have hp : p ∈ q.inFlight := by
        rw [hsplit]
        exact mem_cons_of_mem _ (mem_cons_self ..)
      have hage : ∀ x ∈ q.completed,
          decide (msgAge q.nextMsgId (some x) > msgAge q.nextMsgId (some p)) = true ↔
            x.seq < p.seq := fun x hx =>
        decide_eq_true_iff.trans (h.msgAge_lt_iff (hlive p hp) (hlive' x hx))
      have hfront : q.completed.Pairwise fun a b =>
          decide (msgAge q.nextMsgId (some b) > msgAge q.nextMsgId (some p)) = true →
            decide (msgAge q.nextMsgId (some a) > msgAge q.nextMsgId (some p)) = true :=
        h.completed.imp_of_mem fun ha hb hless hbp =>
          (hage _ ha).mpr (Nat.lt_trans hless ((hage _ hb).mp hbp))
      refine .oldest hsplit hsplit' (fun hnil => by cases hnil) fun p' hp' c hc => ?_
      cases hp'
      have hmem : c ∈ q.completed := (dropWhile_sublist _).subset hc
      have hne' : c.seq ≠ p.seq :=
        hapart c.seq (List.mem_map_of_mem hmem) p.seq (List.mem_map_of_mem hp)
      have hnot : ¬ c.seq < p.seq := fun hlt =>
        Bool.eq_false_iff.mp (dropWhile_eq_false hfront c hc) ((hage c hmem).mpr hlt)
      omega

/-- A message in flight that is not the oldest is put among the completed ones. -/
theorem Mq.Inv.later {q : Mq W} {pending : List Msg} {m x : Msg} {pre post completed : List Msg}
    (h : q.Inv pending) (hfinished : m ∈ q.finished)
    (hsplit : q.inFlight = x :: (pre ++ m :: post)) (hperm : completed.Perm (m :: q.completed))
    (hsorted : completed.Pairwise fun a b => a.seq < b.seq) :
    Mq.Inv { q with inFlight := x :: (pre ++ post), completed := completed } pending := by
  have hlive : (Mq.live { q with inFlight := x :: (pre ++ post), completed := completed }
      pending).Perm (q.live pending) := by
    refine perm_iff_count.mpr fun a => ?_
    have hcount := hperm.count_eq a
    unfold Mq.live
    dsimp only
    rw [hsplit]
    simp only [count_append, count_cons] at hcount ⊢
    omega
  -- if it is of the active set, nothing but the oldest is in front of it
  have hpre : m.set = .active → pre = [] := fun hactive => by
    cases pre with
    | nil => rfl
    | cons y pre =>
      refine absurd hactive (h.slots m ?_)
      rw [hsplit]
      simp
  refine
    { h with
      ids := fun y hy => h.ids y (hlive.mem_iff.mp hy)
      once := (hlive.append_left _).trans h.once
      finished := fun y hy => ?_
      completed := hsorted
      empty := fun hnil => by cases hnil
      line := ?_
      slots := fun y hy => ?_ }
  · rcases mem_append.mp hy with hy | hy
    · exact h.finished y (mem_append_left _ hy)
    · rcases mem_cons.mp (hperm.mem_iff.mp hy) with rfl | hy
      · exact hfinished
      · exact h.finished y (mem_append_right _ hy)
  · have hline := h.line
    unfold Mq.line at hline ⊢
    rw [hsplit] at hline
    simp only [take_succ_cons, take_zero, drop_succ_cons, drop_zero] at hline ⊢
    rw [← append_assoc, append_assoc pre, cons_append] at hline
    rw [← append_assoc, append_assoc pre]
    exact hline.sortIn hperm hsorted hpre
  · refine h.slots y ?_
    rw [hsplit]
    dsimp only at hy
    rw [drop_succ_cons] at hy ⊢
    cases pre with
    | nil => exact mem_of_mem_drop hy
    | cons z pre =>
      rw [cons_append, drop_succ_cons, drop_zero] at hy ⊢
      rcases mem_append.mp hy with hy | hy
      · exact mem_append_left _ hy
      · exact mem_append_right _ (mem_cons_of_mem _ hy)

/-- The oldest message in flight is retired, and with it those that it held up. -/
theorem Mq.Inv.oldest {q : Mq W} {pending : List Msg} {post unblocked completed : List Msg}
    (h : q.Inv pending) (hfinished : m ∈ q.finished) (hsplit : q.inFlight = m :: post)
    (hcompleted : q.completed = unblocked ++ completed) (hempty : post = [] → completed = [])
    (hhead : ∀ p ∈ post.head?, ∀ c ∈ completed, p.seq < c.seq) :
    Mq.Inv { q with
      inFlight := post
      completed := completed
      retired := q.retired ++ m :: unblocked } pending := by
  have hall : ((q.retired ++ m :: unblocked) ++ Mq.live { q with
      inFlight := post
      completed := completed
      retired := q.retired ++ m :: unblocked } pending).Perm (q.retired ++ q.live pending) := by
    refine perm_iff_count.mpr fun a => ?_
    unfold Mq.live
    dsimp only
    rw [hsplit, hcompleted]
    simp only [count_append, count_cons]
    omega
  have hsub : completed.Sublist q.completed := by
    rw [hcompleted]
    exact sublist_append_right ..
  refine
    { h with
      ids := fun y hy => h.ids y ?_
      once := hall.trans h.once
      finished := fun y hy => ?_
      completed := h.completed.sublist hsub
      empty := hempty
      line := ?_
      slots := fun y hy => ?_ }
  · unfold Mq.live at hy ⊢
    rw [hsplit]
    rcases mem_append.mp hy with hy | hy
    · refine mem_append_left _ ?_
      rcases mem_append.mp hy with hy | hy
      · exact mem_append_left _ (hsub.subset hy)
      · exact mem_append_right _ (mem_cons_of_mem _ hy)
    · exact mem_append_right _ hy
  · rcases mem_append.mp hy with hy | hy
    · rcases mem_append.mp hy with hy | hy
      · exact h.finished y (mem_append_left _ hy)
      · rcases mem_cons.mp hy with rfl | hy
        · exact hfinished
        · exact h.finished y (mem_append_right _ (by
            rw [hcompleted]
            exact mem_append_left _ hy))
    · exact h.finished y (mem_append_right _ (hsub.subset hy))
  · have hline := h.line
    unfold Mq.line at hline ⊢
    rw [hsplit, hcompleted] at hline
    simp only [take_succ_cons, take_zero, drop_succ_cons, drop_zero] at hline
    dsimp only
    cases post with
    | nil =>
      rw [hempty rfl]
      rw [hempty rfl] at hline
      simpa using hline
    | cons p post =>
      simp only [take_succ_cons, take_zero, drop_succ_cons, drop_zero,
        cons_append, nil_append]
      refine InOrder.moveFront ?_ (hhead p rfl)
      simpa using hline
  · refine h.slots y ?_
    rw [hsplit, drop_succ_cons]
    exact mem_of_mem_drop (i := 1) (by rw [drop_drop]; exact hy)

/-- **A completion keeps the invariant.** -/
theorem Completes.inv {q q' : Mq W} {pending : List Msg} (hcompletes : Completes q m q')
    (h : q.Inv pending) (hfinished : m ∈ q.finished) : q'.Inv pending := by
  cases hcompletes with
  | later hsplit hperm hsorted => exact h.later hfinished hsplit hperm hsorted
  | oldest hsplit hcompleted hempty hhead => exact h.oldest hfinished hsplit hcompleted hempty hhead

/-! ## Sending -/

/-- How many messages are in flight when one of them has been completed. -/
theorem Completes.length {q q' : Mq W} (hcompletes : Completes q m q') :
    q'.inFlight.length + 1 = q.inFlight.length ∧ q'.enqueued = q.enqueued ∧ q'.seq = q.seq := by
  cases hcompletes with
  | later hsplit =>
    rw [hsplit]
    simp only [length_cons, length_append]
    exact ⟨by omega, trivial, trivial⟩
  | oldest hsplit =>
    rw [hsplit]
    exact ⟨rfl, rfl, rfl⟩

/-- The message that was taken out to be sent is in flight. -/
theorem Mq.Inv.depart {q : Mq W} (h : q.Inv [m])
    (hroom : m.set = .active → q.inFlight.length < 2) (wire : W) :
    Mq.Inv { q with
      inFlight := q.inFlight ++ [m]
      sent := q.sent ++ [(m, q.inFlight.length)]
      wire := wire } [] := by
  have hlive : (Mq.live { q with
      inFlight := q.inFlight ++ [m]
      sent := q.sent ++ [(m, q.inFlight.length)]
      wire := wire } []).Perm (q.live [m]) := by
    unfold Mq.live
    simp
  have hm : m ∈ q.posted := h.once.mem_iff.mp (by simp [Mq.live])
  refine
    { h with
      ids := fun y hy => h.ids y (hlive.mem_iff.mp hy)
      once := (hlive.append_left _).trans h.once
      empty := fun hnil => absurd hnil (by simp)
      line := ?_
      slots := fun y hy => ?_
      sent := ?_
      sent_posted := fun r hr => ?_
      limit := fun r hr => ?_ }
  · have hline := h.line
    unfold Mq.line at hline ⊢
    dsimp only
    cases hflight : q.inFlight with
    | nil =>
      rw [hflight, h.empty hflight] at hline
      rw [h.empty hflight]
      simpa using hline
    | cons x l =>
      rw [hflight] at hline
      simpa using hline
  · dsimp only at hy
    rw [drop_append] at hy
    rcases mem_append.mp hy with hy | hy
    · exact h.slots y hy
    · intro hactive
      have hmem := mem_of_mem_drop hy
      rw [mem_singleton.mp hmem] at hactive
      have hless := hroom hactive
      rw [show 2 - q.inFlight.length = (1 - q.inFlight.length) + 1 by omega,
        drop_succ_cons, drop_nil] at hy
      cases hy
  · have hsent := h.sent
    simpa using hsent
  · rcases mem_append.mp hr with hr | hr
    · exact h.sent_posted r hr
    · rw [mem_singleton.mp hr]
      exact hm
  · rcases mem_append.mp hr with hr | hr
    · exact h.limit r hr
    · rw [mem_singleton.mp hr]
      exact hroom

/-- **Sending a message**, which may turn out redundant. -/
theorem mqSend_spec (send : W → Msg → Bool × W) {q : Mq W} (h : q.Inv [m])
    (hroom : m.set = .active → q.inFlight.length < 2) :
    ∃ b q', mqSend send q m = some (b, q') ∧ q'.Inv [] ∧ q'.enqueued = q.enqueued ∧
      q'.seq = q.seq ∧
      q'.inFlight.length = if b then q.inFlight.length + 1 else q.inFlight.length := by
  have hdepart := h.depart hroom (send q.wire m).2
  unfold mqSend
  dsimp only
  cases hthere : (send q.wire m).1 with
  | true => exact ⟨true, _, rfl, hdepart, rfl, rfl, by simp⟩
  | false =>
    -- a redundant message is completed at once
    have hfinished := fun l => { hdepart with
      finished := fun y hy => mem_append_left l (hdepart.finished y hy) :
        Mq.Inv { q with
          inFlight := q.inFlight ++ [m]
          sent := q.sent ++ [(m, q.inFlight.length)]
          wire := (send q.wire m).2
          finished := q.finished ++ l } [] }
    obtain ⟨q', hrun, hcompletes⟩ := rpmMqCompleted_spec (hfinished [m]) (m := m) (by simp)
    have hlength := hcompletes.length
    have hkept := hcompletes.inv (hfinished [m]) (by simp)
    dsimp only at hrun hlength
    rw [hrun]
    refine ⟨false, q', rfl, hkept, hlength.2.1, hlength.2.2, ?_⟩
    have hflight := hlength.1
    rw [length_append, length_singleton] at hflight
    simpa using hflight

/-- The first of the messages that wait is taken out. -/
theorem Mq.Inv.pop {q : Mq W} {ms : List Msg}
    (h : Mq.Inv { q with enqueued := m :: ms } []) : Mq.Inv { q with enqueued := ms } [m] :=
  { h with
    enqueued := fun y hy => h.enqueued y (mem_cons_of_mem _ hy)
    ids := fun y hy => h.ids y hy
    once := h.once
    line := h.line
    sent := h.sent }

/-- **Sending what waits**, as long as there are fewer than two messages in flight. -/
theorem flushLimit_spec (send : W → Msg → Bool × W) (q : Mq W) (ms : List Msg)
    (h : Mq.Inv { q with enqueued := ms } []) :
    ∃ q', flushLimit send q ms = some q' ∧ q'.Inv [] ∧ q'.seq = q.seq ∧
      (q'.enqueued ≠ [] → 2 ≤ q'.inFlight.length) := by
  induction ms generalizing q with
  | nil => exact ⟨_, rfl, h, rfl, fun hno => absurd rfl hno⟩
  | cons m ms ih =>
    unfold flushLimit
    split
    · next hroom =>
      obtain ⟨b, q', hrun, hkept, henqueued, hseq, -⟩ := mqSend_spec send h.pop fun _ => hroom
      have hback : ({ q' with enqueued := ms } : Mq W) = q' := by
        rw [← show q'.enqueued = ms from henqueued]
      obtain ⟨q₂, hrest, hkept₂, hseq₂, hheld⟩ := ih q' (by rw [hback]; exact hkept)
      rw [hrun]
      exact ⟨q₂, hrest, hkept₂, hseq₂.trans hseq, hheld⟩
    · next hfull => exact ⟨_, rfl, h, rfl, fun _ => Nat.le_of_not_lt hfull⟩

/-! ## Posting -/

/-- The id of the next message, before it is brought to 32 bits. -/
def Mq.newSeq (q : Mq W) : Nat := if q.seq % 2 ^ 32 = 0 then q.seq + 1 else q.seq

theorem Mq.seq_le_newSeq (q : Mq W) : q.seq ≤ q.newSeq := by
  unfold newSeq
  split <;> omega

theorem ofNat_succ (n : Nat) : UInt32.ofNat (n + 1) = .ofNat n + 1 := UInt32.ofNat_add n 1

theorem getMsgId_spec {q : Mq W} (hnext : q.nextMsgId = .ofNat q.seq) :
    getMsgId q = (.ofNat q.newSeq, q.newSeq,
      { q with nextMsgId := .ofNat (q.newSeq + 1), seq := q.newSeq + 1 }) := by
  have hzero : q.nextMsgId = 0 ↔ q.seq % 2 ^ 32 = 0 := by
    rw [hnext, ← UInt32.toNat_inj, UInt32.toNat_ofNat']
    rfl
  unfold getMsgId Mq.newSeq
  by_cases hseq : q.seq % 2 ^ 32 = 0
  · rw [if_neg (Decidable.not_not.mpr (hzero.mpr hseq)), if_pos hseq, hnext,
      ofNat_succ (q.seq + 1), ofNat_succ q.seq]
  · rw [if_pos (mt hzero.mp hseq), if_neg hseq, hnext, ofNat_succ]

/-- All messages have smaller ids than the next one. -/
theorem Mq.Inv.seq_lt {q : Mq W} (h : q.Inv []) (hm : m ∈ q.retired ++ q.live []) :
    m.seq < q.seq :=
  h.posted_lt m (h.once.mem_iff.mp hm)

theorem Mq.Inv.line_lt {q : Mq W} (h : q.Inv []) (hm : m ∈ q.line []) :
    m.seq < q.seq := by
  refine h.seq_lt ?_
  unfold Mq.line at hm
  unfold Mq.live
  simp only [mem_append] at hm ⊢
  rcases hm with hm | hm | hm | hm | hm
  · exact .inl hm
  · exact .inr (.inl (.inr (mem_of_mem_take hm)))
  · exact .inr (.inl (.inl hm))
  · exact .inr (.inl (.inr (mem_of_mem_drop hm)))
  · exact .inr (.inr hm)

/-- A message that comes last. -/
theorem InOrder.snoc (h : InOrder l) (hless : ∀ a ∈ l, a.seq < m.seq) :
    InOrder (l ++ [m]) :=
  InOrder.append_iff.mpr ⟨h, pairwise_singleton .., fun a ha b hb => by
    rw [mem_singleton.mp hb]
    exact Msg.precedes_of_lt (hless a ha)⟩

/-- A message that is not of the active set is in nobody's way. -/
theorem InOrder.insert (h : InOrder (l₁ ++ l₂))
    (hm : m.set ≠ .active) : InOrder (l₁ ++ m :: l₂) := by
  obtain ⟨h₁, h₂, hapart⟩ := InOrder.append_iff.mp h
  refine InOrder.append_iff.mpr ⟨h₁, pairwise_cons.mpr
    ⟨fun _ _ hactive => absurd hactive hm, h₂⟩, fun a ha b hb => ?_⟩
  rcases mem_cons.mp hb with rfl | hb
  · exact fun _ hactive => absurd hactive hm
  · exact hapart a ha b hb

/-- **Posting a message.** It is taken out to be sent, or waits. -/
theorem Mq.Inv.post {q : Mq W} {s : Nat} (h : q.Inv []) (hs : q.seq ≤ s)
    (hfresh : ∀ y ∈ q.live [], s + 1 < y.seq + 2 ^ 32) (hid : m.msgId = .ofNat s)
    (hseq : m.seq = s) :
    ((m.set = .active → q.enqueued = []) → Mq.Inv { q with
      nextMsgId := .ofNat (s + 1)
      seq := s + 1
      posted := q.posted ++ [m] } [m]) ∧
    (m.set = .active → Mq.Inv { q with
      nextMsgId := .ofNat (s + 1)
      seq := s + 1
      posted := q.posted ++ [m]
      enqueued := q.enqueued ++ [m] } []) := by
  have hids : ∀ y, y ∈ q.live [] ∨ y = m →
      y.msgId = .ofNat y.seq ∧ y.seq < s + 1 ∧ s + 1 < y.seq + 2 ^ 32 := by
    rintro y (hy | rfl)
    · obtain ⟨hyid, hlt, -⟩ := h.ids y hy
      exact ⟨hyid, by omega, hfresh y hy⟩
    · exact ⟨by rw [hid, hseq], by omega, by omega⟩
  have hposted_lt : ∀ y ∈ q.posted ++ [m], y.seq < s + 1 := fun y hy => by
    rcases mem_append.mp hy with hy | hy
    · have := h.posted_lt y hy
      omega
    · rw [mem_singleton.mp hy]
      omega
  have hposted : (q.posted ++ [m]).Pairwise fun a b => a.seq < b.seq :=
    pairwise_append.mpr ⟨h.posted, pairwise_singleton .., fun a ha b hb => by
      rw [mem_singleton.mp hb, hseq]
      exact Nat.lt_of_lt_of_le (h.posted_lt a ha) hs⟩
  have honce : ∀ l : List Msg, l.Perm (m :: (q.retired ++ q.live [])) → l.Perm (q.posted ++ [m]) :=
    fun l hl => hl.trans ((h.once.cons m).trans (perm_append_singleton m q.posted).symm)
  have hsent_posted : ∀ r ∈ q.sent, r.1 ∈ q.posted ++ [m] := fun r hr =>
    mem_append_left _ (h.sent_posted r hr)
  refine ⟨fun hset => ?_, fun hactive => ?_⟩
  · refine
      { h with
        next := rfl
        ids := fun y hy => hids y ?_
        posted_lt := hposted_lt
        posted := hposted
        once := honce _ ?_
        line := ?_
        sent := ?_
        sent_posted := hsent_posted }
    · unfold Mq.live at hy ⊢
      simp only [mem_append, mem_singleton, not_mem_nil, false_or] at hy ⊢
      grind
    · refine perm_iff_count.mpr fun a => ?_
      unfold Mq.live
      simp only [count_append, count_cons, count_nil]
      omega
    · have hline := h.line
      unfold Mq.line at hline ⊢
      by_cases hactive : m.set = .active
      · rw [hset hactive] at hline ⊢
        have hlast := hline.snoc (m := m) fun a ha => by
          have := h.line_lt (m := a) (by unfold Mq.line; rw [hset hactive]; exact ha)
          omega
        simpa using hlast
      · have hall : InOrder ((q.retired ++ (q.inFlight.take 1 ++
            (q.completed ++ q.inFlight.drop 1))) ++ m :: q.enqueued) :=
          InOrder.insert (by simpa using hline) hactive
        simpa using hall
    · have hsent := h.sent
      by_cases hactive : m.set = .active
      · rw [hset hactive] at hsent ⊢
        have hlast := hsent.snoc (m := m) fun a ha => by
          rw [append_nil, append_nil] at ha
          obtain ⟨r, hr, rfl⟩ := List.mem_map.mp ha
          have := h.posted_lt _ (h.sent_posted r hr)
          omega
        simpa using hlast
      · exact hsent.insert hactive
  · refine
      { h with
        next := rfl
        ids := fun y hy => hids y ?_
        posted_lt := hposted_lt
        posted := hposted
        once := honce _ ?_
        enqueued := fun y hy => ?_
        line := ?_
        sent := ?_
        sent_posted := hsent_posted }
    · unfold Mq.live at hy ⊢
      simp only [mem_append, mem_singleton, not_mem_nil, false_or] at hy ⊢
      grind
    · refine perm_iff_count.mpr fun a => ?_
      unfold Mq.live
      simp only [count_append, count_cons, count_nil]
      omega
    · rcases mem_append.mp hy with hy | hy
      · exact h.enqueued y hy
      · rw [mem_singleton.mp hy]
        exact hactive
    · have hlast := h.line.snoc (m := m) fun a ha => by
        have := h.line_lt ha
        omega
      unfold Mq.line at hlast ⊢
      simpa using hlast
    · have hlast := h.sent.snoc (m := m) fun a ha => by
        have hposted : a ∈ q.posted := by
          rcases mem_append.mp ha with ha | ha
          · obtain ⟨r, hr, rfl⟩ := List.mem_map.mp ha
            exact h.sent_posted r hr
          · refine h.once.mem_iff.mp (mem_append_right _ ?_)
            exact mem_append_right _ ha
        have := h.posted_lt a hposted
        omega
      simpa using hlast

/-! ## Runs -/

/-- No message is left in the queues for so long that ids come again. -/
def MqEvent.Fresh (q : Mq W) : MqEvent → Prop
  | .put .. => ∀ m ∈ q.live [], q.newSeq + 1 < m.seq + 2 ^ 32
  | .complete _ => True

/-- What holds between steps. -/
structure Mq.Settled (q : Mq W) : Prop where
  inv : q.Inv []
  held : q.enqueued ≠ [] → 2 ≤ q.inFlight.length

theorem settled_rpmMqCreate (wire : W) : (rpmMqCreate wire).Settled where
  inv :=
    { next := rfl
      ids := fun _ hm => absurd hm not_mem_nil
      posted_lt := fun _ hm => absurd hm not_mem_nil
      posted := .nil
      once := .nil
      finished := fun _ hm => absurd hm not_mem_nil
      completed := .nil
      empty := fun _ => rfl
      enqueued := fun _ hm => absurd hm not_mem_nil
      line := .nil
      slots := fun _ hm => absurd hm not_mem_nil
      sent := .nil
      sent_posted := fun _ hr => absurd hr not_mem_nil
      limit := fun _ hr => absurd hr not_mem_nil }
  held := fun hno => absurd rfl hno

/-- **Posting a message**, up to the return of `rpm_mq_put`. -/
theorem rpmMqPut_spec (send : W → Msg → Bool × W) {q : Mq W} (h : q.Settled) (set : RpmSet)
    (resource id : UInt32) (hfresh : ∀ m ∈ q.live [], q.newSeq + 1 < m.seq + 2 ^ 32) :
    ∃ msgId q', rpmMqPut send q set resource id = some (msgId, q') ∧ q'.Settled := by
  obtain ⟨htaken, hwaits⟩ := h.inv.post (m := ⟨.ofNat q.newSeq, set, resource, id, q.newSeq⟩)
    q.seq_le_newSeq hfresh rfl rfl
  unfold rpmMqPut
  rw [getMsgId_spec h.inv.next]
  dsimp only
  by_cases hfull : set = .active ∧ q.inFlight.length ≥ rpmConcurrentMessageLimit
  · rw [if_pos hfull]
    exact ⟨_, _, rfl, hwaits hfull.1, fun _ => hfull.2⟩
  · rw [if_neg hfull]
    have hroom : set = .active → q.inFlight.length < 2 := fun hactive =>
      Nat.lt_of_not_le fun hle => hfull ⟨hactive, hle⟩
    have hnone : set = .active → q.enqueued = [] := fun hactive =>
      Decidable.byContradiction fun hno => absurd (h.held hno) (Nat.not_le.mpr (hroom hactive))
    obtain ⟨b, q', hrun, hkept, henqueued, -, hflight⟩ := mqSend_spec send (htaken hnone) hroom
    rw [hrun, bind_some]
    cases b with
    | true =>
      refine ⟨_, q', rfl, hkept, fun hno => ?_⟩
      have hheld := h.held (by rw [henqueued] at hno; exact hno)
      rw [if_pos rfl] at hflight
      dsimp only at hflight
      omega
    | false =>
      obtain ⟨q₂, hflush, hkept₂, -, hheld⟩ := flushLimit_spec send q' q'.enqueued hkept
      refine ⟨.ofNat q.newSeq, q₂, ?_, hkept₂, hheld⟩
      dsimp only
      rw [if_neg Bool.false_ne_true]
      unfold rpmMqFlushLimit
      rw [hflush]
      rfl

/-- **A completion**, with the messages that can then be sent. -/
theorem mqStep_complete_spec (send : W → Msg → Bool × W) {q : Mq W} (h : q.Settled)
    (hm : m ∈ q.inFlight) : ∃ q', mqStep send q (.complete m) = some q' ∧ q'.Settled := by
  have hfinished : Mq.Inv { q with finished := q.finished ++ [m] } [] :=
    { h.inv with finished := fun y hy => mem_append_left _ (h.inv.finished y hy) }
  obtain ⟨q₁, hrun, hcompletes⟩ := rpmMqCompleted_spec hfinished (m := m) hm
  have hkept := hcompletes.inv hfinished (by simp)
  obtain ⟨q₂, hflush, hkept₂, -, hheld⟩ := flushLimit_spec send q₁ q₁.enqueued hkept
  refine ⟨q₂, ?_, hkept₂, hheld⟩
  change (rpmMqCompleted { q with finished := q.finished ++ [m] } m.msgId).bind
    (rpmMqFlushLimit send) = some q₂
  rw [hrun, bind_some]
  exact hflush

/-- **A step keeps what holds between steps**, and comes to something. -/
theorem Mq.Settled.step (send : W → Msg → Bool × W) {q : Mq W} (h : q.Settled) {e : MqEvent}
    (hallowed : e.Allowed q) (hfresh : e.Fresh q) :
    ∃ q', mqStep send q e = some q' ∧ q'.Settled := by
  cases e with
  | put set resource id =>
    obtain ⟨msgId, q', hrun, hsettled⟩ := rpmMqPut_spec send h set resource id hfresh
    refine ⟨q', ?_, hsettled⟩
    change (rpmMqPut send q set resource id).map Prod.snd = some q'
    rw [hrun]
    rfl
  | complete m => exact mqStep_complete_spec send h hallowed

/-- The discipline of the queue. -/
structure Mq.Disciplined (q : Mq W) : Prop where
  /-- Each message is retired once, or is still in one of the queues. -/
  once : (q.retired ++ (q.completed ++ q.inFlight ++ q.enqueued)).Perm q.posted ∧
    (q.posted.map Msg.seq).Nodup
  /-- It is not retired before it has been completed or found redundant. -/
  finished : ∀ m ∈ q.retired, m ∈ q.finished
  /-- Messages are posted in the order of their numbers. -/
  posted : q.posted.Pairwise fun a b => a.seq < b.seq
  /-- Those of the active set are sent in that order, and retired in it. -/
  sent : InOrder (q.sent.map Prod.fst)
  retired : InOrder q.retired
  /-- They are sent only with fewer than two messages in flight. -/
  limit : ∀ r ∈ q.sent, r.1.set = .active → r.2 < 2
  held : q.enqueued ≠ [] → 2 ≤ q.inFlight.length
  empty : q.inFlight = [] → q.completed = [] ∧ q.enqueued = []

theorem Mq.Settled.disciplined {q : Mq W} (h : q.Settled) : q.Disciplined where
  once := ⟨h.inv.once, pairwise_map.mpr
    (h.inv.posted.imp fun hless heq => absurd heq (Nat.ne_of_lt hless))⟩
  finished := fun m hm => h.inv.finished m (mem_append_left _ hm)
  posted := h.inv.posted
  sent := (InOrder.append_iff.mp h.inv.sent).1
  retired := (InOrder.append_iff.mp h.inv.line).1
  limit := h.inv.limit
  held := h.held
  empty := fun hnil => ⟨h.inv.empty hnil, Decidable.byContradiction fun hno => by
    have hheld := h.held hno
    rw [hnil] at hheld
    exact absurd hheld (by decide)⟩

/-- A step of the queue before which ids do not come again. -/
def FreshStep (send : W → Msg → Bool × W) (q : Mq W) (e : MqEvent) (q' : Mq W) : Prop :=
  MqStep send q e q' ∧ e.Fresh q

/-- **The queue keeps its discipline**, and nothing that is allowed is fatal, in every run in which
no message stays in the queues for `2 ^ 32` ids. -/
theorem queue_disciplined (send : W → Msg → Bool × W) (wire : W) {h : List MqEvent} {q : Mq W}
    (run : Lib.Run (FreshStep send) (rpmMqCreate wire) h q) :
    q.Disciplined ∧ ∀ e : MqEvent, e.Allowed q → e.Fresh q → (mqStep send q e).isSome := by
  have hsettled : q.Settled := by
    refine run.state_invariant (settled_rpmMqCreate wire) fun {q e q'} hq hstep => ?_
    obtain ⟨⟨hallowed, hrun⟩, hfresh⟩ := hstep
    obtain ⟨q₂, hrun₂, hsettled⟩ := hq.step send hallowed hfresh
    rw [hrun] at hrun₂
    cases hrun₂
    exact hsettled
  refine ⟨hsettled.disciplined, fun e hallowed hfresh => ?_⟩
  obtain ⟨q', hrun, -⟩ := hsettled.step send hallowed hfresh
  rw [hrun]
  rfl

/-! ## Messages of either set -/

section

instance (q : Mq W) : ∀ e : MqEvent, Decidable (e.Allowed q)
  | .put .. => inferInstanceAs (Decidable True)
  | .complete _ => inferInstanceAs (Decidable (_ ∈ _))

instance (q : Mq W) : ∀ e : MqEvent, Decidable (e.Fresh q)
  | .put .. => inferInstanceAs (Decidable (∀ _ ∈ _, _))
  | .complete _ => inferInstanceAs (Decidable True)

/-- Several events, one after the other, as long as ids do not come again. -/
def mqSteps (send : W → Msg → Bool × W) (q : Mq W) : List MqEvent → Option (Mq W)
  | [] => some q
  | e :: es =>
    if e.Allowed q ∧ e.Fresh q then (mqStep send q e).bind fun q => mqSteps send q es else none

theorem mqSteps_run {send : W → Msg → Bool × W} {q₀ q q' : Mq W} {h es : List MqEvent}
    (run : Lib.Run (FreshStep send) q₀ h q) (hsteps : mqSteps send q es = some q') :
    ∃ h', Lib.Run (FreshStep send) q₀ h' q' := by
  induction es generalizing q h with
  | nil =>
    cases hsteps
    exact ⟨h, run⟩
  | cons e es ih =>
    rw [mqSteps] at hsteps
    split at hsteps
    next hok =>
      obtain ⟨q₁, hstep, hrest⟩ := bind_eq_some_iff.mp hsteps
      exact ih (run.step ⟨⟨hok.1, hstep⟩, hok.2⟩) hrest
    · cases hsteps

end

/-- Messages for the resource 0 are redundant. -/
def redundantZero : Unit → Msg → Bool × Unit := fun w m => (m.resource != 0, w)

/-- Two messages of the active set are sent, and one is held; one of the sleep set overtakes it; a
redundant one is held, too; the second is completed early, the first, the fourth, and the third. -/
def mixedEvents : List MqEvent :=
  [.put .active 1 0, .put .active 2 0, .put .active 3 0, .put .sleep 4 0, .put .active 0 0,
    .complete ⟨2, .active, 2, 0, 2⟩, .complete ⟨1, .active, 1, 0, 1⟩, .complete
      ⟨4, .sleep, 4, 0, 4⟩,
    .complete ⟨3, .active, 3, 0, 3⟩]

/-- The held messages are sent late, the early one is retired after the first, and the queue is
disciplined. -/
theorem queue_disciplined_one : ∃ q : Mq Unit,
    mqSteps redundantZero (rpmMqCreate ()) mixedEvents = some q ∧
    q.sent.map (fun r => r.1.seq) = [1, 2, 4, 3, 5] ∧ q.finished.map Msg.seq = [2, 1, 4, 5, 3] ∧
    q.retired.map Msg.seq = [1, 2, 4, 3, 5] ∧ q.Disciplined := by
  have hsteps : (mqSteps redundantZero (rpmMqCreate ()) mixedEvents).map (fun q =>
      (q.sent.map (fun r => r.1.seq), q.finished.map Msg.seq, q.retired.map Msg.seq)) =
        some ([1, 2, 4, 3, 5], [2, 1, 4, 5, 3], [1, 2, 4, 3, 5]) := by
    decide +kernel
  obtain ⟨q, hq, heq⟩ := map_eq_some_iff.mp hsteps
  obtain ⟨hsent, hfinished, hretired⟩ := by simpa only [Prod.mk.injEq] using heq
  obtain ⟨h, run⟩ := mqSteps_run .start hq
  exact ⟨q, hq, hsent, hfinished, hretired, (queue_disciplined redundantZero () run).1⟩

/-! ## When ids come again -/

/-- Every message is sent. -/
def alwaysSent : Unit → Msg → Bool × Unit := fun w _ => (true, w)

/-- The first message, of the active set. -/
def firstMsg : Msg := ⟨1, .active, 0, 0, 1⟩

/-- It has been posted. -/
def onePosted : Mq Unit := { rpmMqCreate () with
  nextMsgId := 2
  inFlight := [firstMsg]
  seq := 2
  posted := [firstMsg]
  sent := [(firstMsg, 0)] }

/-- Two messages are in flight, and one waits. -/
structure Waits (q : Mq Unit) (w : Msg) (n : Nat) : Prop where
  seq : q.seq = n
  next : q.nextMsgId = .ofNat n
  completed : q.completed = []
  inFlight : ∃ a b, q.inFlight = [a, b]
  enqueued : q.enqueued = [w]
  finished : ∀ m ∈ q.finished ++ q.inFlight, m.seq < n

/-- The message that is posted next, for the sleep set. -/
def Mq.sleepMsg (q : Mq Unit) : Msg := ⟨.ofNat q.newSeq, .sleep, 0, 0, q.newSeq⟩

/-- It has been posted and sent. -/
def Mq.afterSleep (q : Mq Unit) : Mq Unit := { q with
  nextMsgId := .ofNat (q.newSeq + 1)
  seq := q.newSeq + 1
  posted := q.posted ++ [q.sleepMsg]
  inFlight := q.inFlight ++ [q.sleepMsg]
  sent := q.sent ++ [(q.sleepMsg, q.inFlight.length)] }

/-- The oldest message in flight has been retired, and these are left. -/
def Mq.afterOldest (q : Mq Unit) (a : Msg) (l : List Msg) : Mq Unit := { q with
  inFlight := l
  completed := []
  finished := q.finished ++ [a]
  retired := q.retired ++ [a] }

theorem mqStep_put_sleep {q : Mq Unit} (hnext : q.nextMsgId = .ofNat q.seq) :
    mqStep alwaysSent q (.put .sleep 0 0) = some q.afterSleep := by
  have hset : ¬ (RpmSet.sleep = .active ∧ q.inFlight.length ≥ rpmConcurrentMessageLimit) :=
    fun hactive => by cases hactive.1
  change (rpmMqPut alwaysSent q .sleep 0 0).map Prod.snd = _
  unfold rpmMqPut
  rw [getMsgId_spec hnext]
  dsimp only
  rw [if_neg hset]
  rfl

theorem rpmMqCompleted_oldest {q : Mq Unit} {a : Msg} {msgId : UInt32}
    (hflight : q.inFlight = a :: l) (hid : msgId = a.msgId) (hcompleted : q.completed = []) :
    rpmMqCompleted q msgId =
      some { q with inFlight := l, completed := [], retired := q.retired ++ [a] } := by
  have hpull : pullFromQueue true q.inFlight msgId = some (true, a, l) := by
    rw [hflight]
    exact if_pos hid
  unfold rpmMqCompleted
  rw [hpull, map_some, hcompleted]
  rfl

theorem mqStep_complete_oldest {q : Mq Unit} {a : Msg} (hflight : q.inFlight = a :: l)
    (hcompleted : q.completed = []) :
    mqStep alwaysSent q (.complete a) = rpmMqFlushLimit alwaysSent (q.afterOldest a l) := by
  have hrun := rpmMqCompleted_oldest (q := { q with finished := q.finished ++ [a] }) hflight rfl
    hcompleted
  change (rpmMqCompleted { q with finished := q.finished ++ [a] } a.msgId).bind
    (rpmMqFlushLimit alwaysSent) = _
  rw [hrun]
  rfl

theorem rpmMqFlushLimit_full {q : Mq Unit} (hfull : rpmConcurrentMessageLimit ≤ q.inFlight.length) :
    rpmMqFlushLimit alwaysSent q = some q := by
  unfold rpmMqFlushLimit
  cases hwaiting : q.enqueued with
  | nil =>
    unfold flushLimit
    rw [← hwaiting]
  | cons m ms =>
    unfold flushLimit
    rw [if_neg (Nat.not_lt.mpr hfull), ← hwaiting]

/-- A message more is posted and sent, and the oldest one completed. -/
theorem Waits.next_step {q : Mq Unit} {w : Msg} {n : Nat} (h : Waits q w n) :
    ∃ e₁ e₂ q₁ q₂, MqStep alwaysSent q e₁ q₁ ∧ MqStep alwaysSent q₁ e₂ q₂ ∧
      Waits q₂ w (q.newSeq + 1) := by
  obtain ⟨a, b, hflight⟩ := h.inFlight
  have hput := mqStep_put_sleep (by rw [h.seq]; exact h.next : q.nextMsgId = .ofNat q.seq)
  have hflight' : q.afterSleep.inFlight = a :: [b, q.sleepMsg] := by
    unfold Mq.afterSleep
    dsimp only
    rw [hflight]
    rfl
  have hcomplete := (mqStep_complete_oldest hflight' h.completed).trans
    (rpmMqFlushLimit_full (Nat.le_refl 2))
  have hle := q.seq_le_newSeq
  rw [h.seq] at hle
  have hallowed : MqEvent.Allowed q.afterSleep (.complete a) := by
    change a ∈ q.afterSleep.inFlight
    rw [hflight']
    exact mem_cons_self ..
  refine ⟨.put .sleep 0 0, _, _, _, ⟨trivial, hput⟩, ⟨hallowed, hcomplete⟩,
    rfl, rfl, rfl, ⟨_, _, rfl⟩, h.enqueued, fun m hm => ?_⟩
  have hbefore := h.finished m
  rw [hflight] at hbefore
  change m ∈ q.finished ++ [a] ++ [b, q.sleepMsg] at hm
  simp only [mem_append, mem_cons, not_mem_nil, or_false] at hm hbefore
  rcases hm with (hm | rfl) | rfl | rfl
  · have := hbefore (.inl hm)
    omega
  · have := hbefore (.inr (.inl rfl))
    omega
  · have := hbefore (.inr (.inr rfl))
    omega
  · exact Nat.lt_succ_self _

/-- The third message, of the active set, waits. -/
def thirdMsg : Msg := ⟨3, .active, 0, 0, 3⟩

theorem waits_four : ∃ h q, Lib.Run (MqStep alwaysSent) (rpmMqCreate ()) h q ∧
    Waits q thirdMsg 4 := by
  have hput : ∀ {q : Mq Unit} {q'}, mqStep alwaysSent q (.put .active 0 0) = some q' →
      MqStep alwaysSent q (.put .active 0 0) q' := fun hstep => ⟨trivial, hstep⟩
  have h₁ : mqStep alwaysSent (rpmMqCreate ()) (.put .active 0 0) = some onePosted := rfl
  have h₂ : mqStep alwaysSent onePosted (.put .active 0 0) = some _ := rfl
  have run := (Lib.Run.start.step (hput h₁)).step (hput h₂)
  refine ⟨_, _, run.step (hput rfl), rfl, rfl, rfl, ⟨_, _, rfl⟩, rfl, ?_⟩
  decide

/-- It can wait for as long as one likes. -/
theorem waits_reached : ∀ n, 4 ≤ n → n % 2 ^ 32 ≠ 1 → ∃ h q,
    Lib.Run (MqStep alwaysSent) (rpmMqCreate ()) h q ∧ Waits q thirdMsg n := by
  intro n
  induction n using Nat.strongRecOn with
  | ind n ih =>
    intro hle hmod
    -- the next id was one less before a message was posted, or two less across zero
    have hnext : ∀ k, k < n → 4 ≤ k → k % 2 ^ 32 ≠ 1 →
        n = (if k % 2 ^ 32 = 0 then k + 1 else k) + 1 → ∃ h q,
          Lib.Run (MqStep alwaysSent) (rpmMqCreate ()) h q ∧ Waits q thirdMsg n := by
      intro k hk hk4 hkmod hkn
      obtain ⟨h, q, run, hwaits⟩ := ih k hk hk4 hkmod
      obtain ⟨e₁, e₂, q₁, q₂, hstep₁, hstep₂, hwaits₂⟩ := hwaits.next_step
      have hn : q.newSeq + 1 = n := by
        unfold Mq.newSeq
        rw [hwaits.seq, hkn]
      rw [hn] at hwaits₂
      exact ⟨_, q₂, (run.step hstep₁).step hstep₂, hwaits₂⟩
    rcases Nat.lt_or_ge 4 n with hless | hge
    · by_cases htwo : n % 2 ^ 32 = 2
      · exact hnext (n - 2) (by omega) (by omega) (by omega) (by rw [if_pos (by omega)]; omega)
      · exact hnext (n - 1) (by omega) (by omega) (by omega) (by rw [if_neg (by omega)]; omega)
    · obtain rfl : n = 4 := by omega
      exact waits_four

/-- **A message is retired for another one** that waited while `2 ^ 32` ids were given out, and has
the same id. -/
theorem queue_not_disciplined : ∃ h q,
    Lib.Run (MqStep alwaysSent) (rpmMqCreate ()) h q ∧ ¬ q.Disciplined := by
  obtain ⟨h, q, run, hwaits⟩ := waits_reached (2 ^ 32 + 3) (by decide) (by decide)
  obtain ⟨a, b, hflight⟩ := hwaits.inFlight
  have hsleep : q.sleepMsg = ⟨3, .sleep, 0, 0, 2 ^ 32 + 3⟩ := by
    unfold Mq.sleepMsg Mq.newSeq
    rw [hwaits.seq]
    rfl
  have hput := mqStep_put_sleep (by rw [hwaits.seq]; exact hwaits.next : q.nextMsgId = .ofNat q.seq)
  have hflight₁ : q.afterSleep.inFlight = a :: [b, q.sleepMsg] := by
    unfold Mq.afterSleep
    dsimp only
    rw [hflight]
    rfl
  have hfirst := (mqStep_complete_oldest hflight₁ hwaits.completed).trans
    (rpmMqFlushLimit_full (Nat.le_refl 2))
  have hsecond := mqStep_complete_oldest (q := q.afterSleep.afterOldest a [b, q.sleepMsg])
    (a := b) (l := [q.sleepMsg]) rfl rfl
  -- the message that waited is sent behind one with its id, and its completion retires the other
  have hsend : ∃ q₃, rpmMqFlushLimit alwaysSent
        ((q.afterSleep.afterOldest a [b, q.sleepMsg]).afterOldest b [q.sleepMsg]) = some q₃ ∧
      q₃.inFlight = [q.sleepMsg, thirdMsg] ∧ q₃.completed = [] ∧ q₃.enqueued = [] ∧
      q₃.finished = q.finished ++ [a] ++ [b] := by
    unfold rpmMqFlushLimit
    have hwaiting : ((q.afterSleep.afterOldest a [b, q.sleepMsg]).afterOldest b
        [q.sleepMsg]).enqueued = [thirdMsg] := hwaits.enqueued
    rw [hwaiting]
    exact ⟨_, rfl, rfl, rfl, rfl, rfl⟩
  obtain ⟨q₃, hflush, hflight₃, hcompleted₃, hwaiting₃, hfinished₃⟩ := hsend
  rw [hflush] at hsecond
  have hwrong := rpmMqCompleted_oldest (q := { q₃ with finished := q₃.finished ++ [thirdMsg] })
    hflight₃ (by rw [hsleep]; rfl : thirdMsg.msgId = _) hcompleted₃
  have hthird : ∃ q₄, mqStep alwaysSent q₃ (.complete thirdMsg) = some q₄ ∧
      q.sleepMsg ∈ q₄.retired ∧ q₄.finished = q.finished ++ [a] ++ [b] ++ [thirdMsg] := by
    change ∃ q₄, (rpmMqCompleted { q₃ with finished := q₃.finished ++ [thirdMsg] }
      thirdMsg.msgId).bind (rpmMqFlushLimit alwaysSent) = some q₄ ∧ _
    rw [hwrong, bind_some]
    unfold rpmMqFlushLimit
    dsimp only
    rw [hwaiting₃, hfinished₃]
    exact ⟨_, rfl, mem_append_right _ (mem_singleton.mpr rfl), rfl⟩
  obtain ⟨q₄, hstep₄, hretired, hfinished₄⟩ := hthird
  have hallowed : ∀ {q : Mq Unit} {m : Msg} (l₁ : List Msg) {l₂ : List Msg},
      q.inFlight = l₁ ++ m :: l₂ → MqEvent.Allowed q (.complete m) := fun {q m} l₁ {l₂} hm => by
    change m ∈ q.inFlight
    rw [hm]
    exact mem_append_right _ (mem_cons_self ..)
  have hposts : MqStep alwaysSent q (.put .sleep 0 0) q.afterSleep := ⟨trivial, hput⟩
  refine ⟨_, q₄, (((run.step hposts).step ⟨hallowed [] hflight₁, hfirst⟩).step
    ⟨hallowed [] rfl, hsecond⟩).step ⟨hallowed [q.sleepMsg] hflight₃, hstep₄⟩,
    fun hdisciplined => ?_⟩
  have hearly := hdisciplined.finished q.sleepMsg hretired
  have hless := hwaits.finished q.sleepMsg
  rw [hflight] at hless
  rw [hfinished₄] at hearly
  simp only [mem_append, mem_cons, not_mem_nil, or_false] at hearly hless
  have hseq : q.sleepMsg.seq = 2 ^ 32 + 3 := by rw [hsleep]
  rcases hearly with ((hmem | hmem) | hmem) | hmem
  · exact absurd (hless (.inl hmem)) (by omega)
  · exact absurd (hless (.inr (.inl hmem))) (by omega)
  · exact absurd (hless (.inr (.inr hmem))) (by omega)
  · rw [hmem] at hseq
    exact absurd hseq (by decide)

end RpmClient
