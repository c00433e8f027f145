import BootXf.Sahara.MemoryRead

/-!
# Receiving a part of an image

`boot_sahara_receive_data` asks for a part of the image file with READ_DATA, in chunks of the
transport's maximum raw data size, and receives each chunk to where it belongs. In the optimised
way of loading, receptions may be short, and while segments are loaded nothing is asked for here:
the caller has asked for all segments with one request.

Outside of that, the requests are the consecutive pieces of the part and what is stored follows
them. The offsets are 32-bit numbers and wrap around with the end of the part.
-/

namespace Sahara

open Lib List Program

/-! ## The loop -/

section Code
variable (si : Interface) (host : Host)

/-- `BOOT_MHI_SKIP_DATA`, where data goes that is thrown away. -/
def bootMhiSkipData : Ptr := ⟨.skipData, 0⟩

/-- The status for an error code of a reception. -/
def rxStatus (errCode : BulkError) : Status :=
  if errCode = .timeout then .timeoutRx else .generalTxRxError

/-- One round of the loop that skips data. -/
def skipRound (dataToSkip : UInt32) : Code (UInt32 ⊕ Status) :=
  if dataToSkip = 0 then pure (.inr .success)
  else do
    let got ← handleRx si host bootMhiSkipData dataToSkip dataToSkip
    if got.2 ≠ 0 then pure (.inr (rxStatus got.2))
    else if got.1 > dataToSkip then pure (.inr .invalidDataSize)
    else pure (.inl (dataToSkip - got.1))

/-- Segment data is on its way that the caller has asked for. -/
def SegmentLoad (g : Globals) : Prop :=
  si.elfOptimizedSegmentLoad = true ∧ g.startOfSegmentLoad = true

instance (g : Globals) : Decidable (SegmentLoad si g) := inferInstanceAs (Decidable (_ ∧ _))

/-- Skips the data between the last loaded segment and the next one. -/
def skipGap (rounds : Nat) (imageOffset : UInt32) : Code Status := do
  let g ← Program.get
  if g.lastLoadedSegmentEndOffset ≠ 0 then
    Program.iter (skipRound si host) rounds (imageOffset - g.lastLoadedSegmentEndOffset)
  else pure .success

/-- `boot_sahara_skip_data_in_optmize_load`, for at most `rounds` receptions. -/
def skipDataInOptmizeLoad (rounds : Nat) (imageOffset imageDataSize : UInt32) : Code Status := do
  let g ← Program.get
  if SegmentLoad si g then do
    let status ← skipGap si host rounds imageOffset
    modify fun g => { g with lastLoadedSegmentEndOffset := imageOffset + imageDataSize }
    pure status
  else pure .success

/-- The variables of the loop of `boot_sahara_receive_data`. -/
structure Transfer where
  imageOffset : UInt32
  imageTransferSizeLeft : UInt32
  imageDataSizeMax : UInt32
  imageDest : Ptr
  imageDataReceivedPerChunk : UInt32
  deriving DecidableEq, Repr

namespace Transfer

/-- `image_transfer_size`. -/
def size (t : Transfer) : UInt32 :=
  if t.imageTransferSizeLeft > si.maxRawDataSize then si.maxRawDataSize
  else t.imageTransferSizeLeft

/-- The parameters for the next transfer. -/
def advance (t : Transfer) (n : UInt32) : Transfer where
  imageOffset := t.imageOffset + n
  imageTransferSizeLeft := t.imageTransferSizeLeft - n
  imageDataSizeMax := t.imageDataSizeMax - n
  imageDest := t.imageDest.add n
  imageDataReceivedPerChunk := t.imageDataReceivedPerChunk + n

end Transfer

/-- Notes down the bytes of a chunk. -/
def noteReceived (n : UInt32) (g : Globals) : Globals :=
  { g with segmentReceived := g.segmentReceived ++ (List.range n.toNat).map g.rxData }

/-- Leaves the chunk to be hashed later. -/
def setupParallelHash (imageDest : Ptr) (imageTransferSize : UInt32) (g : Globals) : Globals :=
  if g.authElf ∧ g.parallelInit then
    { g with parallelHash := true, parallelBuf := imageDest, parallelSize := imageTransferSize }
  else g

/-- The second half of a round: the chunk of the given size is received. Only in the optimised way
of loading may it be shorter. -/
def receiveChunk (t : Transfer) (size : UInt32) : Code (Transfer ⊕ Status) := do
  let got ← handleRx si host t.imageDest size t.imageDataSizeMax
  if got.2 ≠ 0 then pure (.inr (rxStatus got.2))
  else if got.1 ≠ size ∧ ¬ (si.elfOptimizedSegmentLoad = true ∧ got.1 < size) then
    pure (.inr .invalidDataSize)
  else do
    log (.received t.imageDest got.1)
    modify (noteReceived got.1)
    modify (setupParallelHash t.imageDest got.1)
    pure (.inl (t.advance got.1))

/-- READ_DATA is due: what it last asked for has been received. -/
def RequestDue (t : Transfer) (g : Globals) : Prop :=
  ¬ SegmentLoad si g ∧ t.imageDataReceivedPerChunk = si.maxRawDataSize

instance (t : Transfer) (g : Globals) : Decidable (RequestDue si t g) :=
  inferInstanceAs (Decidable (_ ∧ _))

/-- One round of the loop. -/
def receiveRound (t : Transfer) : Code (Transfer ⊕ Status) :=
  if t.imageTransferSizeLeft = 0 then pure (.inr .success)
  else do
    let g ← Program.get
    let size := t.size si
    let t' := if RequestDue si t g then { t with imageDataReceivedPerChunk := 0 } else t
    when (RequestDue si t g) (handleReadData si host si.expectedImage t.imageOffset size)
    let g ← Program.get
    if g.saharaState ≠ .waitReset then receiveChunk si host t' size
    else pure (.inr .readDataError)

/-- `boot_sahara_receive_data`, for at most `rounds` receptions. -/
def receiveData (rounds : Nat) (imageOffset imageDataSize imageDataSizeMax : UInt32)
    (imageDest : Ptr) : Code Status :=
  if imageDataSizeMax ≥ imageDataSize then do
    let status ← skipDataInOptmizeLoad si host rounds imageOffset imageDataSize
    if status = .success then
      Program.iter (receiveRound si host) rounds
        ⟨imageOffset, imageDataSize, imageDataSizeMax, imageDest, si.maxRawDataSize⟩
    else pure status
  else pure .invalidDataSize

end Code

/-! ## Requests and what was stored -/

/-- The request that an event is: for which image, from where on, how long. -/
def Event.readRequest : Event → Option (UInt32 × UInt32 × UInt32)
  | .tx (.readData imageId dataOffset dataLength) _ _ => some (imageId, dataOffset, dataLength)
  | _ => none

/-- The chunk that an event has stored. -/
def Event.storedChunk : Event → Option (Ptr × UInt32)
  | .received dst length => some (dst, length)
  | _ => none

/-- The report of an error to the host. -/
def Event.IsReport : Event → Prop
  | .tx (.endImageTx _ _) _ _ => True
  | _ => False

/-- The READ_DATA requests among events. -/
def readRequests (evs : List Event) : List (UInt32 × UInt32 × UInt32) :=
  evs.filterMap Event.readRequest

/-- The chunks stored among events. -/
def storedChunks (evs : List Event) : List (Ptr × UInt32) := evs.filterMap Event.storedChunk

/-- How many bytes were asked for. -/
def requestedBytes (evs : List Event) : Nat := ((readRequests evs).map (·.2.2.toNat)).sum

/-- How many bytes were stored. -/
def storedBytes (evs : List Event) : Nat := ((storedChunks evs).map (·.2.toNat)).sum

/-- The host never delivers more than it has been asked for. -/
def Backed (evs : List Event) : Prop := ∀ n, storedBytes (evs.take n) ≤ requestedBytes (evs.take n)

/-- The request for a span of a part of the image, `offset` being where the part begins. -/
def requestOf (si : Interface) (offset : UInt32) (s : Span) : UInt32 × UInt32 × UInt32 :=
  (si.expectedImage, offset + .ofNat s.base, .ofNat s.len)

/-- The chunk that stores a span of a part whose destination is `dest`. -/
def chunkOf (dest : Ptr) (s : Span) : Ptr × UInt32 :=
  (⟨dest.buffer, dest.offset + .ofNat s.base⟩, .ofNat s.len)

/-- The requests are for the first `n` bytes of the part, piece after piece. -/
def Requests (si : Interface) (offset : UInt32) (n : Nat) (evs : List Event) : Prop :=
  ∃ ss, Span.Chain 0 ss n ∧ readRequests evs = ss.map (requestOf si offset)

/-- The first `n` bytes of the part have been stored, chunk after chunk. -/
def Stores (dest : Ptr) (n : Nat) (evs : List Event) : Prop :=
  ∃ ss, Span.Chain 0 ss n ∧ storedChunks evs = ss.map (chunkOf dest)

/-- A READ_DATA that was not transmitted in full. -/
def Event.FailedRequest : Event → Prop
  | .tx (.readData _ _ _) length a => ¬ a.Full length
  | _ => False

/-- Every READ_DATA was transmitted in full. -/
def AllSent (evs : List Event) : Prop := ∀ e ∈ evs, ¬ e.FailedRequest

/-- Nothing is asked for or received once a READ_DATA has not been transmitted in full: only error
reports follow it. -/
def StopsAtFailure (evs : List Event) : Prop :=
  ∀ pre e post, evs = pre ++ e :: post → e.FailedRequest → ∀ e' ∈ post, e'.IsReport

/-- Neither a request nor a stored chunk. -/
def Event.IsQuiet (e : Event) : Prop := e.readRequest = none ∧ e.storedChunk = none

theorem Event.IsQuiet.not_failed {e : Event} (h : e.IsQuiet) : ¬ e.FailedRequest := by
  intro hfailed
  obtain ⟨hreq, -⟩ := h
  cases e with
  | tx buf length a => cases buf <;> first | exact hfailed | cases hreq
  | _ => exact hfailed

theorem Event.IsReport.isQuiet {e : Event} (h : e.IsReport) : e.IsQuiet := by
  cases e with
  | tx buf length a => cases buf <;> first | exact ⟨rfl, rfl⟩ | cases h
  | _ => cases h

section
variable {evs evs' : List Event}

theorem readRequests_append : readRequests (evs ++ evs') = readRequests evs ++ readRequests evs' :=
  filterMap_append

theorem storedChunks_append : storedChunks (evs ++ evs') = storedChunks evs ++ storedChunks evs' :=
  filterMap_append

theorem requestedBytes_append :
    requestedBytes (evs ++ evs') = requestedBytes evs + requestedBytes evs' := by
  simp only [requestedBytes, readRequests_append, map_append, sum_append]

theorem storedBytes_append : storedBytes (evs ++ evs') = storedBytes evs + storedBytes evs' := by
  simp only [storedBytes, storedChunks_append, map_append, sum_append]

theorem readRequests_quiet (h : ∀ e ∈ evs, e.IsQuiet) : readRequests evs = [] :=
  filterMap_eq_nil_iff.mpr fun e he => (h e he).1

theorem storedChunks_quiet (h : ∀ e ∈ evs, e.IsQuiet) : storedChunks evs = [] :=
  filterMap_eq_nil_iff.mpr fun e he => (h e he).2

/-- What the host was asked for before is at least what it had delivered by then. -/
theorem Backed.of_append (h : Backed (evs ++ evs')) : Backed evs := by
  intro n
  have := h (min n evs.length)
  rw [take_append_of_le_length (Nat.min_le_right ..)] at this
  rwa [take_eq_take_min]

/-- No more is stored than was requested. -/
theorem Backed.le (h : Backed evs) : storedBytes evs ≤ requestedBytes evs := by
  have := h evs.length
  rwa [List.take_length] at this

theorem AllSent.append (h : AllSent evs) (h' : AllSent evs') : AllSent (evs ++ evs') :=
  fun e he => (mem_append.mp he).elim (h e) (h' e)

theorem allSent_quiet (h : ∀ e ∈ evs, e.IsQuiet) : AllSent evs := fun e he => (h e he).not_failed

/-- With every request sent there is nothing to stop for. -/
theorem AllSent.stopsAtFailure (h : AllSent evs) : StopsAtFailure evs := by
  rintro pre e post rfl hfailed
  exact absurd hfailed (h e (mem_append_right _ mem_cons_self))

/-- A failed request with nothing but error reports after it. -/
theorem AllSent.stops {e : Event} {reports : List Event} (h : AllSent evs)
    (hreports : ∀ e ∈ reports, e.IsReport) : StopsAtFailure (evs ++ e :: reports) := by
  intro pre f post heq hfailed f' hf'
  rcases append_eq_append_iff.mp heq with ⟨mid, rfl, hmid⟩ | ⟨mid, rfl, hmid⟩
  · cases mid with
    | nil =>
      obtain ⟨rfl, rfl⟩ := List.cons.inj hmid
      exact hreports f' hf'
    | cons m mid =>
      obtain ⟨rfl, rfl⟩ := List.cons.inj hmid
      exact hreports f' (mem_append_right _ (mem_cons_of_mem _ hf'))
  · cases mid with
    | nil =>
      obtain ⟨rfl, rfl⟩ := List.cons.inj hmid
      exact hreports f' hf'
    | cons m mid =>
      obtain ⟨rfl, rfl⟩ := List.cons.inj hmid
      exact absurd hfailed (h f (mem_append_right _ mem_cons_self))

end

/-! ## One more request, one more chunk -/

section
variable {si : Interface} {offset : UInt32} {dest : Ptr} {n : Nat} {evs hs : List Event}

theorem chain_snoc {ss : List Span} (h : Span.Chain 0 ss n) (len : Nat) :
    Span.Chain 0 (ss ++ [⟨n, len⟩]) (n + len) :=
  Span.chain_append.mpr ⟨n, h, rfl, rfl⟩

/-- A request begins where the one before ends. -/
theorem Requests.request (h : Requests si offset n evs) {off len : UInt32} {a : TxAnswer}
    (hoff : off = offset + .ofNat n) :
    Requests si offset (n + len.toNat)
      (evs ++ [.tx (.readData si.expectedImage off len) sizeofReadData a]) := by
  obtain ⟨ss, hchain, hreq⟩ := h
  refine ⟨ss ++ [⟨n, len.toNat⟩], chain_snoc hchain _, ?_⟩
  rw [readRequests_append, hreq, map_append, hoff]
  simp [readRequests, Event.readRequest, requestOf]

theorem Requests.append (h : Requests si offset n evs) (hs' : readRequests hs = []) :
    Requests si offset n (evs ++ hs) := by
  obtain ⟨ss, hchain, hreq⟩ := h
  exact ⟨ss, hchain, by rw [readRequests_append, hs', append_nil, hreq]⟩

/-- A chunk goes behind the one before. -/
theorem Stores.chunk (h : Stores dest n evs) {dst : Ptr} {len : UInt32}
    (hdst : dst = ⟨dest.buffer, dest.offset + .ofNat n⟩) :
    Stores dest (n + len.toNat) (evs ++ [.received dst len]) := by
  obtain ⟨ss, hchain, hstored⟩ := h
  refine ⟨ss ++ [⟨n, len.toNat⟩], chain_snoc hchain _, ?_⟩
  rw [storedChunks_append, hstored, map_append, hdst]
  simp [storedChunks, Event.storedChunk, chunkOf]

theorem Stores.append (h : Stores dest n evs) (hs' : storedChunks hs = []) :
    Stores dest n (evs ++ hs) := by
  obtain ⟨ss, hchain, hstored⟩ := h
  exact ⟨ss, hchain, by rw [storedChunks_append, hs', append_nil, hstored]⟩

end

/-! ## What READ_DATA and a reception add to the trace -/

/-- The events of a run, oldest first. -/
def Since (g s : Globals) (evs : List Event) : Prop := s.trace = evs.reverse ++ g.trace

theorem Since.refl (g : Globals) : Since g g [] := rfl

theorem Since.append {g s u : Globals} {evs hs : List Event} (h : Since g s evs)
    (h' : Since s u hs) : Since g u (evs ++ hs) := by
  rw [Since, h', h, reverse_append, append_assoc]

section
variable (si : Interface) (host : Host) (g : Globals)

theorem sent_since (buf : TxBuf) (length : UInt32) :
    Since g (g.sent host buf length) [.tx buf length (host.tx g.calls)] := rfl

/-- READ_DATA is transmitted in full, or what follows it are error reports and, if the target goes
on at all, it waits for a reset. -/
theorem handleReadData_cases (imageId off len : UInt32) :
    ((host.tx g.calls).Full sizeofReadData ∧
      handleReadData si host imageId off len g =
        .ret () (g.sent host (.readData imageId off len) sizeofReadData)) ∨
    (¬ (host.tx g.calls).Full sizeofReadData ∧ ∃ reports, (∀ e ∈ reports, e.IsReport) ∧
      Since (g.sent host (.readData imageId off len) sizeofReadData)
        (handleReadData si host imageId off len g).state reports ∧
      ∀ u, handleReadData si host imageId off len g = .ret () u → u.saharaState = .waitReset) := by
  let u := g.sent host (.readData imageId off len) sizeofReadData
  let status := txStatus sizeofReadData.toUInt64
    ((host.tx g.calls).bytesWritten, (host.tx g.calls).errCode)
  by_cases hfull : (host.tx g.calls).Full sizeofReadData
  · left
    have hs : status = .success := txStatus_eq_success.mpr ⟨hfull.2.1, by rw [hfull.2.2]⟩
    refine ⟨hfull, ?_⟩
    rw [handleReadData, Program.bind_ret (handleTx_ret host g _ _ hfull.1 hfull.2.1), reportError]
    exact congrFun (when_neg (not_not_intro hs) _) u
  · right
    refine ⟨hfull, ?_⟩
    rcases handleTx_cases host g (.readData imageId off len) sizeofReadData with h | h | ⟨hc, h⟩
    · have hrun : handleReadData si host imageId off len g = .spin u := by
        rw [handleReadData, bind_run, h]
      rw [hrun]
      exact ⟨[], forall_mem_nil _, Since.refl u, by rintro _ ⟨⟩⟩
    · rw [handleReadData, bind_halt h]
      exact ⟨[], forall_mem_nil _, Since.refl u, by rintro _ ⟨⟩⟩
    · have hs : status ≠ .success := by
        intro hs
        obtain ⟨herr, hbytes⟩ := txStatus_eq_success.mp hs
        exact hfull ⟨hc, herr, UInt32.toUInt64_inj.mp hbytes⟩
      have hrun : handleReadData si host imageId off len g = handleEndImageTx si host status u := by
        rw [handleReadData, Program.bind_ret h, reportError]
        exact congrFun (when_pos hs _) u
      have hreport : Since u (u.endSent si host status)
          [.tx (.endImageTx si.expectedImage status) sizeofEndImageTx (host.tx u.calls)] := rfl
      have hall : ∀ e ∈ [Event.tx (.endImageTx si.expectedImage status) sizeofEndImageTx
          (host.tx u.calls)], e.IsReport := by
        intro e he
        obtain rfl := mem_singleton.mp he
        trivial
      rw [hrun]
      rcases handleEndImageTx_cases si host u status with h | ⟨s, h, hs'⟩ | ⟨-, -, h⟩ <;> rw [h]
      · exact ⟨_, hall, hreport, by rintro _ ⟨⟩⟩
      · exact ⟨_, hall, hs'.trans hreport, by rintro _ ⟨⟩⟩
      · rw [if_neg hs]
        refine ⟨_, hall, hreport, ?_⟩
        rintro _ ⟨⟩
        rfl

/-- A reception adds no request and no stored chunk, and does not change what decides on them. -/
structure Listened (s : Globals) : Prop where
  since : ∃ hs, Since g s hs ∧ ∀ e ∈ hs, e.IsQuiet
  startOfSegmentLoad_eq : s.startOfSegmentLoad = g.startOfSegmentLoad
  saharaState_eq : s.saharaState = g.saharaState

theorem Listened.refl : Listened g g := ⟨⟨[], rfl, nofun⟩, rfl, rfl⟩

theorem Listened.trans {g s u : Globals} (h : Listened g s) (h' : Listened s u) : Listened g u := by
  obtain ⟨hs, hsince, hquiet⟩ := h.since
  obtain ⟨hs', hsince', hquiet'⟩ := h'.since
  exact
    { since := ⟨_, hsince.append hsince',
        fun e he => (mem_append.mp he).elim (hquiet e) (hquiet' e)⟩
      startOfSegmentLoad_eq := h'.startOfSegmentLoad_eq.trans h.startOfSegmentLoad_eq
      saharaState_eq := h'.saharaState_eq.trans h.saharaState_eq }

/-- One quiet event. -/
theorem Listened.of_event {s : Globals} {e : Event} (he : e.IsQuiet)
    (htrace : s.trace = e :: g.trace) (hstart : s.startOfSegmentLoad = g.startOfSegmentLoad)
    (hstate : s.saharaState = g.saharaState) : Listened g s :=
  ⟨⟨[e], htrace, fun _ h => mem_singleton.mp h ▸ he⟩, hstart, hstate⟩

theorem listened_heard (dst : Ptr) (length : UInt32) : Listened g (g.heard si host dst length) := by
  obtain ⟨packet, segments, memory, h⟩ := deliver_eq
    { g with calls := g.calls + 1, trace := .rx dst (rxLength si length) :: g.trace } dst
    (rxLength si length) (host.rx g.calls).data
  rw [Globals.heard, h]
  exact .of_event g ⟨rfl, rfl⟩ rfl rfl rfl

theorem listened_hashedPrevious : Listened g (g.hashedPrevious host) := by
  rw [Globals.hashedPrevious]
  split
  · exact .of_event g (e := .updateHash g.parallelBuf g.parallelSize (host.updateHash g.calls))
      ⟨rfl, rfl⟩ (by dsimp only; split <;> rfl) (by dsimp only; split <;> rfl)
      (by dsimp only; split <;> rfl)
  · exact .refl g

theorem listened_consumed (bytesRead : UInt32) : Listened g (g.consumed si bytesRead) := by
  rw [Globals.consumed]
  split
  · exact ⟨⟨[], rfl, nofun⟩, rfl, rfl⟩
  · exact .refl g

/-- A reception asks for nothing. -/
theorem handleRx_listened (dst : Ptr) (length maxLength : UInt32) :
    (handleRx si host dst length maxLength g).Ends (fun _ => Listened g) (Listened g) := by
  have hheard := listened_heard si host g dst length
  have hhashed := hheard.trans (listened_hashedPrevious host _)
  rcases handleRx_cases si host g dst length maxLength with
    ⟨-, h⟩ | ⟨-, -, h⟩ | ⟨-, h⟩ | ⟨-, h⟩ | ⟨-, h⟩ <;> rw [h]
  · exact .refl g
  · exact hheard
  · exact hhashed
  · exact hhashed
  · exact hhashed.trans (listened_consumed si _ _)

end

/-! ## What the loop has done so far -/

/-- Where the loop is once `p` bytes have been stored. -/
structure Transfer.At (offset size : UInt32) (dest : Ptr) (p : Nat) (t : Transfer) : Prop where
  imageOffset_eq : t.imageOffset = offset + .ofNat p
  imageDest_eq : t.imageDest = ⟨dest.buffer, dest.offset + .ofNat p⟩
  left_eq : t.imageTransferSizeLeft.toNat + p = size.toNat

/-- The counter of the loop when `o` bytes are outstanding: they end the chunk that was asked for,
which is shorter than the maximum only if it is the last one. -/
structure Transfer.Counts (maxRaw : UInt32) (o : Nat) (t : Transfer) : Prop where
  le_left : o ≤ t.imageTransferSizeLeft.toNat
  le_max : t.imageDataReceivedPerChunk.toNat + o ≤ maxRaw.toNat
  whole : o < t.imageTransferSizeLeft.toNat →
    t.imageDataReceivedPerChunk.toNat + o = maxRaw.toNat

/-- Receptions are checked to be whole, or the host keeps to what it was asked for. -/
def HostKeeps (si : Interface) (evs : List Event) : Prop :=
  si.elfOptimizedSegmentLoad = false ∨ Backed evs

theorem HostKeeps.of_append {si : Interface} {evs hs : List Event}
    (h : HostKeeps si (evs ++ hs)) : HostKeeps si evs :=
  h.imp id Backed.of_append

/-- What the events of the loop have asked for and stored. -/
structure Moved (si : Interface) (offset size : UInt32) (dest : Ptr) (segmentLoad : Prop)
    (evs : List Event) : Prop where
  stores : Stores dest (storedBytes evs) evs
  stored_le : storedBytes evs ≤ size.toNat
  silent : segmentLoad → readRequests evs = []
  requests : ¬ segmentLoad → HostKeeps si evs →
    Requests si offset (requestedBytes evs) evs ∧
      storedBytes evs ≤ requestedBytes evs ∧ requestedBytes evs ≤ size.toNat

section
variable {si : Interface} {offset size : UInt32} {dest : Ptr} {seg : Prop} {evs hs : List Event}
  {len : UInt32}

theorem storedBytes_quiet (h : ∀ e ∈ evs, e.IsQuiet) : storedBytes evs = 0 := by
  rw [storedBytes, storedChunks_quiet h]
  rfl

theorem requestedBytes_quiet (h : ∀ e ∈ evs, e.IsQuiet) : requestedBytes evs = 0 := by
  rw [requestedBytes, readRequests_quiet h]
  rfl

theorem Moved.nil : Moved si offset size dest seg [] where
  stores := ⟨[], rfl, rfl⟩
  stored_le := Nat.zero_le _
  silent _ := rfl
  requests _ _ := ⟨⟨[], rfl, rfl⟩, Nat.le_refl _, Nat.zero_le _⟩

/-- Events that ask for nothing and store nothing. -/
theorem Moved.quiet (h : Moved si offset size dest seg evs) (hquiet : ∀ e ∈ hs, e.IsQuiet) :
    Moved si offset size dest seg (evs ++ hs) := by
  have hstored : storedBytes (evs ++ hs) = storedBytes evs := by
    rw [storedBytes_append, storedBytes_quiet hquiet, Nat.add_zero]
  have hrequested : requestedBytes (evs ++ hs) = requestedBytes evs := by
    rw [requestedBytes_append, requestedBytes_quiet hquiet, Nat.add_zero]
  exact
    { stores := hstored ▸ h.stores.append (storedChunks_quiet hquiet)
      stored_le := hstored ▸ h.stored_le
      silent := fun hseg => by
        rw [readRequests_append, h.silent hseg, readRequests_quiet hquiet]
        rfl
      requests := fun hseg hkeeps => by
        obtain ⟨hreq, hle, hsize⟩ := h.requests hseg hkeeps.of_append
        rw [hstored, hrequested]
        exact ⟨hreq.append (readRequests_quiet hquiet), hle, hsize⟩ }

/-- A request for what comes next, while nothing is outstanding. -/
theorem Moved.request (h : Moved si offset size dest seg evs) {a : TxAnswer}
    (hseg : ¬ seg) (hnext : HostKeeps si evs → storedBytes evs = requestedBytes evs)
    (hlen : storedBytes evs + len.toNat ≤ size.toNat) {off : UInt32}
    (hoff : off = offset + .ofNat (storedBytes evs)) :
    Moved si offset size dest seg
      (evs ++ [.tx (.readData si.expectedImage off len) sizeofReadData a]) := by
  have hstored : storedBytes (evs ++ [.tx (.readData si.expectedImage off len) sizeofReadData a]) =
      storedBytes evs := storedBytes_append
  have hrequested : requestedBytes
      (evs ++ [.tx (.readData si.expectedImage off len) sizeofReadData a]) =
      requestedBytes evs + len.toNat := by
    rw [requestedBytes_append]
    simp [requestedBytes, readRequests, Event.readRequest]
  exact
    { stores := hstored ▸ h.stores.append rfl
      stored_le := hstored ▸ h.stored_le
      silent := fun hs => absurd hs hseg
      requests := fun hseg hkeeps => by
        obtain ⟨hreq, hle, hsize⟩ := h.requests hseg hkeeps.of_append
        have hnext := hnext hkeeps.of_append
        rw [hstored, hrequested]
        exact ⟨hreq.request (hnext ▸ hoff), by omega, by omega⟩ }

/-- A chunk that is stored where the last one ended. -/
theorem Moved.chunk (h : Moved si offset size dest seg evs) {dst : Ptr}
    (hlen : storedBytes evs + len.toNat ≤ size.toNat)
    (hdst : dst = ⟨dest.buffer, dest.offset + .ofNat (storedBytes evs)⟩)
    (hout : ¬ seg → HostKeeps si (evs ++ [.received dst len]) →
      storedBytes evs + len.toNat ≤ requestedBytes evs) :
    Moved si offset size dest seg (evs ++ [.received dst len]) := by
  have hstored : storedBytes (evs ++ [.received dst len]) = storedBytes evs + len.toNat := by
    rw [storedBytes_append]
    simp [storedBytes, storedChunks, Event.storedChunk]
  have hrequested : requestedBytes (evs ++ [.received dst len]) = requestedBytes evs :=
    requestedBytes_append
  exact
    { stores := hstored ▸ h.stores.chunk hdst
      stored_le := hstored ▸ hlen
      silent := fun hseg => by
        rw [readRequests_append, h.silent hseg]
        rfl
      requests := fun hseg hkeeps => by
        obtain ⟨hreq, -, hsize⟩ := h.requests hseg hkeeps.of_append
        rw [hstored, hrequested]
        exact ⟨hreq.append rfl, hout hseg hkeeps, hsize⟩ }

end

/-! ## One round -/

@[simp] theorem setupParallelHash_trace (dst : Ptr) (n : UInt32) (g : Globals) :
    (setupParallelHash dst n g).trace = g.trace := by
  rw [setupParallelHash]
  split <;> rfl

@[simp] theorem setupParallelHash_startOfSegmentLoad (dst : Ptr) (n : UInt32) (g : Globals) :
    (setupParallelHash dst n g).startOfSegmentLoad = g.startOfSegmentLoad := by
  rw [setupParallelHash]
  split <;> rfl

section
variable (si : Interface) (offset size : UInt32) (dest : Ptr) (g : Globals)

/-- The events `evs` so far have brought the loop to `t` and the state to `s`. -/
structure Going (t : Transfer) (s : Globals) (evs : List Event) : Prop where
  since : Since g s evs
  sent : AllSent evs
  moved : Moved si offset size dest (SegmentLoad si g) evs
  start_eq : s.startOfSegmentLoad = g.startOfSegmentLoad
  place : t.At offset size dest (storedBytes evs)

/-- What is outstanding when a round begins. -/
def HeadCounts (t : Transfer) (evs : List Event) : Prop :=
  ¬ SegmentLoad si g → HostKeeps si evs →
    t.Counts si.maxRawDataSize (requestedBytes evs - storedBytes evs) ∧
      (si.elfOptimizedSegmentLoad = false → requestedBytes evs = storedBytes evs)

/-- What is outstanding when a chunk of `n` bytes is about to be received. -/
def ChunkCounts (n : UInt32) (t : Transfer) (evs : List Event) : Prop :=
  ¬ SegmentLoad si g → HostKeeps si evs →
    t.Counts si.maxRawDataSize (requestedBytes evs - storedBytes evs) ∧
      (si.elfOptimizedSegmentLoad = false → requestedBytes evs = storedBytes evs + n.toNat)

/-- What has been done when the function returns. -/
def Returned (status : Status) (s : Globals) : Prop :=
  ∃ evs, Since g s evs ∧ StopsAtFailure evs ∧ (AllSent evs ∨ status = .readDataError) ∧
    Moved si offset size dest (SegmentLoad si g) evs ∧
    (status = .success → storedBytes evs = size.toNat)

/-- What has been done when the function stops for good. -/
def Stopped (s : Globals) : Prop :=
  ∃ evs, Since g s evs ∧ StopsAtFailure evs ∧ Moved si offset size dest (SegmentLoad si g) evs

/-- What a round leaves behind. -/
def RoundEnds (r : Transfer ⊕ Status) (s : Globals) : Prop :=
  match r with
  | .inl t => ∃ evs, Going si offset size dest g t s evs ∧ HeadCounts si g t evs
  | .inr status => Returned si offset size dest g status s

end

section
variable {si : Interface} {host : Host} {offset size : UInt32} {dest : Ptr} {g s u : Globals}
  {t : Transfer} {evs : List Event} {maxRaw : UInt32}

/-- A reception does not move the loop. -/
theorem Going.listened (h : Going si offset size dest g t s evs) (hl : Listened s u) :
    ∃ hs, (∀ e ∈ hs, e.IsQuiet) ∧ Going si offset size dest g t u (evs ++ hs) := by
  obtain ⟨hs, hsince, hquiet⟩ := hl.since
  refine ⟨hs, hquiet, ?_⟩
  exact
    { since := h.since.append hsince
      sent := h.sent.append (allSent_quiet hquiet)
      moved := h.moved.quiet hquiet
      start_eq := hl.startOfSegmentLoad_eq.trans h.start_eq
      place := by
        rw [storedBytes_append, storedBytes_quiet hquiet]
        exact h.place }

theorem Going.stopped (h : Going si offset size dest g t s evs) : Stopped si offset size dest g s :=
  ⟨evs, h.since, h.sent.stopsAtFailure, h.moved⟩

/-- Returning an error between two receptions. -/
theorem Going.returned (h : Going si offset size dest g t s evs) {status : Status}
    (herr : status ≠ .success) : Returned si offset size dest g status s :=
  ⟨evs, h.since, h.sent.stopsAtFailure, .inl h.sent, h.moved, fun hs => absurd hs herr⟩

theorem rxStatus_ne_success (errCode : BulkError) : rxStatus errCode ≠ .success := by
  rw [rxStatus]
  split <;> decide

/-- The loop moves on by what was stored. -/
theorem Transfer.At.advance {p : Nat} (h : t.At offset size dest p) {n : UInt32}
    (hn : n.toNat ≤ t.imageTransferSizeLeft.toNat) :
    (t.advance n).At offset size dest (p + n.toNat) where
  imageOffset_eq := by
    show t.imageOffset + n = _
    rw [h.imageOffset_eq, UInt32.ofNat_add, UInt32.ofNat_toNat]
    exact UInt32.add_assoc ..
  imageDest_eq := by
    show t.imageDest.add n = _
    rw [h.imageDest_eq, UInt64.ofNat_add]
    have hcast : n.toUInt64 = UInt64.ofNat n.toNat := by simp
    rw [Ptr.add, hcast]
    dsimp only
    rw [UInt64.add_assoc]
  left_eq := by
    show (t.imageTransferSizeLeft - n).toNat + _ = _
    rw [UInt32.toNat_sub_of_le _ _ (UInt32.le_iff_toNat_le.mpr hn)]
    have := h.left_eq
    omega

/-- What is outstanding gets less by what was stored. -/
theorem Transfer.Counts.advance {o : Nat} (h : t.Counts maxRaw o) {n : UInt32}
    (hn : n.toNat ≤ o) : (t.advance n).Counts maxRaw (o - n.toNat) := by
  have hleft := h.le_left
  have hmax := h.le_max
  have hmaxlt := maxRaw.toNat_lt
  have hsub : (t.advance n).imageTransferSizeLeft.toNat =
      t.imageTransferSizeLeft.toNat - n.toNat :=
    UInt32.toNat_sub_of_le _ _ (UInt32.le_iff_toNat_le.mpr (by omega))
  have hadd : (t.advance n).imageDataReceivedPerChunk.toNat =
      t.imageDataReceivedPerChunk.toNat + n.toNat := by
    show (_ + _ : UInt32).toNat = _
    rw [UInt32.toNat_add]
    exact Nat.mod_eq_of_lt (by omega)
  have hwhole := h.whole
  exact ⟨by omega, by omega, by omega⟩

/-- **The reception of a chunk.** It is stored where the last one ended, or the loop ends. -/
theorem receiveChunk_ends (h : Going si offset size dest g t s evs) {n : UInt32}
    (hcounts : ChunkCounts si g n t evs) (hn : n.toNat ≤ t.imageTransferSizeLeft.toNat) :
    (receiveChunk si host t n s).Ends (RoundEnds si offset size dest g)
      (Stopped si offset size dest g) := by
  have hrx := handleRx_listened si host s t.imageDest n t.imageDataSizeMax
  rw [receiveChunk, bind_run]
  cases hrun : handleRx si host t.imageDest n t.imageDataSizeMax s with
  | halt v | spin v =>
    rw [hrun] at hrx
    obtain ⟨hs, -, hgoing⟩ := h.listened hrx
    exact hgoing.stopped
  | ret got v =>
    rw [hrun] at hrx
    obtain ⟨hs, hquiet, hgoing⟩ := h.listened hrx
    dsimp only
    split
    · exact hgoing.returned (rxStatus_ne_success _)
    split
    · exact hgoing.returned (by decide)
    next hsize =>
    have hgot : got.1.toNat ≤ n.toNat := by
      by_cases heq : got.1 = n
      · exact Nat.le_of_eq (congrArg UInt32.toNat heq)
      · have hlt := (Classical.not_not.mp fun hn => hsize ⟨heq, hn⟩).2
        exact Nat.le_of_lt hlt
    have hstored : storedBytes (evs ++ hs) = storedBytes evs := by
      rw [storedBytes_append, storedBytes_quiet hquiet, Nat.add_zero]
    have hrequested : requestedBytes (evs ++ hs) = requestedBytes evs := by
      rw [requestedBytes_append, requestedBytes_quiet hquiet, Nat.add_zero]
    have hplace := hgoing.place
    have hleft := hplace.left_eq
    let evs' := evs ++ hs ++ [.received t.imageDest got.1]
    have hstored' : storedBytes evs' = storedBytes evs + got.1.toNat := by
      rw [storedBytes_append, hstored]
      simp [storedBytes, storedChunks, Event.storedChunk]
    have hrequested' : requestedBytes evs' = requestedBytes evs := by
      rw [requestedBytes_append, hrequested]
      rfl
    -- what the host has delivered with this chunk it had been asked for
    have hout : ¬ SegmentLoad si g → HostKeeps si evs' →
        storedBytes evs + got.1.toNat ≤ requestedBytes evs := by
      intro hseg hkeeps
      obtain ⟨-, hexact⟩ := hcounts hseg hkeeps.of_append.of_append
      rcases hkeeps with hopt | hbacked
      · have := hexact hopt
        omega
      · have := hbacked.le
        rwa [hstored', hrequested'] at this
    refine ⟨evs', ⟨?_, ?_, ?_, ?_, ?_⟩, fun hseg hkeeps => ?_⟩
    · rw [Since, setupParallelHash_trace]
      show _ :: v.trace = _
      rw [hgoing.since]
      simp [evs']
    · refine hgoing.sent.append fun e he => ?_
      obtain rfl := mem_singleton.mp he
      exact id
    · refine hgoing.moved.chunk (by omega) hplace.imageDest_eq fun hseg hkeeps => ?_
      rw [hstored, hrequested]
      exact hout hseg hkeeps
    · rw [setupParallelHash_startOfSegmentLoad]
      exact hgoing.start_eq
    · rw [hstored', ← hstored]
      exact hplace.advance (by omega)
    · obtain ⟨hcount, hexact⟩ := hcounts hseg hkeeps.of_append.of_append
      have hle := hout hseg hkeeps
      rw [hstored', hrequested', ← Nat.sub_sub]
      refine ⟨hcount.advance (by omega), fun hopt => ?_⟩
      have := hexact hopt
      have heq : got.1 = n := Classical.byContradiction fun hne =>
        hsize ⟨hne, fun hshort => by rw [hopt] at hshort; exact absurd hshort.1 (by decide)⟩
      rw [heq]
      omega

/-- The size of a chunk is not truncated. -/
theorem Transfer.size_toNat (si : Interface) (t : Transfer) :
    (t.size si).toNat = min t.imageTransferSizeLeft.toNat si.maxRawDataSize.toNat := by
  rw [Transfer.size]
  split
  · next h =>
    have : si.maxRawDataSize.toNat < t.imageTransferSizeLeft.toNat := h
    omega
  · next h =>
    have : ¬ si.maxRawDataSize.toNat < t.imageTransferSizeLeft.toNat := h
    omega

/-- The counter has reached the maximum exactly when nothing is outstanding, as long as something
is left. -/
theorem Transfer.Counts.due_iff {o : Nat} (h : t.Counts maxRaw o)
    (hleft : t.imageTransferSizeLeft ≠ 0) : t.imageDataReceivedPerChunk = maxRaw ↔ o = 0 := by
  have hle := h.le_max
  have hwhole := h.whole
  have hpos : t.imageTransferSizeLeft.toNat ≠ 0 := fun h0 => hleft (UInt32.toNat.inj h0)
  rw [← UInt32.toNat_inj]
  omega

/-- READ_DATA is due: nothing is outstanding. -/
theorem Going.nothing_outstanding (h : Going si offset size dest g t s evs)
    (hcounts : HeadCounts si g t evs) (hleft : t.imageTransferSizeLeft ≠ 0)
    (hdue : RequestDue si t s) :
    ¬ SegmentLoad si g ∧ (HostKeeps si evs → storedBytes evs = requestedBytes evs) := by
  have hseg : ¬ SegmentLoad si g := by
    have hs := hdue.1
    simp only [SegmentLoad, h.start_eq] at hs
    exact hs
  refine ⟨hseg, fun hkeeps => ?_⟩
  obtain ⟨hcount, -⟩ := hcounts hseg hkeeps
  have hzero := (hcount.due_iff hleft).mp hdue.2
  have := (h.moved.requests hseg hkeeps).2.1
  omega

/-- READ_DATA asks for what comes next, however its transmission goes. -/
theorem Going.moved_request (h : Going si offset size dest g t s evs)
    (hcounts : HeadCounts si g t evs) (hleft : t.imageTransferSizeLeft ≠ 0)
    (hdue : RequestDue si t s) (a : TxAnswer) :
    Moved si offset size dest (SegmentLoad si g) (evs ++
      [.tx (.readData si.expectedImage t.imageOffset (t.size si)) sizeofReadData a]) := by
  obtain ⟨hseg, hnext⟩ := h.nothing_outstanding hcounts hleft hdue
  have hsize := t.size_toNat si
  have hplaceLeft := h.place.left_eq
  exact h.moved.request hseg hnext (by omega) h.place.imageOffset_eq

/-- A request that has been transmitted in full. -/
theorem Going.requested (h : Going si offset size dest g t s evs) (hcounts : HeadCounts si g t evs)
    (hleft : t.imageTransferSizeLeft ≠ 0) (hdue : RequestDue si t s)
    (hfull : (host.tx s.calls).Full sizeofReadData) :
    let evs' := evs ++
      [.tx (.readData si.expectedImage t.imageOffset (t.size si)) sizeofReadData (host.tx s.calls)]
    Going si offset size dest g { t with imageDataReceivedPerChunk := 0 }
        (s.sent host (.readData si.expectedImage t.imageOffset (t.size si)) sizeofReadData) evs' ∧
      ChunkCounts si g (t.size si) { t with imageDataReceivedPerChunk := 0 } evs' := by
  intro evs'
  have hsize := t.size_toNat si
  have hstored : storedBytes evs' = storedBytes evs := storedBytes_append
  have hrequested : requestedBytes evs' = requestedBytes evs + (t.size si).toNat := by
    rw [requestedBytes_append]
    simp [requestedBytes, readRequests, Event.readRequest]
  obtain ⟨hseg, hnext⟩ := h.nothing_outstanding hcounts hleft hdue
  refine ⟨⟨?_, ?_, ?_, h.start_eq, ?_⟩, fun _ hkeeps => ?_⟩
  · exact h.since.append (sent_since host s _ _)
  · refine h.sent.append fun e he => ?_
    obtain rfl := mem_singleton.mp he
    exact not_not_intro hfull
  · exact h.moved_request hcounts hleft hdue _
  · rw [hstored]
    exact ⟨h.place.imageOffset_eq, h.place.imageDest_eq, h.place.left_eq⟩
  · have hnext := hnext hkeeps.of_append
    rw [hstored, hrequested]
    refine ⟨⟨?_, ?_, ?_⟩, fun _ => by omega⟩ <;> dsimp only
    · omega
    · rw [UInt32.toNat_zero]
      omega
    · rw [UInt32.toNat_zero]
      omega

/-- **One round** moves the loop on, or ends it. -/
theorem receiveRound_ends (h : Going si offset size dest g t s evs)
    (hcounts : HeadCounts si g t evs) :
    (receiveRound si host t s).Ends (RoundEnds si offset size dest g)
      (Stopped si offset size dest g) := by
  rw [receiveRound]
  by_cases hleft : t.imageTransferSizeLeft = 0
  · rw [if_pos hleft]
    refine ⟨evs, h.since, h.sent.stopsAtFailure, .inl h.sent, h.moved, fun _ => ?_⟩
    have := h.place.left_eq
    rw [hleft] at this
    exact (Nat.zero_add _).symm.trans this
  have hsize : (t.size si).toNat ≤ t.imageTransferSizeLeft.toNat := by
    rw [t.size_toNat]
    exact Nat.min_le_left ..
  rw [if_neg hleft, get_bind]
  by_cases hdue : RequestDue si t s
  · rw [if_pos hdue, when_pos hdue]
    rcases handleReadData_cases si host s si.expectedImage t.imageOffset (t.size si) with
      ⟨hfull, hrun⟩ | ⟨hfull, reports, hreports, hsince, hreset⟩
    · obtain ⟨hgoing, hchunk⟩ := h.requested hcounts hleft hdue hfull
      rw [Program.bind_ret hrun, get_bind]
      split
      · exact receiveChunk_ends hgoing hchunk hsize
      · exact hgoing.returned (by decide)
    · -- the request has failed: only reports follow
      have hmoved := h.moved_request hcounts hleft hdue (host.tx s.calls)
      have hquiet : ∀ e ∈ reports, e.IsQuiet := fun e he => (hreports e he).isQuiet
      have hend : ∀ v, Since (s.sent host (.readData si.expectedImage t.imageOffset (t.size si))
          sizeofReadData) v reports → ∃ evs', Since g v evs' ∧ StopsAtFailure evs' ∧
            Moved si offset size dest (SegmentLoad si g) evs' := fun v hv =>
        ⟨_, (h.since.append (sent_since host s _ _)).append hv,
          by rw [append_assoc]; exact h.sent.stops hreports, hmoved.quiet hquiet⟩
      rw [bind_run]
      cases hrun : handleReadData si host si.expectedImage t.imageOffset (t.size si) s with
      | halt v | spin v =>
        rw [hrun] at hsince
        exact hend v hsince
      | ret a v =>
        rw [hrun] at hsince
        obtain ⟨evs', hevs', hstops, hmoved'⟩ := hend v hsince
        have hwait := hreset v hrun
        dsimp only
        rw [get_bind, if_neg (not_not_intro hwait)]
        exact ⟨evs', hevs', hstops, .inr rfl, hmoved', fun h => absurd h (by decide)⟩
  · rw [if_neg hdue, when_neg hdue, pure_bind, get_bind]
    split
    · refine receiveChunk_ends h (fun hseg hkeeps => ?_) hsize
      obtain ⟨hcount, hexact⟩ := hcounts hseg hkeeps
      refine ⟨hcount, fun hopt => ?_⟩
      have hmax : t.imageDataReceivedPerChunk = si.maxRawDataSize :=
        (hcount.due_iff hleft).mpr (by rw [hexact hopt, Nat.sub_self])
      refine absurd ⟨?_, hmax⟩ hdue
      simp only [SegmentLoad, h.start_eq]
      exact hseg
    · exact h.returned (by decide)

end

/-! ## The whole function -/

section
variable (si : Interface) (host : Host) (offset size sizeMax : UInt32) (dest : Ptr) (g : Globals)

theorem handleRx_keeps_listened (dst : Ptr) (length maxLength : UInt32) :
    Program.Keeps (Listened g) (handleRx si host dst length maxLength) where
  run s hs := by
    have h := handleRx_listened si host s dst length maxLength
    cases hrun : handleRx si host dst length maxLength s <;> rw [hrun] at h <;> exact hs.trans h

/-- Skipping asks for nothing and stores nothing. -/
theorem skip_listened (rounds : Nat) :
    (skipDataInOptmizeLoad si host rounds offset size g).Ends (fun _ => Listened g)
      (Listened g) := by
  have hround : ∀ left, Program.Keeps (Listened g) (skipRound si host left) := by
    intro left
    refine .ite (fun _ => .pure fun _ h => h) fun _ => ?_
    refine .bind (handleRx_keeps_listened si host g _ _ _) fun got => ?_
    refine .ite (fun _ => .pure fun _ h => h) fun _ => ?_
    exact .ite (fun _ => .pure fun _ h => h) fun _ => .pure fun _ h => h
  have hgap : Program.Keeps (Listened g) (skipGap si host rounds offset) := by
    refine .bind (Q := fun _ => Listened g) (.get fun _ h => h) fun u => ?_
    exact .ite (fun _ => Program.Keeps.iter hround _ _) fun _ => .pure fun _ h => h
  have hskip : Program.Keeps (Listened g) (do
      let status ← skipGap si host rounds offset
      modify fun g => { g with lastLoadedSegmentEndOffset := offset + size }
      pure status : Code Status) := by
    refine .bind hgap fun status => ?_
    refine .bind (Q := fun _ => Listened g) (.modify fun s h => ?_) fun _ => .pure fun _ h => h
    exact h.trans ⟨⟨[], rfl, nofun⟩, rfl, rfl⟩
  rw [skipDataInOptmizeLoad, get_bind]
  split
  · exact hskip.run g (.refl g)
  · exact .refl g

/-- **What `boot_sahara_receive_data` has asked for and stored**, however it ends. -/
theorem receiveData_ends (rounds : Nat) :
    (receiveData si host rounds offset size sizeMax dest g).Ends
      (Returned si offset size dest g) (Stopped si offset size dest g) := by
  have hnil : ∀ s hs, Since g s hs → (∀ e ∈ hs, e.IsQuiet) → s.startOfSegmentLoad =
      g.startOfSegmentLoad →
      let t : Transfer := ⟨offset, size, sizeMax, dest, si.maxRawDataSize⟩
      Going si offset size dest g t s hs ∧ HeadCounts si g t hs := by
    intro s hs hsince hquiet hstart t
    have hstored := storedBytes_quiet hquiet
    have hrequested := requestedBytes_quiet hquiet
    refine ⟨⟨hsince, allSent_quiet hquiet, ?_, hstart, ?_⟩, fun _ _ => ?_⟩
    · have hmoved : Moved si offset size dest (SegmentLoad si g) ([] ++ hs) :=
        Moved.nil.quiet hquiet
      rwa [nil_append] at hmoved
    · rw [hstored]
      exact ⟨(UInt32.add_zero _).symm, by simp [t], rfl⟩
    · rw [hstored, hrequested]
      exact ⟨⟨Nat.zero_le _, Nat.le_refl _, fun _ => Nat.add_zero _⟩, fun _ => rfl⟩
  rw [receiveData]
  split
  · have hskip := skip_listened si host offset size g rounds
    rw [bind_run]
    cases hrun : skipDataInOptmizeLoad si host rounds offset size g with
    | halt s | spin s =>
      rw [hrun] at hskip
      obtain ⟨hs, hsince, hquiet⟩ := hskip.since
      exact (hnil s hs hsince hquiet hskip.startOfSegmentLoad_eq).1.stopped
    | ret status s =>
      rw [hrun] at hskip
      obtain ⟨hs, hsince, hquiet⟩ := hskip.since
      have hstart := hnil s hs hsince hquiet hskip.startOfSegmentLoad_eq
      dsimp only
      split
      · have hloop : ∀ t, Program.Triple
            (fun s => ∃ evs, Going si offset size dest g t s evs ∧ HeadCounts si g t evs)
            (receiveRound si host t) (RoundEnds si offset size dest g)
            (Stopped si offset size dest g) := by
          intro t
          refine ⟨fun s hs => ?_⟩
          obtain ⟨evs, hgoing, hcounts⟩ := hs
          exact receiveRound_ends hgoing hcounts
        refine (Program.Triple.iter (E := Stopped si offset size dest g)
          (fun t s => ∃ evs, Going si offset size dest g t s evs ∧ HeadCounts si g t evs)
          (fun t => (hloop t).conseq (fun _ h => h) (fun r s h => ?_) fun _ h => h)
          (fun t s hs => ?_) rounds _).run s ⟨hs, hstart⟩
        · cases r <;> exact h
        · obtain ⟨evs, hgoing, -⟩ := hs
          exact hgoing.stopped
      · next hfailed => exact hstart.1.returned hfailed
  · exact (hnil g [] (.refl g) nofun rfl).1.returned (by decide)

end

/-! ## Transfers without an error -/

/-- Data is received in whole chunks, and no transmission or reception reports an error. -/
structure Errorless (si : Interface) (host : Host) : Prop where
  plain : si.elfOptimizedSegmentLoad = false
  authTblValid : si.authTblValid = true
  maxRaw_pos : 0 < si.maxRawDataSize.toNat
  packets : si.maxPacketSize.toNat ∣ si.maxRawDataSize.toNat
  tx (k : Nat) : (host.tx k).Full sizeofReadData
  rx (k : Nat) : (host.rx k).completes = true ∧ (host.rx k).errCode = 0

/-- The calls of the transport and of the hash functions among the events of a part. -/
def callsIn (evs : List Event) : Nat := evs.countP (·.storedChunk.isNone)

/-- Some reception of a run did not bring what it was asked for: the one for the chunk behind the
bytes stored before it, answered as the calls before it count. -/
def WrongCount (si : Interface) (host : Host) (size : UInt32) (g s : Globals) : Prop :=
  ∃ before dst length after, Since g s (before ++ .rx dst length :: after) ∧
    storedBytes before < size.toNat ∧ si.maxRawDataSize.toNat ∣ storedBytes before ∧
    (host.rx (g.calls + callsIn before)).bytesRead.toNat ≠
      min (size.toNat - storedBytes before) si.maxRawDataSize.toNat

/-- The events between two states, with the calls counted. -/
structure Counted (g s : Globals) (evs : List Event) : Prop where
  since : Since g s evs
  calls_eq : s.calls = g.calls + callsIn evs

theorem callsIn_append (evs hs : List Event) : callsIn (evs ++ hs) = callsIn evs + callsIn hs :=
  countP_append

/-- The receptions of two parts add up. -/
theorem Counted.append {g s u : Globals} {evs hs : List Event} (h : Counted g s evs)
    (h' : Counted s u hs) : Counted g u (evs ++ hs) :=
  ⟨h.since.append h'.since, by rw [h'.calls_eq, h.calls_eq, callsIn_append, Nat.add_assoc]⟩

/-- A reception is one call, and the chunk received before is hashed with another one. -/
theorem heard_counted (si : Interface) (host : Host) (g : Globals) (dst : Ptr) (length n : UInt32) :
    ∃ hs, (∀ e ∈ hs, e.IsQuiet) ∧
      Counted g (((g.heard si host dst length).hashedPrevious host).consumed si n)
        (.rx dst (rxLength si length) :: hs) := by
  have hheard : Counted g (g.heard si host dst length) [.rx dst (rxLength si length)] := by
    obtain ⟨packet, segments, memory, h⟩ := deliver_eq
      { g with calls := g.calls + 1, trace := .rx dst (rxLength si length) :: g.trace } dst
      (rxLength si length) (host.rx g.calls).data
    rw [Globals.heard, h]
    exact ⟨rfl, rfl⟩
  have hconsumed : ∀ u : Globals, Counted u (u.consumed si n) [] := by
    intro u
    rw [Globals.consumed]
    split <;> exact ⟨rfl, rfl⟩
  generalize g.heard si host dst length = u at hheard
  have hhashed : ∃ hs, (∀ e ∈ hs, e.IsQuiet) ∧ Counted u (u.hashedPrevious host) hs := by
    rw [Globals.hashedPrevious]
    split
    · refine ⟨[.updateHash u.parallelBuf u.parallelSize (host.updateHash u.calls)],
        fun e he => mem_singleton.mp he ▸ ⟨rfl, rfl⟩, ?_, ?_⟩
      · dsimp only
        split <;> rfl
      · dsimp only
        split <;> rfl
    · exact ⟨[], fun _ he => absurd he not_mem_nil, rfl, rfl⟩
  obtain ⟨hs, hquiet, hhashed⟩ := hhashed
  refine ⟨hs, hquiet, ?_⟩
  have hall := (hheard.append hhashed).append (hconsumed _)
  rwa [append_nil] at hall

section
variable {si : Interface} {host : Host} {size : UInt32}

theorem rxLength_toNat (h : si.elfOptimizedSegmentLoad = false) {length : UInt32}
    (hfits : roundUp length.toNat si.maxPacketSize.toNat < 2 ^ 32) :
    (rxLength si length).toNat = roundUp length.toNat si.maxPacketSize.toNat := by
  have hpos : 0 < si.maxPacketSize.toNat := si.maxPacketSize_pos
  have hlt := Nat.mod_lt length.toNat hpos
  have hmod : (length % si.maxPacketSize).toNat = length.toNat % si.maxPacketSize.toNat :=
    UInt32.toNat_mod ..
  rw [roundUp_eq_add hpos] at hfits ⊢
  rw [rxLength, if_neg (by rw [h]; decide)]
  have hoverIff : length % si.maxPacketSize > 0 ↔ length.toNat % si.maxPacketSize.toNat > 0 := by
    rw [gt_iff_lt, UInt32.lt_iff_toNat_lt, hmod]
    rfl
  by_cases hover : length % si.maxPacketSize > 0
  · have hover' := hoverIff.mp hover
    rw [if_pos hover'] at hfits ⊢
    have hle : length % si.maxPacketSize ≤ si.maxPacketSize :=
      UInt32.le_iff_toNat_le.mpr (by omega)
    rw [if_pos hover, UInt32.toNat_add, UInt32.toNat_sub_of_le _ _ hle, hmod]
    exact Nat.mod_eq_of_lt hfits
  · have hover' := mt hoverIff.mpr hover
    rw [if_neg hover, if_neg hover']

/-- A reception whose buffer has room for whole packets returns what the host answers. -/
theorem Errorless.handleRx (h : Errorless si host) (g : Globals) (dst : Ptr)
    {length maxLength : UInt32}
    (hroom : roundUp length.toNat si.maxPacketSize.toNat ≤ maxLength.toNat) :
    ∃ s hs, Sahara.handleRx si host dst length maxLength g =
      .ret ((host.rx g.calls).bytesRead, 0) s ∧ s.saharaState = g.saharaState ∧
      (∀ e ∈ hs, e.IsQuiet) ∧ Counted g s (.rx dst (rxLength si length) :: hs) := by
  obtain ⟨hc, herr⟩ := h.rx g.calls
  have hpos : 0 < si.maxPacketSize.toNat := si.maxPacketSize_pos
  have hle := le_roundUp hpos (n := length.toNat)
  have hmax := maxLength.toNat_lt
  have hround : (rxLength si length).toNat = roundUp length.toNat si.maxPacketSize.toNat :=
    rxLength_toNat h.plain (by omega)
  have hlistened := handleRx_listened si host g dst length maxLength
  rcases handleRx_cases si host g dst length maxLength with
    ⟨hlong, -⟩ | ⟨hauth, -⟩ | ⟨hspin, -⟩ | ⟨hcable, -⟩ | ⟨-, hrun⟩
  · simp only [gt_iff_lt, UInt32.lt_iff_toNat_lt, hround] at hlong
    omega
  · rw [h.authTblValid] at hauth
    cases hauth
  · rw [hc] at hspin
    cases hspin
  · rw [herr] at hcable
    exact absurd hcable (by decide)
  · rw [hrun] at hlistened
    obtain ⟨hs, hquiet, hcounted⟩ := heard_counted si host g dst length (host.rx g.calls).bytesRead
    exact ⟨_, hs, by rw [hrun, herr], hlistened.saharaState_eq, hquiet, hcounted⟩

/-- A chunk received without an error is stored when the count is right. -/
theorem receiveChunk_ret (h : si.elfOptimizedSegmentLoad = false) {t : Transfer}
    {g s : Globals} {n len : UInt32}
    (hrx : Sahara.handleRx si host t.imageDest len t.imageDataSizeMax g = .ret (n, 0) s) :
    ∃ u, u.saharaState = s.saharaState ∧
      Counted s u (if n = len then [.received t.imageDest len] else []) ∧
      receiveChunk si host t len g =
        .ret (if n = len then .inl (t.advance len) else .inr .invalidDataSize) u := by
  have hrun : receiveChunk si host t len g =
      (if n ≠ len ∧ ¬ (si.elfOptimizedSegmentLoad = true ∧ n < len) then
        pure (.inr .invalidDataSize)
      else do
        log (.received t.imageDest n)
        modify (noteReceived n)
        modify (setupParallelHash t.imageDest n)
        pure (.inl (t.advance n)) : Code (Transfer ⊕ Status)) s := by
    rw [receiveChunk, Program.bind_ret hrx]
    rfl
  rw [hrun]
  by_cases hn : n = len
  · have hok : ¬ (n ≠ len ∧ ¬ (si.elfOptimizedSegmentLoad = true ∧ n < len)) :=
      fun hne => hne.1 hn
    rw [if_neg hok, if_pos hn, if_pos hn, hn]
    refine ⟨_, ?_, ⟨?_, ?_⟩, rfl⟩
    all_goals
      rw [setupParallelHash]
      split <;> rfl
  · have hshort : n ≠ len ∧ ¬ (si.elfOptimizedSegmentLoad = true ∧ n < len) :=
      ⟨hn, fun hopt => by rw [h] at hopt; exact absurd hopt.1 (by decide)⟩
    rw [if_pos hshort, if_neg hn, if_neg hn]
    exact ⟨s, rfl, ⟨rfl, rfl⟩, rfl⟩

/-- One round asks for a chunk and stores it when the count is right. -/
theorem Errorless.round (h : Errorless si host) {t : Transfer} {g : Globals}
    (hleft : t.imageTransferSizeLeft ≠ 0) (hcount : t.imageDataReceivedPerChunk = si.maxRawDataSize)
    (hroom : roundUp (t.size si).toNat si.maxPacketSize.toNat ≤ t.imageDataSizeMax.toNat)
    (hstate : g.saharaState ≠ .waitReset) :
    ∃ s hs, s.saharaState = g.saharaState ∧
      Counted g s (.tx (.readData si.expectedImage t.imageOffset (t.size si)) sizeofReadData
        (host.tx g.calls) :: .rx t.imageDest (rxLength si (t.size si)) :: hs) ∧
      storedBytes hs =
        (if (host.rx (g.calls + 1)).bytesRead = t.size si then (t.size si).toNat else 0) ∧
      receiveRound si host t g =
        .ret (if (host.rx (g.calls + 1)).bytesRead = t.size si then
            .inl (Transfer.advance { t with imageDataReceivedPerChunk := 0 } (t.size si))
          else .inr .invalidDataSize) s := by
  have hdue : RequestDue si t g := by
    refine ⟨fun hseg => ?_, hcount⟩
    rw [SegmentLoad, h.plain] at hseg
    exact absurd hseg.1 (by decide)
  have hread : handleReadData si host si.expectedImage t.imageOffset (t.size si) g =
      .ret () (g.sent host (.readData si.expectedImage t.imageOffset (t.size si))
        sizeofReadData) := by
    rcases handleReadData_cases si host g si.expectedImage t.imageOffset (t.size si) with
      ⟨-, hrun⟩ | ⟨hfull, -⟩
    · exact hrun
    · exact absurd (h.tx _) hfull
  obtain ⟨s, hs, hrx, hsame, hquiet, hheard⟩ := h.handleRx
    (g.sent host (.readData si.expectedImage t.imageOffset (t.size si)) sizeofReadData)
    t.imageDest hroom
  have hround : receiveRound si host t g =
      receiveChunk si host { t with imageDataReceivedPerChunk := 0 } (t.size si)
        (g.sent host (.readData si.expectedImage t.imageOffset (t.size si)) sizeofReadData) := by
    rw [receiveRound, if_neg hleft, get_bind, if_pos hdue, when_pos hdue,
      Program.bind_ret hread, get_bind]
    exact congrFun (if_pos hstate) _
  obtain ⟨u, hu, hstored, hchunk⟩ := receiveChunk_ret h.plain
    (t := { t with imageDataReceivedPerChunk := 0 }) hrx
  have hsent :
      Counted g (g.sent host (.readData si.expectedImage t.imageOffset (t.size si)) sizeofReadData)
      [.tx (.readData si.expectedImage t.imageOffset (t.size si)) sizeofReadData
        (host.tx g.calls)] :=
    ⟨rfl, rfl⟩
  refine ⟨u, _, hu.trans hsame, (hsent.append hheard).append hstored, ?_, hround.trans hchunk⟩
  refine (storedBytes_append ..).trans ?_
  rw [storedBytes_quiet hquiet, Nat.zero_add]
  show storedBytes (if (host.rx (g.calls + 1)).bytesRead = _ then _ else _) = _
  split
  · exact Nat.add_zero _
  · rfl

/-- **The loop comes to its end**: with success, or because of a wrong count. -/
theorem Errorless.loop (h : Errorless si host) (first : Globals) :
    ∀ (rounds : Nat) (evs : List Event) (t : Transfer) (g : Globals), Counted first g evs →
      t.imageTransferSizeLeft.toNat < rounds →
      t.imageTransferSizeLeft.toNat + storedBytes evs = size.toNat →
      si.maxRawDataSize.toNat ∣ storedBytes evs →
      t.imageDataReceivedPerChunk = si.maxRawDataSize →
      roundUp t.imageTransferSizeLeft.toNat si.maxPacketSize.toNat ≤ t.imageDataSizeMax.toNat →
      g.saharaState ≠ .waitReset →
      ∃ status s, Program.iter (receiveRound si host) rounds t g = .ret status s ∧
        (status = .success ∨ WrongCount si host size first s)
  | 0, _, _, _, _, hrounds, _, _, _, _, _ => absurd hrounds (Nat.not_lt_zero _)
  | rounds + 1, evs, t, g, hcounted, hrounds, hleft, hdvd, hcount, hroom, hstate => by
    have hdone : ∀ (n : Nat) (t : Transfer) (u : Globals), t.imageTransferSizeLeft = 0 →
        Program.iter (receiveRound si host) (n + 1) t u = .ret .success u := by
      intro n t u hzero
      have hround : receiveRound si host t u = .ret (.inr .success) u := by
        rw [receiveRound, if_pos hzero]
        rfl
      rw [Program.iter, Program.bind_ret hround]
      rfl
    by_cases hzero : t.imageTransferSizeLeft = 0
    · exact ⟨_, _, hdone rounds t g hzero, .inl rfl⟩
    have hsize := t.size_toNat si
    have hpacket : 0 < si.maxPacketSize.toNat := si.maxPacketSize_pos
    have hmax := h.maxRaw_pos
    have hleftPos : t.imageTransferSizeLeft.toNat ≠ 0 := fun h0 => hzero (UInt32.toNat.inj h0)
    have hleRound := le_roundUp hpacket (n := t.imageTransferSizeLeft.toNat)
    -- a chunk that is not the last one is whole packets
    have hchunkRoom : roundUp (t.size si).toNat si.maxPacketSize.toNat ≤
        t.imageDataSizeMax.toNat := by
      by_cases hlast : t.imageTransferSizeLeft.toNat ≤ si.maxRawDataSize.toNat
      · rw [hsize, Nat.min_eq_left hlast]
        exact hroom
      · have hwhole := roundUp_le hpacket (Nat.le_refl _) h.packets
        rw [hsize, Nat.min_eq_right (by omega)]
        omega
    obtain ⟨s, hs, hsame, hadded, hstored, hround⟩ := h.round hzero hcount hchunkRoom hstate
    rw [Program.iter, Program.bind_ret hround]
    by_cases hgot : (host.rx (g.calls + 1)).bytesRead = t.size si
    · rw [if_pos hgot] at hstored ⊢
      have hle : t.size si ≤ t.imageTransferSizeLeft := UInt32.le_iff_toNat_le.mpr (by omega)
      have hnext : (t.imageTransferSizeLeft - t.size si).toNat =
          t.imageTransferSizeLeft.toNat - (t.size si).toNat := UInt32.toNat_sub_of_le _ _ hle
      by_cases hlast : t.imageTransferSizeLeft.toNat ≤ si.maxRawDataSize.toNat
      · -- that was the last chunk
        obtain ⟨n, rfl⟩ : ∃ n, rounds = n + 1 := ⟨rounds - 1, by omega⟩
        refine ⟨_, _, hdone n _ s (UInt32.toNat.inj ?_), .inl rfl⟩
        show (t.imageTransferSizeLeft - t.size si).toNat = 0
        omega
      · have hwhole : (t.size si).toNat = si.maxRawDataSize.toNat := by omega
        have hround := roundUp_add (n := t.imageTransferSizeLeft.toNat - si.maxRawDataSize.toNat)
          hpacket h.packets
        rw [Nat.sub_add_cancel (by omega)] at hround
        have hsub : (t.imageDataSizeMax - t.size si).toNat =
            t.imageDataSizeMax.toNat - (t.size si).toNat :=
          UInt32.toNat_sub_of_le _ _ (UInt32.le_iff_toNat_le.mpr (by omega))
        have hall : storedBytes (evs ++ .tx (.readData si.expectedImage t.imageOffset (t.size si))
            sizeofReadData (host.tx g.calls) :: .rx t.imageDest (rxLength si (t.size si)) :: hs) =
              storedBytes evs + si.maxRawDataSize.toNat :=
          (storedBytes_append ..).trans (congrArg _ (hstored.trans hwhole))
        refine h.loop first rounds _ _ s (hcounted.append hadded) ?_ ?_ ?_ ?_ ?_ (hsame ▸ hstate)
        · show (t.imageTransferSizeLeft - t.size si).toNat < rounds
          omega
        · show (t.imageTransferSizeLeft - t.size si).toNat + _ = _
          rw [hall]
          omega
        · rw [hall]
          exact Nat.dvd_add hdvd (Nat.dvd_refl _)
        · show 0 + t.size si = _
          rw [UInt32.zero_add]
          exact UInt32.toNat.inj hwhole
        · show roundUp (t.imageTransferSizeLeft - t.size si).toNat _ ≤
            (t.imageDataSizeMax - t.size si).toNat
          rw [hnext, hsub, hwhole]
          omega
    · rw [if_neg hgot]
      have hbefore : storedBytes (evs ++ [.tx (.readData si.expectedImage t.imageOffset (t.size si))
          sizeofReadData (host.tx g.calls)]) = storedBytes evs := storedBytes_append ..
      refine ⟨_, s, rfl, .inr ⟨evs ++ [_], t.imageDest, rxLength si (t.size si), hs, ?_,
        hbefore ▸ by omega, hbefore ▸ hdvd, fun heq => hgot (UInt32.toNat.inj ?_)⟩⟩
      · rw [append_assoc]
        exact (hcounted.append hadded).since
      · rw [callsIn_append, ← Nat.add_assoc, ← hcounted.calls_eq, hbefore] at heq
        rw [hsize, ← Nat.sub_eq_of_eq_add hleft.symm]
        exact heq

end

/-- **The requests tile the part of the image, and what is stored follows them.** Outside of the
optimised loading of segments, for which nothing is asked for here, the requests are one after the
other for the bytes of the part, as long as the host delivers no more than it was asked for; on
success they are for all of it. What is stored lies one after the other at the destination, and is
all of the part on success. Once a READ_DATA has not been transmitted in full, nothing is asked for
or received. Whole chunks received without an error bring the function to success. -/
theorem receiveData_tiles (si : Interface) (host : Host) (rounds : Nat)
    (offset size sizeMax : UInt32) (dest : Ptr) (g : Globals) :
    let run := receiveData si host rounds offset size sizeMax dest g
    (∃ evs, Since g run.state evs ∧ Moved si offset size dest (SegmentLoad si g) evs ∧
      (∀ s, run = .ret .success s → storedBytes evs = size.toNat ∧
        (¬ SegmentLoad si g → HostKeeps si evs → requestedBytes evs = size.toNat)) ∧
      StopsAtFailure evs ∧
      ∀ status s, run = .ret status s → AllSent evs ∨ status = .readDataError) ∧
    (Errorless si host → size.toNat < rounds →
      roundUp size.toNat si.maxPacketSize.toNat ≤ sizeMax.toNat → g.saharaState ≠ .waitReset →
      ∃ status s, run = .ret status s ∧ (status = .success ∨ WrongCount si host size g s)) := by
  intro run
  constructor
  · have hends := receiveData_ends si host offset size sizeMax dest g rounds
    cases hrun : run with
    | halt s | spin s =>
      rw [show receiveData si host rounds offset size sizeMax dest g = _ from hrun] at hends
      obtain ⟨evs, hsince, hstops, hmoved⟩ := hends
      exact ⟨evs, hsince, hmoved, by rintro _ ⟨⟩, hstops, by rintro _ _ ⟨⟩⟩
    | ret status s =>
      rw [show receiveData si host rounds offset size sizeMax dest g = _ from hrun] at hends
      obtain ⟨evs, hsince, hstops, hsent, hmoved, hall⟩ := hends
      refine ⟨evs, hsince, hmoved, ?_, hstops, ?_⟩
      · rintro _ ⟨⟩
        have hall := hall rfl
        refine ⟨hall, fun hseg hkeeps => ?_⟩
        obtain ⟨-, hle, hsize⟩ := hmoved.requests hseg hkeeps
        omega
      · rintro _ _ ⟨⟩
        exact hsent
  · intro h hrounds hroom hstate
    have hseg : ¬ SegmentLoad si g := fun hseg => by
      rw [SegmentLoad, h.plain] at hseg
      exact absurd hseg.1 (by decide)
    have hpacket : 0 < si.maxPacketSize.toNat := si.maxPacketSize_pos
    have hle := le_roundUp hpacket (n := size.toNat)
    have hfits : sizeMax ≥ size := UInt32.le_iff_toNat_le.mpr (by omega)
    have hskip : skipDataInOptmizeLoad si host rounds offset size g = .ret .success g := by
      rw [skipDataInOptmizeLoad, get_bind, if_neg hseg]
      rfl
    have hrun : run = Program.iter (receiveRound si host) rounds
        ⟨offset, size, sizeMax, dest, si.maxRawDataSize⟩ g := by
      show receiveData si host rounds offset size sizeMax dest g = _
      rw [receiveData, if_pos hfits, Program.bind_ret hskip, if_pos rfl]
    rw [hrun]
    exact h.loop g rounds [] _ g ⟨.refl g, rfl⟩ hrounds rfl (Nat.dvd_zero _) rfl hroom hstate

/-! ## Where the requests are others -/

/-- A transport with packets of 16 bytes. -/
def smallLink (optimized : Bool) (maxRaw : UInt32) : Interface where
  expectedImage := 13
  expectedImageType := .elf
  curImage := true
  curImageValid := true
  saharaMode := 0
  authTblValid := true
  authEnabled := true
  memDebugTbl := none
  memDebugTblNull := true
  maxPacketSize := 16
  maxPacketSize_pos := by decide
  maxRawDataSize := maxRaw
  elfOptimizedSegmentLoad := optimized
  skipImageLoad := false
  validAddressRange _ _ := true
  binHeaderSize := 40
  binImageId _ := 0
  binImageDest _ := 0
  binImageSize _ := 0
  binImageSrc _ := 0
  ssaEnabled := false
  metaInfoBuffer := 0

/-- A host that takes READ_DATA and delivers a number of bytes for each call. -/
def deliveringHost (bytes : Nat → UInt32) : Host :=
  { steadyHost ⟨true, sizeofReadData, 0⟩ with
    rx := fun k => ⟨true, bytes k, 0, fun _ => 0⟩ }

/-- The status returned, the requests that were made, and how many bytes were stored. -/
def outline : Outcome Globals Status → Option (Status × List (UInt32 × UInt32 × UInt32) × Nat)
  | .ret status s => some (status, readRequests s.trace.reverse, storedBytes s.trace.reverse)
  | _ => none

/-- While segments are loaded in the optimised way nothing is asked for. At the end of the file's
32-bit offsets the requests begin again at zero. And a host that delivers more than it was asked
for is never asked for the rest. -/
theorem receiveData_requests_differ :
    outline (receiveData (smallLink true 16) (deliveringHost fun _ => 16) 3 0x100 16 16
        ⟨.memory, 0x80000000⟩ { Globals.boot with startOfSegmentLoad := true }) =
      some (.success, [], 16) ∧
    outline (receiveData (smallLink false 16) (deliveringHost fun _ => 16) 3 0xFFFFFFF0 32 32
        ⟨.memory, 0x80000000⟩ Globals.boot) =
      some (.success, [(13, 0xFFFFFFF0, 16), (13, 0, 16)], 32) ∧
    outline (receiveData (smallLink true 4) (deliveringHost fun k => if k = 3 then 2 else 3) 4
        0x100 8 16 ⟨.memory, 0x80000000⟩ Globals.boot) =
      some (.success, [(13, 0x100, 4)], 8) := by
  refine ⟨?_, ?_, ?_⟩ <;> decide +kernel

end Sahara
