import EspTree.File.Moves

/-!
# Update jobs of the host

The host asks for an update over the websocket, and the bridge asks the host for the chunks that the
manager wants (`ESPTreeBridge::api_ota_start` and its siblings, `emit_ota_events_`).  After each turn
of the manager's loop the bridge compares the manager's `requested_sequences` with a copy of the
last request, and the manager's public state with the one that it saw last, and tells the host what
is new.

`log` is not part of the source.  It holds what was sent to the host and when the manager has put
sequence numbers into its set, newest first.  Jobs are named by `ota_job_counter_`, of which the
job id shows the low sixteen bits, and chunk requests by their number within the job.  The transport
callbacks are set as long as an authenticated client is connected.  `progress_pct` is an input of
the turn.
-/

namespace EspTree

open Wire OtaManager

namespace Jobs

/-! ## The source -/

/-- The values of `public_state_`. -/
inductive PublicState
  | idle | startReceived | transferring | verifying | success | fail
  deriving DecidableEq, Repr

/-- `OtaJobState`. -/
inductive JobState
  | idle | waitingForLeaf | transferring | verifying | success | failed | aborted
  deriving DecidableEq, Repr

/-- The values of `OtaState` that the host is told. -/
inductive HostState
  | transferring | verifying | success | failed
  deriving DecidableEq, Repr

/-- The arguments of `on_ota_accepted`. -/
structure Acceptance where
  requestId : String
  job : Nat
  targetMac : Mac
  maxChunkSize : Nat
  totalChunks : Nat
  maxChunksPerBatch : Nat
  deriving DecidableEq

/-- The arguments of `on_ota_chunk_request`; the two counts that are always 0 are left out. -/
structure ChunkRequest where
  job : Nat
  request : Nat
  sequences : Finset Nat
  currentIncrement : Nat
  totalIncrements : Nat
  retransmitRound : Nat
  bufferSizeKb : Nat
  percent : Nat
  deriving DecidableEq

/-- The arguments of `on_ota_status`. -/
structure Status where
  job : Nat
  state : HostState
  percent : Nat
  bytesReceived : Nat
  fileSize : Nat
  errorDetail : String
  deriving DecidableEq

/-- What is written down. -/
inductive Entry
  | accepted (a : Acceptance)
  | chunkRequest (r : ChunkRequest)
  | status (t : Status)
  | inserted (sequences : Finset Nat)
  deriving DecidableEq

/-- The fields of `ESPTreeBridge` that a job uses, the manager, and its frames. -/
structure State where
  manager : Manager := {}
  publicState : PublicState := .idle
  connected : Bool := false
  jobState : JobState := .idle
  jobCounter : Nat := 0
  requestId : String := ""
  targetMac : Mac := Octets.zero 6
  chunkRequestCounter : Nat := 0
  prevPublicState : Option PublicState := none
  lastRequestedSequences : Finset Nat := ∅
  lastStatusPercent : Nat := 255
  lastStatusMs : UInt32 := 0
  frames : List Transfer.Down := []
  log : List Entry := []

/-- What the host asks for with `api_ota_start`, after its texts are parsed.  The session is that of
the target, if it is online, with its `session_max_payload`. -/
structure Order where
  targetMac : Option Mac
  session : Option Nat
  fileSize : Nat
  md5 : Option (Octets 16)
  fileId : Octets 12
  requestId : String

/-- `public_state_` after a call: it follows the state, and when a transfer ends it tells success
from failure. -/
def publicAfter (before after : Manager) (shown : PublicState) : PublicState :=
  match after.state with
  | .announcing => .startReceived
  | .blasting | .waitingGaps => .transferring
  | .ending => .verifying
  | .idle | .aborting =>
    if before.state = .idle then shown else if after.lastError = "" then .success else .fail

namespace State

/-- The manager has made a call. -/
def managed (s : State) (m : Manager) (frames : List Transfer.Down) : State :=
  { s with
    manager := m
    publicState := publicAfter s.manager m s.publicState
    frames
    log := .inserted (m.tracker.requestedSequences \ s.manager.tracker.requestedSequences) :: s.log }

/-- A message to the host. -/
def tell (s : State) (message : Entry) : State := { s with log := message :: s.log }

/-- `on_ota_chunk_request` for what the manager wants, under the next request id. -/
def requestChunks (s : State) (percent : Nat) : State :=
  ({ s with chunkRequestCounter := s.chunkRequestCounter + 1 } : State).tell (.chunkRequest
    { job := s.jobCounter
      request := s.chunkRequestCounter + 1
      sequences := s.manager.tracker.requestedSequences
      currentIncrement := s.manager.tracker.currentIncrement
      totalIncrements := s.manager.tracker.geometry.totalIncrements
      retransmitRound := s.manager.tracker.retransmitRound
      bufferSizeKb := s.manager.tracker.bufferSizeKb
      percent })

/-- `emit_ota_status_callback_`. -/
def emitStatus (s : State) (percent : Nat) (state : HostState) (errorDetail : String) : State :=
  s.tell (.status
    { job := s.jobCounter
      state
      percent
      bytesReceived := if 0 < s.manager.fileSize then s.manager.fileSize * percent % 2 ^ 32 / 100 else 0
      fileSize := s.manager.fileSize
      errorDetail })

/-- The tests of `start_transfer` that leave the manager as it is. -/
def refused (m : Manager) (fileSize remoteMax : Nat) : Bool :=
  fileSize == 0 || m.isBusy || decide (1073741824 < fileSize) ||
    decide (Manager.clampChunkSize remoteMax < 64)

/-- `api_ota_start`, with the job and the chunk size, or the error text. -/
def apiOtaStart (s : State) (e : Transfer.Env) (o : Order) : State × Except String (Nat × Nat) :=
  match o.targetMac with
  | none => (s, .error "invalid target_mac")
  | some mac =>
    match o.session with
    | none => (s, .error "remote not found or offline")
    | some remoteMax =>
      if s.manager.isBusy then (s, .error "ota busy")
      else match o.md5 with
        | none => (s, .error "invalid md5 hex")
        | some md5 =>
          let (m, frames, started) := s.manager.startTransfer (Transfer.managerContext e) s.frames
            mac o.fileSize md5 0x01 remoteMax o.fileId
          -- an announce that cannot be sent at all fails the transfer at once
          let s := { s.managed m frames with
            publicState := if refused s.manager o.fileSize remoteMax then s.publicState
              else if m.state = .idle then .fail else .startReceived }
          if ¬ started then
            (s, .error (if m.lastError = "" then "start_transfer failed" else m.lastError))
          else
            ({ s with
                jobCounter := s.jobCounter + 1
                jobState := .waitingForLeaf
                requestId := o.requestId
                targetMac := mac
                lastRequestedSequences := ∅
                chunkRequestCounter := 0
                lastStatusPercent := 255
                lastStatusMs := 0 }, .ok (s.jobCounter + 1, m.negotiatedChunkSize))

/-- `set_ota_transport_callbacks`, for a client that has authenticated. -/
def setOtaTransportCallbacks (s : State) : State :=
  { s with
    connected := true
    prevPublicState := if s.jobState = .idle then s.prevPublicState else none }

/-- `clear_ota_transport_callbacks`, for a client that is gone. -/
def clearOtaTransportCallbacks (s : State) : State := { s with connected := false }

/-- `api_ota_abort`, with the job id as a number if there is one. -/
def apiOtaAbort (s : State) (e : Transfer.Env) (job : Option Nat) : State × Bool :=
  if s.jobState = .idle then (s, false)
  else if job.any (· != s.jobCounter % 2 ^ 16) then (s, false)
  else
    let (m, frames) := s.manager.onSourceAbort (Transfer.managerContext e) s.frames 0x00
    ({ s.managed m frames with jobState := .idle }, true)

def apiOtaInjectChunk (s : State) (sequence : Nat) (data : Bytes) : State × Bool :=
  if s.jobState ≠ .transferring then (s, false)
  else
    let (m, taken) := s.manager.onSourceChunk sequence data
    (s.managed m s.frames, taken)

def apiOtaResendChunkRequest (s : State) (percent : Nat) : State :=
  if s.jobState = .transferring ∧ s.connected then
    let requested := s.manager.tracker.requestedSequences
    if requested = ∅ then { s with lastRequestedSequences := ∅ }
    else ({ s with lastRequestedSequences := requested } : State).requestChunks percent
  else s

/-- The comparison of the manager's set with the last request. -/
def emitRequests (s : State) (percent : Nat) : State :=
  let requested := s.manager.tracker.requestedSequences
  if requested = ∅ then { s with lastRequestedSequences := ∅ }
  else if s.lastRequestedSequences = ∅ ∨ ¬ requested ⊆ s.lastRequestedSequences then
    ({ s with lastRequestedSequences := requested } : State).requestChunks percent
  else s

/-- The progress of a transfer, every ten percent and every five seconds. -/
def emitProgress (s : State) (now : UInt32) (percent : Nat) : State :=
  let state := if s.publicState = .verifying then HostState.verifying else .transferring
  if state = .verifying ∨ s.lastStatusPercent = 255 ∨ s.lastStatusPercent + 10 ≤ percent ∨
      5000 ≤ now - s.lastStatusMs then
    { s.emitStatus percent state "" with lastStatusPercent := percent, lastStatusMs := now }
  else s

/-- `emit_ota_events_` for a job that waits for its leaf. -/
def emitWaiting (s : State) (now : UInt32) (percent : Nat) : State :=
  if s.manager.isBusy ∧ s.publicState = .transferring ∧ s.prevPublicState ≠ some .transferring then
    let s := { s with
      jobState := .transferring
      prevPublicState := some .transferring
      lastRequestedSequences := s.manager.tracker.requestedSequences
      lastStatusPercent := 255
      lastStatusMs := now }
    (s.tell (.accepted
      { requestId := s.requestId
        job := s.jobCounter
        targetMac := s.targetMac
        maxChunkSize := s.manager.negotiatedChunkSize
        totalChunks := s.manager.tracker.geometry.totalChunks
        maxChunksPerBatch := 6 })).requestChunks percent
  else if ¬ s.manager.isBusy then
    { s.emitStatus percent .failed "OTA transfer failed before leaf accepted" with
      jobState := .idle, prevPublicState := none, lastRequestedSequences := ∅ }
  else { s with prevPublicState := some s.publicState }

/-- `emit_ota_events_` for a job that transfers. -/
def emitTransferring (s : State) (now : UInt32) (percent : Nat) : State :=
  if s.publicState = .success ∧ s.prevPublicState ≠ some .success then
    { s.emitStatus percent .success "" with
      jobState := .success, prevPublicState := some .success, lastRequestedSequences := ∅ }
  else if s.publicState = .fail ∧ s.prevPublicState ≠ some .fail then
    { s.emitStatus percent .failed s.manager.lastError with
      jobState := .failed, prevPublicState := some .fail, lastRequestedSequences := ∅ }
  else if ¬ s.manager.isBusy then
    { s with jobState := .idle, prevPublicState := none, lastRequestedSequences := ∅ }
  else
    { (s.emitRequests percent).emitProgress now percent with prevPublicState := some s.publicState }

def emitOtaEvents (s : State) (now : UInt32) (percent : Nat) : State :=
  if ¬ s.connected then s
  else match s.jobState with
    | .waitingForLeaf => s.emitWaiting now percent
    | .transferring => s.emitTransferring now percent
    | _ => s

/-- The manager's part of `ESPTreeBridge::loop`. -/
def tick (s : State) (e : Transfer.Env) (percent : Nat) : State :=
  let (m, frames) := s.manager.loop (Transfer.managerContext e) s.frames
  (s.managed m frames).emitOtaEvents e.now percent

/-- An acknowledgement of a leaf. -/
def fileAck (s : State) (e : Transfer.Env) (leafMac : Mac) (ackType result : UInt8) (ref : UInt32)
    (trailing : Bytes) : State :=
  let ((m, frames), _) := s.manager.onFileAck (Transfer.managerContext e) s.frames leafMac ackType
    result ref trailing
  s.managed m frames

end State

/-- What happens to the bridge. -/
inductive Event
  | start (e : Transfer.Env) (o : Order)
  | abort (e : Transfer.Env) (job : Option Nat)
  | chunk (sequence : Nat) (data : Bytes)
  | resend (percent : Nat)
  | connect
  | disconnect
  | ack (e : Transfer.Env) (leafMac : Mac) (ackType result : UInt8) (ref : UInt32) (trailing : Bytes)
  | tick (e : Transfer.Env) (percent : Nat)

/-- One event. -/
def step (s : State) : Event → State
  | .start e o => (s.apiOtaStart e o).1
  | .abort e job => (s.apiOtaAbort e job).1
  | .chunk sequence data => (s.apiOtaInjectChunk sequence data).1
  | .resend percent => s.apiOtaResendChunkRequest percent
  | .connect => s.setOtaTransportCallbacks
  | .disconnect => s.clearOtaTransportCallbacks
  | .ack e leafMac ackType result ref trailing => s.fileAck e leafMac ackType result ref trailing
  | .tick e percent => s.tick e percent

/-! ## The property -/

/-- The host has been asked for the sequence number, since it was last inserted and since the job was
accepted. -/
def Asked (log : List Entry) (job sequence : Nat) : Prop :=
  ∃ newer r older, log = newer ++ .chunkRequest r :: older ∧ r.job = job ∧ sequence ∈ r.sequences ∧
    (∀ new, .inserted new ∈ newer → sequence ∉ new) ∧ ∃ a, .accepted a ∈ older ∧ a.job = job

/-- Everything that a blasting manager wants has been asked for. -/
def AllAsked (s : State) : Prop :=
  s.manager.state = .blasting → ∀ sequence ∈ s.manager.tracker.requestedSequences,
    Asked s.log s.jobCounter sequence

end Jobs

/-! ## What the calls of the manager do to its set -/

namespace OtaManager.Manager

/-- The sequence numbers of the present round. -/
def round (m : Manager) : Finset Nat := m.requestIncrementChunks.tracker.requestedSequences

/-- Each number of the round is requested, queued or sent, and without a round nothing is
requested. -/
structure Wants (m : Manager) : Prop where
  blasting (h : m.state = .blasting) : ∀ sequence ∈ m.round,
    sequence ∈ m.tracker.requestedSequences ∨ sequence ∈ m.tracker.sentSequences ∨
      ∃ chunk ∈ m.pendingChunks, chunk.sequence = sequence
  closed (h : m.state ≠ .blasting) : m.tracker.requestedSequences = ∅

/-- A transfer that the leaf has not been told to end. -/
def Live (m : Manager) : Prop :=
  m.state = .announcing ∨ m.state = .blasting ∨ m.state = .waitingGaps

/-- A call that fills the set only if `opens`. -/
structure Takes (opens : Prop) (m m' : Manager) : Prop where
  wants (h : m.Wants) : m'.Wants
  live (h : m'.Live) : m.Live
  announcing (h : m'.state = .announcing) : m.state = .announcing
  blasting (hm : m.Wants) (h : m'.state = .blasting) : opens ∨
    m.state = .blasting ∧ m'.tracker.requestedSequences ⊆ m.tracker.requestedSequences

namespace Takes

variable {opens : Prop} {m m' m'' : Manager}

theorem refl : Takes opens m m where
  wants h := h
  live h := h
  announcing h := h
  blasting _ h := .inr ⟨h, subset_rfl⟩

theorem trans (h : Takes False m m') (h' : Takes opens m' m'') : Takes opens m m'' where
  wants hm := h'.wants (h.wants hm)
  live hl := h.live (h'.live hl)
  announcing ha := h.announcing (h'.announcing ha)
  blasting hm hb := by
    rcases h'.blasting (h.wants hm) hb with ho | ⟨hb', hsub⟩
    · exact .inl ho
    · rcases h.blasting hm hb' with ⟨⟨⟩⟩ | ⟨hb'', hsub'⟩
      exact .inr ⟨hb'', hsub.trans hsub'⟩

/-- What may open a round may do so under a weaker condition. -/
theorem weaken {opens' : Prop} (h : Takes opens m m') (ho : opens → opens') : Takes opens' m m' where
  wants := h.wants
  live := h.live
  announcing := h.announcing
  blasting hm hb := (h.blasting hm hb).imp_left ho

/-- The transfer has ended. -/
theorem ended (hs : m'.state = .idle) (hr : m'.tracker.requestedSequences = ∅) :
    Takes opens m m' where
  wants _ := ⟨fun h => by simp [hs] at h, fun _ => hr⟩
  live h := by simp [Live, hs] at h
  announcing h := by simp [hs] at h
  blasting _ h := by simp [hs] at h

/-- Only timers, texts and the history of a round have changed. -/
theorem same (hs : m'.state = m.state)
    (hr : m'.tracker.requestedSequences = m.tracker.requestedSequences)
    (hround : m'.round = m.round) (hsent : m'.tracker.sentSequences = m.tracker.sentSequences)
    (hp : m'.pendingChunks = m.pendingChunks) : Takes opens m m' where
  wants h := by
    constructor
    · intro hb
      rw [hround, hr, hsent, hp]
      exact h.blasting (hs ▸ hb)
    · intro hb
      rw [hr]
      exact h.closed (hs ▸ hb)
  live h := by rwa [Live, hs] at h
  announcing h := hs ▸ h
  blasting _ h := .inr ⟨hs ▸ h, hr.subset⟩

/-- A round has been opened. -/
theorem opened (ho : opens) (hl : m.Live) (hs : m'.state = .blasting)
    (hr : m'.tracker.requestedSequences = m'.round) : Takes opens m m' where
  wants _ := ⟨fun _ _ hseq => .inl (hr ▸ hseq), fun h => absurd hs h⟩
  live _ := hl
  announcing h := by simp [hs] at h
  blasting _ _ := .inl ho

/-- The manager waits, with nothing requested. -/
theorem left (hl : m'.Live → m.Live) (hs : m'.state ≠ .blasting) (ha : m'.state ≠ .announcing)
    (hr : m.Wants → m'.tracker.requestedSequences = ∅) : Takes opens m m' where
  wants h := ⟨fun hb => absurd hb hs, fun _ => hr h⟩
  live := hl
  announcing h := absurd h ha
  blasting _ h := absurd h hs

end Takes

section

variable {π : Type} (x : Context π) {opens : Prop} (m : Manager) (p : π)

theorem failTransfer_takes (reason : UInt8) (message : String) (notifyRemote : Bool) :
    Takes opens m (m.failTransfer x p reason message notifyRemote).1 :=
  .ended rfl rfl

theorem markNoMemBackoff_takes : Takes opens m (m.markNoMemBackoff x) := by
  refine .same (by simp) (by simp) ?_ (by simp) (by simp)
  simp [round, requestIncrementChunks]

theorem clearNoMemBackoff_takes : Takes opens m m.clearNoMemBackoff :=
  .same rfl rfl rfl rfl rfl

theorem decayNoMemBackoff_takes : Takes opens m m.decayNoMemBackoff := by
  refine .same (by simp) (by simp) ?_ (by simp) (by simp)
  simp [round, requestIncrementChunks]

theorem sendAnnounce_takes : Takes opens m (m.sendAnnounce x p).1 := by
  unfold sendAnnounce
  dsimp only
  split_ifs
  · exact .refl
  · exact failTransfer_takes ..
  · split
    · exact markNoMemBackoff_takes ..
    · exact .same rfl rfl rfl rfl rfl
    · exact .ended rfl rfl
    · exact .ended rfl rfl

/-- A manager that announces wants nothing yet. -/
theorem sendAnnounce_spec (ha : m.state = .announcing) (hr : m.tracker.requestedSequences = ∅) :
    (m.sendAnnounce x p).1.Wants ∧
      ((m.sendAnnounce x p).1.Live → (m.sendAnnounce x p).1.state = .announcing) := by
  have hidle (m' : Manager) (hs : m'.state = .idle) : m'.Live → m'.state = .announcing := by
    simp [Live, hs]
  have hw : m.Wants := ⟨by simp [ha], fun _ => hr⟩
  have htakes : Takes False m (m.sendAnnounce x p).1 := sendAnnounce_takes x m p
  refine ⟨htakes.wants hw, ?_⟩
  unfold sendAnnounce
  dsimp only
  split_ifs
  · exact fun _ => ha
  · exact hidle _ rfl
  · split
    · exact fun _ => ha
    · exact fun _ => ha
    · exact hidle _ rfl
    · exact hidle _ rfl

theorem sendBlastComplete_takes : Takes opens m (m.sendBlastComplete x p).1 := by
  unfold sendBlastComplete
  dsimp only
  split
  · exact markNoMemBackoff_takes ..
  · exact .same rfl rfl rfl rfl rfl
  · exact .ended rfl rfl
  · exact clearNoMemBackoff_takes ..

/-- `END` is only sent when no round is open. -/
theorem sendEnd_takes : Takes opens m (m.sendEnd x p).1 := by
  unfold sendEnd
  dsimp only
  split_ifs with hs
  · exact .refl
  · exact failTransfer_takes ..
  · split
    · exact .ended rfl rfl
    · refine .left (by simp [Live]) (by simp) (by simp) fun hm => hm.closed ?_
      rintro hb
      simp [hb] at hs
    · exact .ended rfl rfl
    · exact .ended rfl rfl

theorem sendChunk_takes (chunk : QueuedChunk) : Takes opens m (m.sendChunk x p chunk).1 := by
  unfold sendChunk
  dsimp only
  split
  · exact failTransfer_takes ..
  · split
    · exact markNoMemBackoff_takes ..
    · refine (decayNoMemBackoff_takes m).trans ?_
      refine .same rfl ?_ ?_ ?_ rfl <;> dsimp only [round, requestIncrementChunks] <;> split <;> rfl
    · exact decayNoMemBackoff_takes ..

/-- An open round is not filled a second time: with all three places empty it is empty. -/
theorem pumpBlasting_takes : Takes opens m (m.pumpBlasting x) := by
  unfold pumpBlasting
  split_ifs with hheld hempty
  · exact .refl
  · obtain ⟨hr, hsent, hp⟩ := hempty
    have hb : m.state = .blasting := by
      by_contra hb
      exact hheld (.inl hb)
    constructor
    · exact fun _ => ⟨fun _ _ hseq => .inl hseq, fun h => absurd hb h⟩
    · exact fun h => h
    · exact fun h => h
    · intro hm _
      refine .inr ⟨hb, fun sequence hseq => ?_⟩
      simpa [hr, hsent, hp] using hm.blasting hb sequence hseq
  · exact .refl

/-- Closing a round asks for nothing. -/
theorem closeBlast_takes (hb : m.state = .blasting) (hr : m.tracker.requestedSequences = ∅) :
    Takes opens m (m.closeBlast x p).1 := by
  have htakes : Takes False m (m.sendBlastComplete x p).1 := sendBlastComplete_takes x m p
  unfold closeBlast
  dsimp only
  split_ifs with hok
  · refine .left (fun _ => .inr (.inl hb)) (by simp) (by simp) fun hm => ?_
    rcases htakes.blasting hm ((sendBlastComplete_state x hok).trans hb) with ⟨⟨⟩⟩ | ⟨-, hsub⟩
    exact Finset.subset_empty.1 (hr ▸ hsub)
  · exact htakes.weaken False.elim

/-- The chunk at the front goes from the queue to the numbers that were sent. -/
theorem popChunk_takes {chunk : QueuedChunk} {rest : List QueuedChunk}
    (h : m.pendingChunks = chunk :: rest) : Takes opens m (m.popChunk chunk.sequence rest) where
  wants hm := by
    refine ⟨fun hb sequence hseq => ?_, hm.closed⟩
    rcases hm.blasting hb sequence hseq with hreq | hsent | ⟨c, hc, rfl⟩
    · exact .inl hreq
    · exact .inr (.inl (Finset.mem_insert_of_mem hsent))
    · rw [h, List.mem_cons] at hc
      rcases hc with rfl | hc
      · exact .inr (.inl (Finset.mem_insert_self ..))
      · exact .inr (.inr ⟨c, hc, rfl⟩)
  live h := h
  announcing h := h
  blasting _ h := .inr ⟨h, subset_rfl⟩

theorem pumpQueuedChunks_takes : Takes opens m (m.pumpQueuedChunks x p).1 := by
  unfold pumpQueuedChunks
  dsimp only
  split
  · exact .refl
  rename_i hheld
  have hb : m.state = .blasting := by
    by_contra hb
    exact hheld (.inl hb)
  split
  · split_ifs with hdone
    · exact closeBlast_takes x m p hb hdone.1
    · exact .refl
  · rename_i chunk rest hp
    have htakes : Takes False m (m.sendChunk x p chunk).1 := sendChunk_takes x m p chunk
    have hstate := sendChunk_state x (m := m) (p := p) (q := chunk)
    obtain ⟨m', p', sent, hsend⟩ : ∃ m' p' sent, m.sendChunk x p chunk = (m', p', sent) :=
      ⟨_, _, _, rfl⟩
    rw [hsend] at htakes hstate ⊢
    cases sent with
    | false => exact htakes.weaken False.elim
    | true =>
      obtain ⟨hs', hp'⟩ := hstate rfl
      have hpop : Takes False m' (m'.popChunk chunk.sequence rest) :=
        popChunk_takes m' (hp'.trans hp)
      simp only [Bool.not_true, Bool.false_eq_true, if_false]
      split_ifs with hlast
      · refine (htakes.trans hpop).trans (closeBlast_takes x _ p' ?_ hlast.2)
        exact hs'.trans hb
      · exact (htakes.trans hpop).weaken False.elim

theorem advance_takes : Takes False m (m.advance x p).1 := by
  unfold advance
  split
  · split_ifs
    · exact sendAnnounce_takes x m p
    · exact .refl
  · exact (pumpBlasting_takes x m).trans (pumpQueuedChunks_takes x _ p)
  · split_ifs
    · exact failTransfer_takes ..
    · exact sendBlastComplete_takes x m p
    · exact .refl
  · split_ifs
    · exact sendEnd_takes x m p
    · exact .refl
  · exact .refl
  · exact .refl

/-- A turn of the loop fills nothing. -/
theorem loop_takes : Takes False m (m.loop x p).1 := by
  unfold loop
  split_ifs
  · exact .refl
  · exact failTransfer_takes ..
  · exact failTransfer_takes ..
  · exact .refl
  · exact failTransfer_takes ..
  · exact advance_takes x m p

theorem onSourceChunk_takes (sequence : Nat) (data : Bytes) :
    Takes False m (m.onSourceChunk sequence data).1 := by
  unfold onSourceChunk
  dsimp only
  split
  · exact .refl
  rename_i hb
  rw [not_not] at hb
  split
  · exact .refl
  split
  · exact .refl
  · refine ⟨fun hm => ⟨fun _ sequence' hseq => ?_, fun h => absurd hb h⟩, fun h => h, fun h => h,
      fun _ h => .inr ⟨h, Finset.erase_subset ..⟩⟩
    rcases hm.blasting hb sequence' hseq with hreq | hsent | ⟨c, hc, rfl⟩
    · by_cases heq : sequence' = sequence
      · exact .inr (.inr ⟨⟨sequence, data⟩, by simp, heq.symm⟩)
      · exact .inl (Finset.mem_erase.2 ⟨heq, hreq⟩)
    · exact .inr (.inl hsent)
    · exact .inr (.inr ⟨c, List.mem_append_left _ hc, rfl⟩)

theorem onSourceAbort_takes (reason : UInt8) :
    Takes False m (m.onSourceAbort x p reason).1 := by
  unfold onSourceAbort
  split_ifs
  · exact failTransfer_takes ..
  · exact .refl

/-- An `ACCEPT` opens the first round. -/
theorem handleAccept_takes (ho : opens) (ha : m.state = .announcing) (trailing : Bytes) :
    Takes opens m (m.handleAccept x p trailing).1 := by
  unfold handleAccept
  dsimp only
  split_ifs
  iterate 4 exact failTransfer_takes ..
  · exact .ended rfl rfl
  · exact .opened ho (.inl ha) rfl rfl

/-- A `GAPS` opens another round. -/
theorem handleGapsAck_takes (ho : opens) (hw : m.state = .waitingGaps) (trailing : Bytes) :
    Takes opens m (m.handleGapsAck x p trailing).1 := by
  have hl : m.Live := .inr (.inr hw)
  have hend : Takes False m { m with state := .ending, controlAttemptCount := 0 } :=
    .left (by simp [Live]) (by simp) (by simp) fun hm => hm.closed (by simp [hw])
  unfold handleGapsAck
  dsimp only
  split_ifs with _ _ _ _ hrounds
  · exact failTransfer_takes ..
  · exact failTransfer_takes ..
  · exact hend.trans (sendEnd_takes ..)
  · exact .opened ho hl rfl rfl
  · exact failTransfer_takes ..
  · exact .opened ho hl rfl rfl
  · refine .opened ho hl rfl ?_
    have hround : (m.tracker.retransmitRound + 1) % 2 ^ 8 ≠ 0 := by
      unfold maxRetransmitRounds at hrounds
      omega
    exact (if_neg hround).symm

/-- An acknowledgement opens a round if it is the `ACCEPT` or `GAPS` that the manager waits for. -/
theorem onFileAck_takes (leafMac : Mac) (ackType result : UInt8) (ref : UInt32) (trailing : Bytes) :
    Takes (m.state = .announcing ∨ m.state = .waitingGaps ∧ result = 0x05) m
      (m.onFileAck x p leafMac ackType result ref trailing).1.1 := by
  unfold onFileAck
  split_ifs
  · exact .refl
  have hnote : Takes False m (m.noteActivity x) := .same rfl rfl rfl rfl rfl
  refine hnote.trans ?_
  unfold dispatchFileAck
  split_ifs with _ ha _ _ hgaps hw
  · exact .refl
  · exact .refl
  · rw [not_not] at ha
    exact handleAccept_takes x _ p (.inl ha) ha trailing
  · exact failTransfer_takes ..
  · exact .refl
  · rw [not_not] at hw
    exact handleGapsAck_takes x _ p (.inr ⟨hw, hgaps⟩) hw trailing
  · exact .refl
  · unfold handleComplete
    split_ifs <;> exact .ended rfl rfl
  · exact failTransfer_takes ..
  · exact .refl

theorem onSourceAbort_state (reason : UInt8) : (m.onSourceAbort x p reason).1.state = .idle := by
  unfold onSourceAbort
  split_ifs with hbusy
  · rfl
  · simpa [isBusy] using hbusy

/-- A transfer that has started announces. -/
theorem startTransfer_spec {m' : Manager} {p' : π} {started : Bool} {leafMac : Mac}
    {fileSize : Nat} {md5 : Octets 16} {action : UInt8} {remoteMax : Nat} {fileId : Octets 12}
    (hidle : m.state = .idle) (hm : m.Wants)
    (h : m.startTransfer x p leafMac fileSize md5 action remoteMax fileId = (m', p', started)) :
    m'.Wants ∧ (m'.Live → m'.state = .announcing ∧ started = true) := by
  have hrefused (message : String) : ({ m with lastError := message } : Manager).Wants :=
    ⟨fun hb => by simp [hidle] at hb, hm.closed⟩
  unfold startTransfer at h
  dsimp only at h
  split_ifs at h
  · obtain ⟨rfl, -, -⟩ := h
    exact ⟨hm, by simp [Live, hidle]⟩
  iterate 3
    · obtain ⟨rfl, -, -⟩ := h
      exact ⟨hrefused _, by simp [Live, hidle]⟩
  · obtain ⟨rfl, -, rfl⟩ := h
    refine ⟨(sendAnnounce_spec x _ p rfl rfl).1, fun hl => ?_⟩
    have hs := (sendAnnounce_spec x _ p rfl rfl).2 hl
    exact ⟨hs, by simp [hs]⟩

end

end OtaManager.Manager

namespace Jobs

/-! ## The invariant -/

namespace Asked

variable {log : List Entry} {job sequence : Nat}

/-- What was asked for was asked for a job that was accepted. -/
theorem accepted (h : Asked log job sequence) : ∃ a, Entry.accepted a ∈ log ∧ a.job = job := by
  obtain ⟨newer, r, older, rfl, -, -, -, a, ha, hjob⟩ := h
  exact ⟨a, by simp [ha], hjob⟩

/-- A further entry leaves it asked for, unless it puts the number into the set again. -/
theorem cons (h : Asked log job sequence) {entry : Entry}
    (he : ∀ new, entry = .inserted new → sequence ∉ new) : Asked (entry :: log) job sequence := by
  obtain ⟨newer, r, older, rfl, hjob, hseq, hnewer, ha⟩ := h
  refine ⟨entry :: newer, r, older, rfl, hjob, hseq, fun new hnew => ?_, ha⟩
  rcases List.mem_cons.1 hnew with heq | hnew
  · exact he new heq.symm
  · exact hnewer new hnew

/-- The request that was just sent. -/
theorem head {r : ChunkRequest} (hjob : r.job = job) (hseq : sequence ∈ r.sequences)
    (ha : ∃ a, Entry.accepted a ∈ log ∧ a.job = job) :
    Asked (.chunkRequest r :: log) job sequence :=
  ⟨[], r, log, rfl, hjob, hseq, by simp, ha⟩

end Asked

/-- The job of a live transfer waits for its leaf or transfers, and what the bridge remembers of the
requests of a job that transfers has been asked for. -/
structure Inv (s : State) : Prop where
  wants : s.manager.Wants
  started (h : s.manager.state = .announcing) :
    s.publicState = .startReceived ∧ s.jobState = .waitingForLeaf
  shown (h : s.manager.state = .blasting ∨ s.manager.state = .waitingGaps) :
    s.publicState = .transferring ∧ (s.jobState = .waitingForLeaf ∨ s.jobState = .transferring)
  accepted (h : s.jobState = .transferring) :
    ∃ a, Entry.accepted a ∈ s.log ∧ a.job = s.jobCounter
  asked (h : s.jobState = .transferring) (hb : s.manager.state = .blasting) :
    ∀ sequence ∈ s.manager.tracker.requestedSequences, sequence ∈ s.lastRequestedSequences →
      Asked s.log s.jobCounter sequence

namespace Inv

variable {s : State}

/-- Without a live transfer there is nothing to ask for. -/
theorem quiet (hw : s.manager.Wants) (hl : ¬ s.manager.Live)
    (ha : s.jobState = .transferring → ∃ a, Entry.accepted a ∈ s.log ∧ a.job = s.jobCounter) :
    Inv s where
  wants := hw
  started h := absurd (.inl h) hl
  shown h := absurd (.inr h) hl
  accepted := ha
  asked _ hb := absurd (.inr (.inl hb)) hl

theorem idle_not_live {m : Manager} (h : m.state = .idle) : ¬ m.Live := by
  simp [Manager.Live, h]

/-- A live manager has a job that is on its way. -/
theorem job_of_live (h : Inv s) (hl : s.manager.Live) :
    s.jobState = .waitingForLeaf ∨ s.jobState = .transferring := by
  rcases hl with ha | hb
  · exact .inl (h.started ha).2
  · exact (h.shown hb).2

/-- A transfer that the host knows to have ended is not live. -/
theorem not_live_of_shown (h : Inv s) (hp : s.publicState = .success ∨ s.publicState = .fail) :
    ¬ s.manager.Live := by
  rintro (ha | hb)
  · simp [(h.started ha).1] at hp
  · simp [(h.shown hb).1] at hp

/-- A call of the manager.  Where it opens a round of a job that transfers, nothing is remembered of
the round before. -/
theorem managed (h : Inv s) {opens : Prop} {m : Manager} (ht : Manager.Takes opens s.manager m)
    (ho : opens → s.jobState = .transferring → s.lastRequestedSequences = ∅)
    (frames : List Transfer.Down) : Inv (s.managed m frames) where
  wants := ht.wants h.wants
  started ha := by
    refine ⟨?_, (h.started (ht.announcing ha)).2⟩
    replace ha : m.state = .announcing := ha
    simp [State.managed, publicAfter, ha]
  shown hb := by
    refine ⟨?_, h.job_of_live (ht.live (.inr hb))⟩
    replace hb : m.state = .blasting ∨ m.state = .waitingGaps := hb
    rcases hb with hb | hb <;> simp [State.managed, publicAfter, hb]
  accepted hj := by
    obtain ⟨a, ha, hjob⟩ := h.accepted hj
    exact ⟨a, List.mem_cons_of_mem _ ha, hjob⟩
  asked hj hb sequence hseq hlast := by
    rcases ht.blasting h.wants hb with hopens | ⟨hb', hsub⟩
    · replace hlast : sequence ∈ s.lastRequestedSequences := hlast
      simp [ho hopens hj] at hlast
    · refine (h.asked hj hb' sequence (hsub hseq) hlast).cons ?_
      rintro new ⟨⟩ hnew
      exact (Finset.mem_sdiff.1 hnew).2 (hsub hseq)

/-- A message to the host. -/
theorem tell (h : Inv s) {message : Entry} (hm : ∀ new, message ≠ .inserted new) :
    Inv (s.tell message) where
  wants := h.wants
  started := h.started
  shown := h.shown
  accepted hj := by
    obtain ⟨a, ha, hjob⟩ := h.accepted hj
    exact ⟨a, List.mem_cons_of_mem _ ha, hjob⟩
  asked hj hb sequence hseq hlast :=
    (h.asked hj hb sequence hseq hlast).cons fun new heq => absurd heq (hm new)

/-- The host is asked for everything that the manager wants. -/
theorem requestChunks (h : Inv s) (hj : s.jobState = .transferring) (percent : Nat) :
    let s' := ({ s with lastRequestedSequences := s.manager.tracker.requestedSequences } :
      State).requestChunks percent
    Inv s' ∧ AllAsked s' := by
  have hasked (sequence : Nat) (hseq : sequence ∈ s.manager.tracker.requestedSequences) :=
    Asked.head (r := ⟨s.jobCounter, s.chunkRequestCounter + 1, s.manager.tracker.requestedSequences,
      s.manager.tracker.currentIncrement, s.manager.tracker.geometry.totalIncrements,
      s.manager.tracker.retransmitRound, s.manager.tracker.bufferSizeKb, percent⟩)
      rfl hseq (h.accepted hj)
  refine ⟨⟨h.wants, h.started, h.shown, fun _ => ?_, fun _ _ sequence hseq _ => hasked sequence hseq⟩,
    fun _ sequence hseq => hasked sequence hseq⟩
  obtain ⟨a, ha, hjob⟩ := h.accepted hj
  exact ⟨a, List.mem_cons_of_mem _ ha, hjob⟩

/-! ### The turn of the loop -/

/-- In a transfer the host is asked for all that the manager wants, unless this is what was asked
for last. -/
theorem emitRequests (h : Inv s) (hj : s.jobState = .transferring) (percent : Nat) :
    Inv (s.emitRequests percent) ∧ AllAsked (s.emitRequests percent) := by
  unfold State.emitRequests
  dsimp only
  split_ifs with hempty hnew
  · refine ⟨⟨h.wants, h.started, h.shown, h.accepted, fun _ _ _ _ hlast => ?_⟩,
      fun _ sequence hseq => ?_⟩
    · simp at hlast
    · simp [hempty] at hseq
  · exact h.requestChunks hj percent
  · -- everything that is wanted is remembered
    rw [not_or, not_not] at hnew
    exact ⟨h, fun hb sequence hseq => h.asked hj hb sequence hseq (hnew.2 hseq)⟩

/-- A status tells the host nothing about chunks. -/
theorem emitStatus (h : Inv s) (percent : Nat) (state : HostState) (errorDetail : String) :
    Inv (s.emitStatus percent state errorDetail) :=
  h.tell (by simp)

theorem emitProgress (h : Inv s) (hall : AllAsked s) (now : UInt32) (percent : Nat) :
    Inv (s.emitProgress now percent) ∧ AllAsked (s.emitProgress now percent) := by
  unfold State.emitProgress
  dsimp only
  generalize (if s.publicState = .verifying then HostState.verifying else .transferring) = state
  split
  · have ht := h.emitStatus percent state ""
    refine ⟨⟨ht.wants, ht.started, ht.shown, ht.accepted, ht.asked⟩, fun hb sequence hseq => ?_⟩
    exact (hall hb sequence hseq).cons (by simp)
  · exact ⟨h, hall⟩

theorem emitTransferring (h : Inv s) (hj : s.jobState = .transferring) (now : UInt32)
    (percent : Nat) :
    Inv (s.emitTransferring now percent) ∧ AllAsked (s.emitTransferring now percent) := by
  -- a job that ends has no live transfer
  have hquiet (s' : State) (hm : s'.manager = s.manager) (hl : ¬ s.manager.Live)
      (hj' : s'.jobState ≠ .transferring) : Inv s' ∧ AllAsked s' := by
    refine ⟨.quiet (hm ▸ h.wants) (hm ▸ hl) fun ht => absurd ht hj', fun hb => ?_⟩
    exact absurd (.inr (.inl (hm ▸ hb))) hl
  unfold State.emitTransferring
  split_ifs with hsuccess hfail hbusy
  · exact hquiet _ rfl (h.not_live_of_shown (.inl hsuccess.1)) (by simp)
  · exact hquiet _ rfl (h.not_live_of_shown (.inr hfail.1)) (by simp)
  · obtain ⟨hinv, hall⟩ := h.emitRequests hj percent
    obtain ⟨hinv, hall⟩ := hinv.emitProgress hall now percent
    exact ⟨⟨hinv.wants, hinv.started, hinv.shown, hinv.accepted, hinv.asked⟩, hall⟩
  · exact hquiet _ rfl (idle_not_live (by simpa [Manager.isBusy] using hbusy)) (by simp)

/-- The job of a blasting manager is told to the host as accepted, unless the state of an earlier
transfer is remembered. -/
theorem emitWaiting (h : Inv s) (now : UInt32) (percent : Nat)
    (hprev : s.manager.state = .blasting → s.prevPublicState ≠ some .transferring) :
    Inv (s.emitWaiting now percent) ∧ AllAsked (s.emitWaiting now percent) := by
  unfold State.emitWaiting
  dsimp only
  split_ifs with haccept hbusy
  · have ht : Inv (({ s with
        jobState := .transferring, prevPublicState := some .transferring,
        lastStatusPercent := 255, lastStatusMs := now, lastRequestedSequences := ∅ } :
          State).tell (.accepted ⟨s.requestId, s.jobCounter, s.targetMac,
            s.manager.negotiatedChunkSize, s.manager.tracker.geometry.totalChunks, 6⟩)) := by
      refine ⟨h.wants, fun ha => ?_, fun _ => ⟨haccept.2.1, .inr rfl⟩, fun _ => ?_,
        fun _ _ _ _ hlast => by simp [State.tell] at hlast⟩
      · have hp := (h.started ha).1
        simp [haccept.2.1] at hp
      · exact ⟨_, List.mem_cons_self, rfl⟩
    exact ht.requestChunks rfl percent
  · refine ⟨⟨h.wants, h.started, h.shown, h.accepted, h.asked⟩, fun hb => ?_⟩
    exact absurd ⟨hbusy, (h.shown (.inl hb)).1, hprev hb⟩ haccept
  · have hl := idle_not_live (m := s.manager) (by simpa [Manager.isBusy] using hbusy)
    exact ⟨.quiet h.wants hl (by simp), fun hb => absurd (.inr (.inl hb)) hl⟩

/-- One round of events keeps the invariant, if nothing of an earlier job is remembered. -/
theorem emitOtaEvents (h : Inv s) (now : UInt32) (percent : Nat)
    (hprev : s.connected = true → s.jobState = .waitingForLeaf → s.manager.state = .blasting →
      s.prevPublicState ≠ some .transferring) :
    Inv (s.emitOtaEvents now percent) ∧
      (s.connected = true → AllAsked (s.emitOtaEvents now percent)) := by
  unfold State.emitOtaEvents
  split
  · rename_i hc
    exact ⟨h, fun hc' => absurd hc' hc⟩
  rename_i hc
  rw [not_not] at hc
  split
  · rename_i hj
    exact (h.emitWaiting now percent (hprev hc hj)).imp_right fun hall _ => hall
  · rename_i hj
    exact (h.emitTransferring hj now percent).imp_right fun hall _ => hall
  · rename_i hw ht
    refine ⟨h, fun _ hb => ?_⟩
    rcases (h.shown (.inl hb)).2 with hj | hj
    · exact absurd hj hw
    · exact absurd hj ht

/-! ### Every event -/

/-- A transfer that is refused leaves the manager where it is. -/
theorem startTransfer_refused {e : Transfer.Env} {m : Manager} {frames : List Transfer.Down}
    {started : Bool} {mac : Mac} {fileSize remoteMax : Nat} {md5 : Octets 16} {action : UInt8}
    {fileId : Octets 12}
    (h : s.manager.startTransfer (Transfer.managerContext e) s.frames mac fileSize md5 action
      remoteMax fileId = (m, frames, started))
    (hr : State.refused s.manager fileSize remoteMax = true) : m.state = s.manager.state := by
  unfold Manager.startTransfer at h
  dsimp only at h
  split_ifs at h with hzero hbusy hlarge hsmall
  iterate 4
    · obtain ⟨rfl, -, -⟩ := h
      rfl
  · simp [State.refused, hzero, hbusy, hlarge, hsmall] at hr

/-- A new job is accepted, with a counter of its own. -/
theorem apiOtaStart (h : Inv s) (e : Transfer.Env) (o : Order) : Inv (s.apiOtaStart e o).1 := by
  unfold State.apiOtaStart
  cases o.targetMac with
  | none => exact h
  | some mac =>
  cases o.session with
  | none => exact h
  | some remoteMax =>
  dsimp only
  split
  · exact h
  rename_i hbusy
  have hidle : s.manager.state = .idle := by simpa [Manager.isBusy] using hbusy
  cases o.md5 with
  | none => exact h
  | some md5 =>
  obtain ⟨m, frames, started, hstart⟩ : ∃ m frames started,
      s.manager.startTransfer (Transfer.managerContext e) s.frames mac o.fileSize md5 0x01 remoteMax
        o.fileId = (m, frames, started) := ⟨_, _, _, rfl⟩
  obtain ⟨hw, hl⟩ := Manager.startTransfer_spec _ _ _ hidle h.wants hstart
  have hkept := startTransfer_refused (s := s) (e := e) hstart
  dsimp only
  rw [hstart]
  dsimp only
  split
  · rename_i hnot
    refine .quiet hw (fun hlive => hnot (hl hlive).2) fun hj => ?_
    obtain ⟨a, ha, hjob⟩ := h.accepted hj
    exact ⟨a, List.mem_cons_of_mem _ ha, hjob⟩
  · refine ⟨hw, fun ha => ⟨?_, rfl⟩, fun hb => ?_, by simp, by simp⟩
    · replace ha : m.state = .announcing := ha
      have hnot : State.refused s.manager o.fileSize remoteMax = false := by
        by_contra href
        have hsame := hkept (by simpa using href)
        simp [hsame, hidle] at ha
      simp [hnot, ha]
    · have ha : m.state = .announcing := (hl (.inr hb)).1
      replace hb : m.state = .blasting ∨ m.state = .waitingGaps := hb
      simp [ha] at hb

theorem apiOtaAbort (h : Inv s) (e : Transfer.Env) (job : Option Nat) :
    Inv (s.apiOtaAbort e job).1 := by
  unfold State.apiOtaAbort
  dsimp only
  split_ifs
  · exact h
  · exact h
  · have ht := Manager.onSourceAbort_takes (Transfer.managerContext e) s.manager s.frames 0x00
    have hs := Manager.onSourceAbort_state (Transfer.managerContext e) s.manager s.frames 0x00
    exact .quiet (ht.wants h.wants) (idle_not_live hs) (by simp)

/-- A chunk from the host takes its number out of the set. -/
theorem apiOtaInjectChunk (h : Inv s) (sequence : Nat) (data : Bytes) :
    Inv (s.apiOtaInjectChunk sequence data).1 := by
  unfold State.apiOtaInjectChunk
  dsimp only
  split
  · exact h
  · exact h.managed (Manager.onSourceChunk_takes s.manager sequence data) False.elim s.frames

theorem apiOtaResendChunkRequest (h : Inv s) (percent : Nat) :
    Inv (s.apiOtaResendChunkRequest percent) := by
  unfold State.apiOtaResendChunkRequest
  dsimp only
  split_ifs with hj
  · exact ⟨h.wants, h.started, h.shown, h.accepted, fun _ _ _ _ hlast => by simp at hlast⟩
  · exact (h.requestChunks hj.1 percent).1
  · exact h

/-- The `GAPS` that opens a round finds nothing remembered of the round before. -/
theorem fileAck (h : Inv s) (e : Transfer.Env) (leafMac : Mac) (ackType result : UInt8)
    (ref : UInt32) (trailing : Bytes)
    (hlast : s.jobState = .transferring → s.manager.state = .waitingGaps → result = 0x05 →
      s.lastRequestedSequences = ∅) :
    Inv (s.fileAck e leafMac ackType result ref trailing) := by
  refine h.managed (Manager.onFileAck_takes (Transfer.managerContext e) s.manager s.frames leafMac
    ackType result ref trailing) ?_ _
  rintro (ha | ⟨hw, hgaps⟩) hj
  · simp [(h.started ha).2] at hj
  · exact hlast hj hw hgaps

end Inv

/-- The events before which nothing is remembered of another job or another round: at a turn of the
loop, the public state of an earlier transfer when the leaf has accepted this one, and at a `GAPS`,
the last request. -/
def Fresh (s : State) : Event → Prop
  | .tick _ _ => ¬ (s.connected = true ∧ s.jobState = .waitingForLeaf ∧
      s.manager.state = .blasting ∧ s.prevPublicState = some .transferring)
  | .ack _ _ _ result _ _ => ¬ (s.jobState = .transferring ∧ s.manager.state = .waitingGaps ∧
      result = 0x05 ∧ s.lastRequestedSequences ≠ ∅)
  | _ => True

instance Fresh.decidable (s : State) : (event : Event) → Decidable (Fresh s event)
  | .tick _ _ => inferInstanceAs (Decidable (¬ (_ ∧ _ ∧ _ ∧ _)))
  | .ack _ _ _ _ _ _ => inferInstanceAs (Decidable (¬ (_ ∧ _ ∧ _ ∧ _)))
  | .start .. | .abort .. | .chunk .. | .resend .. | .connect | .disconnect => .isTrue trivial

/-- The bridge after a start. -/
def Boot (s : State) : Prop := ∃ config : Config, s = { manager := { config } }

theorem Inv.boot {s : State} (h : Boot s) : Inv s := by
  obtain ⟨config, rfl⟩ := h
  exact .quiet ⟨by simp, fun _ => rfl⟩ (by simp [Manager.Live]) (by simp)

/-- A turn of the loop keeps the invariant, and leaves nothing unasked when the host is connected.
-/
theorem Inv.tick {s : State} (h : Inv s) (e : Transfer.Env) (percent : Nat)
    (hfresh : Fresh s (.tick e percent)) :
    Inv (s.tick e percent) ∧ (s.connected = true → AllAsked (s.tick e percent)) := by
  have ht := Manager.loop_takes (Transfer.managerContext e) s.manager s.frames
  refine (h.managed ht False.elim _).emitOtaEvents e.now percent fun hc hj hb hprev => ?_
  -- the turn has not opened the round
  rcases ht.blasting h.wants hb with ⟨⟨⟩⟩ | ⟨hb, -⟩
  exact hfresh ⟨hc, hj, hb, hprev⟩

/-- One event keeps the invariant. -/
theorem Inv.step {s : State} (h : Inv s) (event : Event) (hfresh : Fresh s event) :
    Inv (step s event) := by
  cases event with
  | start e o => exact h.apiOtaStart e o
  | abort e job => exact h.apiOtaAbort e job
  | chunk sequence data => exact h.apiOtaInjectChunk sequence data
  | resend percent => exact h.apiOtaResendChunkRequest percent
  | connect => exact ⟨h.wants, h.started, h.shown, h.accepted, h.asked⟩
  | disconnect => exact ⟨h.wants, h.started, h.shown, h.accepted, h.asked⟩
  | ack e leafMac ackType result ref trailing =>
    refine h.fileAck e leafMac ackType result ref trailing fun hj hw hgaps => ?_
    by_contra hlast
    exact hfresh ⟨hj, hw, hgaps, hlast⟩
  | tick e percent => exact (h.tick e percent hfresh).1

/-- In every run in which nothing old is remembered, each turn of the loop with the host connected
leaves nothing that a blasting manager wants unasked: the host has been asked for each sequence
number since it was last inserted, and since the job was accepted.  What is remembered of an earlier
job, or of the round before, would keep the request back. -/
theorem all_asked {s : State} (hs : Transition.Reachable Boot Fresh step s) (e : Transfer.Env)
    (percent : Nat) (hfresh : Fresh s (.tick e percent)) (hc : s.connected = true) :
    AllAsked (step s (.tick e percent)) := by
  have hinv : Inv s := hs.invariant (fun _ => Inv.boot) fun _ event h => h.step event
  exact (hinv.tick e percent hfresh).2 hc

/-! Two small runs.  In the first the host ends a job, starts another, and the leaf accepts that
before the next turn of the loop: the bridge has not seen another public state in between, and the
job is never told to be accepted. -/

/-- A moment, with a radio that takes every frame and numbers them. -/
def moment (now : UInt32) : Transfer.Env where
  now
  ackSent _ := true
  frameSent n := (.ok, UInt32.ofNat (n + 1))
  targetReachable := true

/-- An order for a file of two chunks. -/
def smallOrder : Order where
  targetMac := some (Octets.zero 6)
  session := some 250
  fileSize := 128
  md5 := some (Octets.zero 16)
  fileId := Octets.zero 12
  requestId := "start"

/-- The leaf accepts chunks of 64 bytes. -/
def smallAccept (announce : UInt32) : Event :=
  .ack (moment 20) (Octets.zero 6) PacketType.fileTransfer.code 0x00 announce [64, 0, 8, 0x01]

/-- The first run, up to the turn of the loop that should tell of the second job. -/
def abortedStart : State :=
  Transition.runFrom step {} [.connect, .start (moment 10) smallOrder, smallAccept 1,
    .tick (moment 30) 0, .abort (moment 40) none, .start (moment 50) smallOrder, smallAccept 3]

/-- Where the host was never told of the present job, it was not asked for its chunks. -/
theorem not_allAsked_of_earlier {s : State} (hb : s.manager.state = .blasting)
    (hr : s.manager.tracker.requestedSequences ≠ ∅)
    (hlog : s.log.all fun | .accepted a => a.job != s.jobCounter | _ => true) : ¬ AllAsked s := by
  intro hall
  obtain ⟨sequence, hseq⟩ := Finset.nonempty_iff_ne_empty.2 hr
  obtain ⟨a, ha, hjob⟩ := (hall hb sequence hseq).accepted
  have hne := List.all_eq_true.1 hlog _ ha
  simp [hjob] at hne

/-- After a start that was aborted the next job finds its state remembered, and its first chunks are
never asked for. -/
theorem abortedStart_not_allAsked :
    abortedStart.connected = true ∧ ¬ AllAsked (step abortedStart (.tick (moment 60) 0)) :=
  ⟨by decide +kernel,
    not_allAsked_of_earlier (by decide +kernel) (by decide +kernel) (by decide +kernel)⟩

/-- The second run, to the round of the second chunk. -/
def gapRun : List Event :=
  [.connect, .start (moment 10) smallOrder, smallAccept 1, .tick (moment 30) 0,
    .chunk 0 (List.replicate 64 0), .chunk 1 (List.replicate 64 0), .tick (moment 40) 0,
    .tick (moment 50) 0, .ack (moment 60) (Octets.zero 6) PacketType.fileTransfer.code 0x05 4 [1, 0, 1]]

/-- The second round of a transfer, for the one chunk that was lost in the first. -/
theorem all_asked_gapRun :
    (Transition.runFrom step {} gapRun).manager.tracker.requestedSequences = {1} ∧
      AllAsked (step (Transition.runFrom step {} gapRun) (.tick (moment 70) 50)) := by
  have hadmits : Transition.Admits Fresh step {} gapRun := by decide +kernel
  have hfresh : Fresh (Transition.runFrom step {} gapRun) (.tick (moment 70) 50) := by
    decide +kernel
  refine ⟨by decide +kernel, all_asked ?_ _ _ hfresh (by decide +kernel)⟩
  exact (Transition.Reachable.start ⟨{}, rfl⟩).runFrom hadmits

end Jobs

end EspTree
