import EspTree.File.Geometry
import Mathlib.Order.Interval.Finset.Nat

/-!
# The transfer manager of the bridge

`esp_tree_bridge/bridge_ota_manager.{h,cpp}`: the bridge's end of a file transfer.  The
manager announces the file, then for each increment requests its chunks from the source,
sends them as they arrive, sends `BLAST_COMPLETE` and waits for the `GAPS`
acknowledgement, which either advances the increment or starts a retransmission round.

The manager is generic in its owner `π`, through which frames leave (`send_frame_fn_`);
the owner decides whether a frame is sent and under which transmit counter.  The
`status_json` side (progress, public state, error text of the last failure) is kept only
as far as control flow reads it.
-/

namespace EspTree

open Wire

namespace OtaManager

/-- The results of `send_frame_fn_` that the manager tells apart. -/
inductive SendErr
  | ok | noMem | notFound | fail
  deriving DecidableEq, Repr

/-- `ESPNowOTAManager::State`.  `COMPLETE` and `FAILED` are never left standing: the
functions that would enter them reset at once. -/
inductive State
  | idle | announcing | blasting | waitingGaps | ending | aborting
  deriving DecidableEq, Repr

structure Config where
  globalTimeoutMs : UInt32 := 900000
  noMemBackoffMs : Nat := 5
  maxNoMemBackoffMs : Nat := 250
  txCooldownMs : UInt32 := 2
  deriving DecidableEq, Repr

structure IncrementTracker where
  currentIncrement : Nat := 0
  geometry : Geometry := .none
  bufferSizeKb : Nat := maxIncrementKb
  retransmitRound : Nat := 0
  blastCompleteRetries : Nat := 0
  blastCompleteSentMs : UInt32 := 0
  lastBlastCompleteTxCounter : UInt32 := 0
  blastCompleteTxHistory : List UInt32 := []
  gapSequences : Finset Nat := ∅
  requestedSequences : Finset Nat := ∅
  sentSequences : Finset Nat := ∅
  lastRemoteActivityMs : UInt32 := 0

namespace IncrementTracker

def isLastIncrement (t : IncrementTracker) : Bool :=
  decide (t.geometry.totalIncrements ≤ t.currentIncrement + 1)

def chunksInThisIncrement (t : IncrementTracker) : Nat :=
  if t.isLastIncrement then t.geometry.chunksInLastIncrement else t.geometry.chunksPerIncrement

def incrementStartSeq (t : IncrementTracker) : Nat :=
  t.currentIncrement * t.geometry.chunksPerIncrement

def incrementEndSeq (t : IncrementTracker) : Nat :=
  min (t.incrementStartSeq + t.chunksInThisIncrement) t.geometry.totalChunks

end IncrementTracker

structure QueuedChunk where
  sequence : Nat
  data : Bytes
  deriving DecidableEq, Repr

/-- The fields of `ESPNowOTAManager`. -/
structure Manager where
  config : Config := {}
  state : State := .idle
  tracker : IncrementTracker := {}
  leafMac : Mac := Octets.zero 6
  md5 : Octets 16 := Octets.zero 16
  fileId : Octets 12 := Octets.zero 12
  fileSize : Nat := 0
  transferStartedMs : UInt32 := 0
  lastActivityMs : UInt32 := 0
  lastControlSendMs : UInt32 := 0
  announceTxCounter : UInt32 := 0
  noMemBackoffUntilMs : UInt32 := 0
  lastChunkSendMs : UInt32 := 0
  requestedChunkSize : Nat := 0
  negotiatedChunkSize : Nat := 0
  maxEncryptedPlaintext : Nat := 0
  action : UInt8 := 0
  controlAttemptCount : Nat := 0
  consecutiveNoMemErrors : Nat := 0
  lastError : String := ""
  pendingChunks : List QueuedChunk := []

/-- What one call of the manager can use: the owner's way of sending a frame, the clock
and the reachability of the target. -/
structure Context (π : Type) where
  sendFrameFn : π → Mac → PacketType → Bytes → π × SendErr × UInt32
  now : UInt32
  targetReachable : Bool := true

/-- `ESPNOW_FILE_MAX_RETRIES`. -/
def maxRetries : Nat := 3
/-- `ESPNOW_MAX_BLAST_COMPLETE_RETRIES`. -/
def maxBlastCompleteRetries : Nat := 20
/-- `ESPNOW_MAX_RETRANSMIT_ROUNDS`. -/
def maxRetransmitRounds : Nat := 10
/-- `ESPNOW_FILE_ANNOUNCE_TIMEOUT_MS`. -/
def announceTimeoutMs : UInt32 := 5000
/-- `ESPNOW_BLAST_COMPLETE_TIMEOUT_MS`. -/
def blastCompleteTimeoutMs : UInt32 := 1000
/-- `ESPNOW_RADIO_SILENCE_ABORT_MS`. -/
def radioSilenceAbortMs : UInt32 := 10000
/-- `ESPNOW_WAITING_GAPS_TIMEOUT_MS`. -/
def waitingGapsTimeoutMs : UInt32 := 45000
/-- `ESPNOW_FILE_DATA_HEADER_OVERHEAD`. -/
def fileDataHeaderOverhead : Nat := headerLen + 4 + sessionTagLen

def abortReasonToString (reason : UInt8) : String :=
  if reason = 0x00 then "user_abort"
  else if reason = 0x01 then "timeout"
  else if reason = 0x02 then "session_lost"
  else if reason = 0x03 then "send_failure"
  else if reason = 0x04 then "flash_error"
  else "abort_unknown"

def rejectReasonToString (reason : UInt8) : String :=
  if reason = 0x01 then "busy"
  else if reason = 0x02 then "no_space"
  else if reason = 0x03 then "unsupported_action"
  else if reason = 0x04 then "already_receiving"
  else if reason = 0x05 then "deep_sleep"
  else if reason = 0x06 then "chip_mismatch"
  else "reject_unknown"

def completeResultToString (result : UInt8) : String :=
  if result = 0x00 then "success"
  else if result = 0x01 then "md5_mismatch"
  else if result = 0x02 then "flash_error"
  else if result = 0x03 then "write_error"
  else if result = 0x04 then "aborted"
  else "complete_unknown"

namespace Manager

def isBusy (m : Manager) : Bool := m.state != .idle

def reset (m : Manager) : Manager :=
  { config := m.config
    maxEncryptedPlaintext := m.maxEncryptedPlaintext
    lastError := m.lastError }

def expectedChunkLen (m : Manager) (sequence : Nat) : Nat :=
  m.tracker.geometry.expectedChunkLen m.fileSize m.negotiatedChunkSize sequence

def clampChunkSize (remoteMaxFramePayload : Nat) : Nat := remoteMaxFramePayload - fileDataHeaderOverhead

variable {π : Type} (x : Context π)

/-- The pause of `mark_no_mem_backoff_` after the given number of errors in a row. -/
def noMemPauseMs (config : Config) (errors : Nat) : UInt32 :=
  let shift := min ((errors + 2 ^ 8 - 1) % 2 ^ 8) 7
  let backoff :=
    if 0 < shift then min (config.noMemBackoffMs * 2 ^ shift) config.maxNoMemBackoffMs
    else config.noMemBackoffMs
  UInt32.ofNat (min backoff config.maxNoMemBackoffMs)

def markNoMemBackoff (m : Manager) : Manager :=
  { m with
    consecutiveNoMemErrors := (m.consecutiveNoMemErrors + 1) % 2 ^ 8
    noMemBackoffUntilMs :=
      x.now + noMemPauseMs m.config ((m.consecutiveNoMemErrors + 1) % 2 ^ 8) }

def decayNoMemBackoff (m : Manager) : Manager :=
  if 0 < m.consecutiveNoMemErrors then
    let errors := m.consecutiveNoMemErrors / 2
    { m with
      consecutiveNoMemErrors := errors
      noMemBackoffUntilMs := if errors = 0 then 0 else m.noMemBackoffUntilMs }
  else m

def clearNoMemBackoff (m : Manager) : Manager :=
  { m with consecutiveNoMemErrors := 0, noMemBackoffUntilMs := 0 }

section Backoff

variable (m : Manager)

@[simp] theorem markNoMemBackoff_state : (m.markNoMemBackoff x).state = m.state := by
  simp only [markNoMemBackoff]
@[simp] theorem markNoMemBackoff_tracker : (m.markNoMemBackoff x).tracker = m.tracker := by
  simp only [markNoMemBackoff]
@[simp] theorem markNoMemBackoff_negotiatedChunkSize :
    (m.markNoMemBackoff x).negotiatedChunkSize = m.negotiatedChunkSize := by
  simp only [markNoMemBackoff]
@[simp] theorem markNoMemBackoff_pendingChunks :
    (m.markNoMemBackoff x).pendingChunks = m.pendingChunks := by
  simp only [markNoMemBackoff]

@[simp] theorem clearNoMemBackoff_state : m.clearNoMemBackoff.state = m.state := rfl
@[simp] theorem clearNoMemBackoff_tracker : m.clearNoMemBackoff.tracker = m.tracker := rfl
@[simp] theorem clearNoMemBackoff_negotiatedChunkSize :
    m.clearNoMemBackoff.negotiatedChunkSize = m.negotiatedChunkSize := rfl
@[simp] theorem clearNoMemBackoff_pendingChunks :
    m.clearNoMemBackoff.pendingChunks = m.pendingChunks := rfl

@[simp] theorem decayNoMemBackoff_state : m.decayNoMemBackoff.state = m.state := by
  unfold decayNoMemBackoff; split <;> rfl
@[simp] theorem decayNoMemBackoff_tracker : m.decayNoMemBackoff.tracker = m.tracker := by
  unfold decayNoMemBackoff; split <;> rfl
@[simp] theorem decayNoMemBackoff_negotiatedChunkSize :
    m.decayNoMemBackoff.negotiatedChunkSize = m.negotiatedChunkSize := by
  unfold decayNoMemBackoff; split <;> rfl
@[simp] theorem decayNoMemBackoff_pendingChunks :
    m.decayNoMemBackoff.pendingChunks = m.pendingChunks := by
  unfold decayNoMemBackoff; split <;> rfl

end Backoff

/-- Send one control packet to the leaf of the transfer. -/
def sendControl (m : Manager) (p : π) (payload : Bytes) : π × SendErr × UInt32 :=
  x.sendFrameFn p m.leafMac .fileTransfer payload

def sendAbort (m : Manager) (p : π) (reason : UInt8) : Manager × π :=
  let (p, err, _) := m.sendControl x p [0x02, reason]
  if err = .noMem then (m.markNoMemBackoff x, p) else (m.clearNoMemBackoff, p)

def failTransfer (m : Manager) (p : π) (reason : UInt8) (message : String)
    (notifyRemote : Bool) : Manager × π :=
  let m := { m with lastError := message }
  let (m, p) :=
    if notifyRemote && m.state != .aborting then
      ({ m with state := .aborting } : Manager).sendAbort x p reason
    else (m, p)
  (m.reset, p)

@[simp] theorem failTransfer_state (m : Manager) (p : π) (reason : UInt8) (message : String)
    (notifyRemote : Bool) :
    (m.failTransfer x p reason message notifyRemote).1.state = .idle := rfl

@[simp] theorem failTransfer_pendingChunks (m : Manager) (p : π) (reason : UInt8)
    (message : String) (notifyRemote : Bool) :
    (m.failTransfer x p reason message notifyRemote).1.pendingChunks = [] := rfl

/-- A failing transfer sends at most its `ABORT`. -/
theorem failTransfer_snd (m : Manager) (p : π) (reason : UInt8) (message : String)
    (notifyRemote : Bool) :
    (m.failTransfer x p reason message notifyRemote).2 = p ∨
      (m.failTransfer x p reason message notifyRemote).2 =
        (x.sendFrameFn p m.leafMac .fileTransfer [0x02, reason]).1 := by
  unfold failTransfer sendAbort
  dsimp only
  split
  · right
    split <;> rfl
  · exact .inl rfl

/-- The packed `espnow_file_announce_t`. -/
def announcePayload (m : Manager) : Bytes :=
  [0x00] ++ leEncode 4 m.fileSize ++ m.md5.bytes ++ leEncode 2 m.requestedChunkSize ++
    [m.action] ++ m.fileId.bytes

def sendAnnounce (m : Manager) (p : π) : Manager × π × Bool :=
  if m.state ≠ .announcing then (m, p, false)
  else if maxRetries ≤ m.controlAttemptCount then
    let (m, p) := m.failTransfer x p 0x01 "announce retry limit exceeded" true
    (m, p, false)
  else
    let (p, err, txCounter) := m.sendControl x p m.announcePayload
    match err with
    | .noMem => (m.markNoMemBackoff x, p, false)
    | .ok =>
      let m := m.clearNoMemBackoff
      ({ m with
          announceTxCounter := txCounter
          lastControlSendMs := x.now
          lastActivityMs := x.now
          controlAttemptCount := m.controlAttemptCount + 1 }, p, true)
    | .notFound =>
      let (m, p) := m.clearNoMemBackoff.failTransfer x p 0x02 "target unreachable" false
      (m, p, false)
    | .fail =>
      let (m, p) := m.clearNoMemBackoff.failTransfer x p 0x03 "failed to send announce" false
      (m, p, false)

def startTransfer (m : Manager) (p : π) (leafMac : Mac) (fileSize : Nat) (md5 : Octets 16)
    (action : UInt8) (remoteMaxFramePayload : Nat) (fileId : Octets 12) : Manager × π × Bool :=
  if fileSize = 0 then (m, p, false)
  else if m.isBusy then ({ m with lastError := "busy" }, p, false)
  else if 1073741824 < fileSize then
    ({ m with lastError := "file_size exceeds 1GB limit" }, p, false)
  else if clampChunkSize remoteMaxFramePayload < 64 then
    ({ m with lastError := "remote chunk size below minimum" }, p, false)
  else
    let m : Manager :=
      { config := m.config
        maxEncryptedPlaintext := maxPlaintext remoteMaxFramePayload
        leafMac, md5, fileSize, action, fileId
        requestedChunkSize := clampChunkSize remoteMaxFramePayload
        negotiatedChunkSize := clampChunkSize remoteMaxFramePayload
        transferStartedMs := x.now
        lastActivityMs := x.now
        state := .announcing }
    let (m, p, ok) := m.sendAnnounce x p
    (m, p, ok || m.state != .idle)

def sendBlastComplete (m : Manager) (p : π) : Manager × π × Bool :=
  let (p, err, txCounter) := m.sendControl x p ([0x03] ++ leEncode 2 m.tracker.currentIncrement)
  match err with
  | .noMem => (m.markNoMemBackoff x, p, false)
  | .ok =>
    let m := m.clearNoMemBackoff
    let history := m.tracker.blastCompleteTxHistory ++ [txCounter]
    ({ m with
        tracker := { m.tracker with
          lastBlastCompleteTxCounter := txCounter
          blastCompleteTxHistory := if 8 < history.length then history.tail else history
          blastCompleteSentMs := x.now
          blastCompleteRetries := (m.tracker.blastCompleteRetries + 1) % 2 ^ 8 }
        lastActivityMs := x.now }, p, true)
  | .notFound =>
    let (m, p) := m.clearNoMemBackoff.failTransfer x p 0x02
      "target unreachable during BLAST_COMPLETE" false
    (m, p, false)
  | .fail => (m.clearNoMemBackoff, p, false)

/-- A `BLAST_COMPLETE` that was sent leaves the manager in its state. -/
theorem sendBlastComplete_state {m : Manager} {p : π} (h : (m.sendBlastComplete x p).2.2 = true) :
    (m.sendBlastComplete x p).1.state = m.state := by
  revert h
  unfold sendBlastComplete
  dsimp only
  split <;> simp

def sendEnd (m : Manager) (p : π) : Manager × π :=
  if m.state ≠ .waitingGaps ∧ m.state ≠ .ending then (m, p)
  else if maxRetries ≤ m.controlAttemptCount then
    m.failTransfer x p 0x01 "end retry limit exceeded" true
  else
    let (p, err, _) := m.sendControl x p [0x01]
    match err with
    | .noMem => (m.markNoMemBackoff x).failTransfer x p 0x03 "end no mem" true
    | .ok =>
      let m := m.clearNoMemBackoff
      ({ m with
          state := .ending
          lastControlSendMs := x.now
          lastActivityMs := x.now
          controlAttemptCount := m.controlAttemptCount + 1 }, p)
    | .notFound => m.clearNoMemBackoff.failTransfer x p 0x02 "target unreachable" false
    | .fail => m.clearNoMemBackoff.failTransfer x p 0x03 "failed to send end" true

/-- The `FILE_DATA` payload of a chunk: the sequence number, then the data. -/
def chunkPayload (sequence : Nat) (data : Bytes) : Bytes := leEncode 4 sequence ++ data

def sendChunk (m : Manager) (p : π) (chunk : QueuedChunk) : Manager × π × Bool :=
  let payload := chunkPayload chunk.sequence chunk.data
  if m.maxEncryptedPlaintext < payload.length then
    let (m, p) := m.failTransfer x p 0x03 "chunk payload exceeds encrypted limit" true
    (m, p, false)
  else
    let (p, err, _) := x.sendFrameFn p m.leafMac .fileData payload
    match err with
    | .noMem => (m.markNoMemBackoff x, p, false)
    | .ok =>
      let m := m.decayNoMemBackoff
      ({ m with
          lastChunkSendMs := x.now
          lastActivityMs := x.now
          tracker := if m.state = .blasting then
            { m.tracker with lastRemoteActivityMs := x.now } else m.tracker }, p, true)
    | _ => (m.decayNoMemBackoff, p, false)

/-- A chunk that was sent leaves the manager in its state, with its queue. -/
theorem sendChunk_state {m : Manager} {p : π} {q : QueuedChunk}
    (h : (m.sendChunk x p q).2.2 = true) :
    (m.sendChunk x p q).1.state = m.state ∧
      (m.sendChunk x p q).1.pendingChunks = m.pendingChunks := by
  revert h
  unfold sendChunk
  dsimp only
  split
  · simp
  · split <;> simp

def requestIncrementChunks (m : Manager) : Manager :=
  let t := m.tracker
  let requested :=
    if t.retransmitRound = 0 then Finset.Ico t.incrementStartSeq t.incrementEndSeq
    else t.gapSequences
  { m with tracker := { t with requestedSequences := requested, sentSequences := ∅ } }

def onSourceChunk (m : Manager) (sequence : Nat) (data : Bytes) : Manager × Bool :=
  if m.state ≠ .blasting then (m, false)
  else if sequence ∉ m.tracker.requestedSequences then (m, false)
  else
    let expectedLen := m.expectedChunkLen sequence
    if expectedLen = 0 ∨ data.length ≠ expectedLen then (m, false)
    else
      ({ m with
          pendingChunks := m.pendingChunks ++ [⟨sequence, data⟩]
          tracker := { m.tracker with
            requestedSequences := m.tracker.requestedSequences.erase sequence } }, true)

def onSourceAbort (m : Manager) (p : π) (reason : UInt8) : Manager × π :=
  if m.isBusy then m.failTransfer x p reason (abortReasonToString reason) true else (m, p)

/-- The two tests that hold back `pump_blasting_` and `pump_queued_chunks_`: memory
back-off and transmit cool-down. -/
def heldBack (m : Manager) : Bool :=
  decide (x.now < m.noMemBackoffUntilMs) ||
    (decide (0 < m.config.txCooldownMs) && decide (0 < m.lastChunkSendMs) &&
      decide (x.now - m.lastChunkSendMs < m.config.txCooldownMs))

def pumpBlasting (m : Manager) : Manager :=
  if m.state ≠ .blasting ∨ m.heldBack x then m
  else if m.tracker.requestedSequences = ∅ ∧ m.tracker.sentSequences = ∅ ∧
      m.pendingChunks = [] then m.requestIncrementChunks
  else m

/-- Send `BLAST_COMPLETE` and, if it was sent, wait for the gaps. -/
def closeBlast (m : Manager) (p : π) : Manager × π :=
  let (m, p, ok) := m.sendBlastComplete x p
  if ok then ({ m with state := .waitingGaps }, p) else (m, p)

/-- The front chunk was sent: it leaves the queue. -/
def popChunk (m : Manager) (sequence : Nat) (rest : List QueuedChunk) : Manager :=
  { m with
    tracker := { m.tracker with sentSequences := insert sequence m.tracker.sentSequences }
    pendingChunks := rest }

def pumpQueuedChunks (m : Manager) (p : π) : Manager × π :=
  if m.state ≠ .blasting ∨ m.heldBack x then (m, p)
  else
    match m.pendingChunks with
    | [] =>
      if m.tracker.requestedSequences = ∅ ∧ m.tracker.sentSequences ≠ ∅ then m.closeBlast x p
      else (m, p)
    | chunk :: rest =>
      let (m, p, sent) := m.sendChunk x p chunk
      if !sent then (m, p)
      else
        let m := m.popChunk chunk.sequence rest
        if rest = [] ∧ m.tracker.requestedSequences = ∅ then m.closeBlast x p else (m, p)

def handleAccept (m : Manager) (p : π) (trailing : Bytes) : Manager × π :=
  if trailing.length < 4 then m.failTransfer x p 0x03 "malformed accept ack" true
  else
    let chunkSize := leDecode (trailing.take 2)
    let remoteBufferKb := (trailing.getD 2 0).toNat
    if trailing.getD 3 0 ≠ m.action then
      m.failTransfer x p 0x03 "accept ack action mismatch" true
    else if chunkSize = 0 ∨ m.requestedChunkSize < chunkSize then
      m.failTransfer x p 0x03 "invalid negotiated chunk size" true
    else if remoteBufferKb = 0 then
      m.failTransfer x p 0x03 "remote buffer_size_kb is 0" true
    else
      let geometry := Geometry.ofTransfer m.fileSize chunkSize remoteBufferKb
      let m := { m with
        negotiatedChunkSize := chunkSize
        tracker := { m.tracker with
          bufferSizeKb := min remoteBufferKb maxIncrementKb
          geometry
          currentIncrement := 0
          retransmitRound := 0
          blastCompleteRetries := 0
          blastCompleteTxHistory := []
          lastRemoteActivityMs := x.now } }
      if geometry.totalChunks = 0 then
        m.failTransfer x p 0x03 "invalid negotiated geometry" true
      else
        (({ m with controlAttemptCount := 0, state := .blasting } : Manager).requestIncrementChunks,
          p)

/-- The chunks of the current increment that a gaps bitmap does not show. -/
def missingSequences (m : Manager) (bitmap : Bytes) : Finset Nat :=
  ((Finset.range m.tracker.chunksInThisIncrement).filter
    (fun i => bitmapGet bitmap i = false)).image (m.tracker.incrementStartSeq + ·)

def handleGapsAck (m : Manager) (p : π) (trailing : Bytes) : Manager × π :=
  if trailing.length < 2 then m.failTransfer x p 0x03 "malformed gaps ack" true
  else
    let bitmapLen := leDecode (trailing.take 2)
    if trailing.length < 2 + bitmapLen then
      m.failTransfer x p 0x03 "gaps ack trailing too short" true
    else if bitmapLen = 0 then
      if m.tracker.isLastIncrement then
        ({ m with state := .ending, controlAttemptCount := 0 } : Manager).sendEnd x p
      else
        (({ m with
            tracker := { m.tracker with
              blastCompleteRetries := 0
              blastCompleteTxHistory := []
              retransmitRound := 0
              currentIncrement := (m.tracker.currentIncrement + 1) % 2 ^ 16
              requestedSequences := ∅
              sentSequences := ∅
              gapSequences := ∅ }
            state := .blasting } : Manager).requestIncrementChunks, p)
    else if maxRetransmitRounds ≤ m.tracker.retransmitRound then
      m.failTransfer x p 0x01 "retransmit rounds exceeded" true
    else
      let gaps := m.missingSequences ((trailing.drop 2).take bitmapLen)
      if gaps = ∅ then
        (({ m with
            tracker := { m.tracker with
              retransmitRound := 0
              blastCompleteRetries := 0
              requestedSequences := ∅
              sentSequences := ∅
              gapSequences := ∅
              currentIncrement := (m.tracker.currentIncrement + 1) % 2 ^ 16 }
            state := .blasting } : Manager).requestIncrementChunks, p)
      else
        ({ m with
            tracker := { m.tracker with
              gapSequences := gaps
              retransmitRound := (m.tracker.retransmitRound + 1) % 2 ^ 8
              blastCompleteRetries := 0
              blastCompleteTxHistory := []
              requestedSequences := gaps
              sentSequences := ∅ }
            state := .blasting }, p)

def handleComplete (m : Manager) (p : π) (trailing : Bytes) : Manager × π :=
  if trailing.length < 2 then m.failTransfer x p 0x03 "malformed complete ack" false
  else if trailing.getD 0 0 ≠ m.action then
    m.failTransfer x p 0x03 "complete ack action mismatch" false
  else if trailing.getD 1 0 = 0x00 then (({ m with lastError := "" } : Manager).reset, p)
  else m.failTransfer x p 0x04 (completeResultToString (trailing.getD 1 0)) false

def handleReject (m : Manager) (p : π) (trailing : Bytes) : Manager × π :=
  m.failTransfer x p 0x03 (if trailing.length < 2 then "malformed reject ack"
    else rejectReasonToString (trailing.getD 1 0)) false

def handleAbortAck (m : Manager) (p : π) (trailing : Bytes) : Manager × π :=
  m.failTransfer x p (trailing.getD 0 0x01) (abortReasonToString (trailing.getD 0 0x01)) false

/-- An acknowledgement shows that the leaf is alive. -/
def noteActivity (m : Manager) : Manager :=
  { m with
    lastActivityMs := x.now
    tracker := { m.tracker with lastRemoteActivityMs := x.now } }

/-- The `switch` of `on_file_ack` on the result byte.  The flag is the return value. -/
def dispatchFileAck (m : Manager) (p : π) (result : UInt8) (refTxCounter : UInt32)
    (trailing : Bytes) : (Manager × π) × Bool :=
  if result = 0x00 then
    if m.state ≠ .announcing then ((m, p), true)
    else if refTxCounter ≠ m.announceTxCounter then ((m, p), false)
    else (m.handleAccept x p trailing, true)
  else if result = 0x01 then (m.handleReject x p trailing, true)
  else if result = 0x05 then
    if m.state ≠ .waitingGaps then ((m, p), true)
    else if refTxCounter ∉ m.tracker.blastCompleteTxHistory then ((m, p), false)
    else (m.handleGapsAck x p trailing, true)
  else if result = 0x03 then (m.handleComplete x p trailing, true)
  else if result = 0x04 then (m.handleAbortAck x p trailing, true)
  else ((m, p), false)

def onFileAck (m : Manager) (p : π) (leafMac : Mac) (ackType result : UInt8)
    (refTxCounter : UInt32) (trailing : Bytes) : (Manager × π) × Bool :=
  if !m.isBusy ∨ ackType ≠ PacketType.fileTransfer.code ∨ m.leafMac ≠ leafMac then
    ((m, p), false)
  else (m.noteActivity x).dispatchFileAck x p result refTxCounter trailing

/-- The radio-silence test of `loop`. -/
def remoteSilent (m : Manager) : Bool :=
  decide (0 < m.tracker.lastRemoteActivityMs) &&
    (m.state == .blasting || m.state == .waitingGaps) &&
    decide ((if m.state = .waitingGaps then waitingGapsTimeoutMs else radioSilenceAbortMs) <
      x.now - m.tracker.lastRemoteActivityMs)

/-- The `switch` of `loop`: what is due in the current state. -/
def advance (m : Manager) (p : π) : Manager × π :=
  match m.state with
  | .announcing =>
    if m.controlAttemptCount = 0 ∨ announceTimeoutMs ≤ x.now - m.lastControlSendMs then
      let (m, p, _) := m.sendAnnounce x p
      (m, p)
    else (m, p)
  | .blasting => (m.pumpBlasting x).pumpQueuedChunks x p
  | .waitingGaps =>
    if 0 < m.tracker.blastCompleteSentMs ∧
        blastCompleteTimeoutMs ≤ x.now - m.tracker.blastCompleteSentMs then
      if maxBlastCompleteRetries ≤ m.tracker.blastCompleteRetries then
        m.failTransfer x p 0x01 "BLAST_COMPLETE retry limit exceeded" true
      else
        let (m, p, _) := m.sendBlastComplete x p
        (m, p)
    else (m, p)
  | .ending =>
    if m.controlAttemptCount = 0 ∨ announceTimeoutMs ≤ x.now - m.lastControlSendMs then
      m.sendEnd x p
    else (m, p)
  | .aborting | .idle => (m, p)

def loop (m : Manager) (p : π) : Manager × π :=
  if !m.isBusy then (m, p)
  else if !x.targetReachable then m.failTransfer x p 0x02 "target unreachable" false
  else if 0 < m.config.globalTimeoutMs ∧ m.config.globalTimeoutMs < x.now - m.transferStartedMs then
    m.failTransfer x p 0x01 "transfer global timeout" true
  else if x.now < m.noMemBackoffUntilMs then (m, p)
  else if m.remoteSilent x then m.failTransfer x p 0x01 "radio silence from remote" true
  else m.advance x p

end Manager

end OtaManager

end EspTree
