import EspTree.File.Geometry

/-!
# The file receiver

`esp_tree_remote/remote_file_receiver.{h,cpp}`: the leaf's end of a file transfer.
An `ANNOUNCE` fixes the geometry of the transfer, `FILE_DATA` frames fill a buffer that
holds one increment, `BLAST_COMPLETE` asks for the gaps of the current increment or has
it flashed, and `END` closes the transfer.

The receiver is generic in two things that live elsewhere:

* the action handler (`η`), which stores the data; its virtual functions are the fields
  of `ActionHandler`;
* the owner of the receiver (`π`), through which acknowledgements leave.  In the leaf it
  is the rest of the protocol state, so sending an acknowledgement moves that state.

The clock is read once per call.
-/

namespace EspTree

open Wire

namespace FileReceiver

/-! ## Handlers -/

structure AnnounceResponse where
  accepted : Bool
  rejectReason : UInt8
  negotiatedChunkSize : UInt16
  deriving DecidableEq, Repr

/-- The virtual functions of `FileReceiver::ActionHandler`, on a handler state `η`.
`onAnnounce` also returns the buffer size that it may write through its reference
argument; `onData` returns whether the chunk was accepted. -/
structure ActionHandler (η : Type) where
  onAnnounce : η → (fileSize : UInt32) → (md5 : Octets 16) → (chunkSize : UInt16) →
    (action : UInt8) → (fileId : Octets 12) → (bufferSizeKb : UInt16) →
    η × AnnounceResponse × UInt16
  onData : η → (sequence : Nat) → (data : Bytes) → η × Bool
  onEnd : η → η × UInt8
  onAbort : η → (reason : UInt8) → η
  isReceiving : η → Bool
  wantsRestartAfterComplete : η → Bool
  setMaxChunkSize : η → UInt16 → η

/-- A handler that takes every file. -/
def sink : ActionHandler Unit where
  onAnnounce h _ _ chunkSize _ _ kb := (h, ⟨true, 0, chunkSize⟩, kb)
  onData h _ _ := (h, true)
  onEnd h := (h, 0)
  onAbort h _ := h
  isReceiving _ := true
  wantsRestartAfterComplete _ := false
  setMaxChunkSize h _ := h

/-! ## State -/

inductive State
  | idle | announced | receiving | checking | writing | waitingEnd | verifying | complete
  deriving DecidableEq, Repr

structure IncrementBuffer where
  data : Bytes := []
  receivedBitmap : Bytes := []
  chunksReceived : Nat := 0
  chunksExpected : Nat := 0
  deriving DecidableEq, Repr

namespace IncrementBuffer

def reset (numChunks dataSize : Nat) : IncrementBuffer where
  data := List.replicate dataSize 0
  receivedBitmap := bitmapEmpty numChunks
  chunksReceived := 0
  chunksExpected := numChunks

def isComplete (b : IncrementBuffer) : Bool := b.chunksReceived == b.chunksExpected

def isChunkReceived (b : IncrementBuffer) (i : Nat) : Bool := bitmapGet b.receivedBitmap i

def markChunkReceived (b : IncrementBuffer) (i : Nat) : IncrementBuffer :=
  if i / 8 < b.receivedBitmap.length && !bitmapGet b.receivedBitmap i then
    { b with
      receivedBitmap := bitmapSet b.receivedBitmap i
      chunksReceived := (b.chunksReceived + 1) % 2 ^ 16 }
  else b

end IncrementBuffer

/-- `espnow_file_announce_t`, without the phase byte. -/
structure Announce where
  fileSize : UInt32
  md5 : Octets 16
  chunkSize : UInt16
  action : UInt8
  fileId : Octets 12
  deriving DecidableEq

/-- `ESPNOW_FILE_ACTION_OTA_FLASH`. -/
def actionOtaFlash : UInt8 := 0x01

/-- The fields of `FileReceiver`.  `handlers` is the handler map with the state of each
handler, and `activeHandler` names the active one by its action. -/
structure Receiver (η : Type) where
  state : State := .idle
  activeHandler : Option UInt8 := none
  handlers : UInt8 → Option η
  incrementBuf : IncrementBuffer := {}
  fileSize : Nat := 0
  chunkPayloadSize : Nat := 0
  bufferSizeKb : Nat := maxIncrementKb
  geometry : Geometry := .none
  currentIncrement : Nat := 0
  action : UInt8 := 0
  fileId : Octets 12 := Octets.zero 12
  lastAnnounceMd5 : Octets 16 := Octets.zero 16
  announceTxCounter : UInt32 := 0
  lastActivityMs : UInt32 := 0
  lastBlastCompleteTxCounter : UInt32 := 0
  retransmitRound : Nat := 0
  incrementWritten : Bool := false
  otaEnabled : Bool := false
  deepSleepActive : Bool := false
  maxChunkSize : UInt16 := 221
  restartPending : Bool := false
  restartDueMs : UInt32 := 0
  /-- `esp_restart()` was called. -/
  restarted : Bool := false
  inCompletePhase : Bool := false
  completeAction : UInt8 := 0
  completeResult : UInt8 := 0
  completeAckRemaining : Int := 0
  nextCompleteAckMs : UInt32 := 0

namespace Receiver

variable {η : Type}

/-- The state of the active handler, if there is one. -/
def active? (s : Receiver η) : Option η := s.activeHandler.bind s.handlers

/-- Write back the state of the handler for `action`. -/
def setHandler (s : Receiver η) (action : UInt8) (h : η) : Receiver η :=
  { s with handlers := Function.update s.handlers action (some h) }

def isReceiving (s : Receiver η) : Bool := s.state != .idle

def reset (s : Receiver η) : Receiver η :=
  { s with
    state := .idle
    activeHandler := none
    fileSize := 0
    chunkPayloadSize := 0
    bufferSizeKb := maxIncrementKb
    geometry := .none
    currentIncrement := 0
    action := 0
    fileId := Octets.zero 12
    lastAnnounceMd5 := Octets.zero 16
    announceTxCounter := 0
    lastActivityMs := 0
    lastBlastCompleteTxCounter := 0
    retransmitRound := 0
    incrementWritten := false
    incrementBuf := {}
    inCompletePhase := false
    completeAckRemaining := 0
    nextCompleteAckMs := 0 }

def setMaxChunkSize (H : ActionHandler η) (s : Receiver η) (maxChunk : UInt16) : Receiver η :=
  { s with
    maxChunkSize := maxChunk
    handlers := Function.update s.handlers actionOtaFlash
      ((s.handlers actionOtaFlash).map (H.setMaxChunkSize · maxChunk)) }

end Receiver

/-! ## Acknowledgements -/

/-- What one call of the receiver can use: the handlers, the owner's way of sending an
acknowledgement, and the clock. -/
structure Context (η π : Type) where
  handler : ActionHandler η
  sendAckFn : π → Bytes → π × Bool
  now : UInt32

/-- `ESPNOW_FILE_ACK_*`. -/
def ackAccept : UInt8 := 0x00
def ackReject : UInt8 := 0x01
def ackComplete : UInt8 := 0x03
def ackAbort : UInt8 := 0x04
def ackGaps : UInt8 := 0x05

/-- `ESPNOW_FILE_REJECT_*`. -/
def rejectNoSpace : UInt8 := 0x02
def rejectUnsupported : UInt8 := 0x03
def rejectAlready : UInt8 := 0x04
def rejectDeepSleep : UInt8 := 0x05

/-- `ESPNOW_FILE_ABORT_*`. -/
def abortTimeout : UInt8 := 0x01
def abortSessionLost : UInt8 := 0x02
def abortSendFailure : UInt8 := 0x03
def abortFlashError : UInt8 := 0x04

/-- `ESPNOW_FILE_COMPLETE_SUCCESS`. -/
def completeSuccess : UInt8 := 0x00

namespace Receiver

variable {η π : Type} (x : Context η π)

def sendAck (s : Receiver η) (p : π) (result : UInt8) (trailing : Bytes) : π × Bool :=
  let ref := if result == ackGaps then s.lastBlastCompleteTxCounter else s.announceTxCounter
  x.sendAckFn p
    ([PacketType.fileTransfer.code, result] ++ leEncode 4 ref.toNat ++ trailing)

def sendAckAccept (s : Receiver η) (p : π) : π × Bool :=
  s.sendAck x p ackAccept
    (leEncode 2 s.chunkPayloadSize ++ [UInt8.ofNat s.bufferSizeKb, s.action])

def sendAckReject (s : Receiver η) (p : π) (action reason : UInt8) : π × Bool :=
  s.sendAck x p ackReject [action, reason]

def sendGapsAck (s : Receiver η) (p : π) (bitmap : Bytes) : π × Bool :=
  s.sendAck x p ackGaps (leEncode 2 bitmap.length ++ bitmap)

def sendAckComplete (s : Receiver η) (p : π) (action result : UInt8) : π × Bool :=
  s.sendAck x p ackComplete [action, result]

def sendAckAbort (s : Receiver η) (p : π) (reason : UInt8) : π × Bool :=
  s.sendAck x p ackAbort [reason]

/-- `active_handler_->on_abort(reason)`. -/
def notifyAbort (s : Receiver η) (reason : UInt8) : Receiver η :=
  match s.activeHandler, s.active? with
  | some a, some h => s.setHandler a (x.handler.onAbort h reason)
  | _, _ => s

def abort (s : Receiver η) (p : π) (reason : UInt8) (notifySender : Bool) : Receiver η × π :=
  let s := s.notifyAbort x reason
  let p := if notifySender then (s.sendAckAbort x p reason).1 else p
  (s.reset, p)

/-! ## Announce -/

/-- The idempotence test of `handle_announce_`: the same transfer is announced again. -/
def sameAnnounce (s : Receiver η) (a : Announce) : Bool :=
  s.fileId == a.fileId && s.fileSize == a.fileSize.toNat && s.action == a.action &&
    s.lastAnnounceMd5 == a.md5

/-- The tail of `handle_announce_`, once the handler has accepted. -/
def beginTransfer (s : Receiver η) (p : π) (a : Announce) (chunkSize bufferKb : Nat) :
    Receiver η × π × Bool :=
  let s := { s with
    activeHandler := some a.action
    fileSize := a.fileSize.toNat
    chunkPayloadSize := chunkSize
    action := a.action
    fileId := a.fileId
    lastAnnounceMd5 := a.md5
    bufferSizeKb := bufferKb
    geometry := Geometry.ofTransfer a.fileSize.toNat chunkSize bufferKb }
  let g := s.geometry
  if g.totalChunks = 0 ∨ g.totalIncrements = 0 ∨ g.chunksPerIncrement = 0 then
    let s := (s.notifyAbort x abortFlashError).reset
    let (p, ok) := s.sendAckReject x p a.action rejectUnsupported
    (s, p, ok)
  else
    let first := g.chunksInIncrement 0
    let s := { s with
      currentIncrement := 0
      retransmitRound := 0
      incrementWritten := false
      incrementBuf := IncrementBuffer.reset first (first * chunkSize)
      state := .announced }
    let (p, sent) := s.sendAckAccept x p
    if sent then ({ s with state := .receiving }, p, true)
    else ((s.notifyAbort x abortSendFailure).reset, p, false)

def handleAnnounce (s : Receiver η) (p : π) (a : Announce) : Receiver η × π × Bool :=
  let reject (s : Receiver η) (reason : UInt8) : Receiver η × π × Bool :=
    let (p, ok) := s.sendAckReject x p a.action reason
    (s, p, ok)
  if !s.otaEnabled && a.action == actionOtaFlash then reject s rejectUnsupported
  else if s.deepSleepActive then reject s rejectDeepSleep
  else if s.state != .idle || s.active?.any x.handler.isReceiving then
    if s.sameAnnounce a && (s.state == .announced || s.state == .receiving ||
        s.state == .checking || s.state == .writing) then
      let (p, ok) := s.sendAckAccept x p
      (s, p, ok)
    else reject s rejectAlready
  else if a.fileSize == 0 || a.chunkSize == 0 then reject s rejectUnsupported
  else if 1073741824 < a.fileSize.toNat then reject s rejectNoSpace
  else
    match s.handlers a.action with
    | none => reject s rejectUnsupported
    | some h =>
      let (h, response, bufferKb) := x.handler.onAnnounce h a.fileSize a.md5 a.chunkSize
        a.action a.fileId (UInt16.ofNat maxIncrementKb)
      let s := s.setHandler a.action h
      if !response.accepted then reject s response.rejectReason
      else if response.negotiatedChunkSize == 0 || a.chunkSize < response.negotiatedChunkSize ||
          s.maxChunkSize < response.negotiatedChunkSize then
        reject (s.setHandler a.action (x.handler.onAbort h abortFlashError)) rejectUnsupported
      else
        s.beginTransfer x p a response.negotiatedChunkSize.toNat bufferKb.toNat

/-! ## Data -/

def handleFileData (s : Receiver η) (payload : Bytes) : Receiver η × Bool :=
  if payload.length < 4 then (s, false)
  else if s.state != .receiving || s.active?.isNone then (s, false)
  else
    let sequence := leDecode (payload.take 4)
    let data := payload.drop 4
    let g := s.geometry
    if g.totalChunks ≤ sequence then (s, false)
    else
      let incStart := s.currentIncrement * g.chunksPerIncrement
      let incEnd := min (incStart + g.chunksInIncrement s.currentIncrement) g.totalChunks
      if sequence < incStart ∨ incEnd ≤ sequence then
        (s, decide (sequence < incStart) && s.incrementWritten)
      else
        let expectedLen := g.expectedChunkLen s.fileSize s.chunkPayloadSize sequence
        if expectedLen = 0 ∨ data.length ≠ expectedLen then (s, false)
        else
          let s := { s with lastActivityMs := x.now }
          let chunk := sequence % g.chunksPerIncrement % 2 ^ 16
          if s.incrementBuf.isChunkReceived chunk then (s, true)
          else
            let offset := chunk * s.chunkPayloadSize
            if s.incrementBuf.data.length < offset + data.length then (s, false)
            else
              let buf := { s.incrementBuf with data := overwrite s.incrementBuf.data offset data }
              ({ s with incrementBuf := buf.markChunkReceived chunk }, true)

/-! ## Flashing an increment -/

/-- The length of slice `i` of the current increment: only the last chunk of the increment
can be cut short by the end of the file. -/
def sliceLen (s : Receiver η) (numChunks i : Nat) : Nat :=
  if i = numChunks - 1 then
    let done := s.currentIncrement * s.geometry.chunksPerIncrement * s.chunkPayloadSize +
      i * s.chunkPayloadSize
    if s.fileSize < done + s.chunkPayloadSize then s.fileSize - done else s.chunkPayloadSize
  else s.chunkPayloadSize

/-- The slices that the write loop of `write_increment_to_flash_` visits from chunk `i`
on, each with its sequence number.  The two `break`s of the loop end the list. -/
def incrementSlices (s : Receiver η) (numChunks : Nat) : Nat → Nat → List (Nat × Bytes)
  | 0, _ => []
  | remaining + 1, i =>
    let offset := i * s.chunkPayloadSize
    let len := s.sliceLen numChunks i
    if len = 0 ∨ s.incrementBuf.data.length < offset + len then []
    else
      (s.currentIncrement * s.geometry.chunksPerIncrement + i,
        slice s.incrementBuf.data offset len) ::
        incrementSlices s numChunks remaining (i + 1)

end Receiver

/-- One pass of a write loop: hand the slices to the handler in order, up to the first
one that it does not accept. -/
def flashPass {η : Type} (H : ActionHandler η) (h : η) : List (Nat × Bytes) → η × Bool
  | [] => (h, true)
  | (sequence, data) :: rest =>
    let (h, accepted) := H.onData h sequence data
    if accepted then flashPass H h rest else (h, false)

namespace Receiver

variable {η π : Type} (x : Context η π)

/-- The end of `write_increment_to_flash_`: acknowledge, and move to the next increment or
wait for `END`. -/
def finishIncrement (s : Receiver η) (p : π) : Receiver η × π × Bool :=
  let s := { s with incrementWritten := true }
  if s.geometry.totalIncrements ≤ s.currentIncrement + 1 then
    let s := { s with state := .waitingEnd }
    let (p, ok) := s.sendGapsAck x p []
    (s, p, ok)
  else
    let (p, ok) := s.sendGapsAck x p []
    let next := (s.currentIncrement + 1) % 2 ^ 16
    let chunks := s.geometry.chunksInIncrement next
    ({ s with
        currentIncrement := next
        retransmitRound := 0
        incrementWritten := false
        incrementBuf := IncrementBuffer.reset chunks (chunks * s.chunkPayloadSize)
        state := .receiving }, p, ok)

/-- `FileReceiver::write_increment_to_flash_`: a pass over the increment, and one more
from its start if a chunk was not accepted. -/
def writeIncrementToFlash (s : Receiver η) (p : π) : Receiver η × π × Bool :=
  match s.activeHandler, s.active? with
  | some a, some h =>
    if s.incrementBuf.data.isEmpty then (s, p, false)
    else
      let numChunks := s.geometry.chunksInIncrement s.currentIncrement
      let slices := s.incrementSlices numChunks numChunks 0
      let (h, ok) := flashPass x.handler h slices
      if ok then (s.setHandler a h).finishIncrement x p
      else
        let (h, ok) := flashPass x.handler h slices
        if ok then (s.setHandler a h).finishIncrement x p
        else
          let (s, p) := (s.setHandler a h).abort x p abortFlashError true
          (s, p, false)
  | _, _ => (s, p, false)

/-! ## Control packets -/

/-- `ESPNOW_MAX_RETRANSMIT_ROUNDS`. -/
def maxRetransmitRounds : Nat := 10

def handleBlastComplete (s : Receiver η) (p : π) (increment : Nat) : Receiver η × π × Bool :=
  if s.state != .receiving || s.active?.isNone then (s, p, false)
  else
    let s := { s with lastActivityMs := x.now }
    if s.currentIncrement < increment then (s, p, false)
    else if increment < s.currentIncrement ∨ s.incrementWritten then
      let (p, ok) := s.sendGapsAck x p []
      (s, p, ok)
    else if s.incrementBuf.isComplete then
      let s := { s with state := .writing }
      let (p, ok) := s.sendGapsAck x p []
      if ok then s.writeIncrementToFlash x p else (s, p, false)
    else if maxRetransmitRounds ≤ s.retransmitRound then
      let (s, p) := s.abort x p abortTimeout true
      (s, p, true)
    else
      let s := { s with retransmitRound := (s.retransmitRound + 1) % 2 ^ 8 }
      let (p, ok) := s.sendGapsAck x p s.incrementBuf.receivedBitmap
      ({ s with state := .receiving }, p, ok)

/-- `kCompleteAckRetries`. -/
def completeAckRetries : Int := 5

def handleEnd (s : Receiver η) (p : π) : Receiver η × π × Bool :=
  if s.state != .waitingEnd then (s, p, false)
  else
    match s.activeHandler, s.active? with
    | some a, some h =>
      let s := { s with state := .verifying }
      let (h, result) := x.handler.onEnd h
      let s := s.setHandler a h
      if result == completeSuccess && x.handler.wantsRestartAfterComplete h then
        ({ s with
            completeAction := s.action
            completeResult := result
            completeAckRemaining := completeAckRetries
            nextCompleteAckMs := x.now
            inCompletePhase := true }, p, true)
      else
        let (p, sent) := s.sendAckComplete x p s.action result
        (s.reset, p, sent)
    | _, _ => (s, p, false)

def handleAbort (s : Receiver η) (reason : UInt8) : Receiver η :=
  if s.state == .idle || s.active?.isNone then s else (s.notifyAbort x reason).reset

/-- The packed `espnow_file_announce_t` after its phase byte. -/
def parseAnnounce (body : Bytes) : Announce where
  fileSize := UInt32.ofNat (leDecode (body.take 4))
  md5 := Octets.fit 16 (body.drop 4)
  chunkSize := UInt16.ofNat (leDecode ((body.drop 20).take 2))
  action := body.getD 22 0
  fileId := Octets.fit 12 (body.drop 23)

def handleFileTransfer (s : Receiver η) (p : π) (payload : Bytes) : Receiver η × π × Bool :=
  match payload with
  | [] => (s, p, false)
  | phase :: body =>
    let s := { s with lastActivityMs := x.now }
    if phase == 0x00 then
      if body.length = 35 then s.handleAnnounce x p (parseAnnounce body) else (s, p, false)
    else if phase == 0x01 then
      if body.length = 0 then s.handleEnd x p else (s, p, false)
    else if phase == 0x02 then
      if body.length = 1 then (s.handleAbort x (body.getD 0 0), p, true) else (s, p, false)
    else if phase == 0x03 then
      if body.length = 2 then s.handleBlastComplete x p (leDecode body) else (s, p, false)
    else (s, p, false)

/-! ## The periodic part -/

/-- `ESPNOW_FILE_ANNOUNCE_TIMEOUT_MS`. -/
def announceTimeoutMs : UInt32 := 5000
/-- `ESPNOW_RADIO_SILENCE_ABORT_MS`. -/
def radioSilenceAbortMs : UInt32 := 10000
/-- `kCompleteAckIntervalMs`. -/
def completeAckIntervalMs : UInt32 := 1000
/-- `kRestartDelayMs`. -/
def restartDelayMs : UInt32 := 250

def performRestartIfDue (s : Receiver η) : Receiver η :=
  if !s.restartPending || (x.now - s.restartDueMs).toInt32 < 0 then s
  else { s with restartPending := false, restarted := true }

def loop (s : Receiver η) (p : π) : Receiver η × π :=
  let s := s.performRestartIfDue x
  if s.inCompletePhase then
    let (s, p) :=
      if completeAckIntervalMs ≤ x.now - s.nextCompleteAckMs then
        let (p, _) := s.sendAckComplete x p s.completeAction s.completeResult
        ({ s with
            completeAckRemaining := s.completeAckRemaining - 1
            nextCompleteAckMs := x.now }, p)
      else (s, p)
    if s.completeAckRemaining ≤ 0 then
      ({ s.reset with
          restartPending := true
          restartDueMs := x.now + restartDelayMs }, p)
    else (s, p)
  else if s.state == .idle || s.active?.isNone then (s, p)
  else
    let silence := x.now - s.lastActivityMs
    match s.state with
    | .announced => if announceTimeoutMs < silence then s.abort x p abortTimeout true else (s, p)
    | .writing | .checking => (s, p)
    | _ => if radioSilenceAbortMs < silence then s.abort x p abortTimeout true else (s, p)

/-! ## The owner

The receiver reaches its owner only through acknowledgements, which all start with the code of
`FILE_TRANSFER`. -/

section Owner

variable {x} {r : π → π → Prop}
  (hack : ∀ p rest, Relation.ReflTransGen r p
    (x.sendAckFn p (PacketType.fileTransfer.code :: rest)).1)

include hack

theorem abort_owner (s : Receiver η) (p : π) (reason : UInt8) (notifySender : Bool) :
    Relation.ReflTransGen r p (s.abort x p reason notifySender).2 := by
  cases notifySender with
  | false => exact .refl
  | true => exact hack _ _

theorem beginTransfer_owner (s : Receiver η) (p : π) (a : Announce) (chunkSize bufferKb : Nat) :
    Relation.ReflTransGen r p (s.beginTransfer x p a chunkSize bufferKb).2.1 := by
  unfold beginTransfer
  dsimp only
  split
  · exact hack _ _
  · split <;> exact hack _ _

theorem handleAnnounce_owner (s : Receiver η) (p : π) (a : Announce) :
    Relation.ReflTransGen r p (s.handleAnnounce x p a).2.1 := by
  unfold handleAnnounce
  dsimp only
  repeat' split
  all_goals first
    | exact hack _ _
    | exact beginTransfer_owner hack _ _ _ _ _

theorem finishIncrement_owner (s : Receiver η) (p : π) : Relation.ReflTransGen r p (s.finishIncrement x p).2.1 := by
  unfold finishIncrement
  dsimp only
  split <;> exact hack _ _

theorem writeIncrementToFlash_owner (s : Receiver η) (p : π) :
    Relation.ReflTransGen r p (s.writeIncrementToFlash x p).2.1 := by
  unfold writeIncrementToFlash
  split
  · split
    · exact .refl
    · dsimp only
      split
      · exact finishIncrement_owner hack _ _
      · split
        · exact finishIncrement_owner hack _ _
        · dsimp only
          exact abort_owner hack _ _ _ _
  · exact .refl

theorem handleBlastComplete_owner (s : Receiver η) (p : π) (increment : Nat) :
    Relation.ReflTransGen r p (s.handleBlastComplete x p increment).2.1 := by
  unfold handleBlastComplete
  dsimp only
  split
  · exact .refl
  · split
    · exact .refl
    · split
      · exact hack _ _
      · split
        · split
          · exact (hack _ _).trans (writeIncrementToFlash_owner hack _ _)
          · exact hack _ _
        · split
          · dsimp only
            exact abort_owner hack _ _ _ _
          · exact hack _ _

theorem handleEnd_owner (s : Receiver η) (p : π) : Relation.ReflTransGen r p (s.handleEnd x p).2.1 := by
  unfold handleEnd
  split
  · exact .refl
  · split
    · dsimp only
      split
      · exact .refl
      · exact hack _ _
    · exact .refl

/-- Whatever packet comes in, the owner is only used to send acknowledgements. -/
theorem handleFileTransfer_owner (s : Receiver η) (p : π) (payload : Bytes) :
    Relation.ReflTransGen r p (s.handleFileTransfer x p payload).2.1 := by
  unfold handleFileTransfer
  split
  · exact .refl
  · dsimp only
    repeat' split
    all_goals first
      | exact .refl
      | exact handleAnnounce_owner hack _ _ _
      | exact handleEnd_owner hack _ _
      | exact handleBlastComplete_owner hack _ _ _

/-- So it is for the loop of the receiver. -/
theorem loop_owner (s : Receiver η) (p : π) : Relation.ReflTransGen r p (s.loop x p).2 := by
  unfold loop
  dsimp only
  repeat' split
  all_goals first
    | exact .refl
    | exact hack _ _

end Owner

end Receiver

end FileReceiver

end EspTree
