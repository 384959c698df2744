import EspTree.Lib.System
import EspTree.File.Manager
import EspTree.File.Receiver

/-!
# One transfer: manager, receiver and the radio between them

The two ends of a file transfer composed over a radio that loses, duplicates, delays and
reorders: `downlink` and `uplink` hold every frame and acknowledgement ever sent, and an
event may deliver any of them at any time, any number of times, or never.  The radio also
decides which sends report an error.

The receiver's action handler is arbitrary; `recording` wraps it so that the calls of
`on_data` are written down together with the handler's answers.

A `Handshake` is the opening of one transfer, from `start_transfer` to the `ACCEPT` that
reaches the manager; `system` runs from there.
-/

namespace EspTree

open Wire FileReceiver OtaManager

/-! ## Recording the handler's calls -/

/-- One call of `on_data`, with the handler's answer. -/
structure DataCall where
  sequence : Nat
  data : Bytes
  accepted : Bool
  deriving DecidableEq, Repr

/-- The handler `H`, with its `on_data` calls written down. -/
def recording {η : Type} (H : ActionHandler η) : ActionHandler (η × List DataCall) where
  onAnnounce h fileSize md5 chunkSize action fileId kb :=
    let (h', response, kb) := H.onAnnounce h.1 fileSize md5 chunkSize action fileId kb
    ((h', h.2), response, kb)
  onData h sequence data :=
    let (h', accepted) := H.onData h.1 sequence data
    ((h', h.2 ++ [⟨sequence, data, accepted⟩]), accepted)
  onEnd h := let (h', result) := H.onEnd h.1; ((h', h.2), result)
  onAbort h reason := (H.onAbort h.1 reason, h.2)
  isReceiving h := H.isReceiving h.1
  wantsRestartAfterComplete h := H.wantsRestartAfterComplete h.1
  setMaxChunkSize h n := (H.setMaxChunkSize h.1 n, h.2)

namespace Transfer

variable {η : Type}

/-- A frame from the bridge to the leaf. -/
structure Down where
  txCounter : UInt32
  type : PacketType
  payload : Bytes
  deriving DecidableEq

/-- What the environment decides in one step: the clock, the outcome of each send, and
whether the target still has a session.  Sends are numbered by the frames sent so far. -/
structure Env where
  now : UInt32
  ackSent : Nat → Bool
  frameSent : Nat → SendErr × UInt32
  targetReachable : Bool

/-- The state of one transfer. -/
structure State (η : Type) where
  receiver : Receiver (η × List DataCall)
  manager : Manager
  downlink : List Down := []
  uplink : List Bytes := []

/-- The receiver's surroundings: an acknowledgement goes to the uplink. -/
def receiverContext (H : ActionHandler η) (e : Env) :
    FileReceiver.Context (η × List DataCall) (List Bytes) where
  handler := recording H
  sendAckFn acks payload := (acks ++ [payload], e.ackSent acks.length)
  now := e.now

/-- The manager's surroundings: a frame goes to the downlink. -/
def managerContext (e : Env) : OtaManager.Context (List Down) where
  sendFrameFn frames _ type payload :=
    let (err, txCounter) := e.frameSent frames.length
    (frames ++ [⟨txCounter, type, payload⟩], err, txCounter)
  now := e.now
  targetReachable := e.targetReachable

/-- `RemoteProtocol::handle_file_transfer_` after decryption: the counters of `ANNOUNCE`
and `BLAST_COMPLETE` are noted before the packet is handled. -/
def noteTxCounter (r : Receiver η) (txCounter : UInt32) (payload : Bytes) : Receiver η :=
  match payload with
  | [] => r
  | phase :: _ =>
    let r := if phase == 0x00 then { r with announceTxCounter := txCounter } else r
    if phase == 0x03 then { r with lastBlastCompleteTxCounter := txCounter } else r

/-- A frame of the downlink reaches the leaf. -/
def deliverDown (H : ActionHandler η) (e : Env) (f : Down) (s : State η) : State η :=
  match f.type with
  | .fileData =>
    { s with receiver := (s.receiver.handleFileData (receiverContext H e) f.payload).1 }
  | .fileTransfer =>
    let r := noteTxCounter s.receiver f.txCounter f.payload
    let (r, acks, _) := r.handleFileTransfer (receiverContext H e) s.uplink f.payload
    { s with receiver := r, uplink := acks }
  | _ => s

/-- An acknowledgement of the uplink reaches the bridge: `BridgeProtocol::handle_ack_`
hands the header and what trails it to `on_file_ack`. -/
def deliverUp (e : Env) (ack : Bytes) (s : State η) : State η :=
  let ((m, frames), _) := s.manager.onFileAck (managerContext e) s.downlink s.manager.leafMac
    (ack.getD 0 0) (ack.getD 1 0) (UInt32.ofNat (leDecode ((ack.drop 2).take 4))) (ack.drop 6)
  { s with manager := m, downlink := frames }

/-- The steps of one transfer. -/
inductive Event
  /-- The source answers a request for chunk `sequence` with the bytes of the file. -/
  | source (sequence : Nat)
  | sourceAbort (e : Env) (reason : UInt8)
  | managerLoop (e : Env)
  | receiverLoop (e : Env)
  /-- Frame number `i` of the downlink is received. -/
  | down (e : Env) (i : Nat)
  /-- Acknowledgement number `i` of the uplink is received. -/
  | up (e : Env) (i : Nat)

/-- Chunk number `sequence` of the file: `chunkSize` bytes, or what is left of the file. -/
def chunk (file : Bytes) (chunkSize sequence : Nat) : Bytes :=
  slice file (sequence * chunkSize) chunkSize

/-- One step of the transfer of `file`. -/
def step (H : ActionHandler η) (file : Bytes) (s : State η) : Event → State η
  | .source sequence =>
    { s with manager := (s.manager.onSourceChunk sequence
        (chunk file s.manager.negotiatedChunkSize sequence)).1 }
  | .sourceAbort e reason =>
    let (m, frames) := s.manager.onSourceAbort (managerContext e) s.downlink reason
    { s with manager := m, downlink := frames }
  | .managerLoop e =>
    let (m, frames) := s.manager.loop (managerContext e) s.downlink
    { s with manager := m, downlink := frames }
  | .receiverLoop e =>
    let (r, acks) := s.receiver.loop (receiverContext H e) s.uplink
    { s with receiver := r, uplink := acks }
  | .down e i => (s.downlink[i]?).elim s (fun f => deliverDown H e f s)
  | .up e i => (s.uplink[i]?).elim s (fun ack => deliverUp e ack s)

/-! ## The opening of a transfer -/

/-- The parameters of an opening: an idle receiver, what the bridge is asked to send, and
the environment of the three calls of the handshake. -/
structure Handshake (η : Type) where
  receiver : Receiver (η × List DataCall)
  config : OtaManager.Config
  leafMac : Mac
  md5 : Octets 16
  action : UInt8
  maxFramePayload : Nat
  fileId : Octets 12
  env : Env

namespace Handshake

variable (hs : Handshake η) (H : ActionHandler η) (file : Bytes)

/-- The manager after `start_transfer`. -/
def announcing : Manager :=
  (({ config := hs.config } : Manager).startTransfer (managerContext hs.env) [] hs.leafMac
    file.length hs.md5 hs.action hs.maxFramePayload hs.fileId).1

/-- The `ANNOUNCE` frame that it sent. -/
def announce : Down := ⟨(hs.announcing file).announceTxCounter, .fileTransfer,
  (hs.announcing file).announcePayload⟩

/-- The transfer after the receiver has handled the announce; no frame of the opening is
delivered again. -/
def announced : State η :=
  { deliverDown H hs.env (hs.announce file)
      { receiver := hs.receiver, manager := hs.announcing file } with downlink := [] }

/-- The transfer after the manager has handled the answer. -/
def opened : State η :=
  let s := hs.announced H file
  { deliverUp hs.env (s.uplink.getD 0 []) s with downlink := [] }

/-- The chunk size that the two ends agreed on. -/
def chunkSize : Nat := (hs.opened H file).receiver.chunkPayloadSize

/-- The geometry of the receiver. -/
def geometry : Geometry :=
  Geometry.ofTransfer file.length (hs.chunkSize H file) (hs.opened H file).receiver.bufferSizeKb

/-- A successful opening: the receiver was idle and had flashed nothing, both ends accept,
and the increment count fits 16 bits. -/
structure Accepted : Prop where
  idle : hs.receiver.state = .idle
  fresh : ∀ a h, hs.receiver.handlers a = some h → h.2 = []
  receiving : (hs.opened H file).receiver.state = .receiving
  blasting : (hs.opened H file).manager.state = .blasting
  fits : Geometry.incrementCount file.length (hs.chunkSize H file)
    (hs.opened H file).receiver.bufferSizeKb < 2 ^ 16

/-- The states of runs that start with the opening `hs`. -/
def Reachable (s : State η) : Prop :=
  Transition.Reachable (· = hs.opened H file) (fun _ _ => True) (step H file) s

end Handshake

/-- The `on_data` calls that the handler for `action` has seen. -/
def calls (s : State η) (action : UInt8) : List DataCall :=
  ((s.receiver.handlers action).map (·.2)).getD []

/-- The bytes handed to the handler so far. -/
def flashed (s : State η) (action : UInt8) : Bytes := (calls s action).flatMap (·.data)

end Transfer

end EspTree
