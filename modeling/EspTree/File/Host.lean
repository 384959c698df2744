import EspTree.File.Jobs
import EspTree.Lib.Checksum
import EspTree.Lib.Digits
import EspTree.Lib.Protobuf

/-!
# The host's side of a chunk request

The bridge tells the host how large the chunks are (`on_ota_accepted`) and which it wants
(`on_ota_chunk_request`).  The host cuts them out of the file (`BridgeV2OTAClient._build_chunk`), sends
them in batches (`send_chunks`), and the transport of the bridge checks each chunk before the manager
gets it (`handle_ota_chunk_batch`).  The messages of the host are protocol buffers, which leave out what
is zero or empty; the bridge has a reader of its own (`bridge_api_proto_messages.cpp`, whose
`read_varint` and `read_field` are `Proto.readVarint` and `Proto.readField`).

Texts are strings of bytes here, as on the wire.  The texts for the log, and the answers to other
messages than a batch, are left out.
-/

namespace EspTree

open Wire OtaManager

namespace Host

/-! ## Messages of the host -/

structure OtaChunk where
  sequence : Nat
  offset : Nat
  payload : Bytes
  flags : Nat
  crc32 : Nat
  deriving DecidableEq

structure OtaChunkBatch where
  jobId : Bytes
  responseRequestId : Bytes
  chunks : List OtaChunk
  deriving DecidableEq

/-- A number of 32 bits; zero is left out. -/
def uint32Field (number n : Nat) : List Proto.Field :=
  if n = 0 then [] else [⟨number, .varint n⟩]

/-- A text or a string of bytes; the empty one is left out. -/
def bytesField (number : Nat) (b : Bytes) : List Proto.Field :=
  if b = [] then [] else [⟨number, .bytes b⟩]

namespace OtaChunk

def fields (c : OtaChunk) : List Proto.Field :=
  uint32Field 1 c.sequence ++ uint32Field 2 c.offset ++ bytesField 3 c.payload ++
    uint32Field 4 c.flags ++ uint32Field 5 c.crc32

/-- The constructor of the message raises an error for a number of more than 32 bits. -/
def checked (c : OtaChunk) : Option OtaChunk :=
  if c.sequence < 2 ^ 32 ∧ c.offset < 2 ^ 32 ∧ c.flags < 2 ^ 32 ∧ c.crc32 < 2 ^ 32 then some c else none

end OtaChunk

def OtaChunkBatch.fields (b : OtaChunkBatch) : List Proto.Field :=
  bytesField 1 b.jobId ++ bytesField 2 b.responseRequestId ++
    b.chunks.map fun c => ⟨3, .bytes (Proto.encodeFields c.fields)⟩

/-- `API_VERSION`, and `kRuntimeApiVersion` of the bridge. -/
def apiVersion : Nat := 2

/-- The `Envelope` of `send_ota_chunk_batch`. -/
def OtaChunkBatch.envelope (b : OtaChunkBatch) : Bytes :=
  Proto.encodeFields
    (uint32Field 2 apiVersion ++ [⟨31, .bytes (Proto.encodeFields b.fields)⟩])

/-! ## `BridgeV2OTAClient` -/

/-- The polynomial of CRC-32, in reversed bit order. -/
def crcPolynomial : UInt32 := 0xEDB88320

/-- `zlib.crc32`. -/
def zlibCrc32 (data : Bytes) : UInt32 :=
  data.foldl (Crc.byTable crcPolynomial) 0xFFFFFFFF ^^^ 0xFFFFFFFF

/-- The four hexadecimal digits of `"%04x"`. -/
def hex4 (n : Nat) : Bytes :=
  [12, 8, 4, 0].map fun s =>
    let d := n >>> s % 16
    UInt8.ofNat (if d < 10 then 48 + d else 87 + d)

/-- `ota_job_id_`. -/
def jobIdText (job : Nat) : Bytes := hex4 (job % 2 ^ 16)

/-- The text of `next_ota_chunk_request_id_`. -/
def requestIdText (job request : Nat) : Bytes := jobIdText job ++ [45] ++ decimal (request % 2 ^ 32)

/-- The fields of `BridgeV2OTAClient`; without a job its id is empty. -/
structure Client where
  jobId : Bytes := []
  maxChunkSize : Nat := 2048
  totalChunks : Nat := 0
  maxChunksPerBatch : Nat := 6

/-- `announced or kept`. -/
def orElse (announced kept : Nat) : Nat := if announced = 0 then kept else announced

/-- The pieces `sequences[start : start + size]`, for `start` in `range(0, len(sequences), size)`. -/
def pieces (size : Nat) (sequences : List Nat) : List (List Nat) :=
  (List.range' 0 ((sequences.length + size - 1) / size) size).map fun start =>
    (sequences.drop start).take size

namespace Client

/-- The end of `start`, with what the bridge has accepted. -/
def start (c : Client) (a : Jobs.Acceptance) : Client where
  jobId := jobIdText a.job
  maxChunkSize := orElse a.maxChunkSize c.maxChunkSize
  totalChunks := orElse a.totalChunks c.totalChunks
  maxChunksPerBatch := orElse a.maxChunksPerBatch c.maxChunksPerBatch

def buildChunk (c : Client) (file : Bytes) (sequence : Nat) : Option OtaChunk :=
  let offset := sequence * c.maxChunkSize
  let payload := slice file offset c.maxChunkSize
  OtaChunk.checked
    { sequence
      offset
      payload
      flags := if c.totalChunks ≠ 0 ∧ sequence = c.totalChunks - 1 then 0x0001 else 0
      crc32 := (zlibCrc32 payload).toNat }

/-- The batches that `send_chunks` sends. -/
def sendChunks (c : Client) (file : Bytes) (responseRequestId : Bytes) (sequences : List Nat) :
    Option (List OtaChunkBatch) :=
  if c.jobId = [] then some []
  else
    (pieces (max 1 (orElse c.maxChunksPerBatch 1)) sequences).mapM fun piece =>
      (piece.mapM (c.buildChunk file)).map fun chunks => ⟨c.jobId, responseRequestId, chunks⟩

end Client

/-! ## The readers of the bridge -/

structure ParsedEnvelope where
  apiVersion : Nat := 0
  msgField : Nat := 0
  msgData : Bytes := []

/-- `ParsedOtaChunk`; without a field for the payload its pointer is null. -/
structure ParsedOtaChunk where
  sequence : Nat := 0
  offset : Nat := 0
  payload : Option Bytes := none
  flags : Nat := 0
  crc32 : Nat := 0

structure ParsedOtaChunkBatch where
  jobId : Bytes := []
  responseRequestId : Bytes := []
  chunks : List ParsedOtaChunk := []

/-- One field of an envelope.  Nothing here uses its request id. -/
def ParsedEnvelope.take (out : ParsedEnvelope) (f : Proto.Field) : ParsedEnvelope :=
  match f.value with
  | .varint n => if f.number = 2 then { out with apiVersion := n % 2 ^ 32 } else out
  | .bytes b => if 10 ≤ f.number then { out with msgField := f.number, msgData := b } else out
  | .fixed64 _ => out

def parseEnvelope (data : Bytes) : Option ParsedEnvelope :=
  match Proto.readFields data with
  | none => none
  | some fs =>
    let out := fs.foldl ParsedEnvelope.take {}
    if out.msgField ≠ 0 then some out else none

/-- One field of a chunk. -/
def ParsedOtaChunk.take (out : ParsedOtaChunk) (f : Proto.Field) : ParsedOtaChunk :=
  match f.number, f.value with
  | 1, .varint n => { out with sequence := n % 2 ^ 32 }
  | 2, .varint n => { out with offset := n % 2 ^ 32 }
  | 3, .bytes b => { out with payload := some b }
  | 4, .varint n => { out with flags := n % 2 ^ 32 }
  | 5, .varint n => { out with crc32 := n % 2 ^ 32 }
  | _, _ => out

def parseOtaChunkMessage (data : Bytes) : Option ParsedOtaChunk :=
  match Proto.readFields data with
  | none => none
  | some fs =>
    let out := fs.foldl ParsedOtaChunk.take {}
    if out.payload.isSome then some out else none

/-- One field of a batch. -/
def ParsedOtaChunkBatch.take (out : ParsedOtaChunkBatch) (f : Proto.Field) :
    Option ParsedOtaChunkBatch :=
  match f.number, f.value with
  | 1, .bytes b => some { out with jobId := b }
  | 2, .bytes b => some { out with responseRequestId := b }
  | 3, .bytes b => (parseOtaChunkMessage b).map fun c => { out with chunks := out.chunks ++ [c] }
  | _, _ => some out

def parseOtaChunkBatch (data : Bytes) : Option ParsedOtaChunkBatch :=
  match Proto.readFields data with
  | none => none
  | some fs =>
    match fs.foldlM ParsedOtaChunkBatch.take {} with
    | none => none
    | some out =>
      if out.jobId ≠ [] ∧ out.responseRequestId ≠ [] ∧ out.chunks ≠ [] then some out else none

def crc32Bytes (data : Bytes) : UInt32 :=
  let bit (crc : UInt32) : UInt32 := (crc >>> 1) ^^^ (0xEDB88320 &&& (0 - (crc &&& 1)))
  data.foldl (fun crc b => bit^[8] (crc ^^^ b.toUInt32)) 0xFFFFFFFF ^^^ 0xFFFFFFFF

/-! ## The transport of the bridge -/

/-- The fields of `BridgeApiProtoWsTransport::Impl` that chunks depend on. -/
structure Transport where
  otaChunkRequestId : Bytes := []
  otaJobId : Bytes := []
  otaPendingSequences : Finset Nat := ∅
  otaMaxChunkSize : Nat := 2048
  otaMaxChunksPerBatch : Nat := 6
  deriving DecidableEq

namespace Transport

/-- `on_ota_accepted` and `on_ota_chunk_request`; the other messages only go out. -/
def told (t : Transport) : Jobs.Entry → Transport
  | .accepted a =>
    { t with
      otaJobId := jobIdText a.job
      otaMaxChunkSize := a.maxChunkSize
      otaMaxChunksPerBatch := a.maxChunksPerBatch }
  | .chunkRequest r =>
    { t with
      otaJobId := jobIdText r.job
      otaChunkRequestId := requestIdText r.job r.request
      otaPendingSequences := r.sequences }
  | .status _ | .inserted _ => t

/-- What `finish_session` clears. -/
def finishSession (t : Transport) : Transport :=
  { t with otaChunkRequestId := [], otaJobId := [], otaPendingSequences := ∅ }

/-- A chunk was injected. -/
def erase (t : Transport) (sequence : Nat) : Transport :=
  { t with
    otaPendingSequences := t.otaPendingSequences.erase sequence
    otaChunkRequestId :=
      if t.otaPendingSequences.erase sequence = ∅ then [] else t.otaChunkRequestId }

/-- The tests of `handle_ota_chunk_batch` on one chunk. -/
def invalid (t : Transport) (c : ParsedOtaChunk) : Bool :=
  match c.payload with
  | none => true
  | some payload =>
    decide (c.sequence ∉ t.otaPendingSequences) || decide (payload.length = 0) ||
      decide (t.otaMaxChunkSize < payload.length) ||
      decide (c.offset ≠ c.sequence * t.otaMaxChunkSize) || decide (c.flags / 2 ≠ 0) ||
      decide ((crc32Bytes payload).toNat ≠ c.crc32)

end Transport

/-- The bridge with its transport. -/
structure Link where
  bridge : Jobs.State := {}
  transport : Transport := {}

/-- Why the bridge does not take a batch: the error that it answers, or a request that is stale. -/
inductive Refusal
  | error (code message : String)
  | stale
  deriving DecidableEq

/-- The messages of `log` that are newer than `old`, told to the transport, the oldest first. -/
def heard (old log : List Jobs.Entry) (t : Transport) : Transport :=
  (log.take (log.length - old.length)).foldr (fun entry t => t.told entry) t

namespace Link

/-- Something happens to the bridge.  A session that ends is cleared first. -/
def event (s : Link) (e : Jobs.Event) : Link where
  bridge := Jobs.step s.bridge e
  transport :=
    match e with
    | .disconnect => s.transport.finishSession
    | _ => heard s.bridge.log (Jobs.step s.bridge e).log s.transport

/-- The loop of `handle_ota_chunk_batch` over the chunks of a batch for the job with that number. -/
def takeChunks (s : Link) (e : Transfer.Env) : List ParsedOtaChunk → Link × Option Refusal
  | [] => (s, none)
  | c :: rest =>
    let (bridge, injected) := s.bridge.apiOtaInjectChunk c.sequence (c.payload.getD [])
    if s.transport.invalid c then
      (s.event (.abort e (some (s.bridge.jobCounter % 2 ^ 16))),
        some (.error "ota_invalid_chunk" "OTA chunk rejected"))
    else if ¬ injected then
      (({ s with bridge } : Link).event (.abort e (some (s.bridge.jobCounter % 2 ^ 16))),
        some (.error "ota_invalid_chunk" "OTA chunk rejected"))
    else takeChunks { bridge, transport := s.transport.erase c.sequence } e rest

def handleOtaChunkBatch (s : Link) (e : Transfer.Env) (percent : Nat) (data : Bytes) :
    Link × Option Refusal :=
  match parseOtaChunkBatch data with
  | none => (s, some (.error "ota_invalid_chunk" "Invalid OTA chunk batch"))
  | some batch =>
    if s.bridge.jobState = .idle ∨ batch.jobId ≠ jobIdText s.bridge.jobCounter then
      (s, some (.error "ota_not_active" "No active OTA job for batch"))
    else if batch.responseRequestId ≠ s.transport.otaChunkRequestId then
      (s.event (.resend percent), some .stale)
    else if s.transport.otaMaxChunksPerBatch < batch.chunks.length then
      (s.event (.abort e (some (s.bridge.jobCounter % 2 ^ 16))),
        some (.error "ota_invalid_chunk" "OTA chunk batch too large"))
    else s.takeChunks e batch.chunks

/-- `handle_binary`, as far as batches go. -/
def handleBinary (s : Link) (e : Transfer.Env) (percent : Nat) (payload : Bytes) :
    Link × Option Refusal :=
  match parseEnvelope payload with
  | none => (s, some (.error "invalid_envelope" "Invalid protobuf envelope"))
  | some env =>
    if env.apiVersion ≠ 0 ∧ env.apiVersion ≠ apiVersion then
      (s, some (.error "invalid_envelope" "Invalid protobuf envelope"))
    else if ¬ s.bridge.connected then
      (s, some (.error "auth_required" "Authenticate before sending runtime requests"))
    else if env.msgField = 31 then s.handleOtaChunkBatch e percent env.msgData
    else (s, none)

/-- What happens to a link. -/
inductive Event
  | bridge (event : Jobs.Event)
  | binary (e : Transfer.Env) (percent : Nat) (payload : Bytes)

/-- Chunks reach the manager only through the transport. -/
def Event.Proper : Event → Prop
  | .bridge (.chunk _ _) => False
  | _ => True

/-- One event. -/
def step (s : Link) : Event → Link
  | .bridge e => s.event e
  | .binary e percent payload => (s.handleBinary e percent payload).1

/-- The bridge after a start. -/
def Boot (s : Link) : Prop := Jobs.Boot s.bridge ∧ s.transport = {}

/-- What can happen to the bridge. -/
abbrev Reachable : Link → Prop := Transition.Reachable Boot (fun _ e => e.Proper) step

end Link

end Host

end EspTree
