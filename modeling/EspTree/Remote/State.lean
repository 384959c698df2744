import EspTree.File.Receiver
import EspTree.Fragment

/-!
# The leaf: state, surroundings and effects

The fields of `RemoteProtocol` (`esp_tree_remote/remote_protocol.h`), grouped by what they
are about, so that a function that leaves a group alone leaves it alone by definition:

* `Session`: the join handshake, the key and the counter of the last frame seen;
* `Route`: the parent, the candidates and the routes of the children;
* `Discovery`: the discovery and join automaton;
* `Entities`: the registered entities and the `STATE` message that awaits its ACK;
* `Commands`: `COMMAND` fragments and the memory of the last `CONFIG`;
* `Timers`, and `Radio`: the transmit counter and what the leaf did to the outside.

`Effect` is what a call does besides changing these fields.  The effects are kept in the
state, newest first, because the statements about whole runs are about them, and so is the
number of counters drawn; no function reads either but to number its sends.

Logging and `state_name_` (which only `state_name()` reads) are left out, `send_fn_` and
`command_fn_` are set, and the clock is read once per call.
-/

namespace EspTree

open Wire FileReceiver

/-- Something a node does to the outside. -/
inductive Effect
  /-- `send_fn_(mac, frame)` returned `sent`. -/
  | send (mac : Mac) (frame : Bytes) (sent : Bool)
  /-- A frame was encrypted under `key` and `txCounter`. -/
  | encrypt (type : PacketType) (key : SessionKey) (txCounter : UInt32) (plaintext : Bytes)
  /-- All fragments of a `STATE` message left the leaf. -/
  | stateMessage (txBase : UInt32) (entity : UInt8) (value : Bytes)
  /-- The `STATE` message that the leaf waited for was acknowledged. -/
  | stateAcked (txBase : UInt32)
  /-- `command_fn_(entity, flags, value)`, for a message that came in under `key`. -/
  | command (key : SessionKey) (txBase : UInt32) (entity flags : UInt8) (value : Bytes)
  /-- A configuration command that came in under `key` was carried out. -/
  | config (key : SessionKey) (txCounter : UInt32) (command : UInt8)
  /-- `App.safe_reboot()` or `esp_restart()`. -/
  | reboot
  deriving DecidableEq

namespace Remote

/-- `EntityRecord`; `currentText` holds the bytes of the `std::string`. -/
structure EntityRecord where
  schema : EntitySchema
  currentValue : Bytes := []
  dirty : Bool := true
  currentText : Bytes := []
  lastCompletedCommandMessageTxBase : UInt32 := 0

/-- The test on an entity's type that decides which of its two values is sent. -/
def EntityRecord.isText (r : EntityRecord) : Bool :=
  r.schema.entityType == fieldTypeText || r.schema.entityType == fieldTypeTextSensor

structure Entities where
  records : List EntityRecord := []
  statePushEnabled : Bool := false
  waitingForStateAck : Bool := false
  stateRetryCount : UInt8 := 0
  lastStateTxMs : UInt32 := 0
  pendingStateMessageTxBase : UInt32 := 0
  pendingStateFieldIndex : UInt8 := 0
  pendingStateValue : Bytes := []

structure Commands where
  pendingAssemblies : Assemblies := []
  pendingReservedBytes : UInt32 := 0
  lastConfigTxCounter : UInt32 := 0
  lastConfigCommand : UInt8 := 0
  lastConfigResult : UInt8 := 0
  lastConfigValid : Bool := false

structure Session where
  remoteNonce : Nonce := Octets.zero 16
  bridgeNonce : Nonce := Octets.zero 16
  sessionKey : SessionKey := Octets.zero 32
  sessionKeyValid : Bool := false
  joined : Bool := false
  normal : Bool := false
  localSessionFlags : UInt8 := 0
  bridgeSessionFlags : UInt8 := 0
  sessionMaxPayload : Nat := v1MaxPayload
  limits : FragmentLimits := {}
  lastSeenCounter : UInt32 := 0

/-- `RemoteRouteEntry`. -/
structure RouteEntry where
  leafMac : Mac
  nextHopMac : Mac
  expiryMs : UInt32
  deriving DecidableEq

/-- `DiscoverCandidate`. -/
structure Candidate where
  nextHopMac : Mac := Octets.zero 6
  responderRole : UInt8 := nodeRoleRelay
  bridgeReachable : Bool := false
  flags : UInt8 := 0
  channel : UInt8 := 1
  rssi : Int := -127
  hopsToBridge : UInt8 := 0xFF
  valid : Bool := false
  preferredIndex : UInt8 := 0xFF

structure Route where
  parentMac : Mac := Octets.zero 6
  parentValid : Bool := false
  hopsToBridge : UInt8 := 0xFF
  bestParent : Candidate := {}
  relayEnabled : Bool := true
  canRelay : Bool := false
  preferredParents : List Mac := []
  routes : List RouteEntry := []
  parentLinkRssiEma : Int := -127

/-- `PendingAnnounce`, while it is queued. -/
structure PendingAnnounce where
  leafMac : Mac
  senderMac : Mac
  responderRole : UInt8
  hopsToBridge : UInt8
  deadlineMs : UInt32

structure Discovery where
  discovering : Bool := true
  sweepComplete : Bool := false
  fastRejoin : Bool := false
  resumeNormalAfterSuccess : Bool := false
  currentChannelOnly : Bool := false
  wifiWaiting : Bool := false
  wifiWaitDeadlineMs : UInt32 := 0
  initialPending : Bool := true
  retryPending : Bool := false
  retryCount : UInt8 := 0
  phase : UInt8 := 0
  channelIndex : UInt8 := 0
  dueMs : UInt32 := 0
  lastKnownChannel : UInt8 := 1
  joinInFlight : Bool := false
  joinRetryCount : UInt8 := 0
  waitRejectCount : UInt8 := 0
  lastJoinAttemptMs : UInt32 := 0
  joinDelayUntilMs : UInt32 := 0
  topologyRefreshDueMs : UInt32 := 0
  /-- `pending_discovers_`: the leaf and when its entry expires. -/
  pendingDiscovers : List (Mac × UInt32) := []
  /-- The ring buffer `announce_queue_`, oldest first. -/
  announceQueue : List PendingAnnounce := []

structure Timers where
  heartbeatInterval : Nat := 60
  heartbeatDueMs : UInt32 := 0
  lastHeartbeatTxMs : UInt32 := 0
  lastSuccessfulHeartbeatMs : UInt32 := 0
  lastSuccessfulStateMs : UInt32 := 0
  joinedStartedMs : UInt32 := 0
  otaLastActivityMs : UInt32 := 0

structure OutstandingRequest where
  packetType : UInt8
  txCounter : UInt32
  fingerprint : Octets 4
  deriving DecidableEq

structure Radio where
  txCounter : UInt32 := 1
  /-- How many counters were drawn: `txCounter` without its wrap. -/
  drawn : Nat := 0
  lastTxMs : UInt32 := 0
  lastSuccessfulOutboundMs : UInt32 := 0
  consecutiveSendFailures : UInt8 := 0
  outstanding : List OutstandingRequest := []
  effects : List Effect := []

/-- What the configuration fixes. -/
structure Config where
  leafMac : Mac
  networkId : Bytes := []
  identity : Identity := {}
  maxHops : Nat := 5
  maxDiscoverPending : Nat := 8
  routeTtlSeconds : UInt32 := 172800
  otaOverEspnow : Bool := false
  bootEpochMs : UInt32 := 0

end Remote

/-- `RemoteProtocol`, with file handlers of state `η`.  `identity` in the configuration
holds what `send_identity_descriptor_` reads from the running partition; the copy that it
keeps (and that the schema hash covers) is `reported`. -/
structure Remote (η : Type) where
  config : Remote.Config
  session : Remote.Session := {}
  route : Remote.Route := {}
  discovery : Remote.Discovery := {}
  entities : Remote.Entities := {}
  commands : Remote.Commands := {}
  timers : Remote.Timers := {}
  radio : Remote.Radio := {}
  files : Receiver η
  reported : Identity := {}

namespace Remote

variable {η : Type}

/-- The parts of a leaf that no call changes: the primitives and its file handlers. -/
structure Platform (η : Type) where
  crypto : Crypto
  handler : ActionHandler η
  sha256 : Bytes → Octets 32

/-- What the environment decides in one call: the clock, the random source, WiFi, and the
outcome of each send.  Sends are numbered by the effects so far. -/
structure Env where
  now : UInt32
  random : Nat → UInt32
  nonce : Nat → Nonce
  wifiPresent : Bool := false
  wifiConnected : Bool := false
  wifiChannel : Option UInt8 := none
  sendOk : Nat → Bool

/-- The toy primitives, and a handler that takes every file. -/
def Platform.sample : Platform Unit := ⟨.sample, sink, fun _ => Octets.zero 32⟩

/-- An environment at time `now` in which every send succeeds and every nonce drawn is
`nonce`. -/
def Env.quiet (now : UInt32) (nonce : Nonce) : Env where
  now := now
  random _ := 0
  nonce _ := nonce
  sendOk _ := true

/-- The clock difference that ignores unset and future times. -/
def elapsedMsSince (now before : UInt32) : UInt32 :=
  if before = 0 ∨ now < before then 0 else now - before

/-- `ESPNOW_MAX_RETRIES`. -/
def maxRetries : UInt8 := 4
def retryBackoffMs (retryCount : UInt8) : UInt32 :=
  [200, 400, 800, 1600].getD (min retryCount.toNat 3) 1600
/-- A jitter of `esp_random() % (ESPNOW_RETRY_JITTER_MS * 2 + 1)`. -/
def retryJitterMs (random : UInt32) : UInt32 := random % 101

def refreshCanRelay (s : Remote η) : Remote η :=
  { s with route := { s.route with
      canRelay := s.route.relayEnabled && s.session.normal && s.route.parentValid &&
        s.route.hopsToBridge != 0xFF } }

/-- A note about the outside. -/
def note (s : Remote η) (eff : Effect) : Remote η :=
  { s with radio := { s.radio with effects := eff :: s.radio.effects } }

def registerEntity (s : Remote η) (type : UInt8) (name unit options id : Bytes) : Remote η :=
  let schema : EntitySchema := ⟨UInt8.ofNat s.entities.records.length, type, name, unit, options, id⟩
  { s with entities := { s.entities with
      records := s.entities.records ++ [{ schema := schema }] } }

/-- The update that both change callbacks end with. -/
def setRecord (s : Remote η) (index : UInt8) (f : EntityRecord → EntityRecord) : Remote η :=
  { s with entities := { s.entities with records := s.entities.records.modify index.toNat f } }

def onEntityStateChange (s : Remote η) (index : UInt8) (value : Bytes) : Remote η :=
  s.setRecord index (fun r => { r with currentValue := value, dirty := true })

def onEntityTextChange (s : Remote η) (index : UInt8) (value : Bytes) : Remote η :=
  s.setRecord index (fun r => { r with currentText := value, currentValue := value, dirty := true })

end Remote

end EspTree
