import EspTree.File.Manager
import EspTree.Fragment

/-!
# The bridge: state, surroundings and effects

`BridgeProtocol` (`esp_tree_bridge/bridge_protocol.h`) as one leaf sees it: the session of
that leaf, if there is one, and the `Hub`, which holds the join slot and the schema caches
that all sessions share, and this leaf's entries of the retry queues.  The other sessions of
`sessions_` reach this leaf's traffic only through the slot and the caches.

A fresh `Session` is what `ensure_session_` creates: its transmit counter is 1.

Of the packet counters only `rx_packets` is kept; log state, topology notices and the
`std::string` keys that are only displayed are left out.  The callbacks are set, and the clock is
read once per call.
-/

namespace EspTree

open Wire

namespace Bridge

inductive RemoteState
  | none | joined | normal
  deriving DecidableEq, Repr

/-- The reasons that `publish_availability_fn_` is given. -/
inductive Reason
  | hopCountChanged | joined | rejoined | timeout | evicted | manual
  deriving DecidableEq, Repr

/-- Something the bridge does to the outside. -/
inductive Effect
  /-- `send_fn_` or `send_err_fn_`, and whether it succeeded. -/
  | send (mac : Mac) (frame : Bytes) (sent : Bool)
  /-- A frame was encrypted under `key` and `txCounter`. -/
  | encrypt (type : PacketType) (key : SessionKey) (txCounter : UInt32) (plaintext : Bytes)
  /-- `publish_state_fn_`, for a message that came in under `key`. -/
  | publishState (key : SessionKey) (txBase : UInt32) (entity : EntitySchema) (value : Bytes)
      (nextHop : Mac)
  /-- `publish_availability_fn_`. -/
  | availability (online : Bool) (reason : Reason)
  /-- `schema_complete_fn_`. -/
  | schemaComplete (total : UInt8)
  /-- `publish_discovery_fn_`. -/
  | publishDiscovery (entity : EntitySchema) (total : UInt8) (commandable : Bool)
  /-- `clear_entities_fn_`. -/
  | clearEntities (entities : List EntitySchema)
  /-- `file_ack_fn_`. -/
  | fileAck (ack : Bytes)
  /-- The callback of a configuration command: acknowledged with a result, or given up. -/
  | configResult (txBase : UInt32) (result : Option UInt8)
  deriving DecidableEq

/-- What a session knows about its leaf's schema. -/
structure Schema where
  hash : Octets 32 := Octets.zero 32
  identity : Identity := {}
  totalEntities : UInt8 := 0
  entities : List EntitySchema := []
  received : Bool := false
  requestInFlight : Bool := false
  pendingIndex : UInt8 := 0xFF
  pendingDescriptorType : UInt8 := descriptorTypeEntity
  requestRetries : UInt8 := 0
  lastRequestMs : UInt32 := 0
  pendingDiscoveryCount : UInt8 := 0
  discoveryAllConfirmed : Bool := false
  awaitingDiscoveryConfirm : Bool := false
  pendingRequestIndex : UInt8 := 0xFF
  lastDiscoveryConfirmMs : UInt32 := 0

/-- The join automaton of a session. -/
structure JoinState where
  inProgress : Bool := false
  completePending : Bool := false
  completeRetryCount : UInt8 := 0
  lastCompleteMs : UInt32 := 0
  stateSyncPending : Bool := false
  awaitingMoreDirty : Bool := true

/-- What a session knows about the link to its leaf. -/
structure LinkInfo where
  nextHopMac : Mac := Octets.zero 6
  parentMac : Mac := Octets.zero 6
  hopsToBridge : UInt8 := 0
  rxPackets : UInt32 := 0
  lastRssi : Int := -128
  lastSeenUptimeS : UInt32 := 0
  joinedMs : UInt32 := 0
  expectedContactIntervalS : UInt32 := 0
  uptimeSeconds : UInt32 := 0
  directChildCount : UInt8 := 0
  totalChildCount : Nat := 0
  discoverAnnounceDeadlineMs : UInt32 := 0
  discoverAnnounceLeafMac : Mac := Octets.zero 6

/-- `BridgeSession`. -/
structure Session where
  leafMac : Mac
  sessionKey : SessionKey := Octets.zero 32
  bridgeNonce : Nonce := Octets.zero 16
  remoteNonce : Nonce := Octets.zero 16
  sessionKeyValid : Bool := false
  lastSeenCounter : UInt32 := 0
  txCounter : UInt32 := 1
  /-- How many counters were drawn: `txCounter` without its wrap. -/
  drawn : Nat := 0
  sessionMaxPayload : Nat := v1MaxPayload
  limits : FragmentLimits := {}
  leafSessionFlags : UInt8 := 0
  lastCompletedStateMessageTxBase : UInt32 := 0
  online : Bool := false
  remoteState : RemoteState := .none
  stateAssemblies : Assemblies := []
  stateReservedBytes : UInt32 := 0
  schemaAssemblies : Assemblies := []
  schemaReservedBytes : UInt32 := 0
  schema : Schema := {}
  join : JoinState := {}
  link : LinkInfo := {}

structure PendingCommand where
  fieldIndex : UInt8
  value : Bytes
  leafMac : Mac
  nextHopMac : Mac
  txBase : UInt32
  lastTxMs : UInt32 := 0
  retryCount : UInt8 := 0

structure PendingConfig where
  leafMac : Mac
  nextHopMac : Mac
  command : UInt8
  payload : Bytes
  txBase : UInt32
  retryCount : UInt8 := 0
  nextRetryMs : UInt32 := 0
  deriving DecidableEq

/-- `CachedSessionData`. -/
structure Cached where
  entities : List EntitySchema
  identity : Identity
  sessionMaxPayload : Nat

/-- What the configuration fixes. -/
structure Config where
  bridgeMac : Mac
  networkId : Bytes := []
  heartbeatInterval : Nat := 60
  sessionFlags : UInt8 := 0

/-- The part of `BridgeProtocol` outside the sessions. -/
structure Hub where
  config : Config
  joiningInProgress : Bool := false
  joiningLeafMac : Mac := Octets.zero 6
  joinStartedMs : UInt32 := 0
  schemaCache : List (Bytes × Cached) := []
  schemaHashCache : List (Bytes × Octets 32) := []
  commandQueue : List PendingCommand := []
  pendingConfigs : List PendingConfig := []
  effects : List Effect := []

/-- What the environment decides in one call: the clock, the random source, the heap and
the outcome of each send.  Sends are numbered by the effects so far. -/
structure Env where
  now : UInt32
  random : Nat → UInt32
  nonce : Nonce
  heapOk : Nat → Bool
  sendErr : Nat → OtaManager.SendErr
  /-- The periodic cleanup (`evict_sessions_for_ram_`, `MAX_SESSIONS`) takes this session. -/
  evict : Bool := false
  /-- So does the eviction at critical memory. -/
  evictCritical : Bool := false

/-- An environment at time `now` in which every send succeeds and the nonce drawn is
`nonce`. -/
def Env.quiet (now : UInt32) (nonce : Nonce) : Env where
  now := now
  random _ := 0
  nonce := nonce
  heapOk _ := true
  sendErr _ := .ok

end Bridge

/-- The bridge, as one leaf sees it. -/
structure Bridge where
  leafMac : Mac
  hub : Bridge.Hub
  session? : Option Bridge.Session := none

namespace Bridge

/-- A handler's result: the hub, the session and the boolean of the source. -/
abbrev Outcome := Hub × Session × Bool

/-- A note about the outside. -/
def Hub.note (h : Hub) (eff : Effect) : Hub := { h with effects := eff :: h.effects }

def macHex (mac : Mac) : Bytes :=
  let digit (n : UInt8) : UInt8 := if n < 10 then 48 + n else 55 + n
  mac.bytes.flatMap (fun b : UInt8 => [digit (b / 16), digit (b % 16)])

/-- `schema_cache_key_`. -/
def Session.cacheKey (x : Session) : Bytes :=
  if x.schema.identity.esphomeName.isEmpty then macHex x.leafMac else x.schema.identity.esphomeName

/-- `map[key] = value`. -/
def cacheSet {α : Type} (cache : List (Bytes × α)) (key : Bytes) (value : α) :
    List (Bytes × α) :=
  (key, value) :: cache.filter (fun p => p.1 != key)

def Hub.refreshSchemaCache (h : Hub) (x : Session) : Hub :=
  { h with
    schemaCache := cacheSet h.schemaCache x.cacheKey
      ⟨x.schema.entities, x.schema.identity, x.sessionMaxPayload⟩
    schemaHashCache := cacheSet h.schemaHashCache x.cacheKey x.schema.hash }

end Bridge

end EspTree
