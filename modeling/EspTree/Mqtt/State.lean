import EspTree.EntityIds
import EspTree.CommandPayload
import EspTree.Lib.StringMap

/-!
# The state of the MQTT export

`ESPTreeBridgeMQTT` announces the entities of the remotes to Home Assistant and publishes their states.  The
calls of the bridge only change its maps, and `tick` works them off while the client is connected
(`esp_tree_bridge/bridge_mqtt_export.h`).

The client takes a message or refuses it, and time goes by: a `Reply` says which, and what `millis()` is then.
The `log` is a history that no function reads, newest first; it has the calls of the bridge too.

The text of a float, the JSON of a light and of the announcements and the values of the diagnostic sensors are
left to `Payload`, which holds what they are made from.
-/

namespace EspTree.Mqtt

open Wire

/-! ## What the export sees of the bridge -/

/-- The part of a `BridgeSession`. -/
structure Remote where
  esphomeName : Bytes := []
  entities : List EntitySchema := []
  online : Bool := false

/-- The sessions, and `get_online_macs`. -/
structure Remotes where
  session? : Mac → Option Remote
  onlineMacs : List Mac := []

namespace Remotes

variable (w : Remotes) (mac : Mac)

def nodeKey : Bytes :=
  match w.session? mac with
  | some x => if x.esphomeName.isEmpty then Bridge.macHex mac else sanitizeObjectId x.esphomeName
  | none => Bridge.macHex mac

def entityObjectId (entity : EntitySchema) : Bytes :=
  match w.session? mac with
  | some x => EspTree.entityObjectId x.entities entity
  | none => baseId entity

def entityRecordKey (entityIndex : UInt8) : Bytes := numbered (w.nodeKey mac) entityIndex.toNat

end Remotes

/-! ## Messages -/

/-- The payload of a message, up to the text of floats and of JSON documents. -/
inductive Payload
  | text (b : Bytes)
  /-- `snprintf("%g")` of the float. -/
  | float (b : Bytes)
  | eventType (b : Bytes)
  | light (value options : Bytes)
  | config (nodeKey displayName : Bytes) (entity : EntitySchema)
  | deviceConfig (nodeKey displayName : Bytes)
  | diagnostic
  deriving DecidableEq

/-- What `mark_mqtt_state_delivered` is called with. -/
structure Receipt where
  leafMac : Mac
  entityIndex : UInt8
  messageTxBase : UInt32
  deriving DecidableEq

/-- What happens, the calls of the bridge included. -/
inductive Entry
  | publish (topic : Bytes) (payload : Payload) (retain taken : Bool)
  | subscribe (topic : Bytes)
  /-- `protocol_discovery_confirmed`. -/
  | discoveryConfirmed (mac : Mac) (entityIndex : UInt8)
  /-- `mark_mqtt_state_delivered`, from the record with the key. -/
  | delivered (key : Bytes) (receipt : Receipt)
  /-- `send_command`. -/
  | command (mac : Mac) (entityIndex : UInt8) (value : Bytes)
  /-- `queue_state`, for the record with the key. -/
  | queuedState (key : Bytes) (entity : EntitySchema) (type : UInt8) (value text : Bytes) (receipt? : Option Receipt)
  /-- `queue_discovery`, for the record with the key. -/
  | queuedDiscovery (key : Bytes) (mac : Mac) (entity : EntitySchema)
  /-- `queue_clear_entities`, for one of the entities. -/
  | cleared (key : Bytes) (mac : Mac) (entityIndex : UInt8)
  deriving DecidableEq

/-- The client's answer to a message. -/
structure Reply where
  taken : Bool
  now : UInt32

/-! ## Records -/

/-- `MqttEntityRecord`. -/
structure EntityRecord where
  leafMac : Mac
  nodeId : Bytes := []
  schema : EntitySchema := {}
  discoveryPublished : Bool := false
  firstStatePublishPending : Bool := false
  stateDirty : Bool := false
  discoveryPublishedMs : UInt32 := 0
  currentValue : Bytes := []
  currentType : UInt8 := 0x01
  textValue : Bytes := []
  /-- `pending_ack_entity_index_` and `pending_ack_message_tx_base_`, when `pending_state_ack_` is set. -/
  pendingStateAck : Option (UInt8 × UInt32) := none

/-- `MqttDeviceRecord`. -/
structure DeviceRecord where
  leafMac : Mac
  nodeId : Bytes
  displayName : Bytes := []
  /-- `entities`, in the order of the indices. -/
  entities : Std.TreeMap UInt8 EntitySchema := ∅
  discoveryDirty : Bool := false
  discoveryPublished : Bool := false

structure PendingEntityClear where
  discoveryTopic : Bytes
  commandTopics : List Bytes
  deriving DecidableEq

structure CommandRoute where
  leafMac : Mac
  entityIndex : UInt8
  routeKind : CommandRouteKind
  deriving DecidableEq

structure AvailabilityEntry where
  mac : Mac
  online : Bool
  deriving DecidableEq

/-- `ESPTreeBridgeMQTT`, with the client. -/
structure Export where
  bridgeMac : Mac
  discoveryPrefix : Bytes := ascii "homeassistant"
  entities : StringMap EntityRecord := ∅
  devices : StringMap DeviceRecord := ∅
  entityClears : StringMap PendingEntityClear := ∅
  /-- `pending_device_clears_`, with the topics. -/
  deviceClears : StringMap Bytes := ∅
  availabilityQueue : List AvailabilityEntry := []
  subscribedTopics : List Bytes := []
  commandRoutes : StringMap CommandRoute := ∅
  wasConnected : Bool := false
  backoffUntilMs : UInt32 := 0
  retryCount : Nat := 0
  bridgeDiagDiscoveryPublished : Bool := false
  forceRejoinDiscoveryPublished : Bool := false
  /-- `remote_diag_discovery_published_`. -/
  remoteDiagDiscovery : List Bytes := []
  /-- `remote_diag_refresh_pending_`, with the address that the key is read back as. -/
  remoteDiagRefresh : StringMap Mac := ∅
  /-- What the client answers next; without an answer it refuses. -/
  replies : List Reply := []
  connected : Bool := false
  /-- `millis()`. -/
  now : UInt32 := 0
  log : List Entry := []

namespace Export

def note (e : Export) (x : Entry) : Export := { e with log := x :: e.log }

/-- `publish` and `publish_json`. -/
def publish (e : Export) (topic : Bytes) (payload : Payload) (retain : Bool) : Export × Bool :=
  match e.replies with
  | [] => (e.note (.publish topic payload retain false), false)
  | r :: replies =>
    ({ e with now := r.now, replies := replies }.note (.publish topic payload retain r.taken), r.taken)

/-- Messages that are published in turn as long as they are taken. -/
def publishAll (retain : Bool) : List (Bytes × Payload) → Export → Export × Bool
  | [], e => (e, true)
  | (topic, payload) :: messages, e =>
    let r := e.publish topic payload retain
    if r.2 then publishAll retain messages r.1 else r

/-- Messages that are published in turn, taken or not. -/
def publishEach : List (Bytes × Payload) → Export → Export
  | [], e => e
  | (topic, payload) :: messages, e => publishEach messages (e.publish topic payload false).1

end Export

end EspTree.Mqtt
