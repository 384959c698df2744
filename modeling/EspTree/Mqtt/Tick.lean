import EspTree.Mqtt.Topics

/-!
# The operations of the MQTT export

The calls of the bridge (`queue_discovery`, `queue_state`, `queue_availability`, `queue_clear_entities`,
`on_schema_complete`), the command topics, and `tick` (`esp_tree_bridge/bridge_mqtt_export.cpp`).  A pass of `tick`
says whether the function returns after it.  Of the diagnostics `tick` has the announcements and the refreshes,
which it returns after; the values that are published again from time to time only take time.

`tick` has a time budget.  The loops over the records look at the clock after each of them and leave
the rest for the next call, and when the client refuses a message, the record waits for
`MQTT_RETRY_BACKOFF_MS`.  So a pass of `tick` is a fold that may stop anywhere, and the reply of the
client is an input at each message.

A command that comes in is looked up among the routes, decoded with the value that the record has,
and handed to the bridge; the decoder is the export's own.
-/

namespace EspTree.Mqtt

open Wire

/-! ## The values of commands -/

/-- The lambda for the JSON command of a light.  The one of the bridge refuses an effect that the light does not
have, when nothing else is named; here it is enough. -/
def lightJson (lib : Libraries) (effects : List Bytes) (root : JsonObject) : Option Bytes :=
  (EspTree.lightJson lib effects root).or ((root.string? "effect").map fun _ => [1, 0, 0, 0, 0, 0, 0, 0, 0])

/-- The export's own `decode_command_payload_`, which differs from the one of the bridge in `lightJson`. -/
def decodeCommandPayload (lib : Libraries) (entity : EntitySchema) (route : CommandRouteKind)
    (payload current : Bytes) : Option Bytes :=
  if entity.entityType = fieldTypeLight ∧ payload.head? = some 0x7B then
    (lib.parseJson payload).bind
      (lightJson lib (optionList (parseOptionsMap entity.entityOptions) (ascii "effects")))
  else EspTree.decodeCommandPayload lib entity route payload current

namespace Export

variable (w : Remotes) (e : Export)

/-! ## Calls of the bridge -/

def queueRemoteDiagRefresh (mac : Mac) : Export :=
  { e with remoteDiagRefresh := e.remoteDiagRefresh.insert (Bridge.macHex mac) mac }

def queueDiscovery (mac : Mac) (entity : EntitySchema) (displayName : Bytes) : Export :=
  let key := w.entityRecordKey mac entity.entityIndex
  let devKey := w.nodeKey mac
  let r := e.entities[key]?.getD { leafMac := mac }
  let d := e.devices[devKey]?.getD { leafMac := mac, nodeId := devKey, displayName := displayName }
  { e with
    entities := e.entities.insert key
      { r with
        leafMac := mac, nodeId := devKey, schema := entity, discoveryPublished := false,
        firstStatePublishPending := false, discoveryPublishedMs := 0, currentType := entity.entityType }
    devices := e.devices.insert devKey
      { d with
        entities := d.entities.insert entity.entityIndex entity, discoveryDirty := true,
        discoveryPublished := false } }.note (.queuedDiscovery key mac entity)

def queueState (mac : Mac) (entity : EntitySchema) (value : Bytes) (type : UInt8) (textValue : Bytes)
    (messageTxBase : UInt32) (nextHopMac : Option Mac) (displayName : Bytes) : Export :=
  let key := w.entityRecordKey mac entity.entityIndex
  let r := e.entities[key]?.getD { leafMac := mac }
  let receipt? : Option Receipt := nextHopMac.map fun _ => Receipt.mk mac entity.entityIndex messageTxBase
  { e with
    entities := e.entities.insert key
      { r with
        leafMac := mac, schema := if r.schema.entityType = 0 then entity else r.schema,
        currentValue := value, currentType := type, textValue := textValue, stateDirty := true,
        firstStatePublishPending := r.firstStatePublishPending || !r.discoveryPublished,
        pendingStateAck :=
          if nextHopMac.isSome then some (entity.entityIndex, messageTxBase) else r.pendingStateAck }
    devices := e.devices.modify (w.nodeKey mac) fun d =>
      { d with displayName := if d.displayName.isEmpty then displayName else d.displayName } }.note
    (.queuedState key entity type value textValue receipt?)

def queueAvailability (mac : Mac) (online : Bool) : Export :=
  let e := { e with availabilityQueue := e.availabilityQueue ++ [AvailabilityEntry.mk mac online] }
  if online then e.queueRemoteDiagRefresh mac
  else { e with remoteDiagRefresh := e.remoteDiagRefresh.erase (Bridge.macHex mac) }

def removeCommandRoutesForEntity (mac : Mac) (entityIndex : UInt8) : Export :=
  { e with commandRoutes := e.commandRoutes.filter fun _ route =>
      !(route.entityIndex == entityIndex && route.leafMac == mac) }

/-- The first loop of `queue_clear_entities`, for one entity. -/
def clearEntity (mac : Mac) (oldEntities : List EntitySchema) (entity : EntitySchema) : Export :=
  let objectId := entityObjectIdFromSchema oldEntities entity
  let key := w.entityRecordKey mac entity.entityIndex
  let pending : PendingEntityClear :=
    { discoveryTopic :=
        configTopic e.discoveryPrefix (componentForType entity.entityType) (w.nodeKey mac) objectId
      commandTopics := commandTopicsForObjectId (w.nodeKey mac) entity objectId }
  let e := { e with entityClears := e.entityClears.insert key pending }
  let e := e.removeCommandRoutesForEntity mac entity.entityIndex
  { e with entities := e.entities.erase key }.note (.cleared key mac entity.entityIndex)

def queueClearEntities (mac : Mac) (oldEntities : List EntitySchema) : Export :=
  let nk := w.nodeKey mac
  let e := oldEntities.foldl (fun e entity => e.clearEntity w mac oldEntities entity) e
  match e.devices[nk]? with
  | none => e
  | some d =>
    let entities := oldEntities.foldl (fun m entity => m.erase entity.entityIndex) d.entities
    if entities.isEmpty then
      { e with
        deviceClears := e.deviceClears.insert nk (deviceConfigTopic e.discoveryPrefix nk)
        devices := e.devices.erase nk }
    else
      { e with
        devices := e.devices.insert nk
          { d with entities := entities, discoveryDirty := true, discoveryPublished := false } }

def onSchemaComplete (mac : Mac) : Export :=
  { e with
    devices := e.devices.modify (w.nodeKey mac) fun d =>
      { d with discoveryDirty := true, discoveryPublished := false } }.queueRemoteDiagRefresh mac

/-! ## Commands -/

def handleCommandMessage (lib : Libraries) (topic payload : Bytes) : Export :=
  match e.commandRoutes[topic]? with
  | none => e
  | some route =>
    match (w.session? route.leafMac).bind fun x => x.entities[route.entityIndex.toNat]? with
    | none => e
    | some entity =>
      let current := (e.entities[w.entityRecordKey route.leafMac route.entityIndex]?.map (·.currentValue)).getD []
      match decodeCommandPayload lib entity route.routeKind payload current with
      | none => e
      | some value => e.note (.command route.leafMac route.entityIndex value)

/-- The lambda `subscribe_route`. -/
def subscribeRoute (mac : Mac) (entityIndex : UInt8) (topic : Bytes) (routeKind : CommandRouteKind) : Export :=
  let e := { e with commandRoutes := e.commandRoutes.insert topic ⟨mac, entityIndex, routeKind⟩ }
  if topic ∈ e.subscribedTopics then e
  else { e with subscribedTopics := topic :: e.subscribedTopics }.note (.subscribe topic)

def subscribeCommandTopic (mac : Mac) (entity : EntitySchema) : Export :=
  if entity.entityType ∉ commandTypes then e
  else
    let nk := w.nodeKey mac
    let objectId := w.entityObjectId mac entity
    (routeKinds entity).foldl
      (fun e kind => e.subscribeRoute mac entity.entityIndex (routeTopic nk objectId kind) kind)
      (e.removeCommandRoutesForEntity mac entity.entityIndex)

/-! ## What `tick` publishes -/

def loopTimeBudgetMs : UInt32 := 200

/-- `tick_budget_exceeded_`, with `tick_enter_ms_`. -/
def tickBudgetExceeded (enter : UInt32) : Bool := e.now - enter ≥ loopTimeBudgetMs

def doPublishDiscovery (key : Bytes) (r : EntityRecord) : Export :=
  let objectId := w.entityObjectId r.leafMac r.schema
  let nk := w.nodeKey r.leafMac
  let displayName := (e.devices[r.nodeId]?.map (·.displayName)).getD r.nodeId
  let sent := e.publish (configTopic e.discoveryPrefix (componentForType r.schema.entityType) nk objectId)
    (.config nk displayName r.schema) true
  let e := sent.1.subscribeCommandTopic w r.leafMac r.schema
  if ¬ sent.2 then e
  else
    { e with
      entities := e.entities.insert key
        { r with discoveryPublished := true, firstStatePublishPending := false, discoveryPublishedMs := e.now } }.note
      (.discoveryConfirmed r.leafMac r.schema.entityIndex)

def publishDeviceDiscovery (mac : Mac) : Export :=
  let nk := w.nodeKey mac
  match e.devices[nk]? with
  | none => e
  | some d =>
    if d.entities.isEmpty then e
    else
      let sent := e.publish (deviceConfigTopic e.discoveryPrefix nk) (.deviceConfig d.nodeId d.displayName) true
      let e := d.entities.toList.foldl (fun e pair => e.subscribeCommandTopic w mac pair.2) sent.1
      if ¬ sent.2 then e
      else { e with devices := e.devices.insert nk { d with discoveryDirty := false, discoveryPublished := true } }

def mqttRetryBackoffMs : List UInt32 := [200, 400, 800, 1600, 3200, 6400, 12800, 30000]

/-- The record after its state was published, and the receipt that was kept for it. -/
def shown (key : Bytes) (r : EntityRecord) : Export :=
  let e := { e with
    entities := e.entities.insert key
      { r with textValue := [], stateDirty := false, firstStatePublishPending := false, pendingStateAck := none } }
  match r.pendingStateAck with
  | none => e
  | some (entityIndex, base) => e.note (.delivered key ⟨r.leafMac, entityIndex, base⟩)

def doPublishState (key : Bytes) (r : EntityRecord) : Export :=
  let sent := publishAll false (stateMessages (w.nodeKey r.leafMac) (w.entityObjectId r.leafMac r.schema) r) e
  let e := sent.1
  if sent.2 then e.shown key r
  else
    let retryCount := if e.retryCount < 7 then e.retryCount + 1 else e.retryCount
    { e with retryCount := retryCount, backoffUntilMs := e.now + mqttRetryBackoffMs.getD (min retryCount 7) 0 }

/-! ## Diagnostics -/

def publishForceRejoinButtonDiscovery : Export :=
  if e.forceRejoinDiscoveryPublished then e
  else
    let sent := e.publish
      (configTopic e.discoveryPrefix (ascii "button") (Bridge.macHex e.bridgeMac) (ascii "force_rejoin")) .diagnostic true
    if sent.2 then { sent.1 with forceRejoinDiscoveryPublished := true } else sent.1

/-- The suffixes of the sensors that `publish_bridge_diag_discovery_` counts. -/
def bridgeSuffixes : List Bytes :=
  [ascii "wifi_signal", ascii "uptime", ascii "remotes_online", ascii "remotes_direct", ascii "wifi_channel",
    ascii "mac_address"]

/-- The configuration of a sensor of the bridge. -/
def bridgeSensor (suffix : Bytes) : Bytes × Payload :=
  (configTopic e.discoveryPrefix (ascii "sensor") (Bridge.macHex e.bridgeMac) suffix, .diagnostic)

def publishBridgeDiagDiscovery : Export :=
  let sent := publishAll true (bridgeSuffixes.map (bridgeSensor e)) e
  let e := (publishAll true [bridgeSensor e (ascii "topology_url")] sent.1).1
  let e := (publishAll true [bridgeSensor e (ascii "ram_usage")] e).1
  if sent.2 then { e with bridgeDiagDiscoveryPublished := true } else e

/-- The suffixes of the diagnostic sensors of a remote. -/
def remoteSuffixes : List Bytes :=
  [ascii "uptime_since_join", ascii "last_seen", ascii "rssi_dbm", ascii "rssi_pct", ascii "tx_packets",
    ascii "rx_packets", ascii "hops_to_bridge", ascii "chip_type", ascii "child_remotes_direct",
    ascii "child_remotes_total", ascii "esphome_name", ascii "project_name", ascii "project_version",
    ascii "mac_address"]

def publishRemoteDiagDiscovery (mac : Mac) : Export :=
  let nk := w.nodeKey mac
  let message (suffix : Bytes) : Bytes × Payload :=
    (configTopic e.discoveryPrefix (ascii "sensor") nk (ascii "diagnostic_" ++ suffix), .diagnostic)
  let sent := publishAll true (remoteSuffixes.map message) e
  if sent.2 then { sent.1 with remoteDiagDiscovery := nk :: sent.1.remoteDiagDiscovery } else sent.1

/-- The suffixes in `publish_remote_diag_state_`. -/
def remoteStateSuffixes : List Bytes :=
  [ascii "uptime_since_join", ascii "last_seen", ascii "rssi_dbm", ascii "rssi_pct", ascii "tx_packets",
    ascii "rx_packets", ascii "hops_to_bridge", ascii "chip_type", ascii "esphome_name",
    ascii "child_remotes_direct", ascii "child_remotes_total", ascii "project_name", ascii "project_version"]

def publishRemoteDiagState (mac : Mac) : Export :=
  publishEach (remoteStateSuffixes.map fun suffix => (remoteDiagStateTopic (w.nodeKey mac) suffix, .diagnostic)) e

/-! ## `tick` -/

/-- The announcement of the bridge. -/
def announceBridge (enter : UInt32) : Export × Bool :=
  if e.bridgeDiagDiscoveryPublished then (e, false)
  else
    let e := e.publishForceRejoinButtonDiscovery
    if e.tickBudgetExceeded enter then (e, true)
    else
      let e := e.publishBridgeDiagDiscovery
      (e, e.tickBudgetExceeded enter)

/-- The loop over `pending_entity_clears_`, which ends with its first entry. -/
def clearEntities (enter : UInt32) : Export × Bool :=
  match e.entityClears.toList with
  | [] => (e, false)
  | (key, pending) :: _ =>
    if e.tickBudgetExceeded enter then (e, true)
    else
      let sent := e.publish pending.discoveryTopic (.text []) true
      let e := sent.1
      if ¬ sent.2 then (e, false)
      else
        ({ e with
          commandRoutes := pending.commandTopics.foldl (fun routes topic => routes.erase topic) e.commandRoutes
          entityClears := e.entityClears.erase key }, true)

/-- The loop over `pending_device_clears_`. -/
def clearDevices (enter : UInt32) : Export × Bool :=
  match e.deviceClears.toList with
  | [] => (e, false)
  | (key, discoveryTopic) :: _ =>
    if e.tickBudgetExceeded enter then (e, true)
    else
      let sent := e.publish discoveryTopic (.text []) true
      if ¬ sent.2 then (sent.1, false)
      else ({ sent.1 with deviceClears := sent.1.deviceClears.erase key }, true)

/-- The front of `availability_queue_`. -/
def publishAvailability : Export × Bool :=
  match e.availabilityQueue with
  | [] => (e, false)
  | front :: queue =>
    let e := { e with availabilityQueue := queue }
    ((e.publish (availabilityTopic (w.nodeKey front.mac))
      (.text (if front.online then ascii "online" else ascii "offline")) false).1, true)

/-- The loop over `remote_diag_refresh_pending_`: the first remote that is online. -/
def refreshRemoteDiag : Export × Bool :=
  match e.remoteDiagRefresh.toList.find? fun p => (w.session? p.2).any (·.online) with
  | none => (e, false)
  | some (key, mac) =>
    if w.nodeKey mac ∉ e.remoteDiagDiscovery then (e.publishRemoteDiagDiscovery w mac, true)
    else
      let e := e.publishRemoteDiagState w mac
      ({ e with remoteDiagRefresh := e.remoteDiagRefresh.erase key }, true)

/-- The loop over `mqtt_devices_`: the first device that is dirty. -/
def publishDevices : Export :=
  match e.devices.toList.find? fun p => p.2.discoveryDirty with
  | none => e
  | some (_, d) => e.publishDeviceDiscovery w d.leafMac

def firstStatePublishGraceMs : UInt32 := 200

/-- The loop over `mqtt_entities_`, with `states_processed`. -/
def publishEntities (enter : UInt32) : List (Bytes × EntityRecord) → Nat → Export → Export
  | [], _, e => e
  | (key, r) :: records, processed, e =>
    if e.tickBudgetExceeded enter then e
    else
      let devPublished := e.devices[r.nodeId]?.any (·.discoveryPublished)
      if !r.discoveryPublished && devPublished then e.doPublishDiscovery w key r
      else if r.stateDirty && r.discoveryPublished then
        if r.firstStatePublishPending && e.now - r.discoveryPublishedMs < firstStatePublishGraceMs then
          publishEntities enter records processed e
        else
          let r := { r with firstStatePublishPending := false }
          let e := { e with entities := e.entities.insert key r }
          let e := e.doPublishState w key r
          if processed + 1 ≥ 2 then e else publishEntities enter records (processed + 1) e
      else publishEntities enter records processed e

/-- What is marked when the client has just connected. -/
def justConnected : Export :=
  let e := { e with
    retryCount := 0
    backoffUntilMs := 0
    devices := Std.TreeMap.map (fun _ d => { d with discoveryDirty := true, discoveryPublished := false }) e.devices
    entities := Std.TreeMap.map (fun _ r => { r with discoveryPublished := false, stateDirty := true }) e.entities
    bridgeDiagDiscoveryPublished := false
    remoteDiagDiscovery := []
    remoteDiagRefresh := ∅ }
  w.onlineMacs.foldl (fun e mac => e.queueRemoteDiagRefresh mac) e

end Export

/-- One pass of `tick`, and whether it returns after it. -/
abbrev Pass := Export → Export × Bool

/-- Passes in turn, up to the one after which `tick` returns. -/
def Pass.run : List Pass → Export → Export
  | [], e => e
  | pass :: passes, e => if (pass e).2 then (pass e).1 else run passes (pass e).1

/-- What a call of `tick` finds: the sessions, the client, the time, and the time after the values of diagnostics
that are published again. -/
structure Call where
  remotes : Remotes
  connected : Bool
  now : UInt32
  replies : List Reply
  later : UInt32

namespace Export

/-- The passes of `tick`. -/
def passes (c : Call) : List Pass :=
  [fun e => e.announceBridge c.now, fun e => e.clearEntities c.now, fun e => e.clearDevices c.now,
    fun e => e.publishAvailability c.remotes, fun e => ({ e with now := c.later }, false),
    fun e => e.refreshRemoteDiag c.remotes, fun e => (e.publishDevices c.remotes, false),
    fun e => (publishEntities c.remotes c.now e.entities.toList 0 e, false)]

def tick (c : Call) (e : Export) : Export :=
  let e := { e with now := c.now, replies := c.replies, connected := c.connected }
  if ¬ e.connected then { e with wasConnected := false }
  else if e.backoffUntilMs ≠ 0 ∧ e.now < e.backoffUntilMs then e
  else
    let e := { e with backoffUntilMs := 0 }
    let e := if e.wasConnected then e else e.justConnected c.remotes
    Pass.run (passes c) { e with wasConnected := true }

end Export

end EspTree.Mqtt
