import EspTree.Integration.Messages
import EspTree.Lib.Dict

/-!
# The picture of the integration

`EspTreeRuntime`: what the integration makes of the frames that the add-on passes on (`_handle_snapshot`,
`_handle_events`, `_merge_remote_snapshot`) and which reports of a live remote it takes (`_accept_live`).

`norm` is `norm_mac`.  An entity is one object for the table of all entities and for its remote, so a remote
has only the ids of its entities here.  The clock counts milliseconds and is read once for a frame.  What is
only shown of a bridge, the device registry, the discovery flows and the callbacks are left out.
-/

namespace EspTree.Integration

open AddOn.Rename (Text)

/-- `EntityModel`, less `remote_mac` and `object_id`, which are its key. -/
structure EntityModel where
  platform : Text
  name : Text
  nativeType : Text := []
  unit : Text := []
  deviceClass : Text := []
  stateClass : Text := []
  optionsJson : Text := []
  writable : Bool := false
  available : Bool := false
  value : Option Value := none
  observedUnixMs : Nat := 0
  missingFromSchema : Bool := false
  deriving DecidableEq

/-- `RemoteModel`, less `remote_mac`, which is its key. -/
structure RemoteModel where
  name : Text := []
  esphomeName : Text := []
  manufacturer : Text := "ESPHome".toList
  model : Text := "esp_tree_remote".toList
  projectName : Text := []
  projectVersion : Text := []
  firmwareBuildDate : Text := []
  firmwareMd5 : Text := []
  schemaHash : Text := []
  bridgeMac : Text := []
  parentMac : Text := []
  sessionId : Text := []
  lastTxCounter : Nat := 0
  lastLiveObservedMs : Int := 0
  lastSeenBridgeUptimeS : Int := 0
  lastSeenObservedAt : Nat := 0
  online : Bool := false
  rssi : Option Int := none
  hopsToBridge : Option Nat := none
  chipName : Text := []
  uptimeS : Nat := 0
  uptimeObservedAt : Nat := 0
  offlineStartedAt : Option Int := some 0
  entities : List Text := []
  deriving DecidableEq

structure EspTreeRuntime where
  remotes : Dict Text RemoteModel := ∅
  entities : Dict (Text × Text) EntityModel := ∅
  bridgeUptimeObserved : Dict Text (Nat × Nat) := ∅
  deriving DecidableEq

namespace EspTreeRuntime

variable (norm : Text → Text) (rt : EspTreeRuntime) (now : Nat)

def effectiveBridgeUptime (bridgeMac : Text) : Nat := uptimeAt (rt.bridgeUptimeObserved.get? (norm bridgeMac)) now

def touchLastSeen (remote : RemoteModel) (bridgeMac : Text) : RemoteModel :=
  let effective := rt.effectiveBridgeUptime norm now bridgeMac
  if 0 < effective then { remote with lastSeenBridgeUptimeS := effective, lastSeenObservedAt := now } else remote

/-- `self.remotes.setdefault(remote_mac, …)`. -/
def remoteFor (remoteMac : Text) : RemoteModel := (rt.remotes.get? remoteMac).getD {}

def setRemote (remoteMac : Text) (remote : RemoteModel) : EspTreeRuntime :=
  { rt with remotes := rt.remotes.set remoteMac remote }

def applyState (remoteMac : Text) (state : EntityState) : EspTreeRuntime :=
  let key := (norm remoteMac, state.objectId)
  match rt.entities.get? key with
  | none => rt
  | some entity =>
    { rt with entities := rt.entities.set key { entity with
        value := state.value, available := state.available, observedUnixMs := state.observedUnixMs } }

/-- The seconds since a remote was heard, by the uptime of its bridge. -/
def elapsedS (bridgeMac : Text) (runtime : RemoteRuntime) : Int :=
  let bridgeUptimeS := rt.effectiveBridgeUptime norm now bridgeMac
  if 0 < runtime.lastSeenBridgeUptimeS ∧ 0 < bridgeUptimeS then bridgeUptimeS - runtime.lastSeenBridgeUptimeS else 0

/-- What `_merge_remote_snapshot` and `remote_metadata_changed` both take from a report. -/
def described (remote : RemoteModel) (identity : RemoteIdentity) (runtime : RemoteRuntime) (bridgeMac : Text) :
    RemoteModel :=
  { remote with
    name := identity.friendlyName
    esphomeName := identity.esphomeName
    manufacturer := if identity.manufacturer = [] then "ESPHome".toList else identity.manufacturer
    model := if identity.model = [] then "esp_tree_remote".toList else identity.model
    projectName := identity.projectName
    projectVersion := identity.projectVersion
    firmwareBuildDate := identity.firmwareBuildDate
    schemaHash := identity.schemaHash
    bridgeMac := bridgeMac
    parentMac := norm runtime.parentMac
    sessionId := runtime.sessionId
    lastTxCounter := runtime.lastTxCounter
    lastSeenBridgeUptimeS := runtime.lastSeenBridgeUptimeS
    lastSeenObservedAt := now
    online := runtime.online
    rssi := some runtime.rssi
    hopsToBridge := some runtime.hopsToBridge
    uptimeS := runtime.uptimeS
    uptimeObservedAt := now
    chipName := identity.chipName }

/-- The fields that a descriptor sets. -/
def EntityDescriptor.describe (desc : EntityDescriptor) (online : Bool) (entity : EntityModel) : EntityModel :=
  { entity with
    name := if desc.friendlyName = [] then desc.objectId else desc.friendlyName
    nativeType := desc.nativeType
    unit := desc.unitOfMeasurement
    deviceClass := desc.deviceClass
    stateClass := desc.stateClass
    optionsJson := desc.optionsJson
    writable := desc.writable
    available := online
    missingFromSchema := false }

/-- One turn of the loop over the descriptors; an entity that is new goes into both tables. -/
def mergeDescriptor (remoteMac : Text) (desc : EntityDescriptor) : EspTreeRuntime :=
  if desc.objectId = [] then rt
  else
    let remote := rt.remoteFor remoteMac
    let key := (remoteMac, desc.objectId)
    match rt.entities.get? key with
    | some entity => { rt with entities := rt.entities.set key (EntityDescriptor.describe desc remote.online entity) }
    | none =>
      let entity : EntityModel :=
        { platform := desc.platform, name := if desc.friendlyName = [] then desc.objectId else desc.friendlyName }
      { rt with
        remotes := rt.remotes.set remoteMac { remote with entities := remote.entities ++ [desc.objectId] }
        entities := rt.entities.set key (EntityDescriptor.describe desc remote.online entity) }

/-- The entities of a remote that its descriptors have left out. -/
def markMissing (remoteMac : Text) (seen : List Text) : EspTreeRuntime :=
  let remote := rt.remoteFor remoteMac
  { rt with entities := rt.entities.map fun key entity =>
      if key.1 = remoteMac ∧ remote.entities.contains key.2 = true ∧ seen.contains key.2 = false then
        { entity with available := false, missingFromSchema := true }
      else entity }

def mergeRemoteSnapshot (snapshot : RemoteSnapshot) (bridgeMac : Text) (observedMs : Nat) : EspTreeRuntime :=
  let runtime := snapshot.runtime
  let remoteMac := norm snapshot.identity.remoteMac
  let old := rt.remoteFor remoteMac
  let elapsedS := rt.elapsedS norm now bridgeMac runtime
  let remote := described norm now old snapshot.identity runtime
    (norm (if runtime.bridgeMac = [] then bridgeMac else runtime.bridgeMac))
  let remote := { remote with
    firmwareMd5 := snapshot.identity.firmwareMd5
    lastLiveObservedMs := if 0 < elapsedS * 1000 then elapsedS * 1000 else observedMs
    offlineStartedAt :=
      if runtime.online = false ∧ runtime.lastSeenBridgeUptimeS ≠ 0 then
        if 0 < elapsedS then some ((now / 1000 : Nat) - elapsedS) else none
      else old.offlineStartedAt }
  let rt := rt.setRemote remoteMac remote
  let rt := snapshot.entities.foldl (fun rt desc => rt.mergeDescriptor remoteMac desc) rt
  let seen := (snapshot.entities.map (·.objectId)).filter (· ≠ [])
  let rt := rt.markMissing remoteMac seen
  snapshot.states.foldl (fun rt state => rt.applyState norm remoteMac state) rt

def handleSnapshot (snapshot : FullSnapshot) : EspTreeRuntime :=
  let bridgeMac := norm snapshot.bridgeMac
  let rt := { rt with bridgeUptimeObserved := rt.bridgeUptimeObserved.set bridgeMac (snapshot.uptimeS, now) }
  snapshot.remotes.foldl
    (fun rt remote => rt.mergeRemoteSnapshot norm now remote bridgeMac snapshot.snapshotUnixMs) rt

def acceptLive (remote : RemoteModel) (bridgeMac sessionId : Text) (txCounter observedMs : Nat) : Bool :=
  if remote.sessionId = [] ∨ remote.sessionId ≠ sessionId then true
  else if remote.bridgeMac = bridgeMac then remote.lastTxCounter ≤ txCounter
  else if remote.lastTxCounter < txCounter then true
  else remote.lastLiveObservedMs < observedMs

/-- `remote_state`. -/
def handleState (ev : StateEvent) : EspTreeRuntime :=
  let remoteMac := norm ev.remoteMac
  let bridgeMac := norm ev.bridgeMac
  let rt := match rt.remotes.get? remoteMac with
    | none => rt
    | some remote =>
      if acceptLive remote bridgeMac ev.sessionId ev.txCounter ev.observedUnixMs then
        let remote := { remote with
          bridgeMac := bridgeMac, sessionId := ev.sessionId, lastTxCounter := ev.txCounter,
          lastLiveObservedMs := ev.observedUnixMs, online := true }
        rt.setRemote remoteMac (rt.touchLastSeen norm now remote bridgeMac)
      else rt
  ev.states.foldl (fun rt state => rt.applyState norm remoteMac state) rt

/-- `remote_availability`. -/
def handleAvailability (ev : Availability) : EspTreeRuntime :=
  let remoteMac := norm ev.remoteMac
  let bridgeMac := norm ev.bridgeMac
  let remote := rt.remoteFor remoteMac
  let remote :=
    if ev.online then
      if acceptLive remote bridgeMac ev.sessionId ev.txCounter ev.observedUnixMs then
        let remote := { remote with
          bridgeMac := bridgeMac, sessionId := ev.sessionId, lastTxCounter := ev.txCounter,
          lastLiveObservedMs := ev.uptimeS * 1000, online := true, rssi := some ev.rssi,
          hopsToBridge := some ev.hopsToBridge, uptimeS := ev.uptimeS, uptimeObservedAt := now }
        rt.touchLastSeen norm now remote bridgeMac
      else remote
    else if remote.bridgeMac = bridgeMac ∧ remote.sessionId = ev.sessionId then
      { remote with
        offlineStartedAt := if remote.online then some ((now / 1000 : Nat) : Int) else remote.offlineStartedAt
        online := false }
    else remote
  let rt := rt.setRemote remoteMac remote
  { rt with entities := rt.entities.map fun key entity =>
      if key.1 = remoteMac ∧ remote.entities.contains key.2 = true then { entity with available := remote.online }
      else entity }

/-- `remote_metadata_changed`. -/
def handleMetadataChanged (identity : RemoteIdentity) (runtime : RemoteRuntime) : EspTreeRuntime :=
  let remoteMac := norm identity.remoteMac
  let bridgeMac := norm runtime.bridgeMac
  let elapsedS := rt.elapsedS norm now bridgeMac runtime
  let remote := described norm now (rt.remoteFor remoteMac) identity runtime bridgeMac
  rt.setRemote remoteMac { remote with lastLiveObservedMs := if 0 < elapsedS then elapsedS * 1000 else 0 }

/-- `topology_changed`. -/
def handleTopologyChanged (ev : TopologyChanged) : EspTreeRuntime :=
  let remoteMac := norm ev.remoteMac
  match rt.remotes.get? remoteMac with
  | none => rt
  | some remote =>
    let remote := { remote with
      parentMac := norm ev.parentMac, hopsToBridge := some ev.hopsToBridge, rssi := some ev.rssi,
      uptimeS := ev.uptimeS, uptimeObservedAt := now }
    rt.setRemote remoteMac (if remote.online then rt.touchLastSeen norm now remote (norm ev.bridgeMac) else remote)

/-- One turn of the loop over `remote_last_seen`. -/
def handleLastSeen (rls : Text × Nat) : EspTreeRuntime :=
  match rt.remotes.get? (norm rls.1) with
  | none => rt
  | some remote =>
    rt.setRemote (norm rls.1) { remote with lastSeenBridgeUptimeS := rls.2, lastSeenObservedAt := now }

/-- `bridge_heartbeat`. -/
def handleHeartbeat (ev : Heartbeat) : EspTreeRuntime :=
  let rt := { rt with bridgeUptimeObserved := rt.bridgeUptimeObserved.set (norm ev.bridgeMac) (ev.uptimeS, now) }
  ev.remoteLastSeen.foldl (fun rt rls => rt.handleLastSeen norm now rls) rt

/-- One turn of the loop of `_handle_events`. -/
def handleEvent : Event → EspTreeRuntime
  | .availability ev => rt.handleAvailability norm now ev
  | .state ev => rt.handleState norm now ev
  | .schemaChanged bridgeMac snapshot => rt.mergeRemoteSnapshot norm now snapshot (norm bridgeMac) 0
  | .metadataChanged identity runtime => rt.handleMetadataChanged norm now identity runtime
  | .topologyChanged ev => rt.handleTopologyChanged norm now ev
  | .heartbeat ev => rt.handleHeartbeat norm now ev
  | .unknown => rt

def handleEvents (batch : List Event) : EspTreeRuntime := batch.foldl (fun rt ev => rt.handleEvent norm now ev) rt

def handleFrame : Frame → EspTreeRuntime
  | .snapshot snapshot => rt.handleSnapshot norm now snapshot
  | .events batch => rt.handleEvents norm now batch

end EspTreeRuntime

end EspTree.Integration
