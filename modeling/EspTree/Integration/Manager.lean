import EspTree.Integration.Messages
import EspTree.Lib.Dict

/-!
# The picture of the add-on

`BridgeV2Manager`: what it makes of the frames of its bridges (`_handle_snapshot`, `_handle_event_batch`,
`_handle_remote_snapshot`) and of a connection that is lost (`_offline_batch_for_bridge`,
`_handle_connection_change`), and where it sends the commands for a remote (`_route_for_remote`).

`norm` is `normalize_mac`.  The clock counts milliseconds and is read once for a frame.  The entries of a node
that only describe the device are left out, as are the database and the pages of the add-on.

A node and a route of a remote are kept in two dictionaries, and several functions write both.  They
do not always agree: a state of an unknown remote makes no node, and a topology event makes a node
without a route.  So what the add-on shows of a remote and where it sends a command are two
questions, and both are answered in `Integration.Record`.
-/

namespace EspTree.Integration

open AddOn.Rename (Text)

/-- `a or b`. -/
def orElse (a b : Text) : Text := if a = [] then b else a

theorem orElse_own {a b : Text} (h : a = [] ∨ a = b) : orElse a b = b := by
  rcases h with rfl | rfl
  · rfl
  · exact ite_self a

structure RemoteRoute where
  bridgeUuid : Text
  bridgeMac : Text
  remoteMac : Text
  sessionId : Text := []
  deriving DecidableEq

/-- A node of `_topology_nodes`; the node of a bridge has no `bridge_mac`. -/
structure Node where
  online : Bool
  sessionId : Text := []
  parentMac : Option Text := none
  hops : Nat := 0
  rssi : Int := 0
  uptimeS : Nat := 0
  uptimeObservedAt : Nat := 0
  offlineStartedAt : Option Int := none
  lastSeenBridgeUptimeS : Int := 0
  lastSeenObservedAt : Nat := 0
  bridgeUptimeS : Nat := 0
  isBridge : Bool := false
  bridgeMac : Text := []
  deriving DecidableEq

/-- What the manager knows of a `BridgeV2Client`. -/
structure Client where
  bridgeUuid : Text
  bridgeMac : Text := []
  connected : Bool := false
  deriving DecidableEq

/-- `BridgeV2Manager`, less its clients. -/
structure BridgeV2Manager where
  snapshots : Dict Text FullSnapshot := ∅
  topologyNodes : Dict Text Node := ∅
  routes : Dict Text RemoteRoute := ∅
  bridgeUptimeObserved : Dict Text (Nat × Nat) := ∅

namespace BridgeV2Manager

variable (norm : Text → Text) (m : BridgeV2Manager) (now : Nat)

def effectiveBridgeUptime (bridgeMac : Text) : Nat := uptimeAt (m.bridgeUptimeObserved.get? (norm bridgeMac)) now

def touchLastSeen (node : Node) (bridgeMac : Text) : Node :=
  let effective := m.effectiveBridgeUptime norm now bridgeMac
  if 0 < effective then
    { node with lastSeenBridgeUptimeS := effective, lastSeenObservedAt := now, bridgeUptimeS := effective }
  else node

def remoteNode (remote : RemoteSnapshot) (bridgeMac : Text) : Node :=
  let runtime := remote.runtime
  let bridgeUptimeS := m.effectiveBridgeUptime norm now bridgeMac
  let elapsedS : Int := if 0 < runtime.lastSeenBridgeUptimeS then bridgeUptimeS - runtime.lastSeenBridgeUptimeS else 0
  { online := runtime.online
    sessionId := runtime.sessionId
    parentMac := some (norm runtime.parentMac)
    hops := runtime.hopsToBridge
    rssi := runtime.rssi
    uptimeS := runtime.uptimeS
    uptimeObservedAt := now
    offlineStartedAt := if runtime.online = false ∧ 0 < elapsedS then some ((now / 1000 : Nat) - elapsedS) else none
    lastSeenBridgeUptimeS := runtime.lastSeenBridgeUptimeS
    lastSeenObservedAt := now
    bridgeUptimeS := bridgeUptimeS
    bridgeMac := bridgeMac }

/-- What a new node of a remote takes over from the old one, where the old one has it. -/
def carryOver (existing node : Node) : Node :=
  { node with
    lastSeenBridgeUptimeS :=
      if existing.lastSeenBridgeUptimeS = 0 then node.lastSeenBridgeUptimeS else existing.lastSeenBridgeUptimeS
    lastSeenObservedAt :=
      if existing.lastSeenBridgeUptimeS = 0 then node.lastSeenObservedAt else existing.lastSeenObservedAt
    offlineStartedAt :=
      if existing.offlineStartedAt = none ∨ existing.offlineStartedAt = some 0 then node.offlineStartedAt
      else existing.offlineStartedAt }

/-- The node comes in for the one that is there. -/
def replaceNode (nodes : Dict Text Node) (mac : Text) (node : Node) : Dict Text Node :=
  nodes.set mac (match nodes.get? mac with
    | none => node
    | some existing => if node.isBridge then node else carryOver existing node)

/-- `self._bridge_uptime_observed[…] = (uptime_s, time.time())`. -/
def observeUptime (bridgeMac : Text) (uptimeS : Nat) : BridgeV2Manager :=
  { m with bridgeUptimeObserved := m.bridgeUptimeObserved.set bridgeMac (uptimeS, now) }

/-- `_snapshot_nodes`: the bridge, then its remotes. -/
def snapshotNodes (snapshot : FullSnapshot) : List (Text × Node) :=
  let bridgeMac := norm snapshot.bridgeMac
  let bridge : Node :=
    { online := snapshot.bridgeOnline, parentMac := some [], rssi := snapshot.wifiRssi, uptimeS := snapshot.uptimeS,
      bridgeUptimeS := snapshot.uptimeS, isBridge := true }
  (bridgeMac, bridge) :: snapshot.remotes.map fun remote =>
    (norm remote.identity.remoteMac,
      (m.observeUptime now bridgeMac snapshot.uptimeS).remoteNode norm now remote bridgeMac)

/-- The nodes once those of a snapshot have come in. -/
def placedNodes (snapshot : FullSnapshot) : Dict Text Node :=
  (m.snapshotNodes norm now snapshot).foldl (fun nodes entry => replaceNode nodes (norm entry.1) entry.2) m.topologyNodes

/-- The route to a remote that `client` has reported. -/
def routeFor (client : Client) (bridgeMac remoteMac sessionId : Text) : RemoteRoute :=
  { bridgeUuid := client.bridgeUuid, bridgeMac := bridgeMac, remoteMac := remoteMac, sessionId := sessionId }

/-- The bridge that a snapshot is of, for the add-on. -/
def snapshotBridge (client : Client) (snapshot : FullSnapshot) : Text :=
  norm (orElse snapshot.bridgeMac client.bridgeMac)

/-- The remotes of a bridge that are not among `macs`, as its nodes stand in the picture. -/
def staleMacs (nodes : Dict Text Node) (macs : List Text) (bridgeMac : Text) : List Text :=
  (nodes.filter fun mac node => !macs.contains mac && node.bridgeMac == bridgeMac && mac != bridgeMac).keys

/-- `_handle_snapshot`; the client takes the address of its bridge from it. -/
def handleSnapshot (client : Client) (snapshot : FullSnapshot) : BridgeV2Manager :=
  let bridgeMac := snapshotBridge norm client snapshot
  let nodes := m.placedNodes norm now snapshot
  let stale := staleMacs nodes ((m.snapshotNodes norm now snapshot).map fun entry => norm entry.1) bridgeMac
  { snapshots := m.snapshots.set client.bridgeUuid snapshot
    topologyNodes := nodes.popAll stale
    routes := snapshot.remotes.foldl (fun routes remote =>
      routes.set (norm remote.identity.remoteMac)
        (routeFor client bridgeMac (norm remote.identity.remoteMac) remote.runtime.sessionId)) (m.routes.popAll stale)
    bridgeUptimeObserved := (m.observeUptime now (norm snapshot.bridgeMac) snapshot.uptimeS).bridgeUptimeObserved }

def handleRemoteSnapshot (client : Client) (snapshot : RemoteSnapshot) (bridgeMacValue : Text) : BridgeV2Manager :=
  let bridgeMac := norm (orElse (orElse bridgeMacValue snapshot.runtime.bridgeMac) client.bridgeMac)
  let nodeMac := norm snapshot.identity.remoteMac
  let node := m.remoteNode norm now snapshot bridgeMac
  let node := match m.topologyNodes.get? nodeMac with
    | none => node
    | some existing => carryOver existing node
  { m with
    topologyNodes := m.topologyNodes.set (norm nodeMac) node
    routes := m.routes.set (norm nodeMac) (routeFor client bridgeMac (norm nodeMac) snapshot.runtime.sessionId) }

/-- The node of a remote that was unknown when something else was reported of it. -/
def placeholder (bridgeMac sessionId : Text) (parentMac : Option Text) (hops : Nat) (rssi : Int) (uptimeS : Nat) : Node :=
  let bridgeUptimeS := m.effectiveBridgeUptime norm now bridgeMac
  { online := true, sessionId := sessionId, parentMac := parentMac, hops := hops, rssi := rssi, uptimeS := uptimeS,
    uptimeObservedAt := now, lastSeenBridgeUptimeS := bridgeUptimeS, lastSeenObservedAt := now,
    bridgeUptimeS := bridgeUptimeS, bridgeMac := bridgeMac }

/-- `remote_availability`. -/
def handleAvailability (client : Client) (ev : Availability) : BridgeV2Manager :=
  let remoteMac := norm ev.remoteMac
  let bridgeMac := norm (orElse ev.bridgeMac client.bridgeMac)
  let route := (m.routes.get? remoteMac).getD (routeFor client bridgeMac remoteMac [])
  let route := { route with bridgeUuid := client.bridgeUuid, bridgeMac := bridgeMac, sessionId := ev.sessionId }
  let m := { m with routes := m.routes.set remoteMac route }
  match m.topologyNodes.get? remoteMac with
  | some node =>
    let offlineStartedAt := if node.online && !ev.online then some ((now / 1000 : Nat) : Int) else node.offlineStartedAt
    let node := { node with
      online := ev.online, sessionId := ev.sessionId, offlineStartedAt := offlineStartedAt, rssi := ev.rssi,
      hops := ev.hopsToBridge, uptimeS := ev.uptimeS, uptimeObservedAt := now }
    let node := if ev.online then m.touchLastSeen norm now node bridgeMac else node
    { m with topologyNodes := m.topologyNodes.set remoteMac node }
  | none =>
    if ev.online then
      let node := m.placeholder norm now bridgeMac ev.sessionId none ev.hopsToBridge ev.rssi ev.uptimeS
      { m with topologyNodes := m.topologyNodes.set remoteMac node }
    else m

/-- `route.session_id = …`, on the route that is in the table. -/
def setSession (remoteMac sessionId : Text) : BridgeV2Manager :=
  match m.routes.get? remoteMac with
  | none => m
  | some route => { m with routes := m.routes.set remoteMac { route with sessionId := sessionId } }

/-- The session that the route to a remote names, or else `sessionId`. -/
def sessionOr (remoteMac sessionId : Text) : Text :=
  ((m.routes.get? remoteMac).map (·.sessionId)).getD sessionId

/-- `remote_state`. -/
def handleState (ev : StateEvent) : BridgeV2Manager :=
  let remoteMac := norm ev.remoteMac
  let m := m.setSession remoteMac ev.sessionId
  match m.topologyNodes.get? remoteMac with
  | none => m
  | some node =>
    if node.online then
      let node := { node with sessionId := m.sessionOr remoteMac node.sessionId }
      { m with topologyNodes := m.topologyNodes.set remoteMac (m.touchLastSeen norm now node (norm ev.bridgeMac)) }
    else m

/-- `topology_changed`. -/
def handleTopologyChanged (ev : TopologyChanged) : BridgeV2Manager :=
  let remoteMac := norm ev.remoteMac
  let bridgeMac := norm ev.bridgeMac
  match m.topologyNodes.get? remoteMac with
  | some node =>
    let node := { node with
      parentMac := some (norm ev.parentMac), hops := ev.hopsToBridge, rssi := ev.rssi, uptimeS := ev.uptimeS,
      sessionId := m.sessionOr remoteMac node.sessionId, uptimeObservedAt := now }
    let node := if node.online then m.touchLastSeen norm now node bridgeMac else node
    { m with topologyNodes := m.topologyNodes.set remoteMac node }
  | none =>
    let node := m.placeholder norm now bridgeMac (m.sessionOr remoteMac []) (some (norm ev.parentMac)) ev.hopsToBridge
      ev.rssi ev.uptimeS
    { m with topologyNodes := m.topologyNodes.set remoteMac node }

/-- One turn of the loop over `remote_last_seen`. -/
def handleLastSeen (bridgeMac : Text) (nodes : Dict Text Node) (rls : Text × Nat) : Dict Text Node :=
  match nodes.get? (norm rls.1) with
  | none => nodes
  | some node =>
    nodes.set (norm rls.1) { node with
      lastSeenBridgeUptimeS := rls.2, lastSeenObservedAt := now,
      bridgeUptimeS := m.effectiveBridgeUptime norm now bridgeMac }

/-- `bridge_heartbeat`. -/
def handleHeartbeat (ev : Heartbeat) : BridgeV2Manager :=
  let bridgeMac := norm ev.bridgeMac
  let nodes := match m.topologyNodes.get? bridgeMac with
    | none => m.topologyNodes
    | some node => m.topologyNodes.set bridgeMac { node with uptimeS := ev.uptimeS }
  let m := m.observeUptime now bridgeMac ev.uptimeS
  { m with topologyNodes := ev.remoteLastSeen.foldl (m.handleLastSeen norm now bridgeMac) nodes }

/-- One turn of the loop of `_handle_event_batch`. -/
def handleEvent (client : Client) : Event → BridgeV2Manager
  | .availability ev => m.handleAvailability norm now client ev
  | .state ev => m.handleState norm now ev
  | .schemaChanged bridgeMac snapshot => m.handleRemoteSnapshot norm now client snapshot bridgeMac
  | .metadataChanged identity runtime =>
    m.handleRemoteSnapshot norm now client { identity := identity, runtime := runtime } runtime.bridgeMac
  | .topologyChanged ev => m.handleTopologyChanged norm now ev
  | .heartbeat ev => m.handleHeartbeat norm now ev
  | .unknown => m

def handleEventBatch (client : Client) (batch : List Event) : BridgeV2Manager :=
  batch.foldl (fun m ev => m.handleEvent norm now client ev) m

/-- What `_handle_bridge_frame` takes from a frame. -/
def handleFrame (client : Client) : Frame → BridgeV2Manager
  | .snapshot snapshot => m.handleSnapshot norm now client snapshot
  | .events batch => m.handleEventBatch norm now client batch

def offlineBatchForBridge (client : Client) : List Event :=
  (m.routes.values.filter fun route => route.bridgeUuid == client.bridgeUuid).map fun route =>
    .availability { remoteMac := route.remoteMac, bridgeMac := route.bridgeMac, sessionId := route.sessionId,
                    reason := "bridge_disconnected".toList, observedUnixMs := now }

/-- What is left of a bridge that has gone, for `_handle_connection_change`. -/
def forgetBridge (client : Client) : BridgeV2Manager :=
  if client.bridgeMac = [] then m
  else
    let stale := staleMacs m.topologyNodes [] client.bridgeMac
    { snapshots := m.snapshots.pop client.bridgeUuid
      topologyNodes := m.topologyNodes.popAll stale
      routes := m.routes.popAll stale
      bridgeUptimeObserved := m.bridgeUptimeObserved.pop client.bridgeMac }

/-- `_handle_connection_change`, when the connection is lost. -/
def handleDisconnect (client : Client) : BridgeV2Manager :=
  (m.handleEventBatch norm now client (m.offlineBatchForBridge now client)).forgetBridge client

/-- `_route_for_remote`; `connected` says of the uuid of a bridge whether it has a client that is connected. -/
def routeForRemote (connected : Text → Bool) (remoteMac : Text) : Option RemoteRoute :=
  (m.routes.get? (norm remoteMac)).filter fun route => connected route.bridgeUuid

end BridgeV2Manager

end EspTree.Integration
