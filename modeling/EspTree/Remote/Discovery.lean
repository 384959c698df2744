import EspTree.Remote.Send

/-!
# The leaf: discovery, parents and the loss of a session

How a leaf finds a parent, keeps it and gives it up: the discovery sweep, the candidates
that announcements offer, the recovery of a route without a new join, and
`clear_session_state_`, from which every full rejoin starts.

Two ways lead to a new parent.  A sweep over the channels collects announcements for a while and then
joins the best candidate; a recovery of the route adopts the best candidate and keeps the session.
Both use the same candidate (`bestParent`) and the same order among candidates
(`Candidate.isBetter`), which `ParentChoice` is about.

The state of a leaf is cleared group by group here, as the source clears its fields: what
`clear_session_state` leaves alone, such as the counter of the radio and the values of the entities,
can be read off the definitions.
-/

namespace EspTree

open Wire FileReceiver

namespace Remote

variable {η : Type} (P : Platform η) (e : Env)

/-! ## Losing the session -/

/-- `file_receiver_.abort`, on the leaf's own receiver. -/
def abortFiles (s : Remote η) (reason : UInt8) (notifySender : Bool) : Remote η :=
  let (files, s) := s.files.abort (fileContext P e) s reason notifySender
  { s with files := files }

/-- What `clear_session_state_` does to the join handshake. -/
def Session.cleared (x : Session) (preserveRoute : Bool) : Session :=
  { x with
    joined := false
    normal := false
    sessionKeyValid := false
    bridgeNonce := if preserveRoute then x.bridgeNonce else Octets.zero 16
    lastSeenCounter := 0 }

/-- What it does to the route. -/
def Route.cleared (x : Route) (preserveRoute : Bool) : Route :=
  if preserveRoute then x
  else { x with parentValid := false, bestParent := {}, hopsToBridge := 0xFF }

/-- What it does to the discovery automaton. -/
def Discovery.cleared (x : Discovery) (preserveRoute : Bool) : Discovery :=
  let x := { x with
    discovering := !preserveRoute
    joinInFlight := false
    joinRetryCount := 0
    waitRejectCount := 0
    joinDelayUntilMs := 0
    announceQueue := [] }
  if preserveRoute then x
  else { x with
    fastRejoin := false
    resumeNormalAfterSuccess := false
    currentChannelOnly := false
    wifiWaiting := false
    wifiWaitDeadlineMs := 0
    retryPending := false }

/-- What it does to the pending `STATE` message; the records stay. -/
def Entities.cleared (x : Entities) : Entities := { records := x.records }

/-- What it does to the timers. -/
def Timers.cleared (x : Timers) : Timers := { heartbeatInterval := x.heartbeatInterval }

/-- What it does to the transmit side: the counter goes on. -/
def Radio.cleared (x : Radio) : Radio :=
  { x with outstanding := [], lastSuccessfulOutboundMs := 0, consecutiveSendFailures := 0 }

/-- `clear_session_state_(false, preserve_route)`. -/
def clearSessionState (s : Remote η) (preserveRoute : Bool) : Remote η :=
  let s := if s.files.isReceiving then s.abortFiles P e abortSessionLost false else s
  refreshCanRelay
    { s with
      session := s.session.cleared preserveRoute
      route := s.route.cleared preserveRoute
      discovery := s.discovery.cleared preserveRoute
      entities := s.entities.cleared
      commands := {}
      timers := s.timers.cleared
      radio := s.radio.cleared }

/-- `ESPNOW_WIFI_DISCOVER_WAIT_MS`. -/
def wifiDiscoverWaitMs : UInt32 := 15000

/-- The discovery automaton at the start of a full sweep. -/
def Discovery.sweep (d : Discovery) (dueMs : UInt32) : Discovery :=
  { d with
    discovering := true
    fastRejoin := false
    resumeNormalAfterSuccess := false
    currentChannelOnly := false
    retryPending := false
    retryCount := 0
    phase := 0
    sweepComplete := false
    topologyRefreshDueMs := 0
    wifiWaiting := false
    wifiWaitDeadlineMs := 0
    channelIndex := 0
    dueMs := dueMs }

/-- The automaton after `start_discovery_cycle_`: it waits for WiFi, sweeps the channel of
the connection, or sweeps all channels. -/
def Discovery.started (d : Discovery) (wifiWaitExpired : Bool) : Discovery :=
  if ¬ wifiWaitExpired ∧ e.wifiPresent ∧ ¬ e.wifiConnected then
    { d.sweep (e.now + wifiDiscoverWaitMs) with
      channelIndex := d.channelIndex
      wifiWaiting := true
      wifiWaitDeadlineMs := e.now + wifiDiscoverWaitMs }
  else { d.sweep e.now with currentChannelOnly := e.wifiConnected }

/-- `start_discovery_cycle_`, with the nonce that it draws. -/
def startDiscoveryCycle (s : Remote η) (nonce : Nonce) (wifiWaitExpired : Bool) :
    Remote η :=
  let s := s.clearSessionState P e false
  { s with
    session := { s.session with remoteNonce := nonce }
    discovery := s.discovery.started e wifiWaitExpired }

/-- `discover_due_ms_ = at`. -/
def setDiscoverDue (s : Remote η) (dueMs : UInt32) : Remote η :=
  { s with discovery := { s.discovery with dueMs := dueMs } }

def startConfigFullRediscovery (s : Remote η) (nonce : Nonce) : Remote η :=
  let s := s.clearSessionState P e true
  { s with
    session := { s.session with remoteNonce := nonce }
    discovery := s.discovery.sweep e.now }

/-! ## Recovering the route -/

/-- `start_route_recovery_cycle_`: the session stays, the leaf looks for another parent. -/
def startRouteRecoveryCycle (s : Remote η) : Remote η :=
  let s := refreshCanRelay { s with session := { s.session with normal := false } }
  { s with
    route := { s.route with bestParent := {} }
    discovery := { s.discovery.sweep e.now with
      fastRejoin := true
      resumeNormalAfterSuccess := true
      currentChannelOnly := true
      joinInFlight := false
      joinRetryCount := 0
      joinDelayUntilMs := 0 }
    entities := { s.entities with
      statePushEnabled := false
      waitingForStateAck := false
      stateRetryCount := 0 }
    timers := { s.timers with
      heartbeatDueMs := 0
      lastHeartbeatTxMs := 0
      lastSuccessfulStateMs := 0
      lastSuccessfulHeartbeatMs := 0 }
    radio := { s.radio with lastSuccessfulOutboundMs := 0 } }

/-- The parent becomes the best candidate. -/
def Route.takeBestParent (r : Route) : Route :=
  { r with
    parentMac := r.bestParent.nextHopMac
    parentValid := true
    hopsToBridge := r.bestParent.hopsToBridge + 1 }

/-- The leaf with its best candidate as parent. -/
def adopted (s : Remote η) (resumeNormal : Bool) : Remote η :=
  let s := refreshCanRelay
    { s with
      route := s.route.takeBestParent
      session := { s.session with normal := resumeNormal, joined := resumeNormal } }
  { s with
    route := { s.route with parentLinkRssiEma := -127 }
    discovery := { s.discovery with
      lastKnownChannel := s.route.bestParent.channel
      discovering := false
      sweepComplete := false
      fastRejoin := false
      retryPending := false
      retryCount := 0
      resumeNormalAfterSuccess := resumeNormal
      topologyRefreshDueMs := 0 }
    entities := { s.entities with statePushEnabled := resumeNormal }
    timers := { s.timers with lastSuccessfulStateMs := 0 }
    radio := { s.radio with lastSuccessfulOutboundMs := 0 } }

def adoptBestParentCandidate (s : Remote η) (resumeNormal : Bool) : Remote η :=
  if ¬ s.route.bestParent.valid then s else s.adopted resumeNormal

/-- `rejoin_due_to_transmit_stall_`.  Without outbound progress the leaf restarts, and
nothing after `esp_restart` runs. -/
def rejoinDueToTransmitStall (s : Remote η) (noOutboundProgress : Bool) : Remote η :=
  if noOutboundProgress then (s.clearSessionState P e true).note .reboot
  else s.startRouteRecoveryCycle e

/-! ## Candidates -/

/-- The rank of a candidate among the preferred parents, 0xFF for none. -/
def preferredIndex (s : Remote η) (senderMac responderMac : Mac) : UInt8 :=
  match s.route.preferredParents.findIdx? (fun m => m == senderMac || m == responderMac) with
  | some i => UInt8.ofNat i
  | none => 0xFF

/-- The comparison of `select_parent_candidate_`. -/
def Candidate.isBetter (best : Candidate) (preferred hops : UInt8) (rssi : Int) : Bool :=
  !best.valid || preferred < best.preferredIndex ||
    (preferred == best.preferredIndex && (hops < best.hopsToBridge ||
      (hops == best.hopsToBridge && best.rssi < rssi)))

def selectParentCandidate (s : Remote η) (senderMac : Mac) (announce : DiscoverAnnounce)
    (rssi : Int) : Remote η :=
  let preferred := s.preferredIndex senderMac announce.responderMac
  if s.route.bestParent.isBetter preferred announce.hopsToBridge rssi then
    { s with route := { s.route with bestParent :=
      { nextHopMac := senderMac
        responderRole := announce.responderRole
        bridgeReachable := announce.bridgeReachable != 0
        flags := announce.flags
        channel := e.wifiChannel.getD 1
        rssi := rssi
        hopsToBridge := announce.hopsToBridge
        valid := true
        preferredIndex := preferred } } }
  else s

/-! ## The sweep -/

def broadcastMac : Mac := ⟨List.replicate 6 0xFF, rfl⟩

/-- `ESPNOW_DISCOVER_COLLECTION_WINDOW_MS`. -/
def collectionWindowMs : UInt32 := 40

def discoverBackoffDelayMs (stage : UInt8) : UInt32 :=
  [500, 1000, 2000, 4000, 6000].getD (min stage.toNat 4) 6000

/-- The lambda `send_on_channel`: broadcast a `DISCOVER` and open the collection window.
The channel itself is the radio's business. -/
def sendOnChannel (s : Remote η) : Remote η × Bool :=
  let discover : Discover := ⟨fixedField 32 s.config.networkId,
    UInt8.ofNat s.config.networkId.length, if s.route.relayEnabled then 1 else 0⟩
  let (s, sent) := s.sendPlain P e broadcastMac .discover (hopsMake 0 0) 0 discover.bytes
  (s.setDiscoverDue (e.now + collectionWindowMs), sent)

/-- The automaton backs off before the next round. -/
def Discovery.backOff (d : Discovery) : Discovery :=
  { d with
    retryPending := true
    dueMs := e.now + discoverBackoffDelayMs d.phase
    phase := if d.phase < 4 then d.phase + 1 else d.phase }

/-- The step of the automaton in `send_discover_`, and whether a `DISCOVER` goes out. -/
def Discovery.nextProbe (d : Discovery) (bestParentValid : Bool) : Discovery × Bool :=
  if d.retryPending then
    let d := { d with retryPending := false }
    if d.fastRejoin ∨ d.currentChannelOnly then ({ d with retryCount := d.retryCount + 1 }, true)
    else ({ d with channelIndex := (if 13 ≤ d.channelIndex then 0 else d.channelIndex) + 1 }, true)
  else if d.fastRejoin then
    if d.retryCount = 0 then ({ d with retryCount := 1 }, true)
    else if d.retryCount = 1 then ({ d with retryPending := true, dueMs := e.now + 500 }, false)
    else ({ d with
      fastRejoin := false
      retryCount := 0
      phase := 0
      currentChannelOnly := false
      resumeNormalAfterSuccess := true
      channelIndex := 1 }, true)
  else if d.currentChannelOnly then
    if d.retryCount = 0 then ({ d with retryCount := 1 }, true) else (d.backOff e, false)
  else if 13 ≤ d.channelIndex then
    if bestParentValid then ({ d with sweepComplete := true }, false)
    else ({ d.backOff e with channelIndex := 0 }, false)
  else ({ d with channelIndex := d.channelIndex + 1 }, true)

def sendDiscover (s : Remote η) : Remote η × Bool :=
  let (d, probe) := s.discovery.nextProbe e s.route.bestParent.valid
  let s := { s with discovery := d }
  if probe then s.sendOnChannel P e else (s, true)

/-! ## Announcing oneself to children -/

/-- `ESPNOW_DISCOVER_ANNOUNCE_JITTER_MS`. -/
def announceJitterMs : UInt32 := 20

/-- `send_discover_announce_with_jitter_`: the ring buffer of eight holds seven entries. -/
def sendDiscoverAnnounceWithJitter (s : Remote η) (senderMac leafMac : Mac)
    (responderRole hopsToBridge : UInt8) : Remote η × Bool :=
  if 7 ≤ s.discovery.announceQueue.length then (s, false)
  else
    let entry : PendingAnnounce := ⟨leafMac, senderMac, responderRole, hopsToBridge,
      e.now + e.random 0 % (announceJitterMs + 1)⟩
    ({ s with discovery := { s.discovery with
        announceQueue := s.discovery.announceQueue ++ [entry] } }, true)

/-- `fill_discover_announce_`. -/
def discoverAnnounce (s : Remote η) (responderRole hopsToBridge : UInt8) : DiscoverAnnounce where
  networkId := fixedField 32 s.config.networkId
  networkIdLen := UInt8.ofNat s.config.networkId.length
  responderMac := s.config.leafMac
  responderRole := responderRole
  hopsToBridge := hopsToBridge
  bridgeReachable := 1
  flags := 0

/-- `flush_pending_discover_announce_`; the outcome of the send is not looked at. -/
def flushPendingDiscoverAnnounce (s : Remote η) : Remote η :=
  match s.discovery.announceQueue with
  | [] => s
  | entry :: rest =>
    if e.now < entry.deadlineMs then s
    else
      let announce := s.discoverAnnounce entry.responderRole entry.hopsToBridge
      let frame := plain P.crypto entry.leafMac .discoverAnnounce (hopsMake hopsDirBit 0) 0 none
        announce.bytes
      let sent := e.sendOk s.radio.effects.length
      { s.note (.send entry.senderMac frame.bytes sent) with
        discovery := { s.discovery with announceQueue := rest } }

/-! ## Routes -/

def refreshRoute (s : Remote η) (leafMac nextHopMac : Mac) : Remote η :=
  if leafMac = s.config.leafMac ∨ nextHopMac = s.config.leafMac then s
  else
    let entry : RouteEntry := ⟨leafMac, nextHopMac, e.now + s.config.routeTtlSeconds * 1000⟩
    let routes := if (s.findRoute leafMac).isSome then
        s.route.routes.replaceF (fun r => if r.leafMac == leafMac then some entry else none)
      else s.route.routes ++ [entry]
    { s with route := { s.route with routes := routes } }

/-- `prune_routes_` and `prune_pending_discovers_`. -/
def pruneRoutes (s : Remote η) : Remote η :=
  { s with
    route := { s.route with routes := s.route.routes.filter (fun r => e.now < r.expiryMs) }
    discovery := { s.discovery with
      pendingDiscovers := s.discovery.pendingDiscovers.filter (fun p => e.now < p.2) } }

def prunePendingCommandFragments (s : Remote η) : Remote η :=
  let gone := s.commands.pendingAssemblies.filter (fun p => p.2.expired e.now)
  { s with commands := { s.commands with
      pendingAssemblies := s.commands.pendingAssemblies.filter (fun p => !p.2.expired e.now)
      pendingReservedBytes := s.commands.pendingReservedBytes -
        UInt32.ofNat (gone.map (·.2.data.length)).sum } }

end Remote

end EspTree
