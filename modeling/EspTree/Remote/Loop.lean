import EspTree.Remote.Handlers

/-!
# The leaf: the main loop

`RemoteProtocol::loop` in its order.  Most parts may end the call; such a part returns the
state together with a flag that says so, and `andThen` runs the rest when it is not set.

The parts are those of the source, from the housekeeping to the heartbeat, and each is a definition
of its own.  There are several reasons for which the call ends early: the first discovery or the wait
for the WiFi, a route that is recovered, a join that is due, a sweep over the channels, or a session
that has just been given up.  Whether the parts that come last are reached, the heartbeat and the
entity states, is what the theorems about the loop are about, so the flag of each part is kept as
the source computes it.
-/

namespace EspTree

open Wire FileReceiver

namespace Remote

variable {η : Type} (P : Platform η) (e : Env)

/-- Run the rest of the loop unless the call has returned. -/
def andThen (r : Remote η × Bool) (rest : Remote η → Remote η) : Remote η :=
  if r.2 then r.1 else rest r.1

/-! ## Housekeeping -/

def otaSessionTimeoutMs : UInt32 := 30000

/-- The file receiver's own loop and the timeout of a silent transfer. -/
def loopFiles (s : Remote η) : Remote η :=
  let (files, s) := s.files.loop (fileContext P e) s
  let s := { s with files := files }
  let setActivity (s : Remote η) (t : UInt32) : Remote η :=
    { s with timers := { s.timers with otaLastActivityMs := t } }
  if s.files.isReceiving then
    if s.timers.otaLastActivityMs = 0 then setActivity s e.now
    else if otaSessionTimeoutMs ≤ elapsedMsSince e.now s.timers.otaLastActivityMs then
      setActivity (s.abortFiles P e abortSessionLost true) 0
    else s
  else setActivity s 0

/-- The part of the loop before the discovery automaton. -/
def housekeeping (s : Remote η) : Remote η :=
  (((s.pruneRoutes e).prunePendingCommandFragments e).loopFiles P e).flushPendingDiscoverAnnounce P e

/-! ## Discovery -/

/-- The first discovery, and the wait for WiFi. -/
def loopStart (s : Remote η) : Remote η × Bool :=
  if s.discovery.initialPending then
    let s := { s with discovery := { s.discovery with initialPending := false } }
    (s.startDiscoveryCycle P e (e.nonce 0) false, true)
  else if s.discovery.wifiWaiting then
    if e.wifiConnected ∨ s.discovery.wifiWaitDeadlineMs ≤ e.now then
      (s.startDiscoveryCycle P e (e.nonce 0) true, true)
    else (s, true)
  else (s, false)

/-- `ESPNOW_TOPOLOGY_REFRESH_INTERVAL_MS`. -/
def topologyRefreshIntervalMs : UInt32 := 120000
/-- `ESPNOW_PREFERRED_RSSI_FLOOR_DBM`. -/
def preferredRssiFloorDbm : Int := -85

def txQueueClear (s : Remote η) : Bool :=
  !s.entities.waitingForStateAck && s.radio.consecutiveSendFailures == 0 && !s.discovery.discovering

/-- `topology_refresh_due_ms_`, set from now when it is not set. -/
def topologyDue (s : Remote η) : UInt32 :=
  if s.discovery.topologyRefreshDueMs = 0 then e.now + topologyRefreshIntervalMs
  else s.discovery.topologyRefreshDueMs

/-- One of the two periodic checks of the topology, made when `wanted` holds. -/
def loopTopology (s : Remote η) (wanted : Bool) : Remote η × Bool :=
  if wanted then
    let due := s.topologyDue e
    let s := { s with discovery := { s.discovery with topologyRefreshDueMs := due } }
    if due ≤ e.now then (s.startRouteRecoveryCycle e, true) else (s, false)
  else (s, false)

/-- A weak link to the parent asks for a new one. -/
def loopWeakLink (s : Remote η) : Remote η × Bool :=
  s.loopTopology e (s.session.normal && s.txQueueClear &&
    decide (s.route.parentLinkRssiEma < preferredRssiFloorDbm))

/-- So does a configured preference, from time to time. -/
def loopPreferred (s : Remote η) : Remote η × Bool :=
  s.loopTopology e (s.session.normal && s.txQueueClear && !s.route.preferredParents.isEmpty)

/-- The sweep of a route recovery has found a parent. -/
def loopResume (s : Remote η) : Remote η × Bool :=
  if s.discovery.discovering ∧ s.discovery.sweepComplete ∧ s.route.bestParent.valid ∧
      s.discovery.resumeNormalAfterSuccess then
    (((s.adoptBestParentCandidate true).sendHeartbeat P e).1, true)
  else (s, false)

/-- Whether a join attempt is due. -/
def joinDue (s : Remote η) : Bool :=
  let waited := retryBackoffMs s.discovery.joinRetryCount + retryJitterMs (e.random 1) ≤
    e.now - s.discovery.lastJoinAttemptMs
  (s.discovery.joinDelayUntilMs == 0 || s.discovery.joinDelayUntilMs ≤ e.now) &&
    decide (s.discovery.joinRetryCount < maxRetries) &&
      (!s.discovery.joinInFlight || waited)

/-- The sweep of a full discovery has found a parent: join it.  `join_in_flight_` is
cleared first, and `send_join_` sets it again. -/
def loopJoin (s : Remote η) : Remote η × Bool :=
  if s.discovery.discovering ∧ ¬ s.discovery.resumeNormalAfterSuccess ∧
      s.discovery.sweepComplete ∧ s.route.bestParent.valid ∧ ¬ s.session.joined ∧ s.joinDue e then
    let s := { s with
      discovery := { s.discovery with
        lastKnownChannel := s.route.bestParent.channel
        joinInFlight := false }
      route := s.route.takeBestParent }
    s.refreshCanRelay.sendJoin P e
  else (s, false)

/-- The collection window has closed. -/
def loopSweep (s : Remote η) : Remote η × Bool :=
  if s.discovery.discovering ∧ ¬ s.discovery.sweepComplete ∧ s.discovery.dueMs ≤ e.now then
    if s.route.bestParent.valid then
      ({ s with discovery := { s.discovery with sweepComplete := true } }, true)
    else ((s.sendDiscover P e).1, true)
  else (s, false)

/-- The join was tried often enough: start over, and go on with the loop. -/
def loopJoinExhausted (s : Remote η) : Remote η :=
  if s.discovery.joinInFlight ∧ maxRetries ≤ s.discovery.joinRetryCount ∧ ¬ s.session.joined then
    (s.startDiscoveryCycle P e (e.nonce 0) false).setDiscoverDue (e.now + 1000)
  else s

/-! ## A joined leaf -/

/-- `ESPNOW_JOINED_TO_NORMAL_TIMEOUT_MS`. -/
def joinedToNormalTimeoutMs : UInt32 := 30000

/-- The watchdogs of a joined leaf.  `clear_session_state_` runs once more inside
`start_discovery_cycle_`. -/
def loopStalled (s : Remote η) : Remote η × Bool :=
  if ¬ s.session.normal ∧ 0 < s.timers.joinedStartedMs ∧
      joinedToNormalTimeoutMs ≤ e.now - s.timers.joinedStartedMs then
    (((s.clearSessionState P e false).startDiscoveryCycle P e (e.nonce 1) false).setDiscoverDue
      (e.now + 1000), true)
  else if maxRetries ≤ s.radio.consecutiveSendFailures then
    (s.rejoinDueToTransmitStall P e false, true)
  else if s.entities.waitingForStateAck ∧ 0 < s.timers.lastSuccessfulStateMs ∧
      30000 ≤ elapsedMsSince e.now s.timers.lastSuccessfulStateMs then
    (s.rejoinDueToTransmitStall P e false, true)
  else if 0 < s.radio.lastSuccessfulOutboundMs ∧
      max (UInt32.ofNat s.timers.heartbeatInterval * 4000) 120000 ≤
        elapsedMsSince e.now s.radio.lastSuccessfulOutboundMs then
    (s.rejoinDueToTransmitStall P e true, true)
  else (s, false)

/-- A `STATE` message that got no ACK after all retries. -/
def stateTimedOut (s : Remote η) : Remote η :=
  let s := s.setRecord s.entities.pendingStateFieldIndex (fun r => { r with dirty := true })
  ({ s with entities := { s.entities with
      waitingForStateAck := false, stateRetryCount := 0 } } : Remote η).startRouteRecoveryCycle e

/-- The retry of a `STATE` message. -/
def retryState (s : Remote η) : Remote η :=
  match s.sendState P e s.entities.pendingStateFieldIndex s.entities.pendingStateValue false with
  | (s, true) => { s with entities := { s.entities with
      stateRetryCount := s.entities.stateRetryCount + 1 } }
  | (s, false) => { s with entities := { s.entities with lastStateTxMs := e.now } }

/-- Waiting for the ACK of a `STATE` message. -/
def loopStateAck (s : Remote η) : Remote η × Bool :=
  if s.entities.waitingForStateAck then
    if s.entities.stateRetryCount < maxRetries then
      if retryBackoffMs s.entities.stateRetryCount + retryJitterMs (e.random 2) ≤
          e.now - s.entities.lastStateTxMs then (s.retryState P e, false)
      else (s, false)
    else (s.stateTimedOut e, true)
  else (s, false)

/-- `heartbeat_due_ms_`, set from now when it is not set. -/
def heartbeatDue (s : Remote η) : UInt32 :=
  if s.timers.heartbeatDueMs = 0 then e.now + UInt32.ofNat s.timers.heartbeatInterval * 1000
  else s.timers.heartbeatDueMs

/-- The heartbeat of a normal leaf. -/
def loopHeartbeat (s : Remote η) : Remote η × Bool :=
  if s.session.normal then
    let due := s.heartbeatDue e
    let s := { s with timers := { s.timers with heartbeatDueMs := due } }
    if due ≤ e.now then ((s.sendHeartbeat P e).1, true) else (s, false)
  else (s, false)

/-- The first dirty entity is sent, unless a `STATE` message is under way. -/
def pushDirtyState (s : Remote η) : Remote η :=
  if s.entities.waitingForStateAck then s
  else match s.entities.records.find? (·.dirty) with
    | none => s
    | some record =>
      match s.sendState P e record.schema.entityIndex record.currentValue true with
      | (s, true) => { s with entities := { s.entities with waitingForStateAck := true } }
      | (s, false) => s

/-- The loop of a joined leaf. -/
def loopJoined (s : Remote η) : Remote η :=
  andThen (s.loopStalled P e) fun s =>
  andThen (s.loopStateAck P e) fun s =>
  if ¬ s.entities.statePushEnabled then s
  else andThen (s.loopHeartbeat P e) fun s => s.pushDirtyState P e

def loop (s : Remote η) : Remote η :=
  andThen ((s.housekeeping P e).loopStart P e) fun s =>
  andThen (s.loopWeakLink e) fun s =>
  andThen (s.loopPreferred e) fun s =>
  andThen (s.loopResume P e) fun s =>
  andThen (s.loopJoin P e) fun s =>
  andThen (s.loopSweep P e) fun s =>
  let s := s.loopJoinExhausted P e
  if s.session.joined then s.loopJoined P e else s

end Remote

end EspTree
