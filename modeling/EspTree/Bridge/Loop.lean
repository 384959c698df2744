import EspTree.Bridge.Handlers

/-!
# The bridge: the main loop

`BridgeProtocol::loop` for one session: expiring fragments, the watchdogs, the retries of
schema requests and join completions, and the two retry queues.  Which session an eviction
takes depends on the heap and on all sessions, so it is the environment's choice here.

The order of the parts is that of the source: an eviction may come first, then the session has its
turn, with what has expired before what is repeated, then an eviction for want of memory, and last
the queues of configurations and commands.  The calls that put something into these queues are at the
end (`command`, `configure`), together with what the other parts of the firmware call.

The jitter of a retry is drawn from the environment for each entry of a queue, in the order of the
entries.
-/

namespace EspTree

open Wire OtaManager

namespace Bridge

variable (c : Crypto) (e : Env)

/-- `RETRY_BACKOFF_MS[min(n, 3)]` plus the jitter. -/
def retryDelayMs (n : UInt8) (random : UInt32) : UInt32 :=
  [200, 400, 800, 1600].getD (min n.toNat 3) 1600 + random % 101

/-- `ESPNOW_MAX_RETRIES`, also `COMMAND_MAX_RETRIES`. -/
def maxRetries : UInt8 := 4
def configMaxRetries : UInt8 := 3
def offlineTimeoutGraceMs : UInt32 := 5000

/-! ## One session -/

/-- Expired fragments are dropped. -/
def Session.prune (x : Session) : Session :=
  let gone := x.stateAssemblies.filter (fun p => p.2.expired e.now)
  let goneSchema := x.schemaAssemblies.filter (fun p => p.2.expired e.now)
  { x with
    stateAssemblies := x.stateAssemblies.filter (fun p => !p.2.expired e.now)
    stateReservedBytes := x.stateReservedBytes - UInt32.ofNat (gone.map (·.2.data.length)).sum
    schemaAssemblies := x.schemaAssemblies.filter (fun p => !p.2.expired e.now)
    schemaReservedBytes := x.schemaReservedBytes - UInt32.ofNat (goneSchema.map
      (fun p => p.2.fragmentCount.toNat * x.limits.maxEntityFragment)).sum }

/-- How long an online leaf may be silent. -/
def offlineTimeoutMs (h : Hub) (x : Session) : UInt32 :=
  let interval := UInt32.ofNat h.config.heartbeatInterval
  let expected := if 0 < x.link.expectedContactIntervalS then x.link.expectedContactIntervalS
    else interval
  max (interval * 1000 + offlineTimeoutGraceMs) (expected * 3000 + offlineTimeoutGraceMs)

/-- A silent leaf goes offline. -/
def loopOffline (h : Hub) (x : Session) : Hub × Session :=
  if x.online ∧ 0 < x.link.lastSeenUptimeS ∧
      offlineTimeoutMs h x / 1000 < e.now / 1000 - x.link.lastSeenUptimeS then
    (h.note (.availability false .timeout), { x with online := false, remoteState := .none })
  else (h, x)

/-- A schema request that got no answer. -/
def loopSchemaRequest (h : Hub) (x : Session) : Hub × Session :=
  if x.online ∧ ¬ x.schema.received ∧ x.schema.requestInFlight ∧ 0 < x.schema.lastRequestMs ∧
      retryDelayMs x.schema.requestRetries (e.random 0) ≤ e.now - x.schema.lastRequestMs then
    if x.schema.requestRetries < maxRetries then
      let x := { x with schema := { x.schema with requestRetries := x.schema.requestRetries + 1 } }
      let (h, x, _) := requestSchema c e h x.link.nextHopMac x x.schema.pendingDescriptorType
        x.schema.pendingIndex
      (h, x)
    else
      (h.note (.availability false .timeout),
        { x with
          online := false
          remoteState := .none
          sessionKeyValid := false
          schema := { x.schema with requestInFlight := false }
          join := { x.join with inProgress := false } })
  else (h, x)

/-- A state sync that does not get on. -/
def Session.loopStateSync (x : Session) : Session :=
  if x.join.stateSyncPending ∧ ¬ x.join.completePending ∧ 0 < x.link.lastSeenUptimeS ∧
      30 ≤ e.now / 1000 - x.link.lastSeenUptimeS then
    { x with
      join := { x.join with stateSyncPending := false, inProgress := false }
      stateAssemblies := []
      stateReservedBytes := 0 }
  else x

/-- A join completion that got no heartbeat. -/
def loopJoinComplete (h : Hub) (x : Session) : Hub × Session :=
  if x.join.completePending ∧ 0 < x.join.lastCompleteMs ∧
      retryDelayMs x.join.completeRetryCount (e.random 1) ≤ e.now - x.join.lastCompleteMs then
    if x.join.completeRetryCount < maxRetries then
      match sendJoinComplete c e h x.link.nextHopMac x false with
      | (h, x, true) => (h, { x with join := { x.join with
          completeRetryCount := x.join.completeRetryCount + 1 } })
      | (h, x, false) => (h, x)
    else
      ((h.note (.availability false .timeout)).note (.clearEntities x.schema.entities),
        { x with
          online := false
          remoteState := .none
          schema := { x.schema with requestInFlight := false }
          join := { x.join with
            completePending := false, completeRetryCount := 0, lastCompleteMs := 0,
            inProgress := false } })
  else (h, x)

/-- The jittered answer to a `DISCOVER`. -/
def loopDiscoverAnnounce (h : Hub) (x : Session) : Hub × Session :=
  if 0 < x.link.discoverAnnounceDeadlineMs ∧ x.link.discoverAnnounceDeadlineMs ≤ e.now then
    let (h, _) := sendDiscoverAnnounce c e h x.link.discoverAnnounceLeafMac x.leafMac
    (h, { x with link := { x.link with
      discoverAnnounceDeadlineMs := 0, discoverAnnounceLeafMac := Octets.zero 6 } })
  else (h, x)

/-- `JOIN_SLOT` watchdog: the slot is given up after 45 seconds. -/
def Hub.loopSlot (h : Hub) : Hub :=
  if h.joiningInProgress ∧ 0 < h.joinStartedMs ∧ 45000 ≤ e.now - h.joinStartedMs then h.freeSlot
  else h

/-- The part of the loop that works on a session. -/
def loopSession (h : Hub) (x : Session) : Hub × Session :=
  let x := x.prune e
  let (h, x) := loopOffline e h x
  let (h, x) := loopSchemaRequest c e h x
  let x := x.loopStateSync e
  let (h, x) := loopJoinComplete c e h x
  loopDiscoverAnnounce c e (h.loopSlot e) x

/-! ## The retry queues -/

/-- One pending configuration command: it waits, is given up, or is sent again. -/
def loopConfig (h : Hub) (x? : Option Session) (p : PendingConfig) : Hub × Option PendingConfig :=
  if e.now < p.nextRetryMs then (h, some p)
  else if configMaxRetries ≤ p.retryCount then (h.note (.configResult p.txBase none), none)
  else match x?.filter (fun x => x.online && x.sessionKeyValid) with
    | none => (h.note (.configResult p.txBase none), none)
    | some x =>
      let p := { p with
        retryCount := p.retryCount + 1
        nextHopMac := x.link.nextHopMac
        nextRetryMs := e.now + configAckTimeoutMs }
      ((sendConfigFrame c e h x p).1, some p)

/-- The queue of configuration commands. -/
def loopConfigs (x? : Option Session) : List PendingConfig → Hub → Hub × List PendingConfig
  | [], h => (h, [])
  | p :: ps, h =>
    let (h, kept) := loopConfig c e h x? p
    let (h, rest) := loopConfigs x? ps h
    (h, kept.toList ++ rest)

/-- One pending command: it waits, is given up (and takes the leaf offline), or is sent
again under the counters of its first transmission.  `draw` is the number of its jitter. -/
def loopCommand (h : Hub) (x? : Option Session) (p : PendingCommand) (draw : Nat) :
    Hub × Option Session × Option PendingCommand :=
  if maxRetries ≤ p.retryCount then
    match x? with
    | none => (h, none, none)
    | some x => (h.note (.availability false .timeout), some { x with online := false }, none)
  else if retryDelayMs p.retryCount (e.random draw) ≤ e.now - p.lastTxMs then
    match x?.filter (fun x => x.online && x.sessionKeyValid) with
    | none => (h, x?, none)
    | some x =>
      let (h, x, _) := sendCommandFragments c e h p.nextHopMac x p.fieldIndex p.value p.txBase false
      (h, some x, some { p with retryCount := p.retryCount + 1, lastTxMs := e.now })
  else (h, x?, some p)

/-- The queue of commands, each with the number of its jitter. -/
def loopCommands : List (PendingCommand × Nat) → Hub → Option Session →
    Hub × Option Session × List PendingCommand
  | [], h, x? => (h, x?, [])
  | p :: ps, h, x? =>
    let (h, x?, kept) := loopCommand c e h x? p.1 p.2
    let (h, x?, rest) := loopCommands ps h x?
    (h, x?, kept.toList ++ rest)

/-- The session is evicted, with what is cached about it. -/
def evict (b : Bridge) : Bridge :=
  match b.session? with
  | none => b
  | some x =>
    let h := if x.online then b.hub.note (.availability false .evicted) else b.hub
    let h := h.note (.clearEntities x.schema.entities)
    { b with
      session? := none
      hub := { h with
        schemaCache := h.schemaCache.filter (fun p => p.1 != x.cacheKey)
        schemaHashCache := h.schemaHashCache.filter (fun p => p.1 != x.cacheKey) } }

/-- The part of the loop that works on the session, if there is one. -/
def loopSession? (b : Bridge) : Bridge :=
  match b.session? with
  | none => { b with hub := b.hub.loopSlot e }
  | some x =>
    let (h, x) := loopSession c e b.hub x
    { b with hub := h, session? := some x }

/-- The part of the loop that works on the retry queues. -/
def loopQueues (b : Bridge) : Bridge :=
  let (h, configs) := loopConfigs c e b.session? b.hub.pendingConfigs b.hub
  let h := { h with pendingConfigs := configs }
  let (h, x?, commands) := loopCommands c e (h.commandQueue.zipIdx 2) h b.session?
  { b with session? := x?, hub := { h with commandQueue := commands } }

/-- The part of the loop before the retry queues. -/
def beforeQueues (b : Bridge) : Bridge :=
  let b := if e.evict then b.evict else b
  let b := b.loopSession? c e
  if e.evictCritical then b.evict else b

def loop (b : Bridge) : Bridge :=
  let b := if e.evict then b.evict else b
  let b := b.loopSession? c e
  let b := if e.evictCritical then b.evict else b
  b.loopQueues c e

/-! ## Requests from the host -/

/-- `send_command_to_leaf`. -/
def command (b : Bridge) (index : UInt8) (value : Bytes) : Bridge × Bool :=
  match b.session? with
  | none => (b, false)
  | some x => b.store (sendCommandToLeaf c e b.hub x index value)

/-- `send_config_to_leaf`. -/
def configure (b : Bridge) (cmd : UInt8) (payload : Bytes) : Bridge × Bool :=
  match b.session? with
  | none => (b, false)
  | some x => b.store (sendConfigToLeaf c e b.hub x cmd payload)

/-- `send_ota_frame`. -/
def otaFrame (b : Bridge) (type : PacketType) (payload : Bytes) : Bridge × SendErr :=
  match b.session? with
  | none => (b, .notFound)
  | some x =>
    let (h, x, err) := sendOtaFrame c e b.hub x type payload
    ({ b with hub := h, session? := some x }, err)

/-- `confirm_state_delivery_`. -/
def confirmState (b : Bridge) (base : UInt32) (nextHopMac : Mac) : Bridge × Bool :=
  match b.session? with
  | none => (b, false)
  | some x => b.store (confirmStateDelivery c e b.hub x base nextHopMac)

/-- The queue entry of `on_discovery_confirmed_`'s count. -/
def Schema.countConfirmed (s : Schema) : Schema :=
  if 0 < s.pendingDiscoveryCount then
    { s with
      pendingDiscoveryCount := s.pendingDiscoveryCount - 1
      discoveryAllConfirmed := s.discoveryAllConfirmed || s.pendingDiscoveryCount == 1 }
  else s

/-- `on_discovery_confirmed_`. -/
def discoveryConfirmed (h : Hub) (x : Session) (index : UInt8) (success : Bool) : Hub × Session :=
  if ¬ x.schema.awaitingDiscoveryConfirm then
    (h, if success then { x with schema := x.schema.countConfirmed } else x)
  else if ¬ success ∨ 2000 < e.now - x.schema.lastDiscoveryConfirmMs then
    let x := { x with schema := { x.schema with requestRetries := 1 } }
    let (h, x, _) := requestSchema c e h x.link.nextHopMac x descriptorTypeEntity index
    (h, { x with schema := { x.schema with lastDiscoveryConfirmMs := e.now } })
  else
    let x := { x with schema := { x.schema.countConfirmed with awaitingDiscoveryConfirm := false } }
    if x.schema.pendingRequestIndex = 0xFF then (h, x)
    else
      let x := { x with schema := { x.schema with requestRetries := 1 } }
      let (h, x, _) := requestSchema c e h x.link.nextHopMac x descriptorTypeEntity
        x.schema.pendingRequestIndex
      (h, x)

/-- `invalidate_all_sessions`: the session and all caches go, the queues stay. -/
def invalidateAllSessions (b : Bridge) : Bridge :=
  match b.session? with
  | none => { b with hub := { b.hub with schemaCache := [], schemaHashCache := [] } }
  | some x =>
    let h := (b.hub.note (.availability false .manual)).note (.clearEntities x.schema.entities)
    { b with session? := none, hub := { h with schemaCache := [], schemaHashCache := [] } }

/-- A restart of the bridge: every session, queue and cache is gone. -/
def restart (b : Bridge) : Bridge :=
  { b with session? := none, hub := { config := b.hub.config, effects := b.hub.effects } }

end Bridge

end EspTree
