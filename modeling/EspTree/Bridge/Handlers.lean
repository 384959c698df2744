import EspTree.Bridge.Send

/-!
# The bridge: received frames

`on_espnow_frame` and the handlers it dispatches to, on the session of one leaf.

A frame goes through the same steps as in the source.  `parsePacket` checks the version, the length
and the tag.  A `DISCOVER` or a `JOIN` that passes the first check gets a session if there is none
(`ensureSession`); a `SCHEMA_PUSH` without one is dropped, and a `STATE`, `HEARTBEAT` or `ACK`
without one is answered with a `DEAUTH`.  For these three the dispatcher writes the next hop, the
signal strength, the packet counter and the hop count into the session before the handler has looked
at the frame (`onSessionFrame`).

Each handler is a function from the session and the rest of the bridge to the same; what it sends is
noted in `Hub.effects`.  A handler that returns early in the source has its branches here in the
order of the source, so that one can read both side by side.  The names are those of the source in
the case that Lean uses.
-/

namespace EspTree

open Wire OtaManager

namespace Bridge

variable (c : Crypto) (e : Env)

def validateSessionPacket (x : Session) (f : Frame) : Option Bytes :=
  if x.sessionKeyValid ∧ validateTag c x.sessionKey f then
    c.crypt x.sessionKey f.header.txCounter f.payload
  else none

/-- `BridgeProtocol::parse_frame_`. -/
def parsePacket (frame : Bytes) : Option Frame :=
  (parseFrame frame).filter (validatePsk c)

/-- `mark_online_`; the reported RSSI takes precedence when it is not 0. -/
def markOnline (h : Hub) (x : Session) (rssi : Int) (counter : UInt32) (reported : Int) :
    Hub × Session :=
  (h.note (.availability true (if x.link.joinedMs = 0 then .joined else .rejoined)),
    { x with
      online := true
      lastSeenCounter := counter
      link := { x.link with
        joinedMs := e.now
        lastRssi := if reported ≠ 0 then reported else rssi } })

/-! ## Discovery and joins -/

/-- What `handle_discover_` looks at before it ensures the session. -/
def Hub.knowsNetwork (h : Hub) (f : Frame) : Bool :=
  let discover := Discover.parse f.payload
  f.payload.length == Discover.size &&
    networkMatches h.config.networkId discover.networkId discover.networkIdLen

/-- `handle_discover_`, once it has the session. -/
def handleDiscover (h : Hub) (x : Session) (senderMac : Mac) : Outcome :=
  (h, { x with link := { x.link with
    discoverAnnounceDeadlineMs := e.now + e.random 0 % 21
    discoverAnnounceLeafMac := senderMac } }, true)

/-- The stage that a repeated `JOIN` is answered with. -/
def Session.retryStage (x : Session) : UInt8 :=
  if x.join.completePending then joinStatusComplete
  else if x.join.stateSyncPending ∨ x.schema.received then joinStatusSendState
  else joinStatusSchemaRefresh

/-- The link data that every `JOIN` refreshes. -/
def LinkInfo.heard (l : LinkInfo) (senderMac : Mac) (rssi : Int) : LinkInfo :=
  { l with nextHopMac := senderMac, lastSeenUptimeS := e.now / 1000, lastRssi := rssi }

/-- The session limits for a pair of flag bytes.  Without the V2 flag on both sides the
defaults stand. -/
def Session.negotiate (x : Session) (bridgeFlags : UInt8) : Session :=
  if hasV2Mtu x.leafSessionFlags ∧ hasV2Mtu bridgeFlags then
    { x with sessionMaxPayload := v2MaxPayload, limits := FragmentLimits.ofMtu v2MaxPayload }
  else { x with sessionMaxPayload := v1MaxPayload, limits := {} }

/-- A `JOIN` that starts a new session key. -/
def Session.rekey (x : Session) (h : Hub) (join : Join) (nonce : Nonce) (f : Frame)
    (senderMac : Mac) (rssi : Int) : Session :=
  let x := { x with
    remoteNonce := join.remoteNonce
    bridgeNonce := nonce
    sessionKey := c.deriveSessionKey nonce join.remoteNonce
    sessionKeyValid := true
    lastSeenCounter := f.header.txCounter
    leafSessionFlags := join.sessionFlags
    lastCompletedStateMessageTxBase := 0
    remoteState := .joined
    stateAssemblies := []
    stateReservedBytes := 0
    schemaAssemblies := []
    schemaReservedBytes := 0
    join := { x.join with
      inProgress := false
      completePending := false
      completeRetryCount := 0
      stateSyncPending := false }
    schema := { x.schema with
      hash := join.schemaHash
      identity := { x.schema.identity with
        esphomeName := [], nodeLabel := [], firmwareEpoch := 0, projectName := [],
        projectVersion := [] }
      pendingIndex := 0xFF
      pendingDescriptorType := descriptorTypeEntity
      requestRetries := 0
      requestInFlight := false }
    link := { x.link.heard e senderMac rssi with hopsToBridge := hopsCount f.header.hopCount } }
  x.negotiate h.config.sessionFlags

/-- The reset after a join whose answer could not be sent. -/
def Session.abandonJoin (x : Session) : Session :=
  { x with
    sessionKeyValid := false
    online := false
    remoteState := .none
    join := { x.join with inProgress := false }
    schema := { x.schema with received := false, requestInFlight := false } }

/-- The cached schema of a leaf is taken over; the limits stay as negotiated, but the
payload size is the cached one. -/
def Session.restore (x : Session) (cached? : Option Cached) : Session :=
  let x := match cached? with
    | none => x
    | some cached => { x with
      sessionMaxPayload := cached.sessionMaxPayload
      schema := { x.schema with entities := cached.entities, identity := cached.identity } }
  { x with schema := { x.schema with
      received := true, totalEntities := UInt8.ofNat x.schema.entities.length } }

/-- A fresh `JOIN` of a leaf whose schema is cached. -/
def joinCached (h : Hub) (x : Session) (senderMac : Mac) (dirtyCount : UInt8) : Outcome :=
  let h := h.note (.schemaComplete x.schema.totalEntities)
  if dirtyCount = 0 then sendJoinComplete c e h senderMac x true
  else
    let x := { x with join := { x.join with stateSyncPending := true, awaitingMoreDirty := true } }
    match sendJoinAck c e h senderMac x 1 0 joinStatusSendState with
    | (h, x, true) => (h, x, true)
    | (h, x, false) => (h, x.abandonJoin, false)

/-- A fresh `JOIN` of a leaf whose schema is asked for. -/
def joinUncached (h : Hub) (x : Session) (senderMac : Mac) : Outcome :=
  let x := { x with schema := { x.schema with
    entities := [], received := false, pendingDescriptorType := descriptorTypeIdentity,
    pendingIndex := 0 } }
  match sendJoinAck c e h senderMac x 1 0 joinStatusSchemaRefresh with
  | (h, x, false) => (h, x.abandonJoin, false)
  | (h, x, true) =>
    match requestSchema c e h senderMac x descriptorTypeIdentity 0 with
    | (h, x, false) => (h, x.abandonJoin, false)
    | (h, x, true) => (h, x, true)

/-- `handle_join_` past the repeated join. -/
def freshJoin (h : Hub) (x : Session) (senderMac : Mac) (f : Frame) (rssi : Int) : Outcome :=
  let join := Join.parse f.payload
  let priorName := x.schema.identity.esphomeName
  let x := x.rekey c e h join e.nonce f senderMac rssi
  let key := if priorName.isEmpty then x.cacheKey else priorName
  if h.schemaHashCache.lookup key = some x.schema.hash then
    joinCached c e h (x.restore (h.schemaCache.lookup key)) senderMac join.dirtyCount
  else joinUncached c e h x senderMac

/-- `handle_join_`, once it has the session. -/
def handleJoin (h : Hub) (x : Session) (senderMac : Mac) (f : Frame) (rssi : Int) : Outcome :=
  let join := Join.parse f.payload
  if h.joiningInProgress ∧ f.header.leafMac ≠ h.joiningLeafMac then
    sendJoinAck c e h senderMac x 0 joinReasonWait 0
  else if x.join.inProgress ∧ x.remoteNonce = join.remoteNonce ∧ x.schema.hash = join.schemaHash then
    let stage := x.retryStage
    sendJoinAck c e h senderMac
      { x with lastSeenCounter := f.header.txCounter, link := x.link.heard e senderMac rssi } 1 0 stage
  else freshJoin c e h x senderMac f rssi

/-! ## Schema -/

/-- The field types that are not implemented and the ones that take no command. -/
def unimplementedTypes : List UInt8 := [0x07, 0x0F, 0x10, 0x12, 0x13]
def readOnlyTypes : List UInt8 := [0x01, 0x03, 0x04, 0x0E, 0x14]

/-- `publish_discovery_for_entity_` for a known entity. -/
def Hub.publishDiscovery (h : Hub) (total : UInt8) (entity : EntitySchema) : Hub :=
  if entity.entityType = 0 ∨ entity.entityType ∈ unimplementedTypes then h
  else h.note (.publishDiscovery entity total (entity.entityType ∉ readOnlyTypes))

def Hub.publishAllEntities (h : Hub) (x : Session) : Hub :=
  x.schema.entities.foldl (fun h entity => h.publishDiscovery x.schema.totalEntities entity) h

/-- `parse_identity_descriptor_payload`, with the total number of entities. -/
def parseIdentity (b : Bytes) : Option (Identity × UInt8) :=
  if b.length ≠ identityPushSize ∨ byteAt b 0 ≠ descriptorTypeIdentity ∨ byteAt b 1 ≠ 0 then none
  else some
    ({ esphomeName := fieldText (Octets.fit 32 (b.drop 2))
       nodeLabel := fieldText (Octets.fit 64 (b.drop 34))
       firmwareEpoch := word32At b 98
       projectName := fieldText (Octets.fit 32 (b.drop 102))
       projectVersion := fieldText (Octets.fit 16 (b.drop 134))
       chipModel := word32At b 153
       buildDate := fieldText (Octets.fit 16 (b.drop 157))
       buildTime := fieldText (Octets.fit 16 (b.drop 173))
       firmwareMd5 := Octets.fit 16 (b.drop 189) }, byteAt b 150)

/-- `parse_schema_push_payload`, with the total number of entities; at most 145 bytes of
options are read. -/
def parseSchemaPush (b : Bytes) : Option (EntitySchema × UInt8) :=
  if b.length < schemaPushSize ∨ byteAt b 0 ≠ descriptorTypeEntity then none
  else some
    ({ entityIndex := byteAt b 2
       entityType := byteAt b 4
       entityName := fieldText (Octets.fit 32 (b.drop 5))
       entityUnit := fieldText (Octets.fit 8 (b.drop 37))
       entityId := fieldText (Octets.fit 32 (b.drop 45))
       entityOptions := ((b.drop schemaPushSize).take 145).takeWhile (· != 0) }, byteAt b 3)

/-- The schema has arrived: cache it, publish it and complete the join or start the state
sync. -/
def schemaArrived (h : Hub) (x : Session) (senderMac : Mac) (sync : Bool) : Outcome :=
  let x := { x with schema := { x.schema with
    received := true, requestInFlight := false, pendingIndex := 0xFF,
    pendingDescriptorType := descriptorTypeEntity } }
  let h := (h.refreshSchemaCache x).publishAllEntities x
  let h := h.note (.schemaComplete x.schema.totalEntities)
  if sync then
    let x := { x with
      schema := { x.schema with pendingDiscoveryCount := 0, discoveryAllConfirmed := true }
      join := { x.join with stateSyncPending := true, awaitingMoreDirty := true } }
    sendJoinAck c e h senderMac x 1 0 joinStatusSendState
  else sendJoinComplete c e h senderMac x true

/-- An identity descriptor is complete. -/
def identityArrived (h : Hub) (x : Session) (senderMac : Mac) (identity : Identity)
    (total : UInt8) : Outcome :=
  let x := { x with schema := { x.schema with
    identity := identity
    totalEntities := total
    pendingDescriptorType := descriptorTypeEntity
    pendingIndex := 0
    requestRetries := 0 } }
  let h := if x.schema.entities.isEmpty then h else h.note (.clearEntities x.schema.entities)
  if total = 0 then schemaArrived c e h x senderMac false
  else requestSchema c e h senderMac x descriptorTypeEntity 0

/-- An entity descriptor is complete.  With no entities at all the join completes, with the
last one the state sync starts, otherwise the next descriptor is asked for. -/
def entityArrived (h : Hub) (x : Session) (senderMac : Mac) (entity : EntitySchema)
    (total : UInt8) : Outcome :=
  let index := entity.entityIndex
  let padded := x.schema.entities ++
    List.replicate (index.toNat + 1 - x.schema.entities.length) ({} : EntitySchema)
  let x := { x with
    schema := { x.schema with entities := padded.set index.toNat entity, totalEntities := total }
    link := { x.link with nextHopMac := senderMac } }
  if total = 0 then
    schemaArrived c e h { x with schema := { x.schema with
      pendingDiscoveryCount := 0, discoveryAllConfirmed := true } } senderMac false
  else if total.toNat ≤ index.toNat + 1 then schemaArrived c e h x senderMac true
  else
    let x := { x with schema := { x.schema with
      awaitingDiscoveryConfirm := false
      pendingRequestIndex := 0xFF
      lastDiscoveryConfirmMs := 0
      pendingDescriptorType := descriptorTypeEntity
      pendingIndex := index
      requestRetries := 1 } }
    requestSchema c e (h.publishDiscovery total entity) senderMac x descriptorTypeEntity (index + 1)

/-- A schema message is complete. -/
def schemaMessage (h : Hub) (x : Session) (senderMac : Mac) (message : Bytes) : Outcome :=
  if message.length < 2 then (h, x, false)
  else if byteAt message 0 = descriptorTypeIdentity then
    match parseIdentity message with
    | none => (h, x, false)
    | some (identity, total) => identityArrived c e h x senderMac identity total
  else
    match parseSchemaPush message with
    | none => (h, x, false)
    | some (entity, total) => entityArrived c e h x senderMac entity total

/-- The session after a schema fragment was stored. -/
def Session.schemaStored (x : Session) (view : EntityPayload) (counter : UInt32) : Session :=
  { x with
    lastSeenCounter := max x.lastSeenCounter counter
    link := { x.link with lastSeenUptimeS := e.now / 1000 }
    schema := { x.schema with
      pendingIndex := view.entityIndex, requestRetries := 0, lastRequestMs := 0 } }

def handleSchemaPush (h : Hub) (x : Session) (senderMac : Mac) (f : Frame) : Outcome :=
  if ¬ counterIsNewer f.header.txCounter x.lastSeenCounter then (h, x, false)
  else match (validateSessionPacket c x f).bind EntityPayload.parse with
    | none => (h, x, false)
    | some view =>
      let base := fragmentMessageTxBase f.header.txCounter view
      let stored := offerFragment true x.limits x.schemaAssemblies x.schemaReservedBytes view base e.now
      let x := { x with
        schemaAssemblies := stored.pending, schemaReservedBytes := stored.reserved }
      match stored.assembly with
      | none => (h, x, false)
      | some a =>
        let x := x.schemaStored e view f.header.txCounter
        if ¬ a.complete then (h, x, true)
        else
          let message := a.assemble x.limits.maxEntityFragment
          let x := { x with
            schemaAssemblies := x.schemaAssemblies.remove view.entityIndex
            schemaReservedBytes := x.schemaReservedBytes -
              UInt32.ofNat (a.fragmentCount.toNat * x.limits.maxEntityFragment) }
          schemaMessage c e h x senderMac message

/-! ## States -/

/-- A state message is complete: take it out of the buffers, come back online, publish. -/
def stateMessage (h : Hub) (x : Session) (senderMac : Mac) (f : Frame) (rssi : Int)
    (view : EntityPayload) (base : UInt32) (a : FragmentAssembly) : Hub × Session :=
  let x := if x.join.stateSyncPending then
      { x with join := { x.join with awaitingMoreDirty := a.flags &&& flagMoreDirty != 0 } }
    else x
  let entity := x.schema.entities.getD view.entityIndex.toNat {}
  let value := a.assemble x.limits.maxEntityFragment
  let x := { x with
    stateReservedBytes := x.stateReservedBytes - UInt32.ofNat a.data.length
    stateAssemblies := x.stateAssemblies.remove view.entityIndex }
  let (h, x) := if x.remoteState = .normal ∧ ¬ x.online then
      markOnline e h x rssi f.header.txCounter 0
    else (h, x)
  (h.note (.publishState x.sessionKey base entity value senderMac), x)

/-- `handle_state_` for a message that is newer than the last completed one. -/
def storeState (h : Hub) (x : Session) (senderMac : Mac) (f : Frame) (rssi : Int)
    (view : EntityPayload) (base : UInt32) : Outcome :=
  let stored := offerFragment true x.limits x.stateAssemblies x.stateReservedBytes view base e.now
  let x := { x with stateAssemblies := stored.pending, stateReservedBytes := stored.reserved }
  match stored.assembly with
  | none => (h, x, false)
  | some a =>
    let x := { x with
      lastSeenCounter := max x.lastSeenCounter f.header.txCounter
      link := { x.link with lastSeenUptimeS := e.now / 1000 } }
    if ¬ a.complete then (h, x, true)
    else
      let (h, x) := stateMessage e h x senderMac f rssi view base a
      (h, x, true)

def handleState (h : Hub) (x : Session) (senderMac : Mac) (f : Frame) (rssi : Int) : Outcome :=
  if ¬ x.sessionKeyValid then (h, x, false)
  else match validateSessionPacket c x f with
    | none =>
      let (h, x, _) := sendDeauth c e h senderMac x f
      (h, x, false)
    | some plaintext =>
      match EntityPayload.parse plaintext with
      | none => (h, x, false)
      | some view =>
        let base := fragmentMessageTxBase f.header.txCounter view
        if counterIsNewer base x.lastCompletedStateMessageTxBase then
          storeState e h x senderMac f rssi view base
        else if base = x.lastCompletedStateMessageTxBase then sendStateAck c e h senderMac x base
        else (h, x, true)

/-- `confirm_state_delivery_`: the sinks have taken the value. -/
def confirmStateDelivery (h : Hub) (x : Session) (base : UInt32) (nextHopMac : Mac) : Outcome :=
  let (h, x) :=
    if counterIsNewer base x.lastCompletedStateMessageTxBase then
      let x := { x with lastCompletedStateMessageTxBase := base }
      if x.join.stateSyncPending ∧ ¬ x.join.awaitingMoreDirty ∧ x.schema.discoveryAllConfirmed then
        let x := { x with join := { x.join with stateSyncPending := false } }
        let (h, x, _) := sendJoinComplete c e h nextHopMac x true
        (h, x)
      else (h, x)
    else (h, x)
  sendStateAck c e h nextHopMac x base

/-! ## Heartbeats -/

/-- A byte read as a signed number. -/
def signedByte (b : UInt8) : Int := if b.toNat < 128 then b.toNat else b.toNat - 256

/-- What a heartbeat says about the link. -/
def LinkInfo.heartbeat (l : LinkInfo) (senderMac : Mac) (hb : Heartbeat) : LinkInfo :=
  { l with
    lastSeenUptimeS := e.now / 1000
    uptimeSeconds := hb.uptimeSeconds
    expectedContactIntervalS := hb.expectedContactIntervalSeconds
    parentMac := hb.parentMac
    directChildCount := hb.directChildCount
    totalChildCount := hb.totalChildCount
    lastRssi := signedByte hb.remoteRssiDbm
    nextHopMac := senderMac }

/-- The join automaton after a heartbeat. -/
def JoinState.heartbeat (j : JoinState) : JoinState :=
  let j := if j.completePending then
      { j with completePending := false, completeRetryCount := 0, lastCompleteMs := 0 }
    else j
  { j with inProgress := false }

/-- A leaf that was not normal is normal and online with its heartbeat. -/
def becomeNormal (h : Hub) (x : Session) (rssi : Int) (counter : UInt32) (reported : Int) :
    Hub × Session :=
  if x.remoteState ≠ .normal then
    markOnline e h { x with remoteState := .normal } rssi counter reported
  else (h, x)

def handleHeartbeat (h : Hub) (x : Session) (senderMac : Mac) (f : Frame) (rssi : Int) : Outcome :=
  if ¬ x.sessionKeyValid then (h, x, false)
  else if ¬ counterIsNewer f.header.txCounter x.lastSeenCounter then (h, x, false)
  else match validateSessionPacket c x f with
    | none => (h, x, false)
    | some plaintext =>
      if plaintext.length ≠ Heartbeat.size then (h, x, false)
      else
        let hb := Heartbeat.parse plaintext
        let x := { x with
          lastSeenCounter := f.header.txCounter, link := x.link.heartbeat e senderMac hb }
        let (h, x) := becomeNormal e h x rssi f.header.txCounter (signedByte hb.remoteRssiDbm)
        (h, { x with join := x.join.heartbeat }, true)

/-! ## Acknowledgements -/

/-- A leaf that was normal and had been given up is back. -/
def comeBack (h : Hub) (x : Session) (rssi : Int) (counter : UInt32) : Hub × Session :=
  if x.remoteState = .normal ∧ ¬ x.online then markOnline e h x rssi counter 0 else (h, x)

/-- The result that a configuration ACK reports. -/
def configAckResult (p : PendingConfig) (plaintext : Bytes) : UInt8 :=
  if plaintext.length ≤ Ack.size then 3
  else if byteAt plaintext Ack.size ≠ p.command then 3
  else (Ack.parse plaintext).result

/-- A configuration ACK: the first pending command it refers to is settled. -/
def configAcked (h : Hub) (x : Session) (plaintext : Bytes) (rssi : Int) (counter : UInt32) :
    Hub × Session :=
  match h.pendingConfigs.find? (fun p => p.txBase == (Ack.parse plaintext).refTxCounter) with
  | none => (h, x)
  | some p =>
    let h := { h with pendingConfigs := h.pendingConfigs.erase p }
    let (h, x) := comeBack e h x rssi counter
    (h.note (.configResult p.txBase (some (configAckResult p plaintext))), x)

/-- A command ACK with result 0 ends the retries of that command. -/
def Hub.commandAcked (h : Hub) (ref : UInt32) : Hub :=
  { h with commandQueue := h.commandQueue.eraseP (fun p => p.txBase == ref) }

/-- `handle_ack_` after decryption. -/
def dispatchAck (h : Hub) (x : Session) (plaintext : Bytes) (rssi : Int) (counter : UInt32) :
    Outcome :=
  let ack := Ack.parse plaintext
  if ack.ackType = PacketType.fileTransfer.code then (h.note (.fileAck plaintext), x, true)
  else if ack.ackType = PacketType.config.code then
    let (h, x) := configAcked e h x plaintext rssi counter
    (h, x, true)
  else
    let h := if ack.ackType = ackCommand ∧ ack.result = 0 then h.commandAcked ack.refTxCounter else h
    let (h, x) := comeBack e h x rssi counter
    (h, x, true)

def handleAck (h : Hub) (x : Session) (f : Frame) (rssi : Int) : Outcome :=
  if ¬ x.sessionKeyValid then (h, x, false)
  else if ¬ counterIsNewer f.header.txCounter x.lastSeenCounter then (h, x, false)
  else match validateSessionPacket c x f with
    | none => (h, x, false)
    | some plaintext =>
      let x := { x with
        lastSeenCounter := f.header.txCounter
        link := { x.link with lastSeenUptimeS := e.now / 1000 } }
      if plaintext.length < Ack.size then (h, x, false)
      else dispatchAck e h x plaintext rssi f.header.txCounter

/-! ## Dispatch -/

def ensureSession (b : Bridge) : Session := b.session?.getD { leafMac := b.leafMac }

/-- The outcome of a handler, put back into the bridge. -/
def store (b : Bridge) (o : Outcome) : Bridge × Bool :=
  ({ b with hub := o.1, session? := some o.2.1 }, o.2.2)

/-- What `on_espnow_frame` notes about the sender of a `STATE`, `HEARTBEAT` or `ACK`. -/
def Session.heardFrom (x : Session) (senderMac : Mac) (rssi : Int) : Session :=
  { x with link := { x.link with nextHopMac := senderMac, lastRssi := rssi } }

/-- `session->rx_packets++`. -/
def Session.countPacket (x : Session) : Session :=
  { x with link := { x.link with rxPackets := x.link.rxPackets + 1 } }

/-- A new hop count is noted and published, before the frame is authenticated. -/
def noteHops (h : Hub) (x : Session) (f : Frame) : Hub × Session :=
  let hops := hopsCount f.header.hopCount
  if hops = x.link.hopsToBridge then (h, x)
  else (h.note (.availability true .hopCountChanged),
    { x with link := { x.link with hopsToBridge := hops } })

/-- `on_espnow_frame` for `STATE`, `HEARTBEAT` and `ACK`: without a session or a valid key
the leaf is told to rejoin. -/
def onSessionFrame (b : Bridge) (senderMac : Mac) (f : Frame) (len : Nat) (rssi : Int) :
    Bridge × Bool :=
  match b.session? with
  | none =>
    let (h, _, sent) := sendDeauth c e b.hub senderMac { leafMac := f.header.leafMac } f
    ({ b with hub := h }, sent)
  | some x =>
    let x := x.heardFrom senderMac rssi
    if ¬ x.sessionKeyValid then b.store (sendDeauth c e b.hub senderMac x f)
    else
      let (h, x) := noteHops b.hub x.countPacket f
      if x.sessionMaxPayload < len then b.store (h, x, false)
      else match f.type? with
        | some .state => b.store (handleState c e h x senderMac f rssi)
        | some .heartbeat => b.store (handleHeartbeat c e h x senderMac f rssi)
        | _ => b.store (handleAck c e h x f rssi)

/-- `on_espnow_frame` after parsing, for a frame of this leaf. -/
def onFrame (b : Bridge) (senderMac : Mac) (f : Frame) (len : Nat) (rssi : Int) : Bridge × Bool :=
  if ¬ f.parentMac.all (fun m => m == Octets.zero 6 || m == b.hub.config.bridgeMac) then (b, false)
  else match f.type? with
    | some .discover =>
      if ¬ b.hub.knowsNetwork f then (b, false) else b.store (handleDiscover e b.hub b.ensureSession senderMac)
    | some .join =>
      if f.payload.length ≠ Join.size then (b, false)
      else b.store (handleJoin c e b.hub b.ensureSession senderMac f rssi)
    | some .schemaPush =>
      match b.session? with
      | none => (b, false)
      | some x => b.store (handleSchemaPush c e b.hub x senderMac f)
    | some .state | some .heartbeat | some .ack => b.onSessionFrame c e senderMac f len rssi
    | _ => (b, false)

/-- `on_espnow_frame`; frames of other leaves are not part of this view. -/
def onEspnowFrame (b : Bridge) (senderMac : Mac) (data : Bytes) (rssi : Int) : Bridge × Bool :=
  match parsePacket c data with
  | none => (b, false)
  | some f =>
    if f.header.leafMac = b.leafMac then b.onFrame c e senderMac f data.length rssi else (b, false)

end Bridge

end EspTree
