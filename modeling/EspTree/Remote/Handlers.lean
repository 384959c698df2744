import EspTree.Remote.Discovery

/-!
# The leaf: received frames

`on_espnow_frame` and the handlers it dispatches to.  A handler returns the new state and
the boolean of the source, which says whether the frame was used.

As at the bridge, the handlers are in the order of the source, with its checks in its order.  A frame
that the leaf is to handle itself (`shouldHandleLocally`) goes to the handler of its type, and one
that needs the session key is opened there (`openFrame`).  Any other frame is passed on by a relay,
up or down as its hop byte says (`handleUpstream`, `handleDownstream`).

Some things are written before it is known whether the frame is good: the running average of the
signal strength is updated before the size is checked, and the hop count is taken from the header of
any frame for this leaf that goes up.  Such writes stand where the source has them.
-/

namespace EspTree

open Wire FileReceiver

namespace Remote

variable {η : Type} (P : Platform η) (e : Env)

/-! ## Checks -/

def validateSession (s : Remote η) (f : Frame) : Bool :=
  s.session.sessionKeyValid && validateTag P.crypto s.session.sessionKey f

/-- The check and the decryption that the handlers of encrypted frames start with. -/
def openFrame (s : Remote η) (f : Frame) : Option Bytes :=
  if s.validateSession P f then
    P.crypto.crypt s.session.sessionKey f.header.txCounter f.payload
  else none

def shouldHandleLocally (s : Remote η) (f : Frame) : Bool :=
  f.header.leafMac == s.config.leafMac ||
    (f.type? == some .discover && s.route.relayEnabled && s.session.normal) ||
    f.type? == some .discoverAnnounce

/-- `last_seen_counter_ = counter`. -/
def seen (s : Remote η) (counter : UInt32) : Remote η :=
  { s with session := { s.session with lastSeenCounter := counter } }

/-! ## Discovery -/

def handleDiscover (s : Remote η) (senderMac : Mac) (f : Frame) : Remote η × Bool :=
  let discover := Discover.parse f.payload
  if senderMac = s.config.leafMac then (s, false)
  else if f.payload.length ≠ Discover.size then (s, false)
  else if ¬ networkMatches s.config.networkId discover.networkId discover.networkIdLen then
    (s, false)
  else if ¬ s.route.canRelay then (s, false)
  else if s.config.maxHops < s.route.hopsToBridge.toNat then (s, false)
  else if s.discovery.pendingDiscovers.any (fun p => p.1 == f.header.leafMac) then (s, true)
  else if s.config.maxDiscoverPending ≤ s.discovery.pendingDiscovers.length then (s, false)
  else
    let s := { s with discovery := { s.discovery with
      pendingDiscovers := s.discovery.pendingDiscovers ++ [(f.header.leafMac, e.now + 500)] } }
    s.sendDiscoverAnnounceWithJitter e senderMac f.header.leafMac nodeRoleRelay s.route.hopsToBridge

def handleDiscoverAnnounce (s : Remote η) (senderMac : Mac) (f : Frame) (rssi : Int) :
    Remote η × Bool :=
  let announce := DiscoverAnnounce.parse f.payload
  if f.payload.length ≠ DiscoverAnnounce.size then (s, false)
  else if ¬ networkMatches s.config.networkId announce.networkId announce.networkIdLen then
    (s, false)
  else if announce.bridgeReachable = 0 then (s, false)
  else if s.config.maxHops < announce.hopsToBridge.toNat then (s, false)
  else (s.selectParentCandidate e senderMac announce rssi, true)

/-! ## Joining -/

/-- `ESPNOW_WAIT_REJECT_DELAY_MS`. -/
def waitRejectDelayMs : UInt32 := 10000

/-- The session after an accepted `JOIN_ACK`: nonce, flags, limits, key and counter. -/
def Session.accept (x : Session) (ack : JoinAck) (counter : UInt32) : Session :=
  let payload := if hasV2Mtu ack.sessionFlags then v2MaxPayload else v1MaxPayload
  { x with
    bridgeNonce := ack.bridgeNonce
    bridgeSessionFlags := ack.sessionFlags
    localSessionFlags := ack.sessionFlags
    sessionMaxPayload := payload
    limits := FragmentLimits.ofMtu payload
    sessionKey := P.crypto.deriveSessionKey ack.bridgeNonce x.remoteNonce
    sessionKeyValid := true
    joined := true
    lastSeenCounter := counter }

/-- The automaton after an accepted `JOIN_ACK`. -/
def Discovery.accepted (x : Discovery) : Discovery :=
  { x with fastRejoin := false, discovering := false, joinInFlight := false, joinRetryCount := 0 }

/-- The part of `handle_join_ack_` that every accepted stage shares. -/
def acceptJoin (s : Remote η) (ack : JoinAck) (counter : UInt32) : Remote η :=
  let session := s.session.accept P ack counter
  { s with
    session := session
    discovery := s.discovery.accepted
    files := s.files.setMaxChunkSize P.handler (UInt16.ofNat session.sessionMaxPayload) }

/-- A leaf that is joined but not yet normal. -/
def joinedNotNormal (s : Remote η) (pushStates : Bool) : Remote η :=
  let s := refreshCanRelay { s with session := { s.session with normal := false } }
  { s with
    entities := { s.entities with statePushEnabled := pushStates }
    timers := { s.timers with joinedStartedMs := e.now } }

def markAllEntitiesDirty (s : Remote η) : Remote η :=
  { s with entities := { s.entities with
      records := s.entities.records.map (fun r => { r with dirty := true }) } }

/-- The stage `SEND_STATE`: every state is sent again. -/
def startStateSync (s : Remote η) : Remote η :=
  let s := s.joinedNotNormal e true
  ({ s with entities := { s.entities with
      waitingForStateAck := false, stateRetryCount := 0 } } : Remote η).markAllEntitiesDirty

/-- The stage `COMPLETE`: the leaf is normal. -/
def completeJoin (s : Remote η) : Remote η :=
  let s := refreshCanRelay
    { s with session := { s.session with normal := true }, route := s.route.takeBestParent }
  { s with
    entities := { s.entities with statePushEnabled := true }
    timers := { s.timers with joinedStartedMs := 0, lastSuccessfulStateMs := 0 }
    radio := { s.radio with lastSuccessfulOutboundMs := 0, consecutiveSendFailures := 0 } }

/-- The refusals of `handle_join_ack_`. -/
def rejectJoin (s : Remote η) (ack : JoinAck) : Remote η :=
  let s := { s with
    session := { s.session with sessionKeyValid := false }
    discovery := { s.discovery with fastRejoin := false } }
  if ack.reason = joinReasonWait then
    let s := { s with discovery := { s.discovery with
      joinInFlight := false, waitRejectCount := s.discovery.waitRejectCount + 1 } }
    if maxRetries ≤ s.discovery.waitRejectCount then
      (s.startDiscoveryCycle P e (e.nonce 0) false).setDiscoverDue (e.now + 1000)
    else
      { s with discovery := { s.discovery with
        joinDelayUntilMs := e.now + waitRejectDelayMs
        joinRetryCount := 0
        dueMs := e.now + waitRejectDelayMs } }
  else s.startDiscoveryCycle P e (e.nonce 0) false

def handleJoinAck (s : Remote η) (f : Frame) : Remote η × Bool :=
  let ack := JoinAck.parse f.payload
  if s.session.joined ∧ ¬ counterIsNewer f.header.txCounter s.session.lastSeenCounter then
    (s, false)
  else if f.payload.length ≠ JoinAck.size then (s, false)
  else if ack.accepted ≠ 1 then (s.rejectJoin P e ack, false)
  else
    let s := s.acceptJoin P ack f.header.txCounter
    if ack.stage = joinStatusSchemaRefresh then
      (if s.session.normal then s else s.joinedNotNormal e false, true)
    else if ack.stage = joinStatusSendState then
      (if s.session.normal then s else s.startStateSync e, true)
    else if ack.stage = joinStatusComplete then ((s.completeJoin.sendHeartbeat P e).1, true)
    else (s.joinedNotNormal e false, true)

/-- `request_matches_outstanding_` decides only what is logged, so it is left out. -/
def handleDeauth (s : Remote η) (f : Frame) : Remote η × Bool :=
  if ¬ s.shouldHandleLocally f then (s, false)
  else if f.payload.length ≠ Deauth.size then (s, false)
  else
    let haveRoute := s.route.parentValid && s.route.bestParent.valid
    let s := s.clearSessionState P e true
    let s := { s with
      session := { s.session with remoteNonce := e.nonce 0 }
      discovery := { s.discovery with
        discovering := true
        sweepComplete := true
        fastRejoin := false
        resumeNormalAfterSuccess := false
        currentChannelOnly := true } }
    if haveRoute then
      let (s, sent) := s.sendJoin P e
      if sent then (s, true) else (s.startDiscoveryCycle P e (e.nonce 1) false, true)
    else (s.startDiscoveryCycle P e (e.nonce 1) false, true)

/-! ## Session traffic -/

/-- The `STATE` message that was waited for has been acknowledged. -/
def stateAcked (s : Remote η) : Remote η :=
  let index := s.entities.pendingStateFieldIndex
  let s := s.note (.stateAcked s.entities.pendingStateMessageTxBase)
  let s := { s with
    entities := { s.entities with waitingForStateAck := false, stateRetryCount := 0 }
    timers := { s.timers with lastSuccessfulStateMs := e.now } }
  s.setRecord index (fun r => { r with dirty := false })

def handleAck (s : Remote η) (f : Frame) : Remote η × Bool :=
  if ¬ s.session.joined ∨ ¬ counterIsNewer f.header.txCounter s.session.lastSeenCounter then
    (s, false)
  else match s.openFrame P f with
    | none => (s, false)
    | some plaintext =>
      let ack := Ack.parse plaintext
      if plaintext.length < Ack.size then (s, false)
      else if ack.ackType = ackState then
        let s := s.seen f.header.txCounter
        if s.entities.waitingForStateAck ∧
            ack.refTxCounter = s.entities.pendingStateMessageTxBase then (s.stateAcked e, true)
        else (s, true)
      else (s, true)

/-- The record of an entity after a completed command. -/
def EntityRecord.commanded (r : EntityRecord) (value : Bytes) (base : UInt32) : EntityRecord :=
  { r with
    currentValue := value
    currentText := if r.isText then value else r.currentText
    dirty := false
    lastCompletedCommandMessageTxBase := base }

/-- The end of `handle_command_`: all fragments are there. -/
def completeCommand (s : Remote η) (command : EntityPayload) (base : UInt32)
    (a : FragmentAssembly) : Remote η :=
  let value := a.assemble s.session.limits.maxEntityFragment
  let s := { s with commands := { s.commands with
    pendingAssemblies := s.commands.pendingAssemblies.remove command.entityIndex
    pendingReservedBytes := s.commands.pendingReservedBytes - UInt32.ofNat a.data.length } }
  (s.setRecord command.entityIndex (·.commanded value base)).note
    (.command s.session.sessionKey base command.entityIndex command.flags value)

/-- `handle_command_` for a fragment that is newer than the entity's last command. -/
def storeCommand (s : Remote η) (counter : UInt32) (command : EntityPayload) (base : UInt32) :
    Remote η × Bool :=
  let stored := offerFragment false s.session.limits s.commands.pendingAssemblies
    s.commands.pendingReservedBytes command base e.now
  let s := { s with commands := { s.commands with
    pendingAssemblies := stored.pending, pendingReservedBytes := stored.reserved } }
  match stored.assembly with
  | none => (s, false)
  | some a =>
    let s := s.seen (max s.session.lastSeenCounter counter)
    if a.complete then (s.completeCommand command base a).sendCommandAck P e 0 base
    else (s, true)

def handleCommand (s : Remote η) (f : Frame) : Remote η × Bool :=
  if ¬ s.session.joined then (s, false)
  else match s.openFrame P f with
    | none => (s, false)
    | some plaintext =>
      match EntityPayload.parse plaintext with
      | none => (s, false)
      | some command =>
        let base := fragmentMessageTxBase f.header.txCounter command
        match s.entities.records[command.entityIndex.toNat]? with
        | none => s.sendCommandAck P e 2 base
        | some record =>
          if counterIsNewer base record.lastCompletedCommandMessageTxBase then
            s.storeCommand P e f.header.txCounter command base
          else if base = record.lastCompletedCommandMessageTxBase then
            s.sendCommandAck P e 0 base
          else (s, true)

/-! ## Configuration -/

/-- The `CFG_RESULT_*` codes that a leaf answers with. -/
def cfgResultOk : UInt8 := 0
def cfgResultUnsupported : UInt8 := 2
def cfgResultInvalidPayload : UInt8 := 3
def cfgResultBusy : UInt8 := 4

/-- The lambda `ack_and_remember`. -/
def ackAndRemember (s : Remote η) (counter : UInt32) (command result : UInt8) : Remote η × Bool :=
  { s with commands := { s.commands with
      lastConfigTxCounter := counter
      lastConfigCommand := command
      lastConfigResult := result
      lastConfigValid := true } }.sendConfigAck P e command result counter

/-- A command that is acknowledged with `OK` and then carried out, unless the
acknowledgement could not be sent. -/
def ackThen (s : Remote η) (counter : UInt32) (command : UInt8) (act : Remote η → Remote η) :
    Remote η × Bool :=
  let (s, sent) := s.ackAndRemember P e counter command cfgResultOk
  if sent then (act (s.note (.config s.session.sessionKey counter command)), true) else (s, false)

/-- `set_relay_enabled_runtime`. -/
def setRelayEnabled (s : Remote η) (enabled : Bool) : Remote η :=
  refreshCanRelay { s with route := { s.route with relayEnabled := enabled } }

/-- The heartbeat interval of a configuration command. -/
def setHeartbeatInterval (s : Remote η) (interval : UInt32) : Remote η :=
  { s with timers := { s.timers with
      heartbeatInterval := interval.toNat
      heartbeatDueMs := e.now + interval * 1000 } }

/-- `CFG_CMD_SET_PARENT_MAC`: the address moves to the front of the preferred parents. -/
def preferParent (s : Remote η) (mac : Mac) (clear : Bool) : Remote η :=
  let kept := if clear then [] else s.route.preferredParents
  let s := { s with route := { s.route with preferredParents := mac :: kept.erase mac } }
  let s := s.startRouteRecoveryCycle e
  { s with discovery := { s.discovery with fastRejoin := false, currentChannelOnly := false } }

/-- The `switch` of `handle_config_`. -/
def runConfig (s : Remote η) (counter : UInt32) (command : UInt8) (payload : Bytes) :
    Remote η × Bool :=
  let invalid := s.ackAndRemember P e counter command cfgResultInvalidPayload
  match command with
  | 0x01 =>
    if payload.length ≠ 0 then invalid else s.ackThen P e counter command (·.note .reboot)
  | 0x04 =>
    let interval := word32At payload 0
    if payload.length ≠ 4 then invalid
    else if interval < 5 ∨ 3600 < interval then invalid
    else s.ackThen P e counter command (·.setHeartbeatInterval e interval)
  | 0x05 =>
    if payload.length ≠ 0 then invalid
    else s.ackThen P e counter command (·.startConfigFullRediscovery P e (e.nonce 0))
  | 0x06 =>
    let flags := byteAt payload 0
    if payload.length ≠ 7 then invalid
    else if flags &&& 0xFE ≠ 0 then invalid
    else s.ackThen P e counter command
      (·.preferParent e (Octets.fit 6 (payload.drop 1)) (flags &&& 1 != 0))
  | 0x07 =>
    if payload.length ≠ 1 ∨ 1 < byteAt payload 0 then invalid
    else s.ackThen P e counter command (·.setRelayEnabled (byteAt payload 0 != 0))
  | _ => s.ackAndRemember P e counter command cfgResultUnsupported

def handleConfig (s : Remote η) (f : Frame) : Remote η × Bool :=
  let counter := f.header.txCounter
  if ¬ s.session.joined then (s, false)
  else match s.openFrame P f with
    | none => (s, false)
    | some plaintext =>
      if s.commands.lastConfigValid ∧ counter = s.commands.lastConfigTxCounter then
        s.sendConfigAck P e s.commands.lastConfigCommand s.commands.lastConfigResult counter
      else if ¬ counterIsNewer counter s.session.lastSeenCounter then (s, false)
      else
        let s := s.seen counter
        let command := byteAt plaintext 0
        let payload := plaintext.drop 3
        if plaintext.length < 3 then s.ackAndRemember P e counter 0 cfgResultInvalidPayload
        else if (byteAt plaintext 2).toNat ≠ payload.length then
          s.ackAndRemember P e counter command cfgResultInvalidPayload
        else if ¬ s.session.normal then s.ackAndRemember P e counter command cfgResultBusy
        else s.runConfig P e counter command payload

def handleSchemaRequest (s : Remote η) (f : Frame) : Remote η × Bool :=
  if ¬ s.session.joined ∨ ¬ counterIsNewer f.header.txCounter s.session.lastSeenCounter then
    (s, false)
  else match s.openFrame P f with
    | none => (s, false)
    | some plaintext =>
      let request := SchemaRequest.parse plaintext
      if plaintext.length ≠ SchemaRequest.size then (s, false)
      else
        let s := s.seen f.header.txCounter
        let s := { s with
          entities := { s.entities with statePushEnabled := false }
          timers := { s.timers with
            lastHeartbeatTxMs := 0
            heartbeatDueMs := 0
            lastSuccessfulStateMs := 0
            lastSuccessfulHeartbeatMs := 0 } }
        if request.descriptorType = descriptorTypeIdentity then
          if request.descriptorIndex = 0 then s.sendIdentityDescriptor P e else (s, false)
        else if request.descriptorType = descriptorTypeEntity then
          s.sendSchemaPush P e request.descriptorIndex
        else (s, false)

/-! ## Files -/

/-- The counters of `ANNOUNCE` and `BLAST_COMPLETE` are noted before the packet is handled. -/
def noteFileCounter (r : Receiver η) (counter : UInt32) (plaintext : Bytes) : Receiver η :=
  match plaintext with
  | 0x00 :: _ => { r with announceTxCounter := counter }
  | 0x03 :: _ => { r with lastBlastCompleteTxCounter := counter }
  | _ => r

/-- `ota_last_activity_ms_ = millis()`. -/
def noteOtaActivity (s : Remote η) : Remote η :=
  { s with timers := { s.timers with otaLastActivityMs := e.now } }

def handleFileTransfer (s : Remote η) (f : Frame) : Remote η × Bool :=
  if f.header.leafMac ≠ s.config.leafMac then (s, false)
  else if ¬ s.session.joined then (s, false)
  else match s.openFrame P f with
    | none => (s, false)
    | some plaintext =>
      let s := s.noteOtaActivity e
      let files := noteFileCounter s.files f.header.txCounter plaintext
      let (files, s, used) := files.handleFileTransfer (fileContext P e) s plaintext
      ({ s with files := files }, used)

def handleFileData (s : Remote η) (f : Frame) : Remote η × Bool :=
  if f.header.leafMac ≠ s.config.leafMac then (s, false)
  else if ¬ s.session.joined then (s, false)
  else match s.openFrame P f with
    | none => (s, false)
    | some plaintext =>
      let (files, used) := s.files.handleFileData (fileContext P e) plaintext
      ({ s.noteOtaActivity e with files := files }, used)

/-! ## Relaying -/

/-- The hop byte that `forward_frame_` writes. -/
def forwardHop (hop delta : UInt8) : UInt8 :=
  hopsMake (hop &&& hopsDirBit) (hopsCount hop + delta) ||| (hop &&& hopsParentCheckBit)

/-- The frame that `forward_frame_` builds from the parsed pieces of another. -/
def forwarded (c : Crypto) (f : Frame) (delta : UInt8) : Frame :=
  let header := { f.header with hopCount := forwardHop f.header.hopCount delta }
  { f with
    header := { header with pskTag := c.pskTag header f.payload }
    parentMac := if hasParentCheck f.header.hopCount then some (Octets.zero 6) else none }

def forwardFrame (s : Remote η) (mac : Mac) (f : Frame) (delta : UInt8) : Remote η × Bool :=
  let sent := e.sendOk s.radio.effects.length
  let s := s.note (.send mac (forwarded P.crypto f delta).bytes sent)
  ({ s with radio := { s.radio with
      lastSuccessfulOutboundMs := if sent then e.now else s.radio.lastSuccessfulOutboundMs } },
    sent)

def forwardPacket (s : Remote η) (f : Frame) : Remote η × Bool :=
  if hopsIsUpstream f.header.hopCount then
    if ¬ s.route.parentValid then (s, false) else s.forwardFrame P e s.route.parentMac f 0
  else
    match s.findRoute f.header.leafMac with
    | none => (s, false)
    | some route =>
      (s.refreshRoute e f.header.leafMac route.nextHopMac).forwardFrame P e route.nextHopMac f 1

def handleUpstream (s : Remote η) (senderMac : Mac) (f : Frame) : Remote η × Bool :=
  if ¬ s.route.parentValid then (s, false)
  else (s.refreshRoute e f.header.leafMac senderMac).forwardPacket P e f

/-- `handle_downstream_`, which `on_espnow_frame` calls only for frames it does not handle
locally. -/
def handleDownstream (s : Remote η) (f : Frame) : Remote η × Bool := s.forwardPacket P e f

/-! ## Dispatch -/

/-- The running average of the parent's signal strength; C division truncates. -/
def noteRssi (s : Remote η) (senderMac : Mac) (rssi : Int) : Remote η :=
  if s.route.parentValid ∧ senderMac = s.route.parentMac then
    { s with route := { s.route with parentLinkRssiEma :=
        if s.route.parentLinkRssiEma = -127 then rssi
        else (rssi + 9 * s.route.parentLinkRssiEma).tdiv 10 } }
  else s

/-- A frame for this leaf may show that it is closer to the bridge than it thought. -/
def noteHops (s : Remote η) (f : Frame) : Remote η :=
  if f.header.leafMac = s.config.leafMac ∧ hopsIsUpstream f.header.hopCount ∧
      hopsCount f.header.hopCount < s.route.hopsToBridge then
    { s with route := { s.route with hopsToBridge := hopsCount f.header.hopCount } }
  else s

/-- The `switch` of `on_espnow_frame`. -/
def handleLocally (s : Remote η) (senderMac : Mac) (f : Frame) (rssi : Int) : Remote η × Bool :=
  match f.type? with
  | some .discover => s.handleDiscover e senderMac f
  | some .discoverAnnounce => s.handleDiscoverAnnounce e senderMac f rssi
  | some .joinAck => s.handleJoinAck P e f
  | some .ack => s.handleAck P e f
  | some .command => s.handleCommand P e f
  | some .config => s.handleConfig P e f
  | some .schemaRequest => s.handleSchemaRequest P e f
  | some .deauth => s.handleDeauth P e f
  | some .fileTransfer => if s.config.otaOverEspnow then s.handleFileTransfer P e f else (s, false)
  | some .fileData => if s.config.otaOverEspnow then s.handleFileData P e f else (s, false)
  | _ => (s, false)

/-- `on_espnow_frame` after parsing.  The RSSI average is updated before the size limit is
checked. -/
def onFrame (s : Remote η) (senderMac : Mac) (f : Frame) (len : Nat) (rssi : Int) :
    Remote η × Bool :=
  if ¬ validatePsk P.crypto f then (s, false)
  else if s.config.maxHops ≤ (hopsCount f.header.hopCount).toNat then (s, false)
  else if ¬ f.parentMac.all (fun m => m == Octets.zero 6 || m == s.config.leafMac) then (s, false)
  else
    let s := s.noteRssi senderMac rssi
    if isEncryptedPacket f.header.packetType ∧ s.session.sessionMaxPayload < len then (s, false)
    else if s.shouldHandleLocally f then (s.noteHops f).handleLocally P e senderMac f rssi
    else if ¬ s.route.canRelay then (s, false)
    else if hopsIsUpstream f.header.hopCount then s.handleUpstream P e senderMac f
    else s.handleDownstream P e f

def onEspnowFrame (s : Remote η) (senderMac : Mac) (data : Bytes) (rssi : Int) : Remote η × Bool :=
  match parseFrame data with
  | none => (s, false)
  | some f => s.onFrame P e senderMac f data.length rssi

end Remote

end EspTree
