import EspTree.Remote.State

/-!
# The leaf: sending

`send_frame_` and everything that is built on it.  A sender changes the `radio` group and,
where the source remembers something about what was sent, the timers or the pending `STATE`
message; it never touches the session or the route.

A frame is sealed under the session key at the next counter or under the counter of the caller, and
it is sent to the next hop that the leaf has at that moment.  `transmit` notes the frame as an
effect, with the answer of the radio, and counts failures, which is where the stall that makes a
leaf rejoin is noticed.

`sendStateFragments` and `sendSchemaFragments` are loops over the fragments of one message, and each
fragment takes a counter of its own.  The children that a heartbeat reports are counted here too, by
a walk over the table of routes that gives up after one step more than there are routes
(`reachesSelf`).
-/

namespace EspTree

open Wire FileReceiver

namespace Remote

variable {η : Type} (P : Platform η) (e : Env)

/-! ## One frame -/

/-- The bookkeeping of `send_frame_` around `send_fn_`. -/
def Radio.afterSend (r : Radio) (mac : Mac) (frame : Bytes) (sent : Bool) : Radio :=
  { r with
    lastTxMs := e.now
    lastSuccessfulOutboundMs := if sent then e.now else r.lastSuccessfulOutboundMs
    consecutiveSendFailures :=
      if sent then 0 else UInt8.ofNat (min 255 (r.consecutiveSendFailures.toNat + 1))
    effects := .send mac frame sent :: r.effects }

/-- Handing a finished frame to the radio. -/
def transmit (s : Remote η) (mac : Mac) (frame : Frame) : Remote η × Bool :=
  let sent := e.sendOk s.radio.effects.length
  ({ s with radio := s.radio.afterSend e mac frame.bytes sent }, sent)

/-- `send_frame_` with `encrypted = true`. -/
def sendSealed (s : Remote η) (mac : Mac) (type : PacketType) (hop : UInt8) (tx : UInt32)
    (plaintext : Bytes) : Remote η × Bool :=
  if maxPlaintext s.session.sessionMaxPayload < plaintext.length then (s, false)
  else
    match P.crypto.crypt s.session.sessionKey tx plaintext with
    | none => (s, false)
    | some ciphertext =>
      (s.note (.encrypt type s.session.sessionKey tx plaintext)).transmit e mac
        (sealed P.crypto s.session.sessionKey s.config.leafMac type hop tx none ciphertext)

/-- `send_frame_` with `encrypted = false`. -/
def sendPlain (s : Remote η) (mac : Mac) (type : PacketType) (hop : UInt8) (tx : UInt32)
    (payload : Bytes) : Remote η × Bool :=
  s.transmit e mac (plain P.crypto s.config.leafMac type hop tx none payload)

/-- `tx_counter_++`. -/
def bumpTxCounter (s : Remote η) : Remote η :=
  { s with radio := { s.radio with
      txCounter := s.radio.txCounter + 1, drawn := s.radio.drawn + 1 } }

/-- `ESPNOW_HOPS_MAKE(ESPNOW_HOPS_DIR_UP, hops_to_bridge_)`. -/
def upHop (s : Remote η) : UInt8 := hopsMake 0 s.route.hopsToBridge

/-- Encrypting to the parent under a fresh counter. -/
def sendUp (s : Remote η) (type : PacketType) (plaintext : Bytes) : Remote η × Bool :=
  s.bumpTxCounter.sendSealed P e s.route.parentMac type s.upHop s.radio.txCounter plaintext

/-- `update_outstanding_request_`: eight requests are remembered, the oldest is dropped. -/
def updateOutstandingRequest (s : Remote η) (type : PacketType) (tx : UInt32)
    (payload : Bytes) : Remote η :=
  let header : Header := ⟨protocolVer, s.upHop, type.code, s.config.leafMac, tx, Octets.zero 4⟩
  let req : OutstandingRequest := ⟨type.code, tx, P.crypto.pskTag header payload⟩
  let kept := if s.radio.outstanding.length < 8 then s.radio.outstanding
    else s.radio.outstanding.drop 1
  { s with radio := { s.radio with outstanding := kept ++ [req] } }

/-- `sendUp`, with the request remembered for a later `DEAUTH`.  No result means that the
cipher refused, before anything was sent. -/
def sendUpTracked (s : Remote η) (type : PacketType) (plaintext : Bytes) :
    Remote η × Option Bool :=
  let tx := s.radio.txCounter
  match P.crypto.crypt s.session.sessionKey tx plaintext with
  | none => (s.bumpTxCounter, none)
  | some ciphertext =>
    let (s, sent) := (s.bumpTxCounter.updateOutstandingRequest P type tx ciphertext).sendSealed P e
      s.route.parentMac type s.upHop tx plaintext
    (s, some sent)

/-! ## Acknowledgements -/

def sendCommandAck (s : Remote η) (result : UInt8) (refTxCounter : UInt32) : Remote η × Bool :=
  if ¬ s.session.joined ∨ ¬ s.route.parentValid then (s, false)
  else
    let (s, sent) := s.sendUpTracked P e .ack (Ack.bytes ⟨ackCommand, result, refTxCounter⟩)
    (s, sent.getD false)

/-- `send_ack_`: the reference counter is written into the payload unless it is 0. -/
def sendAck (s : Remote η) (payload : Bytes) (refTxCounter : UInt32) : Remote η × Bool :=
  if ¬ s.session.joined ∨ ¬ s.route.parentValid ∨ payload.length < Ack.size then (s, false)
  else
    let payload := if refTxCounter ≠ 0 then overwrite payload 2 (leEncode 4 refTxCounter.toNat)
      else payload
    let (s, sent) := s.sendUpTracked P e .ack payload
    (s, sent.getD false)

def sendConfigAck (s : Remote η) (command result : UInt8) (refTxCounter : UInt32) :
    Remote η × Bool :=
  if ¬ s.session.joined ∨ ¬ s.route.parentValid then (s, false)
  else s.sendAck P e (Ack.bytes ⟨PacketType.config.code, result, refTxCounter⟩ ++ [command])
    refTxCounter

/-- The surroundings of the file receiver: it acknowledges through `send_ack_`. -/
def fileContext : FileReceiver.Context η (Remote η) where
  handler := P.handler
  sendAckFn s payload := s.sendAck P e payload 0
  now := e.now

/-! ## Heartbeats and children -/

/-- `direct_child_count_`, a `uint8_t`. -/
def directChildCount (s : Remote η) : UInt8 :=
  UInt8.ofNat (s.route.routes.filter
    (fun r => r.leafMac != s.config.leafMac && r.nextHopMac == r.leafMac)).length

def findRoute (s : Remote η) (leafMac : Mac) : Option RouteEntry :=
  s.route.routes.find? (fun r => r.leafMac == leafMac)

/-- The walk of `total_children_count_` along the next hops, for at most `hops` steps. -/
def reachesSelf (s : Remote η) : Nat → Mac → Bool
  | 0, _ => false
  | hops + 1, at_ =>
    if at_ == s.config.leafMac then true
    else match s.findRoute at_ with
      | none => false
      | some r => s.reachesSelf hops r.nextHopMac

def totalChildrenCount (s : Remote η) : Nat :=
  if ¬ s.route.canRelay then 0
  else (s.route.routes.filter (fun r => r.leafMac != s.config.leafMac &&
    s.reachesSelf (s.route.routes.length + 1) r.leafMac)).length % 2 ^ 16

/-- The heartbeat that `send_heartbeat_` fills in. -/
def heartbeat (s : Remote η) : Heartbeat where
  uptimeSeconds := (e.now - s.config.bootEpochMs) / 1000
  expectedContactIntervalSeconds := UInt32.ofNat s.timers.heartbeatInterval
  parentMac := s.route.parentMac
  directChildCount := s.directChildCount
  totalChildCount := if s.route.canRelay then s.totalChildrenCount else 0
  remoteRssiDbm := UInt8.ofNat (s.route.parentLinkRssiEma % 256).toNat

/-- The timers after a heartbeat. -/
def Timers.afterHeartbeat (t : Timers) (sent : Bool) : Timers :=
  if sent then
    { t with
      lastHeartbeatTxMs := e.now
      lastSuccessfulHeartbeatMs := e.now
      heartbeatDueMs := e.now + UInt32.ofNat t.heartbeatInterval * 1000 }
  else { t with heartbeatDueMs := e.now + 1000 }

def sendHeartbeat (s : Remote η) : Remote η × Bool :=
  if ¬ s.session.joined ∨ ¬ s.route.parentValid ∨ ¬ s.session.normal then (s, false)
  else
    let (s, sent) := s.sendUp P e .heartbeat (s.heartbeat e).bytes
    ({ s with timers := s.timers.afterHeartbeat e sent }, sent)

/-! ## States -/

/-- The value that a `STATE` message of an entity carries: `value`, or the text of a text
entity. -/
def EntityRecord.payload (r : EntityRecord) (value : Bytes) : Bytes :=
  if r.isText then r.currentText else value

/-- The flags of a fragment: more fragments follow, or more dirty entities. -/
def stateFlags (s : Remote η) (index : UInt8) (count chunk : Nat) : UInt8 :=
  if chunk + 1 < count then flagMoreFragments
  else if (s.entities.records.drop (index.toNat + 1)).any (·.dirty) then flagMoreDirty else 0

/-- Fragment number `chunk` of a payload. -/
def fragmentOf (index flags : UInt8) (payload : Bytes) (fragSize count chunk : Nat) :
    EntityPayload :=
  ⟨index, flags, UInt8.ofNat chunk, UInt8.ofNat count, slice payload (chunk * fragSize) fragSize⟩

/-- What `send_state_` does when a fragment could not be sent. -/
def stateSendFailed (s : Remote η) (index : UInt8) : Remote η :=
  let s := s.setRecord index (fun r => { r with dirty := true })
  { s with entities := { s.entities with waitingForStateAck := false, lastStateTxMs := e.now } }

/-- The loop of `send_state_`: `left` fragments from `chunk` on. -/
def sendStateFragments (index : UInt8) (payload : Bytes) (fragSize count : Nat) :
    Nat → Nat → Remote η → Remote η × Bool
  | 0, _, s => (s, true)
  | left + 1, chunk, s =>
    let fragment := fragmentOf index (s.stateFlags index count chunk) payload fragSize count chunk
    match s.sendUpTracked P e .state fragment.bytes with
    | (s, none) => (s, false)
    | (s, some false) => (s.stateSendFailed e index, false)
    | (s, some true) => sendStateFragments index payload fragSize count left (chunk + 1) s

/-- The end of `send_state_`: the message is remembered until its ACK arrives. -/
def rememberState (s : Remote η) (index : UInt8) (value : Bytes) (base : UInt32)
    (resetRetryState : Bool) : Remote η :=
  { s with entities := { s.entities with
      pendingStateMessageTxBase := base
      pendingStateFieldIndex := index
      pendingStateValue := value
      lastStateTxMs := e.now
      stateRetryCount := if resetRetryState then 0 else s.entities.stateRetryCount } }

def sendState (s : Remote η) (index : UInt8) (value : Bytes) (resetRetryState : Bool) :
    Remote η × Bool :=
  match s.entities.records[index.toNat]? with
  | none => (s, false)
  | some record =>
    if ¬ s.session.joined ∨ ¬ s.route.parentValid ∨ ¬ s.entities.statePushEnabled then (s, false)
    else
      let payload := record.payload value
      let fragSize := s.session.limits.maxEntityFragment
      let count := chunkCount payload.length fragSize
      let base := s.radio.txCounter
      match sendStateFragments P e index payload fragSize count count 0 s with
      | (s, false) => (s, false)
      | (s, true) =>
        ((s.rememberState e index value base resetRetryState).note
          (.stateMessage base index payload), true)

/-! ## Schema -/

def sendIdentityDescriptor (s : Remote η) : Remote η × Bool :=
  if ¬ s.session.joined ∨ ¬ s.route.parentValid then (s, false)
  else
    let i := s.config.identity
    let s := { s with reported := i }
    let push := identityPayload i (UInt8.ofNat s.entities.records.length)
      s.session.sessionMaxPayload
    s.sendUp P e .schemaPush (EntityPayload.bytes ⟨0, 0, 0, 1, push⟩)

/-- The loop of `send_schema_push_`. -/
def sendSchemaFragments (index : UInt8) (payload : Bytes) (fragSize count : Nat) :
    Nat → Nat → Remote η → Remote η × Bool
  | 0, _, s => (s, true)
  | left + 1, chunk, s =>
    let flags := if chunk + 1 < count then flagMoreFragments else 0
    match s.sendUp P e .schemaPush (fragmentOf index flags payload fragSize count chunk).bytes with
    | (s, false) => (s, false)
    | (s, true) => sendSchemaFragments index payload fragSize count left (chunk + 1) s

/-- `send_schema_push_`; the options carry their terminating zero. -/
def sendSchemaPush (s : Remote η) (index : UInt8) : Remote η × Bool :=
  if ¬ s.session.joined ∨ ¬ s.route.parentValid then (s, false)
  else
    match s.entities.records[index.toNat]? with
    | none => (s, false)
    | some record =>
      let push := schemaPushPayload (UInt8.ofNat s.entities.records.length) record.schema index
        (record.schema.entityOptions ++ [0])
      let fragSize := s.session.limits.maxEntityFragment
      let count := chunkCount push.length fragSize
      sendSchemaFragments P e index push fragSize count count 0 s

/-- `compute_schema_hash_`. -/
def schemaHash (s : Remote η) : Octets 32 :=
  let i := s.config.identity
  let total := UInt8.ofNat s.entities.records.length
  let descriptors := s.entities.records.zipIdx.flatMap fun (r, n) =>
    (schemaPushPayload total r.schema (UInt8.ofNat n) r.schema.entityOptions).take 222
  P.sha256 (i.esphomeName ++ [0] ++ i.nodeLabel ++ [0] ++ leEncode 4 i.firmwareEpoch.toNat ++
    i.projectName ++ [0] ++ i.projectVersion ++ [0] ++ leEncode 4 s.reported.chipModel.toNat ++
    s.reported.buildDate ++ [0] ++ s.reported.buildTime ++ [0] ++ descriptors)

/-! ## Joining -/

/-- The `JOIN` that `send_join_` fills in. -/
def joinRequest (s : Remote η) : Join where
  remoteNonce := s.session.remoteNonce
  schemaHash := s.schemaHash P
  hopsToBridge := s.route.hopsToBridge
  dirtyCount := UInt8.ofNat (s.entities.records.filter (·.dirty)).length
  sessionFlags := s.session.localSessionFlags

/-- The join bookkeeping after `send_join_`. -/
def Discovery.afterJoin (d : Discovery) (sent : Bool) : Discovery :=
  { d with
    joinInFlight := sent
    lastJoinAttemptMs := e.now
    joinRetryCount := if sent then d.joinRetryCount + 1 else d.joinRetryCount }

def sendJoin (s : Remote η) : Remote η × Bool :=
  if ¬ s.route.parentValid ∨ ¬ s.route.bestParent.valid then (s, false)
  else
    let s := { s with discovery := { s.discovery with joinDelayUntilMs := 0 } }
    let (s, sent) := s.bumpTxCounter.sendPlain P e s.route.parentMac .join s.upHop
      s.radio.txCounter (s.joinRequest P).bytes
    ({ s with discovery := s.discovery.afterJoin e sent }, sent)

end Remote

end EspTree
