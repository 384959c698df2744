import EspTree.Bridge.State

/-!
# The bridge: sending

The two encoders of encrypted frames and everything that is built on them.  They differ in
where the counter comes from: `send_encrypted_` takes the session's next counter,
`send_encrypted_with_tx_counter_result_` takes the caller's, so that a retry repeats the
frame it retries.

`takeTxCounter` draws a counter, and it is the only function that does.  All else passes counters on:
a command keeps those of its fragments for its retries, and a configuration keeps its one.  What a
pair of key and counter was used for can so be read off the effects, which is how the modules about
the key stream go.

`requestSchema` both sends the request and notes when it did, and sets the slot that allows one
request at a time for the whole bridge.
-/

namespace EspTree

open Wire OtaManager

namespace Bridge

variable (c : Crypto) (e : Env)

/-- `ESPNOW_HOPS_MAKE(ESPNOW_HOPS_DIR_DOWN, 0)`, the hop byte of every frame of the bridge. -/
def downHop : UInt8 := hopsMake hopsDirBit 0

/-- Handing a finished frame to the radio. -/
def Hub.transmit (h : Hub) (mac : Mac) (frame : Frame) : Hub × SendErr :=
  let err := e.sendErr h.effects.length
  (h.note (.send mac frame.bytes (err == .ok)), err)

def sendPlainPsk (h : Hub) (mac leafMac : Mac) (type : PacketType) (tx : UInt32)
    (payload : Bytes) : Hub × Bool :=
  let (h, err) := h.transmit e mac (plain c leafMac type downHop tx none payload)
  (h, err == .ok)

/-- `session.tx_counter++`. -/
def Session.bumpTxCounter (x : Session) : Session :=
  { x with txCounter := x.txCounter + 1, drawn := x.drawn + 1 }

/-- `session.tx_counter = tx_counter + 1`. -/
def Session.takeTxCounter (x : Session) (tx : UInt32) : Session :=
  { x with txCounter := tx + 1, drawn := x.drawn + 1 }

/-- Encrypting for a session under a given counter. -/
def sealAndSend (h : Hub) (mac : Mac) (x : Session) (type : PacketType) (hop : UInt8)
    (tx : UInt32) (plaintext : Bytes) : Hub × SendErr :=
  match c.crypt x.sessionKey tx plaintext with
  | none => (h, .fail)
  | some ciphertext =>
    (h.note (.encrypt type x.sessionKey tx plaintext)).transmit e mac
      (sealed c x.sessionKey x.leafMac type hop tx none ciphertext)

def sendEncrypted (h : Hub) (mac : Mac) (x : Session) (type : PacketType) (hop : UInt8)
    (plaintext : Bytes) : Outcome :=
  if ¬ x.sessionKeyValid then (h, x, false)
  else if maxPlaintext x.sessionMaxPayload < plaintext.length then (h, x, false)
  else
    let (h, err) := sealAndSend c e h mac x type hop x.txCounter plaintext
    (h, x.bumpTxCounter, err == .ok)

def sendEncryptedWithTxCounterResult (h : Hub) (mac : Mac) (x : Session) (type : PacketType)
    (hop : UInt8) (tx : UInt32) (plaintext : Bytes) : Hub × SendErr :=
  if ¬ x.sessionKeyValid then (h, .fail)
  else if maxPlaintext x.sessionMaxPayload < plaintext.length then (h, .fail)
  else if ¬ e.heapOk h.effects.length then (h, .noMem)
  else sealAndSend c e h mac x type hop tx plaintext

/-! ## Joining -/

/-- The join slot after an accepted `JOIN_ACK`. -/
def Hub.holdSlot (h : Hub) (leafMac : Mac) : Hub :=
  if h.joiningInProgress then h
  else { h with joiningInProgress := true, joiningLeafMac := leafMac, joinStartedMs := e.now }

/-- The join slot is free again. -/
def Hub.freeSlot (h : Hub) : Hub :=
  { h with joiningInProgress := false, joiningLeafMac := Octets.zero 6, joinStartedMs := 0 }

def sendJoinAck (h : Hub) (mac : Mac) (x : Session) (accepted reason stage : UInt8) : Outcome :=
  let ack : JoinAck := ⟨accepted, reason, stage, x.bridgeNonce, h.config.sessionFlags⟩
  let x := if accepted ≠ 0 then { x with join := { x.join with inProgress := true } } else x
  let h := if accepted ≠ 0 then h.holdSlot e x.leafMac else h
  let (h, sent) := sendPlainPsk c e h mac x.leafMac .joinAck x.txCounter ack.bytes
  (h, x.bumpTxCounter, sent)

def sendJoinComplete (h : Hub) (mac : Mac) (x : Session) (resetRetryState : Bool) : Outcome :=
  let (h, x, sent) := sendJoinAck c e h mac x 1 0 joinStatusComplete
  (h.freeSlot, { x with join := { x.join with
    completePending := true
    inProgress := false
    lastCompleteMs := e.now
    completeRetryCount := if resetRetryState then 0 else x.join.completeRetryCount } }, sent)

def sendDeauth (h : Hub) (mac : Mac) (x : Session) (f : Frame) : Outcome :=
  let trigger : Header := ⟨protocolVer, 0, f.header.packetType, x.leafMac, f.header.txCounter,
    Octets.zero 4⟩
  let deauth : Deauth := ⟨1, f.header.packetType, f.header.txCounter, c.pskTag trigger f.payload⟩
  let (h, sent) := sendPlainPsk c e h mac x.leafMac .deauth x.txCounter deauth.bytes
  (h, x.bumpTxCounter, sent)

/-! ## Session traffic -/

def sendStateAck (h : Hub) (mac : Mac) (x : Session) (rxCounter : UInt32) : Outcome :=
  sendEncrypted c e h mac x .ack downHop (Ack.bytes ⟨ackState, 0, rxCounter⟩)

def sendSchemaRequest (h : Hub) (mac : Mac) (x : Session) (descriptorType index : UInt8) :
    Outcome :=
  let (h, x, sent) := sendEncrypted c e h mac x .schemaRequest downHop
    (SchemaRequest.bytes ⟨descriptorType, index⟩)
  (h, { x with schema := { x.schema with
    pendingDescriptorType := descriptorType, pendingIndex := index, lastRequestMs := e.now } }, sent)

/-- `send_schema_request_`, with its result kept as the in-flight flag. -/
def requestSchema (h : Hub) (mac : Mac) (x : Session) (descriptorType index : UInt8) : Outcome :=
  let (h, x, sent) := sendSchemaRequest c e h mac x descriptorType index
  (h, { x with schema := { x.schema with requestInFlight := sent } }, sent)

/-- Fragment number `chunk` of a command. -/
def commandFragment (index : UInt8) (value : Bytes) (fragSize count chunk : Nat) : EntityPayload :=
  ⟨index, if chunk + 1 < count then flagMoreFragments else 0, UInt8.ofNat chunk,
    UInt8.ofNat count, slice value (chunk * fragSize) fragSize⟩

/-- The loop of `send_command_fragments_`: `left` fragments from `chunk` on. -/
def sendCommandLoop (mac : Mac) (index : UInt8) (value : Bytes) (txBase : UInt32)
    (consume : Bool) (fragSize count : Nat) : Nat → Nat → Hub → Session → Outcome
  | 0, _, h, x => (h, x, true)
  | left + 1, chunk, h, x =>
    let tx := txBase + UInt32.ofNat chunk
    let x := if consume then x.takeTxCounter tx else x
    let (h, err) := sendEncryptedWithTxCounterResult c e h mac x .command downHop tx
      (commandFragment index value fragSize count chunk).bytes
    if err = .ok then sendCommandLoop mac index value txBase consume fragSize count left (chunk + 1) h x
    else (h, x, false)

def sendCommandFragments (h : Hub) (mac : Mac) (x : Session) (index : UInt8) (value : Bytes)
    (txBase : UInt32) (consume : Bool) : Outcome :=
  let fragSize := x.limits.maxEntityFragment
  let count := chunkCount value.length fragSize
  sendCommandLoop c e mac index value txBase consume fragSize count count 0 h x

def sendCommand (h : Hub) (mac : Mac) (x : Session) (index : UInt8) (value : Bytes) : Outcome :=
  let command : PendingCommand :=
    { fieldIndex := index, value := value, leafMac := x.leafMac, nextHopMac := mac,
      txBase := x.txCounter, lastTxMs := e.now }
  match sendCommandFragments c e h mac x index value x.txCounter true with
  | (h, x, false) => (h, x, false)
  | (h, x, true) => ({ h with commandQueue := h.commandQueue ++ [command] }, x, true)

def sendCommandToLeaf (h : Hub) (x : Session) (index : UInt8) (value : Bytes) : Outcome :=
  if ¬ x.online ∨ ¬ x.sessionKeyValid then (h, x, false)
  else sendCommand c e h x.link.nextHopMac x index value

/-- `send_config_frame_`; the payload limit is `ESPNOW_MAX_ENTITY_FRAGMENT_LEN` less the
three bytes of `espnow_config_t`. -/
def sendConfigFrame (h : Hub) (x : Session) (p : PendingConfig) : Hub × Bool :=
  if ¬ x.sessionKeyValid ∨ ¬ x.online then (h, false)
  else if 217 < p.payload.length then (h, false)
  else
    let (h, err) := sendEncryptedWithTxCounterResult c e h p.nextHopMac x .config downHop p.txBase
      (configBytes p.command p.payload)
    (h, err == .ok)

def configAckTimeoutMs : UInt32 := 500

def sendConfigToLeaf (h : Hub) (x : Session) (command : UInt8) (payload : Bytes) : Outcome :=
  if 217 < payload.length then (h, x, false)
  else if ¬ x.online ∨ ¬ x.sessionKeyValid then (h, x, false)
  else
    let p : PendingConfig :=
      { leafMac := x.leafMac, nextHopMac := x.link.nextHopMac, command := command,
        payload := payload, txBase := x.txCounter, nextRetryMs := e.now + configAckTimeoutMs }
    let x := x.bumpTxCounter
    let (h, sent) := sendConfigFrame c e h x p
    if sent then ({ h with pendingConfigs := h.pendingConfigs ++ [p] }, x, true) else (h, x, false)

def sendOtaFrame (h : Hub) (x : Session) (type : PacketType) (payload : Bytes) :
    Hub × Session × SendErr :=
  if type ≠ .fileTransfer ∧ type ≠ .fileData then (h, x, .fail)
  else if ¬ x.sessionKeyValid then (h, x, .notFound)
  else
    let (h, err) := sendEncryptedWithTxCounterResult c e h x.link.nextHopMac x.bumpTxCounter type
      downHop x.txCounter payload
    (h, x.bumpTxCounter, err)

def sendDiscoverAnnounce (h : Hub) (mac leafMac : Mac) : Hub × Bool :=
  let announce : DiscoverAnnounce :=
    { networkId := fixedField 32 h.config.networkId
      networkIdLen := UInt8.ofNat h.config.networkId.length
      responderMac := h.config.bridgeMac
      responderRole := nodeRoleBridge
      hopsToBridge := 0
      bridgeReachable := 1
      flags := 0 }
  sendPlainPsk c e h mac leafMac .discoverAnnounce 0 announce.bytes

end Bridge

end EspTree
