import EspTree.Frame

/-!
# Payloads

The packed structures that frames carry (`espnow_types.h`), each with its bytes and its
reader.  A reader is a `reinterpret_cast`: it takes any buffer, and the handlers check the
length themselves.  Round trips are stated for the payloads that a peer of this repository
reads back: joins, acknowledgements and entity fragments.

The structures are packed, so that the size of each is a sum and a field has a fixed place.
`fixedField` is a text in a field of a fixed width, filled with zeros and cut off at its end, and
`fieldText` reads it up to the first zero; a text that fills its field has no zero behind it.

A reader that takes any buffer is total here as well: a place behind the end reads as zero.  No
handler gets there, since all of them compare the length first, each in its own way.
-/

namespace EspTree

open Wire

/-- The byte at offset `i`. -/
def byteAt (b : Bytes) (i : Nat) : UInt8 := b.getD i 0
/-- The little-endian `uint32_t` at offset `i`. -/
def word32At (b : Bytes) (i : Nat) : UInt32 := UInt32.ofNat (leDecode ((b.drop i).take 4))

@[simp] theorem length_word (w : Nat) (n : UInt32) : (leEncode w n.toNat).length = w :=
  length_leEncode w n.toNat

/-- A counter is read from where it was written. -/
theorem word32At_append {a : Bytes} {i : Nat} (h : a.length = i) (n : UInt32) (rest : Bytes) :
    word32At (a ++ (leEncode 4 n.toNat ++ rest)) i = n := by
  have hn : n.toNat % 256 ^ 4 = n.toNat := Nat.mod_eq_of_lt n.toNat_lt
  rw [word32At, List.drop_left' h, List.take_left' (length_leEncode _ _), leDecode_leEncode, hn]
  simp

/-- `counter_is_newer`: the difference, read as a signed number, is positive. -/
def counterIsNewer (candidate previous : UInt32) : Bool :=
  candidate - previous != 0 && candidate - previous < 0x80000000

/-- A `std::string` cut or padded to a fixed field. -/
def fixedField (n : Nat) (text : Bytes) : Octets n := Octets.fit n text

/-- The text in a fixed field: `strnlen`, then `assign`. -/
def fieldText {n : Nat} (field : Octets n) : Bytes := field.bytes.takeWhile (· != 0)

/-! ## Discovery -/

/-- `espnow_discover_t`. -/
structure Discover where
  networkId : Octets 32
  networkIdLen : UInt8
  capabilityFlags : UInt8

namespace Discover

def size : Nat := 34

def bytes (d : Discover) : Bytes := d.networkId.bytes ++ [d.networkIdLen, d.capabilityFlags]

def parse (b : Bytes) : Discover := ⟨Octets.fit 32 b, byteAt b 32, byteAt b 33⟩

end Discover

/-- `espnow_discover_announce_t`. -/
structure DiscoverAnnounce where
  networkId : Octets 32
  networkIdLen : UInt8
  responderMac : Mac
  responderRole : UInt8
  hopsToBridge : UInt8
  bridgeReachable : UInt8
  flags : UInt8

namespace DiscoverAnnounce

def size : Nat := 43

def bytes (a : DiscoverAnnounce) : Bytes :=
  a.networkId.bytes ++ ([a.networkIdLen] ++ (a.responderMac.bytes ++
    [a.responderRole, a.hopsToBridge, a.bridgeReachable, a.flags]))

def parse (b : Bytes) : DiscoverAnnounce where
  networkId := Octets.fit 32 b
  networkIdLen := byteAt b 32
  responderMac := Octets.fit 6 (b.drop 33)
  responderRole := byteAt b 39
  hopsToBridge := byteAt b 40
  bridgeReachable := byteAt b 41
  flags := byteAt b 42

end DiscoverAnnounce

/-- `ESPNOW_NODE_ROLE_BRIDGE`. -/
def nodeRoleBridge : UInt8 := 0
/-- `ESPNOW_NODE_ROLE_RELAY`. -/
def nodeRoleRelay : UInt8 := 1

/-- The two network checks that every receiver of a discovery frame makes. -/
def networkMatches (networkId : Bytes) (field : Octets 32) (len : UInt8) : Bool :=
  len.toNat == networkId.length && field.bytes.take networkId.length == networkId.take 32

/-! ## Joining -/

/-- `espnow_join_t`. -/
structure Join where
  remoteNonce : Nonce
  schemaHash : Octets 32
  hopsToBridge : UInt8
  dirtyCount : UInt8
  sessionFlags : UInt8

namespace Join

def size : Nat := 51

def bytes (j : Join) : Bytes :=
  j.remoteNonce.bytes ++ (j.schemaHash.bytes ++ [j.hopsToBridge, j.dirtyCount, j.sessionFlags])

def parse (b : Bytes) : Join where
  remoteNonce := Octets.fit 16 b
  schemaHash := Octets.fit 32 (b.drop 16)
  hopsToBridge := byteAt b 48
  dirtyCount := byteAt b 49
  sessionFlags := byteAt b 50

@[simp] theorem length_bytes (j : Join) : j.bytes.length = size := by
  simp [bytes, size]

end Join

/-- `ESPNOW_JOIN_STATUS_SCHEMA_REFRESH`. -/
def joinStatusSchemaRefresh : UInt8 := 1
/-- `ESPNOW_JOIN_STATUS_SEND_STATE`. -/
def joinStatusSendState : UInt8 := 2
/-- `ESPNOW_JOIN_STATUS_COMPLETE`. -/
def joinStatusComplete : UInt8 := 100
/-- `ESPNOW_JOIN_REASON_WAIT`. -/
def joinReasonWait : UInt8 := 3
/-- `ESPNOW_SESSION_FLAG_V2_MTU`. -/
def sessionFlagV2Mtu : UInt8 := 0x01

/-- The test on a session-flags byte. -/
def hasV2Mtu (flags : UInt8) : Bool := flags &&& sessionFlagV2Mtu != 0

/-- `espnow_join_ack_t`. -/
structure JoinAck where
  accepted : UInt8
  reason : UInt8
  stage : UInt8
  bridgeNonce : Nonce
  sessionFlags : UInt8

namespace JoinAck

def size : Nat := 20

def bytes (a : JoinAck) : Bytes :=
  [a.accepted, a.reason, a.stage] ++ (a.bridgeNonce.bytes ++ [a.sessionFlags])

def parse (b : Bytes) : JoinAck where
  accepted := byteAt b 0
  reason := byteAt b 1
  stage := byteAt b 2
  bridgeNonce := Octets.fit 16 (b.drop 3)
  sessionFlags := byteAt b 19

end JoinAck

/-- `espnow_deauth_t`. -/
structure Deauth where
  reason : UInt8
  responseToPacketType : UInt8
  responseToTxCounter : UInt32
  requestFingerprint : Octets 4

namespace Deauth

def size : Nat := 10

def bytes (d : Deauth) : Bytes :=
  [d.reason, d.responseToPacketType] ++ (leEncode 4 d.responseToTxCounter.toNat ++
    d.requestFingerprint.bytes)

def parse (b : Bytes) : Deauth where
  reason := byteAt b 0
  responseToPacketType := byteAt b 1
  responseToTxCounter := word32At b 2
  requestFingerprint := Octets.fit 4 (b.drop 6)

@[simp] theorem length_bytes (d : Deauth) : d.bytes.length = size := by
  simp [bytes, size]

@[simp] theorem parse_bytes (d : Deauth) : parse d.bytes = d := by
  have hword : word32At d.bytes 2 = d.responseToTxCounter := word32At_append rfl _ _
  have htail : d.bytes.drop 6 = d.requestFingerprint.bytes := by
    have hlen : ([d.reason, d.responseToPacketType] ++
      leEncode 4 d.responseToTxCounter.toNat).length = 6 := by simp
    rw [bytes, ← List.append_assoc, List.drop_left' hlen]
  simp only [parse, hword, htail]
  simp [byteAt, bytes]

end Deauth

/-! ## Session traffic -/

/-- `espnow_heartbeat_t`; the RSSI byte is kept as it is on the air. -/
structure Heartbeat where
  uptimeSeconds : UInt32
  expectedContactIntervalSeconds : UInt32
  parentMac : Mac
  directChildCount : UInt8
  totalChildCount : Nat
  remoteRssiDbm : UInt8

namespace Heartbeat

def size : Nat := 18

def bytes (h : Heartbeat) : Bytes :=
  leEncode 4 h.uptimeSeconds.toNat ++ (leEncode 4 h.expectedContactIntervalSeconds.toNat ++
    (h.parentMac.bytes ++ ([h.directChildCount] ++ (leEncode 2 h.totalChildCount ++
      [h.remoteRssiDbm]))))

def parse (b : Bytes) : Heartbeat where
  uptimeSeconds := word32At b 0
  expectedContactIntervalSeconds := word32At b 4
  parentMac := Octets.fit 6 (b.drop 8)
  directChildCount := byteAt b 14
  totalChildCount := leDecode ((b.drop 15).take 2)
  remoteRssiDbm := byteAt b 17

end Heartbeat

/-- `espnow_ack_t`. -/
structure Ack where
  ackType : UInt8
  result : UInt8
  refTxCounter : UInt32

namespace Ack

def size : Nat := 6

def bytes (a : Ack) : Bytes := [a.ackType, a.result] ++ leEncode 4 a.refTxCounter.toNat

def parse (b : Bytes) : Ack := ⟨byteAt b 0, byteAt b 1, word32At b 2⟩

@[simp] theorem length_bytes (a : Ack) : a.bytes.length = size := by
  simp [bytes, size]

/-- An acknowledgement is read from the front of a payload that goes on with its answer. -/
@[simp] theorem parse_bytes_append (a : Ack) (rest : Bytes) : parse (a.bytes ++ rest) = a := by
  have hword : word32At (a.bytes ++ rest) 2 = a.refTxCounter := by
    rw [bytes, List.append_assoc]
    exact word32At_append rfl _ _
  simp only [parse, hword]
  simp [byteAt, bytes]

@[simp] theorem parse_bytes (a : Ack) : parse a.bytes = a := by
  simpa using parse_bytes_append a []

end Ack

def ackState : UInt8 := 0x04
def ackCommand : UInt8 := 0x06

/-- `espnow_config_t` and what follows it: command, flags and length, then the payload. -/
def configBytes (command : UInt8) (payload : Bytes) : Bytes :=
  [command, 0, UInt8.ofNat payload.length] ++ payload

/-- `espnow_schema_request_t`. -/
structure SchemaRequest where
  descriptorType : UInt8
  descriptorIndex : UInt8

namespace SchemaRequest

def size : Nat := 2

def bytes (r : SchemaRequest) : Bytes := [r.descriptorType, r.descriptorIndex]

def parse (b : Bytes) : SchemaRequest := ⟨byteAt b 0, byteAt b 1⟩

end SchemaRequest

/-- `ESPNOW_DESCRIPTOR_TYPE_IDENTITY`. -/
def descriptorTypeIdentity : UInt8 := 0
/-- `ESPNOW_DESCRIPTOR_TYPE_ENTITY`. -/
def descriptorTypeEntity : UInt8 := 1

/-! ## Entities and their schema -/

/-- The `FIELD_TYPE_*` codes that the protocol code tells apart. -/
def fieldTypeText : UInt8 := 0x06
def fieldTypeEvent : UInt8 := 0x0E
def fieldTypeTextSensor : UInt8 := 0x14

/-- `espnow_entity_schema_t`. -/
structure EntitySchema where
  entityIndex : UInt8 := 0
  entityType : UInt8 := 0
  entityName : Bytes := []
  entityUnit : Bytes := []
  entityOptions : Bytes := []
  entityId : Bytes := []
  deriving DecidableEq

/-- `append_schema_push_payload`; `options` is what the caller passes, with or without the
terminating zero. -/
def schemaPushPayload (totalEntities : UInt8) (schema : EntitySchema) (index : UInt8)
    (options : Bytes) : Bytes :=
  [descriptorTypeEntity, index, index, totalEntities, schema.entityType] ++
    ((fixedField 32 schema.entityName).bytes ++ ((fixedField 8 schema.entityUnit).bytes ++
      ((fixedField 32 schema.entityId).bytes ++ options)))

/-- `sizeof(espnow_schema_push_t)`. -/
def schemaPushSize : Nat := 77
/-- `sizeof(espnow_identity_push_t)`. -/
def identityPushSize : Nat := 205

/-- What a leaf says about itself (`append_identity_descriptor_payload`). -/
structure Identity where
  esphomeName : Bytes := []
  nodeLabel : Bytes := []
  firmwareEpoch : UInt32 := 0
  projectName : Bytes := []
  projectVersion : Bytes := []
  chipModel : UInt32 := 0
  buildDate : Bytes := []
  buildTime : Bytes := []
  firmwareMd5 : Octets 16 := Octets.zero 16
  deriving DecidableEq

/-- `append_identity_descriptor_payload`. -/
def identityPayload (i : Identity) (totalEntities : UInt8) (maxFramePayload : Nat) : Bytes :=
  [descriptorTypeIdentity, 0] ++ ((fixedField 32 i.esphomeName).bytes ++
    ((fixedField 64 i.nodeLabel).bytes ++ (leEncode 4 i.firmwareEpoch.toNat ++
      ((fixedField 32 i.projectName).bytes ++ ((fixedField 16 i.projectVersion).bytes ++
        ([totalEntities] ++ (leEncode 2 maxFramePayload ++ (leEncode 4 i.chipModel.toNat ++
          ((fixedField 16 i.buildDate).bytes ++ ((fixedField 16 i.buildTime).bytes ++
            i.firmwareMd5.bytes))))))))))

/-! ## Entity fragments -/

/-- `EntityPayloadView`. -/
structure EntityPayload where
  entityIndex : UInt8
  flags : UInt8
  fragmentIndex : UInt8
  fragmentCount : UInt8
  value : Bytes
  deriving DecidableEq

/-- `ESPNOW_ENTITY_FLAG_MORE_FRAGMENTS`. -/
def flagMoreFragments : UInt8 := 0x01
/-- `ESPNOW_ENTITY_FLAG_MORE_DIRTY`. -/
def flagMoreDirty : UInt8 := 0x02

namespace EntityPayload

/-- `append_entity_payload`. -/
def bytes (p : EntityPayload) : Bytes :=
  [p.entityIndex, p.flags, p.fragmentIndex, if p.fragmentCount == 0 then 1 else p.fragmentCount,
    UInt8.ofNat p.value.length] ++ p.value

/-- `parse_entity_payload`; the length byte is not read. -/
def parse (b : Bytes) : Option EntityPayload :=
  if b.length < entityPacketHeaderLen then none
  else if byteAt b 3 = 0 then none
  else if byteAt b 3 ≤ byteAt b 2 then none
  else some ⟨byteAt b 0, byteAt b 1, byteAt b 2, byteAt b 3, b.drop entityPacketHeaderLen⟩

theorem length_bytes (p : EntityPayload) :
    p.bytes.length = entityPacketHeaderLen + p.value.length := by
  simp [bytes, entityPacketHeaderLen]
  omega

/-- A fragment whose index is in range is read back. -/
theorem parse_bytes {p : EntityPayload} (h : p.fragmentIndex < p.fragmentCount) :
    parse p.bytes = some p := by
  have hne : p.fragmentCount ≠ 0 := by
    rintro h0
    rw [h0] at h
    exact absurd h (by simp [UInt8.lt_iff_toNat_lt])
  have hcount : (if p.fragmentCount == 0 then 1 else p.fragmentCount) = p.fragmentCount := by
    simp [hne]
  rw [parse, if_neg (by rw [length_bytes]; omega)]
  simp only [byteAt, bytes, hcount, entityPacketHeaderLen, List.cons_append, List.nil_append,
    List.getD_cons_zero, List.getD_cons_succ, List.drop_succ_cons, List.drop_zero]
  rw [if_neg hne, if_neg (UInt8.not_le.mpr h)]

/-- What is read has its index in range. -/
theorem parse_eq_some {b : Bytes} {p : EntityPayload} (h : parse b = some p) :
    p.fragmentIndex < p.fragmentCount := by
  rw [parse] at h
  split_ifs at h with h₁ h₂ h₃
  obtain rfl := Option.some.inj h
  exact UInt8.not_le.mp h₃

end EntityPayload

def fragmentMessageTxBase (txCounter : UInt32) (p : EntityPayload) : UInt32 :=
  txCounter - UInt32.ofNat p.fragmentIndex.toNat

/-- Number of fragments that a value is sent in: at least one. -/
def chunkCount (len fragSize : Nat) : Nat := max 1 ((len + fragSize - 1) / fragSize)

end EspTree
