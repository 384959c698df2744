import EspTree.Lib.Bytes

/-!
# Wire constants, packet types and the frame header

The data of `esp_tree_common/espnow_types.h`: the packed 17-byte frame header, the
packet types, the encoding of the hop byte and the size limits that encoders and
decoders share.  Structures of the wire format are packed and little-endian, so a
header is modelled together with its bytes (`Header.bytes`, `Header.parse`).

The hop byte has the direction in its highest bit, the mark of the parent extension in the next, and
a count in its lowest four.  `Header.bytes` and `Header.parse` are inverse to each other on seventeen
bytes (`parse_bytes_append`, `bytes_parse`).  `tagged` is the part of the header that both tags
cover: the type, the address of the leaf and the counter.  The hop byte and the version are left out,
which is why a relay can count a hop without the session key, and why nobody can tell from a tag in
which direction a frame was sent.
-/

namespace EspTree

open Wire

/-- A six-byte hardware address. -/
abbrev Mac := Octets 6

/-- `ESPNOW_PROTOCOL_VER`. -/
def protocolVer : UInt8 := 3
/-- `sizeof(espnow_frame_header_t)`, which is also `ESPNOW_HEADER_WITH_PSK_TAG_LEN`. -/
def headerLen : Nat := 17
/-- `ESPNOW_SESSION_TAG_LEN`. -/
def sessionTagLen : Nat := 8
/-- `ESPNOW_PARENT_MAC_LEN`. -/
def parentMacLen : Nat := 6
/-- `ESPNOW_V1_MAX_PAYLOAD`. -/
def v1MaxPayload : Nat := 250
/-- `ESPNOW_V2_MAX_PAYLOAD`. -/
def v2MaxPayload : Nat := 1470
/-- `ESPNOW_ENTITY_PACKET_HEADER_LEN`. -/
def entityPacketHeaderLen : Nat := 5

/-! ## Packet types -/

/-- `espnow_packet_type_t`. -/
inductive PacketType
  | discover | discoverAnnounce | join | joinAck | state | ack | command | config
  | schemaRequest | schemaPush | heartbeat | deauth | fileTransfer | fileData
  deriving DecidableEq, Repr

namespace PacketType

/-- The byte on the wire. -/
def code : PacketType → UInt8
  | discover => 0x00
  | discoverAnnounce => 0x01
  | join => 0x02
  | joinAck => 0x03
  | state => 0x04
  | ack => 0x05
  | command => 0x06
  | config => 0x07
  | schemaRequest => 0x08
  | schemaPush => 0x09
  | heartbeat => 0x10
  | deauth => 0x11
  | fileTransfer => 0x12
  | fileData => 0x13

/-- The packet type of a byte.  `is_valid_packet_type` is `(ofCode? b).isSome`. -/
def ofCode? (b : UInt8) : Option PacketType :=
  [discover, discoverAnnounce, join, joinAck, state, ack, command, config, schemaRequest,
    schemaPush, heartbeat, deauth, fileTransfer, fileData].find? (fun t => t.code == b)

/-- Every packet type is read back from its code. -/
@[simp] theorem ofCode?_code (t : PacketType) : ofCode? t.code = some t := by
  cases t <;> rfl

/-- `is_encrypted_packet`. -/
def isEncrypted : PacketType → Bool
  | state | ack | command | config | schemaRequest | schemaPush | heartbeat | fileTransfer
  | fileData => true
  | discover | discoverAnnounce | join | joinAck | deauth => false

/-- A byte is read as a packet type only if it is the code of that type. -/
theorem code_of_ofCode? {b : UInt8} {t : PacketType} (h : ofCode? b = some t) : t.code = b := by
  simpa using List.find?_some h

end PacketType

def isValidPacketType (b : UInt8) : Bool := (PacketType.ofCode? b).isSome

/-- `is_encrypted_packet` on the raw byte of a header. -/
def isEncryptedPacket (b : UInt8) : Bool := (PacketType.ofCode? b).any PacketType.isEncrypted

@[simp] theorem isValidPacketType_code (t : PacketType) : isValidPacketType t.code := by
  simp [isValidPacketType]

@[simp] theorem isEncryptedPacket_code (t : PacketType) :
    isEncryptedPacket t.code = t.isEncrypted := by
  simp [isEncryptedPacket]

/-! ## The hop byte -/

/-- `ESPNOW_HOPS_DIR_BIT`, which is also `ESPNOW_HOPS_DIR_DOWN`. -/
def hopsDirBit : UInt8 := 0x80
/-- `ESPNOW_HOPS_PARENT_CHECK_BIT`. -/
def hopsParentCheckBit : UInt8 := 0x40
/-- `ESPNOW_HOPS_COUNT_MASK`. -/
def hopsCountMask : UInt8 := 0x0F

/-- `ESPNOW_HOPS_IS_UPSTREAM`. -/
def hopsIsUpstream (h : UInt8) : Bool := h &&& hopsDirBit == 0
/-- `ESPNOW_HOPS_COUNT`. -/
def hopsCount (h : UInt8) : UInt8 := h &&& hopsCountMask
/-- `ESPNOW_HOPS_MAKE`. -/
def hopsMake (dir count : UInt8) : UInt8 := (dir &&& hopsDirBit) ||| (count &&& hopsCountMask)
/-- The test every parser and every relay makes on bit 6. -/
def hasParentCheck (h : UInt8) : Bool := h &&& hopsParentCheckBit != 0

/-! ## Size limits -/

/-- `espnow_max_plaintext`.  The subtraction is on `uint16_t`; every session limit is
one of the two payload sizes, so it does not wrap. -/
def maxPlaintext (maxPayload : Nat) : Nat := maxPayload - headerLen - sessionTagLen
/-- `espnow_max_plaintext_with_parent`. -/
def maxPlaintextWithParent (maxPayload : Nat) : Nat :=
  maxPayload - headerLen - parentMacLen - sessionTagLen
/-- `espnow_max_entity_fragment`. -/
def maxEntityFragment (maxPayload : Nat) : Nat :=
  maxPlaintext maxPayload - entityPacketHeaderLen
/-- `espnow_max_assembly_bytes`. -/
def maxAssemblyBytes (maxPayload : Nat) : Nat := maxEntityFragment maxPayload * 6
/-- `espnow_max_total_fragment_bytes`. -/
def maxTotalFragmentBytes (maxPayload : Nat) : Nat := maxAssemblyBytes maxPayload * 4

/-! ## The frame header -/

/-- `espnow_frame_header_t`.  The packet type is kept as the raw byte: a parser reads it
before it knows that it is a valid one. -/
structure Header where
  protocolVersion : UInt8
  hopCount : UInt8
  packetType : UInt8
  leafMac : Mac
  txCounter : UInt32
  pskTag : Octets 4
  deriving DecidableEq

namespace Header

/-- The packed bytes of a header. -/
def bytes (h : Header) : Bytes :=
  [h.protocolVersion, h.hopCount, h.packetType] ++ h.leafMac.bytes ++
    leEncode 4 h.txCounter.toNat ++ h.pskTag.bytes

@[simp] theorem length_bytes (h : Header) : h.bytes.length = headerLen := by
  simp [bytes, headerLen]

/-- `memcpy(&header, frame, sizeof(header))`. -/
def parse (frame : Bytes) : Header where
  protocolVersion := frame.getD 0 0
  hopCount := frame.getD 1 0
  packetType := frame.getD 2 0
  leafMac := Octets.fit 6 (frame.drop 3)
  txCounter := UInt32.ofNat (leDecode (Octets.fit 4 (frame.drop 9)).bytes)
  pskTag := Octets.fit 4 (frame.drop 13)

/-- A header written at the start of a buffer is read back unchanged. -/
@[simp] theorem parse_bytes_append (h : Header) (rest : Bytes) : parse (h.bytes ++ rest) = h := by
  have h3 : (h.bytes ++ rest).drop 3 =
      h.leafMac.bytes ++ (leEncode 4 h.txCounter.toNat ++ (h.pskTag.bytes ++ rest)) := by
    simp [bytes]
  have h9 : (h.bytes ++ rest).drop 9 =
      leEncode 4 h.txCounter.toNat ++ (h.pskTag.bytes ++ rest) := by
    rw [show 9 = 3 + 6 from rfl, ← List.drop_drop, h3]
    exact List.drop_left' h.leafMac.length_bytes
  have h13 : (h.bytes ++ rest).drop 13 = h.pskTag.bytes ++ rest := by
    rw [show 13 = 9 + 4 from rfl, ← List.drop_drop, h9]
    exact List.drop_left' (length_leEncode _ _)
  have htx : (Octets.fit 4 ((h.bytes ++ rest).drop 9)).bytes = leEncode 4 h.txCounter.toNat := by
    rw [h9, Octets.bytes_fit (by simp)]
    exact List.take_left' (length_leEncode _ _)
  have hlt : h.txCounter.toNat % 256 ^ 4 = h.txCounter.toNat :=
    Nat.mod_eq_of_lt h.txCounter.toNat_lt
  rw [parse, htx, h3, h13, leDecode_leEncode, hlt]
  simp [bytes]

/-- A header is exactly the first bytes of the buffer it was read from. -/
theorem bytes_parse {frame : Bytes} (h : headerLen ≤ frame.length) :
    (parse frame).bytes = frame.take headerLen := by
  simp only [headerLen] at h
  have hfirst : [frame.getD 0 0, frame.getD 1 0, frame.getD 2 0] = frame.take 3 := by
    match frame, h with
    | _ :: _ :: _ :: _, _ => rfl
  have hlong (k n : Nat) (hkn : k + n ≤ 17) : n ≤ (frame.drop k).length := by
    rw [List.length_drop]
    omega
  have htx : leEncode 4 (parse frame).txCounter.toNat = (frame.drop 9).take 4 := by
    have hbytes : (Octets.fit 4 (frame.drop 9)).bytes = (frame.drop 9).take 4 :=
      Octets.bytes_fit (hlong 9 4 (by omega))
    have hlt := leDecode_lt ((frame.drop 9).take 4)
    rw [List.length_take, Nat.min_eq_left (hlong 9 4 (by omega))] at hlt
    simp only [parse, hbytes, UInt32.toNat_ofNat']
    rw [Nat.mod_eq_of_lt (show leDecode ((frame.drop 9).take 4) < 2 ^ 32 from hlt)]
    have hround := leEncode_leDecode ((frame.drop 9).take 4)
    rwa [List.length_take, Nat.min_eq_left (hlong 9 4 (by omega))] at hround
  rw [bytes, htx]
  simp only [parse, headerLen]
  rw [hfirst, Octets.bytes_fit (hlong 3 6 (by omega)), Octets.bytes_fit (hlong 13 4 (by omega)),
    show (17 : Nat) = 3 + 6 + 4 + 4 from rfl, List.take_add, List.take_add, List.take_add]

/-- The bytes 2..12 that both tags cover: packet type, leaf address and counter, but
neither the protocol version nor the hop byte. -/
def tagged (h : Header) : Bytes := (h.bytes.drop 2).take 11

/-- The bytes of a header that a tag covers: neither the version nor the hop byte is among them. -/
theorem tagged_eq (h : Header) :
    h.tagged = h.packetType :: (h.leafMac.bytes ++ leEncode 4 h.txCounter.toNat) := by
  have hlen : (h.packetType :: (h.leafMac.bytes ++ leEncode 4 h.txCounter.toNat)).length = 11 := by
    simp
  have hsplit : h.bytes.drop 2 =
      (h.packetType :: (h.leafMac.bytes ++ leEncode 4 h.txCounter.toNat)) ++ h.pskTag.bytes := by
    simp [bytes]
  rw [tagged, hsplit, List.take_left' hlen]

end Header

end EspTree
