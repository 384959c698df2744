import EspTree.Crypto

/-!
# Frames

The layout of a frame on the air and its one parser: `parse_frame_` has the same body in
the leaf, in the ESP82xx leaf and in the bridge, except that the bridge also checks the
PSK tag there.

* `Frame` is a frame taken apart, `Frame.bytes` puts it together again;
* `Frame.WellFormed` says which frames a parser accepts, and the two theorems
  `parseFrame_bytes` and `parseFrame_eq_some` say that parsing and serialising are inverse
  to each other on them;
* `sealed` and `plain` are the two ways in which all encoders fill the tags.

The parser goes by the hop byte for the extension and by the type for the session tag, and takes the
rest as the payload.  Which length a payload should have is left to those who handle the frame, and
so is the limit of a session; the parser only knows the largest frame that there is.  It looks at no
key.
-/

namespace EspTree

open Wire

/-- A frame taken apart.  The source returns a zero parent address when the extension is
absent; here the extension is optional. -/
structure Frame where
  header : Header
  parentMac : Option Mac
  payload : Bytes
  sessionTag : Option (Octets 8)
  deriving DecidableEq

/-- The bytes of an optional field. -/
def optBytes {n : Nat} (o : Option (Octets n)) : Bytes := (o.map Octets.bytes).getD []

@[simp] theorem optBytes_none {n : Nat} : optBytes (none : Option (Octets n)) = [] := rfl

@[simp] theorem optBytes_some {n : Nat} (o : Octets n) : optBytes (some o) = o.bytes := rfl

/-- `sizeof(espnow_frame_header_t)` plus the parent extension that the hop byte asks for. -/
def headerSize (hop : UInt8) : Nat := headerLen + if hasParentCheck hop then parentMacLen else 0

def parseFrame (frame : Bytes) : Option Frame :=
  if frame.length < headerLen then none
  else if v2MaxPayload < frame.length then none
  else
    let header := Header.parse frame
    if header.protocolVersion ≠ protocolVer then none
    else if ¬ isValidPacketType header.packetType then none
    else if frame.length < headerSize header.hopCount then none
    else
      let parentMac :=
        if hasParentCheck header.hopCount then some (Octets.fit 6 (frame.drop headerLen)) else none
      let body := frame.drop (headerSize header.hopCount)
      if isEncryptedPacket header.packetType then
        if body.length < sessionTagLen then none
        else some ⟨header, parentMac, body.take (body.length - sessionTagLen),
          some (Octets.fit 8 (body.drop (body.length - sessionTagLen)))⟩
      else some ⟨header, parentMac, body, none⟩

namespace Frame

/-- The packet type, once the header has passed the parser. -/
def type? (f : Frame) : Option PacketType := PacketType.ofCode? f.header.packetType

/-- The bytes on the air. -/
def bytes (f : Frame) : Bytes :=
  f.header.bytes ++ (optBytes f.parentMac ++ (f.payload ++ optBytes f.sessionTag))

/-- What every parser checks before it looks at a tag. -/
structure WellFormed (f : Frame) : Prop where
  version : f.header.protocolVersion = protocolVer
  type : isValidPacketType f.header.packetType
  parent : f.parentMac.isSome = hasParentCheck f.header.hopCount
  tag : f.sessionTag.isSome = isEncryptedPacket f.header.packetType
  fits : f.bytes.length ≤ v2MaxPayload

/-- The extension and the session tag are there or not, and the rest has its fixed size. -/
theorem length_bytes (f : Frame) :
    f.bytes.length = headerLen + (optBytes f.parentMac).length + f.payload.length +
      (optBytes f.sessionTag).length := by
  simp [bytes, Nat.add_assoc]

/-- The extension takes the space that the hop byte announces. -/
theorem WellFormed.length_parent {f : Frame} (h : f.WellFormed) :
    headerLen + (optBytes f.parentMac).length = headerSize f.header.hopCount := by
  have hp := h.parent
  cases hm : f.parentMac with
  | none => simp [headerSize, ← hp, hm]
  | some m => simp [headerSize, ← hp, hm, parentMacLen]

/-- After the header, as long as the hop byte says, come the payload and the tag. -/
theorem WellFormed.drop_bytes {f : Frame} (h : f.WellFormed) :
    f.bytes.drop (headerSize f.header.hopCount) = f.payload ++ optBytes f.sessionTag := by
  have hlen : (f.header.bytes ++ optBytes f.parentMac).length = headerSize f.header.hopCount := by
    rw [List.length_append, Header.length_bytes, h.length_parent]
  rw [bytes, ← List.append_assoc, List.drop_left' hlen]

end Frame

/-- A serialised frame is parsed back. -/
theorem parseFrame_bytes {f : Frame} (h : f.WellFormed) : parseFrame f.bytes = some f := by
  have hlen := f.length_bytes
  have hsize := h.length_parent
  have hfits := h.fits
  have hhdr : Header.parse f.bytes = f.header := Header.parse_bytes_append _ _
  have hparent : (if hasParentCheck f.header.hopCount then
      some (Octets.fit 6 (f.bytes.drop headerLen)) else none) = f.parentMac := by
    have hp := h.parent
    cases hm : f.parentMac with
    | none => simp [← hp, hm]
    | some m =>
      have hdrop : f.bytes.drop headerLen = m.bytes ++ (f.payload ++ optBytes f.sessionTag) := by
        rw [Frame.bytes, List.drop_left' (Header.length_bytes _), hm, optBytes_some]
      rw [← hp, hm, hdrop]
      simp
  unfold parseFrame
  rw [if_neg (by omega), if_neg (by omega)]
  dsimp only
  rw [hhdr, if_neg (not_not.mpr h.version), if_neg (not_not.mpr h.type), if_neg (by omega),
    hparent, h.drop_bytes]
  have htag := h.tag
  cases ht : f.sessionTag with
  | none =>
    rw [if_neg (by simp [← htag, ht])]
    obtain ⟨header, parentMac, payload, sessionTag⟩ := f
    cases ht
    simp
  | some t =>
    rw [if_pos (by simp [← htag, ht]), if_neg (by simp [sessionTagLen])]
    obtain ⟨header, parentMac, payload, sessionTag⟩ := f
    cases ht
    simp [sessionTagLen]

/-- What the parser accepts is well formed, and nothing of it is lost. -/
theorem parseFrame_eq_some {b : Bytes} {f : Frame} (h : parseFrame b = some f) :
    f.WellFormed ∧ f.bytes = b := by
  unfold parseFrame at h
  split at h
  · cases h
  next hlen =>
  split at h
  · cases h
  next hmax =>
  dsimp only at h
  split at h
  · cases h
  next hver =>
  split at h
  · cases h
  next htype =>
  split at h
  · cases h
  next hsize =>
  set header := Header.parse b with hheader
  have hbytes : header.bytes ++ b.drop headerLen = b := by
    rw [hheader, Header.bytes_parse (by omega), List.take_append_drop]
  set pm := (if hasParentCheck header.hopCount then
    some (Octets.fit 6 (b.drop headerLen)) else none) with hpm
  have hpm_some : pm.isSome = hasParentCheck header.hopCount := by
    rw [hpm]
    cases hasParentCheck header.hopCount <;> rfl
  have hbody : optBytes pm ++ b.drop (headerSize header.hopCount) = b.drop headerLen := by
    rw [hpm]
    cases hc : hasParentCheck header.hopCount with
    | false => simp [headerSize, hc]
    | true =>
      have hlong : 6 ≤ (b.drop headerLen).length := by
        simp only [headerSize, hc, parentMacLen, if_true] at hsize
        rw [List.length_drop]
        omega
      simp only [if_true, optBytes_some, headerSize, hc, parentMacLen]
      rw [Octets.bytes_fit hlong, ← List.drop_drop, List.take_append_drop]
  split at h
  next henc =>
    split at h
    · cases h
    next htag =>
    obtain rfl := Option.some.inj h
    set body := b.drop (headerSize header.hopCount)
    have hsplit : body.take (body.length - sessionTagLen) ++
        (Octets.fit 8 (body.drop (body.length - sessionTagLen))).bytes = body := by
      have hlen : (body.drop (body.length - sessionTagLen)).length = 8 := by
        rw [List.length_drop]
        simp only [sessionTagLen] at htag ⊢
        omega
      have htail : (Octets.fit 8 (body.drop (body.length - sessionTagLen))).bytes =
          body.drop (body.length - sessionTagLen) := by
        rw [Octets.bytes_fit hlen.ge, List.take_of_length_le hlen.le]
      rw [htail, List.take_append_drop]
    have hall : Frame.bytes ⟨header, pm, body.take (body.length - sessionTagLen),
        some (Octets.fit 8 (body.drop (body.length - sessionTagLen)))⟩ = b := by
      rw [Frame.bytes]
      simp only [optBytes_some]
      rw [hsplit, hbody, hbytes]
    exact ⟨⟨not_not.mp hver, not_not.mp htype, hpm_some, henc.symm, by rw [hall]; omega⟩, hall⟩
  next henc =>
    obtain rfl := Option.some.inj h
    have hall : Frame.bytes ⟨header, pm, b.drop (headerSize header.hopCount), none⟩ = b := by
      rw [Frame.bytes]
      simp only [optBytes_none, List.append_nil]
      rw [hbody, hbytes]
    refine ⟨⟨not_not.mp hver, not_not.mp htype, hpm_some, ?_, by rw [hall]; omega⟩, hall⟩
    simpa using henc

/-! ## Filling the tags -/

section Encode

variable (c : Crypto)

/-- The header that an encoder writes before it computes the PSK tag over `payload`. -/
def encodeHeader (leafMac : Mac) (type : PacketType) (hop : UInt8) (txCounter : UInt32)
    (payload : Bytes) : Header :=
  let header : Header := ⟨protocolVer, hop, type.code, leafMac, txCounter, Octets.zero 4⟩
  { header with pskTag := c.pskTag header payload }

/-- A frame without session tag. -/
def plain (leafMac : Mac) (type : PacketType) (hop : UInt8) (txCounter : UInt32)
    (parentMac : Option Mac) (payload : Bytes) : Frame where
  header := encodeHeader c leafMac type hop txCounter payload
  parentMac := parentMac
  payload := payload
  sessionTag := none

/-- A frame whose payload is already encrypted under `key`. -/
def sealed (key : SessionKey) (leafMac : Mac) (type : PacketType) (hop : UInt8)
    (txCounter : UInt32) (parentMac : Option Mac) (ciphertext : Bytes) : Frame where
  header := encodeHeader c leafMac type hop txCounter ciphertext
  parentMac := parentMac
  payload := ciphertext
  sessionTag := some (c.sessionTag key (encodeHeader c leafMac type hop txCounter ciphertext)
    ciphertext)

def validatePsk (f : Frame) : Bool := c.verifyPskTag f.header f.payload f.header.pskTag

/-- The session-tag check of `validate_session_` and `validate_session_packet_`, for a
valid key: a frame without tag fails. -/
def validateTag (key : SessionKey) (f : Frame) : Bool :=
  f.sessionTag.any (c.verifySessionTag key f.header f.payload)

variable {c}

/-- What is tagged of a header that an encoder has filled in. -/
theorem encodeHeader_tagged (leafMac : Mac) (type : PacketType) (hop : UInt8) (tx : UInt32)
    (payload : Bytes) :
    (encodeHeader c leafMac type hop tx payload).tagged =
      type.code :: (leafMac.bytes ++ leEncode 4 tx.toNat) := by
  rw [Header.tagged_eq]
  rfl

/-- The PSK tag that an encoder writes is the one that a parser expects. -/
theorem verifyPskTag_encodeHeader (hpsk : c.psk.isSome) (leafMac : Mac) (type : PacketType)
    (hop : UInt8) (tx : UInt32) (payload : Bytes) :
    c.verifyPskTag (encodeHeader c leafMac type hop tx payload) payload
      (encodeHeader c leafMac type hop tx payload).pskTag := by
  rw [Crypto.verifyPskTag, hpsk, Bool.true_and, beq_iff_eq]
  refine Crypto.pskTag_congr ?_ payload
  rw [encodeHeader_tagged, Header.tagged_eq]

/-- A frame without a session tag is accepted by the parsers as long as it fits. -/
theorem plain_wellFormed {leafMac : Mac} {type : PacketType} {hop : UInt8} {tx : UInt32}
    {parentMac : Option Mac} {payload : Bytes} (htype : type.isEncrypted = false)
    (hparent : parentMac.isSome = hasParentCheck hop)
    (hfits : headerSize hop + payload.length ≤ v2MaxPayload) :
    (plain c leafMac type hop tx parentMac payload).WellFormed where
  version := rfl
  type := isValidPacketType_code type
  parent := hparent
  tag := by
    simp only [plain, encodeHeader, isEncryptedPacket_code, htype]
    rfl
  fits := by
    rw [Frame.length_bytes]
    have : (optBytes parentMac).length = if hasParentCheck hop then parentMacLen else 0 := by
      cases parentMac with
      | none => simp [← hparent]
      | some m => simp [← hparent, parentMacLen]
    simp only [plain, this, optBytes_none, List.length_nil]
    simp only [headerSize] at hfits
    omega

theorem length_sealed {key : SessionKey} {leafMac : Mac} {type : PacketType} {hop : UInt8}
    {tx : UInt32} {parentMac : Option Mac} {ciphertext : Bytes}
    (hparent : parentMac.isSome = hasParentCheck hop) :
    (sealed c key leafMac type hop tx parentMac ciphertext).bytes.length =
      headerSize hop + ciphertext.length + sessionTagLen := by
  rw [Frame.length_bytes]
  have : (optBytes parentMac).length = if hasParentCheck hop then parentMacLen else 0 := by
    cases parentMac with
    | none => simp [← hparent]
    | some m => simp [← hparent, parentMacLen]
  simp only [sealed, this, optBytes_some, Octets.length_bytes, headerSize, sessionTagLen]

/-- So is a sealed one, if its extension is there exactly when the hop byte says so. -/
theorem sealed_wellFormed {key : SessionKey} {leafMac : Mac} {type : PacketType} {hop : UInt8}
    {tx : UInt32} {parentMac : Option Mac} {ciphertext : Bytes} (htype : type.isEncrypted)
    (hparent : parentMac.isSome = hasParentCheck hop)
    (hfits : headerSize hop + ciphertext.length + sessionTagLen ≤ v2MaxPayload) :
    (sealed c key leafMac type hop tx parentMac ciphertext).WellFormed where
  version := rfl
  type := isValidPacketType_code type
  parent := hparent
  tag := by
    simp only [sealed, encodeHeader, isEncryptedPacket_code, htype]
    rfl
  fits := by rwa [length_sealed hparent]

/-- A sealed frame passes the test of the pre-shared key, whatever its hop byte. -/
theorem validatePsk_sealed (hpsk : c.psk.isSome) (key : SessionKey) (leafMac : Mac)
    (type : PacketType) (hop : UInt8) (tx : UInt32) (parentMac : Option Mac) (ciphertext : Bytes) :
    validatePsk c (sealed c key leafMac type hop tx parentMac ciphertext) :=
  verifyPskTag_encodeHeader hpsk leafMac type hop tx ciphertext

/-- It passes the test of the session tag under the key that it was sealed with. -/
theorem validateTag_sealed (key : SessionKey) (leafMac : Mac) (type : PacketType) (hop : UInt8)
    (tx : UInt32) (parentMac : Option Mac) (ciphertext : Bytes) :
    validateTag c key (sealed c key leafMac type hop tx parentMac ciphertext) := by
  simp [validateTag, sealed, Crypto.verifySessionTag]

end Encode

end EspTree
