import EspTree.Bridge.Handlers
import EspTree.Remote.Handlers

/-!
# Encoders and decoders agree

Four encoders build encrypted frames: two in the bridge, `send_frame_` of the ESP32 leaf and
`send_frame_` of the ESP82xx leaf, which is the only one that writes the parent extension.
Two decoders read them.  `Remote.Reads` and `Bridge.Session.Reads` say that a decoder accepts a frame
and gets a plaintext out of it.

The encoders of bridge and ESP32 leaf never write the extension, so they are for hop bytes
without the `PARENT_CHECK` bit; their callers only make such hop bytes.

`codec_agreement` goes through the encoders one by one.  The lengths have to be right for the
receiver that is meant, the tag has to be the one that this receiver computes, and the plaintext
comes back since encrypting twice does nothing.  A leaf and its bridge need the same keys, and a
session that takes frames of this size.

`sendEncrypted_parentCheck_refused` is the case that is left out, as a fact about the encoder of the
bridge: with the bit in its hop byte it would make a frame that no decoder reads.
-/

namespace EspTree

open Wire

/-- The two values that `session_max_payload` takes. -/
def SessionLimit (n : Nat) : Prop := n = v1MaxPayload ∨ n = v2MaxPayload

theorem SessionLimit.bounds {n : Nat} (h : SessionLimit n) : 250 ≤ n ∧ n ≤ v2MaxPayload := by
  rcases h with rfl | rfl <;> decide

/-! ## The ESP82xx encoder -/

namespace Esp82xx

/-- What the `send_frame_` of `espnow_82xx_remote/remote_protocol.cpp` reads of its leaf. -/
structure Leaf where
  leafMac : Mac
  parentMac : Mac
  sessionKey : SessionKey
  sessionMaxPayload : Nat

/-- The frame that `send_frame_` hands to `send_fn_` for an encrypted payload: the parent
address follows the header when the hop byte says so, and the size limits shrink with it. -/
def sendFrame (c : Crypto) (l : Leaf) (type : PacketType) (hop : UInt8) (tx : UInt32)
    (payload : Bytes) : Option Frame :=
  let parentMacSize := if hasParentCheck hop then parentMacLen else 0
  let totalOverhead := headerLen + parentMacSize + sessionTagLen
  if l.sessionMaxPayload - totalOverhead < payload.length then none
  else if hasParentCheck hop ∧ maxPlaintextWithParent l.sessionMaxPayload < payload.length then none
  else if ¬ hasParentCheck hop ∧ maxPlaintext l.sessionMaxPayload < payload.length then none
  else (c.crypt l.sessionKey tx payload).map
    (sealed c l.sessionKey l.leafMac type hop tx (if hasParentCheck hop then some l.parentMac else none))

end Esp82xx

/-! ## Decoders -/

/-- The leaf accepts the frame as `f`, through `parse_frame_`, `validate_psk_` and
`validate_session_`, and decrypts it to `plaintext`. -/
def Remote.Reads {η : Type} (P : Remote.Platform η) (r : Remote η) (frame : Bytes)
    (plaintext : Bytes) : Prop :=
  ∃ f, parseFrame frame = some f ∧ validatePsk P.crypto f ∧ r.openFrame P f = some plaintext

/-- The bridge accepts the frame, through `parse_frame_` and `validate_session_packet_`, and
decrypts it to `plaintext`. -/
def Bridge.Session.Reads (c : Crypto) (x : Bridge.Session) (frame : Bytes) (plaintext : Bytes) :
    Prop :=
  ∃ f, Bridge.parsePacket c frame = some f ∧ Bridge.validateSessionPacket c x f = some plaintext

section

variable {c : Crypto} {key : SessionKey} {leafMac : Mac} {type : PacketType} {hop : UInt8}
  {tx : UInt32} {parentMac : Option Mac} {plaintext : Bytes}

/-- A sealed frame of legal size is well formed. -/
theorem sealed_crypt_wellFormed (htype : type.isEncrypted)
    (hparent : parentMac.isSome = hasParentCheck hop)
    (hfits : headerSize hop + plaintext.length + sessionTagLen ≤ v2MaxPayload) :
    (sealed c key leafMac type hop tx parentMac (c.aes256CtrCrypt key tx plaintext)).WellFormed :=
  sealed_wellFormed htype hparent (by rwa [Crypto.length_aes256CtrCrypt])

/-- Decrypting the payload of a sealed frame gives the plaintext back. -/
theorem crypt_crypt (hpsk : c.psk.isSome) (key : SessionKey) (tx : UInt32) (plaintext : Bytes) :
    c.crypt key tx (c.aes256CtrCrypt key tx plaintext) = some plaintext := by
  rw [Crypto.crypt_of_psk hpsk, Crypto.aes256CtrCrypt_involutive]

variable (hpsk : c.psk.isSome) (htype : type.isEncrypted)
  (hparent : parentMac.isSome = hasParentCheck hop)
  (hfits : headerSize hop + plaintext.length + sessionTagLen ≤ v2MaxPayload)

include hpsk htype hparent hfits

/-- A leaf that holds the key reads a sealed frame. -/
theorem Remote.reads_sealed {η : Type} {P : Remote.Platform η} (hc : P.crypto = c) {r : Remote η}
    (hvalid : r.session.sessionKeyValid) (hkey : r.session.sessionKey = key) :
    r.Reads P (sealed c key leafMac type hop tx parentMac (c.aes256CtrCrypt key tx plaintext)).bytes
      plaintext := by
  subst hc hkey
  refine ⟨_, parseFrame_bytes (sealed_crypt_wellFormed htype hparent hfits),
    validatePsk_sealed hpsk _ _ _ _ _ _ _, ?_⟩
  rw [Remote.openFrame, if_pos (by
    simp only [Remote.validateSession, hvalid, Bool.true_and]
    exact validateTag_sealed _ _ _ _ _ _ _)]
  exact crypt_crypt hpsk _ _ _

/-- So does the bridge. -/
theorem Bridge.Session.reads_sealed {x : Bridge.Session} (hvalid : x.sessionKeyValid)
    (hkey : x.sessionKey = key) :
    x.Reads c (sealed c key leafMac type hop tx parentMac (c.aes256CtrCrypt key tx plaintext)).bytes
      plaintext := by
  subst hkey
  refine ⟨sealed c x.sessionKey leafMac type hop tx parentMac
    (c.aes256CtrCrypt x.sessionKey tx plaintext), ?_, ?_⟩
  · rw [Bridge.parsePacket, parseFrame_bytes (sealed_crypt_wellFormed htype hparent hfits)]
    exact Option.filter_some_pos (validatePsk_sealed hpsk _ _ _ _ _ _ _)
  · rw [Bridge.validateSessionPacket, if_pos ⟨hvalid, validateTag_sealed _ _ _ _ _ _ _⟩]
    exact crypt_crypt hpsk _ _ _

end

/-! ## The encoders -/

section

variable {hop : UInt8} {plaintext : Bytes}

/-- Without the extension a header has its fixed size. -/
theorem headerSize_of_plain (hhop : hasParentCheck hop = false) : headerSize hop = headerLen := by
  simp [headerSize, hhop]

/-- The limit on plaintexts leaves room for header and tag. -/
theorem fits_of_le {n : Nat} (hn : SessionLimit n) (hhop : hasParentCheck hop = false)
    (hlen : plaintext.length ≤ maxPlaintext n) :
    headerSize hop + plaintext.length + sessionTagLen ≤ n := by
  have := hn.bounds
  rw [headerSize_of_plain hhop]
  simp only [maxPlaintext, headerLen, sessionTagLen] at *
  omega

/-- What the encoder of the ESP82xx leaf lets through fits together with the extension. -/
theorem fits_of_le_parent {n : Nat} (hn : SessionLimit n) (hhop : hasParentCheck hop = true)
    (hlen : plaintext.length ≤ maxPlaintextWithParent n) :
    headerSize hop + plaintext.length + sessionTagLen ≤ n := by
  have := hn.bounds
  simp only [maxPlaintextWithParent, headerSize, hhop, headerLen, parentMacLen, sessionTagLen,
    if_true] at *
  omega

/-- The frame that the bridge seals under a given counter. -/
theorem Bridge.sealAndSend_effects {c : Crypto} (hpsk : c.psk.isSome) (e : Bridge.Env)
    (h : Bridge.Hub) (mac : Mac) (x : Bridge.Session) (type : PacketType) (hop : UInt8) (tx : UInt32)
    (plaintext : Bytes) :
    ∃ ok, (Bridge.sealAndSend c e h mac x type hop tx plaintext).1.effects =
      .send mac (sealed c x.sessionKey x.leafMac type hop tx none
        (c.aes256CtrCrypt x.sessionKey tx plaintext)).bytes ok ::
      .encrypt type x.sessionKey tx plaintext :: h.effects := by
  rw [Bridge.sealAndSend, Crypto.crypt_of_psk hpsk]
  exact ⟨_, rfl⟩

/-- The frame that the ESP32 leaf seals. -/
theorem Remote.sendSealed_effects {η : Type} {P : Remote.Platform η} (hpsk : P.crypto.psk.isSome)
    (e : Remote.Env) (s : Remote η) (mac : Mac) (type : PacketType) (hop : UInt8) (tx : UInt32)
    (hlen : plaintext.length ≤ maxPlaintext s.session.sessionMaxPayload) :
    ∃ ok, (s.sendSealed P e mac type hop tx plaintext).1.radio.effects =
      .send mac (sealed P.crypto s.session.sessionKey s.config.leafMac type hop tx none
        (P.crypto.aes256CtrCrypt s.session.sessionKey tx plaintext)).bytes ok ::
      .encrypt type s.session.sessionKey tx plaintext :: s.radio.effects := by
  rw [Remote.sendSealed, if_neg (Nat.not_lt.mpr hlen), Crypto.crypt_of_psk hpsk]
  exact ⟨_, rfl⟩

/-- The frame that the ESP82xx leaf seals. -/
theorem Esp82xx.sendFrame_eq {c : Crypto} (hpsk : c.psk.isSome) (l : Esp82xx.Leaf)
    (type : PacketType) (tx : UInt32) (hlen : plaintext.length ≤ if hasParentCheck hop then
      maxPlaintextWithParent l.sessionMaxPayload else maxPlaintext l.sessionMaxPayload) :
    Esp82xx.sendFrame c l type hop tx plaintext = some (sealed c l.sessionKey l.leafMac type hop tx
      (if hasParentCheck hop then some l.parentMac else none)
      (c.aes256CtrCrypt l.sessionKey tx plaintext)) := by
  rw [Esp82xx.sendFrame, Crypto.crypt_of_psk hpsk]
  cases hhop : hasParentCheck hop with
  | false =>
    simp only [hhop, Bool.false_eq_true, if_false, maxPlaintext] at hlen ⊢
    rw [if_neg (by omega), if_neg (by simp), if_neg (by simp; omega)]
    rfl
  | true =>
    simp only [hhop, if_true, maxPlaintextWithParent] at hlen ⊢
    rw [if_neg (by omega), if_neg (by simp; omega), if_neg (by simp)]
    rfl

/-- The frame codec agreement.  Whatever the primitives are, a frame sealed by one side of a
session is accepted by the other, decrypts to the plaintext that was sealed and is not longer
than the session allows: from the bridge by both of its encoders, and from the ESP32 leaf,
for every hop byte without the `PARENT_CHECK` bit; from the ESP82xx leaf for every hop byte,
where the bit takes the six bytes of the extension from the plaintext. -/
theorem codec_agreement {η : Type} (P : Remote.Platform η) (r : Remote η) (x : Bridge.Session)
    (l : Esp82xx.Leaf) (type : PacketType) (hop : UInt8) (tx : UInt32) (plaintext : Bytes)
    (hpsk : P.crypto.psk.isSome) (htype : type.isEncrypted)
    (hr : r.session.sessionKeyValid) (hx : x.sessionKeyValid)
    (hkey : r.session.sessionKey = x.sessionKey) (hlkey : l.sessionKey = x.sessionKey)
    (hxmax : SessionLimit x.sessionMaxPayload) (hrmax : SessionLimit r.session.sessionMaxPayload)
    (hlmax : SessionLimit l.sessionMaxPayload) :
    (∀ e h mac, hasParentCheck hop = false → plaintext.length ≤ maxPlaintext x.sessionMaxPayload →
      ∃ frame ok, (Bridge.sendEncrypted P.crypto e h mac x type hop plaintext).1.effects =
          .send mac frame ok :: .encrypt type x.sessionKey x.txCounter plaintext :: h.effects ∧
        frame.length ≤ x.sessionMaxPayload ∧ r.Reads P frame plaintext) ∧
    (∀ e h mac, hasParentCheck hop = false → plaintext.length ≤ maxPlaintext x.sessionMaxPayload →
      e.heapOk h.effects.length →
      ∃ frame ok, (Bridge.sendEncryptedWithTxCounterResult P.crypto e h mac x type hop tx
          plaintext).1.effects =
          .send mac frame ok :: .encrypt type x.sessionKey tx plaintext :: h.effects ∧
        frame.length ≤ x.sessionMaxPayload ∧ r.Reads P frame plaintext) ∧
    (∀ e mac, hasParentCheck hop = false →
      plaintext.length ≤ maxPlaintext r.session.sessionMaxPayload →
      ∃ frame ok, (r.sendSealed P e mac type hop tx plaintext).1.radio.effects =
          .send mac frame ok :: .encrypt type r.session.sessionKey tx plaintext :: r.radio.effects ∧
        frame.length ≤ r.session.sessionMaxPayload ∧ x.Reads P.crypto frame plaintext) ∧
    ((plaintext.length ≤ if hasParentCheck hop then maxPlaintextWithParent l.sessionMaxPayload
        else maxPlaintext l.sessionMaxPayload) →
      ∃ f, Esp82xx.sendFrame P.crypto l type hop tx plaintext = some f ∧
        f.bytes.length ≤ l.sessionMaxPayload ∧ x.Reads P.crypto f.bytes plaintext) := by
  have hlength (key : SessionKey) (leafMac : Mac) (tx : UInt32) (parentMac : Option Mac)
      (hp : parentMac.isSome = hasParentCheck hop) :
      (sealed P.crypto key leafMac type hop tx parentMac
        (P.crypto.aes256CtrCrypt key tx plaintext)).bytes.length =
        headerSize hop + plaintext.length + sessionTagLen := by
    rw [length_sealed hp, Crypto.length_aes256CtrCrypt]
  refine ⟨fun e h mac hhop hlen => ?_, fun e h mac hhop hlen hheap => ?_,
    fun e mac hhop hlen => ?_, fun hlen => ?_⟩
  · have hfits := fits_of_le hxmax hhop hlen
    have hnone : (none : Option Mac).isSome = hasParentCheck hop := hhop.symm
    have hsend : (Bridge.sendEncrypted P.crypto e h mac x type hop plaintext).1 =
        (Bridge.sealAndSend P.crypto e h mac x type hop x.txCounter plaintext).1 := by
      rw [Bridge.sendEncrypted, if_neg (not_not.mpr hx), if_neg (Nat.not_lt.mpr hlen)]
    obtain ⟨ok, heff⟩ := Bridge.sealAndSend_effects hpsk e h mac x type hop x.txCounter plaintext
    rw [hsend]
    exact ⟨_, ok, heff, (hlength _ _ _ none hnone).trans_le hfits,
      Remote.reads_sealed hpsk htype hnone (hfits.trans hxmax.bounds.2) rfl hr hkey⟩
  · have hfits := fits_of_le hxmax hhop hlen
    have hnone : (none : Option Mac).isSome = hasParentCheck hop := hhop.symm
    have hsend : Bridge.sendEncryptedWithTxCounterResult P.crypto e h mac x type hop tx plaintext =
        Bridge.sealAndSend P.crypto e h mac x type hop tx plaintext := by
      rw [Bridge.sendEncryptedWithTxCounterResult, if_neg (not_not.mpr hx),
        if_neg (Nat.not_lt.mpr hlen), if_neg (not_not.mpr hheap)]
    obtain ⟨ok, heff⟩ := Bridge.sealAndSend_effects hpsk e h mac x type hop tx plaintext
    rw [hsend]
    exact ⟨_, ok, heff, (hlength _ _ _ none hnone).trans_le hfits,
      Remote.reads_sealed hpsk htype hnone (hfits.trans hxmax.bounds.2) rfl hr hkey⟩
  · have hfits := fits_of_le hrmax hhop hlen
    obtain ⟨ok, heff⟩ := Remote.sendSealed_effects hpsk e r mac type hop tx hlen
    have hnone : (none : Option Mac).isSome = hasParentCheck hop := hhop.symm
    exact ⟨_, ok, heff, (hlength _ _ _ none hnone).trans_le hfits,
      Bridge.Session.reads_sealed hpsk htype hnone (hfits.trans hrmax.bounds.2) hx hkey.symm⟩
  · have hparent : (if hasParentCheck hop then some l.parentMac else none).isSome =
        hasParentCheck hop := by
      cases hasParentCheck hop <;> rfl
    have hfits : headerSize hop + plaintext.length + sessionTagLen ≤ l.sessionMaxPayload := by
      cases hhop : hasParentCheck hop with
      | false => exact fits_of_le hlmax hhop (by simpa [hhop] using hlen)
      | true => exact fits_of_le_parent hlmax hhop (by simpa [hhop] using hlen)
    exact ⟨_, Esp82xx.sendFrame_eq hpsk l type tx hlen, (hlength _ _ _ _ hparent).trans_le hfits,
      Bridge.Session.reads_sealed hpsk htype hparent (hfits.trans hlmax.bounds.2) hx hlkey.symm⟩

end

/-! ## The agreement on concrete parties -/

/-- A leaf that holds the all-zero key. -/
def zeroKeyLeaf : Remote Unit where
  config := { leafMac := Octets.zero 6 }
  session := { sessionKeyValid := true, joined := true }
  files := { handlers := fun _ => none }

/-- The session of that leaf. -/
def zeroKeySession : Bridge.Session := { leafMac := Octets.zero 6, sessionKeyValid := true }

/-- An ESP82xx leaf with the same key. -/
def zeroKeyEsp82xx : Esp82xx.Leaf := ⟨Octets.zero 6, Octets.zero 6, Octets.zero 32, v1MaxPayload⟩

/-- A heartbeat of an ESP82xx leaf with the `PARENT_CHECK` bit, under the key of zeros. -/
theorem codec_agreement_zeroKey :
    ∃ f, Esp82xx.sendFrame .sample zeroKeyEsp82xx .heartbeat 0x42 7 [1, 2, 3] = some f ∧
      f.bytes.length ≤ v1MaxPayload ∧ zeroKeySession.Reads .sample f.bytes [1, 2, 3] :=
  (codec_agreement .sample zeroKeyLeaf zeroKeySession zeroKeyEsp82xx .heartbeat 0x42 7 [1, 2, 3]
    rfl rfl rfl rfl rfl rfl (.inl rfl) (.inl rfl) (.inl rfl)).2.2.2 (by decide)

/-- With the `PARENT_CHECK` bit the encoder of the bridge announces an extension that it does
not write, and the leaf refuses the frame. -/
theorem sendEncrypted_parentCheck_refused :
    ¬ ∀ hop : UInt8, ∃ frame ok,
      (Bridge.sendEncrypted .sample (.quiet 0 (Octets.zero 16)) { config := ⟨Octets.zero 6, [], 60, 0⟩ }
        (Octets.zero 6) zeroKeySession .ack hop []).1.effects =
        [.send (Octets.zero 6) frame ok, .encrypt .ack (Octets.zero 32) 1 []] ∧
      zeroKeyLeaf.Reads .sample frame [] := by
  intro h
  obtain ⟨frame, ok, heff, f, hparse, -⟩ := h 0x40
  have hframe : frame = (sealed .sample (Octets.zero 32) (Octets.zero 6) .ack 0x40 1 none []).bytes := by
    have := (List.cons.inj heff).1
    injection this with _ hbytes _
    exact hbytes.symm
  have hnone : parseFrame frame = none := by
    rw [hframe]
    decide +kernel
  rw [hnone] at hparse
  cases hparse

end EspTree
