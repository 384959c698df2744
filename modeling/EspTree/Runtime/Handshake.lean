import EspTree.Options
import EspTree.Runtime.Messages
import EspTree.Runtime.WebSocket
import EspTree.TreeBridge

/-!
# The handshake of the runtime API

The bridge greets a client with a nonce (`send_auth_challenge`).  The host answers with a nonce of its own
and the HMAC of both under the API key (`BridgeV2Client._authenticate`), which the bridge computes again
(`verify_auth_response`).  The HMAC is a parameter.

The host reads and writes protocol buffers with the library; of what it reads, the fields that it looks at
are modelled.

The comparison goes over all bytes, so that its time tells nothing, and it says the same as equality
(`constantTimeEqual_iff`).  What the HMAC is computed of is the text of the protocol, its version and
both nonces in hexadecimal, with a separator; different pairs of nonces give different inputs
(`authInput_inj`).  So an answer to one challenge is none to another, unless the HMAC has a
collision.

`parse_hostResponse` says that the bridge reads the host's answer as the host has meant it, through
the envelope and the two encodings.
-/

namespace EspTree

open Wire

namespace Runtime

/-! ## `verify_auth_response` -/

/-- `kRuntimeProtocol`, and `PROTOCOL` of the host. -/
def protocolName : Bytes := ascii "esp-tree-pb"

/-- `kRuntimeProtocolVersionLabel`. -/
def protocolVersionLabel : Bytes := ascii "v2"

/-- `CLIENT_KIND` of the host, and the kind that the bridge accepts. -/
def clientKind : Bytes := ascii "ha_integration"

/-- `constant_time_equal` on `len` bytes. -/
def constantTimeEqual (a b : Bytes) (len : ℕ) : Bool :=
  (List.range len).foldl (fun diff i => diff ||| (a.getD i 0 ^^^ b.getD i 0)) (0 : UInt8) == 0

/-- What both ends authenticate. -/
def authInput (kind serverNonce clientNonce : Bytes) : Bytes :=
  protocolName ++ [124] ++ protocolVersionLabel ++ [124] ++ kind ++ [124] ++
    TreeBridge.bytesToLowerHex serverNonce ++ [124] ++ TreeBridge.bytesToLowerHex clientNonce

section

variable (hmac : Bytes → Bytes → Octets 32) (apiKey : Bytes)

/-- `verify_auth_response`; there is always a bridge. -/
def verifyAuthResponse (serverNonce : Octets 16) (response : ParsedAuthResponse) : Bool :=
  if response.clientKind ≠ clientKind ∨ response.clientNonce = [] ∨ response.hmacSha256.length ≠ hmacBytes then
    false
  else
    let digest := hmac apiKey (authInput response.clientKind serverNonce.bytes response.clientNonce)
    constantTimeEqual digest.bytes response.hmacSha256 hmacBytes

end

/-! ## The messages -/

/-- `AUTH_CHALLENGE` and the other fields of an envelope that the handshake uses. -/
def authChallengeField : ℕ := 10

def authResponseField : ℕ := 11

/-- What `send_auth_challenge` writes. -/
def authChallenge (serverNonce : Octets 16) (bridgeMac : Bytes) : Bytes :=
  envelope [] authChallengeField
    [.bytes 1 serverNonce.bytes, .varint 2 Host.apiVersion, .varint 3 Host.apiVersion, .string 4 protocolName,
      .string 5 bridgeMac]

end Runtime

namespace Host

structure AuthChallenge where
  serverNonce : Bytes := []
  minVersion : ℕ := 0
  maxVersion : ℕ := 0
  protocol : Bytes := []
  bridgeMac : Bytes := []
  deriving DecidableEq

/-- One field of a challenge. -/
def AuthChallenge.take (c : AuthChallenge) (f : Proto.Field) : AuthChallenge :=
  match f.number, f.value with
  | 1, .bytes b => { c with serverNonce := b }
  | 2, .varint n => { c with minVersion := n % 2 ^ 32 }
  | 3, .varint n => { c with maxVersion := n % 2 ^ 32 }
  | 4, .bytes b => { c with protocol := b }
  | 5, .bytes b => { c with bridgeMac := b }
  | _, _ => c

/-- The fields of a message. -/
def AuthChallenge.parse (data : Bytes) : Option AuthChallenge :=
  (Proto.readFields data).map fun fs => fs.foldl AuthChallenge.take {}

/-- The message of an envelope and its field, the last one that is there. -/
def whichMsg (data : Bytes) : Option (ℕ × Bytes) :=
  (parseEnvelope data).map fun env => (env.msgField, env.msgData)

structure AuthResponse where
  clientKind : Bytes
  clientName : Bytes
  clientNonce : Bytes
  hmacSha256 : Bytes

def AuthResponse.fields (r : AuthResponse) : List Proto.Field :=
  bytesField 1 r.clientKind ++ bytesField 2 r.clientName ++ bytesField 3 r.clientNonce ++
    bytesField 4 r.hmacSha256

/-- The `Envelope` around it. -/
def AuthResponse.envelope (r : AuthResponse) (requestId : Bytes) : Bytes :=
  Proto.encodeFields
    (bytesField 1 requestId ++ uint32Field 2 apiVersion ++ [⟨11, .bytes (Proto.encodeFields r.fields)⟩])

/-- `_authenticate`, from the challenge to the answer; `name` is `target.name`. -/
def authenticate (hmac : Bytes → Bytes → Octets 32) (apiKey name requestId : Bytes) (clientNonce : Octets 16)
    (raw : Bytes) : Option Bytes :=
  match whichMsg raw with
  | none => none
  | some (field, msg) =>
    if field ≠ Runtime.authChallengeField then none
    else
      match AuthChallenge.parse msg with
      | none => none
      | some challenge =>
        if challenge.protocol ≠ Runtime.protocolName ∨ challenge.maxVersion < apiVersion then none
        else
          let digestInput := Runtime.authInput Runtime.clientKind challenge.serverNonce clientNonce.bytes
          some (AuthResponse.envelope
            { clientKind := Runtime.clientKind
              clientName := if name = [] then ascii "ESP Tree Add-on" else name
              clientNonce := clientNonce.bytes
              hmacSha256 := (hmac apiKey digestInput).bytes } requestId)

end Host

namespace Runtime

/-! ## What is compared and authenticated -/

/-- An `or` over all the differences is zero only if each of them is. -/
theorem foldl_or_eq_zero_iff (f : ℕ → UInt8) (l : List ℕ) (d : UInt8) :
    l.foldl (fun diff i => diff ||| f i) d = 0 ↔ d = 0 ∧ ∀ i ∈ l, f i = 0 := by
  induction l generalizing d with
  | nil => exact ⟨fun h => ⟨h, fun i hi => by cases hi⟩, fun h => h.1⟩
  | cons i l ih =>
    have hor : d ||| f i = 0 ↔ d = 0 ∧ f i = 0 := by
      rw [← UInt8.toNat_inj, ← UInt8.toNat_inj, ← UInt8.toNat_inj, UInt8.toNat_or]
      exact Nat.or_eq_zero_iff
    rw [List.foldl_cons, ih, hor, List.forall_mem_cons, and_assoc]

/-- The comparison that does not stop at the first difference says the same as one that does. -/
theorem constantTimeEqual_iff {n : ℕ} {a b : Bytes} (ha : a.length = n) (hb : b.length = n) :
    constantTimeEqual a b n = true ↔ a = b := by
  rw [constantTimeEqual, beq_iff_eq, foldl_or_eq_zero_iff]
  constructor
  · rintro ⟨-, h⟩
    apply List.ext_getElem (ha.trans hb.symm)
    intro i hi hi'
    have hzero := h i (List.mem_range.mpr (ha ▸ hi))
    rw [UInt8.xor_eq_zero_iff, List.getD_eq_getElem _ _ hi, List.getD_eq_getElem _ _ hi'] at hzero
    exact hzero
  · rintro rfl
    exact ⟨rfl, fun i _ => UInt8.xor_self⟩

section

variable {hmac : Bytes → Bytes → Octets 32} {apiKey : Bytes} {serverNonce : Octets 16} {response : ParsedAuthResponse}

/-- The bridge accepts exactly the HMAC that it computes itself. -/
theorem verifyAuthResponse_iff :
    verifyAuthResponse hmac apiKey serverNonce response = true ↔
      response.clientKind = clientKind ∧ response.clientNonce ≠ [] ∧
        response.hmacSha256 = (hmac apiKey (authInput clientKind serverNonce.bytes response.clientNonce)).bytes := by
  unfold verifyAuthResponse
  split_ifs with h
  · refine iff_of_false id ?_
    rintro ⟨hkind, hnonce, hhmac⟩
    rcases h with h | h | h
    · exact h hkind
    · exact hnonce h
    · exact h (hhmac ▸ Octets.length_bytes _)
  · rw [not_or, not_or, not_not, not_not] at h
    obtain ⟨hkind, hnonce, hlength⟩ := h
    rw [hkind]
    refine (constantTimeEqual_iff (Octets.length_bytes _) hlength).trans ?_
    exact ⟨fun h => ⟨rfl, hnonce, h.symm⟩, fun h => h.2.2.symm⟩

end

/-! ### Hexadecimal texts -/

/-- Nonces that are printed alike are equal. -/
theorem bytesToLowerHex_injective : Function.Injective TreeBridge.bytesToLowerHex :=
  hexText_injective (by decide)

theorem length_bytesToLowerHex (b : Bytes) : (TreeBridge.bytesToLowerHex b).length = b.length * 2 :=
  length_hexText b

/-- What is authenticated says which nonces it is for. -/
theorem authInput_inj {kind clientNonce clientNonce' : Bytes} {serverNonce serverNonce' : Octets 16}
    (h : authInput kind serverNonce.bytes clientNonce = authInput kind serverNonce'.bytes clientNonce') :
    serverNonce = serverNonce' ∧ clientNonce = clientNonce' := by
  unfold authInput at h
  obtain ⟨hleft, hclient⟩ := List.append_inj h (by simp only [List.length_append, length_bytesToLowerHex,
    Octets.length_bytes])
  obtain ⟨hserver, -⟩ := List.append_inj' hleft rfl
  have hhex := List.append_cancel_left hserver
  exact ⟨Octets.ext (bytesToLowerHex_injective hhex), bytesToLowerHex_injective hclient⟩

/-! ## The two ends understand each other -/

/-- The answer as `parse_auth_response` returns it. -/
def read (r : Host.AuthResponse) : ParsedAuthResponse := ⟨r.clientKind, r.clientName, r.clientNonce, r.hmacSha256⟩

/-- What `parse_auth_response` has found after some of the fields of an answer. -/
def ParsedAuthResponse.After (done : List Proto.Field) (out : ParsedAuthResponse) : Prop :=
  out = ⟨Proto.lastBytes 1 done, Proto.lastBytes 2 done, Proto.lastBytes 3 done, Proto.lastBytes 4 done⟩

section

variable {m : Bytes} {v : View} {r : Host.AuthResponse}

/-- The answer has four fields at most, those that are empty being left out. -/
theorem mem_authResponse_fields {f : Proto.Field} (hf : f ∈ r.fields) :
    f = ⟨1, .bytes r.clientKind⟩ ∨ f = ⟨2, .bytes r.clientName⟩ ∨ f = ⟨3, .bytes r.clientNonce⟩ ∨
      f = ⟨4, .bytes r.hmacSha256⟩ := by
  have hone {number : ℕ} {b : Bytes} (h : f ∈ Host.bytesField number b) : f = ⟨number, .bytes b⟩ := by
    unfold Host.bytesField at h
    split_ifs at h
    · cases h
    · exact List.mem_singleton.mp h
  simp only [Host.AuthResponse.fields, List.mem_append] at hf
  rcases hf with ((hf | hf) | hf) | hf
  · exact .inl (hone hf)
  · exact .inr (.inl (hone hf))
  · exact .inr (.inr (.inl (hone hf)))
  · exact .inr (.inr (.inr (hone hf)))

theorem lastBytes_append_bytesField_of_ne {number number' : ℕ} (b : Bytes) (fs : List Proto.Field)
    (h : number ≠ number') :
    Proto.lastBytes number' (fs ++ Host.bytesField number b) = Proto.lastBytes number' fs := by
  unfold Host.bytesField
  split_ifs
  · rw [List.append_nil]
  · exact Proto.lastBytes_append_of_ne fs h

theorem lastBytes_append_bytesField_self {number : ℕ} (b : Bytes) {fs : List Proto.Field}
    (h : Proto.lastBytes number fs = []) : Proto.lastBytes number (fs ++ Host.bytesField number b) = b := by
  unfold Host.bytesField
  split_ifs with hb
  · rw [List.append_nil, h, hb]
  · rw [Proto.lastBytes_append]
    exact if_pos rfl

theorem lastBytes_bytesField_of_ne {number number' : ℕ} (b : Bytes) (h : number ≠ number') :
    Proto.lastBytes number' (Host.bytesField number b) = [] :=
  lastBytes_append_bytesField_of_ne b [] h

/-- The bridge reads each of them back, also where it was left out. -/
theorem after_authResponse_fields (r : Host.AuthResponse) : ParsedAuthResponse.After r.fields (read r) := by
  have hnil : Proto.lastBytes 1 [] = [] := rfl
  have hone : Proto.lastBytes 1 (Host.bytesField 1 r.clientKind) = r.clientKind :=
    lastBytes_append_bytesField_self r.clientKind hnil
  unfold ParsedAuthResponse.After read Host.AuthResponse.fields
  congr 1
  · rw [lastBytes_append_bytesField_of_ne _ _ (by decide), lastBytes_append_bytesField_of_ne _ _ (by decide),
      lastBytes_append_bytesField_of_ne _ _ (by decide), hone]
  · rw [lastBytes_append_bytesField_of_ne _ _ (by decide), lastBytes_append_bytesField_of_ne _ _ (by decide),
      lastBytes_append_bytesField_self _ (lastBytes_bytesField_of_ne _ (by decide))]
  · rw [lastBytes_append_bytesField_of_ne _ _ (by decide), lastBytes_append_bytesField_self]
    rw [lastBytes_append_bytesField_of_ne _ _ (by decide), lastBytes_bytesField_of_ne _ (by decide)]
  · rw [lastBytes_append_bytesField_self]
    rw [lastBytes_append_bytesField_of_ne _ _ (by decide), lastBytes_append_bytesField_of_ne _ _ (by decide),
      lastBytes_bytesField_of_ne _ (by decide)]

/-- An answer is read as it was written. -/
theorem parseAuthResponse_encode (hv : v.Inside m) (hbytes : v.bytes m = Proto.encodeFields r.fields)
    (hfits : ∀ f ∈ r.fields, f.Fits) (hkind : r.clientKind ≠ []) (hnonce : r.clientNonce ≠ [])
    (hhmac : r.hmacSha256.length = hmacBytes) : parseAuthResponse m v = .ok (true, read r) := by
  have hscan : ∃ out, scan m v (branches
      [onString m v 1 fun out s => { out with clientKind := s },
        onString m v 2 fun out s => { out with clientName := s },
        onString m v 3 fun out s => { out with clientNonce := s },
        onString m v 4 fun out s => { out with hmacSha256 := s }]) {} = .ok (true, out) ∧
      ParsedAuthResponse.After r.fields out := by
    refine scan_encode hv hbytes hfits (fun {done f raw out} hpre hraw hdone => ?_) rfl
    have hmem : f ∈ r.fields := hpre.subset (List.mem_append_right _ List.mem_cons_self)
    subst hdone
    rcases mem_authResponse_fields hmem with rfl | rfl | rfl | rfl
    all_goals
      refine ⟨_, by simp only [branches, onString_bytes hv hraw]; rfl, ?_⟩
      simp only [ParsedAuthResponse.After, Proto.lastBytes_append]
      rfl
  obtain ⟨out, hscan, hout⟩ := hscan
  have hread : out = read r := hout.trans (after_authResponse_fields r).symm
  have haccepts : (r.clientKind != [] && r.clientNonce != [] && r.hmacSha256.length == hmacBytes) = true := by
    rw [Bool.and_eq_true, Bool.and_eq_true, bne_iff_ne, bne_iff_ne, beq_iff_eq]
    exact ⟨⟨hkind, hnonce⟩, hhmac⟩
  rw [parseAuthResponse, parse, hscan, hread]
  change Except.ok (true && (r.clientKind != [] && r.clientNonce != [] && r.hmacSha256.length == hmacBytes), _) = _
  rw [haccepts]
  rfl

end

/-! ## Both ends together -/

section

variable {serverNonce : Octets 16} {bridgeMac : Bytes}

/-- The fields of a challenge. -/
def challengeFields (serverNonce : Octets 16) (bridgeMac : Bytes) : List Proto.Field :=
  [⟨1, .bytes serverNonce.bytes⟩, ⟨2, .varint Host.apiVersion⟩, ⟨3, .varint Host.apiVersion⟩,
    ⟨4, .bytes protocolName⟩] ++ Host.bytesField 5 bridgeMac

/-- The fields of a challenge can be encoded. -/
theorem challengeFields_valid (hbridge : bridgeMac.length < 2 ^ 32) :
    ∀ f ∈ challengeFields serverNonce bridgeMac, f.Valid := by
  intro f hf
  rcases List.mem_append.mp hf with hf | hf
  · simp only [List.mem_cons, List.not_mem_nil, or_false] at hf
    rcases hf with rfl | rfl | rfl | rfl
    · exact ⟨(by decide : 1 < 2 ^ 29), lt_of_eq_of_lt serverNonce.length_bytes (by decide)⟩
    · exact ⟨(by decide : 2 < 2 ^ 29), (by decide : Host.apiVersion < 2 ^ 64)⟩
    · exact ⟨(by decide : 3 < 2 ^ 29), (by decide : Host.apiVersion < 2 ^ 64)⟩
    · exact ⟨(by decide : 4 < 2 ^ 29), (by decide : protocolName.length < 2 ^ 64)⟩
  · unfold Host.bytesField at hf
    split_ifs at hf
    · cases hf
    · obtain rfl := List.mem_singleton.mp hf
      exact ⟨(by decide : 5 < 2 ^ 29), hbridge.trans (by decide)⟩

/-- The calls of the writer give the encoding of these fields. -/
theorem writeAll_challenge (hbridge : bridgeMac.length < 2 ^ 32) :
    writeAll [.bytes 1 serverNonce.bytes, .varint 2 Host.apiVersion, .varint 3 Host.apiVersion,
      .string 4 protocolName, .string 5 bridgeMac] =
      Proto.encodeFields (challengeFields serverNonce bridgeMac) := by
  have hlength : serverNonce.bytes.length < 2 ^ 64 := lt_of_eq_of_lt serverNonce.length_bytes (by decide)
  rw [writeAll_eq]
  · congr 1
    cases bridgeMac <;> rfl
  · intro item hitem
    simp only [List.mem_cons, List.not_mem_nil, or_false] at hitem
    rcases hitem with rfl | rfl | rfl | rfl | rfl
    · exact .bytes (by decide) hlength
    · exact .varint (by decide) (by decide)
    · exact .varint (by decide) (by decide)
    · exact .string (by decide) (by decide)
    · exact .string (by decide) (hbridge.trans (by decide))

/-- A message of a few fields is short. -/
theorem length_encodeFields_lt {fs : List Proto.Field} (hcount : fs.length ≤ 5)
    (hsize : ∀ f ∈ fs, f.value.size < 2 ^ 32) : (Proto.encodeFields fs).length < 2 ^ 64 := by
  have hle : (Proto.encodeFields fs).length ≤ fs.length * (20 + 2 ^ 32) :=
    Proto.length_encodeFields_le fun f hf => (hsize f hf).le
  have hmul : fs.length * (20 + 2 ^ 32) ≤ 5 * (20 + 2 ^ 32) := Nat.mul_le_mul_right _ hcount
  omega

theorem size_of_mem_challengeFields (hbridge : bridgeMac.length < 2 ^ 32) :
    ∀ f ∈ challengeFields serverNonce bridgeMac, f.value.size < 2 ^ 32 := by
  intro f hf
  rcases List.mem_append.mp hf with hf | hf
  · simp only [List.mem_cons, List.not_mem_nil, or_false] at hf
    rcases hf with rfl | rfl | rfl | rfl
    · exact lt_of_eq_of_lt serverNonce.length_bytes (by decide)
    · exact (by decide : 0 < 2 ^ 32)
    · exact (by decide : 0 < 2 ^ 32)
    · exact (by decide : protocolName.length < 2 ^ 32)
  · unfold Host.bytesField at hf
    split_ifs at hf
    · cases hf
    · obtain rfl := List.mem_singleton.mp hf
      exact hbridge

theorem length_bytesField_le (number : ℕ) (b : Bytes) : (Host.bytesField number b).length ≤ 1 := by
  unfold Host.bytesField
  split_ifs
  · exact Nat.zero_le _
  · exact le_rfl

theorem length_challengeFields_le (serverNonce : Octets 16) (bridgeMac : Bytes) :
    (challengeFields serverNonce bridgeMac).length ≤ 5 := by
  have hone := length_bytesField_le 5 bridgeMac
  unfold challengeFields
  rw [List.length_append]
  change 4 + _ ≤ 5
  omega

/-- The host reads the challenge that the bridge has written. -/
theorem whichMsg_authChallenge (serverNonce : Octets 16) (hbridge : bridgeMac.length < 2 ^ 32) :
    Host.whichMsg (authChallenge serverNonce bridgeMac) =
        some (10, Proto.encodeFields (challengeFields serverNonce bridgeMac)) ∧
      Host.AuthChallenge.parse (Proto.encodeFields (challengeFields serverNonce bridgeMac)) =
        some ⟨serverNonce.bytes, 2, 2, protocolName, bridgeMac⟩ := by
  have hlength := length_encodeFields_lt (length_challengeFields_le serverNonce bridgeMac)
    (size_of_mem_challengeFields hbridge)
  constructor
  · unfold authChallenge
    rw [envelope_eq (by decide) (by decide) (by rw [writeAll_challenge hbridge]; exact hlength),
      writeAll_challenge hbridge]
    have hvalid : ∀ f ∈ envelopeFields []
        ⟨authChallengeField, .bytes (Proto.encodeFields (challengeFields serverNonce bridgeMac))⟩, f.Valid := by
      intro f hf
      rcases List.mem_pair.mp hf with rfl | rfl
      · exact ⟨(by decide : 2 < 2 ^ 29), (by decide : Host.apiVersion < 2 ^ 64)⟩
      · exact ⟨(by decide : 10 < 2 ^ 29), hlength⟩
    unfold Host.whichMsg Host.parseEnvelope
    rw [Proto.readFields_encode hvalid]
    rfl
  · unfold Host.AuthChallenge.parse
    rw [Proto.readFields_encode (challengeFields_valid hbridge)]
    unfold challengeFields Host.bytesField
    split_ifs with hempty
    · rw [hempty]
      rfl
    · rfl

/-- The challenge fits into a frame. -/
theorem length_authChallenge_lt (hbridge : bridgeMac.length ≤ 1000) :
    (authChallenge serverNonce bridgeMac).length < maxFrameBytes := by
  have hlt : bridgeMac.length < 2 ^ 32 := Nat.lt_of_le_of_lt hbridge (by decide)
  have hsize : ∀ f ∈ challengeFields serverNonce bridgeMac, f.value.size ≤ 1000 := by
    intro f hf
    rcases List.mem_append.mp hf with hf | hf
    · simp only [List.mem_cons, List.not_mem_nil, or_false] at hf
      rcases hf with rfl | rfl | rfl | rfl
      · exact le_of_eq_of_le serverNonce.length_bytes (by decide)
      · exact Nat.zero_le _
      · exact Nat.zero_le _
      · exact (by decide : protocolName.length ≤ 1000)
    · unfold Host.bytesField at hf
      split_ifs at hf
      · cases hf
      · obtain rfl := List.mem_singleton.mp hf
        exact hbridge
  have hcount := length_challengeFields_le serverNonce bridgeMac
  have hinner : (Proto.encodeFields (challengeFields serverNonce bridgeMac)).length ≤ 5100 :=
    (Proto.length_encodeFields_le hsize).trans (Nat.mul_le_mul_right 1020 hcount)
  have hlength := length_encodeFields_lt hcount (size_of_mem_challengeFields hlt)
  unfold authChallenge
  rw [envelope_eq (by decide) (by decide) (by rw [writeAll_challenge hlt]; exact hlength), writeAll_challenge hlt]
  have houter : ∀ f ∈ envelopeFields []
      ⟨authChallengeField, .bytes (Proto.encodeFields (challengeFields serverNonce bridgeMac))⟩,
      f.value.size ≤ 5100 := by
    intro f hf
    rcases List.mem_pair.mp hf with rfl | rfl
    · exact Nat.zero_le _
    · exact hinner
  exact Nat.lt_of_le_of_lt (Proto.length_encodeFields_le houter) (show 2 * (20 + 5100) < 65536 by decide)

end

section

variable {hmac : Bytes → Bytes → Octets 32} {apiKey : Bytes} {name requestId : Bytes} {clientNonce : Octets 16}
  {serverNonce : Octets 16} {bridgeMac : Bytes}

/-- The answer of the host to a challenge. -/
def hostResponse (hmac : Bytes → Bytes → Octets 32) (apiKey name : Bytes) (clientNonce serverNonce : Octets 16) :
    Host.AuthResponse where
  clientKind := clientKind
  clientName := if name = [] then ascii "ESP Tree Add-on" else name
  clientNonce := clientNonce.bytes
  hmacSha256 := (hmac apiKey (authInput clientKind serverNonce.bytes clientNonce.bytes)).bytes

/-- A host that gets the challenge answers it with the HMAC of both nonces. -/
theorem authenticate_authChallenge (hlength : bridgeMac.length < 2 ^ 32) :
    Host.authenticate hmac apiKey name requestId clientNonce (authChallenge serverNonce bridgeMac) =
      some ((hostResponse hmac apiKey name clientNonce serverNonce).envelope requestId) := by
  obtain ⟨hmsg, hparse⟩ := whichMsg_authChallenge serverNonce hlength
  unfold Host.authenticate
  rw [hmsg]
  dsimp only
  rw [if_neg (by decide), hparse]
  dsimp only
  rw [if_neg (by decide)]
  rfl

theorem size_of_mem_hostResponse (hname : name.length < 2 ^ 32) :
    ∀ f ∈ (hostResponse hmac apiKey name clientNonce serverNonce).fields, f.value.size < 2 ^ 32 := by
  intro f hf
  rcases mem_authResponse_fields hf with rfl | rfl | rfl | rfl
  · exact (by decide : clientKind.length < 2 ^ 32)
  · change (if name = [] then ascii "ESP Tree Add-on" else name).length < 2 ^ 32
    split_ifs
    · decide
    · exact hname
  · exact lt_of_eq_of_lt clientNonce.length_bytes (by decide)
  · exact lt_of_eq_of_lt (Octets.length_bytes _) (by decide)

theorem length_hostResponse_fields_le :
    (hostResponse hmac apiKey name clientNonce serverNonce).fields.length ≤ 4 := by
  unfold Host.AuthResponse.fields
  simp only [List.length_append]
  exact Nat.add_le_add (Nat.add_le_add (Nat.add_le_add (length_bytesField_le _ _) (length_bytesField_le _ _))
    (length_bytesField_le _ _)) (length_bytesField_le _ _)

/-- The calls of a writer that writes the answer. -/
def responseItems (r : Host.AuthResponse) : List Item :=
  [.string 1 r.clientKind, .string 2 r.clientName, .string 3 r.clientNonce, .string 4 r.hmacSha256]

theorem filterMap_responseItems (r : Host.AuthResponse) :
    (responseItems r).filterMap Item.toField? = r.fields := by
  have hone (number : ℕ) (b : Bytes) : (Item.string number b).toField?.toList = Host.bytesField number b := by
    cases b <;> rfl
  unfold Host.AuthResponse.fields responseItems
  rw [← hone, ← hone, ← hone, ← hone]
  simp only [List.filterMap_cons, List.filterMap_nil]
  cases (Item.string 1 r.clientKind).toField? <;> cases (Item.string 2 r.clientName).toField? <;>
    cases (Item.string 3 r.clientNonce).toField? <;> cases (Item.string 4 r.hmacSha256).toField? <;> rfl

/-- The answer, as the calls of a writer. -/
theorem writeAll_responseItems (hname : name.length < 2 ^ 32) :
    writeAll (responseItems (hostResponse hmac apiKey name clientNonce serverNonce)) =
      Proto.encodeFields (hostResponse hmac apiKey name clientNonce serverNonce).fields := by
  rw [writeAll_eq, filterMap_responseItems]
  intro item hitem
  simp only [responseItems, List.mem_cons, List.not_mem_nil, or_false] at hitem
  rcases hitem with rfl | rfl | rfl | rfl
  · exact .string (by decide) (by decide : clientKind.length < 2 ^ 64)
  · refine .string (by decide) ?_
    change (if name = [] then ascii "ESP Tree Add-on" else name).length < 2 ^ 64
    split_ifs
    · decide
    · exact hname.trans (by decide)
  · exact .string (by decide) (lt_of_eq_of_lt clientNonce.length_bytes (by decide))
  · exact .string (by decide) (lt_of_eq_of_lt (Octets.length_bytes _) (by decide))

/-- The answer is short enough for its envelope. -/
theorem length_response_lt (hname : name.length < 2 ^ 32) :
    (Proto.encodeFields (hostResponse hmac apiKey name clientNonce serverNonce).fields).length < 2 ^ 64 :=
  length_encodeFields_lt (length_hostResponse_fields_le.trans (by decide)) (size_of_mem_hostResponse hname)

/-- The envelope of the host is what the writer of the bridge would write. -/
theorem envelope_hostResponse (hname : name.length < 2 ^ 32) (hid : requestId.length < 2 ^ 32) :
    (hostResponse hmac apiKey name clientNonce serverNonce).envelope requestId =
      envelope requestId authResponseField
        (responseItems (hostResponse hmac apiKey name clientNonce serverNonce)) := by
  rw [envelope_eq (hid.trans (by decide)) (by decide)
    (by rw [writeAll_responseItems hname]; exact length_response_lt hname), writeAll_responseItems hname]
  exact congrArg Proto.encodeFields (List.append_assoc _ _ _)

/-- The answer fits into a frame. -/
theorem length_hostResponse_lt (hname : name.length ≤ 1000) (hid : requestId.length ≤ 1000) :
    ((hostResponse hmac apiKey name clientNonce serverNonce).envelope requestId).length < maxFrameBytes := by
  have hsize (f : Proto.Field) (hf : f ∈ (hostResponse hmac apiKey name clientNonce serverNonce).fields) :
      f.value.size ≤ 1000 := by
    rcases mem_authResponse_fields hf with rfl | rfl | rfl | rfl
    · exact (by decide : clientKind.length ≤ 1000)
    · change (if name = [] then ascii "ESP Tree Add-on" else name).length ≤ 1000
      split_ifs
      · decide
      · exact hname
    · exact le_of_eq_of_le clientNonce.length_bytes (by decide)
    · exact le_of_eq_of_le (Octets.length_bytes _) (by decide)
  have hinner : (Proto.encodeFields (hostResponse hmac apiKey name clientNonce serverNonce).fields).length ≤ 4080 :=
    (Proto.length_encodeFields_le hsize).trans (Nat.mul_le_mul_right 1020 length_hostResponse_fields_le)
  have houter (f : Proto.Field) (hf : f ∈ Host.bytesField 1 requestId ++ Host.uint32Field 2 Host.apiVersion ++
      [⟨11, .bytes (Proto.encodeFields (hostResponse hmac apiKey name clientNonce serverNonce).fields)⟩]) :
      f.value.size ≤ 4080 := by
    rcases List.mem_append.mp hf with hf | hf
    · rcases List.mem_append.mp hf with hf | hf
      · unfold Host.bytesField at hf
        split_ifs at hf
        · cases hf
        · obtain rfl := List.mem_singleton.mp hf
          exact hid.trans (by decide)
      · obtain rfl := List.mem_singleton.mp hf
        exact Nat.zero_le _
    · obtain rfl := List.mem_singleton.mp hf
      exact hinner
  have hcount : (Host.bytesField 1 requestId ++ Host.uint32Field 2 Host.apiVersion ++
      [(⟨11, .bytes (Proto.encodeFields (hostResponse hmac apiKey name clientNonce serverNonce).fields)⟩ :
        Proto.Field)]).length ≤ 3 := by
    rw [List.length_append, List.length_append]
    exact Nat.add_le_add (Nat.add_le_add (length_bytesField_le _ _) le_rfl) le_rfl
  have hle := (Proto.length_encodeFields_le houter).trans (Nat.mul_le_mul_right 4100 hcount)
  exact Nat.lt_of_le_of_lt hle (by decide)

/-- The bridge reads from the answer of the host what the host has put there. -/
theorem parse_hostResponse (hname : name.length < 2 ^ 32) (hid : requestId.length < 2 ^ 32) {m : Bytes}
    (hm : m = (hostResponse hmac apiKey name clientNonce serverNonce).envelope requestId) :
    ∃ w, parseEnvelope m (whole m) = .ok (true, ⟨requestId, Host.apiVersion, authResponseField, some w⟩) ∧
      parseAuthResponse m w = .ok (true, read (hostResponse hmac apiKey name clientNonce serverNonce)) := by
  have hwhole : (whole m).bytes m =
      envelope requestId authResponseField (responseItems (hostResponse hmac apiKey name clientNonce serverNonce)) := by
    rw [bytes_whole, hm, envelope_hostResponse hname hid]
  have hlength : (writeAll (responseItems (hostResponse hmac apiKey name clientNonce serverNonce))).length < 2 ^ 64 := by
    rw [writeAll_responseItems hname]
    exact length_response_lt hname
  obtain ⟨w, henv, hw, hbytes⟩ := parseEnvelope_envelope (hid.trans (by decide)) (by decide) (by decide) hlength
    (whole_inside m) hwhole
  refine ⟨w, henv, parseAuthResponse_encode (hw.inside (whole_inside m)) (hbytes.trans (writeAll_responseItems hname))
    ?_ (by decide : clientKind ≠ []) ?_ (Octets.length_bytes _)⟩
  · intro f hf
    have hsize := size_of_mem_hostResponse hname f hf
    have hlt {b : Bytes} (h : b.length < 2 ^ 32) : b.length < 2 ^ 64 := h.trans (by decide)
    rcases mem_authResponse_fields hf with rfl | rfl | rfl | rfl
    · exact ⟨(by decide : 1 < 2 ^ 32), hlt hsize⟩
    · exact ⟨(by decide : 2 < 2 ^ 32), hlt hsize⟩
    · exact ⟨(by decide : 3 < 2 ^ 32), hlt hsize⟩
    · exact ⟨(by decide : 4 < 2 ^ 32), hlt hsize⟩
  · exact List.ne_nil_of_length_pos (lt_of_lt_of_eq (by decide) clientNonce.length_bytes.symm)

/-- The bridge accepts the answer of a host if and only if the HMAC under its own key is the one under the
key of the host. -/
theorem verifyAuthResponse_hostResponse (bridgeKey : Bytes) :
    verifyAuthResponse hmac bridgeKey serverNonce (read (hostResponse hmac apiKey name clientNonce serverNonce)) =
        true ↔
      hmac apiKey (authInput clientKind serverNonce.bytes clientNonce.bytes) =
        hmac bridgeKey (authInput clientKind serverNonce.bytes clientNonce.bytes) := by
  rw [verifyAuthResponse_iff]
  constructor
  · rintro ⟨-, -, h⟩
    exact Octets.ext h
  · intro h
    exact ⟨rfl, List.ne_nil_of_length_pos (lt_of_lt_of_eq (by decide) clientNonce.length_bytes.symm),
      congrArg Octets.bytes h⟩

end

end Runtime

end EspTree
