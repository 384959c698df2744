import EspTree.Types

/-!
# Tags, keys and the payload cipher

`esp_tree_common/espnow_crypto.cpp` over two primitives that stay parameters: the
HMAC-SHA256 of the platform's library and the AES-256 block function (key expansion
included).  Nothing is assumed about either; everything that is proved of a frame
holds for any pair of functions of these types.

The module state of the source is the pre-shared key with its `g_psk_set` flag, here
one `Option`.

The session key is derived from the pre-shared key and both nonces by the two loops of HKDF. A tag
is the beginning of an HMAC over a part of the header and the payload, and the two kinds differ in
the key and in the number of bytes that are kept.  `crypt` fails only for want of a pre-shared key.

That encrypting twice gives the input back (`aes256CtrCrypt_involutive`) is the only property of the
cipher that the round trips of frames rest on.
-/

namespace EspTree

open Wire

/-- A 32-byte session key. -/
abbrev SessionKey := Octets 32
/-- A 16-byte nonce of the join handshake. -/
abbrev Nonce := Octets 16

/-- The primitives and the pre-shared key of one node. -/
structure Crypto where
  /-- `hmac_sha256(key, data)`. -/
  hmacSha256 : Bytes → Bytes → Octets 32
  /-- `aes256_encrypt_block` after `aes256_key_expand`. -/
  aes256EncryptBlock : SessionKey → Octets 16 → Octets 16
  /-- `g_psk`, or nothing while `g_psk_set` is 0. -/
  psk : Option (Octets 32)

namespace Crypto

variable (c : Crypto)

/-! ## Key derivation -/

/-- `hkdf_extract` with the all-zero salt `kHkdfSalt`. -/
def hkdfExtract (ikm : Bytes) : Octets 32 :=
  c.hmacSha256 (Octets.zero 32).bytes ikm

/-- The loop of `hkdf_expand`: block `counter` is the HMAC of the previous block (none
for the first), the info string and the counter byte. -/
def hkdfExpandLoop (prk info : Bytes) : Nat → UInt8 → Bytes → Nat → Bytes
  | 0, _, _, _ => []
  | fuel + 1, counter, t, remaining =>
    if remaining = 0 then []
    else
      let block := t ++ info ++ [counter]
      let t' := (c.hmacSha256 prk block).bytes
      t'.take remaining ++ hkdfExpandLoop prk info fuel (counter + 1) t' (remaining - 32)

def hkdfExpand (prk : Octets 32) (info : Bytes) (outLen : Nat) : Bytes :=
  c.hkdfExpandLoop prk.bytes info outLen 1 [] outLen

/-- `espnow_crypto_derive_session_key`. -/
def deriveSessionKey (bridgeNonce remoteNonce : Nonce) : SessionKey :=
  match c.psk with
  | none => Octets.zero 32
  | some psk =>
    Octets.fit 32
      (c.hkdfExpand (c.hkdfExtract psk.bytes) (bridgeNonce.bytes ++ remoteNonce.bytes) 32)

/-! ## Tags -/

/-- `espnow_crypto_psk_tag`. -/
def pskTag (header : Header) (payload : Bytes) : Octets 4 :=
  match c.psk with
  | none => Octets.zero 4
  | some psk => Octets.fit 4 (c.hmacSha256 psk.bytes (header.tagged ++ payload)).bytes

/-- `espnow_crypto_verify_psk_tag`. -/
def verifyPskTag (header : Header) (payload : Bytes) (received : Octets 4) : Bool :=
  c.psk.isSome && c.pskTag header payload == received

/-- `espnow_crypto_session_tag`. -/
def sessionTag (key : SessionKey) (header : Header) (ciphertext : Bytes) : Octets 8 :=
  Octets.fit 8 (c.hmacSha256 key.bytes (header.tagged ++ ciphertext)).bytes

/-- `espnow_crypto_verify_session_tag`. -/
def verifySessionTag (key : SessionKey) (header : Header) (ciphertext : Bytes)
    (received : Octets 8) : Bool :=
  c.sessionTag key header ciphertext == received

section

variable {c}

/-- Both tags see a header only through its packet type, leaf address and counter. -/
theorem pskTag_congr {h h' : Header} (e : h.tagged = h'.tagged) (payload : Bytes) :
    c.pskTag h payload = c.pskTag h' payload := by
  simp [pskTag, e]

/-- A tag depends on what it covers, and on nothing else of the header. -/
theorem sessionTag_congr {h h' : Header} (e : h.tagged = h'.tagged) (key : SessionKey)
    (ciphertext : Bytes) : c.sessionTag key h ciphertext = c.sessionTag key h' ciphertext := by
  simp [sessionTag, e]

end

/-! ## The payload cipher -/

/-- The carry loop of `increment_counter`, from the last byte of the block downwards:
the block is given reversed. -/
def incrementReversed : Bytes → Bytes
  | [] => []
  | b :: bs => if b + 1 != 0 then (b + 1) :: bs else (b + 1) :: incrementReversed bs

theorem length_incrementReversed (l : Bytes) : (incrementReversed l).length = l.length := by
  induction l with
  | nil => rfl
  | cons b bs ih =>
    by_cases h : (b + 1 != 0) = true
    · simp [incrementReversed, h]
    · simp [incrementReversed, h, ih]

def incrementCounter (counter : Octets 16) : Octets 16 :=
  ⟨(incrementReversed counter.bytes.reverse).reverse, by
    simp [length_incrementReversed]⟩

/-- The first counter block: the transmit counter in the first four bytes, little-endian. -/
def initialCounter (txCounter : UInt32) : Octets 16 :=
  Octets.fit 16 (leEncode 4 txCounter.toNat)

def aes256CtrCrypt (key : SessionKey) (txCounter : UInt32) (input : Bytes) : Bytes :=
  ctrLoop (c.aes256EncryptBlock key) incrementCounter input.length
    (initialCounter txCounter) input

/-- `espnow_crypto_crypt`: nothing while no pre-shared key is set. -/
def crypt (key : SessionKey) (txCounter : UInt32) (input : Bytes) : Option Bytes :=
  match c.psk with
  | none => none
  | some _ => some (c.aes256CtrCrypt key txCounter input)

section

variable {c}

@[simp] theorem length_aes256CtrCrypt (key : SessionKey) (txCounter : UInt32) (input : Bytes) :
    (c.aes256CtrCrypt key txCounter input).length = input.length :=
  length_ctrLoop (by decide) le_rfl

/-- Encryption and decryption are the same function. -/
theorem aes256CtrCrypt_involutive (key : SessionKey) (txCounter : UInt32) (input : Bytes) :
    c.aes256CtrCrypt key txCounter (c.aes256CtrCrypt key txCounter input) = input := by
  have hlen : (c.aes256CtrCrypt key txCounter input).length = input.length :=
    length_aes256CtrCrypt key txCounter input
  conv_lhs => rw [aes256CtrCrypt]
  rw [hlen]
  exact ctrLoop_ctrLoop (by decide) le_rfl

/-- Without a pre-shared key nothing is encrypted. -/
theorem crypt_eq_some {key : SessionKey} {txCounter : UInt32} {input out : Bytes}
    (h : c.crypt key txCounter input = some out) :
    c.psk.isSome ∧ out = c.aes256CtrCrypt key txCounter input := by
  cases hp : c.psk with
  | none => simp [crypt, hp] at h
  | some k => exact ⟨rfl, by simpa [crypt, hp] using h.symm⟩

theorem crypt_of_psk (h : c.psk.isSome) (key : SessionKey) (txCounter : UInt32) (input : Bytes) :
    c.crypt key txCounter input = some (c.aes256CtrCrypt key txCounter input) := by
  obtain ⟨k, hk⟩ := Option.isSome_iff_exists.mp h
  simp [crypt, hk]

end

/-- Toy primitives, to evaluate the model on concrete inputs. -/
def sample : Crypto where
  hmacSha256 key data := Octets.fit 32 [(key ++ data).foldl (fun h b => 31 * h + b) 7]
  aes256EncryptBlock key block := Octets.fit 16 (xorBytes key.bytes block.bytes)
  psk := some (Octets.zero 32)

end Crypto

end EspTree
