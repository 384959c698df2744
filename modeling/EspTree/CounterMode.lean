import EspTree.Crypto
import EspTree.Lib.CounterMode

/-!
# The counter blocks of the payload cipher

The transmit counter stands in the first four bytes of a block, little-endian; the block number is counted
up from the other end, big-endian.  The two never meet within a frame, so that no two blocks of key stream
under one key come from the same counter block.

`counterMode` states all of it for any block function: the carry of the block number stays off the
transmit counter for every payload that fits a frame, the blocks of two counters or of two places in
a frame are different, decrypting is the same function as encrypting, and a payload that is cut off
is encrypted as the beginning of the longer one.

That different pairs of counter and place give different counter blocks is all that can be said
about the key stream without an assumption on the cipher.  Whether a pair of key and counter is used
twice is a question about the protocol.
-/

namespace EspTree

open Wire

namespace Crypto

/-- The counter blocks that `aes256_ctr_crypt` encrypts for an input. -/
def counterBlocks (txCounter : UInt32) (input : Bytes) : List (Octets 16) :=
  ctrBlocks incrementCounter input.length (initialCounter txCounter) input

/-- The carry loop counts: it stops within the first `w` bytes while the number fits into them. -/
theorem incrementReversed_leEncode {w n : Nat} (h : n + 1 < 256 ^ w) (rest : Bytes) :
    incrementReversed (leEncode w n ++ rest) = leEncode w (n + 1) ++ rest := by
  induction w generalizing n with
  | zero => simp at h
  | succ w ih =>
    have hbyte : UInt8.ofNat n + 1 = UInt8.ofNat (n + 1) := by
      apply UInt8.toNat_inj.mp
      simp
    have hzero : UInt8.ofNat (n + 1) = 0 ↔ (n + 1) % 256 = 0 := by
      rw [← UInt8.toNat_inj, UInt8.toNat_ofNat']
      rfl
    simp only [leEncode, List.cons_append, incrementReversed, hbyte]
    split
    next hstop =>
      have hcarry : (n + 1) / 256 = n / 256 := by
        have hlow : (n + 1) % 256 ≠ 0 := by rwa [bne_iff_ne, ne_eq, hzero] at hstop
        omega
      rw [hcarry]
    next hgo =>
      have hlow : (n + 1) % 256 = 0 := by
        rwa [Bool.not_eq_true, bne_eq_false_iff_eq, hzero] at hgo
      have hcarry : (n + 1) / 256 = n / 256 + 1 := by omega
      rw [hcarry, ih (by rw [pow_succ] at h; omega)]

/-- The block after `i` steps: the transmit counter, then `i` in twelve bytes, big-endian. -/
theorem bytes_iterate_incrementCounter (txCounter : UInt32) {i : Nat} (h : i < 256 ^ 12) :
    (incrementCounter^[i] (initialCounter txCounter)).bytes =
      leEncode 4 txCounter.toNat ++ (leEncode 12 i).reverse := by
  induction i with
  | zero => rfl
  | succ i ih =>
    have hprev := ih (by omega)
    have hreverse : (incrementCounter^[i] (initialCounter txCounter)).bytes.reverse =
        leEncode 12 i ++ (leEncode 4 txCounter.toNat).reverse := by
      rw [hprev, List.reverse_append, List.reverse_reverse]
    rw [Function.iterate_succ_apply']
    change (incrementReversed (incrementCounter^[i] (initialCounter txCounter)).bytes.reverse).reverse = _
    rw [hreverse, incrementReversed_leEncode h, List.reverse_append, List.reverse_reverse]

/-- Block number `i` of a frame's message. -/
theorem counterBlocks_getElem? {txCounter : UInt32} {message : Bytes} {i : Nat} {block : Octets 16}
    (hlength : message.length ≤ v2MaxPayload) (h : (counterBlocks txCounter message)[i]? = some block) :
    i < 256 ^ 12 ∧ block.bytes = leEncode 4 txCounter.toNat ++ (leEncode 12 i).reverse := by
  obtain ⟨rfl, hlt⟩ := ctrBlocks_getElem? h
  have hi : i < 256 ^ 12 := by
    have hmax : v2MaxPayload < 256 ^ 12 := by decide
    omega
  exact ⟨hi, bytes_iterate_incrementCounter txCounter hi⟩

/-- Numbers that fit their bytes are told apart by them. -/
theorem leEncode_inj {w a b : Nat} (ha : a < 256 ^ w) (hb : b < 256 ^ w) (h : leEncode w a = leEncode w b) :
    a = b := by
  have hdecode := congrArg leDecode h
  rwa [leDecode_leEncode, leDecode_leEncode, Nat.mod_eq_of_lt ha, Nat.mod_eq_of_lt hb] at hdecode

/-- The block says which counter and which block number it was made for. -/
theorem counterBlocks_inj {tx tx' : UInt32} {m m' : Bytes} {i i' : Nat} {block : Octets 16}
    (hm : m.length ≤ v2MaxPayload) (hm' : m'.length ≤ v2MaxPayload)
    (h : (counterBlocks tx m)[i]? = some block) (h' : (counterBlocks tx' m')[i']? = some block) :
    tx = tx' ∧ i = i' := by
  obtain ⟨hi, hb⟩ := counterBlocks_getElem? hm h
  obtain ⟨hi', hb'⟩ := counterBlocks_getElem? hm' h'
  obtain ⟨htx, hindex⟩ := List.append_inj (hb.symm.trans hb') (by simp)
  exact ⟨UInt32.toNat_inj.mp (leEncode_inj tx.toNat_lt tx'.toNat_lt htx),
    leEncode_inj hi hi' (List.reverse_injective hindex)⟩

/-- What counter mode is to give for the frames of one node. -/
structure CounterMode (c : Crypto) : Prop where
  /-- The ciphertext is the message combined with the encrypted counter blocks. -/
  keystream : ∀ key tx m, c.aes256CtrCrypt key tx m =
    xorBytes m ((counterBlocks tx m).flatMap fun block => (c.aes256EncryptBlock key block).bytes)
  /-- The carry stays off the bytes of the transmit counter. -/
  carry : ∀ tx (m : Bytes) block, m.length ≤ v2MaxPayload → block ∈ counterBlocks tx m →
    block.bytes.take 4 = leEncode 4 tx.toNat
  /-- No counter block stands for two pairs of transmit counter and block number. -/
  injective : ∀ tx tx' (m m' : Bytes) (i i' : Nat) block, m.length ≤ v2MaxPayload → m'.length ≤ v2MaxPayload →
    (counterBlocks tx m)[i]? = some block → (counterBlocks tx' m')[i']? = some block → tx = tx' ∧ i = i'
  /-- Twice under one key and counter is the input. -/
  involutive : ∀ key tx m, c.aes256CtrCrypt key tx (c.aes256CtrCrypt key tx m) = m
  /-- So it is through the entry point, where a pre-shared key is set. -/
  crypt : ∀ key tx m out, c.crypt key tx m = some out → c.crypt key tx out = some m
  /-- The beginning of the message gives the beginning of the ciphertext. -/
  takes : ∀ key tx m k, c.aes256CtrCrypt key tx (m.take k) = (c.aes256CtrCrypt key tx m).take k

/-- Counter mode over any block function: the ciphertext is the message combined with the blocks, no
block stands for two places, the carry stays off the transmit counter, and encryption undoes itself.
Each field is a fact about one loop, which `ctrLoop_eq` turns into a list of blocks. -/
theorem counterMode (c : Crypto) : CounterMode c where
  keystream key tx m := ctrLoop_eq m.length (initialCounter tx) m
  carry tx m block hm hmem := by
    obtain ⟨i, hi⟩ := List.mem_iff_getElem?.mp hmem
    rw [(counterBlocks_getElem? hm hi).2]
    exact List.take_left' (length_leEncode 4 tx.toNat)
  injective tx tx' m m' i i' block hm hm' := counterBlocks_inj hm hm'
  involutive key tx m := aes256CtrCrypt_involutive key tx m
  crypt key tx m out h := by
    obtain ⟨hpsk, rfl⟩ := crypt_eq_some h
    rw [crypt_of_psk hpsk, aes256CtrCrypt_involutive]
  takes key tx m k := ctrLoop_take le_rfl le_rfl (by decide)

end Crypto

end EspTree
