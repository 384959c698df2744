import Mathlib.Data.Nat.Bitwise
import Mathlib.Data.Vector.Basic
import Mathlib.Data.List.Basic
import Mathlib.Tactic.Ring
import Mathlib.Tactic.Linarith

/-!
# Byte strings of fixed and of variable length

A packed wire format is a concatenation of fixed-width fields.  This file has
what a codec over such a format and a buffer filled from it rest on:

* `Octets n`, a byte string that carries its own length, so that a field of the
  wrong width cannot be built, and `Octets.fit`, the copy of exactly `n` bytes out
  of a buffer (`memcpy` of `n` bytes);
* `leEncode`/`leDecode`, the little-endian bytes of a natural number, with both
  round trips;
* `slice`/`overwrite`, reading and writing a range of a buffer, and bitmaps over bytes
  (`bitmapGet`, `bitmapSet`);
* `xorBytes`, the bytewise combination of a message with a key stream, which is an
  involution as soon as the key stream is long enough, and counter mode built on it.

Nothing here knows about a particular frame.
-/

namespace Wire

/-- A byte string of unknown length. -/
abbrev Bytes := List UInt8

/-- A byte string of exactly `n` bytes. -/
abbrev Octets (n : Nat) := List.Vector UInt8 n

namespace Octets

/-- The bytes of a fixed-width field. -/
def bytes {n : Nat} (o : Octets n) : Bytes := o.1

@[simp] theorem length_bytes {n : Nat} (o : Octets n) : o.bytes.length = n := o.2

/-- The length is no data: two strings of one length are equal when their bytes are. -/
@[ext] theorem ext {n : Nat} {a b : Octets n} (h : a.bytes = b.bytes) : a = b :=
  Subtype.ext h

/-- `n` zero bytes. -/
def zero (n : Nat) : Octets n := ⟨List.replicate n 0, List.length_replicate⟩

/-- The first `n` bytes of a buffer.  A buffer that is too short is read as if it
were followed by zeros. -/
def fit (n : Nat) (l : Bytes) : Octets n :=
  ⟨l.take n ++ List.replicate (n - l.length) 0, by simp; omega⟩

/-- Out of a buffer that is long enough `fit` copies its first bytes; it pads a shorter one with
zeros. -/
theorem bytes_fit {n : Nat} {l : Bytes} (h : n ≤ l.length) : (fit n l).bytes = l.take n := by
  have hz : n - l.length = 0 := Nat.sub_eq_zero_of_le h
  simp [fit, bytes, hz]

/-- Copying a field out of a buffer that starts with it gives the field back. -/
@[simp] theorem fit_bytes_append {n : Nat} (o : Octets n) (rest : Bytes) :
    fit n (o.bytes ++ rest) = o := by
  apply Octets.ext
  rw [bytes_fit (by simp)]
  exact List.take_left' o.length_bytes

@[simp] theorem fit_bytes {n : Nat} (o : Octets n) : fit n o.bytes = o := by
  simpa using fit_bytes_append o []

end Octets

/-! ## Little-endian naturals -/

/-- The `w` little-endian bytes of `n`; what does not fit into `w` bytes is dropped. -/
def leEncode : Nat → Nat → Bytes
  | 0, _ => []
  | w + 1, n => UInt8.ofNat n :: leEncode w (n / 256)

/-- The natural number with the given little-endian bytes. -/
def leDecode : Bytes → Nat
  | [] => 0
  | b :: bs => b.toNat + 256 * leDecode bs

@[simp] theorem length_leEncode (w n : Nat) : (leEncode w n).length = w := by
  induction w generalizing n with
  | zero => rfl
  | succ w ih => simp [leEncode, ih]

/-- A number that is too large for `w` bytes is cut off. -/
@[simp] theorem leDecode_leEncode (w n : Nat) : leDecode (leEncode w n) = n % 256 ^ w := by
  induction w generalizing n with
  | zero => simp [leEncode, leDecode, Nat.mod_one]
  | succ w ih =>
    have hb : (UInt8.ofNat n).toNat = n % 256 := by simp
    rw [leEncode, leDecode, ih, hb, pow_succ', Nat.mod_mul]

theorem leDecode_lt (l : Bytes) : leDecode l < 256 ^ l.length := by
  induction l with
  | nil => simp [leDecode]
  | cons b bs ih =>
    have hb : b.toNat < 256 := b.toNat_lt
    rw [leDecode, List.length_cons, pow_succ']
    omega

/-- The other round trip, which holds without a bound. -/
theorem leEncode_leDecode (l : Bytes) : leEncode l.length (leDecode l) = l := by
  induction l with
  | nil => rfl
  | cons b bs ih =>
    have hb : b.toNat < 256 := b.toNat_lt
    have hdiv : (b.toNat + 256 * leDecode bs) / 256 = leDecode bs := by omega
    have hmod : UInt8.ofNat (b.toNat + 256 * leDecode bs) = b := by
      apply UInt8.toNat_inj.mp
      rw [UInt8.toNat_ofNat']
      omega
    rw [List.length_cons, leDecode, leEncode, hdiv, hmod, ih]

/-! ## Bytewise exclusive or -/

/-- Combine a message with a key stream, byte by byte. -/
def xorBytes (m ks : Bytes) : Bytes := List.zipWith (· ^^^ ·) m ks

@[simp] theorem length_xorBytes (m ks : Bytes) :
    (xorBytes m ks).length = min m.length ks.length := List.length_zipWith

/-- The same key stream twice gives the message back. -/
theorem xorBytes_xorBytes {m ks : Bytes} (h : m.length ≤ ks.length) :
    xorBytes (xorBytes m ks) ks = m := by
  induction m generalizing ks with
  | nil => rfl
  | cons b bs ih =>
    cases ks with
    | nil => simp at h
    | cons k ks =>
      have hk : b ^^^ k ^^^ k = b := by rw [UInt8.xor_assoc, UInt8.xor_self, UInt8.xor_zero]
      have ht : xorBytes (xorBytes bs ks) ks = bs := ih (by simpa using h)
      simpa [xorBytes, hk] using ht

/-! ## Slices of a buffer -/

/-- The `len` bytes of a buffer from `off` on. -/
def slice (buf : Bytes) (off len : Nat) : Bytes := (buf.drop off).take len

/-- `memcpy(buf + off, src, src.length)`. -/
def overwrite (buf : Bytes) (off : Nat) (src : Bytes) : Bytes :=
  buf.take off ++ src ++ buf.drop (off + src.length)

theorem length_slice {buf : Bytes} {off len : Nat} (h : off + len ≤ buf.length) :
    (slice buf off len).length = len := by
  simp only [slice, List.length_take, List.length_drop]
  omega

theorem length_overwrite {buf src : Bytes} {off : Nat} (h : off + src.length ≤ buf.length) :
    (overwrite buf off src).length = buf.length := by
  simp only [overwrite, List.length_append, List.length_take, List.length_drop]
  omega

/-- A buffer that is cut every `k` bytes, put together again. -/
theorem flatMap_slice (buf : Bytes) (n k : Nat) :
    (List.range n).flatMap (fun i => slice buf (i * k) k) = buf.take (n * k) := by
  induction n with
  | zero => simp
  | succ n ih =>
    rw [List.range_succ, List.flatMap_append, ih, List.flatMap_singleton, slice, Nat.succ_mul,
      List.take_add]

/-- A list is read back from the fixed-width codes of its elements. -/
theorem flatMap_injective {α β : Type} {f : α → List β} {n : Nat} (hn : 0 < n) (hlength : ∀ a, (f a).length = n)
    (hf : Function.Injective f) : Function.Injective fun l : List α => l.flatMap f := by
  have hne (a : α) : f a ≠ [] := List.ne_nil_of_length_pos ((hlength a).symm ▸ hn)
  intro l l' h
  induction l generalizing l' with
  | nil =>
    cases l' with
    | nil => rfl
    | cons b l' => exact absurd (List.append_eq_nil_iff.1 h.symm).1 (hne b)
  | cons a l ih =>
    cases l' with
    | nil => exact absurd (List.append_eq_nil_iff.1 h).1 (hne a)
    | cons b l' =>
      obtain ⟨hhead, htail⟩ := List.append_inj h ((hlength a).trans (hlength b).symm)
      rw [hf hhead, ih htail]

/-- What was written is read back. -/
theorem slice_overwrite_self {buf src : Bytes} {off : Nat} (h : off + src.length ≤ buf.length) :
    slice (overwrite buf off src) off src.length = src := by
  have htake : (buf.take off).length = off := by
    rw [List.length_take]
    omega
  rw [slice, overwrite, List.append_assoc, List.drop_left' htake, List.take_left' rfl]

/-- A write leaves every slice before or after it alone. -/
theorem slice_overwrite_of_disjoint {buf src : Bytes} {off off' len : Nat}
    (h : off + src.length ≤ buf.length) (hd : off' + len ≤ off ∨ off + src.length ≤ off') :
    slice (overwrite buf off src) off' len = slice buf off' len := by
  apply List.ext_getElem?
  intro i
  simp only [slice, List.getElem?_take, List.getElem?_drop]
  split
  · next hi =>
    rw [overwrite, List.append_assoc]
    rcases hd with hd | hd
    · rw [List.getElem?_append_left (by rw [List.length_take]; omega), List.getElem?_take,
        if_pos (by omega)]
    · rw [List.getElem?_append_right (by rw [List.length_take]; omega), List.length_take,
        List.getElem?_append_right (by omega), List.getElem?_drop]
      congr 1
      omega
  · rfl

/-! ## Bitmaps

A set of small numbers, one bit each, in bytes: bit `i % 8` of byte `i / 8`. -/

/-- The mask of bit `i` inside its byte. -/
def bitMask (i : Nat) : UInt8 := UInt8.ofNat (1 <<< (i % 8))

/-- The bit of `i`; a bit beyond the bitmap is clear. -/
def bitmapGet (bm : Bytes) (i : Nat) : Bool := bm.getD (i / 8) 0 &&& bitMask i != 0

/-- Set the bit of `i`; a bit beyond the bitmap is left alone. -/
def bitmapSet (bm : Bytes) (i : Nat) : Bytes := bm.modify (i / 8) (· ||| bitMask i)

/-- The bitmap with `n` bits, all clear. -/
def bitmapEmpty (n : Nat) : Bytes := List.replicate ((n + 7) / 8) 0

/-- The mask of a place has the one bit of this place within its byte. -/
theorem toNat_bitMask (i : Nat) : (bitMask i).toNat = 2 ^ (i % 8) := by
  have hpow : 2 ^ (i % 8) < 2 ^ 8 :=
    Nat.pow_lt_pow_right (by decide) (Nat.mod_lt _ (by decide))
  simp only [bitMask, UInt8.toNat_ofNat', Nat.one_shiftLeft]
  exact Nat.mod_eq_of_lt hpow

/-- Testing a byte against the mask of a place reads the bit of this place. -/
theorem and_bitMask (b : UInt8) (i : Nat) : (b &&& bitMask i != 0) = b.toNat.testBit (i % 8) := by
  have hnat : (b &&& bitMask i = 0) ↔ b.toNat &&& 2 ^ (i % 8) = 0 := by
    rw [← UInt8.toNat_inj, UInt8.toNat_and, toNat_bitMask]
    rfl
  rw [Nat.and_two_pow] at hnat
  by_cases hb : b.toNat.testBit (i % 8)
  · have hne : b &&& bitMask i ≠ 0 := by
      rw [Ne, hnat, hb]
      simp
    simpa [hb] using hne
  · have he : b &&& bitMask i = 0 := by
      rw [hnat]
      simp [hb]
    simp [hb, he]

/-- A bitmap is read bit by bit; a place beyond its end is not set. -/
theorem bitmapGet_eq (bm : Bytes) (i : Nat) :
    bitmapGet bm i = (bm.getD (i / 8) 0).toNat.testBit (i % 8) := and_bitMask _ _

@[simp] theorem length_bitmapSet (bm : Bytes) (i : Nat) : (bitmapSet bm i).length = bm.length := by
  simp [bitmapSet]

@[simp] theorem bitmapGet_empty (n i : Nat) : bitmapGet (bitmapEmpty n) i = false := by
  have hz : (bitmapEmpty n).getD (i / 8) 0 = 0 := by
    simp only [bitmapEmpty, List.getD_eq_getElem?_getD, List.getElem?_replicate]
    split <;> rfl
  rw [bitmapGet_eq, hz]
  exact Nat.zero_testBit _

/-- Setting a bit that the bitmap has changes that bit and no other. -/
theorem bitmapGet_set {bm : Bytes} {i : Nat} (h : i / 8 < bm.length) (j : Nat) :
    bitmapGet (bitmapSet bm i) j = (decide (i = j) || bitmapGet bm j) := by
  rw [bitmapGet_eq, bitmapGet_eq]
  by_cases hbyte : i / 8 = j / 8
  · have hget : (bitmapSet bm i).getD (j / 8) 0 = bm.getD (j / 8) 0 ||| bitMask i := by
      rw [← hbyte]
      simp [bitmapSet, List.getD_eq_getElem?_getD, h]
    have hij : i % 8 = j % 8 ↔ i = j := by omega
    rw [hget, UInt8.toNat_or, toNat_bitMask, Nat.testBit_or, Nat.testBit_two_pow]
    simp only [hij, Bool.or_comm]
  · have hne : i ≠ j := fun e => hbyte (by rw [e])
    have hget : (bitmapSet bm i).getD (j / 8) 0 = bm.getD (j / 8) 0 := by
      simp [bitmapSet, List.getD_eq_getElem?_getD, hbyte]
    rw [hget]
    simp [hne]

/-! ## Counter mode -/

section CounterMode

variable {n : Nat} (cipher next : Octets n → Octets n)

/-- The counter-mode loop: each block of at most `n` input bytes is combined with the
encrypted counter block, and the counter block is stepped.  `fuel` bounds the number of
blocks; the input length is always enough for `0 < n`. -/
def ctrLoop : Nat → Octets n → Bytes → Bytes
  | 0, _, _ => []
  | fuel + 1, counter, input =>
    if input.isEmpty then []
    else xorBytes (input.take n) (cipher counter).bytes ++
      ctrLoop fuel (next counter) (input.drop n)

variable {cipher next}

/-- Counter mode keeps the length, as long as the fuel lasts for the input. -/
theorem length_ctrLoop (hn : 0 < n) {fuel : Nat} {counter : Octets n} {input : Bytes}
    (h : input.length ≤ fuel) : (ctrLoop cipher next fuel counter input).length = input.length := by
  induction fuel generalizing counter input with
  | zero =>
    have hlen : input.length = 0 := Nat.le_zero.mp h
    simp [ctrLoop, hlen]
  | succ fuel ih =>
    by_cases he : input.isEmpty
    · simp [ctrLoop, List.isEmpty_iff.mp he]
    · have hpos : 0 < input.length := by
        rw [List.length_pos_iff]
        simpa using he
      have hrest : (input.drop n).length ≤ fuel := by
        rw [List.length_drop]
        omega
      simp only [ctrLoop, he, Bool.false_eq_true, if_false, List.length_append,
        length_xorBytes, List.length_take, Octets.length_bytes, ih hrest, List.length_drop]
      omega

/-- Counter mode is its own inverse: the second pass runs through the same counter
blocks and so through the same key stream. -/
theorem ctrLoop_ctrLoop (hn : 0 < n) {fuel : Nat} {counter : Octets n} {input : Bytes}
    (h : input.length ≤ fuel) :
    ctrLoop cipher next fuel counter (ctrLoop cipher next fuel counter input) = input := by
  induction fuel generalizing counter input with
  | zero => simpa [ctrLoop] using h
  | succ fuel ih =>
    by_cases he : input.isEmpty
    · simp [ctrLoop, List.isEmpty_iff.mp he]
    · have hpos : 0 < input.length := by
        rw [List.length_pos_iff]
        simpa using he
      have hrest : (input.drop n).length ≤ fuel := by
        rw [List.length_drop]
        omega
      -- the first block of the output is the first block of the input, combined
      set first := xorBytes (input.take n) (cipher counter).bytes with hfirst
      set rest := ctrLoop cipher next fuel (next counter) (input.drop n) with hrestdef
      have hout : ctrLoop cipher next (fuel + 1) counter input = first ++ rest := by
        simp [ctrLoop, he, hfirst, hrestdef]
      have hflen : first.length = min n input.length := by simp [hfirst]
      have hne : (first ++ rest).isEmpty = false := by
        rw [List.isEmpty_eq_false_iff, ← List.length_pos_iff, List.length_append]
        omega
      rw [hout, ctrLoop, hne]
      by_cases hfull : n ≤ input.length
      · have hf : first.length = n := by omega
        have hblock : xorBytes first (cipher counter).bytes = input.take n :=
          xorBytes_xorBytes (by simp)
        simp only [Bool.false_eq_true, if_false, List.take_left' hf, List.drop_left' hf, hblock]
        rw [hrestdef, ih hrest, List.take_append_drop]
      · -- a short last block: nothing is left for the recursive call
        have hdrop : input.drop n = [] := List.drop_eq_nil_of_le (by omega)
        have hr : rest = [] := by
          rw [← List.length_eq_zero_iff, hrestdef, length_ctrLoop hn hrest, hdrop]
          rfl
        have htake : input.take n = input := List.take_of_length_le (by omega)
        have hblock : xorBytes first (cipher counter).bytes = input := by
          rw [hfirst, htake]
          exact xorBytes_xorBytes (by simp; omega)
        have hfn : first.length ≤ n := by omega
        simp only [hr, List.append_nil, Bool.false_eq_true, if_false, List.take_of_length_le hfn,
          List.drop_eq_nil_of_le hfn, hblock]
        cases fuel <;> simp [ctrLoop]

end CounterMode

end Wire
