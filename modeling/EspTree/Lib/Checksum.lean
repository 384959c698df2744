import EspTree.Lib.Bytes

/-!
# Cyclic redundancy checks

The remainder of a checksum is kept in a register of 32 bits.  It can be shifted bit by bit, or a
whole byte at a time with a table of the 256 remainders of one byte.  Both give the same, for every
polynomial (`byTable_eq_byBits`): a shift is linear in exclusive or, so that eight shifts are those of
the low byte, which are in the table, and a move of the other three.

The table is computed and not written out, so that the theorem is about every table of this form.
What the polynomial is, the value that the register begins with, and whether it is inverted at the
end are left to the caller: they do not matter for the step.
-/

namespace Wire

namespace Crc

/-- One shift of the register, with the polynomial in reversed bit order. -/
def shift (poly crc : UInt32) : UInt32 :=
  if crc &&& 1 = 1 then (crc >>> 1) ^^^ poly else crc >>> 1

/-- A byte, bit by bit. -/
def byBits (poly crc : UInt32) (b : UInt8) : UInt32 := (shift poly)^[8] (crc ^^^ b.toUInt32)

/-- The remainder of one byte. -/
def table (poly : UInt32) (i : UInt8) : UInt32 := (shift poly)^[8] i.toUInt32

/-- A byte, with the table. -/
def byTable (poly crc : UInt32) (b : UInt8) : UInt32 :=
  table poly (crc ^^^ b.toUInt32).toUInt8 ^^^ (crc >>> 8)

variable (poly : UInt32)

/-- The test in the source of a shift is about bit 0 of the register. -/
theorem low_bit (c : UInt32) : c &&& 1 = 1 ↔ c.toBitVec.getLsbD 0 = true := by
  have hand : (c &&& 1).toBitVec = BitVec.setWidth 32 (BitVec.ofBool (c.toBitVec.getLsbD 0)) := by
    rw [UInt32.toBitVec_and]
    exact BitVec.and_one_eq_setWidth_ofBool_getLsbD
  rw [← UInt32.toBitVec_inj, hand]
  cases c.toBitVec.getLsbD 0 <;> decide

/-- A shift is linear in exclusive or, since the polynomial is added exactly for the low bit. -/
theorem shift_xor (a b : UInt32) : shift poly (a ^^^ b) = shift poly a ^^^ shift poly b := by
  have hmove : (a ^^^ b) >>> 1 = (a >>> 1) ^^^ (b >>> 1) := by
    rw [← UInt32.toBitVec_inj]
    exact BitVec.ushiftRight_xor_distrib ..
  have hbit : (a ^^^ b).toBitVec.getLsbD 0 = (a.toBitVec.getLsbD 0 ^^ b.toBitVec.getLsbD 0) :=
    BitVec.getLsbD_xor
  simp only [shift, low_bit, hmove, hbit]
  cases a.toBitVec.getLsbD 0 <;> cases b.toBitVec.getLsbD 0
  · rfl
  · exact UInt32.xor_assoc ..
  · simp only [Bool.true_xor, Bool.not_false, if_true, Bool.false_eq_true, if_false]
    rw [UInt32.xor_assoc, UInt32.xor_assoc, UInt32.xor_comm poly]
  · -- the polynomial is added twice
    simp only [Bool.true_xor, Bool.not_true, if_true, Bool.false_eq_true, if_false]
    rw [UInt32.xor_comm (b >>> 1), UInt32.xor_assoc, ← UInt32.xor_assoc poly, UInt32.xor_self,
      UInt32.zero_xor]

/-- So are any number of shifts. -/
theorem shift_iterate_xor (n : Nat) (a b : UInt32) :
    (shift poly)^[n] (a ^^^ b) = (shift poly)^[n] a ^^^ (shift poly)^[n] b := by
  induction n generalizing a b with
  | zero => rfl
  | succ n ih => simp only [Function.iterate_succ_apply, shift_xor, ih]

/-- A register whose low byte is zero only moves. -/
theorem shift_iterate_high (c : UInt32) {n : Nat} (hn : n ≤ 8) :
    (shift poly)^[n] (c <<< 8) = UInt32.ofBitVec ((c <<< 8).toBitVec >>> n) := by
  induction n with
  | zero => rfl
  | succ n ih =>
    have hbit : ¬ (UInt32.ofBitVec ((c <<< 8).toBitVec >>> n)) &&& 1 = 1 := by
      rw [low_bit]
      simpa using fun _ _ => by omega
    rw [Function.iterate_succ_apply', ih (by omega), shift, if_neg hbit, ← UInt32.toBitVec_inj]
    exact (BitVec.shiftRight_add ..).symm

/-- A register is its low byte and its three other bytes. -/
theorem split_low (c : UInt32) : c = c.toUInt8.toUInt32 ^^^ ((c >>> 8) <<< 8) := by
  have hbyte : c.toUInt8.toUInt32.toBitVec = (c.toBitVec.setWidth 8).setWidth 32 := rfl
  have hrest : ((c >>> 8) <<< 8).toBitVec = (c.toBitVec >>> 8) <<< 8 := rfl
  rw [← UInt32.toBitVec_inj, UInt32.toBitVec_xor, hbyte, hrest]
  apply BitVec.eq_of_getLsbD_eq
  intro i hi
  rw [BitVec.getLsbD_xor, BitVec.getLsbD_setWidth, BitVec.getLsbD_setWidth, BitVec.getLsbD_shiftLeft,
    BitVec.getLsbD_ushiftRight]
  by_cases hlow : i < 8
  · simp [hlow, hi]
  · simp [hlow, hi, Nat.add_sub_cancel' (Nat.not_lt.1 hlow)]

/-- Eight shifts are those of the low byte and a move of the rest. -/
theorem shift_iterate_byte (c : UInt32) :
    (shift poly)^[8] c = table poly c.toUInt8 ^^^ (c >>> 8) := by
  have hhigh : (shift poly)^[8] ((c >>> 8) <<< 8) = c >>> 8 := by
    rw [shift_iterate_high poly _ le_rfl, ← UInt32.toBitVec_inj]
    apply BitVec.eq_of_getLsbD_eq
    intro i hi
    simpa using fun hbit : c.toBitVec.getLsbD (8 + i) = true => BitVec.lt_of_getLsbD hbit
  conv_lhs => rw [split_low c]
  rw [shift_iterate_xor, hhigh]
  rfl

/-- The table gives for a whole byte what eight shifts give bit by bit. -/
theorem byTable_eq_byBits (crc : UInt32) (b : UInt8) : byTable poly crc b = byBits poly crc b := by
  have hmove : (crc ^^^ b.toUInt32) >>> 8 = crc >>> 8 := by
    rw [← UInt32.toBitVec_inj]
    apply BitVec.eq_of_getLsbD_eq
    intro i hi
    simp
  rw [byBits, shift_iterate_byte, hmove]
  rfl

end Crc

end Wire
