import EspTree.Lib.Bytes

/-!
# Numbers and bytes as text

The decimal digits of a number, and the hexadecimal digits of a byte string.  Both texts can be read back: different
numbers, and different byte strings, have different texts.  Upper and lower case have one definition, `digit`, of
which `base` says where the letters are.

The injectivity of the decimal digits is by reading them back (`toNat_of_mem_decimal` for the digits
themselves), that of the hexadecimal digits byte by byte, since every byte has two.  What a decimal
number cannot contain, such as a separator, is what the proofs about composed names use.
-/

namespace Wire

/-! ## Decimal -/

/-- The decimal digits of a number, as characters. -/
def decimal (n : Nat) : Bytes := (Nat.toDigits 10 n).map fun c => UInt8.ofNat c.toNat

/-- A decimal digit is one of ten characters, and each of these is a byte. -/
theorem toNat_of_mem_toDigits {n : Nat} {c : Char} (hc : c ∈ Nat.toDigits 10 n) :
    (UInt8.ofNat c.toNat).toNat = c.toNat ∧ 48 ≤ c.toNat ∧ c.toNat ≤ 57 := by
  have hdigit := Char.isDigit_iff_toNat.1 (Nat.isDigit_of_mem_toDigits (by decide) (by decide) hc)
  have hle : c.toNat ≤ 57 := hdigit.2
  exact ⟨UInt8.toNat_ofNat_of_lt' (lt_of_le_of_lt hle (by decide)), hdigit.1, hle⟩

/-- There are only digits in it. -/
theorem toNat_of_mem_decimal {n : Nat} {b : UInt8} (hb : b ∈ decimal n) : 48 ≤ b.toNat ∧ b.toNat ≤ 57 := by
  obtain ⟨c, hc, rfl⟩ := List.mem_map.1 hb
  obtain ⟨hbyte, hdigit⟩ := toNat_of_mem_toDigits hc
  rwa [hbyte]

/-- Different numbers have different texts. -/
theorem decimal_injective : Function.Injective decimal := by
  have hchars (n : Nat) : (decimal n).map (fun b => Char.ofNat b.toNat) = Nat.toDigits 10 n := by
    rw [decimal, List.map_map]
    refine (List.map_congr_left fun c hc => ?_).trans (List.map_id _)
    show Char.ofNat (UInt8.ofNat c.toNat).toNat = c
    rw [(toNat_of_mem_toDigits hc).1, Char.ofNat_toNat]
  intro a b h
  have hdigits : Nat.toDigits 10 a = Nat.toDigits 10 b := by rw [← hchars a, h, hchars b]
  rw [← Nat.ofDigitChars_ten_toDigits (n := a), hdigits, Nat.ofDigitChars_ten_toDigits]

/-! ## Hexadecimal -/

/-- A digit; the letters come after `base + 9`. -/
def digit (base n : UInt8) : UInt8 := if n < 10 then 48 + n else base + n

/-- The two digits of a byte. -/
def digitPair (base b : UInt8) : Bytes := [digit base (b / 16), digit base (b % 16)]

/-- The digits of a byte string. -/
def hexText (base : UInt8) (b : Bytes) : Bytes := b.flatMap (digitPair base)

section

variable {base : UInt8}

theorem div_sixteen_lt (b : UInt8) : b / 16 < 16 := by
  rw [UInt8.lt_iff_toNat_lt, UInt8.toNat_div]
  exact Nat.div_lt_of_lt_mul b.toNat_lt

theorem mod_sixteen_lt (b : UInt8) : b % 16 < 16 := by
  rw [UInt8.lt_iff_toNat_lt, UInt8.toNat_mod]
  exact Nat.mod_lt _ (by decide)

/-- The letters do not get among the digits. -/
theorem digit_inj (hbase : 48 ≤ base.toNat ∧ base.toNat ≤ 240) {n m : UInt8} (hn : n < 16) (hm : m < 16)
    (h : digit base n = digit base m) : n = m := by
  rw [UInt8.lt_iff_toNat_lt] at hn hm
  have hsixteen : (16 : UInt8).toNat = 16 := rfl
  have hten : (10 : UInt8).toNat = 10 := rfl
  have hzero : (48 : UInt8).toNat = 48 := rfl
  have hvalue := congrArg UInt8.toNat h
  rw [← UInt8.toNat_inj]
  unfold digit at hvalue
  split at hvalue <;> split at hvalue <;> simp only [UInt8.lt_iff_toNat_lt, UInt8.toNat_add] at * <;> omega

/-- Two digits give their byte, wherever the letters are, as long as they are clear of the ten
digits. -/
theorem digitPair_injective (hbase : 48 ≤ base.toNat ∧ base.toNat ≤ 240) : Function.Injective (digitPair base) := by
  intro a b h
  obtain ⟨hhigh, hrest⟩ := List.cons.inj h
  obtain ⟨hlow, -⟩ := List.cons.inj hrest
  have hquot := congrArg UInt8.toNat (digit_inj hbase (div_sixteen_lt a) (div_sixteen_lt b) hhigh)
  have hrem := congrArg UInt8.toNat (digit_inj hbase (mod_sixteen_lt a) (mod_sixteen_lt b) hlow)
  rw [UInt8.toNat_div, UInt8.toNat_div] at hquot
  rw [UInt8.toNat_mod, UInt8.toNat_mod] at hrem
  rw [← UInt8.toNat_inj, ← Nat.div_add_mod a.toNat 16, ← Nat.div_add_mod b.toNat 16]
  exact congrArg₂ (fun q r => 16 * q + r) hquot hrem

/-- Different byte strings have different texts. -/
theorem hexText_injective (hbase : 48 ≤ base.toNat ∧ base.toNat ≤ 240) : Function.Injective (hexText base) :=
  flatMap_injective Nat.two_pos (fun _ => rfl) (digitPair_injective hbase)

/-- A byte takes two digits. -/
theorem length_hexText (b : Bytes) : (hexText base b).length = b.length * 2 := by
  have hpair : (fun b => (digitPair base b).length) = fun _ => 2 := rfl
  rw [hexText, List.length_flatMap, hpair, List.map_const', List.sum_replicate]
  rfl

end

end Wire
