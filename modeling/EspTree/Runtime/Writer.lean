import EspTree.Runtime.Codec

/-!
# The writer of the runtime API

What the functions of `Writer` append, and `Item`, a call of one of them: a builder is a list of calls, and a
nested message has a builder of its own.  `readAll_writeAll` says that repeated `read_field` returns what was
written, in that order, and consumes it: an empty string is not written, and a nested message is read as bytes.

`bytes` is called with the address of a vector, so that its null pointer is not modelled.

The numbers of fields are given in the source as arguments, so that a program of the writer can be
read as a list of items without running it.  Signed numbers are written in zigzag form, which is why
the reader of the other end has to know the schema; `zigzag32_eq` and `zigzag64_eq` say that the
shifts of the source are that form for every number, the least one included.
-/

namespace EspTree

open Wire

namespace Runtime

def zigzag32 (value : Int32) : Nat := ((value.toBitVec <<< 1) ^^^ value.toBitVec.sshiftRight 31).toNat

def zigzag64 (value : Int64) : Nat := ((value.toBitVec <<< 1) ^^^ value.toBitVec.sshiftRight 63).toNat

namespace Writer

def rawVarint (value : Nat) : Bytes :=
  if 0x80 ≤ value then UInt8.ofNat (value ||| 0x80) :: rawVarint (value >>> 7) else [UInt8.ofNat value]
termination_by value
decreasing_by
  rw [Nat.shiftRight_eq_div_pow]
  omega

def tag (field wire : Nat) : Bytes := rawVarint (field <<< 3 ||| wire)

def varint (field value : Nat) : Bytes := tag field 0 ++ rawVarint value

def sint32 (field : Nat) (value : Int32) : Bytes := tag field 0 ++ rawVarint (zigzag32 value)

def sint64 (field : Nat) (value : Int64) : Bytes := tag field 0 ++ rawVarint (zigzag64 value)

def boolean (field : Nat) (value : Bool) : Bytes := varint field (if value then 1 else 0)

def fixed64 (field value : Nat) : Bytes :=
  tag field 1 ++ (List.range 8).map fun i => UInt8.ofNat ((value >>> (8 * i)) &&& 0xFF)

def bytes (field : Nat) (data : Bytes) : Bytes := tag field 2 ++ rawVarint data.length ++ data

def string (field : Nat) (value : Bytes) : Bytes := if value = [] then [] else bytes field value

/-- `message`, where the builder writes `nested`. -/
def message (field : Nat) (nested : Bytes) : Bytes := bytes field nested

end Writer

/-- A call of the writer. -/
inductive Item
  | varint (field value : Nat)
  | sint32 (field : Nat) (value : Int32)
  | sint64 (field : Nat) (value : Int64)
  | boolean (field : Nat) (value : Bool)
  | fixed64 (field value : Nat)
  | string (field : Nat) (value : Bytes)
  | bytes (field : Nat) (data : Bytes)
  | message (field : Nat) (builder : List Item)

mutual

/-- What a call appends. -/
def Item.write : Item → Bytes
  | .varint field value => Writer.varint field value
  | .sint32 field value => Writer.sint32 field value
  | .sint64 field value => Writer.sint64 field value
  | .boolean field value => Writer.boolean field value
  | .fixed64 field value => Writer.fixed64 field value
  | .string field value => Writer.string field value
  | .bytes field data => Writer.bytes field data
  | .message field builder => Writer.message field (writeAll builder)

/-- What a builder appends. -/
def writeAll : List Item → Bytes
  | [] => []
  | item :: items => item.write ++ writeAll items

end

namespace Item

/-- The number of its field. -/
def field : Item → Nat
  | .varint field _ | .sint32 field _ | .sint64 field _ | .boolean field _ | .fixed64 field _ | .string field _
  | .bytes field _ | .message field _ => field

/-- The field of the format that is written. -/
def value : Item → Proto.Value
  | .varint _ value => .varint value
  | .sint32 _ value => .varint (Proto.zigzag value.toInt)
  | .sint64 _ value => .varint (Proto.zigzag value.toInt)
  | .boolean _ value => .varint value.toNat
  | .fixed64 _ value => .fixed64 ⟨leEncode 8 value, length_leEncode 8 value⟩
  | .string _ value => .bytes value
  | .bytes _ data => .bytes data
  | .message _ builder => .bytes (writeAll builder)

/-- Nothing is written for an empty string. -/
def toField? : Item → Option Proto.Field
  | .string _ [] => none
  | item => some ⟨item.field, item.value⟩

/-- What the types of the arguments promise: a `field` of 32 bits, and values and lengths of 64. -/
inductive Valid : Item → Prop
  | varint {field value} (hfield : field < 2 ^ 32) (hvalue : value < 2 ^ 64) : Valid (.varint field value)
  | sint32 {field value} (hfield : field < 2 ^ 32) : Valid (.sint32 field value)
  | sint64 {field value} (hfield : field < 2 ^ 32) : Valid (.sint64 field value)
  | boolean {field value} (hfield : field < 2 ^ 32) : Valid (.boolean field value)
  | fixed64 {field value} (hfield : field < 2 ^ 32) (hvalue : value < 2 ^ 64) : Valid (.fixed64 field value)
  | string {field value} (hfield : field < 2 ^ 32) (hvalue : value.length < 2 ^ 64) : Valid (.string field value)
  | bytes {field data} (hfield : field < 2 ^ 32) (hdata : data.length < 2 ^ 64) : Valid (.bytes field data)
  | message {field builder} (hfield : field < 2 ^ 32) (hbuilder : ∀ item ∈ builder, item.Valid)
    (hlength : (writeAll builder).length < 2 ^ 64) : Valid (.message field builder)

end Item

/-! ## What is written is the format -/

/-- The shift by all bits but one leaves the sign. -/
theorem toNat_zigzag {w : Nat} (x : BitVec (w + 1)) :
    ((x <<< 1) ^^^ x.sshiftRight w).toNat = Proto.zigzag x.toInt := by
  have hlt := x.isLt
  have hpow : 2 ^ (w + 1) = 2 * 2 ^ w := by rw [Nat.pow_succ, Nat.mul_comm]
  have hshift : (x <<< 1).toNat = 2 * x.toNat % 2 ^ (w + 1) := by
    rw [BitVec.toNat_shiftLeft, Nat.shiftLeft_eq, Nat.mul_comm]
  cases hmsb : x.msb with
  | false =>
    have hsmall : x.toNat < 2 ^ w := by
      have h := BitVec.msb_eq_false_iff_two_mul_lt.1 hmsb
      omega
    have hzero : x.sshiftRight w = 0#(w + 1) := by
      apply BitVec.eq_of_toNat_eq
      rw [BitVec.toNat_sshiftRight_of_msb_false hmsb, Nat.shiftRight_eq_div_pow, Nat.div_eq_of_lt hsmall]
      rfl
    have hint : x.toInt = x.toNat := by
      rw [BitVec.toInt_eq_msb_cond, hmsb]
      rfl
    rw [hzero, BitVec.xor_zero, hshift, hint, Nat.mod_eq_of_lt (by omega), Proto.zigzag,
      if_pos (Int.natCast_nonneg _)]
    omega
  | true =>
    have hlarge : 2 ^ w ≤ x.toNat := by
      have h := BitVec.msb_eq_true_iff_two_mul_ge.1 hmsb
      omega
    have hones : x.sshiftRight w = BitVec.allOnes (w + 1) := by
      apply BitVec.eq_of_toNat_eq
      rw [BitVec.toNat_sshiftRight_of_msb_true hmsb, Nat.shiftRight_eq_div_pow,
        Nat.div_eq_of_lt (by omega), BitVec.toNat_allOnes, Nat.sub_zero]
    have hint : x.toInt = (x.toNat : Int) - (2 ^ (w + 1) : Nat) := by
      rw [BitVec.toInt_eq_msb_cond, hmsb]
      rfl
    have hmod : 2 * x.toNat % 2 ^ (w + 1) = 2 * x.toNat - 2 ^ (w + 1) := by
      rw [Nat.mod_eq_sub_mod (by omega), Nat.mod_eq_of_lt (by omega)]
    rw [hones, BitVec.xor_allOnes, BitVec.toNat_not, hshift, hmod, hint, Proto.zigzag, if_neg (by omega)]
    omega

theorem zigzag32_eq (value : Int32) : zigzag32 value = Proto.zigzag value.toInt := toNat_zigzag value.toBitVec

/-- The shifts of the source are the zigzag of the format. -/
theorem zigzag64_eq (value : Int64) : zigzag64 value = Proto.zigzag value.toInt := toNat_zigzag value.toBitVec

theorem zigzag_toInt_lt (value : Int64) : Proto.zigzag value.toInt < 2 ^ 64 := by
  rw [← zigzag64_eq]
  exact BitVec.isLt _

namespace Writer

/-- Seven bits with the highest bit set: the others of the number are cut off with the byte. -/
theorem ofNat_or (value : Nat) : UInt8.ofNat (value ||| 0x80) = UInt8.ofNat (value % 128 + 128) := by
  have hall : ∀ k : Fin 256, k.val ||| 0x80 = k.val % 128 + 128 := by decide +kernel
  apply UInt8.toNat_inj.1
  have hbyte : value % 2 ^ 8 ||| 0x80 = value % 2 ^ 8 % 128 + 128 :=
    hall ⟨value % 2 ^ 8, Nat.mod_lt _ (by decide)⟩
  have hsmall : 0x80 % 2 ^ 8 = 0x80 := rfl
  rw [UInt8.toNat_ofNat', UInt8.toNat_ofNat', Nat.or_mod_two_pow, hsmall, hbyte]
  omega

/-- The loop of the writer gives the groups of seven bits of the format, and no more than needed. -/
theorem rawVarint_eq_varintBytes {w value : Nat} (h : value < 2 ^ (7 * (w + 1))) :
    rawVarint value = Proto.varintBytes (w + 1) value := by
  induction w generalizing value with
  | zero =>
    rw [rawVarint, Proto.varintBytes, if_neg (by omega), if_pos (by omega)]
  | succ w ih =>
    rw [rawVarint, Proto.varintBytes]
    split
    next hlarge =>
      have hdiv : value >>> 7 < 2 ^ (7 * (w + 1)) := by
        rw [Nat.shiftRight_eq_div_pow, Nat.div_lt_iff_lt_mul (by decide), ← Nat.pow_add]
        exact h
      rw [if_neg (by omega), ofNat_or, ih hdiv, Nat.shiftRight_eq_div_pow]
    next hsmall => rw [if_pos (by omega)]

/-- `raw_varint` writes the varint of the format. -/
theorem rawVarint_eq {value : Nat} (h : value < 2 ^ 64) : rawVarint value = Proto.varint value :=
  rawVarint_eq_varintBytes (w := 9) (by omega)

/-- A tag is the number of the field and its wire type, as one number. -/
theorem tag_eq {field : Nat} (value : Proto.Value) (h : field < 2 ^ 32) :
    tag field value.wire = Proto.varint (field * 8 + value.wire) := by
  have hwire : value.wire < 2 ^ 3 := by cases value <;> simp [Proto.Value.wire]
  have hor : field <<< 3 ||| value.wire = field * 8 + value.wire := by
    rw [← Nat.shiftLeft_add_eq_or_of_lt hwire, Nat.shiftLeft_eq]
  rw [tag, hor, rawVarint_eq (by omega)]

/-- The bytes of a number, the low one first. -/
theorem bytes_eq_leEncode (w value : Nat) :
    ((List.range w).map fun i => UInt8.ofNat ((value >>> (8 * i)) &&& 0xFF)) = leEncode w value := by
  induction w generalizing value with
  | zero => rfl
  | succ w ih =>
    rw [List.range_succ_eq_map, List.map_cons, List.map_map, leEncode, ← ih]
    congr 1
    · have hmask : value >>> (8 * 0) &&& 0xFF = value % 2 ^ 8 := Nat.and_two_pow_sub_one_eq_mod value 8
      apply UInt8.toNat_inj.1
      rw [hmask, UInt8.toNat_ofNat', UInt8.toNat_ofNat', Nat.mod_mod]
    · apply List.map_congr_left
      intro i _
      have hshift : value >>> (8 * (i + 1)) = (value / 256) >>> (8 * i) := by
        rw [Nat.mul_succ, Nat.add_comm, Nat.shiftRight_add, Nat.shiftRight_eq_div_pow value]
      exact congrArg (fun n => UInt8.ofNat (n &&& 0xFF)) hshift

theorem varint_eq {field value : Nat} (hfield : field < 2 ^ 32) (hvalue : value < 2 ^ 64) :
    varint field value = Proto.Field.encode ⟨field, .varint value⟩ := by
  have htag : tag field 0 = Proto.varint (field * 8 + 0) := tag_eq (.varint value) hfield
  rw [varint, htag, rawVarint_eq hvalue]
  rfl

theorem fixed64_eq {field value : Nat} (hfield : field < 2 ^ 32) :
    fixed64 field value = Proto.Field.encode ⟨field, .fixed64 ⟨leEncode 8 value, length_leEncode 8 value⟩⟩ := by
  have htag : tag field 1 = Proto.varint (field * 8 + 1) := tag_eq (.fixed64 (Octets.zero 8)) hfield
  rw [fixed64, htag, bytes_eq_leEncode]
  rfl

/-- A string of bytes is written as the format has it. -/
theorem bytes_eq {field : Nat} {data : Bytes} (hfield : field < 2 ^ 32) (hdata : data.length < 2 ^ 64) :
    bytes field data = Proto.Field.encode ⟨field, .bytes data⟩ := by
  have htag : tag field 2 = Proto.varint (field * 8 + 2) := tag_eq (.bytes data) hfield
  rw [bytes, htag, rawVarint_eq hdata, List.append_assoc]
  rfl

end Writer

namespace Item

/-- A field of a valid call can be read. -/
theorem Valid.fits {item : Item} (h : item.Valid) : (⟨item.field, item.value⟩ : Proto.Field).Fits := by
  cases h with
  | varint hfield hvalue => exact ⟨hfield, hvalue⟩
  | sint32 hfield =>
    refine ⟨hfield, ?_⟩
    show Proto.zigzag _ < 2 ^ 64
    rw [← zigzag32_eq]
    exact (BitVec.isLt _).trans (by decide)
  | sint64 hfield => exact ⟨hfield, zigzag_toInt_lt _⟩
  | @boolean field value hfield =>
    refine ⟨hfield, ?_⟩
    show value.toNat < 2 ^ 64
    exact (Bool.toNat_lt value).trans (by decide)
  | fixed64 hfield hvalue => exact ⟨hfield, trivial⟩
  | string hfield hvalue => exact ⟨hfield, hvalue⟩
  | bytes hfield hdata => exact ⟨hfield, hdata⟩
  | message hfield _ hlength => exact ⟨hfield, hlength⟩

/-- A call writes its field, and nothing where it has none. -/
theorem write_eq {item : Item} (h : item.Valid) : item.write = Proto.encodeFields item.toField?.toList := by
  have hone : ∀ f : Proto.Field, f.encode = Proto.encodeFields [f] := fun f => (List.append_nil _).symm
  have hfits := h.fits
  cases h with
  | varint hfield hvalue => exact (Writer.varint_eq hfield hvalue).trans (hone _)
  | @sint32 field value hfield =>
    have hwrite : Writer.sint32 field value = Writer.varint field (Proto.zigzag value.toInt) := by
      rw [← zigzag32_eq]
      rfl
    exact hwrite.trans ((Writer.varint_eq hfield hfits.value).trans (hone _))
  | @sint64 field value hfield =>
    have hwrite : Writer.sint64 field value = Writer.varint field (Proto.zigzag value.toInt) := by
      rw [← zigzag64_eq]
      rfl
    exact hwrite.trans ((Writer.varint_eq hfield hfits.value).trans (hone _))
  | @boolean field value hfield =>
    have hwrite : Writer.boolean field value = Writer.varint field value.toNat := by cases value <;> rfl
    exact hwrite.trans ((Writer.varint_eq hfield hfits.value).trans (hone _))
  | fixed64 hfield hvalue => exact (Writer.fixed64_eq hfield).trans (hone _)
  | @string field value hfield hvalue =>
    cases value with
    | nil => rfl
    | cons b value => exact (Writer.bytes_eq hfield hvalue).trans (hone _)
  | bytes hfield hdata => exact (Writer.bytes_eq hfield hdata).trans (hone _)
  | message hfield _ hlength => exact (Writer.bytes_eq hfield hlength).trans (hone _)

theorem Valid.fits_of_mem {item : Item} {f : Proto.Field} (h : item.Valid) (hf : f ∈ item.toField?) :
    f.Fits := by
  unfold toField? at hf
  split at hf
  · cases hf
  · cases hf
    exact h.fits

end Item

/-- A builder writes the fields of its calls. -/
theorem writeAll_eq {items : List Item} (h : ∀ item ∈ items, item.Valid) :
    writeAll items = Proto.encodeFields (items.filterMap Item.toField?) := by
  induction items with
  | nil => rfl
  | cons item items ih =>
    have hitem := Item.write_eq (h item List.mem_cons_self)
    rw [writeAll, hitem, ih fun i hi => h i (List.mem_cons_of_mem _ hi), List.filterMap_cons]
    cases item.toField? with
    | none => rfl
    | some f =>
      show (f.encode ++ []) ++ _ = f.encode ++ _
      rw [List.append_nil]
      rfl

/-- Repeated `read_field`, up to the end. -/
def readAll (m : Bytes) (v : View) : Except Fault (Bool × List RawField) :=
  scan m v (fun raw raws => .ok (true, raws ++ [raw])) []

/-- Repeated `read_field` gets back what a builder wrote, and consumes all of it. -/
theorem readAll_writeAll {items : List Item} {m : Bytes} {v : View} (h : ∀ item ∈ items, item.Valid)
    (hv : v.Inside m) (hbytes : v.bytes m = writeAll items) :
    ∃ raws, readAll m v = .ok (true, raws) ∧
      List.Forall₂ (RawField.Represents m v) raws (items.filterMap Item.toField?) := by
  rw [writeAll_eq h] at hbytes
  refine scan_encode (Q := fun done raws => List.Forall₂ (RawField.Represents m v) raws done)
    hv hbytes ?_ ?_ .nil
  · intro f hf
    obtain ⟨item, hitem, hfield⟩ := List.mem_filterMap.1 hf
    exact (h item hitem).fits_of_mem hfield
  · intro done f raw raws _ hraw hdone
    exact ⟨_, rfl, List.rel_append hdone (.cons hraw .nil)⟩

end Runtime

end EspTree
