import EspTree.Lib.Bytes

/-!
# Protocol buffers

A message is a string of fields, each with its number and a value of one of three wire types: a
varint, eight bytes, or a length and as many bytes.  This file has the encoder of fields, the reader,
and that the reader gets back what was encoded (`readFields_encode`).  Which fields a message has, and
what a default value is, is left to the messages.

The reader is total.  It fails where a varint is longer than ten bytes or where the input ends within
a field, and it never reads behind the end (`suffix_readVarintFrom`, `length_readField`).  It accepts
a varint with more bytes than it needs, as readers of the format do.

`Fits` is what a field must satisfy to be written: its number and its value must fit the types of
the format.  A string field that occurs several times counts with its last value (`lastBytes`).
-/

namespace Wire

namespace Proto

/-- Seven bits a byte and the low ones first, in at most `w` bytes. -/
def varintBytes : Nat → Nat → Bytes
  | 0, _ => []
  | w + 1, n =>
    if n < 128 then [UInt8.ofNat n] else UInt8.ofNat (n % 128 + 128) :: varintBytes w (n / 128)

/-- The varint of a number of 64 bits. -/
def varint (n : Nat) : Bytes := varintBytes 10 n

/-- Read on where `shift` bits have been read into `out`. -/
def readVarintFrom : Nat → Nat → Bytes → Option (Nat × Bytes)
  | _, _, [] => none
  | shift, out, b :: rest =>
    if 64 ≤ shift then none
    else
      let out := (out ||| (b &&& 0x7F).toNat <<< shift) % 2 ^ 64
      if b &&& 0x80 = 0 then some (out, rest) else readVarintFrom (shift + 7) out rest

/-- The varint at the start, and what follows it. -/
def readVarint (bytes : Bytes) : Option (Nat × Bytes) := readVarintFrom 0 0 bytes

/-- The value of a field. -/
inductive Value
  | varint (n : Nat)
  | fixed64 (b : Octets 8)
  | bytes (b : Bytes)
  deriving DecidableEq

/-- The wire type. -/
def Value.wire : Value → Nat
  | .varint _ => 0
  | .fixed64 _ => 1
  | .bytes _ => 2

/-- The bytes of a value. -/
def Value.encode : Value → Bytes
  | .varint n => Proto.varint n
  | .fixed64 b => b.bytes
  | .bytes b => Proto.varint b.length ++ b

/-- A value that has an encoding. -/
def Value.Valid : Value → Prop
  | .varint n => n < 2 ^ 64
  | .fixed64 _ => True
  | .bytes b => b.length < 2 ^ 64

/-- A field of a message. -/
structure Field where
  number : Nat
  value : Value
  deriving DecidableEq

namespace Field

/-- The bytes of a field. -/
def encode (f : Field) : Bytes := Proto.varint (f.number * 8 + f.value.wire) ++ f.value.encode

/-- A field that has an encoding. -/
def Valid (f : Field) : Prop := f.number < 2 ^ 29 ∧ f.value.Valid

/-- A field that the reader can return: its number may be larger than the format has them. -/
structure Fits (f : Field) : Prop where
  number : f.number < 2 ^ 32
  value : f.value.Valid

/-- What a schema allows is within what the reader takes. -/
theorem Valid.fits {f : Field} (h : f.Valid) : f.Fits := ⟨h.1.trans (by decide), h.2⟩

end Field

/-- The field at the start, and what follows it. -/
def readField (bytes : Bytes) : Option (Field × Bytes) :=
  match readVarint bytes with
  | none => none
  | some (tag, rest) =>
    let number := (tag >>> 3) % 2 ^ 32
    match tag % 8 with
    | 0 =>
      match readVarint rest with
      | none => none
      | some (n, rest) => some (⟨number, .varint n⟩, rest)
    | 1 => if rest.length < 8 then none else some (⟨number, .fixed64 (Octets.fit 8 rest)⟩, rest.drop 8)
    | 2 =>
      match readVarint rest with
      | none => none
      | some (n, rest) =>
        if rest.length < n then none else some (⟨number, .bytes (rest.take n)⟩, rest.drop n)
    | _ => none

/-! ## Varints -/

/-- The low seven bits of a byte are its part of the number. -/
theorem low_bits (b : UInt8) : (b &&& 0x7F).toNat = b.toNat % 128 := by
  rw [UInt8.toNat_and]
  exact Nat.and_two_pow_sub_one_eq_mod b.toNat 7

/-- The high bit is clear on the last byte of a number. -/
theorem last_iff (b : UInt8) : b &&& 0x80 = 0 ↔ b.toNat < 128 := by
  have hall : ∀ i : Fin 256, UInt8.ofNat i.val &&& 0x80 = 0 ↔ i.val < 128 := by decide +kernel
  have hb := hall ⟨b.toNat, b.toNat_lt⟩
  rwa [UInt8.ofNat_toNat] at hb

theorem toNat_ofNat_of_lt_256 {n : Nat} (h : n < 256) : (UInt8.ofNat n).toNat = n :=
  UInt8.toNat_ofNat_of_lt' h

/-- The loop of the reader on one more byte. -/
theorem readVarintFrom_cons {k out : Nat} {b : UInt8} {rest : Bytes} (hk : 7 * k < 64)
    (hout : out < 2 ^ (7 * k)) (hfit : b.toNat % 128 * 2 ^ (7 * k) + out < 2 ^ 64) :
    readVarintFrom (7 * k) out (b :: rest) =
      if b.toNat < 128 then some (b.toNat % 128 * 2 ^ (7 * k) + out, rest)
      else readVarintFrom (7 * (k + 1)) (b.toNat % 128 * 2 ^ (7 * k) + out) rest := by
  have hor : (out ||| (b &&& 0x7F).toNat <<< (7 * k)) % 2 ^ 64 = b.toNat % 128 * 2 ^ (7 * k) + out := by
    rw [low_bits, Nat.or_comm, ← Nat.shiftLeft_add_eq_or_of_lt hout, Nat.shiftLeft_eq]
    exact Nat.mod_eq_of_lt hfit
  rw [readVarintFrom, if_neg (Nat.not_le.2 hk)]
  simp only [hor, last_iff, Nat.mul_succ]

/-- The step of the round trip: with `k` bytes read, the rest of a number is read from where they
stopped. -/
theorem readVarintFrom_varintBytes {w k n out : Nat} (rest : Bytes) (hn : n < 2 ^ (7 * (w + 1)))
    (hk : 7 * k < 64) (hout : out < 2 ^ (7 * k)) (hfit : n * 2 ^ (7 * k) + out < 2 ^ 64) :
    readVarintFrom (7 * k) out (varintBytes (w + 1) n ++ rest) =
      some (n * 2 ^ (7 * k) + out, rest) := by
  induction w generalizing k n out with
  | zero =>
    have hsmall : n < 128 := by simpa using hn
    have hbyte : (UInt8.ofNat n).toNat = n := toNat_ofNat_of_lt_256 (by omega)
    have hmod : (UInt8.ofNat n).toNat % 128 = n := by omega
    rw [varintBytes, if_pos hsmall, List.singleton_append,
      readVarintFrom_cons hk hout (by rwa [hmod]), if_pos (by omega), hmod]
  | succ w ih =>
    rw [varintBytes]
    split
    next hsmall =>
      have hbyte : (UInt8.ofNat n).toNat = n := toNat_ofNat_of_lt_256 (by omega)
      have hmod : (UInt8.ofNat n).toNat % 128 = n := by omega
      rw [List.singleton_append, readVarintFrom_cons hk hout (by rwa [hmod]), if_pos (by omega), hmod]
    next hlarge =>
      have hbyte : (UInt8.ofNat (n % 128 + 128)).toNat = n % 128 + 128 :=
        toNat_ofNat_of_lt_256 (by omega)
      have hmod : (UInt8.ofNat (n % 128 + 128)).toNat % 128 = n % 128 := by omega
      -- the rest of the number moves seven bits up
      have hpow : 2 ^ (7 * (k + 1)) = 128 * 2 ^ (7 * k) := by rw [Nat.mul_succ, Nat.pow_add]; omega
      have hsplit : n / 128 * 2 ^ (7 * (k + 1)) + (n % 128 * 2 ^ (7 * k) + out) =
          n * 2 ^ (7 * k) + out := by
        have hdiv : (n / 128 * 128 + n % 128) * 2 ^ (7 * k) = n * 2 ^ (7 * k) := by
          rw [Nat.div_add_mod']
        rw [hpow, ← hdiv]
        ring
      have hnext : n % 128 * 2 ^ (7 * k) + out < 2 ^ (7 * (k + 1)) := by
        have hle : (n % 128 + 1) * 2 ^ (7 * k) ≤ 128 * 2 ^ (7 * k) :=
          Nat.mul_le_mul_right _ (Nat.mod_lt n (by decide))
        rw [Nat.succ_mul] at hle
        omega
      have hk' : 7 * (k + 1) < 64 := by
        by_contra hge
        have hone : 2 ^ 64 ≤ 2 ^ (7 * (k + 1)) := Nat.pow_le_pow_right (by decide) (by omega)
        have hle : 1 * 2 ^ (7 * (k + 1)) ≤ n / 128 * 2 ^ (7 * (k + 1)) :=
          Nat.mul_le_mul_right _ (by omega)
        omega
      have hdiv : n / 128 < 2 ^ (7 * (w + 1)) := by
        rw [Nat.div_lt_iff_lt_mul (by decide)]
        calc n < 2 ^ (7 * (w + 1 + 1)) := hn
          _ = 2 ^ (7 * (w + 1)) * 128 := by rw [Nat.mul_succ 7 (w + 1), Nat.pow_add]
      rw [List.cons_append, readVarintFrom_cons hk hout (by rw [hmod]; omega), if_neg (by omega), hmod,
        ih hdiv hk' hnext (by omega), hsplit]

/-- The reader gets back the number. -/
theorem readVarint_varint {n : Nat} (h : n < 2 ^ 64) (rest : Bytes) :
    readVarint (varint n ++ rest) = some (n, rest) := by
  have hread : readVarintFrom (7 * 0) 0 (varintBytes (9 + 1) n ++ rest) =
      some (n * 2 ^ (7 * 0) + 0, rest) :=
    readVarintFrom_varintBytes rest (by omega) (by decide) (by decide) (by omega)
  simpa [readVarint, varint] using hread

/-! ## Fields -/

/-- The tag of a field. -/
theorem readVarint_tag {number wire : Nat} (hnumber : number < 2 ^ 32) (hwire : wire < 8)
    (rest : Bytes) :
    readVarint (varint (number * 8 + wire) ++ rest) = some (number * 8 + wire, rest) ∧
      (number * 8 + wire) >>> 3 % 2 ^ 32 = number ∧ (number * 8 + wire) % 8 = wire := by
  refine ⟨readVarint_varint (by omega) rest, ?_, by omega⟩
  rw [Nat.shiftRight_eq_div_pow]
  omega

/-- A field is read back, with all that follows it left over. -/
theorem readField_encode_of_fits {f : Field} (h : f.Fits) (rest : Bytes) :
    readField (f.encode ++ rest) = some (f, rest) := by
  obtain ⟨number, value⟩ := f
  obtain ⟨hlt, hvalue⟩ := h
  unfold readField Field.encode
  rw [List.append_assoc]
  cases value with
  | varint n =>
    obtain ⟨htag, hnumber, hwire⟩ := readVarint_tag hlt (by decide : 0 < 8) (varint n ++ rest)
    simp only [Value.wire, Value.encode, htag, hnumber, hwire, readVarint_varint hvalue]
  | fixed64 b =>
    obtain ⟨htag, hnumber, hwire⟩ := readVarint_tag hlt (by decide : 1 < 8) (b.bytes ++ rest)
    have hdrop : (b.bytes ++ rest).drop 8 = rest := List.drop_left' b.length_bytes
    simp only [Value.wire, Value.encode, htag, hnumber, hwire]
    rw [if_neg (by simp), Octets.fit_bytes_append, hdrop]
  | bytes b =>
    obtain ⟨htag, hnumber, hwire⟩ :=
      readVarint_tag hlt (by decide : 2 < 8) (varint b.length ++ (b ++ rest))
    simp only [Value.wire, Value.encode, List.append_assoc, htag, hnumber, hwire,
      readVarint_varint hvalue]
    rw [if_neg (by simp), List.take_left, List.drop_left]

theorem readField_encode {f : Field} (h : f.Valid) (rest : Bytes) :
    readField (f.encode ++ rest) = some (f, rest) :=
  readField_encode_of_fits h.fits rest

/-- A varint has a byte. -/
theorem length_readVarintFrom {shift out n : Nat} {bytes rest : Bytes}
    (h : readVarintFrom shift out bytes = some (n, rest)) : rest.length < bytes.length := by
  induction bytes generalizing shift out with
  | nil => cases h
  | cons b bytes ih =>
    rw [readVarintFrom] at h
    dsimp only at h
    split at h
    · cases h
    · split at h
      · cases h
        exact Nat.lt_succ_self _
      · exact Nat.lt_succ_of_lt (ih h)

/-- What follows a varint is the end of the input. -/
theorem suffix_readVarintFrom {shift out n : Nat} {bytes rest : Bytes}
    (h : readVarintFrom shift out bytes = some (n, rest)) : rest <:+ bytes := by
  induction bytes generalizing shift out with
  | nil => cases h
  | cons b bytes ih =>
    rw [readVarintFrom] at h
    dsimp only at h
    split at h
    · cases h
    · split at h
      · cases h
        exact List.suffix_cons b rest
      · exact (ih h).trans (List.suffix_cons b bytes)

/-- A field has a byte. -/
theorem length_readField {f : Field} {bytes rest : Bytes} (h : readField bytes = some (f, rest)) :
    rest.length < bytes.length := by
  unfold readField at h
  split at h
  · cases h
  next tag rest₁ htag =>
    have hlt := length_readVarintFrom htag
    dsimp only at h
    split at h
    · split at h
      · cases h
      next n rest₂ hn =>
        have hlt' := length_readVarintFrom hn
        cases h
        omega
    · split at h
      · cases h
      · cases h
        rw [List.length_drop]
        omega
    · split at h
      · cases h
      next n rest₂ hn =>
        have hlt' := length_readVarintFrom hn
        split at h
        · cases h
        · cases h
          rw [List.length_drop]
          omega
    · cases h

/-- All fields of a message. -/
def readFields (bytes : Bytes) : Option (List Field) :=
  if bytes = [] then some []
  else
    match h : readField bytes with
    | none => none
    | some (f, rest) =>
      have := length_readField h
      (readFields rest).map (f :: ·)
termination_by bytes.length

theorem readFields_nil : readFields [] = some [] := by
  rw [readFields]
  rfl

/-- The reader takes one field after the other. -/
theorem readFields_of_ne_nil {bytes : Bytes} (h : bytes ≠ []) :
    readFields bytes = match readField bytes with
      | none => none
      | some (f, rest) => (readFields rest).map (f :: ·) := by
  rw [readFields, if_neg h]
  split
  next hnone => rw [hnone]
  next hsome => simp only [hsome]

/-- The bytes of a message. -/
def encodeFields (fs : List Field) : Bytes := fs.flatMap Field.encode

/-- The varint that stands for a signed number. -/
def zigzag (n : Int) : Nat := if 0 ≤ n then (2 * n).toNat else (-2 * n - 1).toNat

/-- The value of a field of bytes: the last one that the message has, and none is the empty one. -/
def lastBytes (number : Nat) (fs : List Field) : Bytes :=
  fs.foldl (fun b f => match f.value with
    | .bytes b' => if f.number = number then b' else b
    | _ => b) []

/-- A field takes at least one byte, which is why the reader comes to an end. -/
theorem Field.encode_ne_nil (f : Field) (rest : Bytes) (h : f.Valid) : f.encode ++ rest ≠ [] := by
  intro hnil
  have hread := readField_encode h rest
  rw [hnil] at hread
  cases hread

/-! ### Lengths -/

theorem length_varintBytes_le (w n : Nat) : (varintBytes w n).length ≤ w := by
  induction w generalizing n with
  | zero => exact le_rfl
  | succ w ih =>
    rw [varintBytes]
    split
    · exact Nat.succ_le_succ (Nat.zero_le _)
    · exact Nat.succ_le_succ (ih _)

/-- The bytes of a value that are not counted by the format. -/
def Value.size : Value → Nat
  | .varint _ | .fixed64 _ => 0
  | .bytes b => b.length

/-- Tag, length and number take no more than twenty bytes. -/
theorem Field.length_encode_le (f : Field) : f.encode.length ≤ 20 + f.value.size := by
  obtain ⟨number, value⟩ := f
  have htag : (Proto.varint (number * 8 + value.wire)).length ≤ 10 := length_varintBytes_le 10 _
  unfold Field.encode
  rw [List.length_append]
  cases value with
  | varint n =>
    have hn : (Proto.varint n).length ≤ 10 := length_varintBytes_le 10 n
    simp only [Value.encode, Value.size] at htag ⊢
    omega
  | fixed64 b =>
    simp only [Value.encode, Value.size, Octets.length_bytes] at htag ⊢
    omega
  | bytes b =>
    have hn : (Proto.varint b.length).length ≤ 10 := length_varintBytes_le 10 _
    simp only [Value.encode, Value.size, List.length_append] at htag ⊢
    omega

theorem length_encodeFields_le {fs : List Field} {n : Nat} (h : ∀ f ∈ fs, f.value.size ≤ n) :
    (encodeFields fs).length ≤ fs.length * (20 + n) := by
  induction fs with
  | nil => exact Nat.zero_le _
  | cons f fs ih =>
    have hf := h f List.mem_cons_self
    have hencode := f.length_encode_le
    have hrest := ih fun g hg => h g (List.mem_cons_of_mem _ hg)
    rw [encodeFields, List.flatMap_cons, List.length_append, List.length_cons, Nat.succ_mul]
    unfold encodeFields at hrest
    omega

/-! ### Messages -/

/-- The last field of a number counts. -/
theorem lastBytes_append (number : Nat) (fs : List Field) (f : Field) :
    lastBytes number (fs ++ [f]) = match f.value with
      | .bytes b => if f.number = number then b else lastBytes number fs
      | _ => lastBytes number fs := by
  rw [lastBytes, List.foldl_append]
  rfl

/-- Fields of other numbers do not change what was found. -/
theorem lastBytes_append_of_ne {number : Nat} {f : Field} (fs : List Field) (h : f.number ≠ number) :
    lastBytes number (fs ++ [f]) = lastBytes number fs := by
  rw [lastBytes_append]
  cases f.value with
  | bytes b => exact if_neg h
  | _ => rfl

/-- The bytes of a field are no more than those of the message. -/
theorem size_le_length_encodeFields {fs : List Field} {f : Field} (hf : f ∈ fs) :
    f.value.size ≤ (encodeFields fs).length := by
  have hvalue : f.value.size ≤ f.encode.length := by
    rw [Field.encode, List.length_append]
    cases f.value with
    | varint n => exact Nat.zero_le _
    | fixed64 b => exact Nat.zero_le _
    | bytes b =>
      simp only [Value.size, Value.encode, List.length_append]
      omega
  obtain ⟨before, after, rfl⟩ := List.append_of_mem hf
  rw [encodeFields, List.flatMap_append, List.flatMap_cons, List.length_append, List.length_append]
  omega

/-- The reader gets back the fields. -/
theorem readFields_encode {fs : List Field} (h : ∀ f ∈ fs, f.Valid) :
    readFields (encodeFields fs) = some fs := by
  induction fs with
  | nil =>
    rw [readFields]
    rfl
  | cons f fs ih =>
    have hf := h f List.mem_cons_self
    have hrest := ih fun g hg => h g (List.mem_cons_of_mem _ hg)
    have hcons : encodeFields (f :: fs) = f.encode ++ encodeFields fs := rfl
    rw [hcons, readFields_of_ne_nil (f.encode_ne_nil _ hf), readField_encode hf]
    dsimp only
    rw [hrest]
    rfl

end Proto

end Wire
