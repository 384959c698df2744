import EspTree.Lib.Bytes

/-!
# WebSocket frames

The base framing of the WebSocket protocol.  A frame starts with a byte of flags and the opcode, and a
byte with the mask bit and seven bits of length; 126 and 127 announce a length of two or of eight bytes.
A client puts a masking key before the payload and combines the payload with it.

`Frame.encodeAs` writes a frame with its length in any of the three forms, `decode` reads one off the
front of a string of bytes, and `decode_eq_some_iff` says that each undoes the other.  A sender takes the
shortest form (`Form.shortest`).
-/

namespace WebSocket

open Wire

/-! ## The parts of a frame -/

/-- The first byte: the final flag, three reserved bits and the opcode. -/
@[ext]
structure Head where
  fin : Bool
  rsv : Fin 8
  opcode : Fin 16
  deriving DecidableEq

namespace Head

def byte (h : Head) : UInt8 := UInt8.ofNat (h.fin.toNat * 128 + h.rsv * 16 + h.opcode)

def ofByte (b : UInt8) : Head where
  fin := decide (128 ≤ b.toNat)
  rsv := ⟨b.toNat / 16 % 8, Nat.mod_lt _ (by decide)⟩
  opcode := ⟨b.toNat % 16, Nat.mod_lt _ (by decide)⟩

theorem toNat_byte (h : Head) : h.byte.toNat = h.fin.toNat * 128 + h.rsv * 16 + h.opcode := by
  have hfin : h.fin.toNat ≤ 1 := Bool.toNat_le h.fin
  rw [byte, UInt8.toNat_ofNat']
  omega

/-- The first byte has all of the flags and the opcode. -/
@[simp] theorem ofByte_byte (h : Head) : ofByte h.byte = h := by
  obtain ⟨fin, rsv, opcode⟩ := h
  have hbyte : (byte ⟨fin, rsv, opcode⟩).toNat = fin.toNat * 128 + rsv * 16 + opcode := toNat_byte _
  apply Head.ext
  · cases fin
    · refine decide_eq_false ?_
      rw [hbyte, Bool.toNat_false]
      omega
    · refine decide_eq_true ?_
      rw [hbyte, Bool.toNat_true]
      omega
  · apply Fin.ext
    change (byte _).toNat / 16 % 8 = (rsv : ℕ)
    rw [hbyte]
    omega
  · apply Fin.ext
    change (byte _).toNat % 16 = (opcode : ℕ)
    rw [hbyte]
    omega

@[simp] theorem byte_ofByte (b : UInt8) : (ofByte b).byte = b := by
  have hlt := b.toNat_lt
  apply UInt8.toNat_inj.mp
  rw [toNat_byte]
  by_cases h : 128 ≤ b.toNat
  · have hfin : (ofByte b).fin.toNat = 1 := by rw [ofByte, decide_eq_true h, Bool.toNat_true]
    rw [hfin]
    change 1 * 128 + b.toNat / 16 % 8 * 16 + b.toNat % 16 = b.toNat
    omega
  · have hfin : (ofByte b).fin.toNat = 0 := by rw [ofByte, decide_eq_false h, Bool.toNat_false]
    rw [hfin]
    change 0 * 128 + b.toNat / 16 % 8 * 16 + b.toNat % 16 = b.toNat
    omega

end Head

/-- How a length is written. -/
inductive Form
  | short
  | medium
  | long
  deriving DecidableEq

namespace Form

/-- The lengths that can be written so. -/
def Holds : Form → ℕ → Prop
  | .short, n => n < 126
  | .medium, n => n < 2 ^ 16
  | .long, n => n < 2 ^ 64

instance (form : Form) (n : ℕ) : Decidable (form.Holds n) := by
  cases form <;> exact Nat.decLt _ _

/-- How many bytes follow the second byte. -/
def width : Form → ℕ
  | .short => 0
  | .medium => 2
  | .long => 8

/-- The seven bits of the second byte. -/
def code : Form → ℕ → ℕ
  | .short, n => n
  | .medium, _ => 126
  | .long, _ => 127

/-- What the seven bits announce. -/
def ofCode (code : ℕ) : Form := if code = 126 then .medium else if code = 127 then .long else .short

/-- The form that a sender takes. -/
def shortest (n : ℕ) : Form := if n < 126 then .short else if n < 2 ^ 16 then .medium else .long

/-- The shortest form has room for the length. -/
theorem holds_shortest {n : ℕ} (h : n < 2 ^ 64) : (shortest n).Holds n := by
  unfold shortest
  split_ifs with hshort hmedium
  · exact hshort
  · exact hmedium
  · exact h

/-- The form of eight bytes is for the lengths that two bytes do not hold. -/
theorem shortest_eq_long_iff (n : ℕ) : shortest n = .long ↔ 2 ^ 16 ≤ n := by
  unfold shortest
  split_ifs with hshort hmedium
  · exact iff_of_false (fun h => by cases h) (by omega)
  · exact iff_of_false (fun h => by cases h) (by omega)
  · exact iff_of_true rfl (by omega)

theorem Holds.lt {form : Form} {n : ℕ} (h : form.Holds n) (hlong : form ≠ .long) : n < 2 ^ 16 := by
  cases form
  · exact Nat.lt_trans h (by decide)
  · exact h
  · exact absurd rfl hlong

/-- The code of a form leaves the mask bit free. -/
theorem code_lt {form : Form} {n : ℕ} (h : form.Holds n) : form.code n < 128 := by
  cases form
  · exact Nat.lt_trans h (by decide)
  · exact Nat.lt_of_lt_of_le (Nat.lt_succ_self 126) (by decide)
  · exact Nat.lt_succ_self 127

/-- The form is known from its code. -/
theorem ofCode_code {form : Form} {n : ℕ} (h : form.Holds n) : ofCode (form.code n) = form := by
  cases form
  · have hlt : n < 126 := h
    change (if n = 126 then _ else if n = 127 then _ else _) = _
    rw [if_neg (by omega), if_neg (by omega)]
  · rfl
  · rfl

/-- The bytes after the second one, the most significant first. -/
def extended (form : Form) (n : ℕ) : Bytes := (leEncode form.width n).reverse

@[simp] theorem length_extended (form : Form) (n : ℕ) : (form.extended n).length = form.width := by
  rw [extended, List.length_reverse, length_leEncode]

/-- The length that the seven bits and the bytes after the second one say. -/
def lengthOf (form : Form) (code : ℕ) (ext : Bytes) : ℕ :=
  match form with
  | .short => code
  | .medium | .long => leDecode ext.reverse

/-- The length is read back from the code and the bytes after it, in any form that holds it. -/
theorem lengthOf_code {form : Form} {n : ℕ} (h : form.Holds n) :
    form.lengthOf (form.code n) (form.extended n) = n := by
  cases form with
  | short => rfl
  | medium =>
    change leDecode (leEncode 2 n).reverse.reverse = n
    rw [List.reverse_reverse, leDecode_leEncode]
    exact Nat.mod_eq_of_lt h
  | long =>
    change leDecode (leEncode 8 n).reverse.reverse = n
    rw [List.reverse_reverse, leDecode_leEncode]
    exact Nat.mod_eq_of_lt h

/-- The seven bits and the bytes after them are determined by the length that they say. -/
theorem written_of_lengthOf {code : ℕ} {ext : Bytes} (hcode : code < 128)
    (hext : ext.length = (ofCode code).width) :
    (ofCode code).Holds ((ofCode code).lengthOf code ext) ∧
      (ofCode code).code ((ofCode code).lengthOf code ext) = code ∧
      (ofCode code).extended ((ofCode code).lengthOf code ext) = ext := by
  have hlt := leDecode_lt ext.reverse
  have hback := leEncode_leDecode ext.reverse
  rw [List.length_reverse] at hlt hback
  unfold ofCode at hext ⊢
  split_ifs at hext ⊢ with hmedium hlong
  · rw [hext] at hlt hback
    refine ⟨Nat.lt_of_lt_of_le hlt (by decide), hmedium.symm, ?_⟩
    change (leEncode Form.medium.width (leDecode ext.reverse)).reverse = ext
    rw [hback, List.reverse_reverse]
  · rw [hext] at hlt hback
    refine ⟨Nat.lt_of_lt_of_le hlt (by decide), hlong.symm, ?_⟩
    change (leEncode Form.long.width (leDecode ext.reverse)).reverse = ext
    rw [hback, List.reverse_reverse]
  · exact ⟨by change code < 126; omega, rfl, (List.eq_nil_of_length_eq_zero hext).symm⟩

end Form

/-- The payload combined with the masking key, over and over. -/
def mask (key : Octets 4) (payload : Bytes) : Bytes :=
  payload.mapIdx fun i b => b ^^^ key.bytes.getD (i % 4) 0

@[simp] theorem length_mask (key : Octets 4) (payload : Bytes) : (mask key payload).length = payload.length :=
  List.length_mapIdx

/-- A payload that is masked twice is as it was. -/
@[simp] theorem mask_mask (key : Octets 4) (payload : Bytes) : mask key (mask key payload) = payload := by
  apply List.ext_getElem (by rw [length_mask, length_mask])
  intro i hi hi'
  simp only [mask, List.getElem_mapIdx]
  rw [UInt8.xor_assoc, UInt8.xor_self, UInt8.xor_zero]

/-- One frame as it is sent; a client gives a masking key. -/
@[ext]
structure Frame where
  head : Head
  key : Option (Octets 4)
  payload : Bytes
  deriving DecidableEq

namespace Frame

/-- The key and the payload as they are sent. -/
def body (f : Frame) : Bytes :=
  match f.key with
  | none => f.payload
  | some key => key.bytes ++ mask key f.payload

/-- The frame with its length in one form. -/
def encodeAs (f : Frame) (form : Form) : Bytes :=
  f.head.byte :: UInt8.ofNat (f.key.isSome.toNat * 128 + form.code f.payload.length) ::
    (form.extended f.payload.length ++ f.body)

end Frame

/-! ## Reading -/

/-- The first `n` bytes and what follows them, if there are so many. -/
def split (n : ℕ) (s : Bytes) : Option (Bytes × Bytes) := if n ≤ s.length then some (s.take n, s.drop n) else none

theorem split_append {n : ℕ} {b : Bytes} (h : b.length = n) (rest : Bytes) :
    split n (b ++ rest) = some (b, rest) := by
  have hle : n ≤ (b ++ rest).length := by
    rw [List.length_append]
    omega
  rw [split, if_pos hle, List.take_left' h, List.drop_left' h]

/-- The stream has `n` bytes and the rest, or it is too short. -/
theorem split_eq_some_iff {n : ℕ} {s b rest : Bytes} :
    split n s = some (b, rest) ↔ b.length = n ∧ s = b ++ rest := by
  constructor
  · intro h
    unfold split at h
    split_ifs at h with hle
    obtain ⟨rfl, rfl⟩ := Prod.mk.inj (Option.some.inj h)
    exact ⟨List.length_take_of_le hle, (List.take_append_drop n s).symm⟩
  · rintro ⟨hlength, rfl⟩
    exact split_append hlength rest

/-- The first bytes are taken on their own. -/
theorem split_append_of_le {n : ℕ} {b : Bytes} (h : b.length ≤ n) (s : Bytes) :
    split n (b ++ s) = (split (n - b.length) s).map fun r => (b ++ r.1, r.2) := by
  unfold split
  rw [List.length_append]
  by_cases hle : n ≤ b.length + s.length
  · rw [if_pos hle, if_pos (by omega), Option.map_some, List.take_append, List.drop_append,
      List.take_of_length_le h, List.drop_of_length_le h, List.nil_append]
  · rw [if_neg hle, if_neg (by omega), Option.map_none]

/-- The masking key, if there is one, and the payload. -/
def decodeBody (masked : Bool) (n : ℕ) (s : Bytes) : Option (Option (Octets 4) × Bytes × Bytes) :=
  if masked then do
    let (key, s) ← split 4 s
    let (payload, s) ← split n s
    return (some (Octets.fit 4 key), mask (Octets.fit 4 key) payload, s)
  else do
    let (payload, s) ← split n s
    return (none, payload, s)

/-- One frame, the form of its length and what follows it. -/
def decode (s : Bytes) : Option (Frame × Form × Bytes) := do
  let (start, s) ← split 2 s
  let second := (start.getD 1 0).toNat
  let form := Form.ofCode (second % 128)
  let (ext, s) ← split form.width s
  let (key, payload, s) ← decodeBody (decide (128 ≤ second)) (form.lengthOf (second % 128) ext) s
  return (⟨Head.ofByte (start.getD 0 0), key, payload⟩, form, s)

section

variable {f : Frame} {form : Form} {masked : Bool} {n : ℕ} {key : Option (Octets 4)} {s payload rest : Bytes}

/-- The body of a frame is its key, if it is masked, and its payload. -/
theorem decodeBody_eq_some_iff :
    decodeBody masked n s = some (key, payload, rest) ↔
      key.isSome = masked ∧ payload.length = n ∧ s = Frame.body ⟨f.head, key, payload⟩ ++ rest := by
  unfold decodeBody
  cases masked with
  | false =>
    simp only [Bool.false_eq_true, if_false, Option.bind_eq_bind, Option.bind_eq_some_iff, Prod.exists]
    constructor
    · rintro ⟨b, t, hsplit, h⟩
      obtain ⟨hlength, rfl⟩ := split_eq_some_iff.mp hsplit
      cases h
      exact ⟨rfl, hlength, rfl⟩
    · rintro ⟨hkey, hlength, rfl⟩
      obtain rfl := Option.isNone_iff_eq_none.mp (Option.isSome_eq_false_iff.mp hkey)
      exact ⟨payload, rest, split_append hlength rest, rfl⟩
  | true =>
    simp only [if_true, Option.bind_eq_bind, Option.bind_eq_some_iff, Prod.exists]
    constructor
    · rintro ⟨k, t, hkey, b, t', hpayload, h⟩
      obtain ⟨hk, rfl⟩ := split_eq_some_iff.mp hkey
      obtain ⟨hb, rfl⟩ := split_eq_some_iff.mp hpayload
      cases h
      have hfit : (Octets.fit 4 k).bytes = k := by
        rw [Octets.bytes_fit hk.ge, ← hk, List.take_length]
      refine ⟨rfl, by rw [length_mask, hb], ?_⟩
      change k ++ (b ++ rest) = (Octets.fit 4 k).bytes ++ mask _ (mask _ b) ++ rest
      rw [hfit, mask_mask, List.append_assoc]
    · rintro ⟨hkey, hlength, rfl⟩
      obtain ⟨k, rfl⟩ := Option.isSome_iff_exists.mp hkey
      refine ⟨k.bytes, mask k payload ++ rest, ?_, mask k payload, rest, ?_, ?_⟩
      · change split 4 (k.bytes ++ mask k payload ++ rest) = _
        rw [List.append_assoc, split_append k.length_bytes]
      · exact split_append (by rw [length_mask, hlength]) rest
      · change some (some (Octets.fit 4 k.bytes), mask (Octets.fit 4 k.bytes) (mask k payload), rest) = _
        rw [Octets.fit_bytes, mask_mask]

theorem toNat_second (masked : Bool) {code : ℕ} (h : code < 128) :
    (UInt8.ofNat (masked.toNat * 128 + code)).toNat = masked.toNat * 128 + code := by
  have hmasked : masked.toNat ≤ 1 := Bool.toNat_le masked
  rw [UInt8.toNat_ofNat']
  omega

theorem second_eq (b : UInt8) :
    UInt8.ofNat ((decide (128 ≤ b.toNat)).toNat * 128 + b.toNat % 128) = b := by
  have hlt := b.toNat_lt
  apply UInt8.toNat_inj.mp
  rw [toNat_second _ (Nat.mod_lt _ (by decide))]
  by_cases h : 128 ≤ b.toNat
  · rw [decide_eq_true h, Bool.toNat_true]
    omega
  · rw [decide_eq_false h, Bool.toNat_false]
    omega

/-- A string of bytes starts with a frame if and only if it is what a sender of that frame writes,
followed by anything. -/
theorem decode_eq_some_iff :
    decode s = some (f, form, rest) ↔ form.Holds f.payload.length ∧ s = f.encodeAs form ++ rest := by
  unfold decode
  simp only [Option.bind_eq_bind, Option.bind_eq_some_iff, Prod.exists]
  constructor
  · rintro ⟨start, t, hstart, ext, t', hext, key, payload, t'', hbody, h⟩
    obtain ⟨hlength, rfl⟩ := split_eq_some_iff.mp hstart
    obtain ⟨b₀, b₁, rfl⟩ := List.length_eq_two.mp hlength
    obtain ⟨hwidth, rfl⟩ := split_eq_some_iff.mp hext
    obtain ⟨hkey, hpayload, rfl⟩ := (decodeBody_eq_some_iff (f := f)).mp hbody
    cases h
    obtain ⟨hholds, hcode, hextended⟩ := Form.written_of_lengthOf (Nat.mod_lt _ (by decide)) hwidth
    refine ⟨hpayload ▸ hholds, ?_⟩
    unfold Frame.encodeAs
    simp only [hpayload, hcode, hextended, hkey]
    rw [Head.byte_ofByte, second_eq]
    simp only [List.cons_append, List.nil_append, List.append_assoc]
    rfl
  · rintro ⟨hholds, rfl⟩
    have hcode := Form.code_lt hholds
    have hsecond := toNat_second f.key.isSome hcode
    have hmasked : decide (128 ≤ f.key.isSome.toNat * 128 + form.code f.payload.length) = f.key.isSome := by
      cases f.key.isSome
      · refine decide_eq_false ?_
        rw [Bool.toNat_false]
        omega
      · refine decide_eq_true ?_
        rw [Bool.toNat_true]
        omega
    have hmod : (f.key.isSome.toNat * 128 + form.code f.payload.length) % 128 = form.code f.payload.length := by
      rw [Nat.mul_add_mod', Nat.mod_eq_of_lt hcode]
    refine ⟨[f.head.byte, UInt8.ofNat (f.key.isSome.toNat * 128 + form.code f.payload.length)],
      form.extended f.payload.length ++ f.body ++ rest, split_append (b := [_, _]) rfl _,
      form.extended f.payload.length, f.body ++ rest, ?_, f.key, f.payload, rest, ?_, ?_⟩
    · change split (Form.ofCode ((UInt8.ofNat _).toNat % 128)).width _ = _
      rw [hsecond, hmod, Form.ofCode_code hholds, List.append_assoc, split_append (Form.length_extended _ _)]
    · change decodeBody (decide (128 ≤ (UInt8.ofNat _).toNat))
        ((Form.ofCode ((UInt8.ofNat _).toNat % 128)).lengthOf ((UInt8.ofNat _).toNat % 128) _) _ = _
      rw [hsecond, hmod, Form.ofCode_code hholds, Form.lengthOf_code hholds, hmasked]
      exact (decodeBody_eq_some_iff (f := f)).mpr ⟨rfl, rfl, rfl⟩
    · change some (Frame.mk (Head.ofByte f.head.byte) f.key f.payload,
        Form.ofCode ((UInt8.ofNat _).toNat % 128), rest) = _
      rw [hsecond, hmod, Form.ofCode_code hholds, Head.ofByte_byte]

/-- A frame is read back in the form it was written in, with the rest of the stream untouched. -/
theorem decode_encodeAs (h : form.Holds f.payload.length) (rest : Bytes) :
    decode (f.encodeAs form ++ rest) = some (f, form, rest) :=
  decode_eq_some_iff.mpr ⟨h, rfl⟩

end

end WebSocket
