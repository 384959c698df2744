import EspTree.Lib.Protobuf

/-!
# The protocol buffers of the runtime API

`bridge_api_proto_messages.cpp` has a reader and a writer of its own.  The reader works on the memory that the
frame arrived in: what it returns for a string of bytes is a pointer into it.  Here the memory is a string of
bytes, a pointer with a length is a `View` of it, and reading outside a view is a `Fault`.

`readField_eq` says that `read_field` is the reader of the format, that it faults on no input and that the view
it returns lies inside the one that it reads.  `scan` is the loop that every `parse_*` function runs, and
`Item` what a program of the `Writer` writes.
-/

namespace EspTree

open Wire

namespace Runtime

/-! ## Memory -/

/-- What no function may do: read outside the bytes that it was given, or run on without an end. -/
inductive Fault
  | overread
  | endless
  deriving DecidableEq, Repr

/-- A pointer into the memory, and a number of bytes. -/
structure View where
  start : Nat
  length : Nat
  deriving DecidableEq, Repr

namespace View

/-- The view lies inside another one. -/
def Within (w v : View) : Prop := v.start ≤ w.start ∧ w.start + w.length ≤ v.start + v.length

/-- The view lies inside the memory. -/
def Inside (v : View) (m : Bytes) : Prop := v.start + v.length ≤ m.length

/-- What it shows. -/
def bytes (v : View) (m : Bytes) : Bytes := slice m v.start v.length

/-- `data[i]`, for a `data` of `len` bytes. -/
def read (m : Bytes) (v : View) (i : Nat) : Except Fault UInt8 :=
  if i < v.length then
    match m[v.start + i]? with
    | some b => .ok b
    | none => .error .overread
  else .error .overread

end View

/-- All of the memory. -/
def whole (m : Bytes) : View := ⟨0, m.length⟩

/-- `as_string`, and the other copies: nothing may be copied from a null pointer, nor from outside `data`. -/
def asString (m : Bytes) (v : View) : Option View → Except Fault Bytes
  | none => .error .overread
  | some w =>
    if v.start ≤ w.start ∧ w.start + w.length ≤ v.start + v.length ∧ w.start + w.length ≤ m.length then
      .ok (w.bytes m)
    else .error .overread

/-! ## Reading -/

section

variable (m : Bytes) (v : View)

/-- The loop of `read_varint`, for at most `fuel` rounds.  There are ten, as `shift` grows by seven. -/
def readVarintLoop : Nat → Nat → Nat → Nat → Except Fault (Option (Nat × Nat))
  | 0, _, _, _ => .error .endless
  | fuel + 1, pos, shift, out =>
    if pos < v.length ∧ shift < 64 then
      match v.read m pos with
      | .error fault => .error fault
      | .ok byte =>
        let out := (out ||| (byte &&& 0x7F).toNat <<< shift) % 2 ^ 64
        if byte &&& 0x80 = 0 then .ok (some (out, pos + 1))
        else readVarintLoop fuel (pos + 1) (shift + 7) out
    else .ok none

/-- `read_varint`: the number and the new position, unless it returns false. -/
def readVarint (pos : Nat) : Except Fault (Option (Nat × Nat)) := readVarintLoop m v 11 pos 0 0

/-- The out-parameters of `read_field`.  `value` is null where nothing was assigned to it. -/
structure RawField where
  field : Nat
  wire : Nat
  value : Option View := none
  varint : Nat := 0

/-- `read_field`: the field and the new position, unless it returns false. -/
def readField (pos : Nat) : Except Fault (Option (RawField × Nat)) :=
  match readVarint m v pos with
  | .error fault => .error fault
  | .ok none => .ok none
  | .ok (some (tag, pos)) =>
    let field := (tag >>> 3) % 2 ^ 32
    match tag % 8 with
    | 0 =>
      match readVarint m v pos with
      | .error fault => .error fault
      | .ok none => .ok none
      | .ok (some (n, pos)) => .ok (some ({ field := field, wire := 0, varint := n }, pos))
    | 1 =>
      if v.length < pos + 8 then .ok none
      else .ok (some ({ field := field, wire := 1, value := some ⟨v.start + pos, 8⟩ }, pos + 8))
    | 2 =>
      match readVarint m v pos with
      | .error fault => .error fault
      | .ok none => .ok none
      | .ok (some (n, pos)) =>
        if v.length - pos < n then .ok none
        else .ok (some ({ field := field, wire := 2, value := some ⟨v.start + pos, n⟩ }, pos + n))
    | _ => .ok none

variable {σ : Type}

/-- The loop of a `parse_*` function: fields are read up to the end, and `body` does what the function does
with each.  It says whether the loop goes on; the result says whether the end was reached. -/
def scanLoop (body : RawField → σ → Except Fault (Bool × σ)) : Nat → Nat → σ → Except Fault (Bool × σ)
  | 0, _, _ => .error .endless
  | fuel + 1, pos, out =>
    if pos < v.length then
      match readField m v pos with
      | .error fault => .error fault
      | .ok none => .ok (false, out)
      | .ok (some (f, pos)) =>
        match body f out with
        | .error fault => .error fault
        | .ok (false, out) => .ok (false, out)
        | .ok (true, out) => scanLoop body fuel pos out
    else .ok (true, out)

/-- The same from the first byte on: a round for each byte is enough. -/
def scan (body : RawField → σ → Except Fault (Bool × σ)) (out : σ) : Except Fault (Bool × σ) :=
  scanLoop m v body (v.length + 1) 0 out

end

/-! ### It is the reader of the format -/

section

variable {m : Bytes} {v w : View} {pos : Nat}

theorem whole_inside (m : Bytes) : (whole m).Inside m := (Nat.zero_add _).le

/-- The whole memory shows itself. -/
theorem bytes_whole (m : Bytes) : (whole m).bytes m = m := List.take_length

theorem View.length_bytes (hv : v.Inside m) : (v.bytes m).length = v.length := by
  have hfits : v.start + v.length ≤ m.length := hv
  rw [View.bytes, length_slice hfits]

/-- What a view shows at a place is the byte of the memory there. -/
theorem View.getElem?_bytes (hpos : pos < v.length) : (v.bytes m)[pos]? = m[v.start + pos]? := by
  rw [View.bytes, slice, List.getElem?_take, if_pos hpos, List.getElem?_drop]

/-- What is left of a view at a position inside it. -/
theorem View.drop_bytes (hv : v.Inside m) (hpos : pos < v.length) :
    ∃ b, v.read m pos = .ok b ∧ (v.bytes m).drop pos = b :: (v.bytes m).drop (pos + 1) := by
  have hlt : pos < (v.bytes m).length := by rwa [View.length_bytes hv]
  refine ⟨(v.bytes m)[pos], ?_, List.drop_eq_getElem_cons hlt⟩
  have hget := View.getElem?_bytes (m := m) hpos
  rw [List.getElem?_eq_getElem hlt] at hget
  rw [View.read, if_pos hpos, ← hget]

/-- A view of a view that is inside the memory is inside it. -/
theorem View.Within.inside (h : w.Within v) (hv : v.Inside m) : w.Inside m := le_trans h.2 hv

theorem View.Within.trans {u : View} (h : u.Within w) (h' : w.Within v) : u.Within v :=
  ⟨h'.1.trans h.1, h.2.trans h'.2⟩

/-- A copy of what lies inside `data`. -/
theorem asString_eq (hv : v.Inside m) (hw : w.Within v) : asString m v (some w) = .ok (w.bytes m) :=
  if_pos ⟨hw.1, hw.2, hw.2.trans hv⟩

/-- A view of the next bytes of a view. -/
theorem View.bytes_at (n : Nat) (hpos : pos + n ≤ v.length) :
    View.bytes ⟨v.start + pos, n⟩ m = ((v.bytes m).drop pos).take n := by
  rw [View.bytes, View.bytes, slice, slice, List.drop_take, List.drop_drop, List.take_take,
    Nat.min_eq_left (by omega)]

/-- After `k` bytes the loop of `read_varint` has what the reader of the format has; it ends within
ten of them. -/
theorem readVarintLoop_eq (hv : v.Inside m) {fuel k : Nat} (out : Nat) (hpos : pos ≤ v.length)
    (hfuel : 11 ≤ fuel + k) (hk : k ≤ 10) :
    readVarintLoop m v fuel pos (7 * k) out = .ok ((Proto.readVarintFrom (7 * k) out ((v.bytes m).drop pos)).map
      fun p => (p.1, v.length - p.2.length)) := by
  induction fuel generalizing pos k out with
  | zero => omega
  | succ fuel ih =>
    rw [readVarintLoop]
    rcases Nat.lt_or_eq_of_le hpos with hlt | rfl
    · obtain ⟨b, hread, hdrop⟩ := View.drop_bytes hv hlt
      rw [hdrop, Proto.readVarintFrom]
      by_cases hshift : 7 * k < 64
      · rw [if_pos ⟨hlt, hshift⟩, hread, if_neg (Nat.not_le.2 hshift)]
        dsimp only
        split
        · rw [Option.map_some, List.length_drop, View.length_bytes hv]
          congr 3
          omega
        · exact ih (k := k + 1) _ hlt (by omega) (by omega)
      · rw [if_neg (fun h => hshift h.2), if_pos (Nat.not_lt.1 hshift)]
        rfl
    · rw [if_neg (fun h => lt_irrefl _ h.1), List.drop_eq_nil_of_le (by rw [View.length_bytes hv])]
      rfl

/-- `read_varint` reads a varint of the format. -/
theorem readVarint_eq (hv : v.Inside m) (hpos : pos ≤ v.length) :
    readVarint m v pos = .ok ((Proto.readVarint ((v.bytes m).drop pos)).map
      fun p => (p.1, v.length - p.2.length)) :=
  readVarintLoop_eq (k := 0) hv 0 hpos (by decide) (by decide)

/-- What `read_field` returns stands for a field of the format; a view shows its bytes and lies inside the one
that is read. -/
structure RawField.Represents (m : Bytes) (v : View) (raw : RawField) (f : Proto.Field) : Prop where
  field : raw.field = f.number
  wire : raw.wire = f.value.wire
  varint : ∀ n, f.value = .varint n → raw.varint = n ∧ raw.value = none
  fixed64 : ∀ b, f.value = .fixed64 b → ∃ w, raw.value = some w ∧ w.Within v ∧ w.length = 8 ∧ w.bytes m = b.bytes
  bytes : ∀ b, f.value = .bytes b → ∃ w, raw.value = some w ∧ w.Within v ∧ w.bytes m = b

/-- The two outcomes of `read_field` at a position. -/
inductive FieldAt (m : Bytes) (v : View) (pos : Nat) : Option (RawField × Nat) → Prop
  | none (h : Proto.readField ((v.bytes m).drop pos) = none) : FieldAt m v pos none
  | some {f : Proto.Field} {raw : RawField} {pos' : Nat}
    (h : Proto.readField ((v.bytes m).drop pos) = some (f, (v.bytes m).drop pos'))
    (hraw : raw.Represents m v f) (hlt : pos < pos') (hle : pos' ≤ v.length) :
    FieldAt m v pos (some (raw, pos'))

/-- The same for a varint: the position is that of the rest. -/
theorem readVarint_cases (hv : v.Inside m) (hpos : pos ≤ v.length) :
    (Proto.readVarint ((v.bytes m).drop pos) = none ∧ readVarint m v pos = .ok none) ∨
      ∃ n pos', Proto.readVarint ((v.bytes m).drop pos) = some (n, (v.bytes m).drop pos') ∧
        readVarint m v pos = .ok (some (n, pos')) ∧ pos < pos' ∧ pos' ≤ v.length := by
  rw [readVarint_eq hv hpos]
  cases hread : Proto.readVarint ((v.bytes m).drop pos) with
  | none => exact .inl ⟨rfl, rfl⟩
  | some p =>
    obtain ⟨n, rest⟩ := p
    have hlength := Proto.length_readVarintFrom hread
    have hsuffix := (Proto.suffix_readVarintFrom hread).trans (List.drop_suffix pos (v.bytes m))
    rw [List.length_drop, View.length_bytes hv] at hlength
    refine .inr ⟨n, v.length - rest.length, ?_, rfl, by omega, Nat.sub_le _ _⟩
    rw [List.suffix_iff_eq_drop.1 hsuffix, View.length_bytes hv]
    simp only [List.length_drop, View.length_bytes hv]
    congr 3
    omega

/-- `read_field` reads a field of the format, and faults on no input. -/
theorem readField_eq (hv : v.Inside m) (hpos : pos ≤ v.length) :
    ∃ r, readField m v pos = .ok r ∧ FieldAt m v pos r := by
  unfold readField
  rcases readVarint_cases hv hpos with ⟨hnone, hread⟩ | ⟨tag, pos₁, htag, hread, hlt, hle⟩
  · refine ⟨none, by rw [hread], .none ?_⟩
    rw [Proto.readField, hnone]
  rw [hread]
  dsimp only
  have hlen : ((v.bytes m).drop pos₁).length = v.length - pos₁ := by
    rw [List.length_drop, View.length_bytes hv]
  split
  next hwire =>
    rcases readVarint_cases hv hle with ⟨hnone, hread'⟩ | ⟨n, pos₂, hn, hread', hlt', hle'⟩
    · refine ⟨none, by rw [hread'], .none ?_⟩
      rw [Proto.readField, htag]
      simp only [hwire, hnone]
    · refine ⟨some _, by rw [hread'], .some (f := ⟨tag >>> 3 % 2 ^ 32, .varint n⟩) ?_ ?_ (hlt.trans hlt') hle'⟩
      · rw [Proto.readField, htag]
        simp only [hwire, hn]
      · refine ⟨rfl, rfl, fun n' h => ?_, fun _ h => (by cases h), fun _ h => (by cases h)⟩
        cases h
        exact ⟨rfl, rfl⟩
  next hwire =>
    split
    next hshort =>
      refine ⟨none, rfl, .none ?_⟩
      rw [Proto.readField, htag]
      simp only [hwire]
      rw [if_pos (by omega)]
    next hfits =>
      refine ⟨some _, rfl, .some (f := ⟨tag >>> 3 % 2 ^ 32, .fixed64 (Octets.fit 8 ((v.bytes m).drop pos₁))⟩)
        ?_ ?_ (by omega) (by omega)⟩
      · rw [Proto.readField, htag]
        simp only [hwire]
        rw [if_neg (by omega), List.drop_drop]
      · refine ⟨rfl, rfl, fun _ h => (by cases h), fun b h => ?_, fun _ h => (by cases h)⟩
        cases h
        refine ⟨_, rfl, ⟨Nat.le_add_right _ _, ?_⟩, rfl, ?_⟩
        · show v.start + pos₁ + 8 ≤ v.start + v.length
          omega
        · rw [Octets.bytes_fit (by omega), View.bytes_at 8 (by omega)]
  next hwire =>
    rcases readVarint_cases hv hle with ⟨hnone, hread'⟩ | ⟨n, pos₂, hn, hread', hlt', hle'⟩
    · refine ⟨none, by rw [hread'], .none ?_⟩
      rw [Proto.readField, htag]
      simp only [hwire, hnone]
    have hlen' : ((v.bytes m).drop pos₂).length = v.length - pos₂ := by
      rw [List.length_drop, View.length_bytes hv]
    rw [hread']
    dsimp only
    split
    next hshort =>
      refine ⟨none, rfl, .none ?_⟩
      rw [Proto.readField, htag]
      simp only [hwire, hn]
      rw [if_pos (by omega)]
    next hfits =>
      refine ⟨some _, rfl, .some (f := ⟨tag >>> 3 % 2 ^ 32, .bytes (((v.bytes m).drop pos₂).take n)⟩)
        ?_ ?_ (by omega) (by omega)⟩
      · rw [Proto.readField, htag]
        simp only [hwire, hn]
        rw [if_neg (by omega), List.drop_drop]
      · refine ⟨rfl, rfl, fun _ h => (by cases h), fun _ h => (by cases h), fun b h => ?_⟩
        cases h
        refine ⟨_, rfl, ⟨Nat.le_add_right _ _, ?_⟩, View.bytes_at n (by omega)⟩
        show v.start + pos₂ + n ≤ v.start + v.length
        omega
  next hzero hone htwo =>
    refine ⟨none, rfl, .none ?_⟩
    rw [Proto.readField, htag]
    dsimp only
    split
    next h => exact absurd h hzero
    next h => exact absurd h hone
    next h => exact absurd h htwo
    · rfl

/-- Where a field has been written, `read_field` reads it. -/
theorem readField_encode {f : Proto.Field} {tail : Bytes} (hv : v.Inside m) (hpos : pos ≤ v.length)
    (hf : f.Fits) (hdrop : (v.bytes m).drop pos = f.encode ++ tail) :
    ∃ raw pos', readField m v pos = .ok (some (raw, pos')) ∧ raw.Represents m v f ∧
      (v.bytes m).drop pos' = tail ∧ pos < pos' ∧ pos' ≤ v.length := by
  have hread := Proto.readField_encode_of_fits hf tail
  rw [← hdrop] at hread
  obtain ⟨r, hraw, hfield⟩ := readField_eq hv hpos
  cases hfield with
  | none hnone =>
    rw [hread] at hnone
    cases hnone
  | some hsome hrep hlt hle =>
    rw [hread] at hsome
    obtain ⟨rfl, htail⟩ := Prod.mk.inj (Option.some.inj hsome)
    exact ⟨_, _, hraw, hrep, htail.symm, hlt, hle⟩

/-! ### The loop of the parsers -/

variable {σ : Type} {body : RawField → σ → Except Fault (Bool × σ)} {out : σ}

/-- The loop ends, whatever the input, and keeps what its body keeps. -/
theorem scan_ok {P : σ → Prop} (hv : v.Inside m)
    (hbody : ∀ {raw f out}, raw.Represents m v f → P out → ∃ r, body raw out = .ok r ∧ P r.2) (hout : P out) :
    ∃ r, scan m v body out = .ok r ∧ P r.2 := by
  have hloop : ∀ fuel pos out, pos ≤ v.length → v.length < fuel + pos → P out →
      ∃ r, scanLoop m v body fuel pos out = .ok r ∧ P r.2 := by
    intro fuel
    induction fuel with
    | zero => intro pos out hpos hfuel; omega
    | succ fuel ih =>
      intro pos out hpos hfuel hout
      rw [scanLoop]
      split
      next hlt =>
        obtain ⟨r, hread, hfield⟩ := readField_eq hv hpos
        rw [hread]
        cases hfield with
        | none _ => exact ⟨_, rfl, hout⟩
        | some _ hraw hlt hle =>
          obtain ⟨⟨go, out'⟩, hbody', hout'⟩ := hbody hraw hout
          dsimp only
          rw [hbody']
          cases go with
          | false => exact ⟨_, rfl, hout'⟩
          | true => exact ih _ _ hle (by omega) hout'
      next => exact ⟨_, rfl, hout⟩
  exact hloop _ 0 out (Nat.zero_le _) (Nat.lt_succ_self _) hout

/-- The loop over an encoded message reaches its end; `Q` says what its result is after some of the fields. -/
theorem scan_encode {Q : List Proto.Field → σ → Prop} {fs : List Proto.Field} (hv : v.Inside m)
    (hbytes : v.bytes m = Proto.encodeFields fs) (hfits : ∀ f ∈ fs, f.Fits)
    (hbody : ∀ {done f raw out}, done ++ [f] <+: fs → raw.Represents m v f → Q done out →
      ∃ out', body raw out = .ok (true, out') ∧ Q (done ++ [f]) out') (hout : Q [] out) :
    ∃ out', scan m v body out = .ok (true, out') ∧ Q fs out' := by
  have hloop : ∀ rest fuel pos out done, done ++ rest = fs → (v.bytes m).drop pos = Proto.encodeFields rest →
      pos ≤ v.length → v.length < fuel + pos → Q done out →
      ∃ out', scanLoop m v body fuel pos out = .ok (true, out') ∧ Q fs out' := by
    intro rest fuel
    induction fuel generalizing rest with
    | zero => intro pos out done hdone hdrop hpos hfuel; omega
    | succ fuel ih =>
      intro pos out done hdone hdrop hpos hfuel hout
      rw [scanLoop]
      cases rest with
      | nil =>
        have hend : v.length - pos = 0 := by
          rw [← View.length_bytes hv, ← List.length_drop, hdrop]
          rfl
        rw [if_neg (by omega), ← hdone, List.append_nil]
        exact ⟨out, rfl, hout⟩
      | cons f rest =>
        have hsplit : (done ++ [f]) ++ rest = fs := by rw [List.append_assoc]; exact hdone
        have hf : f.Fits := hfits f (hdone ▸ List.mem_append_right _ List.mem_cons_self)
        obtain ⟨raw, pos', hread, hraw, hdrop', hlt, hle⟩ := readField_encode hv hpos hf hdrop
        obtain ⟨out', hbody', hout'⟩ := hbody ⟨rest, hsplit⟩ hraw hout
        rw [if_pos (by omega), hread]
        dsimp only
        rw [hbody']
        exact ih rest pos' out' (done ++ [f]) hsplit hdrop' hle (by omega) hout'
  refine hloop fs _ 0 out [] rfl ?_ (Nat.zero_le _) (Nat.lt_succ_self _) hout
  rw [List.drop_zero, hbytes]

end

end Runtime

end EspTree
