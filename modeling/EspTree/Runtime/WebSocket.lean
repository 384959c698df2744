import EspTree.Lib.WebSocket

/-!
# The socket of the runtime API

`BridgeApiProtoWsTransport` speaks the WebSocket protocol itself: `read_exact` puts together what `recv`
returns piece by piece, `read_frame` reads one frame of the client, `send_frame` writes one, and `read_loop`
takes frame after frame until one of them ends the session.  The bridge takes frames that are final and
masked and whose length has 7 or 16 bits, and writes frames without a key.

There are two results.  `Socket.readLoop_eq_iff` says which frames the loop takes, whatever the pieces in
which their bytes arrive; `frames_agree` says that what one side writes is what the other side reads.

A socket is the list of what has arrived on it: bytes in pieces of any size, signals that interrupt a
call, and an error (a timeout counts as one).  After the last piece the peer has closed the connection.
-/

namespace EspTree

open Wire

namespace Runtime

/-- What a call of `recv` comes upon. -/
inductive Arrival
  | data (first : UInt8) (more : Bytes)
  | interrupted
  | failed
  deriving DecidableEq

/-- The result of `recv`. -/
inductive Received
  | bytes (b : Bytes)
  | closed
  | interrupted
  | failed

abbrev Socket := List Arrival

namespace Arrival

/-- More than the bytes of a piece, and something for each signal. -/
def size : Arrival → ℕ
  | .data _ more => more.length + 1
  | .interrupted | .failed => 1

/-- What is left of a piece. -/
def left : Bytes → Socket
  | [] => []
  | first :: more => [.data first more]

end Arrival

namespace Socket

/-- The bytes that can be read. -/
def bytes : Socket → Bytes
  | [] => []
  | .data first more :: s => first :: more ++ bytes s
  | .interrupted :: s => bytes s
  | .failed :: _ => []

def size (s : Socket) : ℕ := (s.map Arrival.size).sum

def recv (s : Socket) (len : ℕ) : Received × Socket :=
  match s with
  | [] => (.closed, [])
  | .data first more :: s => (.bytes ((first :: more).take len), Arrival.left ((first :: more).drop len) ++ s)
  | .interrupted :: s => (.interrupted, s)
  | .failed :: s => (.failed, .failed :: s)

/-- The loop of `read_exact`, for at most so many calls. -/
def readExactLoop : ℕ → Socket → ℕ → Option (Bytes × Socket)
  | 0, _, _ => none
  | fuel + 1, s, len =>
    if len = 0 then some ([], s)
    else
      match s.recv len with
      | (.bytes b, s') => (readExactLoop fuel s' (len - b.length)).map fun r => (b ++ r.1, r.2)
      | (.interrupted, s') => readExactLoop fuel s' len
      | (.closed, _) | (.failed, _) => none

/-- `read_exact`: every call of `recv` takes something away. -/
def readExact (s : Socket) (len : ℕ) : Option (Bytes × Socket) := readExactLoop (s.size + 1) s len

end Socket

/-! ## `read_frame` and `send_frame` -/

/-- `kRuntimeMaxFrameBytes`. -/
def maxFrameBytes : ℕ := 65536

section

variable {σ : Type} (readExact : σ → ℕ → Option (Bytes × σ))

/-- The length of a frame, after the two bytes of the header. -/
def readLength (len : ℕ) (s : σ) : Option (ℕ × σ) :=
  if len = 126 then
    (readExact s 2).map fun r => ((r.1.getD 0 0).toNat <<< 8 ||| (r.1.getD 1 0).toNat, r.2)
  else if len = 127 then none
  else some (len, s)

/-- The mask and the payload of a frame. -/
def readPayload (len : ℕ) (s : σ) : Option (Bytes × σ) := do
  let (mask, s) ← readExact s 4
  let (payload, s) ← if len = 0 then some ([], s) else readExact s len
  return (payload.mapIdx fun i b => b ^^^ mask.getD (i &&& 3) 0, s)

def readFrame (s : σ) : Option ((UInt8 × Bytes) × σ) := do
  let (header, s) ← readExact s 2
  let first := header.getD 0 0
  let second := header.getD 1 0
  if first &&& 0x80 = 0 ∨ second &&& 0x80 = 0 then none
  else
    let (len, s) ← readLength readExact (second &&& 0x7F).toNat s
    if maxFrameBytes < len then none
    else
      let (payload, s) ← readPayload readExact len s
      return ((first &&& 0x0F, payload), s)

end

/-- What `send_frame` gives to `send_exact`. -/
def sendFrame (opcode : UInt8) (payload : Bytes) : Option Bytes :=
  let len := payload.length
  let first := 0x80 ||| (opcode &&& 0x0F)
  if maxFrameBytes < len then none
  else if len < 126 then some (first :: UInt8.ofNat len :: payload)
  else if len ≤ 0xFFFF then
    some (first :: 126 :: UInt8.ofNat (len >>> 8 &&& 0xFF) :: UInt8.ofNat (len &&& 0xFF) :: payload)
  else none

/-! ## `read_loop` -/

/-- `read_loop` goes on after a ping and after a binary frame.  A close, a text frame and a frame of any other
opcode are the last that it takes. -/
def goesOn (opcode : UInt8) : Bool := opcode == 0x9 || opcode == 0x2

/-- `read_loop` with the frames that it has taken so far, for at most so many more.  Before each frame it asks
whether the session is still its own and whether there is anything to read; `active` is the answer to both. -/
def readLoopFrom {σ : Type} (readExact : σ → ℕ → Option (Bytes × σ)) (active : List (UInt8 × Bytes) → Bool) :
    ℕ → List (UInt8 × Bytes) → σ → List (UInt8 × Bytes)
  | 0, _, _ => []
  | fuel + 1, taken, s =>
    if active taken then
      match readFrame readExact s with
      | none => []
      | some (frame, s) =>
        if goesOn frame.1 then frame :: readLoopFrom readExact active fuel (taken ++ [frame]) s else [frame]
    else []

/-- The frames that `read_loop` takes from a socket; each takes away some of its bytes. -/
def Socket.readLoop (active : List (UInt8 × Bytes) → Bool) (s : Socket) : List (UInt8 × Bytes) :=
  readLoopFrom Socket.readExact active s.bytes.length [] s

/-! ## Pieces do not matter -/

namespace Socket

theorem bytes_left_append (b : Bytes) (s : Socket) : bytes (Arrival.left b ++ s) = b ++ bytes s := by
  cases b <;> rfl

theorem size_left_append (b : Bytes) (s : Socket) : size (Arrival.left b ++ s) = b.length + size s := by
  cases b with
  | nil => exact (Nat.zero_add _).symm
  | cons first more => rfl

/-- What a call of `recv` on a piece returns, and what it leaves. -/
theorem recv_data (first : UInt8) (more : Bytes) (s : Socket) {len : ℕ} (hlen : len ≠ 0) :
    ∃ b s', recv (.data first more :: s) len = (.bytes b, s') ∧ b.length ≤ len ∧ 0 < b.length ∧
      bytes (.data first more :: s) = b ++ bytes s' ∧ size (.data first more :: s) = b.length + size s' := by
  refine ⟨(first :: more).take len, Arrival.left ((first :: more).drop len) ++ s, rfl,
    List.length_take_le _ _, ?_, ?_, ?_⟩
  · rw [List.length_take, List.length_cons]
    omega
  · rw [bytes_left_append, ← List.append_assoc, List.take_append_drop]
    rfl
  · rw [size_left_append, ← Nat.add_assoc, List.length_take, List.length_drop, List.length_cons]
    change more.length + 1 + size s = _
    omega

/-- The pieces in which bytes arrive do not matter to `read_exact`, nor do the signals between them.
-/
theorem readExactLoop_eq {fuel : ℕ} {s : Socket} {len : ℕ} (h : s.size < fuel) :
    (readExactLoop fuel s len).map (fun r => (r.1, bytes r.2)) = WebSocket.split len s.bytes := by
  induction fuel generalizing s len with
  | zero => exact absurd h (Nat.not_lt_zero _)
  | succ fuel ih =>
    unfold readExactLoop
    split_ifs with hlen
    · subst hlen
      rw [WebSocket.split, if_pos (Nat.zero_le _), List.take_zero, List.drop_zero]
      rfl
    have hempty : WebSocket.split len [] = none := if_neg fun hle => hlen (Nat.le_zero.mp hle)
    cases s with
    | nil => exact hempty.symm
    | cons arrival s =>
      cases arrival with
      | failed => exact hempty.symm
      | interrupted =>
        have hsize : size (.interrupted :: s) = 1 + size s := rfl
        exact ih (s := s) (by omega)
      | data first more =>
        obtain ⟨b, s', hrecv, hb, hpos, hbytes, hsize⟩ := recv_data first more s hlen
        have heq (n : ℕ) : (readExactLoop fuel s' n).map (fun r => (r.1, bytes r.2)) = WebSocket.split n s'.bytes :=
          ih (by omega)
        rw [hrecv, hbytes, WebSocket.split_append_of_le hb, ← heq, Option.map_map, Option.map_map]
        rfl

/-- `read_exact` returns the next bytes of the stream, however they arrive. -/
theorem readExact_eq (s : Socket) (len : ℕ) :
    (s.readExact len).map (fun r => (r.1, bytes r.2)) = WebSocket.split len s.bytes :=
  readExactLoop_eq (Nat.lt_succ_self _)

end Socket

section

variable {σ τ : Type} {read : σ → ℕ → Option (Bytes × σ)} {read' : τ → ℕ → Option (Bytes × τ)} {view : σ → τ}

/-- What is read of the length depends on the bytes alone. -/
theorem readLength_map (h : ∀ s n, (read s n).map (fun r => (r.1, view r.2)) = read' (view s) n) (len : ℕ) (s : σ) :
    (readLength read len s).map (fun r => (r.1, view r.2)) = readLength read' len (view s) := by
  unfold readLength
  split_ifs
  · rw [← h, Option.map_map, Option.map_map]
    rfl
  · rfl
  · rfl

/-- So does what is read of the payload. -/
theorem readPayload_map (h : ∀ s n, (read s n).map (fun r => (r.1, view r.2)) = read' (view s) n) (len : ℕ)
    (s : σ) : (readPayload read len s).map (fun r => (r.1, view r.2)) = readPayload read' len (view s) := by
  unfold readPayload
  simp only [Option.bind_eq_bind]
  rw [← h]
  cases read s 4 with
  | none => rfl
  | some r =>
    obtain ⟨mask, t⟩ := r
    simp only [Option.bind_some, Option.map_some]
    split_ifs
    · rfl
    · rw [← h]
      cases read t len with
      | none => rfl
      | some r => rfl

/-- `read_frame` on two streams that are read alike. -/
theorem readFrame_map (h : ∀ s n, (read s n).map (fun r => (r.1, view r.2)) = read' (view s) n) (s : σ) :
    (readFrame read s).map (fun r => (r.1, view r.2)) = readFrame read' (view s) := by
  unfold readFrame
  simp only [Option.bind_eq_bind]
  rw [← h]
  cases read s 2 with
  | none => rfl
  | some r =>
    obtain ⟨header, t⟩ := r
    simp only [Option.bind_some, Option.map_some]
    split_ifs
    · rfl
    rw [← readLength_map h]
    cases readLength read (header.getD 1 0 &&& 0x7F).toNat t with
    | none => rfl
    | some r =>
      obtain ⟨len, u⟩ := r
      simp only [Option.bind_some, Option.map_some]
      split_ifs
      · rfl
      rw [← readPayload_map h]
      cases readPayload read len u with
      | none => rfl
      | some r => rfl

end

/-! ## The frames of a client -/

/-- A frame as the bridge takes it: final, with a key, and its length in 7 or 16 bits. -/
structure ClientFrame where
  rsv : Fin 8
  opcode : Fin 16
  key : Octets 4
  payload : Bytes
  form : WebSocket.Form
  holds : form.Holds payload.length
  not_long : form ≠ .long

namespace ClientFrame

def frame (c : ClientFrame) : WebSocket.Frame := ⟨⟨true, c.rsv, c.opcode⟩, some c.key, c.payload⟩

/-- What the client sends. -/
def bytes (c : ClientFrame) : Bytes := c.frame.encodeAs c.form

/-- What `read_frame` makes of it. -/
def shown (c : ClientFrame) : UInt8 × Bytes := (UInt8.ofNat c.opcode, c.payload)

/-- The frame that a client sends for a payload of at most 65535 bytes. -/
def ofPayload (opcode : Fin 16) (key : Octets 4) (payload : Bytes) (h : payload.length < 2 ^ 16) : ClientFrame where
  rsv := 0
  opcode
  key
  payload
  form := WebSocket.Form.shortest payload.length
  holds := WebSocket.Form.holds_shortest (h.trans (by decide))
  not_long := fun hlong => absurd ((WebSocket.Form.shortest_eq_long_iff _).mp hlong) (Nat.not_le_of_lt h)

end ClientFrame

/-! ## Bits and numbers -/

theorem and_80_eq_zero (b : UInt8) : b &&& 0x80 = 0 ↔ ¬ 128 ≤ b.toNat := by
  have hlt := b.toNat_lt
  have hand : (b &&& 0x80).toNat = (b.toNat.testBit 7).toNat * 2 ^ 7 := by
    rw [UInt8.toNat_and]
    exact Nat.and_two_pow b.toNat 7
  rw [← UInt8.toNat_inj, hand, Nat.testBit_eq_decide_div_mod_eq]
  by_cases h : 128 ≤ b.toNat
  · rw [decide_eq_true (by omega)]
    exact iff_of_false (by decide) (not_not_intro h)
  · rw [decide_eq_false (by omega)]
    exact iff_of_true rfl h

/-- The masks of the source, as arithmetic. -/
theorem toNat_and_7F (b : UInt8) : (b &&& 0x7F).toNat = b.toNat % 128 := by
  rw [UInt8.toNat_and]
  exact Nat.and_two_pow_sub_one_eq_mod b.toNat 7

theorem toNat_and_0F (b : UInt8) : (b &&& 0x0F).toNat = b.toNat % 16 := by
  rw [UInt8.toNat_and]
  exact Nat.and_two_pow_sub_one_eq_mod b.toNat 4

theorem shift_or (a b : UInt8) : a.toNat <<< 8 ||| b.toNat = leDecode [b, a] := by
  rw [← Nat.shiftLeft_add_eq_or_of_lt b.toNat_lt, Nat.shiftLeft_eq]
  change _ = b.toNat + 256 * (a.toNat + 256 * 0)
  omega

/-! ## What the bridge takes -/

/-- Reading from the bytes themselves. -/
def readBytes (s : Bytes) (len : ℕ) : Option (Bytes × Bytes) := WebSocket.split len s

section

variable {len : ℕ} {s rest payload : Bytes} {x : UInt8 × Bytes}

/-- The length is read as the format has it, in each of its three forms. -/
theorem readLength_readBytes {n : ℕ} (hlen : len < 128) :
    readLength readBytes len s = some (n, rest) ↔
      ∃ ext, WebSocket.split (WebSocket.Form.ofCode len).width s = some (ext, rest) ∧
        WebSocket.Form.ofCode len ≠ .long ∧ n = (WebSocket.Form.ofCode len).lengthOf len ext := by
  unfold readLength WebSocket.Form.ofCode
  split_ifs with hmedium hlong
  · rw [Option.map_eq_some_iff]
    constructor
    · rintro ⟨⟨ext, t⟩, hread, h⟩
      obtain ⟨rfl, rfl⟩ := Prod.mk.inj h
      obtain ⟨hlength, -⟩ := WebSocket.split_eq_some_iff.mp hread
      obtain ⟨a, b, rfl⟩ := List.length_eq_two.mp hlength
      exact ⟨[a, b], hread, by decide, shift_or a b⟩
    · rintro ⟨ext, hread, -, rfl⟩
      obtain ⟨hlength, -⟩ := WebSocket.split_eq_some_iff.mp hread
      obtain ⟨a, b, rfl⟩ := List.length_eq_two.mp hlength
      exact ⟨([a, b], rest), hread, Prod.ext (shift_or a b) rfl⟩
  · exact iff_of_false (fun h => by cases h) fun ⟨_, _, h, _⟩ => h rfl
  · constructor
    · intro h
      cases h
      exact ⟨[], rfl, by decide, rfl⟩
    · rintro ⟨ext, hread, -, rfl⟩
      have hnil : WebSocket.split 0 s = some ([], s) := rfl
      obtain ⟨-, rfl⟩ := Prod.mk.inj (Option.some.inj (hnil.symm.trans hread))
      rfl

/-- So is the masked payload. -/
theorem readPayload_readBytes :
    readPayload readBytes len s = (WebSocket.decodeBody true len s).map fun r => (r.2.1, r.2.2) := by
  unfold readPayload WebSocket.decodeBody readBytes
  simp only [if_true, Option.bind_eq_bind]
  cases hkey : WebSocket.split 4 s with
  | none => rfl
  | some r =>
    obtain ⟨key, t⟩ := r
    have hlength : key.length = 4 := (WebSocket.split_eq_some_iff.mp hkey).1
    have hfit : (Octets.fit 4 key).bytes = key := by
      rw [Octets.bytes_fit hlength.ge, ← hlength, List.take_length]
    have hmask (payload : Bytes) :
        (payload.mapIdx fun i b => b ^^^ key.getD (i &&& 3) 0) = WebSocket.mask (Octets.fit 4 key) payload := by
      unfold WebSocket.mask
      rw [hfit]
      congr 1
      funext i b
      rw [show i &&& 3 = i % 4 from Nat.and_two_pow_sub_one_eq_mod i 2]
    have hzero : WebSocket.split 0 t = some ([], t) := rfl
    simp only [Option.bind_some, hmask]
    split_ifs with hlen
    · subst hlen
      rw [hzero]
      rfl
    · cases WebSocket.split len t with
      | none => rfl
      | some r => rfl

/-- The reads of `read_frame` that succeed, one after another. -/
theorem readFrame_eq_some_iff_reads :
    readFrame readBytes s = some (x, rest) ↔
      ∃ first second t n u payload, WebSocket.split 2 s = some ([first, second], t) ∧ 128 ≤ first.toNat ∧
        128 ≤ second.toNat ∧ readLength readBytes (second.toNat % 128) t = some (n, u) ∧ n ≤ maxFrameBytes ∧
        readPayload readBytes n u = some (payload, rest) ∧ x = (first &&& 0x0F, payload) := by
  unfold readFrame
  rw [Option.bind_eq_bind, Option.bind_eq_some_iff]
  constructor
  · rintro ⟨⟨header, t⟩, hheader, h⟩
    obtain ⟨first, second, rfl⟩ := List.length_eq_two.mp (WebSocket.split_eq_some_iff.mp hheader).1
    change (if first &&& 0x80 = 0 ∨ second &&& 0x80 = 0 then _ else _) = _ at h
    split_ifs at h with hbits
    obtain ⟨hfirst, hsecond⟩ := not_or.mp hbits
    rw [and_80_eq_zero, not_not] at hfirst hsecond
    rw [Option.bind_eq_bind, Option.bind_eq_some_iff] at h
    obtain ⟨⟨n, u⟩, hn, h⟩ := h
    change readLength readBytes (second &&& 0x7F).toNat t = some (n, u) at hn
    rw [toNat_and_7F] at hn
    change (if maxFrameBytes < n then _ else _) = _ at h
    split_ifs at h with hmax
    rw [Option.bind_eq_some_iff] at h
    obtain ⟨⟨payload, v⟩, hpayload, h⟩ := h
    cases h
    exact ⟨first, second, t, n, u, payload, hheader, hfirst, hsecond, hn, Nat.le_of_not_lt hmax, hpayload, rfl⟩
  · rintro ⟨first, second, t, n, u, payload, hheader, hfirst, hsecond, hn, hmax, hpayload, rfl⟩
    refine ⟨([first, second], t), hheader, ?_⟩
    change (if first &&& 0x80 = 0 ∨ second &&& 0x80 = 0 then _ else _) = _
    have hbits : ¬ (first &&& 0x80 = 0 ∨ second &&& 0x80 = 0) := by
      rw [and_80_eq_zero, and_80_eq_zero]
      exact not_or_intro (not_not_intro hfirst) (not_not_intro hsecond)
    rw [if_neg hbits, Option.bind_eq_bind, Option.bind_eq_some_iff]
    refine ⟨(n, u), ?_, ?_⟩
    · change readLength readBytes (second &&& 0x7F).toNat t = some (n, u)
      rw [toNat_and_7F, hn]
    · change (if maxFrameBytes < n then _ else _) = _
      rw [if_neg (Nat.not_lt_of_le hmax), hpayload]
      rfl

/-- The bridge takes the frames of the protocol that are final and masked and whose length has at most 16
bits, and no others. -/
theorem readFrame_eq_some_iff_decode :
    readFrame readBytes s = some (x, rest) ↔
      ∃ f form, WebSocket.decode s = some (f, form, rest) ∧ f.head.fin ∧ f.key.isSome ∧ form ≠ .long ∧
        x = (UInt8.ofNat f.head.opcode, f.payload) := by
  rw [readFrame_eq_some_iff_reads]
  have hopcode (b : UInt8) : b &&& 0x0F = UInt8.ofNat (WebSocket.Head.ofByte b).opcode := by
    apply UInt8.toNat_inj.mp
    rw [toNat_and_0F, UInt8.toNat_ofNat']
    change b.toNat % 16 = b.toNat % 16 % 2 ^ 8
    omega
  constructor
  · rintro ⟨first, second, t, n, u, payload, hheader, hfirst, hsecond, hn, -, hpayload, rfl⟩
    obtain ⟨ext, hext, hlong, rfl⟩ := (readLength_readBytes (Nat.mod_lt _ (by decide))).mp hn
    rw [readPayload_readBytes, Option.map_eq_some_iff] at hpayload
    obtain ⟨⟨key, p, v⟩, hbody, h⟩ := hpayload
    obtain ⟨rfl, rfl⟩ := Prod.mk.inj h
    have hkey : key.isSome = true :=
      (WebSocket.decodeBody_eq_some_iff (f := ⟨WebSocket.Head.ofByte first, none, []⟩)).mp hbody |>.1
    refine ⟨⟨WebSocket.Head.ofByte first, key, p⟩, WebSocket.Form.ofCode (second.toNat % 128), ?_,
      decide_eq_true hfirst, hkey, hlong, ?_⟩
    · unfold WebSocket.decode
      simp only [Option.bind_eq_bind, hheader, Option.bind_some, List.getD_cons_succ, List.getD_cons_zero, hext,
        decide_eq_true hsecond, hbody]
      rfl
    · rw [hopcode]
  · rintro ⟨f, form, hdecode, hfin, hsome, hlong, rfl⟩
    unfold WebSocket.decode at hdecode
    simp only [Option.bind_eq_bind, Option.bind_eq_some_iff, Prod.exists] at hdecode
    obtain ⟨header, t, hheader, ext, u, hext, key, payload, v, hbody, h⟩ := hdecode
    obtain ⟨first, second, rfl⟩ := List.length_eq_two.mp (WebSocket.split_eq_some_iff.mp hheader).1
    cases h
    simp only [List.getD_cons_zero, List.getD_cons_succ] at hext hfin hlong hbody ⊢
    have hfirst : 128 ≤ first.toNat := of_decide_eq_true hfin
    obtain ⟨hmasked, hlength, -⟩ :=
      (WebSocket.decodeBody_eq_some_iff (f := ⟨WebSocket.Head.ofByte first, none, []⟩)).mp hbody
    have hsecond : 128 ≤ second.toNat := of_decide_eq_true (hmasked.symm.trans hsome)
    obtain ⟨hholds, -, -⟩ := WebSocket.Form.written_of_lengthOf (Nat.mod_lt _ (by decide))
      (WebSocket.split_eq_some_iff.mp hext).1
    refine ⟨first, second, t, _, u, payload, hheader, hfirst, hsecond,
      (readLength_readBytes (Nat.mod_lt _ (by decide))).mpr ⟨ext, hext, hlong, rfl⟩, ?_, ?_, ?_⟩
    · exact (hholds.lt hlong).le
    · rw [readPayload_readBytes, Option.map_eq_some_iff]
      refine ⟨(key, payload, rest), ?_, rfl⟩
      rw [← hbody, decide_eq_true hsecond]
    · rw [hopcode]

/-- `read_frame` succeeds exactly on what a client sends, and leaves what follows it. -/
theorem readFrame_eq_some_iff :
    readFrame readBytes s = some (x, rest) ↔ ∃ c : ClientFrame, c.shown = x ∧ s = c.bytes ++ rest := by
  rw [readFrame_eq_some_iff_decode]
  constructor
  · rintro ⟨⟨⟨fin, rsv, opcode⟩, key, payload⟩, form, hdecode, hfin, hkey, hlong, rfl⟩
    obtain ⟨hholds, rfl⟩ := WebSocket.decode_eq_some_iff.mp hdecode
    obtain ⟨key, rfl⟩ := Option.isSome_iff_exists.mp hkey
    obtain rfl : fin = true := hfin
    exact ⟨⟨rsv, opcode, key, payload, form, hholds, hlong⟩, rfl, rfl⟩
  · rintro ⟨c, rfl, rfl⟩
    exact ⟨c.frame, c.form, WebSocket.decode_encodeAs c.holds rest, rfl, rfl, c.not_long, rfl⟩

end

namespace ClientFrame

variable {c c' : ClientFrame} {rest rest' : Bytes}

/-- A stream starts with at most one frame. -/
theorem shown_eq_of_bytes_append (h : c.bytes ++ rest = c'.bytes ++ rest') : c.shown = c'.shown ∧ rest = rest' := by
  have hc := (readFrame_eq_some_iff (s := c.bytes ++ rest)).mpr ⟨c, rfl, rfl⟩
  have hc' := (readFrame_eq_some_iff (s := c.bytes ++ rest)).mpr ⟨c', rfl, h⟩
  exact Prod.mk.inj (Option.some.inj (hc.symm.trans hc'))

theorem two_le_length_bytes (c : ClientFrame) : 2 ≤ c.bytes.length := by
  unfold bytes WebSocket.Frame.encodeAs
  rw [List.length_cons, List.length_cons]
  omega

end ClientFrame

namespace Socket

/-- `read_frame` on a socket, as one decides it on the bytes that arrive. -/
theorem readFrame_eq (s : Socket) :
    (readFrame readExact s).map (fun r => (r.1, bytes r.2)) = readFrame readBytes s.bytes :=
  readFrame_map readExact_eq s

/-- `read_frame` fails if and only if what has arrived begins with no frame that it takes. -/
theorem readFrame_eq_none_iff (s : Socket) :
    readFrame readExact s = none ↔ ∀ (c : ClientFrame) rest, s.bytes ≠ c.bytes ++ rest := by
  rw [← Option.map_eq_none_iff, readFrame_eq, Option.eq_none_iff_forall_not_mem]
  constructor
  · intro h c rest heq
    exact h (c.shown, rest) (readFrame_eq_some_iff.mpr ⟨c, rfl, heq⟩)
  · rintro h ⟨x, rest⟩ hx
    obtain ⟨c, -, heq⟩ := readFrame_eq_some_iff.mp hx
    exact h c rest heq

/-- What it returns is a frame of the client, and what it leaves is what follows. -/
theorem readFrame_eq_some {s s' : Socket} {x : UInt8 × Bytes} (h : readFrame readExact s = some (x, s')) :
    ∃ c : ClientFrame, c.shown = x ∧ s.bytes = c.bytes ++ s'.bytes := by
  have hbytes := readFrame_eq s
  rw [h] at hbytes
  exact readFrame_eq_some_iff.mp hbytes.symm

/-- What is said of the frames `xs` that `read_loop` takes after `taken`, when it leaves `rest` on the socket. -/
structure Taken (active : List (UInt8 × Bytes) → Bool) (taken xs : List (UInt8 × Bytes)) (rest : Bytes) : Prop where
  /-- Before each of them the session was still the loop's own. -/
  asked : ∀ ys x zs, xs = ys ++ x :: zs → active (taken ++ ys) = true
  /-- Each that another one follows is a ping or binary. -/
  went_on : ∀ ys x z zs, xs = ys ++ x :: z :: zs → goesOn x.1 = true
  /-- The last of them ends the loop, or the session is gone, or no frame follows. -/
  stopped : (∃ ys x, xs = ys ++ [x] ∧ goesOn x.1 = false) ∨ active (taken ++ xs) = false ∨
    ∀ (c : ClientFrame) rest', rest ≠ c.bytes ++ rest'

section

variable {active : List (UInt8 × Bytes) → Bool} {taken xs : List (UInt8 × Bytes)} {x : UInt8 × Bytes} {rest : Bytes}

theorem taken_nil :
    Taken active taken [] rest ↔ active taken = false ∨ ∀ (c : ClientFrame) rest', rest ≠ c.bytes ++ rest' := by
  constructor
  · intro h
    rcases h.stopped with ⟨ys, x, hnil, -⟩ | hactive | hspent
    · exact absurd hnil.symm (List.append_ne_nil_of_right_ne_nil ys (List.cons_ne_nil x []))
    · rw [List.append_nil] at hactive
      exact .inl hactive
    · exact .inr hspent
  · intro h
    refine ⟨fun ys x zs hnil => ?_, fun ys x z zs hnil => ?_, .inr ?_⟩
    · exact absurd hnil.symm (List.append_ne_nil_of_right_ne_nil ys (List.cons_ne_nil x zs))
    · exact absurd hnil.symm (List.append_ne_nil_of_right_ne_nil ys (List.cons_ne_nil x (z :: zs)))
    · rwa [List.append_nil]

/-- The first frame was asked for; it is the last one, or the rest is taken after it. -/
theorem taken_cons :
    Taken active taken (x :: xs) rest ↔ active taken = true ∧
      ((goesOn x.1 = false ∧ xs = []) ∨ (goesOn x.1 = true ∧ Taken active (taken ++ [x]) xs rest)) := by
  have happend (ys : List (UInt8 × Bytes)) : taken ++ x :: ys = taken ++ [x] ++ ys := by
    rw [List.append_assoc]
    rfl
  constructor
  · intro h
    have hactive := h.asked [] x xs rfl
    rw [List.append_nil] at hactive
    refine ⟨hactive, ?_⟩
    cases hgoes : goesOn x.1 with
    | false =>
      refine .inl ⟨rfl, ?_⟩
      cases xs with
      | nil => rfl
      | cons z zs => cases hgoes.symm.trans (h.went_on [] x z zs rfl)
    | true =>
      refine .inr ⟨rfl, fun ys y zs heq => ?_, fun ys y z zs heq => ?_, ?_⟩
      · rw [← happend]
        exact h.asked (x :: ys) y zs (congrArg (x :: ·) heq)
      · exact h.went_on (x :: ys) y z zs (congrArg (x :: ·) heq)
      · rcases h.stopped with ⟨ys, y, heq, hlast⟩ | hgone | hspent
        · cases ys with
          | nil =>
            obtain ⟨rfl, -⟩ := List.cons.inj heq
            cases hgoes.symm.trans hlast
          | cons y' ys => exact .inl ⟨ys, y, (List.cons.inj heq).2, hlast⟩
        · rw [happend] at hgone
          exact .inr (.inl hgone)
        · exact .inr (.inr hspent)
  · rintro ⟨hactive, ⟨hlast, rfl⟩ | ⟨hgoes, h⟩⟩
    · refine ⟨fun ys y zs heq => ?_, fun ys y z zs heq => ?_, .inl ⟨[], x, rfl, hlast⟩⟩
      · cases ys with
        | nil => rwa [List.append_nil]
        | cons y' ys =>
          exact absurd (List.cons.inj heq).2.symm (List.append_ne_nil_of_right_ne_nil ys (List.cons_ne_nil y zs))
      · cases ys with
        | nil => cases (List.cons.inj heq).2
        | cons y' ys =>
          exact absurd (List.cons.inj heq).2.symm
            (List.append_ne_nil_of_right_ne_nil ys (List.cons_ne_nil y (z :: zs)))
    · refine ⟨fun ys y zs heq => ?_, fun ys y z zs heq => ?_, ?_⟩
      · cases ys with
        | nil => rwa [List.append_nil]
        | cons y' ys =>
          obtain ⟨rfl, hxs⟩ := List.cons.inj heq
          rw [happend]
          exact h.asked ys y zs hxs
      · cases ys with
        | nil =>
          obtain ⟨rfl, -⟩ := List.cons.inj heq
          exact hgoes
        | cons y' ys => exact h.went_on ys y z zs (List.cons.inj heq).2
      · rcases h.stopped with ⟨ys, y, heq, hlast⟩ | hgone | hspent
        · exact .inl ⟨x :: ys, y, congrArg (x :: ·) heq, hlast⟩
        · rw [← happend] at hgone
          exact .inr (.inl hgone)
        · exact .inr (.inr hspent)

/-- What `read_loop` may take of these bytes after `taken`. -/
def Takes (active : List (UInt8 × Bytes) → Bool) (taken xs : List (UInt8 × Bytes)) (b : Bytes) : Prop :=
  ∃ (fs : List ClientFrame) (rest : Bytes), fs.map ClientFrame.shown = xs ∧
    b = fs.flatMap ClientFrame.bytes ++ rest ∧ Taken active taken xs rest

/-- Nothing is taken in a session that is gone, nor of bytes that begin no frame. -/
theorem takes_iff_of_end {b : Bytes}
    (hend : active taken = false ∨ ∀ (c : ClientFrame) rest, b ≠ c.bytes ++ rest) :
    Takes active taken xs b ↔ xs = [] := by
  constructor
  · rintro ⟨fs, rest, rfl, heq, htaken⟩
    cases fs with
    | nil => rfl
    | cons c fs =>
      rcases hend with hgone | hnone
      · cases hgone.symm.trans (taken_cons.mp htaken).1
      · rw [List.flatMap_cons, List.append_assoc] at heq
        exact absurd heq (hnone c _)
  · rintro rfl
    exact ⟨[], b, rfl, rfl, taken_nil.mpr hend⟩

/-- Of bytes that begin with a frame this one is taken first.  It is the last one, or the rest is taken of the bytes
that follow: a stream begins with at most one frame. -/
theorem takes_append_iff (hactive : active taken = true) (c : ClientFrame) (b : Bytes) :
    Takes active taken xs (c.bytes ++ b) ↔ ∃ xs', xs = c.shown :: xs' ∧
      ((goesOn c.shown.1 = false ∧ xs' = []) ∨
        (goesOn c.shown.1 = true ∧ Takes active (taken ++ [c.shown]) xs' b)) := by
  constructor
  · rintro ⟨fs, rest, rfl, heq, htaken⟩
    cases fs with
    | nil =>
      rcases taken_nil.mp htaken with hgone | hspent
      · cases hactive.symm.trans hgone
      · exact absurd heq.symm (hspent c _)
    | cons c' fs =>
      rw [List.flatMap_cons, List.append_assoc] at heq
      obtain ⟨hshown, hrest⟩ := ClientFrame.shown_eq_of_bytes_append heq
      rw [List.map_cons, ← hshown] at htaken ⊢
      refine ⟨_, rfl, ?_⟩
      rcases (taken_cons.mp htaken).2 with ⟨hlast, hnil⟩ | ⟨hgoes, htaken⟩
      · exact .inl ⟨hlast, hnil⟩
      · exact .inr ⟨hgoes, fs, rest, rfl, hrest, htaken⟩
  · rintro ⟨xs', rfl, ⟨hlast, rfl⟩ | ⟨hgoes, fs, rest, rfl, rfl, htaken⟩⟩
    · refine ⟨[c], b, rfl, ?_, taken_cons.mpr ⟨hactive, .inl ⟨hlast, rfl⟩⟩⟩
      rw [List.flatMap_singleton]
    · refine ⟨c :: fs, rest, rfl, ?_, taken_cons.mpr ⟨hactive, .inr ⟨hgoes, htaken⟩⟩⟩
      rw [List.flatMap_cons, List.append_assoc]

end

/-- By induction on the calls that are left: a frame of the client is read whole or not at all
(`readFrame_eq_some`), and what follows it is taken by the rest of the loop. -/
theorem readLoopFrom_iff {active : List (UInt8 × Bytes) → Bool} {fuel : ℕ} {s : Socket}
    (hfuel : s.bytes.length ≤ fuel) (taken xs : List (UInt8 × Bytes)) :
    readLoopFrom readExact active fuel taken s = xs ↔ Takes active taken xs s.bytes := by
  induction fuel generalizing s taken xs with
  | zero =>
    have hnone (c : ClientFrame) (rest : Bytes) : s.bytes ≠ c.bytes ++ rest := fun heq => by
      have htwo := c.two_le_length_bytes
      have hlength := congrArg List.length heq
      rw [List.length_append] at hlength
      omega
    rw [takes_iff_of_end (.inr hnone)]
    exact eq_comm
  | succ fuel ih =>
    unfold readLoopFrom
    cases hactive : active taken with
    | false =>
      rw [if_neg Bool.false_ne_true, takes_iff_of_end (.inl hactive)]
      exact eq_comm
    | true =>
      rw [if_pos rfl]
      cases hread : readFrame readExact s with
      | none =>
        rw [takes_iff_of_end (.inr ((readFrame_eq_none_iff s).mp hread))]
        exact eq_comm
      | some r =>
        obtain ⟨x, s'⟩ := r
        obtain ⟨c, rfl, hbytes⟩ := readFrame_eq_some hread
        have hs' : s'.bytes.length ≤ fuel := by
          have htwo := c.two_le_length_bytes
          have hlength := congrArg List.length hbytes
          rw [List.length_append] at hlength
          omega
        rw [hbytes, takes_append_iff hactive]
        dsimp only
        cases hgoes : goesOn c.shown.1 with
        | false =>
          rw [if_neg Bool.false_ne_true]
          constructor
          · rintro rfl
            exact ⟨[], rfl, .inl ⟨rfl, rfl⟩⟩
          · rintro ⟨xs', rfl, ⟨-, rfl⟩ | ⟨hon, -⟩⟩
            · rfl
            · cases hon
        | true =>
          rw [if_pos rfl]
          constructor
          · rintro rfl
            exact ⟨_, rfl, .inr ⟨rfl, (ih hs' (taken ++ [c.shown]) _).mp rfl⟩⟩
          · rintro ⟨xs', rfl, ⟨hlast, -⟩ | ⟨-, htakes⟩⟩
            · cases hlast
            · rw [(ih hs' (taken ++ [c.shown]) xs').mpr htakes]

/-- The frames that `read_loop` takes are the next that the client has sent, in whatever pieces their bytes have
arrived.  It takes them as long as the session is its own, up to and including the first that is neither a
ping nor binary, or up to the first bytes that are no frame. -/
theorem readLoop_eq_iff (active : List (UInt8 × Bytes) → Bool) (s : Socket) (xs : List (UInt8 × Bytes)) :
    s.readLoop active = xs ↔
      ∃ (fs : List ClientFrame) (rest : Bytes), fs.map ClientFrame.shown = xs ∧
        s.bytes = fs.flatMap ClientFrame.bytes ++ rest ∧ Taken active [] xs rest :=
  readLoopFrom_iff le_rfl [] xs

end Socket

/-! ## What the bridge sends -/

/-- A frame of the bridge. -/
def serverFrame (opcode : Fin 16) (payload : Bytes) : WebSocket.Frame := ⟨⟨true, 0, opcode⟩, none, payload⟩

theorem byte_serverFrame (opcode : Fin 16) (payload : Bytes) :
    0x80 ||| (UInt8.ofNat opcode &&& 0x0F) = (serverFrame opcode payload).head.byte := by
  change _ = WebSocket.Head.byte ⟨true, 0, opcode⟩
  revert opcode
  decide

/-- The two bytes of a medium length, as the source writes them. -/
theorem extended_medium (n : ℕ) :
    WebSocket.Form.medium.extended n = [UInt8.ofNat (n >>> 8 &&& 0xFF), UInt8.ofNat (n &&& 0xFF)] := by
  have hand (k : ℕ) : UInt8.ofNat (k &&& 0xFF) = UInt8.ofNat k := by
    apply UInt8.toNat_inj.mp
    rw [UInt8.toNat_ofNat', UInt8.toNat_ofNat', show k &&& 0xFF = k % 2 ^ 8 from Nat.and_two_pow_sub_one_eq_mod k 8,
      Nat.mod_mod]
  rw [hand, hand, Nat.shiftRight_eq_div_pow]
  rfl

/-- `send_frame` writes the shortest form, and nothing from 65536 bytes on. -/
theorem sendFrame_eq (opcode : Fin 16) (payload : Bytes) :
    sendFrame (UInt8.ofNat opcode) payload =
      if payload.length < 2 ^ 16 then
        some ((serverFrame opcode payload).encodeAs (WebSocket.Form.shortest payload.length))
      else none := by
  unfold sendFrame
  simp only [byte_serverFrame opcode payload]
  by_cases hlt : payload.length < 2 ^ 16
  · rw [if_pos hlt, if_neg (by unfold maxFrameBytes; omega)]
    unfold WebSocket.Form.shortest
    split_ifs with hshort hle
    · change _ = some (_ :: UInt8.ofNat (false.toNat * 128 + payload.length) :: ([] ++ payload))
      rw [Bool.toNat_false, Nat.zero_mul, Nat.zero_add, List.nil_append]
    · change _ = some (_ :: UInt8.ofNat (false.toNat * 128 + 126) :: (WebSocket.Form.medium.extended _ ++ payload))
      rw [extended_medium]
      rfl
    · exact absurd (Nat.le_of_lt_succ hlt) hle
  · rw [if_neg hlt]
    split_ifs with hmax hshort hle
    · rfl
    · omega
    · omega
    · rfl

/-- The frame that a client sends. -/
def hostFrame (opcode : Fin 16) (key : Octets 4) (payload : Bytes) : WebSocket.Frame :=
  ⟨⟨true, 0, opcode⟩, some key, payload⟩

/-- A frame of the host is read back, unless it is longer than the bridge takes. -/
theorem readFrame_hostFrame (opcode : Fin 16) (key : Octets 4) (payload rest : Bytes) :
    readFrame readBytes
        ((hostFrame opcode key payload).encodeAs (WebSocket.Form.shortest payload.length) ++ rest) =
      if payload.length < 2 ^ 16 then some ((UInt8.ofNat opcode, payload), rest) else none := by
  split_ifs with hlt
  · exact readFrame_eq_some_iff.mpr ⟨ClientFrame.ofPayload opcode key payload hlt, rfl, rfl⟩
  · rw [Option.eq_none_iff_forall_not_mem]
    rintro ⟨x, t⟩ hx
    obtain ⟨first, second, u, n, v, p, hheader, -, -, hn, -⟩ := readFrame_eq_some_iff_reads.mp hx
    rw [(WebSocket.Form.shortest_eq_long_iff _).mpr (Nat.le_of_not_lt hlt)] at hheader
    have hsplit := (WebSocket.split_eq_some_iff.mp hheader).2
    obtain ⟨-, hsecond⟩ := List.cons.inj hsplit
    obtain ⟨rfl, -⟩ := List.cons.inj hsecond
    have hcode : (UInt8.ofNat ((some key).isSome.toNat * 128 + 127)).toNat % 128 = 127 := by
      rw [Option.isSome_some, Bool.toNat_true]
      decide
    have hnone : readLength readBytes 127 u = none := rfl
    change readLength readBytes ((UInt8.ofNat ((some key).isSome.toNat * 128 + 127)).toNat % 128) u = _ at hn
    rw [hcode, hnone] at hn
    cases hn

/-- Both directions carry payloads of up to 65535 bytes and give them back unchanged; one of
`kRuntimeMaxFrameBytes` bytes is refused by the bridge in both. -/
theorem frames_agree (opcode : Fin 16) (key : Octets 4) (payload rest : Bytes) :
    (match sendFrame (UInt8.ofNat opcode) payload with
      | some b => payload.length < maxFrameBytes ∧
          WebSocket.decode (b ++ rest) =
            some (serverFrame opcode payload, WebSocket.Form.shortest payload.length, rest)
      | none => maxFrameBytes ≤ payload.length) ∧
      readFrame readBytes
          ((hostFrame opcode key payload).encodeAs (WebSocket.Form.shortest payload.length) ++ rest) =
        if payload.length < maxFrameBytes then some ((UInt8.ofNat opcode, payload), rest) else none := by
  refine ⟨?_, readFrame_hostFrame opcode key payload rest⟩
  rw [sendFrame_eq]
  by_cases hlt : payload.length < 2 ^ 16
  · rw [if_pos hlt]
    exact ⟨hlt, WebSocket.decode_encodeAs (WebSocket.Form.holds_shortest (hlt.trans (by decide))) rest⟩
  · rw [if_neg hlt]
    exact Nat.le_of_not_lt hlt

end Runtime

end EspTree
