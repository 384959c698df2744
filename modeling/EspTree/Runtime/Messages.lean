import EspTree.File.Host
import EspTree.Runtime.Writer

/-!
# The messages of the runtime API

The `parse_*` functions, each as the branches that it has for a field, and `envelope`.  A parser returns its
result beside its out-parameter; a pointer that is kept in there is a view of the memory.

`parseEnvelope_envelope` is the round trip of an envelope, and `Parser.safe` says of every parser that it ends
on every input, reads no byte outside it and returns no view outside it.  The text of a `double` is what
`std::to_string` makes of it, a parameter here.
-/

namespace EspTree

open Wire

namespace Runtime

/-- The branch of a parser for some of the fields: `none` leaves the field to the next one. -/
abbrev Branch (σ : Type) := RawField → σ → Option (Except Fault (Bool × σ))

/-- The body of a parser: the first branch that is for the field. -/
def branches {σ : Type} : List (Branch σ) → RawField → σ → Except Fault (Bool × σ)
  | [], _, out => .ok (true, out)
  | branch :: rest, raw, out => (branch raw out).getD (branches rest raw out)

/-- A parser runs its branches, and returns `accepts out` where it gets to the end. -/
def parse {σ : Type} (m : Bytes) (v : View) (out : σ) (bs : List (Branch σ)) (accepts : σ → Bool) :
    Except Fault (Bool × σ) :=
  (scan m v (branches bs) out).map fun r => (r.1 && accepts r.2, r.2)

section

variable (m : Bytes) (v : View) {σ : Type}

/-- `field == … && wire == 2`, where the bytes are copied. -/
def onString (field : Nat) (set : σ → Bytes → σ) : Branch σ := fun raw out =>
  if raw.field = field ∧ raw.wire = 2 then some ((asString m v raw.value).map fun s => (true, set out s))
  else none

/-- `field == … && wire == 0`. -/
def onVarint (field : Nat) (set : σ → Nat → σ) : Branch σ := fun raw out =>
  if raw.field = field ∧ raw.wire = 0 then some (.ok (true, set out raw.varint)) else none

/-- `wire == 2`, for the field or the fields of the branch, where the pointer is kept. -/
def onView (fields : Nat → Prop) [DecidablePred fields] (set : σ → Nat → Option View → σ) : Branch σ :=
  fun raw out => if fields raw.field ∧ raw.wire = 2 then some (.ok (true, set out raw.field raw.value)) else none

/-- `field == … && wire == 2`, where another parser gets the bytes, and its result is taken if it succeeds. -/
def onMessage {τ : Type} (field : Nat) (nested : View → Except Fault (Bool × τ)) (set : σ → τ → σ) : Branch σ :=
  fun raw out =>
    if raw.field = field ∧ raw.wire = 2 then
      some (match raw.value with
        | none => .error .overread
        | some w => (nested w).map fun r => if r.1 then (true, set out r.2) else (false, out))
    else none

end

/-! ## The out-parameters -/

/-- `ParsedEnvelope`; the pointer and the length of the message are a view. -/
structure ParsedEnvelope where
  requestId : Bytes := []
  apiVersion : Nat := 0
  msgField : Nat := 0
  msgData : Option View := none

structure ParsedAuthResponse where
  clientKind : Bytes := []
  clientName : Bytes := []
  clientNonce : Bytes := []
  hmacSha256 : Bytes := []

structure ParsedCommandArgument where
  name : Bytes := []
  value : Bytes := []
  deriving DecidableEq

structure ParsedCommandRequest where
  remoteMac : Bytes := []
  objectId : Bytes := []
  command : Bytes := []
  args : List ParsedCommandArgument := []
  deriving DecidableEq

structure ParsedConfigCommandRequest where
  remoteMac : Bytes := []
  command : Bytes := []
  intervalSeconds : Nat := 0
  parentMac : Bytes := []
  clearParent : Bool := false
  relayEnable : Bool := false

structure ParsedOtaStartRequest where
  targetMac : Bytes := []
  fileSize : Nat := 0
  md5 : Bytes := []
  sha256 : Bytes := []
  filename : Bytes := []
  preferredChunkSize : Nat := 0

/-- `ParsedOtaChunk`; the pointer and the length of the payload are a view. -/
structure ParsedOtaChunk where
  sequence : Nat := 0
  offset : Nat := 0
  payload : Option View := none
  flags : Nat := 0
  crc32 : Nat := 0

structure ParsedOtaChunkBatch where
  jobId : Bytes := []
  responseRequestId : Bytes := []
  chunks : List ParsedOtaChunk := []

structure ParsedOtaAbortRequest where
  jobId : Bytes := []
  reason : Bytes := []

structure ParsedStateReceipt where
  remoteMac : Bytes := []
  bridgeMac : Bytes := []
  sessionId : Bytes := []
  stateTxCounter : Nat := 0
  entityIndex : Nat := 0

/-! ## The parsers -/

/-- `kRuntimeHmacBytes`. -/
def hmacBytes : Nat := 32

section

variable (doubleText : Octets 8 → Bytes) (m : Bytes) (v : View)

def valueToString (raw : RawField) : Except Fault Bytes :=
  if raw.wire = 0 then .ok (decimal raw.varint)
  else if raw.wire = 1 ∧ raw.value.any (·.length = 8) then
    (asString m v raw.value).map fun b => doubleText (Octets.fit 8 b)
  else if raw.wire = 2 then asString m v raw.value
  else .ok []

/-- The branches of `parse_envelope`. -/
def envelopeBranches : List (Branch ParsedEnvelope) :=
  [onString m v 1 fun out s => { out with requestId := s },
    onVarint 2 fun out n => { out with apiVersion := n % 2 ^ 32 },
    onView (10 ≤ ·) fun out field value => { out with msgField := field, msgData := value }]

def parseEnvelope : Except Fault (Bool × ParsedEnvelope) :=
  parse m v {} (envelopeBranches m v) fun out => out.msgField != 0

def parseAuthResponse : Except Fault (Bool × ParsedAuthResponse) :=
  parse m v {}
    [onString m v 1 fun out s => { out with clientKind := s },
      onString m v 2 fun out s => { out with clientName := s },
      onString m v 3 fun out s => { out with clientNonce := s },
      onString m v 4 fun out s => { out with hmacSha256 := s }]
    fun out => out.clientKind != [] && out.clientNonce != [] && out.hmacSha256.length == hmacBytes

/-- `afield >= 10` of the inner loop of `parse_command_request`, whichever the wire type is. -/
def onArgumentValue : Branch ParsedCommandArgument := fun raw arg =>
  if 10 ≤ raw.field then some ((valueToString doubleText m v raw).map fun s => (true, { arg with value := s }))
  else none

/-- The branches of the inner loop of `parse_command_request`. -/
def argumentBranches : List (Branch ParsedCommandArgument) :=
  [onString m v 1 fun arg s => { arg with name := s }, onArgumentValue doubleText m v]

/-- The inner loop of `parse_command_request`. -/
def parseCommandArgument : Except Fault (Bool × ParsedCommandArgument) :=
  parse m v {} (argumentBranches doubleText m v) fun _ => true

/-- The branches of `parse_command_request`. -/
def requestBranches : List (Branch ParsedCommandRequest) :=
  [onString m v 1 fun out s => { out with remoteMac := s },
    onString m v 2 fun out s => { out with objectId := s },
    onString m v 3 fun out s => { out with command := s },
    onMessage 4 (parseCommandArgument doubleText m) fun out arg => { out with args := out.args ++ [arg] }]

def parseCommandRequest : Except Fault (Bool × ParsedCommandRequest) :=
  parse m v {} (requestBranches doubleText m v) fun out =>
    out.remoteMac != [] && out.objectId != [] && out.command != []

def parseConfigCommandRequest : Except Fault (Bool × ParsedConfigCommandRequest) :=
  parse m v {}
    [onString m v 1 fun out s => { out with remoteMac := s },
      onString m v 2 fun out s => { out with command := s },
      onVarint 3 fun out n => { out with intervalSeconds := n % 2 ^ 32 },
      onString m v 4 fun out s => { out with parentMac := s },
      onVarint 5 fun out n => { out with clearParent := n != 0 },
      onVarint 6 fun out n => { out with relayEnable := n != 0 }]
    fun out => out.remoteMac != [] && out.command != []

def parseStateReceipt : Except Fault (Bool × ParsedStateReceipt) :=
  parse m v {}
    [onString m v 1 fun out s => { out with remoteMac := s },
      onString m v 2 fun out s => { out with bridgeMac := s },
      onString m v 3 fun out s => { out with sessionId := s },
      onVarint 4 fun out n => { out with stateTxCounter := n % 2 ^ 32 },
      onVarint 5 fun out n => { out with entityIndex := n % 2 ^ 8 }]
    fun out => out.remoteMac != []

def parseOtaStartRequest : Except Fault (Bool × ParsedOtaStartRequest) :=
  parse m v {}
    [onString m v 1 fun out s => { out with targetMac := s },
      onVarint 2 fun out n => { out with fileSize := n % 2 ^ 32 },
      onString m v 3 fun out s => { out with md5 := s },
      onString m v 4 fun out s => { out with sha256 := s },
      onString m v 5 fun out s => { out with filename := s },
      onVarint 6 fun out n => { out with preferredChunkSize := n % 2 ^ 16 }]
    fun out => out.targetMac != [] && decide (0 < out.fileSize) && out.md5 != []

/-- The branches of `parse_ota_chunk_message`. -/
def chunkBranches : List (Branch ParsedOtaChunk) :=
  [onVarint 1 fun out n => { out with sequence := n % 2 ^ 32 },
    onVarint 2 fun out n => { out with offset := n % 2 ^ 32 },
    onView (· = 3) fun out _ value => { out with payload := value },
    onVarint 4 fun out n => { out with flags := n % 2 ^ 32 },
    onVarint 5 fun out n => { out with crc32 := n % 2 ^ 32 }]

def parseOtaChunkMessage : Except Fault (Bool × ParsedOtaChunk) :=
  parse m v {} chunkBranches fun out => out.payload.isSome

/-- The branches of `parse_ota_chunk_batch`. -/
def batchBranches : List (Branch ParsedOtaChunkBatch) :=
  [onString m v 1 fun out s => { out with jobId := s },
    onString m v 2 fun out s => { out with responseRequestId := s },
    onMessage 3 (parseOtaChunkMessage m) fun out chunk => { out with chunks := out.chunks ++ [chunk] }]

def parseOtaChunkBatch : Except Fault (Bool × ParsedOtaChunkBatch) :=
  parse m v {} (batchBranches m v) fun out =>
    out.jobId != [] && out.responseRequestId != [] && out.chunks.length != 0

/-- `"user"`. -/
def userReason : Bytes := [117, 115, 101, 114]

/-- The loop of `parse_ota_abort_request`. -/
def parseOtaAbortFields : Except Fault (Bool × ParsedOtaAbortRequest) :=
  parse m v {}
    [onString m v 1 fun out s => { out with jobId := s },
      onString m v 2 fun out s => { out with reason := s }]
    fun _ => true

/-- `parse_ota_abort_request`: `reason` has a default, except where a field could not be read. -/
def parseOtaAbortRequest : Except Fault (Bool × ParsedOtaAbortRequest) :=
  (parseOtaAbortFields m v).map fun r =>
    if r.1 ∧ r.2.reason = [] then (true, { r.2 with reason := userReason }) else r

/-- The body of `ping_monotonic_ms`, which returns from inside the loop. -/
def pingBody (raw : RawField) (out : Nat) : Except Fault (Bool × Nat) :=
  .ok (if raw.field = 1 ∧ raw.wire = 0 then (false, raw.varint) else (true, out))

/-- `ping_monotonic_ms`: the first number of field 1, or zero. -/
def pingMonotonicMs : Except Fault Nat := (scan m v pingBody 0).map (·.2)

end

def envelope (requestId : Bytes) (msgField : Nat) (builder : List Item) : Bytes :=
  writeAll [.string 1 requestId, .varint 2 Host.apiVersion, .message msgField builder]

/-! ## No parser leaves its input -/

section

variable {m : Bytes} {v : View} {σ : Type} {P : σ → Prop} {out : σ}

/-- A field of the wire type 2 has a view of the bytes that it is read from. -/
theorem RawField.Represents.of_wire_two {raw : RawField} {f : Proto.Field} (h : raw.Represents m v f)
    (hwire : raw.wire = 2) :
    ∃ b w, f.value = .bytes b ∧ raw.value = some w ∧ w.Within v ∧ w.bytes m = b := by
  have hvalue : f.value.wire = 2 := h.wire ▸ hwire
  cases hf : f.value with
  | varint n => rw [hf] at hvalue; cases hvalue
  | fixed64 b => rw [hf] at hvalue; cases hvalue
  | bytes b =>
    obtain ⟨w, hw⟩ := h.bytes b hf
    exact ⟨b, w, rfl, hw⟩

/-- A branch faults on no field of the input, and keeps `P`. -/
def Branch.Safe (m : Bytes) (v : View) (P : σ → Prop) (branch : Branch σ) : Prop :=
  ∀ ⦃raw f out r⦄, RawField.Represents m v raw f → P out → branch raw out = some r → ∃ q, r = .ok q ∧ P q.2

/-- A branch that copies a string is safe, since the view that it copies is inside the memory. -/
theorem onString_safe {field : Nat} {set : σ → Bytes → σ} (hv : v.Inside m)
    (hset : ∀ out s, P out → P (set out s)) : (onString m v field set).Safe m v P := by
  intro raw f out r hraw hout hr
  unfold onString at hr
  split at hr
  next h =>
    obtain ⟨b, w, -, hvalue, hw, -⟩ := hraw.of_wire_two h.2
    rw [hvalue, asString_eq hv hw] at hr
    cases hr
    exact ⟨_, rfl, hset _ _ hout⟩
  · cases hr

/-- A branch that keeps a number reads nothing. -/
theorem onVarint_safe {field : Nat} {set : σ → Nat → σ} (hset : ∀ out n, P out → P (set out n)) :
    (onVarint field set).Safe m v P := by
  intro raw f out r _ hout hr
  unfold onVarint at hr
  split at hr
  · cases hr
    exact ⟨_, rfl, hset _ _ hout⟩
  · cases hr

/-- A branch that keeps a view keeps one that is inside. -/
theorem onView_safe {fields : Nat → Prop} [DecidablePred fields] {set : σ → Nat → Option View → σ}
    (hset : ∀ out field w, w.Within v → P out → P (set out field (some w))) :
    (onView fields set).Safe m v P := by
  intro raw f out r hraw hout hr
  unfold onView at hr
  split at hr
  next h =>
    obtain ⟨b, w, -, hvalue, hw, -⟩ := hraw.of_wire_two h.2
    rw [hvalue] at hr
    cases hr
    exact ⟨_, rfl, hset _ _ _ hw hout⟩
  · cases hr

/-- A branch that parses a nested message is as safe as the parser of that message. -/
theorem onMessage_safe {τ : Type} {R : τ → Prop} {field : Nat} {nested : View → Except Fault (Bool × τ)}
    {set : σ → τ → σ} (hnested : ∀ w, w.Within v → ∃ r, nested w = .ok r ∧ R r.2)
    (hset : ∀ out t, P out → R t → P (set out t)) : (onMessage field nested set).Safe m v P := by
  intro raw f out r hraw hout hr
  unfold onMessage at hr
  split at hr
  next h =>
    obtain ⟨b, w, -, hvalue, hw, -⟩ := hraw.of_wire_two h.2
    obtain ⟨⟨ok, t⟩, hrun, ht⟩ := hnested w hw
    rw [hvalue] at hr
    dsimp only at hr
    rw [hrun] at hr
    cases hr
    cases ok with
    | false => exact ⟨_, rfl, hout⟩
    | true => exact ⟨_, rfl, hset _ _ hout ht⟩
  · cases hr

/-- The branches of a field are safe if each of them is. -/
theorem branches_ok {bs : List (Branch σ)} {raw : RawField} {f : Proto.Field} (h : ∀ b ∈ bs, b.Safe m v P)
    (hraw : raw.Represents m v f) (hout : P out) : ∃ r, branches bs raw out = .ok r ∧ P r.2 := by
  induction bs with
  | nil => exact ⟨_, rfl, hout⟩
  | cons branch rest ih =>
    rw [branches]
    cases hbranch : branch raw out with
    | none => exact ih fun b hb => h b (List.mem_cons_of_mem _ hb)
    | some r => exact h branch List.mem_cons_self hraw hout hbranch

/-- A parser with safe branches ends, without a fault. -/
theorem parse_ok {bs : List (Branch σ)} {accepts : σ → Bool} (hv : v.Inside m) (hout : P out)
    (h : ∀ b ∈ bs, b.Safe m v P) : ∃ r, parse m v out bs accepts = .ok r ∧ P r.2 := by
  obtain ⟨r, hscan, hr⟩ := scan_ok hv (branches_ok h) hout
  refine ⟨(r.1 && accepts r.2, r.2), ?_, hr⟩
  rw [parse, hscan]
  rfl

end

/-- The message lies inside the view. -/
def ParsedEnvelope.Within (out : ParsedEnvelope) (v : View) : Prop := ∀ w ∈ out.msgData, w.Within v

/-- The payload lies inside the view. -/
def ParsedOtaChunk.Within (out : ParsedOtaChunk) (v : View) : Prop := ∀ w ∈ out.payload, w.Within v

/-- The payload of each chunk lies inside the view. -/
def ParsedOtaChunkBatch.Within (out : ParsedOtaChunkBatch) (v : View) : Prop := ∀ c ∈ out.chunks, c.Within v

/-- The parsers. -/
inductive Parser
  | envelope
  | authResponse
  | commandRequest
  | configCommandRequest
  | stateReceipt
  | otaStartRequest
  | otaChunkMessage
  | otaChunkBatch
  | otaAbortRequest
  | ping

/-- Run a parser; the views that it leaves in its out-parameter, whatever it returns. -/
def Parser.views (doubleText : Octets 8 → Bytes) (m : Bytes) (v : View) : Parser → Except Fault (List View)
  | .envelope => (parseEnvelope m v).map fun r => r.2.msgData.toList
  | .authResponse => (parseAuthResponse m v).map fun _ => []
  | .commandRequest => (parseCommandRequest doubleText m v).map fun _ => []
  | .configCommandRequest => (parseConfigCommandRequest m v).map fun _ => []
  | .stateReceipt => (parseStateReceipt m v).map fun _ => []
  | .otaStartRequest => (parseOtaStartRequest m v).map fun _ => []
  | .otaChunkMessage => (parseOtaChunkMessage m v).map fun r => r.2.payload.toList
  | .otaChunkBatch => (parseOtaChunkBatch m v).map fun r => r.2.chunks.filterMap (·.payload)
  | .otaAbortRequest => (parseOtaAbortRequest m v).map fun _ => []
  | .ping => (pingMonotonicMs m v).map fun _ => []

section

variable (doubleText : Octets 8 → Bytes) {m : Bytes} {v : View}

/-- The text that `value_to_string` has for a field, which it tells by the wire type only. -/
def valueText : Proto.Value → Bytes
  | .varint n => decimal n
  | .fixed64 b => doubleText b
  | .bytes b => b

/-- The text of a value goes by its wire type alone. -/
theorem valueToString_eq {raw : RawField} {f : Proto.Field} (hv : v.Inside m) (hraw : raw.Represents m v f) :
    valueToString doubleText m v raw = .ok (valueText doubleText f.value) := by
  have hwire := hraw.wire
  unfold valueToString
  cases hf : f.value with
  | varint n =>
    rw [hf] at hwire
    have hzero : raw.wire = 0 := hwire
    rw [if_pos hzero, (hraw.varint n hf).1]
    rfl
  | fixed64 b =>
    obtain ⟨w, hvalue, hw, hlength, hb⟩ := hraw.fixed64 b hf
    rw [hf] at hwire
    have hone : raw.wire = 1 := hwire
    rw [if_neg (by omega), hvalue, asString_eq hv hw, if_pos ⟨hone, by simp [hlength]⟩, hb]
    show Except.ok (doubleText (Octets.fit 8 b.bytes)) = _
    rw [Octets.fit_bytes]
    rfl
  | bytes b =>
    obtain ⟨w, hvalue, hw, hb⟩ := hraw.bytes b hf
    rw [hf] at hwire
    have htwo : raw.wire = 2 := hwire
    rw [if_neg (by omega), if_neg (fun h => by omega), if_pos htwo, hvalue, asString_eq hv hw, hb]
    rfl

theorem onArgumentValue_eq {raw : RawField} {f : Proto.Field} {arg : ParsedCommandArgument} (hv : v.Inside m)
    (hraw : raw.Represents m v f) :
    onArgumentValue doubleText m v raw arg =
      if 10 ≤ f.number then some (.ok (true, { arg with value := valueText doubleText f.value })) else none := by
  rw [onArgumentValue, valueToString_eq doubleText hv hraw, hraw.field]
  rfl

theorem onArgumentValue_safe {P : ParsedCommandArgument → Prop} (hv : v.Inside m)
    (hset : ∀ arg s, P arg → P { arg with value := s }) : (onArgumentValue doubleText m v).Safe m v P := by
  intro raw f arg r hraw harg hr
  rw [onArgumentValue_eq doubleText hv hraw] at hr
  split at hr
  · cases hr
    exact ⟨_, rfl, hset _ _ harg⟩
  · cases hr

/-- A parser that keeps no pointer ends, without a fault. -/
theorem parse_total {σ : Type} {out : σ} {bs : List (Branch σ)} {accepts : σ → Bool} (hv : v.Inside m)
    (h : ∀ b ∈ bs, b.Safe m v fun _ => True) : ∃ r, parse m v out bs accepts = .ok r :=
  (parse_ok hv trivial h).imp fun _ hr => hr.1

theorem parseCommandArgument_ok (hv : v.Inside m) : ∃ r, parseCommandArgument doubleText m v = .ok r :=
  parse_total hv (by simp [argumentBranches, onString_safe hv, onArgumentValue_safe doubleText hv])

/-- A command ends on every input, with its nested arguments. -/
theorem parseCommandRequest_ok (hv : v.Inside m) : ∃ r, parseCommandRequest doubleText m v = .ok r := by
  refine parse_total hv ?_
  have hargument : (onMessage 4 (parseCommandArgument doubleText m) fun (out : ParsedCommandRequest) arg =>
      { out with args := out.args ++ [arg] }).Safe m v fun _ => True := by
    refine onMessage_safe (R := fun _ => True) (fun w hw => ?_) fun _ _ _ _ => trivial
    obtain ⟨r, hr⟩ := parseCommandArgument_ok doubleText (hw.inside hv)
    exact ⟨r, hr, trivial⟩
  simp [requestBranches, onString_safe hv, hargument]

/-- A payload that has been found lies in the chunk. -/
theorem parseOtaChunkMessage_ok (hv : v.Inside m) : ∃ r, parseOtaChunkMessage m v = .ok r ∧ r.2.Within v := by
  refine parse_ok (P := fun out => ParsedOtaChunk.Within out v) hv (fun _ hw => by cases hw) ?_
  have hpayload : (onView (· = 3) fun (out : ParsedOtaChunk) _ value => { out with payload := value }).Safe m v
      (ParsedOtaChunk.Within · v) :=
    onView_safe fun _ _ w hw _ w' hw' => Option.mem_some.1 hw' ▸ hw
  have hvarint : ∀ {field : Nat} {set : ParsedOtaChunk → Nat → ParsedOtaChunk},
      (∀ out n, (set out n).payload = out.payload) → (onVarint field set).Safe m v (ParsedOtaChunk.Within · v) :=
    fun hset => onVarint_safe fun out n hout w hw => hout w (hset out n ▸ hw)
  simp [chunkBranches, hvarint, hpayload]

/-- So does a batch of chunks, whose views are inside the one that is parsed. -/
theorem parseOtaChunkBatch_ok (hv : v.Inside m) : ∃ r, parseOtaChunkBatch m v = .ok r ∧ r.2.Within v := by
  refine parse_ok (P := fun out => ParsedOtaChunkBatch.Within out v) hv (fun _ hc => by cases hc) ?_
  have hchunk : ∀ w, View.Within w v → ∃ r, parseOtaChunkMessage m w = .ok r ∧ r.2.Within v := by
    intro w hw
    obtain ⟨r, hr, hpayload⟩ := parseOtaChunkMessage_ok (hw.inside hv)
    exact ⟨r, hr, fun w' hw' => (hpayload w' hw').trans hw⟩
  have hchunks : (onMessage 3 (parseOtaChunkMessage m) fun (out : ParsedOtaChunkBatch) chunk =>
      { out with chunks := out.chunks ++ [chunk] }).Safe m v (ParsedOtaChunkBatch.Within · v) :=
    onMessage_safe hchunk fun out chunk hout hpayload c hc =>
      (List.mem_append.1 hc).elim (hout c) fun hc => List.mem_singleton.1 hc ▸ hpayload
  have hstring : ∀ {field : Nat} {set : ParsedOtaChunkBatch → Bytes → ParsedOtaChunkBatch},
      (∀ out s, (set out s).chunks = out.chunks) →
        (onString m v field set).Safe m v (ParsedOtaChunkBatch.Within · v) :=
    fun hset => onString_safe hv fun out s hout c hc => hout c (hset out s ▸ hc)
  simp [batchBranches, hstring, hchunks]

/-- So does an envelope, with the view of its message. -/
theorem parseEnvelope_ok (hv : v.Inside m) : ∃ r, parseEnvelope m v = .ok r ∧ r.2.Within v := by
  refine parse_ok (P := fun out => ParsedEnvelope.Within out v) hv (fun _ hw => by cases hw) ?_
  have hmessage : (onView (10 ≤ ·) fun (out : ParsedEnvelope) field value =>
      { out with msgField := field, msgData := value }).Safe m v (ParsedEnvelope.Within · v) :=
    onView_safe fun _ _ w hw _ w' hw' => Option.mem_some.1 hw' ▸ hw
  have hstring : (onString m v 1 fun (out : ParsedEnvelope) s => { out with requestId := s }).Safe m v
      (ParsedEnvelope.Within · v) := onString_safe hv fun _ _ hout => hout
  have hvarint : ∀ {field : Nat} {set : ParsedEnvelope → Nat → ParsedEnvelope},
      (∀ out n, (set out n).msgData = out.msgData) → (onVarint field set).Safe m v (ParsedEnvelope.Within · v) :=
    fun hset => onVarint_safe fun out n hout w hw => hout w (hset out n ▸ hw)
  simp [envelopeBranches, hstring, hvarint, hmessage]

theorem parseOtaAbortRequest_ok (hv : v.Inside m) : ∃ r, parseOtaAbortRequest m v = .ok r := by
  have hfields : ∃ r, parseOtaAbortFields m v = .ok r := parse_total hv (by simp [onString_safe hv])
  obtain ⟨r, hr⟩ := hfields
  rw [parseOtaAbortRequest, hr]
  exact ⟨_, rfl⟩

theorem pingMonotonicMs_ok (hv : v.Inside m) : ∃ n, pingMonotonicMs m v = .ok n := by
  have hscan : ∃ r, scan m v pingBody 0 = .ok r ∧ (fun _ => True) r.2 :=
    scan_ok (P := fun _ => True) hv (fun _ _ => ⟨_, rfl, trivial⟩) trivial
  obtain ⟨r, hr, -⟩ := hscan
  rw [pingMonotonicMs, hr]
  exact ⟨_, rfl⟩

/-- No parser faults, whatever the bytes are, and what it returns lies inside them. -/
theorem Parser.views_within (p : Parser) (hv : v.Inside m) :
    ∃ ws, p.views doubleText m v = .ok ws ∧ ∀ w ∈ ws, w.Within v := by
  have hnone : ∀ {α : Type} {x : Except Fault α}, (∃ r, x = .ok r) →
      ∃ ws : List View, x.map (fun _ => []) = .ok ws ∧ ∀ w ∈ ws, w.Within v := by
    rintro α _ ⟨r, rfl⟩
    exact ⟨[], rfl, nofun⟩
  cases p with
  | envelope =>
    obtain ⟨r, hr, hmsg⟩ := parseEnvelope_ok hv
    rw [views, hr]
    exact ⟨_, rfl, fun w hw => hmsg w (Option.mem_toList.1 hw)⟩
  | authResponse => exact hnone (parse_total hv (by simp [onString_safe hv]))
  | commandRequest => exact hnone (parseCommandRequest_ok doubleText hv)
  | configCommandRequest => exact hnone (parse_total hv (by simp [onString_safe hv, onVarint_safe]))
  | stateReceipt => exact hnone (parse_total hv (by simp [onString_safe hv, onVarint_safe]))
  | otaStartRequest => exact hnone (parse_total hv (by simp [onString_safe hv, onVarint_safe]))
  | otaChunkMessage =>
    obtain ⟨r, hr, hpayload⟩ := parseOtaChunkMessage_ok hv
    rw [views, hr]
    exact ⟨_, rfl, fun w hw => hpayload w (Option.mem_toList.1 hw)⟩
  | otaChunkBatch =>
    obtain ⟨r, hr, hchunks⟩ := parseOtaChunkBatch_ok hv
    rw [views, hr]
    refine ⟨_, rfl, fun w hw => ?_⟩
    obtain ⟨c, hc, hpayload⟩ := List.mem_filterMap.1 hw
    exact hchunks c hc w hpayload
  | otaAbortRequest => exact hnone (parseOtaAbortRequest_ok hv)
  | ping => exact hnone (pingMonotonicMs_ok hv)

end

/-! ## What a branch does with a field of the format -/

section

variable {m : Bytes} {v : View} {σ : Type} {out : σ} {raw : RawField} {field number : Nat}

/-- A string that a branch is for is copied. -/
theorem onString_bytes {set : σ → Bytes → σ} {b : Bytes} (hv : v.Inside m)
    (hraw : raw.Represents m v ⟨number, .bytes b⟩) :
    onString m v field set raw out = if number = field then some (.ok (true, set out b)) else none := by
  obtain ⟨w, hvalue, hw, hb⟩ := hraw.bytes b rfl
  have hwire : raw.wire = 2 := hraw.wire
  rw [onString, hraw.field, hwire, hvalue, asString_eq hv hw, hb]
  simp only [and_true]
  rfl

theorem onString_of_ne {set : σ → Bytes → σ} {f : Proto.Field} (hraw : raw.Represents m v f)
    (hne : f.value.wire ≠ 2) : onString m v field set raw out = none :=
  if_neg fun h => hne (hraw.wire ▸ h.2)

theorem onString_of_number_ne {set : σ → Bytes → σ} {f : Proto.Field} (hraw : raw.Represents m v f)
    (hne : f.number ≠ field) : onString m v field set raw out = none :=
  if_neg fun h => hne (hraw.field ▸ h.1)

theorem onVarint_varint {set : σ → Nat → σ} {n : Nat} (hraw : raw.Represents m v ⟨number, .varint n⟩) :
    onVarint field set raw out = if number = field then some (.ok (true, set out n)) else none := by
  have hwire : raw.wire = 0 := hraw.wire
  rw [onVarint, hraw.field, hwire, (hraw.varint n rfl).1]
  simp only [and_true]

theorem onVarint_of_ne {set : σ → Nat → σ} {f : Proto.Field} (hraw : raw.Represents m v f)
    (hne : f.value.wire ≠ 0) : onVarint field set raw out = none :=
  if_neg fun h => hne (hraw.wire ▸ h.2)

theorem onView_bytes {fields : Nat → Prop} [DecidablePred fields] {set : σ → Nat → Option View → σ} {b : Bytes}
    (hraw : raw.Represents m v ⟨number, .bytes b⟩) :
    onView fields set raw out = if fields number then some (.ok (true, set out number raw.value)) else none := by
  have hwire : raw.wire = 2 := hraw.wire
  rw [onView, hraw.field, hwire]
  simp only [and_true]

/-- A nested message that a branch is for is parsed. -/
theorem onMessage_bytes {τ : Type} {nested : View → Except Fault (Bool × τ)} {set : σ → τ → σ} {b : Bytes}
    {w : View} (hraw : raw.Represents m v ⟨number, .bytes b⟩) (hvalue : raw.value = some w) :
    onMessage field nested set raw out =
      if number = field then some ((nested w).map fun r => if r.1 then (true, set out r.2) else (false, out))
      else none := by
  have hwire : raw.wire = 2 := hraw.wire
  rw [onMessage, hraw.field, hwire, hvalue]
  simp only [and_true]

theorem onMessage_of_ne {τ : Type} {nested : View → Except Fault (Bool × τ)} {set : σ → τ → σ}
    {f : Proto.Field} (hraw : raw.Represents m v f) (hne : f.value.wire ≠ 2) :
    onMessage field nested set raw out = none :=
  if_neg fun h => hne (hraw.wire ▸ h.2)

theorem onView_of_ne {fields : Nat → Prop} [DecidablePred fields] {set : σ → Nat → Option View → σ}
    {f : Proto.Field} (hraw : raw.Represents m v f) (hne : f.value.wire ≠ 2) :
    onView fields set raw out = none :=
  if_neg fun h => hne (hraw.wire ▸ h.2)

end

/-! ## Envelopes -/

/-- The fields of an envelope: an empty id is left out. -/
def envelopeFields (requestId : Bytes) (msg : Proto.Field) : List Proto.Field :=
  (if requestId = [] then [] else [⟨1, .bytes requestId⟩]) ++ [⟨2, .varint Host.apiVersion⟩, msg]

theorem mem_envelopeFields {requestId : Bytes} {msg f : Proto.Field} (hf : f ∈ envelopeFields requestId msg) :
    f = ⟨1, .bytes requestId⟩ ∨ f = ⟨2, .varint Host.apiVersion⟩ ∨ f = msg := by
  rcases List.mem_append.1 hf with hid | hrest
  · split at hid
    · cases hid
    · exact .inl (List.mem_singleton.1 hid)
  · exact .inr (List.mem_pair.1 hrest)

theorem msg_mem_envelopeFields (requestId : Bytes) (msg : Proto.Field) : msg ∈ envelopeFields requestId msg :=
  List.mem_append_right _ (List.mem_cons_of_mem _ List.mem_cons_self)

/-- The id of the request is read back. -/
theorem lastBytes_envelopeFields (requestId : Bytes) {msg : Proto.Field} (hmsg : msg.number ≠ 1) :
    Proto.lastBytes 1 (envelopeFields requestId msg) = requestId := by
  obtain ⟨number, value⟩ := msg
  have hnumber : number ≠ 1 := hmsg
  unfold envelopeFields
  cases requestId <;> cases value <;> simp [Proto.lastBytes, hnumber]

/-- The calls of the writer give the encoding of the three fields. -/
theorem envelope_eq {requestId : Bytes} {msgField : Nat} {builder : List Item} (hid : requestId.length < 2 ^ 64)
    (hlt : msgField < 2 ^ 32) (hlength : (writeAll builder).length < 2 ^ 64) :
    envelope requestId msgField builder =
      Proto.encodeFields (envelopeFields requestId ⟨msgField, .bytes (writeAll builder)⟩) := by
  have hversion := Item.write_eq (.varint (by decide : 2 < 2 ^ 32) (by decide : Host.apiVersion < 2 ^ 64))
  have hmsg : (Item.message msgField builder).write = _ := Writer.bytes_eq hlt hlength
  rw [envelope, writeAll, writeAll, writeAll, writeAll, Item.write_eq (.string (by decide) hid), hversion, hmsg]
  cases requestId with
  | nil => rfl
  | cons b requestId =>
    show (_ ++ []) ++ _ = _
    rw [List.append_nil]
    rfl

section

variable {m : Bytes} {v : View} {msg : Proto.Field} {done : List Proto.Field} {out : ParsedEnvelope}

/-- What `parse_envelope` has found after some of the fields of an envelope. -/
structure ParsedEnvelope.After (m : Bytes) (v : View) (msg : Proto.Field) (done : List Proto.Field)
    (out : ParsedEnvelope) : Prop where
  requestId : out.requestId = Proto.lastBytes 1 done
  apiVersion : ⟨2, .varint Host.apiVersion⟩ ∈ done → out.apiVersion = Host.apiVersion
  msg : msg ∈ done → out.msgField = msg.number ∧
    ∃ w, out.msgData = some w ∧ w.Within v ∧ msg.value = .bytes (w.bytes m)

namespace ParsedEnvelope.After

theorem id {b : Bytes} (h : After m v msg done out) (hmsg : 10 ≤ msg.number) :
    After m v msg (done ++ [⟨1, .bytes b⟩]) { out with requestId := b } where
  requestId := by rw [Proto.lastBytes_append]; rfl
  apiVersion hmem := h.apiVersion ((List.mem_append.1 hmem).resolve_right (by simp))
  msg hmem := h.msg ((List.mem_append.1 hmem).resolve_right fun hid => by
    obtain rfl := List.mem_singleton.1 hid
    exact absurd hmsg (by decide : ¬10 ≤ 1))

theorem version (h : After m v msg done out) (hmsg : 10 ≤ msg.number) :
    After m v msg (done ++ [⟨2, .varint Host.apiVersion⟩]) { out with apiVersion := Host.apiVersion } where
  requestId := by rw [Proto.lastBytes_append]; exact h.requestId
  apiVersion _ := rfl
  msg hmem := h.msg ((List.mem_append.1 hmem).resolve_right fun hversion => by
    obtain rfl := List.mem_singleton.1 hversion
    exact absurd hmsg (by decide))

theorem message {n : Nat} {w : View} (h : After m v ⟨n, .bytes (w.bytes m)⟩ done out) (hmsg : 10 ≤ n)
    (hw : w.Within v) :
    After m v ⟨n, .bytes (w.bytes m)⟩ (done ++ [⟨n, .bytes (w.bytes m)⟩])
      { out with msgField := n, msgData := some w } where
  requestId := by
    rw [Proto.lastBytes_append]
    dsimp only
    rw [if_neg (by omega)]
    exact h.requestId
  apiVersion hmem := h.apiVersion ((List.mem_append.1 hmem).resolve_right (by simp))
  msg _ := ⟨rfl, w, rfl, hw, rfl⟩

/-- One more field of an envelope. -/
theorem step {requestId b : Bytes} {n : Nat} {f : Proto.Field} {raw : RawField} (hv : v.Inside m) (hmsg : 10 ≤ n)
    (hraw : raw.Represents m v f) (hf : f ∈ envelopeFields requestId ⟨n, .bytes b⟩)
    (h : After m v ⟨n, .bytes b⟩ done out) :
    ∃ out', branches (envelopeBranches m v) raw out = .ok (true, out') ∧
      After m v ⟨n, .bytes b⟩ (done ++ [f]) out' := by
  unfold envelopeBranches
  rcases mem_envelopeFields hf with rfl | rfl | rfl
  · refine ⟨_, ?_, h.id hmsg⟩
    rw [branches, onString_bytes hv hraw, if_pos rfl]
    rfl
  · refine ⟨_, ?_, h.version hmsg⟩
    rw [branches, branches, onString_of_ne hraw (by decide), onVarint_varint hraw, if_pos rfl]
    rfl
  · obtain ⟨w, hvalue, hw, rfl⟩ := hraw.bytes b rfl
    refine ⟨_, ?_, h.message hmsg hw⟩
    have hwire : (Proto.Value.bytes (w.bytes m)).wire ≠ 0 := (by decide : 2 ≠ 0)
    rw [branches, branches, branches, onString_bytes hv hraw, if_neg (by omega), onVarint_of_ne hraw hwire,
      onView_bytes hraw, if_pos hmsg, hvalue]
    rfl

end ParsedEnvelope.After

/-- An envelope is read as it was written. -/
theorem parseEnvelope_envelope {requestId : Bytes} {msgField : Nat} {builder : List Item}
    (hid : requestId.length < 2 ^ 64) (hfield : 10 ≤ msgField) (hlt : msgField < 2 ^ 32)
    (hlength : (writeAll builder).length < 2 ^ 64) (hv : v.Inside m)
    (hbytes : v.bytes m = envelope requestId msgField builder) :
    ∃ w, parseEnvelope m v = .ok (true, ⟨requestId, Host.apiVersion, msgField, some w⟩) ∧ w.Within v ∧
      w.bytes m = writeAll builder := by
  rw [envelope_eq hid hlt hlength] at hbytes
  have hfits : ∀ f ∈ envelopeFields requestId ⟨msgField, .bytes (writeAll builder)⟩, f.Fits := by
    intro f hf
    rcases mem_envelopeFields hf with rfl | rfl | rfl
    · exact ⟨(by decide : 1 < 2 ^ 32), hid⟩
    · exact ⟨by decide, (by decide : Host.apiVersion < 2 ^ 64)⟩
    · exact ⟨hlt, hlength⟩
  have hscan : ∃ out, scan m v (branches (envelopeBranches m v)) {} = .ok (true, out) ∧
      ParsedEnvelope.After m v ⟨msgField, .bytes (writeAll builder)⟩
        (envelopeFields requestId ⟨msgField, .bytes (writeAll builder)⟩) out := by
    refine scan_encode hv hbytes hfits (fun hpre hraw hdone => ?_) ⟨rfl, nofun, nofun⟩
    exact hdone.step hv hfield hraw (hpre.subset (List.mem_append_right _ List.mem_cons_self))
  obtain ⟨⟨requestId', apiVersion', msgField', msgData'⟩, hscan, hout⟩ := hscan
  obtain ⟨hfield', w, hdata, hw, hb⟩ := hout.msg (msg_mem_envelopeFields requestId _)
  have hid' := hout.requestId.trans (lastBytes_envelopeFields requestId (by dsimp only; omega))
  have hversion := hout.apiVersion (List.mem_append_right _ List.mem_cons_self)
  dsimp only at hfield' hdata hid' hversion
  subst hfield' hdata hid' hversion
  refine ⟨w, ?_, hw, (Proto.Value.bytes.inj hb).symm⟩
  have haccepts : (msgField' != 0) = true := bne_iff_ne.2 (by omega)
  rw [parseEnvelope, parse, hscan]
  show Except.ok (true && (msgField' != 0), _) = _
  rw [haccepts]
  rfl

end

/-- What was written is read back, an envelope is taken apart into what it was made of, and whatever the bytes
are, no parser reads one outside them, runs on without an end or returns a view that reaches outside. -/
theorem codec_correct (doubleText : Octets 8 → Bytes) (m : Bytes) (v : View) (hv : v.Inside m) :
    (∀ items : List Item, (∀ item ∈ items, item.Valid) → v.bytes m = writeAll items →
      ∃ raws, readAll m v = .ok (true, raws) ∧
        List.Forall₂ (RawField.Represents m v) raws (items.filterMap Item.toField?)) ∧
    (∀ (requestId : Bytes) (msgField : Nat) (builder : List Item), requestId.length < 2 ^ 64 → 10 ≤ msgField →
      msgField < 2 ^ 32 → (writeAll builder).length < 2 ^ 64 → v.bytes m = envelope requestId msgField builder →
      ∃ w, parseEnvelope m v = .ok (true, ⟨requestId, Host.apiVersion, msgField, some w⟩) ∧ w.Within v ∧
        w.bytes m = writeAll builder) ∧
    ∀ p : Parser, ∃ ws, p.views doubleText m v = .ok ws ∧ ∀ w ∈ ws, w.Within v := by
  refine ⟨?_, ?_, ?_⟩
  · intro items hitems hbytes
    exact readAll_writeAll hitems hv hbytes
  · intro requestId msgField builder hid hfield hlt hlength hbytes
    exact parseEnvelope_envelope hid hfield hlt hlength hv hbytes
  · intro p
    exact p.views_within doubleText hv

/-- An error for the request `7`, in the memory that it was written to. -/
theorem codec_correct_error :
    ∃ w, parseEnvelope (envelope [55] 99 [.string 1 [98, 97, 100]])
        (whole (envelope [55] 99 [.string 1 [98, 97, 100]])) =
      .ok (true, ⟨[55], Host.apiVersion, 99, some w⟩) ∧
      w.bytes (envelope [55] 99 [.string 1 [98, 97, 100]]) = writeAll [.string 1 [98, 97, 100]] := by
  have hvalid : (Item.string 1 [98, 97, 100]).Valid := .string (by decide) (by decide)
  have hlength : (writeAll [.string 1 [98, 97, 100]]).length < 2 ^ 64 := by
    rw [writeAll_eq (List.forall_mem_singleton.2 hvalid)]
    decide
  obtain ⟨w, hparse, -, hw⟩ := (codec_correct (fun _ => []) (envelope [55] 99 [.string 1 [98, 97, 100]])
    (whole _) (whole_inside _)).2.1 [55] 99 _ (by decide) (by decide) (by decide) hlength (bytes_whole _)
  exact ⟨w, hparse, hw⟩

end Runtime

end EspTree
