import EspTree.AddOn.Rename
import EspTree.Radio.Peers

/-!
# What the bridges report

The messages of `esp_tree_runtime.proto` that a bridge sends unasked, as the add-on and the integration decode
them, and the two functions that these write an address with: `normalize_mac` (`AddOn.Rename.normalizeMac`) and
`norm_mac`.  On the text that a bridge prints both do nothing (`normalizeMac_macColonString`,
`normMac_macColonString`).

The fields that only name and describe a bridge are left out.

Where a field of a message may be missing, both ends read an empty text, so the fields here are
plain texts.  The optional fields of the schema that they look at, such as the entity that a state is
about, are an `Option`.

The conditions on addresses that the later modules have (`Addressing`) are met by what a bridge
prints, so that they are no assumption about the bridge but a summary of this module.
-/

namespace EspTree.Integration

open Wire
open AddOn.Rename (Text isHexDigit normalizeMac)

/-! ## Addresses -/

def macColonString (mac : Mac) : Text := (Radio.printHex [58] mac.bytes).map UInt8.toChar

/-- The digits that `norm_mac` keeps. -/
def isUpperHexDigit (c : Char) : Bool := ('0' ≤ c && c ≤ '9') || ('A' ≤ c && c ≤ 'F')

/-- `norm_mac`; `upper` is `value.upper()`. -/
def normMac (upper : Text → Text) (value : Text) : Text :=
  let clean := (upper value).filter isUpperHexDigit
  if clean.length = 12 then
    List.intercalate [':'] ((List.range 6).map fun i => (clean.drop (2 * i)).take 2)
  else upper value

/-- What `str.upper` does with the characters of an address: with ASCII it goes by characters. -/
def UpperAscii (upper : Text → Text) : Prop :=
  ∀ value : Text, (∀ c ∈ value, c.toNat < 128) → upper value = value.map Char.toUpper

section

variable {b : UInt8}

/-- The two digits of a byte, as characters. -/
def hexChars (b : UInt8) : Text := (digitPair 55 b).map UInt8.toChar

/-- A digit that was printed is an upper-case one. -/
structure Printed (c : Char) : Prop where
  digit : isHexDigit c = true
  upperDigit : isUpperHexDigit c = true
  upper : c.toUpper = c
  ascii : c.toNat < 128

theorem printed_digit {n : UInt8} (hn : n < 16) : Printed (digit 55 n).toChar := by
  have hall : ∀ k : Fin 16, let c := (digit 55 (UInt8.ofNat k)).toChar
      isHexDigit c = true ∧ isUpperHexDigit c = true ∧ c.toUpper = c ∧ c.toNat < 128 := by decide
  have hlt : n.toNat < 16 := UInt8.lt_iff_toNat_lt.mp hn
  have hn' := hall ⟨n.toNat, hlt⟩
  rw [UInt8.ofNat_toNat] at hn'
  obtain ⟨hdigit, hupperDigit, hupper, hascii⟩ := hn'
  exact ⟨hdigit, hupperDigit, hupper, hascii⟩

/-- A byte is printed as two digits. -/
theorem hexChars_eq (b : UInt8) :
    ∃ high low : Char, hexChars b = [high, low] ∧ Printed high ∧ Printed low :=
  ⟨_, _, rfl, printed_digit (div_sixteen_lt b), printed_digit (mod_sixteen_lt b)⟩

end

/-- The text of an address: six pairs of upper-case digits. -/
theorem macColonString_eq (mac : Mac) :
    ∃ c₁ d₁ c₂ d₂ c₃ d₃ c₄ d₄ c₅ d₅ c₆ d₆ : Char,
      macColonString mac = [c₁, d₁, ':', c₂, d₂, ':', c₃, d₃, ':', c₄, d₄, ':', c₅, d₅, ':', c₆, d₆] ∧
        ∀ c ∈ [c₁, d₁, c₂, d₂, c₃, d₃, c₄, d₄, c₅, d₅, c₆, d₆], Printed c := by
  obtain ⟨b₁, b₂, b₃, b₄, b₅, b₆, hbytes⟩ : ∃ b₁ b₂ b₃ b₄ b₅ b₆, mac.bytes = [b₁, b₂, b₃, b₄, b₅, b₆] := by
    have hlength := mac.length_bytes
    rcases hb : mac.bytes with _ | ⟨b₁, _ | ⟨b₂, _ | ⟨b₃, _ | ⟨b₄, _ | ⟨b₅, _ | ⟨b₆, _ | ⟨b₇, rest⟩⟩⟩⟩⟩⟩⟩
    all_goals rw [hb] at hlength
    all_goals simp only [List.length_cons, List.length_nil] at hlength
    all_goals first | omega | exact ⟨_, _, _, _, _, _, rfl⟩
  obtain ⟨c₁, d₁, h₁, hc₁, hd₁⟩ := hexChars_eq b₁
  obtain ⟨c₂, d₂, h₂, hc₂, hd₂⟩ := hexChars_eq b₂
  obtain ⟨c₃, d₃, h₃, hc₃, hd₃⟩ := hexChars_eq b₃
  obtain ⟨c₄, d₄, h₄, hc₄, hd₄⟩ := hexChars_eq b₄
  obtain ⟨c₅, d₅, h₅, hc₅, hd₅⟩ := hexChars_eq b₅
  obtain ⟨c₆, d₆, h₆, hc₆, hd₆⟩ := hexChars_eq b₆
  refine ⟨c₁, d₁, c₂, d₂, c₃, d₃, c₄, d₄, c₅, d₅, c₆, d₆, ?_, ?_⟩
  · have hprint : macColonString mac = hexChars b₁ ++ ':' :: (hexChars b₂ ++ ':' :: (hexChars b₃ ++ ':' ::
        (hexChars b₄ ++ ':' :: (hexChars b₅ ++ ':' :: hexChars b₆)))) := by
      rw [macColonString, hbytes]
      rfl
    rw [hprint, h₁, h₂, h₃, h₄, h₅, h₆]
    rfl
  · simp only [List.mem_cons, List.not_mem_nil, or_false]
    rintro c (rfl | rfl | rfl | rfl | rfl | rfl | rfl | rfl | rfl | rfl | rfl | rfl)
    all_goals assumption

/-- The add-on does nothing to an address as a bridge prints it. -/
theorem normalizeMac_macColonString (stripUpper : Text → Text) (mac : Mac) :
    normalizeMac stripUpper (macColonString mac) = macColonString mac := by
  obtain ⟨c₁, d₁, c₂, d₂, c₃, d₃, c₄, d₄, c₅, d₅, c₆, d₆, htext, hall⟩ := macColonString_eq mac
  have hdigit {c : Char} (hc : c ∈ [c₁, d₁, c₂, d₂, c₃, d₃, c₄, d₄, c₅, d₅, c₆, d₆]) := (hall c hc).digit
  have hupper {c : Char} (hc : c ∈ [c₁, d₁, c₂, d₂, c₃, d₃, c₄, d₄, c₅, d₅, c₆, d₆]) := (hall c hc).upper
  have hcolon : isHexDigit ':' = false := rfl
  rw [htext]
  simp [normalizeMac, hdigit, hupper, hcolon, List.range, List.range.loop, List.intercalate]

/-- Neither does the integration. -/
theorem normMac_macColonString {upper : Text → Text} (h : UpperAscii upper) (mac : Mac) :
    normMac upper (macColonString mac) = macColonString mac := by
  obtain ⟨c₁, d₁, c₂, d₂, c₃, d₃, c₄, d₄, c₅, d₅, c₆, d₆, htext, hall⟩ := macColonString_eq mac
  have hdigit {c : Char} (hc : c ∈ [c₁, d₁, c₂, d₂, c₃, d₃, c₄, d₄, c₅, d₅, c₆, d₆]) := (hall c hc).upperDigit
  have hupper {c : Char} (hc : c ∈ [c₁, d₁, c₂, d₂, c₃, d₃, c₄, d₄, c₅, d₅, c₆, d₆]) := (hall c hc).upper
  have hascii {c : Char} (hc : c ∈ [c₁, d₁, c₂, d₂, c₃, d₃, c₄, d₄, c₅, d₅, c₆, d₆]) := (hall c hc).ascii
  have hcolon : isUpperHexDigit ':' = false := rfl
  have hsame : upper (macColonString mac) = macColonString mac := by
    rw [h]
    · rw [htext]
      simp [hupper]
    · rw [htext]
      simp [hascii]
  rw [normMac, hsame, htext]
  simp [hdigit, hcolon, List.range, List.range.loop, List.intercalate]

/-- The uptime that a bridge has now, when it was observed a while ago. -/
def uptimeAt (observed : Option (Nat × Nat)) (now : Nat) : Nat :=
  match observed with
  | none => 0
  | some (uptimeS, observedAt) => uptimeS + (now - observedAt) / 1000

/-! ## Messages -/

structure RemoteIdentity where
  remoteMac : Text
  esphomeName : Text := []
  friendlyName : Text := []
  manufacturer : Text := []
  model : Text := []
  projectName : Text := []
  projectVersion : Text := []
  firmwareBuildDate : Text := []
  firmwareMd5 : Text := []
  schemaHash : Text := []
  chipName : Text := []
  deriving DecidableEq

structure RemoteRuntime where
  online : Bool := false
  bridgeMac : Text := []
  parentMac : Text := []
  hopsToBridge : Nat := 0
  rssi : Int := 0
  lastSeenBridgeUptimeS : Int := 0
  sessionId : Text := []
  lastTxCounter : Nat := 0
  uptimeS : Nat := 0
  deriving DecidableEq

structure EntityDescriptor where
  objectId : Text
  platform : Text := []
  friendlyName : Text := []
  deviceClass : Text := []
  stateClass : Text := []
  unitOfMeasurement : Text := []
  writable : Bool := false
  nativeType : Text := []
  optionsJson : Text := []
  deriving DecidableEq

/-- The value of an `EntityState`; a `double` is its bits. -/
inductive Value
  | bool (value : Bool)
  | int (value : Int)
  | float (bits : UInt64)
  | string (value : Text)
  | bytes (value : Bytes)
  deriving DecidableEq

structure EntityState where
  objectId : Text
  available : Bool := false
  observedUnixMs : Nat := 0
  value : Option Value := none
  deriving DecidableEq

/-- `RemoteSnapshot`; `entities` are those of its descriptor set. -/
structure RemoteSnapshot where
  identity : RemoteIdentity
  runtime : RemoteRuntime := {}
  entities : List EntityDescriptor := []
  states : List EntityState := []
  deriving DecidableEq

/-- `FullSnapshot`, with what is read of `BridgeIdentity` and `BridgeRuntime`. -/
structure FullSnapshot where
  bridgeMac : Text
  bridgeOnline : Bool := true
  wifiRssi : Int := 0
  uptimeS : Nat := 0
  remotes : List RemoteSnapshot := []
  snapshotUnixMs : Nat := 0
  deriving DecidableEq

/-- The last entry for a remote. -/
def FullSnapshot.listed? (norm : Text → Text) (snapshot : FullSnapshot) (mac : Text) : Option RemoteSnapshot :=
  snapshot.remotes.reverse.find? fun remote => norm remote.identity.remoteMac = mac

/-- `RemoteAvailabilityEvent`. -/
structure Availability where
  remoteMac : Text
  online : Bool := false
  bridgeMac : Text := []
  sessionId : Text := []
  txCounter : Nat := 0
  observedUnixMs : Nat := 0
  rssi : Int := 0
  hopsToBridge : Nat := 0
  reason : Text := []
  uptimeS : Nat := 0
  deriving DecidableEq

/-- `RemoteStateEvent`. -/
structure StateEvent where
  remoteMac : Text
  bridgeMac : Text := []
  sessionId : Text := []
  txCounter : Nat := 0
  states : List EntityState := []
  observedUnixMs : Nat := 0
  stateTxCounter : Nat := 0
  entityIndex : Nat := 0
  deriving DecidableEq

/-- `TopologyChangedEvent`. -/
structure TopologyChanged where
  remoteMac : Text
  bridgeMac : Text := []
  parentMac : Text := []
  hopsToBridge : Nat := 0
  rssi : Int := 0
  uptimeS : Nat := 0
  deriving DecidableEq

/-- `BridgeHeartbeat`, with its pairs of `RemoteLastSeen`. -/
structure Heartbeat where
  bridgeMac : Text
  uptimeS : Nat := 0
  remoteLastSeen : List (Text × Nat) := []
  deriving DecidableEq

/-- `Event`, by its `kind`. -/
inductive Event
  | availability (ev : Availability)
  | state (ev : StateEvent)
  | schemaChanged (bridgeMac : Text) (snapshot : RemoteSnapshot)
  | metadataChanged (identity : RemoteIdentity) (runtime : RemoteRuntime)
  | topologyChanged (ev : TopologyChanged)
  | heartbeat (ev : Heartbeat)
  | unknown
  deriving DecidableEq

/-- What the add-on passes on to the integration: the envelopes with a `full_snapshot` or an `event_batch`. -/
inductive Frame
  | snapshot (snapshot : FullSnapshot)
  | events (batch : List Event)
  deriving DecidableEq

end EspTree.Integration
