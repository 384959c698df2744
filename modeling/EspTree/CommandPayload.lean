import EspTree.Options

/-!
# The values of commands

`decode_command_payload_` makes the value that a command sends to a leaf.  The leaf applies every byte of it, so
an attribute that the command does not name is to have the byte of `current_value`.  For a fan it has.  For a
light the value starts from zeros: what is not named is switched off with the rest, unless it was off.

The payload of a command is JSON or a plain text, by the route that it comes on.  `Json` has the few
kinds of values that the source looks at, and `Libraries` the functions of the platform that it
calls: how a text is parsed, and how colours are converted.

`KeepsUnnamed` is the property in question, for one command: every attribute that the command does
not name has in the new value the byte that it has in the old one, and so the call that the leaf
makes of it keeps the attribute.  `keepsUnnamed_iff` says for which commands it holds, for all
entities, routes, payloads and values.
-/

namespace EspTree

open Wire

/-! ## JSON -/

/-- A value of a document. -/
inductive Json
  | null
  | bool (b : Bool)
  | int (n : Int)
  | float (q : Rat)
  | string (s : Bytes)
  | array (items : List Json)
  | object (members : List (Bytes × Json))

structure JsonObject where
  members : List (Bytes × Json) := []

namespace Json

/-- `is<const char *>()`. -/
def string? : Json → Option Bytes
  | string s => some s
  | _ => none

/-- `is<int>()`. -/
def int? : Json → Option Int
  | int n => if -2 ^ 31 ≤ n ∧ n < 2 ^ 31 then some n else none
  | _ => none

/-- `is<bool>()`. -/
def bool? : Json → Option Bool
  | bool b => some b
  | _ => none

/-- `is<float>()`. -/
def float? : Json → Option Rat
  | int n => some n
  | float q => some q
  | _ => none

/-- `is<JsonObject>()`. -/
def object? : Json → Option JsonObject
  | object members => some ⟨members⟩
  | _ => none

end Json

namespace JsonObject

variable (root : JsonObject) (key : String)

/-- `root[key]`. -/
def get : Json := (root.members.lookup (ascii key)).getD .null

def string? : Option Bytes := (root.get key).string?

def int? : Option Int := (root.get key).int?

def bool? : Option Bool := (root.get key).bool?

def float? : Option Rat := (root.get key).float?

def object? : Option JsonObject := (root.get key).object?

end JsonObject

/-- A colour in the bytes of a light. -/
structure Hsv where
  hue : UInt8
  sat : UInt8
  val : UInt8
  deriving DecidableEq

/-- What `decode_command_payload_` leaves to other code. -/
structure Libraries where
  /-- `json::parse_json`: the root, or nothing for a text that it rejects. -/
  parseJson : Bytes → Option JsonObject
  /-- `strtof`, or nothing where `end` stays at the beginning. -/
  strtof : Bytes → Option (Octets 4)
  /-- The colour with the given `r`, `g` and `b`, computed in floating point. -/
  hsv : Int → Int → Int → Hsv

/-! ## Values -/

def fieldTypeSwitch : UInt8 := 0x02
def fieldTypeButton : UInt8 := 0x04
def fieldTypeNumber : UInt8 := 0x05
def fieldTypeCover : UInt8 := 0x08
def fieldTypeLight : UInt8 := 0x09
def fieldTypeFan : UInt8 := 0x0A
def fieldTypeLock : UInt8 := 0x0B
def fieldTypeAlarm : UInt8 := 0x0C
def fieldTypeSelect : UInt8 := 0x0D
def fieldTypeValve : UInt8 := 0x11

inductive CommandRouteKind
  | primary | fanSpeed | fanOscillation | fanDirection
  deriving DecidableEq

/-- `value[i] = …`, where there is something to be written. -/
def write (value : Bytes) (i : Nat) : Option UInt8 → Bytes
  | none => value
  | some b => value.set i b

/-- `static_cast<uint8_t>(b ? 1 : 0)`. -/
def flag (b : Bool) : UInt8 := if b then 1 else 0

/-- `std::max(0, std::min(255, n))` as a byte. -/
def clampByte (n : Int) : UInt8 := UInt8.ofInt (max 0 (min 255 n))

def isReverse (direction : Bytes) : Bool := direction == ascii "reverse" || direction == ascii "REVERSE"

/-! ### Fans -/

/-- The lambda for the JSON command of a fan. -/
def fanJson (speedCount : UInt32) (value : Bytes) (root : JsonObject) : Option Bytes :=
  let state := (root.string? "state").map fun s => flag (parseOn s)
  let speedLevel := (root.int? "speed_level").map UInt8.ofInt
  let oscillating := (root.bool? "oscillating").map flag
  let direction := (root.string? "direction").map fun s => flag (isReverse s)
  let percentage := if speedCount > 0 then
      (root.int? "percentage").map fun pct => ((UInt32.ofInt pct * speedCount + 50) / 100).toUInt8
    else none
  if state.isSome || speedLevel.isSome || oscillating.isSome || direction.isSome || percentage.isSome then
    some (write (write (write (write (write value 0 state) 1 speedLevel) 2 oscillating) 3 direction) 1
      percentage)
  else none

/-- The four bytes that a fan command starts from. -/
def fanBase (current : Bytes) : Bytes := if 4 ≤ current.length then current.take 4 else List.replicate 4 0

/-- `case FIELD_TYPE_FAN`. -/
def fanPayload (lib : Libraries) (entity : EntitySchema) (route : CommandRouteKind) (payload current : Bytes) :
    Option Bytes :=
  let speedCount := optionU32 (parseOptionsMap entity.entityOptions) (ascii "speed_count") 0
  if payload.head? = some 0x7B then (lib.parseJson payload).bind (fanJson speedCount (fanBase current))
  else
    match route with
    | .primary => some ((fanBase current).set 0 (flag (parseOn payload)))
    | .fanSpeed =>
      (strtol payload).map fun parsed =>
        let count : Int := speedCount.toInt32.toInt
        let pct := max 0 (min 100 parsed)
        let level := if speedCount > 0 then (pct * count + 50).tdiv 100 else 0
        let level := max 0 (min count level)
        if 4 ≤ current.length then (fanBase current).set 1 (UInt8.ofInt level)
        else [flag (decide (level > 0)), UInt8.ofInt level, 0, 0]
    | .fanOscillation =>
      let on := payload == ascii "oscillate_on" || payload == ascii "ON" || payload == ascii "on" ||
        payload == ascii "1"
      some ((fanBase current).set 2 (flag on))
    | .fanDirection => some ((fanBase current).set 3 (flag (isReverse payload)))

/-! ### Lights -/

/-- `{"r": …, "g": …, "b": …}`. -/
def colorOf (lib : Libraries) (color : JsonObject) : Hsv :=
  lib.hsv ((color.int? "r").getD 0) ((color.int? "g").getD 0) ((color.int? "b").getD 0)

/-- `std::max(0.0f, std::min(65535.0f, ct))` in 16 bits. -/
def colorTempOf (ct : Rat) : UInt16 := UInt16.ofNat (max 0 (min 65535 ct)).floor.toNat

/-- The index of an effect, which is 0 for `None`. -/
def effectIndex (effects : List Bytes) (effect : Bytes) : Option UInt8 :=
  if effect = ascii "None" then some 0 else (effects.idxOf? effect).map UInt8.ofNat

/-- The lambda for the JSON command of a light. -/
def lightJson (lib : Libraries) (effects : List Bytes) (root : JsonObject) : Option Bytes :=
  let state := (root.string? "state").map fun s => flag (parseOn s)
  let brightness := (root.int? "brightness").map clampByte
  let effect := root.string? "effect"
  let index := effect.bind (effectIndex effects)
  let color := (root.object? "color").map (colorOf lib)
  let colorTemp := (root.float? "color_temp").map colorTempOf
  let white := (root.int? "white").map clampByte
  let hasNonStateUpdate :=
    brightness.isSome || effect.isSome || color.isSome || colorTemp.isSome || white.isSome
  if state.isSome || brightness.isSome || index.isSome || color.isSome || colorTemp.isSome || white.isSome then
    some [state.getD (flag hasNonStateUpdate),
      match color with
      | some hsv => if brightness.getD 0 = 0 then hsv.val else brightness.getD 0
      | none => brightness.getD 0,
      (color.map Hsv.hue).getD 0, (color.map Hsv.sat).getD 0, index.getD 0, 0,
      (colorTemp.getD 0).toUInt8, (colorTemp.getD 0 >>> 8).toUInt8, white.getD 0]
  else none

/-- `case FIELD_TYPE_LIGHT`. -/
def lightPayload (lib : Libraries) (entity : EntitySchema) (payload : Bytes) : Option Bytes :=
  if payload.head? = some 0x7B then
    (lib.parseJson payload).bind
      (lightJson lib (optionList (parseOptionsMap entity.entityOptions) (ascii "effects")))
  else
    some [flag (parseOn payload), if parseOn payload then 255 else 0, 0, 0, 0, 0, 0, 0, 0]

/-! ### The other entities -/

/-- The command byte of an alarm. -/
def alarmByte (command : Bytes) : UInt8 :=
  if command = ascii "ARM_HOME" then 1
  else if command = ascii "ARM_AWAY" then 2
  else if command = ascii "ARM_NIGHT" then 3
  else if command = ascii "ARM_VACATION" then 4
  else if command = ascii "ARM_CUSTOM_BYPASS" then 5
  else if command = ascii "TRIGGERED" then 6
  else if command = ascii "PENDING" then 7
  else 0

/-- `case FIELD_TYPE_ALARM`. -/
def alarmPayload (lib : Libraries) (payload : Bytes) : Option Bytes :=
  if payload.head? = some 0x7B then
    (lib.parseJson payload).bind fun root =>
      (root.string? "state").map fun command => alarmByte command :: (root.string? "code").getD []
  else some [alarmByte payload]

/-- `case FIELD_TYPE_COVER` and `case FIELD_TYPE_VALVE`. -/
def coverPayload (payload : Bytes) : Bytes :=
  if payload = ascii "OPEN" then [1, 100]
  else if payload = ascii "CLOSE" then [2, 0]
  else if payload = ascii "STOP" then [3, 0]
  else [0, UInt8.ofInt (max 0 (min 100 (atoi payload)))]

/-- `case FIELD_TYPE_SELECT`. -/
def selectPayload (entity : EntitySchema) (payload : Bytes) : Bytes :=
  let listed := optionList (parseOptionsMap entity.entityOptions) (ascii "options")
  let options := if listed.isEmpty then splitString entity.entityOptions 0x7C else listed
  match if entity.entityOptions.isEmpty then none else options.idxOf? payload with
  | some i => [UInt8.ofNat i]
  | none => [UInt8.ofInt (atoi payload)]

def decodeCommandPayload (lib : Libraries) (entity : EntitySchema) (route : CommandRouteKind)
    (payload current : Bytes) : Option Bytes :=
  let type := entity.entityType
  if type = fieldTypeSwitch then some [flag (parseOn payload)]
  else if type = fieldTypeNumber then
    (lib.strtof payload).map fun parsed => parsed.bytes ++ List.replicate 246 0
  else if type = fieldTypeText then some payload
  else if type = fieldTypeCover ∨ type = fieldTypeValve then some (coverPayload payload)
  else if type = fieldTypeLock then
    some [flag (payload == ascii "LOCK" || payload == ascii "LOCKED")]
  else if type = fieldTypeSelect then some (selectPayload entity payload)
  else if type = fieldTypeAlarm then alarmPayload lib payload
  else if type = fieldTypeFan then fanPayload lib entity route payload current
  else if type = fieldTypeLight then lightPayload lib entity payload
  else if type = fieldTypeButton then some [1]
  else none

/-! ## What a command names -/

inductive FanAttribute
  | state | speed | oscillating | direction
  deriving DecidableEq

def FanAttribute.byte : FanAttribute → Nat
  | state => 0
  | speed => 1
  | oscillating => 2
  | direction => 3

/-- The attribute of a route. -/
def CommandRouteKind.attribute : CommandRouteKind → FanAttribute
  | primary => .state
  | fanSpeed => .speed
  | fanOscillation => .oscillating
  | fanDirection => .direction

/-- The attributes that a JSON command of a fan names. -/
def FanAttribute.isIn (root : JsonObject) : FanAttribute → Bool
  | state => (root.string? "state").isSome
  | speed => (root.int? "speed_level").isSome || (root.int? "percentage").isSome
  | oscillating => (root.bool? "oscillating").isSome
  | direction => (root.string? "direction").isSome

/-- The attributes that a command of a fan names. -/
def fanNames (lib : Libraries) (route : CommandRouteKind) (payload : Bytes) (a : FanAttribute) : Bool :=
  if payload.head? = some 0x7B then (lib.parseJson payload).any fun root => a.isIn root
  else a = route.attribute

inductive LightAttribute
  | state | brightness | color | effect | colorTemp | white
  deriving DecidableEq

def LightAttribute.bytes : LightAttribute → List Nat
  | state => [0]
  | brightness => [1]
  | color => [2, 3]
  | effect => [4]
  | colorTemp => [6, 7]
  | white => [8]

/-- The attributes that a JSON command of a light names. -/
def LightAttribute.isIn (root : JsonObject) : LightAttribute → Bool
  | state => (root.string? "state").isSome
  | brightness => (root.int? "brightness").isSome
  | color => (root.object? "color").isSome
  | effect => (root.string? "effect").isSome
  | colorTemp => (root.float? "color_temp").isSome
  | white => (root.int? "white").isSome

/-- The attributes that a command of a light names. -/
def lightNames (lib : Libraries) (payload : Bytes) (a : LightAttribute) : Bool :=
  if payload.head? = some 0x7B then (lib.parseJson payload).any fun root => a.isIn root
  else a = .state

/-- A fan keeps what is not named. -/
def KeepsFan (names : FanAttribute → Bool) (current value : Bytes) : Prop :=
  ∀ a, names a = false → value[a.byte]? = current[a.byte]?

/-- A light keeps what is not named, but may be switched on. -/
def KeepsLight (names : LightAttribute → Bool) (current value : Bytes) : Prop :=
  ∀ a, names a = false → (∀ i ∈ a.bytes, value[i]? = current[i]?) ∨ a = .state ∧ value[0]? = some 1

/-! ## On the leaf -/

/-- What the leaf sets of its fan. -/
structure FanCall where
  state : Option Bool
  speed : Option UInt8
  oscillating : Option Bool
  reverse : Option Bool
  deriving DecidableEq

/-- `process_command_target_`, for a fan. -/
def fanCall (value : Bytes) : FanCall where
  state := value[0]?.map (· != 0)
  speed := value[1]?
  oscillating := value[2]?.map (· != 0)
  reverse := value[3]?.map (· != 0)

/-- What the leaf sets of its light.  The colour is computed from hue, saturation and brightness. -/
structure LightCall where
  state : Bool
  brightness : Option UInt8
  rgb : Option Hsv
  effect : Option UInt8
  colorTemp : Option (UInt8 × UInt8)
  white : Option UInt8
  deriving DecidableEq

/-- `process_command_target_`, for a light. -/
def lightCall (value : Bytes) : LightCall where
  state := value.getD 0 0 != 0
  brightness := value[1]?
  rgb := value[3]?.map fun sat => ⟨value.getD 2 0, sat, value.getD 1 0⟩
  effect := value[4]?
  colorTemp := value[7]?.map fun high => (value.getD 6 0, high)
  white := value[8]?

/-- The fan is set to what it was, besides what is named. -/
structure FanCall.Keeps (names : FanAttribute → Bool) (before call : FanCall) : Prop where
  state : names .state = false → call.state = before.state
  speed : names .speed = false → call.speed = before.speed
  oscillating : names .oscillating = false → call.oscillating = before.oscillating
  reverse : names .direction = false → call.reverse = before.reverse

/-- The light is set to what it was, besides what is named, but may be switched on. -/
structure LightCall.Keeps (names : LightAttribute → Bool) (before call : LightCall) : Prop where
  state : names .state = false → call.state = before.state ∨ call.state = true
  brightness : names .brightness = false → call.brightness = before.brightness
  rgb : names .color = false → names .brightness = false → call.rgb = before.rgb
  effect : names .effect = false → call.effect = before.effect
  colorTemp : names .colorTemp = false → call.colorTemp = before.colorTemp
  white : names .white = false → call.white = before.white

section

variable {current value : Bytes}

/-- A value that keeps what is not named leaves it to the fan. -/
theorem KeepsFan.call {names : FanAttribute → Bool} (h : KeepsFan names current value) :
    (fanCall current).Keeps names (fanCall value) where
  state ha := congrArg (Option.map (· != 0)) (h .state ha)
  speed := h .speed
  oscillating ha := congrArg (Option.map (· != 0)) (h .oscillating ha)
  reverse ha := congrArg (Option.map (· != 0)) (h .direction ha)

/-- The bytes of an attribute that is not named. -/
theorem KeepsLight.bytes {names : LightAttribute → Bool} (h : KeepsLight names current value)
    {a : LightAttribute} (hne : a ≠ .state) (ha : names a = false) : ∀ i ∈ a.bytes, value[i]? = current[i]? :=
  (h a ha).resolve_right fun hstate => hne hstate.1

/-- A value that keeps what is not named leaves it to the light. -/
theorem KeepsLight.call {names : LightAttribute → Bool} (h : KeepsLight names current value) :
    (lightCall current).Keeps names (lightCall value) where
  state ha := by
    rcases h .state ha with hkept | ⟨-, hon⟩
    · have hbyte := hkept 0 (by decide)
      exact .inl (by simp only [lightCall, List.getD_eq_getElem?_getD, hbyte])
    · exact .inr (by simp only [lightCall, List.getD_eq_getElem?_getD, hon]; rfl)
  brightness ha := h.bytes (by decide) ha 1 (by decide)
  rgb hcolor hbrightness := by
    have hhue := h.bytes (by decide) hcolor 2 (by decide)
    have hsat := h.bytes (by decide) hcolor 3 (by decide)
    have hval := h.bytes (by decide) hbrightness 1 (by decide)
    simp only [lightCall, List.getD_eq_getElem?_getD, hhue, hsat, hval]
  effect ha := h.bytes (by decide) ha 4 (by decide)
  colorTemp ha := by
    have hlow := h.bytes (by decide) ha 6 (by decide)
    have hhigh := h.bytes (by decide) ha 7 (by decide)
    simp only [lightCall, List.getD_eq_getElem?_getD, hlow, hhigh]
  white ha := h.bytes (by decide) ha 8 (by decide)

end

/-- The value of a command, if there is one, keeps what the command does not name, and the leaf that applies it
changes nothing else. -/
structure KeepsUnnamed (lib : Libraries) (entity : EntitySchema) (route : CommandRouteKind)
    (payload current : Bytes) : Prop where
  fan : entity.entityType = fieldTypeFan →
    ∀ value, decodeCommandPayload lib entity route payload current = some value →
      KeepsFan (fanNames lib route payload) current value
  light : entity.entityType = fieldTypeLight →
    ∀ value, decodeCommandPayload lib entity route payload current = some value →
      KeepsLight (lightNames lib payload) current value
  onFan : entity.entityType = fieldTypeFan →
    ∀ value, decodeCommandPayload lib entity route payload current = some value →
      (fanCall current).Keeps (fanNames lib route payload) (fanCall value)
  onLight : entity.entityType = fieldTypeLight →
    ∀ value, decodeCommandPayload lib entity route payload current = some value →
      (lightCall current).Keeps (lightNames lib payload) (lightCall value)

/-! ## Fans -/

section

variable {lib : Libraries} {entity : EntitySchema} {route : CommandRouteKind} {payload current value : Bytes}

/-- Writing an attribute leaves the other bytes alone. -/
theorem getElem?_write {value : Bytes} {i j : Nat} {x : Option UInt8} (h : x = none ∨ i ≠ j) :
    (write value i x)[j]? = value[j]? := by
  cases x with
  | none => rfl
  | some b => exact List.getElem?_set_ne (h.resolve_left (Option.some_ne_none b))

/-- The value for a fan starts from the bytes that it has. -/
theorem getElem?_fanBase {j : Nat} (hfull : 4 ≤ current.length) (hj : j < 4) :
    (fanBase current)[j]? = current[j]? := by
  rw [fanBase, if_pos hfull]
  exact List.getElem?_take_of_lt hj

theorem FanAttribute.byte_lt (a : FanAttribute) : a.byte < 4 := by cases a <;> decide

/-- The JSON command writes over what it starts from. -/
theorem getElem?_fanJson {speedCount : UInt32} {root : JsonObject} {start : Bytes}
    (hvalue : fanJson speedCount start root = some value) {a : FanAttribute} (ha : a.isIn root = false) :
    value[a.byte]? = start[a.byte]? := by
  simp only [fanJson, Option.ite_none_right_eq_some, Option.some.injEq] at hvalue
  obtain ⟨-, rfl⟩ := hvalue
  cases a with
  | state =>
    have hstate : root.string? "state" = none := by simpa [FanAttribute.isIn] using ha
    rw [getElem?_write (.inr (by decide)), getElem?_write (.inr (by decide)),
      getElem?_write (.inr (by decide)), getElem?_write (.inr (by decide)),
      getElem?_write (.inl (by rw [hstate]; rfl))]
  | speed =>
    obtain ⟨hlevel, hpercentage⟩ : root.int? "speed_level" = none ∧ root.int? "percentage" = none := by
      simpa [FanAttribute.isIn] using ha
    rw [getElem?_write (.inl (by rw [hpercentage]; split <;> rfl)), getElem?_write (.inr (by decide)),
      getElem?_write (.inr (by decide)), getElem?_write (.inl (by rw [hlevel]; rfl)),
      getElem?_write (.inr (by decide))]
  | oscillating =>
    have hoscillating : root.bool? "oscillating" = none := by simpa [FanAttribute.isIn] using ha
    rw [getElem?_write (.inr (by decide)), getElem?_write (.inr (by decide)),
      getElem?_write (.inl (by rw [hoscillating]; rfl)), getElem?_write (.inr (by decide)),
      getElem?_write (.inr (by decide))]
  | direction =>
    have hdirection : root.string? "direction" = none := by simpa [FanAttribute.isIn] using ha
    rw [getElem?_write (.inr (by decide)), getElem?_write (.inl (by rw [hdirection]; rfl)),
      getElem?_write (.inr (by decide)), getElem?_write (.inr (by decide)),
      getElem?_write (.inr (by decide))]

/-- A route writes its own byte only. -/
theorem exists_fanPayload_eq_set (hfull : 4 ≤ current.length) (hplain : payload.head? ≠ some 0x7B)
    (hvalue : fanPayload lib entity route payload current = some value) :
    ∃ b, value = (fanBase current).set route.attribute.byte b := by
  simp only [fanPayload, if_neg hplain] at hvalue
  cases route with
  | primary =>
    cases hvalue
    exact ⟨_, rfl⟩
  | fanSpeed =>
    obtain ⟨parsed, -, rfl⟩ := Option.map_eq_some_iff.mp hvalue
    exact ⟨_, if_pos hfull⟩
  | fanOscillation =>
    cases hvalue
    exact ⟨_, rfl⟩
  | fanDirection =>
    cases hvalue
    exact ⟨_, rfl⟩

/-- Commands of a fan keep what they do not name. -/
theorem keepsFan (hfull : 4 ≤ current.length)
    (hvalue : fanPayload lib entity route payload current = some value) :
    KeepsFan (fanNames lib route payload) current value := by
  intro a ha
  rw [← getElem?_fanBase hfull a.byte_lt]
  by_cases hjson : payload.head? = some 0x7B
  · simp only [fanPayload, if_pos hjson] at hvalue
    obtain ⟨root, hroot, hvalue⟩ := Option.bind_eq_some_iff.mp hvalue
    refine getElem?_fanJson hvalue ?_
    simpa [fanNames, hjson, hroot] using ha
  · obtain ⟨b, rfl⟩ := exists_fanPayload_eq_set hfull hjson hvalue
    have hne : route.attribute.byte ≠ a.byte := by
      have hattribute : a ≠ route.attribute := by simpa [fanNames, hjson] using ha
      revert hattribute
      generalize route.attribute = a'
      cases a <;> cases a' <;> decide
    exact List.getElem?_set_ne hne

end

/-! ## Lights -/

/-- The JSON command of a light says something that the light can do. -/
def lightAccepts (effects : List Bytes) (root : JsonObject) : Bool :=
  (root.string? "state").isSome || (root.int? "brightness").isSome ||
    ((root.string? "effect").bind (effectIndex effects)).isSome || (root.object? "color").isSome ||
    (root.float? "color_temp").isSome || (root.int? "white").isSome

/-- The light is off in what is not named, besides its state and with the given brightness. -/
structure OffBesides (names : LightAttribute → Bool) (brightness : UInt8) (current : Bytes) : Prop where
  brightness : names .brightness = false → current[1]? = some brightness
  others : ∀ a, a ≠ .state → a ≠ .brightness → names a = false → ∀ i ∈ a.bytes, current[i]? = some 0

/-- The brightness that a colour brings. -/
def colorBrightness (lib : Libraries) (root : JsonObject) : UInt8 :=
  ((root.object? "color").map fun color => (colorOf lib color).val).getD 0

/-- The current value of a light is one that the command would have started from. -/
def StartsFrom (lib : Libraries) (entity : EntitySchema) (payload current : Bytes) : Prop :=
  if payload.head? = some 0x7B then
    ∀ root, lib.parseJson payload = some root →
      lightAccepts (optionList (parseOptionsMap entity.entityOptions) (ascii "effects")) root = true →
        OffBesides (fun a => a.isIn root) (colorBrightness lib root) current
  else OffBesides (fun a => a = .state) (if parseOn payload then 255 else 0) current

section

variable {lib : Libraries} {entity : EntitySchema} {route : CommandRouteKind} {payload current value : Bytes}
  {effects : List Bytes} {root : JsonObject} {names : LightAttribute → Bool} {brightness : UInt8}

/-- A value that is off in what is not named keeps that of a current value exactly where it is off too. -/
theorem keepsLight_iff (hvalue : OffBesides names brightness value)
    (hstate : names .state = false → value[0]? = some 1) :
    KeepsLight names current value ↔ OffBesides names brightness current := by
  constructor
  · intro h
    refine { brightness := fun ha => ?_, others := fun a hstate hbrightness ha i hi => ?_ }
    · rw [← h.bytes (by decide) ha 1 (by decide)]
      exact hvalue.brightness ha
    · rw [← h.bytes hstate ha i hi]
      exact hvalue.others a hstate hbrightness ha i hi
  · intro h a ha
    by_cases hstate' : a = .state
    · exact .inr ⟨hstate', hstate (hstate' ▸ ha)⟩
    · left
      intro i hi
      by_cases hbrightness : a = .brightness
      · subst hbrightness
        obtain rfl : i = 1 := by simpa [LightAttribute.bytes] using hi
        rw [hvalue.brightness ha, h.brightness ha]
      · rw [hvalue.others a hstate' hbrightness ha i hi, h.others a hstate' hbrightness ha i hi]

/-- A JSON command for a light is decoded exactly if none of its attributes is refused. -/
theorem isSome_lightJson : (lightJson lib effects root).isSome = lightAccepts effects root := by
  simp only [lightJson, lightAccepts, Option.isSome_map]
  split <;> simp_all

/-- The value of a JSON command is off in what is not named. -/
theorem offBesides_lightJson (hvalue : lightJson lib effects root = some value) :
    OffBesides (fun a => a.isIn root) (colorBrightness lib root) value := by
  simp only [lightJson, Option.ite_none_right_eq_some, Option.some.injEq] at hvalue
  obtain ⟨-, rfl⟩ := hvalue
  constructor
  · intro hbrightness
    have hnone : root.int? "brightness" = none := by simpa [LightAttribute.isIn] using hbrightness
    rw [hnone, colorBrightness]
    cases root.object? "color" <;> rfl
  · intro a hstate hbrightness ha i hi
    cases a with
    | state => exact absurd rfl hstate
    | brightness => exact absurd rfl hbrightness
    | color =>
      have hnone : root.object? "color" = none := by simpa [LightAttribute.isIn] using ha
      rw [hnone]
      rcases List.mem_pair.mp hi with rfl | rfl <;> rfl
    | effect =>
      have hnone : root.string? "effect" = none := by simpa [LightAttribute.isIn] using ha
      obtain rfl := List.mem_singleton.mp hi
      rw [hnone]
      rfl
    | colorTemp =>
      have hnone : root.float? "color_temp" = none := by simpa [LightAttribute.isIn] using ha
      rw [hnone]
      rcases List.mem_pair.mp hi with rfl | rfl <;> rfl
    | white =>
      have hnone : root.int? "white" = none := by simpa [LightAttribute.isIn] using ha
      obtain rfl := List.mem_singleton.mp hi
      rw [hnone]
      rfl

/-- Without a state, a JSON command switches the light on. -/
theorem head_lightJson (hvalue : lightJson lib effects root = some value)
    (hstate : LightAttribute.state.isIn root = false) : value[0]? = some 1 := by
  have hnone : root.string? "state" = none := by simpa [LightAttribute.isIn] using hstate
  simp only [lightJson, Option.ite_none_right_eq_some, Option.some.injEq, hnone, Option.map_none,
    Option.isSome_none, Bool.false_or] at hvalue
  obtain ⟨haccepts, rfl⟩ := hvalue
  have hupdate : (((root.int? "brightness").map clampByte).isSome || (root.string? "effect").isSome ||
      ((root.object? "color").map (colorOf lib)).isSome || ((root.float? "color_temp").map colorTempOf).isSome ||
      ((root.int? "white").map clampByte).isSome) = true := by
    cases heffect : root.string? "effect" with
    | none => simpa [heffect] using haccepts
    | some effect => simp
  rw [hupdate]
  rfl

/-- The value of a plain command is off besides the state and its brightness. -/
theorem offBesides_plain (on : Bool) : OffBesides (fun a => a = .state) (if on then 255 else 0)
    [flag on, if on then 255 else 0, 0, 0, 0, 0, 0, 0, 0] := by
  refine { brightness := fun _ => rfl, others := fun a hstate hbrightness _ i hi => ?_ }
  cases a with
  | state => exact absurd rfl hstate
  | brightness => exact absurd rfl hbrightness
  | color | colorTemp => rcases List.mem_pair.mp hi with rfl | rfl <;> rfl
  | effect | white =>
    obtain rfl := List.mem_singleton.mp hi
    rfl

/-- The commands of a light that keep what they do not name. -/
theorem keepsLight_lightPayload_iff :
    (∀ value, lightPayload lib entity payload = some value → KeepsLight (lightNames lib payload) current value) ↔
      StartsFrom lib entity payload current := by
  by_cases hjson : payload.head? = some 0x7B
  · rw [StartsFrom, if_pos hjson]
    simp only [lightPayload, if_pos hjson, Option.bind_eq_some_iff]
    have hnames : ∀ root, lib.parseJson payload = some root →
        lightNames lib payload = fun a => a.isIn root := by
      intro root hroot
      funext a
      simp [lightNames, hjson, hroot]
    constructor
    · intro h root hroot haccepts
      obtain ⟨value, hvalue⟩ : ∃ value, lightJson lib _ root = some value :=
        Option.isSome_iff_exists.mp (isSome_lightJson.trans haccepts)
      have hkeeps := h value ⟨root, hroot, hvalue⟩
      rw [hnames root hroot] at hkeeps
      exact (keepsLight_iff (offBesides_lightJson hvalue) (head_lightJson hvalue)).mp hkeeps
    · rintro h value ⟨root, hroot, hvalue⟩
      rw [hnames root hroot, keepsLight_iff (offBesides_lightJson hvalue) (head_lightJson hvalue)]
      refine h root hroot ?_
      exact isSome_lightJson.symm.trans (Option.isSome_iff_exists.mpr ⟨value, hvalue⟩)
  · have hnames : lightNames lib payload = fun a => decide (a = .state) := by
      funext a
      simp [lightNames, hjson]
    rw [StartsFrom, if_neg hjson, hnames]
    simp only [lightPayload, if_neg hjson, Option.some.injEq, forall_eq']
    exact keepsLight_iff (offBesides_plain _) (fun h => absurd h (by decide))

end

/-! ## Commands in general -/

section

variable {lib : Libraries} {entity : EntitySchema} {route : CommandRouteKind} {payload current : Bytes}

/-- Which decoder is used depends on the type of the entity. -/
theorem decodeCommandPayload_fan (h : entity.entityType = fieldTypeFan) :
    decodeCommandPayload lib entity route payload current = fanPayload lib entity route payload current := by
  rw [decodeCommandPayload, h]
  rfl

theorem decodeCommandPayload_light (h : entity.entityType = fieldTypeLight) :
    decodeCommandPayload lib entity route payload current = lightPayload lib entity payload := by
  rw [decodeCommandPayload, h]
  rfl

/-- The partial commands that keep the rest of the state: those for a fan always, which are decoded
over the current value; those for a light if and only if the current value is what the decoder
starts from, which has all attributes at zero. -/
theorem keepsUnnamed_iff (hfull : entity.entityType = fieldTypeFan → 4 ≤ current.length) :
    KeepsUnnamed lib entity route payload current ↔
      (entity.entityType = fieldTypeLight → StartsFrom lib entity payload current) := by
  constructor
  · intro h hlight
    refine keepsLight_lightPayload_iff.mp fun value hvalue => h.light hlight value ?_
    rw [decodeCommandPayload_light hlight, hvalue]
  · intro h
    have hfan (htype : entity.entityType = fieldTypeFan) (value : Bytes)
        (hvalue : decodeCommandPayload lib entity route payload current = some value) :
        KeepsFan (fanNames lib route payload) current value := by
      rw [decodeCommandPayload_fan htype] at hvalue
      exact keepsFan (hfull htype) hvalue
    have hlight (htype : entity.entityType = fieldTypeLight) (value : Bytes)
        (hvalue : decodeCommandPayload lib entity route payload current = some value) :
        KeepsLight (lightNames lib payload) current value := by
      rw [decodeCommandPayload_light htype] at hvalue
      exact keepsLight_lightPayload_iff.mpr (h htype) value hvalue
    exact {
      fan := hfan
      light := hlight
      onFan := fun htype value hvalue => (hfan htype value hvalue).call
      onLight := fun htype value hvalue => (hlight htype value hvalue).call }

end

/-- Libraries that know one document and no numerals. -/
def Libraries.sample : Libraries where
  parseJson payload :=
    if payload = ascii "\x7b\"brightness\":200\x7d" then some ⟨[(ascii "brightness", .int 200)]⟩ else none
  strtof _ := none
  hsv r _ _ := ⟨0, 0, clampByte r⟩

/-- A fan with three speeds, told to turn faster. -/
theorem keepsUnnamed_fan : KeepsUnnamed .sample
    { entityType := fieldTypeFan, entityOptions := ascii "speed_count=3" } .fanSpeed (ascii "100") [1, 1, 1, 0] :=
  (keepsUnnamed_iff (by decide)).mpr fun hlight => absurd hlight (by decide)

/-- A red light loses its colour when it is told to be brighter, or only to be on. -/
theorem not_keepsUnnamed_light :
    ¬ KeepsUnnamed .sample { entityType := fieldTypeLight } .primary (ascii "\x7b\"brightness\":200\x7d")
        [1, 128, 0, 255, 0, 35, 0, 0, 0] ∧
      ¬ KeepsUnnamed .sample { entityType := fieldTypeLight } .primary (ascii "ON")
        [1, 128, 0, 255, 0, 35, 0, 0, 0] := by
  have hcolor : ∀ payload value, decodeCommandPayload .sample { entityType := fieldTypeLight } .primary payload
      [1, 128, 0, 255, 0, 35, 0, 0, 0] = some value → lightNames .sample payload .color = false →
      value[3]? ≠ some 255 → ¬ KeepsUnnamed .sample { entityType := fieldTypeLight } .primary payload
        [1, 128, 0, 255, 0, 35, 0, 0, 0] := by
    intro payload value hvalue hnames hsat h
    rcases h.light rfl value hvalue .color hnames with hsame | ⟨hstate, -⟩
    · exact hsat (hsame 3 (by decide))
    · cases hstate
  constructor
  · exact hcolor _ [1, 200, 0, 0, 0, 0, 0, 0, 0] (by decide) (by decide) (by decide)
  · exact hcolor _ [1, 255, 0, 0, 0, 0, 0, 0, 0] (by decide) (by decide) (by decide)

end EspTree
