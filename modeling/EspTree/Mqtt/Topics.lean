import EspTree.Mqtt.State

/-!
# Topics and messages of the MQTT export

The topics of an entity, those that commands come in on, and the messages that its state is published with
(`esp_tree_bridge/bridge_mqtt_export.cpp`).

A topic is made of the prefix, the key of the node, the component that belongs to the type of the
entity, and the object id.  A fan has topics of its own for speed, oscillation and direction besides
the plain one, which is why the routes of an entity are a list of kinds (`routeKinds`) and not one
topic.

`stateMessages` is the list of what is published for a state, in the order of the source.  Where the
payload is a text that is put together of numbers or JSON, `Payload` holds the parts.  The object id
of an entity is its own id or comes from its name and its place (`entityObjectIdFromSchema`);
`Mqtt.Clears` is about where the two callers differ in that.
-/

namespace EspTree.Mqtt

open Wire

/-! ## Types -/

def fieldTypeSensor : UInt8 := 0x01
def fieldTypeBinary : UInt8 := 0x03

def componentForType (type : UInt8) : Bytes :=
  if type = fieldTypeSensor then ascii "sensor"
  else if type = fieldTypeSwitch then ascii "switch"
  else if type = fieldTypeBinary then ascii "binary_sensor"
  else if type = fieldTypeButton then ascii "button"
  else if type = fieldTypeNumber then ascii "number"
  else if type = fieldTypeText then ascii "text"
  else if type = fieldTypeTextSensor then ascii "sensor"
  else if type = fieldTypeCover then ascii "cover"
  else if type = fieldTypeLight then ascii "light"
  else if type = fieldTypeFan then ascii "fan"
  else if type = fieldTypeLock then ascii "lock"
  else if type = fieldTypeAlarm then ascii "alarm_control_panel"
  else if type = fieldTypeSelect then ascii "select"
  else if type = fieldTypeEvent then ascii "event"
  else if type = fieldTypeValve then ascii "valve"
  else ascii "sensor"

/-- The types that have a command topic. -/
def commandTypes : List UInt8 :=
  [fieldTypeSwitch, fieldTypeNumber, fieldTypeText, fieldTypeCover, fieldTypeValve, fieldTypeLock, fieldTypeSelect,
    fieldTypeAlarm, fieldTypeFan, fieldTypeLight, fieldTypeButton]

def optionIsTrue (options : List (Bytes × Bytes)) (key : Bytes) : Bool :=
  options.lookup key ∈ [some (ascii "1"), some (ascii "true"), some (ascii "yes")]

/-! ## Topics -/

/-- A topic of an object of a node. -/
def topic (nodeKey objectId suffix : Bytes) : Bytes :=
  ascii "esp-tree/" ++ nodeKey ++ ascii "/" ++ objectId ++ ascii "/" ++ suffix

def stateTopic (nodeKey objectId : Bytes) : Bytes := topic nodeKey objectId (ascii "state")
def commandTopic (nodeKey objectId : Bytes) : Bytes := topic nodeKey objectId (ascii "set")
def fanSpeedStateTopic (nodeKey objectId : Bytes) : Bytes := topic nodeKey objectId (ascii "percentage_state")
def fanSpeedCommandTopic (nodeKey objectId : Bytes) : Bytes := topic nodeKey objectId (ascii "percentage_set")
def fanOscillationStateTopic (nodeKey objectId : Bytes) : Bytes := topic nodeKey objectId (ascii "oscillation_state")
def fanOscillationCommandTopic (nodeKey objectId : Bytes) : Bytes := topic nodeKey objectId (ascii "oscillation_set")
def fanDirectionStateTopic (nodeKey objectId : Bytes) : Bytes := topic nodeKey objectId (ascii "direction_state")
def fanDirectionCommandTopic (nodeKey objectId : Bytes) : Bytes := topic nodeKey objectId (ascii "direction_set")

/-- The command topic for a kind of route. -/
def routeTopic (nodeKey objectId : Bytes) : CommandRouteKind → Bytes
  | .primary => commandTopic nodeKey objectId
  | .fanSpeed => fanSpeedCommandTopic nodeKey objectId
  | .fanOscillation => fanOscillationCommandTopic nodeKey objectId
  | .fanDirection => fanDirectionCommandTopic nodeKey objectId

def availabilityTopic (nodeKey : Bytes) : Bytes := ascii "esp-tree/" ++ nodeKey ++ ascii "/availability"

def remoteDiagStateTopic (nodeKey suffix : Bytes) : Bytes :=
  ascii "esp-tree/" ++ nodeKey ++ ascii "/diagnostic/" ++ suffix ++ ascii "/state"

/-- A topic that Home Assistant finds the configuration of a component on. -/
def configTopic (discoveryPrefix component nodeKey objectId : Bytes) : Bytes :=
  discoveryPrefix ++ ascii "/" ++ component ++ ascii "/" ++ nodeKey ++ ascii "/" ++ objectId ++ ascii "/config"

/-- The topic of a device. -/
def deviceConfigTopic (discoveryPrefix nodeKey : Bytes) : Bytes :=
  discoveryPrefix ++ ascii "/device/" ++ nodeKey ++ ascii "/config"

/-! ## The routes of an entity -/

/-- The kinds of route that the options of an entity call for. -/
def routeKinds (entity : EntitySchema) : List CommandRouteKind :=
  if entity.entityType ∉ commandTypes then []
  else if entity.entityType ≠ fieldTypeFan then [.primary]
  else
    let options := parseOptionsMap entity.entityOptions
    .primary :: ((if 0 < optionU32 options (ascii "speed_count") 0 then [.fanSpeed] else []) ++
      (if optionIsTrue options (ascii "oscillation") then [.fanOscillation] else []) ++
      (if optionIsTrue options (ascii "direction") then [.fanDirection] else []))

def commandTopicsForObjectId (nodeKey : Bytes) (entity : EntitySchema) (objectId : Bytes) : List Bytes :=
  (routeKinds entity).map (routeTopic nodeKey objectId)

/-- The loop of `entity_object_id_from_schema_`: the entities of the name, up to the one with the index. -/
def duplicateLoop (base : Bytes) (index : UInt8) : List EntitySchema → Nat → Nat
  | [], n => n
  | candidate :: entities, n =>
    if candidate.entityType = 0 then duplicateLoop base index entities n
    else if sanitizeObjectId candidate.entityName = base then
      if candidate.entityIndex = index then n + 1 else duplicateLoop base index entities (n + 1)
    else duplicateLoop base index entities n

def entityObjectIdFromSchema (entities : List EntitySchema) (entity : EntitySchema) : Bytes :=
  let base := baseId entity
  if ¬ entity.entityId.isEmpty then base
  else
    let duplicate := duplicateLoop base entity.entityIndex entities 0
    if duplicate > 1 then numbered base duplicate else base

/-! ## States -/

/-- `ON` or `OFF`, by the first byte. -/
def onOff (value : Bytes) : Payload :=
  .text (if value.head?.any (· ≠ 0) then ascii "ON" else ascii "OFF")

/-- The text of an alarm. -/
def alarmText (b : UInt8) : Bytes :=
  if b = 1 then ascii "armed_home"
  else if b = 2 then ascii "armed_away"
  else if b = 3 then ascii "armed_night"
  else if b = 4 then ascii "armed_vacation"
  else if b = 5 then ascii "armed_custom_bypass"
  else if b = 6 then ascii "triggered"
  else if b = 7 then ascii "pending"
  else if b = 8 then ascii "arming"
  else if b = 9 then ascii "disarming"
  else ascii "disarmed"

/-- The text of a choice. -/
def selectText (entity : EntitySchema) (value : Bytes) : Bytes :=
  let number := decimal (value.headD 0).toNat
  if entity.entityOptions.isEmpty then number
  else
    let listed := optionList (parseOptionsMap entity.entityOptions) (ascii "options")
    let options := if listed.isEmpty then splitString entity.entityOptions 0x7C else listed
    (value.head?.bind fun b => options[b.toNat]?).getD number

def encodeStatePayload (entity : EntitySchema) (value : Bytes) (type : UInt8) : Payload :=
  if type = fieldTypeSensor ∨ type = fieldTypeNumber then
    if value.length < 4 then .text [] else .float (value.take 4)
  else if type = fieldTypeSwitch ∨ type = fieldTypeBinary then onOff value
  else if type = fieldTypeText ∨ type = fieldTypeTextSensor then .text value
  else if type = fieldTypeCover ∨ type = fieldTypeValve then .text (decimal (value.headD 0).toNat)
  else if type = fieldTypeFan ∨ type = fieldTypeLight then onOff value
  else if type = fieldTypeLock then
    .text (if value.head? = some 1 then ascii "LOCKED"
      else if value.head? = some 2 then ascii "JAMMED" else ascii "UNLOCKED")
  else if type = fieldTypeSelect then .text (selectText entity value)
  else if type = fieldTypeAlarm then .text (alarmText (value.headD 0))
  else if type = fieldTypeButton then .text (ascii "press")
  else if type = fieldTypeEvent then .text value
  else .text []

/-- The messages of a fan: the state, and an attribute where there is a byte and the option for it. -/
def fanMessages (nodeKey objectId : Bytes) (entity : EntitySchema) (value : Bytes) : List (Bytes × Payload) :=
  let options := parseOptionsMap entity.entityOptions
  let speedCount := optionU32 options (ascii "speed_count") 0
  let percentage := min (value.getD 1 0).toNat speedCount.toNat * 100 / speedCount.toNat
  (stateTopic nodeKey objectId, onOff value) ::
    ((if 1 < value.length ∧ 0 < speedCount then
        [(fanSpeedStateTopic nodeKey objectId, Payload.text (decimal percentage))] else []) ++
      (if 2 < value.length ∧ optionIsTrue options (ascii "oscillation") then
        [(fanOscillationStateTopic nodeKey objectId,
          Payload.text (if value.getD 2 0 ≠ 0 then ascii "oscillate_on" else ascii "oscillate_off"))] else []) ++
      (if 3 < value.length ∧ optionIsTrue options (ascii "direction") then
        [(fanDirectionStateTopic nodeKey objectId,
          Payload.text (if value.getD 3 0 ≠ 0 then ascii "reverse" else ascii "forward"))] else []))

/-- The messages that `do_publish_state_` publishes for a record. -/
def stateMessages (nodeKey objectId : Bytes) (r : EntityRecord) : List (Bytes × Payload) :=
  let type := r.currentType
  if type = fieldTypeFan then fanMessages nodeKey objectId r.schema r.currentValue
  else
    [(stateTopic nodeKey objectId,
      if type = fieldTypeButton then .eventType (ascii "press")
      else if type = fieldTypeEvent then .eventType r.textValue
      else if type = fieldTypeLight then .light r.currentValue r.schema.entityOptions
      else if (type = fieldTypeText ∨ type = fieldTypeTextSensor) ∧ r.textValue ≠ [] then .text r.textValue
      else encodeStatePayload r.schema r.currentValue type)]

end EspTree.Mqtt
