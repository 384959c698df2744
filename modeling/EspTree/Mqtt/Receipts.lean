import EspTree.EntityValues
import EspTree.Mqtt.Moves

/-!
# The receipts of the MQTT export

The bridge acknowledges a state to the leaf when the export calls `mark_mqtt_state_delivered`.  The export keeps one
receipt for each record, that of the latest state, and gives it when the client has taken the messages of the record.
So a receipt is never given for a state that was not published, and never twice; a state that is overtaken before it
is published gets none.

What was published is said in terms of the calls of the bridge alone.  The value and the text are those of the latest
`queue_state` (`lastQueued`); the entity and the type of the value, which decide on the topics and on the form of the
messages, are those that the calls have given to the record one after the other (`described`).  The rest of the topics
comes from the sessions that the `tick` finds which publishes the state.
-/

namespace EspTree.Mqtt

open Wire Export

/-! ## Runs -/

/-- Something that happens to the export. -/
inductive Event
  | queueDiscovery (w : Remotes) (mac : Mac) (entity : EntitySchema) (displayName : Bytes)
  | queueState (w : Remotes) (mac : Mac) (entity : EntitySchema) (value : Bytes) (type : UInt8) (textValue : Bytes)
      (messageTxBase : UInt32) (nextHopMac : Option Mac) (displayName : Bytes)
  | queueAvailability (mac : Mac) (online : Bool)
  | queueClearEntities (w : Remotes) (mac : Mac) (oldEntities : List EntitySchema)
  | onSchemaComplete (w : Remotes) (mac : Mac)
  | queueRemoteDiagRefresh (mac : Mac)
  | handleCommandMessage (w : Remotes) (topic payload : Bytes)
  | tick (c : Call)

/-- The sessions that an event finds. -/
def Event.remotes? : Event → Option Remotes
  | .queueDiscovery w .. | .queueState w .. | .queueClearEntities w .. | .onSchemaComplete w _
  | .handleCommandMessage w .. => some w
  | .tick c => some c.remotes
  | .queueAvailability .. | .queueRemoteDiagRefresh _ => none

namespace Export

def step (lib : Libraries) (e : Export) : Event → Export
  | .queueDiscovery w mac entity displayName => e.queueDiscovery w mac entity displayName
  | .queueState w mac entity value type textValue messageTxBase nextHopMac displayName =>
    e.queueState w mac entity value type textValue messageTxBase nextHopMac displayName
  | .queueAvailability mac online => e.queueAvailability mac online
  | .queueClearEntities w mac oldEntities => e.queueClearEntities w mac oldEntities
  | .onSchemaComplete w mac => e.onSchemaComplete w mac
  | .queueRemoteDiagRefresh mac => e.queueRemoteDiagRefresh mac
  | .handleCommandMessage w topic payload => e.handleCommandMessage w lib topic payload
  | .tick c => e.tick c

/-- The export as it is made. -/
structure Init (e : Export) : Prop where
  entities : e.entities = ∅
  devices : e.devices = ∅
  routes : e.commandRoutes = ∅
  topics : e.subscribedTopics = []
  log : e.log = []

/-- The remotes have the node keys that `name` gives. -/
def Named (name : Mac → Bytes) (event : Event) : Prop := ∀ w, event.remotes? = some w → w.nodeKey = name

/-- What the export becomes as long as no remote changes its node key. -/
abbrev Reachable (lib : Libraries) (name : Mac → Bytes) : Export → Prop :=
  Transition.Reachable Init (fun _ event => Named name event) (step lib)

end Export

/-! ## What the log says -/

/-- Entries that are about no state. -/
def Entry.IsAside : Entry → Prop
  | .queuedState .. | .delivered .. => False
  | _ => True

/-- The value and the text of `queue_state` for the record. -/
def Entry.queued? (key : Bytes) : Entry → Option (Bytes × Bytes)
  | .queuedState key' _ _ value text _ => if key' = key then some (value, text) else none
  | _ => none

/-- The receipt that is awaited since `queue_state` for the record. -/
def Entry.awaited? (key : Bytes) : Entry → Option Receipt
  | .queuedState key' _ _ _ _ receipt? => if key' = key then receipt? else none
  | _ => none

def Entry.delivered? (key : Bytes) : Entry → Option Receipt
  | .delivered key' receipt => if key' = key then some receipt else none
  | _ => none

/-- The latest state that was queued for a record. -/
def lastQueued (key : Bytes) (log : List Entry) : Option (Bytes × Bytes) := log.findSome? (Entry.queued? key)

/-- The receipts that were asked for, the latest first. -/
def awaited (key : Bytes) (log : List Entry) : List Receipt := log.filterMap (Entry.awaited? key)

/-- The receipts that were given, the latest first. -/
def delivered (key : Bytes) (log : List Entry) : List Receipt := log.filterMap (Entry.delivered? key)

/-- What a call of the bridge makes of the entity that a record is for, and of the type of its value. -/
def Entry.describe (key : Bytes) : Entry → EntitySchema × UInt8 → EntitySchema × UInt8
  | .queuedDiscovery key' _ entity, d => if key' = key then (entity, entity.entityType) else d
  | .queuedState key' entity type _ _ _, d =>
    if key' = key then (if d.1.entityType = 0 then entity else d.1, type) else d
  | .cleared key' _ _, d => if key' = key then ({}, 0x01) else d
  | _, d => d

/-- The entity that a record is for, and the type of its value. -/
def described (key : Bytes) (log : List Entry) : EntitySchema × UInt8 :=
  log.foldr (Entry.describe key) ({}, 0x01)

/-- When the receipt was given, the record was the one of its entity, the client had just taken all the messages of
the latest state of the record, and the latest receipt that was asked for was this one. -/
structure Backed (w : Remotes) (key : Bytes) (receipt : Receipt) (log : List Entry) : Prop where
  own : key = w.entityRecordKey receipt.leafMac receipt.entityIndex
  shown : ∃ value text : Bytes, lastQueued key log = some (value, text) ∧
    ((stateMessages (w.nodeKey receipt.leafMac) (w.entityObjectId receipt.leafMac (described key log).1)
      { leafMac := receipt.leafMac, schema := (described key log).1, currentType := (described key log).2,
        currentValue := value, textValue := text }).map (published false)).reverse <+: log
  latest : (awaited key log).head? = some receipt

/-- Something is added to the log, and every receipt in it is backed by what stands before it. -/
def Adds (w : Remotes) (log log' : List Entry) : Prop :=
  ∃ l, log' = l ++ log ∧ ∀ key receipt later earlier, l = later ++ .delivered key receipt :: earlier →
    Backed w key receipt (earlier ++ log)

/-- Every entry stands in a relation to what had happened before it. -/
def Always (P : Entry → List Entry → Prop) : List Entry → Prop
  | [] => True
  | entry :: log => Always P log ∧ P entry log

section

variable {w : Remotes} {key : Bytes} {l log log' log'' : List Entry}

/-- What is true of all entries is true of each one at its time. -/
theorem Always.at {P : Entry → List Entry → Prop} {later earlier : List Entry} {entry : Entry}
    (h : Always P (later ++ entry :: earlier)) : P entry earlier := by
  induction later with
  | nil => exact h.2
  | cons x later ih => exact ih h.1

theorem Always.append {P : Entry → List Entry → Prop} (h : Always P log) (hl : ∀ x ∈ l, ∀ log, P x log) :
    Always P (l ++ log) := by
  induction l with
  | nil => exact h
  | cons x l ih => exact ⟨ih fun y hy => hl y (List.mem_cons_of_mem _ hy), hl x (List.mem_cons_self ..) _⟩

/-- Entries about no state do not change which state was queued last. -/
theorem lastQueued_append (h : ∀ x ∈ l, x.IsAside) : lastQueued key (l ++ log) = lastQueued key log := by
  have hnone : l.findSome? (Entry.queued? key) = none := by
    rw [List.findSome?_eq_none_iff]
    intro x hx
    cases x <;> first | rfl | exact absurd (h _ hx) id
  rw [lastQueued, List.findSome?_append, hnone]
  rfl

theorem filterMap_append_of_none {α : Type*} {f : Entry → Option α} (h : ∀ x ∈ l, f x = none) :
    (l ++ log).filterMap f = log.filterMap f := by
  rw [List.filterMap_append, List.filterMap_eq_nil_iff.mpr h, List.nil_append]

theorem awaited_append (h : ∀ x ∈ l, x.IsAside) : awaited key (l ++ log) = awaited key log := by
  refine filterMap_append_of_none fun x hx => ?_
  cases x <;> first | rfl | exact absurd (h _ hx) id

theorem delivered_append (h : ∀ x ∈ l, x.IsAside) : delivered key (l ++ log) = delivered key log := by
  refine filterMap_append_of_none fun x hx => ?_
  cases x <;> first | rfl | exact absurd (h _ hx) id

theorem described_append (h : ∀ x ∈ l, ∀ d, x.describe key d = d) : described key (l ++ log) = described key log := by
  induction l with
  | nil => rfl
  | cons x l ih =>
    rw [described, List.cons_append, List.foldr_cons, h x (List.mem_cons_self ..)]
    exact ih fun y hy => h y (List.mem_cons_of_mem _ hy)

theorem Adds.of_aside (hlog : log' = l ++ log) (hl : ∀ x ∈ l, x.IsAside) : Adds w log log' := by
  refine ⟨l, hlog, fun key receipt later earlier heq => ?_⟩
  have hmem : Entry.delivered key receipt ∈ l := by
    rw [heq]
    exact List.mem_append_right _ (List.mem_cons_self ..)
  exact (hl _ hmem).elim

theorem Adds.refl : Adds w log log := Adds.of_aside (l := []) rfl fun _ hx => absurd hx List.not_mem_nil

/-- What two steps add to the log they add one after the other. -/
theorem Adds.trans (h : Adds w log log') (h' : Adds w log' log'') : Adds w log log'' := by
  obtain ⟨l, hlog, hl⟩ := h
  obtain ⟨l', hlog', hl'⟩ := h'
  refine ⟨l' ++ l, ?_, fun key receipt later earlier heq => ?_⟩
  · rw [hlog', hlog, List.append_assoc]
  -- the receipt is in what was added last, or in what was added before
  · rcases List.append_eq_append_iff.mp heq with ⟨m, rfl, hm⟩ | ⟨m, hm, hrest⟩
    · exact hl key receipt m earlier hm
    · cases m with
      | nil => exact hl key receipt [] earlier hrest.symm
      | cons x m =>
        obtain ⟨rfl, rfl⟩ := List.cons.inj hrest
        have hbacked := hl' key receipt later m hm
        rw [hlog, ← List.append_assoc] at hbacked
        exact hbacked

end

/-! ## The invariant -/

/-- The state that a record holds, with the receipt that is due for it. -/
structure EntityRecord.SameState (r r' : EntityRecord) : Prop where
  leafMac : r'.leafMac = r.leafMac
  currentValue : r'.currentValue = r.currentValue
  textValue : r'.textValue = r.textValue
  pendingStateAck : r'.pendingStateAck = r.pendingStateAck

/-- The receipt of a record is the latest that was asked for, and was not given yet. -/
structure Due (e : Export) (key : Bytes) (r : EntityRecord) (receipt : Receipt) : Prop where
  state : lastQueued key e.log = some (r.currentValue, r.textValue)
  latest : (awaited key e.log).head? = some receipt
  fresh : (receipt :: delivered key e.log).Sublist (awaited key e.log)

/-- The receipts that are due, and those that were given and asked for. -/
structure Owed (name : Mac → Bytes) (e : Export) : Prop where
  due : ∀ key r entityIndex base, e.entities[key]? = some r → r.pendingStateAck = some (entityIndex, base) →
    Due e key r ⟨r.leafMac, entityIndex, base⟩
  order : ∀ key, (delivered key e.log).Sublist (awaited key e.log)
  own : ∀ key, ∀ receipt ∈ awaited key e.log, key = numbered (name receipt.leafMac) receipt.entityIndex.toNat

/-- The entity and the type that the record under a key holds, or those of a new record. -/
def Export.recorded (e : Export) (key : Bytes) : EntitySchema × UInt8 :=
  (e.entities[key]?.map fun r : EntityRecord => (r.schema, r.currentType)).getD ({}, 0x01)

/-- The records hold what the calls of the bridge say. -/
def Told (e : Export) : Prop := ∀ key, described key e.log = e.recorded key

/-- A receipt that is due now was due before, for the same state. -/
def Carries (e e' : Export) : Prop :=
  ∀ (key : Bytes) (r' : EntityRecord), e'.entities[key]? = some r' → r'.pendingStateAck ≠ none →
    ∃ r : EntityRecord, e.entities[key]? = some r ∧ r.SameState r'

/-- The keys of the records. -/
def Keyed (name : Mac → Bytes) (e : Export) : Prop :=
  ∀ (key : Bytes) (r : EntityRecord), e.entities[key]? = some r →
    key = numbered (name r.leafMac) r.schema.entityIndex.toNat

section

variable {name : Mac → Bytes} {e e' : Export}

theorem Carries.of_eq (h : e'.entities = e.entities) : Carries e e' := by
  intro key r' hr' _
  rw [h] at hr'
  exact ⟨r', hr', rfl, rfl, rfl, rfl⟩

/-- Entries about no state leave all receipts as they are owed. -/
theorem Owed.of_aside {l : List Entry} (h : Owed name e) (hlog : e'.log = l ++ e.log) (hl : ∀ x ∈ l, x.IsAside)
    (hcarries : Carries e e') : Owed name e' := by
  refine ⟨fun key r' entityIndex base hr' hack => ?_, fun key => ?_, ?_⟩
  · obtain ⟨r, hr, hsame⟩ := hcarries key r' hr' (by rw [hack]; exact Option.some_ne_none _)
    obtain ⟨hstate, hlatest, hfresh⟩ := h.due key r entityIndex base hr (hsame.pendingStateAck.symm.trans hack)
    refine ⟨?_, ?_, ?_⟩
    · rw [hlog, lastQueued_append hl, hsame.currentValue, hsame.textValue]
      exact hstate
    · rw [hlog, awaited_append hl, hsame.leafMac]
      exact hlatest
    · rw [hlog, awaited_append hl, delivered_append hl, hsame.leafMac]
      exact hfresh
  · rw [hlog, awaited_append hl, delivered_append hl]
    exact h.order key
  · intro key
    rw [hlog, awaited_append hl]
    exact h.own key

theorem Told.of_log {l : List Entry} (h : Told e) (hlog : e'.log = l ++ e.log)
    (hl : ∀ x ∈ l, ∀ key d, x.describe key d = d)
    (hrecords : ∀ key, e'.recorded key = e.recorded key) : Told e' := by
  intro key
  rw [hlog, described_append fun x hx => hl x hx key, hrecords]
  exact h key

/-- A record is changed, but not in the entity and the type. -/
theorem recorded_insert {key : Bytes} {r r' : EntityRecord} (hr : e.entities[key]? = some r)
    (hentities : e'.entities = e.entities.insert key r') (hschema : r'.schema = r.schema)
    (htype : r'.currentType = r.currentType) (key' : Bytes) : e'.recorded key' = e.recorded key' := by
  rw [recorded, recorded, hentities, StringMap.getElem?_insert]
  split_ifs with heq
  · rw [← heq, hr, Option.map_some, Option.map_some, hschema, htype]
  · rfl

theorem recorded_of_eq (h : e'.entities = e.entities) (key : Bytes) : e'.recorded key = e.recorded key := by
  rw [recorded, recorded, h]

/-- To show a state logs its receipt, if one is waiting. -/
theorem shown_log (key : Bytes) (r : EntityRecord) :
    ∃ l, (e.shown key r).log = l ++ e.log ∧ ∀ x ∈ l, ∃ entityIndex base,
      r.pendingStateAck = some (entityIndex, base) ∧ x = .delivered key ⟨r.leafMac, entityIndex, base⟩ := by
  rw [Export.shown]
  split
  · exact ⟨[], rfl, fun _ hx => absurd hx List.not_mem_nil⟩
  next entityIndex base hpending =>
    exact ⟨[_], rfl, fun x hx => ⟨entityIndex, base, hpending, List.mem_singleton.mp hx⟩⟩

/-- The receipt that is due for a record is backed once the messages of the record have been taken. -/
theorem Owed.backed {w : Remotes} (hname : w.nodeKey = name) (h : Owed name e) (htold : Told e) {key : Bytes}
    {r : EntityRecord} (hr : e.entities[key]? = some r)
    (hlog : ((stateMessages (w.nodeKey r.leafMac) (w.entityObjectId r.leafMac r.schema) r).map
      (published false)).reverse <+: e.log) {entityIndex : UInt8} {base : UInt32}
    (hpending : r.pendingStateAck = some (entityIndex, base)) : Backed w key ⟨r.leafMac, entityIndex, base⟩ e.log := by
  subst hname
  obtain ⟨hstate, hlatest, -⟩ := h.due key r entityIndex base hr hpending
  have hdescribed : described key e.log = (r.schema, r.currentType) := by
    rw [htold key, recorded, hr]
    rfl
  refine ⟨?_, ⟨r.currentValue, r.textValue, hstate, ?_⟩, hlatest⟩
  · exact h.own key _ (List.mem_of_mem_head? hlatest)
  · rw [hdescribed]
    exact hlog

/-- Publishing a record gives its receipt. -/
theorem Owed.shown (h : Owed name e) {key : Bytes} {r : EntityRecord} (hr : e.entities[key]? = some r) :
    Owed name (e.shown key r) := by
  have hrecords (key' : Bytes) (r' : EntityRecord) (hr' : (e.shown key r).entities[key']? = some r')
      (hack : r'.pendingStateAck ≠ none) : key ≠ key' ∧ e.entities[key']? = some r' := by
    rw [shown_entities, StringMap.insert_eq_some_iff] at hr'
    rcases hr' with ⟨-, rfl⟩ | hr'
    · exact absurd rfl hack
    · exact hr'
  cases hpending : r.pendingStateAck with
  | none =>
    have hshown : (e.shown key r).log = [] ++ e.log := by
      rw [Export.shown, hpending]
      rfl
    refine h.of_aside hshown (fun _ hx => absurd hx List.not_mem_nil) fun key' r' hr' hack => ?_
    exact ⟨r', (hrecords key' r' hr' hack).2, rfl, rfl, rfl, rfl⟩
  | some p =>
    obtain ⟨entityIndex, base⟩ := p
    have hshown : (e.shown key r).log = .delivered key ⟨r.leafMac, entityIndex, base⟩ :: e.log := by
      rw [Export.shown, hpending]
      rfl
    obtain ⟨hstate, hlatest, hfresh⟩ := h.due key r entityIndex base hr hpending
    have hdelivered (key' : Bytes) : delivered key' (e.shown key r).log =
        if key = key' then ⟨r.leafMac, entityIndex, base⟩ :: delivered key' e.log else delivered key' e.log := by
      rw [hshown, delivered, List.filterMap_cons, Entry.delivered?]
      split_ifs <;> rfl
    have hawaited (key' : Bytes) : awaited key' (e.shown key r).log = awaited key' e.log := by
      rw [hshown]
      rfl
    refine ⟨fun key' r' entityIndex' base' hr' hack => ?_, fun key' => ?_, ?_⟩
    · obtain ⟨hne, hr'⟩ := hrecords key' r' hr' (by rw [hack]; exact Option.some_ne_none _)
      obtain ⟨hstate', hlatest', hfresh'⟩ := h.due key' r' entityIndex' base' hr' hack
      refine ⟨?_, ?_, ?_⟩
      · rw [hshown]
        exact hstate'
      · rw [hawaited]
        exact hlatest'
      · rw [hawaited, hdelivered, if_neg hne]
        exact hfresh'
    · rw [hawaited, hdelivered]
      split_ifs with heq
      · subst heq
        exact hfresh
      · exact h.order key'
    · intro key'
      rw [hawaited]
      exact h.own key'

theorem isAside_of_publish {l : List Entry}
    (h : ∀ x ∈ l, ∃ topic payload retain taken, x = .publish topic payload retain taken) : ∀ x ∈ l, x.IsAside := by
  intro x hx
  obtain ⟨topic, payload, retain, taken, rfl⟩ := h x hx
  exact trivial

/-- Every move keeps the receipts: one is given only with the messages of its state, and then it
waits no more. -/
theorem Owed.move {w : Remotes} (h : Owed name e) (hmove : Move w e e') : Owed name e' := by
  have hkeep {e' : Export} (hlog : e'.log = e.log) (hcarries : Carries e e') : Owed name e' :=
    h.of_aside (l := []) hlog (fun _ hx => absurd hx List.not_mem_nil) hcarries
  cases hmove with
  | quiet hquiet =>
    obtain ⟨l, hlog, hl⟩ := hquiet.log
    exact h.of_aside hlog (isAside_of_publish hl) (Carries.of_eq hquiet.entities)
  | announced hr =>
    refine h.of_aside (l := [_]) rfl (fun x hx => ?_) fun key' r' hr' _ => ?_
    · rw [List.mem_singleton.mp hx]
      exact trivial
    · rcases StringMap.insert_eq_some_iff.mp hr' with ⟨rfl, rfl⟩ | ⟨-, hr'⟩
      · exact ⟨_, hr, rfl, rfl, rfl, rfl⟩
      · exact ⟨r', hr', rfl, rfl, rfl, rfl⟩
  | waited hr =>
    refine hkeep rfl fun key' r' hr' _ => ?_
    rcases StringMap.insert_eq_some_iff.mp hr' with ⟨rfl, rfl⟩ | ⟨-, hr'⟩
    · exact ⟨_, hr, rfl, rfl, rfl, rfl⟩
    · exact ⟨r', hr', rfl, rfl, rfl, rfl⟩
  | shown hr hlog => exact h.shown hr
  | @routed mac entityIndex hhas objectId kind =>
    have hentities := (subscribeRoute_entities (e := e) mac entityIndex (routeTopic (w.nodeKey mac) objectId kind) kind).1
    obtain ⟨l, hlog, hl⟩ := subscribeRoute_log (e := e) mac entityIndex (routeTopic (w.nodeKey mac) objectId kind) kind
    refine h.of_aside hlog (fun x hx => ?_) (Carries.of_eq hentities)
    rw [hl x hx]
    exact trivial
  | unrouted mac entityIndex => exact hkeep rfl (Carries.of_eq rfl)
  | erased topics => exact hkeep rfl (Carries.of_eq rfl)
  | deviceShown hd => exact hkeep rfl (Carries.of_eq rfl)
  | marked =>
    refine hkeep rfl fun key r' hr' _ => ?_
    obtain ⟨r, hr, rfl⟩ := StringMap.map_eq_some_iff.mp hr'
    exact ⟨r, hr, rfl, rfl, rfl, rfl⟩

theorem describe_of_publish {l : List Entry}
    (h : ∀ x ∈ l, ∃ topic payload retain taken, x = .publish topic payload retain taken) :
    ∀ x ∈ l, ∀ key d, x.describe key d = d := by
  intro x hx key d
  obtain ⟨topic, payload, retain, taken, rfl⟩ := h x hx
  rfl

/-- No move describes an entity anew. -/
theorem Told.move {w : Remotes} (h : Told e) (hmove : Move w e e') : Told e' := by
  have hkeep {e' : Export} (hlog : e'.log = e.log) (hrecords : ∀ key, e'.recorded key = e.recorded key) : Told e' :=
    h.of_log (l := []) hlog (fun _ hx => absurd hx List.not_mem_nil) hrecords
  cases hmove with
  | quiet hquiet =>
    obtain ⟨l, hlog, hl⟩ := hquiet.log
    exact h.of_log hlog (describe_of_publish hl) (recorded_of_eq hquiet.entities)
  | announced hr =>
    refine h.of_log (l := [_]) rfl (fun x hx key d => ?_) (recorded_insert hr rfl rfl rfl)
    rw [List.mem_singleton.mp hx]
    rfl
  | waited hr => exact hkeep rfl (recorded_insert hr rfl rfl rfl)
  | @shown key r hr hlog =>
    obtain ⟨l, hlog, hl⟩ := shown_log (e := e) key r
    refine h.of_log hlog (fun x hx key d => ?_) (recorded_insert hr (shown_entities key r) rfl rfl)
    obtain ⟨entityIndex, base, -, rfl⟩ := hl x hx
    rfl
  | @routed mac entityIndex hhas objectId kind =>
    have hentities := (subscribeRoute_entities (e := e) mac entityIndex (routeTopic (w.nodeKey mac) objectId kind) kind).1
    obtain ⟨l, hlog, hl⟩ := subscribeRoute_log (e := e) mac entityIndex (routeTopic (w.nodeKey mac) objectId kind) kind
    refine h.of_log hlog (fun x hx key d => ?_) (recorded_of_eq hentities)
    rw [hl x hx]
    rfl
  | unrouted mac entityIndex => exact hkeep rfl (recorded_of_eq rfl)
  | erased topics => exact hkeep rfl (recorded_of_eq rfl)
  | deviceShown hd => exact hkeep rfl (recorded_of_eq rfl)
  | marked =>
    refine hkeep rfl fun key => ?_
    rw [recorded, Std.TreeMap.getElem?_map, Option.map_map]
    rfl

/-- A move gives no receipt but that of the record that it publishes. -/
theorem Owed.adds_move {w : Remotes} (hname : w.nodeKey = name) (h : Owed name e) (htold : Told e)
    (hmove : Move w e e') : Adds w e.log e'.log := by
  cases hmove with
  | quiet hquiet =>
    obtain ⟨l, hlog, hl⟩ := hquiet.log
    exact Adds.of_aside hlog (isAside_of_publish hl)
  | announced hr =>
    refine Adds.of_aside (l := [_]) rfl fun x hx => ?_
    rw [List.mem_singleton.mp hx]
    exact trivial
  | waited hr => exact Adds.refl
  | @shown key r hr hmessages =>
    cases hpending : r.pendingStateAck with
    | none =>
      rw [Export.shown, hpending]
      exact Adds.refl
    | some p =>
      obtain ⟨entityIndex, base⟩ := p
      have hlog : (e.shown key r).log = [.delivered key ⟨r.leafMac, entityIndex, base⟩] ++ e.log := by
        rw [Export.shown, hpending]
        rfl
      refine ⟨_, hlog, fun key' receipt later earlier heq => ?_⟩
      cases later with
      | nil =>
        obtain ⟨heq, rfl⟩ := List.cons.inj heq
        cases heq
        exact h.backed hname htold hr hmessages hpending
      | cons x later => exact absurd (List.cons.inj heq).2.symm (by simp)
  | @routed mac entityIndex hhas objectId kind =>
    obtain ⟨l, hlog, hl⟩ := subscribeRoute_log (e := e) mac entityIndex (routeTopic (w.nodeKey mac) objectId kind) kind
    refine Adds.of_aside hlog fun x hx => ?_
    rw [hl x hx]
    exact trivial
  | unrouted mac entityIndex => exact Adds.refl
  | erased topics => exact Adds.refl
  | deviceShown hd => exact Adds.refl
  | marked => exact Adds.refl

/-- What holds after several moves, and what they add. -/
theorem Owed.moves {w : Remotes} (hname : w.nodeKey = name) (h : Owed name e) (htold : Told e)
    (hmoves : Moves w e e') : Owed name e' ∧ Told e' ∧ Adds w e.log e'.log := by
  induction hmoves with
  | refl => exact ⟨h, htold, Adds.refl⟩
  | tail _ hmove ih =>
    obtain ⟨h, htold, hadds⟩ := ih
    exact ⟨h.move hmove, htold.move hmove, hadds.trans (h.adds_move hname htold hmove)⟩

end

/-! ## The calls -/

section

variable {name : Mac → Bytes} {w : Remotes} {e : Export}

/-- The key of a record tells its leaf. -/
theorem Keyed.mac_eq (hinj : Function.Injective name) (h : Keyed name e) {mac : Mac} {entityIndex : UInt8}
    {r : EntityRecord} (hr : e.entities[numbered (name mac) entityIndex.toNat]? = some r) : r.leafMac = mac :=
  hinj (numbered_inj (h _ r hr)).1.symm

/-- The record that a call finds under a key, or the new one. -/
theorem Keyed.found (hinj : Function.Injective name) (h : Keyed name e) (mac : Mac) (entityIndex : UInt8) :
    (e.entities[numbered (name mac) entityIndex.toNat]?.getD { leafMac := mac }).leafMac = mac := by
  cases hr : e.entities[numbered (name mac) entityIndex.toNat]? with
  | none => rfl
  | some r => exact h.mac_eq hinj hr

theorem pending_of_found {key : Bytes} {mac : Mac}
    (h : (e.entities[key]?.getD { leafMac := mac }).pendingStateAck ≠ none) :
    e.entities[key]? = some (e.entities[key]?.getD { leafMac := mac }) := by
  cases hr : e.entities[key]? with
  | none =>
    rw [hr] at h
    exact absurd rfl h
  | some r => rfl

/-- An announcement that is queued leaves the receipts as they are. -/
theorem Owed.queueDiscovery (hinj : Function.Injective name) (hname : w.nodeKey = name) (hk : Keyed name e)
    (h : Owed name e) (mac : Mac) (entity : EntitySchema) (displayName : Bytes) :
    Owed name (e.queueDiscovery w mac entity displayName) := by
  subst hname
  refine h.of_aside (l := [_]) rfl (fun x hx => ?_) fun key r' hr' hack => ?_
  · rw [List.mem_singleton.mp hx]
    exact trivial
  · rcases StringMap.insert_eq_some_iff.mp hr' with ⟨rfl, rfl⟩ | ⟨-, hr'⟩
    · exact ⟨_, pending_of_found hack, (hk.found hinj mac entity.entityIndex).symm, rfl, rfl, rfl⟩
    · exact ⟨r', hr', rfl, rfl, rfl, rfl⟩

/-- The state that was queued last for a key is the one of this entry, if the entry is for the key. -/
theorem lastQueued_queuedState (key key' : Bytes) (entity : EntitySchema) (type : UInt8) (value text : Bytes)
    (receipt? : Option Receipt) (log : List Entry) :
    lastQueued key' (.queuedState key entity type value text receipt? :: log) =
      if key = key' then some (value, text) else lastQueued key' log := by
  rw [lastQueued, List.findSome?_cons, Entry.queued?]
  split_ifs <;> rfl

/-- Its receipt is asked for from then on, if it wants one. -/
theorem awaited_queuedState (key key' : Bytes) (entity : EntitySchema) (type : UInt8) (value text : Bytes)
    (receipt? : Option Receipt) (log : List Entry) :
    awaited key' (.queuedState key entity type value text receipt? :: log) =
      if key = key' then receipt?.toList ++ awaited key' log else awaited key' log := by
  rw [awaited, List.filterMap_cons, Entry.awaited?]
  split_ifs
  · cases receipt? with
    | none => rfl
    | some receipt => rfl
  · rfl

/-- The new state takes the place of the one before, and its receipt too if it wants one. -/
theorem Owed.queueState (hinj : Function.Injective name) (hname : w.nodeKey = name) (hk : Keyed name e)
    (h : Owed name e) (mac : Mac) (entity : EntitySchema) (value : Bytes) (type : UInt8) (textValue : Bytes)
    (base : UInt32) (nextHopMac : Option Mac) (displayName : Bytes) :
    Owed name (e.queueState w mac entity value type textValue base nextHopMac displayName) := by
  subst hname
  set key := w.entityRecordKey mac entity.entityIndex with hkey
  set receipt? : Option Receipt := nextHopMac.map fun _ => Receipt.mk mac entity.entityIndex base with hreceipt
  have hlog : (e.queueState w mac entity value type textValue base nextHopMac displayName).log =
      .queuedState key entity type value textValue receipt? :: e.log := rfl
  refine ⟨fun key' r' entityIndex base' hr' hack => ?_, fun key' => ?_, ?_⟩
  · rcases StringMap.insert_eq_some_iff.mp hr' with ⟨heq, rfl⟩ | ⟨hne, hr'⟩
    · obtain rfl : key = key' := heq
      cases nextHopMac with
      | some hop =>
        cases hack
        refine ⟨?_, ?_, ?_⟩
        · rw [hlog, lastQueued_queuedState, if_pos rfl]
        · rw [hlog, awaited_queuedState, if_pos rfl]
          rfl
        · rw [hlog, awaited_queuedState, if_pos rfl]
          exact (h.order key).cons_cons _
      | none =>
        set found := e.entities[key]?.getD { leafMac := mac } with hfound
        have hpending : found.pendingStateAck = some (entityIndex, base') := hack
        have hr : e.entities[key]? = some found :=
          pending_of_found (hpending.trans_ne (Option.some_ne_none _))
        have hmac : found.leafMac = mac := hk.found hinj mac entity.entityIndex
        obtain ⟨-, hlatest, hfresh⟩ := h.due key found entityIndex base' hr hpending
        rw [hmac] at hlatest hfresh
        refine ⟨?_, ?_, ?_⟩
        · rw [hlog, lastQueued_queuedState, if_pos rfl]
        · rw [hlog, awaited_queuedState, if_pos rfl]
          exact hlatest
        · rw [hlog, awaited_queuedState, if_pos rfl]
          exact hfresh
    · obtain ⟨hstate, hlatest, hfresh⟩ := h.due key' r' entityIndex base' hr' hack
      refine ⟨?_, ?_, ?_⟩
      · rw [hlog, lastQueued_queuedState, if_neg hne]
        exact hstate
      · rw [hlog, awaited_queuedState, if_neg hne]
        exact hlatest
      · rw [hlog, awaited_queuedState, if_neg hne]
        exact hfresh
  · rw [hlog, awaited_queuedState]
    split_ifs with heq
    · exact (h.order key').trans (List.sublist_append_right _ _)
    · exact h.order key'
  · intro key'
    rw [hlog, awaited_queuedState]
    split_ifs with heq
    · intro receipt hmem
      rcases List.mem_append.mp hmem with hmem | hmem
      · cases nextHopMac with
        | none => exact absurd hmem List.not_mem_nil
        | some hop =>
          obtain rfl : receipt = ⟨mac, entity.entityIndex, base⟩ := List.mem_singleton.mp hmem
          exact heq.symm
      · exact h.own key' receipt hmem
    · exact h.own key'

/-- It describes the entity. -/
theorem Told.queueDiscovery (h : Told e) (mac : Mac) (entity : EntitySchema) (displayName : Bytes) :
    Told (e.queueDiscovery w mac entity displayName) := by
  intro key
  have hlog : described key (e.queueDiscovery w mac entity displayName).log =
      if w.entityRecordKey mac entity.entityIndex = key then (entity, entity.entityType)
      else described key e.log := rfl
  rw [hlog, recorded, Export.queueDiscovery, note, StringMap.getElem?_insert]
  split_ifs with heq
  · rfl
  · exact h key

/-- A state describes its entity if nothing else has. -/
theorem Told.queueState (h : Told e) (mac : Mac) (entity : EntitySchema) (value : Bytes) (type : UInt8)
    (textValue : Bytes) (base : UInt32) (nextHopMac : Option Mac) (displayName : Bytes) :
    Told (e.queueState w mac entity value type textValue base nextHopMac displayName) := by
  intro key
  have hlog : described key (e.queueState w mac entity value type textValue base nextHopMac displayName).log =
      if w.entityRecordKey mac entity.entityIndex = key then
        (if (described key e.log).1.entityType = 0 then entity else (described key e.log).1, type)
      else described key e.log := rfl
  rw [hlog, recorded, Export.queueState, note]
  by_cases heq : w.entityRecordKey mac entity.entityIndex = key
  -- the record that is there, or a new one
  · rw [if_pos heq, heq, StringMap.getElem?_insert_self, h, recorded]
    cases e.entities[key]? with
    | none => rfl
    | some r => rfl
  · rw [if_neg heq, StringMap.getElem?_insert_of_ne heq]
    exact h key

/-- What is left when the entities have been cleared. -/
structure Cleared (w : Remotes) (mac : Mac) (l : List EntitySchema) (e e' : Export) : Prop where
  log : ∃ entries, e'.log = entries ++ e.log ∧ ∀ x ∈ entries, ∃ entity ∈ l,
    x = .cleared (w.entityRecordKey mac entity.entityIndex) mac entity.entityIndex
  record : ∀ (key : Bytes) (r : EntityRecord), e'.entities[key]? = some r →
    e.entities[key]? = some r ∧ ∀ entity ∈ l, w.entityRecordKey mac entity.entityIndex ≠ key
  route : ∀ (topic : Bytes) (route : CommandRoute), e'.commandRoutes[topic]? = some route →
    e.commandRoutes[topic]? = some route ∧
      ∀ entity ∈ l, ¬(route.leafMac = mac ∧ route.entityIndex = entity.entityIndex)
  devices : e'.devices = e.devices
  topics : e'.subscribedTopics = e.subscribedTopics

theorem cleared_clearEntity (mac : Mac) (oldEntities : List EntitySchema) (entity : EntitySchema) :
    Cleared w mac [entity] e (e.clearEntity w mac oldEntities entity) := by
  refine ⟨⟨[_], rfl, fun x hx => ⟨entity, List.mem_singleton_self _, List.mem_singleton.mp hx⟩⟩,
    fun key r hr => ?_, fun topic route hroute => ?_, rfl, rfl⟩
  · obtain ⟨hne, hr⟩ := StringMap.erase_eq_some_iff.mp hr
    refine ⟨hr, fun entity' hmem => ?_⟩
    rw [List.mem_singleton.mp hmem]
    exact hne
  · obtain ⟨hroute, hkept⟩ := StringMap.filter_eq_some_iff.mp hroute
    refine ⟨hroute, fun entity' hmem heq => ?_⟩
    rw [List.mem_singleton.mp hmem] at heq
    rw [heq.1, heq.2, beq_self_eq_true, beq_self_eq_true] at hkept
    cases hkept

theorem Cleared.trans {mac : Mac} {l l' : List EntitySchema} {e' e'' : Export} (h : Cleared w mac l e e')
    (h' : Cleared w mac l' e' e'') : Cleared w mac (l ++ l') e e'' := by
  obtain ⟨entries, hlog, hentries⟩ := h.log
  obtain ⟨entries', hlog', hentries'⟩ := h'.log
  refine ⟨⟨entries' ++ entries, ?_, fun x hx => ?_⟩, fun key r hr => ?_, fun topic route hroute => ?_,
    h'.devices.trans h.devices, h'.topics.trans h.topics⟩
  · rw [hlog', hlog, List.append_assoc]
  · rcases List.mem_append.mp hx with hx | hx
    · obtain ⟨entity, hmem, heq⟩ := hentries' x hx
      exact ⟨entity, List.mem_append_right _ hmem, heq⟩
    · obtain ⟨entity, hmem, heq⟩ := hentries x hx
      exact ⟨entity, List.mem_append_left _ hmem, heq⟩
  · obtain ⟨hr, hne'⟩ := h'.record key r hr
    obtain ⟨hr, hne⟩ := h.record key r hr
    exact ⟨hr, fun entity hmem => (List.mem_append.mp hmem).elim (hne entity) (hne' entity)⟩
  · obtain ⟨hroute, hne'⟩ := h'.route topic route hroute
    obtain ⟨hroute, hne⟩ := h.route topic route hroute
    exact ⟨hroute, fun entity hmem => (List.mem_append.mp hmem).elim (hne entity) (hne' entity)⟩

theorem cleared_fold (mac : Mac) (oldEntities l : List EntitySchema) (e : Export) :
    Cleared w mac l e (l.foldl (fun e entity => e.clearEntity w mac oldEntities entity) e) := by
  induction l generalizing e with
  | nil =>
    have hnone {P : EntitySchema → Prop} : ∀ entity ∈ ([] : List EntitySchema), P entity :=
      fun _ hmem => absurd hmem List.not_mem_nil
    exact ⟨⟨[], rfl, fun _ hx => absurd hx List.not_mem_nil⟩, fun _ _ hr => ⟨hr, hnone⟩,
      fun _ _ hroute => ⟨hroute, hnone⟩, rfl, rfl⟩
  | cons entity l ih => exact (cleared_clearEntity mac oldEntities entity).trans (ih _)

/-- A clear takes the description back. -/
theorem Told.clearEntity (h : Told e) (mac : Mac) (oldEntities : List EntitySchema) (entity : EntitySchema) :
    Told (e.clearEntity w mac oldEntities entity) := by
  intro key
  have hlog : described key (e.clearEntity w mac oldEntities entity).log =
      if w.entityRecordKey mac entity.entityIndex = key then ({}, 0x01) else described key e.log := rfl
  rw [hlog, recorded, Export.clearEntity, note, removeCommandRoutesForEntity, StringMap.getElem?_erase]
  split_ifs
  · rfl
  · exact h key

/-- The call is the loop over the old entities, and then the device. -/
theorem queueClearEntities_eq (e : Export) (mac : Mac) (oldEntities : List EntitySchema) :
    ∃ devices deviceClears, e.queueClearEntities w mac oldEntities =
      { oldEntities.foldl (fun e entity => e.clearEntity w mac oldEntities entity) e with
        devices := devices, deviceClears := deviceClears } := by
  simp only [queueClearEntities]
  split
  · exact ⟨_, _, rfl⟩
  · split_ifs
    · exact ⟨_, _, rfl⟩
    · exact ⟨_, _, rfl⟩

/-- A record that is cleared takes its receipt with it. -/
theorem Owed.queueClearEntities (h : Owed name e) (mac : Mac) (oldEntities : List EntitySchema) :
    Owed name (e.queueClearEntities w mac oldEntities) := by
  have hcleared := cleared_fold (w := w) mac oldEntities oldEntities e
  obtain ⟨entries, hlog, hentries⟩ := hcleared.log
  obtain ⟨devices, deviceClears, heq⟩ := queueClearEntities_eq (w := w) e mac oldEntities
  rw [heq]
  refine h.of_aside hlog (fun x hx => ?_) fun key r' hr' _ =>
    ⟨r', (hcleared.record key r' hr').1, rfl, rfl, rfl, rfl⟩
  obtain ⟨entity, -, rfl⟩ := hentries x hx
  exact trivial

theorem Told.queueClearEntities (h : Told e) (mac : Mac) (oldEntities : List EntitySchema) :
    Told (e.queueClearEntities w mac oldEntities) := by
  have hfold (l : List EntitySchema) (e : Export) (h : Told e) :
      Told (l.foldl (fun e entity => e.clearEntity w mac oldEntities entity) e) := by
    induction l generalizing e with
    | nil => exact h
    | cons entity l ih => exact ih _ (h.clearEntity mac oldEntities entity)
  obtain ⟨devices, deviceClears, heq⟩ := queueClearEntities_eq (w := w) e mac oldEntities
  rw [heq]
  exact hfold oldEntities e h

/-- A message is ignored, or goes to the entity of the route for its topic. -/
theorem handleCommandMessage_log (lib : Libraries) (e : Export) (topic payload : Bytes) :
    e.handleCommandMessage w lib topic payload = e ∨
      ∃ route value, e.commandRoutes[topic]? = some route ∧
        e.handleCommandMessage w lib topic payload = e.note (.command route.leafMac route.entityIndex value) := by
  simp only [handleCommandMessage]
  split
  · exact .inl rfl
  next route hroute =>
    split
    · exact .inl rfl
    · split
      · exact .inl rfl
      next value _ => exact .inr ⟨route, value, hroute, rfl⟩

/-! ## Keys -/

theorem Keyed.move {e' : Export} (h : Keyed name e) (hmove : Move w e e') : Keyed name e' := by
  have hsame {e' : Export} (hentities : e'.entities = e.entities) : Keyed name e' := fun key r hr =>
    h key r (hentities ▸ hr)
  have hinsert {key : Bytes} {r r' : EntityRecord} {e' : Export} (hentities : e'.entities = e.entities.insert key r')
      (hr : e.entities[key]? = some r) (hmac : r'.leafMac = r.leafMac) (hschema : r'.schema = r.schema) :
      Keyed name e' := by
    intro key' r'' hr''
    rw [hentities, StringMap.insert_eq_some_iff] at hr''
    rcases hr'' with ⟨rfl, rfl⟩ | ⟨-, hr''⟩
    · rw [hmac, hschema]
      exact h key r hr
    · exact h key' r'' hr''
  cases hmove with
  | quiet hquiet => exact hsame hquiet.entities
  | announced hr => exact hinsert rfl hr rfl rfl
  | waited hr => exact hinsert rfl hr rfl rfl
  | shown hr hlog => exact hinsert (shown_entities _ _) hr rfl rfl
  | @routed mac entityIndex hhas objectId kind => exact hsame (subscribeRoute_entities mac entityIndex _ kind).1
  | unrouted mac entityIndex => exact hsame rfl
  | erased topics => exact hsame rfl
  | deviceShown hd => exact hsame rfl
  | marked =>
    intro key r' hr'
    obtain ⟨r, hr, rfl⟩ := StringMap.map_eq_some_iff.mp hr'
    exact h key r hr

theorem Keyed.moves {e' : Export} (h : Keyed name e) (hmoves : Moves w e e') : Keyed name e' := by
  induction hmoves with
  | refl => exact h
  | tail _ hmove ih => exact ih.move hmove

/-- Every event keeps each record under the key of its leaf and its index. -/
theorem Keyed.step {lib : Libraries} (hinj : Function.Injective name) (h : Keyed name e) {event : Event}
    (hnamed : Named name event) : Keyed name (e.step lib event) := by
  cases event with
  | queueDiscovery w mac entity displayName =>
    obtain rfl := hnamed w rfl
    intro key r hr
    rcases StringMap.insert_eq_some_iff.mp hr with ⟨rfl, rfl⟩ | ⟨-, hr⟩
    · rfl
    · exact h key r hr
  | queueState w mac entity value type textValue base nextHopMac displayName =>
    obtain rfl := hnamed w rfl
    intro key r hr
    rcases StringMap.insert_eq_some_iff.mp hr with ⟨rfl, rfl⟩ | ⟨-, hr⟩
    · set found := e.entities[w.entityRecordKey mac entity.entityIndex]?.getD { leafMac := mac } with hfound
      have hindex : (if found.schema.entityType = 0 then entity else found.schema).entityIndex = entity.entityIndex := by
        split_ifs with htype
        · rfl
        · cases hr : e.entities[w.entityRecordKey mac entity.entityIndex]? with
          | none =>
            rw [hfound, hr] at htype
            exact absurd rfl htype
          | some r =>
            rw [hfound, hr]
            exact (UInt8.toNat_inj.mp (numbered_inj (h _ r hr)).2).symm
      exact congrArg (fun i => numbered (w.nodeKey mac) (UInt8.toNat i)) hindex.symm
    · exact h key r hr
  | queueAvailability mac online =>
    cases online with
    | false => exact h
    | true => exact h
  | queueClearEntities w mac oldEntities =>
    obtain ⟨devices, deviceClears, heq⟩ := queueClearEntities_eq (w := w) e mac oldEntities
    intro key r hr
    rw [Export.step, heq] at hr
    exact h key r ((cleared_fold mac oldEntities oldEntities e).record key r hr).1
  | onSchemaComplete w mac => exact h
  | queueRemoteDiagRefresh mac => exact h
  | handleCommandMessage w topic payload =>
    rcases handleCommandMessage_log lib e topic payload with heq | ⟨route, value, -, heq⟩
    · rw [Export.step, heq]
      exact h
    · rw [Export.step, heq]
      exact h
  | tick c => exact h.moves (moves_tick e)

/-! ## Runs -/

/-- Every event keeps the receipts. -/
theorem Owed.step {lib : Libraries} (hinj : Function.Injective name) (hk : Keyed name e) (h : Owed name e)
    (htold : Told e) {event : Event} (hnamed : Named name event) : Owed name (e.step lib event) := by
  have hkeep {e' : Export} (hlog : e'.log = e.log) (hentities : e'.entities = e.entities) : Owed name e' :=
    h.of_aside (l := []) hlog (fun _ hx => absurd hx List.not_mem_nil) (Carries.of_eq hentities)
  cases event with
  | queueDiscovery w mac entity displayName => exact h.queueDiscovery hinj (hnamed w rfl) hk mac entity displayName
  | queueState w mac entity value type textValue base nextHopMac displayName =>
    exact h.queueState hinj (hnamed w rfl) hk mac entity value type textValue base nextHopMac displayName
  | queueAvailability mac online =>
    cases online with
    | false => exact hkeep rfl rfl
    | true => exact hkeep rfl rfl
  | queueClearEntities w mac oldEntities => exact h.queueClearEntities mac oldEntities
  | onSchemaComplete w mac => exact hkeep rfl rfl
  | queueRemoteDiagRefresh mac => exact hkeep rfl rfl
  | handleCommandMessage w topic payload =>
    rcases handleCommandMessage_log lib e topic payload with heq | ⟨route, value, -, heq⟩
    · rw [Export.step, heq]
      exact h
    · rw [Export.step, heq]
      refine h.of_aside (l := [_]) rfl (fun x hx => ?_) (Carries.of_eq rfl)
      rw [List.mem_singleton.mp hx]
      exact trivial
  | tick c => exact (h.moves (hnamed _ rfl) htold (moves_tick e)).1

/-- Every event keeps the descriptions. -/
theorem Told.step {lib : Libraries} (ho : Owed name e) (h : Told e) {event : Event} (hnamed : Named name event) :
    Told (e.step lib event) := by
  cases event with
  | queueDiscovery w mac entity displayName => exact h.queueDiscovery mac entity displayName
  | queueState w mac entity value type textValue base nextHopMac displayName =>
    exact h.queueState mac entity value type textValue base nextHopMac displayName
  | queueAvailability mac online =>
    cases online with
    | false => exact h
    | true => exact h
  | queueClearEntities w mac oldEntities => exact h.queueClearEntities mac oldEntities
  | onSchemaComplete w mac => exact h
  | queueRemoteDiagRefresh mac => exact h
  | handleCommandMessage w topic payload =>
    rcases handleCommandMessage_log lib e topic payload with heq | ⟨route, value, -, heq⟩
    · rw [Export.step, heq]
      exact h
    · rw [Export.step, heq]
      exact h
  | tick c => exact (ho.moves (hnamed _ rfl) h (moves_tick e)).2.1

/-- Only `tick` gives receipts. -/
theorem Owed.adds_step {lib : Libraries} (h : Owed name e) (htold : Told e) {event : Event}
    (hnamed : Named name event) : ∃ l, (e.step lib event).log = l ++ e.log ∧
      ∀ key receipt later earlier, l = later ++ .delivered key receipt :: earlier →
        ∃ c, event = .tick c ∧ Backed c.remotes key receipt (earlier ++ e.log) := by
  have hnone {l : List Entry} (hlog : (e.step lib event).log = l ++ e.log)
      (hl : ∀ x ∈ l, ∀ key receipt, x ≠ .delivered key receipt) : ∃ l, (e.step lib event).log = l ++ e.log ∧
        ∀ key receipt later earlier, l = later ++ .delivered key receipt :: earlier →
          ∃ c, event = .tick c ∧ Backed c.remotes key receipt (earlier ++ e.log) := by
    refine ⟨l, hlog, fun key receipt later earlier heq => absurd rfl (hl _ ?_ key receipt)⟩
    rw [heq]
    exact List.mem_append_right _ (List.mem_cons_self ..)
  have hnil (hlog : (e.step lib event).log = e.log) := hnone (l := []) hlog fun _ hx => absurd hx List.not_mem_nil
  have hone {x : Entry} (hlog : (e.step lib event).log = x :: e.log) (hx : ∀ key receipt, x ≠ .delivered key receipt) :=
    hnone (l := [x]) hlog fun y hy => (List.mem_singleton.mp hy) ▸ hx
  cases event with
  | queueDiscovery w mac entity displayName => exact hone rfl fun _ _ heq => by cases heq
  | queueState w mac entity value type textValue base nextHopMac displayName =>
    exact hone rfl fun _ _ heq => by cases heq
  | queueAvailability mac online =>
    cases online with
    | false => exact hnil rfl
    | true => exact hnil rfl
  | queueClearEntities w mac oldEntities =>
    obtain ⟨entries, hlog, hentries⟩ := (cleared_fold (w := w) mac oldEntities oldEntities e).log
    obtain ⟨devices, deviceClears, heq⟩ := queueClearEntities_eq (w := w) e mac oldEntities
    refine hnone (l := entries) (by rw [Export.step, heq]; exact hlog) fun x hx key receipt hreceipt => ?_
    obtain ⟨entity, -, rfl⟩ := hentries x hx
    cases hreceipt
  | onSchemaComplete w mac => exact hnil rfl
  | queueRemoteDiagRefresh mac => exact hnil rfl
  | handleCommandMessage w topic payload =>
    rcases handleCommandMessage_log (w := w) lib e topic payload with heq | ⟨route, value, -, heq⟩
    · exact hnil (congrArg log heq)
    · exact hone (congrArg log heq) fun _ _ heq => by cases heq
  | tick c =>
    obtain ⟨l, hlog, hl⟩ := (h.moves (hnamed _ rfl) htold (moves_tick e)).2.2
    exact ⟨l, hlog, fun key receipt later earlier heq => ⟨c, rfl, hl key receipt later earlier heq⟩⟩

theorem Export.Init.owed (h : e.Init) : Keyed name e ∧ Owed name e ∧ Told e := by
  have hnone (key : Bytes) : e.entities[key]? = none := by
    rw [h.entities]
    exact StringMap.getElem?_empty
  refine ⟨fun key r hr => ?_, ⟨fun key r _ _ hr => ?_, fun key => ?_, fun key => ?_⟩, fun key => ?_⟩
  · rw [hnone] at hr
    cases hr
  · rw [hnone] at hr
    cases hr
  · rw [h.log]
    exact List.Sublist.refl _
  · rw [h.log]
    exact fun _ hx => absurd hx List.not_mem_nil
  · rw [h.log, recorded, hnone]
    rfl

/-- The three invariants hold in every state of a run. -/
theorem Export.Reachable.owed {lib : Libraries} (hinj : Function.Injective name) (h : Reachable lib name e) :
    Keyed name e ∧ Owed name e ∧ Told e := by
  induction h with
  | start hinit => exact hinit.owed
  | next _ hnamed ih =>
    obtain ⟨hk, ho, ht⟩ := ih
    exact ⟨hk.step hinj hnamed, ho.step hinj hk ht hnamed, ht.step ho hnamed⟩

end

/-- In every run, the receipts of an entity are given in the order in which they were asked for and none of them
twice.  A receipt is only given by a call of `tick`, which has just had every message of the entity's latest state
taken by the client: the messages that the sessions of the call and the entity's description ask for. -/
theorem receipts_backed {lib : Libraries} {name : Mac → Bytes} {e : Export} (hinj : Function.Injective name)
    (h : Reachable lib name e) :
    (∀ key, (delivered key e.log).Sublist (awaited key e.log)) ∧
      ∀ event, Named name event → ∃ l, (e.step lib event).log = l ++ e.log ∧
        ∀ key receipt later earlier, l = later ++ .delivered key receipt :: earlier →
          ∃ c, event = .tick c ∧ Backed c.remotes key receipt (earlier ++ e.log) := by
  obtain ⟨-, howed, htold⟩ := h.owed hinj
  exact ⟨howed.order, fun event hnamed => howed.adds_step htold hnamed⟩

/-! ## A run -/

def lamp : EntitySchema := { entityType := fieldTypeSwitch, entityName := ascii "lamp" }

/-- Remotes with a lamp and without a name, whose keys are their addresses. -/
def lampRemotes : Remotes := ⟨fun _ => some { entities := [lamp], online := true }, []⟩

/-- A call of `tick` with a client that takes everything at once. -/
def takesAll (now : UInt32) : Call :=
  { remotes := lampRemotes, connected := true, now := now, replies := List.replicate 16 ⟨true, now⟩, later := now }

/-- A lamp is announced, and has a state that is to be published. -/
def lampEvents : List Event :=
  [.queueDiscovery lampRemotes (Octets.zero 6) lamp [],
    .queueState lampRemotes (Octets.zero 6) lamp [1] fieldTypeSwitch [] 7 (some (Octets.zero 6)) [],
    .tick (takesAll 1000)]

def lampAnnounced : Export := Transition.runFrom (step .sample) { bridgeMac := Octets.zero 6 } lampEvents

theorem nodeKey_lampRemotes : lampRemotes.nodeKey = Bridge.macHex := rfl

/-- The calls of the example are those of a bridge that names its remotes by their addresses. -/
theorem lampAnnounced_reachable : Reachable .sample Bridge.macHex lampAnnounced := by
  refine Transition.Reachable.runFrom (.start ⟨rfl, rfl, rfl, rfl, rfl⟩) ?_
  refine ⟨?_, ?_, ?_, trivial⟩ <;>
    intro w hw <;> cases hw <;> exact nodeKey_lampRemotes

/-- A bridge that has announced a lamp publishes the lamp's state, and gives the receipt for it. -/
theorem receipts_backed_lampAnnounced :
    delivered (lampRemotes.entityRecordKey (Octets.zero 6) 0)
        (lampAnnounced.step .sample (.tick (takesAll 1250))).log = [⟨Octets.zero 6, 0, 7⟩] ∧
      ∃ l, (lampAnnounced.step .sample (.tick (takesAll 1250))).log = l ++ lampAnnounced.log ∧
        ∀ key receipt later earlier, l = later ++ .delivered key receipt :: earlier →
          ∃ c, Event.tick (takesAll 1250) = .tick c ∧ Backed c.remotes key receipt (earlier ++ lampAnnounced.log) :=
  ⟨by decide, (receipts_backed ValueBridge.macHex_injective lampAnnounced_reachable).2 (.tick (takesAll 1250))
    fun _ hw => Option.some.inj hw ▸ nodeKey_lampRemotes⟩

end EspTree.Mqtt
