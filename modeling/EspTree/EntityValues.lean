import EspTree.Bridge.Shown
import EspTree.Lib.Digits

/-!
# The values in the runtime snapshot

`ESPTreeBridge` keeps the last value of every entity with the schema that the entity had then, under the leaf and
the index of the entity (`entity_values_` in `esp_tree_bridge/esp_tree_bridge.cpp`).  The runtime snapshot writes
the values of a leaf next to the schema of its session.

States fill the cache, and nothing else changes it: the callback for a schema that is replaced or removed clears
the MQTT export only.  So the snapshot is consistent as long as every new schema agrees with the values that are
there, and every state comes from an entity of the schema (`consistent_iff`).

This is the view of one leaf; values of other leaves come in as events.  The entries are listed by their last
change and not by their keys.
-/

namespace EspTree

open Wire

/-! ## The cache and the snapshot -/

structure EntityValueCache where
  currentValue : Bytes
  currentType : UInt8
  schema : EntitySchema

def entityValueKey (mac : Mac) (entity : EntitySchema) : Bytes :=
  numbered (Bridge.macHex mac) entity.entityIndex.toNat

/-- The value belongs to this entity, under the object id and the type that are advertised for it. -/
structure EntityValueCache.BelongsTo (r : EntityValueCache) (entity : EntitySchema) : Prop where
  index : r.schema.entityIndex = entity.entityIndex
  objectId : EspTree.objectId r.schema = EspTree.objectId entity
  type : r.currentType = entity.entityType

/-- The part of one remote in the snapshot: the entities that are advertised and the values that are written. -/
structure RemoteSnapshot where
  entities : List EntitySchema
  states : List EntityValueCache

/-- Every state belongs to an entity, and no two to the same one. -/
structure RemoteSnapshot.Consistent (s : RemoteSnapshot) : Prop where
  belongs : ∀ r ∈ s.states, ∃ entity ∈ s.entities, r.BelongsTo entity
  once : s.states.Pairwise fun r r' => ∀ entity ∈ s.entities, r.BelongsTo entity → ¬ r'.BelongsTo entity

/-- `ESPTreeBridge`, as far as the values go. -/
structure ValueBridge where
  protocol : Bridge
  entityValues : List (Bytes × EntityValueCache) := []

namespace ValueBridge

/-- The callback of `set_publish_state_fn`. -/
def publishState (g : ValueBridge) (mac : Mac) (entity : EntitySchema) (value : Bytes) : ValueBridge :=
  { g with entityValues :=
      Bridge.cacheSet g.entityValues (entityValueKey mac entity) ⟨value, entity.entityType, entity⟩ }

/-- The values that the snapshot writes for a session. -/
def statesOf (g : ValueBridge) (mac : Mac) : List EntityValueCache :=
  (g.entityValues.filter fun p => (Bridge.macHex mac).isPrefixOf p.1 && !p.2.currentValue.isEmpty).map Prod.snd

/-- `api_runtime_encode_full_snapshot`, for the session of the leaf. -/
def snapshot (g : ValueBridge) : Option RemoteSnapshot :=
  g.protocol.session?.map fun x =>
    ⟨x.schema.entities.filter fun entity => entity.entityType != 0, g.statesOf x.leafMac⟩

/-- Something that happens to the bridge. -/
inductive Event
  | call (k : Bridge.Call)
  /-- Another leaf publishes a state. -/
  | other (mac : Mac) (entity : EntitySchema) (value : Bytes)

/-- What the callback of `set_publish_state_fn` is given in the course of a call. -/
def published (b b' : Bridge) : Option (EntitySchema × Bytes) :=
  if b'.hub.states.length = b.hub.states.length then none else b'.hub.states.head?

variable (c : Crypto)

/-- The state after an event. -/
def step (g : ValueBridge) : Event → ValueBridge
  | .call .restart => { protocol := g.protocol.call c .restart }
  | .call k =>
    let b := g.protocol.call c k
    match published g.protocol b with
    | none => { g with protocol := b }
    | some (entity, value) => ({ g with protocol := b } : ValueBridge).publishState b.leafMac entity value
  | .other mac entity value => g.publishState mac entity value

/-- The bridge has just started. -/
structure Init (g : ValueBridge) : Prop where
  protocol : Bridge.Init g.protocol
  schemaCache : g.protocol.hub.schemaCache = []
  entityValues : g.entityValues = []

/-- Another leaf has another address, and its schemas are put together from descriptors. -/
def Event.Possible (mac : Mac) : Event → Prop
  | .call k => k.Fair
  | .other mac' .. => mac' ≠ mac

/-- The snapshot of the leaf, if it is in there, is consistent. -/
def Consistent (g : ValueBridge) : Prop := ∀ s, g.snapshot = some s → s.Consistent

/-! ## When the snapshot stays consistent -/

/-- Every value belongs to an entity that is advertised. -/
def Covers (entities : List EntitySchema) (values : List EntityValueCache) : Prop :=
  ∀ r ∈ values, ∃ entity ∈ entities, entity.entityType ≠ 0 ∧ r.BelongsTo entity

/-- What happens to the schema agrees with the values that are there: a new schema covers them, and a descriptor
covers the one under its index. -/
def Agrees (values : List EntityValueCache) : Bridge.SchemaChange → Prop
  | .keep | .gone => True
  | .schema entities => Covers entities values
  | .descriptor entity =>
    ∀ r ∈ values, r.schema.entityIndex = entity.entityIndex → entity.entityType ≠ 0 ∧ r.BelongsTo entity

/-- A call leaves the leaf a schema that agrees with its values, and brings no value without an entity. -/
def Settled (g : ValueBridge) : Event → Prop
  | .call k => Agrees (g.statesOf g.protocol.leafMac) (g.protocol.schemaChange c k) ∧
      ∀ p, g.protocol.stateBrought c k = some p → p.2 ≠ [] → p.1.entityType ≠ 0
  | .other .. => True

/-! ## Keys -/

theorem macHex_eq (mac : Mac) : Bridge.macHex mac = hexText 55 mac.bytes := rfl

/-- Different leaves have different texts. -/
theorem macHex_injective : Function.Injective Bridge.macHex := fun _ _ h =>
  Octets.ext (hexText_injective (by decide) h)

theorem length_macHex (mac : Mac) : (Bridge.macHex mac).length = 12 := by
  rw [macHex_eq, length_hexText, mac.length_bytes]

/-- The keys of a leaf are the ones that begin with its address. -/
theorem isPrefixOf_entityValueKey {mac mac' : Mac} {entity : EntitySchema} :
    (Bridge.macHex mac).isPrefixOf (entityValueKey mac' entity) = true ↔ mac' = mac := by
  rw [List.isPrefixOf_iff_prefix]
  constructor
  · rintro ⟨rest, hrest⟩
    have hlength : (Bridge.macHex mac).length = (Bridge.macHex mac').length :=
      (length_macHex mac).trans (length_macHex mac').symm
    exact (macHex_injective (List.append_inj_left hrest hlength)).symm
  · rintro rfl
    exact List.prefix_append _ _

/-! ## The entries -/

/-- What every run keeps: the entries stand under the keys of their entities, each key once. -/
structure Sound (g : ValueBridge) : Prop where
  assembles : g.protocol.Assembles
  named : g.protocol.Named
  keys : g.entityValues.Pairwise fun p p' => p.1 ≠ p'.1
  keyed : ∀ p ∈ g.entityValues, ∃ mac, p.1 = entityValueKey mac p.2.schema

theorem Init.sound {g : ValueBridge} (h : g.Init) : g.Sound where
  assembles := by
    refine ⟨fun entities hx => ?_, fun p hp => ?_⟩
    · rw [h.protocol.session] at hx
      cases hx
    · rw [h.schemaCache] at hp
      cases hp
  named x hx := by
    rw [h.protocol.session] at hx
    cases hx
  keys := by
    rw [h.entityValues]
    exact .nil
  keyed p hp := by
    rw [h.entityValues] at hp
    cases hp

section

variable {c : Crypto} {g : ValueBridge} {mac mac' : Mac} {entity : EntitySchema} {value : Bytes}

/-- A state is kept under its leaf and its index, with the entity as it was then. -/
theorem Sound.publishState (h : g.Sound) (mac : Mac) (entity : EntitySchema) (value : Bytes) :
    (g.publishState mac entity value).Sound where
  assembles := h.assembles
  named := h.named
  keys := by
    refine .cons (fun p hp => ?_) (h.keys.filter _)
    have hother := (List.mem_filter.1 hp).2
    exact (bne_iff_ne.1 hother).symm
  keyed p hp := by
    rcases List.mem_cons.1 hp with rfl | hp
    · exact ⟨mac, rfl⟩
    · exact h.keyed p (List.mem_filter.1 hp).1

/-- The values of a leaf are those under its text. -/
theorem mem_statesOf {r : EntityValueCache} : r ∈ g.statesOf mac ↔
    r.currentValue ≠ [] ∧ ∃ key, (key, r) ∈ g.entityValues ∧ (Bridge.macHex mac).isPrefixOf key := by
  unfold statesOf
  simp only [List.mem_map, List.mem_filter, Bool.and_eq_true, Bool.not_eq_true', List.isEmpty_eq_false_iff]
  constructor
  · rintro ⟨⟨key, r⟩, ⟨hmem, hkey, hvalue⟩, rfl⟩
    exact ⟨hvalue, key, hmem, hkey⟩
  · rintro ⟨hvalue, key, hmem, hkey⟩
    exact ⟨(key, r), ⟨hmem, hkey, hvalue⟩, rfl⟩

/-- The values of one leaf belong to entities with different indices. -/
theorem Sound.index_ne (h : g.Sound) (mac : Mac) :
    (g.statesOf mac).Pairwise fun r r' => r.schema.entityIndex ≠ r'.schema.entityIndex := by
  have hkey {p : Bytes × EntityValueCache} (hp : p ∈ g.entityValues.filter fun p =>
      (Bridge.macHex mac).isPrefixOf p.1 && !p.2.currentValue.isEmpty) : p.1 = entityValueKey mac p.2.schema := by
    obtain ⟨hmem, hshown⟩ := List.mem_filter.1 hp
    obtain ⟨mac', hmac'⟩ := h.keyed p hmem
    have hprefix := (Bool.and_eq_true_iff.1 hshown).1
    rw [hmac', isPrefixOf_entityValueKey] at hprefix
    rw [hmac', hprefix]
  refine List.pairwise_map.2 ?_
  refine (h.keys.filter _).imp_of_mem fun hp hp' hne heq => hne ?_
  rw [hkey hp, hkey hp', entityValueKey, heq, entityValueKey]

/-- A state of another leaf is not among them. -/
theorem statesOf_publishState_other (hmac : mac' ≠ mac) :
    (g.publishState mac' entity value).statesOf mac = g.statesOf mac := by
  have hnew : (Bridge.macHex mac).isPrefixOf (entityValueKey mac' entity) = false :=
    Bool.eq_false_iff.2 fun hprefix => hmac (isPrefixOf_entityValueKey.1 hprefix)
  unfold statesOf ValueBridge.publishState Bridge.cacheSet
  rw [List.filter_cons_of_neg (by rw [hnew]; exact Bool.false_ne_true), List.filter_filter]
  refine congrArg (List.map Prod.snd) (List.filter_congr fun p _ => ?_)
  by_cases hkey : p.1 = entityValueKey mac' entity
  · rw [hkey, hnew]
    rfl
  · rw [bne_iff_ne.2 hkey, Bool.and_true]

/-- A state of the leaf is among them with its value, and takes the place of the one before. -/
theorem mem_statesOf_publishState {r : EntityValueCache} : r ∈ (g.publishState mac entity value).statesOf mac ↔
    value ≠ [] ∧ r = ⟨value, entity.entityType, entity⟩ ∨
      r.currentValue ≠ [] ∧ ∃ key, (key, r) ∈ g.entityValues ∧ (Bridge.macHex mac).isPrefixOf key ∧
        key ≠ entityValueKey mac entity := by
  rw [mem_statesOf]
  unfold ValueBridge.publishState Bridge.cacheSet
  simp only [List.mem_cons, List.mem_filter, Prod.mk.injEq]
  constructor
  · rintro ⟨hvalue, key, ⟨rfl, rfl⟩ | ⟨hmem, hne⟩, hkey⟩
    · exact .inl ⟨hvalue, rfl⟩
    · exact .inr ⟨hvalue, key, hmem, hkey, bne_iff_ne.1 hne⟩
  · rintro (⟨hvalue, rfl⟩ | ⟨hvalue, key, hmem, hkey, hne⟩)
    · exact ⟨hvalue, _, .inl ⟨rfl, rfl⟩, isPrefixOf_entityValueKey.2 rfl⟩
    · exact ⟨hvalue, key, .inr ⟨hmem, bne_iff_ne.2 hne⟩, hkey⟩

/-! ## Schemas and values -/

theorem mem_putEntity_self (entities : List EntitySchema) (entity : EntitySchema) :
    entity ∈ putEntity entities entity := by
  unfold putEntity
  refine List.mem_iff_getElem?.2 ⟨entity.entityIndex.toNat, ?_⟩
  rw [List.getElem?_set_self]
  rw [List.length_append, List.length_replicate]
  omega

/-- A descriptor takes the place of no other entity. -/
theorem mem_putEntity_of_ne {entities : List EntitySchema} {entity' : EntitySchema} (h : Indexed entities)
    (hmem : entity' ∈ entities) (htype : entity'.entityType ≠ 0) (hne : entity'.entityIndex ≠ entity.entityIndex) :
    entity' ∈ putEntity entities entity := by
  obtain ⟨i, hi⟩ := List.mem_iff_getElem?.1 hmem
  have hplace : entity.entityIndex.toNat ≠ i := fun heq =>
    hne (UInt8.toNat_inj.1 ((h i entity' hi htype).trans heq.symm))
  unfold putEntity
  refine List.mem_iff_getElem?.2 ⟨i, ?_⟩
  rw [List.getElem?_set_ne hplace, List.getElem?_append_left (List.getElem?_eq_some_iff.1 hi).1]
  exact hi

/-- What stands under the index of a descriptor afterwards is its entity. -/
theorem eq_of_mem_putEntity {entities : List EntitySchema} {entity' : EntitySchema} (h : Indexed entities)
    (hmem : entity' ∈ putEntity entities entity) (htype : entity'.entityType ≠ 0)
    (hindex : entity'.entityIndex = entity.entityIndex) : entity' = entity := by
  obtain ⟨i, hi⟩ := List.mem_iff_getElem?.1 hmem
  have hplace : entity.entityIndex.toNat = i := hindex ▸ h.putEntity entity i entity' hi htype
  rw [EspTree.putEntity, List.getElem?_set, if_pos hplace] at hi
  split at hi
  · cases hi
    rfl
  · cases hi

/-- A descriptor that takes the place of another covers the values if it agrees with the one under
its index. -/
theorem covers_putEntity {entities : List EntitySchema} {values : List EntityValueCache} (h : Indexed entities)
    (hcovers : Covers entities values) :
    Covers (putEntity entities entity) values ↔ Agrees values (.descriptor entity) := by
  constructor
  · intro hafter r hr hindex
    obtain ⟨entity', hmem, htype, hbelongs⟩ := hafter r hr
    cases eq_of_mem_putEntity h hmem htype (hbelongs.index.symm.trans hindex)
    exact ⟨htype, hbelongs⟩
  · intro hagrees r hr
    by_cases hindex : r.schema.entityIndex = entity.entityIndex
    · exact ⟨entity, mem_putEntity_self entities entity, hagrees r hr hindex⟩
    · obtain ⟨entity', hmem, htype, hbelongs⟩ := hcovers r hr
      have hkept := mem_putEntity_of_ne h hmem htype fun heq => hindex (hbelongs.index.trans heq)
      exact ⟨entity', hkept, htype, hbelongs⟩

/-- The values are covered by the entities of the session, if there is one. -/
def Covered (entities? : Option (List EntitySchema)) (values : List EntityValueCache) : Prop :=
  ∀ entities, entities? = some entities → Covers entities values

/-- Whether they still are after a change depends on the change. -/
theorem covered_apply {change : Bridge.SchemaChange} {entities? : Option (List EntitySchema)}
    {values : List EntityValueCache} (hcovered : Covered entities? values)
    (hindexed : ∀ entities, entities? = some entities → Indexed entities)
    (hsession : ∀ entity, change = .descriptor entity → entities? ≠ none) :
    Covered (change.apply entities?) values ↔ Agrees values change := by
  cases change with
  | keep => exact iff_of_true hcovered trivial
  | gone => exact iff_of_true nofun trivial
  | schema entities => exact ⟨fun h => h entities rfl, fun h _ heq => by cases heq; exact h⟩
  | descriptor entity =>
    cases entities? with
    | none => exact absurd rfl (hsession entity rfl)
    | some entities =>
      rw [← covers_putEntity (hindexed entities rfl) (hcovered entities rfl)]
      exact ⟨fun h => h _ rfl, fun h _ heq => by cases heq; exact h⟩

/-- The snapshot is consistent if and only if the values are covered. -/
theorem Sound.consistent_iff_covered (h : g.Sound) : g.Consistent ↔
    Covered (g.protocol.session?.map (·.schema.entities)) (g.statesOf g.protocol.leafMac) := by
  have hmem {x : Bridge.Session} {e : EntitySchema} :
      e ∈ (x.schema.entities.filter fun entity => entity.entityType != 0) ↔
        e ∈ x.schema.entities ∧ e.entityType ≠ 0 := by
    rw [List.mem_filter, bne_iff_ne]
  unfold Consistent Covered ValueBridge.snapshot
  cases hx : g.protocol.session? with
  | none => exact iff_of_true nofun nofun
  | some x =>
    rw [Option.map_some, Option.map_some, h.named x hx]
    constructor
    · rintro hconsistent _ ⟨rfl⟩ r hr
      obtain ⟨e, he, hbelongs⟩ := (hconsistent _ rfl).belongs r hr
      exact ⟨e, (hmem.1 he).1, (hmem.1 he).2, hbelongs⟩
    · rintro hcovers _ ⟨rfl⟩
      refine ⟨fun r hr => ?_, ?_⟩
      · obtain ⟨e, he, htype, hbelongs⟩ := hcovers _ rfl r hr
        exact ⟨e, hmem.2 ⟨he, htype⟩, hbelongs⟩
      · refine (h.index_ne g.protocol.leafMac).imp fun hne e _ hbelongs hbelongs' => hne ?_
        exact hbelongs.index.trans hbelongs'.index.symm

/-! ## Steps -/

/-- What is published in a call is the state that it brings. -/
theorem published_call (c : Crypto) (b : Bridge) (k : Bridge.Call) :
    published b (b.call c k) = b.stateBrought c k := by
  have hstates := Bridge.call_states c b k
  unfold published
  rw [hstates]
  cases b.stateBrought c k with
  | none => exact if_pos rfl
  | some p => exact if_neg (Nat.succ_ne_self _)

/-- A call that is no restart. -/
theorem step_call {k : Bridge.Call} (hk : k ≠ .restart) : step c g (.call k) =
    match g.protocol.stateBrought c k with
    | none => { g with protocol := g.protocol.call c k }
    | some p => ({ g with protocol := g.protocol.call c k } : ValueBridge).publishState g.protocol.leafMac
        p.1 p.2 := by
  have hstep : step c g (.call k) =
      match published g.protocol (g.protocol.call c k) with
      | none => { g with protocol := g.protocol.call c k }
      | some (entity, value) => ({ g with protocol := g.protocol.call c k } : ValueBridge).publishState
          (g.protocol.call c k).leafMac entity value := by
    cases k with
    | restart => exact absurd rfl hk
    | _ => rfl
  rw [hstep, published_call, Bridge.call_leafMac]
  cases g.protocol.stateBrought c k <;> rfl

/-- One event keeps the cache in order. -/
theorem Sound.step (h : g.Sound) {ev : Event} (hev : ev.Possible g.protocol.leafMac) : (step c g ev).Sound := by
  cases ev with
  | other mac entity value => exact h.publishState mac entity value
  | call k =>
    have hcall : (⟨g.protocol.call c k, g.entityValues⟩ : ValueBridge).Sound :=
      ⟨Bridge.call_assembles h.assembles hev, Bridge.call_named h.named k, h.keys, h.keyed⟩
    by_cases hk : k = .restart
    · subst hk
      exact ⟨hcall.assembles, hcall.named, .nil, nofun⟩
    · rw [step_call hk]
      split
      · exact hcall
      · exact hcall.publishState _ _ _

/-- A state of an entity of the schema is covered by that entity. -/
theorem covers_publishState {entities : List EntitySchema} {p : EntitySchema × Bytes} {index : UInt8}
    (hp : p.1 = entities.getD index.toNat {}) (hcovers : Covers entities (g.statesOf mac)) :
    Covers entities ((g.publishState mac p.1 p.2).statesOf mac) ↔ (p.2 ≠ [] → p.1.entityType ≠ 0) := by
  constructor
  · intro hafter hvalue
    obtain ⟨e, -, htype, hbelongs⟩ := hafter _ (mem_statesOf_publishState.2 (.inl ⟨hvalue, rfl⟩))
    rw [show p.1.entityType = e.entityType from hbelongs.type]
    exact htype
  · intro htype r hr
    rcases mem_statesOf_publishState.1 hr with ⟨hvalue, rfl⟩ | ⟨hvalue, key, hmem, hkey, -⟩
    · refine ⟨p.1, ?_, htype hvalue, rfl, rfl, rfl⟩
      by_cases hin : index.toNat < entities.length
      · rw [hp, List.getD_eq_getElem _ _ hin]
        exact List.getElem_mem hin
      · rw [List.getD_eq_default _ _ (not_lt.1 hin)] at hp
        exact absurd (congrArg EntitySchema.entityType hp) (htype hvalue)
    · exact hcovers r (mem_statesOf.2 ⟨hvalue, key, hmem, hkey⟩)

/-- What the condition says of a call of the protocol. -/
theorem settled_call {k : Bridge.Call} : Settled c g (.call k) ↔
    Agrees (g.statesOf g.protocol.leafMac) (g.protocol.schemaChange c k) ∧
      ∀ p, g.protocol.stateBrought c k = some p → p.2 ≠ [] → p.1.entityType ≠ 0 := Iff.rfl

/-- Whether the snapshot is consistent after a call. -/
theorem covered_call (h : g.Sound) {k : Bridge.Call} (hk : k ≠ .restart)
    (hcovered : Covered (g.protocol.session?.map (·.schema.entities)) (g.statesOf g.protocol.leafMac)) :
    Covered ((g.protocol.call c k).session?.map (·.schema.entities))
      ((step c g (.call k)).statesOf g.protocol.leafMac) ↔ Settled c g (.call k) := by
  rw [Bridge.call_entities, step_call hk, settled_call]
  cases hbrought : g.protocol.stateBrought c k with
  | none =>
    have hsession (entity : EntitySchema) (heq : g.protocol.schemaChange c k = .descriptor entity) :
        g.protocol.session?.map (·.schema.entities) ≠ none := by
      rcases Bridge.schemaChange_cases c g.protocol k with hk | hk | hk | ⟨f, hk⟩ | ⟨x, entity', hx, -⟩
      · cases hk.symm.trans heq
      · cases hk.symm.trans heq
      · cases hk.symm.trans heq
      · cases hk.symm.trans heq
      · rw [hx]
        nofun
    have hchange := covered_apply hcovered (fun entities hx => (h.assembles.session entities hx).indexed) hsession
    exact hchange.trans ⟨fun hagrees => ⟨hagrees, fun _ hnone => nomatch hnone⟩, And.left⟩
  | some p =>
    obtain ⟨hkeep, x, index, hx, hp⟩ := Bridge.stateBrought_some hbrought
    have hcovers : Covers x.schema.entities (g.statesOf g.protocol.leafMac) := hcovered _ (congrArg _ hx)
    have hstate := covers_publishState (g := { g with protocol := g.protocol.call c k }) hp hcovers
    rw [hkeep, hx]
    constructor
    · intro hafter
      refine ⟨trivial, ?_⟩
      rintro _ ⟨rfl⟩
      exact hstate.1 (hafter _ rfl)
    · rintro ⟨-, hsettled⟩ _ ⟨rfl⟩
      exact hstate.2 (hsettled p rfl)

/-- One step keeps the snapshot consistent if and only if the event is settled. -/
theorem consistent_step (h : g.Sound) {ev : Event} (hev : ev.Possible g.protocol.leafMac)
    (hconsistent : g.Consistent) : (step c g ev).Consistent ↔ Settled c g ev := by
  have hcovered := h.consistent_iff_covered.1 hconsistent
  rw [(h.step hev).consistent_iff_covered]
  cases ev with
  | other mac entity value =>
    refine iff_of_true ?_ trivial
    have hsame : (step c g (.other mac entity value)).statesOf g.protocol.leafMac =
        g.statesOf g.protocol.leafMac := statesOf_publishState_other hev
    exact fun entities hx => hsame ▸ hcovered entities hx
  | call k =>
    by_cases hk : k = .restart
    · subst hk
      exact iff_of_true nofun ⟨trivial, nofun⟩
    · have hprotocol : (step c g (.call k)).protocol = g.protocol.call c k := by
        rw [step_call hk]
        split <;> rfl
      rw [hprotocol, Bridge.call_leafMac]
      exact covered_call h hk hcovered

theorem step_leafMac (ev : Event) : (step c g ev).protocol.leafMac = g.protocol.leafMac := by
  cases ev with
  | other => rfl
  | call k =>
    by_cases hk : k = .restart
    · subst hk
      rfl
    · rw [step_call hk]
      split <;> exact Bridge.call_leafMac c g.protocol k

end

/-- The snapshot is consistent all along a run if and only if every event of it is settled.  The
values of a session are never cleared, so that a new schema finds those of the old one. -/
theorem consistent_iff (c : Crypto) {g : ValueBridge} (hg : g.Init) {evs : List Event}
    (hevs : ∀ ev ∈ evs, ev.Possible g.protocol.leafMac) :
    (∀ n, (Transition.runFrom (step c) g (evs.take n)).Consistent) ↔
      Transition.Admits (Settled c) (step c) g evs := by
  refine Transition.forall_take_iff_admits (I := fun t => t.Sound ∧ t.protocol.leafMac = g.protocol.leafMac)
    ?_ ?_ ⟨hg.sound, rfl⟩ ?_ hevs
  · rintro t ev ⟨ht, hmac⟩ hev
    exact ⟨ht.step (hmac ▸ hev), (step_leafMac ev).trans hmac⟩
  · rintro t ev ⟨ht, hmac⟩ hev hconsistent
    exact consistent_step ht (hmac ▸ hev) hconsistent
  · refine hg.sound.consistent_iff_covered.2 fun entities hx => ?_
    rw [hg.protocol.session] at hx
    cases hx

/-! ## Two runs -/

instance {r : EntityValueCache} {entity : EntitySchema} : Decidable (r.BelongsTo entity) :=
  decidable_of_iff (r.schema.entityIndex = entity.entityIndex ∧ objectId r.schema = objectId entity ∧
    r.currentType = entity.entityType) ⟨fun h => ⟨h.1, h.2.1, h.2.2⟩, fun h => ⟨h.index, h.objectId, h.type⟩⟩

instance {entities : List EntitySchema} {values : List EntityValueCache} : Decidable (Covers entities values) :=
  inferInstanceAs (Decidable (∀ r ∈ values, ∃ entity ∈ entities, entity.entityType ≠ 0 ∧ r.BelongsTo entity))

instance {values : List EntityValueCache} (change : Bridge.SchemaChange) : Decidable (Agrees values change) :=
  match change with
  | .keep | .gone => .isTrue trivial
  | .schema entities => inferInstanceAs (Decidable (Covers entities values))
  | .descriptor entity => inferInstanceAs (Decidable (∀ r ∈ values,
      r.schema.entityIndex = entity.entityIndex → entity.entityType ≠ 0 ∧ r.BelongsTo entity))

instance (c : Crypto) (g : ValueBridge) (ev : Event) : Decidable (Settled c g ev) :=
  match ev with
  | .other .. => .isTrue trivial
  | .call k => inferInstanceAs (Decidable (Agrees (g.statesOf g.protocol.leafMac) (g.protocol.schemaChange c k) ∧
      ∀ p ∈ g.protocol.stateBrought c k, p.2 ≠ [] → p.1.entityType ≠ 0))

/-- A sensor is described and sends a value. -/
def sensorEvents : List Event :=
  let sensor : EntitySchema := { entityType := 1, entityName := [0x54] }
  let descriptor : EntityPayload := ⟨0, 0, 0, 1, schemaPushPayload 1 sensor 0 []⟩
  let state : EntityPayload := ⟨0, 0, 0, 1, [21]⟩
  [.call (Bridge.receives 1000 (Bridge.joinFrom 1 0 1)),
    .call (Bridge.receives 1100 (Bridge.sealedFrom .schemaPush 1 2 descriptor.bytes)),
    .call (Bridge.receives 1200 (Bridge.sealedFrom .state 1 3 state.bytes))]

/-- The leaf joins with the hash of another schema. -/
def reflashed : Event :=
  .call (Bridge.receives 2000 (plain .sample Bridge.sample.leafMac .join (hopsMake 0 1) 1 none
    (Join.bytes ⟨Octets.fit 16 [2], Octets.fit 32 [1], 0, 0, 0⟩)).bytes)

theorem sensorEvents_possible (mac : Mac) : ∀ ev ∈ sensorEvents ++ [reflashed], ev.Possible mac := by
  simp [sensorEvents, reflashed, Event.Possible, Bridge.receives, Bridge.Call.Fair]

theorem sample_init : Init ⟨Bridge.sample, []⟩ := ⟨Bridge.sample_init, rfl, rfl⟩

/-- With the value in it, the snapshot is consistent. -/
theorem consistent_sensor :
    ((Transition.runFrom (step .sample) ⟨Bridge.sample, []⟩ sensorEvents).snapshot.map fun s =>
        (s.entities.length, s.states.length)) = some (1, 1) ∧
      ∀ n, (Transition.runFrom (step .sample) ⟨Bridge.sample, []⟩ (sensorEvents.take n)).Consistent :=
  ⟨by decide +kernel, (consistent_iff .sample sample_init fun ev hev =>
    sensorEvents_possible _ ev (List.mem_append_left _ hev)).2 (by decide +kernel)⟩

/-- When the leaf joins with another schema, its entities go and the value stays. -/
theorem not_consistent : ¬ ∀ (c : Crypto) (g : ValueBridge) (evs : List Event), g.Init →
    (∀ ev ∈ evs, ev.Possible g.protocol.leafMac) →
      ∀ n, (Transition.runFrom (step c) g (evs.take n)).Consistent := by
  intro h
  have hsnapshot : ((Transition.runFrom (step .sample) ⟨Bridge.sample, []⟩
      ((sensorEvents ++ [reflashed]).take 4)).snapshot.map fun s => (s.entities.length, s.states.length)) =
        some (0, 1) := by decide +kernel
  obtain ⟨s, hs, hlengths⟩ := Option.map_eq_some_iff.1 hsnapshot
  obtain ⟨hentities, hstates⟩ := Prod.mk.injEq .. ▸ hlengths
  obtain ⟨r, hr⟩ := List.exists_mem_of_length_eq_add_one hstates
  obtain ⟨entity, hentity, -⟩ := (h .sample _ _ sample_init (sensorEvents_possible _) 4 s hs).belongs r hr
  rw [List.eq_nil_of_length_eq_zero hentities] at hentity
  cases hentity

end ValueBridge

end EspTree
