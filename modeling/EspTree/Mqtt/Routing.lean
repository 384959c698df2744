import EspTree.Mqtt.Receipts

/-!
# The command routes of the MQTT export

A message on a command topic is sent on to the entity that `command_routes_` gives.  The routes of an entity are made
when it is announced, and taken away when it is cleared; no topic is subscribed to twice, so a message is handled once.

`Routed` is the invariant: a route is for an entity that the log says is announced and that has a
record which was announced, and the topics that were subscribed to are without repetitions.
`Shrinks` is what most moves do to it: routes go, marks are lost, and the log grows by entries that
announce and clear nothing.  The two moves that do more are the announcement, which makes the routes,
and the clear, which takes them away.
-/

namespace EspTree.Mqtt

open Wire Export

/-- What an entry says about an entity: it is announced, or no longer. -/
def Entry.announces? (mac : Mac) (entityIndex : UInt8) : Entry → Option Bool
  | .queuedDiscovery _ mac' entity => if mac' = mac ∧ entity.entityIndex = entityIndex then some true else none
  | .cleared _ mac' i => if mac' = mac ∧ i = entityIndex then some false else none
  | _ => none

def Entry.subscription? : Entry → Option Bytes
  | .subscribe topic => some topic
  | _ => none

/-- The entity was announced after it was last cleared. -/
def Announced (mac : Mac) (entityIndex : UInt8) (log : List Entry) : Prop :=
  log.findSome? (Entry.announces? mac entityIndex) = some true

/-- The topics that were subscribed to, the latest first. -/
def subscriptions (log : List Entry) : List Bytes := log.filterMap Entry.subscription?

/-- A command goes to an entity that is announced. -/
def CommandAnnounced (entry : Entry) (log : List Entry) : Prop :=
  ∀ mac entityIndex value, entry = .command mac entityIndex value → Announced mac entityIndex log

section

variable {name : Mac → Bytes} {mac : Mac} {entityIndex : UInt8} {l log : List Entry}

/-- Entries that announce nothing change nothing. -/
theorem announced_append (h : ∀ x ∈ l, x.announces? mac entityIndex = none) :
    Announced mac entityIndex (l ++ log) ↔ Announced mac entityIndex log := by
  rw [Announced, List.findSome?_append, List.findSome?_eq_none_iff.mpr h]
  rfl

/-- An entity stays announced until a clear. -/
theorem Announced.cons {x : Entry} (h : Announced mac entityIndex log) (hx : x.announces? mac entityIndex ≠ some false) :
    Announced mac entityIndex (x :: log) := by
  rw [Announced, List.findSome?_cons]
  cases hsays : x.announces? mac entityIndex with
  | none => exact h
  | some b =>
    cases b with
    | true => rfl
    | false => exact absurd hsays hx

end

/-- The invariant. -/
structure Routed (name : Mac → Bytes) (e : Export) : Prop where
  keys : ∀ (key : Bytes) (d : DeviceRecord), e.devices[key]? = some d → key ≠ []
  device : ∀ (mac : Mac) (d : DeviceRecord) (i : UInt8) (x : EntitySchema), e.devices[name mac]? = some d →
    d.entities[i]? = some x → x.entityIndex = i ∧ Announced mac i e.log
  record : ∀ (key : Bytes) (r : EntityRecord), e.entities[key]? = some r → r.nodeId ≠ [] →
    Announced r.leafMac r.schema.entityIndex e.log
  route : ∀ (topic : Bytes) (route : CommandRoute), e.commandRoutes[topic]? = some route →
    Announced route.leafMac route.entityIndex e.log ∧ topic ∈ e.subscribedTopics ∧
      ∃ objectId, topic = routeTopic (name route.leafMac) objectId route.routeKind
  topics : subscriptions e.log = e.subscribedTopics
  nodup : e.subscribedTopics.Nodup
  commands : Always CommandAnnounced e.log

section

variable {name : Mac → Bytes} {e e' : Export}

/-- An entity whose record has been announced is announced in the log. -/
theorem Routed.announced {w : Remotes} (hname : w.nodeKey = name) (h : Routed name e) {mac : Mac}
    {entityIndex : UInt8} (hhas : e.Has w mac entityIndex) : Announced mac entityIndex e.log := by
  subst hname
  rcases hhas with ⟨key, r, hr, hd, rfl, rfl⟩ | ⟨d, i, x, hd, hx, rfl⟩
  · obtain ⟨d, hd⟩ := Option.isSome_iff_exists.mp hd
    exact h.record key r hr (h.keys _ d hd)
  · obtain ⟨heq, hannounced⟩ := h.device mac d i x hd hx
    rw [heq]
    exact hannounced

/-- Entries that announce nothing, subscribe to nothing and command nothing. -/
def Entry.IsSilent (x : Entry) : Prop :=
  (∀ mac entityIndex, x.announces? mac entityIndex = none) ∧ x.subscription? = none ∧ ∀ log, CommandAnnounced x log

theorem isSilent_publish (topic : Bytes) (payload : Payload) (retain taken : Bool) :
    (Entry.publish topic payload retain taken).IsSilent :=
  ⟨fun _ _ => rfl, rfl, fun _ _ _ _ heq => by cases heq⟩

theorem isSilent_discoveryConfirmed (mac : Mac) (entityIndex : UInt8) :
    (Entry.discoveryConfirmed mac entityIndex).IsSilent :=
  ⟨fun _ _ => rfl, rfl, fun _ _ _ _ heq => by cases heq⟩

theorem isSilent_delivered (key : Bytes) (receipt : Receipt) : (Entry.delivered key receipt).IsSilent :=
  ⟨fun _ _ => rfl, rfl, fun _ _ _ _ heq => by cases heq⟩

theorem isSilent_queuedState (key : Bytes) (entity : EntitySchema) (type : UInt8) (value text : Bytes)
    (receipt? : Option Receipt) : (Entry.queuedState key entity type value text receipt?).IsSilent :=
  ⟨fun _ _ => rfl, rfl, fun _ _ _ _ heq => by cases heq⟩

/-- What a change keeps, when nothing is announced or cleared in it: every entity, device and route was there. -/
structure Shrinks (e e' : Export) : Prop where
  log : ∃ l : List Entry, e'.log = l ++ e.log ∧ ∀ x ∈ l, x.IsSilent
  device : ∀ (key : Bytes) (d' : DeviceRecord), e'.devices[key]? = some d' →
    ∃ d : DeviceRecord, e.devices[key]? = some d ∧ d'.entities = d.entities
  record : ∀ (key : Bytes) (r' : EntityRecord), e'.entities[key]? = some r' → r'.nodeId ≠ [] →
    ∃ r : EntityRecord, e.entities[key]? = some r ∧ r'.nodeId = r.nodeId ∧ r'.leafMac = r.leafMac ∧
      r'.schema.entityIndex = r.schema.entityIndex
  route : ∀ (topic : Bytes) (route : CommandRoute), e'.commandRoutes[topic]? = some route →
    e.commandRoutes[topic]? = some route
  topics : e'.subscribedTopics = e.subscribedTopics

/-- Routes that go, and records that lose their marks, leave the rest in order. -/
theorem Routed.shrink (h : Routed name e) (hs : Shrinks e e') : Routed name e' := by
  obtain ⟨l, hlog, hl⟩ := hs.log
  have hannounced (mac : Mac) (entityIndex : UInt8) :
      Announced mac entityIndex e'.log ↔ Announced mac entityIndex e.log := by
    rw [hlog]
    exact announced_append fun x hx => (hl x hx).1 mac entityIndex
  refine ⟨fun key d' hd' => ?_, fun mac d' i x hd' hx => ?_, fun key r' hr' hnode => ?_, fun topic route hroute => ?_,
    ?_, ?_, ?_⟩
  · obtain ⟨d, hd, -⟩ := hs.device key d' hd'
    exact h.keys key d hd
  · obtain ⟨d, hd, heq⟩ := hs.device _ d' hd'
    rw [hannounced]
    exact h.device mac d i x hd (heq ▸ hx)
  · obtain ⟨r, hr, hnode', hmac, hindex⟩ := hs.record key r' hr' hnode
    rw [hannounced, hmac, hindex]
    exact h.record key r hr (hnode' ▸ hnode)
  · rw [hannounced, hs.topics]
    exact h.route topic route (hs.route topic route hroute)
  · rw [hlog, subscriptions, filterMap_append_of_none fun x hx => (hl x hx).2.1, hs.topics]
    exact h.topics
  · rw [hs.topics]
    exact h.nodup
  · rw [hlog]
    exact h.commands.append fun x hx => (hl x hx).2.2

/-! ## Moves -/

/-- A route that is left was there before. -/
theorem eraseAll_eq_some {routes : StringMap CommandRoute} {topics : List Bytes} {topic : Bytes} {route : CommandRoute}
    (h : (topics.foldl (fun routes topic => routes.erase topic) routes)[topic]? = some route) :
    routes[topic]? = some route := by
  induction topics generalizing routes with
  | nil => exact h
  | cons t topics ih => exact (StringMap.erase_eq_some_iff.mp (ih h)).2

theorem Shrinks.of_record {key : Bytes} {r r' : EntityRecord} (hr : e.entities[key]? = some r)
    (hentities : e'.entities = e.entities.insert key r') (hnode : r'.nodeId = r.nodeId) (hmac : r'.leafMac = r.leafMac)
    (hschema : r'.schema = r.schema) (hlog : ∃ l : List Entry, e'.log = l ++ e.log ∧ ∀ x ∈ l, x.IsSilent)
    (hdevices : e'.devices = e.devices) (hroutes : e'.commandRoutes = e.commandRoutes)
    (htopics : e'.subscribedTopics = e.subscribedTopics) : Shrinks e e' := by
  refine ⟨hlog, fun key' d' hd' => ?_, fun key' r'' hr'' _ => ?_, fun topic route hroute => ?_, htopics⟩
  · rw [hdevices] at hd'
    exact ⟨d', hd', rfl⟩
  · rw [hentities, StringMap.insert_eq_some_iff] at hr''
    rcases hr'' with ⟨rfl, rfl⟩ | ⟨-, hr''⟩
    · exact ⟨r, hr, hnode, hmac, congrArg EntitySchema.entityIndex hschema⟩
    · exact ⟨r'', hr'', rfl, rfl, rfl⟩
  · rw [hroutes] at hroute
    exact hroute

theorem Shrinks.of_same (hentities : e'.entities = e.entities)
    (hdevices : e'.devices = e.devices) (htopics : e'.subscribedTopics = e.subscribedTopics)
    (hlog : ∃ l : List Entry, e'.log = l ++ e.log ∧ ∀ x ∈ l, x.IsSilent)
    (hroutes : ∀ (topic : Bytes) (route : CommandRoute), e'.commandRoutes[topic]? = some route →
      e.commandRoutes[topic]? = some route) : Shrinks e e' := by
  refine ⟨hlog, fun key d' hd' => ?_, fun key r' hr' _ => ?_, hroutes, htopics⟩
  · rw [hdevices] at hd'
    exact ⟨d', hd', rfl⟩
  · rw [hentities] at hr'
    exact ⟨r', hr', rfl, rfl, rfl⟩

theorem silent_of_eq (h : e'.log = e.log) : ∃ l : List Entry, e'.log = l ++ e.log ∧ ∀ x ∈ l, x.IsSilent :=
  ⟨[], h, fun _ hx => absurd hx List.not_mem_nil⟩

theorem silent_of_cons {x : Entry} (h : e'.log = x :: e.log) (hx : x.IsSilent) :
    ∃ l : List Entry, e'.log = l ++ e.log ∧ ∀ x ∈ l, x.IsSilent :=
  ⟨[x], h, fun _ hy => (List.mem_singleton.mp hy).symm ▸ hx⟩

/-- A route that is made leads to an entity that the maps have. -/
theorem Routed.subscribeRoute {w : Remotes} (hname : w.nodeKey = name) (h : Routed name e) {mac : Mac}
    {entityIndex : UInt8} (hhas : e.Has w mac entityIndex) (objectId : Bytes) (kind : CommandRouteKind) :
    Routed name (e.subscribeRoute mac entityIndex (routeTopic (w.nodeKey mac) objectId kind) kind) := by
  subst hname
  have hannounced := h.announced rfl hhas
  set topic := routeTopic (w.nodeKey mac) objectId kind with htopic
  have hroute (topics : List Bytes) (hsub : ∀ t ∈ e.subscribedTopics, t ∈ topics) (hmem : topic ∈ topics)
      (topic' : Bytes) (route : CommandRoute)
      (hroute : (e.commandRoutes.insert topic ⟨mac, entityIndex, kind⟩)[topic']? = some route) :
      Announced route.leafMac route.entityIndex e.log ∧ topic' ∈ topics ∧
        ∃ objectId, topic' = routeTopic (w.nodeKey route.leafMac) objectId route.routeKind := by
    rcases StringMap.insert_eq_some_iff.mp hroute with ⟨rfl, rfl⟩ | ⟨-, hroute⟩
    · exact ⟨hannounced, hmem, objectId, htopic⟩
    · obtain ⟨hroute, hin, hform⟩ := h.route topic' route hroute
      exact ⟨hroute, hsub topic' hin, hform⟩
  rw [Export.subscribeRoute]
  by_cases hin : topic ∈ e.subscribedTopics
  · rw [if_pos hin]
    exact ⟨h.keys, h.device, h.record, hroute e.subscribedTopics (fun _ ht => ht) hin, h.topics, h.nodup, h.commands⟩
  · rw [if_neg hin]
    have hcons (mac : Mac) (entityIndex : UInt8) (hold : Announced mac entityIndex e.log) :
        Announced mac entityIndex (.subscribe topic :: e.log) := hold.cons fun hsays => by cases hsays
    refine ⟨h.keys, fun mac d i x hd hx => ?_, fun key r hr hnode => ?_, fun topic' route hr => ?_, ?_, ?_, ?_⟩
    · obtain ⟨hindex, hold⟩ := h.device mac d i x hd hx
      exact ⟨hindex, hcons _ _ hold⟩
    · exact hcons _ _ (h.record key r hr hnode)
    · obtain ⟨hold, hmem, hform⟩ := hroute (topic :: e.subscribedTopics) (fun _ ht => List.mem_cons_of_mem _ ht)
        (List.mem_cons_self ..) topic' route hr
      exact ⟨hcons _ _ hold, hmem, hform⟩
    · exact congrArg (topic :: ·) h.topics
    · exact List.nodup_cons.mpr ⟨hin, h.nodup⟩
    · refine ⟨h.commands, fun mac entityIndex value heq => ?_⟩
      cases heq

/-- Every move keeps the routes: one is made only where the entity is announced, and taken away
where it is cleared. -/
theorem Routed.move {w : Remotes} (hname : w.nodeKey = name) (h : Routed name e) (hmove : Move w e e') :
    Routed name e' := by
  cases hmove with
  | quiet hquiet =>
    obtain ⟨l, hlog, hl⟩ := hquiet.log
    refine h.shrink (.of_same hquiet.entities hquiet.devices hquiet.topics ⟨l, hlog, fun x hx => ?_⟩
      fun topic route hroute => hquiet.routes ▸ hroute)
    obtain ⟨topic, payload, retain, taken, rfl⟩ := hl x hx
    exact isSilent_publish topic payload retain taken
  | announced hr =>
    exact h.shrink (.of_record hr rfl rfl rfl rfl (silent_of_cons rfl (isSilent_discoveryConfirmed _ _)) rfl rfl rfl)
  | waited hr => exact h.shrink (.of_record hr rfl rfl rfl rfl (silent_of_eq rfl) rfl rfl rfl)
  | @shown key r hr hlog =>
    cases hpending : r.pendingStateAck with
    | none =>
      refine h.shrink (.of_record hr (shown_entities key r) rfl rfl rfl (silent_of_eq ?_) ?_ ?_ ?_) <;>
        rw [Export.shown, hpending]
    | some p =>
      refine h.shrink (.of_record hr (shown_entities key r) rfl rfl rfl
        (silent_of_cons (x := .delivered key ⟨r.leafMac, p.1, p.2⟩) ?_ (isSilent_delivered _ _)) ?_ ?_ ?_) <;>
        rw [Export.shown, hpending] <;> rfl
  | routed hhas objectId kind => exact h.subscribeRoute hname hhas objectId kind
  | unrouted mac entityIndex =>
    exact h.shrink (.of_same rfl rfl rfl (silent_of_eq rfl) fun topic route hroute =>
      (StringMap.filter_eq_some_iff.mp hroute).1)
  | erased topics =>
    exact h.shrink (.of_same rfl rfl rfl (silent_of_eq rfl) fun topic route hroute =>
      eraseAll_eq_some hroute)
  | deviceShown hd =>
    refine h.shrink ⟨silent_of_eq rfl, fun key' d' hd' => ?_, fun key r hr _ => ⟨r, hr, rfl, rfl, rfl⟩,
      fun topic route hroute => hroute, rfl⟩
    rcases StringMap.insert_eq_some_iff.mp hd' with ⟨rfl, rfl⟩ | ⟨-, hd'⟩
    · exact ⟨_, hd, rfl⟩
    · exact ⟨d', hd', rfl⟩
  | marked =>
    refine h.shrink ⟨silent_of_eq rfl, fun key d' hd' => ?_, fun key r' hr' _ => ?_,
      fun topic route hroute => hroute, rfl⟩
    · obtain ⟨d, hd, rfl⟩ := StringMap.map_eq_some_iff.mp hd'
      exact ⟨d, hd, rfl⟩
    · obtain ⟨r, hr, rfl⟩ := StringMap.map_eq_some_iff.mp hr'
      exact ⟨r, hr, rfl, rfl, rfl⟩

theorem Routed.moves {w : Remotes} (hname : w.nodeKey = name) (h : Routed name e) (hmoves : Moves w e e') :
    Routed name e' := by
  induction hmoves with
  | refl => exact h
  | tail _ hmove ih => exact ih.move hname hmove

/-! ## The calls -/

theorem nodeKey_ne_nil (w : Remotes) (mac : Mac) : w.nodeKey mac ≠ [] := by
  have hmac : Bridge.macHex mac ≠ [] := by
    rw [← List.length_pos_iff, ValueBridge.length_macHex]
    exact Nat.succ_pos _
  simp only [Remotes.nodeKey]
  split
  next x _ =>
    split_ifs with hname
    · exact hmac
    · rw [sanitizeObjectId, ne_eq, List.map_eq_nil_iff]
      exact fun heq => hname (heq ▸ rfl)
  · exact hmac

theorem announces_queuedDiscovery (key : Bytes) (mac mac' : Mac) (entity : EntitySchema) (i : UInt8) :
    (Entry.queuedDiscovery key mac entity).announces? mac' i ≠ some false := by
  rw [Entry.announces?]
  split_ifs
  · exact fun h => by cases h
  · exact fun h => by cases h

/-- A queued announcement makes a record, but no route. -/
theorem Routed.queueDiscovery {w : Remotes} (hinj : Function.Injective name) (hname : w.nodeKey = name)
    (h : Routed name e) (mac : Mac) (entity : EntitySchema) (displayName : Bytes) :
    Routed name (e.queueDiscovery w mac entity displayName) := by
  subst hname
  have hcons (mac' : Mac) (i : UInt8) (hold : Announced mac' i e.log) :
      Announced mac' i (.queuedDiscovery (w.entityRecordKey mac entity.entityIndex) mac entity :: e.log) :=
    hold.cons (announces_queuedDiscovery _ _ _ _ _)
  have hnew : Announced mac entity.entityIndex
      (.queuedDiscovery (w.entityRecordKey mac entity.entityIndex) mac entity :: e.log) := by
    rw [Announced, List.findSome?_cons, Entry.announces?, if_pos ⟨rfl, rfl⟩]
  refine ⟨fun key d hd => ?_, fun mac' d i x hd hx => ?_, fun key r hr hnode => ?_, fun topic route hroute => ?_,
    h.topics, h.nodup, h.commands, fun mac' i value heq => ?_⟩
  · rcases StringMap.insert_eq_some_iff.mp hd with ⟨rfl, -⟩ | ⟨-, hd⟩
    · exact nodeKey_ne_nil w mac
    · exact h.keys key d hd
  · rcases StringMap.insert_eq_some_iff.mp hd with ⟨heq, rfl⟩ | ⟨-, hd⟩
    · obtain rfl := hinj heq
      -- the entities of the device, with the new one
      have hold : x.entityIndex = i ∧ Announced mac i e.log ∨ entity.entityIndex = i ∧ x = entity := by
        rw [Std.TreeMap.getElem?_insert] at hx
        split_ifs at hx with hi
        · exact .inr ⟨Std.LawfulEqCmp.compare_eq_iff_eq.mp hi, (Option.some.inj hx).symm⟩
        · cases hd : e.devices[w.nodeKey mac]? with
          | none =>
            rw [hd] at hx
            exact absurd hx (by simp)
          | some d =>
            rw [hd] at hx
            exact .inl (h.device mac d i x hd hx)
      rcases hold with ⟨hindex, hold⟩ | ⟨rfl, rfl⟩
      · exact ⟨hindex, hcons _ _ hold⟩
      · exact ⟨rfl, hnew⟩
    · obtain ⟨hindex, hold⟩ := h.device mac' d i x hd hx
      exact ⟨hindex, hcons _ _ hold⟩
  · rcases StringMap.insert_eq_some_iff.mp hr with ⟨-, rfl⟩ | ⟨-, hr⟩
    · exact hnew
    · exact hcons _ _ (h.record key r hr hnode)
  · obtain ⟨hold, hmem, hform⟩ := h.route topic route hroute
    exact ⟨hcons _ _ hold, hmem, hform⟩
  · cases heq

/-- Neither does a state. -/
theorem Routed.queueState {w : Remotes} (hinj : Function.Injective name) (hname : w.nodeKey = name) (hk : Keyed name e)
    (h : Routed name e) (mac : Mac) (entity : EntitySchema) (value : Bytes) (type : UInt8) (textValue : Bytes)
    (base : UInt32) (nextHopMac : Option Mac) (displayName : Bytes) :
    Routed name (e.queueState w mac entity value type textValue base nextHopMac displayName) := by
  subst hname
  refine h.shrink ⟨silent_of_cons rfl (isSilent_queuedState _ _ _ _ _ _), fun key d' hd' => ?_,
    fun key r' hr' hnode => ?_, fun topic route hroute => hroute, rfl⟩
  · obtain ⟨d, hd, rfl⟩ := StringMap.modify_eq_some_iff.mp hd'
    refine ⟨d, hd, ?_⟩
    split_ifs <;> rfl
  · rcases StringMap.insert_eq_some_iff.mp hr' with ⟨rfl, rfl⟩ | ⟨-, hr'⟩
    · cases hr : e.entities[w.entityRecordKey mac entity.entityIndex]? with
      | none =>
        rw [hr] at hnode
        exact absurd rfl hnode
      | some r =>
        refine ⟨r, rfl, rfl, (hk.mac_eq hinj hr).symm, ?_⟩
        have hindex : r.schema.entityIndex = entity.entityIndex :=
          (UInt8.toNat_inj.mp (numbered_inj (hk _ r hr)).2).symm
        show (if r.schema.entityType = 0 then entity else r.schema).entityIndex = r.schema.entityIndex
        split_ifs
        · exact hindex.symm
        · rfl
    · exact ⟨r', hr', rfl, rfl, rfl⟩

/-- What is left of the devices when entities have been cleared. -/
theorem queueClearEntities_devices {w : Remotes} (e : Export) (mac : Mac) (oldEntities : List EntitySchema)
    (key : Bytes) (d' : DeviceRecord) (hd' : (e.queueClearEntities w mac oldEntities).devices[key]? = some d') :
    ∃ d : DeviceRecord, e.devices[key]? = some d ∧ ∀ (i : UInt8) (x : EntitySchema), d'.entities[i]? = some x →
      d.entities[i]? = some x ∧ (w.nodeKey mac = key → ∀ entity ∈ oldEntities, entity.entityIndex ≠ i) := by
  have hdevices := (cleared_fold (w := w) mac oldEntities oldEntities e).devices
  have herase (l : List EntitySchema) (m : Std.TreeMap UInt8 EntitySchema) (i : UInt8) (x : EntitySchema)
      (hx : (l.foldl (fun m entity => m.erase entity.entityIndex) m)[i]? = some x) :
      m[i]? = some x ∧ ∀ entity ∈ l, entity.entityIndex ≠ i := by
    induction l generalizing m with
    | nil => exact ⟨hx, fun _ hmem => absurd hmem List.not_mem_nil⟩
    | cons entity l ih =>
      obtain ⟨hold, hne⟩ := ih _ hx
      rw [Std.TreeMap.getElem?_erase] at hold
      split_ifs at hold with hi
      refine ⟨hold, fun entity' hmem => ?_⟩
      rcases List.mem_cons.mp hmem with rfl | hmem
      · exact fun heq => hi (Std.LawfulEqCmp.compare_eq_iff_eq.mpr heq)
      · exact hne entity' hmem
  simp only [queueClearEntities, hdevices] at hd'
  split at hd'
  next hnone =>
    rw [hdevices] at hd'
    refine ⟨d', hd', fun i x hx => ⟨hx, fun heq => ?_⟩⟩
    rw [heq, hd'] at hnone
    cases hnone
  next d hd =>
    split_ifs at hd'
    · obtain ⟨hne, hd'⟩ := StringMap.erase_eq_some_iff.mp hd'
      exact ⟨d', hd', fun i x hx => ⟨hx, fun heq => absurd heq hne⟩⟩
    · rcases StringMap.insert_eq_some_iff.mp hd' with ⟨rfl, rfl⟩ | ⟨hne, hd'⟩
      · exact ⟨d, hd, fun i x hx => ⟨(herase oldEntities d.entities i x hx).1,
          fun _ => (herase oldEntities d.entities i x hx).2⟩⟩
      · exact ⟨d', hd', fun i x hx => ⟨hx, fun heq => absurd heq hne⟩⟩

/-- What is cleared has no record, no place in a device and no route any more. -/
theorem Routed.queueClearEntities {w : Remotes} (hinj : Function.Injective name) (hname : w.nodeKey = name)
    (hk : Keyed name e) (h : Routed name e) (mac : Mac) (oldEntities : List EntitySchema) :
    Routed name (e.queueClearEntities w mac oldEntities) := by
  subst hname
  have hcleared := cleared_fold (w := w) mac oldEntities oldEntities e
  obtain ⟨entries, hlog, hentries⟩ := hcleared.log
  have hold (mac' : Mac) (i : UInt8) (hother : ¬(mac' = mac ∧ ∃ entity ∈ oldEntities, entity.entityIndex = i))
      (hannounced : Announced mac' i e.log) : Announced mac' i (entries ++ e.log) := by
    refine (announced_append fun x hx => ?_).mpr hannounced
    obtain ⟨entity, hmem, rfl⟩ := hentries x hx
    exact if_neg fun heq => hother ⟨heq.1.symm, entity, hmem, heq.2⟩
  have hshape := queueClearEntities_devices (w := w) e mac oldEntities
  obtain ⟨devices, deviceClears, heq⟩ := queueClearEntities_eq (w := w) e mac oldEntities
  rw [heq] at hshape ⊢
  generalize oldEntities.foldl (fun e entity => e.clearEntity w mac oldEntities entity) e = e' at *
  refine ⟨fun key d' hd' => ?_, fun mac' d' i x hd' hx => ?_, fun key r hr hnode => ?_, fun topic route hroute => ?_,
    ?_, ?_, ?_⟩
  · obtain ⟨d, hd, -⟩ := hshape key d' hd'
    exact h.keys key d hd
  · obtain ⟨d, hd, hsub⟩ := hshape _ d' hd'
    obtain ⟨hx, hne⟩ := hsub i x hx
    obtain ⟨hindex, hannounced⟩ := h.device mac' d i x hd hx
    refine ⟨hindex, ?_⟩
    show Announced mac' i e'.log
    rw [hlog]
    refine hold mac' i ?_ hannounced
    rintro ⟨rfl, entity, hmem, hi⟩
    exact hne rfl entity hmem hi
  · obtain ⟨hr, hne⟩ := hcleared.record key r hr
    show Announced r.leafMac r.schema.entityIndex e'.log
    rw [hlog]
    refine hold _ _ ?_ (h.record key r hr hnode)
    rintro ⟨rfl, entity, hmem, hi⟩
    refine hne entity hmem ?_
    rw [Remotes.entityRecordKey, hi]
    exact (hk key r hr).symm
  · obtain ⟨hroute, hne⟩ := hcleared.route topic route hroute
    obtain ⟨hannounced, hmem, hform⟩ := h.route topic route hroute
    refine ⟨?_, ?_, hform⟩
    · show Announced route.leafMac route.entityIndex e'.log
      rw [hlog]
      refine hold _ _ ?_ hannounced
      rintro ⟨hmac, entity, hentity, hi⟩
      exact hne entity hentity ⟨hmac, hi.symm⟩
    · show topic ∈ e'.subscribedTopics
      rw [hcleared.topics]
      exact hmem
  · show subscriptions e'.log = e'.subscribedTopics
    rw [hlog, hcleared.topics, subscriptions, filterMap_append_of_none fun x hx => ?_]
    · exact h.topics
    · obtain ⟨entity, -, rfl⟩ := hentries x hx
      rfl
  · show e'.subscribedTopics.Nodup
    rw [hcleared.topics]
    exact h.nodup
  · show Always CommandAnnounced e'.log
    rw [hlog]
    refine h.commands.append fun x hx log mac' i value heq => ?_
    obtain ⟨entity, -, rfl⟩ := hentries x hx
    cases heq

theorem Routed.onSchemaComplete {w : Remotes} (h : Routed name e) (mac : Mac) :
    Routed name (e.onSchemaComplete w mac) := by
  refine h.shrink ⟨silent_of_eq rfl, fun key d' hd' => ?_, fun key r hr _ => ⟨r, hr, rfl, rfl, rfl⟩,
    fun topic route hroute => hroute, rfl⟩
  obtain ⟨d, hd, rfl⟩ := StringMap.modify_eq_some_iff.mp hd'
  refine ⟨d, hd, ?_⟩
  split_ifs <;> rfl

/-- Nor a command. -/
theorem Routed.handleCommandMessage {lib : Libraries} {w : Remotes} (h : Routed name e) (topic payload : Bytes) :
    Routed name (e.handleCommandMessage w lib topic payload) := by
  rcases handleCommandMessage_log (w := w) lib e topic payload with heq | ⟨route, value, hroute, heq⟩
  · rw [heq]
    exact h
  · have hcons {mac : Mac} {i : UInt8} (hold : Announced mac i e.log) :
        Announced mac i (.command route.leafMac route.entityIndex value :: e.log) :=
      hold.cons fun hsays => by cases hsays
    rw [heq]
    refine ⟨h.keys, fun mac d i x hd hx => ?_, fun key r hr hnode => ?_, fun topic' route' hroute' => ?_,
      h.topics, h.nodup, h.commands, fun mac i value heq => ?_⟩
    · obtain ⟨hindex, hold⟩ := h.device mac d i x hd hx
      exact ⟨hindex, hcons hold⟩
    · exact hcons (h.record key r hr hnode)
    · obtain ⟨hold, hmem, hform⟩ := h.route topic' route' hroute'
      exact ⟨hcons hold, hmem, hform⟩
    · cases heq
      exact (h.route topic route hroute).1

/-- Every event keeps the routes. -/
theorem Routed.step {lib : Libraries} (hinj : Function.Injective name) (hk : Keyed name e) (h : Routed name e)
    {event : Event} (hnamed : Named name event) : Routed name (e.step lib event) := by
  cases event with
  | queueDiscovery w mac entity displayName => exact h.queueDiscovery hinj (hnamed w rfl) mac entity displayName
  | queueState w mac entity value type textValue base nextHopMac displayName =>
    exact h.queueState hinj (hnamed w rfl) hk mac entity value type textValue base nextHopMac displayName
  | queueAvailability mac online =>
    cases online with
    | false => exact h.shrink (.of_same rfl rfl rfl (silent_of_eq rfl) fun _ _ hroute => hroute)
    | true => exact h.shrink (.of_same rfl rfl rfl (silent_of_eq rfl) fun _ _ hroute => hroute)
  | queueClearEntities w mac oldEntities => exact h.queueClearEntities hinj (hnamed w rfl) hk mac oldEntities
  | onSchemaComplete w mac => exact h.onSchemaComplete mac
  | queueRemoteDiagRefresh mac => exact h.shrink (.of_same rfl rfl rfl (silent_of_eq rfl) fun _ _ hroute => hroute)
  | handleCommandMessage w topic payload => exact h.handleCommandMessage topic payload
  | tick c => exact h.moves (hnamed _ rfl) (moves_tick e)

theorem Export.Init.routed (h : e.Init) : Routed name e := by
  have hdevice (key : Bytes) : e.devices[key]? = none := by
    rw [h.devices]
    exact StringMap.getElem?_empty
  refine ⟨fun key d hd => ?_, fun mac d i x hd => ?_, fun key r hr => ?_, fun topic route hroute => ?_, ?_, ?_, ?_⟩
  · rw [hdevice] at hd
    cases hd
  · rw [hdevice] at hd
    cases hd
  · rw [h.entities, StringMap.getElem?_empty] at hr
    cases hr
  · rw [h.routes, StringMap.getElem?_empty] at hroute
    cases hroute
  · rw [h.log, h.topics]
    rfl
  · rw [h.topics]
    exact List.nodup_nil
  · rw [h.log]
    exact trivial

/-- The invariant holds in every state of a run. -/
theorem Export.Reachable.routed {lib : Libraries} (hinj : Function.Injective name) (h : Reachable lib name e) :
    Routed name e := by
  induction h with
  | start hinit => exact hinit.routed
  | next hs hnamed ih => exact ih.step hinj (Reachable.owed hinj hs).1 hnamed

end

/-- In every run, a command only goes to an entity that was announced since it was last cleared, each topic is
subscribed to once, and a route stands under a command topic of the remote that it leads to. -/
theorem commands_announced {lib : Libraries} {name : Mac → Bytes} {e : Export} (hinj : Function.Injective name)
    (h : Reachable lib name e) :
    (∀ later earlier mac entityIndex value, e.log = later ++ .command mac entityIndex value :: earlier →
      Announced mac entityIndex earlier) ∧
    (subscriptions e.log).Nodup ∧
    ∀ topic route, e.commandRoutes[topic]? = some route →
      Announced route.leafMac route.entityIndex e.log ∧ topic ∈ subscriptions e.log ∧
        ∃ objectId, topic = routeTopic (name route.leafMac) objectId route.routeKind := by
  have hrouted := Reachable.routed hinj h
  refine ⟨fun later earlier mac entityIndex value heq => ?_, ?_, ?_⟩
  · have hcommands := hrouted.commands
    rw [heq] at hcommands
    exact Always.at hcommands mac entityIndex value rfl
  · rw [hrouted.topics]
    exact hrouted.nodup
  · rw [hrouted.topics]
    exact hrouted.route

/-- The lamp is announced, its state is published, and it is switched on. -/
def lampSwitched : Export :=
  Transition.runFrom (step .sample) { bridgeMac := Octets.zero 6 }
    (lampEvents ++ [.tick (takesAll 1250),
      .handleCommandMessage lampRemotes (commandTopic (Bridge.macHex (Octets.zero 6)) (ascii "lamp")) (ascii "ON")])

theorem lampSwitched_reachable : Reachable .sample Bridge.macHex lampSwitched := by
  rw [lampSwitched, Transition.runFrom_append]
  refine Transition.Reachable.runFrom lampAnnounced_reachable ?_
  refine ⟨?_, ?_, trivial⟩ <;>
    intro w hw <;> cases hw <;> exact nodeKey_lampRemotes

/-- The lamp is announced, its state is published, and it is switched on over its topic. -/
theorem commands_announced_lampSwitched :
    lampSwitched.log.head? = some (.command (Octets.zero 6) 0 [1]) ∧
    (∀ later earlier mac entityIndex value, lampSwitched.log = later ++ .command mac entityIndex value :: earlier →
      Announced mac entityIndex earlier) ∧
    (subscriptions lampSwitched.log).Nodup ∧
    ∀ topic route, lampSwitched.commandRoutes[topic]? = some route →
      Announced route.leafMac route.entityIndex lampSwitched.log ∧ topic ∈ subscriptions lampSwitched.log ∧
        ∃ objectId, topic = routeTopic (Bridge.macHex route.leafMac) objectId route.routeKind :=
  ⟨by decide +kernel, commands_announced ValueBridge.macHex_injective lampSwitched_reachable⟩

end EspTree.Mqtt
