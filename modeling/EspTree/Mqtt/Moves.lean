import EspTree.Mqtt.Tick
import EspTree.Lib.System

/-!
# What `tick` does to the export

Everything that `tick` does is a sequence of a few moves, besides what no other part depends on (`Quiet`): a record
is announced or published, a route is made or taken away, and a flag of a device is set.  A move is about the
remotes that the call of `tick` finds: they give the topics that a state is published on and the names of the
routes.

A pass of `tick` goes over a map and changes the records that it comes to.  The loop is proved to be
moves by induction over the list of records, with the hypothesis that no two have the same key: then
the record that comes next has not been changed by those before it (`moves_publishEntities`).

Whether `tick` returns after a pass depends on the time and on what the client has taken.  Since any
sequence of passes is a sequence of moves (`moves_run`), it does not matter where it stops.
-/

namespace EspTree.Mqtt

open Wire Relation

/-- An entry of the log for a message. -/
def published (retain : Bool) (m : Bytes × Payload) : Entry := .publish m.1 m.2 retain true

namespace Export

/-- Nothing but messages, the client, the queues and the diagnostics. -/
structure Quiet (e e' : Export) : Prop where
  entities : e'.entities = e.entities
  devices : e'.devices = e.devices
  routes : e'.commandRoutes = e.commandRoutes
  topics : e'.subscribedTopics = e.subscribedTopics
  log : ∃ l, e'.log = l ++ e.log ∧ ∀ x ∈ l, ∃ topic payload retain taken, x = .publish topic payload retain taken

namespace Quiet

variable {e e' e'' : Export}

theorem of_eq (hentities : e'.entities = e.entities) (hdevices : e'.devices = e.devices)
    (hroutes : e'.commandRoutes = e.commandRoutes) (htopics : e'.subscribedTopics = e.subscribedTopics)
    (hlog : e'.log = e.log) : Quiet e e' :=
  ⟨hentities, hdevices, hroutes, htopics, [], hlog, fun _ h => absurd h List.not_mem_nil⟩

theorem refl (e : Export) : Quiet e e := of_eq rfl rfl rfl rfl rfl

theorem trans (h : Quiet e e') (h' : Quiet e' e'') : Quiet e e'' := by
  obtain ⟨l, hl, hall⟩ := h.log
  obtain ⟨l', hl', hall'⟩ := h'.log
  refine ⟨h'.entities.trans h.entities, h'.devices.trans h.devices, h'.routes.trans h.routes,
    h'.topics.trans h.topics, l' ++ l, ?_, ?_⟩
  · rw [hl', hl, List.append_assoc]
  · intro x hx
    exact (List.mem_append.mp hx).elim (hall' x) (hall x)

end Quiet

/-! ## Messages -/

variable (e : Export)

/-- A message is logged with what the client said to it. -/
theorem publish_eq (topic : Bytes) (payload : Payload) (retain : Bool) :
    (e.publish topic payload retain).1.log =
      .publish topic payload retain (e.publish topic payload retain).2 :: e.log := by
  rw [publish]
  cases e.replies with
  | nil => rfl
  | cons r replies => rfl

/-- To publish changes nothing that a move is about. -/
theorem quiet_publish (topic : Bytes) (payload : Payload) (retain : Bool) :
    Quiet e (e.publish topic payload retain).1 := by
  have hlog : ∃ l, (e.publish topic payload retain).1.log = l ++ e.log ∧
      ∀ x ∈ l, ∃ topic payload retain taken, x = Entry.publish topic payload retain taken :=
    ⟨[_], publish_eq e topic payload retain, fun x hx => ⟨topic, payload, retain, _, List.mem_singleton.mp hx⟩⟩
  rw [publish] at hlog ⊢
  cases hreplies : e.replies with
  | nil =>
    rw [hreplies] at hlog
    exact ⟨rfl, rfl, rfl, rfl, hlog⟩
  | cons r replies =>
    rw [hreplies] at hlog
    exact ⟨rfl, rfl, rfl, rfl, hlog⟩

theorem quiet_publishAll (retain : Bool) (messages : List (Bytes × Payload)) :
    Quiet e (publishAll retain messages e).1 := by
  induction messages generalizing e with
  | nil => exact Quiet.refl e
  | cons m messages ih =>
    rw [publishAll]
    split
    · exact (quiet_publish e _ _ _).trans (ih _)
    · exact quiet_publish e _ _ _

/-- When all the messages were taken, they are the latest entries of the log. -/
theorem publishAll_log {retain : Bool} {messages : List (Bytes × Payload)}
    (h : (publishAll retain messages e).2 = true) :
    (publishAll retain messages e).1.log = (messages.map (published retain)).reverse ++ e.log := by
  induction messages generalizing e with
  | nil => rfl
  | cons m messages ih =>
    rw [publishAll] at h ⊢
    split at h
    next htaken =>
      rw [if_pos htaken, ih _ h, publish_eq, htaken, List.map_cons, List.reverse_cons, List.append_assoc]
      rfl
    next htaken => exact absurd h htaken

theorem quiet_publishEach (messages : List (Bytes × Payload)) : Quiet e (publishEach messages e) := by
  induction messages generalizing e with
  | nil => exact Quiet.refl e
  | cons m messages ih => exact (quiet_publish e _ _ _).trans (ih _)

/-! ## Diagnostics -/

theorem quiet_queueRemoteDiagRefresh (mac : Mac) : Quiet e (e.queueRemoteDiagRefresh mac) :=
  Quiet.of_eq rfl rfl rfl rfl rfl

theorem quiet_publishForceRejoinButtonDiscovery : Quiet e e.publishForceRejoinButtonDiscovery := by
  simp only [publishForceRejoinButtonDiscovery]
  split_ifs
  · exact Quiet.refl e
  · exact (quiet_publish e _ _ _).trans (Quiet.of_eq rfl rfl rfl rfl rfl)
  · exact quiet_publish e _ _ _

theorem quiet_publishBridgeDiagDiscovery : Quiet e e.publishBridgeDiagDiscovery := by
  have hall := ((quiet_publishAll e true (bridgeSuffixes.map (bridgeSensor e))).trans
    (quiet_publishAll _ true [bridgeSensor e (ascii "topology_url")]))
  simp only [publishBridgeDiagDiscovery]
  split_ifs
  · exact (hall.trans (quiet_publishAll _ _ _)).trans (Quiet.of_eq rfl rfl rfl rfl rfl)
  · exact hall.trans (quiet_publishAll _ _ _)

theorem quiet_publishRemoteDiagDiscovery (w : Remotes) (mac : Mac) :
    Quiet e (e.publishRemoteDiagDiscovery w mac) := by
  simp only [publishRemoteDiagDiscovery]
  split_ifs
  · exact (quiet_publishAll e _ _).trans (Quiet.of_eq rfl rfl rfl rfl rfl)
  · exact quiet_publishAll e _ _

theorem quiet_announceBridge (enter : UInt32) : Quiet e (e.announceBridge enter).1 := by
  simp only [announceBridge]
  split_ifs
  · exact Quiet.refl e
  · exact quiet_publishForceRejoinButtonDiscovery e
  · exact (quiet_publishForceRejoinButtonDiscovery e).trans (quiet_publishBridgeDiagDiscovery _)

theorem quiet_clearDevices (enter : UInt32) : Quiet e (e.clearDevices enter).1 := by
  simp only [clearDevices]
  split
  · exact Quiet.refl e
  · split_ifs
    · exact Quiet.refl e
    · exact (quiet_publish e _ _ _).trans (Quiet.of_eq rfl rfl rfl rfl rfl)
    · exact quiet_publish e _ _ _

theorem quiet_publishAvailability (w : Remotes) : Quiet e (e.publishAvailability w).1 := by
  rw [publishAvailability]
  split
  · exact Quiet.refl e
  next front queue _ =>
    have hqueue : Quiet e { e with availabilityQueue := queue } := Quiet.of_eq rfl rfl rfl rfl rfl
    exact hqueue.trans (quiet_publish _ _ _ _)

theorem quiet_refreshRemoteDiag (w : Remotes) : Quiet e (e.refreshRemoteDiag w).1 := by
  simp only [refreshRemoteDiag]
  split
  · exact Quiet.refl e
  · split_ifs
    · exact (quiet_publishEach e _).trans (Quiet.of_eq rfl rfl rfl rfl rfl)
    · exact quiet_publishRemoteDiagDiscovery e w _

/-! ## Moves -/

/-- An entity of the remote is in the maps, with a device. -/
def Has (w : Remotes) (mac : Mac) (entityIndex : UInt8) : Prop :=
  (∃ (key : Bytes) (r : EntityRecord), e.entities[key]? = some r ∧ (e.devices[r.nodeId]?).isSome ∧
    r.leafMac = mac ∧ r.schema.entityIndex = entityIndex) ∨
  ∃ (d : DeviceRecord) (i : UInt8) (x : EntitySchema), e.devices[w.nodeKey mac]? = some d ∧
    d.entities[i]? = some x ∧ x.entityIndex = entityIndex

/-- One thing that `tick` does. -/
inductive Move (w : Remotes) : Export → Export → Prop
  | quiet {e e' : Export} (h : Quiet e e') : Move w e e'
  | announced {e : Export} {key : Bytes} {r : EntityRecord} (h : e.entities[key]? = some r) :
      Move w e ({ e with
        entities := e.entities.insert key
          { r with discoveryPublished := true, firstStatePublishPending := false, discoveryPublishedMs := e.now } }.note
        (.discoveryConfirmed r.leafMac r.schema.entityIndex))
  | waited {e : Export} {key : Bytes} {r : EntityRecord} (h : e.entities[key]? = some r) :
      Move w e { e with entities := e.entities.insert key { r with firstStatePublishPending := false } }
  | shown {e : Export} {key : Bytes} {r : EntityRecord} (h : e.entities[key]? = some r)
      (hlog : ((stateMessages (w.nodeKey r.leafMac) (w.entityObjectId r.leafMac r.schema) r).map
        (published false)).reverse <+: e.log) :
      Move w e (e.shown key r)
  | routed {e : Export} {mac : Mac} {entityIndex : UInt8} (h : e.Has w mac entityIndex) (objectId : Bytes)
      (kind : CommandRouteKind) :
      Move w e (e.subscribeRoute mac entityIndex (routeTopic (w.nodeKey mac) objectId kind) kind)
  | unrouted {e : Export} (mac : Mac) (entityIndex : UInt8) :
      Move w e (e.removeCommandRoutesForEntity mac entityIndex)
  | erased {e : Export} (topics : List Bytes) :
      Move w e { e with
        commandRoutes := topics.foldl (fun routes topic => routes.erase topic) e.commandRoutes }
  | deviceShown {e : Export} {key : Bytes} {d : DeviceRecord} (h : e.devices[key]? = some d) :
      Move w e { e with
        devices := e.devices.insert key { d with discoveryDirty := false, discoveryPublished := true } }
  | marked {e : Export} :
      Move w e { e with
        devices := Std.TreeMap.map (fun _ d => { d with discoveryDirty := true, discoveryPublished := false })
          e.devices
        entities := Std.TreeMap.map (fun _ r => { r with discoveryPublished := false, stateDirty := true })
          e.entities }

/-- Several moves. -/
abbrev Moves (w : Remotes) : Export → Export → Prop := ReflTransGen (Move w)

variable {w : Remotes}

/-- What is quiet needs no move. -/
theorem Quiet.moves {e e' : Export} (h : Quiet e e') : Moves w e e' := .single (.quiet h)

variable {e}

theorem Has.congr {e' : Export} {mac : Mac} {entityIndex : UInt8} (hentities : e'.entities = e.entities)
    (hdevices : e'.devices = e.devices) (h : e.Has w mac entityIndex) : e'.Has w mac entityIndex := by
  rw [Has, hentities, hdevices]
  exact h

/-! ### Routes -/

theorem subscribeRoute_entities (mac : Mac) (entityIndex : UInt8) (topic : Bytes) (kind : CommandRouteKind) :
    (e.subscribeRoute mac entityIndex topic kind).entities = e.entities ∧
      (e.subscribeRoute mac entityIndex topic kind).devices = e.devices ∧
      (e.subscribeRoute mac entityIndex topic kind).now = e.now := by
  simp only [subscribeRoute]
  split_ifs
  · exact ⟨rfl, rfl, rfl⟩
  · exact ⟨rfl, rfl, rfl⟩

/-- A route subscribes to its topic, if that was not done before. -/
theorem subscribeRoute_log (mac : Mac) (entityIndex : UInt8) (topic : Bytes) (kind : CommandRouteKind) :
    ∃ l, (e.subscribeRoute mac entityIndex topic kind).log = l ++ e.log ∧ ∀ x ∈ l, x = .subscribe topic := by
  simp only [subscribeRoute]
  split_ifs
  · exact ⟨[], rfl, fun _ hx => absurd hx List.not_mem_nil⟩
  · exact ⟨[_], rfl, fun x hx => List.mem_singleton.mp hx⟩

theorem subscribeRoutes_entities {mac : Mac} {entityIndex : UInt8} {nodeKey objectId : Bytes}
    (kinds : List CommandRouteKind) (e : Export) :
    let e' := kinds.foldl (fun e kind => e.subscribeRoute mac entityIndex (routeTopic nodeKey objectId kind) kind) e
    e'.entities = e.entities ∧ e'.devices = e.devices ∧ e'.now = e.now := by
  induction kinds generalizing e with
  | nil => exact ⟨rfl, rfl, rfl⟩
  | cons kind kinds ih =>
    obtain ⟨hentities, hdevices, hnow⟩ := ih (e.subscribeRoute mac entityIndex (routeTopic nodeKey objectId kind) kind)
    obtain ⟨hentities', hdevices', hnow'⟩ :=
      subscribeRoute_entities (e := e) mac entityIndex (routeTopic nodeKey objectId kind) kind
    exact ⟨hentities.trans hentities', hdevices.trans hdevices', hnow.trans hnow'⟩

theorem subscribeCommandTopic_entities (mac : Mac) (entity : EntitySchema) :
    (e.subscribeCommandTopic w mac entity).entities = e.entities ∧
      (e.subscribeCommandTopic w mac entity).devices = e.devices ∧
      (e.subscribeCommandTopic w mac entity).now = e.now := by
  simp only [subscribeCommandTopic]
  split_ifs
  · exact subscribeRoutes_entities (routeKinds entity) (e.removeCommandRoutesForEntity mac entity.entityIndex)
  · exact ⟨rfl, rfl, rfl⟩

theorem moves_subscribeRoutes {mac : Mac} {entityIndex : UInt8} (objectId : Bytes) (kinds : List CommandRouteKind)
    (e : Export) (h : e.Has w mac entityIndex) :
    Moves w e (kinds.foldl
      (fun e kind => e.subscribeRoute mac entityIndex (routeTopic (w.nodeKey mac) objectId kind) kind) e) := by
  induction kinds generalizing e with
  | nil => exact .refl
  | cons kind kinds ih =>
    obtain ⟨hentities, hdevices, -⟩ :=
      subscribeRoute_entities (e := e) mac entityIndex (routeTopic (w.nodeKey mac) objectId kind) kind
    exact .head (.routed h objectId kind) (ih _ (h.congr hentities hdevices))

theorem moves_subscribeCommandTopic {mac : Mac} {entity : EntitySchema}
    (h : e.Has w mac entity.entityIndex) : Moves w e (e.subscribeCommandTopic w mac entity) := by
  simp only [subscribeCommandTopic]
  split_ifs
  · refine .head (.unrouted mac entity.entityIndex) (moves_subscribeRoutes _ (routeKinds entity) _ ?_)
    exact h.congr rfl rfl
  · exact .refl

/-! ### The passes -/

/-- The clears take routes away and forget records. -/
theorem moves_clearEntities (enter : UInt32) : Moves w e (e.clearEntities enter).1 := by
  simp only [clearEntities]
  split
  · exact .refl
  · split_ifs
    · exact .refl
    · exact ((quiet_publish e _ _ _).moves.tail (.erased _)).tail (.quiet (Quiet.of_eq rfl rfl rfl rfl rfl))
    · exact (quiet_publish e _ _ _).moves

/-- The announcement of a device sets its flag. -/
theorem moves_publishDeviceDiscovery (mac : Mac) :
    Moves w e (e.publishDeviceDiscovery w mac) := by
  simp only [publishDeviceDiscovery]
  split
  · exact .refl
  next d hd =>
    split_ifs
    · exact .refl
    -- the subscriptions leave the maps as they are, so every entity of the device is there all along
    all_goals
      set sent := e.publish (deviceConfigTopic e.discoveryPrefix (w.nodeKey mac))
        (.deviceConfig d.nodeId d.displayName) true with hsent
      have hquiet : Quiet e sent.1 := quiet_publish e _ _ _
      have hfold (l : List (UInt8 × EntitySchema)) (hl : ∀ p ∈ l, d.entities[p.1]? = some p.2) (e' : Export)
          (hdevices : e'.devices = e.devices) :
          Moves w e' (l.foldl (fun e pair => e.subscribeCommandTopic w mac pair.2) e') ∧
            (l.foldl (fun e pair => e.subscribeCommandTopic w mac pair.2) e').devices = e.devices := by
        induction l generalizing e' with
        | nil => exact ⟨.refl, hdevices⟩
        | cons p l ih =>
          have hhas : e'.Has w mac p.2.entityIndex := by
            refine .inr ⟨d, p.1, p.2, ?_, hl p (List.mem_cons_self ..), rfl⟩
            rw [hdevices]
            exact hd
          obtain ⟨-, hdevices', -⟩ := subscribeCommandTopic_entities (e := e') (w := w) mac p.2
          obtain ⟨hmoves, heq⟩ := ih (fun q hq => hl q (List.mem_cons_of_mem _ hq)) _ (hdevices'.trans hdevices)
          exact ⟨(moves_subscribeCommandTopic hhas).trans hmoves, heq⟩
      obtain ⟨hmoves, hdevices⟩ := hfold d.entities.toList
        (fun p hp => Std.TreeMap.mem_toList_iff_getElem?_eq_some.mp hp) sent.1 hquiet.devices
    · refine (hquiet.moves.trans hmoves).tail (.deviceShown ?_)
      rw [hdevices]
      exact hd
    · exact hquiet.moves.trans hmoves

theorem moves_publishDevices : Moves w e (e.publishDevices w) := by
  rw [publishDevices]
  split
  · exact .refl
  · exact moves_publishDeviceDiscovery _

/-- An announcement of a record that is there: its topics first, then the message, then the flag,
which is set only if the client has taken it. -/
theorem moves_doPublishDiscovery {key : Bytes} {r : EntityRecord}
    (hr : e.entities[key]? = some r) (hd : (e.devices[r.nodeId]?).isSome) :
    Moves w e (e.doPublishDiscovery w key r) := by
  simp only [doPublishDiscovery]
  set sent := e.publish _ _ _ with hsent
  have hquiet : Quiet e sent.1 := quiet_publish e _ _ _
  have hhas : sent.1.Has w r.leafMac r.schema.entityIndex :=
    Has.congr hquiet.entities hquiet.devices (.inl ⟨key, r, hr, hd, rfl, rfl⟩)
  have hmoves := hquiet.moves.trans (moves_subscribeCommandTopic hhas)
  split_ifs
  · refine hmoves.tail (.announced ?_)
    rw [(subscribeCommandTopic_entities _ _).1, hquiet.entities]
    exact hr
  · exact hmoves

/-- A state of a record that is there, with its receipt if the client has taken all of it. -/
theorem moves_doPublishState {key : Bytes} {r : EntityRecord}
    (hr : e.entities[key]? = some r) : Moves w e (e.doPublishState w key r) := by
  simp only [doPublishState]
  set messages := stateMessages (w.nodeKey r.leafMac) (w.entityObjectId r.leafMac r.schema) r with hmessages
  have hquiet := quiet_publishAll e false messages
  split_ifs with htaken hretry
  · refine hquiet.moves.tail (.shown ?_ ?_)
    · rw [hquiet.entities]
      exact hr
    · rw [publishAll_log e htaken, ← hmessages]
      exact List.prefix_append _ _
  all_goals
    refine (hquiet.trans ?_).moves
    exact Quiet.of_eq rfl rfl rfl rfl rfl

/-- A record that has been shown is no longer dirty. -/
theorem shown_entities (key : Bytes) (r : EntityRecord) :
    (e.shown key r).entities = e.entities.insert key
      { r with textValue := [], stateDirty := false, firstStatePublishPending := false, pendingStateAck := none } := by
  rw [shown]
  split
  · rfl
  · rfl

/-- The other records stay as they are. -/
theorem doPublishState_entities {key key' : Bytes} (r : EntityRecord) (h : key ≠ key') :
    (e.doPublishState w key r).entities[key']? = e.entities[key']? := by
  have hquiet := quiet_publishAll e false
    (stateMessages (w.nodeKey r.leafMac) (w.entityObjectId r.leafMac r.schema) r)
  simp only [doPublishState]
  split_ifs
  · rw [shown_entities, StringMap.getElem?_insert_of_ne h, hquiet.entities]
  · exact congrArg (·[key']?) hquiet.entities
  · exact congrArg (·[key']?) hquiet.entities

/-- The loop over the records goes over each of them once, so that none has changed when its turn
comes. -/
theorem moves_publishEntities (enter : UInt32) {records : List (Bytes × EntityRecord)}
    (hdistinct : records.Pairwise fun p q => p.1 ≠ q.1) (processed : Nat)
    (hrecords : ∀ p ∈ records, e.entities[p.1]? = some p.2) :
    Moves w e (publishEntities w enter records processed e) := by
  induction records generalizing e processed with
  | nil => exact .refl
  | cons p records ih =>
    obtain ⟨key, r⟩ := p
    obtain ⟨hne, hdistinct⟩ := List.pairwise_cons.mp hdistinct
    have hr : e.entities[key]? = some r := hrecords _ (List.mem_cons_self ..)
    have hrest : ∀ p ∈ records, e.entities[p.1]? = some p.2 := fun p hp => hrecords p (List.mem_cons_of_mem _ hp)
    have hskip := ih hdistinct processed hrest
    simp only [publishEntities]
    split_ifs with hbudget hannounce
    · exact .refl
    · have hpublished := Bool.and_elim_right hannounce
      have hd : (e.devices[r.nodeId]?).isSome := by
        cases hd : e.devices[r.nodeId]? with
        | none =>
          rw [hd] at hpublished
          exact absurd hpublished Bool.false_ne_true
        | some d => rfl
      exact moves_doPublishDiscovery hr hd
    · exact hskip
    all_goals
      set r' : EntityRecord := { r with firstStatePublishPending := false } with hr'
      set e' : Export := { e with entities := e.entities.insert key r' } with he'
      have hwaited : Moves w e e' := .single (.waited hr)
      have hshown : Moves w e' (e'.doPublishState w key r') :=
        moves_doPublishState StringMap.getElem?_insert_self
    · exact hwaited.trans hshown
    · refine (hwaited.trans hshown).trans (ih hdistinct (processed + 1) fun p hp => ?_)
      rw [doPublishState_entities r' (hne p hp)]
      exact (StringMap.getElem?_insert_of_ne (hne p hp)).trans (hrest p hp)
    · exact hskip

/-- When the client connects, all is to be announced again. -/
theorem moves_justConnected : Moves w e (e.justConnected w) := by
  have hfold (macs : List Mac) (e' : Export) :
      Quiet e' (macs.foldl (fun e mac => e.queueRemoteDiagRefresh mac) e') := by
    induction macs generalizing e' with
    | nil => exact Quiet.refl e'
    | cons mac macs ih => exact (quiet_queueRemoteDiagRefresh e' mac).trans (ih _)
  refine .head .marked (Quiet.moves (Quiet.trans ?_ (hfold w.onlineMacs _)))
  exact Quiet.of_eq rfl rfl rfl rfl rfl

/-- Every pass of `tick` is a sequence of moves. -/
theorem moves_passes {c : Call} {pass : Pass} (h : pass ∈ passes c) (e : Export) :
    Moves c.remotes e (pass e).1 := by
  simp only [passes, List.mem_cons, List.not_mem_nil, or_false] at h
  rcases h with rfl | rfl | rfl | rfl | rfl | rfl | rfl | rfl
  · exact (quiet_announceBridge e c.now).moves
  · exact moves_clearEntities c.now
  · exact (quiet_clearDevices e c.now).moves
  · exact (quiet_publishAvailability e c.remotes).moves
  · exact Quiet.moves (Quiet.of_eq rfl rfl rfl rfl rfl)
  · exact (quiet_refreshRemoteDiag e c.remotes).moves
  · exact moves_publishDevices
  · refine moves_publishEntities c.now ?_ 0 fun p hp => StringMap.mem_toList.mp hp
    exact Std.TreeMap.distinct_keys_toList.imp fun h heq => h (Std.LawfulEqCmp.compare_eq_iff_eq.mpr heq)

/-- So is every sequence of passes, wherever `tick` returns. -/
theorem moves_run {c : Call} {l : List Pass} (hl : ∀ pass ∈ l, pass ∈ passes c) (e : Export) :
    Moves c.remotes e (Pass.run l e) := by
  induction l generalizing e with
  | nil => exact .refl
  | cons pass l ih =>
    have hpass := moves_passes (hl pass (List.mem_cons_self ..)) e
    rw [Pass.run]
    split_ifs
    · exact hpass
    · exact hpass.trans (ih (fun p hp => hl p (List.mem_cons_of_mem _ hp)) _)

/-- `tick` is a sequence of moves. -/
theorem moves_tick {c : Call} (e : Export) : Moves c.remotes e (e.tick c) := by
  set e₀ : Export := { e with now := c.now, replies := c.replies, connected := c.connected } with he₀
  have hstart : Moves c.remotes e e₀ := Quiet.moves (Quiet.of_eq rfl rfl rfl rfl rfl)
  simp only [tick]
  split_ifs
  · exact hstart
  · refine hstart.trans (.head (.quiet ?_) (moves_run (fun _ h => h) _))
    exact Quiet.of_eq rfl rfl rfl rfl rfl
  · set e₁ : Export := { e₀ with backoffUntilMs := 0 } with he₁
    have hback : Moves c.remotes e₀ e₁ := Quiet.moves (Quiet.of_eq rfl rfl rfl rfl rfl)
    have hconnected : Moves c.remotes e₁ (e₁.justConnected c.remotes) := moves_justConnected
    refine (hstart.trans (hback.trans hconnected)).trans (.head (.quiet ?_) (moves_run (fun _ h => h) _))
    exact Quiet.of_eq rfl rfl rfl rfl rfl
  · exact hstart.trans (Quiet.moves (Quiet.of_eq rfl rfl rfl rfl rfl))

end Export

end EspTree.Mqtt
