import EspTree.Mqtt.Routing

/-!
# What a clear takes back

`queue_clear_entities` works out the object ids of the old entities itself, with a loop that ends at the entity in
question.  The loop looks for it among the entities of its name, so an entity without a name is not found, and all the
entities that are called `entity` are counted.  Then the clear goes to topics that were never announced.

Besides, the clears are kept under the index of the entity, and the loop goes over the holes of the schema too.  A hole
has no type and the index 0, so the clear that is put for it takes the place of that of the first entity
(`queueClearEntities_entityClears`): what is cleared then is a sensor without commands.
-/

namespace EspTree.Mqtt

open Wire Export

/-- The topics that an entity is announced on and that its commands come in on. -/
def announcement (w : Remotes) (e : Export) (mac : Mac) (entity : EntitySchema) : PendingEntityClear where
  discoveryTopic := configTopic e.discoveryPrefix (componentForType entity.entityType) (w.nodeKey mac)
    (w.entityObjectId mac entity)
  commandTopics := (routeKinds entity).map (routeTopic (w.nodeKey mac) (w.entityObjectId mac entity))

/-- The entities of the name, besides those without a type. -/
def isNamed (base : Bytes) (candidate : EntitySchema) : Bool :=
  candidate.entityType ≠ 0 && sanitizeObjectId candidate.entityName == base

section

variable {base : Bytes} {index : UInt8} {l l' : List EntitySchema} {candidate : EntitySchema}

theorem duplicateLoop_cons (n : Nat) : duplicateLoop base index (candidate :: l) n =
    if isNamed base candidate = true then
      if candidate.entityIndex = index then n + 1 else duplicateLoop base index l (n + 1)
    else duplicateLoop base index l n := by
  rw [duplicateLoop]
  by_cases htype : candidate.entityType = 0
  · simp [isNamed, htype]
  · by_cases hname : sanitizeObjectId candidate.entityName = base
    · simp [isNamed, htype, hname]
    · simp [isNamed, htype, hname]

/-- The loop counts what it passes. -/
theorem duplicateLoop_append (h : ∀ candidate ∈ l, isNamed base candidate = true → candidate.entityIndex ≠ index)
    (n : Nat) : duplicateLoop base index (l ++ l') n = duplicateLoop base index l' (n + l.countP (isNamed base)) := by
  induction l generalizing n with
  | nil => rfl
  | cons candidate l ih =>
    have hrest := ih fun c hc => h c (List.mem_cons_of_mem _ hc)
    rw [List.cons_append, duplicateLoop_cons]
    split_ifs with hnamed hindex
    · exact absurd hindex (h candidate (List.mem_cons_self ..) hnamed)
    · rw [hrest, List.countP_cons_of_pos hnamed, Nat.add_assoc, Nat.add_comm 1]
    · rw [hrest, List.countP_cons_of_neg hnamed]

/-- The loop ends at the entity that it looks for, with the number of those of its name up to there.
-/
theorem duplicateLoop_found (hcandidate : isNamed base candidate = true) (hindex : candidate.entityIndex = index)
    (n : Nat) : duplicateLoop base index (candidate :: l) n = n + 1 := by
  rw [duplicateLoop_cons, if_pos hcandidate, if_pos hindex]

/-- The first of a name has no number. -/
theorem numberedFrom2_eq_self_iff {n m : Nat} :
    numberedFrom2 base n = numberedFrom2 base m ↔ max n 1 = max m 1 := by
  have hne (k : Nat) : base ≠ numbered base k := fun heq => by
    have hlength := congrArg List.length heq
    rw [numbered, List.length_append, List.length_cons] at hlength
    omega
  rw [numberedFrom2_eq_iff]
  exact ⟨fun h => h.elim And.right fun h => h.elim (fun h => absurd h.2.2 (hne m)) fun h => absurd h.2.2 (hne n),
    fun h => .inl ⟨rfl, h⟩⟩

end

section

variable {entity : EntitySchema}

/-- The name that an entity without a name goes by. -/
theorem baseId_nameless (hid : entity.entityId = []) (hname : entity.entityName = []) :
    baseId entity = ascii "entity" := by
  simp [baseId, sanitizeObjectId, hid, hname]

/-- An id of the entity's own decides. -/
theorem entityObjectIdFromSchema_of_id {entities : List EntitySchema} (h : entity.entityId ≠ []) :
    entityObjectIdFromSchema entities entity = sanitizeObjectId entity.entityId := by
  simp only [entityObjectIdFromSchema, List.isEmpty_iff, h, not_false_eq_true, if_true, baseId_of_id h]

/-- Without one the object id comes from the name, and from the place among the entities that share
it. -/
theorem entityObjectIdFromSchema_of_name {entities : List EntitySchema} (h : entity.entityId = []) :
    entityObjectIdFromSchema entities entity =
      numberedFrom2 (baseId entity) (duplicateLoop (baseId entity) entity.entityIndex entities 0) := by
  simp only [entityObjectIdFromSchema, h, List.isEmpty_nil, not_true_eq_false, if_false, numberedFrom2]

variable {s : RemoteSchema} (he : entity ∈ s.entities) (htype : entity.entityType ≠ 0)

include he htype in
/-- The entity in its place. -/
theorem exists_split : ∃ before after, s.entities = before ++ entity :: after ∧
    before.length = entity.entityIndex.toNat ∧
    (∀ c ∈ before, c.entityType ≠ 0 → c.entityIndex ≠ entity.entityIndex) ∧
    ∀ c ∈ after, c.entityType ≠ 0 → c.entityIndex ≠ entity.entityIndex := by
  obtain ⟨i, hi⟩ := List.mem_iff_getElem?.mp he
  have hindex := s.indexed i entity hi htype
  obtain ⟨hlt, hget⟩ := List.getElem?_eq_some_iff.mp hi
  have hsplit : s.entities = s.entities.take i ++ entity :: s.entities.drop (i + 1) := by
    rw [← hget, List.getElem_cons_drop, List.take_append_drop]
  have hother (j : Nat) (c : EntitySchema) (hj : s.entities[j]? = some c) (hne : j ≠ i) (hc : c.entityType ≠ 0) :
      c.entityIndex ≠ entity.entityIndex := by
    intro heq
    have hcj := s.indexed j c hj hc
    rw [heq, hindex] at hcj
    exact hne hcj.symm
  refine ⟨_, _, hsplit, ?_, fun c hc => ?_, fun c hc => ?_⟩
  · rw [List.length_take, hindex, Nat.min_eq_left hlt.le]
  · obtain ⟨j, hj⟩ := List.mem_iff_getElem?.mp hc
    rw [List.getElem?_take] at hj
    split_ifs at hj with hji
    exact hother j c hj hji.ne
  · obtain ⟨j, hj⟩ := List.mem_iff_getElem?.mp hc
    rw [List.getElem?_drop] at hj
    exact hother _ c hj (by omega)

include he htype in
/-- The two ways to the object id of an entity. -/
theorem entityObjectIdFromSchema_eq_iff :
    entityObjectIdFromSchema s.entities entity = entityObjectId s.entities entity ↔
      (entity.entityId = [] → entity.entityName = [] →
        s.entities.countP (isNamed (ascii "entity")) ≤ 1 ∨
          (s.entities.drop (entity.entityIndex.toNat + 1)).countP (isNamed (ascii "entity")) = 0) := by
  by_cases hid : entity.entityId = []
  · obtain ⟨i, hi⟩ := List.mem_iff_getElem?.mp he
    obtain ⟨before, after, hsplit, hlength, hbefore, hafter⟩ := exists_split he htype
    have hdrop : s.entities.drop (entity.entityIndex.toNat + 1) = after := by
      rw [hsplit, ← hlength, ← List.singleton_append, ← List.append_assoc, List.drop_left' (by simp)]
    have htake : s.entities.take (entity.entityIndex.toNat + 1) = before ++ [entity] := by
      rw [hsplit, ← hlength, ← List.singleton_append, ← List.append_assoc, List.take_left' (by simp)]
    have hnamed {l : List EntitySchema} (base : Bytes)
        (hl : ∀ c ∈ l, c.entityType ≠ 0 → c.entityIndex ≠ entity.entityIndex) :
        ∀ c ∈ l, isNamed base c = true → c.entityIndex ≠ entity.entityIndex := fun c hc hbase =>
      hl c hc (of_decide_eq_true (Bool.and_elim_left hbase))
    have hloop (base : Bytes) : duplicateLoop base entity.entityIndex s.entities 0 =
        if isNamed base entity = true then before.countP (isNamed base) + 1
        else (before ++ after).countP (isNamed base) := by
      rw [hsplit, duplicateLoop_append (hnamed base hbefore), Nat.zero_add]
      split_ifs with hself
      · exact duplicateLoop_found hself rfl _
      · rw [duplicateLoop_cons, if_neg hself, ← List.append_nil after, duplicateLoop_append (hnamed base hafter),
          List.append_nil, List.countP_append]
        rfl
    have hindex (base : Bytes) : duplicateIndex s.entities entity.entityIndex base =
        before.countP (isNamed base) + if isNamed base entity = true then 1 else 0 := by
      have hcount : duplicateIndex s.entities entity.entityIndex base = (before ++ [entity]).countP (isNamed base) :=
        congrArg (List.countP (isNamed base)) htake
      rw [hcount, List.countP_append, List.countP_singleton]
    rw [entityObjectIdFromSchema_of_name hid, entityObjectId_of_name hi (s.indexed i entity hi htype) hid,
      numberedFrom2_eq_self_iff, hloop, hindex]
    by_cases hname : entity.entityName = []
    · have hself : isNamed (ascii "entity") entity = false := by
        rw [isNamed, hname, Bool.and_eq_false_iff]
        exact .inr rfl
      rw [baseId_nameless hid hname, hself, hdrop, hsplit, List.countP_append, List.countP_append,
        List.countP_cons_of_neg (by rw [hself]; exact Bool.false_ne_true)]
      simp only [hid, hname, true_implies, Bool.false_eq_true, if_false, Nat.add_zero]
      omega
    · have hself : isNamed (baseId entity) entity = true := by
        simp [isNamed, htype, baseId_of_name hid hname]
      rw [if_pos hself, if_pos hself]
      exact ⟨fun _ _ hnil => absurd hnil hname, fun _ => rfl⟩
  · rw [entityObjectIdFromSchema_of_id hid, entityObjectId_of_id hid]
    exact ⟨fun _ hnil => absurd hnil hid, fun _ => rfl⟩

end

section

variable (w : Remotes) (e : Export) (mac : Mac)

/-- An entity is announced on its topic, and its commands are subscribed to. -/
structure Announces (a : PendingEntityClear) (entity : EntitySchema) (e : Export) : Prop where
  discovery : ∃ payload taken, .publish a.discoveryTopic payload true taken ∈ e.log
  commands : entity.entityType ∈ commandTypes → ∀ topic ∈ a.commandTopics, topic ∈ e.subscribedTopics

/-- The topics of the kinds are subscribed to, and nothing is forgotten. -/
theorem subscribeRoutes_grow (entityIndex : UInt8) (nodeKey objectId : Bytes) (kinds : List CommandRouteKind) :
    let e' := kinds.foldl (fun e kind => e.subscribeRoute mac entityIndex (routeTopic nodeKey objectId kind) kind) e
    (∃ l, e'.log = l ++ e.log) ∧ ∀ topic, topic ∈ e.subscribedTopics ∨ topic ∈ kinds.map (routeTopic nodeKey objectId) →
      topic ∈ e'.subscribedTopics := by
  induction kinds generalizing e with
  | nil => exact ⟨⟨[], rfl⟩, fun topic htopic => htopic.resolve_right List.not_mem_nil⟩
  | cons kind kinds ih =>
    set e₁ := e.subscribeRoute mac entityIndex (routeTopic nodeKey objectId kind) kind with he₁
    obtain ⟨⟨l, hl⟩, htopics⟩ := ih e₁
    obtain ⟨l', hl', -⟩ := subscribeRoute_log (e := e) mac entityIndex (routeTopic nodeKey objectId kind) kind
    have hone (topic : Bytes) (htopic : topic ∈ e.subscribedTopics ∨ topic = routeTopic nodeKey objectId kind) :
        topic ∈ e₁.subscribedTopics := by
      rw [he₁, subscribeRoute]
      split_ifs with hknown
      · rcases htopic with hold | rfl
        · exact hold
        · exact hknown
      · exact List.mem_cons.mpr htopic.symm
    refine ⟨⟨l ++ l', by rw [List.append_assoc, ← hl', ← he₁]; exact hl⟩, fun topic htopic => htopics topic ?_⟩
    rw [List.map_cons, List.mem_cons, ← or_assoc] at htopic
    exact htopic.imp_left (hone topic)

/-- `do_publish_discovery_` announces an entity on its topics. -/
theorem doPublishDiscovery_announces (key : Bytes) (r : EntityRecord) :
    Announces (announcement w e r.leafMac r.schema) r.schema (e.doPublishDiscovery w key r) := by
  set topic := (announcement w e r.leafMac r.schema).discoveryTopic with htopic
  set payload := Payload.config (w.nodeKey r.leafMac) ((e.devices[r.nodeId]?.map (·.displayName)).getD r.nodeId)
    r.schema with hpayload
  set sent := e.publish topic payload true with hsent
  have hgrow := subscribeRoutes_grow (sent.1.removeCommandRoutesForEntity r.leafMac r.schema.entityIndex) r.leafMac
    r.schema.entityIndex (w.nodeKey r.leafMac) (w.entityObjectId r.leafMac r.schema) (routeKinds r.schema)
  have hsubscribed : (∃ l, (sent.1.subscribeCommandTopic w r.leafMac r.schema).log = l ++ sent.1.log) ∧
      (r.schema.entityType ∈ commandTypes → ∀ topic ∈ (announcement w e r.leafMac r.schema).commandTopics,
        topic ∈ (sent.1.subscribeCommandTopic w r.leafMac r.schema).subscribedTopics) := by
    simp only [subscribeCommandTopic]
    split_ifs with htype
    · exact ⟨hgrow.1, fun _ topic hmem => hgrow.2 topic (.inr hmem)⟩
    · exact ⟨⟨[], rfl⟩, fun hcommand => absurd hcommand htype⟩
  obtain ⟨⟨l, hl⟩, hcommands⟩ := hsubscribed
  have hpublished {e' : Export} (hlog : ∃ l, e'.log = l ++ sent.1.log) :
      ∃ payload taken, Entry.publish topic payload true taken ∈ e'.log := by
    obtain ⟨l, hl⟩ := hlog
    refine ⟨payload, sent.2, ?_⟩
    rw [hl, hsent, publish_eq]
    exact List.mem_append_right _ (List.mem_cons_self ..)
  simp only [doPublishDiscovery]
  split_ifs
  · exact ⟨hpublished ⟨.discoveryConfirmed r.leafMac r.schema.entityIndex :: l, congrArg (_ :: ·) hl⟩, hcommands⟩
  · exact ⟨hpublished ⟨l, hl⟩, hcommands⟩

variable {w e mac} {s : RemoteSchema} {x : Remote} {entity : EntitySchema}

/-- What stands before the first separator. -/
theorem append_cons_inj_left {α : Type} {sep : α} {a b r r' : List α} (ha : sep ∉ a) (hb : sep ∉ b)
    (h : a ++ sep :: r = b ++ sep :: r') : a = b ∧ r = r' := by
  have hrev : r.reverse ++ sep :: a.reverse = r'.reverse ++ sep :: b.reverse := by
    simpa using congrArg List.reverse h
  obtain ⟨hr, hab⟩ := append_cons_inj (mt List.mem_reverse.mp ha) (mt List.mem_reverse.mp hb) hrev
  exact ⟨List.reverse_injective hab, List.reverse_injective hr⟩

/-- No component has a slash in its name. -/
theorem slash_notMem_componentForType (type : UInt8) : 0x2F ∉ componentForType type := by
  unfold componentForType
  repeat refine iteInduction (motive := fun component : Bytes => 0x2F ∉ component) (fun _ => by decide) fun _ => ?_
  decide

/-- The topics of two announcements are equal only if their object ids are. -/
theorem configTopic_inj {discoveryPrefix nodeKey objectId objectId' : Bytes} {type type' : UInt8} :
    configTopic discoveryPrefix (componentForType type) nodeKey objectId =
        configTopic discoveryPrefix (componentForType type') nodeKey objectId' ↔
      componentForType type = componentForType type' ∧ objectId = objectId' := by
  have hslash : ascii "/" = [0x2F] := by decide
  constructor
  · intro heq
    simp only [configTopic, hslash, List.append_assoc, List.append_cancel_left_eq, List.singleton_append] at heq
    obtain ⟨hcomponent, heq⟩ := append_cons_inj_left (slash_notMem_componentForType type)
      (slash_notMem_componentForType type') (List.cons.inj heq).2
    have hobject := (List.cons.inj (List.append_cancel_left heq)).2
    exact ⟨hcomponent, List.append_cancel_right hobject⟩
  · rintro ⟨hcomponent, rfl⟩
    rw [hcomponent]

/-- A type of the component `sensor` has no command topic. -/
theorem routeKinds_of_sensor {entity : EntitySchema} (h : componentForType entity.entityType = ascii "sensor") :
    routeKinds entity = [] := by
  have hcommand : commandTypes.all (fun type => componentForType type != ascii "sensor") = true := by decide
  rw [routeKinds, if_pos fun hmem => bne_iff_ne.mp (List.all_eq_true.mp hcommand _ hmem) h]

/-! ## The clears that are kept -/

/-- The clear of one of the old entities. -/
def pendingClear (w : Remotes) (discoveryPrefix : Bytes) (mac : Mac) (oldEntities : List EntitySchema)
    (entity : EntitySchema) : PendingEntityClear where
  discoveryTopic := configTopic discoveryPrefix (componentForType entity.entityType) (w.nodeKey mac)
    (entityObjectIdFromSchema oldEntities entity)
  commandTopics := commandTopicsForObjectId (w.nodeKey mac) entity (entityObjectIdFromSchema oldEntities entity)

/-- The last of the entities that have an index. -/
def lastWith (index : UInt8) (entities : List EntitySchema) : Option EntitySchema :=
  entities.reverse.find? (·.entityIndex = index)

/-- The entity that is put last for an index is the one that counts. -/
theorem lastWith_concat (index : UInt8) (entities : List EntitySchema) (entity : EntitySchema) :
    lastWith index (entities ++ [entity]) =
      if entity.entityIndex = index then some entity else lastWith index entities := by
  rw [lastWith, List.reverse_concat, List.find?_cons]
  split_ifs with hindex
  · rw [decide_eq_true hindex]
  · rw [decide_eq_false hindex]
    rfl

/-- The clear of the last entity with an index is the one that stays. -/
theorem queueClearEntities_entityClears (oldEntities : List EntitySchema) {index : UInt8} {last : EntitySchema}
    (hlast : lastWith index oldEntities = some last) :
    (e.queueClearEntities w mac oldEntities).entityClears[w.entityRecordKey mac index]? =
      some (pendingClear w e.discoveryPrefix mac oldEntities last) := by
  have hfold (l : List EntitySchema) : ∀ e' : Export, e'.discoveryPrefix = e.discoveryPrefix →
      let e'' := l.foldl (fun e entity => e.clearEntity w mac oldEntities entity) e'
      e''.discoveryPrefix = e.discoveryPrefix ∧
        e''.entityClears[w.entityRecordKey mac index]? =
          ((lastWith index l).map (pendingClear w e.discoveryPrefix mac oldEntities)).or
            e'.entityClears[w.entityRecordKey mac index]? := by
    induction l using List.reverseRecOn with
    | nil => exact fun e' hsame => ⟨hsame, rfl⟩
    | append_singleton l entity ih =>
      intro e' hsame
      obtain ⟨hkept, hclears⟩ := ih e' hsame
      rw [List.foldl_append]
      refine ⟨hkept, ?_⟩
      show ((l.foldl _ e').entityClears.insert (w.entityRecordKey mac entity.entityIndex)
        (pendingClear w (l.foldl _ e').discoveryPrefix mac oldEntities entity))[w.entityRecordKey mac index]? = _
      rw [hkept, StringMap.getElem?_insert, lastWith_concat]
      by_cases hindex : entity.entityIndex = index
      · rw [if_pos hindex, hindex, if_pos rfl]
        rfl
      · have hkey : w.entityRecordKey mac entity.entityIndex ≠ w.entityRecordKey mac index :=
          fun heq => hindex (UInt8.toNat_inj.mp (numbered_inj heq).2)
        rw [if_neg hindex, if_neg hkey]
        exact hclears
  obtain ⟨devices, deviceClears, heq⟩ := queueClearEntities_eq (w := w) e mac oldEntities
  rw [heq]
  have hclears := (hfold oldEntities e rfl).2
  rw [hlast] at hclears
  exact hclears

/-- The clear that is kept for an entity names it as the announcement does. -/
inductive Reached (s : RemoteSchema) (entity : EntitySchema) : Prop
  /-- It is the entity's own, which has an id or a name, or is not mistaken for those that are called `entity`. -/
  | own (hlast : lastWith entity.entityIndex s.entities = some entity)
      (hnamed : entity.entityId = [] → entity.entityName = [] →
        s.entities.countP (isNamed (ascii "entity")) ≤ 1 ∨
          (s.entities.drop (entity.entityIndex.toNat + 1)).countP (isNamed (ascii "entity")) = 0)
  /-- It is that of a hole, which passes for the entity when this is a sensor of the same object id. -/
  | hole {hole : EntitySchema} (hlast : lastWith entity.entityIndex s.entities = some hole)
      (htype : hole.entityType = 0) (hcomponent : componentForType entity.entityType = ascii "sensor")
      (hobject : entityObjectIdFromSchema s.entities hole = EspTree.entityObjectId s.entities entity)

/-- The last entity under the index of an entity of the schema is this one, or a hole. -/
theorem exists_lastWith (he : entity ∈ s.entities) (htype : entity.entityType ≠ 0) :
    ∃ last, lastWith entity.entityIndex s.entities = some last ∧ (last = entity ∨ last.entityType = 0) := by
  have hsome : (lastWith entity.entityIndex s.entities).isSome := by
    rw [lastWith, List.find?_isSome]
    exact ⟨entity, List.mem_reverse.mpr he, decide_eq_true rfl⟩
  obtain ⟨last, hlast⟩ := Option.isSome_iff_exists.mp hsome
  refine ⟨last, hlast, ?_⟩
  by_cases hhole : last.entityType = 0
  · exact .inr hhole
  · have hindex : last.entityIndex = entity.entityIndex := of_decide_eq_true
      (List.find?_some (p := fun c : EntitySchema => decide (c.entityIndex = entity.entityIndex)) hlast)
    obtain ⟨i, hi⟩ := List.mem_iff_getElem?.mp (List.mem_reverse.mp (List.mem_of_find?_eq_some hlast))
    obtain ⟨j, hj⟩ := List.mem_iff_getElem?.mp he
    obtain rfl : i = j := by
      rw [← s.indexed i last hi hhole, ← s.indexed j entity hj htype, hindex]
    exact .inl (Option.some.inj (hi.symm.trans hj))

/-- A clear of the remote's schema goes to the topics that `do_publish_discovery_` announces an entity of it on, just
if it is the entity's own and names it alike, or it is that of a hole and the entity is a sensor that the hole passes
for. -/
theorem clear_matches_announcement_iff (hsession : w.session? mac = some x) (hschema : x.entities = s.entities)
    (he : entity ∈ s.entities) (htype : entity.entityType ≠ 0) :
    (∀ key r, r.leafMac = mac → r.schema = entity →
        Announces (announcement w e mac entity) entity (e.doPublishDiscovery w key r)) ∧
      ((e.queueClearEntities w mac s.entities).entityClears[w.entityRecordKey mac entity.entityIndex]? =
        some (announcement w e mac entity) ↔ Reached s entity) := by
  refine ⟨fun key r hmac hr => ?_, ?_⟩
  · rw [← hmac, ← hr]
    exact doPublishDiscovery_announces w e key r
  have hobject : w.entityObjectId mac entity = EspTree.entityObjectId s.entities entity := by
    rw [Remotes.entityObjectId, hsession, ← hschema]
  obtain ⟨last, hlast, hcases⟩ := exists_lastWith he htype
  rw [queueClearEntities_entityClears s.entities hlast, Option.some_inj]
  have hown (heq : last = entity) : pendingClear w e.discoveryPrefix mac s.entities last = announcement w e mac entity ↔
      (entity.entityId = [] → entity.entityName = [] →
        s.entities.countP (isNamed (ascii "entity")) ≤ 1 ∨
          (s.entities.drop (entity.entityIndex.toNat + 1)).countP (isNamed (ascii "entity")) = 0) := by
    subst heq
    rw [← entityObjectIdFromSchema_eq_iff he htype, ← hobject]
    constructor
    · intro heq
      exact (configTopic_inj.mp (congrArg PendingEntityClear.discoveryTopic heq)).2
    · intro heq
      rw [pendingClear, heq]
      rfl
  have hhole (hzero : last.entityType = 0) : pendingClear w e.discoveryPrefix mac s.entities last =
      announcement w e mac entity ↔ componentForType entity.entityType = ascii "sensor" ∧
        entityObjectIdFromSchema s.entities last = EspTree.entityObjectId s.entities entity := by
    have hsensor : componentForType last.entityType = ascii "sensor" := by
      rw [hzero]
      decide
    rw [← hobject, ← hsensor]
    constructor
    · intro heq
      obtain ⟨hcomponent, hobject⟩ := configTopic_inj.mp (congrArg PendingEntityClear.discoveryTopic heq)
      exact ⟨hcomponent.symm, hobject⟩
    · rintro ⟨hcomponent, hobject⟩
      rw [pendingClear, announcement, commandTopicsForObjectId, hcomponent, hobject, routeKinds_of_sensor hsensor,
        routeKinds_of_sensor (hcomponent.trans hsensor)]
  constructor
  · intro heq
    rcases hcases with rfl | hzero
    · exact .own hlast ((hown rfl).mp heq)
    · exact .hole hlast hzero ((hhole hzero).mp heq).1 ((hhole hzero).mp heq).2
  · rintro (⟨hlast', hnamed⟩ | ⟨hlast', hzero, hcomponent, hid⟩)
    · exact (hown (Option.some.inj (hlast.symm.trans hlast'))).mpr hnamed
    · obtain rfl := Option.some.inj (hlast.symm.trans hlast')
      exact (hhole hzero).mpr ⟨hcomponent, hid⟩

end

def pump : EntitySchema := { entityIndex := 2, entityType := fieldTypeSwitch, entityName := ascii "pump" }

/-- A remote with two switches and a hole between them. -/
def twoSwitches : RemoteSchema := (RemoteSchema.empty.put lamp).put pump

def switchRemotes : Remotes := ⟨fun _ => some { entities := twoSwitches.entities }, []⟩

/-- The second switch is taken back, and the hole is cleared in place of the first. -/
theorem clear_matches_announcement_iff_twoSwitches :
    ((queueClearEntities switchRemotes { bridgeMac := Octets.zero 6 } (Octets.zero 6)
        twoSwitches.entities).entityClears[switchRemotes.entityRecordKey (Octets.zero 6) pump.entityIndex]? =
      some (announcement switchRemotes { bridgeMac := Octets.zero 6 } (Octets.zero 6) pump)) ∧
    ¬(queueClearEntities switchRemotes { bridgeMac := Octets.zero 6 } (Octets.zero 6)
        twoSwitches.entities).entityClears[switchRemotes.entityRecordKey (Octets.zero 6) lamp.entityIndex]? =
      some (announcement switchRemotes { bridgeMac := Octets.zero 6 } (Octets.zero 6) lamp) := by
  have hpump : Reached twoSwitches pump := .own (by decide) fun _ hname => absurd hname (by decide)
  have hlamp : ¬Reached twoSwitches lamp := by
    rintro (⟨hlast, -⟩ | ⟨-, -, hcomponent, -⟩)
    · exact absurd hlast (by decide)
    · exact absurd hcomponent (by decide)
  exact ⟨(clear_matches_announcement_iff (x := { entities := twoSwitches.entities }) rfl rfl (by decide)
      (by decide)).2.mpr hpump,
    mt (clear_matches_announcement_iff (x := { entities := twoSwitches.entities }) rfl rfl (by decide)
      (by decide)).2.mp hlamp⟩

end EspTree.Mqtt
