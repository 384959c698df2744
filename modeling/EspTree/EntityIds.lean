import EspTree.Lib.Digits
import EspTree.Options
import EspTree.Bridge.Handlers

/-!
# The object ids of entities

The runtime snapshot names an entity by its id, or else by its sanitised name, and a command goes to the first
entity with the name that it asks for.  The MQTT export sanitises the id too, and numbers the entities of one
name.  Neither looks for an id or a name that is taken already.

The numbers themselves are distinct: a number has no underscore, so what stands before the last one is the name
(`numbered_inj`).

Each of the two namings has a theorem about when two entities share an id, in terms of their own ids
and names (`objectId_eq_iff`, `entityObjectId_eq_iff`).  With these, `addressing_iff` says for every
schema when all entities can be addressed: a command that names an id reaches the entity that
advertises it, and no two entities have one id.

An entity is found by the name that is sent and not by the id that was advertised, and the first
match wins.  So of two entities with one id the second can never be reached.
-/

namespace EspTree

open Wire

/-! ## Schemas -/

/-- The index of an entity is its place in the schema. -/
def Indexed (entities : List EntitySchema) : Prop :=
  ∀ i (e : EntitySchema), entities[i]? = some e → e.entityType ≠ 0 → e.entityIndex.toNat = i

/-- `schema_entities` of one remote. -/
structure RemoteSchema where
  entities : List EntitySchema
  indexed : Indexed entities

/-- The entities after a descriptor: room is made for its index. -/
def putEntity (entities : List EntitySchema) (entity : EntitySchema) : List EntitySchema :=
  (entities ++ List.replicate (entity.entityIndex.toNat + 1 - entities.length) ({} : EntitySchema)).set
    entity.entityIndex.toNat entity

theorem Indexed.nil : Indexed [] := fun _ _ h => nomatch h

/-- A descriptor goes to its place. -/
theorem Indexed.putEntity {entities : List EntitySchema} (h : Indexed entities) (entity : EntitySchema) :
    Indexed (putEntity entities entity) := by
  intro i e he htype
  rw [EspTree.putEntity, List.getElem?_set] at he
  split at he
  next heq =>
    split at he
    · cases he
      exact heq
    · cases he
  · rw [List.getElem?_append] at he
    split at he
    · exact h i e he htype
    · obtain rfl : e = {} := List.eq_of_mem_replicate (List.mem_of_getElem? he)
      exact absurd rfl htype

namespace RemoteSchema

/-- No descriptor has arrived yet. -/
def empty : RemoteSchema := ⟨[], Indexed.nil⟩

def put (s : RemoteSchema) (entity : EntitySchema) : RemoteSchema :=
  ⟨putEntity s.entities entity, s.indexed.putEntity entity⟩

end RemoteSchema

/-! ## Names -/

/-- One byte of `sanitize_object_id`. -/
def sanitizeByte (ch : UInt8) : UInt8 :=
  let ch := if 0x41 ≤ ch && ch ≤ 0x5A then ch - 0x41 + 0x61 else ch
  if (0x61 ≤ ch && ch ≤ 0x7A) || (0x30 ≤ ch && ch ≤ 0x39) then ch else 0x5F

/-- `sanitize_object_id`, which is `slugify_name` too. -/
def sanitizeObjectId (input : Bytes) : Bytes := input.map sanitizeByte

/-- `base + "_" + std::to_string(n)`. -/
def numbered (base : Bytes) (n : Nat) : Bytes := base ++ 0x5F :: decimal n

/-! ## Object ids -/

/-- The object id of the runtime snapshot. -/
def objectId (entity : EntitySchema) : Bytes :=
  if entity.entityId.isEmpty then sanitizeObjectId entity.entityName else entity.entityId

/-- The object ids that the runtime snapshot advertises. -/
def advertisedIds (entities : List EntitySchema) : List Bytes :=
  (entities.filter (·.entityType ≠ 0)).map objectId

/-- The entity that `api_runtime_handle_command` sends a command to. -/
def commandTarget (entities : List EntitySchema) (request : Bytes) : Option UInt8 :=
  (entities.find? fun entity => entity.entityType ≠ 0 && objectId entity == request).map (·.entityIndex)

/-- The name in `entity_object_id_`, before it is numbered. -/
def baseId (entity : EntitySchema) : Bytes :=
  let base := sanitizeObjectId (if entity.entityId.isEmpty then entity.entityName else entity.entityId)
  if base.isEmpty then ascii "entity" else base

/-- How many entities up to the one with the index have the name. -/
def duplicateIndex (entities : List EntitySchema) (index : UInt8) (base : Bytes) : Nat :=
  (entities.take (index.toNat + 1)).countP fun candidate =>
    candidate.entityType ≠ 0 && sanitizeObjectId candidate.entityName == base

def entityObjectId (entities : List EntitySchema) (entity : EntitySchema) : Bytes :=
  let base := baseId entity
  if entities.length ≤ entity.entityIndex.toNat then base
  else if ¬ entity.entityId.isEmpty then base
  else
    let duplicate := duplicateIndex entities entity.entityIndex base
    if duplicate > 1 then numbered base duplicate else base

/-- `publish_discovery_for_entity_` lets the entity through to the export. -/
def isExported (entity : EntitySchema) : Bool :=
  entity.entityType ≠ 0 && entity.entityType ∉ Bridge.unimplementedTypes

/-- The ids of the MQTT export. -/
def exportedIds (entities : List EntitySchema) : List Bytes :=
  (entities.filter isExported).map (entityObjectId entities)

/-- Every entity of a remote can be addressed. -/
structure Addressing (s : RemoteSchema) : Prop where
  snapshot : (advertisedIds s.entities).Nodup
  /-- A command for an object id goes to the entity that it was advertised for. -/
  command : ∀ e ∈ s.entities, e.entityType ≠ 0 → commandTarget s.entities (objectId e) = some e.entityIndex
  mqtt : (exportedIds s.entities).Nodup

/-! ## Numbered names -/

/-- A number has no underscore. -/
theorem underscore_notMem_decimal (n : Nat) : 0x5F ∉ decimal n := by
  intro h
  have hdigit : (95 : Nat) ≤ 57 := (toNat_of_mem_decimal h).2
  omega

/-- What stands before the last separator. -/
theorem append_cons_inj {α : Type} {sep : α} {a b d d' : List α} (hd : sep ∉ d) (hd' : sep ∉ d')
    (h : a ++ sep :: d = b ++ sep :: d') : a = b ∧ d = d' := by
  rcases List.append_eq_append_iff.mp h with ⟨m, rfl, hm⟩ | ⟨m, rfl, hm⟩
  · cases m with
    | nil => exact ⟨(List.append_nil a).symm, (List.cons.inj hm).2⟩
    | cons x m =>
      rw [List.cons_append] at hm
      refine absurd ?_ hd
      rw [(List.cons.inj hm).2]
      simp
  · cases m with
    | nil => exact ⟨List.append_nil b, (List.cons.inj hm).2.symm⟩
    | cons x m =>
      rw [List.cons_append] at hm
      refine absurd ?_ hd'
      rw [(List.cons.inj hm).2]
      simp

/-- A numbered name has one name and one number. -/
theorem numbered_inj {a b : Bytes} {n m : Nat} (h : numbered a n = numbered b m) : a = b ∧ n = m := by
  obtain ⟨hname, hnumber⟩ := append_cons_inj (underscore_notMem_decimal n) (underscore_notMem_decimal m) h
  exact ⟨hname, decimal_injective hnumber⟩

/-- The name with its number, which the first entity of a name goes without. -/
def numberedFrom2 (base : Bytes) (n : Nat) : Bytes := if n > 1 then numbered base n else base

/-- Two names with their numbers are the same text. -/
theorem numberedFrom2_eq_iff {a b : Bytes} {n m : Nat} : numberedFrom2 a n = numberedFrom2 b m ↔
    (a = b ∧ max n 1 = max m 1) ∨ (n ≤ 1 ∧ 1 < m ∧ a = numbered b m) ∨ (m ≤ 1 ∧ 1 < n ∧ b = numbered a n) := by
  unfold numberedFrom2
  split <;> split
  next hn hm =>
    constructor
    · intro h
      obtain ⟨rfl, rfl⟩ := numbered_inj h
      exact .inl ⟨rfl, rfl⟩
    · rintro (⟨rfl, hmax⟩ | ⟨hle, -, -⟩ | ⟨hle, -, -⟩)
      · obtain rfl : n = m := by omega
        rfl
      · omega
      · omega
  next hn hm =>
    refine ⟨fun h => .inr (.inr ⟨by omega, hn, h.symm⟩), ?_⟩
    rintro (⟨-, hmax⟩ | ⟨hle, -, -⟩ | ⟨-, -, heq⟩)
    · omega
    · omega
    · exact heq.symm
  next hn hm =>
    refine ⟨fun h => .inr (.inl ⟨by omega, hm, h⟩), ?_⟩
    rintro (⟨-, hmax⟩ | ⟨-, -, heq⟩ | ⟨hle, -, -⟩)
    · omega
    · exact heq
    · omega
  next hn hm =>
    refine ⟨fun h => .inl ⟨h, by omega⟩, ?_⟩
    rintro (⟨heq, -⟩ | ⟨-, hlt, -⟩ | ⟨-, hlt, -⟩)
    · exact heq
    · omega
    · omega

/-! ## What makes two ids the same -/

/-- Two entities with one object id in the snapshot. -/
inductive SameObjectId (a b : EntitySchema) : Prop
  | ids (ha : a.entityId ≠ []) (hb : b.entityId ≠ []) (h : a.entityId = b.entityId)
  | names (ha : a.entityId = []) (hb : b.entityId = [])
      (h : sanitizeObjectId a.entityName = sanitizeObjectId b.entityName)
  | idIsName (ha : a.entityId ≠ []) (hb : b.entityId = []) (h : a.entityId = sanitizeObjectId b.entityName)

/-- Two entities with one id in the export. -/
inductive SameExportId (entities : List EntitySchema) (a b : EntitySchema) : Prop
  | ids (ha : a.entityId ≠ []) (hb : b.entityId ≠ [])
      (h : sanitizeObjectId a.entityId = sanitizeObjectId b.entityId)
  | idIsName (ha : a.entityId ≠ []) (hb : b.entityId = [])
      (h : sanitizeObjectId a.entityId =
        numberedFrom2 (baseId b) (duplicateIndex entities b.entityIndex (baseId b)))
  /-- The first entity of a name that looks like a number of the other. -/
  | number (ha : a.entityId = []) (hb : b.entityId = [])
      (hfirst : duplicateIndex entities a.entityIndex (baseId a) ≤ 1)
      (hnext : 1 < duplicateIndex entities b.entityIndex (baseId b))
      (h : baseId a = numbered (baseId b) (duplicateIndex entities b.entityIndex (baseId b)))
  /-- An entity without a name counts the entities that are named `entity`, but not itself. -/
  | nameless (ha : a.entityId = []) (hb : b.entityId = []) (hname : a.entityName = []) (h : baseId a = baseId b)
      (hnumber : max (duplicateIndex entities a.entityIndex (baseId a)) 1 =
        max (duplicateIndex entities b.entityIndex (baseId b)) 1)

/-- No two entities of a remote are given the same id. -/
def RemoteSchema.Unambiguous (s : RemoteSchema) : Prop :=
  ∀ (i j : Nat) (a b : EntitySchema), i ≠ j → s.entities[i]? = some a → s.entities[j]? = some b →
    a.entityType ≠ 0 → b.entityType ≠ 0 →
      ¬ SameObjectId a b ∧ (isExported a = true → isExported b = true → ¬ SameExportId s.entities a b)

section

variable {entities : List EntitySchema} {a b e : EntitySchema} {i j : Nat}

/-- Two entities share an object id when their ids are equal, when their names sanitise alike, or
when the id of one is the sanitised name of the other. -/
theorem objectId_eq_iff : objectId a = objectId b ↔ SameObjectId a b ∨ SameObjectId b a := by
  constructor
  · intro h
    by_cases ha : a.entityId = [] <;> by_cases hb : b.entityId = [] <;>
      simp only [objectId, List.isEmpty_iff, ha, hb, if_true, if_false] at h
    · exact .inl (.names ha hb h)
    · exact .inr (.idIsName hb ha h.symm)
    · exact .inl (.idIsName ha hb h)
    · exact .inl (.ids ha hb h)
  · have hsame : ∀ {x y : EntitySchema}, SameObjectId x y → objectId x = objectId y := by
      rintro x y (⟨hx, hy, h⟩ | ⟨hx, hy, h⟩ | ⟨hx, hy, h⟩) <;> simpa [objectId, hx, hy] using h
    rintro (h | h)
    · exact hsame h
    · exact (hsame h).symm

theorem baseId_of_id (h : e.entityId ≠ []) : baseId e = sanitizeObjectId e.entityId := by
  simp [baseId, sanitizeObjectId, h]

/-- An entity with a name has it for its base. -/
theorem baseId_of_name (hid : e.entityId = []) (hname : e.entityName ≠ []) :
    baseId e = sanitizeObjectId e.entityName := by
  simp [baseId, sanitizeObjectId, hid, hname]

/-- The export sanitises the id of an entity that has one, and does not number it. -/
theorem entityObjectId_of_id (h : e.entityId ≠ []) :
    entityObjectId entities e = sanitizeObjectId e.entityId := by
  simp only [entityObjectId, List.isEmpty_iff, h, not_false_eq_true, if_true, ite_self, baseId_of_id h]

/-- An entity without id is numbered among those of its name. -/
theorem entityObjectId_of_name (hi : entities[i]? = some e) (hindex : e.entityIndex.toNat = i)
    (h : e.entityId = []) : entityObjectId entities e =
      numberedFrom2 (baseId e) (duplicateIndex entities e.entityIndex (baseId e)) := by
  have hlt : ¬ entities.length ≤ e.entityIndex.toNat := by
    obtain ⟨hlength, -⟩ := List.getElem?_eq_some_iff.mp hi
    omega
  simp only [entityObjectId, hlt, if_false, h, List.isEmpty_nil, not_true_eq_false, numberedFrom2]

/-- The later entity of a name has the greater number. -/
theorem duplicateIndex_lt (hb : entities[j]? = some b) (hindex : b.entityIndex.toNat = j)
    (htype : b.entityType ≠ 0) (hlt : a.entityIndex.toNat < j) :
    duplicateIndex entities a.entityIndex (sanitizeObjectId b.entityName) <
      duplicateIndex entities b.entityIndex (sanitizeObjectId b.entityName) := by
  have hsplit : entities.take (b.entityIndex.toNat + 1) = entities.take (a.entityIndex.toNat + 1) ++
      (entities.drop (a.entityIndex.toNat + 1)).take (j - a.entityIndex.toNat) := by
    rw [hindex, ← List.take_add]
    congr 1
    omega
  have hmem : b ∈ (entities.drop (a.entityIndex.toNat + 1)).take (j - a.entityIndex.toNat) := by
    refine List.mem_of_getElem? (i := j - (a.entityIndex.toNat + 1)) ?_
    rw [List.getElem?_take_of_lt (by omega), List.getElem?_drop, ← hb]
    congr 1
    omega
  rw [duplicateIndex, duplicateIndex, hsplit, List.countP_append]
  exact Nat.lt_add_of_pos_right (List.countP_pos_iff.mpr ⟨b, hmem, by simp [htype]⟩)

/-- An entity counts itself. -/
theorem duplicateIndex_pos (hb : entities[j]? = some b) (hindex : b.entityIndex.toNat = j)
    (htype : b.entityType ≠ 0) :
    0 < duplicateIndex entities b.entityIndex (sanitizeObjectId b.entityName) := by
  refine List.countP_pos_iff.mpr ⟨b, List.mem_of_getElem? (i := j) ?_, by simp [htype]⟩
  rw [List.getElem?_take_of_lt (by omega), hb]

/-- Entities with names, of one base: the numbers differ. -/
theorem duplicateIndex_ne (ha : entities[i]? = some a) (hb : entities[j]? = some b)
    (haindex : a.entityIndex.toNat = i) (hbindex : b.entityIndex.toNat = j) (hne : i ≠ j)
    (hatype : a.entityType ≠ 0) (hbtype : b.entityType ≠ 0)
    (hbase : sanitizeObjectId a.entityName = sanitizeObjectId b.entityName) :
    max (duplicateIndex entities a.entityIndex (sanitizeObjectId a.entityName)) 1 ≠
      max (duplicateIndex entities b.entityIndex (sanitizeObjectId b.entityName)) 1 := by
  have hapos := duplicateIndex_pos ha haindex hatype
  have hbpos := duplicateIndex_pos hb hbindex hbtype
  rcases Nat.lt_or_gt_of_ne hne with hlt | hlt
  · have hcount := duplicateIndex_lt (a := a) hb hbindex hbtype (by omega)
    rw [← hbase] at hcount hbpos ⊢
    omega
  · have hcount := duplicateIndex_lt (a := b) ha haindex hatype (by omega)
    rw [hbase] at hcount hapos ⊢
    omega

/-- Entities of the export with one id. -/
theorem entityObjectId_eq_iff (ha : entities[i]? = some a) (hb : entities[j]? = some b)
    (haindex : a.entityIndex.toNat = i) (hbindex : b.entityIndex.toNat = j) (hne : i ≠ j)
    (hatype : a.entityType ≠ 0) (hbtype : b.entityType ≠ 0) :
    entityObjectId entities a = entityObjectId entities b ↔
      SameExportId entities a b ∨ SameExportId entities b a := by
  constructor
  · intro h
    by_cases haid : a.entityId = [] <;> by_cases hbid : b.entityId = []
    · rw [entityObjectId_of_name ha haindex haid, entityObjectId_of_name hb hbindex hbid,
        numberedFrom2_eq_iff] at h
      rcases h with ⟨hbase, hmax⟩ | ⟨hfirst, hnext, heq⟩ | ⟨hfirst, hnext, heq⟩
      · by_cases haname : a.entityName = []
        · exact .inl (.nameless haid hbid haname hbase hmax)
        · by_cases hbname : b.entityName = []
          · exact .inr (.nameless hbid haid hbname hbase.symm hmax.symm)
          · rw [baseId_of_name haid haname, baseId_of_name hbid hbname] at hbase hmax
            exact absurd hmax (duplicateIndex_ne ha hb haindex hbindex hne hatype hbtype hbase)
      · exact .inl (.number haid hbid hfirst hnext heq)
      · exact .inr (.number hbid haid hfirst hnext heq)
    · rw [entityObjectId_of_name ha haindex haid, entityObjectId_of_id hbid] at h
      exact .inr (.idIsName hbid haid h.symm)
    · rw [entityObjectId_of_id haid, entityObjectId_of_name hb hbindex hbid] at h
      exact .inl (.idIsName haid hbid h)
    · rw [entityObjectId_of_id haid, entityObjectId_of_id hbid] at h
      exact .inl (.ids haid hbid h)
  · have hsame : ∀ {x y : EntitySchema} {k l : Nat}, entities[k]? = some x → entities[l]? = some y →
        x.entityIndex.toNat = k → y.entityIndex.toNat = l → SameExportId entities x y →
          entityObjectId entities x = entityObjectId entities y := by
      rintro x y k l hx hy hxindex hyindex
        (⟨hxid, hyid, h⟩ | ⟨hxid, hyid, h⟩ | ⟨hxid, hyid, hfirst, hnext, h⟩ | ⟨hxid, hyid, -, h, hnumber⟩)
      · rw [entityObjectId_of_id hxid, entityObjectId_of_id hyid, h]
      · rw [entityObjectId_of_id hxid, entityObjectId_of_name hy hyindex hyid, h]
      · rw [entityObjectId_of_name hx hxindex hxid, entityObjectId_of_name hy hyindex hyid,
          numberedFrom2_eq_iff]
        exact .inr (.inl ⟨hfirst, hnext, h⟩)
      · rw [entityObjectId_of_name hx hxindex hxid, entityObjectId_of_name hy hyindex hyid,
          numberedFrom2_eq_iff]
        exact .inl ⟨h, hnumber⟩
    rintro (h | h)
    · exact hsame ha hb haindex hbindex h
    · exact (hsame hb ha hbindex haindex h).symm

end

/-! ## Schemas with distinct ids -/

/-- Distinct values at distinct places. -/
theorem nodup_map_filter_iff {α β : Type} {l : List α} {p : α → Bool} {f : α → β} :
    ((l.filter p).map f).Nodup ↔ ∀ (i j : Nat) (a b : α), i ≠ j → l[i]? = some a → l[j]? = some b →
      p a = true → p b = true → f a ≠ f b := by
  rw [List.Nodup, List.pairwise_map, List.pairwise_filter, List.pairwise_iff_getElem]
  constructor
  · intro h i j a b hne ha hb hpa hpb
    obtain ⟨hi, rfl⟩ := List.getElem?_eq_some_iff.mp ha
    obtain ⟨hj, rfl⟩ := List.getElem?_eq_some_iff.mp hb
    rcases Nat.lt_or_gt_of_ne hne with hlt | hlt
    · exact h i j hi hj hlt hpa hpb
    · exact (h j i hj hi hlt hpb hpa).symm
  · intro h i j hi hj hlt hpa hpb
    exact h i j _ _ (Nat.ne_of_lt hlt) (List.getElem?_eq_getElem hi) (List.getElem?_eq_getElem hj) hpa hpb

/-- Where the snapshot's ids are distinct, a command finds its entity. -/
theorem commandTarget_objectId {entities : List EntitySchema} (h : (advertisedIds entities).Nodup)
    {e : EntitySchema} (he : e ∈ entities) (htype : e.entityType ≠ 0) :
    commandTarget entities (objectId e) = some e.entityIndex := by
  have hmatch : (e.entityType ≠ 0 && objectId e == objectId e) = true := by simp [htype]
  obtain ⟨found, hfound⟩ := Option.isSome_iff_exists.mp (List.find?_isSome (p := fun entity : EntitySchema =>
    entity.entityType ≠ 0 && objectId entity == objectId e).mpr ⟨e, he, hmatch⟩)
  have hp := List.find?_some hfound
  obtain ⟨htypes, hid⟩ : found.entityType ≠ 0 ∧ objectId found = objectId e := by simpa using hp
  obtain ⟨i, hi⟩ := List.mem_iff_getElem?.mp (List.mem_of_find?_eq_some hfound)
  obtain ⟨j, hj⟩ := List.mem_iff_getElem?.mp he
  have hsame : found = e := by
    by_cases hij : i = j
    · subst hij
      exact Option.some.inj (hi.symm.trans hj)
    · exact absurd hid (nodup_map_filter_iff.mp h i j found e hij hi hj (by simpa using htypes)
        (by simpa using htype))
  rw [commandTarget, hfound, hsame]
  rfl

/-- The schemas whose entities can be addressed: the runtime and the export give every entity a name
of its own and lead a command for that name back to it if and only if the schema's ids and the slugs
of its names do not meet. -/
theorem addressing_iff (s : RemoteSchema) : Addressing s ↔ s.Unambiguous := by
  have hsnapshot := nodup_map_filter_iff (l := s.entities) (p := (·.entityType ≠ 0)) (f := objectId)
  have hmqtt := nodup_map_filter_iff (l := s.entities) (p := isExported) (f := entityObjectId s.entities)
  constructor
  · intro h i j a b hne ha hb hatype hbtype
    refine ⟨fun hsame => ?_, fun haexport hbexport hsame => ?_⟩
    · exact hsnapshot.mp h.snapshot i j a b hne ha hb (by simpa using hatype) (by simpa using hbtype)
        (objectId_eq_iff.mpr (.inl hsame))
    · exact hmqtt.mp h.mqtt i j a b hne ha hb haexport hbexport
        ((entityObjectId_eq_iff ha hb (s.indexed i a ha hatype) (s.indexed j b hb hbtype) hne hatype
          hbtype).mpr (.inl hsame))
  · intro h
    have hids : (advertisedIds s.entities).Nodup := by
      refine hsnapshot.mpr fun i j a b hne ha hb hatype hbtype heq => ?_
      have hatype' : a.entityType ≠ 0 := by simpa using hatype
      have hbtype' : b.entityType ≠ 0 := by simpa using hbtype
      rcases objectId_eq_iff.mp heq with hsame | hsame
      · exact (h i j a b hne ha hb hatype' hbtype').1 hsame
      · exact (h j i b a hne.symm hb ha hbtype' hatype').1 hsame
    refine { snapshot := hids, command := fun e => commandTarget_objectId hids, mqtt := ?_ }
    refine hmqtt.mpr fun i j a b hne ha hb haexport hbexport heq => ?_
    have hatype : a.entityType ≠ 0 := by
      simp only [isExported, Bool.and_eq_true, decide_eq_true_eq] at haexport
      exact haexport.1
    have hbtype : b.entityType ≠ 0 := by
      simp only [isExported, Bool.and_eq_true, decide_eq_true_eq] at hbexport
      exact hbexport.1
    rcases (entityObjectId_eq_iff ha hb (s.indexed i a ha hatype) (s.indexed j b hb hbtype) hne hatype
        hbtype).mp heq with hsame | hsame
    · exact (h i j a b hne ha hb hatype hbtype).2 haexport hbexport hsame
    · exact (h j i b a hne.symm hb ha hbtype hatype).2 hbexport haexport hsame

/-- Sensors with the given ids and names. -/
def sensors (names : List (String × String)) : RemoteSchema :=
  names.zipIdx.foldl (fun s ((id, name), i) => s.put
    { entityIndex := UInt8.ofNat i, entityType := 1, entityId := ascii id, entityName := ascii name }) .empty

/-- Two names of one slug, an id that is the slug of a name, and a name that is the number of another. -/
theorem not_addressing : ¬ Addressing (sensors [("", "Temp 1"), ("", "temp_1")]) ∧
    ¬ Addressing (sensors [("temp", "Outside"), ("", "Temp")]) ∧
      (advertisedIds (sensors [("x", "Temp"), ("", "Temp"), ("", "Temp 2")]).entities).Nodup ∧
        ¬ Addressing (sensors [("x", "Temp"), ("", "Temp"), ("", "Temp 2")]) := by
  refine ⟨fun h => ?_, fun h => ?_, by decide, fun h => ?_⟩
  · exact absurd h.snapshot (by decide)
  · exact absurd h.snapshot (by decide)
  · exact absurd h.mqtt (by decide)

end EspTree
