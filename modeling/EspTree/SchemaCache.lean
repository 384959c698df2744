import EspTree.Bridge.Shown
import EspTree.Limits
import EspTree.SchemaHash

/-!
# What the schema hash says about a leaf

A bridge that has the schema hash of a `JOIN` cached takes over what it learned from the leaf that sent the hash
before: the entities, the identity with the MD5 of the firmware, and the size of the payloads.  So leaves with
one hash should not differ in any of these.

The bytes that are hashed name some of them: texts that end with a zero, words of four bytes, and one descriptor
for each entity, of which the options come last and without a length.  `schemaBytes_inj` reads them back.
`sameCache_iff` says what is left: the MD5 is not hashed at all, the build only as it was reported, and the flag
for long frames not either.
-/

namespace EspTree

open Wire Bridge

/-! ## Texts that end with a zero -/

/-- A text without a zero is found before the first one. -/
theorem takeWhile_terminated {a : Bytes} (ha : 0 ∉ a) (x : Bytes) : (a ++ [0] ++ x).takeWhile (· != 0) = a := by
  have hpos : ∀ b ∈ a, (b != 0) = true := fun b hb => by
    rw [bne_iff_ne]
    rintro rfl
    exact ha hb
  rw [List.append_assoc, List.takeWhile_append_of_pos hpos, List.singleton_append, List.takeWhile_cons_of_neg,
    List.append_nil]
  exact Bool.false_ne_true

/-- So two such texts that are followed by one are told apart. -/
theorem terminated_inj {a b x y : Bytes} (ha : 0 ∉ a) (hb : 0 ∉ b) (h : a ++ [0] ++ x = b ++ [0] ++ y) :
    a = b ∧ x = y := by
  have htext : a = b := by rw [← takeWhile_terminated ha x, h, takeWhile_terminated hb]
  rw [htext] at h
  exact ⟨htext, List.append_cancel_left h⟩

/-- A word is known from its bytes. -/
theorem leWord_inj {a b : UInt32} (h : leEncode 4 a.toNat = leEncode 4 b.toNat) : a = b := by
  have hdecode := congrArg leDecode h
  have hmod (n : UInt32) : n.toNat % 256 ^ 4 = n.toNat := Nat.mod_eq_of_lt n.toNat_lt
  rw [leDecode_leEncode, leDecode_leEncode, hmod, hmod] at hdecode
  exact UInt32.toNat_inj.1 hdecode

/-! ## Fields at an offset -/

/-- A fixed field, and what comes after it. -/
theorem fit_drop {k m : Nat} (o : Octets m) {b rest : Bytes} (h : b.drop k = o.bytes ++ rest) :
    Octets.fit m (b.drop k) = o ∧ b.drop (k + m) = rest := by
  rw [← List.drop_drop, h]
  exact ⟨Octets.fit_bytes_append o rest, List.drop_left' o.length_bytes⟩

/-- A word, and what comes after it. -/
theorem word32At_drop {k : Nat} (n : UInt32) {b rest : Bytes} (h : b.drop k = leEncode 4 n.toNat ++ rest) :
    word32At b k = n ∧ b.drop (k + 4) = rest := by
  constructor
  · have hn := word32At_append (a := []) rfl n rest
    rw [List.nil_append, ← h] at hn
    exact hn
  · rw [← List.drop_drop, h, List.drop_left' (length_leEncode _ _)]

theorem byteAt_drop {k : Nat} {b rest : Bytes} {n : UInt8} (h : b.drop k = n :: rest) : byteAt b k = n := by
  have hget : (b.drop k)[0]? = some n := by rw [h]; rfl
  rw [List.getElem?_drop, Nat.add_zero] at hget
  rw [byteAt, List.getD_eq_getElem?_getD, hget]
  rfl

/-! ## Descriptors -/

/-- What a descriptor says of an entity; 145 bytes of options are hashed and read. -/
structure EntityText where
  entityType : UInt8
  entityName : Octets 32
  entityUnit : Octets 8
  entityId : Octets 32
  entityOptions : Bytes
  deriving DecidableEq

/-- The text of an entity. -/
def EntitySchema.text (schema : EntitySchema) : EntityText :=
  ⟨schema.entityType, fixedField 32 schema.entityName, fixedField 8 schema.entityUnit,
    fixedField 32 schema.entityId, schema.entityOptions.take 145⟩

/-- The bytes with which the descriptor of entity `n` begins. -/
def descriptorStart (total : UInt8) (n : Nat) : Bytes :=
  [descriptorTypeEntity, UInt8.ofNat n, UInt8.ofNat n, total]

namespace EntityText

/-- The part of the descriptor that has a fixed size. -/
def fixedPart (t : EntityText) (total : UInt8) (n : Nat) : Bytes :=
  descriptorStart total n ++ (t.entityType :: (t.entityName.bytes ++ (t.entityUnit.bytes ++ t.entityId.bytes)))

/-- The descriptor of entity `n`. -/
def bytes (t : EntityText) (total : UInt8) (n : Nat) : Bytes := t.fixedPart total n ++ t.entityOptions

/-- The entity that is read from it. -/
def entity (t : EntityText) (n : Nat) : EntitySchema where
  entityIndex := UInt8.ofNat n
  entityType := t.entityType
  entityName := fieldText t.entityName
  entityUnit := fieldText t.entityUnit
  entityId := fieldText t.entityId
  entityOptions := t.entityOptions.takeWhile (· != 0)

theorem length_fixedPart (t : EntityText) (total : UInt8) (n : Nat) :
    (t.fixedPart total n).length = schemaPushSize := by
  simp [fixedPart, descriptorStart, schemaPushSize]

/-- A descriptor is known from its fixed part and its options: the fixed part has the lengths of the
texts. -/
theorem fixedPart_inj {t u : EntityText} {total : UInt8} {n : Nat} (h : t.fixedPart total n = u.fixedPart total n)
    (hoptions : t.entityOptions = u.entityOptions) : t = u := by
  obtain ⟨htype, hrest⟩ := List.cons_eq_cons.1 (List.append_cancel_left h)
  obtain ⟨hname, hrest⟩ := List.append_inj hrest (by rw [Octets.length_bytes, Octets.length_bytes])
  obtain ⟨hunit, hid⟩ := List.append_inj hrest (by rw [Octets.length_bytes, Octets.length_bytes])
  cases t
  cases u
  rw [mk.injEq]
  exact ⟨htype, Octets.ext hname, Octets.ext hunit, Octets.ext hid, hoptions⟩

end EntityText

/-- The hash takes the text of an entity. -/
theorem take_schemaPushPayload (schema : EntitySchema) (total : UInt8) (n : Nat) :
    (schemaPushPayload total schema (UInt8.ofNat n) schema.entityOptions).take 222 =
      schema.text.bytes total n := by
  have hsplit : schemaPushPayload total schema (UInt8.ofNat n) schema.entityOptions =
      schema.text.fixedPart total n ++ schema.entityOptions := by
    simp [schemaPushPayload, EntityText.fixedPart, descriptorStart, EntitySchema.text]
  rw [hsplit, List.take_append, List.take_of_length_le (by rw [EntityText.length_fixedPart]; decide),
    EntityText.length_fixedPart]
  rfl

/-- The options are read up to a zero, be it the one that is sent after them. -/
theorem takeWhile_options (options : Bytes) :
    ((options ++ [0]).take 145).takeWhile (· != 0) = (options.take 145).takeWhile (· != 0) := by
  rw [List.take_append]
  by_cases hroom : options.length < 145
  · obtain ⟨left, hleft⟩ : ∃ left, 145 - options.length = left + 1 := ⟨144 - options.length, by omega⟩
    rw [hleft, List.take_succ_cons, List.take_nil, List.takeWhile_append]
    split
    next hall =>
      rw [List.takeWhile_cons_of_neg Bool.false_ne_true, List.append_nil]
      exact (List.IsPrefix.eq_of_length (List.takeWhile_prefix _) hall).symm
    · rfl
  · rw [Nat.sub_eq_zero_of_le (not_lt.1 hroom), List.take_zero, List.append_nil]

/-- The bridge reads the text of an entity. -/
theorem parseSchemaPush_payload (schema : EntitySchema) (total : UInt8) (n : Nat) :
    parseSchemaPush (schemaPushPayload total schema (UInt8.ofNat n) (schema.entityOptions ++ [0])) =
      some (schema.text.entity n, total) := by
  obtain ⟨hname, hdrop⟩ := fit_drop (k := 5) (fixedField 32 schema.entityName)
    (b := schemaPushPayload total schema (UInt8.ofNat n) (schema.entityOptions ++ [0])) rfl
  obtain ⟨hunit, hdrop⟩ := fit_drop (fixedField 8 schema.entityUnit) hdrop
  obtain ⟨hid, hdrop⟩ := fit_drop (fixedField 32 schema.entityId) hdrop
  have hlength : ¬ (schemaPushPayload total schema (UInt8.ofNat n) (schema.entityOptions ++ [0])).length <
      schemaPushSize := by
    simp [schemaPushPayload, schemaPushSize]
    omega
  rw [parseSchemaPush, if_neg (not_or.2 ⟨hlength, fun h => h rfl⟩), hname, hunit, hid]
  rw [show schemaPushSize = 45 + 32 from rfl, hdrop, takeWhile_options]
  rfl

/-- The descriptors of a list of entities, the first of them numbered `n`. -/
def descriptorsFrom (total : UInt8) : Nat → List EntityText → Bytes
  | _, [] => []
  | n, t :: ts => t.bytes total n ++ descriptorsFrom total (n + 1) ts

/-- No options hold the bytes with which the next descriptor begins. -/
def ClearFrom (total : UInt8) (n : Nat) (ts : List EntityText) : Prop :=
  ∀ p ∈ ts.zipIdx n, ¬ descriptorStart total (p.2 + 1) <:+: p.1.entityOptions

/-- The start of a descriptor against itself: shorter shifts need a total of 1. -/
theorem descriptorStart_prefix_shift {total : UInt8} {n : Nat} {shift x y : Bytes} (htotal : total ≠ 1)
    (hne : shift ≠ []) (h : descriptorStart total n ++ x = shift ++ (descriptorStart total n ++ y)) :
    descriptorStart total n <+: shift := by
  unfold descriptorStart at h ⊢
  match shift with
  | [] => exact absurd rfl hne
  | [a] =>
    obtain ⟨-, h⟩ := List.cons_eq_cons.1 h
    obtain ⟨hn, h⟩ := List.cons_eq_cons.1 h
    obtain ⟨-, h⟩ := List.cons_eq_cons.1 h
    obtain ⟨ht, -⟩ := List.cons_eq_cons.1 h
    exact absurd (ht.trans hn) htotal
  | [a, b] =>
    obtain ⟨-, h⟩ := List.cons_eq_cons.1 h
    obtain ⟨-, h⟩ := List.cons_eq_cons.1 h
    obtain ⟨hn, h⟩ := List.cons_eq_cons.1 h
    obtain ⟨ht, -⟩ := List.cons_eq_cons.1 h
    exact absurd (ht.trans hn) htotal
  | [a, b, c] =>
    obtain ⟨-, h⟩ := List.cons_eq_cons.1 h
    obtain ⟨-, h⟩ := List.cons_eq_cons.1 h
    obtain ⟨-, h⟩ := List.cons_eq_cons.1 h
    obtain ⟨ht, -⟩ := List.cons_eq_cons.1 h
    exact absurd ht htotal
  | a :: b :: c :: d :: rest =>
    obtain ⟨ha, h⟩ := List.cons_eq_cons.1 h
    obtain ⟨hb, h⟩ := List.cons_eq_cons.1 h
    obtain ⟨hc, h⟩ := List.cons_eq_cons.1 h
    obtain ⟨hd, -⟩ := List.cons_eq_cons.1 h
    exact ⟨rest, by rw [← ha, ← hb, ← hc, ← hd]; rfl⟩

/-- The bytes of the descriptors begin with the start of the first one. -/
theorem descriptorsFrom_cons (total : UInt8) (n : Nat) (t : EntityText) (ts : List EntityText) :
    ∃ rest, descriptorsFrom total n (t :: ts) = descriptorStart total n ++ rest :=
  ⟨_, by rw [descriptorsFrom, EntityText.bytes, EntityText.fixedPart, List.append_assoc, List.append_assoc]⟩

/-- So options that run into the next descriptors of another list hold the start of one. -/
theorem descriptorStart_of_shift {ts us : List EntityText} {total : UInt8} {n : Nat} {shift : Bytes}
    (hlength : ts.length = us.length) (htotal : total ≠ 1) (hne : shift ≠ [])
    (h : descriptorsFrom total n ts = shift ++ descriptorsFrom total n us) :
    descriptorStart total n <+: shift := by
  cases ts with
  | nil => exact absurd (List.append_eq_nil_iff.1 h.symm).1 hne
  | cons t ts =>
    cases us with
    | nil => cases hlength
    | cons u us =>
      obtain ⟨x, hx⟩ := descriptorsFrom_cons total n t ts
      obtain ⟨y, hy⟩ := descriptorsFrom_cons total n u us
      rw [hx, hy] at h
      exact descriptorStart_prefix_shift htotal hne h

/-- Where the texts are clear, the next descriptor begins where the options end. -/
theorem ClearFrom.of_cons {total : UInt8} {n : Nat} {t : EntityText} {ts : List EntityText}
    (h : ClearFrom total n (t :: ts)) :
    ¬ descriptorStart total (n + 1) <:+: t.entityOptions ∧ ClearFrom total (n + 1) ts :=
  List.forall_mem_cons.1 h

/-- Descriptors of as many entities are read back one by one. -/
theorem descriptorsFrom_inj {total : UInt8} {n : Nat} {ts us : List EntityText} (hlength : ts.length = us.length)
    (htotal : n + ts.length ≠ 1 → total ≠ 1) (hts : ClearFrom total n ts) (hus : ClearFrom total n us)
    (h : descriptorsFrom total n ts = descriptorsFrom total n us) : ts = us := by
  induction ts generalizing n us with
  | nil => exact (List.length_eq_zero_iff.1 hlength.symm).symm
  | cons t ts ih =>
    cases us with
    | nil => cases hlength
    | cons u us =>
      obtain ⟨ht, hts⟩ := hts.of_cons
      obtain ⟨hu, hus⟩ := hus.of_cons
      have hlength' := Nat.succ.inj hlength
      rw [descriptorsFrom, descriptorsFrom, EntityText.bytes, EntityText.bytes, List.append_assoc,
        List.append_assoc] at h
      obtain ⟨hfixed, hrest⟩ := List.append_inj h
        (by rw [EntityText.length_fixedPart, EntityText.length_fixedPart])
      -- the options end at the same place, or one of them runs on into a descriptor
      have hnone {shift : Bytes} {v w : List EntityText} (hvw : v.length = w.length) (hv : v.length = ts.length)
          (hshift : descriptorsFrom total (n + 1) v = shift ++ descriptorsFrom total (n + 1) w)
          (hclear : ¬ descriptorStart total (n + 1) <:+: shift) : shift = [] := by
        by_contra hne
        have hmore : v ≠ [] := by
          rintro rfl
          exact hne (List.append_eq_nil_iff.1 hshift.symm).1
        have hpos := List.length_pos_iff.2 hmore
        have hone : n + (t :: ts).length ≠ 1 := by
          rw [List.length_cons]
          omega
        exact hclear (descriptorStart_of_shift hvw (htotal hone) hne hshift).isInfix
      have hoptions : t.entityOptions = u.entityOptions := by
        rcases List.append_eq_append_iff.1 hrest with ⟨shift, hu', hshift⟩ | ⟨shift, ht', hshift⟩
        · have hnil := hnone hlength' rfl hshift
            fun hin => hu (hin.trans ⟨t.entityOptions, [], by rw [hu']; simp⟩)
          rw [hu', hnil, List.append_nil]
        · have hnil := hnone hlength'.symm hlength'.symm hshift
            fun hin => ht (hin.trans ⟨u.entityOptions, [], by rw [ht']; simp⟩)
          rw [ht', hnil, List.append_nil]
      rw [hoptions] at hrest
      have htail := ih hlength' (fun hne => htotal (by rw [List.length_cons]; omega)) hts hus
        (List.append_cancel_left hrest)
      rw [EntityText.fixedPart_inj hfixed hoptions, htail]

/-- Each descriptor says how many there are. -/
theorem length_eq_of_descriptors {ts us : List EntityText} (hts : ts.length ≤ 256) (hus : us.length ≤ 256)
    (h : descriptorsFrom (UInt8.ofNat ts.length) 0 ts = descriptorsFrom (UInt8.ofNat us.length) 0 us) :
    ts.length = us.length := by
  cases ts with
  | nil =>
    cases us with
    | nil => rfl
    | cons u us =>
      obtain ⟨rest, hrest⟩ := descriptorsFrom_cons (UInt8.ofNat (u :: us).length) 0 u us
      rw [hrest] at h
      cases h
  | cons t ts =>
    obtain ⟨rest, hrest⟩ := descriptorsFrom_cons (UInt8.ofNat (t :: ts).length) 0 t ts
    cases us with
    | nil =>
      rw [hrest] at h
      cases h
    | cons u us =>
      obtain ⟨rest', hrest'⟩ := descriptorsFrom_cons (UInt8.ofNat (u :: us).length) 0 u us
      rw [hrest, hrest'] at h
      have hstart := (List.append_inj h rfl).1
      have htotal : UInt8.ofNat (t :: ts).length = UInt8.ofNat (u :: us).length := by
        simpa only [descriptorStart, List.cons.injEq, true_and, and_true] using hstart
      have hmod := congrArg UInt8.toNat htotal
      rw [UInt8.toNat_ofNat', UInt8.toNat_ofNat'] at hmod
      rw [List.length_cons] at hts hmod ⊢
      rw [List.length_cons] at hus hmod ⊢
      omega

/-! ## What is hashed -/

/-- The part of a leaf's description that its schema hash covers. -/
structure Hashed where
  esphomeName : Bytes
  nodeLabel : Bytes
  firmwareEpoch : UInt32
  projectName : Bytes
  projectVersion : Bytes
  build : UInt32 × Bytes × Bytes
  entities : List EntityText
  deriving DecidableEq

/-- The hash takes the build as it was reported. -/
def hashedOf (i reported : Identity) (schemas : List EntitySchema) : Hashed :=
  ⟨i.esphomeName, i.nodeLabel, i.firmwareEpoch, i.projectName, i.projectVersion, reported.build,
    schemas.map EntitySchema.text⟩

/-- The texts of an identity are C strings. -/
structure Identity.Terminated (i : Identity) : Prop where
  esphomeName : 0 ∉ i.esphomeName
  nodeLabel : 0 ∉ i.nodeLabel
  projectName : 0 ∉ i.projectName
  projectVersion : 0 ∉ i.projectVersion
  buildDate : 0 ∉ i.buildDate
  buildTime : 0 ∉ i.buildTime

/-- The bytes that `compute_schema_hash_` puts together are those of the descriptors. -/
theorem flatMap_descriptors (total : UInt8) (schemas : List EntitySchema) (n : Nat) :
    ((schemas.zipIdx n).flatMap fun (schema, n) =>
      (schemaPushPayload total schema (UInt8.ofNat n) schema.entityOptions).take 222) =
      descriptorsFrom total n (schemas.map EntitySchema.text) := by
  induction schemas generalizing n with
  | nil => rfl
  | cons schema schemas ih =>
    rw [List.zipIdx_cons, List.flatMap_cons, ih]
    dsimp only
    rw [take_schemaPushPayload]
    rfl

/-- The bytes that are hashed, read as texts and words. -/
theorem schemaBytes_eq (i reported : Identity) (schemas : List EntitySchema) :
    schemaBytes i reported schemas = i.esphomeName ++ [0] ++ (i.nodeLabel ++ [0] ++
      (leEncode 4 i.firmwareEpoch.toNat ++ (i.projectName ++ [0] ++ (i.projectVersion ++ [0] ++
        (leEncode 4 reported.chipModel.toNat ++ (reported.buildDate ++ [0] ++ (reported.buildTime ++ [0] ++
          descriptorsFrom (UInt8.ofNat schemas.length) 0 (schemas.map EntitySchema.text)))))))) := by
  rw [schemaBytes, flatMap_descriptors]
  simp only [List.append_assoc]

/-- Equal bytes come from equal descriptions. -/
theorem schemaBytes_inj {i i' reported reported' : Identity} {schemas schemas' : List EntitySchema}
    (hi : i.Terminated) (hi' : i'.Terminated) (hreported : reported.Terminated) (hreported' : reported'.Terminated)
    (hcount : schemas.length ≤ 256) (hcount' : schemas'.length ≤ 256)
    (hclear : ClearFrom (UInt8.ofNat schemas.length) 0 (schemas.map EntitySchema.text))
    (hclear' : ClearFrom (UInt8.ofNat schemas'.length) 0 (schemas'.map EntitySchema.text)) :
    schemaBytes i reported schemas = schemaBytes i' reported' schemas' ↔
      hashedOf i reported schemas = hashedOf i' reported' schemas' := by
  rw [schemaBytes_eq, schemaBytes_eq]
  constructor
  · intro h
    obtain ⟨hname, h⟩ := terminated_inj hi.esphomeName hi'.esphomeName h
    obtain ⟨hlabel, h⟩ := terminated_inj hi.nodeLabel hi'.nodeLabel h
    obtain ⟨hepoch, h⟩ := List.append_inj h (by rw [length_leEncode, length_leEncode])
    obtain ⟨hproject, h⟩ := terminated_inj hi.projectName hi'.projectName h
    obtain ⟨hversion, h⟩ := terminated_inj hi.projectVersion hi'.projectVersion h
    obtain ⟨hchip, h⟩ := List.append_inj h (by rw [length_leEncode, length_leEncode])
    obtain ⟨hdate, h⟩ := terminated_inj hreported.buildDate hreported'.buildDate h
    obtain ⟨htime, h⟩ := terminated_inj hreported.buildTime hreported'.buildTime h
    have hlength : (schemas.map EntitySchema.text).length = (schemas'.map EntitySchema.text).length :=
      length_eq_of_descriptors (by rwa [List.length_map]) (by rwa [List.length_map])
        (by rwa [List.length_map, List.length_map])
    rw [List.length_map, List.length_map] at hlength
    rw [← hlength] at h hclear'
    have hentities := descriptorsFrom_inj (by rw [List.length_map, List.length_map, hlength])
      (fun hne htotal => ?_) hclear hclear' h
    · rw [hashedOf, hashedOf, hname, hlabel, leWord_inj hepoch, hproject, hversion, hentities, Identity.build,
        Identity.build, leWord_inj hchip, hdate, htime]
    · have hmod := congrArg UInt8.toNat htotal
      rw [UInt8.toNat_ofNat'] at hmod
      rw [List.length_map, Nat.zero_add] at hne
      have hone : (1 : UInt8).toNat = 1 := rfl
      omega
  · intro h
    obtain ⟨hname, hlabel, hepoch, hproject, hversion, hbuild, hentities⟩ := (Hashed.mk.injEq ..).mp h
    obtain ⟨hchip, hbuild⟩ := Prod.mk.inj hbuild
    obtain ⟨hdate, htime⟩ := Prod.mk.inj hbuild
    have hlength := congrArg List.length hentities
    rw [List.length_map, List.length_map] at hlength
    rw [hname, hlabel, hepoch, hproject, hversion, hchip, hdate, htime, hentities, hlength]

/-! ## What is restored -/

/-- The bridge reads what the identity descriptor says. -/
theorem parseIdentity_payload (i : Identity) (total : UInt8) (payload : Nat) :
    parseIdentity (identityPayload i total payload) = some
      ({ esphomeName := fieldText (fixedField 32 i.esphomeName)
         nodeLabel := fieldText (fixedField 64 i.nodeLabel)
         firmwareEpoch := i.firmwareEpoch
         projectName := fieldText (fixedField 32 i.projectName)
         projectVersion := fieldText (fixedField 16 i.projectVersion)
         chipModel := i.chipModel
         buildDate := fieldText (fixedField 16 i.buildDate)
         buildTime := fieldText (fixedField 16 i.buildTime)
         firmwareMd5 := i.firmwareMd5 }, total) := by
  obtain ⟨hname, h34⟩ := fit_drop (k := 2) (fixedField 32 i.esphomeName)
    (b := identityPayload i total payload) rfl
  obtain ⟨hlabel, h98⟩ := fit_drop _ h34
  obtain ⟨hepoch, h102⟩ := word32At_drop _ h98
  obtain ⟨hproject, h134⟩ := fit_drop _ h102
  obtain ⟨hversion, h150⟩ := fit_drop _ h134
  have htotal : byteAt (identityPayload i total payload) 150 = total := byteAt_drop h150
  have h153 := List.drop_drop (i := 3) (j := 150) (l := identityPayload i total payload)
  rw [h150] at h153
  obtain ⟨hchip, h157⟩ := word32At_drop (k := 153) i.chipModel h153.symm
  obtain ⟨hdate, h173⟩ := fit_drop _ h157
  obtain ⟨htime, h189⟩ := fit_drop _ h173
  have hlength : (identityPayload i total payload).length = identityPushSize := by
    simp [identityPayload, identityPushSize]
  rw [parseIdentity, if_neg (by rw [hlength]; rintro (h | h | h) <;> exact h rfl), htotal, hname, hlabel, hepoch,
    hproject, hversion, hchip, hdate, htime, h189, Octets.fit_bytes]

namespace Remote

variable {η : Type}

/-- What the hash of a leaf covers. -/
def hashed (s : Remote η) : Hashed := hashedOf s.config.identity s.reported s.schemas

/-- What a bridge with the session flags `bridgeFlags` learns from the leaf, and restores when it sees the hash
again. -/
def learned (s : Remote η) (bridgeFlags : UInt8) : Option Cached :=
  let total := UInt8.ofNat s.schemas.length
  let entities := s.schemas.zipIdx.filterMap fun (schema, n) =>
    parseSchemaPush (schemaPushPayload total schema (UInt8.ofNat n) (schema.entityOptions ++ [0]))
  (parseIdentity (identityPayload s.config.identity total s.session.sessionMaxPayload)).map fun (identity, _) =>
    ⟨entities.map Prod.fst, identity, agreedPayload s.session.localSessionFlags bridgeFlags⟩

/-- The part of it that the hash does not cover, the build being covered only as it was reported. -/
structure Unhashed where
  chipModel : UInt32
  buildDate : Bytes
  buildTime : Bytes
  firmwareMd5 : Octets 16
  sessionMaxPayload : Nat
  deriving DecidableEq

def unhashed (s : Remote η) (bridgeFlags : UInt8) : Unhashed where
  chipModel := s.config.identity.chipModel
  buildDate := fieldText (fixedField 16 s.config.identity.buildDate)
  buildTime := fieldText (fixedField 16 s.config.identity.buildTime)
  firmwareMd5 := s.config.identity.firmwareMd5
  sessionMaxPayload := agreedPayload s.session.localSessionFlags bridgeFlags

/-- The entities that are read from texts. -/
def entitiesOf (ts : List EntityText) : List EntitySchema := ts.zipIdx.map fun (t, n) => t.entity n

/-- The descriptors can be told apart. -/
structure Clear (s : Remote η) : Prop where
  terminated : s.config.identity.Terminated
  reported : s.reported.Terminated
  count : s.schemas.length < 256
  options : ClearFrom (UInt8.ofNat s.schemas.length) 0 (s.schemas.map EntitySchema.text)

section

variable {P : Platform η} {s t : Remote η} {bridgeFlags : UInt8}

/-- The bridge reads all descriptors. -/
theorem filterMap_parseSchemaPush (s : Remote η) (total : UInt8) :
    (s.schemas.zipIdx.filterMap fun (schema, n) =>
      parseSchemaPush (schemaPushPayload total schema (UInt8.ofNat n)
        (schema.entityOptions ++ [0]))).map Prod.fst = entitiesOf s.hashed.entities := by
  have hparse : (fun (schema, n) => parseSchemaPush (schemaPushPayload total schema (UInt8.ofNat n)
      (schema.entityOptions ++ [0]))) = fun p : EntitySchema × Nat => some (p.1.text.entity p.2, total) :=
    funext fun (schema, n) => parseSchemaPush_payload schema total n
  rw [hparse, List.filterMap_eq_map', List.map_map, entitiesOf, hashed, hashedOf, List.zipIdx_map, List.map_map]
  rfl

/-- What the bridge learns comes from what is hashed and what is not. -/
theorem learned_eq (s : Remote η) (bridgeFlags : UInt8) :
    s.learned bridgeFlags = some
      ⟨entitiesOf s.hashed.entities,
        { esphomeName := fieldText (fixedField 32 s.hashed.esphomeName)
          nodeLabel := fieldText (fixedField 64 s.hashed.nodeLabel)
          firmwareEpoch := s.hashed.firmwareEpoch
          projectName := fieldText (fixedField 32 s.hashed.projectName)
          projectVersion := fieldText (fixedField 16 s.hashed.projectVersion)
          chipModel := (s.unhashed bridgeFlags).chipModel
          buildDate := (s.unhashed bridgeFlags).buildDate
          buildTime := (s.unhashed bridgeFlags).buildTime
          firmwareMd5 := (s.unhashed bridgeFlags).firmwareMd5 },
        (s.unhashed bridgeFlags).sessionMaxPayload⟩ := by
  unfold learned
  dsimp only
  rw [parseIdentity_payload, filterMap_parseSchemaPush]
  rfl

/-- Leaves of which the same is hashed are learned alike if and only if the rest is the same. -/
theorem learned_eq_iff (h : s.hashed = t.hashed) :
    s.learned bridgeFlags = t.learned bridgeFlags ↔ s.unhashed bridgeFlags = t.unhashed bridgeFlags := by
  rw [learned_eq, learned_eq, h]
  constructor
  · intro hlearned
    obtain ⟨-, hidentity, hpayload⟩ := (Cached.mk.injEq ..).mp (Option.some.inj hlearned)
    obtain ⟨-, -, -, -, -, hchip, hdate, htime, hmd5⟩ := (Identity.mk.injEq ..).mp hidentity
    exact (Unhashed.mk.injEq ..).mpr ⟨hchip, hdate, htime, hmd5, hpayload⟩
  · intro hrest
    rw [hrest]

end

/-- A leaf with one switch that has reported its build, with a label and the MD5 of its firmware. -/
def labelledLeaf (label : Bytes) (md5 : Octets 16) : Remote Unit :=
  let identity : Identity := { nodeLabel := label, chipModel := 5, firmwareMd5 := md5 }
  { setUp { leafMac := Octets.fit 6 [1], identity := identity } { handlers := fun _ => none } {} with
    reported := identity }.registerEntity 2 [108, 97, 109, 112] [] [] []

end Remote

/-! ## The bridge learns the schema -/

namespace Bridge

/-- What the session knows about its leaf, in the form in which it is cached. -/
def Session.knows (x : Session) : Cached := ⟨x.schema.entities, x.schema.identity, x.sessionMaxPayload⟩

/-- The cache has what the session knows, under its name and the hash of its `JOIN`. -/
structure Hub.Caches (h : Hub) (key : Bytes) (cached : Cached) (hash : Octets 32) : Prop where
  schema : h.schemaCache.lookup key = some cached
  hash : h.schemaHashCache.lookup key = some hash

section

variable {c : Crypto} {e : Env} {h : Hub} {x : Session}

/-- What was cached last under a key is found there. -/
theorem lookup_cacheSet {α : Type} (cache : List (Bytes × α)) (key : Bytes) (value : α) :
    (cacheSet cache key value).lookup key = some value := by
  rw [cacheSet, List.lookup_cons, beq_self_eq_true]

/-- What a step leaves as it was while the schema comes in. -/
structure Session.Learns (x y : Session) (cached : Cached) : Prop where
  knows : y.knows = cached
  hash : y.schema.hash = x.schema.hash
  leafMac : y.leafMac = x.leafMac

/-- Asking for a descriptor teaches the session nothing. -/
theorem requestSchema_learns (mac : Mac) (descriptorType index : UInt8) :
    x.Learns (requestSchema c e h mac x descriptorType index).2.1 x.knows := by
  unfold requestSchema sendSchemaRequest sendEncrypted
  dsimp only
  split
  · exact ⟨rfl, rfl, rfl⟩
  split
  · exact ⟨rfl, rfl, rfl⟩
  · exact ⟨rfl, rfl, rfl⟩

/-- Publishing the entities leaves the caches as they are. -/
theorem publishAllEntities_caches (y : Session) :
    (h.publishAllEntities y).schemaCache = h.schemaCache ∧
      (h.publishAllEntities y).schemaHashCache = h.schemaHashCache := by
  unfold Hub.publishAllEntities
  induction y.schema.entities generalizing h with
  | nil => exact ⟨rfl, rfl⟩
  | cons entity entities ih =>
    have hone : (h.publishDiscovery y.schema.totalEntities entity).schemaCache = h.schemaCache ∧
        (h.publishDiscovery y.schema.totalEntities entity).schemaHashCache = h.schemaHashCache := by
      unfold Hub.publishDiscovery
      split <;> exact ⟨rfl, rfl⟩
    exact ⟨ih.1.trans hone.1, ih.2.trans hone.2⟩

/-- When the schema has arrived it is cached. -/
theorem schemaArrived_caches (mac : Mac) (sync : Bool) :
    (schemaArrived c e h x mac sync).1.Caches x.cacheKey x.knows x.schema.hash := by
  have hpublished (y : Session) : ((h.refreshSchemaCache y).publishAllEntities y).Caches y.cacheKey y.knows
      y.schema.hash := by
    obtain ⟨hschema, hhash⟩ := publishAllEntities_caches (h := h.refreshSchemaCache y) y
    exact ⟨by rw [hschema]; exact lookup_cacheSet .., by rw [hhash]; exact lookup_cacheSet ..⟩
  have hsent {h : Hub} (y : Session) (stage : UInt8) {key : Bytes} {cached : Cached} {hash : Octets 32}
      (hcaches : h.Caches key cached hash) : (sendJoinAck c e h mac y 1 0 stage).1.Caches key cached hash := by
    unfold sendJoinAck Hub.holdSlot
    dsimp only
    rw [if_pos (by decide)]
    split_ifs <;> exact ⟨hcaches.schema, hcaches.hash⟩
  unfold schemaArrived
  dsimp only
  cases sync with
  | true => exact hsent _ _ ⟨(hpublished _).schema, (hpublished _).hash⟩
  | false =>
    have hcomplete (y : Session) (eff : Effect) : (sendJoinComplete c e
        (((h.refreshSchemaCache y).publishAllEntities y).note eff) mac y true).1.Caches y.cacheKey y.knows
        y.schema.hash := by
      have hacked := hsent (h := ((h.refreshSchemaCache y).publishAllEntities y).note eff) y joinStatusComplete
        ⟨(hpublished y).schema, (hpublished y).hash⟩
      exact ⟨hacked.schema, hacked.hash⟩
    exact hcomplete _ _

/-- The identity is taken over, and the first entity asked for. -/
theorem identityArrived_learns (mac : Mac) (identity : Identity) (total : UInt8) (htotal : total ≠ 0) :
    x.Learns (identityArrived c e h x mac identity total).2.1 { x.knows with identity := identity } := by
  unfold identityArrived
  dsimp only
  rw [if_neg htotal]
  have hasked := requestSchema_learns (c := c) (e := e) (x := { x with schema := { x.schema with
    identity := identity, totalEntities := total, pendingDescriptorType := descriptorTypeEntity, pendingIndex := 0,
    requestRetries := 0 } })
    (h := if x.schema.entities.isEmpty then h else h.note (.clearEntities x.schema.entities)) mac
    descriptorTypeEntity 0
  exact ⟨hasked.knows, hasked.hash, hasked.leafMac⟩

/-- The next entity is put behind those that are known. -/
theorem set_padded (entities : List EntitySchema) {entity : EntitySchema} {n : Nat} (hn : n = entities.length) :
    (entities ++ List.replicate (n + 1 - entities.length) ({} : EntitySchema)).set n entity =
      entities ++ [entity] := by
  rw [hn, Nat.add_sub_cancel_left, List.replicate_one, List.set_append_right _ _ le_rfl, Nat.sub_self]
  rfl

/-- The one after it is asked for. -/
theorem entityArrived_learns (mac : Mac) {entity : EntitySchema} (total : UInt8)
    (hnext : entity.entityIndex.toNat = x.schema.entities.length)
    (hmore : x.schema.entities.length + 1 < total.toNat) :
    x.Learns (entityArrived c e h x mac entity total).2.1
      { x.knows with entities := x.schema.entities ++ [entity] } := by
  unfold entityArrived
  dsimp only
  rw [set_padded _ hnext, if_neg fun hzero => ?_, if_neg (by omega)]
  · have hasked {y : Session} {h : Hub} := requestSchema_learns (c := c) (e := e) (x := y) (h := h) mac
      descriptorTypeEntity (entity.entityIndex + 1)
    exact ⟨hasked.knows, hasked.hash, hasked.leafMac⟩
  · rw [hzero] at hmore
    exact Nat.not_lt_zero _ hmore

/-- The last entity completes the schema. -/
theorem entityArrived_caches (mac : Mac) {entity : EntitySchema} {total : UInt8}
    (hnext : entity.entityIndex.toNat = x.schema.entities.length)
    (hlast : total.toNat = x.schema.entities.length + 1) :
    (entityArrived c e h x mac entity total).1.Caches x.cacheKey
      { x.knows with entities := x.schema.entities ++ [entity] } x.schema.hash := by
  unfold entityArrived
  dsimp only
  rw [set_padded _ hnext, if_neg fun hzero => ?_, if_pos (by omega)]
  · exact schemaArrived_caches mac true
  · rw [hzero] at hlast
    cases hlast

end

/-- The bridge hears the messages of a schema, one after another. -/
def heardSchema (c : Crypto) (mac : Mac) (h : Hub) (x : Session) : List (Env × Bytes) → Hub
  | [] => h
  | (e, message) :: messages =>
    let heard := schemaMessage c e h x mac message
    heardSchema c mac heard.1 heard.2.1 messages

end Bridge

namespace Remote

variable {η : Type}

/-- The message with entity `n`. -/
def entityMessage (total : UInt8) (schema : EntitySchema) (n : Nat) : Bytes :=
  schemaPushPayload total schema (UInt8.ofNat n) (schema.entityOptions ++ [0])

/-- All messages with which the leaf describes itself. -/
def schemaMessages (s : Remote η) : List Bytes :=
  let total := UInt8.ofNat s.schemas.length
  identityPayload s.config.identity total s.session.sessionMaxPayload ::
    s.schemas.zipIdx.map fun (schema, n) => entityMessage total schema n

end Remote

namespace Bridge

section

variable {c : Crypto} {e : Env} {h : Hub} {x : Session} (mac : Mac)

/-- The descriptor of an entity arrives as it was sent. -/
theorem schemaMessage_entity (schema : EntitySchema) (total : UInt8) (n : Nat) :
    schemaMessage c e h x mac (Remote.entityMessage total schema n) =
      entityArrived c e h x mac (schema.text.entity n) total := by
  have hlength : ¬ (Remote.entityMessage total schema n).length < 2 := by
    simp [Remote.entityMessage, schemaPushPayload]
  have htype : byteAt (Remote.entityMessage total schema n) 0 = descriptorTypeEntity := rfl
  rw [schemaMessage, if_neg hlength, htype, if_neg (by decide), Remote.entityMessage, parseSchemaPush_payload]

/-- The name under which the session is cached once the identity is known. -/
def Session.nameFor (x : Session) (identity : Identity) : Bytes :=
  if identity.esphomeName.isEmpty then macHex x.leafMac else identity.esphomeName

/-- A session that has learned the identity is cached under the name in it. -/
theorem Session.Learns.cacheKey {y : Session} {cached : Cached} (hlearns : x.Learns y cached) :
    y.cacheKey = x.nameFor cached.identity := by
  have hy : y.schema.identity = cached.identity := congrArg Cached.identity hlearns.knows
  rw [Session.cacheKey, Session.nameFor, hy, hlearns.leafMac]

/-- The entities come in one by one, and the last one completes the schema. -/
theorem heardSchema_entities {schemas : List EntitySchema} {messages : List (Env × Bytes)} (hne : schemas ≠ [])
    (hcount : x.schema.entities.length + schemas.length < 256)
    (hmessages : messages.map Prod.snd = (schemas.zipIdx x.schema.entities.length).map fun (schema, n) =>
      Remote.entityMessage (UInt8.ofNat (x.schema.entities.length + schemas.length)) schema n) :
    (heardSchema c mac h x messages).Caches x.cacheKey
      { x.knows with entities := x.schema.entities ++
          (schemas.zipIdx x.schema.entities.length).map fun (schema, n) => schema.text.entity n }
      x.schema.hash := by
  induction schemas generalizing h x messages with
  | nil => exact absurd rfl hne
  | cons schema schemas ih =>
    obtain ⟨first, messages, rfl, hfirst, hrest⟩ := List.map_eq_cons_iff.1 hmessages
    obtain ⟨e, message⟩ := first
    dsimp only at hfirst hrest
    rw [List.length_cons] at hcount hfirst hrest
    have hindex : (schema.text.entity x.schema.entities.length).entityIndex.toNat = x.schema.entities.length := by
      rw [EntityText.entity, UInt8.toNat_ofNat']
      omega
    have htotal : (UInt8.ofNat (x.schema.entities.length + (schemas.length + 1))).toNat =
        x.schema.entities.length + (schemas.length + 1) := by
      rw [UInt8.toNat_ofNat']
      omega
    rw [heardSchema, hfirst, schemaMessage_entity]
    cases schemas with
    | nil =>
      obtain rfl := List.map_eq_nil_iff.1 hrest
      exact entityArrived_caches mac hindex htotal
    | cons next schemas =>
      have hlearns := entityArrived_learns (c := c) (e := e) (h := h) mac
        (UInt8.ofNat (x.schema.entities.length + ((next :: schemas).length + 1))) hindex
        (by rw [htotal, List.length_cons]; omega)
      generalize entityArrived c e h x mac (schema.text.entity x.schema.entities.length)
        (UInt8.ofNat (x.schema.entities.length + ((next :: schemas).length + 1))) = o at hlearns ⊢
      have hentities : o.2.1.schema.entities =
          x.schema.entities ++ [schema.text.entity x.schema.entities.length] :=
        congrArg Cached.entities hlearns.knows
      have hlength : o.2.1.schema.entities.length = x.schema.entities.length + 1 := by
        rw [hentities, List.length_append, List.length_singleton]
      have hsum : x.schema.entities.length + 1 + (next :: schemas).length =
          x.schema.entities.length + ((next :: schemas).length + 1) := by omega
      have hcaches := ih (h := o.1) (x := o.2.1) (List.cons_ne_nil _ _) (by rwa [hlength, hsum])
        (by rw [hrest, hlength, hsum])
      rw [hlearns.cacheKey, hlearns.hash, hlearns.knows, hlength, hentities, List.append_assoc] at hcaches
      exact hcaches

/-- So does the identity of the leaf. -/
theorem schemaMessage_identity (i : Identity) (total : UInt8) (payload : Nat) :
    ∃ identity, parseIdentity (identityPayload i total payload) = some (identity, total) ∧
      schemaMessage c e h x mac (identityPayload i total payload) =
        identityArrived c e h x mac identity total := by
  have hlength : ¬ (identityPayload i total payload).length < 2 := by simp [identityPayload]
  have htype : byteAt (identityPayload i total payload) 0 = descriptorTypeIdentity := rfl
  refine ⟨_, parseIdentity_payload i total payload, ?_⟩
  rw [schemaMessage, if_neg hlength, if_pos htype, parseIdentity_payload]

/-- A bridge that has heard all messages of a leaf has cached what is learned from it, with the hash of the
`JOIN`. -/
theorem heardSchema_learned {η : Type} {s : Remote η} {bridgeFlags : UInt8} {messages : List (Env × Bytes)}
    (hcount : s.schemas.length < 256) (hentities : x.schema.entities = [])
    (hpayload : x.sessionMaxPayload = agreedPayload s.session.localSessionFlags bridgeFlags)
    (hmessages : messages.map Prod.snd = s.schemaMessages) :
    ∃ cached, s.learned bridgeFlags = some cached ∧
      (heardSchema c mac h x messages).Caches (x.nameFor cached.identity) cached x.schema.hash := by
  obtain ⟨first, messages, rfl, hfirst, hrest⟩ := List.map_eq_cons_iff.1 hmessages
  obtain ⟨e, message⟩ := first
  dsimp only at hfirst hrest
  obtain ⟨identity, hparse, harrived⟩ := schemaMessage_identity (c := c) (e := e) (h := h) (x := x) mac
    s.config.identity (UInt8.ofNat s.schemas.length) s.session.sessionMaxPayload
  have hlearned : s.learned bridgeFlags = some
      ⟨Remote.entitiesOf s.hashed.entities, identity,
        agreedPayload s.session.localSessionFlags bridgeFlags⟩ := by
    unfold Remote.learned
    dsimp only
    rw [hparse, Remote.filterMap_parseSchemaPush]
    rfl
  have hknown : Remote.entitiesOf s.hashed.entities =
      s.schemas.zipIdx.map fun (schema, n) => schema.text.entity n := by
    rw [Remote.entitiesOf, Remote.hashed, hashedOf, List.zipIdx_map, List.map_map]
    rfl
  rw [hlearned, heardSchema, hfirst, harrived, hknown, ← hpayload]
  by_cases hnone : s.schemas = []
  · -- no entities: the identity completes the schema
    rw [hnone] at hrest ⊢
    obtain rfl := List.map_eq_nil_iff.1 hrest
    have hknows : (⟨[], identity, x.sessionMaxPayload⟩ : Cached) =
        ⟨x.schema.entities, identity, x.sessionMaxPayload⟩ := by rw [hentities]
    refine ⟨_, rfl, ?_⟩
    show (identityArrived c e h x mac identity 0).1.Caches _ ⟨[], identity, x.sessionMaxPayload⟩ _
    rw [hknows, identityArrived]
    dsimp only
    rw [if_pos rfl]
    exact schemaArrived_caches mac false
  · have hlength := List.length_pos_iff.2 hnone
    have hlearns := identityArrived_learns (c := c) (e := e) (h := h) (x := x) mac identity
      (UInt8.ofNat s.schemas.length) fun hzero => by
        have hmod := congrArg UInt8.toNat hzero
        rw [UInt8.toNat_ofNat'] at hmod
        have hzero : (0 : UInt8).toNat = 0 := rfl
        omega
    generalize identityArrived c e h x mac identity (UInt8.ofNat s.schemas.length) = o at hlearns ⊢
    have hempty : o.2.1.schema.entities = [] := (congrArg Cached.entities hlearns.knows).trans hentities
    have hcaches := heardSchema_entities (c := c) mac (h := o.1) (x := o.2.1) hnone
      (by rw [hempty, List.length_nil, Nat.zero_add]; exact hcount)
      (by rw [hempty, List.length_nil, Nat.zero_add]; exact hrest)
    rw [hlearns.cacheKey, hlearns.hash, hlearns.knows, hempty] at hcaches
    exact ⟨_, rfl, hcaches⟩

end

/-! ## The leaf comes back -/

section

variable {c : Crypto} {e : Env} {h : Hub} {x : Session}

theorem sendJoinAck_knows (mac : Mac) (accepted reason stage : UInt8) :
    (sendJoinAck c e h mac x accepted reason stage).2.1.knows = x.knows := by
  unfold sendJoinAck
  dsimp only
  split <;> rfl

theorem sendJoinComplete_knows (mac : Mac) (reset : Bool) :
    (sendJoinComplete c e h mac x reset).2.1.knows = x.knows :=
  sendJoinAck_knows (c := c) (e := e) (h := h) mac 1 0 joinStatusComplete

theorem joinCached_knows (mac : Mac) (dirtyCount : UInt8) :
    (joinCached c e h x mac dirtyCount).2.1.knows = x.knows := by
  unfold joinCached
  dsimp only
  split
  · exact sendJoinComplete_knows mac true
  split
  · next heq => exact (congrArg (fun o : Outcome => o.2.1.knows) heq).symm.trans (sendJoinAck_knows mac ..)
  · next heq => exact (congrArg (fun o : Outcome => o.2.1.knows) heq).symm.trans (sendJoinAck_knows mac ..)

/-- A session restores what is cached under its name with the hash of the `JOIN`, also when the answer cannot be
sent. -/
theorem freshJoin_knows {cached : Cached} (senderMac : Mac) {f : Frame} (rssi : Int)
    (hcaches : h.Caches (x.nameFor x.schema.identity) cached (Join.parse f.payload).schemaHash) :
    (freshJoin c e h x senderMac f rssi).2.1.knows = cached := by
  obtain ⟨hkey, hhash⟩ := joinKey_eq (c := c) (e := e) (h := h) (x := x) (Join.parse f.payload) e.nonce f
    senderMac rssi
  have hname : (if x.schema.identity.esphomeName.isEmpty then macHex x.leafMac else x.schema.identity.esphomeName) =
      x.nameFor x.schema.identity := rfl
  unfold freshJoin
  dsimp only
  rw [hkey, hhash, hname, if_pos hcaches.hash, joinCached_knows, hcaches.schema]
  rfl

end

/-- The bridge before it knows a leaf that sends a hash. -/
def hashedSession : Session := { leafMac := Octets.fit 6 [1], schema := { hash := Octets.fit 32 [7] } }

/-- Its `JOIN`. -/
def hashedJoin : Frame :=
  ⟨⟨protocolVer, 0, PacketType.join.code, Octets.fit 6 [1], 1, Octets.zero 4⟩, none,
    Join.bytes ⟨Octets.fit 16 [3], Octets.fit 32 [7], 0, 0, 0⟩, none⟩

end Bridge

namespace Remote

section

variable {η : Type} {P : Platform η} {s t : Remote η} {bridgeFlags : UInt8}

/-- Leaves with one hash are learned alike if and only if those of which the same is hashed agree in
the rest.  `Clear` leaves out the texts that run into the next descriptor; then the bytes that are
hashed determine what they were made of, and what is learned besides is the MD5 of the firmware, the
chip, the build and the payload size. -/
theorem sameCache_iff (hs : s.Clear) (ht : t.Clear)
    (hsha : P.sha256 (schemaBytes s.config.identity s.reported s.schemas) =
        P.sha256 (schemaBytes t.config.identity t.reported t.schemas) →
      schemaBytes s.config.identity s.reported s.schemas = schemaBytes t.config.identity t.reported t.schemas) :
    (s.schemaHash P = t.schemaHash P → s.learned bridgeFlags = t.learned bridgeFlags) ↔
      (s.hashed = t.hashed → s.unhashed bridgeFlags = t.unhashed bridgeFlags) := by
  have hbytes : s.schemaHash P = t.schemaHash P ↔ s.hashed = t.hashed := by
    rw [schemaHash_eq, schemaHash_eq]
    have hinj := schemaBytes_inj hs.terminated ht.terminated hs.reported ht.reported hs.count.le ht.count.le
      hs.options ht.options
    exact ⟨fun hhash => hinj.1 (hsha hhash), fun hhashed => congrArg P.sha256 (hinj.2 hhashed)⟩
  rw [hbytes]
  exact forall_congr' fun hhashed => learned_eq_iff hhashed

end

/-! ## Leaves -/

theorem labelledLeaf_clear (md5 : Octets 16) {label : Bytes} (hlabel : 0 ∉ label) :
    (labelledLeaf label md5).Clear where
  terminated := ⟨nofun, hlabel, nofun, nofun, nofun, nofun⟩
  reported := ⟨nofun, hlabel, nofun, nofun, nofun, nofun⟩
  count := Nat.lt_of_sub_eq_succ rfl
  options := by
    intro p hp hin
    have hoptions : p.1.entityOptions = [] := by
      obtain rfl := List.mem_singleton.1 hp
      rfl
    rw [hoptions] at hin
    cases List.infix_nil.1 hin

/-- Another label has another hash. -/
theorem sameCache_otherLabel :
    (labelledLeaf [97] (Octets.fit 16 [1])).Clear ∧ (labelledLeaf [98] (Octets.fit 16 [2])).Clear ∧
      ((labelledLeaf [97] (Octets.fit 16 [1])).schemaHash .hashing =
          (labelledLeaf [98] (Octets.fit 16 [2])).schemaHash .hashing →
        (labelledLeaf [97] (Octets.fit 16 [1])).learned 0 =
          (labelledLeaf [98] (Octets.fit 16 [2])).learned 0) := by
  refine ⟨labelledLeaf_clear _ (by decide), labelledLeaf_clear _ (by decide),
    (sameCache_iff (labelledLeaf_clear _ (by decide)) (labelledLeaf_clear _ (by decide)) fun hhash => ?_).2
      fun hhashed => ?_⟩
  · exact absurd hhash (by decide +kernel)
  · exact absurd (congrArg Hashed.nodeLabel hhashed) (by decide)

/-- Another MD5 does not have another hash. -/
theorem not_sameCache_otherMd5 :
    (labelledLeaf [97] (Octets.fit 16 [1])).Clear ∧ (labelledLeaf [97] (Octets.fit 16 [2])).Clear ∧
      ¬ ((labelledLeaf [97] (Octets.fit 16 [1])).schemaHash .hashing =
          (labelledLeaf [97] (Octets.fit 16 [2])).schemaHash .hashing →
        (labelledLeaf [97] (Octets.fit 16 [1])).learned 0 =
          (labelledLeaf [97] (Octets.fit 16 [2])).learned 0) := by
  refine ⟨labelledLeaf_clear _ (by decide), labelledLeaf_clear _ (by decide), fun hsame => ?_⟩
  have hhashed : (labelledLeaf [97] (Octets.fit 16 [1])).hashed =
      (labelledLeaf [97] (Octets.fit 16 [2])).hashed := rfl
  have hunhashed := (learned_eq_iff hhashed).1 (hsame rfl)
  exact absurd (congrArg Unhashed.firmwareMd5 hunhashed) (by decide)

end Remote

end EspTree
