import EspTree.Bridge.Contact
import EspTree.EntityIds

/-!
# The bridge: schemas and states

What a call does to the schema of the session and which state it publishes, read off the call and the bridge
before it: a `JOIN` empties the schema or takes it from the cache, a descriptor is put in its place, the last
fragment of a `STATE` is published with the entity of its index, and nothing else matters
(`call_change`).

So every schema of a session or of the cache is put together from descriptors (`call_assembles`).

The lemmas that come first say for each function that it neither publishes a state nor changes the
schema, which is what most functions do.  `SchemaChange` is what the others can do to the schema, and
it is computed from the call and the bridge before it by `schemaChange`; so `call_change` is an
equation, and not a relation with cases that overlap.

`Assembled` and `Assembles` are the invariant that follows: entities stand at their index, with
holes where no descriptor has come.
-/

namespace EspTree

open Wire OtaManager

namespace Bridge

/-- The state that an effect publishes. -/
def Effect.state? : Effect → Option (EntitySchema × Bytes)
  | .publishState _ _ entity value _ => some (entity, value)
  | _ => none

/-- The states that were published, newest first. -/
def Hub.states (h : Hub) : List (EntitySchema × Bytes) := h.effects.filterMap Effect.state?

/-- The parts of a hub and a session that matter for schemas and states. -/
structure Shown where
  entities : List EntitySchema
  states : List (EntitySchema × Bytes)
  cache : List (Bytes × Cached)

def shownOf (h : Hub) (x : Session) : Shown := ⟨x.schema.entities, h.states, h.schemaCache⟩

/-! ## What calls bring -/

/-- What can happen to the schema of a session. -/
inductive SchemaChange
  | keep
  | gone
  | schema (entities : List EntitySchema)
  | descriptor (entity : EntitySchema)

/-- The entities after the change, if there is a session. -/
def SchemaChange.apply : SchemaChange → Option (List EntitySchema) → Option (List EntitySchema)
  | .keep, entities? => entities?
  | .gone, _ => none
  | .schema entities, _ => some entities
  | .descriptor entity, entities? => entities?.map (putEntity · entity)

section

variable (c : Crypto) (e : Env)

/-- The entities after a `JOIN`. -/
def Session.joinEntities (h : Hub) (x : Session) (f : Frame) : List EntitySchema :=
  let join := Join.parse f.payload
  if h.joiningInProgress ∧ f.header.leafMac ≠ h.joiningLeafMac then x.schema.entities
  else if x.join.inProgress ∧ x.remoteNonce = join.remoteNonce ∧ x.schema.hash = join.schemaHash then
    x.schema.entities
  else
    let name := x.schema.identity.esphomeName
    let key := if name.isEmpty then macHex x.leafMac else name
    if h.schemaHashCache.lookup key = some join.schemaHash then
      ((h.schemaCache.lookup key).map Cached.entities).getD x.schema.entities
    else []

/-- The entity that a message about the schema describes. -/
def descriptor? (message : Bytes) : Option EntitySchema :=
  if message.length < 2 ∨ byteAt message 0 = descriptorTypeIdentity then none
  else (parseSchemaPush message).map Prod.fst

/-- The entity that a fragment of the schema completes. -/
def Session.described (x : Session) (f : Frame) : Option EntitySchema :=
  if ¬ counterIsNewer f.header.txCounter x.lastSeenCounter then none
  else
    ((validateSessionPacket c x f).bind EntityPayload.parse).bind fun view =>
      (offerFragment true x.limits x.schemaAssemblies x.schemaReservedBytes view
          (fragmentMessageTxBase f.header.txCounter view) e.now).assembly.bind fun a =>
        if a.complete then descriptor? (a.assemble x.limits.maxEntityFragment) else none

/-- The state that a fragment completes, with the entity of its index. -/
def Session.stateBrought (x : Session) (f : Frame) : Option (EntitySchema × Bytes) :=
  if ¬ x.sessionKeyValid then none
  else
    ((validateSessionPacket c x f).bind EntityPayload.parse).bind fun view =>
      let base := fragmentMessageTxBase f.header.txCounter view
      if counterIsNewer base x.lastCompletedStateMessageTxBase then
        (offerFragment true x.limits x.stateAssemblies x.stateReservedBytes view base e.now).assembly.bind fun a =>
          if a.complete then
            some (x.schema.entities.getD view.entityIndex.toNat {}, a.assemble x.limits.maxEntityFragment)
          else none
      else none

/-- The frame of this leaf that a call brings, with its length. -/
def frame? (b : Bridge) : Call → Option (Env × Frame × Nat)
  | .frame e _ data _ =>
    ((parsePacket c data).filter fun f => f.header.leafMac == b.leafMac && b.addressed f).map
      fun f => (e, f, data.length)
  | _ => none

/-- What happens to the schema when this frame is handled. -/
def frameChange (b : Bridge) (f : Frame) : SchemaChange :=
  match f.type? with
  | some .discover => if b.hub.knowsNetwork f then .schema b.ensureSession.schema.entities else .keep
  | some .join => if f.payload.length = Join.size then .schema (b.ensureSession.joinEntities b.hub f) else .keep
  | some .schemaPush => ((b.session?.bind fun x => x.described c e f).map .descriptor).getD .keep
  | _ => .keep

/-- What a call does to the schema of the session. -/
def schemaChange (b : Bridge) (k : Call) : SchemaChange :=
  match k with
  | .loop e => if e.evict || e.evictCritical then .gone else .keep
  | .invalidate | .restart => .gone
  | _ =>
    match b.frame? c k with
    | none => .keep
    | some (e, f, _) => b.frameChange c e f

/-- The state that this frame brings. -/
def frameState (b : Bridge) (f : Frame) (len : Nat) : Option (EntitySchema × Bytes) :=
  if f.type? = some .state then
    (b.session?.filter fun x => len ≤ x.sessionMaxPayload).bind fun x => x.stateBrought c e f
  else none

/-- The state that a call brings. -/
def stateBrought (b : Bridge) (k : Call) : Option (EntitySchema × Bytes) :=
  (b.frame? c k).bind fun (e, f, len) => b.frameState c e f len

end

/-! ## Sending -/

section

variable {c : Crypto} {e : Env} {h h' : Hub} {x : Session}

/-- An effect that publishes no state shows nothing. -/
theorem shown_note {eff : Effect} (heff : eff.state? = none) : shownOf (h.note eff) x = shownOf h x := by
  unfold shownOf Hub.states Hub.note
  rw [List.filterMap_cons_none heff]

theorem shown_sendPlainPsk (mac leafMac : Mac) (type : PacketType) (tx : UInt32) (payload : Bytes) :
    shownOf (sendPlainPsk c e h mac leafMac type tx payload).1 x = shownOf h x :=
  shown_note rfl

theorem shown_holdSlot (mac : Mac) : shownOf (h.holdSlot e mac) x = shownOf h x := by
  unfold Hub.holdSlot
  split <;> rfl

theorem shown_sendJoinAck (mac : Mac) (accepted reason stage : UInt8) :
    shownOf (sendJoinAck c e h mac x accepted reason stage).1
      (sendJoinAck c e h mac x accepted reason stage).2.1 = shownOf h x := by
  unfold sendJoinAck
  dsimp only
  split
  · exact (shown_sendPlainPsk _ _ _ _ _).trans (shown_holdSlot _)
  · exact shown_sendPlainPsk _ _ _ _ _

theorem shown_sendJoinComplete (mac : Mac) (reset : Bool) :
    shownOf (sendJoinComplete c e h mac x reset).1 (sendJoinComplete c e h mac x reset).2.1 = shownOf h x :=
  shown_sendJoinAck mac 1 0 joinStatusComplete

theorem shown_sendDeauth (mac : Mac) (f : Frame) :
    shownOf (sendDeauth c e h mac x f).1 (sendDeauth c e h mac x f).2.1 = shownOf h x :=
  shown_sendPlainPsk _ _ _ _ _

theorem shown_sealAndSend {y : Session} (mac : Mac) (type : PacketType) (hop : UInt8) (tx : UInt32)
    (plaintext : Bytes) : shownOf (sealAndSend c e h mac x type hop tx plaintext).1 y = shownOf h y := by
  unfold sealAndSend
  split
  · rfl
  · exact (shown_note rfl).trans (shown_note rfl)

theorem shown_sendEncrypted (mac : Mac) (type : PacketType) (hop : UInt8) (plaintext : Bytes) :
    shownOf (sendEncrypted c e h mac x type hop plaintext).1
      (sendEncrypted c e h mac x type hop plaintext).2.1 = shownOf h x := by
  unfold sendEncrypted
  split
  · rfl
  split
  · rfl
  · exact shown_sealAndSend mac type hop _ plaintext

theorem shown_sendEncryptedWithTxCounterResult {y : Session} (mac : Mac) (type : PacketType) (hop : UInt8)
    (tx : UInt32) (plaintext : Bytes) :
    shownOf (sendEncryptedWithTxCounterResult c e h mac x type hop tx plaintext).1 y = shownOf h y := by
  unfold sendEncryptedWithTxCounterResult
  split
  · rfl
  split
  · rfl
  split
  · rfl
  · exact shown_sealAndSend mac type hop tx plaintext

theorem shown_requestSchema (mac : Mac) (descriptorType index : UInt8) :
    shownOf (requestSchema c e h mac x descriptorType index).1
      (requestSchema c e h mac x descriptorType index).2.1 = shownOf h x :=
  shown_sendEncrypted mac .schemaRequest downHop _

theorem shown_sendCommandLoop (mac : Mac) (index : UInt8) (value : Bytes) (txBase : UInt32) (consume : Bool)
    (fragSize count left chunk : Nat) :
    shownOf (sendCommandLoop c e mac index value txBase consume fragSize count left chunk h x).1
      (sendCommandLoop c e mac index value txBase consume fragSize count left chunk h x).2.1 = shownOf h x := by
  induction left generalizing chunk h x with
  | zero => rfl
  | succ left ih =>
    rw [sendCommandLoop]
    dsimp only
    have htaken : shownOf h (if consume then x.takeTxCounter (txBase + UInt32.ofNat chunk) else x) =
        shownOf h x := by
      split <;> rfl
    generalize (if consume then x.takeTxCounter (txBase + UInt32.ofNat chunk) else x) = y at htaken ⊢
    have hsent := shown_sendEncryptedWithTxCounterResult (c := c) (e := e) (h := h) (x := y) (y := y) mac .command
      downHop (txBase + UInt32.ofNat chunk) (commandFragment index value fragSize count chunk).bytes
    generalize sendEncryptedWithTxCounterResult c e h mac y .command downHop (txBase + UInt32.ofNat chunk)
      (commandFragment index value fragSize count chunk).bytes = o at hsent ⊢
    split
    · exact (ih (chunk + 1)).trans (hsent.trans htaken)
    · exact hsent.trans htaken

/-! ## Joins -/

theorem rekey_entities (join : Join) (nonce : Nonce) (f : Frame) (senderMac : Mac) (rssi : Int) :
    (x.rekey c e h join nonce f senderMac rssi).schema.entities = x.schema.entities := by
  unfold Session.rekey Session.negotiate
  dsimp only
  split <;> rfl

/-- The cache brings the entities that were put together before. -/
theorem restore_entities (cached? : Option Cached) :
    (x.restore cached?).schema.entities = (cached?.map Cached.entities).getD x.schema.entities := by
  cases cached? <;> rfl

theorem shown_of_sendJoinAck {mac : Mac} {accepted reason stage : UInt8} {y : Session} {sent : Bool}
    (hack : sendJoinAck c e h mac x accepted reason stage = (h', y, sent)) : shownOf h' y = shownOf h x := by
  rw [← shown_sendJoinAck (c := c) (e := e) (h := h) (x := x) mac accepted reason stage, hack]

theorem joinCached_shown (mac : Mac) (dirtyCount : UInt8) :
    shownOf (joinCached c e h x mac dirtyCount).1 (joinCached c e h x mac dirtyCount).2.1 = shownOf h x := by
  have hnoted : shownOf (h.note (.schemaComplete x.schema.totalEntities)) x = shownOf h x := shown_note rfl
  unfold joinCached
  dsimp only
  split
  · exact (shown_sendJoinComplete mac true).trans hnoted
  split
  · next hack => exact (shown_of_sendJoinAck hack).trans hnoted
  · next hack => exact (shown_of_sendJoinAck hack).trans hnoted

theorem joinUncached_shown (mac : Mac) :
    shownOf (joinUncached c e h x mac).1 (joinUncached c e h x mac).2.1 = { shownOf h x with entities := [] } := by
  unfold joinUncached
  dsimp only
  split
  · next hack => exact shown_of_sendJoinAck hack
  next h' y hack =>
  have hasked := shown_requestSchema (c := c) (e := e) (h := h') (x := y) mac descriptorTypeIdentity 0
  split
  · next hfails =>
    rw [hfails] at hasked
    exact hasked.trans (shown_of_sendJoinAck hack)
  · next hsent =>
    rw [hsent] at hasked
    exact hasked.trans (shown_of_sendJoinAck hack)

/-- The name that a schema is cached under survives the new key. -/
theorem joinKey_eq (join : Join) (nonce : Nonce) (f : Frame) (senderMac : Mac) (rssi : Int) :
    (x.rekey c e h join nonce f senderMac rssi).cacheKey = macHex x.leafMac ∧
      (x.rekey c e h join nonce f senderMac rssi).schema.hash = join.schemaHash := by
  unfold Session.rekey Session.negotiate Session.cacheKey
  dsimp only
  split <;> exact ⟨rfl, rfl⟩

/-- A `JOIN` empties the schema, takes it from the cache, or is not taken. -/
theorem handleJoin_shown (senderMac : Mac) (f : Frame) (rssi : Int) :
    shownOf (handleJoin c e h x senderMac f rssi).1 (handleJoin c e h x senderMac f rssi).2.1 =
      { shownOf h x with entities := x.joinEntities h f } := by
  unfold handleJoin Session.joinEntities
  dsimp only
  split
  · exact shown_sendJoinAck senderMac 0 joinReasonWait 0
  split
  · exact shown_sendJoinAck senderMac 1 0 x.retryStage
  obtain ⟨hkey, hhash⟩ := joinKey_eq (c := c) (e := e) (h := h) (x := x) (Join.parse f.payload) e.nonce f
    senderMac rssi
  have hentities := rekey_entities (c := c) (e := e) (h := h) (x := x) (Join.parse f.payload) e.nonce f
    senderMac rssi
  unfold freshJoin
  dsimp only
  rw [hkey, hhash]
  generalize x.rekey c e h (Join.parse f.payload) e.nonce f senderMac rssi = y at hentities ⊢
  generalize (if x.schema.identity.esphomeName.isEmpty then macHex x.leafMac
    else x.schema.identity.esphomeName) = key
  split
  · rw [joinCached_shown, ← hentities, ← restore_entities]
    rfl
  · rw [joinUncached_shown]
    rfl

/-! ## Schema -/

/-- The parts of `s` after a call that leaves these entities and brings this state. -/
structure Shown.Turn (s : Shown) (left : List EntitySchema) (brought : Option (EntitySchema × Bytes))
    (s' : Shown) : Prop where
  entities : s'.entities = left
  states : s'.states = brought.toList ++ s.states
  cache : ∀ p ∈ s'.cache, p ∈ s.cache ∨ p.2.entities = left

theorem Shown.Turn.of_eq {s s' : Shown} (heq : s' = s) : s.Turn s.entities none s' := by
  subst heq
  exact ⟨rfl, rfl, fun _ => .inl⟩

/-- Nothing comes after the entities are in place. -/
theorem Shown.Turn.of_placed {s s' : Shown} {left : List EntitySchema} (heq : s' = shownOf h x)
    (hleft : x.schema.entities = left) (hstates : h.states = s.states) (hcache : h.schemaCache = s.cache) :
    s.Turn left none s' := by
  subst heq hleft
  exact ⟨rfl, hstates, fun p hp => .inl (hcache ▸ hp)⟩

theorem shown_publishDiscovery (total : UInt8) (entity : EntitySchema) :
    shownOf (h.publishDiscovery total entity) x = shownOf h x := by
  unfold Hub.publishDiscovery
  split
  · rfl
  · exact shown_note rfl

theorem shown_publishAllEntities (y : Session) : shownOf (h.publishAllEntities y) x = shownOf h x := by
  unfold Hub.publishAllEntities
  generalize y.schema.entities = entities
  induction entities generalizing h with
  | nil => rfl
  | cons entity rest ih => exact (ih ..).trans (shown_publishDiscovery ..)

/-- Only the schema of the session is added to the cache. -/
theorem schemaArrived_shown {s : Shown} {left : List EntitySchema} (mac : Mac) (sync : Bool)
    (hleft : x.schema.entities = left) (hstates : h.states = s.states) (hcache : h.schemaCache = s.cache) :
    s.Turn left none (shownOf (schemaArrived c e h x mac sync).1 (schemaArrived c e h x mac sync).2.1) := by
  have hcached (y : Session) (hy : y.schema.entities = left) :
      s.Turn left none (shownOf (h.refreshSchemaCache y) y) := by
    refine ⟨hy, hstates, fun p hp => ?_⟩
    rcases List.mem_cons.mp hp with rfl | hp
    · exact .inr hy
    · exact .inl (hcache ▸ (List.mem_filter.mp hp).1)
  have hpublished (y z : Session) : shownOf (((h.refreshSchemaCache y).publishAllEntities y).note
      (.schemaComplete y.schema.totalEntities)) z = shownOf (h.refreshSchemaCache y) z :=
    (shown_note rfl).trans (shown_publishAllEntities y)
  unfold schemaArrived
  dsimp only
  split
  · rw [shown_sendJoinAck, hpublished]
    exact hcached _ hleft
  · rw [shown_sendJoinComplete, hpublished]
    exact hcached _ hleft

theorem identityArrived_shown (mac : Mac) (identity : Identity) (total : UInt8) :
    (shownOf h x).Turn x.schema.entities none
      (shownOf (identityArrived c e h x mac identity total).1
        (identityArrived c e h x mac identity total).2.1) := by
  have hcleared : shownOf (if x.schema.entities.isEmpty then h else h.note (.clearEntities x.schema.entities)) x =
      shownOf h x := by
    split
    · rfl
    · exact shown_note rfl
  have hstates := congrArg Shown.states hcleared
  have hcache := congrArg Shown.cache hcleared
  unfold identityArrived
  dsimp only
  split
  · exact schemaArrived_shown mac false rfl hstates hcache
  · exact .of_placed (shown_requestSchema mac descriptorTypeEntity 0) rfl hstates hcache

/-- A descriptor takes its place in the schema. -/
theorem entityArrived_shown (mac : Mac) (entity : EntitySchema) (total : UInt8) :
    (shownOf h x).Turn (putEntity x.schema.entities entity) none
      (shownOf (entityArrived c e h x mac entity total).1 (entityArrived c e h x mac entity total).2.1) := by
  have hdiscovery := shown_publishDiscovery (h := h) (x := x) total entity
  unfold entityArrived
  dsimp only
  split
  · exact schemaArrived_shown mac false rfl rfl rfl
  split
  · exact schemaArrived_shown mac true rfl rfl rfl
  · exact .of_placed (shown_requestSchema mac descriptorTypeEntity _) rfl (congrArg Shown.states hdiscovery)
      (congrArg Shown.cache hdiscovery)

theorem schemaMessage_shown {x₀ : Session} (mac : Mac) (message : Bytes)
    (hx : x.schema.entities = x₀.schema.entities) :
    (shownOf h x₀).Turn (((descriptor? message).map (putEntity x₀.schema.entities)).getD x₀.schema.entities) none
      (shownOf (schemaMessage c e h x mac message).1 (schemaMessage c e h x mac message).2.1) := by
  have hsame : shownOf h x = shownOf h x₀ := by rw [shownOf, hx, shownOf]
  rw [← hx, ← hsame]
  unfold schemaMessage
  split
  · next hshort =>
    rw [descriptor?, if_pos (Or.inl hshort)]
    exact .of_eq rfl
  next hlong =>
  split
  · next hidentity =>
    rw [descriptor?, if_pos (Or.inr hidentity)]
    split
    · exact .of_eq rfl
    · exact identityArrived_shown mac _ _
  · next hentity =>
    rw [descriptor?, if_neg (not_or.2 ⟨hlong, hentity⟩)]
    cases parseSchemaPush message with
    | none => exact .of_eq rfl
    | some parsed => exact entityArrived_shown mac parsed.1 parsed.2

/-- A fragment of a descriptor does nothing until the last one. -/
theorem handleSchemaPush_shown (senderMac : Mac) (f : Frame) :
    (shownOf h x).Turn (((x.described c e f).map (putEntity x.schema.entities)).getD x.schema.entities) none
      (shownOf (handleSchemaPush c e h x senderMac f).1 (handleSchemaPush c e h x senderMac f).2.1) := by
  unfold handleSchemaPush Session.described
  split
  · exact .of_eq rfl
  cases (validateSessionPacket c x f).bind EntityPayload.parse with
  | none => exact .of_eq rfl
  | some view =>
    dsimp only [Option.bind_some]
    cases (offerFragment true x.limits x.schemaAssemblies x.schemaReservedBytes view
        (fragmentMessageTxBase f.header.txCounter view) e.now).assembly with
    | none => exact .of_eq rfl
    | some a =>
      dsimp only [Option.bind_some]
      cases a.complete with
      | false => exact .of_eq rfl
      | true =>
        rw [if_pos rfl, if_neg (not_not.2 rfl)]
        refine schemaMessage_shown senderMac _ ?_
        rfl

/-! ## States, heartbeats and acknowledgements -/

theorem shown_markOnline (rssi : Int) (counter : UInt32) (reported : Int) :
    shownOf (markOnline e h x rssi counter reported).1 (markOnline e h x rssi counter reported).2 = shownOf h x :=
  shown_note rfl

theorem stateMessage_shown (senderMac : Mac) (f : Frame) (rssi : Int) (view : EntityPayload) (base : UInt32)
    (a : FragmentAssembly) :
    shownOf (stateMessage e h x senderMac f rssi view base a).1
        (stateMessage e h x senderMac f rssi view base a).2 =
      { shownOf h x with states := (x.schema.entities.getD view.entityIndex.toNat {},
          a.assemble x.limits.maxEntityFragment) :: h.states } := by
  have hpublished (h' : Hub) (y : Session) (key : SessionKey) (base : UInt32) (entity : EntitySchema)
      (value : Bytes) (mac : Mac) (hy : shownOf h' y = shownOf h x) :
      shownOf (h'.note (.publishState key base entity value mac)) y =
        { shownOf h x with states := (entity, value) :: h.states } := by
    have hstates : (h'.note (.publishState key base entity value mac)).states = (entity, value) :: h'.states :=
      List.filterMap_cons_some rfl
    have hsame : h'.states = h.states := congrArg Shown.states hy
    rw [← hy, ← hsame, ← hstates]
    rfl
  unfold stateMessage
  dsimp only
  split <;> split
  · exact hpublished _ _ _ _ _ _ _ (shown_markOnline rssi f.header.txCounter 0)
  · exact hpublished _ _ _ _ _ _ _ rfl
  · exact hpublished _ _ _ _ _ _ _ (shown_markOnline rssi f.header.txCounter 0)
  · exact hpublished _ _ _ _ _ _ _ rfl

/-- The last fragment of a state is published with the entity of its index. -/
theorem handleState_shown (senderMac : Mac) (f : Frame) (rssi : Int) :
    shownOf (handleState c e h x senderMac f rssi).1 (handleState c e h x senderMac f rssi).2.1 =
      { shownOf h x with states := (x.stateBrought c e f).toList ++ h.states } := by
  unfold handleState Session.stateBrought
  split
  · rfl
  cases validateSessionPacket c x f with
  | none => exact shown_sendDeauth senderMac f
  | some plaintext =>
    dsimp only [Option.bind_some]
    cases EntityPayload.parse plaintext with
    | none => rfl
    | some view =>
      dsimp only [Option.bind_some]
      split
      · unfold storeState
        dsimp only
        cases (offerFragment true x.limits x.stateAssemblies x.stateReservedBytes view
            (fragmentMessageTxBase f.header.txCounter view) e.now).assembly with
        | none => rfl
        | some a =>
          dsimp only [Option.bind_some]
          cases a.complete with
          | false => rfl
          | true =>
            rw [if_neg (not_not.2 rfl), if_pos rfl]
            exact stateMessage_shown senderMac f rssi view _ a
      split
      · exact shown_sendEncrypted senderMac .ack downHop _
      · rfl

theorem confirmStateDelivery_shown (base : UInt32) (mac : Mac) :
    shownOf (confirmStateDelivery c e h x base mac).1 (confirmStateDelivery c e h x base mac).2.1 =
      shownOf h x := by
  unfold confirmStateDelivery
  dsimp only
  refine (shown_sendEncrypted mac .ack downHop _).trans ?_
  split
  · split
    · exact shown_sendJoinComplete mac true
    · rfl
  · rfl

theorem handleHeartbeat_shown (senderMac : Mac) (f : Frame) (rssi : Int) :
    shownOf (handleHeartbeat c e h x senderMac f rssi).1 (handleHeartbeat c e h x senderMac f rssi).2.1 =
      shownOf h x := by
  unfold handleHeartbeat
  split
  · rfl
  split
  · rfl
  split
  · rfl
  split
  · rfl
  dsimp only [becomeNormal]
  split
  · exact shown_note rfl
  · rfl

theorem comeBack_shown (rssi : Int) (counter : UInt32) :
    shownOf (comeBack e h x rssi counter).1 (comeBack e h x rssi counter).2 = shownOf h x := by
  unfold comeBack
  split
  · exact shown_markOnline rssi counter 0
  · rfl

theorem dispatchAck_shown (plaintext : Bytes) (rssi : Int) (counter : UInt32) :
    shownOf (dispatchAck e h x plaintext rssi counter).1 (dispatchAck e h x plaintext rssi counter).2.1 =
      shownOf h x := by
  unfold dispatchAck
  dsimp only
  split
  · exact shown_note rfl
  split
  · unfold configAcked
    split
    · rfl
    · exact (shown_note rfl).trans (comeBack_shown rssi counter)
  · refine (comeBack_shown rssi counter).trans ?_
    split <;> rfl

theorem handleAck_shown (f : Frame) (rssi : Int) :
    shownOf (handleAck c e h x f rssi).1 (handleAck c e h x f rssi).2.1 = shownOf h x := by
  unfold handleAck
  split
  · rfl
  split
  · rfl
  split
  · rfl
  dsimp only
  split
  · rfl
  · exact dispatchAck_shown _ rssi f.header.txCounter

/-! ## Dispatch -/

/-- What a call that makes this of the schema and brings this state does to the bridge. -/
structure Turn (b : Bridge) (change : SchemaChange) (brought : Option (EntitySchema × Bytes)) (b' : Bridge) :
    Prop where
  entities : b'.session?.map (·.schema.entities) = change.apply (b.session?.map (·.schema.entities))
  states : b'.hub.states = brought.toList ++ b.hub.states
  cache : ∀ p ∈ b'.hub.schemaCache,
    p ∈ b.hub.schemaCache ∨ b'.session?.map (·.schema.entities) = some p.2.entities

theorem Turn.refl (b : Bridge) : b.Turn .keep none b := ⟨rfl, rfl, fun _ => .inl⟩

/-- The session that a handler leaves. -/
theorem Shown.Turn.store {b : Bridge} {o : Outcome} {left : List EntitySchema}
    {brought : Option (EntitySchema × Bytes)} {change : SchemaChange}
    (h : (shownOf b.hub x).Turn left brought (shownOf o.1 o.2.1))
    (hchange : change.apply (b.session?.map (·.schema.entities)) = some left) :
    b.Turn change brought (b.store o).1 := by
  have hleft : (b.store o).1.session?.map (·.schema.entities) = some left := congrArg some h.entities
  refine ⟨hleft.trans hchange.symm, h.states, fun p hp => ?_⟩
  rw [hleft, Option.some.injEq, eq_comm]
  exact h.cache p hp

/-- A handler that leaves everything. -/
theorem Turn.of_stored {b : Bridge} {o : Outcome} (hx : b.session? = some x)
    (hsame : shownOf o.1 o.2.1 = shownOf b.hub x) : b.Turn .keep none (b.store o).1 := by
  refine (Shown.Turn.of_eq hsame).store ?_
  rw [hx]
  rfl

theorem noteHops_shown (f : Frame) (senderMac : Mac) (rssi : Int) :
    shownOf (noteHops h (x.heardFrom senderMac rssi).countPacket f).1
      (noteHops h (x.heardFrom senderMac rssi).countPacket f).2 = shownOf h x := by
  unfold noteHops
  dsimp only
  split
  · rfl
  · exact shown_note rfl

/-- What a session brings does not depend on the data of its link. -/
theorem noteHops_stateBrought (f : Frame) (senderMac : Mac) (rssi : Int) :
    (noteHops h (x.heardFrom senderMac rssi).countPacket f).2.stateBrought c e f = x.stateBrought c e f := by
  unfold noteHops
  dsimp only
  split <;> rfl

theorem frameState_of {b : Bridge} (hx : b.session? = some x) (f : Frame) (len : Nat) :
    b.frameState c e f len =
      if f.type? = some .state ∧ len ≤ x.sessionMaxPayload then x.stateBrought c e f else none := by
  unfold frameState
  rw [hx, Option.filter_some]
  by_cases htype : f.type? = some .state <;> by_cases hlen : len ≤ x.sessionMaxPayload <;> simp [htype, hlen]

theorem turn_handleState {b : Bridge} {noted : Hub × Session} {f : Frame} (hx : b.session? = some x)
    (hnoted : shownOf noted.1 noted.2 = shownOf b.hub x)
    (hbrings : noted.2.stateBrought c e f = x.stateBrought c e f) (senderMac : Mac) (rssi : Int) :
    b.Turn .keep (x.stateBrought c e f) (b.store (handleState c e noted.1 noted.2 senderMac f rssi)).1 := by
  have hstate := handleState_shown (c := c) (e := e) (h := noted.1) (x := noted.2) senderMac f rssi
  rw [hbrings] at hstate
  have hturn : (shownOf b.hub x).Turn x.schema.entities (x.stateBrought c e f)
      (shownOf (handleState c e noted.1 noted.2 senderMac f rssi).1
        (handleState c e noted.1 noted.2 senderMac f rssi).2.1) := by
    refine ⟨(congrArg Shown.entities hstate).trans (congrArg Shown.entities hnoted), ?_, fun p hp => .inl ?_⟩
    · refine (congrArg Shown.states hstate).trans ?_
      exact congrArg ((x.stateBrought c e f).toList ++ ·) (congrArg Shown.states hnoted)
    · rw [hstate] at hp
      exact congrArg Shown.cache hnoted ▸ hp
  refine hturn.store ?_
  rw [hx]
  rfl

theorem onSessionFrame_change (b : Bridge) (senderMac : Mac) (f : Frame) (len : Nat) (rssi : Int) :
    b.Turn .keep (b.frameState c e f len) (b.onSessionFrame c e senderMac f len rssi).1 := by
  unfold onSessionFrame
  split
  · next hx =>
    have hsent := shown_sendDeauth (c := c) (e := e) (h := b.hub) (x := { leafMac := f.header.leafMac })
      senderMac f
    have hcache : (sendDeauth c e b.hub senderMac { leafMac := f.header.leafMac } f).1.schemaCache =
      b.hub.schemaCache := congrArg Shown.cache hsent
    have hnone : b.frameState c e f len = none := by
      rw [frameState, hx]
      exact ite_self none
    rw [hnone]
    exact ⟨rfl, congrArg Shown.states hsent, fun p hp => .inl (hcache ▸ hp)⟩
  next x hx =>
  have hnoted := noteHops_shown (h := b.hub) (x := x) f senderMac rssi
  have hbrings := noteHops_stateBrought (c := c) (e := e) (h := b.hub) (x := x) f senderMac rssi
  have hmtu : (noteHops b.hub (x.heardFrom senderMac rssi).countPacket f).2.sessionMaxPayload =
      x.sessionMaxPayload := by
    unfold noteHops
    dsimp only
    split <;> rfl
  have hheard : (x.heardFrom senderMac rssi).sessionKeyValid = x.sessionKeyValid := rfl
  rw [frameState_of hx]
  dsimp only
  rw [hheard]
  by_cases hvalid : x.sessionKeyValid = true
  · rw [if_neg (not_not.2 hvalid)]
    generalize noteHops b.hub (x.heardFrom senderMac rssi).countPacket f = noted at hnoted hbrings hmtu ⊢
    rw [hmtu]
    by_cases hlen : len ≤ x.sessionMaxPayload
    · rw [if_neg hlen.not_gt]
      by_cases hstate : f.type? = some .state
      · rw [if_pos ⟨hstate, hlen⟩, hstate]
        exact turn_handleState hx hnoted hbrings senderMac rssi
      · rw [if_neg fun h => hstate h.1]
        split
        · next htype => exact absurd htype hstate
        · exact .of_stored hx ((handleHeartbeat_shown senderMac f rssi).trans hnoted)
        · exact .of_stored hx ((handleAck_shown f rssi).trans hnoted)
    · rw [if_pos (not_le.1 hlen), if_neg fun h => hlen h.2]
      exact .of_stored hx hnoted
  · have hnone : x.stateBrought c e f = none := if_pos hvalid
    rw [if_pos hvalid, hnone, ite_self]
    exact .of_stored hx (shown_sendDeauth senderMac f)

theorem frameState_none {b : Bridge} {f : Frame} (htype : f.type? ≠ some .state) (len : Nat) :
    b.frameState c e f len = none := if_neg htype

/-- What a frame changes is said by its type, before it is handled. -/
theorem onFrame_change (b : Bridge) (senderMac : Mac) (f : Frame) (len : Nat) (rssi : Int) (hours : b.addressed f) :
    b.Turn (b.frameChange c e f) (b.frameState c e f len) (b.onFrame c e senderMac f len rssi).1 := by
  unfold addressed at hours
  unfold onFrame
  rw [if_neg (not_not.2 hours)]
  split
  · next htype =>
    rw [frameChange, htype, frameState_none (by rw [htype]; nofun)]
    dsimp only
    split
    · exact Shown.Turn.store (x := b.ensureSession) (.of_eq rfl) rfl
    · exact .refl b
  · next htype =>
    rw [frameChange, htype, frameState_none (by rw [htype]; nofun)]
    dsimp only
    split
    swap
    · exact .refl b
    next hsize =>
    rw [if_neg (not_not.2 hsize)]
    have hturn : (shownOf b.hub b.ensureSession).Turn (b.ensureSession.joinEntities b.hub f) none
        (shownOf (handleJoin c e b.hub b.ensureSession senderMac f rssi).1
          (handleJoin c e b.hub b.ensureSession senderMac f rssi).2.1) := by
      rw [handleJoin_shown]
      exact ⟨rfl, rfl, fun _ => .inl⟩
    exact hturn.store rfl
  · next htype =>
    rw [frameChange, htype, frameState_none (by rw [htype]; nofun)]
    cases hx : b.session? with
    | none => exact .refl b
    | some x =>
      refine Shown.Turn.store (handleSchemaPush_shown senderMac f) ?_
      rw [hx, Option.bind_some]
      cases x.described c e f <;> rfl
  · next htype =>
    rw [frameChange, htype]
    exact onSessionFrame_change b senderMac f len rssi
  · next htype =>
    rw [frameChange, htype]
    exact onSessionFrame_change b senderMac f len rssi
  · next htype =>
    rw [frameChange, htype]
    exact onSessionFrame_change b senderMac f len rssi
  · next hdiscover hjoin hschema hstate _ _ =>
    have hkeep : b.frameChange c e f = .keep := by
      unfold frameChange
      split
      · next htype => exact absurd htype hdiscover
      · next htype => exact absurd htype hjoin
      · next htype => exact absurd htype hschema
      · rfl
    rw [hkeep, frameState_none hstate]
    exact .refl b

/-! ## The loop -/

/-- What a call does that brings nothing. -/
structure Rests (gone : Bool) (b b' : Bridge) : Prop where
  entities : b'.session?.map (·.schema.entities) = if gone then none else b.session?.map (·.schema.entities)
  states : b'.hub.states = b.hub.states
  cache : b'.hub.schemaCache ⊆ b.hub.schemaCache

theorem Rests.refl (b : Bridge) : b.Rests false b := ⟨rfl, rfl, List.Subset.refl _⟩

/-- Steps that change neither schema nor states do not do so together. -/
theorem Rests.trans {b b' b'' : Bridge} {gone gone' : Bool} (h : b.Rests gone b') (h' : b'.Rests gone' b'') :
    b.Rests (gone || gone') b'' := by
  refine ⟨?_, h'.states.trans h.states, List.Subset.trans h'.cache h.cache⟩
  rw [h'.entities, h.entities]
  cases gone <;> cases gone' <;> rfl

theorem Rests.turn {b b' : Bridge} {gone : Bool} (h : b.Rests gone b') :
    b.Turn (if gone then .gone else .keep) none b' := by
  refine ⟨?_, h.states, fun p hp => .inl (h.cache hp)⟩
  rw [h.entities]
  cases gone <;> rfl

/-- A session whose schema stays, in a hub with the same states and caches. -/
theorem Rests.of_eq {b : Bridge} {y : Session} (hx : b.session? = some x) (hsame : shownOf h y = shownOf b.hub x) :
    b.Rests false { b with hub := h, session? := some y } := by
  have hcache : h.schemaCache = b.hub.schemaCache := congrArg Shown.cache hsame
  refine ⟨?_, congrArg Shown.states hsame, fun _ hp => hcache ▸ hp⟩
  rw [hx]
  exact congrArg some (congrArg Shown.entities hsame)

theorem loopOffline_shown : shownOf (loopOffline e h x).1 (loopOffline e h x).2 = shownOf h x := by
  unfold loopOffline
  split
  · exact shown_note rfl
  · rfl

theorem loopSchemaRequest_shown :
    shownOf (loopSchemaRequest c e h x).1 (loopSchemaRequest c e h x).2 = shownOf h x := by
  unfold loopSchemaRequest
  split
  · split
    · exact shown_requestSchema x.link.nextHopMac _ _
    · exact shown_note rfl
  · rfl

theorem loopJoinComplete_shown :
    shownOf (loopJoinComplete c e h x).1 (loopJoinComplete c e h x).2 = shownOf h x := by
  unfold loopJoinComplete
  split
  · split
    · have hsent := shown_sendJoinComplete (c := c) (e := e) (h := h) (x := x) x.link.nextHopMac false
      generalize sendJoinComplete c e h x.link.nextHopMac x false = o at hsent ⊢
      obtain ⟨h', y, _ | _⟩ := o
      · exact hsent
      · exact hsent
    · exact (shown_note rfl).trans (shown_note rfl)
  · rfl

theorem loopDiscoverAnnounce_shown :
    shownOf (loopDiscoverAnnounce c e h x).1 (loopDiscoverAnnounce c e h x).2 = shownOf h x := by
  unfold loopDiscoverAnnounce
  split
  · exact shown_sendPlainPsk _ _ _ _ _
  · rfl

theorem loopSlot_shown : shownOf (h.loopSlot e) x = shownOf h x := by
  unfold Hub.loopSlot
  split <;> rfl

theorem loopSession_shown : shownOf (loopSession c e h x).1 (loopSession c e h x).2 = shownOf h x := by
  have hsync (h : Hub) (x : Session) : shownOf h (x.loopStateSync e) = shownOf h x := by
    unfold Session.loopStateSync
    split <;> rfl
  unfold loopSession
  dsimp only
  rw [loopDiscoverAnnounce_shown, loopSlot_shown, loopJoinComplete_shown, hsync, loopSchemaRequest_shown,
    loopOffline_shown]
  rfl

theorem loopSession?_rests (b : Bridge) : b.Rests false (b.loopSession? c e) := by
  unfold loopSession?
  split
  · next hx =>
    have hslot : shownOf (b.hub.loopSlot e) { leafMac := b.leafMac } = shownOf b.hub { leafMac := b.leafMac } :=
      loopSlot_shown
    have hcache : (b.hub.loopSlot e).schemaCache = b.hub.schemaCache := congrArg Shown.cache hslot
    exact ⟨rfl, congrArg Shown.states hslot, fun _ hp => hcache ▸ hp⟩
  · next hx => exact .of_eq hx loopSession_shown

theorem evict_rests (b : Bridge) : b.Rests true b.evict := by
  unfold evict
  split
  · next hx => exact ⟨congrArg _ hx, rfl, List.Subset.refl _⟩
  · next x hx =>
    have hcleared : shownOf ((if x.online then b.hub.note (.availability false .evicted) else b.hub).note
        (.clearEntities x.schema.entities)) x = shownOf b.hub x := by
      refine (shown_note rfl).trans ?_
      split
      · exact shown_note rfl
      · rfl
    have hcache := congrArg Shown.cache hcleared
    refine ⟨rfl, congrArg Shown.states hcleared, fun p hp => ?_⟩
    rw [← show _ = b.hub.schemaCache from hcache]
    exact (List.mem_filter.mp hp).1

theorem sendConfigFrame_shown (y : Session) (p : PendingConfig) :
    shownOf (sendConfigFrame c e h x p).1 y = shownOf h y := by
  unfold sendConfigFrame
  split
  · rfl
  split
  · rfl
  · exact shown_sendEncryptedWithTxCounterResult _ .config _ _ _

theorem loopConfig_shown (y : Session) (x? : Option Session) (p : PendingConfig) :
    shownOf (loopConfig c e h x? p).1 y = shownOf h y := by
  unfold loopConfig
  split
  · rfl
  split
  · exact shown_note rfl
  split
  · exact shown_note rfl
  · exact sendConfigFrame_shown y _

theorem loopConfigs_shown (y : Session) (x? : Option Session) (ps : List PendingConfig) :
    shownOf (loopConfigs c e x? ps h).1 y = shownOf h y := by
  induction ps generalizing h with
  | nil => rfl
  | cons p ps ih => exact (ih ..).trans (loopConfig_shown y x? p)

/-- A hub with the same states and caches. -/
theorem Rests.of_hub {b : Bridge}
    (hsame : shownOf h { leafMac := b.leafMac } = shownOf b.hub { leafMac := b.leafMac }) :
    b.Rests false { b with hub := h } := by
  have hcache : h.schemaCache = b.hub.schemaCache := congrArg Shown.cache hsame
  exact ⟨rfl, congrArg Shown.states hsame, fun _ hp => hcache ▸ hp⟩

theorem loopCommand_rests (b : Bridge) (p : PendingCommand) (draw : Nat) : b.Rests false
    { b with
      hub := (loopCommand c e b.hub b.session? p draw).1
      session? := (loopCommand c e b.hub b.session? p draw).2.1 } := by
  unfold loopCommand
  split
  · split
    · next hx => exact ⟨congrArg _ hx.symm, rfl, List.Subset.refl _⟩
    · next x hx => exact .of_eq hx (shown_note rfl)
  split
  · split
    · exact .refl b
    · next x hready =>
      refine .of_eq (Option.filter_eq_some_iff.1 hready).1 ?_
      exact shown_sendCommandLoop ..
  · exact .refl b

theorem loopCommands_rests (ps : List (PendingCommand × Nat)) (b : Bridge) : b.Rests false
    { b with
      hub := (loopCommands c e ps b.hub b.session?).1
      session? := (loopCommands c e ps b.hub b.session?).2.1 } := by
  induction ps generalizing b with
  | nil => exact .refl b
  | cons p ps ih => exact (loopCommand_rests b p.1 p.2).trans (ih _)

/-- The queues change neither. -/
theorem loopQueues_rests (b : Bridge) : b.Rests false (b.loopQueues c e) := by
  have hconfigs : b.Rests false { b with hub := { (loopConfigs c e b.session? b.hub.pendingConfigs b.hub).1 with
      pendingConfigs := (loopConfigs c e b.session? b.hub.pendingConfigs b.hub).2 } } :=
    .of_hub (loopConfigs_shown { leafMac := b.leafMac } b.session? b.hub.pendingConfigs)
  have hcommands := hconfigs.trans (loopCommands_rests (c := c) (e := e)
    ((loopConfigs c e b.session? b.hub.pendingConfigs b.hub).1.commandQueue.zipIdx 2) _)
  exact ⟨hcommands.entities, hcommands.states, hcommands.cache⟩

/-- What the loop does: the session stays as it is or goes. -/
theorem loop_rests (b : Bridge) : b.Rests (e.evict || e.evictCritical) (b.loop c e) := by
  have hfirst : b.Rests e.evict (if e.evict then b.evict else b) := by
    cases e.evict with
    | false => exact .refl b
    | true => exact evict_rests b
  have hsecond (b : Bridge) : b.Rests e.evictCritical (if e.evictCritical then b.evict else b) := by
    cases e.evictCritical with
    | false => exact .refl b
    | true => exact evict_rests b
  have hall := ((hfirst.trans (loopSession?_rests (c := c) (e := e) _)).trans (hsecond _)).trans
    (loopQueues_rests (c := c) (e := e) _)
  rw [Bool.or_false, Bool.or_false] at hall
  exact hall

/-! ## All calls -/

theorem sendCommandToLeaf_shown (index : UInt8) (value : Bytes) :
    shownOf (sendCommandToLeaf c e h x index value).1 (sendCommandToLeaf c e h x index value).2.1 =
      shownOf h x := by
  unfold sendCommandToLeaf
  split
  · rfl
  · have hsent : shownOf (sendCommandFragments c e h x.link.nextHopMac x index value x.txCounter true).1
        (sendCommandFragments c e h x.link.nextHopMac x index value x.txCounter true).2.1 = shownOf h x :=
      shown_sendCommandLoop ..
    unfold sendCommand
    generalize sendCommandFragments c e h x.link.nextHopMac x index value x.txCounter true = o at hsent ⊢
    obtain ⟨h', y, _ | _⟩ := o
    · exact hsent
    · exact hsent

theorem sendConfigToLeaf_shown (cmd : UInt8) (payload : Bytes) :
    shownOf (sendConfigToLeaf c e h x cmd payload).1 (sendConfigToLeaf c e h x cmd payload).2.1 = shownOf h x := by
  unfold sendConfigToLeaf
  split
  · rfl
  split
  · rfl
  · dsimp only
    split <;> exact sendConfigFrame_shown x _

theorem sendOtaFrame_shown (type : PacketType) (payload : Bytes) :
    shownOf (sendOtaFrame c e h x type payload).1 (sendOtaFrame c e h x type payload).2.1 = shownOf h x := by
  unfold sendOtaFrame
  split
  · rfl
  split
  · rfl
  · exact shown_sendEncryptedWithTxCounterResult x.link.nextHopMac type downHop x.txCounter payload

theorem discoveryConfirmed_shown (index : UInt8) (success : Bool) :
    shownOf (discoveryConfirmed c e h x index success).1 (discoveryConfirmed c e h x index success).2 =
      shownOf h x := by
  have hcounted : shownOf h { x with schema := x.schema.countConfirmed } = shownOf h x := by
    unfold Schema.countConfirmed
    split <;> rfl
  unfold discoveryConfirmed
  split
  · split
    · exact hcounted
    · rfl
  split
  · exact shown_requestSchema x.link.nextHopMac descriptorTypeEntity index
  · dsimp only
    split
    · exact hcounted
    · exact (shown_requestSchema x.link.nextHopMac descriptorTypeEntity _).trans hcounted

theorem frame_change (b : Bridge) (senderMac : Mac) (data : Bytes) (rssi : Int) :
    b.Turn (b.schemaChange c (.frame e senderMac data rssi)) (b.stateBrought c (.frame e senderMac data rssi))
      (b.onEspnowFrame c e senderMac data rssi).1 := by
  unfold schemaChange stateBrought frame? onEspnowFrame
  dsimp only
  cases parsePacket c data with
  | none => exact .refl b
  | some f =>
    dsimp only
    by_cases hmac : f.header.leafMac = b.leafMac
    · rw [if_pos hmac]
      by_cases hours : b.addressed f
      · rw [Option.filter_some_pos (by rw [beq_iff_eq.2 hmac, hours]; rfl)]
        exact onFrame_change b senderMac f data.length rssi hours
      · have hforeign : b.onFrame c e senderMac f data.length rssi = (b, false) := by
          unfold onFrame
          exact if_pos hours
        rw [Option.filter_some_neg (by rw [Bool.eq_false_iff.2 hours, Bool.and_false]), hforeign]
        exact .refl b
    · rw [Option.filter_some_neg (by rw [beq_eq_false_iff_ne.2 hmac]; rfl), if_neg hmac]
      exact .refl b

/-- What a call does to the schema of the session, to the cached schemas and to the states. -/
theorem call_change (b : Bridge) (k : Call) (hk : ∀ slot, k ≠ .others slot) :
    b.Turn (b.schemaChange c k) (b.stateBrought c k) (b.call c k) := by
  cases k with
  | frame e senderMac data rssi => exact frame_change b senderMac data rssi
  | loop e => exact (loop_rests b).turn
  | command e index value =>
    simp only [call]
    unfold command
    split
    · exact .refl b
    · next hx => exact .of_stored hx (sendCommandToLeaf_shown index value)
  | configure e cmd payload =>
    simp only [call]
    unfold configure
    split
    · exact .refl b
    · next hx => exact .of_stored hx (sendConfigToLeaf_shown cmd payload)
  | otaFrame e type payload =>
    simp only [call]
    unfold otaFrame
    split
    · exact .refl b
    · next hx => exact (Rests.of_eq hx (sendOtaFrame_shown type payload)).turn
  | confirmState e base mac =>
    simp only [call]
    unfold confirmState
    split
    · exact .refl b
    · next hx => exact .of_stored hx (confirmStateDelivery_shown base mac)
  | discoveryConfirmed e index success =>
    simp only [call]
    unfold confirmDiscovery
    split
    · exact .refl b
    · next hx => exact (Rests.of_eq hx (discoveryConfirmed_shown index success)).turn
  | invalidate =>
    simp only [call]
    unfold invalidateAllSessions
    split
    · next hx => exact ⟨congrArg _ hx, rfl, List.forall_mem_nil _⟩
    · next x hx =>
      have hcleared : shownOf ((b.hub.note (.availability false .manual)).note
          (.clearEntities x.schema.entities)) x = shownOf b.hub x := (shown_note rfl).trans (shown_note rfl)
      exact ⟨rfl, congrArg Shown.states hcleared, List.forall_mem_nil _⟩
  | restart => exact ⟨rfl, rfl, List.forall_mem_nil _⟩
  | others slot => exact absurd rfl (hk slot)

/-- The schema after a call, from the call and the bridge before it. -/
theorem call_entities (c : Crypto) (b : Bridge) (k : Call) :
    (b.call c k).session?.map (·.schema.entities) =
      (b.schemaChange c k).apply (b.session?.map (·.schema.entities)) := by
  cases k with
  | others slot => rfl
  | _ => exact (call_change b _ fun _ h => by cases h).entities

/-- The states that a call publishes. -/
theorem call_states (c : Crypto) (b : Bridge) (k : Call) :
    (b.call c k).hub.states = (b.stateBrought c k).toList ++ b.hub.states := by
  cases k with
  | others slot => rfl
  | _ => exact (call_change b _ fun _ h => by cases h).states

end

/-! ## Schemas are put together from descriptors -/

/-- The entities have come in one after the other. -/
def Assembled (entities : List EntitySchema) : Prop :=
  ∃ descriptors : List EntitySchema, entities = descriptors.foldl putEntity []

theorem Assembled.nil : Assembled [] := ⟨[], rfl⟩

/-- Putting a descriptor in its place keeps a schema assembled. -/
theorem Assembled.put {entities : List EntitySchema} (h : Assembled entities) (entity : EntitySchema) :
    Assembled (putEntity entities entity) := by
  obtain ⟨descriptors, rfl⟩ := h
  refine ⟨descriptors ++ [entity], ?_⟩
  rw [List.foldl_append]
  rfl

/-- So every entity is in its place. -/
theorem Assembled.indexed {entities : List EntitySchema} (h : Assembled entities) : Indexed entities := by
  obtain ⟨descriptors, rfl⟩ := h
  induction descriptors using List.reverseRecOn with
  | nil => exact .nil
  | append_singleton descriptors entity ih =>
    rw [List.foldl_append]
    exact ih.putEntity entity

/-- The schemas of the session and of the cache are put together from descriptors. -/
structure Assembles (b : Bridge) : Prop where
  session : ∀ entities, b.session?.map (·.schema.entities) = some entities → Assembled entities
  cache : ∀ p ∈ b.hub.schemaCache, Assembled p.2.entities

/-- What other leaves leave in the cache is put together from descriptors too. -/
def Call.Fair : Call → Prop
  | .others slot => ∀ p ∈ slot.schemaCache, Assembled p.2.entities
  | _ => True

section

variable {c : Crypto} {e : Env} {b : Bridge}

theorem Assembles.ensureSession (h : b.Assembles) : Assembled b.ensureSession.schema.entities := by
  unfold Bridge.ensureSession
  cases hx : b.session? with
  | none => exact .nil
  | some x => exact h.session _ (congrArg (Option.map (·.schema.entities)) hx)

theorem Assembles.joinEntities (h : b.Assembles) (f : Frame) :
    Assembled (b.ensureSession.joinEntities b.hub f) := by
  have hkept := h.ensureSession
  unfold Session.joinEntities
  dsimp only
  split
  · exact hkept
  split
  · exact hkept
  generalize (if b.ensureSession.schema.identity.esphomeName.isEmpty then macHex b.ensureSession.leafMac
    else b.ensureSession.schema.identity.esphomeName) = key
  split
  · cases hcached : b.hub.schemaCache.lookup key with
    | none => exact hkept
    | some cached =>
      obtain ⟨before, after, hcache, -⟩ := List.lookup_eq_some_iff.mp hcached
      refine h.cache (key, cached) ?_
      rw [hcache]
      exact List.mem_append_right before List.mem_cons_self
  · exact .nil

theorem frameChange_cases (b : Bridge) (f : Frame) :
    b.frameChange c e f = .keep ∨ b.frameChange c e f = .schema b.ensureSession.schema.entities ∨
      b.frameChange c e f = .schema (b.ensureSession.joinEntities b.hub f) ∨
      ∃ x entity, b.session? = some x ∧ b.frameChange c e f = .descriptor entity := by
  unfold frameChange
  split
  · split
    · exact .inr (.inl rfl)
    · exact .inl rfl
  · split
    · exact .inr (.inr (.inl rfl))
    · exact .inl rfl
  · cases hx : b.session? with
    | none => exact .inl rfl
    | some x =>
      rw [Option.bind_some]
      cases x.described c e f with
      | none => exact .inl rfl
      | some entity => exact .inr (.inr (.inr ⟨x, entity, rfl, rfl⟩))
  · exact .inl rfl

/-- What a call makes of the schema. -/
theorem schemaChange_cases (c : Crypto) (b : Bridge) (k : Call) :
    b.schemaChange c k = .keep ∨ b.schemaChange c k = .gone ∨
      b.schemaChange c k = .schema b.ensureSession.schema.entities ∨
      (∃ f, b.schemaChange c k = .schema (b.ensureSession.joinEntities b.hub f)) ∨
      ∃ x entity, b.session? = some x ∧ b.schemaChange c k = .descriptor entity := by
  unfold schemaChange
  split
  · split
    · exact .inr (.inl rfl)
    · exact .inl rfl
  · exact .inr (.inl rfl)
  · exact .inr (.inl rfl)
  · split
    · exact .inl rfl
    · next e f _ _ =>
      rcases frameChange_cases (c := c) (e := e) b f with hkeep | hsame | hjoin | hentity
      · exact .inl hkeep
      · exact .inr (.inr (.inl hsame))
      · exact .inr (.inr (.inr (.inl ⟨f, hjoin⟩)))
      · exact .inr (.inr (.inr (.inr hentity)))

/-- Whatever happens to the schema of the session leaves it put together from descriptors. -/
theorem Assembles.change (h : b.Assembles) (k : Call) (entities : List EntitySchema)
    (hafter : (b.schemaChange c k).apply (b.session?.map (·.schema.entities)) = some entities) :
    Assembled entities := by
  rcases schemaChange_cases c b k with hkeep | hgone | hsame | ⟨f, hjoin⟩ | ⟨x, entity, hx, hentity⟩
  · rw [hkeep] at hafter
    exact h.session _ hafter
  · rw [hgone] at hafter
    cases hafter
  · rw [hsame] at hafter
    cases hafter
    exact h.ensureSession
  · rw [hjoin] at hafter
    cases hafter
    exact h.joinEntities f
  · rw [hentity, hx] at hafter
    cases hafter
    exact (h.session _ (congrArg (Option.map (·.schema.entities)) hx)).put entity

/-- Every schema of the bridge is put together from descriptors, after every call. -/
theorem call_assembles (h : b.Assembles) {k : Call} (hk : k.Fair) : (b.call c k).Assembles := by
  by_cases hothers : ∃ slot, k = .others slot
  · obtain ⟨slot, rfl⟩ := hothers
    exact ⟨h.session, hk⟩
  · have hturn := call_change (c := c) b k (not_exists.1 hothers)
    have hsession (entities : List EntitySchema)
        (hx : (b.call c k).session?.map (·.schema.entities) = some entities) : Assembled entities := by
      rw [call_entities] at hx
      exact h.change k entities hx
    refine ⟨hsession, fun p hp => ?_⟩
    rcases hturn.cache p hp with hold | hnew
    · exact h.cache p hold
    · exact hsession _ hnew

/-- A state has the entity of its index, or none, and the schema stays. -/
theorem stateBrought_some {k : Call} {p : EntitySchema × Bytes} (h : b.stateBrought c k = some p) :
    b.schemaChange c k = .keep ∧
      ∃ x, ∃ index : UInt8, b.session? = some x ∧ p.1 = x.schema.entities.getD index.toNat {} := by
  obtain ⟨⟨e, f, len⟩, hframe, hstate⟩ := Option.bind_eq_some_iff.1 h
  dsimp only at hstate
  have htype : f.type? = some .state := by
    by_contra hother
    rw [frameState_none hother] at hstate
    cases hstate
  constructor
  · cases k with
    | frame e' senderMac data rssi =>
      unfold schemaChange
      dsimp only
      rw [hframe]
      dsimp only
      rw [frameChange, htype]
    | _ => cases hframe
  · rw [frameState, if_pos htype] at hstate
    obtain ⟨x, hx, hbrought⟩ := Option.bind_eq_some_iff.1 hstate
    refine ⟨x, ?_⟩
    unfold Session.stateBrought at hbrought
    split at hbrought
    · cases hbrought
    obtain ⟨view, -, hview⟩ := Option.bind_eq_some_iff.1 hbrought
    dsimp only at hview
    split at hview
    · obtain ⟨a, -, ha⟩ := Option.bind_eq_some_iff.1 hview
      split at ha
      · cases ha
        exact ⟨view.entityIndex, (Option.filter_eq_some_iff.1 hx).1, rfl⟩
      · cases ha
    · cases hview

/-! ## The leaf -/

/-- The session is that of the leaf. -/
def Named (b : Bridge) : Prop := ∀ x, b.session? = some x → x.leafMac = b.leafMac

theorem Named.eq {m : Mac} {h : Hub} {x : Session} (hnamed : Named ⟨m, h, some x⟩) : x.leafMac = m :=
  hnamed x rfl

/-- A session stays that of its leaf. -/
theorem Move.leafMac {k : Call} {b₀ t t' : Bridge} (hmove : Move c k b₀ t t') : t'.leafMac = t.leafMac := by
  cases hmove with
  | send hsend => cases hsend <;> rfl
  | _ => rfl

theorem Move.named {k : Call} {b₀ t t' : Bridge} (hmove : Move c k b₀ t t') (h : t.Named) : t'.Named := by
  intro x' hx'
  cases hmove with
  | send hsend =>
    cases hsend with
    | hub | note => exact h x' hx'
    | session hcore =>
      cases hx'
      exact (congrArg Core.leafMac hcore).trans h.eq
    | bump | encrypt =>
      cases hx'
      exact h.eq
  | create =>
    cases hx'
    rfl
  | drop | restart => cases hx'
  | rekey _ _ _ _ _ _ _ hcore =>
    cases hx'
    exact (congrArg Core.leafMac hcore).trans h.eq
  | invalidate | restored | abandon | rejoin | seen | seenMax | online | stateAck | commandFragment
  | up | down | giveUp | confirmed =>
    cases hx'
    exact h.eq
  | publish | hops | queueCommand | queueConfig | retryCommand | retryConfig | queues => exact h x' hx'

theorem call_leafMac (c : Crypto) (b : Bridge) (k : Call) : (b.call c k).leafMac = b.leafMac :=
  call_invariant (I := fun t => t.leafMac = b.leafMac) (fun _ _ h hmove => hmove.leafMac.trans h) rfl

theorem call_named (h : b.Named) (k : Call) : (b.call c k).Named :=
  call_invariant (k := k) (fun _ _ h hmove => hmove.named h) h

end

end Bridge

end EspTree
