import EspTree.Bridge.Moves

/-!
# The bridge: when a leaf was last heard

`last_seen_bridge_uptime_s` is written where a handler has accepted a frame, and nowhere else.  `accepts`
says which frames these are, from the frame and the state before it; `call_contact` goes through the code
once and says that every other call leaves the time alone and brings no leaf online.

`accepts` is split by the type of the frame (`acceptsJoin`, `Session.acceptsState` and so on), and
each part has the checks of its handler up to the write, in their order.  A frame that is accepted
may still be of no use: a `STATE` that is not newer than the last one counts as contact.

`Contact` is the relation of a call, and it composes with the parts that do not touch the link
(`SameLink`), so that the loop and the API calls need one lemma for each function.
-/

namespace EspTree

open Wire OtaManager

namespace Bridge

/-! ## Accepted frames -/

section

variable (c : Crypto) (e : Env)

/-- A `JOIN` is accepted unless another leaf has the join slot. -/
def acceptsJoin (h : Hub) (f : Frame) : Bool :=
  f.payload.length == Join.size && !(h.joiningInProgress && f.header.leafMac != h.joiningLeafMac)

/-- A fragment of the schema that is newer than what came before, and is stored. -/
def Session.acceptsSchemaPush (x : Session) (f : Frame) : Bool :=
  counterIsNewer f.header.txCounter x.lastSeenCounter &&
    ((validateSessionPacket c x f).bind EntityPayload.parse).any fun view =>
      (offerFragment true x.limits x.schemaAssemblies x.schemaReservedBytes view
        (fragmentMessageTxBase f.header.txCounter view) e.now).assembly.isSome

/-- A fragment of a state that is newer than the last completed one, and is stored. -/
def Session.acceptsState (x : Session) (f : Frame) : Bool :=
  ((validateSessionPacket c x f).bind EntityPayload.parse).any fun view =>
    counterIsNewer (fragmentMessageTxBase f.header.txCounter view) x.lastCompletedStateMessageTxBase &&
      (offerFragment true x.limits x.stateAssemblies x.stateReservedBytes view
        (fragmentMessageTxBase f.header.txCounter view) e.now).assembly.isSome

def Session.acceptsHeartbeat (x : Session) (f : Frame) : Bool :=
  counterIsNewer f.header.txCounter x.lastSeenCounter &&
    (validateSessionPacket c x f).any (fun plaintext => plaintext.length == Heartbeat.size)

/-- The contact is noted before the size of an ACK is checked. -/
def Session.acceptsAck (x : Session) (f : Frame) : Bool :=
  counterIsNewer f.header.txCounter x.lastSeenCounter && (validateSessionPacket c x f).isSome

/-- A frame for a session, by its type. -/
def Session.accepts (x : Session) (f : Frame) (len : Nat) : Bool :=
  match f.type? with
  | some .schemaPush => x.acceptsSchemaPush c e f
  | some .state => len ≤ x.sessionMaxPayload && x.acceptsState c e f
  | some .heartbeat => len ≤ x.sessionMaxPayload && x.acceptsHeartbeat c f
  | some .ack => len ≤ x.sessionMaxPayload && x.acceptsAck c f
  | _ => false

/-- The frame is meant for this bridge. -/
def addressed (b : Bridge) (f : Frame) : Bool :=
  f.parentMac.all (fun m => m == Octets.zero 6 || m == b.hub.config.bridgeMac)

/-- A frame of the leaf is accepted. -/
def acceptsFrame (b : Bridge) (f : Frame) (len : Nat) : Bool :=
  b.addressed f &&
    if f.type? = some .join then acceptsJoin b.hub f else b.session?.any (fun x => x.accepts c e f len)

/-- The call brings a frame of the leaf that is accepted. -/
def hears (b : Bridge) : Call → Bool
  | .frame e _ data _ =>
    (parsePacket c data).any fun f => f.header.leafMac == b.leafMac && b.acceptsFrame c e f data.length
  | _ => false

end

/-! ## What a call does to the time of the last contact -/

/-- Neither the link nor whether the leaf is online has changed. -/
structure Session.SameLink (x y : Session) : Prop where
  link : y.link = x.link
  online : y.online = x.online

/-- The time of the last contact is the present one if the leaf was heard, and else the old one; only a leaf
that was heard comes online. -/
structure Contact (now : UInt32) (heard : Bool) (x y : Session) : Prop where
  seen : y.link.lastSeenUptimeS = if heard then now / 1000 else x.link.lastSeenUptimeS
  online : y.online → x.online ∨ heard

section

variable {c : Crypto} {e : Env} {now : UInt32} {heard : Bool} {h : Hub} {x y z : Session} {f : Frame}
  {senderMac : Mac} {rssi : Int}

theorem Session.SameLink.refl (x : Session) : x.SameLink x := ⟨rfl, rfl⟩

theorem Session.SameLink.trans (hxy : x.SameLink y) (hyz : y.SameLink z) : x.SameLink z :=
  ⟨hyz.link.trans hxy.link, hyz.online.trans hxy.online⟩

theorem Contact.silent (hseen : y.link.lastSeenUptimeS = x.link.lastSeenUptimeS) (honline : y.online → x.online) :
    Contact now false x y := ⟨hseen, fun h => .inl (honline h)⟩

/-- A handler that has accepted the frame notes the time. -/
theorem Contact.of_seen (hseen : y.link.lastSeenUptimeS = now / 1000) : Contact now true x y :=
  ⟨hseen, fun _ => .inr rfl⟩

/-- A step that keeps the link is silent. -/
theorem Session.SameLink.contact (hxy : x.SameLink y) : Contact now false x y :=
  .silent (congrArg LinkInfo.lastSeenUptimeS hxy.link) fun h => hxy.online ▸ h

theorem Contact.trans_same (hxy : Contact now heard x y) (hyz : y.SameLink z) : Contact now heard x z :=
  ⟨hyz.link ▸ hxy.seen, fun h => hxy.online (hyz.online ▸ h)⟩

/-- Something that is no contact, and then more of the same. -/
theorem Contact.trans (hxy : Contact now false x y) (hyz : Contact now heard y z) : Contact now heard x z := by
  refine ⟨?_, fun h => ?_⟩
  · rw [hyz.seen, hxy.seen]
    rfl
  · rcases hyz.online h with h | h
    · exact (hxy.online h).imp_right nofun
    · exact .inr h

/-! ### Sending -/

theorem sendJoinAck_sameLink (mac : Mac) (accepted reason stage : UInt8) :
    x.SameLink (sendJoinAck c e h mac x accepted reason stage).2.1 := by
  unfold sendJoinAck
  dsimp only
  split <;> exact ⟨rfl, rfl⟩

theorem sendJoinComplete_sameLink (mac : Mac) (reset : Bool) :
    x.SameLink (sendJoinComplete c e h mac x reset).2.1 := by
  have hack := sendJoinAck_sameLink (c := c) (e := e) (h := h) (x := x) mac 1 0 joinStatusComplete
  exact ⟨hack.link, hack.online⟩

theorem sendEncrypted_sameLink (mac : Mac) (type : PacketType) (hop : UInt8) (plaintext : Bytes) :
    x.SameLink (sendEncrypted c e h mac x type hop plaintext).2.1 := by
  unfold sendEncrypted
  split
  · exact .refl x
  split
  · exact .refl x
  · exact ⟨rfl, rfl⟩

theorem requestSchema_sameLink (mac : Mac) (descriptorType index : UInt8) :
    x.SameLink (requestSchema c e h mac x descriptorType index).2.1 :=
  (sendEncrypted_sameLink mac .schemaRequest downHop (SchemaRequest.bytes ⟨descriptorType, index⟩)).trans
    ⟨rfl, rfl⟩

theorem sendCommandLoop_sameLink (mac : Mac) (index : UInt8) (value : Bytes) (txBase : UInt32) (consume : Bool)
    (fragSize count left chunk : Nat) :
    x.SameLink (sendCommandLoop c e mac index value txBase consume fragSize count left chunk h x).2.1 := by
  obtain ⟨_, _, hsession⟩ := sendCommandLoop_session (c := c) (e := e) (h := h) (x := x) mac index value
    txBase consume fragSize count left chunk
  rw [hsession]
  exact ⟨rfl, rfl⟩

theorem sendCommandToLeaf_sameLink (index : UInt8) (value : Bytes) :
    x.SameLink (sendCommandToLeaf c e h x index value).2.1 := by
  unfold sendCommandToLeaf
  split
  · exact .refl x
  · have hsent : x.SameLink
        (sendCommandFragments c e h x.link.nextHopMac x index value x.txCounter true).2.1 :=
      sendCommandLoop_sameLink ..
    unfold sendCommand
    generalize sendCommandFragments c e h x.link.nextHopMac x index value x.txCounter true = o at hsent ⊢
    obtain ⟨h, y, _ | _⟩ := o
    · exact hsent
    · exact hsent

theorem sendConfigToLeaf_sameLink (cmd : UInt8) (payload : Bytes) :
    x.SameLink (sendConfigToLeaf c e h x cmd payload).2.1 := by
  unfold sendConfigToLeaf
  split
  · exact .refl x
  split
  · exact .refl x
  · dsimp only
    split <;> exact ⟨rfl, rfl⟩

theorem sendOtaFrame_sameLink (type : PacketType) (payload : Bytes) :
    x.SameLink (sendOtaFrame c e h x type payload).2.1 := by
  unfold sendOtaFrame
  split
  · exact .refl x
  split
  · exact .refl x
  · exact ⟨rfl, rfl⟩

/-! ### Joins -/

theorem handleDiscover_contact : Contact now false x (handleDiscover e h x senderMac).2.1 := .silent rfl id

theorem joinCached_link (mac : Mac) (dirtyCount : UInt8) : (joinCached c e h x mac dirtyCount).2.1.link = x.link := by
  unfold joinCached
  dsimp only
  split
  · exact (sendJoinComplete_sameLink mac true).link
  · split
    · next heq => exact (congrArg (fun o : Outcome => o.2.1.link) heq).symm.trans (sendJoinAck_sameLink mac ..).link
    · next heq => exact (congrArg (fun o : Outcome => o.2.1.link) heq).symm.trans (sendJoinAck_sameLink mac ..).link

theorem joinUncached_link (mac : Mac) : (joinUncached c e h x mac).2.1.link = x.link := by
  unfold joinUncached
  dsimp only
  split
  · next heq => exact (congrArg (fun o : Outcome => o.2.1.link) heq).symm.trans (sendJoinAck_sameLink mac ..).link
  · next hack =>
    have hlink := (congrArg (fun o : Outcome => o.2.1.link) hack).symm.trans (sendJoinAck_sameLink mac ..).link
    split
    · next heq =>
      exact (congrArg (fun o : Outcome => o.2.1.link) heq).symm.trans
        ((requestSchema_sameLink mac descriptorTypeIdentity 0).link.trans hlink)
    · next heq =>
      exact (congrArg (fun o : Outcome => o.2.1.link) heq).symm.trans
        ((requestSchema_sameLink mac descriptorTypeIdentity 0).link.trans hlink)

theorem rekey_seen (join : Join) (nonce : Nonce) :
    (x.rekey c e h join nonce f senderMac rssi).link.lastSeenUptimeS = e.now / 1000 := by
  unfold Session.rekey Session.negotiate
  dsimp only
  split <;> rfl

theorem restore_link (cached? : Option Cached) : (x.restore cached?).link = x.link := by
  cases cached? <;> rfl

/-- A `JOIN` notes the time when it sets the key. -/
theorem freshJoin_contact : Contact e.now true x (freshJoin c e h x senderMac f rssi).2.1 := by
  refine .of_seen ?_
  have hseen : (x.rekey c e h (Join.parse f.payload) e.nonce f senderMac rssi).link.lastSeenUptimeS =
      e.now / 1000 := rekey_seen _ _
  unfold freshJoin
  dsimp only
  generalize (if List.isEmpty x.schema.identity.esphomeName then
    (x.rekey c e h (Join.parse f.payload) e.nonce f senderMac rssi).cacheKey
    else x.schema.identity.esphomeName) = key
  split
  · rw [joinCached_link, restore_link, hseen]
  · rw [joinUncached_link, hseen]

theorem handleJoin_contact (hsize : f.payload.length = Join.size) :
    Contact e.now (acceptsJoin h f) x (handleJoin c e h x senderMac f rssi).2.1 := by
  unfold handleJoin
  dsimp only
  split
  · next hheld =>
    have hrefused : acceptsJoin h f = false := by simp [acceptsJoin, hheld]
    rw [hrefused]
    exact (sendJoinAck_sameLink senderMac 0 joinReasonWait 0).contact
  next hfree =>
  have haccepted : acceptsJoin h f = true := by
    simpa [acceptsJoin, hsize, Decidable.imp_iff_not_or] using hfree
  rw [haccepted]
  split
  · refine .of_seen ?_
    exact congrArg LinkInfo.lastSeenUptimeS (sendJoinAck_sameLink senderMac 1 0 x.retryStage).link
  · exact freshJoin_contact

/-! ### Schema -/

theorem schemaArrived_seen (mac : Mac) (sync : Bool) :
    (schemaArrived c e h x mac sync).2.1.link.lastSeenUptimeS = x.link.lastSeenUptimeS := by
  refine congrArg LinkInfo.lastSeenUptimeS ?_
  unfold schemaArrived
  dsimp only
  split
  · exact (sendJoinAck_sameLink mac 1 0 joinStatusSendState).link
  · exact (sendJoinComplete_sameLink mac true).link

theorem requestSchema_seen (mac : Mac) (descriptorType index : UInt8) :
    (requestSchema c e h mac x descriptorType index).2.1.link.lastSeenUptimeS = x.link.lastSeenUptimeS :=
  congrArg LinkInfo.lastSeenUptimeS (requestSchema_sameLink mac descriptorType index).link

theorem identityArrived_seen (mac : Mac) (identity : Identity) (total : UInt8) :
    (identityArrived c e h x mac identity total).2.1.link.lastSeenUptimeS = x.link.lastSeenUptimeS := by
  unfold identityArrived
  dsimp only
  split
  · exact schemaArrived_seen mac false
  · exact requestSchema_seen mac descriptorTypeEntity 0

theorem entityArrived_seen (mac : Mac) (entity : EntitySchema) (total : UInt8) :
    (entityArrived c e h x mac entity total).2.1.link.lastSeenUptimeS = x.link.lastSeenUptimeS := by
  unfold entityArrived
  dsimp only
  split
  · exact schemaArrived_seen mac false
  split
  · exact schemaArrived_seen mac true
  · exact requestSchema_seen mac descriptorTypeEntity (entity.entityIndex + 1)

theorem schemaMessage_seen (mac : Mac) (message : Bytes) :
    (schemaMessage c e h x mac message).2.1.link.lastSeenUptimeS = x.link.lastSeenUptimeS := by
  unfold schemaMessage
  split
  · rfl
  split
  · split
    · rfl
    · exact identityArrived_seen mac ..
  · split
    · rfl
    · exact entityArrived_seen mac ..

theorem handleSchemaPush_contact :
    Contact e.now (x.acceptsSchemaPush c e f) x (handleSchemaPush c e h x senderMac f).2.1 := by
  unfold handleSchemaPush Session.acceptsSchemaPush
  split
  · next hold => simpa [hold] using (Session.SameLink.refl x).contact
  next hnew =>
  rw [not_not.mp hnew]
  cases (validateSessionPacket c x f).bind EntityPayload.parse with
  | none => exact (Session.SameLink.refl x).contact
  | some view =>
    dsimp only [Option.any_some, Bool.true_and]
    cases (offerFragment true x.limits x.schemaAssemblies x.schemaReservedBytes view
        (fragmentMessageTxBase f.header.txCounter view) e.now).assembly with
    | none => exact .silent rfl id
    | some a =>
      dsimp only
      split
      · exact .of_seen rfl
      · exact .of_seen (schemaMessage_seen senderMac _)

/-! ### States -/

theorem stateMessage_seen (view : EntityPayload) (base : UInt32) (a : FragmentAssembly) :
    (stateMessage e h x senderMac f rssi view base a).2.link.lastSeenUptimeS = x.link.lastSeenUptimeS := by
  unfold stateMessage
  dsimp only
  split <;> split <;> rfl

/-- A state notes the time if it is accepted. -/
theorem handleState_contact : Contact e.now (x.acceptsState c e f) x (handleState c e h x senderMac f rssi).2.1 := by
  unfold handleState Session.acceptsState
  split
  · next hinvalid =>
    have hnone : validateSessionPacket c x f = none := if_neg fun hvalid => hinvalid hvalid.1
    rw [hnone]
    exact (Session.SameLink.refl x).contact
  cases validateSessionPacket c x f with
  | none => exact .silent rfl id
  | some plaintext =>
    dsimp only [Option.bind_some]
    cases EntityPayload.parse plaintext with
    | none => exact (Session.SameLink.refl x).contact
    | some view =>
      dsimp only [Option.any_some]
      split
      · next hnew =>
        rw [hnew]
        dsimp only [storeState, Bool.true_and]
        cases (offerFragment true x.limits x.stateAssemblies x.stateReservedBytes view
            (fragmentMessageTxBase f.header.txCounter view) e.now).assembly with
        | none => exact .silent rfl id
        | some a =>
          dsimp only
          split
          · exact .of_seen rfl
          · refine .of_seen ?_
            rw [stateMessage_seen]
      next hold =>
      have hfalse : counterIsNewer (fragmentMessageTxBase f.header.txCounter view)
          x.lastCompletedStateMessageTxBase = false := by simpa using hold
      rw [hfalse]
      split
      · exact (sendEncrypted_sameLink senderMac .ack downHop _).contact
      · exact (Session.SameLink.refl x).contact

theorem confirmStateDelivery_sameLink (base : UInt32) (mac : Mac) :
    x.SameLink (confirmStateDelivery c e h x base mac).2.1 := by
  unfold confirmStateDelivery
  dsimp only
  refine Session.SameLink.trans ?_ (sendEncrypted_sameLink mac .ack downHop _)
  split
  · split
    · have hcomplete := sendJoinComplete_sameLink (c := c) (e := e) (h := h)
        (x := { x with lastCompletedStateMessageTxBase := base, join := { x.join with stateSyncPending := false } })
        mac true
      exact ⟨hcomplete.link, hcomplete.online⟩
    · exact ⟨rfl, rfl⟩
  · exact .refl x

/-! ### Heartbeats and acknowledgements -/

/-- So does a heartbeat. -/
theorem handleHeartbeat_contact :
    Contact e.now (x.acceptsHeartbeat c f) x (handleHeartbeat c e h x senderMac f rssi).2.1 := by
  unfold handleHeartbeat Session.acceptsHeartbeat
  split
  · next hinvalid =>
    have hnone : validateSessionPacket c x f = none := if_neg fun hvalid => hinvalid hvalid.1
    rw [hnone, Option.any_none, Bool.and_false]
    exact (Session.SameLink.refl x).contact
  split
  · next hold => simpa [hold] using (Session.SameLink.refl x).contact
  next hnew =>
  rw [not_not.mp hnew]
  cases validateSessionPacket c x f with
  | none => exact (Session.SameLink.refl x).contact
  | some plaintext =>
    dsimp only [Option.any_some, Bool.true_and]
    split
    · next hsize =>
      rw [beq_eq_false_iff_ne.2 hsize]
      exact (Session.SameLink.refl x).contact
    · next hsize =>
      rw [beq_iff_eq.2 (not_not.mp hsize)]
      refine .of_seen ?_
      dsimp only [becomeNormal]
      split <;> rfl

theorem comeBack_link (counter : UInt32) :
    (comeBack e h x rssi counter).2.link.lastSeenUptimeS = x.link.lastSeenUptimeS := by
  unfold comeBack
  split <;> rfl

theorem configAcked_seen (plaintext : Bytes) (counter : UInt32) :
    (configAcked e h x plaintext rssi counter).2.link.lastSeenUptimeS = x.link.lastSeenUptimeS := by
  unfold configAcked
  split
  · rfl
  · exact comeBack_link counter

theorem dispatchAck_seen (plaintext : Bytes) (counter : UInt32) :
    (dispatchAck e h x plaintext rssi counter).2.1.link.lastSeenUptimeS = x.link.lastSeenUptimeS := by
  unfold dispatchAck
  dsimp only
  split
  · rfl
  split
  · exact configAcked_seen plaintext counter
  · exact comeBack_link counter

/-- So does an acknowledgement. -/
theorem handleAck_contact : Contact e.now (x.acceptsAck c f) x (handleAck c e h x f rssi).2.1 := by
  unfold handleAck Session.acceptsAck
  split
  · next hinvalid =>
    have hnone : validateSessionPacket c x f = none := if_neg fun hvalid => hinvalid hvalid.1
    rw [hnone, Option.isSome_none, Bool.and_false]
    exact (Session.SameLink.refl x).contact
  split
  · next hold => simpa [hold] using (Session.SameLink.refl x).contact
  next hnew =>
  rw [not_not.mp hnew]
  cases validateSessionPacket c x f with
  | none => exact (Session.SameLink.refl x).contact
  | some plaintext =>
    dsimp only [Option.isSome_some, Bool.true_and]
    refine .of_seen ?_
    split
    · rfl
    · exact dispatchAck_seen plaintext f.header.txCounter

/-! ### Dispatch -/

/-- What is noted before a frame is authenticated has no part in whether it is accepted. -/
theorem noteHops_contact (e : Env) (h : Hub) (x : Session) (f : Frame) (senderMac : Mac) (rssi : Int) :
    Contact e.now false x (noteHops h (x.heardFrom senderMac rssi).countPacket f).2 ∧
      ∀ len, (noteHops h (x.heardFrom senderMac rssi).countPacket f).2.accepts c e f len =
        x.accepts c e f len := by
  unfold noteHops
  dsimp only
  split <;> exact ⟨.silent rfl id, fun _ => rfl⟩

theorem onSessionFrame_contact (b : Bridge) (len : Nat)
    (htype : f.type? = some .state ∨ f.type? = some .heartbeat ∨ f.type? = some .ack)
    (hy : (b.onSessionFrame c e senderMac f len rssi).1.session? = some y) :
    Contact e.now (b.session?.any (fun x => x.accepts c e f len)) b.ensureSession y := by
  unfold onSessionFrame ensureSession at *
  cases hx : b.session? with
  | none =>
    simp only [hx] at hy
    cases hy
  | some x =>
    rw [hx] at hy
    dsimp only [Option.getD_some, Option.any_some] at hy ⊢
    split at hy
    · next hinvalid =>
      have hnone : validateSessionPacket c x f = none := if_neg fun hvalid => hinvalid hvalid.1
      have hrefused : x.accepts c e f len = false := by
        rcases htype with htype | htype | htype <;>
          simp [Session.accepts, Session.acceptsState, Session.acceptsHeartbeat, Session.acceptsAck, htype, hnone]
      rw [hrefused]
      cases hy
      exact .silent rfl id
    next hvalid =>
    obtain ⟨hnoted, haccepts⟩ := noteHops_contact (c := c) e b.hub x f senderMac rssi
    rw [← haccepts len]
    generalize noteHops b.hub (x.heardFrom senderMac rssi).countPacket f = noted at hnoted hy ⊢
    split at hy
    · next hlong =>
      have hrefused : noted.2.accepts c e f len = false := by
        rcases htype with htype | htype | htype <;> simp [Session.accepts, htype, hlong]
      rw [hrefused]
      cases hy
      exact hnoted
    next hshort =>
    have hlen : decide (len ≤ noted.2.sessionMaxPayload) = true := by simpa using hshort
    refine hnoted.trans ?_
    unfold Session.accepts
    rcases htype with htype | htype | htype
    · rw [htype] at hy ⊢
      dsimp only at hy ⊢
      rw [hlen, Bool.true_and]
      cases hy
      exact handleState_contact
    · rw [htype] at hy ⊢
      dsimp only at hy ⊢
      rw [hlen, Bool.true_and]
      cases hy
      exact handleHeartbeat_contact
    · rw [htype] at hy ⊢
      dsimp only at hy ⊢
      rw [hlen, Bool.true_and]
      cases hy
      exact handleAck_contact

/-- The session of a frame that is not looked at. -/
theorem ensureSession_contact {b : Bridge} (hy : b.session? = some y) : Contact now false b.ensureSession y := by
  unfold ensureSession
  rw [hy]
  exact (Session.SameLink.refl y).contact

/-- A frame notes the time if and only if it is accepted. -/
theorem onFrame_contact (b : Bridge) (len : Nat) (hy : (b.onFrame c e senderMac f len rssi).1.session? = some y) :
    Contact e.now (b.acceptsFrame c e f len) b.ensureSession y := by
  unfold onFrame at hy
  unfold acceptsFrame addressed
  split at hy
  · next hforeign =>
    have hfalse : (f.parentMac.all fun m => m == Octets.zero 6 || m == b.hub.config.bridgeMac) = false := by
      simpa using hforeign
    rw [hfalse]
    exact ensureSession_contact hy
  next hours =>
  rw [not_not.mp hours, Bool.true_and]
  split at hy
  · next htype =>
    have hrefused : b.session?.any (fun x => x.accepts c e f len) = false := by
      cases b.session? <;> simp [Session.accepts, htype]
    rw [if_neg (by rw [htype]; decide), hrefused]
    split at hy
    · exact ensureSession_contact hy
    · cases hy
      exact handleDiscover_contact
  · next htype =>
    rw [if_pos htype]
    split at hy
    · next hsize =>
      have hrefused : acceptsJoin b.hub f = false := by simp [acceptsJoin, hsize]
      rw [hrefused]
      exact ensureSession_contact hy
    · next hsize =>
      cases hy
      exact handleJoin_contact (not_not.mp hsize)
  · next htype =>
    rw [if_neg (by rw [htype]; decide)]
    cases hx : b.session? with
    | none =>
      rw [hx] at hy
      cases hx.symm.trans hy
    | some x =>
      rw [hx] at hy
      cases hy
      have haccepts : x.accepts c e f len = x.acceptsSchemaPush c e f := by rw [Session.accepts, htype]
      rw [Option.any_some, haccepts, ensureSession, hx]
      exact handleSchemaPush_contact
  · next htype =>
    rw [if_neg (by rw [htype]; decide)]
    exact onSessionFrame_contact b len (.inl htype) hy
  · next htype =>
    rw [if_neg (by rw [htype]; decide)]
    exact onSessionFrame_contact b len (.inr (.inl htype)) hy
  · next htype =>
    rw [if_neg (by rw [htype]; decide)]
    exact onSessionFrame_contact b len (.inr (.inr htype)) hy
  · next hdiscover hjoin hschema hstate hheartbeat hack =>
    have hrefused : b.session?.any (fun x => x.accepts c e f len) = false := by
      cases b.session? with
      | none => rfl
      | some x =>
        rw [Option.any_some, Session.accepts]
        split
        · next h => exact absurd h hschema
        · next h => exact absurd h hstate
        · next h => exact absurd h hheartbeat
        · next h => exact absurd h hack
        · rfl
    rw [if_neg hjoin, hrefused]
    exact ensureSession_contact hy

/-! ### The loop -/

theorem loopOffline_contact : Contact now false x (loopOffline e h x).2 := by
  unfold loopOffline
  split
  · exact .silent rfl nofun
  · exact (Session.SameLink.refl x).contact

theorem loopSchemaRequest_contact : Contact now false x (loopSchemaRequest c e h x).2 := by
  unfold loopSchemaRequest
  split
  · split
    · have hasked := requestSchema_sameLink (c := c) (e := e) (h := h)
        (x := { x with schema := { x.schema with requestRetries := x.schema.requestRetries + 1 } })
        x.link.nextHopMac x.schema.pendingDescriptorType x.schema.pendingIndex
      exact Session.SameLink.contact ⟨hasked.link, hasked.online⟩
    · exact .silent rfl nofun
  · exact (Session.SameLink.refl x).contact

theorem loopStateSync_sameLink : x.SameLink (x.loopStateSync e) := by
  unfold Session.loopStateSync
  split <;> exact ⟨rfl, rfl⟩

theorem loopJoinComplete_contact : Contact now false x (loopJoinComplete c e h x).2 := by
  unfold loopJoinComplete
  split
  · split
    · have hcomplete := sendJoinComplete_sameLink (c := c) (e := e) (h := h) (x := x) x.link.nextHopMac false
      generalize sendJoinComplete c e h x.link.nextHopMac x false = o at hcomplete
      obtain ⟨h, y, _ | _⟩ := o
      · exact hcomplete.contact
      · exact Session.SameLink.contact ⟨hcomplete.link, hcomplete.online⟩
    · exact .silent rfl nofun
  · exact (Session.SameLink.refl x).contact

theorem loopDiscoverAnnounce_contact : Contact now false x (loopDiscoverAnnounce c e h x).2 := by
  unfold loopDiscoverAnnounce
  split
  · exact .silent rfl id
  · exact (Session.SameLink.refl x).contact

/-- The loop brings no leaf online. -/
theorem loopSession_contact : Contact now false x (loopSession c e h x).2 := by
  unfold loopSession
  dsimp only
  have hpruned : Contact now false x (x.prune e) := Session.SameLink.contact ⟨rfl, rfl⟩
  have hoffline := hpruned.trans (loopOffline_contact (e := e) (h := h))
  generalize loopOffline e h (x.prune e) = offline at hoffline ⊢
  have hasked := hoffline.trans (loopSchemaRequest_contact (c := c) (e := e) (h := offline.1))
  generalize loopSchemaRequest c e offline.1 offline.2 = asked at hasked ⊢
  have hcomplete := (hasked.trans_same (loopStateSync_sameLink (e := e))).trans
    (loopJoinComplete_contact (c := c) (e := e) (h := asked.1))
  exact hcomplete.trans loopDiscoverAnnounce_contact

theorem loopCommand_contact (p : PendingCommand) (draw : Nat)
    (hy : (loopCommand c e h (some x) p draw).2.1 = some y) :
    Contact now false x y := by
  unfold loopCommand at hy
  split at hy
  · cases hy
    exact .silent rfl nofun
  split at hy
  · split at hy
    · cases hy
      exact (Session.SameLink.refl x).contact
    · next hready =>
      cases (Option.filter_eq_some_iff.1 hready).1
      cases hy
      exact (sendCommandLoop_sameLink ..).contact
  · cases hy
    exact (Session.SameLink.refl x).contact

theorem loopCommand_none (p : PendingCommand) (draw : Nat) : (loopCommand c e h none p draw).2.1 = none := by
  unfold loopCommand
  split
  · rfl
  split <;> rfl

theorem loopCommands_contact (ps : List (PendingCommand × Nat)) {x? : Option Session}
    (hy : (loopCommands c e ps h x?).2.1 = some y) : ∃ x, x? = some x ∧ Contact now false x y := by
  induction ps generalizing h x? with
  | nil => exact ⟨y, hy, (Session.SameLink.refl y).contact⟩
  | cons p ps ih =>
    have hrest : (loopCommands c e ps (loopCommand c e h x? p.1 p.2).1 (loopCommand c e h x? p.1 p.2).2.1).2.1 =
      some y := hy
    obtain ⟨z, hz, hzy⟩ := ih hrest
    cases x? with
    | none =>
      rw [loopCommand_none] at hz
      cases hz
    | some x => exact ⟨x, rfl, (loopCommand_contact p.1 p.2 hz).trans hzy⟩

theorem evict_session (b : Bridge) : b.evict.session? = none := by
  unfold evict
  split
  · assumption
  · rfl

theorem loopSession?_contact {b : Bridge} (hy : (b.loopSession? c e).session? = some y) :
    ∃ x, b.session? = some x ∧ Contact now false x y := by
  unfold loopSession? at hy
  split at hy
  · next hx => cases hx.symm.trans hy
  · next x hx =>
    cases hy
    exact ⟨x, hx, loopSession_contact⟩

/-- A session that the loop leaves was there before. -/
theorem loop_contact (b : Bridge) (hy : (b.loop c e).session? = some y) : Contact now false b.ensureSession y := by
  have hqueues : (b.loop c e).session? = ((b.beforeQueues c e).loopQueues c e).session? := rfl
  rw [hqueues] at hy
  obtain ⟨x, hx, hxy⟩ : ∃ x, (b.beforeQueues c e).session? = some x ∧ Contact now false x y :=
    loopCommands_contact _ hy
  refine Contact.trans ?_ hxy
  unfold beforeQueues at hx
  dsimp only at hx
  split at hx
  · cases (evict_session _).symm.trans hx
  obtain ⟨z, hz, hzx⟩ := loopSession?_contact hx
  refine Contact.trans ?_ hzx
  split at hz
  · cases (evict_session b).symm.trans hz
  · exact ensureSession_contact hz

/-! ### All calls -/

/-- A request of the host, on the session that it finds. -/
theorem stored_contact {b : Bridge} {o : Outcome} (hx : b.session? = some x) (hxy : x.SameLink o.2.1)
    (hy : (b.store o).1.session? = some y) : Contact now false b.ensureSession y := by
  cases hy
  exact (ensureSession_contact hx).trans hxy.contact

theorem discoveryConfirmed_sameLink (index : UInt8) (success : Bool) :
    x.SameLink (discoveryConfirmed c e h x index success).2 := by
  unfold discoveryConfirmed
  split
  · dsimp only
    split <;> exact ⟨rfl, rfl⟩
  split
  · have hasked := requestSchema_sameLink (c := c) (e := e) (h := h)
      (x := { x with schema := { x.schema with requestRetries := 1 } }) x.link.nextHopMac descriptorTypeEntity index
    exact ⟨hasked.link, hasked.online⟩
  · dsimp only
    split
    · exact ⟨rfl, rfl⟩
    · have hasked := requestSchema_sameLink (c := c) (e := e) (h := h)
        (x := { x with schema := { x.schema.countConfirmed with
          awaitingDiscoveryConfirm := false, requestRetries := 1 } })
        x.link.nextHopMac descriptorTypeEntity x.schema.countConfirmed.pendingRequestIndex
      exact ⟨hasked.link, hasked.online⟩

def Call.now? : Call → Option UInt32
  | .frame e .. | .loop e | .command e .. | .configure e .. | .otaFrame e .. | .confirmState e ..
  | .discoveryConfirmed e .. => some e.now
  | .invalidate | .restart | .others _ => none

/-- The session after a call has the contact that the call brings, and no other. -/
theorem call_contact (b : Bridge) (k : Call) (hnow : ∀ n ∈ k.now?, n = now)
    (hy : (b.call c k).session? = some y) : Contact now (b.hears c k) b.ensureSession y := by
  cases k with
  | frame e senderMac data rssi =>
    cases hnow e.now rfl
    simp only [call] at hy
    unfold onEspnowFrame at hy
    unfold hears
    dsimp only
    cases hf : parsePacket c data with
    | none =>
      rw [hf] at hy
      exact ensureSession_contact hy
    | some f =>
      rw [hf] at hy
      dsimp only [Option.any_some] at hy ⊢
      split at hy
      · next hmac =>
        rw [beq_iff_eq.2 hmac, Bool.true_and]
        exact onFrame_contact b data.length hy
      · next hother =>
        rw [beq_eq_false_iff_ne.2 hother]
        exact ensureSession_contact hy
  | loop e => exact loop_contact b hy
  | command e index value =>
    simp only [call] at hy
    unfold command at hy
    split at hy
    · exact ensureSession_contact hy
    · next hx => exact stored_contact hx (sendCommandToLeaf_sameLink index value) hy
  | configure e cmd payload =>
    simp only [call] at hy
    unfold configure at hy
    split at hy
    · exact ensureSession_contact hy
    · next hx => exact stored_contact hx (sendConfigToLeaf_sameLink cmd payload) hy
  | otaFrame e type payload =>
    simp only [call] at hy
    unfold otaFrame at hy
    split at hy
    · exact ensureSession_contact hy
    · next hx =>
      cases hy
      exact (ensureSession_contact hx).trans (sendOtaFrame_sameLink type payload).contact
  | confirmState e base mac =>
    simp only [call] at hy
    unfold confirmState at hy
    split at hy
    · exact ensureSession_contact hy
    · next hx => exact stored_contact hx (confirmStateDelivery_sameLink base mac) hy
  | discoveryConfirmed e index success =>
    simp only [call] at hy
    unfold confirmDiscovery at hy
    split at hy
    · exact ensureSession_contact hy
    · next hx =>
      cases hy
      exact (ensureSession_contact hx).trans (discoveryConfirmed_sameLink index success).contact
  | invalidate =>
    simp only [call] at hy
    unfold invalidateAllSessions at hy
    split at hy
    · exact ensureSession_contact hy
    · cases hy
  | restart => cases hy
  | others slot => exact ensureSession_contact hy

end

end Bridge

end EspTree
