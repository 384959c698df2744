import EspTree.Bridge.Contact

/-!
# The bridge: what a call does to a schema request

A session waits for its schema while a request is in flight.  `call_turn` goes through the code once: a call
that leaves a session waiting has sent a request, or stored a fragment, and then noted the time for that or
unset it, or it has left everything that the retry depends on alone.

`Wait` is what the retry sees of a session: whether its key is valid, whether a request is in flight
and when the last one was sent, whether the schema has been received, and how many requests are
among the effects.  `Wait.Turn` says what a call may do to it, and it composes, so that each function
has a lemma of its own and a caller uses those of its callees.  A function that does not touch these
fields has the lemma that it `Rests`.
-/

namespace EspTree

open Wire OtaManager

namespace Bridge

/-! ## What the retry depends on -/

def Effect.isSchemaRequest : Effect → Bool
  | .encrypt type .. => type == .schemaRequest
  | _ => false

/-- How many schema requests were encrypted. -/
def Hub.requests (h : Hub) : Nat := h.effects.countP Effect.isSchemaRequest

/-- The retry's view of a session. -/
structure Wait where
  valid : Bool
  inFlight : Bool
  received : Bool
  completePending : Bool
  syncPending : Bool
  lastRequestMs : UInt32
  requests : Nat

def waitOf (h : Hub) (x : Session) : Wait :=
  ⟨x.sessionKeyValid, x.schema.requestInFlight, x.schema.received, x.join.completePending,
    x.join.stateSyncPending, x.schema.lastRequestMs, h.requests⟩

/-- The session waits for an answer to its schema request. -/
def Wait.Pending (w : Wait) : Prop := w.valid ∧ w.inFlight ∧ w.received = false

/-- The join is not ahead of the schema. -/
def Wait.Ordered (w : Wait) : Prop :=
  w.valid → w.received = false → w.completePending = false ∧ w.syncPending = false

/-- What a call at `now` does, if it has stored a fragment of the schema and if it has not. -/
structure Wait.Turn (now : UInt32) (stored : Bool) (w w' : Wait) : Prop where
  more : w.requests ≤ w'.requests
  ordered : w.Ordered → w'.Ordered
  last : w'.Pending → if w.requests < w'.requests then w'.lastRequestMs = now
    else if stored then w'.lastRequestMs = 0 else w.Pending ∧ w'.lastRequestMs = w.lastRequestMs

section

variable {w w' w'' : Wait} {now : UInt32} {stored : Bool}

theorem Wait.Turn.refl (w : Wait) : w.Turn now false w := by
  refine ⟨le_rfl, id, fun hpending => ?_⟩
  rw [if_neg (lt_irrefl _)]
  exact ⟨hpending, rfl⟩

theorem Wait.Turn.of_eq (heq : w' = w) : w.Turn now false w' := by
  subst heq
  exact .refl w'

/-- Two steps of the wait are one. -/
theorem Wait.Turn.trans (h : w.Turn now false w') (h' : w'.Turn now false w'') : w.Turn now false w'' := by
  refine ⟨h.more.trans h'.more, h'.ordered ∘ h.ordered, fun hpending => ?_⟩
  have hmore := h.more
  have hmore' := h'.more
  have hlast' := h'.last hpending
  split at hlast'
  · rw [if_pos (by omega)]
    exact hlast'
  next hnone =>
  obtain ⟨hbefore, hsame⟩ := hlast'
  have hlast := h.last hbefore
  split at hlast
  · rw [if_pos (by omega), hsame]
    exact hlast
  · rw [if_neg (by omega), hsame]
    exact hlast

/-- The session does not wait any more. -/
theorem Wait.Turn.quiet (hmore : w.requests ≤ w'.requests) (hdone : w'.valid = false ∨ w'.received = true) :
    w.Turn now stored w' := by
  have hnot : w'.valid → w'.received = false → False := by
    rcases hdone with hdone | hdone <;> simp [hdone]
  exact ⟨hmore, fun _ hvalid hwaits => (hnot hvalid hwaits).elim, fun h => (hnot h.1 h.2.2).elim⟩

/-- The session does not wait any more, as nothing is in flight. -/
theorem Wait.Turn.landed (hmore : w.requests ≤ w'.requests) (hflight : w'.inFlight = false)
    (hordered : w.Ordered → w'.Ordered) : w.Turn now stored w' :=
  ⟨hmore, hordered, fun h => absurd (hflight.symm.trans h.2.1) Bool.false_ne_true⟩

/-- A fragment was stored, and no request was sent. -/
theorem Wait.Turn.unset (hsame : w'.requests = w.requests) (hzero : w'.lastRequestMs = 0)
    (hordered : w.Ordered → w'.Ordered) : w.Turn now true w' := by
  refine ⟨hsame.ge, hordered, fun _ => ?_⟩
  rw [if_neg hsame.le.not_gt]
  exact hzero

/-- Only the join automaton has changed. -/
theorem Wait.Turn.flags (complete sync : Bool)
    (hflags : w.valid → w.received = false → w.completePending = false → w.syncPending = false →
      complete = false ∧ sync = false) :
    w.Turn now false { w with completePending := complete, syncPending := sync } := by
  refine ⟨le_rfl, fun hordered hvalid hwaits => ?_, fun hpending => ?_⟩
  · obtain ⟨hcomplete, hsync⟩ := hordered hvalid hwaits
    exact hflags hvalid hwaits hcomplete hsync
  · rw [if_neg (lt_irrefl _)]
    exact ⟨hpending, rfl⟩

end

/-! ## Sending -/

section

variable {c : Crypto} {e : Env} {h h' : Hub} {x : Session}

@[simp]
theorem requests_note (h : Hub) (eff : Effect) :
    (h.note eff).requests = h.requests + if eff.isSchemaRequest then 1 else 0 :=
  List.countP_cons ..

@[simp]
theorem requests_sendPlainPsk (mac leafMac : Mac) (type : PacketType) (tx : UInt32) (payload : Bytes) :
    (sendPlainPsk c e h mac leafMac type tx payload).1.requests = h.requests :=
  requests_note _ _

@[simp]
theorem requests_holdSlot (mac : Mac) : (h.holdSlot e mac).requests = h.requests := by
  unfold Hub.holdSlot
  split <;> rfl

@[simp]
theorem requests_freeSlot : h.freeSlot.requests = h.requests := rfl

theorem wait_sendJoinAck (mac : Mac) (accepted reason stage : UInt8) :
    waitOf (sendJoinAck c e h mac x accepted reason stage).1
      (sendJoinAck c e h mac x accepted reason stage).2.1 = waitOf h x := by
  unfold sendJoinAck
  dsimp only
  split <;> simp [waitOf, Session.bumpTxCounter]

theorem wait_of_sendJoinAck {mac : Mac} {accepted reason stage : UInt8} {y : Session} {sent : Bool}
    (hack : sendJoinAck c e h mac x accepted reason stage = (h', y, sent)) : waitOf h' y = waitOf h x := by
  rw [← wait_sendJoinAck (c := c) (e := e) (h := h) (x := x) mac accepted reason stage, hack]

theorem wait_sendJoinComplete (mac : Mac) (reset : Bool) :
    waitOf (sendJoinComplete c e h mac x reset).1 (sendJoinComplete c e h mac x reset).2.1 =
      { waitOf h x with completePending := true } := by
  have hack := wait_sendJoinAck (c := c) (e := e) (h := h) (x := x) mac 1 0 joinStatusComplete
  exact congrArg (fun w : Wait => { w with completePending := true }) hack

theorem wait_sendDeauth (mac : Mac) (f : Frame) :
    waitOf (sendDeauth c e h mac x f).1 (sendDeauth c e h mac x f).2.1 = waitOf h x := by
  unfold sendDeauth
  simp [waitOf, Session.bumpTxCounter]

theorem requests_sealAndSend (mac : Mac) (type : PacketType) (hop : UInt8) (tx : UInt32) (plaintext : Bytes)
    (htype : type ≠ .schemaRequest) :
    (sealAndSend c e h mac x type hop tx plaintext).1.requests = h.requests := by
  unfold sealAndSend
  split
  · rfl
  · simp [Hub.transmit, Effect.isSchemaRequest, htype]

theorem wait_sendEncrypted (mac : Mac) (type : PacketType) (hop : UInt8) (plaintext : Bytes)
    (htype : type ≠ .schemaRequest) :
    waitOf (sendEncrypted c e h mac x type hop plaintext).1 (sendEncrypted c e h mac x type hop plaintext).2.1 =
      waitOf h x := by
  unfold sendEncrypted
  split
  · rfl
  · split
    · rfl
    · simp [waitOf, Session.bumpTxCounter, requests_sealAndSend, htype]

theorem requests_sendEncryptedWithTxCounterResult (mac : Mac) (type : PacketType) (hop : UInt8) (tx : UInt32)
    (plaintext : Bytes) (htype : type ≠ .schemaRequest) :
    (sendEncryptedWithTxCounterResult c e h mac x type hop tx plaintext).1.requests = h.requests := by
  unfold sendEncryptedWithTxCounterResult
  split
  · rfl
  split
  · rfl
  split
  · rfl
  · exact requests_sealAndSend mac type hop tx plaintext htype

theorem requests_sendCommandLoop (mac : Mac) (index : UInt8) (value : Bytes) (txBase : UInt32)
    (consume : Bool) (fragSize count left chunk : Nat) :
    (sendCommandLoop c e mac index value txBase consume fragSize count left chunk h x).1.requests =
      h.requests := by
  induction left generalizing chunk h x with
  | zero => rfl
  | succ left ih =>
    rw [sendCommandLoop]
    dsimp only
    generalize (if consume then x.takeTxCounter (txBase + UInt32.ofNat chunk) else x) = y
    have hsent := requests_sendEncryptedWithTxCounterResult (c := c) (e := e) (h := h) (x := y) mac .command
      downHop (txBase + UInt32.ofNat chunk) (commandFragment index value fragSize count chunk).bytes (by decide)
    generalize sendEncryptedWithTxCounterResult c e h mac y .command downHop (txBase + UInt32.ofNat chunk)
      (commandFragment index value fragSize count chunk).bytes = o at hsent ⊢
    split
    · exact (ih (chunk + 1)).trans hsent
    · exact hsent

theorem wait_sendCommandLoop (mac : Mac) (index : UInt8) (value : Bytes) (txBase : UInt32) (consume : Bool)
    (fragSize count left chunk : Nat) :
    waitOf (sendCommandLoop c e mac index value txBase consume fragSize count left chunk h x).1
      (sendCommandLoop c e mac index value txBase consume fragSize count left chunk h x).2.1 = waitOf h x := by
  obtain ⟨_, _, hsession⟩ := sendCommandLoop_session (c := c) (e := e) (h := h) (x := x) mac index value
    txBase consume fragSize count left chunk
  rw [hsession, waitOf, requests_sendCommandLoop]
  rfl

/-- Encrypting a schema request. -/
theorem wait_sendEncrypted_request (mac : Mac) (hop : UInt8) (plaintext : Bytes) :
    ∃ more, waitOf (sendEncrypted c e h mac x .schemaRequest hop plaintext).1
        (sendEncrypted c e h mac x .schemaRequest hop plaintext).2.1 =
      { waitOf h x with requests := h.requests + more } ∧
      ((sendEncrypted c e h mac x .schemaRequest hop plaintext).2.2 = true → 0 < more) := by
  unfold sendEncrypted
  split
  · exact ⟨0, rfl, fun h => absurd h Bool.false_ne_true⟩
  split
  · exact ⟨0, rfl, fun h => absurd h Bool.false_ne_true⟩
  dsimp only [sealAndSend]
  split
  · exact ⟨0, rfl, fun h => absurd h Bool.false_ne_true⟩
  · refine ⟨1, ?_, fun _ => Nat.one_pos⟩
    simp [waitOf, Hub.transmit, Session.bumpTxCounter, Effect.isSchemaRequest]

/-- A schema request that was sent is one more, and its time is noted. -/
theorem wait_requestSchema (mac : Mac) (descriptorType index : UInt8) (o : Outcome)
    (ho : requestSchema c e h mac x descriptorType index = o) :
    ∃ more, waitOf o.1 o.2.1 =
      { waitOf h x with inFlight := o.2.2, lastRequestMs := e.now, requests := h.requests + more } ∧
      (o.2.2 = true → 0 < more) := by
  subst ho
  obtain ⟨more, hwait, hmore⟩ := wait_sendEncrypted_request (c := c) (e := e) (h := h) (x := x) mac downHop
    (SchemaRequest.bytes ⟨descriptorType, index⟩)
  refine ⟨more, ?_, hmore⟩
  exact congrArg (fun w : Wait => { w with
    inFlight := (requestSchema c e h mac x descriptorType index).2.2, lastRequestMs := e.now }) hwait

/-- So the session waits from then on, or not at all. -/
theorem turn_requestSchema (mac : Mac) (descriptorType index : UInt8) {stored : Bool} {w : Wait}
    (hw : w.requests ≤ h.requests) (hordered : w.Ordered → (waitOf h x).Ordered) (o : Outcome)
    (ho : requestSchema c e h mac x descriptorType index = o) : w.Turn e.now stored (waitOf o.1 o.2.1) := by
  obtain ⟨more, hwait, hmore⟩ := wait_requestSchema mac descriptorType index o ho
  rw [hwait]
  cases hsent : o.2.2 with
  | false => exact .landed (hw.trans (Nat.le_add_right _ _)) rfl hordered
  | true =>
    have hgrown : w.requests < h.requests + more := hw.trans_lt (Nat.lt_add_of_pos_right (hmore hsent))
    refine ⟨hgrown.le, hordered, fun _ => ?_⟩
    rw [if_pos hgrown]

/-! ## Joins -/

/-- A `JOIN` sets the wait back. -/
theorem rekey_wait (join : Join) (nonce : Nonce) (f : Frame) (senderMac : Mac) (rssi : Int) :
    ((x.rekey c e h join nonce f senderMac rssi).join.completePending = false) ∧
      (x.rekey c e h join nonce f senderMac rssi).join.stateSyncPending = false := by
  unfold Session.rekey Session.negotiate
  dsimp only
  split <;> exact ⟨rfl, rfl⟩

/-- A session that takes its schema from the cache does not wait. -/
theorem joinCached_turn {w : Wait} (mac : Mac) (dirtyCount : UInt8) (hw : w.requests ≤ h.requests)
    (hreceived : x.schema.received = true) :
    w.Turn e.now false (waitOf (joinCached c e h x mac dirtyCount).1 (joinCached c e h x mac dirtyCount).2.1) := by
  have hnoted : (h.note (.schemaComplete x.schema.totalEntities)).requests = h.requests := by
    simp [Effect.isSchemaRequest]
  unfold joinCached
  dsimp only
  split
  · rw [wait_sendJoinComplete]
    exact .quiet (hw.trans_eq hnoted.symm) (.inr hreceived)
  split
  · next hack =>
    rw [wait_of_sendJoinAck hack]
    exact .quiet (hw.trans_eq hnoted.symm) (.inr hreceived)
  · next hack =>
    have hrequests := congrArg Wait.requests (wait_of_sendJoinAck hack)
    exact .quiet (hw.trans_eq (hrequests.trans hnoted).symm) (.inl rfl)

theorem joinUncached_turn {w : Wait} (mac : Mac) (hw : w.requests ≤ h.requests)
    (hcomplete : x.join.completePending = false) (hsync : x.join.stateSyncPending = false) :
    w.Turn e.now false (waitOf (joinUncached c e h x mac).1 (joinUncached c e h x mac).2.1) := by
  unfold joinUncached
  dsimp only
  split
  · next hack =>
    have hrequests := congrArg Wait.requests (wait_of_sendJoinAck hack)
    exact .quiet (hw.trans_eq hrequests.symm) (.inl rfl)
  next h' y hack =>
  have hwait := wait_of_sendJoinAck hack
  have hasked : w.Turn e.now false (waitOf (requestSchema c e h' mac y descriptorTypeIdentity 0).1
      (requestSchema c e h' mac y descriptorTypeIdentity 0).2.1) := by
    refine turn_requestSchema mac descriptorTypeIdentity 0 (hw.trans_eq (congrArg Wait.requests hwait).symm) ?_ _ rfl
    intro _ _ _
    rw [hwait]
    exact ⟨hcomplete, hsync⟩
  split
  · next hfails =>
    rw [hfails] at hasked
    exact .quiet hasked.more (.inl rfl)
  · next hsent =>
    rw [hsent] at hasked
    exact hasked

theorem freshJoin_turn (senderMac : Mac) (f : Frame) (rssi : Int) :
    (waitOf h x).Turn e.now false (waitOf (freshJoin c e h x senderMac f rssi).1
      (freshJoin c e h x senderMac f rssi).2.1) := by
  obtain ⟨hcomplete, hsync⟩ := rekey_wait (c := c) (e := e) (h := h) (x := x) (Join.parse f.payload) e.nonce f
    senderMac rssi
  unfold freshJoin
  dsimp only
  generalize (if List.isEmpty x.schema.identity.esphomeName then
    (x.rekey c e h (Join.parse f.payload) e.nonce f senderMac rssi).cacheKey
    else x.schema.identity.esphomeName) = key
  split
  · exact joinCached_turn senderMac _ le_rfl (by cases h.schemaCache.lookup key <;> rfl)
  · exact joinUncached_turn senderMac le_rfl hcomplete hsync

/-- A `JOIN` with an unknown hash asks for the schema. -/
theorem handleJoin_turn (senderMac : Mac) (f : Frame) (rssi : Int) :
    (waitOf h x).Turn e.now false (waitOf (handleJoin c e h x senderMac f rssi).1
      (handleJoin c e h x senderMac f rssi).2.1) := by
  unfold handleJoin
  dsimp only
  split
  · exact .of_eq (wait_sendJoinAck senderMac 0 joinReasonWait 0)
  split
  · exact .of_eq (wait_sendJoinAck senderMac 1 0 x.retryStage)
  · exact freshJoin_turn senderMac f rssi

/-! ## Schema -/

@[simp]
theorem requests_publishDiscovery (total : UInt8) (entity : EntitySchema) :
    (h.publishDiscovery total entity).requests = h.requests := by
  unfold Hub.publishDiscovery
  split
  · rfl
  · simp [Effect.isSchemaRequest]

@[simp]
theorem requests_publishAllEntities (x : Session) : (h.publishAllEntities x).requests = h.requests := by
  unfold Hub.publishAllEntities
  generalize x.schema.entities = entities
  induction entities generalizing h with
  | nil => rfl
  | cons entity rest ih => exact ih.trans (requests_publishDiscovery _ _)

theorem schemaArrived_turn {w : Wait} {stored : Bool} (mac : Mac) (sync : Bool) (hw : w.requests ≤ h.requests) :
    w.Turn e.now stored (waitOf (schemaArrived c e h x mac sync).1 (schemaArrived c e h x mac sync).2.1) := by
  have hpublished (y : Session) : (((h.refreshSchemaCache y).publishAllEntities y).note
      (.schemaComplete y.schema.totalEntities)).requests = h.requests := by
    simp only [requests_note, requests_publishAllEntities]
    rfl
  unfold schemaArrived
  dsimp only
  split
  · rw [wait_sendJoinAck]
    exact .quiet (hw.trans_eq (hpublished _).symm) (.inr rfl)
  · rw [wait_sendJoinComplete]
    exact .quiet (hw.trans_eq (hpublished _).symm) (.inr rfl)

theorem identityArrived_turn {w : Wait} {stored : Bool} (mac : Mac) (identity : Identity) (total : UInt8)
    (hw : w.requests ≤ h.requests) (hordered : w.Ordered → (waitOf h x).Ordered) :
    w.Turn e.now stored (waitOf (identityArrived c e h x mac identity total).1
      (identityArrived c e h x mac identity total).2.1) := by
  unfold identityArrived
  dsimp only
  have hcleared : (if x.schema.entities.isEmpty then h
      else h.note (.clearEntities x.schema.entities)).requests = h.requests := by
    split
    · rfl
    · simp [Effect.isSchemaRequest]
  split
  · exact schemaArrived_turn mac false (hw.trans_eq hcleared.symm)
  · refine turn_requestSchema mac descriptorTypeEntity 0 (hw.trans_eq hcleared.symm) (fun hw => ?_) _ rfl
    exact hordered hw

theorem entityArrived_turn {w : Wait} {stored : Bool} (mac : Mac) (entity : EntitySchema) (total : UInt8)
    (hw : w.requests ≤ h.requests) (hordered : w.Ordered → (waitOf h x).Ordered) :
    w.Turn e.now stored (waitOf (entityArrived c e h x mac entity total).1
      (entityArrived c e h x mac entity total).2.1) := by
  unfold entityArrived
  dsimp only
  split
  · exact schemaArrived_turn mac false hw
  split
  · exact schemaArrived_turn mac true hw
  · refine turn_requestSchema mac descriptorTypeEntity (entity.entityIndex + 1) ?_ (fun hw => ?_) _ rfl
    · exact hw.trans_eq (requests_publishDiscovery _ _).symm
    · exact hordered hw

/-- A message that is not complete or cannot be read leaves the time unset. -/
theorem schemaMessage_turn {w : Wait} (mac : Mac) (message : Bytes) (hw : w.requests = h.requests)
    (hordered : w.Ordered → (waitOf h x).Ordered) (hzero : x.schema.lastRequestMs = 0) :
    w.Turn e.now true (waitOf (schemaMessage c e h x mac message).1
      (schemaMessage c e h x mac message).2.1) := by
  have hleft : w.Turn e.now true (waitOf h x) := .unset hw.symm hzero hordered
  unfold schemaMessage
  split
  · exact hleft
  split
  · split
    · exact hleft
    · exact identityArrived_turn mac _ _ hw.le hordered
  · split
    · exact hleft
    · exact entityArrived_turn mac _ _ hw.le hordered

/-- A fragment unsets the time of the request, and a whole descriptor asks for the next one. -/
theorem handleSchemaPush_turn (senderMac : Mac) (f : Frame) :
    (waitOf h x).Turn e.now (x.acceptsSchemaPush c e f) (waitOf (handleSchemaPush c e h x senderMac f).1
      (handleSchemaPush c e h x senderMac f).2.1) := by
  unfold handleSchemaPush Session.acceptsSchemaPush
  split
  · next hold =>
    rw [Bool.eq_false_iff.2 hold, Bool.false_and]
    exact .refl _
  next hnew =>
  rw [not_not.mp hnew]
  cases (validateSessionPacket c x f).bind EntityPayload.parse with
  | none => exact .refl _
  | some view =>
    dsimp only [Option.any_some, Bool.true_and]
    cases (offerFragment true x.limits x.schemaAssemblies x.schemaReservedBytes view
        (fragmentMessageTxBase f.header.txCounter view) e.now).assembly with
    | none => exact .refl _
    | some a =>
      dsimp only [Option.isSome_some]
      split
      · exact .unset rfl rfl id
      · refine schemaMessage_turn senderMac _ rfl ?_ rfl
        exact id

/-! ## States, heartbeats and acknowledgements -/

@[simp]
theorem stateMessage_wait (senderMac : Mac) (f : Frame) (rssi : Int) (view : EntityPayload) (base : UInt32)
    (a : FragmentAssembly) :
    waitOf (stateMessage e h x senderMac f rssi view base a).1
      (stateMessage e h x senderMac f rssi view base a).2 = waitOf h x := by
  unfold stateMessage
  dsimp only
  split <;> split <;> simp [waitOf, markOnline, Effect.isSchemaRequest]

theorem handleState_wait (senderMac : Mac) (f : Frame) (rssi : Int) :
    waitOf (handleState c e h x senderMac f rssi).1 (handleState c e h x senderMac f rssi).2.1 = waitOf h x := by
  unfold handleState
  split
  · rfl
  split
  · exact wait_sendDeauth senderMac f
  split
  · rfl
  dsimp only
  split
  · unfold storeState
    dsimp only
    split
    · rfl
    split
    · rfl
    · exact stateMessage_wait senderMac f rssi _ _ _
  split
  · exact wait_sendEncrypted senderMac .ack downHop _ nofun
  · rfl

/-- A join is completed here only if its schema has come. -/
theorem confirmStateDelivery_turn (base : UInt32) (mac : Mac) :
    (waitOf h x).Turn e.now false (waitOf (confirmStateDelivery c e h x base mac).1
      (confirmStateDelivery c e h x base mac).2.1) := by
  unfold confirmStateDelivery
  dsimp only
  refine .trans ?_ (.of_eq (wait_sendEncrypted mac .ack downHop _ nofun))
  split
  · split
    · next hdone =>
      refine .trans ?_ (.of_eq (wait_sendJoinComplete mac true))
      refine .flags true false fun _ _ _ hsync => absurd (hsync.symm.trans hdone.1) Bool.false_ne_true
    · exact .refl _
  · exact .refl _

theorem handleHeartbeat_turn (senderMac : Mac) (f : Frame) (rssi : Int) :
    (waitOf h x).Turn e.now false (waitOf (handleHeartbeat c e h x senderMac f rssi).1
      (handleHeartbeat c e h x senderMac f rssi).2.1) := by
  unfold handleHeartbeat
  split
  · exact .refl _
  split
  · exact .refl _
  split
  · exact .refl _
  split
  · exact .refl _
  dsimp only [becomeNormal, JoinState.heartbeat]
  split <;> split
  · refine .trans (.flags false x.join.stateSyncPending fun _ _ _ hsync => ⟨rfl, hsync⟩) (.of_eq ?_)
    simp [waitOf, markOnline, Effect.isSchemaRequest]
  · refine .of_eq ?_
    simp [waitOf, markOnline, Effect.isSchemaRequest]
  · exact .flags false x.join.stateSyncPending fun _ _ _ hsync => ⟨rfl, hsync⟩
  · exact .refl _

theorem comeBack_wait (rssi : Int) (counter : UInt32) :
    waitOf (comeBack e h x rssi counter).1 (comeBack e h x rssi counter).2 = waitOf h x := by
  unfold comeBack
  split
  · simp [waitOf, markOnline, Effect.isSchemaRequest]
  · rfl

theorem dispatchAck_wait (plaintext : Bytes) (rssi : Int) (counter : UInt32) :
    waitOf (dispatchAck e h x plaintext rssi counter).1 (dispatchAck e h x plaintext rssi counter).2.1 =
      waitOf h x := by
  unfold dispatchAck
  dsimp only
  split
  · simp [waitOf, Effect.isSchemaRequest]
  split
  · unfold configAcked
    split
    · rfl
    · next p _ =>
      have hback := comeBack_wait (e := e) (h := { h with pendingConfigs := h.pendingConfigs.erase p }) (x := x)
        rssi counter
      refine Eq.trans ?_ hback
      simp [waitOf, Effect.isSchemaRequest]
  · refine (comeBack_wait rssi counter).trans ?_
    split <;> rfl

theorem handleAck_wait (f : Frame) (rssi : Int) :
    waitOf (handleAck c e h x f rssi).1 (handleAck c e h x f rssi).2.1 = waitOf h x := by
  unfold handleAck
  split
  · rfl
  split
  · rfl
  split
  · rfl
  dsimp only
  split
  · rfl
  · exact dispatchAck_wait _ rssi f.header.txCounter

/-! ## Dispatch -/

/-- The call brings a fragment of the schema that is stored. -/
def hearsSchema (c : Crypto) (b : Bridge) : Call → Bool
  | .frame e _ data _ =>
    (parsePacket c data).any fun f =>
      f.type? == some .schemaPush && f.header.leafMac == b.leafMac && b.acceptsFrame c e f data.length
  | _ => false

theorem ensureSession_of {b : Bridge} (hy : b.session? = some x) : b.ensureSession = x := by
  unfold ensureSession
  rw [hy]
  rfl

theorem onSessionFrame_wait (b : Bridge) (senderMac : Mac) (f : Frame) (len : Nat) (rssi : Int) {y : Session}
    (hy : (b.onSessionFrame c e senderMac f len rssi).1.session? = some y) :
    (waitOf b.hub b.ensureSession).Turn e.now false
      (waitOf (b.onSessionFrame c e senderMac f len rssi).1.hub y) := by
  unfold onSessionFrame at hy ⊢
  split at hy
  · next hnone => cases hnone.symm.trans hy
  next x hx =>
  have hnoted : waitOf (noteHops b.hub (x.heardFrom senderMac rssi).countPacket f).1
      (noteHops b.hub (x.heardFrom senderMac rssi).countPacket f).2 = waitOf b.hub x := by
    unfold noteHops
    dsimp only
    split
    · rfl
    · simp [waitOf, Session.heardFrom, Session.countPacket, Effect.isSchemaRequest]
  rw [ensureSession_of hx]
  dsimp only at hy ⊢
  split at hy
  · next hinvalid =>
    rw [if_pos hinvalid]
    cases hy
    exact .of_eq (wait_sendDeauth senderMac f)
  next hvalid =>
  rw [if_neg hvalid]
  generalize noteHops b.hub (x.heardFrom senderMac rssi).countPacket f = noted at hnoted hy ⊢
  rw [← hnoted]
  split at hy
  · next hlong =>
    rw [if_pos hlong]
    cases hy
    exact .refl _
  next hshort =>
  rw [if_neg hshort]
  split at hy
  · cases hy
    exact .of_eq (handleState_wait senderMac f rssi)
  · cases hy
    exact handleHeartbeat_turn senderMac f rssi
  · cases hy
    exact .of_eq (handleAck_wait f rssi)

/-- The session that was there is there still. -/
theorem ensureSession_wait {b : Bridge} {y : Session} {now : UInt32} (hy : b.session? = some y) :
    (waitOf b.hub b.ensureSession).Turn now false (waitOf b.hub y) := by
  rw [ensureSession_of hy]
  exact .refl _

/-- No other frame touches the wait. -/
theorem onFrame_turn (b : Bridge) (senderMac : Mac) (f : Frame) (len : Nat) (rssi : Int) {y : Session}
    (hy : (b.onFrame c e senderMac f len rssi).1.session? = some y) :
    (waitOf b.hub b.ensureSession).Turn e.now (f.type? == some .schemaPush && b.acceptsFrame c e f len)
      (waitOf (b.onFrame c e senderMac f len rssi).1.hub y) := by
  unfold onFrame at hy ⊢
  unfold acceptsFrame addressed
  split at hy
  · next hforeign =>
    have hfalse : (f.parentMac.all fun m => m == Octets.zero 6 || m == b.hub.config.bridgeMac) = false := by
      simpa using hforeign
    rw [if_pos hforeign, hfalse, Bool.false_and, Bool.and_false]
    exact ensureSession_wait hy
  next hours =>
  rw [if_neg hours, not_not.mp hours, Bool.true_and]
  split at hy
  · next htype =>
    rw [htype]
    split at hy
    · next hrefused =>
      rw [if_pos hrefused]
      exact ensureSession_wait hy
    · next hknown =>
      rw [if_neg hknown]
      cases hy
      exact .of_eq rfl
  · next htype =>
    rw [htype]
    split at hy
    · next hsize =>
      rw [if_pos hsize]
      exact ensureSession_wait hy
    · next hsize =>
      rw [if_neg hsize]
      cases hy
      exact handleJoin_turn senderMac f rssi
  · next htype =>
    rw [htype]
    split at hy
    · next hnone => cases hnone.symm.trans hy
    next x hx =>
    rw [hx, ensureSession_of hx]
    cases hy
    have haccepts : x.accepts c e f len = x.acceptsSchemaPush c e f := by rw [Session.accepts, htype]
    rw [Option.any_some, haccepts]
    exact handleSchemaPush_turn senderMac f
  · next htype =>
    rw [htype]
    exact onSessionFrame_wait b senderMac f len rssi hy
  · next htype =>
    rw [htype]
    exact onSessionFrame_wait b senderMac f len rssi hy
  · next htype =>
    rw [htype]
    exact onSessionFrame_wait b senderMac f len rssi hy
  · next hschema _ _ _ =>
    rw [beq_eq_false_iff_ne.2 hschema]
    exact ensureSession_wait hy

/-! ## The loop -/

/-- Taking a leaf offline leaves its request in flight. -/
theorem loopOffline_wait : waitOf (loopOffline e h x).1 (loopOffline e h x).2 = waitOf h x := by
  unfold loopOffline
  split
  · simp [waitOf, Effect.isSchemaRequest]
  · rfl

/-- The loop repeats the request when its time has come. -/
theorem loopSchemaRequest_turn :
    (waitOf h x).Turn e.now false (waitOf (loopSchemaRequest c e h x).1 (loopSchemaRequest c e h x).2) := by
  unfold loopSchemaRequest
  split
  · split
    · refine turn_requestSchema x.link.nextHopMac x.schema.pendingDescriptorType x.schema.pendingIndex le_rfl
        (fun hw => ?_) _ rfl
      exact hw
    · refine .quiet ?_ (.inl rfl)
      simp [waitOf]
  · exact .refl _

/-- What comes after the schema request in a loop sends none, and clears one only with a join completion that
has run out. -/
structure Wait.Rests (w w' : Wait) : Prop where
  requests : w'.requests = w.requests
  valid : w'.valid = w.valid
  received : w'.received = w.received
  last : w'.lastRequestMs = w.lastRequestMs
  flight : w'.inFlight = w.inFlight ∨ w'.inFlight = false ∧ w.completePending
  complete : w'.completePending → w.completePending
  sync : w'.syncPending → w.syncPending

theorem Wait.Rests.of_eq {w w' : Wait} (heq : w' = w) : w.Rests w' := by
  subst heq
  exact ⟨rfl, rfl, rfl, rfl, .inl rfl, id, id⟩

theorem Wait.Rests.trans {w w' w'' : Wait} (h : w.Rests w') (h' : w'.Rests w'') : w.Rests w'' := by
  refine ⟨h'.requests.trans h.requests, h'.valid.trans h.valid, h'.received.trans h.received,
    h'.last.trans h.last, ?_, h.complete ∘ h'.complete, h.sync ∘ h'.sync⟩
  rcases h'.flight with hsame' | ⟨hdown, hcomplete⟩
  · rw [hsame']
    exact h.flight
  · exact .inr ⟨hdown, h.complete hcomplete⟩

theorem Wait.Rests.turn {w w' : Wait} (h : w.Rests w') {now : UInt32} : w.Turn now false w' := by
  refine ⟨h.requests.ge, fun hordered hvalid hwaits => ?_, fun hpending => ?_⟩
  · rw [h.valid] at hvalid
    rw [h.received] at hwaits
    obtain ⟨hcomplete, hsync⟩ := hordered hvalid hwaits
    refine ⟨Bool.eq_false_iff.2 fun hc => ?_, Bool.eq_false_iff.2 fun hs => ?_⟩
    · exact Bool.false_ne_true (hcomplete.symm.trans (h.complete hc))
    · exact Bool.false_ne_true (hsync.symm.trans (h.sync hs))
  · rw [if_neg h.requests.le.not_gt]
    refine ⟨⟨h.valid ▸ hpending.1, ?_, h.received ▸ hpending.2.2⟩, h.last⟩
    rcases h.flight with hsame | ⟨hdown, -⟩
    · exact hsame ▸ hpending.2.1
    · exact absurd (hdown.symm.trans hpending.2.1) Bool.false_ne_true

theorem loopStateSync_rests : (waitOf h x).Rests (waitOf h (x.loopStateSync e)) := by
  unfold Session.loopStateSync
  split
  · exact ⟨rfl, rfl, rfl, rfl, .inl rfl, id, nofun⟩
  · exact .of_eq rfl

theorem loopJoinComplete_rests :
    (waitOf h x).Rests (waitOf (loopJoinComplete c e h x).1 (loopJoinComplete c e h x).2) := by
  unfold loopJoinComplete
  split
  · next hdue =>
    split
    · have hsent := wait_sendJoinComplete (c := c) (e := e) (h := h) (x := x) x.link.nextHopMac false
      generalize sendJoinComplete c e h x.link.nextHopMac x false = o at hsent ⊢
      have hrests : (waitOf h x).Rests (waitOf o.1 o.2.1) := by
        rw [hsent]
        exact ⟨rfl, rfl, rfl, rfl, .inl rfl, fun _ => hdue.1, id⟩
      obtain ⟨h', y, _ | _⟩ := o
      · exact hrests
      · exact hrests
    · refine ⟨?_, rfl, rfl, rfl, .inr ⟨rfl, hdue.1⟩, nofun, id⟩
      simp [waitOf, Effect.isSchemaRequest]
  · exact .of_eq rfl

theorem loopDiscoverAnnounce_wait :
    waitOf (loopDiscoverAnnounce c e h x).1 (loopDiscoverAnnounce c e h x).2 = waitOf h x := by
  unfold loopDiscoverAnnounce
  split
  · simp [waitOf, sendDiscoverAnnounce]
  · rfl

theorem loopSlot_requests : (h.loopSlot e).requests = h.requests := by
  unfold Hub.loopSlot
  split <;> rfl

/-- The loop of a session: up to the schema request, and after it. -/
theorem loopSession_rests :
    (waitOf (loopSchemaRequest c e (loopOffline e h (x.prune e)).1 (loopOffline e h (x.prune e)).2).1
      (loopSchemaRequest c e (loopOffline e h (x.prune e)).1 (loopOffline e h (x.prune e)).2).2).Rests
      (waitOf (loopSession c e h x).1 (loopSession c e h x).2) := by
  unfold loopSession
  dsimp only
  generalize loopSchemaRequest c e (loopOffline e h (x.prune e)).1 (loopOffline e h (x.prune e)).2 = asked
  have hsync := loopStateSync_rests (e := e) (h := asked.1) (x := asked.2)
  have hcomplete := hsync.trans (loopJoinComplete_rests (c := c) (e := e))
  generalize loopJoinComplete c e asked.1 (asked.2.loopStateSync e) = completed at hcomplete ⊢
  refine hcomplete.trans (.of_eq ?_)
  rw [loopDiscoverAnnounce_wait]
  unfold waitOf
  rw [loopSlot_requests]

theorem loopSession_turn :
    (waitOf h x).Turn e.now false (waitOf (loopSession c e h x).1 (loopSession c e h x).2) := by
  have hoffline : waitOf (loopOffline e h (x.prune e)).1 (loopOffline e h (x.prune e)).2 = waitOf h x :=
    loopOffline_wait
  refine .trans ?_ loopSession_rests.turn
  rw [← hoffline]
  exact loopSchemaRequest_turn

/-! ## The retry queues -/

theorem sendConfigFrame_requests (p : PendingConfig) : (sendConfigFrame c e h x p).1.requests = h.requests := by
  unfold sendConfigFrame
  split
  · rfl
  split
  · rfl
  · exact requests_sendEncryptedWithTxCounterResult _ .config _ _ _ nofun

theorem loopConfig_requests (x? : Option Session) (p : PendingConfig) :
    (loopConfig c e h x? p).1.requests = h.requests := by
  unfold loopConfig
  split
  · rfl
  split
  · simp [Effect.isSchemaRequest]
  split
  · simp [Effect.isSchemaRequest]
  · exact sendConfigFrame_requests _

theorem loopConfigs_requests (x? : Option Session) (ps : List PendingConfig) :
    (loopConfigs c e x? ps h).1.requests = h.requests := by
  induction ps generalizing h with
  | nil => rfl
  | cons p ps ih => exact ih.trans (loopConfig_requests x? p)

theorem loopCommand_wait (p : PendingCommand) (draw : Nat) {y : Session}
    (hy : (loopCommand c e h (some x) p draw).2.1 = some y) :
    waitOf (loopCommand c e h (some x) p draw).1 y = waitOf h x := by
  unfold loopCommand at hy ⊢
  split at hy
  · next hlimit =>
    rw [if_pos hlimit]
    cases hy
    simp [waitOf, Effect.isSchemaRequest]
  next hlimit =>
  rw [if_neg hlimit]
  split at hy
  · next hdue =>
    rw [if_pos hdue]
    split at hy
    · cases hy
      rfl
    · next hready =>
      cases (Option.filter_eq_some_iff.1 hready).1
      cases hy
      exact wait_sendCommandLoop ..
  · next hdue =>
    rw [if_neg hdue]
    cases hy
    rfl

theorem loopCommands_wait (ps : List (PendingCommand × Nat)) {x? : Option Session} {y : Session}
    (hy : (loopCommands c e ps h x?).2.1 = some y) :
    ∃ x, x? = some x ∧ waitOf (loopCommands c e ps h x?).1 y = waitOf h x := by
  induction ps generalizing h x? with
  | nil => exact ⟨y, hy, rfl⟩
  | cons p ps ih =>
    have hrest : (loopCommands c e ps (loopCommand c e h x? p.1 p.2).1 (loopCommand c e h x? p.1 p.2).2.1).2.1 =
      some y := hy
    obtain ⟨z, hz, hwait⟩ := ih hrest
    cases x? with
    | none =>
      rw [loopCommand_none] at hz
      cases hz
    | some x => exact ⟨x, rfl, hwait.trans (loopCommand_wait p.1 p.2 hz)⟩

/-- The queues leave the wait alone. -/
theorem loopQueues_wait (b : Bridge) {y : Session} (hy : (b.loopQueues c e).session? = some y) :
    ∃ x, b.session? = some x ∧ waitOf (b.loopQueues c e).hub y = waitOf b.hub x := by
  obtain ⟨x, hx, hwait⟩ := loopCommands_wait _ hy
  have hrequests := loopConfigs_requests (c := c) (e := e) (h := b.hub) b.session? b.hub.pendingConfigs
  refine ⟨x, hx, hwait.trans ?_⟩
  exact congrArg (fun n : Nat => { waitOf b.hub x with requests := n }) hrequests

theorem loopSession?_wait (b : Bridge) {y : Session} (hy : (b.loopSession? c e).session? = some y) :
    ∃ x, b.session? = some x ∧
      waitOf (b.loopSession? c e).hub y = waitOf (loopSession c e b.hub x).1 (loopSession c e b.hub x).2 := by
  unfold loopSession? at hy ⊢
  split at hy
  · next hnone => cases hnone.symm.trans hy
  · next x hx =>
    cases hy
    exact ⟨x, hx, rfl⟩

/-- A session that the loop leaves went through the loop. -/
theorem loop_wait (b : Bridge) {y : Session} (hy : (b.loop c e).session? = some y) :
    ∃ x, e.evict = false ∧ e.evictCritical = false ∧ b.session? = some x ∧
      waitOf (b.loop c e).hub y = waitOf (loopSession c e b.hub x).1 (loopSession c e b.hub x).2 := by
  have hqueues : b.loop c e = (b.beforeQueues c e).loopQueues c e := rfl
  rw [hqueues] at hy ⊢
  obtain ⟨z, hz, hwait⟩ := loopQueues_wait _ hy
  rw [hwait]
  unfold beforeQueues at hz ⊢
  dsimp only at hz ⊢
  cases hcritical : e.evictCritical with
  | true =>
    rw [hcritical, if_pos rfl, evict_session] at hz
    cases hz
  | false =>
    rw [hcritical, if_neg Bool.false_ne_true] at hz
    rw [if_neg Bool.false_ne_true]
    obtain ⟨x, hx, hloop⟩ := loopSession?_wait _ hz
    cases hevict : e.evict with
    | true =>
      rw [hevict, if_pos rfl, evict_session] at hx
      cases hx
    | false =>
      rw [hevict, if_neg Bool.false_ne_true] at hx hloop
      rw [if_neg Bool.false_ne_true]
      exact ⟨x, rfl, rfl, hx, hloop⟩

theorem loopCommands_some (ps : List (PendingCommand × Nat)) :
    ∃ y, (loopCommands c e ps h (some x)).2.1 = some y := by
  induction ps generalizing h x with
  | nil => exact ⟨x, rfl⟩
  | cons p ps ih =>
    obtain ⟨y, hy⟩ : ∃ y, (loopCommand c e h (some x) p.1 p.2).2.1 = some y := by
      unfold loopCommand
      split
      · exact ⟨_, rfl⟩
      split
      · split <;> exact ⟨_, rfl⟩
      · exact ⟨_, rfl⟩
    have hrest : (loopCommands c e (p :: ps) h (some x)).2.1 =
        (loopCommands c e ps (loopCommand c e h (some x) p.1 p.2).1 (loopCommand c e h (some x) p.1 p.2).2.1).2.1 := rfl
    rw [hrest, hy]
    exact ih

/-- A session that is not evicted is there after the loop. -/
theorem loop_some {b : Bridge} (hevict : e.evict = false) (hcritical : e.evictCritical = false)
    (hx : b.session? = some x) : ∃ y, (b.loop c e).session? = some y := by
  have hqueues : b.loop c e = (b.beforeQueues c e).loopQueues c e := rfl
  have hbefore : (b.beforeQueues c e).session? = some (loopSession c e b.hub x).2 := by
    unfold beforeQueues
    rw [hevict, hcritical]
    unfold loopSession?
    dsimp only
    rw [if_neg Bool.false_ne_true, if_neg Bool.false_ne_true, hx]
  rw [hqueues]
  unfold loopQueues
  rw [hbefore]
  exact loopCommands_some _

/-! ## All calls -/

theorem sendCommandToLeaf_wait (index : UInt8) (value : Bytes) :
    waitOf (sendCommandToLeaf c e h x index value).1 (sendCommandToLeaf c e h x index value).2.1 =
      waitOf h x := by
  unfold sendCommandToLeaf
  split
  · rfl
  · have hsent : waitOf (sendCommandFragments c e h x.link.nextHopMac x index value x.txCounter true).1
        (sendCommandFragments c e h x.link.nextHopMac x index value x.txCounter true).2.1 = waitOf h x :=
      wait_sendCommandLoop ..
    unfold sendCommand
    generalize sendCommandFragments c e h x.link.nextHopMac x index value x.txCounter true = o at hsent ⊢
    obtain ⟨h', y, _ | _⟩ := o
    · exact hsent
    · exact hsent

theorem sendConfigToLeaf_wait (cmd : UInt8) (payload : Bytes) :
    waitOf (sendConfigToLeaf c e h x cmd payload).1 (sendConfigToLeaf c e h x cmd payload).2.1 = waitOf h x := by
  unfold sendConfigToLeaf
  split
  · rfl
  split
  · rfl
  · dsimp only
    have hsent (p : PendingConfig) : (sendConfigFrame c e h x.bumpTxCounter p).1.requests = h.requests :=
      sendConfigFrame_requests p
    split <;> exact congrArg (fun n : Nat => { waitOf h x with requests := n }) (hsent _)

theorem sendOtaFrame_wait (type : PacketType) (payload : Bytes) :
    waitOf (sendOtaFrame c e h x type payload).1 (sendOtaFrame c e h x type payload).2.1 = waitOf h x := by
  unfold sendOtaFrame
  split
  · rfl
  next htype =>
  split
  · rfl
  · have hother : type ≠ .schemaRequest := by
      rintro rfl
      exact htype ⟨nofun, nofun⟩
    have hsent := requests_sendEncryptedWithTxCounterResult (c := c) (e := e) (h := h) (x := x.bumpTxCounter)
      x.link.nextHopMac type downHop x.txCounter payload hother
    exact congrArg (fun n : Nat => { waitOf h x with requests := n }) hsent

theorem discoveryConfirmed_turn (index : UInt8) (success : Bool) :
    (waitOf h x).Turn e.now false (waitOf (discoveryConfirmed c e h x index success).1
      (discoveryConfirmed c e h x index success).2) := by
  have hcounted : waitOf h { x with schema := x.schema.countConfirmed } = waitOf h x := by
    unfold Schema.countConfirmed
    split <;> rfl
  unfold discoveryConfirmed
  split
  · refine .of_eq ?_
    split
    · exact hcounted
    · rfl
  split
  · exact turn_requestSchema (x := { x with schema := { x.schema with requestRetries := 1 } })
      x.link.nextHopMac descriptorTypeEntity index le_rfl id _ rfl
  · dsimp only
    split
    · exact .of_eq hcounted
    · rw [← hcounted]
      exact turn_requestSchema (x := { x with schema := { x.schema.countConfirmed with
          awaitingDiscoveryConfirm := false, requestRetries := 1 } })
        x.link.nextHopMac descriptorTypeEntity x.schema.countConfirmed.pendingRequestIndex le_rfl id _ rfl

/-- A request of the host, on the session that it finds. -/
theorem stored_turn {b : Bridge} {o : Outcome} {y : Session} {now : UInt32} (hx : b.session? = some x)
    (hturn : (waitOf b.hub x).Turn now false (waitOf o.1 o.2.1)) (hy : (b.store o).1.session? = some y) :
    (waitOf b.hub b.ensureSession).Turn now false (waitOf (b.store o).1.hub y) := by
  rw [ensureSession_of hx]
  cases hy
  exact hturn

/-- Every call is one step of the wait. -/
theorem call_turn (b : Bridge) (k : Call) {now : UInt32} {y : Session} (hnow : ∀ n ∈ k.now?, n = now)
    (hy : (b.call c k).session? = some y) :
    (waitOf b.hub b.ensureSession).Turn now (b.hearsSchema c k) (waitOf (b.call c k).hub y) := by
  cases k with
  | frame e senderMac data rssi =>
    cases hnow e.now rfl
    simp only [call] at hy ⊢
    unfold onEspnowFrame at hy ⊢
    unfold hearsSchema
    dsimp only
    cases hf : parsePacket c data with
    | none =>
      rw [hf] at hy
      exact ensureSession_wait hy
    | some f =>
      rw [hf] at hy
      dsimp only [Option.any_some] at hy ⊢
      split at hy
      · next hmac =>
        rw [if_pos hmac, beq_iff_eq.2 hmac, Bool.and_true]
        exact onFrame_turn b senderMac f data.length rssi hy
      · next hother =>
        rw [if_neg hother, beq_eq_false_iff_ne.2 hother, Bool.and_false, Bool.false_and]
        exact ensureSession_wait hy
  | loop e =>
    cases hnow e.now rfl
    obtain ⟨x, -, -, hx, hwait⟩ := loop_wait b hy
    have hcall : b.call c (.loop e) = b.loop c e := rfl
    rw [hcall, hwait, ensureSession_of hx]
    exact loopSession_turn
  | command e index value =>
    simp only [call] at hy ⊢
    unfold command at hy ⊢
    split at hy
    · exact ensureSession_wait hy
    · next hx => exact stored_turn hx (.of_eq (sendCommandToLeaf_wait index value)) hy
  | configure e cmd payload =>
    simp only [call] at hy ⊢
    unfold configure at hy ⊢
    split at hy
    · exact ensureSession_wait hy
    · next hx => exact stored_turn hx (.of_eq (sendConfigToLeaf_wait cmd payload)) hy
  | otaFrame e type payload =>
    simp only [call] at hy ⊢
    unfold otaFrame at hy ⊢
    split at hy
    · exact ensureSession_wait hy
    · next hx =>
      rw [ensureSession_of hx]
      cases hy
      exact .of_eq (sendOtaFrame_wait type payload)
  | confirmState e base mac =>
    cases hnow e.now rfl
    simp only [call] at hy ⊢
    unfold confirmState at hy ⊢
    split at hy
    · exact ensureSession_wait hy
    · next hx => exact stored_turn hx (confirmStateDelivery_turn base mac) hy
  | discoveryConfirmed e index success =>
    cases hnow e.now rfl
    simp only [call] at hy ⊢
    unfold confirmDiscovery at hy ⊢
    split at hy
    · exact ensureSession_wait hy
    · next hx =>
      rw [ensureSession_of hx]
      cases hy
      exact discoveryConfirmed_turn index success
  | invalidate =>
    simp only [call] at hy ⊢
    unfold invalidateAllSessions at hy ⊢
    split at hy
    · next hnone => cases hnone.symm.trans hy
    · cases hy
  | restart => cases hy
  | others slot => exact ensureSession_wait hy

end

end Bridge

end EspTree
