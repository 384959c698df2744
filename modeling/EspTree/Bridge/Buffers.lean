import EspTree.Bridge.Moves
import EspTree.Reservation

/-!
# The bridge: buffers

The buffers of a session and their counters over runs.  Only `STATE` and `SCHEMA_PUSH` fragments, the
loop and a new `JOIN` change them; the other functions are listed first, each with the lemma that it
does not.

There is a pair of buffers in each session, for states and for schemas, each with a counter.
`Buffers.Books` is the invariant of the pair, `Balanced` that every session has it.  The first half
of the module is the list of functions that leave the buffers of a session alone.  The second half
follows the fragments and the expiry, and `Balanced.call` puts both together.

The lemmas of the first half are near to each other on purpose.  When a function of the source
changes, its own lemma is the one that has to be proved again.
-/

namespace EspTree

open Wire OtaManager

namespace Bridge

/-- The buffers of a session, their counters and their limits. -/
structure Buffers where
  limits : FragmentLimits := {}
  state : Assemblies := []
  stateReserved : UInt32 := 0
  schema : Assemblies := []
  schemaReserved : UInt32 := 0

def Session.buffers (x : Session) : Buffers :=
  ⟨x.limits, x.stateAssemblies, x.stateReservedBytes, x.schemaAssemblies, x.schemaReservedBytes⟩

section

variable (c : Crypto) (e : Env) (h : Hub) (x : Session)

/-! ## Sending -/

@[simp]
theorem bumpTxCounter_buffers : x.bumpTxCounter.buffers = x.buffers := rfl

@[simp]
theorem sendEncrypted_buffers (mac : Mac) (type : PacketType) (hop : UInt8) (plaintext : Bytes) :
    (sendEncrypted c e h mac x type hop plaintext).2.1.buffers = x.buffers := by
  unfold sendEncrypted
  split
  · rfl
  · split <;> rfl

@[simp]
theorem sendJoinAck_buffers (mac : Mac) (accepted reason stage : UInt8) :
    (sendJoinAck c e h mac x accepted reason stage).2.1.buffers = x.buffers := by
  unfold sendJoinAck
  dsimp only
  split <;> rfl

@[simp]
theorem sendJoinComplete_buffers (mac : Mac) (reset : Bool) :
    (sendJoinComplete c e h mac x reset).2.1.buffers = x.buffers :=
  sendJoinAck_buffers c e h x mac 1 0 joinStatusComplete

@[simp]
theorem sendDeauth_buffers (mac : Mac) (f : Frame) :
    (sendDeauth c e h mac x f).2.1.buffers = x.buffers := rfl

@[simp]
theorem sendStateAck_buffers (mac : Mac) (base : UInt32) :
    (sendStateAck c e h mac x base).2.1.buffers = x.buffers := sendEncrypted_buffers ..

@[simp]
theorem requestSchema_buffers (mac : Mac) (descriptorType index : UInt8) :
    (requestSchema c e h mac x descriptorType index).2.1.buffers = x.buffers :=
  sendEncrypted_buffers c e h x mac .schemaRequest downHop (SchemaRequest.bytes ⟨descriptorType, index⟩)

@[simp]
theorem sendCommandLoop_buffers (mac : Mac) (index : UInt8) (value : Bytes) (txBase : UInt32)
    (consume : Bool) (fragSize count left chunk : Nat) :
    (sendCommandLoop c e mac index value txBase consume fragSize count left chunk h x).2.1.buffers =
      x.buffers := by
  obtain ⟨_, _, hsession⟩ := sendCommandLoop_session (c := c) (e := e) (h := h) (x := x) mac index value
    txBase consume fragSize count left chunk
  rw [hsession]
  rfl

@[simp]
theorem sendCommandFragments_buffers (mac : Mac) (index : UInt8) (value : Bytes) (txBase : UInt32)
    (consume : Bool) :
    (sendCommandFragments c e h mac x index value txBase consume).2.1.buffers = x.buffers :=
  sendCommandLoop_buffers ..

@[simp]
theorem sendCommandToLeaf_buffers (index : UInt8) (value : Bytes) :
    (sendCommandToLeaf c e h x index value).2.1.buffers = x.buffers := by
  unfold sendCommandToLeaf sendCommand
  split
  · rfl
  · have hsend := sendCommandFragments_buffers c e h x x.link.nextHopMac index value x.txCounter true
    dsimp only
    split <;> rename_i heq <;> rw [heq] at hsend <;> exact hsend

@[simp]
theorem sendConfigToLeaf_buffers (command : UInt8) (payload : Bytes) :
    (sendConfigToLeaf c e h x command payload).2.1.buffers = x.buffers := by
  unfold sendConfigToLeaf
  split
  · rfl
  · split
    · rfl
    · dsimp only
      split <;> rfl

@[simp]
theorem sendOtaFrame_buffers (type : PacketType) (payload : Bytes) :
    (sendOtaFrame c e h x type payload).2.1.buffers = x.buffers := by
  unfold sendOtaFrame
  split
  · rfl
  · split <;> rfl

/-! ## Handlers -/

@[simp]
theorem markOnline_buffers (rssi : Int) (counter : UInt32) (reported : Int) :
    (markOnline e h x rssi counter reported).2.buffers = x.buffers := rfl

@[simp]
theorem handleDiscover_buffers (senderMac : Mac) : (handleDiscover e h x senderMac).2.1.buffers = x.buffers := rfl

theorem restore_buffers (cached? : Option Cached) : (x.restore cached?).buffers = x.buffers := by
  cases cached? <;> rfl

theorem joinCached_buffers (senderMac : Mac) (dirtyCount : UInt8) :
    (joinCached c e h x senderMac dirtyCount).2.1.buffers = x.buffers := by
  unfold joinCached
  dsimp only
  split
  · exact sendJoinComplete_buffers ..
  · generalize hjoin : ({ x.join with stateSyncPending := true, awaitingMoreDirty := true } : JoinState) = j
    have hsend := sendJoinAck_buffers c e (h.note (.schemaComplete x.schema.totalEntities))
      { x with join := j } senderMac 1 0 joinStatusSendState
    split <;> rename_i heq <;> rw [heq] at hsend <;> exact hsend

theorem joinUncached_buffers (senderMac : Mac) :
    (joinUncached c e h x senderMac).2.1.buffers = x.buffers := by
  unfold joinUncached
  dsimp only
  generalize ({ x.schema with
    entities := [], received := false, pendingDescriptorType := descriptorTypeIdentity
    pendingIndex := 0 } : Schema) = schema
  have hsend := sendJoinAck_buffers c e h { x with schema := schema } senderMac 1 0
    joinStatusSchemaRefresh
  split <;> rename_i heq <;> rw [heq] at hsend
  · exact hsend
  · rename_i h' x'
    have hrequest := (requestSchema_buffers c e h' x' senderMac descriptorTypeIdentity 0).trans hsend
    split <;> rename_i heq' <;> rw [heq'] at hrequest <;> exact hrequest

/-- A new `JOIN` starts with empty buffers. -/
theorem rekey_buffers (join : Join) (nonce : Nonce) (f : Frame) (senderMac : Mac) (rssi : Int) :
    (x.rekey c e h join nonce f senderMac rssi).buffers = {} ∨
      (x.rekey c e h join nonce f senderMac rssi).buffers =
        { limits := FragmentLimits.ofMtu v2MaxPayload } := by
  unfold Session.rekey Session.negotiate
  dsimp only
  split
  · exact .inr rfl
  · exact .inl rfl

/-- A fresh `JOIN` drops the buffers. -/
theorem freshJoin_buffers (senderMac : Mac) (f : Frame) (rssi : Int) :
    (freshJoin c e h x senderMac f rssi).2.1.buffers = {} ∨
      (freshJoin c e h x senderMac f rssi).2.1.buffers =
        { limits := FragmentLimits.ofMtu v2MaxPayload } := by
  unfold freshJoin
  dsimp only
  generalize (if x.schema.identity.esphomeName.isEmpty then _ else _) = key
  split
  · rw [joinCached_buffers, restore_buffers]
    exact rekey_buffers ..
  · rw [joinUncached_buffers]
    exact rekey_buffers ..

theorem handleJoin_buffers (senderMac : Mac) (f : Frame) (rssi : Int) :
    (handleJoin c e h x senderMac f rssi).2.1.buffers = x.buffers ∨
      (handleJoin c e h x senderMac f rssi).2.1.buffers = {} ∨
      (handleJoin c e h x senderMac f rssi).2.1.buffers =
        { limits := FragmentLimits.ofMtu v2MaxPayload } := by
  unfold handleJoin
  dsimp only
  split
  · exact .inl (sendJoinAck_buffers ..)
  · split
    · exact .inl (sendJoinAck_buffers c e h
        { x with lastSeenCounter := f.header.txCounter, link := x.link.heard e senderMac rssi }
        senderMac 1 0 x.retryStage)
    · exact .inr (freshJoin_buffers ..)

theorem becomeNormal_buffers (rssi : Int) (counter : UInt32) (reported : Int) :
    (becomeNormal e h x rssi counter reported).2.buffers = x.buffers := by
  unfold becomeNormal
  split <;> rfl

theorem comeBack_buffers (rssi : Int) (counter : UInt32) :
    (comeBack e h x rssi counter).2.buffers = x.buffers := by
  unfold comeBack
  split <;> rfl

theorem handleHeartbeat_buffers (senderMac : Mac) (f : Frame) (rssi : Int) :
    (handleHeartbeat c e h x senderMac f rssi).2.1.buffers = x.buffers := by
  unfold handleHeartbeat
  split
  · rfl
  · split
    · rfl
    · split
      · rfl
      · split
        · rfl
        · exact becomeNormal_buffers e h { x with
            lastSeenCounter := f.header.txCounter, link := x.link.heartbeat e senderMac _ } rssi _ _

theorem configAcked_buffers (plaintext : Bytes) (rssi : Int) (counter : UInt32) :
    (configAcked e h x plaintext rssi counter).2.buffers = x.buffers := by
  unfold configAcked
  split
  · rfl
  · exact comeBack_buffers ..

theorem dispatchAck_buffers (plaintext : Bytes) (rssi : Int) (counter : UInt32) :
    (dispatchAck e h x plaintext rssi counter).2.1.buffers = x.buffers := by
  unfold dispatchAck
  dsimp only
  split
  · rfl
  · split
    · exact configAcked_buffers ..
    · exact comeBack_buffers ..

theorem handleAck_buffers (f : Frame) (rssi : Int) :
    (handleAck c e h x f rssi).2.1.buffers = x.buffers := by
  unfold handleAck
  split
  · rfl
  · split
    · rfl
    · split
      · rfl
      · dsimp only
        split
        · rfl
        · exact dispatchAck_buffers e h { x with
            lastSeenCounter := f.header.txCounter
            link := { x.link with lastSeenUptimeS := e.now / 1000 } } _ rssi _

theorem schemaArrived_buffers (senderMac : Mac) (sync : Bool) :
    (schemaArrived c e h x senderMac sync).2.1.buffers = x.buffers := by
  unfold schemaArrived
  dsimp only
  split
  · exact sendJoinAck_buffers ..
  · exact sendJoinComplete_buffers ..

theorem identityArrived_buffers (senderMac : Mac) (identity : Identity) (total : UInt8) :
    (identityArrived c e h x senderMac identity total).2.1.buffers = x.buffers := by
  unfold identityArrived
  dsimp only
  generalize (if x.schema.entities.isEmpty then h else _) = h'
  split
  · exact schemaArrived_buffers ..
  · exact requestSchema_buffers ..

theorem entityArrived_buffers (senderMac : Mac) (entity : EntitySchema) (total : UInt8) :
    (entityArrived c e h x senderMac entity total).2.1.buffers = x.buffers := by
  unfold entityArrived
  dsimp only
  split
  · exact schemaArrived_buffers ..
  · split
    · exact schemaArrived_buffers ..
    · exact requestSchema_buffers ..

theorem schemaMessage_buffers (senderMac : Mac) (message : Bytes) :
    (schemaMessage c e h x senderMac message).2.1.buffers = x.buffers := by
  unfold schemaMessage
  split
  · rfl
  · split
    · split
      · rfl
      · exact identityArrived_buffers ..
    · split
      · rfl
      · exact entityArrived_buffers ..

theorem noteHops_buffers (f : Frame) : (noteHops h x f).2.buffers = x.buffers := by
  unfold noteHops
  dsimp only
  split <;> rfl

theorem confirmStateDelivery_buffers (base : UInt32) (nextHopMac : Mac) :
    (confirmStateDelivery c e h x base nextHopMac).2.1.buffers = x.buffers := by
  unfold confirmStateDelivery
  dsimp only
  rw [sendStateAck_buffers]
  split
  · split
    · exact sendJoinComplete_buffers c e h _ nextHopMac true
    · rfl
  · rfl

/-! ## The loop -/

theorem loopOffline_buffers : (loopOffline e h x).2.buffers = x.buffers := by
  unfold loopOffline
  split <;> rfl

theorem loopSchemaRequest_buffers : (loopSchemaRequest c e h x).2.buffers = x.buffers := by
  unfold loopSchemaRequest
  split
  · split
    · exact requestSchema_buffers ..
    · rfl
  · rfl

theorem loopJoinComplete_buffers : (loopJoinComplete c e h x).2.buffers = x.buffers := by
  unfold loopJoinComplete
  split
  · split
    · have hsend := sendJoinComplete_buffers c e h x x.link.nextHopMac false
      split <;> rename_i heq <;> rw [heq] at hsend <;> exact hsend
    · rfl
  · rfl

theorem loopDiscoverAnnounce_buffers : (loopDiscoverAnnounce c e h x).2.buffers = x.buffers := by
  unfold loopDiscoverAnnounce
  split <;> rfl

theorem discoveryConfirmed_buffers (index : UInt8) (success : Bool) :
    (discoveryConfirmed c e h x index success).2.buffers = x.buffers := by
  unfold discoveryConfirmed
  dsimp only
  split
  · split <;> rfl
  · split
    · exact requestSchema_buffers ..
    · split
      · rfl
      · exact requestSchema_buffers ..

end

/-! ## The books -/

/-- The books of a session are in order. -/
structure Buffers.Books (f : Buffers) : Prop where
  valid : f.limits.Valid
  state : Ledger f.state f.stateReserved
  schema : Ledger f.schema f.schemaReserved
  sized : Sized f.limits.maxEntityFragment f.schema

theorem Buffers.Books.empty {limits : FragmentLimits} (h : limits.Valid) :
    Books { limits := limits } :=
  ⟨h, .empty, .empty, by simp [Sized]⟩

section

variable {c : Crypto} {e : Env} {h : Hub} {x : Session} {senderMac : Mac} {f : Frame} {rssi : Int}
  {view : EntityPayload} {base : UInt32}

theorem stateMessage_buffers (a : FragmentAssembly) :
    (stateMessage e h x senderMac f rssi view base a).2.buffers =
      { x.buffers with
        state := x.stateAssemblies.remove view.entityIndex
        stateReserved := x.stateReservedBytes - UInt32.ofNat a.data.length } := by
  unfold stateMessage
  dsimp only
  split
  · split <;> rfl
  · split <;> rfl

/-- A fragment of a state that opens well keeps the books. -/
theorem Buffers.Books.storeState (hbooks : x.buffers.Books)
    (hopens : OpensWell x.limits x.stateAssemblies x.stateReservedBytes view base) :
    (storeState e h x senderMac f rssi view base).2.1.buffers.Books := by
  have hafter := (offerFragment_ledger_iff true e.now hbooks.state hbooks.valid).2 hopens
  unfold Bridge.storeState
  dsimp only
  split
  · exact ⟨hbooks.valid, hafter, hbooks.schema, hbooks.sized⟩
  next a ha =>
    split
    · exact ⟨hbooks.valid, hafter, hbooks.schema, hbooks.sized⟩
    · rw [stateMessage_buffers]
      exact ⟨hbooks.valid, hbooks.state.complete hbooks.valid hopens ha, hbooks.schema, hbooks.sized⟩

/-- So does the handler of states. -/
theorem Buffers.Books.handleState (hbooks : x.buffers.Books)
    (hopens : ∀ view, (validateSessionPacket c x f).bind EntityPayload.parse = some view →
      counterIsNewer (messageBase f view) x.lastCompletedStateMessageTxBase →
      OpensWell x.limits x.stateAssemblies x.stateReservedBytes view (messageBase f view)) :
    (handleState c e h x senderMac f rssi).2.1.buffers.Books := by
  unfold Bridge.handleState
  split
  · exact hbooks
  · split
    · exact hbooks
    next plaintext hplaintext =>
      split
      · exact hbooks
      next view hview =>
        dsimp only
        split
        next hnew => exact hbooks.storeState (hopens view (by rw [hplaintext]; exact hview) hnew)
        · split
          · rw [sendStateAck_buffers]
            exact hbooks
          · exact hbooks

/-- So does the handler of descriptors. -/
theorem Buffers.Books.handleSchemaPush (hbooks : x.buffers.Books)
    (hopens : ∀ view, (validateSessionPacket c x f).bind EntityPayload.parse = some view →
      counterIsNewer f.header.txCounter x.lastSeenCounter →
      OpensWell x.limits x.schemaAssemblies x.schemaReservedBytes view (messageBase f view)) :
    (handleSchemaPush c e h x senderMac f).2.1.buffers.Books := by
  unfold Bridge.handleSchemaPush
  split
  · exact hbooks
  next hnew =>
    rw [not_not] at hnew
    split
    · exact hbooks
    next view hview =>
      have hopens := hopens view hview hnew
      have hafter := (offerFragment_ledger_iff true e.now hbooks.schema hbooks.valid).2 hopens
      have hsized := hbooks.sized.offer true view (messageBase f view) e.now hbooks.schema
      dsimp only
      split
      · exact ⟨hbooks.valid, hbooks.state, hafter, hsized⟩
      next a ha =>
        split
        · exact ⟨hbooks.valid, hbooks.state, hafter, hsized⟩
        · rw [schemaMessage_buffers]
          have hcomplete := hbooks.schema.complete hbooks.valid hopens ha
          have hdata := hsized _ (mem_of_assembly_offerFragment ha)
          refine ⟨hbooks.valid, hbooks.state, ?_, fun p hp => hsized p (List.mem_of_mem_filter hp)⟩
          rw [hdata] at hcomplete
          exact hcomplete

/-- The session after the expired buffers are gone. -/
theorem Buffers.Books.prune (hbooks : x.buffers.Books) : (x.prune e).buffers.Books := by
  have hsum : ((x.schemaAssemblies.filter fun p => p.2.expired e.now).map
      fun p => p.2.fragmentCount.toNat * x.limits.maxEntityFragment).sum =
      Assemblies.bytes (x.schemaAssemblies.filter fun p => p.2.expired e.now) := by
    unfold Assemblies.bytes
    congr 1
    refine List.map_congr_left fun p hp => ?_
    exact (hbooks.sized p (List.mem_of_mem_filter hp)).symm
  have hschema := hbooks.schema.drop fun p => p.2.expired e.now
  refine ⟨hbooks.valid, hbooks.state.drop fun p => p.2.expired e.now, ?_,
    fun p hp => hbooks.sized p (List.mem_of_mem_filter hp)⟩
  unfold Session.prune Session.buffers
  dsimp only
  rw [hsum]
  exact hschema

/-- The loop drops what has expired, with its reservation. -/
theorem Buffers.Books.loopSession (hbooks : x.buffers.Books) :
    (loopSession c e h x).2.buffers.Books := by
  unfold Bridge.loopSession
  dsimp only
  rw [loopDiscoverAnnounce_buffers, loopJoinComplete_buffers]
  unfold Session.loopStateSync
  have hkept : (loopSchemaRequest c e (loopOffline e h (x.prune e)).1
      (loopOffline e h (x.prune e)).2).2.buffers = (x.prune e).buffers := by
    rw [loopSchemaRequest_buffers, loopOffline_buffers]
  have hpruned := hbooks.prune (e := e)
  rw [← hkept] at hpruned
  split
  · exact ⟨hpruned.valid, .empty, hpruned.schema, hpruned.sized⟩
  · exact hpruned

end

/-! ## Runs -/

/-- A fragment of this leaf passes the checks before its handler. -/
structure BringsFragment (c : Crypto) (b : Bridge) (data : Bytes) (x : Session) (f : Frame)
    (view : EntityPayload) : Prop where
  parsed : parsePacket c data = some f
  leafMac : f.header.leafMac = b.leafMac
  parent : f.parentMac.all (fun m => m == Octets.zero 6 || m == b.hub.config.bridgeMac)
  session : b.session? = some x
  opened : (validateSessionPacket c x f).bind EntityPayload.parse = some view

/-- A fragment that comes to the buffers opens well. -/
def FragmentsOpen (c : Crypto) (b : Bridge) : Call → Prop
  | .frame _ _ data _ => ∀ x f view, BringsFragment c b data x f view →
      (f.type? = some .state → data.length ≤ x.sessionMaxPayload →
        counterIsNewer (messageBase f view) x.lastCompletedStateMessageTxBase →
        OpensWell x.limits x.stateAssemblies x.stateReservedBytes view (messageBase f view)) ∧
      (f.type? = some .schemaPush → counterIsNewer f.header.txCounter x.lastSeenCounter →
        OpensWell x.limits x.schemaAssemblies x.schemaReservedBytes view (messageBase f view))
  | _ => True

/-- The books of the session, if there is one, are in order. -/
def Balanced (b : Bridge) : Prop := ∀ x, b.session? = some x → x.buffers.Books

section

variable {c : Crypto} {e : Env} {b : Bridge}

theorem Balanced.ensureSession (hb : b.Balanced) : b.ensureSession.buffers.Books := by
  unfold Bridge.ensureSession
  cases hx : b.session? with
  | none => exact .empty .default
  | some x => exact hb x hx

theorem balanced_of_buffers {x : Session} (hx : b.session? = some x) (h : x.buffers.Books) : b.Balanced := by
  intro y hy
  rw [hx] at hy
  cases hy
  exact h

/-- A frame of the session keeps the balance, if its fragment opens well. -/
theorem Balanced.onSessionFrame (hb : b.Balanced) {senderMac : Mac} {f : Frame} {len : Nat} {rssi : Int}
    (hopens : ∀ x view, b.session? = some x → f.type? = some .state → len ≤ x.sessionMaxPayload →
      (validateSessionPacket c x f).bind EntityPayload.parse = some view →
      counterIsNewer (messageBase f view) x.lastCompletedStateMessageTxBase →
      OpensWell x.limits x.stateAssemblies x.stateReservedBytes view (messageBase f view)) :
    (b.onSessionFrame c e senderMac f len rssi).1.Balanced := by
  unfold Bridge.onSessionFrame
  split
  next hnone =>
    intro x hx
    cases hnone.symm.trans hx
  next x hx =>
    have hbooks := hb x hx
    dsimp only
    split
    · exact balanced_of_buffers rfl hbooks
    · have hnoted : (noteHops b.hub (x.heardFrom senderMac rssi).countPacket f).2.buffers = x.buffers :=
        noteHops_buffers ..
      have hsame : ∃ y, (noteHops b.hub (x.heardFrom senderMac rssi).countPacket f).2 = y ∧
          y.limits = x.limits ∧ y.stateAssemblies = x.stateAssemblies ∧
          y.stateReservedBytes = x.stateReservedBytes ∧ y.sessionKey = x.sessionKey ∧
          y.sessionKeyValid = x.sessionKeyValid ∧ y.sessionMaxPayload = x.sessionMaxPayload ∧
          y.lastCompletedStateMessageTxBase = x.lastCompletedStateMessageTxBase := by
        refine ⟨_, rfl, ?_⟩
        unfold noteHops
        dsimp only
        split <;> exact ⟨rfl, rfl, rfl, rfl, rfl, rfl, rfl⟩
      obtain ⟨y, hy, hlimits, hpending, hreserved, hkey, hvalid, hmax, hlast⟩ := hsame
      rw [hy] at hnoted ⊢
      rw [← hnoted] at hbooks
      split
      · exact balanced_of_buffers rfl hbooks
      next hlen =>
        split
        next htype =>
          refine balanced_of_buffers rfl (hbooks.handleState fun view hview hnew => ?_)
          rw [hlimits, hpending, hreserved]
          rw [hlast] at hnew
          refine hopens x view hx htype (by omega) ?_ hnew
          rw [← hview]
          unfold validateSessionPacket
          rw [hkey, hvalid]
        · refine balanced_of_buffers rfl ?_
          rw [handleHeartbeat_buffers]
          exact hbooks
        · refine balanced_of_buffers rfl ?_
          rw [handleAck_buffers]
          exact hbooks

theorem Balanced.onEspnowFrame (hb : b.Balanced) {senderMac : Mac} {data : Bytes} {rssi : Int}
    (hok : b.FragmentsOpen c (.frame e senderMac data rssi)) :
    (b.onEspnowFrame c e senderMac data rssi).1.Balanced := by
  unfold Bridge.onEspnowFrame
  split
  · exact hb
  next f hf =>
    split
    swap
    · exact hb
    next hmac =>
      unfold Bridge.onFrame
      split
      · exact hb
      next hparent =>
        rw [not_not] at hparent
        have hsession : (b.onSessionFrame c e senderMac f data.length rssi).1.Balanced :=
          hb.onSessionFrame fun x view hx htype hlen hview hnew =>
            (hok x f view ⟨hf, hmac, hparent, hx, hview⟩).1 htype hlen hnew
        split
        · split
          · exact hb
          refine balanced_of_buffers rfl ?_
          rw [handleDiscover_buffers]
          exact hb.ensureSession
        · split
          · exact hb
          refine balanced_of_buffers rfl ?_
          rcases handleJoin_buffers c e b.hub b.ensureSession senderMac f rssi with h | h | h
          · rw [h]
            exact hb.ensureSession
          · rw [h]
            exact .empty .default
          · rw [h]
            exact .empty (.ofMtu (.inr rfl))
        next htype =>
          split
          · exact hb
          next x hx =>
            exact balanced_of_buffers rfl ((hb x hx).handleSchemaPush fun view hview hnew =>
              (hok x f view ⟨hf, hmac, hparent, hx, hview⟩).2 htype hnew)
        · exact hsession
        · exact hsession
        · exact hsession
        · exact hb

/-- A session that is evicted has no books. -/
theorem Balanced.evict (hb : b.Balanced) : b.evict.Balanced := by
  unfold Bridge.evict
  split
  · exact hb
  · intro x hx
    cases hx

theorem Balanced.loopSession? (hb : b.Balanced) : (b.loopSession? c e).Balanced := by
  unfold Bridge.loopSession?
  split
  next hnone =>
    intro x hx
    cases hnone.symm.trans hx
  next x hx => exact balanced_of_buffers rfl (hb x hx).loopSession

theorem loopCommand_buffers {h : Hub} {x? : Option Session} (p : PendingCommand) (draw : Nat)
    (hx? : ∀ x, x? = some x → x.buffers.Books) :
    ∀ x, (loopCommand c e h x? p draw).2.1 = some x → x.buffers.Books := by
  unfold loopCommand
  split
  · split
    · rintro x ⟨⟩
    next y =>
      rintro x ⟨⟩
      have hbooks := hx? y rfl
      exact hbooks
  · split
    · split
      · exact hx?
      next y hy =>
        have hsend := sendCommandFragments_buffers c e h y p.nextHopMac p.fieldIndex p.value p.txBase
          false
        have hbooks := hx? y (Option.filter_eq_some_iff.1 hy).1
        rw [← hsend] at hbooks
        rintro x ⟨⟩
        exact hbooks
    · exact hx?

theorem loopCommands_buffers {h : Hub} {x? : Option Session} (ps : List (PendingCommand × Nat))
    (hx? : ∀ x, x? = some x → x.buffers.Books) :
    ∀ x, (loopCommands c e ps h x?).2.1 = some x → x.buffers.Books := by
  induction ps generalizing h x? with
  | nil => exact hx?
  | cons p ps ih => exact ih (loopCommand_buffers p.1 p.2 hx?)

/-- The loop keeps the balance. -/
theorem Balanced.loop (hb : b.Balanced) : (b.loop c e).Balanced := by
  unfold Bridge.loop
  dsimp only
  have hevict (p : Bool) {b : Bridge} (hb : b.Balanced) : (if p then b.evict else b).Balanced := by
    split
    · exact hb.evict
    · exact hb
  have hbefore := hevict e.evictCritical ((hevict e.evict hb).loopSession? (c := c) (e := e))
  exact loopCommands_buffers _ hbefore

/-- Every call keeps the books in order, if its fragment opens well. -/
theorem Balanced.call (hb : b.Balanced) {k : Call} (hok : b.FragmentsOpen c k) : (b.call c k).Balanced := by
  cases k with
  | frame e senderMac data rssi => exact hb.onEspnowFrame hok
  | loop e => exact hb.loop
  | command e index value =>
    change (b.command c e index value).1.Balanced
    unfold Bridge.command
    split
    · exact hb
    next x hx =>
      refine balanced_of_buffers rfl ?_
      rw [sendCommandToLeaf_buffers]
      exact hb x hx
  | configure e command payload =>
    change (b.configure c e command payload).1.Balanced
    unfold Bridge.configure
    split
    · exact hb
    next x hx =>
      refine balanced_of_buffers rfl ?_
      rw [sendConfigToLeaf_buffers]
      exact hb x hx
  | otaFrame e type payload =>
    change (b.otaFrame c e type payload).1.Balanced
    unfold Bridge.otaFrame
    split
    · exact hb
    next x hx =>
      refine balanced_of_buffers rfl ?_
      rw [sendOtaFrame_buffers]
      exact hb x hx
  | confirmState e base nextHopMac =>
    change (b.confirmState c e base nextHopMac).1.Balanced
    unfold Bridge.confirmState
    split
    · exact hb
    next x hx =>
      refine balanced_of_buffers rfl ?_
      rw [confirmStateDelivery_buffers]
      exact hb x hx
  | discoveryConfirmed e index success =>
    change (b.confirmDiscovery c e index success).Balanced
    unfold confirmDiscovery
    split
    · exact hb
    next x hx =>
      refine balanced_of_buffers rfl ?_
      rw [discoveryConfirmed_buffers]
      exact hb x hx
  | invalidate =>
    change b.invalidateAllSessions.Balanced
    unfold invalidateAllSessions
    split
    next hnone =>
      intro x hx
      cases hnone.symm.trans hx
    · intro x hx
      cases hx
  | restart =>
    intro x hx
    cases hx
  | others slot => exact hb

end

end Bridge

end EspTree
