import EspTree.Assembly
import EspTree.Remote.Loop

/-!
# The leaf: what a call can do

Every call into a leaf (`on_espnow_frame`, `loop` and the two change callbacks) is a sequence of
the moves below.  A move is one update of the state, with the guard under which the code makes
it; what it does not mention it leaves alone.  `call_moves` goes through the code once, and the
invariants of whole runs are then proved by cases on the moves.

The guards are what the proofs live on.  An entity is marked clean by an acknowledgement only while
one is awaited, a frame is encrypted only by a leaf that has joined and at the counter that is then
used up, and a sweep that is to resume a session is begun only by a leaf that has one.  Where a
handler writes before it checks, there is a move for the write and none for the check.

A move is in general wider than the code: it may be made at any time in the call in which its guard
holds.  So an invariant of all moves is one of all calls, and a step that the moves do not know shows
up as a proof that does not go through in this module, and not in those that use it.
-/

namespace EspTree

open Wire FileReceiver

namespace Remote

variable {η : Type}

/-- A call into a leaf. -/
inductive Call
  | frame (e : Env) (senderMac : Mac) (data : Bytes) (rssi : Int)
  | loop (e : Env)
  | stateChange (index : UInt8) (value : Bytes)
  | textChange (index : UInt8) (value : Bytes)

/-- The frame that a call brings. -/
def Call.frame? : Call → Option Frame
  | .frame _ _ data _ => parseFrame data
  | _ => none

/-- The state after a call. -/
def call (P : Platform η) (s : Remote η) : Call → Remote η
  | .frame e senderMac data rssi => (s.onEspnowFrame P e senderMac data rssi).1
  | .loop e => s.loop P e
  | .stateChange index value => s.onEntityStateChange index value
  | .textChange index value => s.onEntityTextChange index value

/-- A leaf takes the frame as an accepting `JOIN_ACK`. -/
structure Accepts (s : Remote η) (f : Frame) : Prop where
  type : f.type? = some .joinAck
  leafMac : f.header.leafMac = s.config.leafMac
  newer : s.session.joined → counterIsNewer f.header.txCounter s.session.lastSeenCounter
  accepted : (JoinAck.parse f.payload).accepted = 1

/-- A frame passes the checks that `on_espnow_frame` makes before it dispatches. -/
structure Passes (P : Platform η) (s : Remote η) (f : Frame) : Prop where
  psk : validatePsk P.crypto f
  hops : (hopsCount f.header.hopCount).toNat < s.config.maxHops
  parent : f.parentMac.all (fun m => m == Octets.zero 6 || m == s.config.leafMac)

/-- A leaf takes the frame as a `JOIN_ACK` that asks it to wait, and has not been asked too
often. -/
structure ToldToWait (P : Platform η) (s : Remote η) (f : Frame) : Prop where
  passes : s.Passes P f
  type : f.type? = some .joinAck
  leafMac : f.header.leafMac = s.config.leafMac
  newer : s.session.joined → counterIsNewer f.header.txCounter s.session.lastSeenCounter
  size : f.payload.length = JoinAck.size
  rejected : (JoinAck.parse f.payload).accepted ≠ 1
  reason : (JoinAck.parse f.payload).reason = joinReasonWait
  again : ¬ maxRetries ≤ s.discovery.waitRejectCount + 1

/-- A call brings a fragment of a command to a leaf. -/
structure Brings (P : Platform η) (c : Call) (s : Remote η) (f : Frame) (command : EntityPayload) :
    Prop where
  frame : c.frame? = some f
  type : f.type? = some .command
  opened : (s.openFrame P f).bind EntityPayload.parse = some command

/-- The call brings the command with counter `base`, and it was passed on in this call or is the
last one of its entity. -/
def CommandKnown (P : Platform η) (c : Call) (s₀ s : Remote η) (base : UInt32) : Prop :=
  ∃ f command, Brings P c s₀ f command ∧ base = fragmentMessageTxBase f.header.txCounter command ∧
    s.session.sessionKey = s₀.session.sessionKey ∧
    ((∃ flags value, .command s₀.session.sessionKey base command.entityIndex flags value ∈
        s.radio.effects) ∨
      ∃ r, s₀.entities.records[command.entityIndex.toNat]? = some r ∧
        r.lastCompletedCommandMessageTxBase = base)

/-- The result-0 acknowledgement of a command names a command that is known. -/
def AckJustified (P : Platform η) (c : Call) (s₀ s : Remote η) (type : PacketType)
    (plaintext : Bytes) : Prop :=
  type = .ack → (Ack.parse plaintext).ackType = ackCommand → (Ack.parse plaintext).result = 0 →
    CommandKnown P c s₀ s (Ack.parse plaintext).refTxCounter

/-- The frames that a leaf sends: discovery, its own frames, none of whose acknowledgements is that of
a `STATE` message, and those that it relays. -/
inductive Uplink (c : Crypto) (own : Mac) (past : List Effect) : Frame → Prop
  | discovery (leafMac : Mac) (type : PacketType) (hop : UInt8) (tx : UInt32) (payload : Bytes)
      (htype : type = .discover ∨ type = .discoverAnnounce) :
      Uplink c own past (plain c leafMac type hop tx none payload)
  | join (hop : UInt8) (tx : UInt32) (payload : Bytes) :
      Uplink c own past (plain c own .join hop tx none payload)
  | sealed (key : SessionKey) (type : PacketType) (hop : UInt8) (tx : UInt32) (ciphertext : Bytes)
      (htype : type = .heartbeat ∨ type = .state ∨ type = .schemaPush) :
      Uplink c own past (sealed c key own type hop tx none ciphertext)
  | ack (key : SessionKey) (hop : UInt8) (tx : UInt32) (plaintext ciphertext : Bytes)
      (hin : .encrypt .ack key tx plaintext ∈ past)
      (hcrypt : c.crypt key tx plaintext = some ciphertext)
      (hack : (Ack.parse plaintext).ackType ≠ ackState) :
      Uplink c own past (sealed c key own .ack hop tx none ciphertext)
  | relayed (f : Frame) (hother : f.header.leafMac ≠ own) : Uplink c own past f

/-- What a leaf encrypts: its own messages, and acknowledgements other than those of a `STATE`
message. -/
def IsUplink (type : PacketType) (plaintext : Bytes) : Prop :=
  (type = .heartbeat ∨ type = .state ∨ type = .schemaPush) ∨
    type = .ack ∧ (Ack.parse plaintext).ackType ≠ ackState

/-- A `STATE` message of `record` has left: it is remembered, with its effect. -/
def stateSent (s : Remote η) (e : Env) (index : UInt8) (record : EntityRecord) (value : Bytes)
    (base : UInt32) (reset : Bool) : Remote η :=
  (s.rememberState e index value base reset).note (.stateMessage base index (record.payload value))

/-- The leaf waits for the ACK of the message that it remembers. -/
def startWaiting (s : Remote η) : Remote η :=
  { s with entities := { s.entities with waitingForStateAck := true } }

/-- The state without its session, before `can_relay_` is computed again. -/
def withoutSession (s : Remote η) (preserveRoute : Bool) : Remote η :=
  { s with
    session := s.session.cleared preserveRoute
    route := s.route.cleared preserveRoute
    discovery := s.discovery.cleared preserveRoute
    entities := s.entities.cleared
    commands := {}
    timers := s.timers.cleared
    radio := s.radio.cleared }

/-- The moves of a call `c` that was made in state `s₀`. -/
inductive Move (P : Platform η) (c : Call) (s₀ : Remote η) (s : Remote η) : Remote η → Prop
  -- the radio
  | radio (r : Radio) (htx : r.txCounter = s.radio.txCounter) (hdrawn : r.drawn = s.radio.drawn)
      (heff : r.effects = s.radio.effects) : Move P c s₀ s { s with radio := r }
  | send (mac : Mac) (data : Bytes) (sent : Bool) 
      (hout : ∃ f, Uplink P.crypto s.config.leafMac s.radio.effects f ∧ data = f.bytes) :
      Move P c s₀ s (s.note (.send mac data sent))
  | bump : Move P c s₀ s s.bumpTxCounter
  | encrypt (type : PacketType) (plaintext : Bytes) (hjoined : s.session.joined)
      (hack : AckJustified P c s₀ s type plaintext) :
      Move P c s₀ s
        (s.note (.encrypt type s.session.sessionKey s.radio.txCounter plaintext)).bumpTxCounter
  | reboot : Move P c s₀ s (s.note .reboot)
  -- groups that no invariant looks at
  | timers (t : Timers) : Move P c s₀ s { s with timers := t }
  | files (r : Receiver η) : Move P c s₀ s { s with files := r }
  | reported (i : Identity) : Move P c s₀ s { s with reported := i }
  -- discovery: a sweep that resumes a session is started by a joined or normal leaf only
  | discovery (d : Discovery)
      (hd : d.discovering → d.resumeNormalAfterSuccess ∨ d.fastRejoin →
        (s.session.joined ∨ s.session.normal) ∨ (s.discovery.discovering ∧
          (s.discovery.resumeNormalAfterSuccess ∨ s.discovery.fastRejoin))) :
      Move P c s₀ s { s with discovery := d }
  -- the route
  | route (r : Route) (hmac : r.parentMac = s.route.parentMac)
      (hvalid : r.parentValid = s.route.parentValid)
      (hhops : r.hopsToBridge = s.route.hopsToBridge)
      (hrelay : r.canRelay → s.route.canRelay ∨ s.session.normal) :
      Move P c s₀ s { s with route := r }
  | lowerHops (f : Frame) (hf : c.frame? = some f) (hmac : f.header.leafMac = s₀.config.leafMac)
      (hup : hopsIsUpstream f.header.hopCount)
      (hlt : hopsCount f.header.hopCount < s₀.route.hopsToBridge)
      (hparent : s.route.parentMac = s₀.route.parentMac)
      (hvalid : s.route.parentValid = s₀.route.parentValid) :
      Move P c s₀ s
        { s with route := { s.route with hopsToBridge := hopsCount f.header.hopCount } }
  | take (e : Env) (hc : c = .loop e) (hbest : s.route.bestParent = s₀.route.bestParent)
      (hvalid : s₀.route.bestParent.valid) (hdisc : s₀.discovery.discovering)
      (hsweep : s₀.discovery.sweepComplete) :
      Move P c s₀ s { s with route := s.route.takeBestParent }
  | resume (hdisc : s.discovery.discovering) (hresume : s.discovery.resumeNormalAfterSuccess)
      (hparent : s.route.parentValid) :
      Move P c s₀ s { s with session := { s.session with normal := true, joined := true } }
  | complete (f : Frame) (hf : c.frame? = some f) (htype : f.type? = some .joinAck)
      (hmac : f.header.leafMac = s₀.config.leafMac)
      (haccepted : (JoinAck.parse f.payload).accepted = 1)
      (hstage : (JoinAck.parse f.payload).stage = joinStatusComplete)
      (hbest : s.route.bestParent = s₀.route.bestParent) (hjoined : s.session.joined) :
      Move P c s₀ s
        { s with session := { s.session with normal := true }, route := s.route.takeBestParent }
  -- the session
  | clear (preserveRoute : Bool) :
      Move P c s₀ s (s.withoutSession preserveRoute).refreshCanRelay
  | draw (nonce : Nonce) (hjoined : s.session.joined = false) :
      Move P c s₀ s { s with session := { s.session with remoteNonce := nonce } }
  | notNormal :
      Move P c s₀ s (refreshCanRelay { s with session := { s.session with normal := false } })
  | invalidate (f : Frame) (hf : c.frame? = some f) (hwait : s₀.ToldToWait P f)
      (hsame : s.session = s₀.session) :
      Move P c s₀ s { s with session := { s.session with sessionKeyValid := false } }
  | accept (f : Frame) (hf : c.frame? = some f) (haccepts : s₀.Accepts f)
      (hsame : s.session = s₀.session) :
      Move P c s₀ s
        { s with session := s.session.accept P (JoinAck.parse f.payload) f.header.txCounter }
  | seen (f : Frame) (hf : c.frame? = some f) (hopen : (s.openFrame P f).isSome)
      (hnew : counterIsNewer f.header.txCounter s.session.lastSeenCounter) :
      Move P c s₀ s (s.seen f.header.txCounter)
  | seenMax (f : Frame) (hf : c.frame? = some f) (hopen : (s.openFrame P f).isSome) :
      Move P c s₀ s (s.seen (max s.session.lastSeenCounter f.header.txCounter))
  -- entities
  | entities (x : Entities) (hrecords : x.records = s.entities.records)
      (hwait : x.waitingForStateAck → s.entities.waitingForStateAck ∧
        x.pendingStateMessageTxBase = s.entities.pendingStateMessageTxBase ∧
        x.pendingStateFieldIndex = s.entities.pendingStateFieldIndex ∧
        x.pendingStateValue = s.entities.pendingStateValue) :
      Move P c s₀ s { s with entities := x }
  | dirtyAll : Move P c s₀ s s.markAllEntitiesDirty
  | dirty (index : UInt8) : Move P c s₀ s (s.setRecord index (fun r => { r with dirty := true }))
  | push (e : Env) (index : UInt8) (record : EntityRecord) (base : UInt32) (value : Bytes)
      (hjoined : s.session.joined) (hwait : s.entities.waitingForStateAck = false)
      (hrecord : s.entities.records[index.toNat]? = some record)
      (hvalue : ∃ d ∈ s.entities.records, d.dirty ∧ d.schema.entityIndex = index ∧
        value = d.currentValue) :
      Move P c s₀ s (s.stateSent e index record value base true).startWaiting
  | resend (e : Env) (record : EntityRecord) (base : UInt32)
      (hwait : s.entities.waitingForStateAck)
      (hrecord : s.entities.records[s.entities.pendingStateFieldIndex.toNat]? = some record) :
      Move P c s₀ s (s.stateSent e s.entities.pendingStateFieldIndex record
        s.entities.pendingStateValue base false)
  | stateAcked (e : Env) (hwait : s.entities.waitingForStateAck) : Move P c s₀ s (s.stateAcked e)
  -- commands
  | expire (e : Env) : Move P c s₀ s (s.prunePendingCommandFragments e)
  | store (e : Env) (f : Frame) (command : EntityPayload) (plaintext : Bytes)
      (hf : c.frame? = some f) (htype : f.type? = some .command)
      (hopen : s.openFrame P f = some plaintext) (hparse : EntityPayload.parse plaintext = some command)
      (hsame : s.session = s₀.session) :
      Move P c s₀ s
        { s with commands := { s.commands with
            pendingAssemblies := (offerFragment false s.session.limits s.commands.pendingAssemblies
              s.commands.pendingReservedBytes command
              (fragmentMessageTxBase f.header.txCounter command) e.now).pending
            pendingReservedBytes := (offerFragment false s.session.limits
              s.commands.pendingAssemblies s.commands.pendingReservedBytes command
              (fragmentMessageTxBase f.header.txCounter command) e.now).reserved } }
  | command (f : Frame) (command : EntityPayload) (plaintext : Bytes) (record : EntityRecord)
      (a : FragmentAssembly) (hf : c.frame? = some f) (htype : f.type? = some .command)
      (hopen : s₀.openFrame P f = some plaintext)
      (hparse : EntityPayload.parse plaintext = some command)
      (hkey : s.session.sessionKey = s₀.session.sessionKey) (hsame : s.entities = s₀.entities)
      (hrecord : s.entities.records[command.entityIndex.toNat]? = some record)
      (hnew : counterIsNewer (fragmentMessageTxBase f.header.txCounter command)
        record.lastCompletedCommandMessageTxBase)
      (hpending : (command.entityIndex, a) ∈ s.commands.pendingAssemblies)
      (hbase : a.messageTxBase = fragmentMessageTxBase f.header.txCounter command)
      (hcomplete : a.complete) :
      Move P c s₀ s
        (s.completeCommand command (fragmentMessageTxBase f.header.txCounter command) a)
  | remember (f : Frame) (command result : UInt8) (hf : c.frame? = some f)
      (hseen : s.session.lastSeenCounter = f.header.txCounter) :
      Move P c s₀ s { s with commands := { s.commands with
        lastConfigTxCounter := f.header.txCounter
        lastConfigCommand := command
        lastConfigResult := result
        lastConfigValid := true } }
  | configured (f : Frame) (command : UInt8) (hf : c.frame? = some f)
      (hseen : s.session.lastSeenCounter = f.header.txCounter) :
      Move P c s₀ s (s.note (.config s.session.sessionKey f.header.txCounter command))
  -- the application
  | change (index : UInt8) (value : Bytes) (hc : c = .stateChange index value) (hs : s = s₀) :
      Move P c s₀ s (s.onEntityStateChange index value)
  | changeText (index : UInt8) (value : Bytes) (hc : c = .textChange index value) (hs : s = s₀) :
      Move P c s₀ s (s.onEntityTextChange index value)

/-- Sequences of moves. -/
abbrev Moves (P : Platform η) (c : Call) (s₀ : Remote η) : Remote η → Remote η → Prop :=
  Relation.ReflTransGen (Move P c s₀)

/-! ## Sending -/

section

variable {P : Platform η} {e : Env} {c : Call} {s₀ s : Remote η}

/-- Every frame that goes out is one that the leaf has built, or one that it relays. -/
theorem transmit_moves (s : Remote η) (mac : Mac) (frame : Frame)
    (hout : Uplink P.crypto s.config.leafMac s.radio.effects frame) :
    Moves P c s₀ s (s.transmit e mac frame).1 :=
  .tail (.single (.send mac frame.bytes (e.sendOk s.radio.effects.length) ⟨frame, hout, rfl⟩))
    (.radio _ rfl rfl rfl)

/-- The frame of a message that was encrypted. -/
theorem IsUplink.uplink {type : PacketType} {plaintext ciphertext : Bytes} {key : SessionKey}
    {hop : UInt8} {tx : UInt32} (h : IsUplink type plaintext)
    (hin : .encrypt type key tx plaintext ∈ s.radio.effects)
    (hcrypt : P.crypto.crypt key tx plaintext = some ciphertext) :
    Uplink P.crypto s.config.leafMac s.radio.effects
      (sealed P.crypto key s.config.leafMac type hop tx none ciphertext) := by
  rcases h with htype | ⟨rfl, hack⟩
  · exact .sealed key type hop tx ciphertext htype
  · exact .ack key hop tx plaintext ciphertext hin hcrypt hack

/-- Sealing under the next counter: a bump if it fails, a seal and a send otherwise. -/
theorem sendUp_moves (type : PacketType) (plaintext : Bytes) (hjoined : s.session.joined)
    (hack : AckJustified P c s₀ s type plaintext) (hup : IsUplink type plaintext) :
    Moves P c s₀ s (s.sendUp P e type plaintext).1 := by
  unfold sendUp sendSealed
  split
  · exact .single .bump
  · split
    · exact .single .bump
    next hcrypt =>
      refine .trans (.single (.encrypt type plaintext hjoined hack)) (transmit_moves _ _ _ ?_)
      exact hup.uplink List.mem_cons_self hcrypt

/-- A frame that asks for an answer is written down among the outstanding requests before it goes
out. -/
theorem sendUpTracked_moves (type : PacketType) (plaintext : Bytes) (hjoined : s.session.joined)
    (hack : AckJustified P c s₀ s type plaintext) (hup : IsUplink type plaintext) :
    Moves P c s₀ s (s.sendUpTracked P e type plaintext).1 := by
  unfold sendUpTracked
  dsimp only
  split
  · exact .single .bump
  · unfold sendSealed
    split
    · exact .trans (.single .bump) (.single (.radio _ rfl rfl rfl))
    · split
      · exact .trans (.single .bump) (.single (.radio _ rfl rfl rfl))
      next hcrypt =>
        refine .trans (.single (.encrypt type plaintext hjoined hack)) (.trans ?_
          (transmit_moves _ _ _ (hup.uplink List.mem_cons_self hcrypt)))
        exact .single (.radio _ rfl rfl rfl)

/-- Only command acknowledgements need a justification. -/
theorem AckJustified.of_type {type : PacketType} {plaintext : Bytes} (h : type ≠ .ack) :
    AckJustified P c s₀ s type plaintext := fun ht => absurd ht h

theorem AckJustified.of_ackType {type : PacketType} {plaintext : Bytes}
    (h : (Ack.parse plaintext).ackType ≠ ackCommand) : AckJustified P c s₀ s type plaintext :=
  fun _ ht => absurd ht h

/-- A command is acknowledged as done only if the leaf knows it. -/
theorem sendCommandAck_moves (result : UInt8) (base : UInt32)
    (h : result = 0 → CommandKnown P c s₀ s base) :
    Moves P c s₀ s (s.sendCommandAck P e result base).1 := by
  unfold sendCommandAck
  split
  · exact .refl
  · next hjoined =>
    refine sendUpTracked_moves _ _ (by simp at hjoined; exact hjoined.1) ?_ (.inr ⟨rfl, ?_⟩)
    · intro _ _ hresult
      simp only [Ack.parse_bytes] at hresult ⊢
      exact h hresult
    · rw [Ack.parse_bytes]
      exact (by decide : ackCommand ≠ ackState)

theorem sendAck_moves (payload : Bytes) (ref : UInt32) (h : byteAt payload 0 ≠ ackCommand)
    (hstate : byteAt payload 0 ≠ ackState) :
    Moves P c s₀ s (s.sendAck P e payload ref).1 := by
  unfold sendAck
  split
  · exact .refl
  · next hjoined =>
    have hfirst (src : Bytes) : byteAt (overwrite payload 2 src) 0 = byteAt payload 0 := by
      match payload with
      | [] => simp [Ack.size] at hjoined
      | b :: rest => rfl
    have hkind (ackType : UInt8) (hne : byteAt payload 0 ≠ ackType) : (Ack.parse (if ref ≠ 0 then
        overwrite payload 2 (leEncode 4 ref.toNat) else payload)).ackType ≠ ackType := by
      split
      · exact (hfirst _).trans_ne hne
      · exact hne
    exact sendUpTracked_moves _ _ (by simp at hjoined; exact hjoined.1) (.of_ackType (hkind _ h))
      (.inr ⟨rfl, hkind _ hstate⟩)

theorem sendConfigAck_moves (command result : UInt8) (ref : UInt32) :
    Moves P c s₀ s (s.sendConfigAck P e command result ref).1 := by
  unfold sendConfigAck
  split
  · exact .refl
  · exact sendAck_moves _ _ (by simp [byteAt, Ack.bytes, PacketType.code, ackCommand])
      (by simp [byteAt, Ack.bytes, PacketType.code, ackState])

/-- The acknowledgements of a file transfer go out like the others. -/
theorem fileContext_moves (s : Remote η) (rest : Bytes) :
    Moves P c s₀ s ((fileContext P e).sendAckFn s (PacketType.fileTransfer.code :: rest)).1 :=
  sendAck_moves _ _ (by simp [byteAt, PacketType.code, ackCommand])
    (by simp [byteAt, PacketType.code, ackState])

theorem sendHeartbeat_moves (s : Remote η) : Moves P c s₀ s (s.sendHeartbeat P e).1 := by
  unfold sendHeartbeat
  split
  · exact .refl
  · next hjoined =>
    exact .tail (sendUp_moves (e := e) .heartbeat (s.heartbeat e).bytes
      (by simp at hjoined; exact hjoined.1) (.of_type (by decide)) (.inl (.inl rfl))) (.timers _)

/-- While fragments go out, only the radio changes. -/
theorem sendUpTracked_radio (s : Remote η) (type : PacketType) (plaintext : Bytes) :
    ∃ r, (s.sendUpTracked P e type plaintext).1 = { s with radio := r } := by
  unfold sendUpTracked
  dsimp only
  split
  · exact ⟨_, rfl⟩
  · unfold sendSealed
    split
    · exact ⟨_, rfl⟩
    · split <;> exact ⟨_, rfl⟩

/-- A state that could not be sent stays dirty. -/
theorem stateSendFailed_moves (s : Remote η) (index : UInt8) :
    Moves P c s₀ s (s.stateSendFailed e index) := by
  refine .trans (.single (.dirty index)) (.single (.entities _ rfl ?_))
  intro h
  cases h

/-- The fragments of a `STATE` message, all sent or not. -/
theorem sendStateFragments_moves (s₀ : Remote η) (index : UInt8) (payload : Bytes) (fragSize count : Nat)
    (left chunk : Nat) (s : Remote η) (hjoined : s.session.joined) :
    let o := sendStateFragments P e index payload fragSize count left chunk s
    Moves P c s₀ s o.1 ∧ (o.2 = true → ∃ r, o.1 = { s with radio := r }) := by
  induction left generalizing chunk s with
  | zero => exact ⟨.refl, fun _ => ⟨s.radio, rfl⟩⟩
  | succ left ih =>
    dsimp only [sendStateFragments]
    have hsend : Moves P c s₀ s _ := sendUpTracked_moves (e := e) .state
      (fragmentOf index (s.stateFlags index count chunk) payload fragSize count chunk).bytes hjoined
      (.of_type (by decide)) (.inl (.inr (.inl rfl)))
    obtain ⟨r, hr⟩ := sendUpTracked_radio (P := P) (e := e) s .state
      (fragmentOf index (s.stateFlags index count chunk) payload fragSize count chunk).bytes
    generalize s.sendUpTracked P e .state (fragmentOf index (s.stateFlags index count chunk) payload
      fragSize count chunk).bytes = o at hsend hr ⊢
    obtain ⟨s', sent⟩ := o
    subst hr
    match sent with
    | none => exact ⟨hsend, fun h => by cases h⟩
    | some false => exact ⟨hsend.trans (stateSendFailed_moves _ _), fun h => by cases h⟩
    | some true =>
      obtain ⟨hmoves, honly⟩ := ih (chunk + 1) { s with radio := r } hjoined
      refine ⟨hsend.trans hmoves, fun h => ?_⟩
      obtain ⟨r', hr'⟩ := honly h
      exact ⟨r', hr'⟩

/-- `send_state_` up to the point where the message is remembered. -/
theorem sendState_moves (s₀ s : Remote η) (index : UInt8) (value : Bytes) (reset : Bool) :
    let o := s.sendState P e index value reset
    (o.2 = false ∧ Moves P c s₀ s o.1) ∨
    (o.2 = true ∧ s.session.joined ∧ ∃ record r, s.entities.records[index.toNat]? = some record ∧
      Moves P c s₀ s { s with radio := r } ∧
      o.1 = ({ s with radio := r } : Remote η).stateSent e index record value s.radio.txCounter reset) := by
  dsimp only [sendState]
  split
  · exact .inl ⟨rfl, .refl⟩
  · next record hrecord =>
    split
    · exact .inl ⟨rfl, .refl⟩
    · next hjoined =>
      have hfrag := sendStateFragments_moves (P := P) (e := e) (c := c) s₀ index
        (record.payload value) s.session.limits.maxEntityFragment
        (chunkCount (record.payload value).length s.session.limits.maxEntityFragment)
        (chunkCount (record.payload value).length s.session.limits.maxEntityFragment) 0 s
        (by simp at hjoined; exact hjoined.1)
      dsimp only at hfrag ⊢
      generalize sendStateFragments P e index (record.payload value)
        s.session.limits.maxEntityFragment _ _ 0 s = o at hfrag ⊢
      obtain ⟨s', sent⟩ := o
      cases sent with
      | false => exact .inl ⟨rfl, hfrag.1⟩
      | true =>
        obtain ⟨r, rfl⟩ := hfrag.2 rfl
        exact .inr ⟨rfl, by simp at hjoined; exact hjoined.1, record, r, hrecord, hfrag.1, rfl⟩

theorem sendIdentityDescriptor_moves (s : Remote η) :
    Moves P c s₀ s (s.sendIdentityDescriptor P e).1 := by
  unfold sendIdentityDescriptor
  split
  · exact .refl
  · next hjoined =>
    refine .trans (.single (.reported s.config.identity)) ?_
    exact sendUp_moves .schemaPush _ (by simp at hjoined; exact hjoined.1) (.of_type (by decide))
      (.inl (.inr (.inr rfl)))

/-- Sending upstream leaves the session as it is, but for the counter, which is the radio's. -/
theorem sendUp_session (s : Remote η) (type : PacketType) (plaintext : Bytes) :
    (s.sendUp P e type plaintext).1.session = s.session := by
  unfold sendUp sendSealed
  split
  · rfl
  · split <;> rfl

theorem sendSchemaFragments_moves (index : UInt8) (payload : Bytes) (fragSize count left chunk : Nat)
    (s : Remote η) (hjoined : s.session.joined) :
    Moves P c s₀ s (sendSchemaFragments P e index payload fragSize count left chunk s).1 := by
  induction left generalizing chunk s with
  | zero => exact .refl
  | succ left ih =>
    dsimp only [sendSchemaFragments]
    set plaintext := (fragmentOf index (if chunk + 1 < count then flagMoreFragments else 0) payload
      fragSize count chunk).bytes
    have hsend : Moves P c s₀ s _ := sendUp_moves (e := e) .schemaPush plaintext hjoined
      (.of_type (by decide)) (.inl (.inr (.inr rfl)))
    have hsession := sendUp_session (P := P) (e := e) s .schemaPush plaintext
    generalize s.sendUp P e .schemaPush plaintext = o at hsend hsession ⊢
    obtain ⟨s', sent⟩ := o
    cases sent with
    | false => exact hsend
    | true => exact hsend.trans (ih (chunk + 1) s' (by rw [hsession]; exact hjoined))

theorem sendSchemaPush_moves (s : Remote η) (index : UInt8) :
    Moves P c s₀ s (s.sendSchemaPush P e index).1 := by
  unfold sendSchemaPush
  split
  · exact .refl
  · next hjoined =>
    split
    · exact .refl
    · exact sendSchemaFragments_moves _ _ _ _ _ _ _ (by simp at hjoined; exact hjoined.1)

/-- A change of the discovery automaton that keeps its flags. -/
theorem discovery_move (d : Discovery) (hdisc : d.discovering = s.discovery.discovering)
    (hresume : d.resumeNormalAfterSuccess = s.discovery.resumeNormalAfterSuccess)
    (hfast : d.fastRejoin = s.discovery.fastRejoin) :
    Moves P c s₀ s { s with discovery := d } :=
  .single (.discovery d fun h h' => .inr ⟨hdisc ▸ h, hresume ▸ hfast ▸ h'⟩)

theorem sendJoin_moves (s : Remote η) : Moves P c s₀ s (s.sendJoin P e).1 := by
  unfold sendJoin
  split
  · exact .refl
  · refine .trans (discovery_move { s.discovery with joinDelayUntilMs := 0 } rfl rfl rfl) ?_
    refine .trans (.trans (.single .bump) (transmit_moves (e := e) _ s.route.parentMac
      (plain P.crypto s.config.leafMac .join s.upHop s.radio.txCounter none (s.joinRequest P).bytes)
      (.join _ _ _))) ?_
    exact discovery_move _ rfl rfl rfl

/-! ## Discovery -/

/-- A change of the route that keeps the parent and `can_relay_`. -/
theorem route_move (r : Route) (hmac : r.parentMac = s.route.parentMac)
    (hvalid : r.parentValid = s.route.parentValid) (hhops : r.hopsToBridge = s.route.hopsToBridge)
    (hrelay : r.canRelay = s.route.canRelay) : Moves P c s₀ s { s with route := r } :=
  .single (.route r hmac hvalid hhops fun h => .inl (hrelay ▸ h))

/-- Only a normal leaf relays. -/
theorem refreshCanRelay_normal (h : s.refreshCanRelay.route.canRelay) : s.session.normal := by
  simp only [refreshCanRelay, Bool.and_eq_true] at h
  exact h.1.1.2

theorem refreshCanRelay_moves (s : Remote η) : Moves P c s₀ s s.refreshCanRelay :=
  .single (.route _ rfl rfl rfl fun h => .inr (refreshCanRelay_normal h))

/-- To abort a transfer sends at most acknowledgements. -/
theorem abortFiles_moves (s : Remote η) (reason : UInt8) (notifySender : Bool) :
    Moves P c s₀ s (s.abortFiles P e reason notifySender) :=
  .tail (Receiver.abort_owner (x := fileContext P e) (fun p rest => fileContext_moves p rest)
    s.files s reason notifySender) (.files _)

/-- Giving the session up is one move, which may leave the route. -/
theorem clearSessionState_moves (s : Remote η) (preserveRoute : Bool) :
    Moves P c s₀ s (s.clearSessionState P e preserveRoute) := by
  unfold clearSessionState
  dsimp only
  split
  · exact (abortFiles_moves s _ _).tail (.clear preserveRoute)
  · exact .single (.clear preserveRoute)

/-- No sweep is in progress that would resume the session. -/
theorem discovery_fresh (d : Discovery) (hresume : d.resumeNormalAfterSuccess = false)
    (hfast : d.fastRejoin = false) : Moves P c s₀ s { s with discovery := d } :=
  .single (.discovery d fun _ h => by simp [hresume, hfast] at h)

/-- A discovery cycle gives up the session and the candidate, and draws a nonce. -/
theorem startDiscoveryCycle_moves (s : Remote η) (nonce : Nonce) (expired : Bool) :
    Moves P c s₀ s (s.startDiscoveryCycle P e nonce expired) := by
  refine .trans (clearSessionState_moves (e := e) s false) (.trans (.single (.draw nonce rfl)) ?_)
  refine discovery_fresh (Discovery.started e _ expired) ?_ ?_ <;>
  · unfold Discovery.started
    split <;> rfl

theorem setDiscoverDue_moves (s : Remote η) (dueMs : UInt32) :
    Moves P c s₀ s (s.setDiscoverDue dueMs) := discovery_move _ rfl rfl rfl

/-- The rediscovery that a configuration asks for does the same, but keeps the candidate. -/
theorem startConfigFullRediscovery_moves (s : Remote η) (nonce : Nonce) :
    Moves P c s₀ s (s.startConfigFullRediscovery P e nonce) :=
  .trans (clearSessionState_moves (e := e) s true) (.trans (.single (.draw nonce rfl))
    (discovery_fresh _ rfl rfl))

/-- A change of the pending `STATE` message that only forgets. -/
theorem entities_move (x : Entities) (hrecords : x.records = s.entities.records)
    (hwait : x.waitingForStateAck = false) : Moves P c s₀ s { s with entities := x } :=
  .single (.entities x hrecords fun h => by simp [hwait] at h)

/-- A route recovery keeps the session, and looks for another parent. -/
theorem startRouteRecoveryCycle_moves (hjoined : s.session.joined ∨ s.session.normal) :
    Moves P c s₀ s (s.startRouteRecoveryCycle e) :=
  let t := s.startRouteRecoveryCycle e
  .trans (.single (.discovery t.discovery fun _ _ => .inl hjoined)) <|
    .trans (.single .notNormal) <| .trans (route_move t.route rfl rfl rfl rfl) <|
    .trans (entities_move t.entities rfl rfl) <| .trans (.single (.timers t.timers)) <|
    .single (.radio t.radio rfl rfl rfl)

/-- A change that leaves the pending `STATE` message alone. -/
theorem entities_keep (x : Entities) (hrecords : x.records = s.entities.records)
    (hwait : x.waitingForStateAck = s.entities.waitingForStateAck)
    (hbase : x.pendingStateMessageTxBase = s.entities.pendingStateMessageTxBase)
    (hindex : x.pendingStateFieldIndex = s.entities.pendingStateFieldIndex)
    (hvalue : x.pendingStateValue = s.entities.pendingStateValue) :
    Moves P c s₀ s { s with entities := x } :=
  .single (.entities x hrecords fun h => ⟨hwait ▸ h, hbase, hindex, hvalue⟩)

/-- `adopt_best_parent_candidate_` at the end of a route recovery. -/
theorem adopted_moves (hc : c = .loop e) (hbest : s.route.bestParent = s₀.route.bestParent)
    (hvalid : s₀.route.bestParent.valid) (hdisc₀ : s₀.discovery.discovering)
    (hsweep : s₀.discovery.sweepComplete) (hdisc : s.discovery.discovering)
    (hresume : s.discovery.resumeNormalAfterSuccess) : Moves P c s₀ s (s.adopted true) :=
  let t := s.adopted true
  .trans (.single (.take e hc hbest hvalid hdisc₀ hsweep)) <|
    .trans (.single (.resume hdisc hresume rfl)) <|
    .trans (.single (.route t.route rfl rfl rfl fun _ => .inr rfl)) <|
    .trans (.single (.discovery t.discovery fun h => by cases h)) <|
    .trans (entities_keep t.entities rfl rfl rfl rfl rfl) <|
    .trans (.single (.timers t.timers)) <| .single (.radio t.radio rfl rfl rfl)

theorem rejoinDueToTransmitStall_moves (noOutboundProgress : Bool) (hjoined : s.session.joined) :
    Moves P c s₀ s (s.rejoinDueToTransmitStall P e noOutboundProgress) := by
  cases noOutboundProgress with
  | false => exact startRouteRecoveryCycle_moves (.inl hjoined)
  | true => exact .tail (clearSessionState_moves (e := e) s true) .reboot

/-- A candidate takes the place of another one if it is better. -/
theorem selectParentCandidate_moves (s : Remote η) (senderMac : Mac) (announce : DiscoverAnnounce)
    (rssi : Int) : Moves P c s₀ s (s.selectParentCandidate e senderMac announce rssi) := by
  unfold selectParentCandidate
  dsimp only
  split
  · exact route_move _ rfl rfl rfl rfl
  · exact .refl

/-- The automaton starts no sweep that resumes a session, unless one is under way. -/
theorem nextProbe_flags (d : Discovery) (bestParentValid : Bool) :
    (d.nextProbe e bestParentValid).1.discovering = d.discovering ∧
    ((d.nextProbe e bestParentValid).1.resumeNormalAfterSuccess ∨
      (d.nextProbe e bestParentValid).1.fastRejoin →
        d.resumeNormalAfterSuccess ∨ d.fastRejoin) := by
  unfold Discovery.nextProbe Discovery.backOff
  dsimp only
  repeat' split
  all_goals first
    | exact ⟨rfl, id⟩
    | exact ⟨rfl, fun _ => .inr ‹_›⟩

theorem sendDiscover_moves (s : Remote η) : Moves P c s₀ s (s.sendDiscover P e).1 := by
  obtain ⟨hdisc, hflags⟩ := nextProbe_flags (e := e) s.discovery s.route.bestParent.valid
  unfold sendDiscover
  dsimp only
  refine .trans (.single (.discovery (s.discovery.nextProbe e s.route.bestParent.valid).1
    fun h h' => .inr ⟨hdisc ▸ h, hflags h'⟩)) ?_
  split
  · exact .trans (transmit_moves (e := e) _ broadcastMac _ (.discovery _ .discover _ _ _ (.inl rfl)))
      (setDiscoverDue_moves _ _)
  · exact .refl

theorem sendDiscoverAnnounceWithJitter_moves (s : Remote η) (senderMac leafMac : Mac)
    (responderRole hopsToBridge : UInt8) : Moves P c s₀ s
      (s.sendDiscoverAnnounceWithJitter e senderMac leafMac responderRole hopsToBridge).1 := by
  unfold sendDiscoverAnnounceWithJitter
  split
  · exact .refl
  · exact discovery_move _ rfl rfl rfl

theorem flushPendingDiscoverAnnounce_moves (s : Remote η) :
    Moves P c s₀ s (s.flushPendingDiscoverAnnounce P e) := by
  unfold flushPendingDiscoverAnnounce
  split
  · exact .refl
  · split
    · exact .refl
    · refine .trans (.single (.send _ _ _ ⟨_, ?_, rfl⟩)) (discovery_move _ rfl rfl rfl)
      exact .discovery _ .discoverAnnounce _ _ _ (.inr rfl)

theorem refreshRoute_moves (s : Remote η) (leafMac nextHopMac : Mac) :
    Moves P c s₀ s (s.refreshRoute e leafMac nextHopMac) := by
  unfold refreshRoute
  split
  · exact .refl
  · exact route_move _ rfl rfl rfl rfl

theorem pruneRoutes_moves (s : Remote η) : Moves P c s₀ s (s.pruneRoutes e) :=
  .trans (route_move (s.pruneRoutes e).route rfl rfl rfl rfl)
    (discovery_move (s.pruneRoutes e).discovery rfl rfl rfl)

/-! ## Frames -/

theorem noteRssi_moves (s : Remote η) (senderMac : Mac) (rssi : Int) :
    Moves P c s₀ s (s.noteRssi senderMac rssi) := by
  unfold noteRssi
  split
  · exact route_move _ rfl rfl rfl rfl
  · exact .refl

theorem handleDiscover_moves (s : Remote η) (senderMac : Mac) (f : Frame) :
    Moves P c s₀ s (s.handleDiscover e senderMac f).1 := by
  unfold handleDiscover
  dsimp only
  repeat' split
  all_goals first
    | exact .refl
    | refine .trans ?_ (sendDiscoverAnnounceWithJitter_moves _ _ _ _ _)
      exact discovery_move _ rfl rfl rfl

theorem handleDiscoverAnnounce_moves (s : Remote η) (senderMac : Mac) (f : Frame) (rssi : Int) :
    Moves P c s₀ s (s.handleDiscoverAnnounce e senderMac f rssi).1 := by
  unfold handleDiscoverAnnounce
  dsimp only
  repeat' split
  all_goals first
    | exact .refl
    | exact selectParentCandidate_moves _ _ _ _

/-- After an accepted `JOIN` the leaf has a key, and is not normal yet. -/
theorem joinedNotNormal_moves (s : Remote η) (pushStates : Bool) :
    Moves P c s₀ s (s.joinedNotNormal e pushStates) :=
  let t := s.joinedNotNormal e pushStates
  .trans (.single .notNormal) <| .trans (entities_keep t.entities rfl rfl rfl rfl rfl) <|
    .single (.timers t.timers)

theorem startStateSync_moves (s : Remote η) : Moves P c s₀ s (s.startStateSync e) :=
  .trans (joinedNotNormal_moves (e := e) s true) <| .trans (entities_move
    { (s.joinedNotNormal e true).entities with waitingForStateAck := false, stateRetryCount := 0 }
    rfl rfl) <| .single .dirtyAll

/-- What the dispatcher has done to the state before a handler for this leaf runs: it has looked
at the signal and at the hop count. -/
structure Arrived (s₀ s : Remote η) : Prop where
  config : s.config = s₀.config
  session : s.session = s₀.session
  discovery : s.discovery = s₀.discovery
  entities : s.entities = s₀.entities
  commands : s.commands = s₀.commands
  files : s.files = s₀.files
  bestParent : s.route.bestParent = s₀.route.bestParent
  radio : s.radio = s₀.radio

/-- Which frames open depends on the session alone. -/
theorem openFrame_congr {t : Remote η} {f : Frame} (h : t.session = s.session) :
    t.openFrame P f = s.openFrame P f := by
  unfold openFrame validateSession
  rw [h]

theorem openFrame_eq_some {f : Frame} {plaintext : Bytes} :
    s.openFrame P f = some plaintext ↔ s.validateSession P f ∧
      P.crypto.crypt s.session.sessionKey f.header.txCounter f.payload = some plaintext := by
  rw [openFrame, Option.ite_none_right_eq_some]

/-- A session that is cleared need not be invalidated before. -/
theorem startDiscoveryCycle_invalid {t : Remote η} (nonce : Nonce) (expired : Bool)
    (ht : t = { s with session := { s.session with sessionKeyValid := false } }) :
    Moves P c s₀ s (t.startDiscoveryCycle P e nonce expired) := by
  have hsame : t.startDiscoveryCycle P e nonce expired = s.startDiscoveryCycle P e nonce expired := by
    subst ht
    unfold startDiscoveryCycle clearSessionState abortFiles
    dsimp only
    split <;> rfl
  rw [hsame]
  exact startDiscoveryCycle_moves _ _ _

/-- A `JOIN` that is refused ends the search, or makes the leaf wait without its key. -/
theorem rejectJoin_moves {f : Frame} (hs : Arrived s₀ s) (hf : c.frame? = some f)
    (hwait : (JoinAck.parse f.payload).reason = joinReasonWait →
      ¬ maxRetries ≤ s₀.discovery.waitRejectCount + 1 → s₀.ToldToWait P f) :
    Moves P c s₀ s (s.rejectJoin P e (JoinAck.parse f.payload)) := by
  have hfast (t : Remote η) : Moves P c s₀ t
      { t with discovery := { t.discovery with fastRejoin := false } } := by
    refine .single (.discovery _ fun h h' => .inr ⟨h, ?_⟩)
    exact h'.imp id (fun h => by cases h)
  unfold rejectJoin
  dsimp only
  split
  next hreason =>
    split
    · have hcount : Moves P c s₀ s { s with discovery := { s.discovery with
          fastRejoin := false
          joinInFlight := false
          waitRejectCount := s.discovery.waitRejectCount + 1 } } :=
        (hfast s).trans (discovery_move _ rfl rfl rfl)
      exact (hcount.trans (startDiscoveryCycle_invalid _ _ rfl)).trans (setDiscoverDue_moves _ _)
    next hagain =>
      rw [hs.discovery] at hagain
      refine .trans (.single (.invalidate f hf (hwait hreason hagain) hs.session)) ?_
      refine .trans (hfast _) ?_
      exact discovery_move _ rfl rfl rfl
  · exact (hfast s).trans (startDiscoveryCycle_invalid _ _ rfl)

/-- The part of an accepted `JOIN_ACK` that all stages share. -/
theorem acceptJoin_moves {f : Frame} (hs : Arrived s₀ s) (hf : c.frame? = some f)
    (haccepts : s₀.Accepts f) :
    Moves P c s₀ s (s.acceptJoin P (JoinAck.parse f.payload) f.header.txCounter) :=
  .trans (.single (.accept f hf haccepts hs.session)) <|
    .trans (.single (.discovery s.discovery.accepted fun h => by cases h)) <| .single (.files _)

/-- A `JOIN` that is complete makes the leaf normal, under the parent that it has chosen. -/
theorem completeJoin_moves {f : Frame} (hf : c.frame? = some f) (htype : f.type? = some .joinAck)
    (hmac : f.header.leafMac = s₀.config.leafMac)
    (haccepted : (JoinAck.parse f.payload).accepted = 1)
    (hstage : (JoinAck.parse f.payload).stage = joinStatusComplete)
    (hbest : s.route.bestParent = s₀.route.bestParent) (hjoined : s.session.joined) :
    Moves P c s₀ s s.completeJoin :=
  let t := s.completeJoin
  .trans (.single (.complete f hf htype hmac haccepted hstage hbest hjoined)) <|
    .trans (.single (.route t.route rfl rfl rfl fun _ => .inr rfl)) <|
    .trans (entities_keep t.entities rfl rfl rfl rfl rfl) <|
    .trans (.single (.timers t.timers)) <| .single (.radio t.radio rfl rfl rfl)

/-- The answer to a `JOIN` is refused, accepted, or completes what was accepted before. -/
theorem handleJoinAck_moves {f : Frame} (hs : Arrived s₀ s) (hf : c.frame? = some f)
    (hpasses : s₀.Passes P f) (htype : f.type? = some .joinAck) (hmac : f.header.leafMac = s₀.config.leafMac) :
    Moves P c s₀ s (s.handleJoinAck P e f).1 := by
  unfold handleJoinAck
  dsimp only
  split
  · exact .refl
  next hnew =>
  rw [hs.session] at hnew
  have hnewer (hj : s₀.session.joined) :
      counterIsNewer f.header.txCounter s₀.session.lastSeenCounter := by simpa [hj] using hnew
  split
  · exact .refl
  next hsize =>
  rw [not_not] at hsize
  split
  next hrejected =>
    exact rejectJoin_moves hs hf fun hreason hagain =>
      ⟨hpasses, htype, hmac, hnewer, hsize, hrejected, hreason, hagain⟩
  next haccepted =>
  rw [not_not] at haccepted
  have haccept := acceptJoin_moves (P := P) hs hf ⟨htype, hmac, hnewer, haccepted⟩
  split
  · split
    · exact haccept
    · exact haccept.trans (joinedNotNormal_moves _ _)
  split
  · split
    · exact haccept
    · exact haccept.trans (startStateSync_moves _)
  split
  next hstage =>
    refine haccept.trans (.trans ?_ (sendHeartbeat_moves _))
    exact completeJoin_moves hf htype hmac haccepted hstage hs.bestParent rfl
  · exact haccept.trans (joinedNotNormal_moves _ _)

/-- A `DEAUTH` gives up the session, whatever it names. -/
theorem handleDeauth_moves (s : Remote η) (f : Frame) :
    Moves P c s₀ s (s.handleDeauth P e f).1 := by
  unfold handleDeauth
  split
  · exact .refl
  split
  · exact .refl
  dsimp only
  have hclear : Moves P c s₀ s _ := clearSessionState_moves (e := e) s true
  have hstart := hclear.trans (.trans (.single (.draw (e.nonce 0) rfl)) (discovery_fresh
    { (s.clearSessionState P e true).discovery with
      discovering := true
      sweepComplete := true
      fastRejoin := false
      resumeNormalAfterSuccess := false
      currentChannelOnly := true } rfl rfl))
  split
  · split
    · exact hstart.trans (sendJoin_moves _)
    · exact hstart.trans ((sendJoin_moves _).trans (startDiscoveryCycle_moves _ _ _))
  · exact hstart.trans (startDiscoveryCycle_moves _ _ _)

/-- An acknowledgement of the state under way makes the entity clean. -/
theorem handleAck_moves {f : Frame} (s : Remote η) (hf : c.frame? = some f) :
    Moves P c s₀ s (s.handleAck P e f).1 := by
  unfold handleAck
  split
  · exact .refl
  next hnew =>
  split
  · exact .refl
  next plaintext hopen =>
  dsimp only
  have hseen : Moves P c s₀ s (s.seen f.header.txCounter) :=
    .single (.seen f hf (by rw [hopen]; rfl) (by simp at hnew; exact hnew.2))
  split
  · exact .refl
  split
  · split
    next hwait => exact hseen.tail (.stateAcked e hwait.1)
    · exact hseen
  · exact .refl

/-- A fragment is stored, and the last one executes the command. -/
theorem storeCommand_moves {f : Frame} {plaintext : Bytes} {command : EntityPayload}
    {record : EntityRecord} (hs : Arrived s₀ s) (hf : c.frame? = some f)
    (htype : f.type? = some .command) (hopen : s.openFrame P f = some plaintext)
    (hparse : EntityPayload.parse plaintext = some command)
    (hrecord : s.entities.records[command.entityIndex.toNat]? = some record)
    (hnew : counterIsNewer (fragmentMessageTxBase f.header.txCounter command)
      record.lastCompletedCommandMessageTxBase) :
    Moves P c s₀ s (s.storeCommand P e f.header.txCounter command
      (fragmentMessageTxBase f.header.txCounter command)).1 := by
  unfold storeCommand
  dsimp only
  have hstore : Moves P c s₀ s _ := .single (.store e f command plaintext hf htype hopen hparse
    hs.session)
  split
  · exact hstore
  next a hstored =>
    have hseen := hstore.tail (.seenMax f hf (by
      change (s.openFrame P f).isSome = true
      rw [hopen]
      rfl))
    split
    next hcomplete =>
      have hopen₀ : s₀.openFrame P f = some plaintext := by
        rw [← hopen, openFrame_congr hs.session]
      obtain ⟨_, -, htaken⟩ := assembly_offerFragment hstored
      have hkey : s.session.sessionKey = s₀.session.sessionKey := by rw [hs.session]
      refine (hseen.tail (.command f command plaintext record a hf htype hopen₀ hparse hkey
        hs.entities hrecord hnew (mem_of_assembly_offerFragment hstored)
        (FragmentAssembly.storeFragment_base htaken) hcomplete)).trans (sendCommandAck_moves _ _ fun _ => ?_)
      refine ⟨f, command, ⟨hf, htype, by rw [hopen₀]; exact hparse⟩, rfl, hkey, .inl ?_⟩
      rw [← hkey]
      exact ⟨_, _, List.mem_cons_self⟩
    · exact hseen

/-- Only a command that opens and is newer than the last one of its entity gets that far. -/
theorem handleCommand_moves {f : Frame} (hs : Arrived s₀ s) (hf : c.frame? = some f)
    (htype : f.type? = some .command) : Moves P c s₀ s (s.handleCommand P e f).1 := by
  unfold handleCommand
  split
  · exact .refl
  split
  · exact .refl
  next plaintext hopen =>
  split
  · exact .refl
  next command hparse =>
  dsimp only
  split
  · exact sendCommandAck_moves _ _ fun h => by cases h
  next record hrecord =>
  split
  next hnew => exact storeCommand_moves hs hf htype hopen hparse hrecord hnew
  split
  next hsame =>
    refine sendCommandAck_moves _ _ fun _ => ⟨f, command, ⟨hf, htype, ?_⟩, rfl, by rw [hs.session],
      .inr ⟨record, by rw [← hs.entities]; exact hrecord, hsame.symm⟩⟩
    rw [openFrame_congr hs.session.symm, hopen]
    exact hparse
  · exact .refl

/-! ## Configuration -/

theorem ackAndRemember_moves {f : Frame} (hf : c.frame? = some f)
    (hseen : s.session.lastSeenCounter = f.header.txCounter) (command result : UInt8) :
    Moves P c s₀ s (s.ackAndRemember P e f.header.txCounter command result).1 :=
  .trans (.single (.remember f command result hf hseen)) (sendConfigAck_moves _ _ _)

theorem sendAck_radio (s : Remote η) (payload : Bytes) (ref : UInt32) :
    ∃ r, (s.sendAck P e payload ref).1 = { s with radio := r } := by
  unfold sendAck
  split
  · exact ⟨s.radio, rfl⟩
  · exact sendUpTracked_radio _ _ _

theorem ackAndRemember_session (s : Remote η) (counter : UInt32) (command result : UInt8) :
    (s.ackAndRemember P e counter command result).1.session = s.session := by
  unfold ackAndRemember sendConfigAck
  split
  · rfl
  · obtain ⟨r, hr⟩ := sendAck_radio (P := P) (e := e) { s with commands := { s.commands with
      lastConfigTxCounter := counter
      lastConfigCommand := command
      lastConfigResult := result
      lastConfigValid := true } }
      (Ack.bytes ⟨PacketType.config.code, result, counter⟩ ++ [command]) counter
    rw [hr]

/-- A command that is carried out after its acknowledgement. -/
theorem ackThen_moves {f : Frame} (hf : c.frame? = some f)
    (hseen : s.session.lastSeenCounter = f.header.txCounter) (command : UInt8)
    (act : Remote η → Remote η)
    (hact : ∀ s', s'.session = s.session → Moves P c s₀ s' (act s')) :
    Moves P c s₀ s (s.ackThen P e f.header.txCounter command act).1 := by
  unfold ackThen
  dsimp only
  have hack : Moves P c s₀ s _ := ackAndRemember_moves (e := e) hf hseen command cfgResultOk
  split
  · have hsession := ackAndRemember_session (P := P) (e := e) s f.header.txCounter command cfgResultOk
    refine hack.trans (.trans (.single (.configured f command hf ?_)) (hact _ hsession))
    rw [hsession]
    exact hseen
  · exact hack

theorem preferParent_moves (mac : Mac) (clear : Bool) (hjoined : s.session.joined) :
    Moves P c s₀ s (s.preferParent e mac clear) := by
  unfold preferParent
  dsimp only
  refine .trans ?_ (.single (.discovery _ fun h h' => ?_))
  · refine .trans ?_ (startRouteRecoveryCycle_moves (e := e) ?_)
    · exact route_move _ rfl rfl rfl rfl
    · exact .inl hjoined
  · exact .inr ⟨h, h'.imp id (fun h => by cases h)⟩

theorem setRelayEnabled_moves (s : Remote η) (enabled : Bool) :
    Moves P c s₀ s (s.setRelayEnabled enabled) := by
  refine .trans ?_ (refreshCanRelay_moves _)
  exact route_move _ rfl rfl rfl rfl

/-- A configuration is acknowledged first and done afterwards. -/
theorem runConfig_moves {f : Frame} (hf : c.frame? = some f)
    (hseen : s.session.lastSeenCounter = f.header.txCounter) (hjoined : s.session.joined)
    (command : UInt8) (payload : Bytes) :
    Moves P c s₀ s (s.runConfig P e f.header.txCounter command payload).1 := by
  have hack (result : UInt8) : Moves P c s₀ s _ :=
    ackAndRemember_moves (e := e) hf hseen command result
  unfold runConfig
  dsimp only
  split
  · split
    · exact hack _
    · exact ackThen_moves hf hseen _ _ fun s' _ => .single .reboot
  · split
    · exact hack _
    · split
      · exact hack _
      · exact ackThen_moves hf hseen _ _ fun s' _ => .single (.timers _)
  · split
    · exact hack _
    · exact ackThen_moves hf hseen _ _ fun s' _ => startConfigFullRediscovery_moves s' _
  · split
    · exact hack _
    · split
      · exact hack _
      · exact ackThen_moves hf hseen _ _ fun s' h => preferParent_moves _ _ (by rwa [h])
  · split
    · exact hack _
    · exact ackThen_moves hf hseen _ _ fun s' _ => setRelayEnabled_moves s' _
  · exact hack _

theorem handleConfig_moves {f : Frame} (s : Remote η) (hf : c.frame? = some f) :
    Moves P c s₀ s (s.handleConfig P e f).1 := by
  unfold handleConfig
  dsimp only
  split
  · exact .refl
  next hjoined =>
  split
  · exact .refl
  next plaintext hopen =>
  split
  · exact sendConfigAck_moves _ _ _
  split
  · exact .refl
  next hnew =>
  have hseen : Moves P c s₀ s (s.seen f.header.txCounter) :=
    .single (.seen f hf (by rw [hopen]; rfl) (not_not.mp hnew))
  refine hseen.trans ?_
  split
  · exact ackAndRemember_moves hf rfl _ _
  split
  · exact ackAndRemember_moves hf rfl _ _
  split
  · exact ackAndRemember_moves hf rfl _ _
  · exact runConfig_moves (s := s.seen f.header.txCounter) hf rfl (not_not.mp hjoined) _ _

theorem handleSchemaRequest_moves {f : Frame} (s : Remote η) (hf : c.frame? = some f) :
    Moves P c s₀ s (s.handleSchemaRequest P e f).1 := by
  unfold handleSchemaRequest
  dsimp only
  split
  · exact .refl
  next hnew =>
  split
  · exact .refl
  next plaintext hopen =>
  split
  · exact .refl
  have hseen : Moves P c s₀ s (s.seen f.header.txCounter) :=
    .single (.seen f hf (by rw [hopen]; rfl) (by simp at hnew; exact hnew.2))
  have hpause := hseen.trans (.trans (entities_keep
    { s.entities with statePushEnabled := false } rfl rfl rfl rfl rfl) (.single (.timers
      { s.timers with
        lastHeartbeatTxMs := 0
        heartbeatDueMs := 0
        lastSuccessfulStateMs := 0
        lastSuccessfulHeartbeatMs := 0 })))
  split
  · split
    · exact hpause.trans (sendIdentityDescriptor_moves _)
    · exact hpause
  · split
    · exact hpause.trans (sendSchemaPush_moves _ _)
    · exact hpause

/-! ## Files -/

theorem handleFileTransfer_moves (s : Remote η) (f : Frame) :
    Moves P c s₀ s (s.handleFileTransfer P e f).1 := by
  unfold handleFileTransfer
  split
  · exact .refl
  split
  · exact .refl
  split
  · exact .refl
  · exact .trans (.single (.timers (s.noteOtaActivity e).timers))
      (.tail (Receiver.handleFileTransfer_owner (x := fileContext P e)
        (fun p rest => fileContext_moves p rest) _ (s.noteOtaActivity e) _) (.files _))

theorem handleFileData_moves (s : Remote η) (f : Frame) :
    Moves P c s₀ s (s.handleFileData P e f).1 := by
  unfold handleFileData
  split
  · exact .refl
  split
  · exact .refl
  split
  · exact .refl
  · exact .trans (.single (.timers (s.noteOtaActivity e).timers)) (.single (.files _))

/-! ## Dispatch -/

theorem forwardFrame_moves (s : Remote η) (mac : Mac) (f : Frame) (delta : UInt8)
    (hother : f.header.leafMac ≠ s.config.leafMac) :
    Moves P c s₀ s (s.forwardFrame P e mac f delta).1 :=
  .trans (.single (.send _ _ _ ⟨_, .relayed (forwarded P.crypto f delta) hother, rfl⟩))
    (.single (.radio _ rfl rfl rfl))

theorem refreshRoute_config (s : Remote η) (leafMac nextHopMac : Mac) :
    (s.refreshRoute e leafMac nextHopMac).config = s.config := by
  unfold refreshRoute
  split <;> rfl

/-- A frame of another leaf goes on, rebuilt, or is dropped. -/
theorem forwardPacket_moves (s : Remote η) (f : Frame) (hother : f.header.leafMac ≠ s.config.leafMac) :
    Moves P c s₀ s (s.forwardPacket P e f).1 := by
  unfold forwardPacket
  split
  · split
    · exact .refl
    · exact forwardFrame_moves _ _ _ _ hother
  · split
    · exact .refl
    · refine .trans (refreshRoute_moves _ _ _) (forwardFrame_moves _ _ _ _ ?_)
      rw [refreshRoute_config]
      exact hother

theorem handleUpstream_moves (s : Remote η) (senderMac : Mac) (f : Frame)
    (hother : f.header.leafMac ≠ s.config.leafMac) :
    Moves P c s₀ s (s.handleUpstream P e senderMac f).1 := by
  unfold handleUpstream
  split
  · exact .refl
  · refine .trans (refreshRoute_moves _ _ _) (forwardPacket_moves _ _ ?_)
    rw [refreshRoute_config]
    exact hother

theorem noteHops_moves {f : Frame} (s : Remote η) (senderMac : Mac) (rssi : Int)
    (hf : c.frame? = some f) :
    Moves P c s (s.noteRssi senderMac rssi) ((s.noteRssi senderMac rssi).noteHops f) := by
  have hroute : (s.noteRssi senderMac rssi).config = s.config ∧
      (s.noteRssi senderMac rssi).route.hopsToBridge = s.route.hopsToBridge ∧
      (s.noteRssi senderMac rssi).route.parentMac = s.route.parentMac ∧
      (s.noteRssi senderMac rssi).route.parentValid = s.route.parentValid := by
    unfold noteRssi
    split <;> exact ⟨rfl, rfl, rfl, rfl⟩
  obtain ⟨hconfig, hhops, hmac, hvalid⟩ := hroute
  unfold noteHops
  split
  next h => exact .single (.lowerHops f hf (hconfig ▸ h.1) h.2.1 (hhops ▸ h.2.2) hmac hvalid)
  · exact .refl

theorem Arrived.noteRssi (s : Remote η) (senderMac : Mac) (rssi : Int) :
    Arrived s (s.noteRssi senderMac rssi) := by
  unfold Remote.noteRssi
  split <;> exact ⟨rfl, rfl, rfl, rfl, rfl, rfl, rfl, rfl⟩

theorem Arrived.noteHops (hs : Arrived s₀ s) (f : Frame) : Arrived s₀ (s.noteHops f) := by
  unfold Remote.noteHops
  split
  · exact ⟨hs.config, hs.session, hs.discovery, hs.entities, hs.commands, hs.files, hs.bestParent,
      hs.radio⟩
  · exact hs

/-- A frame for the leaf goes to the handler of its type. -/
theorem handleLocally_moves {f : Frame} (hs : Arrived s₀ s) (hf : c.frame? = some f)
    (hpasses : s₀.Passes P f) (hlocal : s₀.shouldHandleLocally f) (senderMac : Mac) (rssi : Int) :
    Moves P c s₀ s (s.handleLocally P e senderMac f rssi).1 := by
  unfold handleLocally
  split
  · exact handleDiscover_moves _ _ _
  · exact handleDiscoverAnnounce_moves _ _ _ _
  next htype =>
    have hmac : f.header.leafMac = s₀.config.leafMac := by
      simpa [shouldHandleLocally, htype] using hlocal
    exact handleJoinAck_moves hs hf hpasses htype hmac
  · exact handleAck_moves _ hf
  next htype => exact handleCommand_moves hs hf htype
  · exact handleConfig_moves _ hf
  · exact handleSchemaRequest_moves _ hf
  · exact handleDeauth_moves _ _
  · split
    · exact handleFileTransfer_moves _ _
    · exact .refl
  · split
    · exact handleFileData_moves _ _
    · exact .refl
  · exact .refl

theorem shouldHandleLocally_noteRssi (s : Remote η) (senderMac : Mac) (rssi : Int) (f : Frame) :
    (s.noteRssi senderMac rssi).shouldHandleLocally f = s.shouldHandleLocally f := by
  unfold noteRssi
  split <;> rfl

/-- Before that the signal and the hop count are noted. -/
theorem onFrame_moves {f : Frame} (s : Remote η) (senderMac : Mac) (len : Nat) (rssi : Int)
    (hf : c.frame? = some f) : Moves P c s s (s.onFrame P e senderMac f len rssi).1 := by
  unfold onFrame
  split
  · exact .refl
  next hpsk =>
  split
  · exact .refl
  next hhops =>
  split
  · exact .refl
  next hparent =>
  have hpasses : s.Passes P f := ⟨not_not.mp hpsk, Nat.lt_of_not_le hhops, not_not.mp hparent⟩
  dsimp only
  have hrssi : Moves P c s s _ := noteRssi_moves s senderMac rssi
  have harrived := Arrived.noteRssi s senderMac rssi
  split
  · exact hrssi
  split
  next hlocal =>
    rw [shouldHandleLocally_noteRssi] at hlocal
    exact hrssi.trans ((noteHops_moves s senderMac rssi hf).trans
      (handleLocally_moves (harrived.noteHops f) hf hpasses hlocal _ _))
  next hlocal =>
  split
  · exact hrssi
  have hother : f.header.leafMac ≠ (s.noteRssi senderMac rssi).config.leafMac := by
    intro hmac
    refine hlocal ?_
    unfold shouldHandleLocally
    simp [hmac]
  split
  · exact hrssi.trans (handleUpstream_moves _ _ _ hother)
  · exact hrssi.trans (forwardPacket_moves _ _ hother)

/-- Bytes that are no frame do nothing. -/
theorem onEspnowFrame_moves (s : Remote η) (senderMac : Mac) (data : Bytes) (rssi : Int) :
    Moves P (.frame e senderMac data rssi) s s (s.onEspnowFrame P e senderMac data rssi).1 := by
  unfold onEspnowFrame
  split
  · exact .refl
  next f hf => exact onFrame_moves s senderMac _ rssi hf

/-! ## The loop -/

theorem loopFiles_moves (s : Remote η) : Moves P c s₀ s (s.loopFiles P e) := by
  have hloop : Moves P c s₀ s { (s.files.loop (fileContext P e) s).2 with
      files := (s.files.loop (fileContext P e) s).1 } :=
    .tail (Receiver.loop_owner (x := fileContext P e) (fun p rest => fileContext_moves p rest)
      s.files s) (.files _)
  unfold loopFiles
  dsimp only
  split
  · split
    · exact hloop.tail (.timers _)
    · split
      · exact (hloop.trans (abortFiles_moves _ _ _)).tail (.timers _)
      · exact hloop
  · exact hloop.tail (.timers _)

theorem housekeeping_moves (s : Remote η) : Moves P c s₀ s (s.housekeeping P e) :=
  .trans (pruneRoutes_moves s) <| .trans (.single (.expire e)) <| .trans (loopFiles_moves _) <|
    flushPendingDiscoverAnnounce_moves _

/-- The receiver changes nothing of its leaf but the radio. -/
theorem owner_radio {t : Remote η} (h : Relation.ReflTransGen
    (fun p q : Remote η => ∃ r, q = { p with radio := r }) s t) : ∃ r, t = { s with radio := r } := by
  induction h with
  | refl => exact ⟨s.radio, rfl⟩
  | tail _ h ih =>
    obtain ⟨r, rfl⟩ := ih
    obtain ⟨r', rfl⟩ := h
    exact ⟨r', rfl⟩

theorem abortFiles_eq (s : Remote η) (reason : UInt8) (notifySender : Bool) :
    ∃ r files, s.abortFiles P e reason notifySender = { s with radio := r, files := files } := by
  obtain ⟨r, hr⟩ := owner_radio (Receiver.abort_owner (x := fileContext P e)
    (fun p rest => .single (sendAck_radio p _ 0)) s.files s reason notifySender)
  refine ⟨r, (s.files.abort (fileContext P e) s reason notifySender).1, ?_⟩
  unfold abortFiles
  dsimp only
  rw [hr]

theorem loopFiles_eq (s : Remote η) :
    ∃ r files t, s.loopFiles P e = { s with radio := r, files := files, timers := t } := by
  obtain ⟨r, hr⟩ := owner_radio (Receiver.loop_owner (x := fileContext P e)
    (fun p rest => .single (sendAck_radio p _ 0)) s.files s)
  unfold loopFiles
  dsimp only
  rw [hr]
  split
  · split
    · exact ⟨_, _, _, rfl⟩
    · split
      · obtain ⟨r', files', h⟩ := abortFiles_eq (P := P) (e := e) { s with
          radio := r, files := (s.files.loop (fileContext P e) s).1 } abortSessionLost true
        rw [h]
        exact ⟨r', files', _, rfl⟩
      · exact ⟨_, _, _, rfl⟩
  · exact ⟨_, _, _, rfl⟩

/-- The search for a parent stands where it stood when the call began. -/
structure SameSearch (s₀ s : Remote η) : Prop where
  bestParent : s.route.bestParent = s₀.route.bestParent
  discovering : s.discovery.discovering = s₀.discovery.discovering
  sweepComplete : s.discovery.sweepComplete = s₀.discovery.sweepComplete

theorem housekeeping_sameSearch (s : Remote η) : SameSearch s (s.housekeeping P e) := by
  obtain ⟨r, files, t, h⟩ :=
    loopFiles_eq (P := P) (e := e) ((s.pruneRoutes e).prunePendingCommandFragments e)
  unfold housekeeping flushPendingDiscoverAnnounce
  rw [h]
  split
  · exact ⟨rfl, rfl, rfl⟩
  · split <;> exact ⟨rfl, rfl, rfl⟩

/-- A leaf without a session starts a discovery cycle when the time has come. -/
theorem loopStart_moves (s : Remote η) : Moves P c s₀ s (s.loopStart P e).1 := by
  unfold loopStart
  split
  · refine .trans ?_ (startDiscoveryCycle_moves _ _ _)
    exact discovery_move _ rfl rfl rfl
  · split
    · split
      · exact startDiscoveryCycle_moves _ _ _
      · exact .refl
    · exact .refl

/-- The loop goes on past its parts only where they do nothing. -/
theorem loopStart_continues (s : Remote η) (h : (s.loopStart P e).2 = false) :
    (s.loopStart P e).1 = s := by
  unfold loopStart at h ⊢
  split at h
  · cases h
  next h₁ =>
    split at h
    · split at h <;> cases h
    next h₂ => rw [if_neg h₁, if_neg h₂]

/-- A topology check is made by a normal leaf. -/
theorem loopTopology_moves (wanted : Bool) (hnormal : wanted → s.session.normal) :
    Moves P c s₀ s (s.loopTopology e wanted).1 := by
  unfold loopTopology
  split
  next hwanted =>
    dsimp only
    split
    · refine .trans ?_ (startRouteRecoveryCycle_moves ?_)
      · exact discovery_move _ rfl rfl rfl
      · exact .inr (hnormal hwanted)
    · exact discovery_move _ rfl rfl rfl
  · exact .refl

theorem loopTopology_continues (wanted : Bool) (h : (s.loopTopology e wanted).2 = false) :
    ∃ due, (s.loopTopology e wanted).1 =
      { s with discovery := { s.discovery with topologyRefreshDueMs := due } } := by
  unfold loopTopology at h ⊢
  split at h
  next hwanted =>
    rw [if_pos hwanted]
    dsimp only at h ⊢
    split at h
    · cases h
    next hdue =>
      rw [if_neg hdue]
      exact ⟨_, rfl⟩
  next hwanted =>
    rw [if_neg hwanted]
    exact ⟨s.discovery.topologyRefreshDueMs, rfl⟩

theorem loopResume_moves (hc : c = .loop e) (hs : SameSearch s₀ s) :
    Moves P c s₀ s (s.loopResume P e).1 := by
  unfold loopResume
  split
  next h =>
    obtain ⟨hdisc, hsweep, hvalid, hresume⟩ := h
    rw [adoptBestParentCandidate, if_neg (not_not.mpr hvalid)]
    exact .trans (adopted_moves hc hs.bestParent (hs.bestParent ▸ hvalid) (hs.discovering ▸ hdisc)
      (hs.sweepComplete ▸ hsweep) hdisc hresume) (sendHeartbeat_moves _)
  · exact .refl

theorem loopResume_continues (s : Remote η) (h : (s.loopResume P e).2 = false) :
    (s.loopResume P e).1 = s := by
  unfold loopResume at h ⊢
  split at h
  · cases h
  next hno => rw [if_neg hno]

/-- At the end of a sweep the leaf takes its best candidate for a parent, and asks to join. -/
theorem loopJoin_moves (hc : c = .loop e) (hs : SameSearch s₀ s) :
    Moves P c s₀ s (s.loopJoin P e).1 := by
  unfold loopJoin
  split
  next h =>
    obtain ⟨hdisc, -, hsweep, hvalid, -⟩ := h
    dsimp only
    refine .trans ?_ (sendJoin_moves _)
    refine .trans ?_ (refreshCanRelay_moves _)
    refine .trans (discovery_move { s.discovery with
      lastKnownChannel := s.route.bestParent.channel, joinInFlight := false } rfl rfl rfl) ?_
    exact .single (.take e hc hs.bestParent (hs.bestParent ▸ hvalid) (hs.discovering ▸ hdisc)
      (hs.sweepComplete ▸ hsweep))
  · exact .refl

theorem loopSweep_moves (s : Remote η) : Moves P c s₀ s (s.loopSweep P e).1 := by
  unfold loopSweep
  split
  · split
    · exact discovery_move _ rfl rfl rfl
    · exact sendDiscover_moves _
  · exact .refl

theorem loopJoinExhausted_moves (s : Remote η) : Moves P c s₀ s (s.loopJoinExhausted P e) := by
  unfold loopJoinExhausted
  split
  · exact .trans (startDiscoveryCycle_moves _ _ _) (setDiscoverDue_moves _ _)
  · exact .refl

/-! ## The loop of a joined leaf -/

theorem loopStalled_moves (hjoined : s.session.joined) :
    Moves P c s₀ s (s.loopStalled P e).1 := by
  unfold loopStalled
  split
  · refine .trans ?_ (setDiscoverDue_moves _ _)
    exact .trans (clearSessionState_moves _ _) (startDiscoveryCycle_moves _ _ _)
  split
  · exact rejoinDueToTransmitStall_moves false hjoined
  split
  · exact rejoinDueToTransmitStall_moves false hjoined
  split
  · exact rejoinDueToTransmitStall_moves true hjoined
  · exact .refl

theorem loopStalled_continues (s : Remote η) (h : (s.loopStalled P e).2 = false) :
    (s.loopStalled P e).1 = s := by
  unfold loopStalled at h ⊢
  split_ifs at h ⊢
  rfl

theorem stateTimedOut_moves (hjoined : s.session.joined) :
    Moves P c s₀ s (s.stateTimedOut e) := by
  unfold stateTimedOut
  refine .trans (.single (.dirty s.entities.pendingStateFieldIndex)) ?_
  refine .trans ?_ (startRouteRecoveryCycle_moves (e := e) ?_)
  · exact entities_move _ rfl rfl
  · exact .inl hjoined

/-- A state that was not acknowledged is sent again under a new counter, with the value of that
time. -/
theorem retryState_moves (hwait : s.entities.waitingForStateAck) :
    Moves P c s₀ s (s.retryState P e) := by
  have hsend := sendState_moves (P := P) (e := e) (c := c) s₀ s
    s.entities.pendingStateFieldIndex s.entities.pendingStateValue false
  unfold retryState
  dsimp only at hsend
  generalize s.sendState P e s.entities.pendingStateFieldIndex s.entities.pendingStateValue false = o
    at hsend ⊢
  obtain ⟨s', sent⟩ := o
  rcases hsend with ⟨hsent, hmoves⟩ | ⟨hsent, hjoined, record, r, hrecord, hmoves, hs'⟩
  · obtain rfl : sent = false := hsent
    exact hmoves.trans (entities_keep _ rfl rfl rfl rfl rfl)
  · obtain rfl : sent = true := hsent
    obtain rfl : s' = _ := hs'
    refine hmoves.trans (.trans (.single ?_) (entities_keep _ rfl rfl rfl rfl rfl))
    exact Move.resend (s := { s with radio := r }) e record s.radio.txCounter hwait hrecord

theorem loopStateAck_moves (hjoined : s.session.joined) :
    Moves P c s₀ s (s.loopStateAck P e).1 := by
  unfold loopStateAck
  split
  next hwait =>
    split
    · split
      · exact retryState_moves hwait
      · exact .refl
    · exact stateTimedOut_moves hjoined
  · exact .refl

theorem loopHeartbeat_moves (s : Remote η) : Moves P c s₀ s (s.loopHeartbeat P e).1 := by
  unfold loopHeartbeat
  split
  · dsimp only
    split
    · refine .trans ?_ (sendHeartbeat_moves _)
      exact .single (.timers _)
    · exact .single (.timers _)
  · exact .refl

theorem pushDirtyState_moves (s : Remote η) : Moves P c s₀ s (s.pushDirtyState P e) := by
  unfold pushDirtyState
  split
  · exact .refl
  next hwait =>
  split
  · exact .refl
  next d hd =>
  have hsend := sendState_moves (P := P) (e := e) (c := c) s₀ s
    d.schema.entityIndex d.currentValue true
  dsimp only at hsend
  generalize s.sendState P e d.schema.entityIndex d.currentValue true = o at hsend ⊢
  obtain ⟨s', sent⟩ := o
  rcases hsend with ⟨hsent, hmoves⟩ | ⟨hsent, hjoined, record, r, hrecord, hmoves, hs'⟩
  · obtain rfl : sent = false := hsent
    exact hmoves
  · obtain rfl : sent = true := hsent
    obtain rfl : s' = _ := hs'
    refine hmoves.trans (.single ?_)
    exact Move.push (s := { s with radio := r }) e _ record s.radio.txCounter _ hjoined
      (by simpa using hwait) hrecord ⟨d, List.mem_of_find?_eq_some hd, by simpa using List.find?_some hd, rfl, rfl⟩

/-- The parts of the loop are moves one after the other, until one of them ends the loop. -/
theorem andThen_moves {r : Remote η × Bool} {rest : Remote η → Remote η}
    (hfirst : Moves P c s₀ s r.1) (hrest : r.2 = false → Moves P c s₀ r.1 (rest r.1)) :
    Moves P c s₀ s (andThen r rest) := by
  unfold andThen
  split
  · exact hfirst
  next h => exact hfirst.trans (hrest (by simpa using h))

theorem loopJoined_moves (hjoined : s.session.joined) :
    Moves P c s₀ s (s.loopJoined P e) := by
  refine andThen_moves (loopStalled_moves hjoined) fun h => ?_
  rw [loopStalled_continues s h]
  refine andThen_moves (loopStateAck_moves hjoined) fun _ => ?_
  split
  · exact .refl
  · exact andThen_moves (loopHeartbeat_moves _) fun _ => pushDirtyState_moves _

theorem SameSearch.topology {s' : Remote η} (hs : SameSearch s₀ s) {due : UInt32}
    (h : s' = { s with discovery := { s.discovery with topologyRefreshDueMs := due } }) :
    SameSearch s₀ s' := by
  subst h
  exact ⟨hs.bestParent, hs.discovering, hs.sweepComplete⟩

/-- So the loop is a sequence of moves. -/
theorem loop_moves (s : Remote η) : Moves P (.loop e) s s (s.loop P e) := by
  have hsearch := housekeeping_sameSearch (P := P) (e := e) s
  refine (housekeeping_moves (e := e) s).trans (andThen_moves (loopStart_moves _) fun h => ?_)
  rw [loopStart_continues _ h]
  refine andThen_moves (loopTopology_moves _ (by simp +contextual)) fun h => ?_
  obtain ⟨due, hdue⟩ := loopTopology_continues _ h
  have hsearch := hsearch.topology hdue
  refine andThen_moves (loopTopology_moves _ (by simp +contextual)) fun h => ?_
  obtain ⟨due', hdue'⟩ := loopTopology_continues _ h
  have hsearch := hsearch.topology hdue'
  refine andThen_moves (loopResume_moves rfl hsearch) fun h => ?_
  rw [loopResume_continues _ h]
  refine andThen_moves (loopJoin_moves rfl hsearch) fun _ => ?_
  refine andThen_moves (loopSweep_moves _) fun _ => ?_
  dsimp only
  split
  next hjoined => exact (loopJoinExhausted_moves _).trans (loopJoined_moves hjoined)
  · exact loopJoinExhausted_moves _

end

/-- Every call is a sequence of moves. -/
theorem call_moves (P : Platform η) (s : Remote η) (c : Call) : Moves P c s s (s.call P c) := by
  cases c with
  | frame e senderMac data rssi => exact onEspnowFrame_moves s senderMac data rssi
  | loop e => exact loop_moves s
  | stateChange index value => exact .single (.change index value rfl rfl)
  | textChange index value => exact .single (.changeText index value rfl rfl)

/-- The invariant rule: what every move keeps, every call keeps. -/
theorem call_invariant {P : Platform η} {I : Remote η → Prop} {s : Remote η} {c : Call}
    (hmove : ∀ t t', I t → Move P c s t t' → I t') (hs : I s) : I (s.call P c) := by
  have hmoves := call_moves P s c
  generalize s.call P c = t at hmoves ⊢
  induction hmoves with
  | refl => exact hs
  | tail _ h ih => exact hmove _ _ ih h

/-- What the set-up of a leaf decides about the fields that change later. -/
structure Settings where
  sessionFlags : UInt8 := 0
  heartbeatInterval : Nat := 60
  relayEnabled : Bool := true
  preferredParents : List Mac := []

/-- A leaf after its set-up, without entities. -/
def setUp (config : Config) (files : FileReceiver.Receiver η) (settings : Settings) : Remote η where
  config := config
  files := files
  session := { localSessionFlags := settings.sessionFlags }
  route := { relayEnabled := settings.relayEnabled, preferredParents := settings.preferredParents }
  timers := { heartbeatInterval := settings.heartbeatInterval }

/-- A leaf that has registered its entities. -/
inductive Registered : Remote η → Prop
  | fresh (config : Config) (files : FileReceiver.Receiver η) (settings : Settings) :
      Registered (setUp config files settings)
  | register {s : Remote η} (h : Registered s) (hroom : s.entities.records.length < 256)
      (type : UInt8) (name unit options id : Bytes) :
      Registered (s.registerEntity type name unit options id)

/-- A restart: the leaf is `fresh`, and what it did before is not undone. -/
def restart (s fresh : Remote η) : Remote η :=
  { fresh with radio := { fresh.radio with effects := s.radio.effects } }

/-- A registered leaf has no session yet. -/
theorem Registered.session {s : Remote η} (h : Registered s) :
    s.session = { localSessionFlags := s.session.localSessionFlags } ∧ s.discovery = {} ∧
      s.commands = {} ∧ s.radio = {} := by
  induction h with
  | fresh config files settings => exact ⟨rfl, rfl, rfl, rfl⟩
  | register _ _ type name unit options id ih => exact ih

/-! ## The flags of the automaton -/

/-- A normal leaf is joined, and so is one that looks for a parent to resume its session. -/
structure Flags (s : Remote η) : Prop where
  normal : s.session.normal → s.session.joined
  resuming : s.discovery.discovering → s.discovery.resumeNormalAfterSuccess ∨
    s.discovery.fastRejoin → s.session.joined

/-- Every move keeps the flags of a leaf that is normal. -/
theorem Flags.move {P : Platform η} {c : Call} {s₀ s t : Remote η} (h : s.Flags)
    (hmove : Move P c s₀ s t) : t.Flags := by
  cases hmove with
  | discovery d hd =>
    refine ⟨h.normal, fun hdisc hresume => ?_⟩
    rcases hd hdisc hresume with hs | ⟨hdisc', hresume'⟩
    · exact hs.elim id h.normal
    · exact h.resuming hdisc' hresume'
  | resume => exact ⟨fun _ => rfl, fun _ _ => rfl⟩
  | complete _ _ _ _ _ _ _ hjoined => exact ⟨fun _ => hjoined, fun _ _ => hjoined⟩
  | accept => exact ⟨fun _ => rfl, fun _ _ => rfl⟩
  | notNormal => exact ⟨fun hn => absurd hn Bool.false_ne_true, h.resuming⟩
  | clear preserveRoute =>
    refine ⟨fun hn => absurd hn Bool.false_ne_true, fun hdisc hresume => ?_⟩
    cases preserveRoute with
    | true => cases hdisc
    | false => rcases hresume with h | h <;> cases h
  | _ => exact ⟨h.normal, h.resuming⟩

/-! ## Joining, as a list of calls -/

/-- The announcement that `responder` sends to `leaf`. -/
def announceTo (leaf responder : Mac) (role hops : UInt8) : Bytes :=
  (plain .sample leaf .discoverAnnounce (hopsMake hopsDirBit 0) 0 none
    (DiscoverAnnounce.bytes ⟨fixedField 32 [], 0, responder, role, hops, 1, 0⟩)).bytes

/-- An accepting `JOIN_ACK`. -/
def joinAckTo (leaf : Mac) (stage : UInt8) (nonce : Nonce) (txCounter : UInt32) : Bytes :=
  (plain .sample leaf .joinAck (hopsMake hopsDirBit 0) txCounter none
    (JoinAck.bytes ⟨1, 0, stage, nonce, 0⟩)).bytes

/-- A frame from the bridge, encrypted under `key`. -/
def sealedTo (leaf : Mac) (key : SessionKey) (type : PacketType) (txCounter : UInt32)
    (plaintext : Bytes) : Bytes :=
  (sealed .sample key leaf type (hopsMake hopsDirBit 0) txCounter none
    ((Crypto.sample.crypt key txCounter plaintext).getD [])).bytes

/-- A leaf discovers `parent`, which announces `hops`, and sends a `JOIN` with `nonce`. -/
def discoverCalls (leaf parent : Mac) (role hops : UInt8) (nonce : Nonce) (now : UInt32) : List Call :=
  [.loop (.quiet (now + 1) nonce), .loop (.quiet (now + 2) nonce),
    .frame (.quiet (now + 10) nonce) parent (announceTo leaf parent role hops) (-50),
    .loop (.quiet (now + 50) nonce), .loop (.quiet (now + 60) nonce)]

end Remote

end EspTree
