import EspTree.Bridge.Loop
import EspTree.Lib.System

/-!
# The bridge: what a call can do

Every call into the bridge is a sequence of moves from a short list, so an invariant is proved
once per move and not once per handler:

* `Sending`: frames go out under the session's next counter, and nothing else that the link
  depends on changes.  `Core` lists the fields of a session that it depends on;
* `Move`: sessions come and go, a `JOIN` sets a new key, the counters of received frames are
  noted, and the retry queues repeat what they hold.

`call_moves` says that these are all, `call_invariant` is the rule that follows.
-/

namespace EspTree

open Wire OtaManager

namespace Bridge

/-- A call into the bridge. -/
inductive Call
  | frame (e : Env) (senderMac : Mac) (data : Bytes) (rssi : Int)
  | loop (e : Env)
  | command (e : Env) (index : UInt8) (value : Bytes)
  | configure (e : Env) (command : UInt8) (payload : Bytes)
  | otaFrame (e : Env) (type : PacketType) (payload : Bytes)
  | confirmState (e : Env) (base : UInt32) (nextHopMac : Mac)
  | discoveryConfirmed (e : Env) (index : UInt8) (success : Bool)
  | invalidate
  | restart
  /-- Other leaves take or free the join slot and change the caches. -/
  | others (slot : Hub)

def Call.isFrame : Call → Bool
  | .frame .. => true
  | _ => false

/-- What other leaves may change in the hub. -/
def Hub.shared (h slot : Hub) : Hub :=
  { h with
    joiningInProgress := slot.joiningInProgress
    joiningLeafMac := slot.joiningLeafMac
    joinStartedMs := slot.joinStartedMs
    schemaCache := slot.schemaCache
    schemaHashCache := slot.schemaHashCache }

/-- `on_discovery_confirmed_` for this leaf. -/
def confirmDiscovery (c : Crypto) (e : Env) (b : Bridge) (index : UInt8) (success : Bool) : Bridge :=
  match b.session? with
  | none => b
  | some x =>
    let (h, x) := discoveryConfirmed c e b.hub x index success
    { b with hub := h, session? := some x }

/-- The state after a call. -/
def call (c : Crypto) (b : Bridge) : Call → Bridge
  | .frame e senderMac data rssi => (b.onEspnowFrame c e senderMac data rssi).1
  | .loop e => b.loop c e
  | .command e index value => (b.command c e index value).1
  | .configure e cmd payload => (b.configure c e cmd payload).1
  | .otaFrame e type payload => (b.otaFrame c e type payload).1
  | .confirmState e base nextHopMac => (b.confirmState c e base nextHopMac).1
  | .discoveryConfirmed e index success => b.confirmDiscovery c e index success
  | .invalidate => b.invalidateAllSessions
  | .restart => b.restart
  | .others slot => { b with hub := b.hub.shared slot }

/-- The fields of a session that the link depends on. -/
structure Core where
  leafMac : Mac
  sessionKey : SessionKey
  bridgeNonce : Nonce
  remoteNonce : Nonce
  sessionKeyValid : Bool
  lastSeenCounter : UInt32
  txCounter : UInt32
  drawn : Nat
  sessionMaxPayload : Nat
  limits : FragmentLimits
  leafSessionFlags : UInt8
  lastCompletedStateMessageTxBase : UInt32
  online : Bool
  remoteState : RemoteState

def Session.core (x : Session) : Core :=
  ⟨x.leafMac, x.sessionKey, x.bridgeNonce, x.remoteNonce, x.sessionKeyValid, x.lastSeenCounter,
    x.txCounter, x.drawn, x.sessionMaxPayload, x.limits, x.leafSessionFlags,
    x.lastCompletedStateMessageTxBase, x.online, x.remoteState⟩

/-- The effects that have no move of their own. -/
def Effect.isQuiet : Effect → Bool
  | .encrypt .. | .availability .. | .publishState .. => false
  | _ => true

/-- A state that is published, without its value. -/
structure Publication where
  key : SessionKey
  txBase : UInt32
  entityIndex : UInt8
  nextHopMac : Mac
  deriving DecidableEq

def Effect.publication? : Effect → Option Publication
  | .publishState key txBase entity _ nextHop => some ⟨key, txBase, entity.entityIndex, nextHop⟩
  | _ => none

/-- The states that were published, newest first. -/
def Hub.publications (h : Hub) : List Publication := h.effects.filterMap Effect.publication?

@[simp]
theorem publications_note (h : Hub) (eff : Effect) :
    (h.note eff).publications = eff.publication?.toList ++ h.publications := by
  unfold Hub.publications Hub.note
  cases heff : eff.publication? <;> simp [heff]

/-- A quiet effect publishes nothing. -/
theorem publication?_of_isQuiet {eff : Effect} (h : eff.isQuiet) : eff.publication? = none := by
  cases eff <;> first | rfl | cases h

/-- The packet types that only the bridge sends. -/
def isDownlink : PacketType → Bool
  | .joinAck | .deauth | .discoverAnnounce | .schemaRequest | .command | .config | .fileTransfer
  | .fileData => true
  | _ => false

/-- The frames that the bridge sends.  Its acknowledgements are those of `STATE` messages. -/
inductive Downlink (c : Crypto) (past : List Effect) : Frame → Prop
  | plain (leafMac : Mac) (type : PacketType) (tx : UInt32) (payload : Bytes)
      (htype : isDownlink type) : Downlink c past (plain c leafMac type downHop tx none payload)
  | sealed (key : SessionKey) (leafMac : Mac) (type : PacketType) (tx : UInt32) (ciphertext : Bytes)
      (htype : isDownlink type) : Downlink c past (sealed c key leafMac type downHop tx none ciphertext)
  | ack (key : SessionKey) (leafMac : Mac) (tx base : UInt32) (ciphertext : Bytes)
      (hin : .encrypt .ack key tx (Ack.bytes ⟨ackState, 0, base⟩) ∈ past)
      (hcrypt : c.crypt key tx (Ack.bytes ⟨ackState, 0, base⟩) = some ciphertext) :
      Downlink c past (sealed c key leafMac .ack downHop tx none ciphertext)

/-- What goes to the radio is one of them. -/
def Effect.Outgoing (c : Crypto) (past : List Effect) : Effect → Prop
  | .send _ data _ => ∃ f, Downlink c past f ∧ data = f.bytes
  | _ => True

/-- The moves of a sender. -/
inductive Sending (c : Crypto) : Bridge → Bridge → Prop
  | hub {m : Mac} {h h' : Hub} {x? : Option Session} (heff : h'.effects = h.effects)
      (hcommands : h'.commandQueue = h.commandQueue)
      (hconfigs : h'.pendingConfigs = h.pendingConfigs) (hconfig : h'.config = h.config) :
      Sending c ⟨m, h, x?⟩ ⟨m, h', x?⟩
  | note {m : Mac} {h : Hub} {x? : Option Session} (eff : Effect) (heff : eff.isQuiet)
      (hout : eff.Outgoing c h.effects) : Sending c ⟨m, h, x?⟩ ⟨m, h.note eff, x?⟩
  | session {m : Mac} {h : Hub} {x x' : Session} (hcore : x'.core = x.core) :
      Sending c ⟨m, h, some x⟩ ⟨m, h, some x'⟩
  | bump {m : Mac} {h : Hub} {x : Session} :
      Sending c ⟨m, h, some x⟩ ⟨m, h, some x.bumpTxCounter⟩
  | encrypt {m : Mac} {h : Hub} {x : Session} (type : PacketType) (plaintext : Bytes)
      (htype : type ≠ .ack) (hvalid : x.sessionKeyValid) (hcommand : type ≠ .command) :
      Sending c ⟨m, h, some x⟩
        ⟨m, h.note (.encrypt type x.sessionKey x.txCounter plaintext), some x.bumpTxCounter⟩

/-- Sequences of them. -/
abbrev Sends (c : Crypto) : Bridge → Bridge → Prop := Relation.ReflTransGen (Sending c)

/-- The parts of a queued command that its retries repeat. -/
def PendingCommand.content (p : PendingCommand) : UInt8 × Bytes × UInt32 :=
  (p.fieldIndex, p.value, p.txBase)

def PendingConfig.content (p : PendingConfig) : UInt8 × Bytes × UInt32 :=
  (p.command, p.payload, p.txBase)

/-- The `n`-th fragment of a command, as `send_command_fragments_` encrypts it for `x`. -/
def Session.fragmentBytes (x : Session) (index : UInt8) (value : Bytes) (n : Nat) : Bytes :=
  (commandFragment index value x.limits.maxEntityFragment
    (chunkCount value.length x.limits.maxEntityFragment) n).bytes

/-- The payload size and the limits for the flags of a leaf and of the bridge. -/
def negotiated (leafFlags bridgeFlags : UInt8) : Nat × FragmentLimits :=
  if hasV2Mtu leafFlags ∧ hasV2Mtu bridgeFlags then (v2MaxPayload, FragmentLimits.ofMtu v2MaxPayload)
  else (v1MaxPayload, {})

/-- A `JOIN` that repeats the one that the session is answering. -/
def Session.Repeats (x : Session) (join : Join) : Prop :=
  x.join.inProgress ∧ x.remoteNonce = join.remoteNonce ∧ x.schema.hash = join.schemaHash

/-- The call brings a `JOIN` that is not a repetition. -/
structure Joins (c : Crypto) (k : Call) (b₀ : Bridge) (e : Env) (senderMac : Mac) (data : Bytes)
    (rssi : Int) (f : Frame) : Prop where
  call : k = .frame e senderMac data rssi
  parsed : parsePacket c data = some f
  type : f.type? = some .join
  size : f.payload.length = Join.size
  slot : ¬ (b₀.hub.joiningInProgress ∧ f.header.leafMac ≠ b₀.hub.joiningLeafMac)
  fresh : ¬ b₀.ensureSession.Repeats (Join.parse f.payload)

/-- The call brings a fragment of a `STATE` message, under the key of the session. -/
structure BringsState (c : Crypto) (k : Call) (b : Bridge) (x : Session) (f : Frame)
    (view : EntityPayload) : Prop where
  frame : ∃ e senderMac data rssi, k = .frame e senderMac data rssi ∧ parsePacket c data = some f
  type : f.type? = some .state
  session : b.session? = some x
  opened : (validateSessionPacket c x f).bind EntityPayload.parse = some view

/-- `message_tx_base` of a fragment. -/
def messageBase (f : Frame) (view : EntityPayload) : UInt32 :=
  fragmentMessageTxBase f.header.txCounter view

/-- A message with counter `base` is acknowledged under `key`: it is the last completed one, or the
sinks have taken it. -/
def AckDue (c : Crypto) (k : Call) (b₀ : Bridge) (key : SessionKey) (base : UInt32) : Prop :=
  (∃ x₀ f view, BringsState c k b₀ x₀ f view ∧ base = messageBase f view ∧
      base = x₀.lastCompletedStateMessageTxBase ∧ key = x₀.sessionKey) ∨
    ∃ e mac, k = .confirmState e base mac

/-- The answer to such a `JOIN` cannot be sent.  With a cached schema it is one frame, and a leaf
without changes is answered as often as it takes; otherwise the schema request follows, whose
encryption is an effect of its own. -/
def AnswerLost (e : Env) (h : Hub) (x : Session) (join : Join) : Prop :=
  if h.schemaHashCache.lookup x.cacheKey = some join.schemaHash then
    join.dirtyCount ≠ 0 ∧ e.sendErr (h.effects.length + 1) ≠ .ok
  else e.sendErr h.effects.length ≠ .ok ∨ e.sendErr (h.effects.length + 2) ≠ .ok

/-- One move of a call `k` that started in `b₀`. -/
inductive Move (c : Crypto) (k : Call) (b₀ : Bridge) : Bridge → Bridge → Prop
  | send {b b' : Bridge} (h : Sending c b b') : Move c k b₀ b b'
  -- sessions come and go
  | create {m : Mac} {h : Hub} (hk : k.isFrame) (hnone : b₀.session? = none) :
      Move c k b₀ ⟨m, h, none⟩ ⟨m, h, some { leafMac := m }⟩
  | drop {m : Mac} {h : Hub} {x : Session} (hk : k.isFrame = false) (hoffline : x.online = false)
      (hdrawn : b₀.session?.any (fun x₀ => x.drawn ≤ x₀.drawn + 2)) :
      Move c k b₀ ⟨m, h, some x⟩ ⟨m, h, none⟩
  | restart {b : Bridge} (hk : k = .restart) (hsame : b.session? = b₀.session?) :
      Move c k b₀ b b.restart
  | invalidate {m : Mac} {h : Hub} {x : Session} :
      Move c k b₀ ⟨m, h, some x⟩ ⟨m, h, some { x with sessionKeyValid := false }⟩
  -- joins
  | rekey {m : Mac} {h : Hub} {x x' : Session} (e : Env) (senderMac : Mac) (data : Bytes)
      (rssi : Int) (f : Frame) (hjoins : Joins c k b₀ e senderMac data rssi f) (hhub : h = b₀.hub)
      (hcore : x'.core = { x.core with
        remoteNonce := (Join.parse f.payload).remoteNonce
        bridgeNonce := e.nonce
        sessionKey := c.deriveSessionKey e.nonce (Join.parse f.payload).remoteNonce
        sessionKeyValid := true
        lastSeenCounter := f.header.txCounter
        sessionMaxPayload := (negotiated (Join.parse f.payload).sessionFlags h.config.sessionFlags).1
        limits := (negotiated (Join.parse f.payload).sessionFlags h.config.sessionFlags).2
        leafSessionFlags := (Join.parse f.payload).sessionFlags
        lastCompletedStateMessageTxBase := 0
        remoteState := .joined }) :
      Move c k b₀ ⟨m, h, some x⟩ ⟨m, h, some x'⟩
  | restored {m : Mac} {h : Hub} {x : Session} (e : Env) (senderMac : Mac) (data : Bytes)
      (rssi : Int) (f : Frame) (key : Bytes) (cached : Cached)
      (hjoins : Joins c k b₀ e senderMac data rssi f) (hhub : h = b₀.hub)
      (hcached : h.schemaCache.lookup key = some cached) :
      Move c k b₀ ⟨m, h, some x⟩
        ⟨m, h, some { x with sessionMaxPayload := cached.sessionMaxPayload }⟩
  | abandon {m : Mac} {h : Hub} {x : Session} (e : Env) (senderMac : Mac) (data : Bytes)
      (rssi : Int) (f : Frame) (hjoins : Joins c k b₀ e senderMac data rssi f)
      (honline : x.online = b₀.ensureSession.online)
      (hlost : AnswerLost e b₀.hub b₀.ensureSession (Join.parse f.payload)) :
      Move c k b₀ ⟨m, h, some x⟩ ⟨m, h, some { x with online := false, remoteState := .none }⟩
  | rejoin {m : Mac} {h : Hub} {x : Session} (e : Env) (senderMac : Mac) (data : Bytes)
      (rssi : Int) (f : Frame) (hk : k = .frame e senderMac data rssi)
      (hf : parsePacket c data = some f) (htype : f.type? = some .join)
      (hsame : x = b₀.ensureSession) (hrepeats : x.Repeats (Join.parse f.payload)) :
      Move c k b₀ ⟨m, h, some x⟩ ⟨m, h, some { x with lastSeenCounter := f.header.txCounter }⟩
  -- received frames
  | seen {m : Mac} {h : Hub} {x : Session} (e : Env) (senderMac : Mac) (data : Bytes) (rssi : Int)
      (f : Frame) (hk : k = .frame e senderMac data rssi) (hf : parsePacket c data = some f)
      (hopen : (validateSessionPacket c x f).isSome)
      (hnew : counterIsNewer f.header.txCounter x.lastSeenCounter) :
      Move c k b₀ ⟨m, h, some x⟩ ⟨m, h, some { x with lastSeenCounter := f.header.txCounter }⟩
  | seenMax {m : Mac} {h : Hub} {x : Session} (e : Env) (senderMac : Mac) (data : Bytes)
      (rssi : Int) (f : Frame) (hk : k = .frame e senderMac data rssi)
      (hf : parsePacket c data = some f) (hopen : (validateSessionPacket c x f).isSome) :
      Move c k b₀ ⟨m, h, some x⟩
        ⟨m, h, some { x with lastSeenCounter := max x.lastSeenCounter f.header.txCounter }⟩
  | online {m : Mac} {h : Hub} {x x₀ : Session} (e : Env) (senderMac : Mac) (data : Bytes)
      (rssi : Int) (f : Frame) (hk : k = .frame e senderMac data rssi)
      (hf : parsePacket c data = some f) (hx₀ : b₀.session? = some x₀)
      (hopen : (validateSessionPacket c x₀ f).isSome) (hnormal : x₀.remoteState = .normal)
      (hoffline : x₀.online = false)
      (hlast : x.lastSeenCounter = max x₀.lastSeenCounter f.header.txCounter) :
      Move c k b₀ ⟨m, h, some x⟩ ⟨m, h, some { x with lastSeenCounter := f.header.txCounter }⟩
  | publish {m : Mac} {h : Hub} {x x₀ : Session} (f : Frame) (view : EntityPayload)
      (entity : EntitySchema) (value : Bytes) (nextHop : Mac)
      (hbrings : BringsState c k b₀ x₀ f view) (hkey : x.sessionKey = x₀.sessionKey)
      (hbefore : h.publications = b₀.hub.publications)
      (hnew : counterIsNewer (messageBase f view) x₀.lastCompletedStateMessageTxBase) :
      Move c k b₀ ⟨m, h, some x⟩
        ⟨m, h.note (.publishState x.sessionKey (messageBase f view) entity value nextHop), some x⟩
  | commandFragment {m : Mac} {h : Hub} {x x₀ : Session} (e : Env) (index : UInt8) (value : Bytes)
      (n : Nat) (hk : k = .command e index value) (hx₀ : b₀.session? = some x₀)
      (hn : n < chunkCount value.length x.limits.maxEntityFragment)
      (htx : x.txCounter = x₀.txCounter + UInt32.ofNat n) (hvalid : x.sessionKeyValid) :
      Move c k b₀ ⟨m, h, some x⟩
        ⟨m, h.note (.encrypt .command x.sessionKey x.txCounter (x.fragmentBytes index value n)),
          some x.bumpTxCounter⟩
  | stateAck {m : Mac} {h : Hub} {x : Session} (base : UInt32) (hvalid : x.sessionKeyValid)
      (hdue : AckDue c k b₀ x.sessionKey base) :
      Move c k b₀ ⟨m, h, some x⟩
        ⟨m, h.note (.encrypt .ack x.sessionKey x.txCounter (Ack.bytes ⟨ackState, 0, base⟩)),
          some x.bumpTxCounter⟩
  -- availability
  | hops {m : Mac} {h : Hub} {x x₀ : Session} (e : Env) (senderMac : Mac) (data : Bytes)
      (rssi : Int) (f : Frame) (hk : k = .frame e senderMac data rssi)
      (hf : parsePacket c data = some f) (hx₀ : b₀.session? = some x₀) (hcore : x.core = x₀.core)
      (hvalid : x₀.sessionKeyValid)
      (htype : f.type? = some .state ∨ f.type? = some .heartbeat ∨ f.type? = some .ack)
      (hchanged : hopsCount f.header.hopCount ≠ x₀.link.hopsToBridge) :
      Move c k b₀ ⟨m, h, some x⟩ ⟨m, h.note (.availability true .hopCountChanged), some x⟩
  | up {m : Mac} {h : Hub} {x : Session} (e : Env) (senderMac : Mac) (data : Bytes) (rssi : Int)
      (f : Frame) (reason : Reason) (hk : k = .frame e senderMac data rssi)
      (hf : parsePacket c data = some f) (hopen : (validateSessionPacket c x f).isSome) :
      Move c k b₀ ⟨m, h, some x⟩ ⟨m, h.note (.availability true reason),
        some { x with online := true, remoteState := .normal }⟩
  | down {m : Mac} {h : Hub} {x : Session} (reason : Reason) (hk : k.isFrame = false) :
      Move c k b₀ ⟨m, h, some x⟩ ⟨m, h.note (.availability false reason),
        some { x with online := false, remoteState := .none }⟩
  | giveUp {m : Mac} {h : Hub} {x : Session} (e : Env) (p : PendingCommand) (y : Session)
      (hk : k = .loop e) (hp : p ∈ (b₀.beforeQueues c e).hub.commandQueue)
      (hlimit : maxRetries ≤ p.retryCount) (hy : (b₀.beforeQueues c e).session? = some y)
      (hstate : x.remoteState = y.remoteState) :
      Move c k b₀ ⟨m, h, some x⟩
        ⟨m, h.note (.availability false .timeout), some { x with online := false }⟩
  | confirmed {m : Mac} {h : Hub} {x : Session} (e : Env) (base : UInt32) (mac : Mac)
      (hk : k = .confirmState e base mac)
      (hnew : counterIsNewer base x.lastCompletedStateMessageTxBase) :
      Move c k b₀ ⟨m, h, some x⟩ ⟨m, h, some { x with lastCompletedStateMessageTxBase := base }⟩
  -- the retry queues
  | queueCommand {m : Mac} {h : Hub} {x x₀ : Session} (p : PendingCommand) (hvalid : x.sessionKeyValid)
      (hsent : ∀ n < chunkCount p.value.length x.limits.maxEntityFragment,
        .encrypt .command x.sessionKey (p.txBase + UInt32.ofNat n)
          (x.fragmentBytes p.fieldIndex p.value n) ∈ h.effects)
      (hk : ∃ e, k = .command e p.fieldIndex p.value) (hx₀ : b₀.session? = some x₀)
      (hbase : p.txBase = x₀.txCounter) :
      Move c k b₀ ⟨m, h, some x⟩ ⟨m, { h with commandQueue := h.commandQueue ++ [p] }, some x⟩
  | queueConfig {m : Mac} {h : Hub} {x : Session} (p : PendingConfig) (hvalid : x.sessionKeyValid)
      (hsent : .encrypt .config x.sessionKey p.txBase (configBytes p.command p.payload) ∈ h.effects) :
      Move c k b₀ ⟨m, h, some x⟩ ⟨m, { h with pendingConfigs := h.pendingConfigs ++ [p] }, some x⟩
  | retryCommand {m : Mac} {h : Hub} {x : Session} (p : PendingCommand) (hp : p ∈ h.commandQueue)
      (hvalid : x.sessionKeyValid) (n : Nat)
      (hn : n < chunkCount p.value.length x.limits.maxEntityFragment) (hk : ∃ e, k = .loop e) :
      Move c k b₀ ⟨m, h, some x⟩
        ⟨m, h.note (.encrypt .command x.sessionKey (p.txBase + UInt32.ofNat n)
          (x.fragmentBytes p.fieldIndex p.value n)), some x⟩
  | retryConfig {m : Mac} {h : Hub} {x : Session} (p : PendingConfig) (hp : p ∈ h.pendingConfigs)
      (hvalid : x.sessionKeyValid) :
      Move c k b₀ ⟨m, h, some x⟩
        ⟨m, h.note (.encrypt .config x.sessionKey p.txBase (configBytes p.command p.payload)),
          some x⟩
  | queues {m : Mac} {h : Hub} {x? : Option Session} (commands : List PendingCommand)
      (configs : List PendingConfig)
      (hcommands : ∀ p ∈ commands, ∃ q ∈ h.commandQueue, p.content = q.content)
      (hconfigs : ∀ p ∈ configs, ∃ q ∈ h.pendingConfigs, p.content = q.content) :
      Move c k b₀ ⟨m, h, x?⟩
        ⟨m, { h with commandQueue := commands, pendingConfigs := configs }, x?⟩

/-- Sequences of moves. -/
abbrev Moves (c : Crypto) (k : Call) (b₀ : Bridge) : Bridge → Bridge → Prop :=
  Relation.ReflTransGen (Move c k b₀)

theorem Sends.moves {c : Crypto} {k : Call} {b₀ b b' : Bridge} (h : Sends c b b') :
    Moves c k b₀ b b' := Relation.ReflTransGen.mono (fun _ _ h => Move.send h) b b' h

/-- What a sender leaves as it was: the queues, and all of the session's core but its counter. -/
theorem Sends.kept {c : Crypto} {b b' : Bridge} (h : Sends c b b') :
    b.hub.effects <:+ b'.hub.effects ∧ b'.hub.commandQueue = b.hub.commandQueue ∧
      b'.hub.pendingConfigs = b.hub.pendingConfigs ∧ b'.leafMac = b.leafMac ∧
      (b.session? = none → b'.session? = none) ∧
      ∀ x, b.session? = some x →
        ∃ x', b'.session? = some x' ∧ x'.core = { x.core with txCounter := x'.txCounter, drawn := x'.drawn } := by
  induction h with
  | refl => exact ⟨List.suffix_refl _, rfl, rfl, rfl, id, fun x hx => ⟨x, hx, rfl⟩⟩
  | tail _ hstep ih =>
    obtain ⟨heff, hcommands, hconfigs, hmac, hnone, hsome⟩ := ih
    cases hstep with
    | hub heff' hcommands' hconfigs' =>
      exact ⟨by rw [heff']; exact heff, hcommands'.trans hcommands, hconfigs'.trans hconfigs, hmac,
        hnone, hsome⟩
    | note eff _ =>
      exact ⟨heff.trans (List.suffix_cons _ _), hcommands, hconfigs, hmac, hnone, hsome⟩
    | session hcore =>
      refine ⟨heff, hcommands, hconfigs, hmac, (fun h => by cases hnone h), fun x hx => ?_⟩
      obtain ⟨y, hy, hxy⟩ := hsome x hx
      cases hy
      refine ⟨_, rfl, ?_⟩
      rw [hcore, hxy]
      exact congrArg₂ (fun n d => { x.core with txCounter := n, drawn := d })
        (congrArg Core.txCounter hcore).symm (congrArg Core.drawn hcore).symm
    | bump =>
      refine ⟨heff, hcommands, hconfigs, hmac, (fun h => by cases hnone h), fun x hx => ?_⟩
      obtain ⟨y, hy, hxy⟩ := hsome x hx
      cases hy
      exact ⟨_, rfl, congrArg (fun k => { k with txCounter := k.txCounter + 1, drawn := k.drawn + 1 }) hxy⟩
    | encrypt type plaintext _ =>
      refine ⟨heff.trans (List.suffix_cons _ _), hcommands, hconfigs, hmac, (fun h => by cases hnone h),
        fun x hx => ?_⟩
      obtain ⟨y, hy, hxy⟩ := hsome x hx
      cases hy
      exact ⟨_, rfl, congrArg (fun k => { k with txCounter := k.txCounter + 1, drawn := k.drawn + 1 }) hxy⟩

/-- The same for a sender that works on a session. -/
theorem Sends.core {c : Crypto} {m m' : Mac} {h h' : Hub} {x x' : Session}
    (hs : Sends c ⟨m, h, some x⟩ ⟨m', h', some x'⟩) :
    x'.core = { x.core with txCounter := x'.txCounter, drawn := x'.drawn } := by
  obtain ⟨y, hy, hxy⟩ := hs.kept.2.2.2.2.2 x rfl
  cases hy
  exact hxy

/-! ## Sending -/

section

variable {c : Crypto} {e : Env} {m : Mac} {h : Hub} {x : Session} {x? : Option Session}

theorem session_sends (x x' : Session) (hcore : x'.core = x.core) :
    Sends c ⟨m, h, some x⟩ ⟨m, h, some x'⟩ := .single (.session hcore)

/-- A plain frame goes out without a look at the session. -/
theorem sendPlainPsk_sends (mac leafMac : Mac) (type : PacketType) (tx : UInt32) (payload : Bytes)
    (htype : isDownlink type) :
    Sends c ⟨m, h, x?⟩ ⟨m, (sendPlainPsk c e h mac leafMac type tx payload).1, x?⟩ :=
  .single (.note _ rfl ⟨_, .plain leafMac type tx payload htype, rfl⟩)

/-- An encrypted frame takes the next counter of the session. -/
theorem sendEncrypted_sends (mac : Mac) (type : PacketType) (plaintext : Bytes)
    (htype : isDownlink type) (hcommand : type ≠ .command) :
    Sends c ⟨m, h, some x⟩ ⟨m, (sendEncrypted c e h mac x type downHop plaintext).1,
      some (sendEncrypted c e h mac x type downHop plaintext).2.1⟩ := by
  have hack : type ≠ .ack := by
    rintro rfl
    cases htype
  unfold sendEncrypted
  split
  · exact .refl
  · next hvalid =>
    split
    · exact .refl
    · dsimp only [sealAndSend]
      split
      · exact .single .bump
      · refine .tail (.single (.encrypt type plaintext hack (by simpa using hvalid) hcommand)) ?_
        exact .note _ rfl ⟨_, .sealed x.sessionKey x.leafMac type x.txCounter _ htype, rfl⟩

theorem holdSlot_sends (mac : Mac) : Sends c ⟨m, h, x?⟩ ⟨m, h.holdSlot e mac, x?⟩ := by
  unfold Hub.holdSlot
  split
  · exact .refl
  · exact .single (.hub rfl rfl rfl rfl)

theorem sendJoinAck_sends (mac : Mac) (accepted reason stage : UInt8) :
    Sends c ⟨m, h, some x⟩ ⟨m, (sendJoinAck c e h mac x accepted reason stage).1,
      some (sendJoinAck c e h mac x accepted reason stage).2.1⟩ := by
  unfold sendJoinAck
  by_cases haccepted : accepted ≠ 0
  · dsimp only
    rw [if_pos haccepted, if_pos haccepted]
    have hprogress : Sends c ⟨m, h, some x⟩
        ⟨m, h, some { x with join := { x.join with inProgress := true } }⟩ := .single (.session rfl)
    exact hprogress.trans ((holdSlot_sends (e := e) x.leafMac).trans
      (.tail (sendPlainPsk_sends _ _ _ _ _ rfl) .bump))
  · dsimp only
    rw [if_neg haccepted, if_neg haccepted]
    exact .tail (sendPlainPsk_sends _ _ _ _ _ rfl) .bump

theorem sendJoinComplete_sends (mac : Mac) (reset : Bool) :
    Sends c ⟨m, h, some x⟩ ⟨m, (sendJoinComplete c e h mac x reset).1,
      some (sendJoinComplete c e h mac x reset).2.1⟩ := by
  have hack := sendJoinAck_sends (c := c) (e := e) (m := m) (h := h) (x := x) mac 1 0 joinStatusComplete
  unfold sendJoinComplete
  generalize sendJoinAck c e h mac x 1 0 joinStatusComplete = o at hack ⊢
  have hfree : Sends c ⟨m, o.1, some o.2.1⟩ ⟨m, o.1.freeSlot, some o.2.1⟩ :=
    .single (.hub rfl rfl rfl rfl)
  exact .tail (hack.trans hfree) (.session rfl)

theorem sendDeauth_sends (mac : Mac) (f : Frame) :
    Sends c ⟨m, h, some x⟩
      ⟨m, (sendDeauth c e h mac x f).1, some (sendDeauth c e h mac x f).2.1⟩ :=
  .tail (sendPlainPsk_sends _ _ _ _ _ rfl) .bump

/-- A state is acknowledged when the call says so. -/
theorem sendStateAck_moves (mac : Mac) (base : UInt32) (hdue : AckDue c k b₀ x.sessionKey base) :
    Moves c k b₀ ⟨m, h, some x⟩
      ⟨m, (sendStateAck c e h mac x base).1, some (sendStateAck c e h mac x base).2.1⟩ := by
  unfold sendStateAck sendEncrypted
  split
  · exact .refl
  · next hvalid =>
    split
    · exact .refl
    · dsimp only [sealAndSend]
      split
      · exact .single (.send .bump)
      next hcrypt =>
        refine .tail (.single (.stateAck base (by simpa using hvalid) hdue)) ?_
        exact .send (.note _ rfl ⟨_, .ack x.sessionKey x.leafMac x.txCounter base _
          List.mem_cons_self hcrypt, rfl⟩)

theorem requestSchema_sends (mac : Mac) (descriptorType index : UInt8) :
    Sends c ⟨m, h, some x⟩ ⟨m, (requestSchema c e h mac x descriptorType index).1,
      some (requestSchema c e h mac x descriptorType index).2.1⟩ :=
  .tail (sendEncrypted_sends _ _ _ rfl (by decide)) (.session rfl)

theorem sendOtaFrame_sends (type : PacketType) (payload : Bytes) :
    Sends c ⟨m, h, some x⟩
      ⟨m, (sendOtaFrame c e h x type payload).1, some (sendOtaFrame c e h x type payload).2.1⟩ := by
  unfold sendOtaFrame
  split
  · exact .refl
  · next hfile =>
    have htype : isDownlink type ∧ type ≠ .ack ∧ type ≠ .command := by
      rcases not_and_or.mp hfile with h | h <;> rw [not_not.mp h] <;> decide
    split
    · exact .refl
    · next hvalid =>
      dsimp only [sendEncryptedWithTxCounterResult, sealAndSend]
      split
      · exact .single .bump
      · split
        · exact .single .bump
        · split
          · exact .single .bump
          · split
            · exact .single .bump
            · refine .tail (.single (.encrypt type payload htype.2.1 (by simpa using hvalid) htype.2.2)) ?_
              exact .note _ rfl ⟨_, .sealed x.sessionKey x.leafMac type x.txCounter _ htype.1, rfl⟩

theorem sendDiscoverAnnounce_sends (mac leafMac : Mac) :
    Sends c ⟨m, h, x?⟩ ⟨m, (sendDiscoverAnnounce c e h mac leafMac).1, x?⟩ :=
  sendPlainPsk_sends _ _ _ _ _ rfl

/-! ## Commands and configuration -/

/-- Encrypting under a counter that is given: nothing, or the effect and a send. -/
theorem sendEncryptedWithTxCounterResult_cases (mac : Mac) (type : PacketType) (tx : UInt32)
    (plaintext : Bytes) (htype : isDownlink type) (o : Hub × SendErr)
    (ho : sendEncryptedWithTxCounterResult c e h mac x type downHop tx plaintext = o) :
    (o.1 = h ∧ o.2 ≠ .ok) ∨ (x.sessionKeyValid ∧ ∃ frame sent,
      (∀ past, Effect.Outgoing c past (.send mac frame sent)) ∧
      o.1 = (h.note (.encrypt type x.sessionKey tx plaintext)).note (.send mac frame sent)) := by
  subst ho
  unfold sendEncryptedWithTxCounterResult sealAndSend
  split
  · exact .inl ⟨rfl, by simp⟩
  · next hvalid =>
    split
    · exact .inl ⟨rfl, by simp⟩
    · split
      · exact .inl ⟨rfl, by simp⟩
      · split
        · exact .inl ⟨rfl, by simp⟩
        · refine .inr ⟨by simpa using hvalid, _, _, ?_, rfl⟩
          exact fun _ => ⟨_, .sealed x.sessionKey x.leafMac type tx _ htype, rfl⟩

/-- The loop writes nothing of the session but its counter. -/
theorem sendCommandLoop_session (mac : Mac) (index : UInt8) (value : Bytes) (txBase : UInt32)
    (consume : Bool) (fragSize count left chunk : Nat) :
    ∃ tx drawn, (sendCommandLoop c e mac index value txBase consume fragSize count left chunk h x).2.1 =
      { x with txCounter := tx, drawn := drawn } := by
  induction left generalizing chunk h x with
  | zero => exact ⟨x.txCounter, x.drawn, rfl⟩
  | succ left ih =>
    rw [sendCommandLoop]
    dsimp only
    obtain ⟨tx, drawn, htaken⟩ : ∃ tx drawn,
        (if consume then x.takeTxCounter (txBase + UInt32.ofNat chunk) else x) =
          { x with txCounter := tx, drawn := drawn } := by
      split
      · exact ⟨_, _, rfl⟩
      · exact ⟨x.txCounter, x.drawn, rfl⟩
    rw [htaken]
    split
    · obtain ⟨tx', drawn', hrest⟩ := ih (chunk + 1)
      exact ⟨tx', drawn', hrest⟩
    · exact ⟨tx, drawn, rfl⟩

/-- What the first transmission of a command leaves as it was. -/
theorem sendCommandLoop_kept (mac : Mac) (index : UInt8) (value : Bytes) (txBase : UInt32)
    (fragSize count left chunk : Nat) (o : Outcome)
    (ho : sendCommandLoop c e mac index value txBase true fragSize count left chunk h x = o) :
    h.effects <:+ o.1.effects ∧
      o.2.1.core = { x.core with txCounter := o.2.1.txCounter, drawn := o.2.1.drawn } := by
  induction left generalizing chunk h x with
  | zero =>
    subst ho
    exact ⟨List.suffix_refl _, rfl⟩
  | succ left ih =>
    simp only [sendCommandLoop, if_true] at ho
    generalize hone : sendEncryptedWithTxCounterResult c e h mac
      (x.takeTxCounter (txBase + UInt32.ofNat chunk)) .command downHop
      (txBase + UInt32.ofNat chunk) (commandFragment index value fragSize count chunk).bytes = one at ho
    have heff : h.effects <:+ one.1.effects := by
      obtain ⟨hhub, -⟩ | ⟨-, frame, sent, -, hhub⟩ :=
        sendEncryptedWithTxCounterResult_cases _ _ _ _ rfl _ hone
      · rw [hhub]
      · rw [hhub]
        exact (List.suffix_cons _ _).trans (List.suffix_cons _ _)
    split at ho
    · obtain ⟨heff', hcore⟩ := ih (chunk + 1) ho
      exact ⟨heff.trans heff', hcore⟩
    · subst ho
      exact ⟨heff, rfl⟩

/-- When it succeeds, every fragment was encrypted. -/
theorem sendCommandLoop_sent (mac : Mac) (index : UInt8) (value : Bytes) (txBase : UInt32)
    (fragSize count left chunk : Nat) (htx : x.txCounter = txBase + UInt32.ofNat chunk)
    (o : Outcome)
    (ho : sendCommandLoop c e mac index value txBase true fragSize count left chunk h x = o)
    (hsent : o.2.2 = true) (n : Nat) (hle : chunk ≤ n) (hlt : n < chunk + left) :
    .encrypt .command x.sessionKey (txBase + UInt32.ofNat n)
      (commandFragment index value fragSize count n).bytes ∈ o.1.effects := by
  induction left generalizing chunk h x with
  | zero => omega
  | succ left ih =>
    have hnext : x.takeTxCounter (txBase + UInt32.ofNat chunk) = x.bumpTxCounter := by
      rw [Session.takeTxCounter, Session.bumpTxCounter, htx]
    have htx' : x.bumpTxCounter.txCounter = txBase + UInt32.ofNat (chunk + 1) := by
      rw [Session.bumpTxCounter, htx, UInt32.ofNat_add, UInt32.add_assoc]
      rfl
    simp only [sendCommandLoop, if_true] at ho
    rw [hnext] at ho
    generalize hone : sendEncryptedWithTxCounterResult c e h mac x.bumpTxCounter .command downHop
      (txBase + UInt32.ofNat chunk) (commandFragment index value fragSize count chunk).bytes = one at ho
    split at ho
    · next hok =>
      by_cases hn : n = chunk
      · subst hn
        obtain ⟨-, hfail⟩ | ⟨-, frame, sent, -, hhub⟩ :=
          sendEncryptedWithTxCounterResult_cases _ _ _ _ rfl _ hone
        · exact absurd hok hfail
        · -- the effect is in the hub that the rest of the loop starts from
          refine (sendCommandLoop_kept _ _ _ _ _ _ _ _ _ ho).1.mem ?_
          rw [hhub]
          simp [Hub.note, Session.bumpTxCounter]
      · exact ih (x := x.bumpTxCounter) (chunk + 1) htx' ho (by omega) (by omega)
    · rw [← ho] at hsent
      cases hsent

variable {k : Call} {b₀ : Bridge}

/-- The first transmission of a command takes the session's counters one by one. -/
theorem sendCommandLoop_moves {x₀ : Session} (mac : Mac) (index : UInt8) (value : Bytes)
    (left chunk : Nat) (hk : ∃ e, k = .command e index value) (hx₀ : b₀.session? = some x₀)
    (hle : chunk + left ≤ chunkCount value.length x.limits.maxEntityFragment)
    (htx : x.txCounter = x₀.txCounter + UInt32.ofNat chunk) (o : Outcome)
    (ho : sendCommandLoop c e mac index value x₀.txCounter true x.limits.maxEntityFragment
      (chunkCount value.length x.limits.maxEntityFragment) left chunk h x = o) :
    Moves c k b₀ ⟨m, h, some x⟩ ⟨m, o.1, some o.2.1⟩ := by
  induction left generalizing chunk h x with
  | zero =>
    subst ho
    exact .refl
  | succ left ih =>
    simp only [sendCommandLoop, if_true] at ho
    have hnext : x.takeTxCounter (x₀.txCounter + UInt32.ofNat chunk) = x.bumpTxCounter := by
      rw [Session.takeTxCounter, Session.bumpTxCounter, htx]
    rw [hnext] at ho
    generalize hone : sendEncryptedWithTxCounterResult c e h mac x.bumpTxCounter .command downHop
      (x₀.txCounter + UInt32.ofNat chunk) _ = one at ho
    have hmoves : Moves c k b₀ ⟨m, h, some x⟩ ⟨m, one.1, some x.bumpTxCounter⟩ := by
      obtain ⟨hhub, -⟩ | ⟨hvalid, frame, sent, hout, hhub⟩ :=
        sendEncryptedWithTxCounterResult_cases _ _ _ _ rfl _ hone
      · rw [hhub]
        exact .single (.send .bump)
      · rw [hhub, ← htx]
        obtain ⟨e', hk⟩ := hk
        refine .tail (.single (.commandFragment e' index value chunk hk hx₀ (by omega) htx hvalid)) ?_
        exact .send (.note _ rfl (hout _))
    split at ho
    · refine hmoves.trans (ih (x := x.bumpTxCounter) (chunk + 1) ?_ ?_ ho)
      · exact (by omega : chunk + 1 + left ≤ chunkCount value.length x.limits.maxEntityFragment)
      · rw [Session.bumpTxCounter, htx, UInt32.ofNat_add, UInt32.add_assoc]
        rfl
    · subst ho
      exact hmoves

/-- A command takes as many counters as it has fragments, and waits in the queue. -/
theorem sendCommand_moves (mac : Mac) (index : UInt8) (value : Bytes) (hvalid : x.sessionKeyValid)
    (hk : ∃ e, k = .command e index value) (hx₀ : b₀.session? = some x) :
    Moves c k b₀ ⟨m, h, some x⟩ ⟨m, (sendCommand c e h mac x index value).1,
      some (sendCommand c e h mac x index value).2.1⟩ := by
  unfold sendCommand sendCommandFragments
  dsimp only
  have htx : x.txCounter = x.txCounter + UInt32.ofNat 0 := by simp
  generalize ho : sendCommandLoop c e mac index value x.txCounter true x.limits.maxEntityFragment
    (chunkCount value.length x.limits.maxEntityFragment)
    (chunkCount value.length x.limits.maxEntityFragment) 0 h x = o
  have hmoves : Moves c k b₀ ⟨m, h, some x⟩ ⟨m, o.1, some o.2.1⟩ :=
    sendCommandLoop_moves mac index value _ 0 hk hx₀ (by simp) htx o ho
  have hsent := sendCommandLoop_sent mac index value x.txCounter _ _ _ 0 htx o ho
  obtain ⟨-, hcore⟩ := sendCommandLoop_kept mac index value x.txCounter _ _ _ 0 o ho
  obtain ⟨h', x', sent⟩ := o
  cases sent with
  | false => exact hmoves
  | true =>
    have hkey : x'.sessionKey = x.sessionKey := congrArg Core.sessionKey hcore
    have hlimits : x'.limits = x.limits := congrArg Core.limits hcore
    refine .tail hmoves (.queueCommand _ ?_ (fun n hn => ?_) hk hx₀ rfl)
    · exact (congrArg Core.sessionKeyValid hcore).trans hvalid
    · rw [hkey, Session.fragmentBytes, hlimits]
      rw [hlimits] at hn
      exact hsent rfl n (Nat.zero_le n) (by simpa using hn)

theorem sendCommandToLeaf_moves (index : UInt8) (value : Bytes)
    (hk : ∃ e, k = .command e index value) (hx₀ : b₀.session? = some x) :
    Moves c k b₀ ⟨m, h, some x⟩ ⟨m, (sendCommandToLeaf c e h x index value).1,
      some (sendCommandToLeaf c e h x index value).2.1⟩ := by
  unfold sendCommandToLeaf
  split
  · exact .refl
  · next hvalid => exact sendCommand_moves _ _ _ (by simp at hvalid; exact hvalid.2) hk hx₀

/-- One frame of a configuration command: nothing, or the effect and a send. -/
theorem sendConfigFrame_cases (p : PendingConfig) (o : Hub × Bool)
    (ho : sendConfigFrame c e h x p = o) :
    (o.1 = h ∧ o.2 = false) ∨ (x.sessionKeyValid ∧ ∃ frame sent,
      (∀ past, Effect.Outgoing c past (.send p.nextHopMac frame sent)) ∧
      o.1 = (h.note (.encrypt .config x.sessionKey p.txBase (configBytes p.command p.payload))).note
        (.send p.nextHopMac frame sent)) := by
  subst ho
  unfold sendConfigFrame
  split
  · exact .inl ⟨rfl, rfl⟩
  · split
    · exact .inl ⟨rfl, rfl⟩
    · dsimp only
      obtain ⟨hhub, herr⟩ | ⟨hvalid, hsend⟩ := sendEncryptedWithTxCounterResult_cases
        (c := c) (e := e) (h := h) (x := x) p.nextHopMac .config p.txBase
        (configBytes p.command p.payload) rfl _ rfl
      · exact .inl ⟨hhub, by simpa using herr⟩
      · exact .inr ⟨hvalid, hsend⟩

theorem sendConfigToLeaf_moves (cmd : UInt8) (payload : Bytes) :
    Moves c k b₀ ⟨m, h, some x⟩ ⟨m, (sendConfigToLeaf c e h x cmd payload).1,
      some (sendConfigToLeaf c e h x cmd payload).2.1⟩ := by
  unfold sendConfigToLeaf
  split
  · exact .refl
  · split
    · exact .refl
    · dsimp only
      generalize ho : sendConfigFrame c e h x.bumpTxCounter _ = o
      obtain ⟨hhub, herr⟩ | ⟨hvalid, frame, sent, hout, hhub⟩ := sendConfigFrame_cases _ _ ho
      · rw [herr, hhub]
        exact .single (.send .bump)
      · have hsends : Moves c k b₀ ⟨m, h, some x⟩ ⟨m, o.1, some x.bumpTxCounter⟩ := by
          rw [hhub]
          exact .tail (.single (.send (.encrypt .config _ (by decide) hvalid (by decide))))
            (.send (.note _ rfl (hout _)))
        split
        · refine .tail hsends (.queueConfig _ hvalid ?_)
          rw [hhub]
          simp [Hub.note, Session.bumpTxCounter]
        · exact hsends

/-! ## Joins -/

/-- Taking the slot has no effects. -/
theorem holdSlot_effects (accepted : UInt8) (mac : Mac) :
    (if accepted ≠ 0 then h.holdSlot e mac else h).effects = h.effects := by
  unfold Hub.holdSlot
  split
  · split <;> rfl
  · rfl

/-- An answer to a `JOIN` that could not be sent. -/
theorem sendJoinAck_fails (mac : Mac) (accepted reason stage : UInt8)
    (hfail : (sendJoinAck c e h mac x accepted reason stage).2.2 = false) :
    e.sendErr h.effects.length ≠ .ok := by
  dsimp only [sendJoinAck, sendPlainPsk, Hub.transmit] at hfail
  rw [holdSlot_effects] at hfail
  simpa using hfail

theorem sendJoinAck_effects (mac : Mac) (accepted reason stage : UInt8) :
    (sendJoinAck c e h mac x accepted reason stage).1.effects.length = h.effects.length + 1 := by
  dsimp only [sendJoinAck, sendPlainPsk, Hub.transmit, Hub.note, List.length_cons]
  rw [holdSlot_effects]

/-- The same for the request that follows it. -/
theorem requestSchema_fails (mac : Mac) (descriptorType index : UInt8) (hvalid : x.sessionKeyValid)
    (hsize : 2 ≤ maxPlaintext x.sessionMaxPayload) (hpsk : c.psk.isSome)
    (hfail : (requestSchema c e h mac x descriptorType index).2.2 = false) :
    e.sendErr (h.effects.length + 1) ≠ .ok := by
  have hshort : ¬ maxPlaintext x.sessionMaxPayload < (SchemaRequest.bytes ⟨descriptorType, index⟩).length :=
    not_lt.mpr hsize
  obtain ⟨key, hkey⟩ := Option.isSome_iff_exists.mp hpsk
  simp only [requestSchema, sendSchemaRequest, sendEncrypted, hvalid, not_true_eq_false, if_false,
    hshort, sealAndSend, Crypto.crypt, hkey, Hub.transmit, Hub.note, List.length_cons] at hfail
  simpa using hfail

variable {senderMac : Mac} {data : Bytes} {rssi : Int} {f : Frame}

/-- Nothing is parsed without a pre-shared key. -/
theorem psk_of_parsePacket (hf : parsePacket c data = some f) : c.psk.isSome := by
  obtain ⟨-, hvalid⟩ := Option.filter_eq_some_iff.mp hf
  exact (Bool.and_eq_true_iff.mp hvalid).1

/-- A `JOIN` that cannot be answered leaves the leaf offline. -/
theorem abandonJoin_moves (x : Session) (hjoins : Joins c k b₀ e senderMac data rssi f)
    (honline : x.online = b₀.ensureSession.online)
    (hlost : AnswerLost e b₀.hub b₀.ensureSession (Join.parse f.payload)) :
    Moves c k b₀ ⟨m, h, some x⟩ ⟨m, h, some x.abandonJoin⟩ := by
  refine .trans (.single (.abandon e senderMac data rssi f hjoins honline hlost)) ?_
  exact .tail (.single .invalidate) (.send (.session (by rfl)))

theorem joinCached_moves (mac : Mac) (hjoins : Joins c k b₀ e senderMac data rssi f)
    (hhub : h = b₀.hub) (honline : x.online = b₀.ensureSession.online)
    (hcached : h.schemaHashCache.lookup b₀.ensureSession.cacheKey =
      some (Join.parse f.payload).schemaHash) :
    Moves c k b₀ ⟨m, h, some x⟩ ⟨m, (joinCached c e h x mac (Join.parse f.payload).dirtyCount).1,
      some (joinCached c e h x mac (Join.parse f.payload).dirtyCount).2.1⟩ := by
  unfold joinCached
  dsimp only
  refine .trans (.single (.send (.note (.schemaComplete x.schema.totalEntities) rfl trivial))) ?_
  split
  · exact (sendJoinComplete_sends _ _).moves
  · next hdirty =>
    set y : Session := { x with join := { x.join with
      stateSyncPending := true, awaitingMoreDirty := true } }
    refine .trans (session_sends x y rfl).moves ?_
    have hack := sendJoinAck_sends (c := c) (e := e) (m := m)
      (h := h.note (.schemaComplete x.schema.totalEntities)) (x := y) mac 1 0 joinStatusSendState
    have hfails := sendJoinAck_fails (c := c) (e := e)
      (h := h.note (.schemaComplete x.schema.totalEntities)) (x := y) mac 1 0 joinStatusSendState
    split
    next hsent =>
      rw [hsent] at hack
      exact hack.moves
    next hsent =>
      rw [hsent] at hack hfails
      refine hack.moves.trans (abandonJoin_moves _ hjoins ?_ ?_)
      · exact (congrArg Core.online hack.core).trans honline
      · subst hhub
        rw [AnswerLost, if_pos hcached]
        exact ⟨hdirty, hfails rfl⟩

theorem joinUncached_moves (mac : Mac) (hjoins : Joins c k b₀ e senderMac data rssi f)
    (hhub : h = b₀.hub) (honline : x.online = b₀.ensureSession.online) (hvalid : x.sessionKeyValid)
    (hsize : 2 ≤ maxPlaintext x.sessionMaxPayload)
    (hcached : h.schemaHashCache.lookup b₀.ensureSession.cacheKey ≠
      some (Join.parse f.payload).schemaHash) :
    Moves c k b₀ ⟨m, h, some x⟩ ⟨m, (joinUncached c e h x mac).1,
      some (joinUncached c e h x mac).2.1⟩ := by
  have hlost (hsend : e.sendErr h.effects.length ≠ .ok ∨ e.sendErr (h.effects.length + 2) ≠ .ok) :
      AnswerLost e b₀.hub b₀.ensureSession (Join.parse f.payload) := by
    subst hhub
    rw [AnswerLost, if_neg hcached]
    exact hsend
  unfold joinUncached
  dsimp only
  set y : Session := { x with schema := { x.schema with
    entities := [], received := false, pendingDescriptorType := descriptorTypeIdentity,
    pendingIndex := 0 } }
  refine .trans (session_sends x y rfl).moves ?_
  have hack := sendJoinAck_sends (c := c) (e := e) (m := m) (h := h) (x := y) mac 1 0
    joinStatusSchemaRefresh
  have hfails := sendJoinAck_fails (c := c) (e := e) (h := h) (x := y) mac 1 0 joinStatusSchemaRefresh
  have heffects := sendJoinAck_effects (c := c) (e := e) (h := h) (x := y) mac 1 0
    joinStatusSchemaRefresh
  split
  next hsent =>
    rw [hsent] at hack hfails
    refine hack.moves.trans (abandonJoin_moves _ hjoins ?_ (hlost (.inl (hfails rfl))))
    exact (congrArg Core.online hack.core).trans honline
  next h' y' hsent =>
    rw [hsent] at hack heffects
    have hrequest := requestSchema_sends (c := c) (e := e) (m := m) (h := h') (x := y') mac
      descriptorTypeIdentity 0
    have hvalid' : y'.sessionKeyValid := (congrArg Core.sessionKeyValid hack.core).trans hvalid
    have hsize' : 2 ≤ maxPlaintext y'.sessionMaxPayload :=
      hsize.trans_eq (congrArg maxPlaintext (congrArg Core.sessionMaxPayload hack.core)).symm
    have hrequestFails := requestSchema_fails (c := c) (e := e) (h := h') mac descriptorTypeIdentity 0
      hvalid' hsize' (psk_of_parsePacket hjoins.parsed)
    rw [show h'.effects.length = h.effects.length + 1 from heffects] at hrequestFails
    split
    next hsent' =>
      rw [hsent'] at hrequest hrequestFails
      refine hack.moves.trans (hrequest.moves.trans
        (abandonJoin_moves _ hjoins ?_ (hlost (.inr (hrequestFails rfl)))))
      exact (congrArg Core.online hrequest.core).trans ((congrArg Core.online hack.core).trans honline)
    next hsent' =>
      rw [hsent'] at hrequest
      exact hack.moves.trans hrequest.moves

/-- A `JOIN` sets the key, and starts the counters of what is received anew. -/
theorem rekey_core (join : Join) (nonce : Nonce) (f : Frame) (senderMac : Mac) (rssi : Int) :
    (x.rekey c e h join nonce f senderMac rssi).core = { x.core with
      remoteNonce := join.remoteNonce
      bridgeNonce := nonce
      sessionKey := c.deriveSessionKey nonce join.remoteNonce
      sessionKeyValid := true
      lastSeenCounter := f.header.txCounter
      sessionMaxPayload := (negotiated join.sessionFlags h.config.sessionFlags).1
      limits := (negotiated join.sessionFlags h.config.sessionFlags).2
      leafSessionFlags := join.sessionFlags
      lastCompletedStateMessageTxBase := 0
      remoteState := .joined } := by
  unfold Session.rekey Session.negotiate negotiated
  dsimp only
  split <;> rfl

/-- A session that takes over the cached schema, and the payload size with it. -/
theorem restore_moves (key : Bytes) (hjoins : Joins c k b₀ e senderMac data rssi f)
    (hhub : h = b₀.hub) :
    Moves c k b₀ ⟨m, h, some x⟩ ⟨m, h, some (x.restore (h.schemaCache.lookup key))⟩ := by
  cases hcached : h.schemaCache.lookup key with
  | none => exact (session_sends _ _ (by rfl)).moves
  | some cached =>
    exact .tail (.single (.restored e senderMac data rssi f key cached hjoins hhub hcached))
      (.send (.session (by rfl)))

theorem negotiated_size (leafFlags bridgeFlags : UInt8) :
    2 ≤ maxPlaintext (negotiated leafFlags bridgeFlags).1 := by
  unfold negotiated
  split <;> decide

/-- The key of the schema caches does not change with the session key. -/
theorem freshJoin_cacheKey (x y : Session) (hmac : y.leafMac = x.leafMac)
    (hname : y.schema.identity.esphomeName = []) :
    (if x.schema.identity.esphomeName.isEmpty then y.cacheKey else x.schema.identity.esphomeName) =
      x.cacheKey := by
  rw [Session.cacheKey, Session.cacheKey, hname, hmac]
  rfl

/-- A `JOIN` that is no repetition sets a key and is answered, from the cache or with a request for
the schema. -/
theorem freshJoin_moves (hjoins : Joins c k b₀ e senderMac data rssi f) (hhub : h = b₀.hub)
    (hsame : x = b₀.ensureSession) :
    Moves c k b₀ ⟨m, h, some x⟩ ⟨m, (freshJoin c e h x senderMac f rssi).1,
      some (freshJoin c e h x senderMac f rssi).2.1⟩ := by
  have hcore := rekey_core (c := c) (e := e) (h := h) (x := x) (Join.parse f.payload) e.nonce f
    senderMac rssi
  have hrekey : Moves c k b₀ ⟨m, h, some x⟩
      ⟨m, h, some (x.rekey c e h (Join.parse f.payload) e.nonce f senderMac rssi)⟩ :=
    .single (.rekey e senderMac data rssi f hjoins hhub hcore)
  have hschema : (x.rekey c e h (Join.parse f.payload) e.nonce f senderMac rssi).schema.identity.esphomeName
      = [] ∧ (x.rekey c e h (Join.parse f.payload) e.nonce f senderMac rssi).schema.hash =
        (Join.parse f.payload).schemaHash := by
    unfold Session.rekey Session.negotiate
    dsimp only
    split <;> exact ⟨rfl, rfl⟩
  unfold freshJoin
  dsimp only
  refine hrekey.trans ?_
  generalize x.rekey c e h (Join.parse f.payload) e.nonce f senderMac rssi = y at hcore hschema ⊢
  have honline : y.online = b₀.ensureSession.online := by
    rw [← hsame]
    exact congrArg Core.online hcore
  have hvalid : y.sessionKeyValid := congrArg Core.sessionKeyValid hcore
  have hsize : 2 ≤ maxPlaintext y.sessionMaxPayload :=
    (negotiated_size _ _).trans_eq (congrArg maxPlaintext (congrArg Core.sessionMaxPayload hcore)).symm
  rw [freshJoin_cacheKey x y (congrArg Core.leafMac hcore) hschema.1, hschema.2, hsame]
  split
  · next hcached =>
    refine .trans (restore_moves _ hjoins hhub) (joinCached_moves _ hjoins hhub ?_ hcached)
    cases h.schemaCache.lookup b₀.ensureSession.cacheKey <;> exact honline
  · next hcached => exact joinUncached_moves _ hjoins hhub honline hvalid hsize hcached

/-- A `JOIN` is dropped, answered once more, or fresh. -/
theorem handleJoin_moves (hk : k = .frame e senderMac data rssi) (hf : parsePacket c data = some f)
    (htype : f.type? = some .join) (hsize : f.payload.length = Join.size) (hhub : h = b₀.hub)
    (hsame : x = b₀.ensureSession) :
    Moves c k b₀ ⟨m, h, some x⟩ ⟨m, (handleJoin c e h x senderMac f rssi).1,
      some (handleJoin c e h x senderMac f rssi).2.1⟩ := by
  unfold handleJoin
  dsimp only
  split
  · exact (sendJoinAck_sends _ _ _ _).moves
  · next hslot =>
    split
    · next hretry =>
      refine .trans (.single (.rejoin e senderMac data rssi f hk hf htype hsame hretry)) ?_
      refine .trans ?_ (sendJoinAck_sends _ _ _ _).moves
      exact (session_sends _ _ (by rfl)).moves
    · next hfresh =>
      exact freshJoin_moves ⟨hk, hf, htype, hsize, hhub ▸ hslot, hsame ▸ hfresh⟩ hhub hsame

/-! ## Schema -/

theorem publishDiscovery_sends (total : UInt8) (entity : EntitySchema) :
    Sends c ⟨m, h, x?⟩ ⟨m, h.publishDiscovery total entity, x?⟩ := by
  unfold Hub.publishDiscovery
  split
  · exact .refl
  · exact .single (.note _ rfl trivial)

theorem publishAllEntities_sends (x : Session) :
    Sends c ⟨m, h, x?⟩ ⟨m, h.publishAllEntities x, x?⟩ := by
  unfold Hub.publishAllEntities
  generalize x.schema.entities = entities
  induction entities generalizing h with
  | nil => exact .refl
  | cons entity rest ih => exact (publishDiscovery_sends _ _).trans ih

theorem schemaArrived_sends (mac : Mac) (sync : Bool) :
    Sends c ⟨m, h, some x⟩ ⟨m, (schemaArrived c e h x mac sync).1,
      some (schemaArrived c e h x mac sync).2.1⟩ := by
  unfold schemaArrived
  dsimp only
  set y : Session := { x with schema := { x.schema with
    received := true, requestInFlight := false, pendingIndex := 0xFF,
    pendingDescriptorType := descriptorTypeEntity } }
  have hcache : Sends c ⟨m, h, some y⟩ ⟨m, h.refreshSchemaCache y, some y⟩ :=
    .single (.hub rfl rfl rfl rfl)
  refine (session_sends x y rfl).trans (hcache.trans (.trans
    (.tail (publishAllEntities_sends y) (.note (.schemaComplete y.schema.totalEntities) rfl trivial)) ?_))
  split
  · refine .trans ?_ (sendJoinAck_sends _ _ _ _)
    exact session_sends _ _ (by rfl)
  · exact sendJoinComplete_sends _ _

theorem identityArrived_sends (mac : Mac) (identity : Identity) (total : UInt8) :
    Sends c ⟨m, h, some x⟩ ⟨m, (identityArrived c e h x mac identity total).1,
      some (identityArrived c e h x mac identity total).2.1⟩ := by
  unfold identityArrived
  dsimp only
  set y : Session := { x with schema := { x.schema with
    identity := identity
    totalEntities := total
    pendingDescriptorType := descriptorTypeEntity
    pendingIndex := 0
    requestRetries := 0 } }
  refine (session_sends x y rfl).trans ?_
  have hclear : Sends c ⟨m, h, some y⟩
      ⟨m, if y.schema.entities.isEmpty then h else h.note (.clearEntities y.schema.entities),
        some y⟩ := by
    split
    · exact .refl
    · exact .single (.note _ rfl trivial)
  generalize (if y.schema.entities.isEmpty then h else _) = h' at hclear ⊢
  refine hclear.trans ?_
  split
  · exact schemaArrived_sends _ _
  · exact requestSchema_sends _ _ _

theorem entityArrived_sends (mac : Mac) (entity : EntitySchema) (total : UInt8) :
    Sends c ⟨m, h, some x⟩ ⟨m, (entityArrived c e h x mac entity total).1,
      some (entityArrived c e h x mac entity total).2.1⟩ := by
  unfold entityArrived
  dsimp only
  split
  · refine .trans ?_ (schemaArrived_sends _ _)
    exact session_sends _ _ (by rfl)
  · split
    · refine .trans ?_ (schemaArrived_sends _ _)
      exact session_sends _ _ (by rfl)
    · refine .trans ?_ (requestSchema_sends _ _ _)
      exact .trans (publishDiscovery_sends _ _) (session_sends _ _ (by rfl))

/-- A descriptor changes the schema, and may ask for the next one. -/
theorem schemaMessage_sends (mac : Mac) (message : Bytes) :
    Sends c ⟨m, h, some x⟩ ⟨m, (schemaMessage c e h x mac message).1,
      some (schemaMessage c e h x mac message).2.1⟩ := by
  unfold schemaMessage
  split
  · exact .refl
  · split
    · split
      · exact .refl
      · exact identityArrived_sends _ _ _
    · split
      · exact .refl
      · exact entityArrived_sends _ _ _

theorem handleSchemaPush_moves (hk : k = .frame e senderMac data rssi)
    (hf : parsePacket c data = some f) :
    Moves c k b₀ ⟨m, h, some x⟩ ⟨m, (handleSchemaPush c e h x senderMac f).1,
      some (handleSchemaPush c e h x senderMac f).2.1⟩ := by
  unfold handleSchemaPush
  split
  · exact .refl
  · split
    · exact .refl
    · next view hview =>
      have hopen : (validateSessionPacket c x f).isSome := by
        obtain ⟨plaintext, hplain, -⟩ := Option.bind_eq_some_iff.mp hview
        rw [hplain]
        rfl
      dsimp only
      split
      · exact (session_sends _ _ (by rfl)).moves
      · -- the counter is noted first, and the buffers change with the other fields
        have hseen : Moves c k b₀ ⟨m, h, some x⟩ ⟨m, h, some { x with
            lastSeenCounter := max x.lastSeenCounter f.header.txCounter }⟩ :=
          .single (.seenMax e senderMac data rssi f hk hf hopen)
        split
        · exact hseen.trans (session_sends _ _ (by rfl)).moves
        · refine hseen.trans (.trans ?_ (schemaMessage_sends _ _).moves)
          exact (session_sends _ _ (by rfl)).moves

/-! ## States -/

/-- Which frames open depends on the key alone. -/
theorem validateSessionPacket_congr {x y : Session} (hcore : x.core = y.core) (f : Frame) :
    validateSessionPacket c x f = validateSessionPacket c y f := by
  have hvalid : x.sessionKeyValid = y.sessionKeyValid := congrArg Core.sessionKeyValid hcore
  have hkey : x.sessionKey = y.sessionKey := congrArg Core.sessionKey hcore
  rw [validateSessionPacket, validateSessionPacket, hvalid, hkey]

/-- The session is still the one that the call found, up to what it notes about the sender. -/
structure Found (b₀ : Bridge) (x₀ x : Session) : Prop where
  session : b₀.session? = some x₀
  core : x.core = x₀.core

/-- Coming online by a frame that opens, when its counter is noted already. -/
theorem markOnline_moves (hk : k = .frame e senderMac data rssi) (hf : parsePacket c data = some f)
    (hopen : (validateSessionPacket c x f).isSome) (counter : UInt32) (reported : Int)
    (hlast : x.lastSeenCounter = counter) (hnormal : x.remoteState = .normal) :
    Moves c k b₀ ⟨m, h, some x⟩ ⟨m, (markOnline e h x rssi counter reported).1,
      some (markOnline e h x rssi counter reported).2⟩ := by
  subst hlast
  refine .tail (.single (.up e senderMac data rssi f _ hk hf hopen)) (.send (.session ?_))
  rw [← hnormal]
  rfl

/-- A state that is complete is published, and brings the leaf online. -/
theorem stateMessage_moves {x₀ : Session} (hk : k = .frame e senderMac data rssi)
    (hf : parsePacket c data = some f) {view : EntityPayload} (hbrings : BringsState c k b₀ x₀ f view)
    (hcore : x.core = { x₀.core with
      lastSeenCounter := max x₀.lastSeenCounter f.header.txCounter })
    (hbefore : h.publications = b₀.hub.publications)
    (hnew : counterIsNewer (messageBase f view) x₀.lastCompletedStateMessageTxBase)
    (a : FragmentAssembly) :
    Moves c k b₀ ⟨m, h, some x⟩
      ⟨m, (stateMessage e h x senderMac f rssi view (messageBase f view) a).1,
      some (stateMessage e h x senderMac f rssi view (messageBase f view) a).2⟩ := by
  obtain ⟨plaintext, hopen, -⟩ := Option.bind_eq_some_iff.mp hbrings.opened
  unfold stateMessage
  dsimp only
  generalize hy : (if x.join.stateSyncPending then _ else x) = y
  have hyx : y.core = x.core := by
    subst hy
    split <;> rfl
  set z : Session := { y with
    stateReservedBytes := y.stateReservedBytes - UInt32.ofNat a.data.length
    stateAssemblies := y.stateAssemblies.remove view.entityIndex }
  have hz : z.core = { x₀.core with
      lastSeenCounter := max x₀.lastSeenCounter f.header.txCounter } := hyx.trans hcore
  have hkey : z.sessionKey = x₀.sessionKey := congrArg Core.sessionKey hz
  refine .trans (session_sends x z hyx).moves ?_
  split
  · next hback =>
    -- the counter is noted again before the leaf comes online
    have hseen : Moves c k b₀ ⟨m, h, some z⟩
        ⟨m, h, some { z with lastSeenCounter := f.header.txCounter }⟩ := by
      refine .single (.online e senderMac data rssi f hk hf hbrings.session (by rw [hopen]; rfl) ?_ ?_ ?_)
      · exact (congrArg Core.remoteState hz).symm.trans hback.1
      · exact (congrArg Core.online hz).symm.trans (Bool.eq_false_iff.mpr hback.2)
      · exact congrArg Core.lastSeenCounter hz
    have hup : Moves c k b₀ ⟨m, h, some { z with lastSeenCounter := f.header.txCounter }⟩
        ⟨m, (markOnline e h z rssi f.header.txCounter 0).1,
          some (markOnline e h z rssi f.header.txCounter 0).2⟩ := by
      refine markOnline_moves (x := { z with lastSeenCounter := f.header.txCounter }) hk hf ?_ _ 0 rfl
        hback.1
      change (validateSessionPacket c z f).isSome
      rw [validateSessionPacket, show z.sessionKeyValid = x₀.sessionKeyValid from
        congrArg Core.sessionKeyValid hz, hkey]
      rw [validateSessionPacket] at hopen
      rw [hopen]
      rfl
    exact .tail (hseen.trans hup) (.publish f view _ _ _ hbrings hkey
      (by simpa [markOnline, Effect.publication?] using hbefore) hnew)
  · exact .single (.publish f view _ _ _ hbrings hkey hbefore hnew)

theorem storeState_moves {x₀ : Session} (hk : k = .frame e senderMac data rssi)
    (hf : parsePacket c data = some f) {view : EntityPayload} (hbrings : BringsState c k b₀ x₀ f view)
    (hfound : Found b₀ x₀ x) (hbefore : h.publications = b₀.hub.publications)
    (hnew : counterIsNewer (messageBase f view) x.lastCompletedStateMessageTxBase) :
    Moves c k b₀ ⟨m, h, some x⟩
      ⟨m, (storeState e h x senderMac f rssi view (messageBase f view)).1,
      some (storeState e h x senderMac f rssi view (messageBase f view)).2.1⟩ := by
  obtain ⟨plaintext, hopen, -⟩ := Option.bind_eq_some_iff.mp hbrings.opened
  rw [← validateSessionPacket_congr hfound.core] at hopen
  unfold storeState
  dsimp only
  split
  · exact (session_sends _ _ (by rfl)).moves
  · have hseen : Moves c k b₀ ⟨m, h, some x⟩ ⟨m, h, some { x with
        lastSeenCounter := max x.lastSeenCounter f.header.txCounter }⟩ :=
      .single (.seenMax e senderMac data rssi f hk hf (by rw [hopen]; rfl))
    split
    · exact hseen.trans (session_sends _ _ (by rfl)).moves
    · refine hseen.trans (.trans ?_ (stateMessage_moves hk hf hbrings ?_ hbefore ?_ _))
      · exact (session_sends _ _ (by rfl)).moves
      · exact congrArg (fun y : Core => { y with
          lastSeenCounter := max y.lastSeenCounter f.header.txCounter }) hfound.core
      · rw [show x₀.lastCompletedStateMessageTxBase = x.lastCompletedStateMessageTxBase from
          congrArg Core.lastCompletedStateMessageTxBase hfound.core.symm]
        exact hnew

/-- A fragment of a state is dropped, stored, or completes the state. -/
theorem handleState_moves {x₀ : Session} (hk : k = .frame e senderMac data rssi)
    (hf : parsePacket c data = some f) (htype : f.type? = some .state) (hfound : Found b₀ x₀ x)
    (hbefore : h.publications = b₀.hub.publications) :
    Moves c k b₀ ⟨m, h, some x⟩ ⟨m, (handleState c e h x senderMac f rssi).1,
      some (handleState c e h x senderMac f rssi).2.1⟩ := by
  unfold handleState
  split
  · exact .refl
  · split
    · exact (sendDeauth_sends _ _).moves
    · next hopen =>
      split
      · exact .refl
      · next view hview =>
        have hbrings : BringsState c k b₀ x₀ f view := by
          refine ⟨⟨e, senderMac, data, rssi, hk, hf⟩, htype, hfound.session, ?_⟩
          rw [← validateSessionPacket_congr hfound.core, hopen]
          exact hview
        dsimp only
        split
        · next hnew => exact storeState_moves hk hf hbrings hfound hbefore hnew
        · split
          · next hbase =>
            refine sendStateAck_moves _ _ (.inl ⟨x₀, f, view, hbrings, rfl, ?_, ?_⟩)
            · exact hbase.trans (congrArg Core.lastCompletedStateMessageTxBase hfound.core)
            · exact congrArg Core.sessionKey hfound.core
          · exact .refl

/-- A confirmation moves the counter of completed states, and acknowledges. -/
theorem confirmStateDelivery_moves (base : UInt32) (mac : Mac) (hk : k = .confirmState e base mac) :
    Moves c k b₀ ⟨m, h, some x⟩ ⟨m, (confirmStateDelivery c e h x base mac).1,
      some (confirmStateDelivery c e h x base mac).2.1⟩ := by
  unfold confirmStateDelivery
  dsimp only
  refine .trans ?_ (sendStateAck_moves _ _ (.inr ⟨e, mac, hk⟩))
  split
  · next hnew =>
    refine .trans (.single (.confirmed e base mac hk hnew)) ?_
    split
    · refine .trans ?_ (sendJoinComplete_sends _ _).moves
      exact (session_sends _ _ (by rfl)).moves
    · exact .refl
  · exact .refl

/-! ## Heartbeats and acknowledgements -/

theorem becomeNormal_moves (hk : k = .frame e senderMac data rssi) (hf : parsePacket c data = some f)
    (hopen : (validateSessionPacket c x f).isSome) (counter : UInt32) (reported : Int)
    (hlast : x.lastSeenCounter = counter) :
    Moves c k b₀ ⟨m, h, some x⟩ ⟨m, (becomeNormal e h x rssi counter reported).1,
      some (becomeNormal e h x rssi counter reported).2⟩ := by
  unfold becomeNormal
  split
  · subst hlast
    exact .tail (.single (.up e senderMac data rssi f _ hk hf hopen)) (.send (.session (by rfl)))
  · exact .refl

/-- A heartbeat that is newer makes the leaf normal. -/
theorem handleHeartbeat_moves (hk : k = .frame e senderMac data rssi)
    (hf : parsePacket c data = some f) :
    Moves c k b₀ ⟨m, h, some x⟩ ⟨m, (handleHeartbeat c e h x senderMac f rssi).1,
      some (handleHeartbeat c e h x senderMac f rssi).2.1⟩ := by
  unfold handleHeartbeat
  split
  · exact .refl
  · split
    · exact .refl
    · next hnew =>
      split
      · exact .refl
      · next hopen =>
        split
        · exact .refl
        · have hseen : Moves c k b₀ ⟨m, h, some x⟩ ⟨m, h, some { x with
              lastSeenCounter := f.header.txCounter }⟩ :=
            .single (.seen e senderMac data rssi f hk hf (by rw [hopen]; rfl) (by simpa using hnew))
          dsimp only
          refine hseen.trans (.tail (b := ⟨m, (becomeNormal e h _ rssi f.header.txCounter _).1,
            some (becomeNormal e h _ rssi f.header.txCounter _).2⟩) ?_ (.send (.session (by rfl))))
          refine .trans ?_ (becomeNormal_moves hk hf ?_ _ _ (by rfl))
          · exact (session_sends _ _ (by rfl)).moves
          · change (validateSessionPacket c x f).isSome
            rw [hopen]
            rfl

theorem comeBack_moves (hk : k = .frame e senderMac data rssi) (hf : parsePacket c data = some f)
    (hopen : (validateSessionPacket c x f).isSome) (counter : UInt32)
    (hlast : x.lastSeenCounter = counter) :
    Moves c k b₀ ⟨m, h, some x⟩
      ⟨m, (comeBack e h x rssi counter).1, some (comeBack e h x rssi counter).2⟩ := by
  unfold comeBack
  split
  · next hback => exact markOnline_moves hk hf hopen _ _ hlast hback.1
  · exact .refl

theorem configAcked_moves (hk : k = .frame e senderMac data rssi) (hf : parsePacket c data = some f)
    (hopen : (validateSessionPacket c x f).isSome) (plaintext : Bytes) (counter : UInt32)
    (hlast : x.lastSeenCounter = counter) :
    Moves c k b₀ ⟨m, h, some x⟩ ⟨m, (configAcked e h x plaintext rssi counter).1,
      some (configAcked e h x plaintext rssi counter).2⟩ := by
  unfold configAcked
  split
  · exact .refl
  · next p hp =>
    have hqueues : Moves c k b₀ ⟨m, h, some x⟩
        ⟨m, { h with pendingConfigs := h.pendingConfigs.erase p }, some x⟩ :=
      .single (.queues h.commandQueue _ (fun q hq => ⟨q, hq, rfl⟩)
        (fun q hq => ⟨q, List.mem_of_mem_erase hq, rfl⟩))
    exact hqueues.trans (.tail (comeBack_moves hk hf hopen _ hlast) (.send (.note _ rfl trivial)))

theorem commandAcked_moves (ref : UInt32) :
    Moves c k b₀ ⟨m, h, x?⟩ ⟨m, h.commandAcked ref, x?⟩ :=
  .single (.queues _ h.pendingConfigs (fun p hp => ⟨p, List.mem_of_mem_eraseP hp, rfl⟩)
    (fun p hp => ⟨p, hp, rfl⟩))

theorem dispatchAck_moves (hk : k = .frame e senderMac data rssi) (hf : parsePacket c data = some f)
    (hopen : (validateSessionPacket c x f).isSome) (plaintext : Bytes) (counter : UInt32)
    (hlast : x.lastSeenCounter = counter) :
    Moves c k b₀ ⟨m, h, some x⟩ ⟨m, (dispatchAck e h x plaintext rssi counter).1,
      some (dispatchAck e h x plaintext rssi counter).2.1⟩ := by
  unfold dispatchAck
  dsimp only
  split
  · exact .single (.send (.note _ rfl trivial))
  · split
    · exact configAcked_moves hk hf hopen _ _ hlast
    · refine .trans ?_ (comeBack_moves hk hf hopen _ hlast)
      split
      · exact commandAcked_moves _
      · exact .refl

/-- An acknowledgement that is newer settles the command that it names, if there is one. -/
theorem handleAck_moves (hk : k = .frame e senderMac data rssi) (hf : parsePacket c data = some f) :
    Moves c k b₀ ⟨m, h, some x⟩
      ⟨m, (handleAck c e h x f rssi).1, some (handleAck c e h x f rssi).2.1⟩ := by
  unfold handleAck
  split
  · exact .refl
  · split
    · exact .refl
    · next hnew =>
      split
      · exact .refl
      · next hopen =>
        have hseen : Moves c k b₀ ⟨m, h, some x⟩ ⟨m, h, some { x with
            lastSeenCounter := f.header.txCounter }⟩ :=
          .single (.seen e senderMac data rssi f hk hf (by rw [hopen]; rfl) (by simpa using hnew))
        dsimp only
        refine hseen.trans ?_
        split
        · exact (session_sends _ _ (by rfl)).moves
        · refine .trans ?_ (dispatchAck_moves hk hf ?_ _ _ rfl)
          · exact (session_sends _ _ (by rfl)).moves
          · change (validateSessionPacket c x f).isSome
            rw [hopen]
            rfl

/-! ## Dispatch -/

/-- A frame of an offline leaf whose hop count has changed publishes the leaf as online. -/
theorem noteHops_moves {x₀ : Session} (hk : k = .frame e senderMac data rssi)
    (hf : parsePacket c data = some f) (hfound : Found b₀ x₀ x)
    (hlink : x.link.hopsToBridge = x₀.link.hopsToBridge) (hvalid : x₀.sessionKeyValid)
    (htype : f.type? = some .state ∨ f.type? = some .heartbeat ∨ f.type? = some .ack) :
    Moves c k b₀ ⟨m, h, some x⟩ ⟨m, (noteHops h x f).1, some (noteHops h x f).2⟩ := by
  unfold noteHops
  dsimp only
  split
  · exact .refl
  · next hchanged =>
    refine .tail (.single (.hops e senderMac data rssi f hk hf hfound.session hfound.core hvalid htype
      ?_)) (.send (.session rfl))
    rw [← hlink]
    exact hchanged

theorem noteHops_found {x₀ : Session} (hfound : Found b₀ x₀ x) (f : Frame) :
    Found b₀ x₀ (noteHops h x f).2 := by
  unfold noteHops
  dsimp only
  split
  · exact hfound
  · exact ⟨hfound.session, hfound.core⟩

theorem noteHops_publications (f : Frame) : (noteHops h x f).1.publications = h.publications := by
  unfold noteHops
  dsimp only
  split
  · rfl
  · exact publications_note _ _

/-- The link data is written before the handlers look at the frame. -/
theorem onSessionFrame_moves (hk : k = .frame e senderMac data rssi)
    (hf : parsePacket c data = some f)
    (htype : f.type? = some .state ∨ f.type? = some .heartbeat ∨ f.type? = some .ack) (b : Bridge)
    (len : Nat) : Moves c k b b (b.onSessionFrame c e senderMac f len rssi).1 := by
  obtain ⟨m, h, x?⟩ := b
  unfold onSessionFrame store
  cases x? with
  | none => exact .single (.send (.note _ rfl ⟨_, .plain f.header.leafMac .deauth _ _ rfl, rfl⟩))
  | some x =>
    dsimp only
    split
    · refine .trans ?_ (sendDeauth_sends _ _).moves
      exact (session_sends _ _ (by rfl)).moves
    · next hvalid =>
      set y : Session := (x.heardFrom senderMac rssi).countPacket
      have hsame : Found ⟨m, h, some x⟩ x y := ⟨rfl, rfl⟩
      have hfound : Found ⟨m, h, some x⟩ x (noteHops h y f).2 := noteHops_found hsame f
      refine .trans (session_sends x y rfl).moves (.trans
        (noteHops_moves hk hf hsame rfl (not_not.mp hvalid) htype) ?_)
      split
      · exact .refl
      · split
        · next hstate => exact handleState_moves hk hf hstate hfound (noteHops_publications f)
        · exact handleHeartbeat_moves hk hf
        · exact handleAck_moves hk hf

theorem ensureSession_moves (hk : k = .frame e senderMac data rssi) (b : Bridge) :
    Moves c k b b ⟨b.leafMac, b.hub, some b.ensureSession⟩ := by
  obtain ⟨m, h, x?⟩ := b
  cases x? with
  | none => exact .single (.create (by rw [hk]; rfl) rfl)
  | some x => exact .refl

/-- A frame goes to the handler of its type. -/
theorem onFrame_moves (hk : k = .frame e senderMac data rssi) (hf : parsePacket c data = some f)
    (b : Bridge) (len : Nat) : Moves c k b b (b.onFrame c e senderMac f len rssi).1 := by
  unfold onFrame
  split
  · exact .refl
  · split
    · split
      · exact .refl
      · exact (ensureSession_moves hk b).trans (session_sends _ _ (by rfl)).moves
    · next htype =>
      split
      · exact .refl
      · next hsize =>
        exact (ensureSession_moves hk b).trans (handleJoin_moves hk hf htype (not_not.mp hsize) rfl rfl)
    · obtain ⟨m, h, x?⟩ := b
      cases x? with
      | none => exact .refl
      | some x => exact handleSchemaPush_moves hk hf
    · next htype => exact onSessionFrame_moves hk hf (.inl htype) b len
    · next htype => exact onSessionFrame_moves hk hf (.inr (.inl htype)) b len
    · next htype => exact onSessionFrame_moves hk hf (.inr (.inr htype)) b len
    · exact .refl

/-- Bytes that are no frame, or lack the pre-shared key, do nothing. -/
theorem onEspnowFrame_moves (hk : k = .frame e senderMac data rssi) (b : Bridge) :
    Moves c k b b (b.onEspnowFrame c e senderMac data rssi).1 := by
  unfold onEspnowFrame
  split
  · exact .refl
  · next hf =>
    split
    · exact onFrame_moves hk hf b _
    · exact .refl

/-! ## The loop -/

theorem loopOffline_moves (hk : k.isFrame = false) :
    Moves c k b₀ ⟨m, h, some x⟩ ⟨m, (loopOffline e h x).1, some (loopOffline e h x).2⟩ := by
  unfold loopOffline
  split
  · exact .single (.down .timeout hk)
  · exact .refl

theorem loopSchemaRequest_moves (hk : k.isFrame = false) :
    Moves c k b₀ ⟨m, h, some x⟩
      ⟨m, (loopSchemaRequest c e h x).1, some (loopSchemaRequest c e h x).2⟩ := by
  unfold loopSchemaRequest
  split
  · split
    · refine .trans ?_ (requestSchema_sends _ _ _).moves
      exact (session_sends _ _ (by rfl)).moves
    · refine .trans (.single (.down .timeout hk)) ?_
      exact .tail (.single .invalidate) (.send (.session (by rfl)))
  · exact .refl

theorem loopJoinComplete_moves (hk : k.isFrame = false) :
    Moves c k b₀ ⟨m, h, some x⟩
      ⟨m, (loopJoinComplete c e h x).1, some (loopJoinComplete c e h x).2⟩ := by
  unfold loopJoinComplete
  split
  · split
    · have hsends := sendJoinComplete_sends (c := c) (e := e) (m := m) (h := h) (x := x)
        x.link.nextHopMac false
      split
      next hsent =>
        rw [hsent] at hsends
        exact .tail hsends.moves (.send (.session rfl))
      next hsent =>
        rw [hsent] at hsends
        exact hsends.moves
    · refine .trans (.single (.down .timeout hk)) ?_
      exact .tail (.single (.send (.note (.clearEntities x.schema.entities) rfl trivial)))
        (.send (.session rfl))
  · exact .refl

theorem loopDiscoverAnnounce_sends :
    Sends c ⟨m, h, some x⟩
      ⟨m, (loopDiscoverAnnounce c e h x).1, some (loopDiscoverAnnounce c e h x).2⟩ := by
  unfold loopDiscoverAnnounce
  split
  · exact .tail (sendDiscoverAnnounce_sends _ _) (.session (by rfl))
  · exact .refl

theorem loopSlot_sends : Sends c ⟨m, h, x?⟩ ⟨m, h.loopSlot e, x?⟩ := by
  unfold Hub.loopSlot
  split
  · exact .single (.hub rfl rfl rfl rfl)
  · exact .refl

theorem loopStateSync_core (x : Session) : (x.loopStateSync e).core = x.core := by
  unfold Session.loopStateSync
  split <;> rfl

/-- The loop goes through what a session waits for, one after the other. -/
theorem loopSession_moves (hk : k.isFrame = false) :
    Moves c k b₀ ⟨m, h, some x⟩ ⟨m, (loopSession c e h x).1, some (loopSession c e h x).2⟩ := by
  unfold loopSession
  dsimp only
  refine .trans (session_sends x (x.prune e) rfl).moves (.trans (loopOffline_moves (e := e) hk)
    (.trans (loopSchemaRequest_moves (e := e) hk) ?_))
  refine .trans (session_sends _ _ (loopStateSync_core (e := e) _)).moves
    (.trans (loopJoinComplete_moves (e := e) hk) ?_)
  exact .trans loopSlot_sends.moves loopDiscoverAnnounce_sends.moves

theorem loopSession?_moves (hk : k.isFrame = false) (b b₀ : Bridge) :
    Moves c k b₀ b (b.loopSession? c e) := by
  obtain ⟨m, h, x?⟩ := b
  cases x? with
  | none => exact loopSlot_sends.moves
  | some x => exact loopSession_moves hk

/-! A session that is evicted in the course of a loop has drawn two counters in it at most. -/

theorem sendEncrypted_drawn (mac : Mac) (type : PacketType) (hop : UInt8) (plaintext : Bytes) :
    (sendEncrypted c e h mac x type hop plaintext).2.1.drawn ≤ x.drawn + 1 := by
  unfold sendEncrypted
  split
  · exact Nat.le_succ _
  · split
    · exact Nat.le_succ _
    · exact le_rfl

theorem loopSchemaRequest_drawn : (loopSchemaRequest c e h x).2.drawn ≤ x.drawn + 1 := by
  unfold loopSchemaRequest
  split
  · split
    · exact sendEncrypted_drawn (x := { x with schema := _ }) _ _ _ _
    · exact Nat.le_succ _
  · exact Nat.le_succ _

theorem sendJoinAck_drawn (mac : Mac) (accepted reason stage : UInt8) :
    (sendJoinAck c e h mac x accepted reason stage).2.1.drawn = x.drawn + 1 := by
  unfold sendJoinAck
  dsimp only
  split <;> rfl

theorem loopJoinComplete_drawn : (loopJoinComplete c e h x).2.drawn ≤ x.drawn + 1 := by
  have hack : (sendJoinComplete c e h x.link.nextHopMac x false).2.1.drawn = x.drawn + 1 :=
    sendJoinAck_drawn (c := c) (e := e) (h := h) x.link.nextHopMac 1 0 joinStatusComplete
  unfold loopJoinComplete
  split
  · split
    · split
      next hsent =>
        rw [hsent] at hack
        exact hack.le
      next hsent =>
        rw [hsent] at hack
        exact hack.le
    · exact Nat.le_succ _
  · exact Nat.le_succ _

/-- It draws two counters at most. -/
theorem loopSession_drawn : (loopSession c e h x).2.drawn ≤ x.drawn + 2 := by
  unfold loopSession
  dsimp only
  generalize hoffline : loopOffline e h (x.prune e) = o
  have ho : o.2.drawn = x.drawn := by
    subst hoffline
    unfold loopOffline
    split <;> rfl
  have hannounce (h : Hub) (y : Session) : (loopDiscoverAnnounce c e h y).2.drawn = y.drawn := by
    unfold loopDiscoverAnnounce
    split <;> rfl
  have hrequest : (loopSchemaRequest c e o.1 o.2).2.drawn ≤ o.2.drawn + 1 := loopSchemaRequest_drawn
  have hsync (y : Session) : (y.loopStateSync e).drawn = y.drawn :=
    congrArg Core.drawn (loopStateSync_core y)
  rw [hannounce]
  refine loopJoinComplete_drawn.trans ?_
  rw [hsync]
  omega

theorem loopSession?_drawn (b : Bridge) {x : Session} (hx : (b.loopSession? c e).session? = some x) :
    b.session?.any (fun x₀ => x.drawn ≤ x₀.drawn + 2) := by
  obtain ⟨m, h, x?⟩ := b
  cases x? with
  | none => cases hx
  | some x₀ =>
    obtain rfl := Option.some.inj hx
    exact decide_eq_true loopSession_drawn

/-- The eviction takes the session away. -/
theorem evict_moves (hk : k.isFrame = false) (b b₀ : Bridge)
    (hdrawn : ∀ x, b.session? = some x → b₀.session?.any (fun x₀ => x.drawn ≤ x₀.drawn + 2)) :
    Moves c k b₀ b b.evict := by
  obtain ⟨m, h, x?⟩ := b
  unfold evict
  cases x? with
  | none => exact .refl
  | some x =>
    dsimp only
    cases honline : x.online with
    | true =>
      refine .trans (.single (.down .evicted hk)) (.trans
        (.single (.send (.note (.clearEntities x.schema.entities) rfl trivial))) ?_)
      exact .tail (.single (.drop hk rfl (hdrawn x rfl))) (.send (.hub rfl rfl rfl rfl))
    | false =>
      refine .trans (.single (.send (.note (.clearEntities x.schema.entities) rfl trivial))) ?_
      exact .tail (.single (.drop hk honline (hdrawn x rfl))) (.send (.hub rfl rfl rfl rfl))

/-- The queue of configuration commands: what is sent again is in the queue, and so is what stays. -/
theorem loopConfigs_moves (b₀ : Bridge) (x? : Option Session) (ps : List PendingConfig) (h : Hub)
    (hps : ∀ p ∈ ps, p ∈ h.pendingConfigs) (o : Hub × List PendingConfig)
    (ho : loopConfigs c e x? ps h = o) :
    Moves c k b₀ ⟨m, h, x?⟩ ⟨m, o.1, x?⟩ ∧ o.1.pendingConfigs = h.pendingConfigs ∧
      o.1.commandQueue = h.commandQueue ∧ ∀ p ∈ o.2, ∃ q ∈ ps, p.content = q.content := by
  induction ps generalizing h o with
  | nil =>
    subst ho
    exact ⟨.refl, rfl, rfl, fun _ hp => by cases hp⟩
  | cons p ps ih =>
    have hone : ∀ o, loopConfig c e h x? p = o → Moves c k b₀ ⟨m, h, x?⟩ ⟨m, o.1, x?⟩ ∧
        o.1.pendingConfigs = h.pendingConfigs ∧ o.1.commandQueue = h.commandQueue ∧
        ∀ q ∈ o.2, q.content = p.content := by
      rintro o rfl
      unfold loopConfig
      split
      · exact ⟨.refl, rfl, rfl, fun q hq => by cases hq; rfl⟩
      · split
        · exact ⟨.single (.send (.note _ rfl trivial)), rfl, rfl, fun q hq => by cases hq⟩
        · split
          · exact ⟨.single (.send (.note _ rfl trivial)), rfl, rfl, fun q hq => by cases hq⟩
          · next x hx =>
            obtain ⟨rfl, -⟩ := Option.filter_eq_some_iff.mp hx
            dsimp only
            obtain ⟨hhub, -⟩ | ⟨hvalid, frame, sent, hout, hhub⟩ := sendConfigFrame_cases (c := c) (e := e)
              (h := h) (x := x) _ _ rfl
            · rw [hhub]
              exact ⟨.refl, rfl, rfl, fun q hq => by cases hq; rfl⟩
            · rw [hhub]
              refine ⟨?_, rfl, rfl, fun q hq => by cases hq; rfl⟩
              exact .tail (.single (.retryConfig p (hps p List.mem_cons_self) hvalid))
                (.send (.note _ rfl (hout _)))
    obtain ⟨hmoves, hconfigs, hcommands, hkept⟩ := hone _ rfl
    obtain ⟨hmoves', hconfigs', hcommands', hrest⟩ := ih (loopConfig c e h x? p).1
      (fun q hq => by rw [hconfigs]; exact hps q (List.mem_cons_of_mem _ hq)) _ rfl
    subst ho
    refine ⟨hmoves.trans hmoves', hconfigs'.trans hconfigs, hcommands'.trans hcommands, fun q hq => ?_⟩
    rcases List.mem_append.mp hq with hq | hq
    · exact ⟨p, List.mem_cons_self, hkept q (Option.mem_toList.mp hq)⟩
    · obtain ⟨r, hr, hqr⟩ := hrest q hq
      exact ⟨r, List.mem_cons_of_mem _ hr, hqr⟩

/-- The retry of a command repeats its fragments under their first counters. -/
theorem sendCommandLoop_retries (hk : ∃ e, k = .loop e) (b₀ : Bridge) (p : PendingCommand)
    (hp : p ∈ h.commandQueue) (left chunk : Nat)
    (hle : chunk + left ≤ chunkCount p.value.length x.limits.maxEntityFragment) (o : Outcome)
    (ho : sendCommandLoop c e p.nextHopMac p.fieldIndex p.value p.txBase false
      x.limits.maxEntityFragment (chunkCount p.value.length x.limits.maxEntityFragment) left chunk h x
      = o) :
    Moves c k b₀ ⟨m, h, some x⟩ ⟨m, o.1, some x⟩ ∧ o.2.1 = x ∧
      o.1.commandQueue = h.commandQueue ∧ o.1.pendingConfigs = h.pendingConfigs := by
  induction left generalizing chunk h with
  | zero =>
    subst ho
    exact ⟨.refl, rfl, rfl, rfl⟩
  | succ left ih =>
    simp only [sendCommandLoop, Bool.false_eq_true, if_false] at ho
    generalize hone : sendEncryptedWithTxCounterResult c e h p.nextHopMac x .command downHop
      (p.txBase + UInt32.ofNat chunk) _ = one at ho
    have hmoves : Moves c k b₀ ⟨m, h, some x⟩ ⟨m, one.1, some x⟩ ∧
        one.1.commandQueue = h.commandQueue ∧ one.1.pendingConfigs = h.pendingConfigs := by
      obtain ⟨hhub, -⟩ | ⟨hvalid, frame, sent, hout, hhub⟩ :=
        sendEncryptedWithTxCounterResult_cases _ _ _ _ rfl _ hone
      · rw [hhub]
        exact ⟨.refl, rfl, rfl⟩
      · rw [hhub]
        refine ⟨?_, rfl, rfl⟩
        exact .tail (.single (.retryCommand p hp hvalid chunk (by omega) hk))
          (.send (.note _ rfl (hout _)))
    obtain ⟨hmoves, hcommands, hconfigs⟩ := hmoves
    split at ho
    · obtain ⟨hmoves', hsession, hcommands', hconfigs'⟩ :=
        ih (h := one.1) (by rw [hcommands]; exact hp) (chunk + 1) (by omega) ho
      exact ⟨hmoves.trans hmoves', hsession, hcommands'.trans hcommands, hconfigs'.trans hconfigs⟩
    · subst ho
      exact ⟨hmoves, rfl, hcommands, hconfigs⟩

/-- In the course of the command queue: the leaf is in the state in which the loop found it there. -/
def QueueState (c : Crypto) (e : Env) (b₀ : Bridge) (x? : Option Session) : Prop :=
  ∀ x, x? = some x → ∃ y, (b₀.beforeQueues c e).session? = some y ∧ x.remoteState = y.remoteState

/-- One pending command. -/
theorem loopCommand_moves (hk : k = .loop e) (b₀ : Bridge) (x? : Option Session) (p : PendingCommand) (draw : Nat)
    (hp : p ∈ h.commandQueue) (hp₀ : p ∈ (b₀.beforeQueues c e).hub.commandQueue)
    (hstate : QueueState c e b₀ x?) (o : Hub × Option Session × Option PendingCommand)
    (ho : loopCommand c e h x? p draw = o) :
    Moves c k b₀ ⟨m, h, x?⟩ ⟨m, o.1, o.2.1⟩ ∧ o.1.commandQueue = h.commandQueue ∧
      o.1.pendingConfigs = h.pendingConfigs ∧ (∀ q ∈ o.2.2, q.content = p.content) ∧
      QueueState c e b₀ o.2.1 := by
  subst ho
  unfold loopCommand
  split
  · next hlimit =>
    cases x? with
    | none => exact ⟨.refl, rfl, rfl, (fun q hq => by cases hq), hstate⟩
    | some x =>
      obtain ⟨y, hy, hxy⟩ := hstate x rfl
      refine ⟨.single (.giveUp e p y hk hp₀ hlimit hy hxy), rfl, rfl, (fun q hq => by cases hq), ?_⟩
      intro z hz
      cases hz
      exact ⟨y, hy, hxy⟩
  · split
    · split
      · exact ⟨.refl, rfl, rfl, (fun q hq => by cases hq), hstate⟩
      · next x hx =>
        obtain ⟨rfl, -⟩ := Option.filter_eq_some_iff.mp hx
        obtain ⟨hmoves, hsession, hcommands, hconfigs⟩ :=
          sendCommandLoop_retries (c := c) (e := e) (m := m) (k := k) (h := h) (x := x) ⟨e, hk⟩ b₀ p hp _ 0
            (by rw [Nat.zero_add]) _ rfl
        unfold sendCommandFragments
        dsimp only
        rw [hsession]
        exact ⟨hmoves, hcommands, hconfigs, (fun q hq => by cases hq; rfl), hstate⟩
    · exact ⟨.refl, rfl, rfl, (fun q hq => by cases hq; rfl), hstate⟩

/-- The queue of commands. -/
theorem loopCommands_moves (hk : k = .loop e) (b₀ : Bridge) (x? : Option Session)
    (ps : List (PendingCommand × Nat)) (h : Hub) (hps : ∀ p ∈ ps, p.1 ∈ h.commandQueue)
    (hps₀ : ∀ p ∈ ps, p.1 ∈ (b₀.beforeQueues c e).hub.commandQueue) (hstate : QueueState c e b₀ x?)
    (o : Hub × Option Session × List PendingCommand) (ho : loopCommands c e ps h x? = o) :
    Moves c k b₀ ⟨m, h, x?⟩ ⟨m, o.1, o.2.1⟩ ∧ o.1.commandQueue = h.commandQueue ∧
      o.1.pendingConfigs = h.pendingConfigs ∧ ∀ p ∈ o.2.2, ∃ q ∈ ps, p.content = q.1.content := by
  induction ps generalizing h x? o with
  | nil =>
    subst ho
    exact ⟨.refl, rfl, rfl, fun _ hp => by cases hp⟩
  | cons p ps ih =>
    obtain ⟨hmoves, hcommands, hconfigs, hkept, hstate'⟩ := loopCommand_moves (c := c) (e := e) (m := m)
      hk b₀ x? p.1 p.2 (hps p List.mem_cons_self) (hps₀ p List.mem_cons_self) hstate _ rfl
    obtain ⟨hmoves', hcommands', hconfigs', hrest⟩ := ih (loopCommand c e h x? p.1 p.2).2.1
      (loopCommand c e h x? p.1 p.2).1
      (fun q hq => by rw [hcommands]; exact hps q (List.mem_cons_of_mem _ hq))
      (fun q hq => hps₀ q (List.mem_cons_of_mem _ hq)) hstate' _ rfl
    subst ho
    refine ⟨hmoves.trans hmoves', hcommands'.trans hcommands, hconfigs'.trans hconfigs, fun q hq => ?_⟩
    rcases List.mem_append.mp hq with hq | hq
    · exact ⟨p, List.mem_cons_self, hkept q (Option.mem_toList.mp hq)⟩
    · obtain ⟨r, hr, hqr⟩ := hrest q hq
      exact ⟨r, List.mem_cons_of_mem _ hr, hqr⟩

/-- The queues repeat what they hold, under the old counters. -/
theorem loopQueues_moves (hk : k = .loop e) (b₀ : Bridge) :
    Moves c k b₀ (b₀.beforeQueues c e) (b₀.loop c e) := by
  change Moves c k b₀ (b₀.beforeQueues c e) ((b₀.beforeQueues c e).loopQueues c e)
  have hstate : QueueState c e b₀ (b₀.beforeQueues c e).session? := fun x hx => ⟨x, hx, rfl⟩
  have hps₀ : ∀ p ∈ (b₀.beforeQueues c e).hub.commandQueue,
      p ∈ (b₀.beforeQueues c e).hub.commandQueue := fun _ hp => hp
  generalize hb : b₀.beforeQueues c e = b at hstate hps₀
  obtain ⟨m, h, x?⟩ := b
  unfold loopQueues
  dsimp only
  obtain ⟨hmoves, hconfigs, hcommands, hkept⟩ := loopConfigs_moves (c := c) (e := e) (m := m) (k := k)
    b₀ x? h.pendingConfigs h (fun _ hp => hp) _ rfl
  generalize loopConfigs c e x? h.pendingConfigs h = o at hmoves hconfigs hcommands hkept ⊢
  -- the configuration commands that stay
  have hqueues : Moves c k b₀ ⟨m, o.1, x?⟩ ⟨m, { o.1 with pendingConfigs := o.2 }, x?⟩ :=
    .single (.queues o.1.commandQueue o.2 (fun p hp => ⟨p, hp, rfl⟩)
      (fun p hp => by rw [hconfigs]; exact hkept p hp))
  have hpending : ∀ p ∈ o.1.commandQueue.zipIdx 2, p.1 ∈ o.1.commandQueue := fun _ => List.fst_mem_of_mem_zipIdx
  have hqueue : ∀ p ∈ o.1.commandQueue.zipIdx 2, p.1 ∈ (b₀.beforeQueues c e).hub.commandQueue := by
    intro p hp
    rw [hb]
    exact hcommands ▸ hpending p hp
  obtain ⟨hmoves', hcommands', hconfigs', hkept'⟩ := loopCommands_moves (c := c) (m := m) hk b₀ x?
    (o.1.commandQueue.zipIdx 2) { o.1 with pendingConfigs := o.2 } hpending hqueue hstate _ rfl
  refine hmoves.trans (hqueues.trans (.tail hmoves' ?_))
  generalize loopCommands c e (o.1.commandQueue.zipIdx 2) { o.1 with pendingConfigs := o.2 } x? = o'
    at hcommands' hconfigs' hkept' ⊢
  refine .queues o'.2.2 o'.1.pendingConfigs (fun p hp => ?_) (fun p hp => ⟨p, hp, rfl⟩)
  obtain ⟨q, hq, hcontent⟩ := hkept' p hp
  exact ⟨q.1, hcommands'.symm ▸ hpending q hq, hcontent⟩

theorem beforeQueues_moves (hk : k.isFrame = false) (b : Bridge) :
    Moves c k b b (b.beforeQueues c e) := by
  unfold beforeQueues
  dsimp only
  have hevict (take : Bool) (b' : Bridge)
      (hdrawn : ∀ x, b'.session? = some x → b.session?.any (fun x₀ => x.drawn ≤ x₀.drawn + 2)) :
      Moves c k b b' (if take then b'.evict else b') := by
    cases take with
    | false => exact .refl
    | true => exact evict_moves hk b' b hdrawn
  have hself : ∀ x, b.session? = some x → b.session?.any (fun x₀ => x.drawn ≤ x₀.drawn + 2) :=
    fun x hx => by rw [hx]; exact decide_eq_true (Nat.le_add_right _ 2)
  refine .trans (hevict e.evict b hself) (.trans (loopSession?_moves (e := e) hk _ b) ?_)
  refine hevict e.evictCritical _ fun x hx => ?_
  have hdrawn := loopSession?_drawn _ hx
  split at hdrawn
  · -- nothing is left to evict a second time
    have hgone : b.evict.session? = none := by
      unfold evict
      split
      next hnone => exact hnone
      · rfl
    rw [hgone] at hdrawn
    cases hdrawn
  · exact hdrawn

/-- So the loop is a sequence of moves. -/
theorem loop_moves (hk : k = .loop e) (b : Bridge) : Moves c k b b (b.loop c e) :=
  (beforeQueues_moves (by rw [hk]; rfl) b).trans (loopQueues_moves hk b)

/-! ## Requests from the host -/

theorem discoveryConfirmed_sends (index : UInt8) (success : Bool) :
    Sends c ⟨m, h, some x⟩ ⟨m, (discoveryConfirmed c e h x index success).1,
      some (discoveryConfirmed c e h x index success).2⟩ := by
  have hcount (s : Schema) : ({ x with schema := s } : Session).core = x.core := rfl
  unfold discoveryConfirmed
  split
  · cases success with
    | false => exact .refl
    | true => exact session_sends _ _ (hcount _)
  · split
    · refine .tail (.trans ?_ (requestSchema_sends _ _ _)) (.session (by rfl))
      exact session_sends _ _ (by rfl)
    · dsimp only
      split
      · exact session_sends _ _ (hcount _)
      · refine .trans ?_ (requestSchema_sends _ _ _)
        exact session_sends _ _ (by rfl)

theorem invalidateAllSessions_moves (hk : k.isFrame = false) (b : Bridge) :
    Moves c k b b b.invalidateAllSessions := by
  obtain ⟨m, h, x?⟩ := b
  cases x? with
  | none => exact .single (.send (.hub rfl rfl rfl rfl))
  | some x =>
    refine .trans (.single (.down .manual hk)) ?_
    refine .trans (.single (.send (.note (.clearEntities x.schema.entities) rfl trivial))) ?_
    refine .tail (.single (.drop hk rfl ?_)) (.send (.hub rfl rfl rfl rfl))
    exact decide_eq_true (Nat.le_add_right _ 2)

/-- Every call is a sequence of moves. -/
theorem call_moves (c : Crypto) (b : Bridge) (k : Call) : Moves c k b b (b.call c k) := by
  cases k with
  | frame e senderMac data rssi => exact onEspnowFrame_moves rfl b
  | loop e => exact loop_moves rfl b
  | command e index value =>
    obtain ⟨m, h, x?⟩ := b
    cases x? with
    | none => exact .refl
    | some x => exact sendCommandToLeaf_moves index value ⟨e, rfl⟩ rfl
  | configure e cmd payload =>
    obtain ⟨m, h, x?⟩ := b
    cases x? with
    | none => exact .refl
    | some x => exact sendConfigToLeaf_moves cmd payload
  | otaFrame e type payload =>
    obtain ⟨m, h, x?⟩ := b
    cases x? with
    | none => exact .refl
    | some x => exact (sendOtaFrame_sends type payload).moves
  | confirmState e base nextHopMac =>
    obtain ⟨m, h, x?⟩ := b
    cases x? with
    | none => exact .refl
    | some x => exact confirmStateDelivery_moves base nextHopMac rfl
  | discoveryConfirmed e index success =>
    obtain ⟨m, h, x?⟩ := b
    cases x? with
    | none => exact .refl
    | some x => exact (discoveryConfirmed_sends index success).moves
  | invalidate => exact invalidateAllSessions_moves rfl b
  | restart => exact .single (.restart rfl rfl)
  | others slot => exact .single (.send (.hub rfl rfl rfl rfl))

/-- What every move keeps, every call keeps. -/
theorem call_invariant {I : Bridge → Prop} {b : Bridge}
    (hmove : ∀ t t', I t → Move c k b t t' → I t') (hb : I b) : I (b.call c k) := by
  have hmoves := call_moves c b k
  generalize b.call c k = t at hmoves ⊢
  induction hmoves with
  | refl => exact hb
  | tail _ h ih => exact hmove _ _ ih h

/-! ## How many counters a call draws -/

/-- How many counters the session has drawn when a call from `b₀` ends in `b`; one that was dropped
on the way has drawn two at most. -/
def lastDrawn (b₀ b : Bridge) : Nat :=
  match b.session? with
  | some x => x.drawn
  | none => b₀.ensureSession.drawn + 2

/-- In the course of a call the number only grows. -/
theorem Moves.drawn_le {b t : Bridge} {y : Session} (hmoves : Moves c k b₀ t b)
    (hy : t.session? = some y) : y.drawn ≤ lastDrawn b₀ b := by
  have hinv : (∀ z, b.session? = some z → y.drawn ≤ z.drawn) ∧
      (b.session? = none → k.isFrame = false ∧ y.drawn ≤ b₀.ensureSession.drawn + 2) := by
    refine Transition.steps_invariant (I := fun u => (∀ z, u.session? = some z → y.drawn ≤ z.drawn) ∧
      (u.session? = none → k.isFrame = false ∧ y.drawn ≤ b₀.ensureSession.drawn + 2)) hmoves ?_ ?_
    · rintro u v ⟨hsome, hnone⟩ hmove -
      cases hmove with
      | send hsend =>
        cases hsend with
        | hub | note => exact ⟨hsome, hnone⟩
        | session hcore =>
          refine ⟨fun z hz => ?_, fun h => by cases h⟩
          cases hz
          exact (hsome _ rfl).trans_eq (congrArg Core.drawn hcore).symm
        | bump | encrypt =>
          refine ⟨fun z hz => ?_, fun h => by cases h⟩
          cases hz
          exact (hsome _ rfl).trans (Nat.le_succ _)
      | stateAck | commandFragment =>
        refine ⟨fun z hz => ?_, fun h => by cases h⟩
        cases hz
        exact (hsome _ rfl).trans (Nat.le_succ _)
      | create hk _ => exact absurd ((hnone rfl).1.symm.trans hk) Bool.false_ne_true
      | drop hk _ hdrawn =>
        refine ⟨(fun z hz => by cases hz), fun _ => ⟨hk, ?_⟩⟩
        obtain ⟨x₀, hx₀, hle⟩ := (Option.any_eq_true _ _).mp hdrawn
        rw [ensureSession, hx₀]
        exact (hsome _ rfl).trans (by simpa using hle)
      | restart hk hsame =>
        refine ⟨(fun z hz => by cases hz), fun _ => ⟨by rw [hk]; rfl, ?_⟩⟩
        cases hu : u.session? with
        | none => exact (hnone hu).2
        | some x =>
          rw [hu] at hsame
          rw [ensureSession, ← hsame]
          exact (hsome x hu).trans (Nat.le_add_right _ 2)
      | rekey e senderMac data rssi f hjoins hhub hcore =>
        refine ⟨fun z hz => ?_, fun h => by cases h⟩
        cases hz
        exact (hsome _ rfl).trans_eq (congrArg Core.drawn hcore).symm
      | invalidate | restored | abandon | rejoin | seen | seenMax | online | confirmed | up | down
      | giveUp =>
        refine ⟨fun z hz => ?_, fun h => by cases h⟩
        cases hz
        have hle := hsome _ rfl
        exact hle
      | publish | hops | queueCommand | queueConfig | retryCommand | retryConfig | queues =>
        exact ⟨hsome, hnone⟩
    · refine ⟨fun z hz => ?_, fun h => ?_⟩
      · rw [Option.some.inj (hy.symm.trans hz)]
      · rw [hy] at h
        cases h
  unfold lastDrawn
  split
  next z hz => exact hinv.1 z hz
  next hz => exact (hinv.2 hz).2

/-! ## Where a key comes from -/

/-- A session in the course of a call `k` from `b₀`: its nonces and key are those that `b₀` held,
or the call has drawn them, or the session is new and has none. -/
inductive KeySource (c : Crypto) (k : Call) (b₀ : Bridge) (x : Session) : Prop
  | held (x₀ : Session) (hx₀ : b₀.session? = some x₀) (hbridge : x.bridgeNonce = x₀.bridgeNonce)
      (hremote : x.remoteNonce = x₀.remoteNonce) (hkey : x.sessionKey = x₀.sessionKey)
      (hvalid : x.sessionKeyValid → x₀.sessionKeyValid)
  | drawn (e : Env) (senderMac : Mac) (data : Bytes) (rssi : Int) (f : Frame)
      (hk : k = .frame e senderMac data rssi) (hf : parsePacket c data = some f)
      (htype : f.type? = some .join) (hbridge : x.bridgeNonce = e.nonce)
      (hremote : x.remoteNonce = (Join.parse f.payload).remoteNonce)
      (hkey : x.sessionKey = c.deriveSessionKey e.nonce (Join.parse f.payload).remoteNonce)
  | created (hk : k.isFrame) (hnone : b₀.session? = none)
      (hbridge : x.bridgeNonce = Octets.zero 16)
      (hvalid : x.sessionKeyValid = false)

/-- The source depends on the nonces, the key and its validity only. -/
theorem KeySource.congr {y : Session} (h : KeySource c k b₀ x) (hbridge : y.bridgeNonce = x.bridgeNonce)
    (hremote : y.remoteNonce = x.remoteNonce) (hkey : y.sessionKey = x.sessionKey)
    (hvalid : y.sessionKeyValid → x.sessionKeyValid) : KeySource c k b₀ y := by
  cases h with
  | held x₀ hx₀ hb hr hk hv =>
    exact .held x₀ hx₀ (hbridge.trans hb) (hremote.trans hr) (hkey.trans hk) (hv ∘ hvalid)
  | drawn e senderMac data rssi f hcall hf htype hb hr hk =>
    exact .drawn e senderMac data rssi f hcall hf htype (hbridge.trans hb) (hremote.trans hr)
      (hkey.trans hk)
  | created hk hnone hb hv =>
    refine .created hk hnone (hbridge.trans hb) (Bool.eq_false_iff.mpr fun h => ?_)
    rw [hv] at hvalid
    exact absurd (hvalid h) Bool.false_ne_true

theorem KeySource.core {y : Session} (h : KeySource c k b₀ x) (hcore : y.core = x.core) :
    KeySource c k b₀ y :=
  h.congr (congrArg Core.bridgeNonce hcore) (congrArg Core.remoteNonce hcore)
    (congrArg Core.sessionKey hcore) (fun hy => (congrArg Core.sessionKeyValid hcore).symm.trans hy)

/-- The key of a session is from the `JOIN` of this call, or it was there before. -/
theorem Move.keySource {t t' : Bridge} (hmove : Move c k b₀ t t')
    (h : ∀ x, t.session? = some x → KeySource c k b₀ x) :
    ∀ x, t'.session? = some x → KeySource c k b₀ x := by
  intro x' hx'
  cases hmove with
  | send hsend =>
    cases hsend with
    | hub | note => exact h x' hx'
    | session hcore =>
      cases hx'
      exact (h _ rfl).core hcore
    | bump | encrypt =>
      cases hx'
      exact (h _ rfl).congr rfl rfl rfl id
  | create hk hnone =>
    cases hx'
    exact .created hk hnone rfl rfl
  | drop => cases hx'
  | restart => cases hx'
  | invalidate =>
    cases hx'
    exact (h _ rfl).congr rfl rfl rfl (fun hv => absurd hv Bool.false_ne_true)
  | rekey e senderMac data rssi f hjoins _ hcore =>
    cases hx'
    exact .drawn e senderMac data rssi f hjoins.call hjoins.parsed hjoins.type
      (congrArg Core.bridgeNonce hcore)
      (congrArg Core.remoteNonce hcore) (congrArg Core.sessionKey hcore)
  | restored | abandon | rejoin | seen | seenMax | online | confirmed | stateAck | commandFragment
  | up | down | giveUp =>
    cases hx'
    exact (h _ rfl).congr rfl rfl rfl id
  | publish | hops | queueCommand | queueConfig | retryCommand | retryConfig | queues => exact h x' hx'

/-- Every session after a call has such a source. -/
theorem call_keySource (c : Crypto) (b : Bridge) (k : Call) :
    ∀ x, (b.call c k).session? = some x → KeySource c k b x :=
  call_invariant (I := fun t => ∀ x, t.session? = some x → KeySource c k b x)
    (fun _ _ h hmove => hmove.keySource h)
    (fun x hx => .held x hx rfl rfl rfl id)

end

/-- The bridge has just started. -/
structure Init (b : Bridge) : Prop where
  session : b.session? = none
  commandQueue : b.hub.commandQueue = []
  pendingConfigs : b.hub.pendingConfigs = []
  effects : b.hub.effects = []

/-! ## A bridge for concrete runs -/

/-- The bridge and one leaf. -/
def sample : Bridge where
  leafMac := Octets.fit 6 [1]
  hub := { config := { bridgeMac := Octets.fit 6 [9] } }

theorem sample_init : Init sample := ⟨rfl, rfl, rfl, rfl⟩

/-- An environment in which every send succeeds and every nonce is 7. -/
def sampleEnv (now : UInt32) : Env := .quiet now (Octets.fit 16 [7])

/-- The radio delivers `data`. -/
def receives (now : UInt32) (data : Bytes) : Call := .frame (sampleEnv now) sample.leafMac data (-50)

/-- A `JOIN` of the leaf, with the nonce `nonce`. -/
def joinFrom (nonce flags : UInt8) (txCounter : UInt32) : Bytes :=
  (plain .sample sample.leafMac .join (hopsMake 0 1) txCounter none
    (Join.bytes ⟨Octets.fit 16 [nonce], Octets.zero 32, 0, 0, flags⟩)).bytes

/-- The key after a `JOIN` with nonce 1. -/
def sampleKey : SessionKey :=
  Crypto.sample.deriveSessionKey (Octets.fit 16 [7]) (Octets.fit 16 [1])

/-- A frame of the leaf under that key. -/
def sealedFrom (type : PacketType) (hops : UInt8) (txCounter : UInt32) (plaintext : Bytes) : Bytes :=
  (sealed .sample sampleKey sample.leafMac type (hopsMake 0 hops) txCounter none
    ((Crypto.sample.crypt sampleKey txCounter plaintext).getD [])).bytes

/-- The identity of a leaf without entities. -/
def identityPush : Bytes := EntityPayload.bytes ⟨0, 0, 0, 1, List.replicate identityPushSize 0⟩

def heartbeatFrom (hops : UInt8) (txCounter : UInt32) : Bytes :=
  sealedFrom .heartbeat hops txCounter (Heartbeat.bytes ⟨1, 60, Octets.fit 6 [9], 0, 0, 200⟩)

/-- The leaf joins: `JOIN`, schema and heartbeat. -/
def joinCalls : List Call :=
  [receives 1000 (joinFrom 1 0 1), receives 1100 (sealedFrom .schemaPush 1 2 identityPush),
    receives 1200 (heartbeatFrom 1 3)]

/-- A joined leaf. -/
def joined : Bridge := Transition.runFrom (call .sample) sample joinCalls

theorem joined_reachable : Transition.Reachable Init (fun _ _ => True) (call .sample) joined := by
  have hstart : Transition.Reachable Init (fun _ _ => True) (call .sample) sample :=
    .start sample_init
  exact hstart.runFrom ⟨trivial, trivial, trivial, trivial⟩

end Bridge

end EspTree
