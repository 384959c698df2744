import EspTree.Bridge.Moves

/-!
# Online and offline

`session.online` and `session.remote_state` are set in a dozen places of the bridge, and
`publish_availability_fn_` is called in another dozen.  Two relations between them:

* a leaf in state `NORMAL` is online, as long as no command runs out of retries in that state
  (`Steady`).  A heartbeat brings a leaf online only if it is not `NORMAL`, so this is what makes
  every accepted heartbeat leave it online;
* the last availability that was published is the one that the session holds (`Agrees`), as long as
  the hop count of a leaf that stays offline does not change, and no answer to the `JOIN` of an
  online leaf is lost at the sender (`Announced`).
-/

namespace EspTree

open Wire OtaManager

namespace Bridge

variable {c : Crypto} {e : Env} {k : Call} {b₀ b b' : Bridge} {h : Hub} {x : Session}
  {senderMac : Mac} {data : Bytes} {rssi : Int} {f : Frame}

/-! ## Heartbeats -/

/-- `handle_heartbeat_` is reached with a valid session, and returns true. -/
structure TakesHeartbeat (c : Crypto) (e : Env) (b : Bridge) (senderMac : Mac) (data : Bytes)
    (rssi : Int) (f : Frame) (x : Session) : Prop where
  parsed : parsePacket c data = some f
  leafMac : f.header.leafMac = b.leafMac
  type : f.type? = some .heartbeat
  session : b.session? = some x
  valid : x.sessionKeyValid
  accepted : (b.onEspnowFrame c e senderMac data rssi).2 = true

/-- No command has run out of retries when the loop comes to a leaf in state `NORMAL`. -/
def Steady (c : Crypto) (b : Bridge) : Call → Prop
  | .loop e => ∀ p ∈ (b.beforeQueues c e).hub.commandQueue, maxRetries ≤ p.retryCount →
      ∀ x, (b.beforeQueues c e).session? = some x → x.remoteState ≠ .normal
  | _ => True

/-- The runs whose loops all meet the condition. -/
abbrev SteadyReachable (c : Crypto) : Bridge → Prop :=
  Transition.Reachable Init (Steady c) (call c)

/-- A leaf in state `NORMAL` is online. -/
def NormalOnline (b : Bridge) : Prop :=
  ∀ x, b.session? = some x → x.remoteState = .normal → x.online

/-- Every move of the bridge keeps a normal leaf online, but for the one that `Steady` excludes. -/
theorem NormalOnline.move (h : NormalOnline b) (hok : Steady c b₀ k) (hmove : Move c k b₀ b b') :
    NormalOnline b' := by
  intro x' hx' hnormal
  cases hmove with
  | send hsend =>
    cases hsend with
    | hub | note => exact h x' hx' hnormal
    | session hcore =>
      cases hx'
      have hstate := congrArg Core.remoteState hcore
      exact (congrArg Core.online hcore).trans (h _ rfl (hstate.symm.trans hnormal))
    | bump | encrypt =>
      cases hx'
      have hbefore := h _ rfl hnormal
      exact hbefore
  | create | abandon | down =>
    cases hx'
    cases hnormal
  | drop | restart => cases hx'
  | rekey e senderMac data rssi f hjoins hhub hcore =>
    cases hx'
    have hstate := congrArg Core.remoteState hcore
    cases hnormal.symm.trans hstate
  | giveUp e p y hk hp hlimit hy hstate =>
    cases hx'
    subst hk
    exact absurd (hstate.symm.trans hnormal) (hok p hp hlimit y hy)
  | up =>
    cases hx'
    rfl
  | invalidate | restored | rejoin | seen | seenMax | online | confirmed | stateAck
  | commandFragment =>
    cases hx'
    have hbefore := h _ rfl hnormal
    exact hbefore
  | publish | hops | queueCommand | queueConfig | retryCommand | retryConfig | queues =>
    exact h x' hx' hnormal

/-- The invariant holds in every state of a run. -/
theorem SteadyReachable.normalOnline (hb : SteadyReachable c b) : NormalOnline b := by
  refine hb.invariant (fun b hinit x hx => ?_) (fun b k hb hok => ?_)
  · rw [hinit.session] at hx
    cases hx
  · exact call_invariant (fun _ _ ht hmove => ht.move hok hmove) hb

/-- After an accepted heartbeat the leaf is online, unless it was `NORMAL` and offline. -/
theorem handleHeartbeat_online (haccepted : (handleHeartbeat c e h x senderMac f rssi).2.2 = true) :
    (handleHeartbeat c e h x senderMac f rssi).2.1.online = true ↔
      x.remoteState ≠ .normal ∨ x.online = true := by
  unfold handleHeartbeat at haccepted ⊢
  split at haccepted
  · cases haccepted
  next hvalid =>
  split at haccepted
  · cases haccepted
  next hnew =>
  split at haccepted
  · cases haccepted
  next =>
  split at haccepted
  · cases haccepted
  next hsize =>
  rw [if_neg hvalid, if_neg hnew]
  dsimp only
  rw [if_neg hsize]
  dsimp only [becomeNormal]
  split
  · next hstate => exact ⟨fun _ => .inl hstate, fun _ => rfl⟩
  · next hstate => exact ⟨.inr, fun h => h.resolve_left hstate⟩

/-- The frame gets to the handler, with a session that differs from the present one in its link. -/
theorem TakesHeartbeat.handled (htakes : TakesHeartbeat c e b senderMac data rssi f x) :
    ∃ h y, y.core = x.core ∧ (handleHeartbeat c e h y senderMac f rssi).2.2 = true ∧
      (b.call c (.frame e senderMac data rssi)).session? =
        some (handleHeartbeat c e h y senderMac f rssi).2.1 := by
  obtain ⟨hparsed, hmac, htype, hsession, hvalid, haccepted⟩ := htakes
  have hvalid' : ¬ ¬ (x.heardFrom senderMac rssi).sessionKeyValid := not_not.mpr hvalid
  simp only [call]
  unfold onEspnowFrame at haccepted ⊢
  rw [hparsed] at haccepted ⊢
  dsimp only at haccepted ⊢
  rw [if_pos hmac] at haccepted ⊢
  unfold onFrame at haccepted ⊢
  split at haccepted
  · cases haccepted
  · next hparent =>
    rw [if_neg hparent]
    rw [htype] at haccepted ⊢
    dsimp only at haccepted ⊢
    unfold onSessionFrame at haccepted ⊢
    rw [hsession] at haccepted ⊢
    dsimp only at haccepted ⊢
    rw [if_neg hvalid'] at haccepted ⊢
    split at haccepted
    · cases haccepted
    · next hlen =>
      rw [if_neg hlen]
      rw [htype] at haccepted ⊢
      refine ⟨_, _, ?_, haccepted, rfl⟩
      unfold noteHops
      dsimp only
      split <;> rfl

/-- In every run in which no command runs out of retries while its leaf is `NORMAL`, an accepted
heartbeat leaves the leaf online. -/
theorem online_after_heartbeat (c : Crypto) (b : Bridge) (hb : SteadyReachable c b) (e : Env)
    (senderMac : Mac) (data : Bytes) (rssi : Int) (f : Frame) (x : Session)
    (htakes : TakesHeartbeat c e b senderMac data rssi f x) :
    ∃ x', (b.call c (.frame e senderMac data rssi)).session? = some x' ∧ x'.online = true := by
  obtain ⟨h, y, hcore, haccepted, hafter⟩ := htakes.handled
  refine ⟨_, hafter, (handleHeartbeat_online haccepted).mpr ?_⟩
  have hstate : y.remoteState = x.remoteState := congrArg Core.remoteState hcore
  have honline : y.online = x.online := congrArg Core.online hcore
  rw [hstate, honline]
  by_cases hnormal : x.remoteState = .normal
  · exact .inr (hb.normalOnline x htakes.session hnormal)
  · exact .inl hnormal

theorem joined_steady : SteadyReachable .sample joined := by
  have hstart : SteadyReachable .sample sample := .start sample_init
  exact hstart.runFrom ⟨trivial, trivial, trivial, trivial⟩

/-- The frame and the session of a heartbeat, as they are evaluated on a concrete state. -/
theorem takesHeartbeat_of (c : Crypto) (e : Env) (b : Bridge) (senderMac : Mac) (data : Bytes)
    (rssi : Int)
    (h : ((parsePacket c data).any fun f =>
        decide (f.header.leafMac = b.leafMac) && decide (f.type? = some .heartbeat)) ∧
      (b.session?.any fun x => x.sessionKeyValid) ∧
      (b.onEspnowFrame c e senderMac data rssi).2 = true) :
    ∃ f x, TakesHeartbeat c e b senderMac data rssi f x := by
  obtain ⟨hframe, hsession, haccepted⟩ := h
  obtain ⟨f, hf, hboth⟩ := (Option.any_eq_true _ _).mp hframe
  obtain ⟨x, hx, hvalid⟩ := (Option.any_eq_true _ _).mp hsession
  simp only [Bool.and_eq_true, decide_eq_true_eq] at hboth
  exact ⟨f, x, hf, hboth.1, hboth.2, hx, hvalid, haccepted⟩

/-- The second heartbeat of a leaf that has joined. -/
theorem online_after_heartbeat_joined :
    ∃ x', (joined.call .sample (receives 2000 (heartbeatFrom 1 4))).session? = some x' ∧
      x'.online = true := by
  obtain ⟨f, x, htakes⟩ := takesHeartbeat_of .sample (sampleEnv 2000) joined sample.leafMac
    (heartbeatFrom 1 4) (-50) (by decide +kernel)
  exact online_after_heartbeat .sample joined joined_steady _ _ _ _ f x htakes

/-- A command that the leaf does not acknowledge runs out of retries. -/
def timedOut : Bridge := Transition.runFrom (call .sample) joined
  (.command (sampleEnv 2000) 0 [1] ::
    [3000, 5000, 7000, 9000, 11000].map fun now => .loop (sampleEnv now))

/-- The next heartbeat is accepted, and the leaf stays offline. -/
theorem offline_after_heartbeat_timedOut :
    Transition.Reachable Init (fun _ _ => True) (call .sample) timedOut ∧
      (∃ f x, TakesHeartbeat .sample (sampleEnv 12000) timedOut sample.leafMac (heartbeatFrom 1 4) (-50)
        f x) ∧
      ¬ ∃ x', (timedOut.call .sample (receives 12000 (heartbeatFrom 1 4))).session? = some x' ∧
        x'.online = true := by
  refine ⟨?_, ?_, ?_⟩
  · exact joined_reachable.runFrom ⟨trivial, trivial, trivial, trivial, trivial, trivial, trivial⟩
  · exact takesHeartbeat_of _ _ _ _ _ _ (by decide +kernel)
  · rintro ⟨x', hx', honline⟩
    have hoffline : (timedOut.call .sample (receives 12000 (heartbeatFrom 1 4))).session?.all
        fun x => !x.online := by decide +kernel
    rw [hx', Option.all_some, honline] at hoffline
    cases hoffline

/-! ## What was published -/

/-- The last value that was passed to `publish_availability_fn_`. -/
def lastAvailability (effects : List Effect) : Option Bool :=
  effects.findSome? fun
    | .availability online _ => some online
    | _ => none

/-- What was published last is what the session holds; a leaf whose session is gone is offline. -/
structure Agrees (b : Bridge) : Prop where
  present : ∀ x, b.session? = some x → ∀ v, lastAvailability b.hub.effects = some v → v = x.online
  gone : b.session? = none → ∀ v, lastAvailability b.hub.effects = some v → v = false

/-- The frame brings a leaf that is offline back online. -/
def BringsOnline (c : Crypto) (e : Env) (h : Hub) (x : Session) (f : Frame) (len : Nat) : Prop :=
  len ≤ x.sessionMaxPayload ∧ ∃ plaintext, validateSessionPacket c x f = some plaintext ∧
    match f.type? with
    | some .state => x.remoteState = .normal ∧ ∃ view, EntityPayload.parse plaintext = some view ∧
        counterIsNewer (fragmentMessageTxBase f.header.txCounter view)
          x.lastCompletedStateMessageTxBase ∧
        (offerFragment true x.limits x.stateAssemblies x.stateReservedBytes view
          (fragmentMessageTxBase f.header.txCounter view) e.now).assembly.any (·.complete)
    | some .heartbeat => x.remoteState ≠ .normal ∧
        counterIsNewer f.header.txCounter x.lastSeenCounter ∧ plaintext.length = Heartbeat.size
    | _ => x.remoteState = .normal ∧ counterIsNewer f.header.txCounter x.lastSeenCounter ∧
        Ack.size ≤ plaintext.length ∧ (Ack.parse plaintext).ackType ≠ PacketType.fileTransfer.code ∧
        ((Ack.parse plaintext).ackType = PacketType.config.code →
          (h.pendingConfigs.find? (fun p => p.txBase == (Ack.parse plaintext).refTxCounter)).isSome)

/-- The frames for which the hop count of an offline leaf is noted, and that leave it offline. -/
structure HopsMisleading (c : Crypto) (e : Env) (b : Bridge) (data : Bytes) (f : Frame) (x : Session) :
    Prop where
  type : f.type? = some .state ∨ f.type? = some .heartbeat ∨ f.type? = some .ack
  parent : f.parentMac.all (fun m => m == Octets.zero 6 || m == b.hub.config.bridgeMac)
  session : b.session? = some x
  valid : x.sessionKeyValid
  changed : hopsCount f.header.hopCount ≠ x.link.hopsToBridge
  offline : x.online = false
  stays : ¬ BringsOnline c e b.hub x f data.length

/-- The `JOIN`s of an online leaf whose answer is lost at the sender. -/
structure JoinMisleading (c : Crypto) (e : Env) (b : Bridge) (senderMac : Mac) (data : Bytes)
    (rssi : Int) (f : Frame) : Prop where
  joins : Joins c (.frame e senderMac data rssi) b e senderMac data rssi f
  parent : f.parentMac.all (fun m => m == Octets.zero 6 || m == b.hub.config.bridgeMac)
  online : b.ensureSession.online
  lost : AnswerLost e b.hub b.ensureSession (Join.parse f.payload)

/-- The condition on a call; a run is one of a single `BridgeProtocol`, which does not restart. -/
def Announced (c : Crypto) (b : Bridge) : Call → Prop
  | .frame e senderMac data rssi => ∀ f, parsePacket c data = some f → f.header.leafMac = b.leafMac →
      (∀ x, ¬ HopsMisleading c e b data f x) ∧ ¬ JoinMisleading c e b senderMac data rssi f
  | .restart => False
  | _ => True

/-- The runs whose calls all meet the condition. -/
abbrev AnnouncedReachable (c : Crypto) : Bridge → Prop :=
  Transition.Reachable Init (Announced c) (call c)

section

variable {m : Mac} {x? : Option Session} {eff : Effect} {effects : List Effect}

/-- An effect that publishes nothing leaves the last availability as it was. -/
theorem lastAvailability_of_quiet (heff : eff.isQuiet) :
    lastAvailability (eff :: effects) = lastAvailability effects := by
  cases eff <;> first | rfl | cases heff

/-- What the moves of a frame may rely on. -/
structure Honest (c : Crypto) (k : Call) (b₀ : Bridge) : Prop where
  hops : ∀ e senderMac data rssi f x₀, k = .frame e senderMac data rssi → parsePacket c data = some f →
    b₀.session? = some x₀ → x₀.sessionKeyValid →
    (f.type? = some .state ∨ f.type? = some .heartbeat ∨ f.type? = some .ack) →
    hopsCount f.header.hopCount ≠ x₀.link.hopsToBridge → x₀.online
  join : ∀ e senderMac data rssi f, Joins c k b₀ e senderMac data rssi f →
    AnswerLost e b₀.hub b₀.ensureSession (Join.parse f.payload) → b₀.ensureSession.online = false
  lives : k ≠ .restart

/-- Nothing is published, and the leaf stays as it was. -/
theorem Agrees.congr (h : Agrees b)
    (hlast : lastAvailability b'.hub.effects = lastAvailability b.hub.effects)
    (hsession : ∀ x', b'.session? = some x' → ∃ x, b.session? = some x ∧ x'.online = x.online)
    (hnone : b'.session? = none → b.session? = none) : Agrees b' := by
  constructor
  · intro x' hx' v hv
    obtain ⟨x, hx, honline⟩ := hsession x' hx'
    rw [hlast] at hv
    rw [honline]
    exact h.present x hx v hv
  · intro hgone v hv
    rw [hlast] at hv
    exact h.gone (hnone hgone) v hv

/-- The availability of a session is published. -/
theorem agrees_published {v : Bool} (hlast : lastAvailability b.hub.effects = some v)
    (hsession : b.session? = some x) (honline : x.online = v) : Agrees b := by
  constructor
  · intro y hy w hw
    cases hsession.symm.trans hy
    rw [honline]
    exact (Option.some.inj (hlast.symm.trans hw)).symm
  · intro hnone
    cases hsession.symm.trans hnone

/-- Every move of the bridge that takes a leaf online or offline publishes it, unless the call is
one of those that `Honest` excludes. -/
theorem Agrees.move (h : Agrees b) (hhonest : Honest c k b₀) (hmove : Move c k b₀ b b') :
    Agrees b' := by
  cases hmove with
  | send hsend =>
    cases hsend with
    | hub heff _ _ =>
      exact h.congr (by rw [heff]) (fun x hx => ⟨x, hx, rfl⟩) id
    | note eff heff =>
      exact h.congr (lastAvailability_of_quiet heff) (fun x hx => ⟨x, hx, rfl⟩) id
    | session hcore =>
      refine h.congr rfl (fun x' hx' => ?_) (fun hnone => by cases hnone)
      cases hx'
      exact ⟨_, rfl, congrArg Core.online hcore⟩
    | bump | encrypt =>
      refine h.congr rfl (fun x' hx' => ?_) (fun hnone => by cases hnone)
      cases hx'
      exact ⟨_, rfl, rfl⟩
  | create =>
    constructor
    · intro x' hx' v hv
      cases hx'
      exact h.gone rfl v hv
    · intro hnone
      cases hnone
  | drop _ hoffline =>
    constructor
    · intro x' hx'
      cases hx'
    · intro _ v hv
      exact (h.present _ rfl v hv).trans hoffline
  | restart hk => exact absurd hk hhonest.lives
  | rekey e senderMac data rssi f hjoins hhub hcore =>
    refine h.congr rfl (fun x' hx' => ?_) (fun hnone => by cases hnone)
    cases hx'
    exact ⟨_, rfl, congrArg Core.online hcore⟩
  | abandon e senderMac data rssi f hjoins honline hlost =>
    refine h.congr rfl (fun x' hx' => ?_) (fun hnone => by cases hnone)
    cases hx'
    refine ⟨_, rfl, ?_⟩
    rw [honline, hhonest.join e senderMac data rssi f hjoins hlost]
  | hops e senderMac data rssi f hk hf hx₀ hcore hvalid htype hchanged =>
    refine agrees_published rfl rfl ((congrArg Core.online hcore).trans ?_)
    exact hhonest.hops e senderMac data rssi f _ hk hf hx₀ hvalid htype hchanged
  | up | down | giveUp => exact agrees_published rfl rfl rfl
  | invalidate | restored | rejoin | seen | seenMax | online | confirmed | stateAck
  | commandFragment =>
    refine h.congr rfl (fun x' hx' => ?_) (fun hnone => by cases hnone)
    cases hx'
    exact ⟨_, rfl, rfl⟩
  | publish | queueCommand | queueConfig | retryCommand | retryConfig | queues =>
    exact h.congr rfl (fun x hx => ⟨x, hx, rfl⟩) id

end

/-! ## Frames that bring a leaf online -/

/-- The leaf is online, and that was published last. -/
def UpNow (h : Hub) (x : Session) : Prop :=
  x.online = true ∧ lastAvailability h.effects = some true

theorem valid_of_open {plaintext : Bytes} (hopen : validateSessionPacket c x f = some plaintext) :
    x.sessionKeyValid := by
  unfold validateSessionPacket at hopen
  split at hopen
  · next hvalid => exact hvalid.1
  · cases hopen

/-- A state of a leaf that is normal and offline brings it online, and says so. -/
theorem stateMessage_upNow (hnormal : x.remoteState = .normal) (hoffline : x.online = false)
    (view : EntityPayload) (base : UInt32) (a : FragmentAssembly) :
    UpNow (stateMessage e h x senderMac f rssi view base a).1
      (stateMessage e h x senderMac f rssi view base a).2 := by
  unfold stateMessage
  dsimp only
  generalize hy : (if x.join.stateSyncPending then _ else x) = y
  have hback : y.remoteState = .normal ∧ ¬ y.online := by
    subst hy
    split <;> exact ⟨hnormal, by rw [hoffline]; exact Bool.false_ne_true⟩
  rw [if_pos hback]
  exact ⟨rfl, rfl⟩

/-- The same for the frame that completes the state. -/
theorem handleState_upNow (hnormal : x.remoteState = .normal) (hoffline : x.online = false)
    {plaintext : Bytes} (hopen : validateSessionPacket c x f = some plaintext) {view : EntityPayload}
    (hview : EntityPayload.parse plaintext = some view)
    (hnew : counterIsNewer (fragmentMessageTxBase f.header.txCounter view)
      x.lastCompletedStateMessageTxBase)
    (hcomplete : (offerFragment true x.limits x.stateAssemblies x.stateReservedBytes view
      (fragmentMessageTxBase f.header.txCounter view) e.now).assembly.any (·.complete)) :
    UpNow (handleState c e h x senderMac f rssi).1 (handleState c e h x senderMac f rssi).2.1 := by
  obtain ⟨a, ha, hwhole⟩ := (Option.any_eq_true _ _).mp hcomplete
  unfold handleState
  rw [if_neg (not_not.mpr (valid_of_open hopen)), hopen]
  dsimp only
  rw [hview]
  dsimp only
  rw [if_pos hnew]
  unfold storeState
  dsimp only
  rw [ha]
  dsimp only
  rw [if_neg (not_not.mpr hwhole)]
  refine stateMessage_upNow ?_ ?_ _ _ _
  · exact hnormal
  · exact hoffline

/-- A heartbeat of a leaf that is not normal brings it online. -/
theorem handleHeartbeat_upNow (hstate : x.remoteState ≠ .normal) {plaintext : Bytes}
    (hopen : validateSessionPacket c x f = some plaintext)
    (hnew : counterIsNewer f.header.txCounter x.lastSeenCounter)
    (hsize : plaintext.length = Heartbeat.size) :
    UpNow (handleHeartbeat c e h x senderMac f rssi).1
      (handleHeartbeat c e h x senderMac f rssi).2.1 := by
  unfold handleHeartbeat
  rw [if_neg (not_not.mpr (valid_of_open hopen)), if_neg (not_not.mpr hnew), hopen]
  dsimp only
  rw [if_neg (not_not.mpr hsize)]
  dsimp only [becomeNormal]
  rw [if_pos hstate]
  exact ⟨rfl, rfl⟩

/-- An acknowledgement of a leaf that is normal and offline brings it online. -/
theorem comeBack_upNow (hnormal : x.remoteState = .normal) (hoffline : x.online = false)
    (counter : UInt32) : UpNow (comeBack e h x rssi counter).1 (comeBack e h x rssi counter).2 := by
  unfold comeBack
  rw [if_pos ⟨hnormal, by rw [hoffline]; exact Bool.false_ne_true⟩]
  exact ⟨rfl, rfl⟩

theorem handleAck_upNow (hnormal : x.remoteState = .normal) (hoffline : x.online = false)
    {plaintext : Bytes} (hopen : validateSessionPacket c x f = some plaintext)
    (hnew : counterIsNewer f.header.txCounter x.lastSeenCounter) (hsize : Ack.size ≤ plaintext.length)
    (hfile : (Ack.parse plaintext).ackType ≠ PacketType.fileTransfer.code)
    (hconfig : (Ack.parse plaintext).ackType = PacketType.config.code →
      (h.pendingConfigs.find? (fun p => p.txBase == (Ack.parse plaintext).refTxCounter)).isSome) :
    UpNow (handleAck c e h x f rssi).1 (handleAck c e h x f rssi).2.1 := by
  unfold handleAck
  rw [if_neg (not_not.mpr (valid_of_open hopen)), if_neg (not_not.mpr hnew), hopen]
  dsimp only
  rw [if_neg (not_lt.mpr hsize)]
  unfold dispatchAck
  dsimp only
  rw [if_neg hfile]
  split
  · next hcode =>
    obtain ⟨p, hp⟩ := Option.isSome_iff_exists.mp (hconfig hcode)
    unfold configAcked
    rw [hp]
    refine comeBack_upNow ?_ ?_ _
    · exact hnormal
    · exact hoffline
  · refine comeBack_upNow ?_ ?_ _
    · exact hnormal
    · exact hoffline

/-- Noting the hops changes the link only. -/
theorem noteHops_link (h : Hub) (x : Session) (f : Frame) :
    (∃ l, (noteHops h x f).2 = { x with link := l }) ∧
      (noteHops h x f).1.pendingConfigs = h.pendingConfigs := by
  unfold noteHops
  dsimp only
  split
  · exact ⟨⟨x.link, rfl⟩, rfl⟩
  · exact ⟨⟨_, rfl⟩, rfl⟩

/-- A frame that brings the leaf online, from the dispatcher on. -/
theorem BringsOnline.upNow {len : Nat} (senderMac : Mac) (rssi : Int)
    (hbrings : BringsOnline c e b.hub x f len)
    (htype : f.type? = some .state ∨ f.type? = some .heartbeat ∨ f.type? = some .ack)
    (hsession : b.session? = some x) (hoffline : x.online = false) :
    ∃ x', (b.onSessionFrame c e senderMac f len rssi).1.session? = some x' ∧
      UpNow (b.onSessionFrame c e senderMac f len rssi).1.hub x' := by
  obtain ⟨hlen, plaintext, hopen, hkind⟩ := hbrings
  have hvalid : ¬ ¬ (x.heardFrom senderMac rssi).sessionKeyValid := not_not.mpr (valid_of_open hopen)
  obtain ⟨⟨l, hl⟩, hpending⟩ := noteHops_link b.hub (x.heardFrom senderMac rssi).countPacket f
  set y : Session := { (x.heardFrom senderMac rssi).countPacket with link := l }
  have hyopen : validateSessionPacket c y f = some plaintext := hopen
  have hylen : ¬ y.sessionMaxPayload < len := not_lt.mpr hlen
  unfold onSessionFrame
  rw [hsession]
  dsimp only
  rw [if_neg hvalid, hl]
  generalize (noteHops b.hub (x.heardFrom senderMac rssi).countPacket f).1 = h at hpending
  rw [if_neg hylen]
  rcases htype with htype | htype | htype <;> rw [htype] at hkind ⊢ <;> refine ⟨_, rfl, ?_⟩
  · obtain ⟨hnormal, view, hview, hnew, hcomplete⟩ := hkind
    exact handleState_upNow (x := y) hnormal hoffline hyopen hview hnew hcomplete
  · obtain ⟨hstate, hnew, hsize⟩ := hkind
    exact handleHeartbeat_upNow (x := y) hstate hyopen hnew hsize
  · obtain ⟨hnormal, hnew, hsize, hfile, hconfig⟩ := hkind
    rw [← hpending] at hconfig
    exact handleAck_upNow (x := y) hnormal hoffline hyopen hnew hsize hfile hconfig

/-! ## Runs -/

/-- A frame that gets past the parser and the parent check. -/
theorem Agrees.frame (hb : Agrees b) (hf : parsePacket c data = some f)
    (hmac : f.header.leafMac = b.leafMac)
    (hparent : f.parentMac.all (fun m => m == Octets.zero 6 || m == b.hub.config.bridgeMac))
    (hhops : ∀ x, ¬ HopsMisleading c e b data f x)
    (hjoin : ¬ JoinMisleading c e b senderMac data rssi f) :
    Agrees (b.call c (.frame e senderMac data rssi)) := by
  by_cases hnoted : ∃ x, b.session? = some x ∧ x.sessionKeyValid ∧ x.online = false ∧
      (f.type? = some .state ∨ f.type? = some .heartbeat ∨ f.type? = some .ack) ∧
      hopsCount f.header.hopCount ≠ x.link.hopsToBridge
  · -- the leaf was offline and its hop count is published, so the frame brings it online
    obtain ⟨x, hx, hvalid, hoffline, htype, hchanged⟩ := hnoted
    have hbrings : BringsOnline c e b.hub x f data.length :=
      not_not.mp fun hstays => hhops x ⟨htype, hparent, hx, hvalid, hchanged, hoffline, hstays⟩
    obtain ⟨x', hx', honline, hlast⟩ := hbrings.upNow senderMac rssi htype hx hoffline
    have hcall : b.call c (.frame e senderMac data rssi) =
        (b.onSessionFrame c e senderMac f data.length rssi).1 := by
      simp only [call, onEspnowFrame, hf, hmac, if_true, onFrame, hparent, not_true_eq_false, if_false]
      rcases htype with htype | htype | htype <;> rw [htype]
    rw [hcall]
    exact agrees_published hlast hx' honline
  · have hhonest : Honest c (.frame e senderMac data rssi) b := by
      refine ⟨fun e' senderMac' data' rssi' f' x₀ hk hf' hx₀ hvalid htype hchanged => ?_,
        fun e' senderMac' data' rssi' f' hjoins hlost => ?_, (fun hk => by cases hk)⟩
      · cases hk
        cases hf.symm.trans hf'
        by_contra hoffline
        exact hnoted ⟨x₀, hx₀, hvalid, Bool.eq_false_iff.mpr hoffline, htype, hchanged⟩
      · have hk := hjoins.call
        cases hk
        cases hf.symm.trans hjoins.parsed
        by_contra honline
        exact hjoin ⟨hjoins, hparent, Bool.not_eq_false _ ▸ honline, hlost⟩
    exact call_invariant (fun _ _ ht hmove => ht.move hhonest hmove) hb

/-- What was published last is what the session holds, after every call that meets the condition. -/
theorem Agrees.call (hb : Agrees b) (hok : Announced c b k) : Agrees (b.call c k) := by
  by_cases hframe : k.isFrame
  · cases k with
    | frame e senderMac data rssi =>
      cases hf : parsePacket c data with
      | none => simpa only [Bridge.call, onEspnowFrame, hf] using hb
      | some f =>
        by_cases hmac : f.header.leafMac = b.leafMac
        · cases hparent : f.parentMac.all (fun m => m == Octets.zero 6 || m == b.hub.config.bridgeMac) with
          | true => exact hb.frame hf hmac hparent (hok f hf hmac).1 (hok f hf hmac).2
          | false =>
            simpa only [Bridge.call, onEspnowFrame, hf, hmac, if_true, onFrame, hparent,
              Bool.false_eq_true, not_false_eq_true] using hb
        · simpa only [Bridge.call, onEspnowFrame, hf, hmac, if_false] using hb
    | _ => cases hframe
  · have hhonest : Honest c k b := by
      refine ⟨fun e senderMac data rssi f x₀ hk => ?_, fun e senderMac data rssi f hjoins _ => ?_, ?_⟩
      · exact absurd (by rw [hk]; rfl) hframe
      · exact absurd (by rw [hjoins.call]; rfl) hframe
      · rintro rfl
        exact hok
    exact call_invariant (fun _ _ ht hmove => ht.move hhonest hmove) hb

/-- In every run whose calls meet the condition, what was published last of a leaf is what its
session holds.  Two calls can break it: a frame that changes the hop count publishes the leaf as
online without a look at the session, and a `JOIN` whose answer cannot be sent takes the leaf
offline without a word. -/
theorem availability_agrees (c : Crypto) (b : Bridge) (hb : AnnouncedReachable c b) : Agrees b := by
  refine hb.invariant (fun b hinit => ?_) (fun b k hb hok => hb.call hok)
  constructor
  · intro x hx
    rw [hinit.session] at hx
    cases hx
  · intro _ v hv
    rw [hinit.effects] at hv
    cases hv

/-- The condition on a frame, as it is evaluated on a concrete state: the hop count is the one that
is known or the leaf is online, and a `JOIN` comes from a leaf that is not. -/
theorem announced_frame
    (h : (parsePacket c data).all fun f =>
      b.session?.all (fun x => x.online || decide (hopsCount f.header.hopCount = x.link.hopsToBridge)) &&
      (decide (f.type? ≠ some .join) || !b.ensureSession.online)) :
    Announced c b (.frame e senderMac data rssi) := by
  intro f hf _
  rw [hf, Option.all_some, Bool.and_eq_true] at h
  obtain ⟨hhops, hjoin⟩ := h
  constructor
  · intro x hmisleading
    rw [hmisleading.session, Option.all_some, hmisleading.offline] at hhops
    exact hmisleading.changed (by simpa using hhops)
  · intro hmisleading
    rw [hmisleading.joins.type, hmisleading.online] at hjoin
    simp at hjoin

/-- The leaf joins, moves away by a hop, and falls silent. -/
def silentCalls : List Call :=
  joinCalls ++ [receives 2000 (heartbeatFrom 2 4), .loop (sampleEnv 400000)]

def silent : Bridge := Transition.runFrom (call .sample) sample silentCalls

theorem silent_announced : AnnouncedReachable .sample silent := by
  have hstart : AnnouncedReachable .sample sample := .start sample_init
  refine hstart.runFrom ⟨?_, ?_, ?_, ?_, trivial, trivial⟩
  all_goals exact announced_frame (by decide +kernel)

/-- A leaf that joins, moves away by a hop, and falls silent for longer than its timeout. -/
theorem availability_agrees_silent :
    (lastAvailability silent.hub.effects = some false ∧ silent.session?.any fun x => !x.online) ∧
      Agrees silent :=
  ⟨by decide +kernel, availability_agrees .sample silent silent_announced⟩

/-- An old heartbeat of the silent leaf comes in again over another path. -/
def misled : Bridge := silent.call .sample (receives 401000 (heartbeatFrom 1 3))

/-- It is not accepted, and the leaf is published as online. -/
theorem availability_disagrees_misled :
    Transition.Reachable Init (fun _ k => k ≠ .restart) (call .sample) misled ∧ ¬ Agrees misled := by
  constructor
  · have hsilent : Transition.Reachable Init (fun _ k => k ≠ .restart) (call .sample) silent := by
      refine silent_announced.mono fun b k hok => ?_
      rintro rfl
      exact hok
    exact .next hsilent (fun h => by cases h)
  · intro hagrees
    have hboth : lastAvailability misled.hub.effects = some true ∧
        misled.session?.any fun x => !x.online := by decide +kernel
    obtain ⟨x, hx, hoffline⟩ := (Option.any_eq_true _ _).mp hboth.2
    have honline := hagrees.present x hx true hboth.1
    rw [← honline] at hoffline
    cases hoffline

end Bridge

end EspTree
