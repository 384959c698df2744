import EspTree.Publication

/-!
# The delivery of states to the sinks

`ESPTreeBridge` passes every state that `BridgeProtocol` publishes on to the sinks that are
connected, the MQTT export and the client of the protobuf API, and has the bridge acknowledge it
when all of them have taken it (`esp_tree_bridge/esp_tree_bridge.cpp`).  The record of a delivery is
kept under the leaf, the entity and the counter of the message.  It outlives the session, so after
the leaf has joined again a late receipt acknowledges a message that the new session never had.

As in the rest of the bridge, this is the view of one leaf: a record is found under an entity and a
counter.  `begun` and `receipts` are histories that no function reads.
-/

namespace EspTree

open Wire

/-- `StateDeliverySink`. -/
inductive Sink
  | mqtt | protobuf
  deriving DecidableEq, Repr

def Sink.bit : Sink → UInt8
  | .mqtt => 0x01
  | .protobuf => 0x02

/-- A `STATE` message of a leaf: the key it came in under, its counter and its entity. -/
structure Message where
  key : SessionKey
  txBase : UInt32
  entityIndex : UInt8
  deriving DecidableEq

def Bridge.Publication.message (p : Bridge.Publication) : Message := ⟨p.key, p.txBase, p.entityIndex⟩

structure PendingStateDelivery where
  nextHopMac : Mac
  entityIndex : UInt8
  messageTxBase : UInt32
  requiredSinks : UInt8
  deliveredSinks : UInt8 := 0
  createdMs : UInt32

/-- The record after a receipt. -/
def PendingStateDelivery.delivered (d : PendingStateDelivery) (sink : Sink) : PendingStateDelivery :=
  { d with deliveredSinks := d.deliveredSinks ||| sink.bit }

/-- All the sinks that were required have taken the message. -/
def PendingStateDelivery.complete (d : PendingStateDelivery) : Bool :=
  d.deliveredSinks &&& d.requiredSinks == d.requiredSinks

/-- `ESPTreeBridge`. -/
structure TreeBridge where
  protocol : Bridge
  pendingStateDeliveries : UInt8 × UInt32 → Option PendingStateDelivery := fun _ => none
  /-- The messages whose delivery was begun, with the sinks that were required then. -/
  begun : List (Message × UInt8) := []
  /-- The messages that the sinks have confirmed. -/
  receipts : List (Sink × Message) := []

namespace TreeBridge

variable (c : Crypto) (e : Bridge.Env)

def activeStateDeliverySinks (protobuf mqtt : Bool) : UInt8 :=
  (if protobuf then Sink.protobuf.bit else 0) ||| (if mqtt then Sink.mqtt.bit else 0)

/-- `protocol_.confirm_state_delivery_`. -/
def confirm (g : TreeBridge) (base : UInt32) (nextHopMac : Mac) : TreeBridge :=
  { g with protocol := g.protocol.call c (.confirmState e base nextHopMac) }

/-- `pending_state_deliveries_[key] = d`, or the erasure of the record. -/
def setDelivery (g : TreeBridge) (key : UInt8 × UInt32) (d? : Option PendingStateDelivery) :
    TreeBridge :=
  { g with pendingStateDeliveries := Function.update g.pendingStateDeliveries key d? }

def beginStateDelivery (g : TreeBridge) (p : Bridge.Publication) (requiredSinks : UInt8) :
    TreeBridge :=
  let g := { g with begun := (p.message, requiredSinks) :: g.begun }
  if requiredSinks = 0 then g.confirm c e p.txBase p.nextHopMac
  else
    let d : PendingStateDelivery :=
      { nextHopMac := p.nextHopMac, entityIndex := p.entityIndex, messageTxBase := p.txBase,
        requiredSinks := requiredSinks, createdMs := e.now }
    g.setDelivery (p.entityIndex, p.txBase) (some d)

def markStateSinkDelivered (g : TreeBridge) (entityIndex : UInt8) (base : UInt32) (sink : Sink) :
    TreeBridge :=
  match g.pendingStateDeliveries (entityIndex, base) with
  | none => g
  | some d =>
    let d := d.delivered sink
    if d.complete then
      (g.confirm c e d.messageTxBase d.nextHopMac).setDelivery (entityIndex, base) none
    else g.setDelivery (entityIndex, base) (some d)

def stateDeliveryTimeoutMs : UInt32 := 2000

def expireStateDeliveries (g : TreeBridge) : TreeBridge :=
  let isLive (d : PendingStateDelivery) : Bool := e.now - d.createdMs < stateDeliveryTimeoutMs
  { g with pendingStateDeliveries := fun key => (g.pendingStateDeliveries key).filter isLive }

def bytesToLowerHex (b : Bytes) : Bytes :=
  let digit (n : UInt8) : UInt8 := if n < 10 then 48 + n else 87 + n
  b.flatMap (fun b : UInt8 => [digit (b / 16), digit (b % 16)])

def runtimeSessionId (x : Bridge.Session) (networkId : Bytes) : Bytes :=
  let input := x.bridgeNonce.bytes ++ x.remoteNonce.bytes ++ x.leafMac.bytes ++ networkId
  bytesToLowerHex ((c.hmacSha256 x.sessionKey.bytes input).bytes.take 8)

/-- The check of `api_runtime_handle_state_receipt` on the session that a receipt names. -/
def accepts (g : TreeBridge) (sessionId : Bytes) : Bool :=
  g.protocol.session?.any (fun x =>
    sessionId.isEmpty || sessionId == runtimeSessionId c x g.protocol.hub.config.networkId)

/-- A receipt of a sink is noted, and counted if it is accepted. -/
def receipt (g : TreeBridge) (sink : Sink) (m : Message) (accepted : Bool) : TreeBridge :=
  let g := { g with receipts := (sink, m) :: g.receipts }
  if accepted then g.markStateSinkDelivered c e m.entityIndex m.txBase sink else g

/-- What the callback of `set_publish_state_fn` is given in the course of a call. -/
def published (b b' : Bridge) : Option Bridge.Publication :=
  if b'.hub.publications.length = b.hub.publications.length then none
  else b'.hub.publications.head?

/-- Something that happens to the bridge. -/
inductive Event
  /-- A call into the protocol, with the sinks that are connected then. -/
  | call (k : Bridge.Call) (protobuf mqtt : Bool)
  /-- `mark_mqtt_state_delivered`, for a message that the export has published. -/
  | mqttDelivered (e : Bridge.Env) (m : Message)
  /-- `api_runtime_handle_state_receipt`, for a message that the client has taken. -/
  | stateReceipt (e : Bridge.Env) (sessionId : Bytes) (m : Message)

/-- The state after an event.  Deliveries are confirmed by `begin_state_delivery_` and
`mark_state_sink_delivered_` alone. -/
def step (g : TreeBridge) : Event → TreeBridge
  | .call (.frame e senderMac data rssi) protobuf mqtt =>
    let b := g.protocol.call c (.frame e senderMac data rssi)
    match published g.protocol b with
    | none => { g with protocol := b }
    | some p => beginStateDelivery c e { g with protocol := b } p
        (activeStateDeliverySinks protobuf mqtt)
  | .call (.loop e) _ _ =>
    ({ g with protocol := g.protocol.call c (.loop e) } : TreeBridge).expireStateDeliveries e
  | .call .restart _ _ =>
    { g with protocol := g.protocol.call c .restart, pendingStateDeliveries := fun _ => none }
  | .call (.confirmState ..) _ _ => g
  | .call k _ _ => { g with protocol := g.protocol.call c k }
  | .mqttDelivered e m => g.receipt c e .mqtt m true
  | .stateReceipt e sessionId m => g.receipt c e .protobuf m (g.accepts c sessionId)

end TreeBridge

/-! ## What a call into the protocol does -/

namespace Bridge

section

variable {c : Crypto} {k : Call} {b₀ t t' : Bridge} {x : Session}

/-- The acknowledgements of a call are due, and they go out under the key of the session. -/
def AcksDue (c : Crypto) (k : Call) (b₀ t : Bridge) : Prop :=
  ∀ key counter plaintext, .encrypt .ack key counter plaintext ∈ t.hub.effects →
    .encrypt .ack key counter plaintext ∈ b₀.hub.effects ∨
    ∃ x₀ base, b₀.session? = some x₀ ∧ key = x₀.sessionKey ∧
      plaintext = Ack.bytes ⟨ackState, 0, base⟩ ∧ AckDue c k b₀ key base

theorem AcksDue.note {m : Mac} {h : Hub} {x? x?' : Option Session} {eff : Effect}
    (hdue : AcksDue c k b₀ ⟨m, h, x?⟩)
    (heff : ∀ key counter plaintext, eff ≠ .encrypt .ack key counter plaintext) :
    AcksDue c k b₀ ⟨m, h.note eff, x?'⟩ := by
  intro key counter plaintext hmem
  rcases List.mem_cons.mp hmem with hmem | hmem
  · exact absurd hmem.symm (heff key counter plaintext)
  · exact hdue key counter plaintext hmem

theorem Sending.acksDue (hmove : Sending c t t') (h : AcksDue c k b₀ t) : AcksDue c k b₀ t' := by
  cases hmove with
  | hub heff => exact fun key counter plaintext hmem => h key counter plaintext (heff ▸ hmem)
  | note eff heff =>
    refine h.note fun key counter plaintext heq => ?_
    rw [heq] at heff
    cases heff
  | session | bump => exact h
  | encrypt type plaintext htype => exact h.note fun _ _ _ heq => htype (by cases heq; rfl)

/-- Every move of the bridge acknowledges only the message that the call confirms, under the key
that the session has then. -/
theorem Move.acksDue (hmove : Move c k b₀ t t') (h : AcksDue c k b₀ t)
    (hsource : ∀ x, t.session? = some x → KeySource c k b₀ x) : AcksDue c k b₀ t' := by
  cases hmove with
  | send hsend => exact hsend.acksDue h
  | stateAck base hvalid hdue =>
    intro key counter plaintext hmem
    rcases List.mem_cons.mp hmem with hmem | hmem
    · cases hmem
      refine .inr ?_
      rcases hdue with ⟨x₀, f, view, hbrings, hbase, hlast, hkey⟩ | ⟨e, mac, hk⟩
      · exact ⟨x₀, base, hbrings.session, hkey, rfl, .inl ⟨x₀, f, view, hbrings, hbase, hlast, hkey⟩⟩
      · cases hsource _ rfl with
        | held x₀ hx₀ _ _ hkey _ => exact ⟨x₀, base, hx₀, hkey, rfl, .inr ⟨e, mac, hk⟩⟩
        | drawn _ _ _ _ _ hframe => cases hk.symm.trans hframe
        | created _ _ _ hinvalid => exact absurd (hinvalid.symm.trans hvalid) Bool.false_ne_true
    · exact h key counter plaintext hmem
  | publish | hops | up | down | giveUp => exact h.note fun _ _ _ heq => by cases heq
  | retryCommand | retryConfig | commandFragment => exact h.note fun _ _ _ heq => by cases heq
  | _ => exact h

/-- So does every call. -/
theorem call_acksDue (c : Crypto) (b : Bridge) (k : Call) : AcksDue c k b (b.call c k) := by
  have hboth := call_invariant (b := b) (k := k)
    (I := fun t => AcksDue c k b t ∧ ∀ x, t.session? = some x → KeySource c k b x)
    (fun _ _ h hmove => ⟨hmove.acksDue h.1 h.2, hmove.keySource h.2⟩)
    ⟨fun _ _ _ => .inl, fun x hx => .held x hx rfl rfl rfl id⟩
  exact hboth.1

/-- Where the counter of the last completed message comes from. -/
inductive LastSource (k : Call) (b₀ : Bridge) (x : Session) : Prop
  | reset (h : x.lastCompletedStateMessageTxBase = 0)
  | kept (x₀ : Session) (hx₀ : b₀.session? = some x₀) (hkey : x.sessionKey = x₀.sessionKey)
      (hlast : x.lastCompletedStateMessageTxBase = x₀.lastCompletedStateMessageTxBase)
  | confirmed (x₀ : Session) (hx₀ : b₀.session? = some x₀) (hkey : x.sessionKey = x₀.sessionKey)
      (e : Env) (mac : Mac) (hk : k = .confirmState e x.lastCompletedStateMessageTxBase mac)

theorem LastSource.congr {y : Session} (h : LastSource k b₀ x) (hkey : y.sessionKey = x.sessionKey)
    (hlast : y.lastCompletedStateMessageTxBase = x.lastCompletedStateMessageTxBase) :
    LastSource k b₀ y := by
  cases h with
  | reset h => exact .reset (hlast.trans h)
  | kept x₀ hx₀ hkey₀ hlast₀ => exact .kept x₀ hx₀ (hkey.trans hkey₀) (hlast.trans hlast₀)
  | confirmed x₀ hx₀ hkey₀ e mac hk =>
    exact .confirmed x₀ hx₀ (hkey.trans hkey₀) e mac (by rw [hlast]; exact hk)

theorem Move.lastSource (hmove : Move c k b₀ t t')
    (hsource : ∀ x, t.session? = some x → KeySource c k b₀ x)
    (h : ∀ x, t.session? = some x → LastSource k b₀ x) :
    ∀ x, t'.session? = some x → LastSource k b₀ x := by
  intro x' hx'
  cases hmove with
  | send hsend =>
    cases hsend with
    | hub | note => exact h x' hx'
    | session hcore =>
      cases hx'
      exact (h _ rfl).congr (congrArg Core.sessionKey hcore)
        (congrArg Core.lastCompletedStateMessageTxBase hcore)
    | bump | encrypt =>
      cases hx'
      exact (h _ rfl).congr rfl rfl
  | create =>
    cases hx'
    exact .reset rfl
  | drop | restart => cases hx'
  | rekey _ _ _ _ _ _ _ hcore =>
    cases hx'
    exact .reset (congrArg Core.lastCompletedStateMessageTxBase hcore)
  | confirmed e base mac hk =>
    cases hx'
    cases hsource _ rfl with
    | held x₀ hx₀ _ _ hkey _ => exact .confirmed x₀ hx₀ hkey e mac hk
    | drawn _ _ _ _ _ hframe => cases hk.symm.trans hframe
    | created hframe =>
      rw [hk] at hframe
      cases hframe
  | invalidate | restored | abandon | rejoin | seen | seenMax | online | stateAck | commandFragment
  | up | down
  | giveUp =>
    cases hx'
    exact (h _ rfl).congr rfl rfl
  | publish | hops | queueCommand | queueConfig | retryCommand | retryConfig | queues => exact h x' hx'

theorem call_lastSource (c : Crypto) (b : Bridge) (k : Call) :
    ∀ x, (b.call c k).session? = some x → LastSource k b x := by
  have hboth := call_invariant (b := b) (k := k) (I := fun t =>
      (∀ x, t.session? = some x → LastSource k b x) ∧ ∀ x, t.session? = some x → KeySource c k b x)
    (fun _ _ h hmove => ⟨hmove.lastSource h.2 h.1, hmove.keySource h.2⟩)
    ⟨fun x hx => .kept x hx rfl rfl, fun x hx => .held x hx rfl rfl rfl id⟩
  exact hboth.1

/-- A `STATE` frame does not change the key of the session. -/
theorem BringsState.call_key {f : Frame} {view : EntityPayload} {x' : Session}
    (h : BringsState c k b₀ x f view) (hx' : (b₀.call c k).session? = some x') :
    x'.sessionKey = x.sessionKey := by
  cases call_keySource c b₀ k x' hx' with
  | held x₀ hx₀ _ _ hkey _ =>
    cases h.session.symm.trans hx₀
    exact hkey
  | drawn e senderMac data rssi f' hk hf htype =>
    obtain ⟨e', senderMac', data', rssi', hk', hf'⟩ := h.frame
    cases hk.symm.trans hk'
    cases hf.symm.trans hf'
    cases htype.symm.trans h.type
  | created _ hnone => cases h.session.symm.trans hnone

/-- What was published stays published. -/
theorem call_publications_subset (c : Crypto) (b : Bridge) (k : Call) :
    b.hub.publications ⊆ (b.call c k).hub.publications := by
  obtain hsame | ⟨_, _, _, _, _, _, _, hp⟩ := call_publications c b k
  · rw [hsame]
    exact List.Subset.refl _
  · rw [hp]
    exact List.subset_cons_self _ _

end

end Bridge

namespace TreeBridge

/-! ## Which messages are acknowledged -/

/-- The message with counter `base` under `key` was published, and every sink that was required
then has confirmed it. -/
def Confirmed (g : TreeBridge) (key : SessionKey) (base : UInt32) : Prop :=
  ∃ p ∈ g.protocol.hub.publications, p.key = key ∧ p.txBase = base ∧
    ∃ required, (p.message, required) ∈ g.begun ∧
      ∀ sink : Sink, required &&& sink.bit ≠ 0 → (sink, p.message) ∈ g.receipts

/-- Only such messages are acknowledged. -/
def AcksConfirmed (g : TreeBridge) : Prop :=
  ∀ key counter ack, .encrypt .ack key counter (Ack.bytes ack) ∈ g.protocol.hub.effects →
    ack.ackType = ackState → g.Confirmed key ack.refTxCounter

/-- The message whose delivery the record of an entity and a counter was begun for. -/
def owner? (g : TreeBridge) (key : UInt8 × UInt32) : Option (Message × UInt8) :=
  g.begun.find? (fun q => (q.1.entityIndex, q.1.txBase) == key && q.2 != 0)

/-- A receipt that finds a record confirms the message of the record, and a receipt that completes it
comes while the session has the key of the message. -/
structure Timely (g : TreeBridge) (sink : Sink) (m : Message) : Prop where
  owner : ∀ d ∈ g.pendingStateDeliveries (m.entityIndex, m.txBase),
    ∀ q ∈ g.owner? (m.entityIndex, m.txBase), q.1.key = m.key
  current : ∀ d ∈ g.pendingStateDeliveries (m.entityIndex, m.txBase), (d.delivered sink).complete →
    ∀ x ∈ g.protocol.session?, x.sessionKey = m.key

/-- The condition on an event: receipts are timely, and no `STATE` message has the counter 0, which
a session starts with as the last completed one. -/
def Ok (c : Crypto) (g : TreeBridge) : Event → Prop
  | .call k _ _ => ∀ x f view, Bridge.BringsState c k g.protocol x f view →
      Bridge.messageBase f view = x.lastCompletedStateMessageTxBase → Bridge.messageBase f view ≠ 0
  | .mqttDelivered _ m => g.Timely .mqtt m
  | .stateReceipt _ sessionId m => g.accepts c sessionId → g.Timely .protobuf m

/-- The invariant. -/
structure Sound (g : TreeBridge) : Prop where
  acks : ∀ key counter plaintext, .encrypt .ack key counter plaintext ∈ g.protocol.hub.effects →
    ∃ base, plaintext = Ack.bytes ⟨ackState, 0, base⟩ ∧ g.Confirmed key base
  last : ∀ x ∈ g.protocol.session?, x.lastCompletedStateMessageTxBase ≠ 0 →
    g.Confirmed x.sessionKey x.lastCompletedStateMessageTxBase
  begun : ∀ q ∈ g.begun, ∃ p ∈ g.protocol.hub.publications, p.message = q.1
  records : ∀ key, ∀ d ∈ g.pendingStateDeliveries key, (d.entityIndex, d.messageTxBase) = key ∧
    ∃ m, g.owner? key = some (m, d.requiredSinks) ∧
      ∀ sink : Sink, d.deliveredSinks &&& sink.bit ≠ 0 → (sink, m) ∈ g.receipts

section

variable {c : Crypto} {e : Bridge.Env} {g : TreeBridge}

/-- What was confirmed stays confirmed. -/
theorem Confirmed.mono {g' : TreeBridge} {key : SessionKey} {base : UInt32} (h : g.Confirmed key base)
    (hpublications : g.protocol.hub.publications ⊆ g'.protocol.hub.publications)
    (hbegun : g.begun ⊆ g'.begun) (hreceipts : g.receipts ⊆ g'.receipts) : g'.Confirmed key base := by
  obtain ⟨p, hp, hkey, hbase, required, hq, hsinks⟩ := h
  exact ⟨p, hpublications hp, hkey, hbase, required, hbegun hq,
    fun sink hsink => hreceipts (hsinks sink hsink)⟩

/-- A call into the protocol whose acknowledgements are all for confirmed messages. -/
theorem Sound.protocol_call (h : g.Sound) (k : Bridge.Call)
    (hdue : ∀ x ∈ g.protocol.session?, ∀ base, Bridge.AckDue c k g.protocol x.sessionKey base →
      g.Confirmed x.sessionKey base) :
    Sound { g with protocol := g.protocol.call c k } := by
  set g' : TreeBridge := { g with protocol := g.protocol.call c k }
  have hmono {key : SessionKey} {base : UInt32} (hc : g.Confirmed key base) : g'.Confirmed key base :=
    hc.mono (Bridge.call_publications_subset c g.protocol k) (List.Subset.refl _)
      (List.Subset.refl _)
  refine ⟨fun key counter plaintext hmem => ?_, fun x hx hlast => hmono ?_, fun q hq => ?_, h.records⟩
  · rcases Bridge.call_acksDue c g.protocol k key counter plaintext hmem with
      hold | ⟨x, base, hx, rfl, rfl, hack⟩
    · obtain ⟨base, hbase, hconfirmed⟩ := h.acks key counter plaintext hold
      exact ⟨base, hbase, hmono hconfirmed⟩
    · exact ⟨base, rfl, hmono (hdue x hx base hack)⟩
  · cases Bridge.call_lastSource c g.protocol k x hx with
    | reset hreset => exact absurd hreset hlast
    | kept x₀ hx₀ hkey hkept =>
      rw [hkey, hkept]
      exact h.last x₀ hx₀ (hkept ▸ hlast)
    | confirmed x₀ hx₀ hkey e mac hk =>
      rw [hkey]
      exact hdue x₀ hx₀ _ (.inr ⟨e, mac, hk⟩)
  · obtain ⟨p, hp, hpq⟩ := h.begun q hq
    exact ⟨p, Bridge.call_publications_subset c g.protocol k hp, hpq⟩

/-- The confirmation of a message that is confirmed under the key of the session. -/
theorem Sound.confirm (h : g.Sound) {base : UInt32} (nextHopMac : Mac)
    (hconfirmed : ∀ x ∈ g.protocol.session?, g.Confirmed x.sessionKey base) :
    (g.confirm c e base nextHopMac).Sound := by
  refine h.protocol_call _ fun x hx base' hdue => ?_
  rcases hdue with ⟨_, _, _, hbrings, _⟩ | ⟨e', mac, hk⟩
  · obtain ⟨_, _, _, _, hk, _⟩ := hbrings.frame
    cases hk
  · cases hk
    exact hconfirmed x hx

/-! ## Records -/

theorem owner?_begun (m : Message) (required : UInt8) (key : UInt8 × UInt32) :
    owner? { g with begun := (m, required) :: g.begun } key =
      if (m.entityIndex, m.txBase) = key ∧ required ≠ 0 then some (m, required)
      else g.owner? key := by
  unfold owner?
  by_cases h : (m.entityIndex, m.txBase) = key ∧ required ≠ 0
  · rw [if_pos h]
    exact List.find?_cons_of_pos (by simpa using h)
  · rw [if_neg h]
    exact List.find?_cons_of_neg (by simpa using h)

/-- The message of a record has the entity and the counter of the record. -/
theorem owner?_key {key : UInt8 × UInt32} {q : Message × UInt8} (h : g.owner? key = some q) :
    q ∈ g.begun ∧ (q.1.entityIndex, q.1.txBase) = key := by
  have hq := List.find?_some h
  simp only [Bool.and_eq_true, beq_iff_eq] at hq
  exact ⟨List.mem_of_find?_eq_some h, hq.1⟩

/-- Setting the record of one delivery leaves the others as they are. -/
theorem mem_setDelivery {key key' : UInt8 × UInt32} {d? : Option PendingStateDelivery}
    {d : PendingStateDelivery} (h : d ∈ (g.setDelivery key d?).pendingStateDeliveries key') :
    (key' = key ∧ d? = some d) ∨ (key' ≠ key ∧ d ∈ g.pendingStateDeliveries key') := by
  change Function.update g.pendingStateDeliveries key d? key' = some d at h
  by_cases hsame : key' = key
  · rw [hsame, Function.update_self] at h
    exact .inl ⟨hsame, h⟩
  · rw [Function.update_of_ne hsame] at h
    exact .inr ⟨hsame, h⟩

/-- Erasing records changes nothing. -/
theorem Sound.forget (h : g.Sound) {pending : UInt8 × UInt32 → Option PendingStateDelivery}
    (hsub : ∀ key, ∀ d ∈ pending key, d ∈ g.pendingStateDeliveries key) :
    Sound { g with pendingStateDeliveries := pending } :=
  ⟨h.acks, h.last, h.begun, fun key d hd => h.records key d (hsub key d hd)⟩

/-- So does a record that a delivery was begun for. -/
theorem Sound.setDelivery (h : g.Sound) {key : UInt8 × UInt32} {d : PendingStateDelivery}
    {m : Message} (hkey : (d.entityIndex, d.messageTxBase) = key)
    (howner : g.owner? key = some (m, d.requiredSinks))
    (hsinks : ∀ sink : Sink, d.deliveredSinks &&& sink.bit ≠ 0 → (sink, m) ∈ g.receipts) :
    (g.setDelivery key (some d)).Sound := by
  refine ⟨h.acks, h.last, h.begun, fun key' d' hd' => ?_⟩
  obtain ⟨rfl, hsame⟩ | ⟨-, hother⟩ := mem_setDelivery hd'
  · cases hsame
    exact ⟨hkey, m, howner, hsinks⟩
  · exact h.records key' d' hother

/-- A delivery that begins is for a message of the session's key. -/
theorem Sound.begin (h : g.Sound) {p : Bridge.Publication}
    (hp : p ∈ g.protocol.hub.publications) (hkey : ∀ x ∈ g.protocol.session?, x.sessionKey = p.key)
    (required : UInt8) : (g.beginStateDelivery c e p required).Sound := by
  have hmono {key : SessionKey} {base : UInt32} (hc : g.Confirmed key base) :
      Confirmed { g with begun := (p.message, required) :: g.begun } key base :=
    hc.mono (List.Subset.refl _) (List.subset_cons_self _ _) (List.Subset.refl _)
  have hacks : ∀ key counter plaintext, .encrypt .ack key counter plaintext ∈
      g.protocol.hub.effects → ∃ base, plaintext = Ack.bytes ⟨ackState, 0, base⟩ ∧
        Confirmed { g with begun := (p.message, required) :: g.begun } key base := by
    intro key counter plaintext hmem
    obtain ⟨base, hbase, hconfirmed⟩ := h.acks key counter plaintext hmem
    exact ⟨base, hbase, hmono hconfirmed⟩
  have hbegun : ∀ q ∈ (p.message, required) :: g.begun,
      ∃ p ∈ g.protocol.hub.publications, p.message = q.1 := by
    intro q hq
    rcases List.mem_cons.mp hq with rfl | hq
    · exact ⟨p, hp, rfl⟩
    · exact h.begun q hq
  unfold beginStateDelivery
  dsimp only
  split
  next hnone =>
    subst hnone
    refine Sound.confirm (g := { g with begun := (p.message, 0) :: g.begun })
      ⟨hacks, fun x hx hlast => hmono (h.last x hx hlast), hbegun, fun key d hd => ?_⟩ _
      fun x hx => ?_
    · rw [owner?_begun, if_neg (fun h => h.2 rfl)]
      exact h.records key d hd
    · exact ⟨p, hp, (hkey x hx).symm, rfl, 0, List.mem_cons_self, fun sink hsink => absurd
        UInt8.zero_and hsink⟩
  next hsome =>
    -- the record of another message with the same entity and counter is overwritten
    refine ⟨hacks, fun x hx hlast => hmono (h.last x hx hlast), hbegun, fun key d hd => ?_⟩
    obtain ⟨rfl, hsame⟩ | ⟨hne, hother⟩ := mem_setDelivery hd
    · cases hsame
      refine ⟨rfl, p.message, ?_, fun sink hsink => absurd UInt8.zero_and hsink⟩
      exact (owner?_begun _ _ _).trans (if_pos ⟨rfl, hsome⟩)
    · obtain ⟨hkey, m, howner, hsinks⟩ := h.records key d hother
      refine ⟨hkey, m, ?_, hsinks⟩
      exact ((owner?_begun _ _ _).trans (if_neg fun hboth => hne hboth.1.symm)).trans howner

/-! ## Receipts -/

/-- A bit that neither of two masks has is not in both together. -/
theorem or_and_eq_zero {a s b : UInt8} (ha : a &&& b = 0) (hs : s &&& b = 0) :
    (a ||| s) &&& b = 0 := by
  have hdistrib : (a ||| s) &&& b = (a &&& b) ||| (s &&& b) := by
    rw [← UInt8.toBitVec_inj]
    ext i
    simp [Bool.and_or_distrib_right]
  rw [hdistrib, ha, hs]
  rfl

/-- A sink is marked in a record only by its own receipt. -/
theorem delivered_bit {d : PendingStateDelivery} {sink sink' : Sink}
    (h : (d.delivered sink).deliveredSinks &&& sink'.bit ≠ 0) :
    d.deliveredSinks &&& sink'.bit ≠ 0 ∨ sink' = sink := by
  by_cases hsame : sink' = sink
  · exact .inr hsame
  · have hother : sink.bit &&& sink'.bit = 0 := by
      cases sink <;> cases sink' <;> first | rfl | exact absurd rfl hsame
    exact .inl fun hzero => h (or_and_eq_zero hzero hother)

/-- A record is complete when every sink that it requires is marked. -/
theorem required_delivered {d : PendingStateDelivery} (h : d.complete) {bit : UInt8}
    (hbit : d.requiredSinks &&& bit ≠ 0) : d.deliveredSinks &&& bit ≠ 0 := by
  unfold PendingStateDelivery.complete at h
  rw [beq_iff_eq] at h
  intro hzero
  refine hbit ?_
  rw [← h, UInt8.and_assoc, UInt8.and_comm d.requiredSinks, ← UInt8.and_assoc, hzero]
  exact UInt8.zero_and

/-- A timely receipt that completes a record confirms the message that the record was begun for. -/
theorem Sound.receipt (h : g.Sound) {sink : Sink} {m : Message} {a : Bool}
    (htimely : a → g.Timely sink m) : (g.receipt c e sink m a).Sound := by
  have hnoted : Sound { g with receipts := (sink, m) :: g.receipts } := by
    have hmono {key : SessionKey} {base : UInt32} (hc : g.Confirmed key base) :
        Confirmed { g with receipts := (sink, m) :: g.receipts } key base :=
      hc.mono (List.Subset.refl _) (List.Subset.refl _) (List.subset_cons_self _ _)
    refine ⟨fun key counter plaintext hmem => ?_, fun x hx hlast => hmono (h.last x hx hlast),
      h.begun, fun key d hd => ?_⟩
    · obtain ⟨base, hbase, hconfirmed⟩ := h.acks key counter plaintext hmem
      exact ⟨base, hbase, hmono hconfirmed⟩
    · obtain ⟨hkey, m', howner, hsinks⟩ := h.records key d hd
      exact ⟨hkey, m', howner, fun s hs => List.mem_cons_of_mem _ (hsinks s hs)⟩
  unfold TreeBridge.receipt
  dsimp only
  split
  next haccepted =>
    have htimely := htimely haccepted
    unfold markStateSinkDelivered
    split
    · exact hnoted
    next d hd =>
      obtain ⟨hkey, m', howner, hsinks⟩ := hnoted.records _ d hd
      obtain ⟨hbegun, hm'⟩ := owner?_key howner
      obtain rfl : m' = m := by
        have hkey' := htimely.owner d hd _ howner
        obtain ⟨hentity, hbase⟩ := Prod.mk.inj hm'
        cases m
        cases m'
        simp_all
      have hdelivered (sink' : Sink) (hbit : (d.delivered sink).deliveredSinks &&& sink'.bit ≠ 0) :
          (sink', m') ∈ (sink, m') :: g.receipts := by
        rcases delivered_bit hbit with hbit | rfl
        · exact hsinks sink' hbit
        · exact List.mem_cons_self
      dsimp only
      split
      next hcomplete =>
        refine (hnoted.confirm d.nextHopMac fun x hx => ?_).forget fun key d' hd' => ?_
        · obtain ⟨p, hp, hpm⟩ := hnoted.begun _ hbegun
          obtain rfl : p.message = m' := hpm
          refine ⟨p, hp, (htimely.current d hd hcomplete x hx).symm, ?_, d.requiredSinks, hbegun,
            fun sink' hsink' => hdelivered sink' (required_delivered hcomplete hsink')⟩
          exact (congrArg Prod.snd hkey).symm
        · obtain ⟨-, hnone⟩ | ⟨-, hother⟩ := mem_setDelivery hd'
          · cases hnone
          · exact hother
      next =>
        exact hnoted.setDelivery hkey howner hdelivered
  next => exact hnoted

/-! ## Runs -/

/-- What the callback is given was published in the call, and the session has its key. -/
theorem published_spec {b : Bridge} {k : Bridge.Call} {p : Bridge.Publication}
    (h : published b (b.call c k) = some p) :
    p ∈ (b.call c k).hub.publications ∧ ∀ x ∈ (b.call c k).session?, x.sessionKey = p.key := by
  unfold published at h
  split at h
  · cases h
  next hlength =>
    obtain hsame | ⟨x, f, view, entity, nextHop, hbrings, -, hp⟩ := Bridge.call_publications c b k
    · exact absurd (congrArg List.length hsame) hlength
    · rw [hp] at h ⊢
      cases h
      exact ⟨List.mem_cons_self, fun x' hx' => hbrings.call_key hx'⟩

/-- A call of the protocol keeps the records in line with what was published. -/
theorem Sound.call (h : g.Sound) {k : Bridge.Call}
    (hk : ∀ e base mac, k ≠ .confirmState e base mac)
    (hok : ∀ x f view, Bridge.BringsState c k g.protocol x f view →
      Bridge.messageBase f view = x.lastCompletedStateMessageTxBase →
      Bridge.messageBase f view ≠ 0) :
    Sound { g with protocol := g.protocol.call c k } := by
  refine h.protocol_call k fun x hx base hdue => ?_
  rcases hdue with ⟨x₀, f, view, hbrings, rfl, hlast, -⟩ | ⟨e, mac, hconfirm⟩
  · cases hx.symm.trans hbrings.session
    rw [hlast]
    exact h.last x hx (hlast ▸ hok x f view hbrings hlast)
  · exact absurd hconfirm (hk e base mac)

/-- One event keeps the invariant. -/
theorem Sound.step (h : g.Sound) {ev : Event} (hok : g.Ok c ev) : (g.step c ev).Sound := by
  cases ev with
  | call k protobuf mqtt =>
    cases k with
    | frame e senderMac data rssi =>
      have hcall := h.call (by simp) hok
      dsimp only [TreeBridge.step]
      split
      · exact hcall
      next p hp =>
        obtain ⟨hmem, hkey⟩ := published_spec hp
        exact hcall.begin hmem hkey _
    | loop e =>
      have hcall := h.call (by simp) hok
      refine hcall.forget fun key d hd => ?_
      exact (Option.filter_eq_some_iff.mp hd).1
    | restart =>
      have hcall := h.call (by simp) hok
      exact hcall.forget nofun
    | confirmState => exact h
    | command | configure | otaFrame | discoveryConfirmed | invalidate | others =>
      exact h.call (by simp) hok
  | mqttDelivered e m => exact h.receipt (a := true) fun _ => hok
  | stateReceipt e sessionId m => exact h.receipt hok

/-- The bridge has just started, and no delivery is under way. -/
structure Init (g : TreeBridge) : Prop where
  protocol : Bridge.Init g.protocol
  deliveries : ∀ key, g.pendingStateDeliveries key = none
  begun : g.begun = []

theorem Init.sound (h : g.Init) : g.Sound where
  acks key counter plaintext hmem := by
    rw [h.protocol.effects] at hmem
    cases hmem
  last x hx := by
    rw [h.protocol.session] at hx
    cases hx
  begun q hq := by
    rw [h.begun] at hq
    cases hq
  records key d hd := by
    rw [h.deliveries] at hd
    cases hd

end

/-- The states of the runs whose events all meet the condition. -/
abbrev Reachable (c : Crypto) : TreeBridge → Prop :=
  Transition.Reachable Init (Ok c) (step c)

/-- In a state with the invariant every acknowledgement was confirmed. -/
theorem Sound.acksConfirmed {g : TreeBridge} (h : g.Sound) : g.AcksConfirmed := by
  intro key counter ack hmem _
  obtain ⟨base, hbase, hconfirmed⟩ := h.acks key counter _ hmem
  have hack : ack = ⟨ackState, 0, base⟩ := by
    rw [← Ack.parse_bytes ack, ← Ack.parse_bytes ⟨ackState, 0, base⟩, hbase]
  rw [hack]
  exact hconfirmed

/-- In every run in which receipts are timely, the bridge acknowledges only messages of the session's
key that were published and that every sink required then has confirmed. -/
theorem acks_confirmed (c : Crypto) (g : TreeBridge) (h : Reachable c g) : g.AcksConfirmed :=
  (Transition.Reachable.invariant (I := Sound) (fun _ hinit => hinit.sound)
    (fun _ _ hsound hok => hsound.step hok) h).acksConfirmed

/-! ## A receipt after the next join -/

/-- A frame that opens as no `STATE` message with counter 0 meets the condition. -/
theorem ok_receives {g : TreeBridge} {now : UInt32} {data : Bytes} {protobuf mqtt : Bool}
    (h : g.protocol.session?.all (fun x => (Bridge.parsePacket .sample data).all (fun f =>
      ((Bridge.validateSessionPacket .sample x f).bind EntityPayload.parse).all
        (fun view => Bridge.messageBase f view != 0)))) :
    g.Ok .sample (.call (Bridge.receives now data) protobuf mqtt) := by
  intro x f view hbrings _
  obtain ⟨e, senderMac, data', rssi, hk, hf⟩ := hbrings.frame
  cases hk
  rw [hbrings.session, Option.all_some, hf, Option.all_some, hbrings.opened, Option.all_some] at h
  exact bne_iff_ne.mp h

/-- The bridge of the concrete runs, with the MQTT export connected. -/
def sample : TreeBridge := { protocol := Bridge.sample }

theorem sample_init : sample.Init := ⟨Bridge.sample_init, fun _ => rfl, rfl⟩

/-- The leaf joins and sends a state. -/
def stateEvents : List Event :=
  (Bridge.joinCalls ++ [Bridge.receives 1300 (Bridge.stateFrom 4 1)]).map (.call · false true)

def sent : TreeBridge := Transition.runFrom (step .sample) sample stateEvents

theorem sent_reachable : Reachable .sample sent := by
  have hstart : Reachable .sample sample := .start sample_init
  refine hstart.runFrom ⟨?_, ?_, ?_, ?_, trivial⟩
  · exact ok_receives (by decide +kernel)
  · exact ok_receives (by decide +kernel)
  · exact ok_receives (by decide +kernel)
  · exact ok_receives (by decide +kernel)

/-- The MQTT export has published it. -/
def stateDelivered : Event := .mqttDelivered (Bridge.sampleEnv 1400) ⟨Bridge.sampleKey, 4, 0⟩

def delivered : TreeBridge := sent.step .sample stateDelivered

theorem delivered_reachable : Reachable .sample delivered := by
  have hsent : sent.owner? (0, 4) = some (⟨Bridge.sampleKey, 4, 0⟩, 1) ∧
      sent.protocol.session?.map (·.sessionKey) = some Bridge.sampleKey := by
    decide +kernel
  obtain ⟨howner, hkey⟩ := hsent
  refine .next sent_reachable ⟨fun d _ q hq => ?_, fun d _ _ x hx => ?_⟩
  · cases howner.symm.trans hq
    rfl
  · rw [show sent.protocol.session? = some x from hx] at hkey
    exact Option.some.inj hkey

/-- The bridge has acknowledged a state, which both sinks had confirmed. -/
theorem acks_confirmed_delivered :
    (delivered.protocol.hub.effects.any (fun eff => match eff with
      | .encrypt .ack _ _ plaintext => plaintext == Ack.bytes ⟨ackState, 0, 4⟩
      | _ => false)) = true ∧ delivered.AcksConfirmed :=
  ⟨by decide +kernel, acks_confirmed .sample delivered delivered_reachable⟩

/-- The leaf restarts and joins with another nonce before the export has published the state. -/
def rejoined : TreeBridge :=
  Transition.runFrom (step .sample) sent
    [.call (Bridge.receives 1350 (Bridge.joinFrom 2 0 1)) false true, stateDelivered]

/-- The new session acknowledges a message that was never received in it. -/
theorem acks_unconfirmed_rejoined :
    Transition.Reachable Init (fun _ _ => True) (step .sample) rejoined ∧
      ¬ rejoined.AcksConfirmed := by
  constructor
  · have hsent : Transition.Reachable Init (fun _ _ => True) (step .sample) sent :=
      sent_reachable.mono fun _ _ _ => trivial
    exact hsent.runFrom ⟨trivial, trivial, trivial⟩
  · intro h
    have hrun : .encrypt .ack
          (Crypto.sample.deriveSessionKey (Octets.fit 16 [7]) (Octets.fit 16 [2])) 5
          (Ack.bytes ⟨ackState, 0, 4⟩) ∈ rejoined.protocol.hub.effects ∧
        rejoined.protocol.hub.publications.all (fun p => p.key != Crypto.sample.deriveSessionKey
          (Octets.fit 16 [7]) (Octets.fit 16 [2])) := by
      decide +kernel
    obtain ⟨hack, hnone⟩ := hrun
    obtain ⟨p, hp, hkey, -⟩ := h _ _ _ hack rfl
    exact absurd hkey (bne_iff_ne.mp (List.all_eq_true.mp hnone p hp))

end TreeBridge

end EspTree
