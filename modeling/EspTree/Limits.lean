import EspTree.Assembly
import EspTree.Link

/-!
# The two ends agree on the limits

The payload size of a session follows from the flags that the two ends advertise, and the limits on
fragments follow from the payload size.  The bridge settles both when a `JOIN` arrives and the leaf
when it accepts a `JOIN_ACK`.

They agree when both ends advertise the larger size and the bridge restores no other payload size
from its cache.  Otherwise the bridge stays with limits that are not the ones of any payload size,
and a leaf may send values that it does not take.
-/

namespace EspTree

open Wire

variable {η : Type}

/-! ## Agreement -/

/-- The payload size that the flags of the two ends call for. -/
def agreedPayload (leafFlags bridgeFlags : UInt8) : Nat :=
  if hasV2Mtu leafFlags ∧ hasV2Mtu bridgeFlags then v2MaxPayload else v1MaxPayload

/-- A `STATE` message in fragments of `fragSize` bytes comes out whole at the bridge. -/
def FragmentLimits.Takes (limits : FragmentLimits) (fragSize : Nat) (value : Bytes) : Prop :=
  ∀ (index : UInt8) (flags : Nat → UInt8) (base now : UInt32), ∃ a,
    (offerParts true limits (fun n => Remote.fragmentOf index (flags n) value fragSize
      (chunkCount value.length fragSize) n) base now (chunkCount value.length fragSize)).assembly =
        some a ∧ a.complete ∧ a.assemble limits.maxEntityFragment = value

/-- The two ends agree: on the payload size, which is the one that their flags call for, on the
limits that are derived from it, and on the values that fit. -/
structure LimitsAgree (leafFlags bridgeFlags : UInt8) (s : Remote.Session) (x : Bridge.Session) :
    Prop where
  same : s.sessionMaxPayload = x.sessionMaxPayload
  payload : x.sessionMaxPayload = agreedPayload leafFlags bridgeFlags
  derived : x.limits = FragmentLimits.ofMtu x.sessionMaxPayload
  takes : ∀ value : Bytes, value.length ≤ s.limits.maxAssemblyBytes →
    x.limits.Takes s.limits.maxEntityFragment value

/-- A value that fits `k` fragments is cut into no more. -/
theorem chunkCount_le {len fragSize k : Nat} (hpos : 0 < k) (hlen : len ≤ fragSize * k) :
    chunkCount len fragSize ≤ k := by
  refine Nat.max_le.mpr ⟨hpos, ?_⟩
  rcases Nat.eq_zero_or_pos fragSize with rfl | hfrag
  · simp
  · refine Nat.le_of_lt_succ ((Nat.div_lt_iff_lt_mul hfrag).mpr ?_)
    rw [Nat.succ_mul, Nat.mul_comm k]
    omega

/-- With the limits of the larger payload size at both ends, every value fits that the leaf allows. -/
theorem takes_v2 {value : Bytes}
    (hlen : value.length ≤ (FragmentLimits.ofMtu v2MaxPayload).maxAssemblyBytes) :
    (FragmentLimits.ofMtu v2MaxPayload).Takes (FragmentLimits.ofMtu v2MaxPayload).maxEntityFragment
      value := by
  have hcount : chunkCount value.length 1440 ≤ 6 := chunkCount_le (by omega) hlen
  have hroom : (FragmentLimits.ofMtu v2MaxPayload).Room value 1440 := by
    refine ⟨by omega, Nat.le_refl _, by omega, by omega, ?_, ?_, by decide⟩
    · exact Nat.mul_le_mul_right 1440 hcount
    · calc 2 * (chunkCount value.length 1440 * 1440)
          ≤ 2 * (6 * 1440) := Nat.mul_le_mul_left 2 (Nat.mul_le_mul_right 1440 hcount)
        _ ≤ 34560 := by omega
  intro index flags base now
  refine offerParts_complete true base now hroom fun n hn => ⟨?_, ?_, rfl⟩
  · exact isPart_of_lt index (flags n) hn hroom.count
  · exact UInt8.toNat_ofNat_of_lt' (Nat.lt_trans hn hroom.count)

/-! ## The leaf -/

namespace Remote

variable {P : Platform η} {s : Remote η}

/-- The call brings a `JOIN_ACK` with the flags `flags`, and the leaf accepts it. -/
structure AcceptsFlags (P : Platform η) (s : Remote η) (c : Call) (flags : UInt8) (g : Frame) :
    Prop where
  frame : c.frame? = some g
  passes : s.Passes P g
  accepts : s.Accepts g
  size : g.payload.length = JoinAck.size
  flags : (JoinAck.parse g.payload).sessionFlags = flags

/-- The payload size and the limits of a leaf. -/
def Session.mtu (x : Session) : Nat × FragmentLimits := (x.sessionMaxPayload, x.limits)

theorem sendHeartbeat_session (e : Env) (s : Remote η) :
    (s.sendHeartbeat P e).1.session = s.session := by
  unfold sendHeartbeat
  split
  · rfl
  · exact sendUp_session s .heartbeat (s.heartbeat e).bytes

/-- The leaf takes the payload size that the flags in the answer call for. -/
theorem handleJoinAck_mtu (e : Env) {g : Frame} (haccepts : s.Accepts g)
    (hsize : g.payload.length = JoinAck.size) :
    (s.handleJoinAck P e g).1.session.mtu =
      (s.session.accept P (JoinAck.parse g.payload) g.header.txCounter).mtu := by
  unfold handleJoinAck
  dsimp only
  rw [if_neg (fun h => h.2 (haccepts.newer h.1)), if_neg (not_not.mpr hsize),
    if_neg (not_not.mpr haccepts.accepted)]
  split
  · split <;> rfl
  · split
    · split <;> rfl
    · split
      · rw [sendHeartbeat_session]
        rfl
      · rfl

/-- A leaf that accepts a `JOIN_ACK` takes the payload size from its flags. -/
theorem AcceptsFlags.mtu {c : Call} {flags : UInt8} {g : Frame} (h : s.AcceptsFlags P c flags g) :
    (s.call P c).session.mtu =
      if hasV2Mtu flags then (v2MaxPayload, FragmentLimits.ofMtu v2MaxPayload)
      else (v1MaxPayload, FragmentLimits.ofMtu v1MaxPayload) := by
  obtain ⟨hframe, hpasses, haccepts, hsize, rfl⟩ := h
  cases c with
  | loop e => cases hframe
  | stateChange index value => cases hframe
  | textChange index value => cases hframe
  | frame e senderMac data rssi =>
    have hframe : parseFrame data = some g := hframe
    have harrived := (Arrived.noteRssi s senderMac rssi).noteHops g
    set t := (s.noteRssi senderMac rssi).noteHops g with ht
    have hcall : s.call P (.frame e senderMac data rssi) = (t.handleJoinAck P e g).1 := by
      have hplain : isEncryptedPacket g.header.packetType = false := by
        have htype : PacketType.ofCode? g.header.packetType = some .joinAck := haccepts.type
        rw [isEncryptedPacket, htype]
        rfl
      have hlocal : s.shouldHandleLocally g := by
        unfold shouldHandleLocally
        simp [haccepts.leafMac]
      unfold call onEspnowFrame
      dsimp only
      rw [hframe]
      dsimp only
      unfold onFrame
      rw [if_neg (not_not.mpr hpasses.psk), if_neg (Nat.not_le.mpr hpasses.hops),
        if_neg (not_not.mpr hpasses.parent)]
      dsimp only
      rw [hplain, if_neg (fun h => Bool.false_ne_true h.1), shouldHandleLocally_noteRssi,
        if_pos hlocal, ← ht]
      unfold handleLocally
      rw [haccepts.type]
    have haccepts' : t.Accepts g :=
      ⟨haccepts.type, harrived.config ▸ haccepts.leafMac, harrived.session ▸ haccepts.newer,
        haccepts.accepted⟩
    rw [hcall, handleJoinAck_mtu e haccepts' hsize]
    unfold Session.accept Session.mtu
    dsimp only
    split <;> rfl

end Remote

/-! ## The bridge -/

namespace Bridge

variable {c : Crypto} {e : Env} {b b' : Bridge} {k : Call}

/-- The payload size and the limits of a session. -/
def Session.mtu (x : Session) : Nat × FragmentLimits := (x.sessionMaxPayload, x.limits)

/-- What a `JOIN` finds in the cache, if it finds its schema there. -/
def restored? (b : Bridge) (join : Join) : Option Cached :=
  if b.hub.schemaHashCache.lookup b.ensureSession.cacheKey = some join.schemaHash then
    b.hub.schemaCache.lookup b.ensureSession.cacheKey
  else none

/-- What the bridge takes from a `JOIN`. -/
def joinedMtu (b : Bridge) (join : Join) : Nat × FragmentLimits :=
  let mtu := negotiated join.sessionFlags b.hub.config.sessionFlags
  (((b.restored? join).map Cached.sessionMaxPayload).getD mtu.1, mtu.2)

theorem sendJoinAck_mtu (h : Hub) (mac : Mac) (x : Session) (accepted reason stage : UInt8) :
    (sendJoinAck c e h mac x accepted reason stage).2.1.mtu = x.mtu := by
  unfold sendJoinAck
  dsimp only
  split <;> rfl

theorem sendEncrypted_mtu (h : Hub) (mac : Mac) (x : Session) (type : PacketType) (hop : UInt8)
    (plaintext : Bytes) : (sendEncrypted c e h mac x type hop plaintext).2.1.mtu = x.mtu := by
  unfold sendEncrypted
  split
  · rfl
  · split <;> rfl

theorem joinCached_mtu (h : Hub) (x : Session) (mac : Mac) (dirtyCount : UInt8) :
    (joinCached c e h x mac dirtyCount).2.1.mtu = x.mtu := by
  unfold joinCached
  dsimp only
  split
  · exact sendJoinAck_mtu (c := c) (e := e) (h.note (.schemaComplete x.schema.totalEntities)) mac x
      1 0 joinStatusComplete
  · have hack := sendJoinAck_mtu (c := c) (e := e) (h.note (.schemaComplete x.schema.totalEntities))
      mac { x with join := { x.join with stateSyncPending := true, awaitingMoreDirty := true } } 1 0
      joinStatusSendState
    split
    next heq =>
      rw [heq] at hack
      exact hack
    next heq =>
      rw [heq] at hack
      exact hack

theorem joinUncached_mtu (h : Hub) (x : Session) (mac : Mac) :
    (joinUncached c e h x mac).2.1.mtu = x.mtu := by
  unfold joinUncached
  dsimp only
  have hack := sendJoinAck_mtu (c := c) (e := e) h mac { x with schema := { x.schema with
    entities := [], received := false, pendingDescriptorType := descriptorTypeIdentity,
    pendingIndex := 0 } } 1 0 joinStatusSchemaRefresh
  split
  next heq =>
    rw [heq] at hack
    exact hack
  next h' x' heq =>
    rw [heq] at hack
    have hrequest : (requestSchema c e h' mac x' descriptorTypeIdentity 0).2.1.mtu = x'.mtu :=
      sendEncrypted_mtu (c := c) (e := e) h' mac x' .schemaRequest downHop
        (SchemaRequest.bytes ⟨descriptorTypeIdentity, 0⟩)
    split
    next heq' =>
      rw [heq'] at hrequest
      exact hrequest.trans hack
    next heq' =>
      rw [heq'] at hrequest
      exact hrequest.trans hack

/-- The bridge takes the size that the flags in the `JOIN` call for. -/
theorem rekey_mtu (h : Hub) (x : Session) (join : Join) (nonce : Nonce) (f : Frame) (mac : Mac)
    (rssi : Int) : (x.rekey c e h join nonce f mac rssi).mtu =
      negotiated join.sessionFlags h.config.sessionFlags := by
  unfold Session.rekey Session.negotiate negotiated
  dsimp only
  split <;> rfl

/-- The cache brings its payload size, and leaves the limits as they are. -/
theorem restore_mtu (x : Session) (cached? : Option Cached) :
    (x.restore cached?).mtu = ((cached?.map Cached.sessionMaxPayload).getD x.sessionMaxPayload,
      x.limits) := by
  cases cached? <;> rfl

/-- A fresh `JOIN` settles the payload size and the limits. -/
theorem freshJoin_mtu (b : Bridge) (mac : Mac) (f : Frame) (rssi : Int) :
    (freshJoin c e b.hub b.ensureSession mac f rssi).2.1.mtu = b.joinedMtu (Join.parse f.payload) := by
  set y := b.ensureSession.rekey c e b.hub (Join.parse f.payload) e.nonce f mac rssi with hy
  have hmtu : y.mtu = negotiated (Join.parse f.payload).sessionFlags b.hub.config.sessionFlags :=
    rekey_mtu b.hub b.ensureSession (Join.parse f.payload) e.nonce f mac rssi
  have hfields : y.schema.identity.esphomeName = [] ∧
      y.schema.hash = (Join.parse f.payload).schemaHash ∧ y.leafMac = b.ensureSession.leafMac := by
    rw [hy]
    unfold Session.rekey Session.negotiate
    dsimp only
    split <;> exact ⟨rfl, rfl, rfl⟩
  obtain ⟨hname, hhash, hmac⟩ := hfields
  unfold freshJoin
  dsimp only
  rw [← hy, freshJoin_cacheKey b.ensureSession y hmac hname, hhash]
  unfold joinedMtu restored?
  split
  · rw [joinCached_mtu, restore_mtu, ← hmtu]
    rfl
  · rw [joinUncached_mtu, hmtu]
    rfl

/-- `b'` follows on the `JOIN` that `b` took, without another one. -/
inductive Answering (c : Crypto) (b : Bridge) (f : Frame) : Bridge → Prop
  | taken {e : Env} {senderMac : Mac} {data : Bytes} {rssi : Int}
      (hjoins : Joins c (.frame e senderMac data rssi) b e senderMac data rssi f)
      (hleaf : f.header.leafMac = b.leafMac)
      (hparent : f.parentMac.all (fun m => m == Octets.zero 6 || m == b.hub.config.bridgeMac)) :
      Answering c b f (b.call c (.frame e senderMac data rssi))
  | later {b' : Bridge} {k : Call} (h : Answering c b f b')
      (hnone : ∀ e senderMac data rssi g, ¬ Joins c k b' e senderMac data rssi g) :
      Answering c b f (b'.call c k)

/-- The payload size and the limits of a session that has its key. -/
def keyedMtu (b : Bridge) : Option (Nat × FragmentLimits) :=
  b.session?.bind fun x => if x.sessionKeyValid then some x.mtu else none

/-- They change with a `JOIN` only. -/
theorem call_keyedMtu (hnone : ∀ e senderMac data rssi g, ¬ Joins c k b e senderMac data rssi g) :
    (b.call c k).keyedMtu = none ∨ (b.call c k).keyedMtu = b.keyedMtu := by
  refine call_invariant (I := fun t => t.keyedMtu = none ∨ t.keyedMtu = b.keyedMtu) ?_ (.inr rfl)
  intro t t' ih hmove
  cases hmove with
  | send hsend =>
    cases hsend with
    | @session m h x x' hcore =>
      have hmtu : x'.mtu = x.mtu :=
        congrArg (fun z : Core => (z.sessionMaxPayload, z.limits)) hcore
      have hkey : x'.sessionKeyValid = x.sessionKeyValid := congrArg Core.sessionKeyValid hcore
      have hsame : keyedMtu ⟨m, h, some x'⟩ = keyedMtu ⟨m, h, some x⟩ := by
        dsimp only [keyedMtu, Option.bind_some]
        rw [hmtu, hkey]
      rw [hsame]
      exact ih
    | _ => exact ih
  | create | drop | restart | invalidate => exact .inl rfl
  | rekey e senderMac data rssi f hjoins => exact absurd hjoins (hnone e senderMac data rssi f)
  | restored e senderMac data rssi f _ _ hjoins =>
    exact absurd hjoins (hnone e senderMac data rssi f)
  | abandon e senderMac data rssi f hjoins => exact absurd hjoins (hnone e senderMac data rssi f)
  | _ => exact ih

/-- Along the events of an exchange the session either has no key or what the `JOIN` has led to. -/
theorem Answering.keyedMtu {f : Frame} (h : Answering c b f b') :
    b'.keyedMtu = none ∨ b'.keyedMtu = some (b.joinedMtu (Join.parse f.payload)) := by
  induction h with
  | @taken e senderMac data rssi hjoins hleaf hparent =>
    have hfresh := hjoins.fresh
    unfold Session.Repeats at hfresh
    have hcall : b.call c (.frame e senderMac data rssi) =
        (b.store (freshJoin c e b.hub b.ensureSession senderMac f rssi)).1 := by
      unfold call onEspnowFrame
      dsimp only
      rw [hjoins.parsed]
      dsimp only
      rw [if_pos hleaf]
      unfold onFrame
      rw [if_neg (not_not.mpr hparent), hjoins.type]
      dsimp only
      rw [if_neg (not_not.mpr hjoins.size)]
      unfold handleJoin
      dsimp only
      rw [if_neg hjoins.slot, if_neg hfresh]
    rw [hcall]
    dsimp only [store, Bridge.keyedMtu, Option.bind_some]
    split
    · exact .inr (congrArg some (freshJoin_mtu b senderMac f rssi))
    · exact .inl rfl
  | later h hnone ih =>
    rcases call_keyedMtu hnone with hlost | hsame
    · exact .inl hlost
    · rw [hsame]
      exact ih

end Bridge

/-! ## An exchange -/

/-- A `JOIN` and the `JOIN_ACK` that answers it: the bridge takes the `JOIN` `f` in the state `b` and
has the session `x` afterwards, the leaf `s` accepts a `JOIN_ACK` of this bridge and is `s'`
afterwards. -/
structure Exchange (P : Remote.Platform η) (b : Bridge) (f : Frame) (x : Bridge.Session)
    (s s' : Remote η) : Prop where
  bridge : ∃ b', b.Answering P.crypto f b' ∧ b'.session? = some x ∧ x.sessionKeyValid
  leaf : ∃ c g, s.AcceptsFlags P c b.hub.config.sessionFlags g ∧ s' = s.call P c

section

variable {P : Remote.Platform η} {b : Bridge} {f : Frame} {x : Bridge.Session} {s s' : Remote η}

/-- The size and the limits of the bridge after an exchange. -/
theorem Exchange.bridge_mtu (h : Exchange P b f x s s') : x.mtu = b.joinedMtu (Join.parse f.payload) := by
  obtain ⟨b', hanswering, hx, hvalid⟩ := h.bridge
  have hkeyed : b'.keyedMtu = some x.mtu := by
    rw [Bridge.keyedMtu, hx, Option.bind_some, if_pos hvalid]
  rcases hanswering.keyedMtu with hnone | hsome
  · cases hkeyed.symm.trans hnone
  · exact Option.some.inj (hkeyed.symm.trans hsome)

/-- The size and the limits of the leaf after an exchange: they follow from the flags of the bridge
alone. -/
theorem Exchange.leaf_mtu (h : Exchange P b f x s s') : s'.session.mtu =
    if hasV2Mtu b.hub.config.sessionFlags then (v2MaxPayload, FragmentLimits.ofMtu v2MaxPayload)
    else (v1MaxPayload, FragmentLimits.ofMtu v1MaxPayload) := by
  obtain ⟨c, g, haccepts, rfl⟩ := h.leaf
  exact haccepts.mtu

end

/-- After an exchange the two ends agree on the payload size, on the limits that follow from it and
on the values that fit, if and only if both advertise the larger payload size and the bridge
restores no other size from its cache.  Without the flag the bridge keeps the limits that it has,
since its V1 branch changes the size only. -/
theorem limits_agree (P : Remote.Platform η) (b : Bridge) (f : Frame) (x : Bridge.Session)
    (s s' : Remote η) (h : Exchange P b f x s s') :
    LimitsAgree (Join.parse f.payload).sessionFlags b.hub.config.sessionFlags s'.session x ↔
      hasV2Mtu (Join.parse f.payload).sessionFlags ∧ hasV2Mtu b.hub.config.sessionFlags ∧
        ∀ cached ∈ b.restored? (Join.parse f.payload), cached.sessionMaxPayload = v2MaxPayload := by
  have hpayload : x.sessionMaxPayload =
      ((b.restored? (Join.parse f.payload)).map Bridge.Cached.sessionMaxPayload).getD
        (Bridge.negotiated (Join.parse f.payload).sessionFlags b.hub.config.sessionFlags).1 :=
    congrArg Prod.fst h.bridge_mtu
  have hlimits : x.limits =
      (Bridge.negotiated (Join.parse f.payload).sessionFlags b.hub.config.sessionFlags).2 :=
    congrArg Prod.snd h.bridge_mtu
  have hleaf := h.leaf_mtu
  by_cases hv2 : hasV2Mtu (Join.parse f.payload).sessionFlags ∧ hasV2Mtu b.hub.config.sessionFlags
  · rw [Bridge.negotiated, if_pos hv2] at hpayload hlimits
    rw [if_pos hv2.2] at hleaf
    have hleafPayload : s'.session.sessionMaxPayload = v2MaxPayload := congrArg Prod.fst hleaf
    have hleafLimits : s'.session.limits = FragmentLimits.ofMtu v2MaxPayload :=
      congrArg Prod.snd hleaf
    constructor
    · intro hagree
      refine ⟨hv2.1, hv2.2, fun cached hcached => ?_⟩
      have hsize := hagree.payload
      rw [agreedPayload, if_pos hv2, hpayload, Option.mem_def.mp hcached] at hsize
      exact hsize
    · rintro ⟨-, -, hcached⟩
      have hsize : x.sessionMaxPayload = v2MaxPayload := by
        rw [hpayload]
        cases hrestored : b.restored? (Join.parse f.payload) with
        | none => rfl
        | some cached => exact hcached cached hrestored
      refine ⟨hleafPayload.trans hsize.symm, ?_, ?_, fun value hlen => ?_⟩
      · rw [hsize, agreedPayload, if_pos hv2]
      · rw [hlimits, hsize]
      · rw [hleafLimits] at hlen ⊢
        rw [hlimits]
        exact takes_v2 hlen
  · refine iff_of_false (fun hagree => ?_) fun hcond => hv2 ⟨hcond.1, hcond.2.1⟩
    -- the default limits are those of no payload size that can be agreed on
    rw [Bridge.negotiated, if_neg hv2] at hlimits
    have hsize := hagree.payload
    rw [agreedPayload, if_neg hv2] at hsize
    have hderived := hagree.derived
    rw [hlimits, hsize] at hderived
    revert hderived
    decide

/-! ## Two exchanges -/

/-- A leaf and a bridge that both advertise `flags`, when the leaf has sent its `JOIN`. -/
def flaggedLink (flags : UInt8) : Link Unit where
  leaf := Transition.runFrom (Remote.call .sample)
    (Remote.registerEntity (Remote.setUp { leafMac := Link.sampleLeafMac }
      { handlers := fun _ => none } { sessionFlags := flags }) 5 [] [] [] [])
    (Remote.discoverCalls Link.sampleLeafMac Link.sampleBridgeMac nodeRoleBridge 0
      (Link.sampleNonce 1) 0)
  bridge :=
    { leafMac := Link.sampleLeafMac
      hub := { config := { bridgeMac := Link.sampleBridgeMac, sessionFlags := flags } } }

/-- The `JOIN` arrives. -/
def flaggedJoin (flags : UInt8) : Bytes := (flaggedLink flags).leafSent.headD []

def answeredBridge (flags : UInt8) : Bridge :=
  (flaggedLink flags).bridge.call .sample
    (.frame (.quiet 70 (Link.sampleNonce 7)) Link.sampleLeafMac (flaggedJoin flags) (-50))

/-- The answer, which the bridge sent before it asked for the schema. -/
def flaggedAnswer (flags : UInt8) : Bytes :=
  (Link.bridgeSent { flaggedLink flags with bridge := answeredBridge flags }).getD 1 []

def answerCall (flags : UInt8) : Remote.Call :=
  .frame (.quiet 80 (Link.sampleNonce 1)) Link.sampleBridgeMac (flaggedAnswer flags) (-50)

/-- The answer arrives. -/
def answeredLeaf (flags : UInt8) : Remote Unit := (flaggedLink flags).leaf.call .sample (answerCall flags)

/-- What the two frames say. -/
def flaggedJoinOk (flags : UInt8) (f : Frame) : Bool :=
  f.type? == some .join && f.payload.length == Join.size && f.header.leafMac == Link.sampleLeafMac &&
    f.parentMac.all (fun m => m == Octets.zero 6 || m == Link.sampleBridgeMac) &&
    (Join.parse f.payload).sessionFlags == flags

def flaggedAnswerOk (flags : UInt8) (g : Frame) : Bool :=
  validatePsk .sample g && decide ((hopsCount g.header.hopCount).toNat < 5) &&
    g.parentMac.all (fun m => m == Octets.zero 6 || m == Link.sampleLeafMac) &&
    g.type? == some .joinAck && g.header.leafMac == Link.sampleLeafMac &&
    (JoinAck.parse g.payload).accepted == 1 && g.payload.length == JoinAck.size &&
    (JoinAck.parse g.payload).sessionFlags == flags

theorem flagged_exchange (flags : UInt8) {x : Bridge.Session}
    (hjoin : (Bridge.parsePacket .sample (flaggedJoin flags)).any (flaggedJoinOk flags))
    (hx : (answeredBridge flags).session? = some x) (hvalid : x.sessionKeyValid)
    (hanswer : (parseFrame (flaggedAnswer flags)).any (flaggedAnswerOk flags))
    (hleaf : (flaggedLink flags).leaf.session.joined = false ∧
      (flaggedLink flags).leaf.config.leafMac = Link.sampleLeafMac ∧
      (flaggedLink flags).leaf.config.maxHops = 5) :
    ∃ f, (Join.parse f.payload).sessionFlags = flags ∧ Exchange .sample (flaggedLink flags).bridge f x
      (flaggedLink flags).leaf (answeredLeaf flags) := by
  obtain ⟨f, hf, hjoin⟩ := (Option.any_eq_true _ _).mp hjoin
  obtain ⟨g, hg, hanswer⟩ := (Option.any_eq_true _ _).mp hanswer
  simp only [flaggedJoinOk, flaggedAnswerOk, Bool.and_eq_true, beq_iff_eq, decide_eq_true_eq]
    at hjoin hanswer
  obtain ⟨⟨⟨⟨htype, hsize⟩, hmac⟩, hparent⟩, hflags⟩ := hjoin
  obtain ⟨⟨⟨⟨⟨⟨⟨hpsk, hhops⟩, hparent'⟩, htype'⟩, hmac'⟩, haccepted⟩, hsize'⟩, hflags'⟩ := hanswer
  obtain ⟨hjoined, hleafMac, hmaxHops⟩ := hleaf
  refine ⟨f, hflags, ⟨_, .taken ⟨rfl, hf, htype, hsize, nofun, nofun⟩ hmac hparent, hx, hvalid⟩,
    answerCall flags, g, ⟨hg, ⟨hpsk, ?_, ?_⟩, ⟨htype', ?_, ?_, haccepted⟩, hsize', hflags'⟩, rfl⟩
  · rw [hmaxHops]
    exact hhops
  · rw [hleafMac]
    exact hparent'
  · rw [hleafMac]
    exact hmac'
  · rw [hjoined]
    nofun

/-- A leaf and a bridge that both advertise the larger size, and no cache. -/
theorem limits_agree_v2 : ∃ f x, Exchange .sample (flaggedLink sessionFlagV2Mtu).bridge f x
      (flaggedLink sessionFlagV2Mtu).leaf (answeredLeaf sessionFlagV2Mtu) ∧
    LimitsAgree sessionFlagV2Mtu sessionFlagV2Mtu (answeredLeaf sessionFlagV2Mtu).session x := by
  have hsession : (answeredBridge sessionFlagV2Mtu).session?.any (·.sessionKeyValid) := by
    decide +kernel
  obtain ⟨x, hx, hvalid⟩ := (Option.any_eq_true _ _).mp hsession
  obtain ⟨f, hflags, hexchange⟩ := flagged_exchange sessionFlagV2Mtu (by decide +kernel) hx hvalid
    (by decide +kernel) (by decide +kernel)
  have hagree := limits_agree .sample _ f x _ _ hexchange
  rw [hflags] at hagree
  refine ⟨f, x, hexchange, hagree.mpr ⟨by decide, by decide, fun cached hcached => ?_⟩⟩
  cases hcached

/-- A value that a leaf with the smaller payload size may send, and that the bridge does not take. -/
def longValue : Bytes := List.replicate 1100 0

/-- Without the flag the leaf may send a value that the bridge does not take. -/
theorem limits_differ_v1 : ∃ f x, Exchange .sample (flaggedLink 0).bridge f x (flaggedLink 0).leaf
      (answeredLeaf 0) ∧
    longValue.length ≤ (answeredLeaf 0).session.limits.maxAssemblyBytes ∧
    ¬ x.limits.Takes (answeredLeaf 0).session.limits.maxEntityFragment longValue ∧
    ¬ LimitsAgree 0 0 (answeredLeaf 0).session x := by
  have hsession : (answeredBridge 0).session?.any (fun x => x.sessionKeyValid &&
      decide (x.limits = {})) := by
    decide +kernel
  obtain ⟨x, hx, hprops⟩ := (Option.any_eq_true _ _).mp hsession
  simp only [Bool.and_eq_true, decide_eq_true_eq] at hprops
  obtain ⟨hvalid, hlimits⟩ := hprops
  obtain ⟨f, -, hexchange⟩ := flagged_exchange 0 (by decide +kernel) hx hvalid (by decide +kernel)
    (by decide +kernel)
  have hlen : longValue.length ≤ (answeredLeaf 0).session.limits.maxAssemblyBytes := by
    decide +kernel
  have hfrag : (answeredLeaf 0).session.limits.maxEntityFragment = 220 := by decide +kernel
  have hrefused : ¬ x.limits.Takes (answeredLeaf 0).session.limits.maxEntityFragment longValue := by
    rw [hlimits, hfrag]
    intro htakes
    obtain ⟨a, ha, -⟩ := htakes 0 (fun _ => 0) 1 0
    have hnone : (offerParts true {} (fun n => Remote.fragmentOf 0 0 longValue 220
        (chunkCount longValue.length 220) n) 1 0 (chunkCount longValue.length 220)).assembly =
        none := by decide +kernel
    cases hnone.symm.trans ha
  exact ⟨f, x, hexchange, hlen, hrefused, fun hagree => hrefused (hagree.takes longValue hlen)⟩

end EspTree
