import EspTree.Agreement

/-!
# Relaying

What a relay does to a frame that is not for itself.  `forward_frame_` rebuilds the frame from
its parsed pieces, so the first question is what the rebuilt frame keeps: a chain of relays
should be invisible to the two ends of a session.  The second is how long a frame travels.

* `Remote.passes` and `Remote.nextHop?` are the decisions of `on_espnow_frame` on a frame that
  it does not handle locally, and `relayed` is the frame that leaves;
* `Chain` is a frame on its way through any number of relays, and `Transparent` is what the ends
  expect of it;
* `Travels` is a frame on its way through a mesh, where parents and routes say who is next.
-/

namespace EspTree

open Wire

/-! ## The hop byte -/

/-- What `forward_packet_` adds to the hop count: nothing upstream, one downstream. -/
def hopDelta (hop : UInt8) : UInt8 := if hopsIsUpstream hop then 0 else 1

/-- A relay keeps the direction and the `PARENT_CHECK` bit, and the count is four bits wide. -/
theorem forwardHop_spec (hop : UInt8) :
    hopsIsUpstream (Remote.forwardHop hop (hopDelta hop)) = hopsIsUpstream hop ∧
    hasParentCheck (Remote.forwardHop hop (hopDelta hop)) = hasParentCheck hop ∧
    (hopsCount (Remote.forwardHop hop (hopDelta hop))).toNat =
      ((hopsCount hop).toNat + (hopDelta hop).toNat) % 16 := by
  have hfin : ∀ i : Fin 256, let hop := UInt8.ofFin i
      hopsIsUpstream (Remote.forwardHop hop (hopDelta hop)) = hopsIsUpstream hop ∧
      hasParentCheck (Remote.forwardHop hop (hopDelta hop)) = hasParentCheck hop ∧
      (hopsCount (Remote.forwardHop hop (hopDelta hop))).toNat =
        ((hopsCount hop).toNat + (hopDelta hop).toNat) % 16 := by
    decide +kernel
  exact hfin hop.toFin

/-- Downstream every relay counts. -/
theorem hopDelta_of_down {hop : UInt8} (h : hopsIsUpstream hop = false) : hopDelta hop = 1 := by
  simp [hopDelta, h]

/-- The hop count has four bits. -/
theorem hopsCount_lt (hop : UInt8) : (hopsCount hop).toNat < 16 := by
  have hfin : ∀ i : Fin 256, (hopsCount (UInt8.ofFin i)).toNat < 16 := by decide +kernel
  exact hfin hop.toFin

/-! ## The forwarded frame -/

section

variable (c : Crypto)

/-- The frame that a relay sends on. -/
def relayed (f : Frame) : Frame := Remote.forwarded c f (hopDelta f.header.hopCount)

variable {c} {f : Frame}

/-- Neither tag covers the hop byte. -/
theorem relayed_tagged (f : Frame) : (relayed c f).header.tagged = f.header.tagged := by
  rw [Header.tagged_eq, Header.tagged_eq]
  rfl

theorem relayed_hopCount (f : Frame) : (relayed c f).header.hopCount =
    Remote.forwardHop f.header.hopCount (hopDelta f.header.hopCount) := rfl

theorem validatePsk_iff : validatePsk c f ↔
    c.psk.isSome ∧ c.pskTag f.header f.payload = f.header.pskTag := by
  simp [validatePsk, Crypto.verifyPskTag]

/-- The tag that the relay writes is the one that was there. -/
theorem relayed_pskTag (h : validatePsk c f) :
    (relayed c f).header.pskTag = f.header.pskTag := by
  rw [← (validatePsk_iff.mp h).2]
  refine Crypto.pskTag_congr ?_ _
  rw [Header.tagged_eq, Header.tagged_eq]

/-- A relayed frame is as long as the one that came in. -/
theorem length_relayed (h : f.WellFormed) : (relayed c f).bytes.length = f.bytes.length := by
  rw [Frame.length_bytes, Frame.length_bytes]
  have hp := h.parent
  have hlen : (optBytes (relayed c f).parentMac).length = (optBytes f.parentMac).length := by
    simp only [relayed, Remote.forwarded]
    cases hm : f.parentMac with
    | none => simp [← hp, hm]
    | some m => simp [← hp, hm]
  rw [hlen]
  rfl

/-- The parsers accept it. -/
theorem relayed_wellFormed (h : f.WellFormed) : (relayed c f).WellFormed where
  version := h.version
  type := h.type
  parent := by
    rw [relayed_hopCount, (forwardHop_spec _).2.1]
    simp only [relayed, Remote.forwarded]
    cases hasParentCheck f.header.hopCount <;> rfl
  tag := h.tag
  fits := by
    rw [length_relayed h]
    exact h.fits

/-- It passes the test of the pre-shared key, since the tag does not cover what a relay changes. -/
theorem validatePsk_relayed (h : validatePsk c f) : validatePsk c (relayed c f) := by
  refine validatePsk_iff.mpr ⟨(validatePsk_iff.mp h).1, ?_⟩
  exact Crypto.pskTag_congr (by rw [Header.tagged_eq, Header.tagged_eq]; rfl) _

/-- Session validation does not see the relay. -/
theorem validateTag_relayed (key : SessionKey) (f : Frame) :
    validateTag c key (relayed c f) = validateTag c key f := by
  have htag (tag : Octets 8) : c.verifySessionTag key (relayed c f).header f.payload tag =
      c.verifySessionTag key f.header f.payload tag := by
    rw [Crypto.verifySessionTag, Crypto.verifySessionTag,
      Crypto.sessionTag_congr (relayed_tagged f)]
  change f.sessionTag.any (c.verifySessionTag key (relayed c f).header f.payload) =
    f.sessionTag.any (c.verifySessionTag key f.header f.payload)
  cases f.sessionTag with
  | none => rfl
  | some tag => exact htag tag

/-- The extension is written anew, with zeros. -/
theorem relayed_parentMac (h : f.WellFormed) :
    (relayed c f).parentMac = f.parentMac.map (fun _ => Octets.zero 6) := by
  have hp := h.parent
  simp only [relayed, Remote.forwarded]
  cases hm : f.parentMac with
  | none => simp [← hp, hm]
  | some m => simp [← hp, hm]

end

/-! ## Which frames a relay forwards -/

namespace Remote

variable {η : Type} {P : Platform η} {e : Env} {s : Remote η} {senderMac : Mac} {f : Frame}
  {data : Bytes} {rssi : Int}

/-- The checks of `on_espnow_frame` before a frame is forwarded. -/
def passes (c : Crypto) (s : Remote η) (f : Frame) (len : Nat) : Bool :=
  validatePsk c f && decide ((hopsCount f.header.hopCount).toNat < s.config.maxHops) &&
    f.parentMac.all (fun m => m == Octets.zero 6 || m == s.config.leafMac) &&
      !(isEncryptedPacket f.header.packetType && decide (s.session.sessionMaxPayload < len)) &&
        s.route.canRelay

/-- Where `forward_packet_` sends a frame. -/
def nextHop? (s : Remote η) (f : Frame) : Option Mac :=
  if hopsIsUpstream f.header.hopCount then
    if s.route.parentValid then some s.route.parentMac else none
  else (s.findRoute f.header.leafMac).map RouteEntry.nextHopMac

/-- Everything but the radio, the routes and the signal average is the same. -/
structure SameRelay (s s' : Remote η) : Prop where
  config : s'.config = s.config
  session : s'.session = s.session
  parentMac : s'.route.parentMac = s.route.parentMac
  parentValid : s'.route.parentValid = s.route.parentValid
  canRelay : s'.route.canRelay = s.route.canRelay
  relayEnabled : s'.route.relayEnabled = s.route.relayEnabled

namespace SameRelay

theorem refl (s : Remote η) : SameRelay s s := ⟨rfl, rfl, rfl, rfl, rfl, rfl⟩

theorem trans {s₁ s₂ s₃ : Remote η} (h : SameRelay s₁ s₂) (h' : SameRelay s₂ s₃) :
    SameRelay s₁ s₃ :=
  ⟨h'.config.trans h.config, h'.session.trans h.session, h'.parentMac.trans h.parentMac,
    h'.parentValid.trans h.parentValid, h'.canRelay.trans h.canRelay,
    h'.relayEnabled.trans h.relayEnabled⟩

/-- The checks of a relay read nothing but what `SameRelay` has. -/
theorem passes {s' : Remote η} (h : SameRelay s s') (c : Crypto) (f : Frame) (len : Nat) :
    s'.passes c f len = s.passes c f len := by
  simp only [Remote.passes, h.config, h.session, h.canRelay]

theorem shouldHandleLocally {s' : Remote η} (h : SameRelay s s') (f : Frame) :
    s'.shouldHandleLocally f = s.shouldHandleLocally f := by
  simp only [Remote.shouldHandleLocally, h.config, h.session, h.relayEnabled]

end SameRelay

/-- Taking note of the signal changes nothing that a relay decides by. -/
theorem noteRssi_sameRelay (s : Remote η) (senderMac : Mac) (rssi : Int) :
    SameRelay s (s.noteRssi senderMac rssi) := by
  unfold noteRssi
  split
  · exact ⟨rfl, rfl, rfl, rfl, rfl, rfl⟩
  · exact .refl s

theorem noteRssi_radio (s : Remote η) (senderMac : Mac) (rssi : Int) :
    (s.noteRssi senderMac rssi).radio = s.radio := by
  unfold noteRssi
  split <;> rfl

theorem noteRssi_nextHop? (s : Remote η) (senderMac : Mac) (rssi : Int) (f : Frame) :
    (s.noteRssi senderMac rssi).nextHop? f = s.nextHop? f := by
  unfold noteRssi
  split <;> rfl

/-- Refreshing a route changes the table only. -/
theorem refreshRoute_sameRelay (e : Env) (s : Remote η) (leafMac nextHopMac : Mac) :
    SameRelay s (s.refreshRoute e leafMac nextHopMac) := by
  unfold refreshRoute
  split
  · exact .refl s
  · exact ⟨rfl, rfl, rfl, rfl, rfl, rfl⟩

theorem refreshRoute_radio (e : Env) (s : Remote η) (leafMac nextHopMac : Mac) :
    (s.refreshRoute e leafMac nextHopMac).radio = s.radio := by
  unfold refreshRoute
  split <;> rfl

theorem forwardFrame_sameRelay (P : Platform η) (e : Env) (s : Remote η) (mac : Mac) (f : Frame)
    (delta : UInt8) : SameRelay s (s.forwardFrame P e mac f delta).1 := ⟨rfl, rfl, rfl, rfl, rfl, rfl⟩

/-- The only effect of a forwarding step is the forwarded frame. -/
theorem forward_spec (P : Platform η) (e : Env) (s : Remote η) (senderMac : Mac) (f : Frame) :
    let s' := (if hopsIsUpstream f.header.hopCount then s.handleUpstream P e senderMac f
      else s.handleDownstream P e f).1
    SameRelay s s' ∧ s'.radio.effects = (match s.nextHop? f with
      | none => s.radio.effects
      | some mac => .send mac (relayed P.crypto f).bytes (e.sendOk s.radio.effects.length) ::
        s.radio.effects) := by
  dsimp only
  cases hup : hopsIsUpstream f.header.hopCount with
  | true =>
    simp only [if_true, handleUpstream]
    cases hvalid : s.route.parentValid with
    | false =>
      refine ⟨by simpa using SameRelay.refl s, ?_⟩
      simp [nextHop?, hup, hvalid]
    | true =>
      have hs := refreshRoute_sameRelay e s f.header.leafMac senderMac
      have hr := refreshRoute_radio e s f.header.leafMac senderMac
      simp only [not_true_eq_false, if_false, forwardPacket, hup, if_true, hs.parentValid, hvalid]
      refine ⟨hs.trans (forwardFrame_sameRelay P e _ _ f 0), ?_⟩
      simp only [forwardFrame, note, nextHop?, hup, hvalid, if_true, hr, hs.parentMac, relayed,
        hopDelta]
  | false =>
    simp only [Bool.false_eq_true, if_false, handleDownstream, forwardPacket, hup, nextHop?]
    cases hroute : s.findRoute f.header.leafMac with
    | none => exact ⟨.refl s, rfl⟩
    | some route =>
      have hs := refreshRoute_sameRelay e s f.header.leafMac route.nextHopMac
      have hr := refreshRoute_radio e s f.header.leafMac route.nextHopMac
      refine ⟨hs.trans (forwardFrame_sameRelay P e _ _ f 1), ?_⟩
      simp only [forwardFrame, note, hr, relayed, hopDelta_of_down hup, Option.map_some]

/-- A frame that is not handled locally is forwarded to the next hop if it passes the checks,
and has no other effect. -/
theorem onEspnowFrame_spec (P : Platform η) (e : Env) (senderMac : Mac) (rssi : Int)
    (hparse : parseFrame data = some f) (hlocal : s.shouldHandleLocally f = false) :
    SameRelay s (s.onEspnowFrame P e senderMac data rssi).1 ∧
    (s.onEspnowFrame P e senderMac data rssi).1.radio.effects =
      if s.passes P.crypto f data.length then (match s.nextHop? f with
        | none => s.radio.effects
        | some mac => .send mac (relayed P.crypto f).bytes (e.sendOk s.radio.effects.length) ::
          s.radio.effects)
      else s.radio.effects := by
  have hrssi := noteRssi_sameRelay s senderMac rssi
  have hradio := noteRssi_radio s senderMac rssi
  simp only [onEspnowFrame, hparse, onFrame]
  by_cases hpsk : validatePsk P.crypto f
  swap
  · rw [if_pos hpsk]
    exact ⟨.refl s, by simp [passes, hpsk]⟩
  rw [if_neg (not_not.mpr hpsk)]
  by_cases hhops : s.config.maxHops ≤ (hopsCount f.header.hopCount).toNat
  · rw [if_pos hhops]
    exact ⟨.refl s, by simp [passes, Nat.not_lt.mpr hhops]⟩
  rw [if_neg hhops]
  by_cases hparent : f.parentMac.all (fun m => m == Octets.zero 6 || m == s.config.leafMac)
  swap
  · rw [if_pos hparent]
    exact ⟨.refl s, by simp [passes, hparent]⟩
  rw [if_neg (not_not.mpr hparent), hrssi.session]
  by_cases hsize : isEncryptedPacket f.header.packetType ∧ s.session.sessionMaxPayload < data.length
  · rw [if_pos hsize]
    exact ⟨hrssi, by simp [passes, hsize, hradio]⟩
  rw [if_neg hsize, if_neg (by rw [hrssi.shouldHandleLocally, hlocal]; decide), hrssi.canRelay]
  have hpasses : s.passes P.crypto f data.length = s.route.canRelay := by
    have hsize' : (isEncryptedPacket f.header.packetType &&
        decide (s.session.sessionMaxPayload < data.length)) = false := by
      simpa using hsize
    simp [passes, hpsk, Nat.lt_of_not_le hhops, hparent, hsize']
  cases hrelay : s.route.canRelay with
  | false =>
    rw [if_pos (by decide), hpasses, hrelay]
    exact ⟨hrssi, by simp [hradio]⟩
  | true =>
    obtain ⟨hsame, heff⟩ := forward_spec P e (s.noteRssi senderMac rssi) senderMac f
    rw [if_neg (by decide), hpasses, hrelay, if_pos rfl]
    refine ⟨hrssi.trans hsame, heff.trans ?_⟩
    rw [noteRssi_nextHop?, hradio]

/-- The relay passes the frame `data` on as `data'` to `mac`. -/
def Forwards (P : Platform η) (e : Env) (s : Remote η) (senderMac : Mac) (data : Bytes) (rssi : Int)
    (mac : Mac) (data' : Bytes) : Prop :=
  ∃ f ok, parseFrame data = some f ∧ s.shouldHandleLocally f = false ∧
    (s.onEspnowFrame P e senderMac data rssi).1.radio.effects = .send mac data' ok :: s.radio.effects

/-- When a relay forwards, and what. -/
theorem forwards_iff {mac : Mac} {data' : Bytes} :
    Forwards P e s senderMac data rssi mac data' ↔
      ∃ f, parseFrame data = some f ∧ s.shouldHandleLocally f = false ∧
        s.passes P.crypto f data.length ∧ s.nextHop? f = some mac ∧
        data' = (relayed P.crypto f).bytes := by
  have hne (eff : Effect) (l : List Effect) : l ≠ eff :: l :=
    fun h => by simpa using congrArg List.length h
  constructor
  · rintro ⟨f, ok, hparse, hlocal, heff⟩
    rw [(onEspnowFrame_spec P e senderMac rssi hparse hlocal).2] at heff
    by_cases hpass : s.passes P.crypto f data.length
    · rw [if_pos hpass] at heff
      cases hnext : s.nextHop? f with
      | none =>
        rw [hnext] at heff
        exact absurd heff (hne _ _)
      | some mac' =>
        rw [hnext] at heff
        obtain ⟨heq, -⟩ := List.cons.inj heff
        injection heq with hmac hdata _
        exact ⟨f, hparse, hlocal, hpass, by rw [hnext, hmac], hdata.symm⟩
    · rw [if_neg hpass] at heff
      exact absurd heff (hne _ _)
  · rintro ⟨f, hparse, hlocal, hpass, hnext, rfl⟩
    refine ⟨f, e.sendOk s.radio.effects.length, hparse, hlocal, ?_⟩
    rw [(onEspnowFrame_spec P e senderMac rssi hparse hlocal).2, if_pos hpass, hnext]

/-- A frame that is forwarded is parsed again by the next node and passes its PSK check. -/
theorem Forwards.next {mac : Mac} {data' : Bytes} (h : Forwards P e s senderMac data rssi mac data') :
    ∃ f, parseFrame data = some f ∧ f.WellFormed ∧ validatePsk P.crypto f ∧
      data' = (relayed P.crypto f).bytes ∧ parseFrame data' = some (relayed P.crypto f) ∧
      validatePsk P.crypto (relayed P.crypto f) := by
  obtain ⟨f, hparse, -, hpass, -, rfl⟩ := forwards_iff.mp h
  have hwf := (parseFrame_eq_some hparse).1
  have hpsk : validatePsk P.crypto f := by
    simp only [passes, Bool.and_eq_true] at hpass
    exact hpass.1.1.1.1
  exact ⟨f, hparse, hwf, hpsk, rfl, parseFrame_bytes (relayed_wellFormed hwf),
    validatePsk_relayed hpsk⟩

end Remote

/-! ## Transparency -/

/-- A frame `data` that came out as `data'` behind `k` successive relays. -/
inductive Chain (c : Crypto) : Nat → Bytes → Bytes → Prop
  | first {η : Type} {P : Remote.Platform η} {e : Remote.Env} {s : Remote η} {senderMac mac : Mac}
      {rssi : Int} {data data' : Bytes} (hc : P.crypto = c)
      (h : Remote.Forwards P e s senderMac data rssi mac data') : Chain c 1 data data'
  | next {η : Type} {P : Remote.Platform η} {e : Remote.Env} {s : Remote η} {senderMac mac : Mac}
      {rssi : Int} {k : Nat} {data data' data'' : Bytes} (hc : P.crypto = c)
      (hs : Chain c k data data') (h : Remote.Forwards P e s senderMac data' rssi mac data'') :
      Chain c (k + 1) data data''

/-- What the ends of a session see of a frame: everything but the hop count. -/
structure SameContent (c : Crypto) (f f' : Frame) : Prop where
  protocolVersion : f'.header.protocolVersion = f.header.protocolVersion
  packetType : f'.header.packetType = f.header.packetType
  leafMac : f'.header.leafMac = f.header.leafMac
  txCounter : f'.header.txCounter = f.header.txCounter
  pskTag : f'.header.pskTag = f.header.pskTag
  payload : f'.payload = f.payload
  sessionTag : f'.sessionTag = f.sessionTag
  direction : hopsIsUpstream f'.header.hopCount = hopsIsUpstream f.header.hopCount
  parentCheck : hasParentCheck f'.header.hopCount = hasParentCheck f.header.hopCount
  parentMac : f'.parentMac = f.parentMac.map (fun _ => Octets.zero 6)
  /-- The bridge validates and decrypts both alike. -/
  bridge : ∀ x, Bridge.validateSessionPacket c x f' = Bridge.validateSessionPacket c x f
  /-- So does the leaf. -/
  leaf : ∀ {η : Type} (P : Remote.Platform η) (r : Remote η), P.crypto = c →
    r.openFrame P f' = r.openFrame P f

/-- The hop count behind `k` relays. -/
def hopsBehind (f : Frame) (k : Nat) : Nat :=
  (hopsCount f.header.hopCount).toNat + if hopsIsUpstream f.header.hopCount then 0 else k

/-- What the ends expect of a chain of `k` relays: the frame that comes out is accepted again and
is the frame that went in, with the relays counted downstream. -/
def Transparent (c : Crypto) (k : Nat) (f : Frame) (data' : Bytes) : Prop :=
  ∃ f', parseFrame data' = some f' ∧ validatePsk c f' ∧ SameContent c f f' ∧
    (hopsCount f'.header.hopCount).toNat = hopsBehind f k

section

variable {c : Crypto} {f f' : Frame}

/-- What the two ends of a session see of a frame is the same after a relay. -/
theorem relayed_sameContent (hwf : f.WellFormed) (hpsk : validatePsk c f) :
    SameContent c f (relayed c f) where
  protocolVersion := rfl
  packetType := rfl
  leafMac := rfl
  txCounter := rfl
  pskTag := relayed_pskTag hpsk
  payload := rfl
  sessionTag := rfl
  direction := (forwardHop_spec _).1
  parentCheck := (forwardHop_spec _).2.1
  parentMac := relayed_parentMac hwf
  bridge x := by
    simp only [Bridge.validateSessionPacket, validateTag_relayed]
    rfl
  leaf P r hc := by
    subst hc
    simp only [Remote.openFrame, Remote.validateSession, validateTag_relayed]
    rfl

theorem SameContent.trans {f₁ f₂ f₃ : Frame} (h : SameContent c f₁ f₂) (h' : SameContent c f₂ f₃) :
    SameContent c f₁ f₃ where
  protocolVersion := h'.protocolVersion.trans h.protocolVersion
  packetType := h'.packetType.trans h.packetType
  leafMac := h'.leafMac.trans h.leafMac
  txCounter := h'.txCounter.trans h.txCounter
  pskTag := h'.pskTag.trans h.pskTag
  payload := h'.payload.trans h.payload
  sessionTag := h'.sessionTag.trans h.sessionTag
  direction := h'.direction.trans h.direction
  parentCheck := h'.parentCheck.trans h.parentCheck
  parentMac := by
    rw [h'.parentMac, h.parentMac, Option.map_map]
    rfl
  bridge x := (h'.bridge x).trans (h.bridge x)
  leaf P r hc := (h'.leaf P r hc).trans (h.leaf P r hc)

/-- One relay more, in the four bits of the count. -/
theorem hopsCount_relayed (f : Frame) :
    (hopsCount (relayed c f).header.hopCount).toNat = hopsBehind f 1 % 16 := by
  rw [relayed_hopCount, (forwardHop_spec _).2.2, hopsBehind, hopDelta]
  cases hopsIsUpstream f.header.hopCount <;> rfl

/-- A chain of relays keeps everything, and counts its length modulo 16. -/
theorem Chain.kept {k : Nat} {data data' : Bytes} (h : Chain c k data data')
    (hparse : parseFrame data = some f) :
    ∃ f', parseFrame data' = some f' ∧ validatePsk c f' ∧ SameContent c f f' ∧
      (hopsCount f'.header.hopCount).toNat = hopsBehind f k % 16 := by
  induction h with
  | first hc h =>
    subst hc
    obtain ⟨g, hg, hwf, hpsk, -, hparse', hpsk'⟩ := h.next
    obtain rfl := Option.some.inj (hg.symm.trans hparse)
    exact ⟨_, hparse', hpsk', relayed_sameContent hwf hpsk, hopsCount_relayed _⟩
  | next hc hs h ih =>
    subst hc
    obtain ⟨g, hg, hpsk, hsame, hcount⟩ := ih hparse
    obtain ⟨g', hg', hwf, hpsk', -, hparse', hpsk''⟩ := h.next
    obtain rfl := Option.some.inj (hg'.symm.trans hg)
    refine ⟨_, hparse', hpsk'', hsame.trans (relayed_sameContent hwf hpsk'), ?_⟩
    rw [hopsCount_relayed, hopsBehind, hcount, hsame.direction, hopsBehind, hopsBehind]
    cases hopsIsUpstream f.header.hopCount with
    | true => simp
    | false =>
      simp only [Bool.false_eq_true, if_false]
      omega

/-- A chain of relays is transparent exactly when its length fits the four bits of the hop
count, or when nothing is counted.  The limit on hops does not ensure it: `max_hops` may be 16. -/
theorem transparent_iff {k : Nat} {data data' : Bytes} (h : Chain c k data data')
    (hparse : parseFrame data = some f) :
    Transparent c k f data' ↔ hopsIsUpstream f.header.hopCount ∨
      (hopsCount f.header.hopCount).toNat + k ≤ 15 := by
  obtain ⟨g, hg, hpsk, hsame, hcount⟩ := h.kept hparse
  have hlt := hopsCount_lt f.header.hopCount
  constructor
  · rintro ⟨g', hg', -, -, hexact⟩
    obtain rfl := Option.some.inj (hg.symm.trans hg')
    have hfits : hopsBehind f k < 16 := by
      rw [← hexact, hcount]
      exact Nat.mod_lt _ (by decide)
    rw [hopsBehind] at hfits
    cases hup : hopsIsUpstream f.header.hopCount with
    | true => exact .inl rfl
    | false =>
      rw [hup] at hfits
      simp only [Bool.false_eq_true, if_false] at hfits
      exact .inr (by omega)
  · intro hfits
    refine ⟨g, hg, hpsk, hsame, hcount.trans (Nat.mod_eq_of_lt ?_)⟩
    rw [hopsBehind]
    cases hup : hopsIsUpstream f.header.hopCount with
    | true => simpa using hlt
    | false =>
      simp only [hup, Bool.false_eq_true, if_false, false_or] at hfits ⊢
      omega

end

/-- A relay below the bridge at its farthest allowed place, with a route to a leaf of address
`leafMac`. -/
def farRelay (maxHops : Nat) (leafMac : Mac) : Remote Unit where
  config := { leafMac := Octets.fit 6 [9], maxHops := maxHops }
  session := { normal := true, joined := true }
  route := { parentValid := true, canRelay := true, routes := [⟨leafMac, leafMac, 0⟩] }
  files := { handlers := fun _ => none }

/-- A downstream frame whose hop count is `count`. -/
def countedFrame (count : UInt8) : Frame :=
  plain .sample (Octets.zero 6) .deauth (hopsMake hopsDirBit count) 1 none []

/-- The relay forwards such a frame when it accepts it. -/
theorem farRelay_chain {count : UInt8}
    (h : parseFrame (countedFrame count).bytes = some (countedFrame count) ∧
      (farRelay 16 (Octets.zero 6)).shouldHandleLocally (countedFrame count) = false ∧
      (farRelay 16 (Octets.zero 6)).passes .sample (countedFrame count)
        (countedFrame count).bytes.length ∧
      (farRelay 16 (Octets.zero 6)).nextHop? (countedFrame count) = some (Octets.zero 6)) :
    Chain .sample 1 (countedFrame count).bytes (relayed .sample (countedFrame count)).bytes := by
  have hforward : Remote.Forwards .sample (.quiet 0 (Octets.zero 16)) (farRelay 16 (Octets.zero 6))
      (Octets.zero 6) (countedFrame count).bytes 0 (Octets.zero 6)
      (relayed .sample (countedFrame count)).bytes :=
    Remote.forwards_iff.mpr ⟨_, h.1, h.2.1, h.2.2.1, h.2.2.2, rfl⟩
  exact .first rfl hforward

/-- A chain of one relay is transparent to a frame that has passed three. -/
theorem transparent_iff_three :
    Transparent .sample 1 (countedFrame 3) (relayed .sample (countedFrame 3)).bytes :=
  (transparent_iff (farRelay_chain (by decide +kernel)) (by decide +kernel)).mpr (.inr (by decide))

/-- Where `max_hops` is 16, the count of a frame that has passed fifteen relays starts over. -/
theorem transparent_fails_at_fifteen :
    Chain .sample 1 (countedFrame 15).bytes (relayed .sample (countedFrame 15)).bytes ∧
      parseFrame (countedFrame 15).bytes = some (countedFrame 15) ∧
      (hopsCount (relayed .sample (countedFrame 15)).header.hopCount).toNat = 0 ∧
      ¬ Transparent .sample 1 (countedFrame 15) (relayed .sample (countedFrame 15)).bytes := by
  have hparse : parseFrame (countedFrame 15).bytes = some (countedFrame 15) := by decide +kernel
  have hout : parseFrame (relayed .sample (countedFrame 15)).bytes =
      some (relayed .sample (countedFrame 15)) := by
    decide +kernel
  have hzero : (hopsCount (relayed .sample (countedFrame 15)).header.hopCount).toNat = 0 := by
    decide +kernel
  refine ⟨farRelay_chain (by decide +kernel), hparse, hzero, ?_⟩
  rintro ⟨g, hg, -, -, hcount⟩
  obtain rfl := Option.some.inj (hout.symm.trans hg)
  rw [hzero] at hcount
  exact absurd hcount (by decide +kernel)

/-! ## Travelling through a mesh -/

/-- The nodes by address. -/
abbrev Mesh (η : Type) := Mac → Remote η

/-- A frame in the air: who sent it, to whom. -/
structure Flight where
  sender : Mac
  dst : Mac
  data : Bytes

section

variable {η : Type} (P : Remote.Platform η)

/-- A frame on its way: from `start` it has been retransmitted `k` times.  Each relay keeps what
it learned from the frame. -/
inductive Travels (mesh : Mesh η) (start : Flight) : Nat → Mesh η → Flight → Prop
  | start : Travels mesh start 0 mesh start
  | hop {k : Nat} {m : Mesh η} {fl : Flight} {e : Remote.Env} {rssi : Int} {mac : Mac} {data' : Bytes}
      (hs : Travels mesh start k m fl)
      (h : Remote.Forwards P e (m fl.dst) fl.sender fl.data rssi mac data') :
      Travels mesh start (k + 1)
        (Function.update m fl.dst ((m fl.dst).onEspnowFrame P e fl.sender fl.data rssi).1)
        ⟨fl.dst, mac, data'⟩

/-- The node that is `i` parents above `a`. -/
def Mesh.ancestor (mesh : Mesh η) (a : Mac) : Nat → Mac
  | 0 => a
  | i + 1 => (mesh (Mesh.ancestor mesh a i)).route.parentMac

/-- The node takes an upstream frame and sends it on to its parent. -/
def Remote.relaysUp (c : Crypto) (s : Remote η) (f : Frame) (len : Nat) : Bool :=
  !s.shouldHandleLocally f && s.passes c f len && s.route.parentValid

variable {P} {mesh : Mesh η} {start : Flight} {f : Frame}

theorem Remote.SameRelay.relaysUp {s s' : Remote η} (h : s.SameRelay s') (c : Crypto) (f : Frame)
    (len : Nat) : s'.relaysUp c f len = s.relaysUp c f len := by
  simp only [Remote.relaysUp, h.shouldHandleLocally, h.passes, h.parentValid]

/-- Relaying changes no parent. -/
theorem Travels.sameRelay {k : Nat} {m : Mesh η} {fl : Flight} (h : Travels P mesh start k m fl)
    (a : Mac) : (mesh a).SameRelay (m a) := by
  induction h with
  | start => exact .refl _
  | @hop k m fl e rssi mac data' hs h ih =>
    obtain ⟨f, hparse, hlocal, -⟩ := Remote.forwards_iff.mp h
    by_cases ha : a = fl.dst
    · subst ha
      rw [Function.update_self]
      exact ih.trans (Remote.onEspnowFrame_spec P e fl.sender rssi hparse hlocal).1
    · rwa [Function.update_of_ne ha]

/-- The frame in the air is the first one, relayed so often. -/
theorem Travels.parse {k : Nat} {m : Mesh η} {fl : Flight} (h : Travels P mesh start k m fl)
    (hparse : parseFrame start.data = some f) :
    parseFrame fl.data = some ((relayed P.crypto)^[k] f) ∧ fl.data.length = start.data.length := by
  induction h with
  | start => exact ⟨hparse, rfl⟩
  | hop hs h ih =>
    obtain ⟨hfl, hlen⟩ := ih
    obtain ⟨g, hg, hwf, -, rfl, hg', -⟩ := h.next
    obtain rfl := Option.some.inj (hg.symm.trans hfl)
    refine ⟨by rw [hg', Function.iterate_succ_apply'], ?_⟩
    dsimp only
    rw [length_relayed hwf, ← hlen, (parseFrame_eq_some hg).2]

/-- A frame keeps its direction on all of its way. -/
theorem iterate_relayed_upstream (c : Crypto) (f : Frame) (k : Nat) :
    hopsIsUpstream ((relayed c)^[k] f).header.hopCount = hopsIsUpstream f.header.hopCount := by
  induction k with
  | zero => rfl
  | succ k ih => rw [Function.iterate_succ_apply', relayed_hopCount, (forwardHop_spec _).1, ih]

/-- An upstream frame follows the parents, and every node on its way took it. -/
theorem Travels.up {k : Nat} {m : Mesh η} {fl : Flight} (h : Travels P mesh start k m fl)
    (hparse : parseFrame start.data = some f) (hup : hopsIsUpstream f.header.hopCount) :
    fl.dst = mesh.ancestor start.dst k ∧ ∀ i < k,
      (mesh (mesh.ancestor start.dst i)).relaysUp P.crypto ((relayed P.crypto)^[i] f)
        start.data.length := by
  induction h with
  | start => exact ⟨rfl, fun i hi => absurd hi (Nat.not_lt_zero i)⟩
  | @hop k m fl e rssi mac data' hs h ih =>
    obtain ⟨hdst, htook⟩ := ih
    obtain ⟨hfl, hlen⟩ := hs.parse hparse
    have hsame := hs.sameRelay fl.dst
    obtain ⟨g, hg, hlocal, hpass, hnext, rfl⟩ := Remote.forwards_iff.mp h
    obtain rfl := Option.some.inj (hg.symm.trans hfl)
    rw [Remote.nextHop?, iterate_relayed_upstream, if_pos hup] at hnext
    split at hnext
    next hvalid =>
      refine ⟨?_, fun i hi => ?_⟩
      · rw [Mesh.ancestor, ← hdst, ← hsame.parentMac]
        exact (Option.some.inj hnext).symm
      · rcases Nat.lt_succ_iff_lt_or_eq.mp hi with hi | rfl
        · exact htook i hi
        · rw [← hdst, ← hsame.relaysUp, Remote.relaysUp, hlocal, ← hlen, hpass, hvalid]
          rfl
    · cases hnext

/-- A chain of willing parents makes an upstream frame travel along it. -/
theorem travels_of_relaysUp {k : Nat} (hparse : parseFrame start.data = some f)
    (hup : hopsIsUpstream f.header.hopCount)
    (hwilling : ∀ i < k, (mesh (mesh.ancestor start.dst i)).relaysUp P.crypto
      ((relayed P.crypto)^[i] f) start.data.length) :
    ∃ m fl, Travels P mesh start k m fl := by
  induction k with
  | zero => exact ⟨mesh, start, .start⟩
  | succ k ih =>
    obtain ⟨m, fl, htravel⟩ := ih fun i hi => hwilling i (Nat.lt_succ_of_lt hi)
    obtain ⟨hfl, hlen⟩ := htravel.parse hparse
    have hdst := (htravel.up hparse hup).1
    have hlast : (m fl.dst).relaysUp P.crypto ((relayed P.crypto)^[k] f) fl.data.length := by
      rw [(htravel.sameRelay fl.dst).relaysUp, hdst, hlen]
      exact hwilling k (Nat.lt_succ_self k)
    simp only [Remote.relaysUp, Bool.and_eq_true, Bool.not_eq_true'] at hlast
    have hforward : Remote.Forwards P (.quiet 0 (Octets.zero 16)) (m fl.dst) fl.sender fl.data 0
        (m fl.dst).route.parentMac (relayed P.crypto ((relayed P.crypto)^[k] f)).bytes := by
      refine Remote.forwards_iff.mpr ⟨_, hfl, hlast.1.1, hlast.1.2, ?_, rfl⟩
      rw [Remote.nextHop?, iterate_relayed_upstream, if_pos hup, if_pos hlast.2]
    exact ⟨_, _, htravel.hop hforward⟩

/-- Downstream every relay counts, so that the limit is reached. -/
theorem Travels.down {k H : Nat} {m : Mesh η} {fl : Flight} (h : Travels P mesh start k m fl)
    (hH : H ≤ 15) (hmax : ∀ a, (mesh a).config.maxHops ≤ H)
    (hparse : parseFrame start.data = some f) (hdown : hopsIsUpstream f.header.hopCount = false) :
    (hopsCount ((relayed P.crypto)^[k] f).header.hopCount).toNat =
      (hopsCount f.header.hopCount).toNat + k ∧ (k = 0 ∨
        (hopsCount f.header.hopCount).toNat + k ≤ H) := by
  induction h with
  | start => exact ⟨rfl, .inl rfl⟩
  | @hop k m fl e rssi mac data' hs h ih =>
    obtain ⟨hcount, -⟩ := ih
    obtain ⟨hfl, -⟩ := hs.parse hparse
    obtain ⟨g, hg, -, hpass, -⟩ := Remote.forwards_iff.mp h
    obtain rfl := Option.some.inj (hg.symm.trans hfl)
    -- the relay's own limit was not reached when the frame came in
    have hlimit : (hopsCount f.header.hopCount).toNat + k < H := by
      simp only [Remote.passes, Bool.and_eq_true, decide_eq_true_eq] at hpass
      rw [← hcount]
      refine lt_of_lt_of_le hpass.1.1.1.2 ?_
      rw [(hs.sameRelay fl.dst).config]
      exact hmax _
    refine ⟨?_, .inr hlimit⟩
    rw [Function.iterate_succ_apply', hopsCount_relayed, hopsBehind, iterate_relayed_upstream,
      hdown, hcount]
    simp only [Bool.false_eq_true, if_false]
    omega

/-- What does not parse goes nowhere. -/
theorem Travels.of_unparsed {k : Nat} {m : Mesh η} {fl : Flight} (h : Travels P mesh start k m fl)
    (hparse : parseFrame start.data = none) : k = 0 ∧ fl = start := by
  induction h with
  | start => exact ⟨rfl, rfl⟩
  | hop hs h ih =>
    obtain ⟨-, rfl⟩ := ih
    obtain ⟨f, hf, -⟩ := h.next
    rw [hparse] at hf
    cases hf

/-- A frame is retransmitted at most `H` times exactly when it goes down, or when one of the
first `H + 1` nodes above the first receiver does not relay it. -/
theorem forwarding_bounded_iff (P : Remote.Platform η) (mesh : Mesh η) (start : Flight) (H : Nat)
    (hH : H ≤ 15) (hmax : ∀ a, (mesh a).config.maxHops ≤ H) :
    (∀ k m fl, Travels P mesh start k m fl → k ≤ H) ↔
      ∀ f, parseFrame start.data = some f → hopsIsUpstream f.header.hopCount →
        ∃ i ≤ H, (mesh (mesh.ancestor start.dst i)).relaysUp P.crypto ((relayed P.crypto)^[i] f)
          start.data.length = false := by
  constructor
  · intro hbound f hparse hup
    by_contra hall
    have hwilling : ∀ i < H + 1, (mesh (mesh.ancestor start.dst i)).relaysUp P.crypto
        ((relayed P.crypto)^[i] f) start.data.length := by
      intro i hi
      by_contra hnot
      exact hall ⟨i, Nat.lt_succ_iff.mp hi, by simpa using hnot⟩
    obtain ⟨m, fl, htravel⟩ := travels_of_relaysUp hparse hup hwilling
    exact absurd (hbound _ m fl htravel) (by omega)
  · intro hstop k m fl htravel
    cases hparse : parseFrame start.data with
    | none =>
      rw [(htravel.of_unparsed hparse).1]
      exact Nat.zero_le H
    | some f =>
      cases hup : hopsIsUpstream f.header.hopCount with
      | false =>
        rcases (htravel.down hH hmax hparse hup).2 with rfl | hle <;> omega
      | true =>
        obtain ⟨i, hi, hrefuses⟩ := hstop f hparse hup
        by_contra hlong
        have htook := (htravel.up hparse hup).2 i (by omega)
        rw [hrefuses] at htook
        cases htook

end

/-- A relay with parent `parentMac`. -/
def relayUnder (leafMac parentMac : Mac) : Remote Unit where
  config := { leafMac := leafMac }
  session := { normal := true, joined := true }
  route := { parentMac := parentMac, parentValid := true, canRelay := true }
  files := { handlers := fun _ => none }

/-- A leaf whose parent is a relay under the bridge. -/
def straightMesh : Mesh Unit := fun a =>
  if a = Octets.fit 6 [1] then relayUnder a (Octets.fit 6 [2])
  else { config := { leafMac := a }, files := { handlers := fun _ => none } }

/-- Two relays, each the parent of the other. -/
def cyclicMesh : Mesh Unit := fun a =>
  if a = Octets.fit 6 [1] then relayUnder a (Octets.fit 6 [2]) else relayUnder a (Octets.fit 6 [1])

/-- A frame that goes up. -/
def risingFrame : Frame := plain .sample (Octets.fit 6 [7]) .join (hopsMake 0 0) 1 none []

/-- That frame, sent to the relay with address 1. -/
def risingFlight : Flight := ⟨Octets.fit 6 [7], Octets.fit 6 [1], risingFrame.bytes⟩

theorem risingFlight_parse : parseFrame risingFlight.data = some risingFrame := by decide +kernel

/-- Above the leaf are the relay and the bridge only, so a frame that goes up is sent on at most
five times, with any limit up to five. -/
theorem forwarding_bounded_straightMesh :
    (∀ a, (straightMesh a).config.maxHops ≤ 5) ∧
      ∀ k m fl, Travels .sample straightMesh risingFlight k m fl → k ≤ 5 := by
  have hmax : ∀ a, (straightMesh a).config.maxHops ≤ 5 := by
    intro a
    unfold straightMesh
    split <;> exact le_rfl
  refine ⟨hmax, (forwarding_bounded_iff .sample straightMesh risingFlight 5 (by decide) hmax).mpr ?_⟩
  intro f hparse _
  obtain rfl := Option.some.inj (risingFlight_parse.symm.trans hparse)
  exact ⟨1, by decide, by decide +kernel⟩

/-- With the default limit of five hops, two relays that are each other's parent send an upstream
frame more than five times. -/
theorem forwarding_unbounded_cyclicMesh :
    (∀ a, (cyclicMesh a).config.maxHops = 5) ∧
      ∃ m fl, Travels .sample cyclicMesh risingFlight 6 m fl := by
  constructor
  · intro a
    unfold cyclicMesh
    split <;> rfl
  · exact travels_of_relaysUp risingFlight_parse (by decide +kernel) (by decide +kernel)

end EspTree
